import MegaFeed.Verify.Levels
import MegaFeed.Verify.BookMirror

/-! # When the published sizes are exact

A level is kept in 64 bits and published in 32. An update says what its level holds exactly if the
level holds less than 2^32 (`saysTotal_addLevel`). Only an Add or a Modify makes a level larger, so
the updates of a run are all exact if and only if each of these finds room for its size
(`sizes_exact_iff`). -/

namespace MegaFeed
open DeepPlusDecoder

variable {levels levels' : Levels} {order : Order} {delta : Int} {timestamp : UInt64}
  {msg : OrderMessage}
  {d d' : DeepPlusDecoder} {event : VenueEvent} {out : List OrderMessage}

/-! ## One level -/

theorem toNat_ofInt_eq_iff {total : Int} (h : 0 ≤ total) :
    ((UInt32.ofInt total).toNat : Int) = total ↔ total < 2 ^ 32 := by
  obtain ⟨n, rfl⟩ := Int.eq_ofNat_of_zero_le h
  rw [UInt32.ofInt, UInt32.toNat_ofNat']
  omega

theorem Side.letter_inj {side side' : Side} (h : side.letter = side'.letter) : side = side' := by
  cases side <;> cases side' <;> first | rfl | exact absurd h (by decide)

theorem positive_getD_lt {total : Int} : (positive total).getD 0 < 2 ^ 32 ↔ total < 2 ^ 32 := by
  unfold positive
  split
  · simp only [Option.getD_none]
    omega
  · rfl

theorem Bounded.getD_lt (h : Bounded levels) (place : Place) :
    (levelSize levels place).getD 0 < 2 ^ 32 := by
  cases htotal : levelSize levels place with
  | none => exact Int.pow_pos (by decide)
  | some total => exact h place total htotal

theorem Bounded.addLevel_of_lt (h : Bounded levels)
    (hroom : (levelSize levels order.place).getD 0 + delta < 2 ^ 32) :
    Bounded (DeepPlusDecoder.addLevel levels order delta timestamp).1 := by
  intro place total hsome
  rw [levelSize_addLevel] at hsome
  split at hsome
  · next heq =>
    have := positive_getD_lt.mpr hroom
    rwa [heq, hsome] at this
  · exact h place total hsome

namespace DeepPlusDecoder

/-- An update of a level has the size that the level has, and zero only if there is no
such level. -/
def SaysTotal (levels : Levels) (msg : OrderMessage) : Prop :=
  ∀ side : Side, msg.type = side.letter →
    (msg.size.toNat : Int) = (levelSize levels ⟨cString msg.symbol, side, msg.price⟩).getD 0 ∧
    (msg.size = 0 → levelSize levels ⟨cString msg.symbol, side, msg.price⟩ = none)

/-- The level that an Add or a Modify puts size on has room for it in 32 bits. -/
def Room (d : DeepPlusDecoder) : VenueEvent → Prop
  | .add _ place size => (levelSize d.levels place).getD 0 + size < 2 ^ 32
  | .modify id price size => ∀ order, d.orders[id]? = some order →
    if price = order.price then
      (levelSize d.levels order.place).getD 0 - order.size.toNat + size < 2 ^ 32
    else (levelSize d.levels { order.place with price }).getD 0 + size < 2 ^ 32
  | .remove _ | .execute _ _ | .other => True

/-- `levels'` may differ from the levels after `addLevel` elsewhere. -/
theorem saysTotal_addLevel
    (h : levelSize levels' order.place = levelSize (addLevel levels order delta timestamp).1
      order.place) :
    SaysTotal levels' (addLevel levels order delta timestamp).2 ↔
      (levelSize levels order.place).getD 0 + delta < 2 ^ 32 := by
  have A := @addLevel_announces delta timestamp levels order
  have hafter :
      levelSize levels' order.place = positive ((levelSize levels order.place).getD 0 + delta) := by
    rw [h, levelSize_addLevel, if_pos rfl]
  generalize (addLevel levels order delta timestamp).2 = msg at A
  have hsize := A.size
  rw [← h] at hsize
  have hplace : (⟨cString msg.symbol, order.place.side, msg.price⟩ : Place) = order.place := by
    rw [A.symbol, A.price]
  have hpos : ∀ total, levelSize levels' order.place = some total → 0 < total := by
    rw [h]
    exact A.pos
  have hnonneg : 0 ≤ (levelSize levels' order.place).getD 0 := by
    cases htotal : levelSize levels' order.place with
    | none => exact le_rfl
    | some total => exact (hpos total htotal).le
  rw [← positive_getD_lt, ← hafter, ← toNat_ofInt_eq_iff hnonneg, ← hsize]
  constructor
  · intro hsame
    have := (hsame order.place.side A.type).1
    rwa [hplace] at this
  · intro hexact side hside
    cases Side.letter_inj (A.type.symm.trans hside)
    rw [hplace]
    refine ⟨hexact, fun hzero => ?_⟩
    rw [hzero] at hexact
    cases htotal : levelSize levels' order.place with
    | none => rfl
    | some total =>
      rw [htotal] at hexact
      exact absurd (hpos total htotal) (by simpa using hexact.symm.le)

theorem saysTotal_trade (h : msg.type = ascii 'T') : SaysTotal levels msg := by
  intro side hside
  rw [h] at hside
  cases side <;> exact absurd hside (by decide)

/-! ## One message -/

theorem Decoded.bounded (D : Decoded d event d' out) (h : Bounded d.levels) (hroom : d.Room event) :
    Bounded d'.levels := by
  cases D with
  | unknown | trade | ignore => exact h
  | add id order timestamp => exact @Bounded.addLevel_of_lt d.levels order _ timestamp h hroom
  | @remove id order timestamp hsome =>
      exact @Bounded.addLevel _ timestamp d.levels h order (by omega)
  | @resize id order size timestamp hsome =>
    have hroom := hroom order hsome
    rw [if_pos rfl] at hroom
    have hlt :
        (levelSize d.levels order.place).getD 0 + ((size.toNat : Int) - order.size.toNat) <
          2 ^ 32 := by
      omega
    exact @Bounded.addLevel_of_lt d.levels order _ timestamp h hlt
  | @move left joined id order price size timestamp hsome hne hleft hjoined =>
    subst hleft hjoined
    have hroom := hroom order hsome
    rw [if_neg hne] at hroom
    have hbounded := @Bounded.addLevel (-order.size.toNat) timestamp d.levels h order (by omega)
    refine @Bounded.addLevel_of_lt _ { order with price } _ timestamp hbounded ?_
    have hapart : order.place ≠ Order.place { order with price } :=
      fun heq => hne (congrArg Place.price heq).symm
    rw [levelSize_addLevel, if_neg hapart]
    exact hroom
  | @execute id order executed timestamp trade hsome htrade =>
      exact @Bounded.addLevel _ timestamp d.levels h order (by omega)

/-- While all levels are below 2^32, the updates of a message are exact if and only if it
finds room. -/
theorem Decoded.exact_iff (D : Decoded d event d' out) (h : Bounded d.levels) :
    (∀ msg ∈ out, SaysTotal d'.levels msg) ↔ d.Room event := by
  have htaken : ∀ (order : Order) (size : Nat), (levelSize d.levels order.place).getD 0 +
      -(size : Int) < 2 ^ 32 := by
    intro order size
    have := h.getD_lt order.place
    omega
  cases D with
  | ignore => exact iff_of_true nofun trivial
  | trade htrade => exact iff_of_true (fun msg hmem => by
      rw [List.mem_singleton.mp hmem]
      exact saysTotal_trade htrade) trivial
  | unknown hid hnone =>
    refine iff_of_true nofun ?_
    cases event with
    | modify id price size =>
      cases hid
      exact fun order hsome => nomatch hnone.symm.trans hsome
    | remove | execute => trivial
    | add | other => cases hid
  | add id order timestamp =>
    rw [List.forall_mem_singleton]
    exact saysTotal_addLevel rfl
  | remove timestamp hsome =>
    rw [List.forall_mem_singleton, saysTotal_addLevel rfl]
    exact iff_of_true (htaken _ _) trivial
  | @resize id order size timestamp hsome =>
    rw [List.forall_mem_singleton, saysTotal_addLevel rfl]
    constructor
    · intro hlt order' hsome'
      cases hsome.symm.trans hsome'
      rw [if_pos rfl]
      omega
    · intro hroom
      have hroom := hroom order hsome
      rw [if_pos rfl] at hroom
      omega
  | @move left joined id order price size timestamp hsome hne hleft hjoined =>
    subst hleft hjoined
    have hapart : Order.place { order with price } ≠ order.place :=
      fun heq => hne (congrArg Place.price heq)
    have hleft : SaysTotal (addLevel (addLevel d.levels order (-order.size.toNat) timestamp).1
        { order with price } size.toNat timestamp).1
        (addLevel d.levels order (-order.size.toNat) timestamp).2 :=
      (saysTotal_addLevel (by rw [levelSize_addLevel, if_neg hapart])).mpr
        (htaken order order.size.toNat)
    rw [List.forall_mem_cons, List.forall_mem_singleton, saysTotal_addLevel rfl, levelSize_addLevel,
      if_neg hapart.symm]
    constructor
    · rintro ⟨-, hlt⟩ order' hsome'
      cases hsome.symm.trans hsome'
      rw [if_neg hne]
      exact hlt
    · intro hroom
      have hroom := hroom order hsome
      rw [if_neg hne] at hroom
      exact ⟨hleft, hroom⟩
  | execute executed timestamp hsome htrade =>
    rw [List.forall_mem_cons, List.forall_mem_singleton, saysTotal_addLevel rfl]
    exact iff_of_true ⟨htaken _ _, saysTotal_trade htrade⟩ trivial

/-! ## Runs -/

/-- Every update that is emitted along `messages` says what its level holds. -/
def SizesExact (messages : List Bytes) : Prop :=
  ∀ before bytes, before ++ [bytes] <+: messages → ∀ msg ∈ ((run {} before).decode bytes).2,
    SaysTotal ((run {} before).decode bytes).1.levels msg

theorem bounded_of_room {messages before : List Bytes} (hb : before <+: messages)
    (h : ∀ before bytes, before ++ [bytes] <+: messages → Bounded (run {} before).levels →
      (run {} before).Room (venueEvent bytes)) : Bounded (run {} before).levels := by
  induction before using List.reverseRecOn with
  | nil => exact fun place total hsome => by simp [run, levelSize] at hsome
  | append_singleton before bytes ih =>
    have hbefore := ih ((List.prefix_append _ _).trans hb)
    rw [run_snoc]
    exact (decode_decoded _ bytes).bounded hbefore (h before bytes hb hbefore)

/-- **Published sizes.** Every update emitted along any messages has exactly the size of its level,
and the size zero, which deletes it, only if there is no such level, if and only if every Add and
every Modify of them leaves the level it puts size on below 2^32. -/
theorem sizes_exact_iff (messages : List Bytes) :
    SizesExact messages ↔ ∀ before bytes, before ++ [bytes] <+: messages →
      (run {} before).Room (venueEvent bytes) := by
  constructor
  · intro hexact before bytes hb
    refine ((decode_decoded _ bytes).exact_iff ?_).mp (hexact before bytes hb)
    exact bounded_of_room ((List.prefix_append _ _).trans hb) fun before' bytes' hb' hbounded =>
      ((decode_decoded _ bytes').exact_iff hbounded).mp (hexact before' bytes' hb')
  · intro hroom before bytes hb
    refine ((decode_decoded _ bytes).exact_iff ?_).mpr (hroom before bytes hb)
    exact bounded_of_room ((List.prefix_append _ _).trans hb) fun before' bytes' hb' _ =>
      hroom before' bytes' hb'

/-- Two orders of 2^31 shares at one price: the second Add is published as a delete. -/
theorem full_level_deleted : ¬∀ messages : List Bytes, SizesExact messages := by
  intro hall
  have hzero := hall [addBytes 0x38 7 2147483648 5000, addBytes 0x38 8 2147483648 5000]
    [addBytes 0x38 7 2147483648 5000] (addBytes 0x38 8 2147483648 5000) (List.prefix_refl _)
    ⟨ascii 'B', copySymbol [0x5a, 0x20, 0x20, 0x20, 0x20, 0x20, 0x20, 0x20], 5000, 0, 0⟩ (by decide)
    .bid rfl
  exact absurd (hzero.2 rfl) (by decide)

end DeepPlusDecoder
end MegaFeed
