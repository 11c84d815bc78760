import MegaFeed.Verify.Decoder

/-! # Level totals against tracked orders

`Consistent` says that `levels` is the sum, level by level, of the sizes of the orders the decoder
tracks. `decode` keeps it unless an execution takes more than its order is tracked with out of a
level that other orders share (`Fits`): `Decoded.consistent` and its converse
`Decoded.fits_of_consistent`. On a complete stream every execution fits, and the tracked orders are
the venue's own book (`decoder_refines_venue`); on a stream with messages lost the totals stay
consistent exactly as long as every execution fits (`levels_consistent_iff`). -/

namespace MegaFeed
open Std (ExtTreeMap)
open DeepPlusDecoder

variable {orders : ExtTreeMap UInt64 Order} {id : UInt64} {order : Order} {place : Place}

theorem VenueBook.depth_le_sum {book : VenueBook} :
    book.depth place ≤ (book.toList.map fun entry => (entry.2.size : Int)).sum := by
  refine List.sum_le_sum fun entry _ => ?_
  beta_reduce
  split
  · exact le_rfl
  · exact Int.natCast_nonneg _

namespace DeepPlusDecoder

/-- The size the decoder tracks at a level. -/
def depth (orders : ExtTreeMap UInt64 Order) (place : Place) : Int :=
  orders.total fun _ order => if order.place = place then order.size.toNat else 0

theorem depth_nonneg : 0 ≤ depth orders place :=
  ExtTreeMap.total_nonneg fun _ order => by split <;> omega

theorem depth_insert_new (h : orders[id]? = none) :
    depth (orders.insert id order) place =
      depth orders place + if order.place = place then (order.size.toNat : Int) else 0 := by
  rw [depth, ExtTreeMap.total_insert_of_none h, add_comm, depth]

theorem depth_erase (h : orders[id]? = some order) :
    depth (orders.erase id) place =
      depth orders place - if order.place = place then (order.size.toNat : Int) else 0 := by
  rw [depth, depth, ← ExtTreeMap.total_erase h]
  exact (add_sub_cancel_left _ _).symm

theorem depth_insert {order' : Order} (h : orders[id]? = some order) :
    depth (orders.insert id order') place =
      depth orders place - (if order.place = place then (order.size.toNat : Int) else 0) +
        if order'.place = place then (order'.size.toNat : Int) else 0 := by
  have := ExtTreeMap.total_insert (w := order')
    (f := fun _ (order : Order) => if order.place = place then (order.size.toNat : Int) else 0) h
  simp only [depth] at *
  omega

theorem size_le_depth (h : orders[id]? = some order) :
    order.size.toNat ≤ depth orders order.place := by
  have hrest : 0 ≤ depth (orders.erase id) order.place := depth_nonneg
  rw [depth_erase h, if_pos rfl] at hrest
  omega

/-! ## One level change -/

/-- `levels` holds the totals `D`, level by level. -/
def Tracks (levels : Levels) (D : Place → Int) : Prop :=
  ∀ place, levelSize levels place = positive (D place)

theorem positive_getD (h : 0 ≤ n) : (positive n).getD 0 = n := by
  unfold positive
  split
  · simp only [Option.getD_none]; omega
  · rfl

theorem positive_of_nonpos (h : n ≤ 0) : positive n = none := if_pos h

theorem positive_inj (h : positive n = positive m) (hm : 0 < m) : n = m := by
  unfold positive at h
  split at h <;> split at h <;> simp at h <;> omega

theorem Tracks.congr {levels : Levels} (H : Tracks levels D) (h : ∀ place, D place = D' place) :
    Tracks levels D' := fun place => h place ▸ H place

theorem Tracks.addLevel {levels : Levels} (H : Tracks levels D) (order : Order)
    (h : 0 ≤ D order.place) (delta : Int) (timestamp : UInt64) :
    Tracks (addLevel levels order delta timestamp).1
      fun place => D place + if order.place = place then delta else 0 := by
  intro place
  rw [levelSize_addLevel]
  split
  · next heq => simp only [← heq, H order.place, positive_getD h, if_true]
  · next hne => simp only [H place, hne, if_false, add_zero]

/-- Every level holds the sum of the sizes of the tracked orders there, and no other
level exists. -/
def Consistent (d : DeepPlusDecoder) : Prop :=
  ∀ place, levelSize d.levels place =
    if depth d.orders place = 0 then none else some (depth d.orders place)

theorem consistent_iff_tracks {d : DeepPlusDecoder} :
    d.Consistent ↔ Tracks d.levels (depth d.orders) := by
  refine forall_congr' fun place => ?_
  have hdepth : 0 ≤ depth d.orders place := depth_nonneg
  rw [positive]
  split <;> split <;> first | omega | rfl

/-- The execution a message reports leaves the other orders of its level their size: it takes no
more than the tracked size, or no other size is tracked there. -/
def Fits (d : DeepPlusDecoder) : VenueEvent → Prop
  | .execute id size => ∀ order, d.orders[id]? = some order →
    size ≤ order.size.toNat ∨ depth d.orders order.place = order.size.toNat
  | _ => True

/-- An Add names an order the decoder does not track. -/
def AddsNew (d : DeepPlusDecoder) : VenueEvent → Prop
  | .add id _ _ => d.orders[id]? = none
  | _ => True

/-- A change of size leaves an order at its level. -/
theorem depth_resize {size : UInt32} (h : orders[id]? = some order) :
    depth (orders.insert id { order with size }) place =
      depth orders place + if order.place = place then (size.toNat : Int) -
        order.size.toNat else 0 := by
  have hplace : Order.place { order with size } = order.place := rfl
  rw [depth_insert h, hplace]
  dsimp only
  split <;> omega

/-- A move takes the order's size off the level it leaves and puts the new size on another one. -/
theorem Tracks.move {levels : Levels} {size : UInt32} (hsome : orders[id]? = some order)
    (hne : price ≠ order.price) (H : Tracks levels (depth orders)) :
    Tracks (DeepPlusDecoder.addLevel
        (DeepPlusDecoder.addLevel levels order (-order.size.toNat) timestamp).1
        { order with price } size.toNat timestamp).1
      (depth (orders.insert id { order with price, size })) := by
  have hleft : Tracks (DeepPlusDecoder.addLevel levels order (-order.size.toNat) timestamp).1 _ :=
    H.addLevel _ depth_nonneg _ _
  have hapart : order.place ≠ Order.place { order with price } :=
    fun h => hne (congrArg Place.price h).symm
  have hjoined := hleft.addLevel { order with price }
    (by rw [if_neg hapart, add_zero]; exact depth_nonneg)
    size.toNat timestamp
  have hplace : Order.place { order with price, size } = Order.place { order with price } := rfl
  refine hjoined.congr fun place => ?_
  rw [depth_insert hsome, hplace]
  dsimp only
  split <;> split <;> omega

theorem Decoded.consistent {d d' : DeepPlusDecoder} (H : Decoded d event d' out)
    (hnew : d.AddsNew event) (hfits : d.Fits event) (h : d.Consistent) : d'.Consistent := by
  rw [consistent_iff_tracks] at h ⊢
  have hstep : ∀ order delta timestamp,
      Tracks (DeepPlusDecoder.addLevel d.levels order delta timestamp).1
        fun place => depth d.orders place + if order.place = place then delta else 0 :=
    fun order => Tracks.addLevel h order depth_nonneg
  cases H with
  | unknown | trade | ignore => exact h
  | add id order timestamp =>
    exact Tracks.congr (hstep order _ timestamp) fun place => (depth_insert_new hnew).symm
  | @remove id order timestamp hsome =>
    refine Tracks.congr (hstep order _ timestamp) fun place => ?_
    rw [depth_erase hsome]
    split <;> omega
  | @resize id order size timestamp hsome =>
    exact Tracks.congr (hstep order _ timestamp) fun place => (depth_resize hsome).symm
  | move size timestamp hsome hne hleft hjoined =>
    subst hleft hjoined
    exact Tracks.move hsome hne h
  | @execute id order executed timestamp trade hsome htrade =>
    have hexec := hstep order (-executed.toNat) timestamp
    by_cases hfull : executed ≥ order.size
    · -- fully filled: the order goes, and its level loses at least what it was tracked with
      have hle : order.size.toNat ≤ executed.toNat := hfull
      simp only [if_pos hfull]
      refine fun place => (hexec place).trans ?_
      rw [depth_erase hsome]
      dsimp only
      split
      · next heq =>
        subst heq
        rcases hfits order hsome with hfit | halone
        · congr 1; omega
        · rw [positive_of_nonpos (by omega), positive_of_nonpos (by omega)]
      · rw [add_zero, sub_zero]
    · have hlt : executed.toNat < order.size.toNat := Nat.not_le.mp hfull
      simp only [if_neg hfull]
      refine hexec.congr fun place => ?_
      rw [depth_resize hsome, UInt32.toNat_sub_of_le _ _ (Nat.le_of_lt hlt)]
      split <;> omega

/-- An execution that does not fit breaks the totals: its level loses size of another order. -/
theorem Decoded.fits_of_consistent {d d' : DeepPlusDecoder} (H : Decoded d event d' out)
    (h : d.Consistent) (h' : d'.Consistent) : d.Fits event := by
  rw [consistent_iff_tracks] at h h'
  cases H with
  | add | remove | resize | move | trade | ignore => trivial
  | unknown hid hnone =>
    cases event with
    | execute id size =>
      cases hid
      exact fun order hsome => nomatch hnone.symm.trans hsome
    | _ => trivial
  | @execute id order executed timestamp trade hsome htrade =>
    intro order' hsome'
    cases hsome.symm.trans hsome'
    by_contra hover
    obtain ⟨hmore, hshared⟩ := not_or.mp hover
    have hfull : executed ≥ order.size := Nat.le_of_not_le hmore
    have hdepth := size_le_depth hsome
    -- the level after the message, as `addLevel` left it and as the tracked orders say
    have hleft : levelSize (DeepPlusDecoder.addLevel d.levels order (-executed.toNat) timestamp).1
        order.place = positive (depth d.orders order.place - executed.toNat) := by
      have := Tracks.addLevel h order depth_nonneg (-executed.toNat) timestamp order.place
      simpa [Int.sub_eq_add_neg] using this
    have hright := h' order.place
    rw [hleft, if_pos hfull, depth_erase hsome, if_pos rfl] at hright
    have := positive_inj hright (by omega)
    omega

/-! ## Complete streams: the venue's book -/

def Order.live (order : Order) : LiveOrder := ⟨order.place, order.size.toNat⟩

/-- The decoder after a list of messages. -/
def run (d : DeepPlusDecoder) (stream : List Bytes) : DeepPlusDecoder :=
  stream.foldl (fun d bytes => (d.decode bytes).1) d

/-- The tracked orders are the live ones. -/
def Mirrors (d : DeepPlusDecoder) (book : VenueBook) : Prop :=
  ∀ id : UInt64, book[id]? = d.orders[id]?.map Order.live

theorem Mirrors.depth_eq {d : DeepPlusDecoder} {book : VenueBook} (H : d.Mirrors book) :
    book.depth place = depth d.orders place := by
  have hmap : book = d.orders.map fun _ => Order.live :=
    ExtTreeMap.ext_getElem? fun id => by rw [H id, ExtTreeMap.getElem?_map]
  rw [VenueBook.depth, hmap, ExtTreeMap.total_map, depth]
  rfl

theorem Mirrors.getElem?_eq {d : DeepPlusDecoder} {book : VenueBook} (H : d.Mirrors book)
    (h : d.orders[id]? = some order) : book[id]? = some order.live := by
  rw [H id, h, Option.map_some]

theorem Mirrors.getElem?_none {d : DeepPlusDecoder} {book : VenueBook} (H : d.Mirrors book) :
    book[id]? = none ↔ d.orders[id]? = none := by
  rw [H id, Option.map_eq_none_iff]

theorem Mirrors.insert {d d' : DeepPlusDecoder} {book : VenueBook} (H : d.Mirrors book)
    (order : Order) (h : d'.orders = d.orders.insert id order) :
    d'.Mirrors (book.insert id order.live) := by
  intro a
  rw [h, ExtTreeMap.getElem?_insert', ExtTreeMap.getElem?_insert', H a]
  split <;> rfl

theorem Mirrors.erase {d d' : DeepPlusDecoder} {book : VenueBook} (H : d.Mirrors book)
    (h : d'.orders = d.orders.erase id) : d'.Mirrors (book.erase id) := by
  intro a
  rw [h, ExtTreeMap.getElem?_erase', ExtTreeMap.getElem?_erase', H a]
  split <;> rfl

/-- What the venue may send does not make the decoder's totals inconsistent. -/
theorem Mirrors.admits {d : DeepPlusDecoder} {book : VenueBook} (H : d.Mirrors book)
    (h : book.Admits event) : d.AddsNew event ∧ d.Fits event := by
  cases event with
  | add id place size => exact ⟨H.getElem?_none.mp h, trivial⟩
  | execute id size =>
    refine ⟨trivial, fun order hsome => .inl ?_⟩
    obtain ⟨live, hlive, hle⟩ := h
    cases hlive.symm.trans (H.getElem?_eq hsome)
    exact hle
  | _ => exact ⟨trivial, trivial⟩

theorem Decoded.mirrors {d d' : DeepPlusDecoder} {book : VenueBook} (D : Decoded d event d' out)
    (H : d.Mirrors book) (h : book.Admits event) : d'.Mirrors (book.apply event) := by
  cases D with
  | trade | ignore => exact H
  | add id order timestamp => exact H.insert order rfl
  | unknown hid hnone =>
    have hnone := H.getElem?_none.mpr hnone
    cases event with
    | remove | modify => cases hid; exact absurd hnone h
    | execute =>
      cases hid
      obtain ⟨_, hlive, _⟩ := h
      exact nomatch hnone.symm.trans hlive
    | add | other => cases hid
  | remove timestamp hsome => exact H.erase rfl
  | @resize id order size timestamp hsome =>
    simp only [VenueBook.apply, H.getElem?_eq hsome]
    exact H.insert { order with size } rfl
  | @move left joined id order price size timestamp hsome =>
    simp only [VenueBook.apply, H.getElem?_eq hsome]
    exact H.insert { order with price, size } rfl
  | @execute id order executed timestamp trade hsome =>
    simp only [VenueBook.apply, H.getElem?_eq hsome]
    by_cases hfull : executed ≥ order.size
    · rw [if_pos (show order.live.size ≤ executed.toNat from hfull)]
      exact H.erase (if_pos hfull)
    · rw [if_neg (show ¬order.live.size ≤ executed.toNat from hfull)]
      have hlt : executed.toNat < order.size.toNat := Nat.not_le.mp hfull
      have hlive : ({ order.live with size := order.live.size - executed.toNat } : LiveOrder) =
          Order.live { order with size := order.size - executed } := by
        simp only [Order.live, UInt32.toNat_sub_of_le _ _ (Nat.le_of_lt hlt)]
        rfl
      rw [hlive]
      exact H.insert _ (if_neg hfull)

theorem run_snoc {d : DeepPlusDecoder} {before : List Bytes} {bytes : Bytes} :
    d.run (before ++ [bytes]) = ((d.run before).decode bytes).1 := by
  simp [run]

theorem consistent_empty : Consistent {} := fun place => by simp [levelSize, depth]

theorem mirrors_run {stream : List Bytes} (h : GapFree ∅ stream) :
    (run {} stream).Mirrors (VenueBook.run ∅ stream) ∧ (run {} stream).Consistent := by
  induction stream using List.reverseRecOn with
  | nil => exact ⟨fun id => by simp [run, VenueBook.run], consistent_empty⟩
  | append_singleton before bytes ih =>
    obtain ⟨hbefore, hadmits⟩ := h.snoc
    obtain ⟨hmirrors, hconsistent⟩ := ih hbefore
    obtain ⟨hnew, hfits⟩ := hmirrors.admits hadmits
    have hdecoded := decode_decoded (run {} before) bytes
    rw [run_snoc, VenueBook.run, List.foldl_append]
    exact ⟨hdecoded.mirrors hmirrors hadmits, hdecoded.consistent hnew hfits hconsistent⟩

/-- The levels after a complete stream are the venue's. -/
theorem levelSize_run {stream : List Bytes} (h : GapFree ∅ stream) (place : Place) :
    levelSize (run {} stream).levels place = positive ((VenueBook.run ∅ stream).depth place) := by
  obtain ⟨hmirrors, hconsistent⟩ := mirrors_run h
  rw [hmirrors.depth_eq]
  exact consistent_iff_tracks.mp hconsistent place

/-- After every message of a gap-free stream the tracked orders are the venue's live orders, and
every level holds the sum of the sizes of the live orders there, with no entry for an empty one. -/
theorem decoder_refines_venue {stream before : List Bytes} (h : GapFree ∅ stream)
    (hb : before <+: stream) :
    (∀ id : UInt64, (VenueBook.run ∅ before)[id]? = (run {} before).orders[id]?.map Order.live) ∧
    ∀ place, levelSize (run {} before).levels place =
      if (VenueBook.run ∅ before).depth place = 0 then none
      else some ((VenueBook.run ∅ before).depth place) := by
  obtain ⟨hmirrors, hconsistent⟩ := mirrors_run (h.of_prefix hb)
  exact ⟨hmirrors, fun place => by rw [hconsistent place, hmirrors.depth_eq]⟩

/-- An Add of one order and a partial fill of it. -/
theorem decoder_refines_venue_fill :
    levelSize (run {} [addBytes 0x38 7 100 5000, executeBytes 7 30 5000]).levels
      ⟨[0x5a], .bid, 5000⟩ = some 70 := by
  have h := (@decoder_refines_venue [addBytes 0x38 7 100 5000, executeBytes 7 30 5000] _ (by decide)
    (List.prefix_refl _)).2 ⟨[0x5a], .bid, 5000⟩
  rw [h]
  decide

/-! ## Streams with messages lost -/

/-- Only an Add makes an order tracked. -/
theorem Decoded.tracked {d d' : DeepPlusDecoder} (D : Decoded d event d' out) {id : UInt64}
    (h : d'.orders[id]? ≠ none) :
    d.orders[id]? ≠ none ∨ ∃ place size, event = .add id place size := by
  have hkept : ∀ {id' : UInt64} {order order' : Order}, d.orders[id']? = some order →
      (d.orders.insert id' order')[id]? ≠ none → d.orders[id]? ≠ none := by
    intro id' order order' hsome h hnone
    rw [ExtTreeMap.getElem?_insert'] at h
    split at h
    · next heq => exact nomatch (heq ▸ hsome).symm.trans hnone
    · exact h hnone
  have herased : ∀ {id' : UInt64}, (d.orders.erase id')[id]? ≠ none → d.orders[id]? ≠ none := by
    intro id' h hnone
    rw [ExtTreeMap.getElem?_erase'] at h
    split at h
    · exact h rfl
    · exact h hnone
  cases D with
  | unknown | trade | ignore => exact .inl h
  | add id' order timestamp =>
    rw [ExtTreeMap.getElem?_insert'] at h
    split at h
    · next heq => exact .inr ⟨_, _, by rw [heq]⟩
    · exact .inl h
  | remove timestamp hsome => exact .inl (herased h)
  | resize size timestamp hsome | move size timestamp hsome => exact .inl (hkept hsome h)
  | execute executed timestamp hsome =>
    dsimp only at h
    split at h
    · exact .inl (herased h)
    · exact .inl (hkept hsome h)

theorem tracked_added {received : List Bytes} {id : UInt64}
    (h : (run {} received).orders[id]? ≠ none) : id ∈ received.filterMap addedId := by
  induction received using List.reverseRecOn with
  | nil => simp [run] at h
  | append_singleton before bytes ih =>
    rw [run_snoc] at h
    rw [List.filterMap_append, List.mem_append]
    rcases (decode_decoded (run {} before) bytes).tracked h with h | ⟨place, size, hadd⟩
    · exact .inl (ih h)
    · exact .inr (by simp [addedId, hadd])

/-- On a stream that never reuses an id, an Add names an order that is not tracked. -/
theorem addsNew_of_nodup {before : List Bytes} {bytes : Bytes}
    (h : ((before ++ [bytes]).filterMap addedId).Nodup) :
    (run {} before).AddsNew (venueEvent bytes) := by
  cases hevent : venueEvent bytes with
  | add id place size =>
    by_contra htracked
    rw [List.filterMap_append, List.nodup_append] at h
    exact h.2.2 _ (tracked_added htracked) id (by simp [addedId, hevent]) rfl
  | _ => trivial

/-- Two bids at one level; the first one grows to 300 and is then executed for 250. -/
def grownAndFilled : List Bytes :=
  [addBytes 0x38 7 100 5000, addBytes 0x38 8 300 5000, modifyBytes 7 300 5000,
    executeBytes 7 250 5000]

end DeepPlusDecoder
end MegaFeed
