import MegaFeed.Spec.Routing
import MegaFeed.Model.FeedPublisher
import MegaFeed.Model.Visualizer
import MegaFeed.Verify.Levels
import MegaFeed.Verify.Codec

/-! # A symbol is routed to whoever watches it

What is decoded for an order has the symbol of the Add that made it tracked (`run_symbols`), as a
text that neither the padding of its field nor the way over the wire changes (`symbolText_of_holds`,
`cString_decode_encode`). So every update for a symbol is published in the bucket of that symbol,
and a visualizer takes it for its own if and only if it watches that symbol (`symbol_routing`). -/

namespace MegaFeed
open Std (ExtTreeMap)

variable {field symbol : Bytes} {bytes : Bytes} {msg : OrderMessage}

/-! ## Fields -/

theorem rdropWhile_append {p : α → Bool} {xs padding : List α} (h : ∀ a ∈ padding, p a) :
    (xs ++ padding).rdropWhile p = xs.rdropWhile p := by
  induction padding using List.reverseRecOn with
  | nil => rw [List.append_nil]
  | append_singleton padding a ih =>
    obtain ⟨hpadding, hlast⟩ := List.forall_mem_append.mp h
    rw [← List.append_assoc, List.rdropWhile_concat_pos _ _ _ (hlast a (List.mem_singleton_self a))]
    exact ih hpadding

/-- Trimming a field leaves the symbol it holds. -/
theorem symbolText_of_holds (h : Holds field symbol) (hsymbol : IsSymbol symbol) :
    symbolText field = symbol := by
  obtain ⟨hlength, padding, rfl, hpadding⟩ := h
  have hkept : symbol.rdropWhile (fun b => b = ascii ' ' ∨ b = 0) = symbol := by
    refine List.rdropWhile_eq_self_iff.mpr fun hne hlast => ?_
    rcases of_decide_eq_true hlast with hspace | hnul
    · exact hsymbol.space (by rw [List.getLast?_eq_getLast_of_ne_nil hne, hspace])
    · exact hsymbol.nul (hnul ▸ List.getLast_mem hne)
  have htext : ∀ b ∈ symbol, decide (b ≠ 0) = true := fun b hmem =>
    decide_eq_true fun hzero => hsymbol.nul (hzero ▸ hmem)
  rw [symbolText, List.take_of_length_le hlength.le,
    rdropWhile_append fun b hmem => decide_eq_true (hpadding b hmem), hkept,
    List.takeWhile_eq_self_iff.mpr htext]

theorem symbolText_symbolField (bytes : Bytes) :
    symbolText (symbolField bytes) = symbolText (bytes.drop 10) := by
  rw [symbolText, symbolField, List.take_take]
  rfl

/-! ## Arrays -/

theorem terminated_copySymbol (h : msg.symbol = copySymbol bytes) : msg.Terminated := by
  have hle : symbolLength bytes 8 ≤ 8 := symbolLength_le
  rw [OrderMessage.Terminated, h]
  simp [copySymbol, hle]

/-- The way over the wire keeps a message whose symbol ends in NUL. -/
theorem decode_encode (hnul : msg.Terminated) (buffer rest : Bytes) :
    OrderMessage.decode (OrderMessage.encode buffer msg ++ rest) = msg := by
  rw [OrderMessage.encode_append, List.append_assoc]
  exact OrderMessage.decode_wire hnul

namespace DeepPlusDecoder

/-! ## Orders -/

variable {d d' : DeepPlusDecoder} {out : List OrderMessage}

/-- Every order has the symbol of an order that was tracked under its id before. -/
def KeepsSymbols (orders orders' : ExtTreeMap UInt64 Order) : Prop :=
  ∀ (id : UInt64) (order : Order), orders'[id]? = some order →
    ∃ old, orders[id]? = some old ∧ order.symbol = old.symbol

theorem keepsSymbols_refl (orders : ExtTreeMap UInt64 Order) : KeepsSymbols orders orders :=
  fun _ order h => ⟨order, h, rfl⟩

theorem keepsSymbols_erase (orders : ExtTreeMap UInt64 Order) (id : UInt64) :
    KeepsSymbols orders (orders.erase id) := by
  intro id' order h
  rw [ExtTreeMap.getElem?_erase'] at h
  split at h
  · cases h
  · exact ⟨order, h, rfl⟩

theorem keepsSymbols_insert {orders : ExtTreeMap UInt64 Order} {id : UInt64} {order order' : Order}
    (hsome : orders[id]? = some order) (h : order'.symbol = order.symbol) :
    KeepsSymbols orders (orders.insert id order') := by
  intro id' order'' h'
  rw [ExtTreeMap.getElem?_insert'] at h'
  split at h'
  · next heq =>
    cases h'
    exact ⟨order, heq ▸ hsome, h⟩
  · exact ⟨order'', h', rfl⟩

/-- Where symbols are copied from: an Add and a trade report bring their own, and an order that is
tracked keeps its symbol and lends it to its updates. -/
structure Copies (d : DeepPlusDecoder) (bytes : Bytes) (d' : DeepPlusDecoder)
    (out : List OrderMessage) :
    Prop where
  out : ∀ msg ∈ out,
    (∃ id order, VenueEvent.reference (venueEvent bytes) = some id ∧ d.orders[id]? = some order ∧
      msg.symbol = order.symbol) ∨
    VenueEvent.reference (venueEvent bytes) = none ∧ 18 ≤ bytes.length ∧
      msg.symbol = copySymbol (bytes.drop 10)
  added : ∀ id order, addedId bytes = some id → d'.orders[id]? = some order →
    18 ≤ bytes.length ∧ order.symbol = copySymbol (bytes.drop 10)
  kept : ∀ id order, addedId bytes ≠ some id → d'.orders[id]? = some order →
    ∃ old, d.orders[id]? = some old ∧ order.symbol = old.symbol

/-- A message about an order. -/
theorem copies_reference {id : UInt64} (h : VenueEvent.reference (venueEvent bytes) = some id)
    (horders : KeepsSymbols d.orders d'.orders)
    (hout : ∀ msg ∈ out, ∃ order, d.orders[id]? = some order ∧ msg.symbol = order.symbol) :
    Copies d bytes d' out where
  out msg hmem := by
    obtain ⟨order, hsome, hsymbol⟩ := hout msg hmem
    exact .inl ⟨id, order, h, hsome, hsymbol⟩
  added id' order hadd := by
    unfold addedId at hadd
    cases hevent : venueEvent bytes <;> rw [hevent] at h hadd <;> cases h <;> cases hadd
  kept id' order _ := horders id' order

/-- A message about an order that is not tracked. -/
theorem copies_unknown {id : UInt64} {unknownReferences : Nat}
    (h : VenueEvent.reference (venueEvent bytes) = some id) :
    Copies d bytes { d with unknownReferences } [] :=
  copies_reference h (keepsSymbols_refl _) fun _ hmem => absurd hmem List.not_mem_nil

theorem decode_copies (d : DeepPlusDecoder) (bytes : Bytes) :
    Copies d bytes (d.decode bytes).1 (d.decode bytes).2 := by
  obtain ⟨event, hevent⟩ : ∃ event, venueEvent bytes = event := ⟨_, rfl⟩
  have hother : event = .other → Copies d bytes d [] := by
    rintro rfl
    exact ⟨fun msg hmem => absurd hmem List.not_mem_nil,
      fun id order hadd => by simp [addedId, hevent] at hadd,
      fun id order _ => keepsSymbols_refl _ id order⟩
  by_cases hshort : bytes.length < 26
  · rw [decode, if_pos hshort]
    refine hother ?_
    simp only [← hevent, venueEvent]
    rw [if_neg (by omega), if_neg (by omega), if_neg (by omega), if_neg (by omega)]
  obtain ⟨hadd, hremove, hmodify, hexecute, hbuy, hsell, hid⟩ := header_iff (Nat.not_lt.mp hshort)
  have hlong : 18 ≤ bytes.length := by omega
  have hunfold := hevent
  revert hunfold
  simp only [decode, if_neg hshort, venueEvent, hadd, hremove, hmodify, hexecute, hbuy, hsell, hid,
    ge_iff_le]
  generalize UInt64.ofNat (field bytes 18 8) = id
  split
  · rintro rfl
    have hown : addedId bytes = some id := by rw [addedId, hevent]
    refine ⟨fun msg hmem => .inr ?_, fun id' order hadd hsome => ?_, fun id' order hadd hsome => ?_⟩
    · rw [hevent, List.mem_singleton.mp hmem]
      exact ⟨rfl, hlong, rfl⟩
    · cases hown.symm.trans hadd
      rw [ExtTreeMap.getElem?_insert_self] at hsome
      cases hsome
      exact ⟨hlong, rfl⟩
    · have hne : id ≠ id' := fun heq => hadd (heq ▸ hown)
      rw [ExtTreeMap.getElem?_insert', if_neg hne] at hsome
      exact ⟨order, hsome, rfl⟩
  split
  · rintro rfl
    have hreference : VenueEvent.reference (venueEvent bytes) = some id := by rw [hevent]; rfl
    cases hsome : d.orders[id]? with
    | none => exact copies_unknown hreference
    | some order =>
      refine copies_reference hreference (keepsSymbols_erase _ _) fun msg hmem => ?_
      rw [List.mem_singleton.mp hmem]
      exact ⟨order, hsome, rfl⟩
  split
  · rintro rfl
    have hreference : VenueEvent.reference (venueEvent bytes) = some id := by rw [hevent]; rfl
    cases hsome : d.orders[id]? with
    | none => exact copies_unknown hreference
    | some order =>
      dsimp only
      split
      · refine copies_reference hreference (keepsSymbols_insert hsome rfl) fun msg hmem => ?_
        rw [List.mem_singleton.mp hmem]
        exact ⟨order, hsome, rfl⟩
      · refine copies_reference hreference (keepsSymbols_insert hsome rfl) fun msg hmem => ?_
        rcases List.mem_cons.mp hmem with rfl | hmem
        · exact ⟨order, hsome, rfl⟩
        · rw [List.mem_singleton.mp hmem]
          exact ⟨order, hsome, rfl⟩
  split
  · rintro rfl
    have hreference : VenueEvent.reference (venueEvent bytes) = some id := by rw [hevent]; rfl
    cases hsome : d.orders[id]? with
    | none => exact copies_unknown hreference
    | some order =>
      have horders :
          KeepsSymbols d.orders (if getU32 (bytes.drop 26) ≥ order.size then d.orders.erase id
          else d.orders.insert id { order with size := order.size - getU32 (bytes.drop 26) }) := by
        split
        · exact keepsSymbols_erase _ _
        · exact keepsSymbols_insert hsome rfl
      refine copies_reference hreference horders fun msg hmem => ⟨order, hsome, ?_⟩
      rcases List.mem_cons.mp hmem with rfl | hmem
      · rfl
      · rw [List.mem_singleton.mp hmem]
  split
  · rintro rfl
    refine ⟨fun msg hmem => .inr ?_, fun id order hadd => by simp [addedId, hevent] at hadd,
      fun id order _ => keepsSymbols_refl _ id order⟩
    rw [hevent, List.mem_singleton.mp hmem]
    exact ⟨rfl, hlong, rfl⟩
  · exact fun h => hother h.symm

/-- An order has the symbol of the last Add with its id. -/
def Symbols (before : List Bytes) (d : DeepPlusDecoder) : Prop :=
  ∀ (id : UInt64) (order : Order), d.orders[id]? = some order →
    ∃ add, before.findRev? (fun add => addedId add = some id) = some add ∧ 18 ≤ add.length ∧
      order.symbol = copySymbol (add.drop 10)

theorem symbols_run (before : List Bytes) : Symbols before (run {} before) := by
  induction before using List.reverseRecOn with
  | nil =>
    intro id order h
    simp [run] at h
  | append_singleton before bytes ih =>
    intro id order h
    rw [run_snoc] at h
    rw [List.findRev?_eq_find?_reverse, List.reverse_append, List.reverse_singleton,
      List.singleton_append, List.find?_cons]
    by_cases hadd : addedId bytes = some id
    · simp only [hadd, decide_true]
      exact ⟨bytes, rfl, (decode_copies _ bytes).added id order hadd h⟩
    · obtain ⟨old, hold, hsymbol⟩ := (decode_copies _ bytes).kept id order hadd h
      obtain ⟨add, hfind, hlength, heq⟩ := ih id old hold
      simp only [hadd, decide_false]
      exact ⟨add, by rw [← List.findRev?_eq_find?_reverse, hfind], hlength, hsymbol.trans heq⟩

/-- Every update has the symbol of the field it comes from. -/
theorem exists_origin {before : List Bytes} (h : msg ∈ ((run {} before).decode bytes).2) :
    ∃ field, origin before bytes = some field ∧ field.length = 8 ∧ cString msg.symbol =
      symbolText field ∧
      msg.Terminated := by
  have hcopied : ∀ source : Bytes, 18 ≤ source.length → msg.symbol = copySymbol (source.drop 10) →
      (symbolField source).length = 8 ∧ cString msg.symbol = symbolText (symbolField source) ∧
        msg.Terminated := by
    intro source hlength hsymbol
    refine ⟨length_take_of_le (by rw [List.length_drop]; omega), ?_, terminated_copySymbol hsymbol⟩
    rw [hsymbol, symbolText_symbolField, cString_copySymbol (by rw [List.length_drop]; omega)]
  rcases (decode_copies _ bytes).out msg h with ⟨id, order, hid, hsome, hsymbol⟩ | ⟨hnone,
    hlength, hsymbol⟩
  · obtain ⟨add, hfind, hlength, heq⟩ := symbols_run before id order hsome
    refine ⟨symbolField add, ?_, hcopied add hlength (hsymbol.trans heq)⟩
    unfold origin
    cases hevent :
      venueEvent bytes <;> rw [hevent] at hid <;> cases hid <;> simp only [hfind, Option.map_some]
  · refine ⟨symbolField bytes, ?_, hcopied bytes hlength hsymbol⟩
    unfold origin
    cases hevent : venueEvent bytes <;> rw [hevent] at hnone <;> cases hnone

/-! ## The way to the consumer -/

/-- **Symbol routing.** Every update that is decoded after any messages comes from a symbol field,
and if that holds a symbol, it is published in the bucket of the symbol, and on the other side of
the wire a visualizer of any symbol takes it for its own if and only if that symbol is its own, in
whose bucket it then is. -/
theorem symbol_routing {bucketCount ringSize : Nat} [NeZero bucketCount] [NeZero ringSize]
    {before : List Bytes} (h : msg ∈ ((run {} before).decode bytes).2) :
    ∃ field, origin before bytes = some field ∧ field.length = 8 ∧
      ∀ symbol, IsSymbol symbol → Holds field symbol →
        bucketOf symbol bucketCount < bucketCount ∧
        (∀ publisher : FeedPublisher bucketCount ringSize,
          (publisher.publish msg).2.assigned.map (fun a => (a.bucket, a.msg)) =
            [(bucketOf symbol bucketCount, msg)] ∧
          ∀ packet ∈ (publisher.publish msg).2.sent, packet.destination =
          bucketOf symbol bucketCount) ∧
        ∀ (visualizer : Visualizer) (buffer rest : Bytes), IsSymbol visualizer.symbol →
          (visualizer.watches (OrderMessage.decode (OrderMessage.encode buffer msg ++ rest)) ↔
            visualizer.symbol = symbol) ∧
          (visualizer.symbol = symbol → visualizer.bucketId bucketCount =
            bucketOf symbol bucketCount) := by
  obtain ⟨field, horigin, hlength, htext, hnul⟩ := exists_origin h
  refine ⟨field, horigin, hlength, fun symbol hsymbol hholds => ?_⟩
  rw [symbolText_of_holds hholds hsymbol] at htext
  refine ⟨bucketOf_lt, fun publisher => ?_, fun visualizer buffer rest hwatched => ⟨?_, ?_⟩⟩
  · rw [← htext]
    refine ⟨rfl, fun packet hmem => ?_⟩
    simp only [FeedPublisher.publish] at hmem
    split at hmem
    · cases hmem
    · rw [List.mem_singleton.mp hmem]
      rfl
  · rw [decode_encode hnul, Visualizer.watches, decide_eq_true_eq, htext]
  · rintro rfl
    have hall : ∀ b ∈ visualizer.symbol, decide (b ≠ 0) = true := fun b hmem =>
      decide_eq_true fun hzero => hwatched.nul (hzero ▸ hmem)
    rw [Visualizer.bucketId, List.takeWhile_eq_self_iff.mpr hall]

/-- The trade of an order that was added under the symbol Z, padded with spaces. -/
theorem symbol_routing_execution : ∃ msg ∈ ((run {} [addBytes 0x38 7 100 5000]).decode
      (executeBytes 7 30 5000)).2, msg.type = ascii 'T' ∧
    (Visualizer.mk [0x5a] {} {}).watches
      (OrderMessage.decode (OrderMessage.encode [] msg ++ [])) := by
  have hmem : (⟨ascii 'T', copySymbol [0x5a], 5000, 30, 0⟩ : OrderMessage) ∈
      ((run {} [addBytes 0x38 7 100 5000]).decode (executeBytes 7 30 5000)).2 := by decide
  refine ⟨_, hmem, rfl, ?_⟩
  obtain ⟨field, horigin, -, hrouted⟩ := @symbol_routing _ _ 4 1 _ _ _ hmem
  have hfield : field = [0x5a, 0x20, 0x20, 0x20, 0x20, 0x20, 0x20, 0x20] := by
    have horigin' : origin [addBytes 0x38 7 100 5000] (executeBytes 7 30 5000) =
        some [0x5a, 0x20, 0x20, 0x20, 0x20, 0x20, 0x20, 0x20] := by decide
    exact Option.some.inj (horigin.symm.trans horigin')
  have hsymbol : IsSymbol [0x5a] := ⟨by decide, by decide, by decide, by decide⟩
  have hholds : Holds field [0x5a] :=
    ⟨by rw [hfield]; rfl, List.replicate 7 0x20, hfield,
      fun b hb => .inl (List.eq_of_mem_replicate hb)⟩
  exact ((hrouted [0x5a] hsymbol hholds).2.2 _ _ _ hsymbol).1.mpr rfl

end DeepPlusDecoder
end MegaFeed
