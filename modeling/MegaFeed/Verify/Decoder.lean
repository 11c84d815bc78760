import MegaFeed.Spec.Venue
import MegaFeed.Verify.Helpers

/-! # What one `decode` can do

`Decoded` lists the outcomes of `DeepPlusDecoder.decode` by the venue event the message denotes;
`decode_decoded` is its inversion lemma, and every later fact about the decoder is read off it.
`levelSize_addLevel` is the only property of `addLevel` the proofs use. -/

namespace MegaFeed
open Std LittleEndian DeepPlusDecoder

variable {bytes : Bytes} {i n : Nat}

/-! ## Fields -/

theorem field_one (h : i < bytes.length) : field bytes i 1 = (bytes.byte i).toNat := by
  rw [field, List.drop_eq_getElem_cons h, List.take_succ_cons, List.take_zero]
  simp [ofLE, Bytes.byte, h]

theorem toNat_getU32_drop (h : i + 4 ≤ bytes.length) :
    (getU32 (bytes.drop i)).toNat = field bytes i 4 :=
  toNat_getU32 (by simp; omega)

theorem getU64_drop (h : i + 8 ≤ bytes.length) :
    getU64 (bytes.drop i) = UInt64.ofNat (field bytes i 8) := by
  rw [field, ← toNat_getU64 (by simp; omega), UInt64.ofNat_toNat]

theorem byte_eq_iff {value : UInt8} (h : i < bytes.length) :
    bytes.byte i = value ↔ field bytes i 1 = value.toNat := by
  rw [field_one h, UInt8.toNat_inj]

/-! ## Symbols -/

theorem symbolLength_le : symbolLength bytes n ≤ n := by
  induction n with
  | zero => simp [symbolLength]
  | succ n ih => simp only [symbolLength]; split <;> omega

theorem take_symbolLength (h : n ≤ bytes.length) :
    bytes.take (symbolLength bytes n) =
      (bytes.take n).rdropWhile fun b => b = ascii ' ' ∨ b = 0 := by
  induction n with
  | zero => simp [symbolLength]
  | succ n ih =>
    have hn : n < bytes.length := by omega
    have hbyte : bytes.byte n = bytes[n] := by simp [Bytes.byte, hn]
    have hsnoc : bytes.take (n + 1) = bytes.take n ++ [bytes[n]] := by simp
    rw [symbolLength, hbyte, hsnoc, List.rdropWhile_concat]
    split
    · next hpad => rw [ih (by omega), if_pos (by simpa using hpad)]
    · next hpad => rw [if_neg (by simpa using hpad), hsnoc]

theorem cString_copySymbol (h : 8 ≤ bytes.length) :
    cString (copySymbol bytes) = symbolText bytes := by
  have hlen : symbolLength bytes 8 ≤ 8 := symbolLength_le
  have hlist : (copySymbol bytes).toList = bytes.take (symbolLength bytes 8) ++
      List.replicate (9 - symbolLength bytes 8) 0 := by
    refine List.ext_getElem (by simp; omega) fun i hi _ => ?_
    simp only [copySymbol, Vector.getElem_toList, Vector.getElem_ofFn, List.getElem_append,
      List.length_take, List.getElem_take, List.getElem_replicate, Bytes.byte]
    have hi : i < 9 := by simpa using hi
    by_cases hs : i < symbolLength bytes 8
    · have hb : i < bytes.length := by omega
      simp [hs, hb]
    · simp [hs]
  rw [cString, hlist, take_symbolLength h, symbolText]
  obtain ⟨k, hk⟩ : ∃ k, 9 - symbolLength bytes 8 = k + 1 := ⟨8 - symbolLength bytes 8, by omega⟩
  rw [hk, List.replicate_succ, List.takeWhile_append]
  split
  · next hall => rw [(List.takeWhile_prefix _).eq_of_length hall]; simp
  · rfl

/-! ## Levels -/

theorem Level.side_setSide {level : Level} {sizes : ExtTreeMap Int64 Int} {s t : Side} :
    (level.setSide sizes s).side t = if s = t then sizes else level.side t := by
  cases s <;> cases t <;> rfl

namespace DeepPlusDecoder

def Order.place (order : Order) : Place := ⟨cString order.symbol, order.side, order.price⟩

/-- The entry of `levels` at one symbol, side and price. -/
def levelSize (levels : Levels) (place : Place) : Option Int :=
  levels[place.symbol]?.bind fun level => (level.side place.side)[place.price]?

/-- The total of a level as the source keeps it: no entry at zero or below. -/
def positive (total : Int) : Option Int := if total ≤ 0 then none else some total

/-- The side map `addLevel` works on, missing levels and symbols included. -/
theorem getElem?_side_getD {levels : Levels} {symbol : Bytes} {side : Side} {price : Int64} :
    ((levels.getD symbol {}).side side)[price]? = levelSize levels ⟨symbol, side, price⟩ := by
  rw [levelSize, ExtTreeMap.getD_eq_getD_getElem?]
  cases levels[symbol]? with
  | none => cases side <;> simp [Level.side]
  | some level => simp

/-- `addLevel` moves the one level of the order by `delta`. -/
theorem levelSize_addLevel {levels : Levels} {order : Order} {place : Place} :
    levelSize (addLevel levels order delta timestamp).1 place =
      if order.place = place then positive ((levelSize levels place).getD 0 + delta)
      else levelSize levels place := by
  obtain ⟨symbol, side, price⟩ := place
  by_cases hsym : cString order.symbol = symbol
  · subst hsym
    rw [← getElem?_side_getD, ← getElem?_side_getD]
    simp only [addLevel, Order.place, Place.mk.injEq, true_and, ExtTreeMap.getD_eq_getD_getElem?,
      ExtTreeMap.getElem?_insert_self, Option.getD_some, Level.side_setSide, positive]
    by_cases hside : order.side = side
    · subst hside
      by_cases hprice : order.price = price
      · subst hprice
        simp only [and_self, if_true]
        split <;> simp
      · simp only [hprice, and_false, if_true, if_false]
        split <;> simp [hprice, ExtTreeMap.getElem?_erase', ExtTreeMap.getElem?_insert']
    · simp [hside]
  · have hne : order.place ≠ ⟨symbol, side, price⟩ := fun h => hsym (congrArg Place.symbol h)
    rw [if_neg hne]
    simp [addLevel, levelSize, ExtTreeMap.getElem?_insert', hsym]

/-! ## Outcomes -/

/-- The order id a message refers back to. -/
def VenueEvent.reference : VenueEvent → Option UInt64
  | .remove id | .modify id _ _ | .execute id _ => some id
  | _ => none

/-- The outcomes of decoding a message that denotes a given venue event. -/
inductive Decoded (d : DeepPlusDecoder) :
    VenueEvent → DeepPlusDecoder → List OrderMessage → Prop
  | add (id : UInt64) (order : Order) (timestamp : UInt64) :
    Decoded d (.add id order.place order.size.toNat)
      { d with
        orders := d.orders.insert id order
        levels := (addLevel d.levels order order.size.toNat timestamp).1 }
      [(addLevel d.levels order order.size.toNat timestamp).2]
  | unknown {id : UInt64} (hid : VenueEvent.reference event = some id)
      (hnone : d.orders[id]? = none) :
    Decoded d event { d with unknownReferences := d.unknownReferences + 1 } []
  | remove {id : UInt64} {order : Order} (timestamp : UInt64) (hsome : d.orders[id]? = some order) :
    Decoded d (.remove id)
      { d with
        orders := d.orders.erase id
        levels := (addLevel d.levels order (-order.size.toNat) timestamp).1 }
      [(addLevel d.levels order (-order.size.toNat) timestamp).2]
  | resize {id : UInt64} {order : Order} (size : UInt32) (timestamp : UInt64)
      (hsome : d.orders[id]? = some order) :
    Decoded d (.modify id order.price size.toNat)
      { d with
        orders := d.orders.insert id { order with size }
        levels := (addLevel d.levels order ((size.toNat : Int) - order.size.toNat) timestamp).1 }
      [(addLevel d.levels order ((size.toNat : Int) - order.size.toNat) timestamp).2]
  | move {id : UInt64} {order : Order} {price : Int64} (size : UInt32) (timestamp : UInt64)
      (hsome : d.orders[id]? = some order) (hne : price ≠ order.price)
      (hleft : left = addLevel d.levels order (-order.size.toNat) timestamp)
      (hjoined : joined = addLevel left.1 { order with price } size.toNat timestamp) :
    Decoded d (.modify id price size.toNat)
      { d with
        orders := d.orders.insert id { order with price, size }
        levels := joined.1 }
      [left.2, joined.2]
  | execute {id : UInt64} {order : Order} (executed : UInt32) (timestamp : UInt64)
      {trade : OrderMessage} (hsome : d.orders[id]? = some order)
      (htrade : trade.type = ascii 'T') :
    Decoded d (.execute id executed.toNat)
      { d with
        orders :=
          if executed ≥ order.size then d.orders.erase id
          else d.orders.insert id { order with size := order.size - executed }
        levels := (addLevel d.levels order (-executed.toNat) timestamp).1 }
      [(addLevel d.levels order (-executed.toNat) timestamp).2, trade]
  | trade {trade : OrderMessage} (htrade : trade.type = ascii 'T') : Decoded d .other d [trade]
  | ignore : Decoded d .other d []

/-- The type and side bytes and the order id of the source, as the layout reads them. -/
theorem header_iff (h : 26 ≤ bytes.length) :
    (bytes.byte 0 = ORDER_ADD ↔ field bytes 0 1 = 0x61) ∧
    (bytes.byte 0 = 0x52 ↔ field bytes 0 1 = 0x52) ∧
    (bytes.byte 0 = 0x4d ↔ field bytes 0 1 = 0x4d) ∧
    (bytes.byte 0 = 0x4c ↔ field bytes 0 1 = 0x4c) ∧
    (bytes.byte 1 = SIDE_BUY ↔ field bytes 1 1 = 0x38) ∧
    (bytes.byte 1 = SIDE_SELL ↔ field bytes 1 1 = 0x35) ∧
    getU64 (bytes.drop 18) = UInt64.ofNat (field bytes 18 8) :=
  ⟨byte_eq_iff (by omega), byte_eq_iff (by omega), byte_eq_iff (by omega), byte_eq_iff (by omega),
    byte_eq_iff (by omega), byte_eq_iff (by omega), getU64_drop (by omega)⟩

theorem decode_decoded (d : DeepPlusDecoder) (bytes : Bytes) :
    Decoded d (venueEvent bytes) (d.decode bytes).1 (d.decode bytes).2 := by
  by_cases hshort : bytes.length < 26
  · have hevent : venueEvent bytes = .other := by
      simp only [venueEvent]
      rw [if_neg (by omega), if_neg (by omega), if_neg (by omega), if_neg (by omega)]
    rw [hevent, decode, if_pos hshort]
    exact .ignore
  have hword : ∀ i, i + 4 ≤ bytes.length →
      field bytes i 4 = (getU32 (bytes.drop i)).toNat := fun i hi => (toNat_getU32_drop hi).symm
  have hprice : 38 ≤ bytes.length →
      priceField bytes 30 = (getU64 (bytes.drop 30)).toInt64 := fun hlen => by
    rw [priceField, getU64_drop (by omega)]
  obtain ⟨hadd, hremove, hmodify, hexecute, hbuy, hsell, hid⟩ := header_iff (Nat.not_lt.mp hshort)
  simp only [decode, if_neg hshort, venueEvent, hadd, hremove, hmodify, hexecute, hbuy, hsell, hid,
    ge_iff_le]
  generalize UInt64.ofNat (field bytes 18 8) = id
  split
  · rw [hword 26 (by omega), hprice (by omega), ← cString_copySymbol (by simp; omega)]
    exact .add id ⟨copySymbol (bytes.drop 10), _, _, _⟩ _
  split
  · cases hsome : d.orders[id]? with
    | none => exact .unknown rfl hsome
    | some order => exact .remove _ hsome
  split
  · rw [hword 26 (by omega), hprice (by omega)]
    cases hsome : d.orders[id]? with
    | none => exact .unknown rfl hsome
    | some order =>
      dsimp only
      split
      · next hstay =>
        rw [hstay]
        exact .resize _ _ hsome
      · next hmove => exact .move _ _ hsome hmove rfl rfl
  split
  · rw [hword 26 (by omega)]
    cases hsome : d.orders[id]? with
    | none => exact .unknown rfl hsome
    | some order => exact .execute _ _ hsome rfl
  split
  · exact .trade rfl
  · exact .ignore

end DeepPlusDecoder
end MegaFeed
