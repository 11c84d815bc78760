import MegaFeed.Verify.Alarm
import MegaFeed.Verify.Ladder

/-! # What a `BookSet` says of its messages

`BookSet.apply` keeps its books, the last quotes, the fingerprint and the counter up to date,
message by message. All four can be read off the messages themselves (`Tells`): the book of a symbol
is made by the messages of that symbol alone, the last quote is the touch of that book, the
fingerprint is that of the changes of a touch in order, and `crossed` counts the updates that left a
crossed book. `tells_history` says so in terms of the last updates. -/

namespace MegaFeed
open Std (ExtTreeMap)

variable {symbol : Bytes} {messages : List OrderMessage} {msg : OrderMessage}
  {set : BookSet} {book : Book}

/-! ## Of the messages -/

/-- What the last update of a level has set it to. -/
def standing (messages : List OrderMessage) (place : Place) : Option UInt32 :=
  (messages.filterMap (·.sets place)).getLast?.getD none

/-- The book that the messages of one symbol make. -/
def bookOf (symbol : Bytes) (messages : List OrderMessage) : Book :=
  messages.foldl (Book.watch symbol) {}

def touch (symbol : Bytes) (messages : List OrderMessage) : Bbo := (bookOf symbol messages).bbo

/-- The change of a touch that the last of the messages makes, if it makes one. -/
def changeOf (before : List OrderMessage) (msg : OrderMessage) : Option (Bytes × Bbo) :=
  let symbol := cString msg.symbol
  let current := touch symbol (before ++ [msg])
  if current ≠ touch symbol before then some (symbol, current) else none

/-- Every message, with those before it. -/
def rounds (messages : List OrderMessage) : List (List OrderMessage × OrderMessage) :=
  messages.zipIdx.map fun entry => (messages.take entry.2, entry.1)

/-- All changes of a touch, in order. -/
def changes (messages : List OrderMessage) : List (Bytes × Bbo) :=
  (rounds messages).filterMap fun round => changeOf round.1 round.2

/-- The message is an update, and leaves the book of its symbol crossed. -/
def Crosses (before : List OrderMessage) (msg : OrderMessage) : Bool :=
  (msg.type = ascii 'B' ∨ msg.type = ascii 'S') ∧
  (bookOf (cString msg.symbol) (before ++ [msg])).uncrossed = false

def crossings (messages : List OrderMessage) : Nat :=
  (rounds messages).countP fun round => Crosses round.1 round.2

/-- The best level of each side, zero for a side without levels. -/
structure Touch (level : Side → Int64 → Option UInt32) (quote : Bbo) : Prop where
  bid : (∀ price, level .bid price = none) ∧ quote.bidPrice = 0 ∧ quote.bidSize = 0 ∨
    level .bid quote.bidPrice = some quote.bidSize ∧ ∀ price, level .bid price ≠ none →
      price ≤ quote.bidPrice
  ask : (∀ price, level .ask price = none) ∧ quote.askPrice = 0 ∧ quote.askSize = 0 ∨
    level .ask quote.askPrice = some quote.askSize ∧ ∀ price, level .ask price ≠ none →
      quote.askPrice ≤ price

/-! ## One message more -/

theorem ite_ne_self [DecidableEq α] (a b : α) : (if a ≠ b then a else b) = a := by
  split
  · rfl
  · next heq => exact (not_not.mp heq).symm

theorem rounds_concat : rounds (messages ++ [msg]) = rounds messages ++ [(messages, msg)] := by
  rw [rounds, List.zipIdx_append, List.map_append]
  congr 1
  · refine List.map_congr_left fun entry hmem => ?_
    have hlt := (List.mem_zipIdx' hmem).1
    rw [List.take_append_of_le_length hlt.le]
  · simp

theorem standing_concat (place : Place) :
    standing (messages ++ [msg]) place = (msg.sets place).getD (standing messages place) := by
  rw [standing, List.filterMap_append, List.getLast?_append]
  cases h : msg.sets place with
  | none => simp [h, standing]
  | some size => simp [h]

theorem bookOf_concat : bookOf symbol (messages ++ [msg]) = (bookOf symbol messages).watch
    symbol msg := by
  rw [bookOf, List.foldl_append]
  rfl

theorem changes_concat : changes (messages ++ [msg]) = changes messages ++
    (changeOf messages msg).toList := by
  rw [changes, rounds_concat, List.filterMap_append, ← changes]
  cases h : changeOf messages msg <;> simp [h]

theorem crossings_concat : crossings (messages ++ [msg]) = crossings messages +
    (Crosses messages msg).toNat := by
  rw [crossings, rounds_concat, List.countP_append, ← crossings]
  cases h : Crosses messages msg <;> simp [h]

/-- A message that is no update of a side changes no book. -/
theorem bookOf_concat_other (h : ∀ side : Side, msg.type ≠ side.letter) :
    bookOf symbol (messages ++ [msg]) = bookOf symbol messages := by
  rw [bookOf_concat, Book.watch, Book.apply_other h]
  split <;> rfl

theorem bookOf_concat_self :
    bookOf (cString msg.symbol) (messages ++ [msg]) =
      ((bookOf (cString msg.symbol) messages).apply msg).1 := by
  rw [bookOf_concat, Book.watch, if_pos rfl]

theorem bookOf_concat_ne (h : cString msg.symbol ≠ symbol) :
    bookOf symbol (messages ++ [msg]) = bookOf symbol messages := by
  rw [bookOf_concat, Book.watch, if_neg h.symm]

/-- A message is impossible exactly if it is an update to a crossed book. -/
theorem crosses_iff :
    Crosses messages msg = !((bookOf (cString msg.symbol) messages).apply msg).2 := by
  rw [Crosses, bookOf_concat_self, Book.apply]
  split
  · next hbid => simp [hbid]
  · next hbid =>
    split
    · next hask => simp [hask]
    · next hask => simp [hbid, hask]

/-! ## The set -/

/-- What the set holds is what the messages make of it. -/
structure BookSet.Tells (set : BookSet) (messages : List OrderMessage) : Prop where
  books : ∀ symbol, set.books.getD symbol {} = bookOf symbol messages
  lastQuote : ∀ symbol, set.lastQuote.getD symbol {} = touch symbol messages
  fingerprint : set.fingerprint =
    (changes messages).foldl (fun fingerprint change => stir fingerprint change.1 change.2) {}
  crossed : set.crossed = crossings messages

theorem BookSet.tells_init : BookSet.Tells {} [] where
  books symbol := ExtTreeMap.getD_empty
  lastQuote symbol := by
    rw [ExtTreeMap.getD_empty, touch, bookOf, List.foldl_nil, Book.bbo]
    simp only [ExtTreeMap.minEntry?_eq_head?_toList, ExtTreeMap.toList_empty, List.head?_nil]
  fingerprint := rfl
  crossed := rfl

/-- The end marker is passed over. -/
theorem BookSet.Tells.apply_end (T : set.Tells messages) (h : msg.type = ascii 'E') :
    (set.apply msg).Tells (messages ++ [msg]) := by
  have hother (side : Side) : msg.type ≠ side.letter := by rw [h]; cases side <;> decide
  have hchange : changeOf messages msg = none := by
    rw [changeOf, touch, bookOf_concat_other hother]
    exact if_neg (not_not.mpr rfl)
  have hcrosses : Crosses messages msg = false := by
    rw [crosses_iff, Book.apply_other hother]
    rfl
  rw [BookSet.apply, if_pos h]
  refine ⟨fun symbol => ?_, fun symbol => ?_, ?_, ?_⟩
  · rw [bookOf_concat_other hother, T.books]
  · rw [touch, bookOf_concat_other hother, T.lastQuote, touch]
  · rw [changes_concat, hchange, T.fingerprint, Option.toList_none, List.append_nil]
  · rw [crossings_concat, hcrosses, T.crossed]
    rfl

theorem BookSet.Tells.apply (T : set.Tells messages) (msg : OrderMessage) :
    (set.apply msg).Tells (messages ++ [msg]) := by
  by_cases hend : msg.type = ascii 'E'
  · exact T.apply_end hend
  rw [BookSet.apply, if_neg hend]
  dsimp only
  refine ⟨fun symbol => ?_, fun symbol => ?_, ?_, ?_⟩
  · rw [ExtTreeMap.getD_insert, T.books, T.books, ← bookOf_concat_self]
    split
    · next hsame => rw [Std.LawfulEqCmp.eq_of_compare hsame]
    · next hother => rw [bookOf_concat_ne fun heq => hother (heq ▸ Std.ReflCmp.compare_self)]
  · rw [T.books, T.lastQuote, ← bookOf_concat_self, ← touch, ite_ne_self,
      ExtTreeMap.getD_insert, T.lastQuote]
    split
    · next hsame => rw [Std.LawfulEqCmp.eq_of_compare hsame]
    · next hother =>
        rw [touch, touch, bookOf_concat_ne fun heq => hother (heq ▸ Std.ReflCmp.compare_self)]
  · rw [T.books, T.lastQuote, ← bookOf_concat_self, ← touch, changes_concat, changeOf,
      List.foldl_append, ← T.fingerprint]
    split
    · simp only [Option.toList_some, List.foldl_cons, List.foldl_nil]
    · simp only [Option.toList_none, List.foldl_nil]
  · rw [T.books, crossings_concat, crosses_iff, T.crossed]
    dsimp only
    cases ((bookOf (cString msg.symbol) messages).apply msg).2 <;> rfl

theorem BookSet.tells_foldl (messages : List OrderMessage) :
    (messages.foldl BookSet.apply {}).Tells messages := by
  induction messages using List.reverseRecOn with
  | nil => exact BookSet.tells_init
  | append_singleton messages msg ih =>
    rw [List.foldl_append]
    exact ih.apply msg

/-! ## In terms of the last updates -/

theorem level_bookOf (symbol : Bytes) (messages : List OrderMessage) (side : Side) (price : Int64) :
    (bookOf symbol messages).level side price = standing messages ⟨symbol, side, price⟩ := by
  induction messages using List.reverseRecOn with
  | nil => cases side <;> exact ExtTreeMap.getElem?_empty
  | append_singleton messages msg ih =>
    rw [bookOf_concat, standing_concat, ← ih]
    exact Book.overwrites symbol (bookOf symbol messages) msg (side, price)

/-- `bbo` is the best level of each side. -/
theorem Book.touch_bbo (book : Book) : Touch book.level book.bbo where
  bid := by
    cases hbid : book.bids.minEntry? with
    | none =>
      refine .inl ⟨fun price => ?_, ?_⟩
      · exact ExtTreeMap.getElem?_eq_none (ExtTreeMap.minEntry?_eq_none hbid price)
      · cases hask : book.asks.minEntry? <;> simp [Book.bbo, hbid, hask]
    | some best =>
      have hquote : book.bbo.bidPrice = best.1 ∧ book.bbo.bidSize = best.2 := by
        cases hask : book.asks.minEntry? <;> simp [Book.bbo, hbid, hask]
      rw [hquote.1, hquote.2]
      refine .inr ⟨ExtTreeMap.getElem?_of_minEntry? hbid, fun price hprice => ?_⟩
      have hle := (ExtTreeMap.minEntry?_eq_some hbid).2 price (Book.mem_bids_iff.mpr hprice)
      exact Std.isLE_compare.mp hle
  ask := by
    cases hask : book.asks.minEntry? with
    | none =>
      refine .inl ⟨fun price => ?_, ?_⟩
      · exact ExtTreeMap.getElem?_eq_none (ExtTreeMap.minEntry?_eq_none hask price)
      · cases hbid : book.bids.minEntry? <;> simp [Book.bbo, hbid, hask]
    | some best =>
      have hquote : book.bbo.askPrice = best.1 ∧ book.bbo.askSize = best.2 := by
        cases hbid : book.bids.minEntry? <;> simp [Book.bbo, hbid, hask]
      rw [hquote.1, hquote.2]
      refine .inr ⟨ExtTreeMap.getElem?_of_minEntry? hask, fun price hprice => ?_⟩
      have hle := (ExtTreeMap.minEntry?_eq_some hask).2 price (Book.mem_asks_iff.mpr hprice)
      exact Std.isLE_compare.mp hle

theorem crossed_iff : ¬(bookOf symbol messages).uncrossed = true ↔ ∃ bid ask,
    standing messages ⟨symbol, .bid, bid⟩ ≠ none ∧ standing messages ⟨symbol, .ask, ask⟩ ≠ none ∧
    ask ≤ bid := by
  rw [Book.uncrossed_iff]
  simp only [Book.mem_bids_iff, Book.mem_asks_iff, level_bookOf, not_forall,
    Int64.not_lt, exists_prop]
  constructor
  · rintro ⟨bid, hbid, ask, hask, hle⟩
    exact ⟨bid, ask, hbid, hask, hle⟩
  · rintro ⟨bid, ask, hbid, hask, hle⟩
    exact ⟨bid, hbid, ask, hask, hle⟩

/-- **A set tells its history.** Whatever messages it is given, a level is as the last update of it
has left it, the last quote of a symbol is its touch, and the fingerprint and the counter are those
of the changes of a touch and of the updates that left a crossed book, where the book of a symbol
depends on the updates of that symbol only. -/
theorem BookSet.tells_history (messages : List OrderMessage) :
    let set := messages.foldl BookSet.apply {}
    (∀ place, set.level place = standing messages place) ∧
    (∀ symbol, set.lastQuote.getD symbol {} = touch symbol messages ∧
      Touch (fun side price => standing messages ⟨symbol, side, price⟩) (touch symbol messages)) ∧
    set.fingerprint = (changes messages).foldl (fun fingerprint change => stir fingerprint change.1
      change.2) {} ∧
    set.crossed = crossings messages ∧
    ∀ before msg, Crosses before msg = true ↔ (∃ side : Side, msg.type = side.letter) ∧
      ∃ bid ask, standing (before ++ [msg]) ⟨cString msg.symbol, .bid, bid⟩ ≠ none ∧
        standing (before ++ [msg]) ⟨cString msg.symbol, .ask, ask⟩ ≠ none ∧ ask ≤ bid := by
  intro set
  have T : set.Tells messages := BookSet.tells_foldl messages
  refine ⟨fun place => ?_, fun symbol => ⟨T.lastQuote symbol, ?_⟩, T.fingerprint, T.crossed,
    fun before msg => ?_⟩
  · rw [BookSet.level_eq, T.books, level_bookOf]
  · have hbest := (bookOf symbol messages).touch_bbo
    have hlevel : (bookOf symbol messages).level = fun side price =>
        standing messages ⟨symbol, side, price⟩ :=
      funext₂ (level_bookOf symbol messages)
    rwa [hlevel] at hbest
  · have htype : msg.type = ascii 'B' ∨ msg.type = ascii 'S' ↔ ∃ side : Side,
        msg.type = side.letter := by
      constructor
      · rintro (h | h)
        · exact ⟨.bid, h⟩
        · exact ⟨.ask, h⟩
      · rintro ⟨side, h⟩
        cases side with
        | bid => exact .inl h
        | ask => exact .inr h
    rw [Crosses, decide_eq_true_eq, htype, ← Bool.not_eq_true, crossed_iff]

end MegaFeed
