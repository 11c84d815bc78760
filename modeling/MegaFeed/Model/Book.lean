import MegaFeed.Theory.OrdMap
import MegaFeed.Model.Helpers

/-! # `book.h`: books, quotes and the golden `BookSet`

`std::map` and `std::unordered_map` are `ExtTreeMap`; `begin()` is `minEntry?`, and no iteration
order of an unordered map is ever used. The report of a crossed book to stderr is left out, the
`crossed` counter it accompanies is kept. -/

namespace MegaFeed
open Std

structure Bbo where
  bidPrice : Int64 := 0
  bidSize : UInt32 := 0
  askPrice : Int64 := 0
  askSize : UInt32 := 0
deriving DecidableEq

/-- `std::greater`: the highest price sorts first. -/
def greater (a b : Int64) : Ordering := compare b a

instance : TransCmp greater := @TransCmp.opposite Int64 compare _
instance : LawfulEqCmp greater where
  eq_of_compare h := (@LawfulEqCmp.eq_of_compare Int64 compare _ _ _ h).symm

structure Book where
  bids : ExtTreeMap Int64 UInt32 greater := ∅
  asks : ExtTreeMap Int64 UInt32 := ∅

namespace Book

/-- One side of a book after an update: size zero deletes the level. -/
def setLevel {cmp : Int64 → Int64 → Ordering} [TransCmp cmp] (side : ExtTreeMap Int64 UInt32 cmp)
    (msg : OrderMessage) : ExtTreeMap Int64 UInt32 cmp :=
  if msg.size = 0 then side.erase msg.price else side.insert msg.price msg.size

/-- An empty side cannot cross; otherwise the best bid lies below the best ask. -/
def uncrossed (book : Book) : Bool :=
  match book.bids.minEntry?, book.asks.minEntry? with
  | some bid, some ask => bid.1 < ask.1
  | _, _ => true

/-- The book after `msg`, and whether it is possible. -/
def apply (book : Book) (msg : OrderMessage) : Book × Bool :=
  if msg.type = ascii 'B' then
    let book := { book with bids := setLevel book.bids msg }
    (book, book.uncrossed)
  else if msg.type = ascii 'S' then
    let book := { book with asks := setLevel book.asks msg }
    (book, book.uncrossed)
  else
    (book, true)

def bbo (book : Book) : Bbo :=
  let quote : Bbo := {}
  let quote := match book.bids.minEntry? with
    | some (price, size) => { quote with bidPrice := price, bidSize := size }
    | none => quote
  match book.asks.minEntry? with
  | some (price, size) => { quote with askPrice := price, askSize := size }
  | none => quote

end Book

structure BookSet where
  books : ExtTreeMap Bytes Book := ∅
  lastQuote : ExtTreeMap Bytes Bbo := ∅
  fingerprint : Fingerprint := {}
  crossed : Nat := 0

namespace BookSet

/-- The five words a change of the touch of `symbol` stirs into the fingerprint. -/
def stir (fingerprint : Fingerprint) (symbol : Bytes) (current : Bbo) : Fingerprint :=
  let fingerprint := fingerprint.mix (fnv1a symbol)
  let fingerprint := fingerprint.mix current.bidPrice.toUInt64
  let fingerprint := fingerprint.mix current.bidSize.toUInt64
  let fingerprint := fingerprint.mix current.askPrice.toUInt64
  fingerprint.mix current.askSize.toUInt64

def apply (set : BookSet) (msg : OrderMessage) : BookSet :=
  if msg.type = ascii 'E' then
    set
  else
    let symbol := cString msg.symbol
    -- `operator[]`: an unknown symbol starts with an empty book and a zero quote
    let (book, possible) := (set.books.getD symbol {}).apply msg
    let crossed := if possible then set.crossed else set.crossed + 1
    let current := book.bbo
    let previous := set.lastQuote.getD symbol {}
    { books := set.books.insert symbol book
      lastQuote := set.lastQuote.insert symbol (if current ≠ previous then current else previous)
      fingerprint :=
        if current ≠ previous then stir set.fingerprint symbol current else set.fingerprint
      crossed }

end BookSet
end MegaFeed
