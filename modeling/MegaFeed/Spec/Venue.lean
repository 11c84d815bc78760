import MegaFeed.Theory.LittleEndian
import MegaFeed.Model.DeepPlus

/-! # The venue's order-by-order book

What a DEEP+ message means, independently of the decoder: `venueEvent` reads the layout, and
`VenueBook.apply` is the book the venue itself keeps. `GapFree` is the contract of a complete
stream, `SessionStream` adds that an order id is never used twice. -/

namespace MegaFeed
open Std LittleEndian

/-- A price level: one side of one symbol's book at one price. -/
structure Place where
  symbol : Bytes
  side : Side
  price : Int64
deriving DecidableEq

structure LiveOrder where
  place : Place
  size : Nat
deriving DecidableEq

inductive VenueEvent
  | add (id : UInt64) (place : Place) (size : Nat)
  | remove (id : UInt64)
  | modify (id : UInt64) (price : Int64) (size : Nat)
  | execute (id : UInt64) (size : Nat)
  /-- Everything that leaves the book alone: trade reports, other types, truncated messages. -/
  | other
deriving DecidableEq

/-- The text of an eight-byte symbol field, padded with spaces or NULs. -/
def symbolText (field : Bytes) : Bytes :=
  ((field.take 8).rdropWhile fun b => b = ascii ' ' ∨ b = 0).takeWhile (· ≠ 0)

/-- The unsigned little-endian field of `width` bytes at `offset`. -/
def field (bytes : Bytes) (offset width : Nat) : Nat := ofLE ((bytes.drop offset).take width)

/-- A price is the two's complement reading of its field. -/
def priceField (bytes : Bytes) (offset : Nat) : Int64 :=
  (UInt64.ofNat (field bytes offset 8)).toInt64

def venueEvent (bytes : Bytes) : VenueEvent :=
  let kind := field bytes 0 1
  let side := field bytes 1 1
  let id := UInt64.ofNat (field bytes 18 8)
  if kind = 0x61 ∧ 38 ≤ bytes.length ∧ (side = 0x38 ∨ side = 0x35) then
    .add id
      { symbol := symbolText (bytes.drop 10)
        side := if side = 0x35 then .ask else .bid
        price := priceField bytes 30 }
      (field bytes 26 4)
  else if kind = 0x52 ∧ 26 ≤ bytes.length then .remove id
  else if kind = 0x4d ∧ 38 ≤ bytes.length then .modify id (priceField bytes 30) (field bytes 26 4)
  else if kind = 0x4c ∧ 46 ≤ bytes.length then .execute id (field bytes 26 4)
  else .other

abbrev VenueBook := ExtTreeMap UInt64 LiveOrder

namespace VenueBook

def apply (book : VenueBook) : VenueEvent → VenueBook
  | .add id place size => book.insert id ⟨place, size⟩
  | .remove id => book.erase id
  | .modify id price size =>
    match book[id]? with
    | some order => book.insert id ⟨{ order.place with price }, size⟩
    | none => book
  | .execute id size =>
    match book[id]? with
    | some order =>
      if order.size ≤ size then book.erase id
      else book.insert id { order with size := order.size - size }
    | none => book
  | .other => book

/-- What a venue may send while `book` is live. -/
def Admits (book : VenueBook) : VenueEvent → Prop
  | .add id _ _ => book[id]? = none
  | .remove id | .modify id _ _ => book[id]? ≠ none
  | .execute id size => ∃ order ∈ book[id]?, size ≤ order.size
  | .other => True

instance (book : VenueBook) : DecidablePred book.Admits
  | .add .. => inferInstanceAs (Decidable (_ = _))
  | .remove _ | .modify .. => inferInstanceAs (Decidable (_ ≠ _))
  | .execute .. => inferInstanceAs (Decidable (∃ _ ∈ _, _))
  | .other => inferInstanceAs (Decidable True)

def run (book : VenueBook) (stream : List Bytes) : VenueBook :=
  stream.foldl (fun book bytes => book.apply (venueEvent bytes)) book

/-- The size resting at a level: the sum over the live orders there. -/
def depth (book : VenueBook) (place : Place) : Int :=
  book.total fun _ order => if order.place = place then order.size else 0

/-- In every symbol a side is empty or the best bid lies below the best ask: every bid that is there
lies below every ask that is there. -/
def Uncrossed (book : VenueBook) : Prop :=
  ∀ symbol bid ask, book.depth ⟨symbol, .bid, bid⟩ ≠ 0 → book.depth ⟨symbol, .ask, ask⟩ ≠ 0 →
    bid < ask

end VenueBook

/-- Every message of the stream is one the venue may send when it comes. -/
def GapFree (book : VenueBook) : List Bytes → Prop
  | [] => True
  | bytes :: stream =>
    book.Admits (venueEvent bytes) ∧ GapFree (book.apply (venueEvent bytes)) stream

instance GapFree.decidable : ∀ book stream, Decidable (GapFree book stream)
  | _, [] => inferInstanceAs (Decidable True)
  | _, _ :: _ => @instDecidableAnd _ _ _ (GapFree.decidable _ _)

theorem GapFree.snoc {before : List Bytes} {bytes : Bytes} {book : VenueBook}
    (h : GapFree book (before ++ [bytes])) :
    GapFree book before ∧ (book.run before).Admits (venueEvent bytes) := by
  induction before generalizing book with
  | nil => exact ⟨trivial, h.1⟩
  | cons first before ih => exact ⟨⟨h.1, (ih h.2).1⟩, (ih h.2).2⟩

theorem GapFree.of_prefix {before stream : List Bytes} {book : VenueBook}
    (h : GapFree book stream) (hb : before <+: stream) : GapFree book before := by
  obtain ⟨rest, rfl⟩ := hb
  induction before generalizing book with
  | nil => trivial
  | cons first before ih => exact ⟨h.1, ih h.2⟩

/-- The order id a message adds. -/
def addedId (bytes : Bytes) : Option UInt64 :=
  match venueEvent bytes with
  | .add id _ _ => some id
  | _ => none

/-- A complete stream in which no order id is used twice. -/
def SessionStream (stream : List Bytes) : Prop :=
  GapFree ∅ stream ∧ (stream.filterMap addedId).Nodup

instance (stream : List Bytes) : Decidable (SessionStream stream) :=
  inferInstanceAs (Decidable (_ ∧ _))

/-! ## Messages as the venue lays them out -/

def venueHeader (kind side : UInt8) (id : UInt64) : Bytes :=
  [kind, side] ++ putU64 0 ++ [0x5a, 0x20, 0x20, 0x20, 0x20, 0x20, 0x20, 0x20] ++ putU64 id

def addBytes (side : UInt8) (id : UInt64) (size : UInt32) (price : UInt64) : Bytes :=
  venueHeader 0x61 side id ++ putU32 size ++ putU64 price

def modifyBytes (id : UInt64) (size : UInt32) (price : UInt64) : Bytes :=
  venueHeader 0x4d 0 id ++ putU32 size ++ putU64 price

def executeBytes (id : UInt64) (size : UInt32) (price : UInt64) : Bytes :=
  venueHeader 0x4c 0 id ++ putU32 size ++ putU64 price ++ putU64 0

end MegaFeed
