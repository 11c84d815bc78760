import MegaFeed.Spec.Venue

/-! # Symbols and where they come from -/

namespace MegaFeed

/-- A symbol that fits its field, without NULs and with no space at its end. -/
structure IsSymbol (symbol : Bytes) : Prop where
  pos : 1 ≤ symbol.length
  le : symbol.length ≤ 8
  nul : 0 ∉ symbol
  space : symbol.getLast? ≠ some (ascii ' ')

/-- The field holds the symbol, padded to eight bytes with spaces and NULs in any mix. -/
def Holds (field symbol : Bytes) : Prop :=
  field.length = 8 ∧ ∃ padding, field = symbol ++ padding ∧ ∀ b ∈ padding, b = ascii ' ' ∨ b = 0

/-- The bytes of a message where Adds and trade reports have their symbol. -/
def symbolField (bytes : Bytes) : Bytes := (bytes.drop 10).take 8

/-- The symbol field that the updates for a message come from, received after `before`: that of the
last Add of its order, or its own. -/
def origin (before : List Bytes) (bytes : Bytes) : Option Bytes :=
  match venueEvent bytes with
  | .remove id | .modify id _ _ | .execute id _ =>
    (before.findRev? fun add => addedId add = some id).map symbolField
  | .add .. | .other => some (symbolField bytes)

end MegaFeed
