import MegaFeed.Theory.Folds
import MegaFeed.Model.Book

/-! # Fingerprints that differ stay different

Stirring a byte into the hash is xor with it and multiplication by an odd number, and loses nothing.
So `mix` is injective in the hash, words that differ in one byte take a hash to different ones, and
books whose fingerprints have come apart once keep them apart (`never_healed`). -/

namespace MegaFeed
open Folds

/-- Stirs in one byte. -/
def stirByte (hash byte : UInt64) : UInt64 := (hash ^^^ byte) * 1099511628211

/-- The `i`-th byte of a word, the least significant one first. -/
def byteOf (value : UInt64) (i : Nat) : UInt64 := (value >>> UInt64.ofNat (8 * i)) &&& 0xff

/-- Two words that differ in exactly one of their eight bytes. -/
def OneByteApart (value value' : UInt64) : Prop :=
  ∃ i < 8, byteOf value i ≠ byteOf value' i ∧ ∀ j < 8, j ≠ i → byteOf value j = byteOf value' j

/-! ## One word -/

/-- The multiplier has an inverse modulo 2^64. -/
theorem mul_prime_injective : Function.Injective fun hash : UInt64 => hash * 1099511628211 := by
  have hundo : ∀ hash : UInt64, hash * 1099511628211 * 14886173955864302971 = hash := by
    intro hash
    rw [UInt64.mul_assoc, show (1099511628211 * 14886173955864302971 : UInt64) = 1 by decide,
      UInt64.mul_one]
  intro hash hash' heq
  rw [← hundo hash, ← hundo hash']
  exact congrArg (· * 14886173955864302971) heq

theorem stirByte_injective (byte : UInt64) : Function.Injective (stirByte · byte) :=
  fun _ _ heq => (UInt64.xor_left_inj byte).mp (mul_prime_injective heq)

theorem stirByte_ne {byte byte' : UInt64} (h : byte ≠ byte') (hash : UInt64) :
    stirByte hash byte ≠ stirByte hash byte' :=
  fun heq => h ((UInt64.xor_right_inj hash).mp (mul_prime_injective heq))

namespace Fingerprint

variable {fingerprint fingerprint' : Fingerprint} {value value' : UInt64}

theorem hash_mix : (fingerprint.mix value).hash =
    ((List.range 8).map (byteOf value)).foldl stirByte fingerprint.hash := by
  rw [List.foldl_map]
  rfl

theorem mix_injective (value : UInt64) : Function.Injective (mix · value) := by
  intro fingerprint fingerprint' heq
  have hhash := congrArg hash heq
  simp only [hash_mix] at hhash
  cases fingerprint
  cases fingerprint'
  exact congrArg mk (foldl_injective stirByte_injective _ hhash)

theorem mix_ne (h : OneByteApart value value') (fingerprint : Fingerprint) :
    fingerprint.mix value ≠ fingerprint.mix value' := by
  obtain ⟨i, hi, hne, hsame⟩ := h
  have hget : ∀ (word : UInt64) (j : Nat), ((List.range 8).map (byteOf word))[j]? =
      if j < 8 then some (byteOf word j) else none := by
    intro word j
    rw [List.getElem?_map]
    split
    · next hj => rw [List.getElem?_range hj]; rfl
    · next hj => rw [List.getElem?_eq_none (by simpa using hj)]; rfl
  have hdiffer : DifferAt i (byteOf value i) (byteOf value' i)
      ((List.range 8).map (byteOf value)) ((List.range 8).map (byteOf value')) := by
    refine ⟨?_, ?_, fun j hj => ?_⟩
    · rw [hget, if_pos hi]
    · rw [hget, if_pos hi]
    · rw [hget, hget]
      split
      · next hlt => rw [hsame j hlt hj]
      · rfl
  intro heq
  have hhash := congrArg hash heq
  rw [hash_mix, hash_mix] at hhash
  exact foldl_ne_foldl stirByte_injective hdiffer (stirByte_ne hne) hhash

end Fingerprint

/-! ## Books -/

namespace BookSet

variable {set set' : BookSet}

theorem stir_injective (symbol : Bytes) (current : Bbo) :
    Function.Injective (stir · symbol current) :=
  (Fingerprint.mix_injective _).comp <| (Fingerprint.mix_injective _).comp <|
    (Fingerprint.mix_injective _).comp <| (Fingerprint.mix_injective _).comp <|
      Fingerprint.mix_injective _

/-- The same books and quotes, and different fingerprints. -/
structure Apart (set set' : BookSet) : Prop where
  books : set.books = set'.books
  lastQuote : set.lastQuote = set'.lastQuote
  fingerprint : set.fingerprint ≠ set'.fingerprint

/-- A message moves the touch in both or in neither. -/
theorem Apart.apply (h : Apart set set') (msg : OrderMessage) :
    Apart (set.apply msg) (set'.apply msg) := by
  obtain ⟨books, lastQuote, fingerprint, crossed⟩ := set
  obtain ⟨books', lastQuote', fingerprint', crossed'⟩ := set'
  obtain ⟨hbooks, hquotes, hne⟩ := h
  cases hbooks
  cases hquotes
  unfold BookSet.apply
  split
  · exact ⟨rfl, rfl, hne⟩
  · refine ⟨rfl, rfl, ?_⟩
    dsimp only
    split
    · exact fun heq => hne (stir_injective _ _ heq)
    · exact hne

theorem Apart.run (h : Apart set set') (msgs : List OrderMessage) :
    Apart (msgs.foldl BookSet.apply set) (msgs.foldl BookSet.apply set') := by
  induction msgs generalizing set set' with
  | nil => exact h
  | cons msg msgs ih => exact ih (h.apply msg)

end BookSet

/-- **A fingerprint difference is never healed.** `mix` is injective in the hash for every word, and
for every hash takes words that differ in exactly one byte to different hashes. So sets of the same
books and last quotes whose fingerprints differ still differ after any messages; and lists of words
that are the same but for one word, in which one byte differs, lead to different fingerprints. -/
theorem never_healed :
    (∀ value : UInt64, Function.Injective fun hash => ((Fingerprint.mk hash).mix value).hash) ∧
    (∀ (fingerprint : Fingerprint) (value value' : UInt64), OneByteApart value value' →
      (fingerprint.mix value).hash ≠ (fingerprint.mix value').hash) ∧
    (∀ set set' : BookSet, set.books = set'.books → set.lastQuote = set'.lastQuote →
      set.fingerprint ≠ set'.fingerprint → ∀ msgs : List OrderMessage,
        (msgs.foldl BookSet.apply set).fingerprint ≠ (msgs.foldl BookSet.apply set').fingerprint) ∧
    ∀ (fingerprint : Fingerprint) (values values' : List UInt64) (k : Nat) (value value' : UInt64),
      DifferAt k value value' values values' → OneByteApart value value' →
        values.foldl Fingerprint.mix fingerprint ≠ values'.foldl Fingerprint.mix fingerprint := by
  refine ⟨fun value hash hash' heq => ?_, fun fingerprint value value' happart heq => ?_,
    fun set set' hbooks hquotes hne msgs => ?_,
    fun fingerprint values values' k value value' hdiffer happart => ?_⟩
  · exact congrArg Fingerprint.hash (Fingerprint.mix_injective value (congrArg Fingerprint.mk heq))
  · exact Fingerprint.mix_ne happart fingerprint (congrArg Fingerprint.mk heq)
  · exact (BookSet.Apart.run ⟨hbooks, hquotes, hne⟩ msgs).fingerprint
  · exact foldl_ne_foldl Fingerprint.mix_injective hdiffer (Fingerprint.mix_ne happart)

/-- The second of four words differs in its highest byte. -/
theorem never_healed_highByte : [1, 2, 3, 4].foldl Fingerprint.mix {} ≠
    [1, 0xff00000000000002, 3, 4].foldl Fingerprint.mix {} := by
  have hdiffer :
      DifferAt 1 (2 : UInt64) 0xff00000000000002 [1, 2, 3, 4] [1, 0xff00000000000002, 3, 4] := by
    refine ⟨rfl, rfl, fun j hj => ?_⟩
    match j, hj with
    | 0, _ => rfl
    | j + 2, _ => rfl
  exact never_healed.2.2.2 {} _ _ 1 2 0xff00000000000002 hdiffer
    ⟨7, by decide, by decide, by decide⟩

end MegaFeed
