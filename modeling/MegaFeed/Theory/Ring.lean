import Mathlib

/-! # Tagged rings

A ring of `r` slots that remembers the last `r` entries of a growing history. Entry number `n`,
counted from 1, goes to slot `n % r` together with its number, so that a reader can tell it from
older and newer entries in the same slot. `Remembers` relates the slots to the whole history,
`Remembers.push` is the one update, and `Remembers.lookup` says what a reader finds. -/

namespace Ring

variable {r : Nat} {α : Type u} {slots : Nat → Option (Nat × α)} {history : List α}

/-- Slot `i` holds exactly the remembered entries numbered `i` modulo `r`. -/
def Remembers (r : Nat) (slots : Nat → Option (Nat × α)) (history : List α) : Prop :=
  ∀ i n v, i < r → (slots i = some (n, v) ↔
    1 ≤ n ∧ history[n - 1]? = some v ∧ n % r = i ∧ history.length < n + r)

theorem remembers_nil : Remembers r (fun _ => none (α := Nat × α)) [] := fun i n v _ => by simp

/-- Two numbers of one slot are equal when they are less than a whole turn apart. -/
theorem eq_of_mod_eq (h : m % r = n % r) (hle : m ≤ n) (hlt : n < m + r) : m = n := by
  obtain ⟨d, rfl⟩ := Nat.exists_eq_add_of_le hle
  have hdvd : r ∣ d := by
    have := (Nat.modEq_iff_dvd' hle).mp h
    rwa [Nat.add_sub_cancel_left] at this
  have hzero : d = 0 := Nat.eq_zero_of_dvd_of_lt hdvd (by omega)
  rw [hzero, Nat.add_zero]

/-- The next entry overwrites the slot of the one a whole turn older. -/
theorem Remembers.push (H : Remembers r slots history) {slots' : Nat → Option (Nat × α)} {v : α}
    (hslots : ∀ i < r, slots' i =
      if (history.length + 1) % r = i then some (history.length + 1, v) else slots i) :
    Remembers r slots' (history ++ [v]) := by
  intro i n w hi
  rw [hslots i hi, List.length_append, List.length_singleton]
  split
  · next heq =>
    -- the slot just written: any entry that fits it is the newest one
    constructor
    · intro h
      cases h
      exact ⟨by omega, by simp, heq, by omega⟩
    · rintro ⟨hpos, hget, hmod, hlt⟩
      obtain ⟨hn, -⟩ := List.getElem?_eq_some_iff.mp hget
      have hlast : n = history.length + 1 :=
        eq_of_mod_eq (hmod.trans heq.symm) (by simp at hn; omega) hlt
      subst hlast
      simp only [Nat.add_sub_cancel, List.getElem?_concat_length] at hget
      rw [Option.some.inj hget]
  · next hne =>
    rw [H i n w hi]
    refine and_congr_right fun hpos => ?_
    constructor
    · rintro ⟨hget, hmod, hlt⟩
      obtain ⟨hn, -⟩ := List.getElem?_eq_some_iff.mp hget
      refine ⟨by rw [List.getElem?_append_left hn, hget], hmod, ?_⟩
      have hturn : history.length + 1 ≠ n + r := fun h => hne (by rw [h, Nat.add_mod_right, hmod])
      omega
    · rintro ⟨hget, hmod, hlt⟩
      have hne : n ≠ history.length + 1 := fun h => hne (h ▸ hmod)
      obtain ⟨hn, -⟩ := List.getElem?_eq_some_iff.mp hget
      have hn : n - 1 < history.length := by simp at hn; omega
      exact ⟨by rw [← hget, List.getElem?_append_left hn], hmod, by omega⟩

/-- Entry `n` of a history, counted from 1, if it is among the last `r`. -/
def last (r : Nat) (history : List α) (n : Nat) : Option α :=
  if 1 ≤ n ∧ n ≤ history.length ∧ history.length < n + r then history[n - 1]? else none

theorem last_eq_some : last r history n = some v ↔
    1 ≤ n ∧ history[n - 1]? = some v ∧ history.length < n + r := by
  unfold last
  split
  · next h => exact ⟨fun hget => ⟨h.1, hget, h.2.2⟩, fun hget => hget.2.1⟩
  · next h =>
    refine ⟨nofun, fun ⟨hpos, hget, hlt⟩ => (h ⟨hpos, ?_, hlt⟩).elim⟩
    have := (List.getElem?_eq_some_iff.mp hget).1
    omega

theorem last_map {f : α → β} : last r (history.map f) n = (last r history n).map f := by
  simp only [last, List.length_map, List.getElem?_map]
  split <;> rfl

/-- A reader that asks for entry `n` and checks the number in its slot finds it exactly while it is
among the last `r`. -/
theorem Remembers.find (H : Remembers r slots history) (hr : 0 < r) :
    ((slots (n % r)).filter (·.1 = n)).map (·.2) = last r history n := by
  refine Option.ext fun v => ?_
  have hslot : slots (n % r) = some (n, v) ↔ last r history n = some v := by
    rw [H _ n v (Nat.mod_lt n hr), last_eq_some]
    simp only [true_and]
  rw [← hslot]
  cases slots (n % r) with
  | none => simp
  | some entry => obtain ⟨m, w⟩ := entry; by_cases hm : m = n <;> simp [Option.filter, hm]

end Ring
