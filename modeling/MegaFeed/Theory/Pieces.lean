import Mathlib

/-! # Pieces of a list

`Apart gap pieces whole`: the lists in `pieces` lie in `whole`, one behind the other, with at least
`gap` elements of `whole` before each of them. So there is room for only so much of them
(`Apart.room`), and it stays so if some are left out (`Apart.sublist`). -/

namespace Pieces

variable {gap : Nat} {pieces : List (List α)} {whole : List α}

def Apart (gap : Nat) : List (List α) → List α → Prop
  | [], _ => True
  | piece :: pieces, whole =>
    ∃ before behind, whole = before ++ (piece ++ behind) ∧ gap ≤ before.length ∧
    Apart gap pieces behind

theorem Apart.append_left (h : Apart gap pieces whole) (before : List α) :
    Apart gap pieces (before ++ whole) := by
  cases pieces with
  | nil => trivial
  | cons piece pieces =>
    obtain ⟨front, behind, rfl, hgap, hrest⟩ := h
    refine ⟨before ++ front, behind, (List.append_assoc ..).symm, ?_, hrest⟩
    rw [List.length_append]
    omega

theorem Apart.drop (h : Apart gap pieces (whole.drop n)) : Apart gap pieces whole := by
  rw [← List.take_append_drop n whole]
  exact h.append_left _

theorem Apart.sublist (h : Apart gap pieces whole) (hsub : List.Sublist chosen pieces) :
    Apart gap chosen whole := by
  induction hsub generalizing whole with
  | slnil => trivial
  | cons piece _ ih =>
    obtain ⟨before, behind, rfl, -, hrest⟩ := h
    rw [← List.append_assoc]
    exact (ih hrest).append_left _
  | cons_cons piece _ ih =>
    obtain ⟨before, behind, hwhole, hgap, hrest⟩ := h
    exact ⟨before, behind, hwhole, hgap, ih hrest⟩

/-- The pieces and the gaps fit. -/
theorem Apart.room (h : Apart gap pieces whole) :
    gap * pieces.length + (pieces.map (·.length)).sum ≤ whole.length := by
  induction pieces generalizing whole with
  | nil => simp
  | cons piece pieces ih =>
    obtain ⟨before, behind, rfl, hgap, hrest⟩ := h
    have hroom := ih hrest
    simp only [List.length_cons, List.map_cons, List.sum_cons, List.length_append, Nat.mul_succ]
    omega

end Pieces
