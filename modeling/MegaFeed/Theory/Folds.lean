import Mathlib

/-! # Folds that forget nothing

Where every step of a fold is injective in what has been folded so far, a difference between two
folds is never made up for by what follows: not by folding the same (`foldl_injective`), and not
from one element on in which two lists differ (`foldl_ne_foldl`). -/

namespace Folds

variable {f : β → α → β} {xs ys : List α} {s : β}

theorem foldl_injective (h : ∀ a, Function.Injective (f · a)) (xs : List α) :
    Function.Injective fun s => xs.foldl f s := by
  induction xs with
  | nil => exact Function.injective_id
  | cons a xs ih => exact ih.comp (h a)

/-- Two lists with the elements `a` and `b` at `k` and the same ones everywhere else. -/
structure DifferAt (k : Nat) (a b : α) (xs ys : List α) : Prop where
  left : xs[k]? = some a
  right : ys[k]? = some b
  same : ∀ j, j ≠ k → xs[j]? = ys[j]?

theorem DifferAt.tail {x y : α} (h : DifferAt (k + 1) a b (x :: xs) (y :: ys)) :
    x = y ∧ DifferAt k a b xs ys := by
  refine ⟨Option.some.inj (h.same 0 (Nat.succ_ne_zero k).symm), h.left, h.right, fun j hj => ?_⟩
  exact h.same (j + 1) fun heq => hj (Nat.succ.inj heq)

theorem DifferAt.tail_eq {x y : α} (h : DifferAt 0 a b (x :: xs) (y :: ys)) :
    x = a ∧ y = b ∧ xs = ys :=
  ⟨Option.some.inj h.left, Option.some.inj h.right,
    List.ext_getElem? fun j => h.same (j + 1) (Nat.succ_ne_zero j)⟩

theorem DifferAt.exists_cons (h : DifferAt k a b xs ys) :
    ∃ x xs' y ys', xs = x :: xs' ∧ ys = y :: ys' := by
  cases xs with
  | nil => exact nomatch h.left
  | cons x xs' =>
    cases ys with
    | nil => exact nomatch h.right
    | cons y ys' => exact ⟨x, xs', y, ys', rfl, rfl⟩

/-- Up to `k` the folds agree, there they part, and from there on they stay apart. -/
theorem foldl_ne_foldl (hinj : ∀ a, Function.Injective (f · a)) (h : DifferAt k a b xs ys)
    (hne : ∀ s, f s a ≠ f s b) : xs.foldl f s ≠ ys.foldl f s := by
  obtain ⟨x, xs', y, ys', rfl, rfl⟩ := h.exists_cons
  induction k generalizing x xs' y ys' s with
  | zero =>
    obtain ⟨rfl, rfl, rfl⟩ := h.tail_eq
    exact fun heq => hne s (foldl_injective hinj xs' heq)
  | succ k ih =>
    obtain ⟨rfl, htail⟩ := h.tail
    obtain ⟨x', xs'', y', ys'', rfl, rfl⟩ := htail.exists_cons
    exact ih x' xs'' y' ys'' htail

end Folds
