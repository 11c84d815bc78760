import Mathlib

/-! # Stores in which the last write counts

A log of numbered messages is folded into a store of any kind, and every message sets what is read
under some of the keys (`Overwrites`). Then what is read under a key is what the last message set
that names it (`Overwrites.read_last`). So a replica that is fed a selection of the log agrees with
a store that was fed all of it wherever the last message that names the key is in the selection
(`Overwrites.replica`). -/

namespace LastWrite

/-- Applying `msg` sets what is read under the keys that `msg` names, and nothing else. -/
def Overwrites (apply : σ → μ → σ) (read : σ → κ → ν) (writes : μ → κ → Option ν) : Prop :=
  ∀ store msg key, read (apply store msg) key = (writes msg key).getD (read store key)

variable {apply : σ → μ → σ} {read : σ → κ → ν} {writes : μ → κ → Option ν}
  {log chosen : List (Nat × μ)}
  {key : κ}

/-- Keys may be renamed. -/
theorem Overwrites.comap (H : Overwrites apply read writes) (f : κ' → κ) :
    Overwrites apply (fun store key => read store (f key)) fun msg key => writes msg (f key) :=
  fun store msg key => H store msg (f key)

/-- Folds the messages of a numbered log. -/
def replay (apply : σ → μ → σ) (store : σ) (log : List (Nat × μ)) : σ :=
  log.foldl (fun store entry => apply store entry.2) store

/-- What no message names stays as it was. -/
theorem Overwrites.read_untouched (H : Overwrites apply read writes) (store : σ) (key : κ)
    (h : ∀ entry ∈ log, writes entry.2 key = none) :
    read (replay apply store log) key = read store key := by
  induction log generalizing store with
  | nil => rfl
  | cons entry log ih =>
    obtain ⟨hentry, hlog⟩ := List.forall_mem_cons.mp h
    have hstep : read (apply store entry.2) key = read store key := by
      rw [H, hentry, Option.getD_none]
    exact (ih _ hlog).trans hstep

/-- The entry numbered `n` of the log is the last one that names the key. -/
structure IsLast (writes : μ → κ → Option ν) (key : κ) (log : List (Nat × μ)) (n : Nat)
    (msg : μ) : Prop where
  mem : (n, msg) ∈ log
  names : writes msg key ≠ none
  last : ∀ m later, (m, later) ∈ log → n < m → writes later key = none

/-- What is read under a key is what the last message that names it has set. -/
theorem Overwrites.read_last (H : Overwrites apply read writes) (store : σ)
    (hsorted : log.Pairwise (·.1 < ·.1)) (h : IsLast writes key log n msg) :
    some (read (replay apply store log) key) = writes msg key := by
  obtain ⟨before, after, rfl⟩ := List.append_of_mem h.mem
  have hafter : ∀ entry ∈ after, writes entry.2 key = none := by
    intro entry hmem
    have hlater := (List.pairwise_cons.mp (List.pairwise_append.mp hsorted).2.1).1 entry hmem
    exact h.last entry.1 entry.2 (List.mem_append_right _ (.tail _ hmem)) hlater
  have hsplit : replay apply store (before ++ (n, msg) :: after) =
      replay apply (apply (replay apply store before) msg) after := List.foldl_append
  rw [hsplit, H.read_untouched _ key hafter, H]
  obtain ⟨value, hvalue⟩ := Option.ne_none_iff_exists'.mp h.names
  rw [hvalue, Option.getD_some]

/-- A key that some message names is named last by one. -/
theorem exists_isLast (hsorted : log.Pairwise (·.1 < ·.1))
    (h : ∃ entry ∈ log, writes entry.2 key ≠ none) :
    ∃ n msg, IsLast writes key log n msg := by
  induction log using List.reverseRecOn with
  | nil =>
    obtain ⟨entry, hmem, -⟩ := h
    cases hmem
  | append_singleton log last ih =>
    obtain ⟨hbefore, -, hbelow⟩ := List.pairwise_append.mp hsorted
    have hsingle : ∀ {m later}, (m, later) ∈ [last] → (m, later) = last := List.mem_singleton.mp
    by_cases hlast : writes last.2 key = none
    · have hearlier : ∃ entry ∈ log, writes entry.2 key ≠ none := by
        obtain ⟨entry, hmem, hnames⟩ := h
        rcases List.mem_append.mp hmem with hmem | hmem
        · exact ⟨entry, hmem, hnames⟩
        · exact (hnames (List.mem_singleton.mp hmem ▸ hlast)).elim
      obtain ⟨n, msg, L⟩ := ih hbefore hearlier
      refine ⟨n, msg, List.mem_append_left _ L.mem, L.names, fun m later hmem hlt => ?_⟩
      rcases List.mem_append.mp hmem with hmem | hmem
      · exact L.last m later hmem hlt
      · rw [← hsingle hmem] at hlast
        exact hlast
    · refine ⟨last.1, last.2, List.mem_append_right _ (.head _), hlast, fun m later hmem hlt => ?_⟩
      rcases List.mem_append.mp hmem with hmem | hmem
      · exact absurd (hbelow _ hmem last (.head _)) (Nat.lt_asymm hlt)
      · rw [← hsingle hmem] at hlt
        exact absurd hlt (Nat.lt_irrefl _)

/-- **Replicas heal.** A replica that was fed a selection of a log, in order, shows under every key
whose last write it was fed what a store shows that was fed the whole log. -/
theorem Overwrites.replica {apply' : σ' → μ → σ'} {read' : σ' → κ → ν}
    (H : Overwrites apply read writes) (H' : Overwrites apply' read' writes)
    (store : σ) (store' : σ') (hlog : log.Pairwise (·.1 < ·.1))
    (hchosen : chosen.Pairwise (·.1 < ·.1)) (hsubset : chosen ⊆ log)
    (L : IsLast writes key log n msg) (hmem : (n, msg) ∈ chosen) :
    read' (replay apply' store' chosen) key = read (replay apply store log) key := by
  have L' : IsLast writes key chosen n msg :=
    ⟨hmem, L.names, fun m later hlater => L.last m later (hsubset hlater)⟩
  exact Option.some.inj ((H'.read_last store' hchosen L').trans (H.read_last store hlog L).symm)

end LastWrite
