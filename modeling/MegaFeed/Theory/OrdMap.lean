import Mathlib

/-! # Finite maps: sums, and updates for a list of keys

`total m f` is the sum of `f k v` over the entries of a finite map. `total_insert` and `total_erase`
say what one update does to it, which is all that a proof about an incrementally kept aggregate
needs. `insertAll`, `eraseAll` and `modifyAll` update a list of keys one after the other; their
`getElem?` lemmas say what the loop amounts to. -/

namespace Std.ExtTreeMap

variable {α : Type u} {β : Type v} {cmp : α → α → Ordering} [TransCmp cmp] [LawfulEqCmp cmp]
  {m : ExtTreeMap α β cmp}

/-- The lemma form of `getElem?_insert` for a comparison that decides equality. -/
theorem getElem?_insert' [DecidableEq α] {k a : α} {v : β} :
    (m.insert k v)[a]? = if k = a then some v else m[a]? := by
  simp only [getElem?_insert, LawfulEqCmp.compare_eq_iff_eq]

theorem getElem?_erase' [DecidableEq α] {k a : α} :
    (m.erase k)[a]? = if k = a then none else m[a]? := by
  simp only [getElem?_erase, LawfulEqCmp.compare_eq_iff_eq]

omit [TransCmp cmp] [LawfulEqCmp cmp] in
theorem map_fst_minEntry?_impl [Ord α] (t : DTreeMap.Internal.Impl α fun _ => β) :
    (DTreeMap.Internal.Impl.Const.minEntry? t).map (·.1) = t.minKey? := by
  fun_induction DTreeMap.Internal.Impl.Const.minEntry? t with
  | case1 => simp [DTreeMap.Internal.Impl.minKey?]
  | case2 => simp [DTreeMap.Internal.Impl.minKey?]
  | case3 => simpa [DTreeMap.Internal.Impl.minKey?] using by assumption

omit [LawfulEqCmp cmp] in
/-- The first entry is that of the least key. -/
theorem map_fst_minEntry? (m : ExtTreeMap α β cmp) : m.minEntry?.map (·.1) = m.minKey? := by
  obtain ⟨inner⟩ := m
  induction inner using ExtDTreeMap.inductionOn with
  | mk m => exact @map_fst_minEntry?_impl α β ⟨cmp⟩ m.inner

omit [TransCmp cmp] [LawfulEqCmp cmp] in
theorem minEntry?_eq_head?_toList_impl (t : DTreeMap.Internal.Impl α fun _ => β) :
    DTreeMap.Internal.Impl.Const.minEntry? t = (DTreeMap.Internal.Impl.Const.toList t).head? := by
  rw [DTreeMap.Internal.Impl.Const.toList_eq_toListModel_map]
  fun_induction DTreeMap.Internal.Impl.Const.minEntry? t with
  | case1 => rfl
  | case2 => rfl
  | case3 _ _ _ _ _ _ _ _ _ ih =>
    rw [ih]
    simp

omit [LawfulEqCmp cmp] in
theorem minEntry?_eq_head?_toList (m : ExtTreeMap α β cmp) : m.minEntry? = m.toList.head? := by
  obtain ⟨inner⟩ := m
  induction inner using ExtDTreeMap.inductionOn with
  | mk m => exact minEntry?_eq_head?_toList_impl m.inner

omit [LawfulEqCmp cmp] in
theorem minEntry?_eq_none (h : m.minEntry? = none) (k : α) : k ∉ m := by
  have hkey := map_fst_minEntry? m
  rw [h, Option.map_none, eq_comm, minKey?_eq_none_iff] at hkey
  rw [hkey]
  exact not_mem_empty

/-- The first entry is there, and no other key sorts before it. -/
theorem minEntry?_eq_some {entry : α × β} (h : m.minEntry? = some entry) :
    entry.1 ∈ m ∧ ∀ k ∈ m, (cmp entry.1 k).isLE := by
  have hkey := map_fst_minEntry? m
  rw [h, Option.map_some] at hkey
  exact minKey?_eq_some_iff_mem_and_forall.mp hkey.symm

theorem getElem?_of_minEntry? {entry : α × β} (h : m.minEntry? = some entry) :
    m[entry.1]? = some entry.2 := by
  rw [minEntry?_eq_head?_toList] at h
  exact mem_toList_iff_getElem?_eq_some.mp (List.mem_of_head? h)

theorem nodup_toList : m.toList.Nodup :=
  m.distinct_keys_toList.imp fun h heq => h (by rw [heq]; exact ReflCmp.compare_self)

/-- What a loop from the front reaches that stops at the first entry without `p`. -/
theorem mem_takeWhile_toList {p : α × β → Bool} {k : α} {v : β} :
    (k, v) ∈ m.toList.takeWhile p ↔ m[k]? = some v ∧ p (k, v) = true ∧
      ∀ k' v', cmp k' k = .lt → m[k']? = some v' → p (k', v') = true := by
  have hlist : ∀ l : List (α × β), l.Pairwise (fun a b => cmp a.1 b.1 = .lt) →
      ((k, v) ∈ l.takeWhile p ↔ (k, v) ∈ l ∧ p (k, v) = true ∧ ∀ a ∈ l, cmp a.1 k = .lt →
        p a = true) := by
    intro l hl
    induction l with
    | nil => simp
    | cons a l ih =>
      obtain ⟨hfirst, hrest⟩ := List.pairwise_cons.mp hl
      rw [List.takeWhile_cons]
      split
      · next ha =>
        rw [List.mem_cons, List.mem_cons, ih hrest]
        constructor
        · rintro (rfl | ⟨hmem, hp, hall⟩)
          · refine ⟨.inl rfl, ha, List.forall_mem_cons.mpr ⟨fun _ => ha, fun b hb hlt => ?_⟩⟩
            exact absurd (hfirst b hb) (by rw [OrientedCmp.gt_of_lt hlt]; nofun)
          · exact ⟨.inr hmem, hp, List.forall_mem_cons.mpr ⟨fun _ => ha, hall⟩⟩
        · rintro ⟨rfl | hmem, hp, hall⟩
          · exact .inl rfl
          · exact .inr ⟨hmem, hp, (List.forall_mem_cons.mp hall).2⟩
      · next ha =>
        refine ⟨nofun, fun ⟨hmem, hp, hall⟩ => (ha ?_).elim⟩
        rcases List.mem_cons.mp hmem with rfl | hmem
        · exact hp
        · exact hall a (.head _) (hfirst _ hmem)
  rw [hlist _ m.ordered_keys_toList]
  simp only [mem_toList_iff_getElem?_eq_some, Prod.forall]
  exact and_congr_right fun _ => and_congr_right fun _ =>
    ⟨fun h k' v' hlt hget => h k' v' hget hlt, fun h k' v' hget hlt => h k' v' hlt hget⟩

/-- It reaches every entry with `p`, if an entry before one with `p` has it too. -/
theorem takeWhile_toList_eq_filter {p : α × β → Bool}
    (h : ∀ k v k' v', cmp k k' = .lt → m[k]? = some v → m[k']? = some v' → p (k', v') = true →
      p (k, v) = true) : m.toList.takeWhile p = m.toList.filter p := by
  have hlist : ∀ l : List (α × β), l.Pairwise (fun a b => p b = true → p a = true) →
      l.takeWhile p = l.filter p := by
    intro l hl
    induction l with
    | nil => rfl
    | cons a l ih =>
      obtain ⟨hfirst, hrest⟩ := List.pairwise_cons.mp hl
      cases ha : p a with
      | true => rw [List.takeWhile_cons_of_pos ha, List.filter_cons_of_pos ha, ih hrest]
      | false =>
        have hnone : (a :: l).filter p = [] := by
          refine List.filter_eq_nil_iff.mpr
            (List.forall_mem_cons.mpr ⟨by simp [ha], fun b hb hp => ?_⟩)
          rw [hfirst b hb hp] at ha
          cases ha
        rw [hnone, List.takeWhile_cons_of_neg (by simp [ha])]
  refine hlist _ (List.Pairwise.imp_of_mem ?_ m.ordered_keys_toList)
  rintro ⟨k, v⟩ ⟨k', v'⟩ hmem hmem' hlt
  exact h k v k' v' hlt (mem_toList_iff_getElem?_eq_some.mp hmem)
    (mem_toList_iff_getElem?_eq_some.mp hmem')

/-! ## Sums -/

section total
variable {M : Type w} [AddCommMonoid M]

/-- The sum of `f k v` over the entries of a map. -/
def total (m : ExtTreeMap α β cmp) (f : α → β → M) : M := (m.toList.map fun p => f p.1 p.2).sum

theorem toList_empty : (∅ : ExtTreeMap α β cmp).toList = [] :=
  List.eq_nil_iff_forall_not_mem.mpr fun p => by
    obtain ⟨k, v⟩ := p
    simp [mem_toList_iff_getElem?_eq_some]

@[simp] theorem total_empty {f : α → β → M} : total (∅ : ExtTreeMap α β cmp) f = 0 := by
  rw [total, toList_empty, List.map_nil, List.sum_nil]

theorem toList_insert_perm {k : α} {v : β} (h : m[k]? = none) :
    (m.insert k v).toList.Perm ((k, v) :: m.toList) := by
  classical
  have hnew : (k, v) ∉ m.toList := by simp [mem_toList_iff_getElem?_eq_some, h]
  refine (List.perm_ext_iff_of_nodup nodup_toList (nodup_toList.cons hnew)).mpr ?_
  rintro ⟨a, b⟩
  simp only [mem_toList_iff_getElem?_eq_some, getElem?_insert', List.mem_cons, Prod.mk.injEq]
  by_cases hk : k = a
  · subst hk; simp [h, eq_comm]
  · simp [hk, Ne.symm hk]

/-- A new entry adds its own term. -/
theorem total_insert_of_none {k : α} {v : β} {f : α → β → M} (h : m[k]? = none) :
    (m.insert k v).total f = f k v + m.total f := by
  rw [total, ((toList_insert_perm h).map _).sum_eq, List.map_cons, List.sum_cons, total]

/-- An erased entry takes its own term away. -/
theorem total_erase {k : α} {v : β} {f : α → β → M} (h : m[k]? = some v) :
    f k v + (m.erase k).total f = m.total f := by
  classical
  have hback : (m.erase k).insert k v = m := by
    refine ext_getElem? fun a => ?_
    rw [getElem?_insert', getElem?_erase']
    split
    · next heq => rw [← heq, h]
    · rfl
  rw [← total_insert_of_none (by simp), hback]

/-- Overwriting an entry exchanges its term. -/
theorem total_insert {k : α} {v w : β} {f : α → β → M} (h : m[k]? = some v) :
    f k v + (m.insert k w).total f = f k w + m.total f := by
  classical
  have hback : (m.erase k).insert k w = m.insert k w := by
    refine ext_getElem? fun a => ?_
    rw [getElem?_insert', getElem?_insert', getElem?_erase']
    split <;> rfl
  rw [← hback, total_insert_of_none (by simp), ← add_assoc, add_comm (f k v), add_assoc,
    total_erase h]

omit [LawfulEqCmp cmp] in
theorem total_map {f : α → β → γ} {g : α → γ → M} :
    (m.map f).total g = m.total fun k v => g k (f k v) := by
  rw [total, toList_map, List.map_map]
  rfl

end total

omit [LawfulEqCmp cmp] in
theorem total_nonneg {f : α → β → Int} (h : ∀ k v, 0 ≤ f k v) : 0 ≤ m.total f :=
  List.sum_nonneg fun x hx => by
    obtain ⟨p, _, rfl⟩ := List.mem_map.mp hx
    exact h _ _

/-! ## Updates for a list of keys -/

/-- Erase every key of a list. -/
def eraseAll (m : ExtTreeMap α β cmp) (keys : List α) : ExtTreeMap α β cmp :=
  keys.foldl (fun m k => m.erase k) m

theorem getElem?_eraseAll [DecidableEq α] {keys : List α} {a : α} :
    (m.eraseAll keys)[a]? = if a ∈ keys then none else m[a]? := by
  induction keys generalizing m with
  | nil => simp [eraseAll]
  | cons k keys ih =>
    rw [eraseAll, List.foldl_cons, ← eraseAll, ih, getElem?_erase']
    by_cases hk : k = a
    · simp [hk]
    · simp [hk, Ne.symm hk]

/-- Give every key of a list the same value. -/
def insertAll (m : ExtTreeMap α β cmp) (keys : List α) (v : β) : ExtTreeMap α β cmp :=
  keys.foldl (fun m k => m.insert k v) m

theorem getElem?_insertAll [DecidableEq α] {keys : List α} {a : α} {v : β} :
    (m.insertAll keys v)[a]? = if a ∈ keys then some v else m[a]? := by
  induction keys generalizing m with
  | nil => simp [insertAll]
  | cons k keys ih =>
    rw [insertAll, List.foldl_cons, ← insertAll, ih, getElem?_insert']
    by_cases hk : k = a
    · simp [hk]
    · simp [hk, Ne.symm hk]

/-- Update the entries at a list of keys. -/
def modifyAll (m : ExtTreeMap α β cmp) (keys : List α) (f : β → β) : ExtTreeMap α β cmp :=
  keys.foldl (fun m k => m.modify k f) m

theorem getElem?_modifyAll [DecidableEq α] {keys : List α} {a : α} {f : β → β}
    (hf : ∀ v, f (f v) = f v) :
    (m.modifyAll keys f)[a]? = if a ∈ keys then m[a]?.map f else m[a]? := by
  induction keys generalizing m with
  | nil => simp [modifyAll]
  | cons k keys ih =>
    rw [modifyAll, List.foldl_cons, ← modifyAll, ih, getElem?_modify]
    simp only [LawfulEqCmp.compare_eq_iff_eq, List.mem_cons]
    by_cases hk : k = a
    · subst hk
      cases m[k]? <;> simp [hf]
    · simp [hk, Ne.symm hk]

theorem mem_insert' {k a : α} {v : β} : a ∈ m.insert k v ↔ k = a ∨ a ∈ m := by
  rw [mem_insert, LawfulEqCmp.compare_eq_iff_eq]

theorem mem_erase' {k a : α} : a ∈ m.erase k ↔ k ≠ a ∧ a ∈ m := by
  rw [mem_erase, ne_eq, LawfulEqCmp.compare_eq_iff_eq]

omit [LawfulEqCmp cmp] in
theorem mem_of_getElem? {k : α} {v : β} (h : m[k]? = some v) : k ∈ m :=
  mem_iff_isSome_getElem?.mpr (h ▸ rfl)

omit [LawfulEqCmp cmp] in
theorem exists_of_mem {k : α} (h : k ∈ m) : ∃ v, m[k]? = some v :=
  Option.isSome_iff_exists.mp (mem_iff_isSome_getElem?.mp h)

omit [LawfulEqCmp cmp] in
theorem size_erase_of_mem {k : α} (h : k ∈ m) : (m.erase k).size + 1 = m.size := by
  have hpos : m.size ≠ 0 := by
    intro hzero
    have hempty : m.isEmpty := by rw [isEmpty_eq_size_beq_zero, hzero]; rfl
    rw [isEmpty_iff.mp hempty] at h
    exact not_mem_empty h
  have hcontains : m.contains k = true := mem_iff_contains.mp h
  rw [size_erase, if_pos hcontains]
  omega

omit [LawfulEqCmp cmp] in
theorem size_insert_of_not_mem {k : α} {v : β} (h : k ∉ m) : (m.insert k v).size = m.size + 1 := by
  have hcontains : ¬m.contains k = true := fun hc => h (mem_iff_contains.mpr hc)
  rw [size_insert, if_neg hcontains]

end Std.ExtTreeMap

namespace Std.ExtTreeSet

variable {α : Type u} {cmp : α → α → Ordering} [TransCmp cmp] [LawfulEqCmp cmp]
  {s : ExtTreeSet α cmp}

theorem mem_insert' {k a : α} : a ∈ s.insert k ↔ k = a ∨ a ∈ s := by
  rw [mem_insert, LawfulEqCmp.compare_eq_iff_eq]

theorem mem_erase' {k a : α} : a ∈ s.erase k ↔ k ≠ a ∧ a ∈ s := by
  rw [mem_erase, ne_eq, LawfulEqCmp.compare_eq_iff_eq]

omit [LawfulEqCmp cmp] in
theorem size_erase_of_mem {k : α} (h : k ∈ s) : (s.erase k).size + 1 = s.size := by
  have hpos : s.size ≠ 0 := by
    intro hzero
    have hempty : s.isEmpty := by rw [isEmpty_eq_size_beq_zero, hzero]; rfl
    rw [isEmpty_iff.mp hempty] at h
    exact not_mem_empty h
  have hcontains : s.contains k = true := mem_iff_contains.mp h
  rw [size_erase, if_pos hcontains]
  omega

/-- Insert every key of a list. -/
def insertAll (s : ExtTreeSet α cmp) (keys : List α) : ExtTreeSet α cmp :=
  keys.foldl (fun s k => s.insert k) s

theorem mem_insertAll {keys : List α} {a : α} : a ∈ s.insertAll keys ↔ a ∈ keys ∨ a ∈ s := by
  induction keys generalizing s with
  | nil => simp [insertAll]
  | cons k keys ih =>
    rw [insertAll, List.foldl_cons, ← insertAll, ih, mem_insert', List.mem_cons]
    constructor
    · rintro (h | rfl | h)
      · exact .inl (.inr h)
      · exact .inl (.inl rfl)
      · exact .inr h
    · rintro ((rfl | h) | h)
      · exact .inr (.inl rfl)
      · exact .inl h
      · exact .inr (.inr h)

end Std.ExtTreeSet
