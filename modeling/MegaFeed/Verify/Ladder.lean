import MegaFeed.Verify.Healing
import MegaFeed.Verify.NoFalseAlarm

/-! # The ladder

`draw` prints the eight best levels of each side (`Best`), the asks above the bids. Read from top to
bottom, the prices fall all the way exactly if the book is possible (`Right`). -/

namespace MegaFeed
open Std (ExtTreeMap)

/-! ## The first entries of a map -/

/-- What is not among the first entries comes behind all of them. -/
theorem mem_take_or_behind {R : α → α → Prop} {entries : List α} (h : entries.Pairwise R) (n : Nat)
    (hmem : a ∈ entries) : a ∈ entries.take n ∨ (entries.take n).length = n ∧
    ∀ b ∈ entries.take n, R b a := by
  rw [← List.take_append_drop n entries, List.pairwise_append] at h
  rw [← List.take_append_drop n entries] at hmem
  refine (List.mem_append.mp hmem).imp_right fun hdrop => ⟨?_, fun b hb => h.2.2 b hb a hdrop⟩
  have hlt := List.length_pos_of_mem hdrop
  rw [List.length_drop] at hlt
  rw [List.length_take]
  omega

theorem compare_int64_lt {a b : Int64} : compare a b = .lt ↔ a < b := Std.compare_eq_lt

theorem Book.bidPrice_bbo (book : Book) :
    book.bbo.bidPrice = (book.bids.toList.head?.map (·.1)).getD 0 := by
  rw [← ExtTreeMap.minEntry?_eq_head?_toList, Book.bbo]
  cases book.bids.minEntry? <;> cases book.asks.minEntry? <;> rfl

theorem Book.askPrice_bbo (book : Book) :
    book.bbo.askPrice = (book.asks.toList.head?.map (·.1)).getD 0 := by
  rw [← ExtTreeMap.minEntry?_eq_head?_toList, Book.bbo]
  cases book.bids.minEntry? <;> cases book.asks.minEntry? <;> rfl

namespace Visualizer

/-- The rows are the best levels of a side, from the best one down; there are eight of
them, or all. -/
structure Best (level : Int64 → Option UInt32) (better : Int64 → Int64 → Prop)
    (rows : List Row) : Prop where
  length_le : rows.length ≤ 8
  ordered : rows.Pairwise fun row row' => better row.price row'.price
  shown : ∀ row ∈ rows, level row.price = some row.size ∧ row.bar = bar row.size
  best : ∀ price size, level price = some size →
    row (price, size) ∈ rows ∨ rows.length = 8 ∧ ∀ row ∈ rows, better row.price price

theorem best_take {cmp : Int64 → Int64 → Ordering} [Std.TransCmp cmp] [Std.LawfulEqCmp cmp]
    {better : Int64 → Int64 → Prop} (h : ∀ a b, cmp a b = .lt ↔ better a b)
    (side : ExtTreeMap Int64 UInt32 cmp) :
    Best (side[·]?) better ((side.toList.take 8).map row) where
  length_le := by
    rw [List.length_map, List.length_take]
    omega
  ordered := by
    refine List.pairwise_map.mpr ?_
    exact (side.ordered_keys_toList.sublist (List.take_sublist ..)).imp fun hlt => (h _ _).mp hlt
  shown := by
    refine List.forall_mem_map.mpr fun level hmem => ⟨?_, rfl⟩
    exact ExtTreeMap.mem_toList_iff_getElem?_eq_some.mp (List.mem_of_mem_take hmem)
  best price size hlevel := by
    have hmem := ExtTreeMap.mem_toList_iff_getElem?_eq_some.mpr hlevel
    refine (mem_take_or_behind side.ordered_keys_toList 8 hmem).imp
      (List.mem_map_of_mem (f := row)) ?_
    rintro ⟨hlength, hbehind⟩
    refine ⟨by rw [List.length_map, hlength], List.forall_mem_map.mpr fun level hlevel => ?_⟩
    exact (h _ _).mp (hbehind level hlevel)

/-- Some row is at least as good as any level. -/
theorem Best.exists_le {level : Int64 → Option UInt32} {better : Int64 → Int64 → Prop}
    {rows : List Row}
    (B : Best level better rows) (h : level price = some size) :
    ∃ row ∈ rows, row.price = price ∨ better row.price price := by
  rcases B.best price size h with hmem | ⟨hlength, hbetter⟩
  · exact ⟨_, hmem, .inl rfl⟩
  · obtain ⟨first, hfirst⟩ := List.exists_mem_of_length_pos (show 0 < rows.length by omega)
    exact ⟨first, hfirst, .inr (hbetter first hfirst)⟩

/-- What a ladder says of a book. -/
structure Right (book : Book) (ladder : Ladder) : Prop where
  asks : Best (book.level .ask) (· < ·) ladder.asks.reverse
  bids : Best (book.level .bid) (· > ·) ladder.bids
  column : ((ladder.asks ++ ladder.bids).map (·.price)).Pairwise (· > ·) ↔ book.uncrossed = true
  spread : ∀ spread ∈ ladder.spread, ∃ ask bid, ladder.asks.getLast? = some ask ∧
    ladder.bids.head? = some bid ∧ spread = ask.price - bid.price
  oneSided : ladder.spread = none ↔ (ladder.asks.getLast?.map (·.price)).getD 0 = 0 ∨
    (ladder.bids.head?.map (·.price)).getD 0 = 0

/-- The rows of one side lie above those of the other exactly if the book is possible. -/
theorem rows_above_iff {book : Book} {asks bids : List Row}
    (hasks : Best (book.level .ask) (· < ·) asks)
    (hbids : Best (book.level .bid) (· > ·) bids) :
    (∀ ask ∈ asks, ∀ bid ∈ bids, ask.price > bid.price) ↔ book.uncrossed = true := by
  rw [Book.uncrossed_iff]
  constructor
  · intro habove bid hbid ask hask
    obtain ⟨bidSize, hbid⟩ := ExtTreeMap.exists_of_mem hbid
    obtain ⟨askSize, hask⟩ := ExtTreeMap.exists_of_mem hask
    obtain ⟨bidRow, hbidRow, hbidLe⟩ := hbids.exists_le hbid
    obtain ⟨askRow, haskRow, haskLe⟩ := hasks.exists_le hask
    have hlt := habove askRow haskRow bidRow hbidRow
    simp only [gt_iff_lt, Int64.lt_iff_toInt_lt, ← Int64.toInt_inj] at hlt hbidLe haskLe ⊢
    omega
  · intro huncrossed ask hask bid hbid
    have haskMem : ask.price ∈ book.asks := ExtTreeMap.mem_of_getElem? (hasks.shown ask hask).1
    have hbidMem : bid.price ∈ book.bids := ExtTreeMap.mem_of_getElem? (hbids.shown bid hbid).1
    exact huncrossed bid.price hbidMem ask.price haskMem

theorem draw_right (visualizer : Visualizer) : Right visualizer.book visualizer.draw := by
  have hreverse : visualizer.draw.asks.reverse = (visualizer.book.asks.toList.take 8).map row := by
    rw [draw, ← List.map_reverse, List.reverse_reverse]
  have hasks : Best (visualizer.book.level .ask) (· < ·) visualizer.draw.asks.reverse := by
    rw [hreverse]
    exact best_take (fun a b => compare_int64_lt) visualizer.book.asks
  have hbids : Best (visualizer.book.level .bid) (· > ·) visualizer.draw.bids :=
    best_take (fun a b => compare_int64_lt) visualizer.book.bids
  have hbid : visualizer.draw.bids.head? = visualizer.book.bids.toList.head?.map row := by
    rw [draw, List.head?_map, List.head?_take]
    rfl
  have hask : visualizer.draw.asks.getLast? = visualizer.book.asks.toList.head?.map row := by
    rw [← List.head?_reverse, hreverse, List.head?_map, List.head?_take]
    rfl
  refine ⟨hasks, hbids, ?_, ?_, ?_⟩
  · rw [List.map_append, List.pairwise_append, ← rows_above_iff hasks hbids]
    constructor
    · rintro ⟨-, -, habove⟩ ask hask bid hbid
      exact habove _ (List.mem_map_of_mem (List.mem_reverse.mp hask)) _ (List.mem_map_of_mem hbid)
    · intro habove
      have hordered := List.pairwise_reverse.mp hasks.ordered
      refine ⟨List.pairwise_map.mpr hordered, List.pairwise_map.mpr hbids.ordered, ?_⟩
      refine List.forall_mem_map.mpr fun ask hask => List.forall_mem_map.mpr fun bid hbid => ?_
      exact habove ask (List.mem_reverse.mpr hask) bid hbid
  · rw [hask, hbid, draw]
    dsimp only
    rw [Book.bidPrice_bbo, Book.askPrice_bbo]
    cases visualizer.book.bids.toList.head? with
    | none => simp
    | some bid =>
      cases visualizer.book.asks.toList.head? with
      | none => simp
      | some ask =>
        intro spread hspread
        split at hspread
        · cases hspread
          exact ⟨_, _, rfl, rfl, rfl⟩
        · cases hspread
  · rw [hask, hbid, draw]
    dsimp only
    rw [Book.bidPrice_bbo, Book.askPrice_bbo, Option.map_map, Option.map_map, ite_eq_right_iff]
    simp only [reduceCtorEq, imp_false, not_and_or, not_not]
    exact or_comm

end Visualizer
end MegaFeed
