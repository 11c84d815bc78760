import MegaFeed.Theory.LastWrite
import MegaFeed.Verify.Agreement
import MegaFeed.Verify.BookMirror

/-! # Books heal

A visualizer joins the feed live and may lose messages for good, so its book is not the publisher's
golden one. But an update of a level carries the whole size of the level, so the last update
counts: `visualizer_heals` says that what is shown at a level is what the golden book had there
right after the last update that was handed over, and is what it has now if no update of the level
is missing since. -/

namespace MegaFeed
open FeedPublisher Subscriber LastWrite

/-! ## Books and the last write -/

/-- What a message sets a level to, if it names the level. -/
def OrderMessage.sets (msg : OrderMessage) (place : Place) : Option (Option UInt32) :=
  if msg.type = place.side.letter ∧ cString msg.symbol = place.symbol ∧ msg.price = place.price then
    some (nonzero msg.size)
  else none

/-- A message that is no update of a side leaves a book alone. -/
theorem Book.apply_other {book : Book} {msg : OrderMessage}
    (h : ∀ side : Side, msg.type ≠ side.letter) :
    book.apply msg = (book, true) := by
  have hbid : msg.type ≠ ascii 'B' := h .bid
  have hask : msg.type ≠ ascii 'S' := h .ask
  rw [Book.apply, if_neg hbid, if_neg hask]

theorem Side.letter_eq_iff {side side' : Side} : side.letter = side'.letter ↔ side = side' := by
  cases side <;> cases side' <;> decide

theorem Book.level_apply_sets {book : Book} {msg : OrderMessage} {place : Place}
    (h : cString msg.symbol = place.symbol) :
    (book.apply msg).1.level place.side place.price =
      (msg.sets place).getD (book.level place.side place.price) := by
  by_cases htype : ∃ side : Side, msg.type = side.letter
  · obtain ⟨side, htype⟩ := htype
    simp only [Book.level_apply htype, OrderMessage.sets, htype, Side.letter_eq_iff, h, true_and]
    split <;> rfl
  · rw [Book.apply_other (not_exists.mp htype), OrderMessage.sets,
      if_neg fun hsets => htype ⟨_, hsets.1⟩]
    rfl

theorem BookSet.overwrites : Overwrites BookSet.apply BookSet.level OrderMessage.sets := by
  intro set msg place
  by_cases hsymbol : cString msg.symbol = place.symbol
  · by_cases hend : msg.type = ascii 'E'
    · have hletter : msg.type ≠ place.side.letter := by rw [hend]; cases place.side <;> decide
      rw [BookSet.apply, if_pos hend, OrderMessage.sets, if_neg fun hsets => hletter hsets.1]
      rfl
    · rw [BookSet.level_apply_same hend hsymbol, Book.level_apply_sets hsymbol, BookSet.level_eq]
  · rw [BookSet.level_apply_other hsymbol, OrderMessage.sets, if_neg fun hsets => hsymbol hsets.2.1]
    rfl

/-- What a message makes of the book of a symbol: `symbol == msg.symbol` is checked first. -/
def Book.watch (symbol : Bytes) (book : Book) (msg : OrderMessage) : Book :=
  if symbol = cString msg.symbol then (book.apply msg).1 else book

/-- The level of a symbol on one side at one price. -/
def placeOf (symbol : Bytes) (level : Side × Int64) : Place := ⟨symbol, level.1, level.2⟩

theorem Book.overwrites (symbol : Bytes) :
    Overwrites (Book.watch symbol) (fun book (level : Side × Int64) => book.level level.1 level.2)
      fun msg level => msg.sets (placeOf symbol level) := by
  intro book msg level
  simp only [Book.watch]
  split
  · next hsymbol =>
    have hplace : cString msg.symbol = (placeOf symbol level).symbol := hsymbol.symm
    exact Book.level_apply_sets hplace
  · next hsymbol =>
    rw [OrderMessage.sets, if_neg fun hsets => hsymbol hsets.2.1.symm]
    rfl

namespace Visualizer

/-- The visualizer after the messages it is handed. -/
def run (visualizer : Visualizer) (handed : List (Nat × OrderMessage)) : Visualizer :=
  replay onOrderMessage visualizer handed

theorem onOrderMessage_eq (visualizer : Visualizer) (msg : OrderMessage) :
    (visualizer.onOrderMessage msg).symbol = visualizer.symbol ∧
    (visualizer.onOrderMessage msg).book = visualizer.book.watch visualizer.symbol msg := by
  by_cases hwatches : visualizer.symbol = cString msg.symbol
  · simp only [onOrderMessage, watches, Book.watch, hwatches, decide_true, not_true,
      if_false, if_true]
    split <;> exact ⟨rfl, rfl⟩
  · simp [onOrderMessage, watches, Book.watch, hwatches]

theorem run_book (visualizer : Visualizer) (handed : List (Nat × OrderMessage)) :
    (visualizer.run handed).book = replay (Book.watch visualizer.symbol)
      visualizer.book handed := by
  induction handed generalizing visualizer with
  | nil => rfl
  | cons entry handed ih =>
    obtain ⟨hsymbol, hbook⟩ := onOrderMessage_eq visualizer entry.2
    have hrest := ih (visualizer.onOrderMessage entry.2)
    rw [hsymbol, hbook] at hrest
    exact hrest

end Visualizer

/-! ## The log of a bucket -/

theorem mem_numberedFrom {messages : List OrderMessage} {s count n : Nat} {msg : OrderMessage} :
    (n, msg) ∈ numberedFrom messages s count ↔ s ≤ n ∧ n < s + count ∧
    messages[n - 1]? = some msg := by
  simp only [numberedFrom, List.mem_filterMap, List.mem_range'_1, Option.map_eq_some_iff,
    Prod.mk.injEq]
  constructor
  · rintro ⟨m, ⟨hle, hlt⟩, msg', hget, rfl, rfl⟩
    exact ⟨hle, hlt, hget⟩
  · rintro ⟨hle, hlt, hget⟩
    exact ⟨n, ⟨hle, hlt⟩, msg, hget, rfl, rfl⟩

theorem sorted_numberedFrom {messages : List OrderMessage} {s count : Nat} :
    (numberedFrom messages s count).Pairwise (·.1 < ·.1) := by
  refine List.Pairwise.filterMap _ (fun m n hlt entry hentry later hlater => ?_)
    (List.pairwise_lt_range' ..)
  obtain ⟨msg, -, rfl⟩ := Option.map_eq_some_iff.mp hentry
  obtain ⟨msg', -, rfl⟩ := Option.map_eq_some_iff.mp hlater
  exact hlt

/-- The log of the first `count` messages. -/
theorem replay_numberedFrom {apply : σ → OrderMessage → σ} {store : σ}
    {messages : List OrderMessage}
    {count : Nat} : replay apply store (numberedFrom messages 1 count) =
      (messages.take count).foldl apply store := by
  have hmessages : (numberedFrom messages 1 count).map (·.2) = messages.take count := by
    induction count with
    | zero => rfl
    | succ count ih =>
      rw [numberedFrom, List.range'_concat, List.filterMap_append, List.map_append,
        ← numberedFrom, ih, List.take_add_one]
      simp only [Nat.one_mul, List.filterMap_cons, List.filterMap_nil, Nat.add_sub_cancel_left]
      cases messages[count]? <;> rfl
  rw [← hmessages, List.foldl_map]
  rfl

namespace World

variable {bucketCount ringSize : Nat} {session : Session} {world : World bucketCount ringSize}
  {bucket : Subscriber.Bucket}

/-- What a bucket was handed is in order, and is from the log of the publisher. -/
theorem Inv.delivered_log (I : Inv session world) (hbucket : bucket ∈ world.subscriber.buckets) :
    (delivered (history bucket.id world.log)).Pairwise (·.1 < ·.1) ∧
    ∀ n msg, (n, msg) ∈ delivered (history bucket.id world.log) →
      1 ≤ n ∧ (messages world.assigned bucket.id)[n - 1]? = some msg := by
  have K := I.tended.kept bucket hbucket
  refine ⟨List.pairwise_map.mp (List.Pairwise.sublist delivered_sublist ?_), fun n msg hmem => ?_⟩
  · rcases K.state with H | ⟨S, -, H⟩
    · rw [H.quiet.2.1]
      exact List.Pairwise.nil
    · rw [H.passed]
      exact List.pairwise_lt_range'
  · exact I.published.records.mem_assigned.mp (K.booked.published n msg (mem_delivered.mp hmem)).1

end World

namespace Pipeline

variable {bucketCount ringSize count : Nat} [NeZero bucketCount] [NeZero ringSize]
  {setup : Setup count}
  {pipeline : Pipeline bucketCount ringSize count}

/-- The numbered messages of a bucket. -/
def bucketLog (pipeline : Pipeline bucketCount ringSize count) (id : Nat) :
    List (Nat × OrderMessage) :=
  numberedFrom (messages pipeline.assigned id) 1 (messages pipeline.assigned id).length

/-- The golden book of a bucket after its first `n` messages. -/
def goldenAfter (pipeline : Pipeline bucketCount ringSize count) (id n : Nat) : BookSet :=
  ((messages pipeline.assigned id).take n).foldl BookSet.apply {}

theorem Reachable.log_sets (h : Reachable setup pipeline) {i : Fin count}
    {bucket : Subscriber.Bucket}
    (hbucket : bucket ∈ (pipeline.consumers i).subscriber.buckets) :
    (delivered (history bucket.id (pipeline.consumers i).log)).Pairwise (·.1 < ·.1) ∧
    delivered (history bucket.id (pipeline.consumers i).log) ⊆ pipeline.bucketLog bucket.id := by
  obtain ⟨hsorted, hlog⟩ := (h.world i).inv.delivered_log hbucket
  refine ⟨hsorted, fun entry hmem => ?_⟩
  obtain ⟨hpos, hget⟩ := hlog entry.1 entry.2 hmem
  have hlt : entry.1 - 1 < (messages pipeline.assigned bucket.id).length :=
    (List.getElem?_eq_some_iff.mp hget).1
  exact mem_numberedFrom.mpr ⟨hpos, by omega, hget⟩

/-- What a visualizer shows at a level that is named last by a message that was handed over. -/
theorem shown_last {visualizer : Visualizer} (hempty : visualizer.book = {}) {level : Side × Int64}
    {handed : List (Nat × OrderMessage)} (hsorted : handed.Pairwise (·.1 < ·.1))
    (L : IsLast OrderMessage.sets (placeOf visualizer.symbol level) handed n msg) :
    some ((visualizer.run handed).book.level level.1 level.2) =
      msg.sets (placeOf visualizer.symbol level) := by
  have hread := (Book.overwrites visualizer.symbol).read_last {} hsorted
    (show IsLast _ level handed n msg from ⟨L.mem, L.names, L.last⟩)
  rw [Visualizer.run_book, hempty]
  exact hread

theorem shown_untouched {visualizer : Visualizer} (hempty : visualizer.book = {})
    {level : Side × Int64}
    {handed : List (Nat × OrderMessage)}
    (h : ∀ entry ∈ handed, entry.2.sets (placeOf visualizer.symbol level) = none) :
    (visualizer.run handed).book.level level.1 level.2 = none := by
  have hnone : ({} : Book).level level.1 level.2 = none := by
    obtain ⟨side, price⟩ := level
    cases side <;> rfl
  rw [Visualizer.run_book, hempty]
  exact ((Book.overwrites visualizer.symbol).read_untouched {} level h).trans hnone

/-- Where the last update of all was handed over, a visualizer shows what the golden book has. -/
theorem Reachable.shown_golden (h : Reachable setup pipeline) {i : Fin count}
    {bucket : Subscriber.Bucket}
    (hbucket : bucket ∈ (pipeline.consumers i).subscriber.buckets) {visualizer : Visualizer}
    (hempty : visualizer.book = {}) {level : Side × Int64}
    (L : IsLast OrderMessage.sets (placeOf visualizer.symbol level)
      (pipeline.bucketLog bucket.id) n msg)
    (hmem : (n, msg) ∈ delivered (history bucket.id (pipeline.consumers i).log)) :
    ∃ source, pipeline.handler.publisher.buckets[bucket.id]? = some source ∧
      (visualizer.run (delivered (history bucket.id (pipeline.consumers i).log))).book.level
        level.1 level.2 =
        source.golden.level (placeOf visualizer.symbol level) := by
  have I := (h.world i).inv
  obtain ⟨hsorted, hsubset⟩ := h.log_sets hbucket
  have hknown : bucket.id < bucketCount := by
    obtain ⟨hpos, -, hget⟩ := mem_numberedFrom.mp L.mem
    exact I.published.known ⟨bucket.id, n, msg⟩ (I.published.records.mem_assigned.mpr ⟨hpos, hget⟩)
  have hread := (BookSet.overwrites.comap (placeOf visualizer.symbol)).replica
    (Book.overwrites visualizer.symbol) {} {} sorted_numberedFrom hsorted hsubset
    (show IsLast _ level _ n msg from ⟨L.mem, L.names, L.last⟩) hmem
  have hgolden : replay BookSet.apply {} (pipeline.bucketLog bucket.id) =
      pipeline.handler.publisher.buckets[bucket.id].golden := by
    rw [bucketLog, replay_numberedFrom, List.take_length]
    exact (I.published.records.golden bucket.id hknown).symm
  refine ⟨pipeline.handler.publisher.buckets[bucket.id], by simp [hknown], ?_⟩
  rw [Visualizer.run_book, hempty, ← hgolden]
  exact hread

/-- **Books heal.** A visualizer shows at a level what the golden book had there when the last
update of the level that it was handed had been published; so if that was the last one of all, it
shows what the golden book has now. Of levels that it was handed no update for, it shows nothing. -/
theorem visualizer_heals (h : Reachable setup pipeline) {i : Fin count} {bucket : Subscriber.Bucket}
    (hbucket : bucket ∈ (pipeline.consumers i).subscriber.buckets) (visualizer : Visualizer)
    (hempty : visualizer.book = {}) (level : Side × Int64) :
    let handed := delivered (history bucket.id (pipeline.consumers i).log)
    let place := placeOf visualizer.symbol level
    let shown := (visualizer.run handed).book.level level.1 level.2
    (∀ n msg, IsLast OrderMessage.sets place handed n msg →
      shown = (pipeline.goldenAfter bucket.id n).level place) ∧
    (∀ n msg, IsLast OrderMessage.sets place (pipeline.bucketLog bucket.id) n msg →
      (n, msg) ∈ handed →
      ∃ source, pipeline.handler.publisher.buckets[bucket.id]? = some source ∧
        shown = source.golden.level place) ∧
    ((∀ entry ∈ handed, entry.2.sets place = none) → shown = none) := by
  obtain ⟨hsorted, hsubset⟩ := h.log_sets hbucket
  refine ⟨fun n msg L => ?_, fun n msg L hmem => h.shown_golden hbucket hempty L hmem,
    shown_untouched hempty⟩
  -- among the first `n` messages the last one that names the level is the same
  have L' : IsLast OrderMessage.sets (placeOf visualizer.symbol level)
      (numberedFrom (messages pipeline.assigned bucket.id) 1 n) n msg := by
    obtain ⟨hpos, -, hget⟩ := mem_numberedFrom.mp (hsubset L.mem)
    refine ⟨mem_numberedFrom.mpr ⟨hpos, by omega, hget⟩, L.names, fun m later hlater hlt => ?_⟩
    have := (mem_numberedFrom.mp hlater).2.1
    omega
  have hgolden := BookSet.overwrites.read_last {} sorted_numberedFrom L'
  rw [replay_numberedFrom] at hgolden
  exact Option.some.inj ((shown_last hempty hsorted L).trans hgolden.symm)

/-- The consumer that joined late shows what the update it was handed says, like the golden book,
and nothing of the other side. -/
theorem visualizer_heals_open :
    let handed := delivered (history (openBucket 1).id (openDone.consumers 1).log)
    let shown side := (Visualizer.run { symbol := [0x5a] } handed).book.level side 5000
    let golden n := (openDone.goldenAfter (openBucket 1).id n).level ⟨[0x5a], .bid, 5000⟩
    handed = [(2, changeUpdate)] ∧ golden 1 = some 100 ∧ golden 2 = some 60 ∧
      shown .bid = golden 2 ∧
      (∃ source, openDone.handler.publisher.buckets[(openBucket 1).id]? = some source ∧
        shown .bid = source.golden.level ⟨[0x5a], .bid, 5000⟩) ∧
      shown .ask = none := by
  intro handed shown golden
  have hhanded : handed = [(2, changeUpdate)] := by decide +kernel
  have hlog : openDone.bucketLog (openBucket 1).id =
      [(1, openUpdate), (2, changeUpdate), (3, endMessage)] := by
    decide +kernel
  have L : IsLast OrderMessage.sets (placeOf [0x5a] (.bid, 5000)) handed 2 changeUpdate := by
    rw [hhanded]
    refine ⟨.head _, by decide, fun m later hmem hlt => ?_⟩
    cases List.mem_singleton.mp hmem
    exact absurd hlt (Nat.lt_irrefl 2)
  have L' :
      IsLast OrderMessage.sets (placeOf [0x5a] (.bid, 5000))
        (openDone.bucketLog (openBucket 1).id) 2
      changeUpdate := by
    rw [hlog]
    refine ⟨.tail _ (.head _), by decide, fun m later hmem hlt => ?_⟩
    simp only [List.mem_cons, List.not_mem_nil, or_false, Prod.mk.injEq] at hmem
    obtain ⟨rfl, -⟩ | ⟨rfl, -⟩ | ⟨-, rfl⟩ := hmem
    · omega
    · omega
    · decide
  have hheals :=
    visualizer_heals reachable_openDone (openBucket_mem 1) { symbol := [0x5a] } rfl (.bid, 5000)
  have hother :=
    visualizer_heals reachable_openDone (openBucket_mem 1) { symbol := [0x5a] } rfl (.ask, 5000)
  refine ⟨hhanded, by decide +kernel, by decide +kernel, hheals.1 2 changeUpdate L,
    hheals.2.1 2 changeUpdate L' L.mem, hother.2.2 ?_⟩
  show ∀ entry ∈ handed, _
  rw [hhanded]
  decide

end Pipeline
end MegaFeed
