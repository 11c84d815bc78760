import MegaFeed.Verify.World

/-! # Exactly once, in order

`exactly_once`: in every reachable world of a session, every bucket has handed over the published
messages in increasing order of their numbers, and has accounted for every number from its start on
exactly once. -/

namespace MegaFeed
open FeedPublisher Subscriber

namespace Subscriber

variable {history : List BucketEvent} {bucket : Bucket} {assigned : List Assigned}
  {S firstExpected backfill : Nat}

theorem delivered_sublist :
    ((delivered history).map (·.1)).Sublist ((outcomes history).map (·.1)) := by
  rw [delivered_eq]
  induction outcomes history with
  | nil => exact List.Sublist.refl _
  | cons first rest ih =>
    obtain ⟨s, outcome⟩ := first
    cases outcome with
    | delivered msg => exact ih.cons_cons s
    | unrecoverable => exact ih.cons s
    | ended => exact ih.cons s

theorem tally_ended (B : Booked assigned history bucket) :
    tally .ended history = if bucket.done then 1 else 0 := by
  have hnone : ∀ passed : List (Nat × Outcome), (∀ s, (s, .ended) ∉ passed) →
      (passed.map (·.2)).count .ended = 0 := by
    intro passed h
    refine List.count_eq_zero.mpr fun hmem => ?_
    obtain ⟨⟨s, outcome⟩, hs, rfl⟩ := List.mem_map.mp hmem
    exact h s hs
  cases hdone : bucket.done with
  | false => exact hnone _ (B.opened hdone)
  | true =>
    obtain ⟨before, s, msg, hlast, hbefore, -⟩ := B.closed hdone
    rw [tally, hlast, List.map_append, List.count_append, hnone before hbefore]
    rfl

/-- Every number from `S` up to the next one was passed exactly once: delivered, counted in
`unrecoverable`, or the end marker that set `done`. -/
structure Accounted (assigned : List Assigned) (S : Nat) (history : List BucketEvent)
    (bucket : Bucket) : Prop where
  start_le : S ≤ bucket.nextSequence
  passed : (outcomes history).map (·.1) = List.range' S (bucket.nextSequence - S)
  delivered : bucket.stats.delivered = (delivered history).length
  unrecoverable : bucket.stats.unrecoverable = tally .unrecoverable history
  ended : tally .ended history = if bucket.done then 1 else 0
  marker : ∀ s, (s, .ended) ∈ outcomes history →
    ∃ msg, ⟨bucket.id, s, msg⟩ ∈ assigned ∧ msg.type = ascii 'E'
  total : bucket.nextSequence - S =
    bucket.stats.delivered + bucket.stats.unrecoverable + if bucket.done then 1 else 0

theorem Booked.accounted (B : Booked assigned history bucket)
    (H : Running S assigned history bucket) :
    Accounted assigned S history bucket where
  start_le := H.start_le
  passed := H.passed
  delivered := B.delivered
  unrecoverable := B.unrecoverable
  ended := tally_ended B
  marker := by
    intro s hs
    cases hdone : bucket.done with
    | false => exact (B.opened hdone s hs).elim
    | true =>
      obtain ⟨before, last, msg, hlast, hbefore, hmem, htype⟩ := B.closed hdone
      rw [hlast, List.mem_append, List.mem_singleton] at hs
      rcases hs with hs | hs
      · exact (hbefore s hs).elim
      · cases hs
        exact ⟨msg, hmem, htype⟩
  total := by
    have hlength := congrArg List.length H.passed
    rw [List.length_map, List.length_range', length_outcomes, ← B.delivered, ← B.unrecoverable,
      tally_ended B] at hlength
    exact hlength.symm

end Subscriber

namespace World

variable {bucketCount ringSize : Nat} [NeZero bucketCount] [NeZero ringSize] {session : Session}
  {world : World bucketCount ringSize} {bucket : Subscriber.Bucket}

/-- **Reliable multicast is safe.** A bucket hands messages over in increasing order of their
numbers, each as the publisher assigned it, and accounts for every number from its start on
exactly once. -/
theorem exactly_once (h : Reachable session world) (hbucket : bucket ∈ world.subscriber.buckets) :
    ((delivered (history bucket.id world.log)).map (·.1)).Pairwise (· < ·) ∧
    (∀ s msg, (s, msg) ∈ delivered (history bucket.id world.log) →
      ∀ msg', ⟨bucket.id, s, msg'⟩ ∈ world.assigned ↔ msg' = msg) ∧
    (bucket.synced = true → ∃ S,
      start session.firstExpected.toNat session.backfill.toNat (history bucket.id world.log) =
      some S ∧
      Subscriber.Accounted world.assigned S (history bucket.id world.log) bucket) := by
  have I := h.inv
  have K := I.tended.kept bucket hbucket
  refine ⟨?_, ?_, ?_⟩
  · refine List.Pairwise.sublist delivered_sublist ?_
    rcases K.state with H | ⟨S, -, H⟩
    · rw [H.quiet.2.1]
      exact List.Pairwise.nil
    · rw [H.passed]
      exact List.pairwise_lt_range'
  · intro s msg hs msg'
    have hmem := (K.booked.published s msg (mem_delivered.mp hs)).1
    constructor
    · intro hmem'
      have hsome := (I.published.records.mem_assigned.mp hmem).2
      have hsome' := (I.published.records.mem_assigned.mp hmem').2
      exact Option.some.inj (hsome'.symm.trans hsome)
    · rintro rfl
      exact hmem
  · intro hsynced
    rcases K.state with H | ⟨S, hstart, H⟩
    · exact nomatch hsynced.symm.trans H.synced
    · exact ⟨S, start_rewind ▸ hstart, K.booked.accounted H⟩

/-- The late message is delivered before the end marker, and both numbers are accounted for. -/
theorem exactly_once_late : ∃ bucket ∈ lateDone.subscriber.buckets,
    delivered (history bucket.id lateDone.log) = [(1, {})] ∧ bucket.done = true ∧
    ∃ S, start 1 0 (history bucket.id lateDone.log) = some S ∧
      Subscriber.Accounted lateDone.assigned S (history bucket.id lateDone.log) bucket := by
  have hmem : (lateDone.subscriber.buckets[0]?.getD { id := 0 }) ∈ lateDone.subscriber.buckets :=
    .head _
  exact ⟨_, hmem, by decide, by decide, (exactly_once reachable_lateDone hmem).2.2 (by decide)⟩

end World
end MegaFeed
