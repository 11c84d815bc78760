import MegaFeed.Verify.ExactlyOnce

/-! # The golden book

A bucket that is done and has lost nothing was handed the publisher's messages, all of them
(`Running.delivered_all`). `golden_agreement`: a `BookSet` fed with them is the golden one. -/

namespace MegaFeed
open FeedPublisher Subscriber

namespace FeedPublisher

variable {bucketCount ringSize : Nat} {publisher : FeedPublisher bucketCount ringSize}
  {assigned : List Assigned}

/-- Messages assigned to the numbers from 1 on are the first messages of their bucket. -/
theorem Records.take_messages (H : Records publisher assigned)
    {numbered : List (Nat × OrderMessage)}
    (hnumbers : numbered.map (·.1) = List.range' 1 numbered.length)
    (hmem : ∀ s msg, (s, msg) ∈ numbered → ⟨b, s, msg⟩ ∈ assigned) :
    numbered.map (·.2) = (messages assigned b).take numbered.length := by
  refine List.ext_getElem? fun i => ?_
  rw [List.getElem?_map, List.getElem?_take]
  cases hi : numbered[i]? with
  | none =>
    rw [if_neg (Nat.not_lt.mpr (List.getElem?_eq_none_iff.mp hi))]
    rfl
  | some entry =>
    obtain ⟨s, msg⟩ := entry
    have hlt := (List.getElem?_eq_some_iff.mp hi).1
    have hs := congrArg (·[i]?) hnumbers
    simp only [List.getElem?_map, hi, Option.map_some, List.getElem?_range' hlt] at hs
    have hget := (H.mem_assigned.mp (hmem s msg (List.mem_of_getElem? hi))).2
    rw [Option.some.inj hs, Nat.one_mul, Nat.add_sub_cancel_left] at hget
    rw [if_pos hlt, hget]
    rfl

end FeedPublisher

namespace Subscriber

variable {history : List BucketEvent} {bucket : Bucket} {assigned : List Assigned} {S : Nat}

theorem eq_delivered {passed : List (Nat × Outcome)}
    (h : ∀ s outcome, (s, outcome) ∈ passed → ∃ msg, outcome = .delivered msg) :
    passed.map (·.1) =
      (passed.filterMap fun (s, outcome) => outcome.message.map (s, ·)).map (·.1) := by
  induction passed with
  | nil => rfl
  | cons first rest ih =>
    obtain ⟨s, outcome⟩ := first
    obtain ⟨msg, rfl⟩ := h s outcome (.head _)
    exact congrArg (s :: ·) (ih fun s outcome hmem => h s outcome (.tail _ hmem))

/-- A bucket that is done without loss was handed every number before that of its end marker. -/
theorem Running.delivered_all (H : Running S assigned history bucket)
    (B : Booked assigned history bucket) (hdone : bucket.done = true)
    (hlost : bucket.stats.unrecoverable = 0) :
    (delivered history).map (·.1) = List.range' S (delivered history).length ∧
    ∃ marker, ⟨bucket.id, S + (delivered history).length, marker⟩ ∈ assigned ∧
      marker.type = ascii 'E' := by
  obtain ⟨before, s, marker, hlast, hbefore, hmem, htype⟩ := B.closed hdone
  have hlossless : ∀ s, (s, .unrecoverable) ∉ outcomes history := by
    intro s hs
    have hzero : tally .unrecoverable history = 0 := B.unrecoverable.symm.trans hlost
    exact List.count_eq_zero.mp hzero (List.mem_map.mpr ⟨_, hs, rfl⟩)
  have hall : ∀ s outcome, (s, outcome) ∈ before → ∃ msg, outcome = .delivered msg := by
    intro s outcome hs
    cases outcome with
    | delivered msg => exact ⟨msg, rfl⟩
    | unrecoverable => exact (hlossless s (hlast ▸ List.mem_append_left _ hs)).elim
    | ended => exact (hbefore s hs).elim
  have hdelivered : delivered history =
      before.filterMap fun (s, outcome) => outcome.message.map (s, ·) := by
    rw [delivered_eq, hlast, List.filterMap_append]
    exact List.append_nil _
  have hnumbers := eq_delivered hall
  rw [← hdelivered] at hnumbers
  have hpassed := H.passed
  have hlength : before.length = (delivered history).length := by
    simpa only [List.length_map] using congrArg List.length hnumbers
  have hcount : bucket.nextSequence - S = (delivered history).length + 1 := by
    have := congrArg List.length hpassed
    rw [hlast] at this
    simp only [List.map_append, List.length_append, List.length_map, List.length_range',
      List.length_cons, List.length_nil] at this
    omega
  rw [hlast, List.map_append, hnumbers, hcount, List.range'_concat, Nat.one_mul] at hpassed
  obtain ⟨hfirst, hend⟩ := List.append_inj' hpassed rfl
  refine ⟨hfirst, marker, ?_, htype⟩
  rwa [← (List.cons.inj hend).1]

end Subscriber

theorem BookSet.apply_endMessage {set : BookSet} : set.apply endMessage = set := if_pos rfl

namespace World

variable {bucketCount ringSize : Nat} [NeZero bucketCount] [NeZero ringSize] {session : Session}
  {world : World bucketCount ringSize} {bucket : Subscriber.Bucket}

/-- **The golden book agrees.** A `BookSet` fed with everything a bucket was handed, from the first
message to the end and with nothing unrecoverable, is the publisher's golden one. -/
theorem golden_agreement (h : Reachable session world) (hfirst : session.firstExpected = 1)
    (hbucket : bucket ∈ world.subscriber.buckets) (hdone : bucket.done = true)
    (hlost : bucket.stats.unrecoverable = 0) :
    ∃ source, world.publisher.buckets[bucket.id]? = some source ∧
      ((delivered (history bucket.id world.log)).map (·.2)).foldl BookSet.apply {} = source.golden ∧
      bucket.stats.delivered = source.published := by
  have I := h.inv
  have P := I.published
  have K := I.tended.kept bucket hbucket
  obtain ⟨S, hstart, H⟩ := K.running fun hidle => by
    obtain ⟨before, s, msg, hlast, -⟩ := K.booked.closed hdone
    rw [hidle.quiet.2.1] at hlast
    exact List.append_ne_nil_of_right_ne_nil before (List.cons_ne_nil _ _) hlast.symm
  obtain rfl : S = 1 := by
    rw [hfirst] at hstart
    exact (Option.some.inj hstart).symm
  obtain ⟨hnumbers, marker, hmarker, htype⟩ := H.delivered_all K.booked hdone hlost
  have hmessages := P.records.take_messages hnumbers fun s msg hs =>
    (K.booked.published s msg (mem_delivered.mp hs)).1
  have hid := P.known _ hmarker
  obtain ⟨earlier, hearlier, htypes, hpublished⟩ := P.ended bucket.id hid
  -- the end marker is the last message of its bucket
  have hend : (delivered (history bucket.id world.log)).length = earlier.length ∧
      world.finished = true := by
    have hget := (P.records.mem_assigned.mp hmarker).2
    rw [Nat.add_sub_cancel_left, hearlier] at hget
    have hle : earlier.length ≤ (delivered (history bucket.id world.log)).length := by
      by_contra hlt
      rw [List.getElem?_append_left (Nat.not_le.mp hlt)] at hget
      exact htypes marker (List.mem_of_getElem? hget) htype
    have hlt := (List.getElem?_eq_some_iff.mp hget).1
    split at hlt
    · next hfinished =>
      rw [List.length_append, List.length_singleton] at hlt
      exact ⟨by omega, hfinished⟩
    · rw [List.append_nil] at hlt
      omega
  obtain ⟨hlength, hfinished⟩ := hend
  rw [hearlier, if_pos hfinished, hlength, List.take_left' rfl] at hmessages
  refine ⟨world.publisher.buckets[bucket.id], by simp [hid], ?_, ?_⟩
  · rw [hmessages, P.records.golden bucket.id hid, hearlier, if_pos hfinished, List.foldl_append]
    exact BookSet.apply_endMessage.symm
  · rw [K.booked.delivered, hlength, hpublished]

/-- The late message makes the golden book. -/
theorem golden_agreement_late : ∃ bucket ∈ lateDone.subscriber.buckets,
    ∃ source, lateDone.publisher.buckets[bucket.id]? = some source ∧
      ((delivered (history bucket.id lateDone.log)).map (·.2)).foldl BookSet.apply {} =
        source.golden ∧ bucket.stats.delivered = source.published := by
  have hmem : (lateDone.subscriber.buckets[0]?.getD { id := 0 }) ∈ lateDone.subscriber.buckets :=
    .head _
  exact ⟨_, hmem, golden_agreement reachable_lateDone rfl hmem (by decide) (by decide)⟩

end World
end MegaFeed
