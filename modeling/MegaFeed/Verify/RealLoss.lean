import MegaFeed.Verify.Run

/-! # Only real loss is written off

A number is written off after it was given up past its deadline, or after the server had answered
that it has it no more (`only_real_loss`). Either way it had been a hole, below a number that was
assigned later, so it is no end marker, and nothing is passed twice, so it was never delivered. -/

namespace MegaFeed
open FeedPublisher Subscriber

namespace Subscriber

variable {firstExpected backfill : Nat} {assigned : List Assigned} {history : List BucketEvent}
  {bucket : Bucket} {s : Nat}

/-- No number is passed twice. -/
theorem Kept.outcome_unique (K : Kept firstExpected backfill assigned history bucket)
    {outcome outcome' : Outcome} (h : (s, outcome) ∈ outcomes history)
    (h' : (s, outcome') ∈ outcomes history) : outcome = outcome' := by
  have hidle : ¬Idle firstExpected history bucket := by
    intro H
    rw [H.quiet.2.1] at h
    cases h
  obtain ⟨S, -, H⟩ := K.running hidle
  have hnodup : ((outcomes history).map (·.1)).Nodup := H.passed ▸ List.nodup_range'
  exact (Prod.mk.inj (List.inj_on_of_nodup_map hnodup h h' rfl)).2

theorem mem_outcomes {event : BucketEvent} {outcome : Outcome} (h : event ∈ history)
    (houtcome : event.outcome = some (s, outcome)) : (s, outcome) ∈ outcomes history :=
  List.mem_filterMap.mpr ⟨event, h, houtcome⟩

/-- Nothing was written off. -/
theorem Kept.none_unrecoverable (K : Kept firstExpected backfill assigned history bucket)
    (h : ∀ s, .unrecoverable s ∉ history) : bucket.stats.unrecoverable = 0 := by
  rw [K.booked.unrecoverable, tally, List.count_eq_zero]
  intro hmem
  obtain ⟨⟨s, outcome⟩, hmem, rfl⟩ := List.mem_map.mp hmem
  obtain ⟨event, hevent, houtcome⟩ := List.mem_filterMap.mp hmem
  cases event <;> cases houtcome
  exact h s hevent

end Subscriber

namespace World

variable {bucketCount ringSize : Nat} [NeZero bucketCount] [NeZero ringSize] {session : Session}
  {start : UInt64} {world : World bucketCount ringSize}
  {earlier : List (World bucketCount ringSize)}
  {bucket : Subscriber.Bucket}

omit [NeZero bucketCount] [NeZero ringSize] in
/-- What has a later number in its bucket is no end marker. -/
theorem not_ended_of_later {publisher : FeedPublisher bucketCount ringSize} {finished : Bool}
    {assigned : List Assigned} {sent : List Packet} (P : Published publisher finished assigned sent)
    {b s s' : Nat} {msg msg' : OrderMessage} (h : ⟨b, s, msg⟩ ∈ assigned)
    (h' : ⟨b, s', msg'⟩ ∈ assigned)
    (hlt : s < s') : msg.type ≠ ascii 'E' := by
  obtain ⟨earlier, hmessages, htypes, -⟩ := P.ended b (P.known _ h)
  obtain ⟨hpos, hget⟩ := P.records.mem_assigned.mp h
  have hcount := (List.getElem?_eq_some_iff.mp (P.records.mem_assigned.mp h').2).1
  have hlength : (if finished then [endMessage] else []).length ≤ 1 := by split <;> simp
  rw [hmessages, List.length_append] at hcount
  rw [hmessages, List.getElem?_append_left (by omega)] at hget
  exact htypes msg (List.mem_of_getElem? hget)

/-- **Only real loss is written off.** Whatever a bucket counts unrecoverable was published and is
no end marker, was never delivered, and was either given up past its deadline or answered for by a
server whose ring had gone on. Without either nothing is counted. -/
theorem only_real_loss (h : Run session start (world :: earlier))
    (hbucket : bucket ∈ world.subscriber.buckets) :
    (∀ s, .unrecoverable s ∈ history bucket.id world.log →
      (∃ msg, ⟨bucket.id, s, msg⟩ ∈ world.assigned) ∧
      (∀ msg, ⟨bucket.id, s, msg⟩ ∈ world.assigned → msg.type ≠ ascii 'E') ∧
      (∀ msg, .delivered s msg ∉ history bucket.id world.log) ∧
      ((∃ noticed now, .noticed s noticed ∈ history bucket.id world.log ∧
          .expired s now ∈ history bucket.id world.log ∧
          now - noticed > world.subscriber.giveupNs) ∨
        Lapped (world :: earlier) bucket.id s)) ∧
    ((∀ s now, .expired s now ∉ history bucket.id world.log) →
      (∀ s, ¬Lapped (world :: earlier) bucket.id s) → bucket.stats.unrecoverable = 0) := by
  have I := h.inv _ (.head _)
  have L := h.lives.lives bucket hbucket
  obtain ⟨hholes, hgone⟩ := newBucket_maps session.firstExpected bucket.id
  have horigin : ∀ s, .unrecoverable s ∈ history bucket.id world.log →
      (∃ now, .expired s now ∈ history bucket.id world.log) ∨
      Lapped (world :: earlier) bucket.id s := by
    intro s hs
    refine (L.unrecoverable hgone hs).imp_right fun hframe => ?_
    have hlapped := (L.lost hframe).2
    rwa [id_newBucket] at hlapped
  refine ⟨fun s hs => ?_, fun hexpired hlapped => ?_⟩
  · have hnoticed : ∃ t, .noticed s t ∈ history bucket.id world.log := by
      rcases L.unrecoverable hgone hs with ⟨now, hexpired⟩ | hframe
      · exact (L.expired hholes hexpired).imp fun t h => h.1
      · exact L.asked hholes (L.lost hframe).1
    obtain ⟨t, hnoticed⟩ := hnoticed
    obtain ⟨hassigned, s', msg', hlt, hlater⟩ := L.noticed_assigned I.published.records hnoticed
    refine ⟨hassigned, fun msg hmsg => not_ended_of_later I.published hmsg hlater hlt,
      fun msg hdelivered => ?_, (horigin s hs).imp_left fun ⟨now, hexpired⟩ => ?_⟩
    · have hwritten : (s, Outcome.unrecoverable) ∈ outcomes (history bucket.id world.log) :=
        mem_outcomes hs rfl
      exact nomatch L.kept.outcome_unique hwritten (mem_outcomes hdelivered rfl)
    · obtain ⟨noticed, hmem, hage⟩ := L.expired hholes hexpired
      exact ⟨noticed, now, hmem, hexpired, hage⟩
  · refine L.kept.none_unrecoverable fun s hs => ?_
    rcases horigin s hs with ⟨now, hnow⟩ | hs
    · exact hexpired s now hnow
    · exact hlapped s hs

omit [NeZero bucketCount] in
/-- The server is asked for one number, which the ring does not hold. -/
theorem serve_lost {link : Link} {bucketIndex : UInt16} {sequence : UInt64}
    (R : Records world.publisher world.assigned) (hb : bucketIndex.toNat < bucketCount)
    (hlast : Ring.last ringSize (messages world.assigned bucketIndex.toNat) sequence.toNat = none)
    (hrequest : link.toServer = request bucketIndex [sequence]) :
    (world.serve link).link = some
      { link with
        toServer := []
        toClient := link.toClient ++ answer bucketIndex none sequence } := by
  have hserve : world.publisher.serveOneClient (request bucketIndex [sequence] ++ []) =
      .reply (answer bucketIndex none sequence) [] := by
    rw [serveOneClient_request hb (by simp) (by simp [MAX_REPAIR_BATCH]), List.flatMap_singleton,
      (R.keeps _ hb).frame_eq, hlast, Option.map_none]
  rw [List.append_nil] at hserve
  rw [World.serve, hrequest, hserve]

theorem lateAnswered_link : lateAnswered.link = some { toClient := answer 0 none 1 } :=
  serve_lost reachable_lateAsked.inv.published.records (by decide) (by decide) (by decide)

/-- The answer arrives. -/
def lateLost : World 1 1 :=
  let world := { lateAnswered.afterCall (.drainUdp 0 []) with phase := .drainUdp 1 }
  let world :=
    { (world.consume 12).afterCall (.drainTcp [.data (answer 0 none 1)]) with phase := .nak 0 }
  let world := { world.afterCall (.nak 0 ⟨20000000, true, true⟩) with
    phase := .deliver 0, clock := 20000000, nakNow := Function.update world.nakNow 0 20000000 }
  { world.afterCall (.deliver 0) with phase := .nak 1 }

theorem run_lateLost : ∃ earlier, Run lateSession 0 (lateLost :: earlier) := by
  obtain ⟨_, hasked⟩ := run_lateAsked
  have hanswered :=
    (hasked.step (@Step.serve _ _ _ _ lateAsked (lateAsked.link.getD {}) rfl rfl)).step (.again rfl)
  have hdrained := hanswered.step (.drainUdp [] rfl rfl nofun (List.pairwise_singleton _ _))
  have hreceives :
      World.Receives { lateAnswered.afterCall (.drainUdp 0 []) with phase := .drainUdp 1 }
      [.data (answer 0 none 1)] 12 := by
    intro link hlink
    cases lateAnswered_link.symm.trans hlink
    rfl
  have hread := hdrained.step (.drainTcp [.data (answer 0 none 1)] 12 rfl hreceives)
  exact ⟨_, (hread.step (.nak ⟨20000000, true, true⟩ rfl (by decide) (by decide))).step
    (.deliver rfl)⟩

/-- The first message is written off, since the ring had gone on. -/
theorem only_real_loss_lapped : ∃ earlier bucket, bucket ∈ lateLost.subscriber.buckets ∧
    .unrecoverable 1 ∈ history bucket.id lateLost.log ∧
    Lapped (lateLost :: earlier) bucket.id 1 := by
  obtain ⟨earlier, h⟩ := run_lateLost
  have hlog : history 0 lateLost.log =
      [.arrived 2, .noticed 1 0, .requested [1] 10000000, .frame 1 none, .unrecoverable 1,
        .ended 2] := by
    decide
  have hids : ∀ bucket ∈ lateLost.subscriber.buckets, bucket.id = 0 := by
    obtain ⟨bucket, hbuckets, hid⟩ := h.one_bucket
    rw [hbuckets]
    exact List.forall_mem_singleton.mpr hid
  obtain ⟨bucket, hmem⟩ : ∃ bucket, bucket ∈ lateLost.subscriber.buckets := by
    obtain ⟨bucket, hbuckets, -⟩ := h.one_bucket
    exact ⟨bucket, hbuckets ▸ .head _⟩
  have hlost := (only_real_loss h hmem).1
  rw [hids bucket hmem, hlog] at hlost
  refine ⟨earlier, bucket, hmem, ?_⟩
  rw [hids bucket hmem, hlog]
  exact ⟨by simp, (hlost 1 (by simp)).2.2.2.resolve_left (by simp)⟩

end World
end MegaFeed
