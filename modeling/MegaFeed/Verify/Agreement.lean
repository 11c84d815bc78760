import MegaFeed.Verify.Pipeline
import MegaFeed.Verify.GoldenBook

/-! # Consumers agree

Any number of consumers listen to one publisher, each behind a network of its own.
`consumers_agree`: what two of them are handed under one number is one message, and where both
have lost nothing, one has been handed a prefix of what the other has, from the later of the two
starts on. -/

namespace MegaFeed
open FeedPublisher Subscriber

namespace Subscriber

variable {history : List BucketEvent} {bucket : Bucket} {assigned : List Assigned}
  {S firstExpected backfill : Nat}

/-- A bucket that has lost nothing was handed a run of numbers. -/
theorem Running.delivered_range (H : Running S assigned history bucket)
    (B : Booked assigned history bucket)
    (hlost : bucket.stats.unrecoverable = 0) :
    (delivered history).map (·.1) = List.range' S (delivered history).length := by
  cases hdone : bucket.done with
  | true => exact (H.delivered_all B hdone hlost).1
  | false =>
    have hall : ∀ s outcome, (s, outcome) ∈ outcomes history → ∃ msg, outcome = .delivered msg := by
      intro s outcome hs
      cases outcome with
      | delivered msg => exact ⟨msg, rfl⟩
      | unrecoverable =>
        have hzero : tally .unrecoverable history = 0 := B.unrecoverable.symm.trans hlost
        exact (List.count_eq_zero.mp hzero (List.mem_map.mpr ⟨_, hs, rfl⟩)).elim
      | ended => exact absurd hs (B.opened hdone s)
    have hnumbers := eq_delivered hall
    rw [← delivered_eq, H.passed] at hnumbers
    have hlength := congrArg List.length hnumbers
    rw [List.length_range', List.length_map] at hlength
    rw [← hnumbers, ← hlength]

theorem Kept.running_of_start (K : Kept firstExpected backfill assigned history bucket)
    (h : start firstExpected backfill history = some S) : Running S assigned history bucket := by
  rcases K.state with H | ⟨S', hstart, H⟩
  · rw [start, if_neg (by rw [H.live]; exact Nat.lt_irrefl 0), H.quiet.1] at h
    cases h
  · cases hstart.symm.trans h
    exact H

end Subscriber

/-- The messages numbered `s`, `s + 1`, ... of a bucket, `count` of them. -/
def numberedFrom (messages : List OrderMessage) (s count : Nat) : List (Nat × OrderMessage) :=
  (List.range' s count).filterMap fun n => messages[n - 1]?.map (n, ·)

theorem eq_numberedFrom {messages : List OrderMessage}
    {numbered : List (Nat × OrderMessage)} {s : Nat}
    (hnumbers : numbered.map (·.1) = List.range' s numbered.length)
    (h : ∀ n msg, (n, msg) ∈ numbered → messages[n - 1]? = some msg) :
    numbered = numberedFrom messages s numbered.length := by
  rw [numberedFrom, ← hnumbers, List.filterMap_map]
  conv_lhs => rw [← List.filterMap_some (l := numbered)]
  refine List.filterMap_congr fun entry hmem => ?_
  simp [h entry.1 entry.2 hmem]

/-- From number `m` on. -/
theorem filter_numberedFrom {messages : List OrderMessage} {s m count : Nat} (h : s ≤ m) :
    (numberedFrom messages s count).filter (m ≤ ·.1) = numberedFrom messages m (s + count - m) := by
  have hnumbers : (List.range' s count).filter (m ≤ ·) = List.range' m (s + count - m) := by
    rcases Nat.le_total m (s + count) with hle | hle
    · have hsplit : List.range' s count = List.range' s (m - s) ++ List.range' m
          (s + count - m) := by
        have := @List.range'_append s (m - s) (s + count - m) 1
        rw [Nat.one_mul, Nat.add_sub_cancel' h] at this
        rw [this]
        congr 1
        omega
      rw [hsplit, List.filter_append, List.filter_eq_nil_iff.mpr fun n hn => ?_,
        List.filter_eq_self.mpr fun n hn => ?_, List.nil_append]
      · rw [List.mem_range'_1] at hn
        simp only [decide_eq_true_eq]
        omega
      · rw [List.mem_range'_1] at hn
        simp only [decide_eq_true_eq]
        omega
    · rw [Nat.sub_eq_zero_of_le hle, List.range'_zero]
      refine List.filter_eq_nil_iff.mpr fun n hn => ?_
      rw [List.mem_range'_1] at hn
      simp only [decide_eq_true_eq]
      omega
  rw [numberedFrom, numberedFrom, ← hnumbers, List.filter_filterMap, List.filterMap_filter]
  refine List.filterMap_congr fun n _ => ?_
  cases messages[n - 1]? with
  | none => simp
  | some msg =>
    by_cases hle : m ≤ n
    · simp [hle]
    · simp [hle, Nat.lt_of_not_le hle]

theorem numberedFrom_front {messages : List OrderMessage} {s count count' : Nat}
    (h : count ≤ count') :
    numberedFrom messages s count <+: numberedFrom messages s count' := by
  obtain ⟨more, rfl⟩ := Nat.exists_eq_add_of_le h
  rw [numberedFrom, numberedFrom, ← List.range'_append, List.filterMap_append]
  exact List.prefix_append ..

namespace World

variable {bucketCount ringSize : Nat} {session : Session} {world : World bucketCount ringSize}
  {bucket : Subscriber.Bucket} {S : Nat}

/-- A bucket that has lost nothing was handed the messages from its start on. -/
theorem Inv.delivered_eq (I : Inv session world) (hbucket : bucket ∈ world.subscriber.buckets)
    (hstart : start session.firstExpected.toNat session.backfill.toNat
      (history bucket.id world.log) = some S)
    (hlost : bucket.stats.unrecoverable = 0) :
    delivered (history bucket.id world.log) = numberedFrom (messages world.assigned bucket.id) S
      (delivered (history bucket.id world.log)).length := by
  have K := I.tended.kept bucket hbucket
  have H := K.running_of_start (start_rewind.trans hstart)
  refine eq_numberedFrom (H.delivered_range K.booked hlost) fun n msg hmem => ?_
  exact (I.published.records.mem_assigned.mp (K.booked.published n msg (mem_delivered.mp hmem)).1).2

/-- A bucket that is done and has lost nothing was handed everything up to the last
number but one. -/
theorem Inv.delivered_done (I : Inv session world) (hbucket : bucket ∈ world.subscriber.buckets)
    (hstart : start session.firstExpected.toNat session.backfill.toNat
      (history bucket.id world.log) = some S)
    (hlost : bucket.stats.unrecoverable = 0) (hdone : bucket.done = true) :
    S + (delivered (history bucket.id world.log)).length =
      (messages world.assigned bucket.id).length := by
  have K := I.tended.kept bucket hbucket
  have P := I.published
  obtain ⟨-, marker, hmarker, htype⟩ :=
    (K.running_of_start (start_rewind.trans hstart)).delivered_all K.booked hdone hlost
  obtain ⟨earlier, hearlier, htypes, -⟩ := P.ended bucket.id (P.known _ hmarker)
  obtain ⟨hpos, hget⟩ := P.records.mem_assigned.mp hmarker
  -- the end marker is the last message of its bucket
  have hle : earlier.length ≤ S + (delivered (history bucket.id world.log)).length - 1 := by
    by_contra hlt
    rw [hearlier, List.getElem?_append_left (Nat.not_le.mp hlt)] at hget
    exact htypes marker (List.mem_of_getElem? hget) htype
  have hlt := (List.getElem?_eq_some_iff.mp hget).1
  have hlength : (messages world.assigned bucket.id).length ≤ earlier.length + 1 := by
    rw [hearlier]
    split <;> simp
  omega

end World

namespace Pipeline

variable {bucketCount ringSize count : Nat} [NeZero bucketCount] [NeZero ringSize]
  {setup : Setup count}
  {pipeline : Pipeline bucketCount ringSize count}

/-- **Consumers agree.** Under one number two consumers are handed one message. Where neither has
lost anything, from the later of their starts on one has been handed a prefix of what the other has,
and the same if both are done. -/
theorem consumers_agree (h : Reachable setup pipeline) {i j : Fin count}
    {bucket bucket' : Subscriber.Bucket}
    (hbucket : bucket ∈ (pipeline.consumers i).subscriber.buckets)
    (hbucket' : bucket' ∈ (pipeline.consumers j).subscriber.buckets)
    (hid : bucket'.id = bucket.id) :
    let handed := delivered (history bucket.id (pipeline.consumers i).log)
    let handed' := delivered (history bucket'.id (pipeline.consumers j).log)
    (∀ s msg msg', (s, msg) ∈ handed → (s, msg') ∈ handed' → msg = msg') ∧
    ∀ S S',
      start (setup.session i).firstExpected.toNat (setup.session i).backfill.toNat
        (history bucket.id (pipeline.consumers i).log) = some S →
      start (setup.session j).firstExpected.toNat (setup.session j).backfill.toNat
        (history bucket'.id (pipeline.consumers j).log) = some S' →
      bucket.stats.unrecoverable = 0 → bucket'.stats.unrecoverable = 0 →
      (handed.filter (max S S' ≤ ·.1) <+: handed'.filter (max S S' ≤ ·.1) ∨
        handed'.filter (max S S' ≤ ·.1) <+: handed.filter (max S S' ≤ ·.1)) ∧
      (bucket.done = true → bucket'.done = true →
        handed.filter (max S S' ≤ ·.1) = handed'.filter (max S S' ≤ ·.1)) := by
  have I := (h.world i).inv
  have I' := (h.world j).inv
  refine ⟨fun s msg msg' hs hs' => ?_, fun S S' hstart hstart' hlost hlost' => ?_⟩
  · have hmem := ((I.tended.kept bucket hbucket).booked.published s msg (mem_delivered.mp hs)).1
    have hmem' :=
      ((I'.tended.kept bucket' hbucket').booked.published s msg' (mem_delivered.mp hs')).1
    rw [hid] at hmem'
    have hget := (I.published.records.mem_assigned.mp hmem).2
    have hget' := (I'.published.records.mem_assigned.mp hmem').2
    exact Option.some.inj (hget.symm.trans hget')
  · have heq := I.delivered_eq hbucket hstart hlost
    have heq' := I'.delivered_eq hbucket' hstart' hlost'
    have hend := I.delivered_done hbucket hstart hlost
    have hend' := I'.delivered_done hbucket' hstart' hlost'
    simp only [hid, Pipeline.world] at heq heq' hend hend' ⊢
    generalize delivered (history bucket.id (pipeline.consumers i).log) = handed at heq hend ⊢
    generalize delivered (history bucket.id (pipeline.consumers j).log) = handed' at heq' hend' ⊢
    rw [heq, heq', filter_numberedFrom (Nat.le_max_left ..),
      filter_numberedFrom (Nat.le_max_right ..)]
    refine ⟨?_, fun hdone hdone' => ?_⟩
    · rcases Nat.le_total (S + handed.length) (S' + handed'.length) with hle | hle
      · exact .inl (numberedFrom_front (Nat.sub_le_sub_right hle _))
      · exact .inr (numberedFrom_front (Nat.sub_le_sub_right hle _))
    · rw [hend hdone, hend' hdone']

/-- The second consumer has missed the first update, and agrees from the second one on. -/
theorem consumers_agree_open :
    let handed i := delivered (history 0 (openDone.consumers i).log)
    handed 0 = [(1, openUpdate), (2, changeUpdate)] ∧ handed 1 = [(2, changeUpdate)] ∧
      (handed 0).filter (max 1 2 ≤ ·.1) = (handed 1).filter (max 1 2 ≤ ·.1) := by
  intro handed
  have hid : ∀ i, (openBucket i).id = 0 := by decide +kernel
  have hagree := ((consumers_agree reachable_openDone (openBucket_mem 0) (openBucket_mem 1)
    ((hid 1).trans (hid 0).symm)).2 1 2 (by decide +kernel) (by decide +kernel) (by decide +kernel)
    (by decide +kernel)).2 (by decide +kernel) (by decide +kernel)
  rw [hid, hid] at hagree
  exact ⟨by decide +kernel, by decide +kernel, hagree⟩

end Pipeline
end MegaFeed
