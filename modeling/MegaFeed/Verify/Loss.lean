import MegaFeed.Verify.NoFalseAlarm
import MegaFeed.Verify.Sending

/-! # Loss on purpose

`loss_accounted`: whatever the loss rate and the generator, a bucket's datagrams are its messages in
order and each at most once, `dropped` counts exactly the ones that are missing, and no more than
twenty copies of its end marker follow. -/

namespace MegaFeed
namespace FeedPublisher

variable {bucketCount ringSize : Nat} [NeZero bucketCount] [NeZero ringSize]
  {publisher : FeedPublisher bucketCount ringSize} {assigned : List Assigned} {sent : List Packet}
  {lossPercent : Nat} {lossRng : Stream' UInt64} {b : Nat}

/-! ## Messages -/

/-- The datagrams for one bucket. -/
def sentTo (sent : List Packet) (b : Nat) : List Packet := sent.filter (·.destination = b)

theorem sentTo_append {l₁ l₂ : List Packet} : sentTo (l₁ ++ l₂) b = sentTo l₁ b ++ sentTo l₂ b :=
  List.filter_append ..

theorem sentTo_singleton {p : Packet} : sentTo [p] b = if p.destination = b then [p] else [] := by
  simp [sentTo, List.filter_singleton]

/-- A publisher that has assigned `assigned` and sent `sent`, and counted the difference. -/
structure Tallied (publisher : FeedPublisher bucketCount ringSize) (assigned : List Assigned)
    (sent : List Packet) : Prop where
  known : ∀ a ∈ assigned, a.bucket < bucketCount
  thinned : sent.Sublist (assigned.map Assigned.packet)
  counted : ∀ b (hb : b < bucketCount), publisher.buckets[b].published =
    (inBucket assigned b).length ∧
    publisher.buckets[b].dropped + (sentTo sent b).length = (inBucket assigned b).length
  /-- At a rate of zero nothing is dropped, at one of a hundred all. -/
  none_lost : publisher.lossPercent = 0 → ∀ b (hb : b < bucketCount),
    publisher.buckets[b].dropped = 0
  all_lost : 100 ≤ publisher.lossPercent → sent = []

omit [NeZero bucketCount] [NeZero ringSize] in
theorem tallied_init :
    Tallied (init lossPercent lossRng : FeedPublisher bucketCount ringSize) [] [] where
  known _ h := absurd h List.not_mem_nil
  thinned := .slnil
  counted b hb := by simp [init, inBucket, sentTo]
  none_lost _ b hb := by simp [init]
  all_lost _ := rfl

theorem lose_zero : lose 0 lossRng = (false, lossRng) := rfl

theorem lose_all (h : 100 ≤ lossPercent) : (lose lossPercent lossRng).1 = true := by
  rw [lose, if_neg (by omega)]
  exact decide_eq_true (by omega)

/-- The bucket `publish` gives the message to. -/
def routed (bucketCount : Nat) (msg : OrderMessage) : Nat :=
  bucketOf (cString msg.symbol) bucketCount

/-- The datagram is lost. -/
def loses (publisher : FeedPublisher bucketCount ringSize) : Bool :=
  (lose publisher.lossPercent publisher.lossRng).1

theorem publish_counters (publisher : FeedPublisher bucketCount ringSize) (msg : OrderMessage)
    (hb : b < bucketCount) :
    (publisher.publish msg).1.buckets[b].published =
      publisher.buckets[b].published + (if routed bucketCount msg = b then 1 else 0) ∧
    (publisher.publish msg).1.buckets[b].dropped =
      publisher.buckets[b].dropped + if routed bucketCount msg = b ∧
      publisher.loses = true then 1 else 0 := by
  simp only [FeedPublisher.publish, Vector.getElem_set, routed, loses]
  by_cases heq : bucketOf (cString msg.symbol) bucketCount = b
  · subst heq
    simp only [if_true, true_and]
    split <;> exact ⟨rfl, rfl⟩
  · simp [heq]

theorem publish_output (publisher : FeedPublisher bucketCount ringSize) (msg : OrderMessage) :
    ∃ a, a.bucket = routed bucketCount msg ∧ (publisher.publish msg).2.assigned = [a] ∧
      (publisher.publish msg).2.sent = if publisher.loses then [] else [a.packet] :=
  ⟨_, rfl, rfl, rfl⟩

theorem Tallied.publish (T : Tallied publisher assigned sent) (msg : OrderMessage) :
    Tallied (publisher.publish msg).1 (assigned ++ (publisher.publish msg).2.assigned)
      (sent ++ (publisher.publish msg).2.sent) := by
  obtain ⟨a, hbucket, hassigned, hsent⟩ := publish_output publisher msg
  have hknown : a.bucket < bucketCount := hbucket ▸ bucketOf_lt
  have hone : ∀ b, (inBucket [a] b).length = if routed bucketCount msg = b then 1 else 0 := by
    intro b
    rw [inBucket_singleton, hbucket]
    split <;> rfl
  have hnew : ∀ b, (if routed bucketCount msg = b ∧ publisher.loses = true then 1 else 0) +
      (sentTo (publisher.publish msg).2.sent b).length = (inBucket [a] b).length := by
    intro b
    rw [hsent, hone]
    cases publisher.loses with
    | true =>
      simp only [if_true, and_true, sentTo, List.filter_nil]
      split <;> rfl
    | false =>
      have hdestination : a.packet.destination = routed bucketCount msg := hbucket
      simp only [Bool.false_eq_true, and_false, if_false, Nat.zero_add,
        sentTo_singleton, hdestination]
      split <;> rfl
  rw [hassigned]
  refine ⟨fun a' ha' => ?_, ?_, fun b hb => ?_, fun hzero b hb => ?_, fun hall => ?_⟩
  · exact (List.mem_append.mp ha').elim (T.known a') fun hmem => List.mem_singleton.mp hmem ▸ hknown
  · rw [hsent, List.map_append]
    refine T.thinned.append ?_
    split
    · exact List.nil_sublist _
    · exact List.Sublist.refl _
  · obtain ⟨hpublished, hdropped⟩ := publish_counters publisher msg hb
    obtain ⟨hcount, hbalance⟩ := T.counted b hb
    have hsame := (hnew b).trans (hone b)
    rw [inBucket_append, sentTo_append, List.length_append, List.length_append, hone,
      hpublished, hdropped]
    omega
  · have hkeeps : publisher.loses = false := by
      rw [loses, show publisher.lossPercent = 0 from hzero]; rfl
    rw [(publish_counters publisher msg hb).2, T.none_lost hzero b hb, hkeeps]
    simp
  · have hlost : publisher.loses = true := lose_all hall
    rw [T.all_lost hall, hsent, hlost]
    rfl

theorem Tallied.run (T : Tallied publisher assigned sent) (msgs : List OrderMessage) :
    Tallied (publisher.run (msgs.map .publish)).1
      (assigned ++ (publisher.run (msgs.map .publish)).2.assigned)
      (sent ++ (publisher.run (msgs.map .publish)).2.sent) := by
  induction msgs generalizing publisher assigned sent with
  | nil => simpa [FeedPublisher.run] using T
  | cons msg msgs ih =>
    have T' := ih (T.publish msg)
    rwa [List.append_assoc, List.append_assoc] at T'

theorem sentTo_packets (assigned : List Assigned) :
    sentTo (assigned.map Assigned.packet) b = (inBucket assigned b).map Assigned.packet := by
  rw [sentTo, List.filter_map]
  rfl

omit [NeZero bucketCount] [NeZero ringSize] in
theorem Tallied.sentTo (T : Tallied publisher assigned sent) (b : Nat) :
    (sentTo sent b).Sublist ((inBucket assigned b).map Assigned.packet) := by
  rw [← sentTo_packets]
  exact T.thinned.filter _

/-! ## The end markers -/

theorem sendAll_sublist {packets : List Packet} :
    (sendAll lossPercent lossRng packets).2.Sublist packets := by
  induction packets generalizing lossRng with
  | nil => exact .slnil
  | cons first rest ih =>
    simp only [sendAll]
    split
    · exact ih.cons first
    · exact ih.cons_cons first

theorem sendAll_zero {packets : List Packet} : (sendAll 0 lossRng packets).2 = packets := by
  induction packets with
  | nil => rfl
  | cons first rest ih => simp [sendAll, lose_zero, ih]

theorem sendAll_all {packets : List Packet} (h : 100 ≤ lossPercent) :
    (sendAll lossPercent lossRng packets).2 = [] := by
  induction packets generalizing lossRng with
  | nil => rfl
  | cons first rest ih => simp [sendAll, lose_all h, ih]

/-- What `finish` sends in a round: one marker for each bucket. -/
theorem sentTo_round {sequences : List Nat} :
    sentTo (sequences.mapIdx fun i sequence => packet i sequence (encodePayload endMessage)) b =
      (sequences[b]?.map fun sequence => packet b sequence (encodePayload endMessage)).toList := by
  have hround : (sequences.mapIdx fun i sequence => packet i sequence (encodePayload endMessage)) =
      (sequences.mapIdx fun i sequence => ⟨i, sequence, endMessage⟩).map Assigned.packet := by
    rw [List.mapIdx_eq_zipIdx_map, List.mapIdx_eq_zipIdx_map, List.map_map]
    rfl
  rw [hround, sentTo_packets, inBucket_mapIdx]
  cases sequences[b]? <;> rfl

omit [NeZero bucketCount] in
/-- The end markers of a bucket: copies of one datagram, twenty before loss. -/
theorem finish_sent (publisher : FeedPublisher bucketCount ringSize) (hb : b < bucketCount) :
    let marker := packet b publisher.buckets[b].nextSequence (encodePayload endMessage)
    (sentTo publisher.finish.2.sent b).Sublist (List.replicate 20 marker) ∧
    (publisher.lossPercent = 0 → sentTo publisher.finish.2.sent b = List.replicate 20 marker) ∧
    (100 ≤ publisher.lossPercent → publisher.finish.2.sent = []) := by
  intro marker
  let rounds :=
    (List.replicate 20 ((publisher.buckets.toList.map (·.nextSequence)).mapIdx fun i sequence =>
    packet i sequence (encodePayload endMessage))).flatten
  have hrounds : sentTo rounds b = List.replicate 20 marker := by
    rw [sentTo, List.filter_flatten, List.map_replicate]
    change (List.replicate 20 (sentTo _ b)).flatten = _
    simp [sentTo_round, hb, marker]
  refine ⟨?_, fun hzero => ?_, fun hall => sendAll_all hall⟩
  · rw [← hrounds]
    exact sendAll_sublist.filter _
  · have hsent : publisher.finish.2.sent = rounds := by
      simp only [finish, hzero, sendAll_zero, rounds]
    rw [hsent, hrounds]

/-! ## A session -/

/-- The datagrams that a bucket is to get, before loss. -/
def datagrams (bucketCount : Nat) (msgs : List OrderMessage) (b : Nat) : List Packet :=
  ((msgs.filter (routed bucketCount · = b)).zipIdx 1).map fun entry =>
    packet b entry.2 (encodePayload entry.1)

theorem inBucket_run (publisher : FeedPublisher bucketCount ringSize) (msgs : List OrderMessage)
    (hb : b < bucketCount) :
    (inBucket (publisher.run (msgs.map .publish)).2.assigned b).map Assigned.packet =
      ((msgs.filter (routed bucketCount · = b)).zipIdx publisher.buckets[b].nextSequence).map
        fun entry =>
        packet b entry.2 (encodePayload entry.1) := by
  induction msgs generalizing publisher with
  | nil => rfl
  | cons msg msgs ih =>
    obtain ⟨a, hbucket, hassigned, -⟩ := publish_output publisher msg
    have hlater := ih (publisher.publish msg).1
    have hone : inBucket (publisher.publish msg).2.assigned b = if routed bucketCount msg =
        b then [a] else [] := by
      rw [hassigned, inBucket_singleton, hbucket]
    have hrun : (publisher.run ((msg :: msgs).map .publish)).2.assigned =
        (publisher.publish msg).2.assigned ++
          ((publisher.publish msg).1.run (msgs.map .publish)).2.assigned := rfl
    rw [hrun, inBucket_append, List.map_append, hlater]
    rcases call_bucket publisher (.publish msg) hb with ⟨hsame, hnone⟩ | ⟨hnumbers, hnew⟩
    · have hother : routed bucketCount msg ≠ b := by
        intro heq
        rw [if_pos heq] at hone
        cases hone.symm.trans hnone
      rw [List.filter_cons_of_neg (by simpa using hother)]
      simp only [FeedPublisher.call] at hsame hnone
      rw [hsame, hnone]
      rfl
    · have hroute : routed bucketCount msg = b := by
        by_contra hother
        rw [if_neg hother] at hone
        cases hone.symm.trans hnew
      rw [List.filter_cons_of_pos (by simpa using hroute), List.zipIdx_cons, List.map_cons]
      simp only [FeedPublisher.call] at hnumbers hnew
      rw [hnumbers.next, hnew]
      rfl

theorem lossPercent_run (publisher : FeedPublisher bucketCount ringSize)
    (msgs : List OrderMessage) :
    (publisher.run (msgs.map .publish)).1.lossPercent = publisher.lossPercent := by
  induction msgs generalizing publisher with
  | nil => rfl
  | cons msg msgs ih => exact ih (publisher.publish msg).1

/-- **Loss is accounted for.** After any messages `published` is the number of them that are for the
bucket, and `dropped` the number of those whose datagram is missing from what was sent: the others'
datagrams, in order and each once. `finish` leaves both alone and sends at most twenty copies of one
end marker, with the next number (with 64 bits, for fewer than 2^64 messages in a bucket). At a rate
of zero nothing is lost, and at one of a hundred everything. -/
theorem loss_accounted (lossPercent : Nat) (lossRng : Stream' UInt64)
    (msgs : List OrderMessage) {b : Nat}
    (hb : b < bucketCount) :
    let run :=
      (init lossPercent lossRng : FeedPublisher bucketCount ringSize).run (msgs.map .publish)
    let finish := run.1.finish
    let bucket := finish.1.buckets[b]
    let sent := sentTo run.2.sent b
    let ends := sentTo finish.2.sent b
    bucket.published = (datagrams bucketCount msgs b).length ∧
    bucket.dropped + sent.length = bucket.published ∧
    sent.Sublist (datagrams bucketCount msgs b) ∧
    ends.length ≤ 20 ∧
    (∀ p ∈ ends, p = packet b (bucket.published + 1) (encodePayload endMessage)) ∧
    (lossPercent = 0 → sent = datagrams bucketCount msgs b ∧ ends.length = 20) ∧
    (100 ≤ lossPercent → sent = [] ∧ ends = []) := by
  intro run finish bucket sent ends
  have T : Tallied run.1 run.2.assigned run.2.sent := tallied_init.run msgs
  have R : Records run.1 run.2.assigned := records_run _
  have hlog : (inBucket run.2.assigned b).map Assigned.packet = datagrams bucketCount msgs b := by
    have hnew :
        (init lossPercent lossRng : FeedPublisher bucketCount ringSize).buckets[b].nextSequence =
          1 := by
      simp [init]
    rw [datagrams, ← hnew]
    exact inBucket_run _ msgs hb
  have hcount : (inBucket run.2.assigned b).length = (datagrams bucketCount msgs b).length := by
    rw [← hlog, List.length_map]
  obtain ⟨hpublished, hdropped⟩ := T.counted b hb
  have hbucket : bucket.published = run.1.buckets[b].published ∧
      bucket.dropped = run.1.buckets[b].dropped := by
    simp only [bucket, finish, FeedPublisher.finish, Vector.getElem_map]
    exact ⟨rfl, rfl⟩
  have hnext : run.1.buckets[b].nextSequence = bucket.published + 1 := by
    rw [(R.keeps b hb).next, hbucket.1, hpublished, messages, List.length_map]
  obtain ⟨hends, hall, hnone⟩ := finish_sent run.1 hb
  rw [hnext] at hends hall
  have hrate : run.1.lossPercent = lossPercent := lossPercent_run _ msgs
  refine ⟨?_, ?_,
    hlog ▸ T.sentTo b, by simpa using hends.length_le, fun p hp => ?_, fun hzero => ⟨?_, ?_⟩,
    fun hhundred => ⟨?_, ?_⟩⟩
  · rw [hbucket.1, hpublished, hcount]
  · rw [hbucket.2, hbucket.1, hpublished, ← hdropped]
  · exact List.eq_of_mem_replicate (hends.subset hp)
  · refine (hlog ▸ T.sentTo b : sent.Sublist _).eq_of_length ?_
    have := T.none_lost (hrate.trans hzero) b hb
    rw [← hcount, ← hdropped, this, Nat.zero_add]
  · exact (congrArg List.length (hall (hrate.trans hzero))).trans List.length_replicate
  · exact congrArg (sentTo · b) (T.all_lost (hrate ▸ hhundred))
  · exact congrArg (sentTo · b) (hnone (hrate ▸ hhundred))

/-- Of three messages the first and the last are lost, and every other end marker. -/
theorem loss_accounted_half :
    let lossRng : Stream' UInt64 := fun n => if n % 2 = 0 then 10 else 60
    let run := (init 50 lossRng : FeedPublisher 1 1).run ([{}, {}, {}].map .publish)
    let bucket := run.1.finish.1.buckets[0]
    bucket.published = 3 ∧ bucket.dropped = 2 ∧ (sentTo run.2.sent 0).length = 1 ∧
      (sentTo run.1.finish.2.sent 0).length = 10 := by
  intro lossRng run bucket
  have haccounted := @loss_accounted 1 1 _ _ 50 lossRng [{}, {}, {}] 0 Nat.one_pos
  have hpublished : bucket.published = 3 := haccounted.1
  have hdropped : bucket.dropped + (sentTo run.2.sent 0).length = bucket.published := haccounted.2.1
  have hsent : (sentTo run.2.sent 0).length = 1 := by decide +kernel
  exact ⟨hpublished, by omega, hsent, by decide +kernel⟩

end FeedPublisher
end MegaFeed
