import MegaFeed.Theory.Ring
import MegaFeed.Model.FeedPublisher
import MegaFeed.Verify.Helpers

/-! # The publisher's numbering and its repair ring

`Records` relates a publisher to everything it has assigned: numbers without gap or repeat, the ring
holding the newest messages, the golden books fed every message. Every call keeps it
(`Records.call`), so every reachable publisher has it (`records_run`), and the repair server answers
from exactly the last `ringSize` messages (`serves_last_ringSize`). -/

namespace MegaFeed
namespace FeedPublisher

variable {bucketCount ringSize : Nat}

/-! ## One bucket -/

/-- The ring as a map from slots to what they hold. -/
def Bucket.slots (bucket : Bucket ringSize) (i : Nat) : Option (Nat × Bytes) :=
  if h : i < ringSize then
    let slot := bucket.ring[i]
    if slot.used then some (slot.sequence, slot.msg) else none
  else none

/-- A bucket that has numbered the messages `history` and nothing else. -/
structure Bucket.Keeps (bucket : Bucket ringSize) (history : List OrderMessage) : Prop where
  next : bucket.nextSequence = history.length + 1
  ring : Ring.Remembers ringSize bucket.slots (history.map encodePayload)

theorem Bucket.keeps_new : Bucket.Keeps ({} : Bucket ringSize) [] where
  next := rfl
  ring := by
    have hslots : Bucket.slots ({} : Bucket ringSize) = fun _ => none := by
      funext i
      simp [Bucket.slots]
    rw [hslots]
    exact Ring.remembers_nil

/-! ## All buckets -/

/-- What has been assigned in one bucket, oldest first. -/
def inBucket (assigned : List Assigned) (bucket : Nat) : List Assigned :=
  assigned.filter (·.bucket = bucket)

/-- The messages numbered in one bucket, oldest first. -/
def messages (assigned : List Assigned) (bucket : Nat) : List OrderMessage :=
  (inBucket assigned bucket).map (·.msg)

/-- A publisher after assigning `assigned` and nothing else. -/
structure Records (publisher : FeedPublisher bucketCount ringSize) (assigned : List Assigned) :
    Prop where
  keeps : ∀ b (h : b < bucketCount), publisher.buckets[b].Keeps (messages assigned b)
  golden : ∀ b (h : b < bucketCount),
    publisher.buckets[b].golden = (messages assigned b).foldl BookSet.apply {}
  numbered : ∀ b, (inBucket assigned b).map (·.sequence) =
    List.range' 1 (inBucket assigned b).length

theorem records_init {lossPercent : Nat} {lossRng : Stream' UInt64} :
    Records (init lossPercent lossRng : FeedPublisher bucketCount ringSize) [] where
  keeps b h := by
    have hnew :
        (init lossPercent lossRng : FeedPublisher bucketCount ringSize).buckets[b] = {} := by
      simp [init]
    rw [hnew]
    exact Bucket.keeps_new
  golden b h := by simp [init, messages, inBucket]
  numbered b := rfl

theorem inBucket_append : inBucket (l₁ ++ l₂) b = inBucket l₁ b ++ inBucket l₂ b :=
  List.filter_append ..

theorem messages_append : messages (l₁ ++ l₂) b = messages l₁ b ++ messages l₂ b := by
  simp [messages, inBucket_append]

theorem inBucket_singleton {new : Assigned} :
    inBucket [new] b = if new.bucket = b then [new] else [] := by
  simp [inBucket, List.filter_singleton]

/-- A round of assignments has one for each bucket. -/
theorem inBucket_mapIdx {sequences : List Nat} :
    inBucket (sequences.mapIdx fun i sequence => ⟨i, sequence, msg⟩) b =
      (sequences[b]?.map fun sequence => ⟨b, sequence, msg⟩).toList := by
  induction sequences using List.reverseRecOn with
  | nil => rfl
  | append_singleton sequences last ih =>
    rw [List.mapIdx_concat, inBucket_append, ih, inBucket_singleton]
    rcases Nat.lt_trichotomy b sequences.length with hlt | rfl | hgt
    · rw [List.getElem?_append_left hlt, if_neg (by simp; omega), List.append_nil]
    · simp
    · rw [List.getElem?_eq_none (by omega), List.getElem?_eq_none (by simp; omega),
        if_neg (by simp; omega)]
      rfl

/-! ## One call -/

/-- The message a call gives a number to, in every bucket it touches. -/
def Call.message : Call → OrderMessage
  | .publish msg => msg
  | .finish => endMessage

/-- `bucket'` is `bucket` after it gave its next number to the message of `call`. -/
structure Bucket.Numbers [NeZero ringSize] (bucket bucket' : Bucket ringSize) (call : Call) :
    Prop where
  next : bucket'.nextSequence = bucket.nextSequence + 1
  ring : bucket'.ring = (bucket.store (encodePayload call.message)).ring
  golden : bucket'.golden = bucket.golden.apply call.message
  published : bucket'.published = bucket.published + if call = .finish then 0 else 1

section
variable [NeZero bucketCount] [NeZero ringSize] {publisher : FeedPublisher bucketCount ringSize}

/-- A call leaves a bucket alone or numbers its message there. -/
theorem call_bucket (publisher : FeedPublisher bucketCount ringSize) (call : Call) {b : Nat}
    (hb : b < bucketCount) :
    ((publisher.call call).1.buckets[b] = publisher.buckets[b] ∧
      inBucket (publisher.call call).2.assigned b = []) ∨
    (publisher.buckets[b].Numbers (publisher.call call).1.buckets[b] call ∧
      inBucket (publisher.call call).2.assigned b =
        [⟨b, publisher.buckets[b].nextSequence, call.message⟩]) := by
  cases call with
  | publish msg =>
    simp only [FeedPublisher.call, publish, Vector.getElem_set, inBucket_singleton]
    by_cases heq : bucketOf (cString msg.symbol) bucketCount = b
    · subst heq
      simp only [if_true]
      refine .inr ⟨?_, rfl⟩
      split <;> exact ⟨rfl, rfl, rfl, rfl⟩
    · simp only [if_neg heq]
      exact .inl ⟨trivial, trivial⟩
  | finish =>
    refine .inr ⟨?_, ?_⟩
    · simp only [FeedPublisher.call, finish, Vector.getElem_map]
      exact ⟨rfl, rfl, rfl, rfl⟩
    · simp [FeedPublisher.call, finish, inBucket_mapIdx, hb, Call.message]

/-- A call assigns numbers in the publisher's own buckets only. -/
theorem call_inBucket_none {call : Call} (hb : bucketCount ≤ b) :
    inBucket (publisher.call call).2.assigned b = [] := by
  cases call with
  | publish msg =>
    have hlt : bucketOf (cString msg.symbol) bucketCount < bucketCount := bucketOf_lt
    simp only [FeedPublisher.call, publish, inBucket_singleton]
    exact if_neg (by omega)
  | finish => simp [FeedPublisher.call, finish, inBucket_mapIdx, hb]

theorem Bucket.Keeps.numbers {bucket bucket' : Bucket ringSize} {call : Call}
    (H : bucket.Keeps history)
    (h : bucket.Numbers bucket' call) : bucket'.Keeps (history ++ [call.message]) where
  next := by rw [h.next, H.next, List.length_append, List.length_singleton]
  ring := by
    rw [List.map_append]
    refine H.ring.push fun i hi => ?_
    have hlen : (history.map encodePayload).length + 1 = bucket.nextSequence := by simp [H.next]
    simp only [Bucket.slots, h.ring, Bucket.store, hi, dite_true, Vector.getElem_set, hlen]
    split <;> rfl

/-- Every call keeps the record, extended by what it assigned. -/
theorem Records.call (H : Records publisher assigned) (call : Call) :
    Records (publisher.call call).1 (assigned ++ (publisher.call call).2.assigned) where
  keeps b hb := by
    rw [messages_append, messages, messages]
    rcases call_bucket publisher call hb with ⟨hsame, hnone⟩ | ⟨hnumbers, hone⟩
    · rw [hsame, hnone, List.map_nil, List.append_nil]
      exact H.keeps b hb
    · rw [hone]
      exact (H.keeps b hb).numbers hnumbers
  golden b hb := by
    rw [messages_append, messages, messages, List.foldl_append]
    rcases call_bucket publisher call hb with ⟨hsame, hnone⟩ | ⟨hnumbers, hone⟩
    · rw [hsame, hnone]
      exact H.golden b hb
    · rw [hone, hnumbers.golden, H.golden b hb]
      rfl
  numbered b := by
    rw [inBucket_append]
    by_cases hb : b < bucketCount
    · rcases call_bucket publisher call hb with ⟨hsame, hnone⟩ | ⟨hnumbers, hone⟩
      · rw [hnone, List.append_nil]
        exact H.numbered b
      · have hlast : publisher.buckets[b].nextSequence = (inBucket assigned b).length + 1 := by
          rw [(H.keeps b hb).next, messages, List.length_map]
        rw [hone, List.map_append, H.numbered b, List.length_append, List.length_singleton,
          List.range'_concat, List.map_singleton, hlast, Nat.one_mul, Nat.add_comm 1]
    · rw [call_inBucket_none (by omega), List.append_nil]
      exact H.numbered b

@[simp] theorem assigned_append {a b : Output} : (a ++ b).assigned = a.assigned ++ b.assigned := rfl

theorem Records.run (H : Records publisher assigned) (calls : List Call) :
    Records (publisher.run calls).1 (assigned ++ (publisher.run calls).2.assigned) := by
  induction calls generalizing publisher assigned with
  | nil => simpa [FeedPublisher.run] using H
  | cons call calls ih =>
    rw [FeedPublisher.run, assigned_append, ← List.append_assoc]
    exact ih (H.call call)

theorem records_run {lossPercent : Nat} {lossRng : Stream' UInt64} (calls : List Call) :
    Records ((init lossPercent lossRng : FeedPublisher bucketCount ringSize).run calls).1
      ((init lossPercent lossRng : FeedPublisher bucketCount ringSize).run calls).2.assigned := by
  rw [← List.nil_append (FeedPublisher.run _ calls).2.assigned]
  exact records_init.run calls

/-! ## The repair server -/

/-- The frame for one requested sequence number, with its payload if there is one. -/
def answer (bucketIndex : UInt16) (payload : Option Bytes) (sequence : UInt64) : Bytes :=
  putU16 bucketIndex ++ putU64 sequence ++
    putU16 (if payload.isSome then UInt16.ofNat ORDER_MESSAGE_SIZE else 0) ++ payload.getD []

theorem Bucket.Keeps.frame_eq {bucket : Bucket ringSize} (H : bucket.Keeps history)
    {bucketIndex : UInt16} {sequence : UInt64} :
    frame bucketIndex bucket.ring sequence =
      answer bucketIndex ((Ring.last ringSize history sequence.toNat).map encodePayload)
        sequence := by
  rw [← Ring.last_map, ← H.ring.find (NeZero.pos ringSize)]
  have hindex : sequence.toNat % ringSize < ringSize := Nat.mod_lt _ (NeZero.pos ringSize)
  simp only [frame, answer, Bucket.slots, dif_pos hindex]
  by_cases hused : (bucket.ring[sequence.toNat % ringSize]).used
  · by_cases hseq : (bucket.ring[sequence.toNat % ringSize]).sequence = sequence.toNat
    · simp [hused, hseq, Option.filter]
    · simp [hused, hseq, Option.filter]
  · simp [hused]

theorem length_flatMap_putU64 {sequences : List UInt64} :
    (sequences.flatMap putU64).length = sequences.length * 8 := by
  induction sequences with
  | nil => rfl
  | cons first sequences ih => simp [ih, Nat.add_mul, Nat.add_comm]

theorem drop_flatMap_putU64 {sequences : List UInt64} :
    (sequences.flatMap putU64).drop (i * 8) = (sequences.drop i).flatMap putU64 := by
  induction sequences generalizing i with
  | nil => simp
  | cons first sequences ih =>
    cases i with
    | zero => simp
    | succ i =>
      rw [List.flatMap_cons, Nat.add_mul, Nat.one_mul, Nat.add_comm, ← List.drop_drop,
        List.drop_left' length_putU64, ih, List.drop_succ_cons]

/-- Reading the sequence numbers of a request back, one at a time. -/
theorem map_getU64_drop {sequences : List UInt64} :
    ((List.range sequences.length).map fun i => getU64 ((sequences.flatMap putU64).drop (i * 8))) =
      sequences := by
  refine List.ext_getElem (by simp) fun i _ hi => ?_
  rw [List.getElem_map, List.getElem_range, drop_flatMap_putU64, List.drop_eq_getElem_cons hi,
    List.flatMap_cons, getU64_putU64]

theorem request_append {bucketIndex : UInt16} {sequences : List UInt64} :
    request bucketIndex sequences ++ rest = putU16 bucketIndex ++
      (putU16 (UInt16.ofNat sequences.length) ++ (sequences.flatMap putU64 ++ rest)) := by
  simp only [request, List.append_assoc]

theorem getU16_request {bucketIndex : UInt16} {sequences : List UInt64} :
    getU16 (request bucketIndex sequences ++ rest) = bucketIndex := by
  rw [request_append, getU16_putU16]

theorem request_complete {bucketIndex : UInt16} {sequences : List UInt64} :
    ¬(request bucketIndex sequences ++ rest).length < 4 := by
  simp [request]
  omega

omit [NeZero bucketCount] in
/-- A request for a bucket the publisher does not have ends the connection. -/
theorem serveOneClient_unknown {bucketIndex : UInt16} {sequences : List UInt64}
    (hb : bucketCount ≤ bucketIndex.toNat) :
    publisher.serveOneClient (request bucketIndex sequences ++ rest) = .close := by
  simp only [serveOneClient, if_neg request_complete, getU16_request]
  rw [dif_neg fun h => Nat.not_lt.mpr hb h.1]

omit [NeZero bucketCount] in
/-- A complete request is answered with one frame for each sequence number, in order. -/
theorem serveOneClient_request {bucketIndex : UInt16} {sequences : List UInt64}
    (hb : bucketIndex.toNat < bucketCount) (hpos : 1 ≤ sequences.length)
    (hbatch : sequences.length ≤ MAX_REPAIR_BATCH) :
    publisher.serveOneClient (request bucketIndex sequences ++ rest) =
      .reply (sequences.flatMap (frame bucketIndex publisher.buckets[bucketIndex.toNat].ring))
        rest := by
  have hcount : (UInt16.ofNat sequences.length).toNat = sequences.length := by
    rw [UInt16.toNat_ofNat', Nat.mod_eq_of_lt]
    have : MAX_REPAIR_BATCH = 512 := rfl
    omega
  have hbody : (request bucketIndex sequences ++ rest).drop 4 =
      sequences.flatMap putU64 ++ rest := by
    rw [request_append, ← List.append_assoc, List.drop_left' (by simp)]
  have htail : (request bucketIndex sequences ++ rest).drop (4 + sequences.length * 8) = rest := by
    rw [← List.drop_drop, hbody, List.drop_left' length_flatMap_putU64]
  have hheader : getU16 ((request bucketIndex sequences ++ rest).drop 2) =
      UInt16.ofNat sequences.length := by
    rw [request_append, List.drop_left' length_putU16, getU16_putU16]
  simp only [serveOneClient, if_neg request_complete, getU16_request, hheader, hcount, hbody, htail,
    List.take_left' length_flatMap_putU64, length_flatMap_putU64, lt_self_iff_false, if_false]
  rw [dif_pos ⟨hb, by omega, hbatch⟩]
  conv_rhs => rw [← @map_getU64_drop sequences, List.flatMap_map]

/-- A publisher some calls lead to, and everything they assigned. -/
def Reachable (publisher : FeedPublisher bucketCount ringSize) (assigned : List Assigned) : Prop :=
  ∃ lossPercent lossRng calls sent, (init lossPercent lossRng).run calls =
    (publisher, ⟨assigned, sent⟩)

theorem Reachable.records (h : Reachable publisher assigned) : Records publisher assigned := by
  obtain ⟨lossPercent, lossRng, calls, sent, hrun⟩ := h
  have := @records_run bucketCount ringSize _ _ lossPercent lossRng calls
  rwa [hrun] at this

/-- **The ring serves exactly the last `ringSize` messages.** In every bucket the numbers assigned
are 1, 2, 3, …, and every request is answered frame by frame, with the message that has the number
if it is among the last `ringSize` and with length 0 otherwise. (The 64-bit counter of the source
counts like this up to 2^64 messages in a bucket.) -/
theorem serves_last_ringSize (h : Reachable publisher assigned) :
    (∀ b, (inBucket assigned b).map (·.sequence) = List.range' 1 (inBucket assigned b).length) ∧
    ∀ (bucketIndex : UInt16) (sequences : List UInt64) rest, bucketIndex.toNat < bucketCount →
      1 ≤ sequences.length → sequences.length ≤ MAX_REPAIR_BATCH →
      publisher.serveOneClient (request bucketIndex sequences ++ rest) =
        .reply
          (sequences.flatMap fun sequence => answer bucketIndex
            ((Ring.last ringSize (inBucket assigned bucketIndex.toNat) sequence.toNat).map
              fun assigned => encodePayload assigned.msg) sequence)
          rest := by
  refine ⟨h.records.numbered, fun bucketIndex sequences rest hb hpos hbatch => ?_⟩
  rw [serveOneClient_request hb hpos hbatch]
  refine congrArg (Served.reply · rest) (List.flatMap_congr fun sequence _ => ?_)
  rw [(h.records.keeps _ hb).frame_eq, messages, Ring.last_map, Option.map_map]
  rfl

/-- In a ring of one slot the end marker overwrites the only message. -/
theorem serves_last_ringSize_overwritten :
    let run := (init 0 (Stream'.const 0) : FeedPublisher 1 1).run [.publish {}, .finish]
    run.1.serveOneClient (request 0 [1, 2]) =
      .reply (answer 0 none 1 ++ answer 0 (some (encodePayload endMessage)) 2) [] := by
  intro run
  have hreach : Reachable run.1 run.2.assigned :=
    ⟨0, Stream'.const 0, [.publish {}, .finish], _, rfl⟩
  have hassigned : inBucket run.2.assigned 0 = [⟨0, 1, {}⟩, ⟨0, 2, endMessage⟩] := by decide
  have h := (serves_last_ringSize hreach).2 0 [1, 2] [] (by decide) (by decide) (by decide)
  rw [List.append_nil, show (0 : UInt16).toNat = 0 from rfl, hassigned] at h
  refine h.trans (congrArg (Served.reply · []) ?_)
  decide

end
end FeedPublisher
end MegaFeed
