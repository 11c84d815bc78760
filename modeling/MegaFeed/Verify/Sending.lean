import MegaFeed.Spec.World
import MegaFeed.Verify.RepairFrames

/-! # What the publisher's side of a session sends

`Published` is the invariant of the publisher in a session: it keeps its records, every datagram and
every repair answer carries a message that was assigned, and in each bucket the end marker, if there
is one, is the last message. -/

namespace MegaFeed
open FeedPublisher Subscriber

namespace FeedPublisher

variable {bucketCount ringSize : Nat} [NeZero bucketCount] [NeZero ringSize]
  {publisher : FeedPublisher bucketCount ringSize} {assigned : List Assigned}

theorem mem_inBucket {a : Assigned} : a ∈ inBucket assigned b ↔ a ∈ assigned ∧ a.bucket = b := by
  rw [inBucket, List.mem_filter, decide_eq_true_eq]

omit [NeZero bucketCount] [NeZero ringSize] in
/-- A number is assigned to the message it counts in its bucket. -/
theorem Records.mem_assigned (H : Records publisher assigned) : ⟨b, s, msg⟩ ∈ assigned ↔
    1 ≤ s ∧ (messages assigned b)[s - 1]? = some msg := by
  have hat : ∀ (i : Nat) (a : Assigned), (inBucket assigned b)[i]? = some a →
      a.bucket = b ∧ a.sequence = i + 1 := by
    intro i a hi
    have hseq := congrArg (·[i]?) (H.numbered b)
    have hlt := (List.getElem?_eq_some_iff.mp hi).1
    simp only [List.getElem?_map, hi, Option.map_some] at hseq
    rw [List.getElem?_range' hlt] at hseq
    have := Option.some.inj hseq
    exact ⟨(mem_inBucket.mp (List.mem_of_getElem? hi)).2, by omega⟩
  rw [messages, List.getElem?_map, Option.map_eq_some_iff]
  constructor
  · intro hmem
    obtain ⟨i, hi⟩ := List.getElem?_of_mem (mem_inBucket.mpr ⟨hmem, rfl⟩)
    obtain ⟨-, hs⟩ := hat i _ hi
    dsimp only at hs
    exact ⟨by omega, _, by rwa [hs, Nat.add_sub_cancel], rfl⟩
  · rintro ⟨hpos, a, ha, rfl⟩
    obtain ⟨hbucket, hs⟩ := hat _ _ ha
    obtain ⟨bucket, sequence, msg⟩ := a
    dsimp only at hbucket hs
    obtain rfl : sequence = s := by omega
    exact hbucket ▸ (mem_inBucket.mp (List.mem_of_getElem? ha)).1

/-- What a call assigns: the next number of a bucket, to the message of the call. -/
theorem call_assigned {call : Call} {a : Assigned} (h : a ∈ (publisher.call call).2.assigned) :
    ∃ hb : a.bucket < bucketCount,
      a = ⟨a.bucket, publisher.buckets[a.bucket].nextSequence, call.message⟩ := by
  have hmem := mem_inBucket.mpr ⟨h, rfl⟩
  by_cases hb : a.bucket < bucketCount
  · refine ⟨hb, ?_⟩
    rcases call_bucket publisher call hb with ⟨-, hnone⟩ | ⟨-, hone⟩
    · rw [hnone] at hmem
      exact nomatch hmem
    · rw [hone] at hmem
      exact List.mem_singleton.mp hmem
  · rw [call_inBucket_none (Nat.not_lt.mp hb)] at hmem
    exact nomatch hmem

theorem sendAll_subset {lossPercent : Nat} {lossRng : Stream' UInt64} {packets : List Packet} :
    (sendAll lossPercent lossRng packets).2 ⊆ packets := by
  induction packets generalizing lossRng with
  | nil => exact List.Subset.refl _
  | cons first rest ih =>
    simp only [sendAll]
    split
    · exact List.subset_cons_of_subset _ ih
    · exact List.cons_subset_cons _ ih

/-- The datagram of an assigned message. -/
def Assigned.packet (a : Assigned) : Packet :=
  FeedPublisher.packet a.bucket a.sequence (encodePayload a.msg)

/-- Every datagram carries a message its call assigned. -/
theorem call_sent {call : Call} {p : Packet} (h : p ∈ (publisher.call call).2.sent) :
    ∃ a ∈ (publisher.call call).2.assigned, p = a.packet := by
  cases call with
  | publish msg =>
    simp only [FeedPublisher.call, publish] at h ⊢
    split at h
    · cases h
    · exact ⟨_, List.mem_singleton_self _, List.mem_singleton.mp h⟩
  | finish =>
    have hround := sendAll_subset h
    simp only [List.mem_flatten, List.mem_replicate] at hround
    obtain ⟨_, ⟨-, rfl⟩, hp⟩ := hround
    obtain ⟨i, hi, rfl⟩ := List.mem_mapIdx.mp hp
    refine ⟨⟨i, _, endMessage⟩, List.mem_mapIdx.mpr ⟨i, hi, rfl⟩, rfl⟩

/-! ## The invariant -/

/-- A publisher that has assigned `assigned` and sent `sent`, and has finished or not. -/
structure Published (publisher : FeedPublisher bucketCount ringSize) (finished : Bool)
    (assigned : List Assigned) (sent : List Packet) : Prop where
  records : Records publisher assigned
  known : ∀ a ∈ assigned, a.bucket < bucketCount
  bounded : ∀ a ∈ assigned, a.sequence + 1 < 2 ^ 64
  nul : ∀ a ∈ assigned, a.msg.Terminated
  sent : ∀ packet ∈ sent, ∃ a ∈ assigned, packet = a.packet
  ended : ∀ b (hb : b < bucketCount), ∃ earlier : List OrderMessage,
    messages assigned b = earlier ++ (if finished then [endMessage] else []) ∧
    (∀ msg ∈ earlier, msg.type ≠ ascii 'E') ∧ publisher.buckets[b].published = earlier.length

omit [NeZero bucketCount] [NeZero ringSize] in
theorem published_init {lossPercent : Nat} {lossRng : Stream' UInt64} :
    Published (init lossPercent lossRng : FeedPublisher bucketCount ringSize) false [] [] where
  records := records_init
  known := nofun
  bounded := nofun
  nul := nofun
  sent := nofun
  ended b hb := ⟨[], rfl, nofun, by simp [init]⟩

variable {sent : List Packet} {finished : Bool}

theorem Published.call (P : Published publisher false assigned sent) (call : Call)
    (hroom : ∀ b (h : b < bucketCount), publisher.buckets[b].nextSequence + 1 < 2 ^ 64)
    (hmsg : ∀ msg, call = .publish msg → msg.Terminated ∧ msg.type ≠ ascii 'E') :
    Published (publisher.call call).1 (call = .finish)
      (assigned ++ (publisher.call call).2.assigned)
      (sent ++ (publisher.call call).2.sent) where
  records := P.records.call call
  known := by
    intro a ha
    rcases List.mem_append.mp ha with ha | ha
    · exact P.known a ha
    · exact (call_assigned ha).1
  bounded := by
    intro a ha
    rcases List.mem_append.mp ha with ha | ha
    · exact P.bounded a ha
    · obtain ⟨hb, heq⟩ := call_assigned ha
      rw [heq]
      exact hroom a.bucket hb
  nul := by
    intro a ha
    rcases List.mem_append.mp ha with ha | ha
    · exact P.nul a ha
    · obtain ⟨hb, heq⟩ := call_assigned ha
      rw [heq]
      cases call with
      | publish msg => exact (hmsg msg rfl).1
      | finish => rfl
  sent := by
    intro packet hp
    rcases List.mem_append.mp hp with hp | hp
    · obtain ⟨a, ha, heq⟩ := P.sent packet hp
      exact ⟨a, List.mem_append_left _ ha, heq⟩
    · obtain ⟨a, ha, heq⟩ := call_sent hp
      exact ⟨a, List.mem_append_right _ ha, heq⟩
  ended := by
    intro b hb
    obtain ⟨earlier, hmessages, htypes, hpublished⟩ := P.ended b hb
    rw [if_neg Bool.false_ne_true, List.append_nil] at hmessages
    rw [messages_append, hmessages, messages]
    rcases call_bucket publisher call hb with ⟨hsame, hnone⟩ | ⟨hnumbers, hone⟩
    · cases call with
      | publish msg => exact ⟨earlier, by simp [hnone], htypes, by rw [hsame, hpublished]⟩
      | finish =>
        have hone : inBucket (publisher.call .finish).2.assigned b ≠ [] := by
          simp [FeedPublisher.call, finish, inBucket_mapIdx, hb]
        exact absurd hnone hone
    · rw [hone]
      cases call with
      | publish msg =>
        refine ⟨earlier ++ [msg], by simp [Call.message], fun m hm => ?_, ?_⟩
        · rcases List.mem_append.mp hm with hm | hm
          · exact htypes m hm
          · rw [List.mem_singleton.mp hm]
            exact (hmsg msg rfl).2
        · rw [hnumbers.published, hpublished, List.length_append]
          rfl
      | finish =>
        refine ⟨earlier, by simp [Call.message], htypes, ?_⟩
        rw [hnumbers.published, hpublished]
        rfl

omit [NeZero bucketCount] [NeZero ringSize] in
theorem Published.assigned_pos (P : Published publisher finished assigned sent)
    (h : ⟨b, s, msg⟩ ∈ assigned) : 1 ≤ s :=
  (P.records.mem_assigned.mp h).1

omit [NeZero bucketCount] [NeZero ringSize] in
/-- What a subscriber of bucket `id` takes off its socket. -/
theorem Published.decode (P : Published publisher finished assigned sent) {id : Nat} {bytes : Bytes}
    (h : ⟨id, bytes⟩ ∈ sent) : ∃ s msg, ⟨id, s, msg⟩ ∈ assigned ∧ s + 1 < 2 ^ 64 ∧
      dgramDecode (bytes.take 512) = some ⟨UInt16.ofNat id, UInt64.ofNat s, msg⟩ := by
  obtain ⟨⟨b, s, msg⟩, ha, heq⟩ := P.sent _ h
  obtain ⟨rfl, rfl⟩ := Packet.mk.inj heq
  refine ⟨s, msg, ha, P.bounded _ ha, ?_⟩
  have hbuffer : (List.replicate (HDR_BYTES + ORDER_MESSAGE_SIZE) (0 : UInt8)).length =
      HDR_BYTES + ORDER_MESSAGE_SIZE := List.length_replicate ..
  have hpayload : (encodePayload msg).length = ORDER_MESSAGE_SIZE := by
    rw [encodePayload_eq, OrderMessage.length_wire]
  have hshort : (dgramWire (UInt16.ofNat id) (UInt64.ofNat s) msg.wire).length ≤ 512 := by
    simp [dgramWire, ORDER_MESSAGE_SIZE]
  dsimp only
  rw [dgramEncode_eq hbuffer hpayload, encodePayload_eq, List.take_of_length_le hshort]
  have hdecode : dgramDecode (dgramWire (UInt16.ofNat id) (UInt64.ofNat s) msg.wire ++ []) =
      some ⟨UInt16.ofNat id, UInt64.ofNat s, msg⟩ := dgramDecode_dgramWire (P.nul _ ha)
  rwa [List.append_nil] at hdecode

omit [NeZero bucketCount] in
/-- What the server answers to a request for a bucket it has: messages, and without one that number
is assigned no more or the ring has gone on. -/
theorem Published.serve (P : Published publisher finished assigned sent) {id : Nat}
    {sequences : List Nat} (rest : Bytes)
    (hid : id < bucketCount) (hfits : id < 2 ^ 16) (hpos : 1 ≤ sequences.length)
    (hbatch : sequences.length ≤ MAX_REPAIR_BATCH) (hsequences : ∀ s ∈ sequences, s < 2 ^ 64) :
    ∃ replies : List Answer,
      publisher.serveOneClient (requestBytes id sequences ++ rest) =
        .reply (replies.flatMap Answer.bytes) rest ∧
      ∀ reply ∈ replies, reply.bucket = id ∧ reply.sequence ∈ sequences ∧
        (∀ msg ∈ reply.msg, ⟨id, reply.sequence, msg⟩ ∈ assigned) ∧
        (reply.msg = none → ∀ msg, ⟨id, reply.sequence, msg⟩ ∈ assigned →
          reply.sequence + ringSize ≤ (messages assigned id).length) := by
  have hindex : (UInt16.ofNat id).toNat = id := by
    rw [UInt16.toNat_ofNat', Nat.mod_eq_of_lt hfits]
  refine ⟨sequences.map fun s => ⟨id, s, Ring.last ringSize (messages assigned id) s⟩, ?_, ?_⟩
  · rw [requestBytes, serveOneClient_request (by rwa [hindex]) (by simpa using hpos)
      (by simpa using hbatch), List.flatMap_map, List.flatMap_map]
    refine congrArg (Served.reply · rest) (List.flatMap_congr fun s hs => ?_)
    simp only [hindex]
    rw [(P.records.keeps id hid).frame_eq, UInt64.toNat_ofNat', Nat.mod_eq_of_lt (hsequences s hs)]
    rfl
  · intro reply hreply
    obtain ⟨s, hs, rfl⟩ := List.mem_map.mp hreply
    refine ⟨rfl, hs, fun msg hmsg => ?_, fun hnone msg hassigned => ?_⟩
    · obtain ⟨hpos, hget, -⟩ := Ring.last_eq_some.mp hmsg
      exact P.records.mem_assigned.mpr ⟨hpos, hget⟩
    · obtain ⟨hpos, hget⟩ := P.records.mem_assigned.mp hassigned
      refine Nat.not_lt.mp fun hlt => ?_
      cases hnone.symm.trans (Ring.last_eq_some.mpr ⟨hpos, hget, hlt⟩)

end FeedPublisher

end MegaFeed
