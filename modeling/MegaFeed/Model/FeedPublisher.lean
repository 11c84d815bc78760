import MegaFeed.Model.Book

/-! # `feedpublisher.h`: buckets, rings and the repair server

A publisher has a fixed number of buckets with rings of a fixed size, so both are parameters.
`loss_rng` is the stream of numbers it will still draw, and `sendto` is the list of datagrams a call
sends. `ring_mutex` makes a ring write or a repair answer one step; that a datagram leaves after the
lock is released is the network's delay. `next_sequence` is counted without the wrap at 2^64, which
no bucket gets to in a session. -/

namespace MegaFeed

theorem bucketOf_lt [NeZero bucketCount] : bucketOf symbol bucketCount < bucketCount :=
  Nat.mod_lt _ (NeZero.pos bucketCount)

namespace FeedPublisher

structure Slot where
  sequence : Nat := 0
  used : Bool := false
  msg : Bytes := List.replicate ORDER_MESSAGE_SIZE 0

structure Bucket (ringSize : Nat) where
  nextSequence : Nat := 1
  published : Nat := 0
  dropped : Nat := 0
  ring : Vector Slot ringSize := Vector.replicate ringSize {}
  golden : BookSet := {}

/-- A datagram given to `sendto`, with the bucket whose group it goes to. -/
structure Packet where
  destination : Nat
  bytes : Bytes

/-- A sequence number given to a message. -/
structure Assigned where
  bucket : Nat
  sequence : Nat
  msg : OrderMessage
deriving DecidableEq

/-- What a call leaves behind besides the publisher's new state. -/
structure Output where
  assigned : List Assigned := []
  sent : List Packet := []

instance : Append Output := ⟨fun a b => ⟨a.assigned ++ b.assigned, a.sent ++ b.sent⟩⟩

end FeedPublisher

open FeedPublisher in
structure FeedPublisher (bucketCount ringSize : Nat) where
  lossPercent : Nat
  lossRng : Stream' UInt64
  buckets : Vector (Bucket ringSize) bucketCount

namespace FeedPublisher

variable {bucketCount ringSize : Nat}

def init (lossPercent : Nat) (lossRng : Stream' UInt64) : FeedPublisher bucketCount ringSize where
  lossPercent
  lossRng
  buckets := Vector.replicate bucketCount {}

/-- `loss_percent && (int)(loss_rng() % 100) < loss_percent`, and the generator after it. -/
def lose (lossPercent : Nat) (lossRng : Stream' UInt64) : Bool × Stream' UInt64 :=
  if lossPercent = 0 then (false, lossRng)
  else (lossRng.head.toNat % 100 < lossPercent, lossRng.tail)

/-- `next_sequence++` and the write of the slot this sequence falls on. -/
def Bucket.store [NeZero ringSize] (bucket : Bucket ringSize) (payload : Bytes) : Bucket ringSize :=
  let sequence := bucket.nextSequence
  have hindex : sequence % ringSize < ringSize := Nat.mod_lt _ (NeZero.pos ringSize)
  { bucket with
    nextSequence := sequence + 1
    ring := bucket.ring.set (sequence % ringSize) { sequence, used := true, msg := payload } }

/-- The payload array of `msg`. -/
def encodePayload (msg : OrderMessage) : Bytes :=
  OrderMessage.encode (List.replicate ORDER_MESSAGE_SIZE 0) msg

def packet (bucketIndex sequence : Nat) (payload : Bytes) : Packet where
  destination := bucketIndex
  bytes := dgramEncode (List.replicate (HDR_BYTES + ORDER_MESSAGE_SIZE) 0)
    (UInt16.ofNat bucketIndex) (UInt64.ofNat sequence) payload

def publish [NeZero bucketCount] [NeZero ringSize] (publisher : FeedPublisher bucketCount ringSize)
    (msg : OrderMessage) : FeedPublisher bucketCount ringSize × Output :=
  let bucketIndex := bucketOf (cString msg.symbol) bucketCount
  have hindex : bucketIndex < bucketCount := bucketOf_lt
  let bucket := publisher.buckets[bucketIndex]
  let bucket := { bucket with golden := bucket.golden.apply msg }
  let payload := encodePayload msg
  let sequence := bucket.nextSequence
  let bucket := bucket.store payload
  let bucket := { bucket with published := bucket.published + 1 }
  let (lost, lossRng) := lose publisher.lossPercent publisher.lossRng
  let bucket := if lost then { bucket with dropped := bucket.dropped + 1 } else bucket
  ({ publisher with lossRng, buckets := publisher.buckets.set bucketIndex bucket },
   { assigned := [⟨bucketIndex, sequence, msg⟩]
     sent := if lost then [] else [packet bucketIndex sequence payload] })

/-- Sends one datagram after the other, each lost at random. -/
def sendAll (lossPercent : Nat) : Stream' UInt64 → List Packet → Stream' UInt64 × List Packet
  | lossRng, [] => (lossRng, [])
  | lossRng, first :: rest =>
    let (lost, lossRng) := lose lossPercent lossRng
    let (lossRng, sent) := sendAll lossPercent lossRng rest
    (lossRng, if lost then sent else first :: sent)

def endMessage : OrderMessage := { type := ascii 'E' }

/-- END sent twenty times. -/
def finish [NeZero ringSize] (publisher : FeedPublisher bucketCount ringSize) :
    FeedPublisher bucketCount ringSize × Output :=
  let payload := encodePayload endMessage
  let endSequences := publisher.buckets.toList.map (·.nextSequence)
  let round := endSequences.mapIdx fun i sequence => packet i sequence payload
  let (lossRng, sent) :=
    sendAll publisher.lossPercent publisher.lossRng (List.replicate 20 round).flatten
  ({ publisher with lossRng, buckets := publisher.buckets.map (·.store payload) },
   { assigned := endSequences.mapIdx fun i sequence => ⟨i, sequence, endMessage⟩
     sent })

/-! ## Calls -/

inductive Call
  | publish (msg : OrderMessage)
  | finish
deriving DecidableEq

variable [NeZero bucketCount] [NeZero ringSize]

def call (publisher : FeedPublisher bucketCount ringSize) :
    Call → FeedPublisher bucketCount ringSize × Output
  | .publish msg => publisher.publish msg
  | .finish => publisher.finish

def run (publisher : FeedPublisher bucketCount ringSize) :
    List Call → FeedPublisher bucketCount ringSize × Output
  | [] => (publisher, {})
  | first :: calls =>
    let (publisher, output) := publisher.call first
    let (publisher, outputs) := run publisher calls
    (publisher, output ++ outputs)

/-! ## The repair server -/

/-- The answer to one requested sequence number. -/
def frame (bucketIndex : UInt16) (ring : Vector Slot ringSize) (sequence : UInt64) : Bytes :=
  have hindex : sequence.toNat % ringSize < ringSize := Nat.mod_lt _ (NeZero.pos ringSize)
  let slot := ring[sequence.toNat % ringSize]
  let inRing := slot.used ∧ slot.sequence = sequence.toNat
  putU16 bucketIndex ++ putU64 sequence ++
    putU16 (if inRing then UInt16.ofNat ORDER_MESSAGE_SIZE else 0) ++
    if inRing then slot.msg else []

/-- A request as clients write it: the bucket, the count, and the sequence numbers. -/
def request (bucketIndex : UInt16) (sequences : List UInt64) : Bytes :=
  putU16 bucketIndex ++ putU16 (UInt16.ofNat sequences.length) ++ sequences.flatMap putU64

inductive Served
  /-- `read_exact` waits for more bytes. -/
  | wait
  /-- The loop is left and the connection closed. -/
  | close
  /-- The response written, and the bytes received behind the request. -/
  | reply (response rest : Bytes)

/-- One round of the loop of `serve_one_client` on the bytes received so far. -/
def serveOneClient (publisher : FeedPublisher bucketCount ringSize) (received : Bytes) : Served :=
  if received.length < 4 then
    .wait
  else
    let bucketIndex := getU16 received
    let count := (getU16 (received.drop 2)).toNat
    if hcheck : bucketIndex.toNat < bucketCount ∧ count ≠ 0 ∧ count ≤ MAX_REPAIR_BATCH then
      have hindex := hcheck.1
      let sequenceBytes := (received.drop 4).take (count * 8)
      if sequenceBytes.length < count * 8 then
        .wait
      else
        .reply
          ((List.range count).flatMap fun i =>
            frame bucketIndex publisher.buckets[bucketIndex.toNat].ring
              (getU64 (sequenceBytes.drop (i * 8))))
          (received.drop (4 + count * 8))
    else
      .close

end FeedPublisher
end MegaFeed
