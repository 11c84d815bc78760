import MegaFeed.Model.FeedPublisher

/-! # `subscriber.h`: the receiving side

What the operating system decides is an input: the datagrams `recv` takes off a socket, the results
of `recv`, `connect` and `write_all` on the repair connection, and every reading of the clock. What
the subscriber does is recorded as events. Sequence numbers are naturals below 2^64 with the wrap of
`next_sequence++` explicit; clock readings keep their width, since ages are wrapping differences. -/

namespace MegaFeed
open Std (ExtTreeMap ExtTreeSet)

/-! ## `env.h` -/

def BUCKETS : Nat := 4
def NAK_DELAY_MS : UInt64 := 5
def NAK_REPEAT_MS : UInt64 := 200
def REPAIR_RETRY_MS : UInt64 := 100
def REPAIR_GIVEUP_MS : UInt64 := 2000
def SUB_START_TIMEOUT_MS : UInt64 := 10000

structure SubscriberStats where
  delivered : Nat := 0
  repaired : Nat := 0
  unrecoverable : Nat := 0
  duplicates : Nat := 0
  repairRequests : Nat := 0
deriving DecidableEq

namespace Subscriber

structure Hole where
  noticed : UInt64
  asked : UInt64
deriving DecidableEq

structure Bucket where
  id : Nat
  synced : Bool := false
  done : Bool := false
  nextSequence : Nat := 1
  /-- Early arrivals. -/
  parked : ExtTreeMap Nat OrderMessage := ∅
  /-- Unrecoverable: overwritten at the sender, or given up on. -/
  gone : ExtTreeSet Nat := ∅
  /-- Known-missing. -/
  holes : ExtTreeMap Nat Hole := ∅
  stats : SubscriberStats := {}

/-- What happens to one bucket. -/
inductive BucketEvent
  /-- A datagram passed to `accept_OrderMessage`. -/
  | arrived (sequence : Nat)
  /-- A hole was noticed. -/
  | noticed (sequence : Nat) (now : UInt64)
  /-- A repair frame was acted on; without payload the sender no longer has the message. -/
  | frame (sequence : Nat) (payload : Option OrderMessage)
  /-- A hole was given up. -/
  | expired (sequence : Nat) (now : UInt64)
  /-- A request was completely written. -/
  | requested (sequences : List Nat) (now : UInt64)
  /-- A message was handed to the callback. -/
  | delivered (sequence : Nat) (msg : OrderMessage)
  /-- A sequence was counted in `unrecoverable`. -/
  | unrecoverable (sequence : Nat)
  /-- The end marker set `done`. -/
  | ended (sequence : Nat)
deriving DecidableEq

inductive Event
  | bucket (id : Nat) (event : BucketEvent)
  | connect (succeeded : Bool) (now : UInt64)
  | writeFailed (now : UInt64)
  /-- The server closed the connection. -/
  | closed
  /-- A frame of impossible length: the connection is dropped. -/
  | resync
deriving DecidableEq

/-! ## One bucket -/

namespace Bucket

/-- Where a bucket that joins with `sequence` starts. -/
def startAt (backfill sequence : Nat) : Nat :=
  if backfill ≠ 0 then if sequence > backfill then sequence - backfill else 1 else sequence

def acceptOrderMessage (bucket : Bucket) (backfill sequence : Nat) (msg : OrderMessage)
    (now : UInt64) : Bucket × List BucketEvent :=
  let bucket :=
    if bucket.synced then bucket
    else { bucket with nextSequence := startAt backfill sequence, synced := true }
  if sequence < bucket.nextSequence ∨ sequence ∈ bucket.parked then
    ({ bucket with stats.duplicates := bucket.stats.duplicates + 1 }, [.arrived sequence])
  else
    let missing := (List.range' bucket.nextSequence (sequence - bucket.nextSequence)).filter
      fun missing => missing ∉ bucket.parked ∧ missing ∉ bucket.holes ∧ missing ∉ bucket.gone
    let holes := missing.foldl (fun holes missing => holes.insert missing ⟨now, 0⟩) bucket.holes
    ({ bucket with
        holes := holes.erase sequence
        parked := bucket.parked.insert sequence msg },
     .arrived sequence :: missing.map (.noticed · now))

/-- What `drain_tcp` does with a frame of this bucket. -/
def onFrame (bucket : Bucket) (sequence : Nat) (payload : Option OrderMessage) :
    Bucket × List BucketEvent :=
  let bucket := { bucket with holes := bucket.holes.erase sequence }
  let bucket :=
    match payload with
    | none =>
      if sequence ≥ bucket.nextSequence then { bucket with gone := bucket.gone.insert sequence }
      else bucket
    | some msg =>
      if sequence ≥ bucket.nextSequence ∧ sequence ∉ bucket.parked then
        { bucket with
          parked := bucket.parked.insert sequence msg
          stats.repaired := bucket.stats.repaired + 1 }
      else bucket
  (bucket, [.frame sequence payload])

/-- The first loop of `nak`: the holes given up, which it looks for from the front of the map. -/
def expire (bucket : Bucket) (now giveupNs : UInt64) : Bucket × List BucketEvent :=
  let expired :=
    (bucket.holes.toList.takeWhile fun (_, hole) => now - hole.noticed > giveupNs).map (·.1)
  ({ bucket with
      gone := expired.foldl (fun gone sequence => gone.insert sequence) bucket.gone
      holes := expired.foldl (fun holes sequence => holes.erase sequence) bucket.holes },
   expired.map (.expired · now))

/-- The second loop of `nak`: the oldest holes that are due, at most a full batch. -/
def toRequest (bucket : Bucket) (now nakDelayNs nakRepeatNs : UInt64) : List Nat :=
  let due := bucket.holes.toList.filter fun (_, hole) =>
    hole.asked = 0 ∧ now - hole.noticed > nakDelayNs ∨
      hole.asked ≠ 0 ∧ now - hole.asked > nakRepeatNs
  (due.take MAX_REPAIR_BATCH).map (·.1)

/-- The last loop of `nak`, once the request is away. -/
def stamp (bucket : Bucket) (sequences : List Nat) (now : UInt64) : Bucket :=
  { bucket with
    holes := sequences.foldl
      (fun holes sequence => holes.modify sequence fun hole => { hole with asked := now })
      bucket.holes
    stats.repairRequests := bucket.stats.repairRequests + 1 }

/-- The loop of `deliver`, for at most `fuel` rounds. -/
def deliverLoop : (fuel : Nat) → Bucket → Bucket × List BucketEvent
  | 0, bucket => (bucket, [])
  | fuel + 1, bucket =>
    let sequence := bucket.nextSequence
    if bucket.done then
      (bucket, [])
    else match bucket.parked[sequence]? with
    | some msg =>
      let bucket := { bucket with
        parked := bucket.parked.erase sequence
        nextSequence := (sequence + 1) % 2 ^ 64 }
      if msg.type = ascii 'E' then
        ({ bucket with done := true }, [.ended sequence])
      else
        let bucket := { bucket with stats.delivered := bucket.stats.delivered + 1 }
        let (bucket, events) := deliverLoop fuel bucket
        (bucket, .delivered sequence msg :: events)
    | none =>
      if sequence ∈ bucket.gone then
        let bucket := { bucket with
          gone := bucket.gone.erase sequence
          nextSequence := (sequence + 1) % 2 ^ 64
          stats.unrecoverable := bucket.stats.unrecoverable + 1 }
        let (bucket, events) := deliverLoop fuel bucket
        (bucket, .unrecoverable sequence :: events)
      else
        (bucket, [])

/-- Every round takes an entry out of `parked` or `gone`. -/
def deliver (bucket : Bucket) : Bucket × List BucketEvent :=
  deliverLoop (bucket.parked.size + bucket.gone.size) bucket

end Bucket
end Subscriber

open Subscriber in
structure Subscriber where
  buckets : List Bucket
  /-- `repair_fd_ >= 0` -/
  repairOpen : Bool := false
  /-- `repair_buffer_[0..repair_len_)` -/
  repairBuffer : Bytes := []
  nakDelayNs : UInt64 := NAK_DELAY_MS * 1000000
  nakRepeatNs : UInt64 := NAK_REPEAT_MS * 1000000
  repairRetryNs : UInt64 := REPAIR_RETRY_MS * 1000000
  giveupNs : UInt64 := REPAIR_GIVEUP_MS * 1000000
  repairBlockedUntil : UInt64 := 0
  backfill : Nat := 0
  datagramsSeen : Nat := 0

namespace Subscriber

/-- The constructor. -/
def init (bucketIds : List Nat) (firstExpected backfill : UInt64) : Subscriber where
  backfill := if firstExpected ≠ 0 then 0 else backfill.toNat
  buckets := bucketIds.map fun id =>
    if firstExpected > 0 then { id, nextSequence := firstExpected.toNat, synced := true }
    else { id }

def resetRepair (subscriber : Subscriber) : Subscriber :=
  { subscriber with repairOpen := false, repairBuffer := [] }

/-! ## Datagrams -/

/-- A datagram `recv` takes off the socket, and the clock while it is handled. -/
structure Arrival where
  bytes : Bytes
  now : UInt64

/-- One round of `drain_udp`; its buffer holds 512 bytes. -/
def onDatagram (backfill : Nat) (bucket : Bucket) (arrival : Arrival) : Bucket × List BucketEvent :=
  match dgramDecode (arrival.bytes.take 512) with
  | none => (bucket, [])
  | some datagram =>
    if datagram.bucket.toNat ≠ bucket.id then (bucket, [])
    else bucket.acceptOrderMessage backfill datagram.sequence.toNat datagram.message arrival.now

def drainUdp (backfill : Nat) (bucket : Bucket) : List Arrival → Bucket × List BucketEvent
  | [] => (bucket, [])
  | arrival :: arrivals =>
    let (bucket, events) := onDatagram backfill bucket arrival
    let (bucket, events') := drainUdp backfill bucket arrivals
    (bucket, events ++ events')

/-! ## The repair connection -/

def REPAIR_FRAME_MAX : Nat := 12 + ORDER_MESSAGE_SIZE
def REPAIR_BUF_CAP : Nat := MAX_REPAIR_BATCH * REPAIR_FRAME_MAX * BUCKETS + 4096

/-- A result of `recv` on the repair connection; an interrupted call does nothing. -/
inductive Recv
  | data (bytes : Bytes)
  | closed

/-- The first loop of `drain_tcp`: the bytes held when the socket is drained or the buffer full,
`none` if the server closed. -/
def receive (buffer : Bytes) : List Recv → Option Bytes
  | [] => some buffer
  | recv :: recvs =>
    if buffer.length = REPAIR_BUF_CAP then some buffer
    else match recv with
    | .closed => none
    | .data bytes => receive (buffer ++ bytes.take (REPAIR_BUF_CAP - buffer.length)) recvs

/-- `find_bucket`, and what is done to the bucket it finds. -/
def withBucket (id : Nat) (action : Bucket → Bucket × List BucketEvent) :
    List Bucket → List Bucket × List Event
  | [] => ([], [])
  | bucket :: buckets =>
    if bucket.id = id then
      let (bucket, events) := action bucket
      (bucket :: buckets, events.map (.bucket id))
    else
      let (buckets, events) := withBucket id action buckets
      (bucket :: buckets, events)

/-- The frame loop of `drain_tcp`, for at most `fuel` frames: the bytes left over, `none` if the
framing is wrong. -/
def frameLoop : (fuel : Nat) → List Bucket → Bytes → List Bucket × Option Bytes × List Event
  | 0, buckets, bytes => (buckets, some bytes, [])
  | fuel + 1, buckets, bytes =>
    if bytes.length < 12 then
      (buckets, some bytes, [])
    else
      let bucketId := (getU16 bytes).toNat
      let sequence := (getU64 (bytes.drop 2)).toNat
      let length := (getU16 (bytes.drop 10)).toNat
      if bytes.length < 12 + length then
        (buckets, some bytes, [])
      else if length ≠ 0 ∧ length ≠ ORDER_MESSAGE_SIZE then
        (buckets, none, [.resync])
      else
        let payload := if length = 0 then none else some (OrderMessage.decode (bytes.drop 12))
        let (buckets, events) := withBucket bucketId (·.onFrame sequence payload) buckets
        let (buckets, rest, events') := frameLoop fuel buckets (bytes.drop (12 + length))
        (buckets, rest, events ++ events')

def drainTcp (subscriber : Subscriber) (recvs : List Recv) : Subscriber × List Event :=
  match receive subscriber.repairBuffer recvs with
  | none => (subscriber.resetRepair, [.closed])
  | some bytes =>
    match frameLoop bytes.length subscriber.buckets bytes with
    | (buckets, none, events) => ({ subscriber with buckets }.resetRepair, events)
    | (buckets, some rest, events) => ({ subscriber with buckets, repairBuffer := rest }, events)

/-! ## Requests -/

/-- The clock `nak` reads, and whether a `connect` and a `write_all` would succeed. -/
structure NakInput where
  now : UInt64
  connects : Bool
  writes : Bool

/-- `nak` after the expiry loop. -/
def ask (subscriber : Subscriber) (bucket : Bucket) (input : NakInput) :
    Subscriber × Bucket × List Event :=
  let now := input.now
  if bucket.holes.isEmpty then
    (subscriber, bucket, [])
  else if ¬subscriber.repairOpen ∧ now < subscriber.repairBlockedUntil then
    (subscriber, bucket, [])
  else
    let sequences := bucket.toRequest now subscriber.nakDelayNs subscriber.nakRepeatNs
    if sequences.isEmpty then
      (subscriber, bucket, [])
    else if ¬subscriber.repairOpen ∧ ¬input.connects then
      ({ subscriber with repairBlockedUntil := now + subscriber.repairRetryNs }, bucket,
        [.connect false now])
    else
      let connected := if subscriber.repairOpen then [] else [Event.connect true now]
      if ¬input.writes then
        ({ subscriber.resetRepair with repairBlockedUntil := now + subscriber.repairRetryNs },
          bucket, connected ++ [.writeFailed now])
      else
        ({ subscriber with repairOpen := true }, bucket.stamp sequences now,
          connected ++ [.bucket bucket.id (.requested sequences now)])

/-- The bytes `nak` writes for a request. -/
def requestBytes (id : Nat) (sequences : List Nat) : Bytes :=
  FeedPublisher.request (UInt16.ofNat id) (sequences.map UInt64.ofNat)

def nak (subscriber : Subscriber) (bucket : Bucket) (input : NakInput) :
    Subscriber × Bucket × List Event :=
  if bucket.holes.isEmpty then
    (subscriber, bucket, [])
  else
    let (bucket, expired) := bucket.expire input.now subscriber.giveupNs
    let (subscriber, bucket, events) := subscriber.ask bucket input
    (subscriber, bucket, expired.map (.bucket bucket.id) ++ events)

/-! ## `pump` -/

/-- The calls `pump` is made of; a bucket is named by its place in `buckets_`. -/
inductive Call
  | drainUdp (i : Nat) (arrivals : List Arrival)
  | drainTcp (recvs : List Recv)
  | nak (i : Nat) (input : NakInput)
  | deliver (i : Nat)

/-- Runs `action` on the bucket at `i`. -/
def atBucket (subscriber : Subscriber) (i : Nat) (action : Bucket → Bucket × List BucketEvent) :
    Subscriber × List Event :=
  match subscriber.buckets[i]? with
  | none => (subscriber, [])
  | some bucket =>
    let (bucket', events) := action bucket
    ({ subscriber with buckets := subscriber.buckets.set i bucket' },
      events.map (.bucket bucket.id))

def call (subscriber : Subscriber) : Call → Subscriber × List Event
  | .drainUdp i arrivals =>
    let (subscriber, events) := subscriber.atBucket i fun bucket =>
      Subscriber.drainUdp subscriber.backfill bucket arrivals
    let accepted := events.filter fun | .bucket _ (.arrived _) => true | _ => false
    ({ subscriber with datagramsSeen := subscriber.datagramsSeen + accepted.length }, events)
  | .drainTcp recvs => if subscriber.repairOpen then subscriber.drainTcp recvs else (subscriber, [])
  | .nak i input =>
    match subscriber.buckets[i]? with
    | none => (subscriber, [])
    | some bucket =>
      let (subscriber, bucket, events) := subscriber.nak bucket input
      ({ subscriber with buckets := subscriber.buckets.set i bucket }, events)
  | .deliver i => subscriber.atBucket i (·.deliver)

def run (subscriber : Subscriber) : List Call → Subscriber × List Event
  | [] => (subscriber, [])
  | first :: calls =>
    let (subscriber, events) := subscriber.call first
    let (subscriber, events') := run subscriber calls
    (subscriber, events ++ events')

/-- What the operating system answers during one `pump`. -/
structure PumpInput where
  arrivals : Nat → List Arrival
  recvs : List Recv
  naks : Nat → NakInput

/-- The calls of one `pump` over `count` buckets. -/
def pumpCalls (count : Nat) (input : PumpInput) : List Call :=
  (List.range count).map (fun i => .drainUdp i (input.arrivals i)) ++ [.drainTcp input.recvs] ++
    (List.range count).flatMap fun i => [.nak i (input.naks i), .deliver i]

def pump (subscriber : Subscriber) (input : PumpInput) : Subscriber × List Event :=
  subscriber.run (pumpCalls subscriber.buckets.length input)

/-! ## The blocking driver -/

/-- `done()`: every bucket has reached its end marker. -/
def isDone (subscriber : Subscriber) : Bool := subscriber.buckets.all (·.done)

/-- `stats()` -/
def stats (subscriber : Subscriber) : SubscriberStats :=
  subscriber.buckets.foldl
    (fun total bucket =>
      { delivered := total.delivered + bucket.stats.delivered
        repaired := total.repaired + bucket.stats.repaired
        unrecoverable := total.unrecoverable + bucket.stats.unrecoverable
        duplicates := total.duplicates + bucket.stats.duplicates
        repairRequests := total.repairRequests + bucket.stats.repairRequests })
    {}

/-- `stats_for(bucket_id)` -/
def statsFor (subscriber : Subscriber) (bucketId : Nat) : SubscriberStats :=
  ((subscriber.buckets.find? (·.id = bucketId)).map (·.stats)).getD {}

/-- `heard_feed()` -/
def heardFeed (subscriber : Subscriber) : Bool := subscriber.datagramsSeen > 0

/-- What the operating system answers in one round of the loop of `run`. -/
structure Round where
  /-- `g_stop` when the round starts. -/
  stop : Bool
  input : PumpInput
  /-- The clock read after `pump`. -/
  now : UInt64

/-- What the loop of `run` works on. -/
structure Driven where
  subscriber : Subscriber
  events : List Event := []
  warnedSilent : Bool := false

/-- The loop of `run`, and what it returns; `none` if it is still going. -/
def Driven.loop (started : UInt64) (driven : Driven) : List Round → Driven × Option Bool
  | [] => (driven, none)
  | round :: rounds =>
    if round.stop then (driven, some false)
    else
      let (subscriber, events) := driven.subscriber.pump round.input
      let driven := { driven with subscriber, events := driven.events ++ events }
      if subscriber.isDone then (driven, some true)
      else if ¬subscriber.heardFeed ∧ ¬driven.warnedSilent ∧
          round.now - started > SUB_START_TIMEOUT_MS * 1000000 then
        loop started { driven with warnedSilent := true } rounds
      else loop started driven rounds

end Subscriber
end MegaFeed
