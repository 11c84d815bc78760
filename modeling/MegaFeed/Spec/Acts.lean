import MegaFeed.Spec.History

/-! # The life of one bucket

Whatever is asked of a subscriber, what it does to one of its buckets is a list of acts, each of
them one function of the bucket. A `Life` is what a bucket goes through by acts that are allowed: at
readings of a clock that goes forward (`Timed`), or with an honest publisher on the other side
(`Honest`). -/

namespace MegaFeed
namespace Subscriber

/-- The constants of a subscriber. -/
structure Settings where
  backfill : Nat
  nakDelayNs : UInt64
  nakRepeatNs : UInt64
  giveupNs : UInt64

def settings (subscriber : Subscriber) : Settings where
  backfill := subscriber.backfill
  nakDelayNs := subscriber.nakDelayNs
  nakRepeatNs := subscriber.nakRepeatNs
  giveupNs := subscriber.giveupNs

/-- What can be done to a bucket. -/
inductive Act
  /-- A datagram is passed to `accept_OrderMessage`. -/
  | accept (sequence : Nat) (msg : OrderMessage) (now : UInt64)
  /-- `drain_tcp` finds a frame of the bucket. -/
  | frame (sequence : Nat) (payload : Option OrderMessage)
  /-- The first loop of `nak`. -/
  | expire (now : UInt64)
  /-- `nak` writes a request. -/
  | request (now : UInt64)
  | deliver

/-- The reading of the clock an act is done at. -/
def Act.now : Act → Option UInt64
  | .accept _ _ now | .expire now | .request now => some now
  | .frame _ _ | .deliver => none

namespace Bucket

def act (settings : Settings) (bucket : Bucket) : Act → Bucket × List BucketEvent
  | .accept sequence msg now => bucket.acceptOrderMessage settings.backfill sequence msg now
  | .frame sequence payload => bucket.onFrame sequence payload
  | .expire now => bucket.expire now settings.giveupNs
  | .request now =>
    let sequences := bucket.toRequest now settings.nakDelayNs settings.nakRepeatNs
    if sequences.isEmpty then (bucket, [])
    else (bucket.stamp sequences now, [.requested sequences now])
  | .deliver => bucket.deliver

def acts (settings : Settings) (bucket : Bucket) : List Act → Bucket × List BucketEvent
  | [] => (bucket, [])
  | first :: rest =>
    let (bucket, events) := bucket.act settings first
    let (bucket, events') := acts settings bucket rest
    (bucket, events ++ events')

end Bucket

/-- A bucket of the constructor. -/
def newBucket (firstExpected : UInt64) (id : Nat) : Bucket :=
  if firstExpected > 0 then { id, nextSequence := firstExpected.toNat, synced := true } else { id }

/-- What a bucket that was `first` at `start` can have become, by acts that were `Allowed` to it
then: the clock, its history, and what it is now. -/
inductive Life (settings : Settings) (Allowed : UInt64 → List BucketEvent → Bucket → Act → Prop)
    (start : UInt64) (first : Bucket) : UInt64 → List BucketEvent → Bucket → Prop
  | new : Life settings Allowed start first start [] first
  | act {clock : UInt64} {history : List BucketEvent} {bucket : Bucket} (act : Act)
    (h : Life settings Allowed start first clock history bucket)
    (hallowed : Allowed clock history bucket act) :
    Life settings Allowed start first (act.now.getD clock)
      (history ++ (bucket.act settings act).2) (bucket.act settings act).1
  | wait {clock clock' : UInt64} {history : List BucketEvent} {bucket : Bucket}
    (h : Life settings Allowed start first clock history bucket) (hle : clock ≤ clock') :
    Life settings Allowed start first clock' history bucket

/-- The clock goes forward. -/
def Timed (Allowed : List BucketEvent → Bucket → Act → Prop) (clock : UInt64)
    (history : List BucketEvent) (bucket : Bucket) (act : Act) : Prop :=
  (∀ now ∈ act.now, clock ≤ now) ∧ Allowed history bucket act

/-- What arrives was assigned, and every frame answers a request; without payload it is `Lost`. -/
def Honest (assigned : List FeedPublisher.Assigned) (Lost : Nat → Nat → Prop)
    (history : List BucketEvent) (bucket : Bucket) : Act → Prop
  | .accept sequence msg _ =>
    1 ≤ sequence ∧ sequence + 1 < 2 ^ 64 ∧ ⟨bucket.id, sequence, msg⟩ ∈ assigned
  | .frame sequence (some msg) => Asked history sequence ∧ ⟨bucket.id, sequence, msg⟩ ∈ assigned
  | .frame sequence none => Asked history sequence ∧ Lost bucket.id sequence
  | .expire _ | .request _ | .deliver => True

/-! ## Calls -/

/-- The readings of the clock a call is given. -/
def Call.readings : Call → List UInt64
  | .drainUdp _ arrivals => arrivals.map (·.now)
  | .nak _ input => [input.now]
  | .drainTcp _ | .deliver _ => []

/-- What a datagram on the socket of bucket `id` is to the bucket. -/
def Arrival.act (id : Nat) (arrival : Arrival) : Option Act :=
  match dgramDecode (arrival.bytes.take 512) with
  | none => none
  | some datagram =>
    if datagram.bucket.toNat ≠ id then none
    else some (.accept datagram.sequence.toNat datagram.message arrival.now)

end Subscriber
end MegaFeed
