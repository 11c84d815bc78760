import MegaFeed.Model.Accesses
import MegaFeed.Model.Subscriber

/-! # `helpers.h`, `subscriber.h`: accesses to what the sockets bring

`dgram_decode`, `drain_udp` and `drain_tcp` once more, with the arrays they work in: the datagram
buffer, in which bytes of earlier datagrams are left, and the repair buffer with the number of bytes
it holds. A call of `recv` may write to all the room it is given. -/

namespace MegaFeed
namespace Accesses
open Subscriber

/-! ## `helpers.h` -/

def orderMessageDecode (bytes : Span UInt8) : Reads OrderMessage := do
  let type ← readByte bytes 0
  let symbol ← bytes.read 1 8
  return {
    type
    symbol := Vector.ofFn fun i => if i.val < 8 then Bytes.byte symbol i.val else 0
    price := (← readU64 bytes 9).toInt64
    size := ← readU32 bytes 17
    timestamp := ← readU64 bytes 21 }

def dgramDecode (bytes : Span UInt8) : Reads (Option Dgram) :=
  if bytes.length < HDR_BYTES + ORDER_MESSAGE_SIZE then
    return none
  else do
    if (← readU32 bytes 0) ≠ MAGIC then
      return none
    let bucket ← readU16 bytes 4
    let sequence ← readU64 bytes 6
    if (← readU16 bytes 14) ≠ UInt16.ofNat ORDER_MESSAGE_SIZE then
      return none
    let message ← orderMessageDecode (bytes.part HDR_BYTES (bytes.length - HDR_BYTES))
    return some { bucket, sequence, message }

/-! ## `subscriber.h` -/

/-- `recv(fd, array + offset, room)` with `bytes` on the socket: the array behind it. -/
def recvInto (array : Bytes) (offset room : Nat) (bytes : Bytes) : Reads Bytes where
  value := array.write offset (bytes.take room)
  inside := offset + room ≤ array.length

/-- `memmove(array, array + offset, count)` -/
def memmove (array : Bytes) (offset count : Nat) : Reads Bytes where
  value := array.write 0 ((array.drop offset).take count)
  inside := offset + count ≤ array.length

/-- A subscriber whose repair buffer is an array: `subscriber` has the other members. -/
structure Raw where
  subscriber : Subscriber
  /-- `repair_buffer_` -/
  repairBytes : Bytes
  /-- `repair_len_` -/
  repairLen : Nat

namespace Raw

def resetRepair (raw : Raw) : Raw :=
  { raw with subscriber := raw.subscriber.resetRepair, repairLen := 0 }

section
variable (stray : Bytes)

/-- One round of `drain_udp`; `buf` is what its buffer holds. -/
def onDatagram (backfill : Nat) (bucket : Bucket) (buf : Bytes) (arrival : Arrival) :
    Reads (Bytes × Bucket × List BucketEvent) := do
  let buf ← recvInto buf 0 512 arrival.bytes
  match ← dgramDecode ⟨⟨buf, stray⟩, 0, (arrival.bytes.take 512).length⟩ with
  | none => return (buf, bucket, [])
  | some datagram =>
    if datagram.bucket.toNat ≠ bucket.id then return (buf, bucket, [])
    else
      let (bucket, events) :=
        bucket.acceptOrderMessage backfill datagram.sequence.toNat datagram.message arrival.now
      return (buf, bucket, events)

def drainUdp (backfill : Nat) (bucket : Bucket) (buf : Bytes) :
    List Arrival → Reads (Bucket × List BucketEvent)
  | [] => return (bucket, [])
  | arrival :: arrivals => do
    let (buf, bucket, events) ← onDatagram stray backfill bucket buf arrival
    let (bucket, events') ← drainUdp backfill bucket buf arrivals
    return (bucket, events ++ events')

/-- The first loop of `drain_tcp`; `none` if the server closed. -/
def receive (repairBytes : Bytes) (repairLen : Nat) : List Recv → Reads (Option (Bytes × Nat))
  | [] => return some (repairBytes, repairLen)
  | recv :: recvs =>
    if repairLen = REPAIR_BUF_CAP then return some (repairBytes, repairLen)
    else match recv with
    | .closed => return none
    | .data bytes => do
      let room := REPAIR_BUF_CAP - repairLen
      let repairBytes ← recvInto repairBytes repairLen room bytes
      receive repairBytes (repairLen + (bytes.take room).length) recvs

/-- The payload of a frame. It is decoded here even where nothing is done with it. -/
def framePayload (frame : Span UInt8) (length : Nat) : Reads (Option OrderMessage) :=
  if length = 0 then return none else return some (← orderMessageDecode (frame.part 12 length))

/-- The frame loop of `drain_tcp`, for at most `fuel` frames: the final `offset`, `none` if the
framing is wrong. -/
def frameLoop (repairBytes : Bytes) (repairLen : Nat) :
    (fuel : Nat) → List Bucket → (offset : Nat) → Reads (List Bucket × Option Nat × List Event)
  | 0, buckets, offset => return (buckets, some offset, [])
  | fuel + 1, buckets, offset =>
    if repairLen - offset < 12 then
      return (buckets, some offset, [])
    else do
      let frame : Span UInt8 := ⟨⟨repairBytes, stray⟩, offset, repairLen - offset⟩
      let bucketId := (← readU16 frame 0).toNat
      let sequence := (← readU64 frame 2).toNat
      let length := (← readU16 frame 10).toNat
      if repairLen - offset < 12 + length then
        return (buckets, some offset, [])
      else if length ≠ 0 ∧ length ≠ ORDER_MESSAGE_SIZE then
        return (buckets, none, [.resync])
      else
        let payload ← framePayload frame length
        let (buckets, events) := withBucket bucketId (·.onFrame sequence payload) buckets
        let (buckets, last, events') ← frameLoop repairBytes repairLen fuel buckets
          (offset + (12 + length))
        return (buckets, last, events ++ events')

def drainTcp (raw : Raw) (recvs : List Recv) : Reads (Raw × List Event) := do
  match ← receive raw.repairBytes raw.repairLen recvs with
  | none => return (raw.resetRepair, [.closed])
  | some (repairBytes, repairLen) =>
    let (buckets, last, events) ← frameLoop stray repairBytes repairLen repairLen
      raw.subscriber.buckets 0
    let raw := { raw with subscriber.buckets := buckets, repairBytes, repairLen }
    match last with
    | none => return (raw.resetRepair, events)
    | some offset =>
      let repairLen := repairLen - offset
      let repairBytes ←
        if offset ≠ 0 ∧ repairLen ≠ 0 then memmove repairBytes offset repairLen
          else pure repairBytes
      return ({ raw with repairBytes, repairLen }, events)

/-- One call; `buf` is what the datagram buffer holds when `drain_udp` begins. -/
def call (buf : Bytes) (raw : Raw) : Call → Reads (Raw × List Event)
  | .drainUdp i arrivals =>
    match raw.subscriber.buckets[i]? with
    | none => return (raw, [])
    | some bucket => do
      let (bucket', events) ← drainUdp stray raw.subscriber.backfill bucket buf arrivals
      let events := events.map (.bucket bucket.id)
      let accepted := events.filter fun | .bucket _ (.arrived _) => true | _ => false
      return ({ raw with
        subscriber.buckets := raw.subscriber.buckets.set i bucket'
        subscriber.datagramsSeen := raw.subscriber.datagramsSeen + accepted.length }, events)
  | .drainTcp recvs =>
    if raw.subscriber.repairOpen then raw.drainTcp stray recvs else return (raw, [])
  | .nak i input =>
    let (subscriber, events) := raw.subscriber.call (.nak i input)
    -- `reset_repair` if the request could not be written
    let repairLen := if .writeFailed input.now ∈ events then 0 else raw.repairLen
    return ({ raw with subscriber, repairLen }, events)
  | .deliver i =>
    let (subscriber, events) := raw.subscriber.call (.deliver i)
    return ({ raw with subscriber }, events)

def run (buf : Nat → Bytes) (raw : Raw) : List Call → Reads (Raw × List Event)
  | [] => return (raw, [])
  | first :: calls => do
    let (raw, events) ← raw.call stray (buf calls.length) first
    let (raw, events') ← run buf raw calls
    return (raw, events ++ events')

end
end Raw
end Accesses
end MegaFeed
