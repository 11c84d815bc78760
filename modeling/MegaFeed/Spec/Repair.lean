import MegaFeed.Theory.Framing
import MegaFeed.Model.Subscriber

/-! # One repair connection

The bytes a subscriber takes off its repair connection are one stream, in whatever pieces
`recv` brings it. `parse` is what the stream says, read at once, and `acted` what is to be done
about it. An `Exchange` is such a connection with both its ends, on which anything written
arrives in pieces. -/

namespace MegaFeed
namespace Subscriber
open Framing

/-- The frames of the repair stream, with the length in the last two bytes of the header. -/
def repairFormat : Format UInt8 where
  header := 12
  header_pos := by decide
  body header := (getU16 (header.drop 10)).toNat

structure Answer where
  bucket : Nat
  sequence : Nat
  msg : Option OrderMessage

/-- A length the subscriber expects: that of a payload, or zero. -/
def possible (frame : Bytes) : Bool :=
  (getU16 (frame.drop 10)).toNat = 0 ∨ (getU16 (frame.drop 10)).toNat = ORDER_MESSAGE_SIZE

def Answer.read (frame : Bytes) : Answer where
  bucket := (getU16 frame).toNat
  sequence := (getU64 (frame.drop 2)).toNat
  msg :=
    if (getU16 (frame.drop 10)).toNat = 0 then none else some (OrderMessage.decode (frame.drop 12))

/-- The frames of a stream up to the first one of impossible length, and the bytes left over, `none`
if there is such a frame. -/
def parse (bytes : Bytes) : List Answer × Option Bytes :=
  let (frames, rest) := repairFormat.splitWhile possible bytes
  (frames.map Answer.read, rest)

def resync (rest : Option Bytes) : List Event := if rest.isNone then [.resync] else []

/-- What a subscriber of the buckets `ids` does about a stream: it acts on the frames of its
buckets, and drops the connection at a frame of impossible length. -/
def acted (ids : List Nat) (parsed : List Answer × Option Bytes) : List Event :=
  (parsed.1.filter (·.bucket ∈ ids)).map
    (fun reply => .bucket reply.bucket (.frame reply.sequence reply.msg)) ++ resync parsed.2

/-! ## What is taken off the connection -/

/-- The bytes that `recv` brings, while there is room for them. -/
def taken (room : Nat) : List Recv → Bytes
  | [] | .closed :: _ => []
  | .data bytes :: recvs => bytes.take room ++ taken (room - bytes.length) recvs

/-- The bytes a call takes off the connection. -/
def took (subscriber : Subscriber) : Call → Bytes
  | .drainTcp recvs =>
    if subscriber.repairOpen then taken (REPAIR_BUF_CAP - subscriber.repairBuffer.length) recvs
    else []
  | .drainUdp .. | .nak .. | .deliver _ => []

def received (subscriber : Subscriber) : List Call → Bytes
  | [] => []
  | first :: calls => subscriber.took first ++ received (subscriber.call first).1 calls

/-- A frame was acted on, or the connection dropped. -/
def Event.repair : Event → Bool
  | .bucket _ (.frame _ _) | .resync => true
  | _ => false

def repairs (log : List Event) : List Event := log.filter (·.repair)

/-- The event is no close by the server, no socket error, and no new connection. -/
def Event.Stays : Event → Prop
  | .closed | .writeFailed _ | .connect true _ => False
  | .bucket _ _ | .connect false _ | .resync => True

def requested (log : List Event) : List (Nat × List Nat) :=
  log.filterMap fun
    | .bucket id (.requested sequences _) => some (id, sequences)
    | _ => none

end Subscriber

open Subscriber

/-! ## Both ends -/

namespace FeedPublisher

variable {bucketCount ringSize : Nat}

/-- Slots hold 29 bytes, as the array of the source does. -/
def Sized (publisher : FeedPublisher bucketCount ringSize) : Prop :=
  ∀ bucket ∈ publisher.buckets, ∀ slot ∈ bucket.ring, slot.msg.length = ORDER_MESSAGE_SIZE

/-- The message in the ring slot that `sequence` falls on, if that is what the slot holds. -/
def inRing [NeZero ringSize] (publisher : FeedPublisher bucketCount ringSize) (id sequence : Nat) :
    Option OrderMessage :=
  match publisher.buckets[id]? with
  | none => none
  | some bucket =>
    have hindex : sequence % ringSize < ringSize := Nat.mod_lt _ (NeZero.pos ringSize)
    let slot := bucket.ring[sequence % ringSize]
    if slot.used ∧ slot.sequence = sequence then some (OrderMessage.decode slot.msg) else none

end FeedPublisher

/-- A repair connection that stays open. What one end writes is on its way until the other end has
received it. -/
structure Exchange (bucketCount ringSize : Nat) where
  subscriber : Subscriber
  toServer : Bytes := []
  atServer : Bytes := []
  toClient : Bytes := []
  closed : Bool := false
  /-- The publisher as it was when the server answered, for every request answered. -/
  served : List (FeedPublisher bucketCount ringSize) := []
  log : List Event := []

namespace Exchange

variable {bucketCount ringSize : Nat} [NeZero ringSize]

/-- The server's loop makes a round. -/
def serve (exchange : Exchange bucketCount ringSize)
    (publisher : FeedPublisher bucketCount ringSize) : Exchange bucketCount ringSize :=
  match publisher.serveOneClient exchange.atServer with
  | .wait => exchange
  | .close => { exchange with closed := true }
  | .reply response rest =>
    { exchange with
      atServer := rest
      toClient := exchange.toClient ++ response
      served := exchange.served ++ [publisher] }

/-- The subscriber makes a call, and leaves `rest` on the connection. -/
def afterCall (exchange : Exchange bucketCount ringSize) (call : Subscriber.Call) (rest : Bytes) :
    Exchange bucketCount ringSize :=
  let (subscriber, events) := exchange.subscriber.call call
  { exchange with
    subscriber
    toServer := exchange.toServer ++ (requested events).flatMap fun request =>
      requestBytes request.1 request.2
    toClient := rest
    log := exchange.log ++ events }

inductive Step : Exchange bucketCount ringSize → Exchange bucketCount ringSize → Prop
  /-- Whatever else happens to the buckets of the subscriber. -/
  | buckets {exchange : Exchange bucketCount ringSize} (buckets : List Bucket)
    (hids : buckets.map (·.id) = exchange.subscriber.buckets.map (·.id)) :
    Step exchange { exchange with subscriber := { exchange.subscriber with buckets } }
  /-- The keys of a hole map are words of 64 bits. -/
  | nak {exchange : Exchange bucketCount ringSize} (i : Nat) (input : NakInput)
    (hkeys : ∀ bucket ∈ exchange.subscriber.buckets, ∀ s ∈ bucket.holes, s < 2 ^ 64)
    (hwrites : input.writes = true) :
    Step exchange (exchange.afterCall (.nak i input) exchange.toClient)
  | drainTcp {exchange : Exchange bucketCount ringSize} (recvs : List Recv) (rest : Bytes)
    (hbytes : exchange.toClient = exchange.subscriber.took (.drainTcp recvs) ++ rest)
    (hopen : .closed ∉ recvs) :
    Step exchange (exchange.afterCall (.drainTcp recvs) rest)
  | receive {exchange : Exchange bucketCount ringSize} (bytes rest : Bytes)
    (hbytes : exchange.toServer = bytes ++ rest) :
    Step exchange { exchange with toServer := rest, atServer := exchange.atServer ++ bytes }
  | serve {exchange : Exchange bucketCount ringSize}
    (publisher : FeedPublisher bucketCount ringSize) (hsized : publisher.Sized)
    (hopen : exchange.closed = false) :
    Step exchange (exchange.serve publisher)

/-- What a connection that was new can have become; the subscriber has joined buckets the publisher
has. -/
inductive Reachable : Exchange bucketCount ringSize → Prop
  | new {subscriber : Subscriber} (hempty : subscriber.repairBuffer = [])
    (hids : ∀ bucket ∈ subscriber.buckets, bucket.id < bucketCount) : Reachable { subscriber }
  | step {exchange exchange' : Exchange bucketCount ringSize} (h : Reachable exchange)
    (hstep : Step exchange exchange') : Reachable exchange'

/-- The answers due: one for every sequence number requested, in order. -/
def due (requests : List (Nat × List Nat)) (served : List (FeedPublisher bucketCount ringSize)) :
    List Answer :=
  (requests.zip served).flatMap fun (request, publisher) =>
    request.2.map fun sequence => ⟨request.1, sequence, publisher.inRing request.1 sequence⟩

end Exchange
end MegaFeed
