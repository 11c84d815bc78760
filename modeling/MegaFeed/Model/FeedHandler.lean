import MegaFeed.Model.DeepPlus
import MegaFeed.Model.FeedPublisher
import MegaFeed.Model.Iextp

/-! # `feedhandler.cpp`: from the venue's packets to our own feed

`onPayload` also returns what it handed to `decode`, each message with the number its packet gives
it, and what the publisher put out. The warning about other protocols is the flag it sets. What
`main` prints is left out but for the numbers in its report. -/

namespace MegaFeed

structure FeedHandler (bucketCount ringSize : Nat) where
  decoder : DeepPlusDecoder := {}
  publisher : FeedPublisher bucketCount ringSize
  expected : UInt64 := 0
  captureGaps : UInt64 := 0
  published : Nat := 0
  warnedProtocol : Bool := false

namespace FeedHandler

/-- A message handed to the decoder. -/
structure Handed where
  sequence : UInt64
  bytes : Bytes
deriving DecidableEq

/-- What a call leaves behind besides the handler's new state. -/
structure Output where
  handed : List Handed := []
  published : FeedPublisher.Output := {}

instance : Append Output := ⟨fun a b => ⟨a.handed ++ b.handed, a.published ++ b.published⟩⟩

variable {bucketCount ringSize : Nat} [NeZero bucketCount] [NeZero ringSize]

/-- `decode` one message and publish what it puts out. -/
def handOver (handler : FeedHandler bucketCount ringSize) (bytes : Bytes) :
    FeedHandler bucketCount ringSize × FeedPublisher.Output :=
  let (decoder, out) := handler.decoder.decode bytes
  let (publisher, output) := handler.publisher.run (out.map .publish)
  ({ handler with decoder, publisher, published := handler.published + out.length }, output)

/-- The callback of `on_payload` on the messages from number `sequence` on: the first `skip` of them
are passed over. -/
def onMessages (handler : FeedHandler bucketCount ringSize) :
    (skip sequence : UInt64) → List Bytes → FeedHandler bucketCount ringSize × Output
  | _, _, [] => (handler, {})
  | skip, sequence, bytes :: messages =>
    if skip ≠ 0 then
      onMessages handler (skip - 1) (sequence + 1) messages
    else
      let (handler, published) := handler.handOver bytes
      let (handler, output) := onMessages handler skip (sequence + 1) messages
      (handler, { handed := [⟨sequence, bytes⟩], published } ++ output)

def onPayload (handler : FeedHandler bucketCount ringSize) (payload : Bytes) :
    FeedHandler bucketCount ringSize × Output :=
  match iextpDecode payload with
  | none => (handler, {})
  | some header =>
    if header.protocol ≠ 0x8005 then
      ({ handler with warnedProtocol := true }, {})
    else if header.messageCount = 0 then
      (handler, {})
    else
      let first := header.firstSequenceNumber
      let captureGaps :=
        if handler.expected ≠ 0 ∧ first > handler.expected then
          handler.captureGaps + (first - handler.expected)
        else handler.captureGaps
      let skip :=
        if handler.expected ≠ 0 ∧ first < handler.expected then handler.expected - first else 0
      let messages := (iextpForEachMessage payload header).map (·.of payload)
      let (handler, output) := onMessages { handler with captureGaps } skip first messages
      let next := first + header.messageCount.toUInt64
      ({ handler with expected := if next > handler.expected then next else handler.expected },
        output)

/-- The handler after some payloads, and all that `onPayload` left behind. -/
def run (handler : FeedHandler bucketCount ringSize) :
    List Bytes → FeedHandler bucketCount ringSize × Output
  | [] => (handler, {})
  | payload :: payloads =>
    let (handler, output) := handler.onPayload payload
    let (handler, outputs) := run handler payloads
    (handler, output ++ outputs)

/-- The numbers `report` prints. -/
structure Report where
  captureGaps : UInt64
  unknownReferences : Nat
  published : Nat
  dropped : Nat
  crossed : Nat
deriving DecidableEq

def report (handler : FeedHandler bucketCount ringSize) : Report where
  captureGaps := handler.captureGaps
  unknownReferences := handler.decoder.unknownReferences
  published := handler.published
  dropped := (handler.publisher.buckets.toList.map (·.dropped)).sum
  crossed := (handler.publisher.buckets.toList.map (·.golden.crossed)).sum

/-! ## `main` -/

/-- `sizeof buf` -/
def BUFFER_SIZE : Nat := 2048
def FEED_IDLE_STOP_MS : UInt64 := 2000
def FEED_START_TIMEOUT_MS : UInt64 := 10000

/-- What the operating system answers in one round of the loop of `main`. -/
structure Wake where
  /-- `g_stop` when the round starts. -/
  stop : Bool
  /-- The datagrams `recv` drains, each with the clock read after it. -/
  datagrams : List (Bytes × UInt64)
  /-- The clock read at the end of the round. -/
  now : UInt64

/-- What the loop of `main` works on. -/
structure Receiving (bucketCount ringSize : Nat) where
  handler : FeedHandler bucketCount ringSize
  packets : Nat := 0
  lastReceive : UInt64 := 0
  output : Output := {}

namespace Receiving

/-- The inner loop: one `recv` after the other. -/
def drain (receiving : Receiving bucketCount ringSize) : List (Bytes × UInt64) →
    Receiving bucketCount ringSize
  | [] => receiving
  | (datagram, now) :: datagrams =>
    let (handler, output) := receiving.handler.onPayload (datagram.take BUFFER_SIZE)
    drain
      { handler
        packets := receiving.packets + 1
        lastReceive := now
        output := receiving.output ++ output }
      datagrams

/-- Why the loop was left. -/
inductive Ended
  | stopped
  | idle
  | neverHeardAnything
deriving DecidableEq

/-- The loop of `main`; `none` if it is still going. -/
def loop (started : UInt64) (receiving : Receiving bucketCount ringSize) :
    List Wake → Receiving bucketCount ringSize × Option Ended
  | [] => (receiving, none)
  | wake :: wakes =>
    if wake.stop then
      (receiving, some .stopped)
    else
      let receiving := receiving.drain wake.datagrams
      if receiving.lastReceive ≠ 0 then
        if wake.now - receiving.lastReceive > FEED_IDLE_STOP_MS * 1000000 then
          (receiving, some .idle)
        else loop started receiving wakes
      else if wake.now - started > FEED_START_TIMEOUT_MS * 1000000 then
        (receiving, some .neverHeardAnything)
      else
        loop started receiving wakes

end Receiving

/-- What `main` leaves behind. -/
structure Exit (bucketCount ringSize : Nat) where
  handler : FeedHandler bucketCount ringSize
  output : FeedPublisher.Output
  packets : Nat
  status : Nat

/-- `main` with a handler that is new; `stop` is `g_stop` at the end, `none` if the loop is
still going. -/
def main (handler : FeedHandler bucketCount ringSize) (started : UInt64) (wakes : List Wake)
    (stop : Bool) : Option (Exit bucketCount ringSize) :=
  let (receiving, ended) := Receiving.loop started { handler } wakes
  ended.map fun ended =>
    let (publisher, output) := receiving.handler.publisher.finish
    { handler := { receiving.handler with publisher }
      output := receiving.output.published ++ output
      packets := receiving.packets
      status := if ended = .neverHeardAnything then 1 else if stop then 130 else 0 }

end FeedHandler
end MegaFeed
