import MegaFeed.Model.FeedHandler
import MegaFeed.Spec.World

/-! # The pipeline

`exchange -> feedhandler -> subscriber`, with any number of consumers. The exchange puts the packets
of its capture on a multicast group, which may lose, repeat and reorder them. What the feed handler
receives it publishes, and every consumer has a network and a repair connection of its own: what is
between it and the publisher is a `World`. -/

namespace MegaFeed
open FeedPublisher Subscriber

/-- A consumer: what of its `World` is not the publisher's. -/
structure Consumer where
  link : Option Link := none
  subscriber : Subscriber
  phase : Phase := .drainUdp 0
  clock : UInt64 := 0
  nakNow : Nat → UInt64 := fun _ => 0
  log : List Event := []

/-- What the programs are started with. -/
structure Setup (count : Nat) where
  capture : List Bytes
  lossPercent : Nat
  lossRng : Stream' UInt64
  /-- How each consumer joins; the publisher is the same for all of them. -/
  session : Fin count → Session
  publisher : ∀ i, (session i).lossPercent = lossPercent ∧ (session i).lossRng = lossRng

structure Pipeline (bucketCount ringSize count : Nat) where
  /-- How many packets the exchange has sent. -/
  replayed : Nat := 0
  handler : FeedHandler bucketCount ringSize
  /-- The payloads handed to `onPayload`. -/
  received : List Bytes := []
  finished : Bool := false
  assigned : List Assigned := []
  sent : List Packet := []
  consumers : Fin count → Consumer

namespace Pipeline

variable {bucketCount ringSize count : Nat}

def init (setup : Setup count) : Pipeline bucketCount ringSize count where
  handler := { publisher := FeedPublisher.init setup.lossPercent setup.lossRng }
  consumers i :=
    { subscriber := (World.init (setup.session i) : World bucketCount ringSize).subscriber }

def world (pipeline : Pipeline bucketCount ringSize count) (i : Fin count) :
    World bucketCount ringSize :=
  let consumer := pipeline.consumers i
  { publisher := pipeline.handler.publisher
    finished := pipeline.finished
    assigned := pipeline.assigned
    sent := pipeline.sent
    link := consumer.link
    subscriber := consumer.subscriber
    phase := consumer.phase
    clock := consumer.clock
    nakNow := consumer.nakNow
    log := consumer.log }

/-- The pipeline after a consumer's part of its world has become that of `world`. -/
def withConsumer (pipeline : Pipeline bucketCount ringSize count) (i : Fin count)
    (world : World bucketCount ringSize) : Pipeline bucketCount ringSize count :=
  { pipeline with
    consumers := Function.update pipeline.consumers i
      { link := world.link
        subscriber := world.subscriber
        phase := world.phase
        clock := world.clock
        nakNow := world.nakNow
        log := world.log } }

variable [NeZero bucketCount] [NeZero ringSize]

def afterPayload (pipeline : Pipeline bucketCount ringSize count) (payload : Bytes) :
    Pipeline bucketCount ringSize count :=
  let (handler, output) := pipeline.handler.onPayload payload
  { pipeline with
    handler
    received := pipeline.received ++ [payload]
    assigned := pipeline.assigned ++ output.published.assigned
    sent := pipeline.sent ++ output.published.sent }

def afterFinish (pipeline : Pipeline bucketCount ringSize count) :
    Pipeline bucketCount ringSize count :=
  let (publisher, output) := pipeline.handler.publisher.finish
  { pipeline with
    handler := { pipeline.handler with publisher }
    finished := true
    assigned := pipeline.assigned ++ output.assigned
    sent := pipeline.sent ++ output.sent }

omit [NeZero bucketCount] [NeZero ringSize] in
/-- No bucket runs out of sequence numbers. -/
def Room (pipeline : Pipeline bucketCount ringSize count) : Prop :=
  ∀ b (h : b < bucketCount), pipeline.handler.publisher.buckets[b].nextSequence + 1 < 2 ^ 64

inductive Step (setup : Setup count) :
    Pipeline bucketCount ringSize count → Pipeline bucketCount ringSize count → Prop
  | replay {pipeline : Pipeline bucketCount ringSize count}
    (h : pipeline.replayed < setup.capture.length) :
    Step setup pipeline { pipeline with replayed := pipeline.replayed + 1 }
  /-- The feed handler receives one of the packets sent. It publishes all messages of the packet in
  one step: that the repair server answers between two of them is left out. -/
  | receive {pipeline : Pipeline bucketCount ringSize count} {packet : Bytes}
    (h : packet ∈ setup.capture.take pipeline.replayed) (hopen : pipeline.finished = false)
    (hroom : (pipeline.afterPayload (packet.take FeedHandler.BUFFER_SIZE)).Room) :
    Step setup pipeline (pipeline.afterPayload (packet.take FeedHandler.BUFFER_SIZE))
  | finish {pipeline : Pipeline bucketCount ringSize count} (hopen : pipeline.finished = false)
    (hroom : pipeline.Room) : Step setup pipeline pipeline.afterFinish
  /-- A step in the world of a consumer that is not one of the publisher. -/
  | consumer {pipeline : Pipeline bucketCount ringSize count} {i : Fin count}
    {world : World bucketCount ringSize} (hstep : World.Step (pipeline.world i) world)
    (hown : world.assigned = pipeline.assigned) :
    Step setup pipeline (pipeline.withConsumer i world)

inductive Reachable (setup : Setup count) : Pipeline bucketCount ringSize count → Prop
  | init : Reachable setup (init setup)
  | step {pipeline pipeline' : Pipeline bucketCount ringSize count} (h : Reachable setup pipeline)
    (hstep : Step setup pipeline pipeline') : Reachable setup pipeline'

end Pipeline
end MegaFeed
