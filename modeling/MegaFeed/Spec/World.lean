import MegaFeed.Model.Subscriber

/-! # Publisher, network and subscriber

One publisher, one subscriber of some of its buckets, and everything between them. Every datagram
ever sent stays in `sent`, and a socket may bring any of them at any time and any number of times,
or never. The repair connection is a pair of byte streams (`Link`) that can be cut at any point. The
subscriber runs `pump` for ever, call by call; the publisher, its repair server and the network take
their steps between any two calls. -/

namespace MegaFeed
open FeedPublisher Subscriber

/-- The bytes on their way on the repair connection, and whether the server still serves it. -/
structure Link where
  toServer : Bytes := []
  toClient : Bytes := []
  alive : Bool := true

/-- Where in `pump` the subscriber is: the call it makes next. -/
inductive Phase
  | drainUdp (i : Nat)
  | nak (i : Nat)
  | deliver (i : Nat)
deriving DecidableEq

structure World (bucketCount ringSize : Nat) where
  publisher : FeedPublisher bucketCount ringSize
  finished : Bool := false
  /-- Every sequence number given to a message. -/
  assigned : List Assigned := []
  sent : List Packet := []
  link : Option Link := none
  subscriber : Subscriber
  phase : Phase := .drainUdp 0
  clock : UInt64 := 0
  /-- The reading of each bucket's last `nak`. -/
  nakNow : Nat → UInt64 := fun _ => 0
  log : List Event := []

/-- A session: what publisher and subscriber are started with. Bucket ids are distinct and fit the
16 bits they have on the wire. -/
structure Session where
  bucketIds : List Nat
  firstExpected : UInt64
  backfill : UInt64
  lossPercent : Nat
  lossRng : Stream' UInt64
  nodup : bucketIds.Nodup
  addressable : ∀ id ∈ bucketIds, id < 2 ^ 16

namespace World

variable {bucketCount ringSize : Nat}

def init (session : Session) : World bucketCount ringSize where
  publisher := FeedPublisher.init session.lossPercent session.lossRng
  subscriber := Subscriber.init session.bucketIds session.firstExpected session.backfill

def linkAfter (link : Option Link) : Event → Option Link
  | .connect true _ => some {}
  | .bucket id (.requested sequences _) =>
    link.map fun link => { link with toServer := link.toServer ++ requestBytes id sequences }
  | .writeFailed _ | .closed | .resync => none
  | _ => link

def afterCall (world : World bucketCount ringSize) (call : Subscriber.Call) :
    World bucketCount ringSize :=
  let (subscriber, events) := world.subscriber.call call
  { world with subscriber, link := events.foldl linkAfter world.link, log := world.log ++ events }

def consume (world : World bucketCount ringSize) (taken : Nat) : World bucketCount ringSize :=
  { world with
    link := world.link.map fun link => { link with toClient := link.toClient.drop taken } }

variable [NeZero bucketCount] [NeZero ringSize]

def afterPublisher (world : World bucketCount ringSize) (call : FeedPublisher.Call) :
    World bucketCount ringSize :=
  let (publisher, output) := world.publisher.call call
  { world with
    publisher
    finished := world.finished || call = .finish
    assigned := world.assigned ++ output.assigned
    sent := world.sent ++ output.sent }

/-- The repair server serves one request of the connection, if it has received one. -/
def serve (world : World bucketCount ringSize) (link : Link) : World bucketCount ringSize :=
  match world.publisher.serveOneClient link.toServer with
  | .wait => world
  | .close => { world with link := some { link with alive := false } }
  | .reply response rest =>
    { world with
      link := some { link with toServer := rest, toClient := link.toClient ++ response } }

/-- What the publisher may still be asked to do: publish messages (they end in NUL and are no end
markers), and then finish once. -/
def Allows (world : World bucketCount ringSize) (call : FeedPublisher.Call) : Prop :=
  world.finished = false ∧
  (∀ b (h : b < bucketCount), world.publisher.buckets[b].nextSequence + 1 < 2 ^ 64) ∧
  match call with
  | .publish msg => msg.Terminated ∧ msg.type ≠ ascii 'E'
  | .finish => True

/-- The bytes `recv` takes off the connection are the next ones on it. -/
def Receives (world : World bucketCount ringSize) (recvs : List Recv) (taken : Nat) : Prop :=
  ∀ link ∈ world.link, match receive world.subscriber.repairBuffer recvs with
  | some bytes => bytes = world.subscriber.repairBuffer ++ link.toClient.take taken
  | none => True

inductive Step : World bucketCount ringSize → World bucketCount ringSize → Prop
  | publisher {world : World bucketCount ringSize} (call : FeedPublisher.Call)
    (h : world.Allows call) : Step world (world.afterPublisher call)
  | serve {world : World bucketCount ringSize} {link : Link} (h : world.link = some link)
    (halive : link.alive) : Step world (world.serve link)
  /-- The connection breaks: what the server has not read and what is still on its way to the
  subscriber, but for some bytes, is lost. -/
  | cut {world : World bucketCount ringSize} {link : Link} (kept : Nat)
    (h : world.link = some link) :
    Step world { world with link := some { toClient := link.toClient.take kept, alive := false } }
  | drainUdp {world : World bucketCount ringSize} {i : Nat} {bucket : Bucket}
    (arrivals : List Arrival) (hphase : world.phase = .drainUdp i)
    (hbucket : world.subscriber.buckets[i]? = some bucket)
    (hsent : ∀ arrival ∈ arrivals, ⟨bucket.id, arrival.bytes⟩ ∈ world.sent)
    (hclock : (world.clock :: arrivals.map (·.now)).Pairwise (· ≤ ·)) :
    Step world { world.afterCall (.drainUdp i arrivals) with
      phase := .drainUdp (i + 1)
      clock := (arrivals.map (·.now)).getLast?.getD world.clock }
  | drainTcp {world : World bucketCount ringSize} (recvs : List Recv) (taken : Nat)
    (hphase : world.phase = .drainUdp world.subscriber.buckets.length)
    (hreceives : world.Receives recvs taken) :
    Step world { (world.consume taken).afterCall (.drainTcp recvs) with phase := .nak 0 }
  | nak {world : World bucketCount ringSize} {i : Nat} (input : NakInput)
    (hphase : world.phase = .nak i) (hi : i < world.subscriber.buckets.length)
    (hclock : world.clock ≤ input.now) :
    Step world { world.afterCall (.nak i input) with
      phase := .deliver i
      clock := input.now
      nakNow := Function.update world.nakNow i input.now }
  | deliver {world : World bucketCount ringSize} {i : Nat} (hphase : world.phase = .deliver i) :
    Step world { world.afterCall (.deliver i) with phase := .nak (i + 1) }
  /-- `pump` returns and is called again. -/
  | again {world : World bucketCount ringSize}
    (hphase : world.phase = .nak world.subscriber.buckets.length) :
    Step world { world with phase := .drainUdp 0 }

inductive Reachable (session : Session) : World bucketCount ringSize → Prop
  | init : Reachable session (init session)
  | step {world world' : World bucketCount ringSize} (h : Reachable session world)
    (hstep : Step world world') : Reachable session world'

/-- A run from the reading `start` of the clock, newest world first. -/
inductive Run (session : Session) (start : UInt64) : List (World bucketCount ringSize) → Prop
  | init : Run session start [{ init session with clock := start }]
  | step {world world' : World bucketCount ringSize} {earlier : List (World bucketCount ringSize)}
    (h : Run session start (world :: earlier)) (hstep : Step world world') :
    Run session start (world' :: world :: earlier)

omit [NeZero bucketCount] in
/-- In the course of the run the repair server answered a request that names `s` in bucket `id`,
when at least `ringSize` later numbers of the bucket had been assigned. -/
def Lapped (worlds : List (World bucketCount ringSize)) (id s : Nat) : Prop :=
  ∃ (later : List (World bucketCount ringSize)) (world : World bucketCount ringSize)
    (earlier : List (World bucketCount ringSize)) (link : Link) (sequences : List Nat)
    (rest : Bytes),
    worlds = later ++ world.serve link :: world :: earlier ∧
    world.link = some link ∧ link.alive = true ∧
    link.toServer = requestBytes id sequences ++ rest ∧ s ∈ sequences ∧
    ringSize ≤ (world.assigned.filter fun a => a.bucket = id ∧ s < a.sequence).length

end World
end MegaFeed
