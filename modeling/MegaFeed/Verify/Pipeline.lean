import MegaFeed.Spec.Pipeline
import MegaFeed.Verify.Acts
import MegaFeed.Verify.Routing
import MegaFeed.Verify.Gaps

/-! # The pipeline refines the protocol

A `World` leaves open who calls the publisher. Here it is the feed handler, and what it publishes is
what a `World` allows: data messages that end in NUL, and one end marker when it is done. So every
consumer of a pipeline goes through a run of the protocol (`Pipeline.Reachable.world`), whatever the
others do. -/

namespace MegaFeed
open FeedPublisher Subscriber

/-! ## What the decoder puts out -/

/-- A message that may be published: no end marker, and its symbol ends in NUL. -/
def OrderMessage.IsData (msg : OrderMessage) : Prop := msg.Terminated ∧ msg.type ≠ ascii 'E'

namespace DeepPlusDecoder

variable {d d' : DeepPlusDecoder} {event : VenueEvent} {out : List OrderMessage}
  {messages : List Bytes}

/-- The symbols of all tracked orders end in NUL. -/
def Terminated (d : DeepPlusDecoder) : Prop :=
  ∀ (id : UInt64) (order : Order), d.orders[id]? = some order →
    ({ symbol := order.symbol } : OrderMessage).Terminated

theorem terminated_empty : Terminated {} := by
  intro id order h
  simp at h

theorem type_addLevel {levels : Levels} {order : Order} :
    (addLevel levels order delta timestamp).2.type ≠ ascii 'E' := by
  simp only [addLevel]
  cases order.side <;> decide

theorem Decoded.type_ne (D : Decoded d event d' out) : ∀ msg ∈ out, msg.type ≠ ascii 'E' := by
  have htrade : ∀ trade : OrderMessage, trade.type = ascii 'T' → trade.type ≠ ascii 'E' :=
    fun trade h => h ▸ (by decide)
  intro msg hmem
  cases D with
  | add => exact List.mem_singleton.mp hmem ▸ type_addLevel
  | unknown => exact absurd hmem List.not_mem_nil
  | remove => exact List.mem_singleton.mp hmem ▸ type_addLevel
  | resize => exact List.mem_singleton.mp hmem ▸ type_addLevel
  | move size timestamp hsome hne hleft hjoined =>
    subst hleft hjoined
    rcases List.mem_cons.mp hmem with rfl | hmem
    · exact type_addLevel
    · exact List.mem_singleton.mp hmem ▸ type_addLevel
  | execute executed timestamp hsome htype =>
    rcases List.mem_cons.mp hmem with rfl | hmem
    · exact type_addLevel
    · exact List.mem_singleton.mp hmem ▸ htrade _ htype
  | trade htype => exact List.mem_singleton.mp hmem ▸ htrade _ htype
  | ignore => exact absurd hmem List.not_mem_nil

theorem Terminated.decode (T : d.Terminated) (bytes : Bytes) :
    (d.decode bytes).1.Terminated ∧ ∀ msg ∈ (d.decode bytes).2, msg.IsData := by
  have C := decode_copies d bytes
  refine ⟨fun id order h => ?_, fun msg hmem => ⟨?_, (decode_decoded d bytes).type_ne msg hmem⟩⟩
  · by_cases hadd : addedId bytes = some id
    · exact terminated_copySymbol (C.added id order hadd h).2
    · obtain ⟨old, hold, hsymbol⟩ := C.kept id order hadd h
      rw [hsymbol]
      exact T id old hold
  · rcases C.out msg hmem with ⟨id, order, -, hsome, hsymbol⟩ | ⟨-, -, hsymbol⟩
    · have := T id order hsome
      rw [← hsymbol] at this
      exact this
    · exact terminated_copySymbol hsymbol

/-- The updates for some messages, in order. -/
def updates (d : DeepPlusDecoder) : List Bytes → List OrderMessage
  | [] => []
  | bytes :: messages => (d.decode bytes).2 ++ updates (d.decode bytes).1 messages

theorem Terminated.updates (T : d.Terminated) (messages : List Bytes) :
    (d.run messages).Terminated ∧ ∀ msg ∈ d.updates messages, msg.IsData := by
  induction messages generalizing d with
  | nil => exact ⟨T, fun msg hmem => absurd hmem List.not_mem_nil⟩
  | cons bytes messages ih =>
    obtain ⟨hdecoder, hout⟩ := T.decode bytes
    obtain ⟨hrun, hlater⟩ := ih hdecoder
    exact ⟨hrun, fun msg hmem => (List.mem_append.mp hmem).elim (hout msg) (hlater msg)⟩

end DeepPlusDecoder

/-! ## What the feed handler publishes -/

theorem FeedPublisher.run_append {bucketCount ringSize : Nat} [NeZero bucketCount] [NeZero ringSize]
    (publisher : FeedPublisher bucketCount ringSize) (calls calls' : List FeedPublisher.Call) :
    publisher.run (calls ++ calls') = (((publisher.run calls).1.run calls').1,
      (publisher.run calls).2 ++ ((publisher.run calls).1.run calls').2) := by
  induction calls generalizing publisher with
  | nil => rfl
  | cons first calls ih =>
    have hrest := ih (publisher.call first).1
    simp only [List.cons_append, FeedPublisher.run, hrest]
    exact congrArg (Prod.mk _) FeedHandler.output_append_assoc.symm

namespace FeedHandler

variable {bucketCount ringSize : Nat} [NeZero bucketCount] [NeZero ringSize]
  {handler : FeedHandler bucketCount ringSize} {messages : List Bytes}

/-- Handing messages over publishes their updates. -/
theorem handOverAll_eq (handler : FeedHandler bucketCount ringSize) (messages : List Bytes) :
    (handler.handOverAll messages).1.decoder = handler.decoder.run messages ∧
    ((handler.handOverAll messages).1.publisher, (handler.handOverAll messages).2) =
      handler.publisher.run ((handler.decoder.updates messages).map .publish) := by
  induction messages generalizing handler with
  | nil => exact ⟨rfl, rfl⟩
  | cons bytes messages ih =>
    obtain ⟨hdecoder, hpublished⟩ := ih (handler.handOver bytes).1
    obtain ⟨hpublisher, houtput⟩ := Prod.ext_iff.mp hpublished
    simp only at hpublisher houtput
    refine ⟨hdecoder, ?_⟩
    rw [DeepPlusDecoder.updates, List.map_append, FeedPublisher.run_append]
    simp only [handOverAll, hpublisher, houtput]
    rfl

/-- A payload hands some of its messages over, and changes nothing else that is published. -/
theorem onPayload_handsOver (handler : FeedHandler bucketCount ringSize) (payload : Bytes) :
    ∃ messages, (handler.onPayload payload).1.downstream =
      (handler.handOverAll messages).1.downstream ∧
      (handler.onPayload payload).2.published = (handler.handOverAll messages).2 := by
  cases hbearing : bearing payload with
  | none =>
    obtain ⟨hempty, -, -, hdown⟩ := onPayload_other handler hbearing
    exact ⟨[], hdown, by rw [hempty]; rfl⟩
  | some header =>
    have hstart :
        UInt64.ofNat (header.firstSequenceNumber + overlap handler.expected header).toNat =
        header.firstSequenceNumber + overlap handler.expected header := UInt64.ofNat_toNat
    rw [onPayload_eq hbearing, onMessages_eq hstart]
    let counted := { handler with captureGaps := handler.captureGaps + gap handler.expected header }
    have hsame : counted.downstream = handler.downstream := rfl
    obtain ⟨hdownstream, houtput⟩ := handOverAll_congr hsame
      ((messagesOf payload header).drop (overlap handler.expected header).toNat)
    exact ⟨_, hdownstream, houtput⟩

/-- A payload is published as data messages. -/
theorem onPayload_publishes (T : handler.decoder.Terminated) (payload : Bytes) :
    (handler.onPayload payload).1.decoder.Terminated ∧
    ∃ updates : List OrderMessage, (∀ msg ∈ updates, msg.IsData) ∧
      ((handler.onPayload payload).1.publisher, (handler.onPayload payload).2.published) =
        handler.publisher.run (updates.map .publish) := by
  obtain ⟨messages, hdown, hpublished⟩ := onPayload_handsOver handler payload
  obtain ⟨hdecoder, hrun⟩ := handOverAll_eq handler messages
  simp only [downstream, Prod.mk.injEq] at hdown
  obtain ⟨hterminated, hdata⟩ := T.updates messages
  refine ⟨?_, handler.decoder.updates messages, hdata, ?_⟩
  · rw [hdown.1, hdecoder]
    exact hterminated
  · rw [hdown.2.1, hpublished, hrun]

end FeedHandler

/-! ## The world of a consumer -/

namespace World

variable {bucketCount ringSize : Nat} [NeZero bucketCount] [NeZero ringSize] {session : Session}
  {world world' : World bucketCount ringSize}

theorem nextSequence_le_call (publisher : FeedPublisher bucketCount ringSize)
    (call : FeedPublisher.Call)
    {b : Nat} (hb : b < bucketCount) :
    publisher.buckets[b].nextSequence ≤ (publisher.call call).1.buckets[b].nextSequence := by
  rcases call_bucket publisher call hb with ⟨hsame, -⟩ | ⟨hnumbers, -⟩
  · rw [hsame]
  · rw [hnumbers.next]
    exact Nat.le_succ _

theorem nextSequence_le_run (publisher : FeedPublisher bucketCount ringSize)
    (calls : List FeedPublisher.Call) {b : Nat} (hb : b < bucketCount) :
    publisher.buckets[b].nextSequence ≤ (publisher.run calls).1.buckets[b].nextSequence := by
  induction calls generalizing publisher with
  | nil => exact Nat.le_refl _
  | cons first calls ih => exact (nextSequence_le_call publisher first hb).trans (ih _)

/-- The publisher may publish data messages as long as it has numbers for them. -/
theorem Reachable.publishes (h : Reachable session world) (hopen : world.finished = false)
    {updates : List OrderMessage} (hdata : ∀ msg ∈ updates, msg.IsData)
    (hroom : ∀ b (hb : b < bucketCount),
      (world.publisher.run (updates.map .publish)).1.buckets[b].nextSequence + 1 < 2 ^ 64) :
    Reachable session { world with
      publisher := (world.publisher.run (updates.map .publish)).1
      assigned := world.assigned ++ (world.publisher.run (updates.map .publish)).2.assigned
      sent := world.sent ++ (world.publisher.run (updates.map .publish)).2.sent } := by
  induction updates generalizing world with
  | nil => simpa [FeedPublisher.run] using h
  | cons msg updates ih =>
    obtain ⟨hmsg, hupdates⟩ := List.forall_mem_cons.mp hdata
    have hallows : world.Allows (.publish msg) := by
      refine ⟨hopen, fun b hb => ?_, hmsg⟩
      have := nextSequence_le_run world.publisher ((msg :: updates).map .publish) hb
      have := hroom b hb
      omega
    have hnext := @ih (world.afterPublisher (.publish msg)) (h.step (.publisher _ hallows))
      (by simp [afterPublisher, hopen]) hupdates hroom
    simp only [afterPublisher, hopen, Bool.false_or, decide_false, reduceCtorEq,
      List.append_assoc] at hnext
    rw [hopen]
    exact hnext

/-- A step that assigns nothing is not one of the publisher, and leaves it alone. -/
theorem Step.publisher_eq (h : Step world world') (hassigned : world'.assigned = world.assigned) :
    world'.publisher = world.publisher ∧ world'.finished = world.finished ∧
    world'.sent = world.sent := by
  cases h with
  | publisher call hallows =>
    have hnew : (world.publisher.call call).2.assigned = [] :=
      List.append_right_eq_self.mp hassigned
    cases call with
    | publish msg => cases hnew
    | finish =>
      have hlength := congrArg List.length hnew
      simp [FeedPublisher.call, FeedPublisher.finish, NeZero.ne] at hlength
  | serve hlink halive =>
    simp only [World.serve]
    split <;> exact ⟨rfl, rfl, rfl⟩
  | cut | drainUdp | drainTcp | nak | deliver | again => exact ⟨rfl, rfl, rfl⟩

/-- A step in which nothing is published. -/
def Quiet (world world' : World bucketCount ringSize) : Prop :=
  Step world world' ∧ world'.assigned = world.assigned

end World

namespace Pipeline

variable {bucketCount ringSize count : Nat} [NeZero bucketCount] [NeZero ringSize]
  {setup : Setup count}
  {pipeline pipeline' : Pipeline bucketCount ringSize count}

/-- Every order that the feed handler tracks has a symbol that ends in NUL. -/
theorem Reachable.terminated (h : Reachable setup pipeline) :
    pipeline.handler.decoder.Terminated := by
  induction h with
  | init => exact DeepPlusDecoder.terminated_empty
  | step _ hstep ih =>
    cases hstep with
    | replay _ => exact ih
    | receive _ _ _ => exact (FeedHandler.onPayload_publishes ih _).1
    | finish _ _ => exact ih
    | consumer _ _ => exact ih

/-- **The pipeline refines the protocol.** What is between the publisher and a consumer is a
reachable world of that consumer's session, whatever packets the venue sends, whatever becomes of
them on the way to the feed handler, and whatever the other consumers do. -/
theorem Reachable.world (h : Reachable setup pipeline) (i : Fin count) :
    World.Reachable (setup.session i) (pipeline.world i) := by
  induction h with
  | init =>
    have hsame : (Pipeline.init setup : Pipeline bucketCount ringSize count).world i =
        World.init (setup.session i) := by
      simp only [Pipeline.init, Pipeline.world, World.init, (setup.publisher i).1,
        (setup.publisher i).2]
    rw [hsame]
    exact .init
  | @step pipeline _ hreach hstep ih =>
    cases hstep with
    | replay _ => exact ih
    | @receive packet _ hopen hroom =>
      obtain ⟨-, updates, hdata, heq⟩ :=
        FeedHandler.onPayload_publishes hreach.terminated (packet.take FeedHandler.BUFFER_SIZE)
      obtain ⟨hpublisher, hpublished⟩ := Prod.ext_iff.mp heq
      simp only at hpublisher hpublished
      simp only [Room, afterPayload, hpublisher] at hroom
      have hnext := ih.publishes hopen hdata hroom
      simp only [Pipeline.world, afterPayload, hpublisher, hpublished]
      exact hnext
    | finish hopen hroom =>
      have hnext := ih.step (.publisher .finish ⟨hopen, hroom, trivial⟩)
      simp only [World.afterPublisher, decide_true, Bool.or_true] at hnext
      exact hnext
    | @consumer j world' hstep hown =>
      obtain ⟨hpublisher, hfinished, hsent⟩ := hstep.publisher_eq hown
      by_cases hj : i = j
      · subst hj
        have hsame : (pipeline.withConsumer i world').world i = world' := by
          simp only [withConsumer, Pipeline.world,
            Function.update_self] at hpublisher hfinished hsent ⊢
          rw [← hpublisher, ← hfinished, ← hsent, ← hown]
        rw [hsame]
        exact ih.step hstep
      · have hsame : (pipeline.withConsumer j world').world i = pipeline.world i := by
          simp only [withConsumer, Pipeline.world, Function.update_of_ne hj]
        rw [hsame]
        exact ih

/-- A consumer may go on alone. -/
theorem Reachable.quietly (h : Reachable setup pipeline) {i : Fin count}
    {world : World bucketCount ringSize}
    (hquiet : Relation.ReflTransGen World.Quiet (pipeline.world i) world) :
    Reachable setup (pipeline.withConsumer i world) := by
  suffices Reachable setup (pipeline.withConsumer i world) ∧
    (pipeline.withConsumer i world).world i = world from
    this.1
  induction hquiet with
  | refl =>
    have hsame : pipeline.withConsumer i (pipeline.world i) = pipeline := by
      simp only [withConsumer, Pipeline.world, Function.update_eq_self]
    rw [hsame]
    exact ⟨h, rfl⟩
  | @tail before after _ hstep ih =>
    obtain ⟨hreach, hworld⟩ := ih
    obtain ⟨hpublisher, hfinished, hsent⟩ := hstep.1.publisher_eq hstep.2
    have hagain : (pipeline.withConsumer i before).withConsumer i after =
        pipeline.withConsumer i after := by
      simp only [withConsumer, Function.update_idem]
    have hown : after.assigned = (pipeline.withConsumer i before).assigned := by
      rw [hstep.2, ← hworld]
      rfl
    refine ⟨hagain ▸ hreach.step (.consumer (by rw [hworld]; exact hstep.1) hown), ?_⟩
    rw [← hworld] at hpublisher hfinished hsent
    simp only [withConsumer, Pipeline.world,
      Function.update_self] at hpublisher hfinished hsent hown ⊢
    rw [← hpublisher, ← hfinished, ← hsent, ← hown]

end Pipeline

/-! ## A session

An Add and a Modify of its order, each in a packet of its own. The first consumer expects
everything; the second one joins live, when the update for the Add is over. -/

namespace World

variable {bucketCount ringSize : Nat}

theorem ids_afterCall (world : World bucketCount ringSize) (call : Subscriber.Call) :
    (world.afterCall call).subscriber.buckets.map (·.id) = world.subscriber.buckets.map (·.id) :=
  (call_acted world.subscriber call).ids

theorem one_bucket {buckets : List Subscriber.Bucket} (h : buckets.map (·.id) = [0]) :
    ∃ bucket, buckets = [bucket] ∧ bucket.id = 0 := List.map_eq_singleton_iff.mp h

theorem quiet_latePump {world : World 1 1} {packet : Packet} (now : UInt64)
    (hids : world.subscriber.buckets.map (·.id) = [0]) (hphase : world.phase = .drainUdp 0)
    (hpacket : packet ∈ world.sent) (hdestination : packet.destination = 0)
    (hclock : world.clock ≤ now)
    (hlater : now ≤ now + 10000000) :
    Relation.ReflTransGen Quiet world (latePump world packet now) := by
  obtain ⟨bucket, hbuckets, hid⟩ := one_bucket hids
  let drained : World 1 1 := { world.afterCall (.drainUdp 0 [⟨packet.bytes, now⟩]) with
    phase := .drainUdp 1, clock := now }
  have hdrained : Step world drained := .drainUdp [⟨packet.bytes, now⟩] hphase
    (by rw [hbuckets]; rfl)
    (List.forall_mem_singleton.mpr (by rwa [hid, ← hdestination])) (List.pairwise_pair.mpr hclock)
  have hids' : drained.subscriber.buckets.map (·.id) = [0] :=
    (ids_afterCall world (.drainUdp 0 [⟨packet.bytes, now⟩])).trans hids
  obtain ⟨bucket', hbuckets', -⟩ := one_bucket hids'
  let read : World 1 1 := { (drained.consume 0).afterCall (.drainTcp []) with phase := .nak 0 }
  have hread : Step drained read := .drainTcp [] 0 (by rw [hbuckets']; rfl)
    fun link _ => (List.append_nil _).symm
  have hids'' : read.subscriber.buckets.map (·.id) = [0] :=
    (ids_afterCall (drained.consume 0) (.drainTcp [])).trans hids'
  obtain ⟨bucket'', hbuckets'', -⟩ := one_bucket hids''
  let asked : World 1 1 := { read.afterCall (.nak 0 ⟨now + 10000000, true, true⟩) with
    phase := .deliver 0, clock := now + 10000000, nakNow :=
      Function.update read.nakNow 0 (now + 10000000) }
  have hasked : Step read asked := .nak ⟨now + 10000000, true, true⟩ rfl
    (congrArg List.length hbuckets'').ge hlater
  have hdelivered : Step asked (latePump world packet now) := .deliver rfl
  exact (((Relation.ReflTransGen.single ⟨hdrained, rfl⟩).tail ⟨hread, rfl⟩).tail ⟨hasked, rfl⟩).tail
    ⟨hdelivered, rfl⟩

theorem ids_latePump (world : World 1 1) (packet : Packet) (now : UInt64) :
    (latePump world packet now).subscriber.buckets.map (·.id) =
      world.subscriber.buckets.map (·.id) := by
  let drained := world.afterCall (.drainUdp 0 [⟨packet.bytes, now⟩])
  let read := (drained.consume 0).afterCall (.drainTcp [])
  let asked := read.afterCall (.nak 0 ⟨now + 10000000, true, true⟩)
  calc (latePump world packet now).subscriber.buckets.map (·.id)
      = asked.subscriber.buckets.map (·.id) := ids_afterCall asked (.deliver 0)
    _ = read.subscriber.buckets.map (·.id) :=
      ids_afterCall read (.nak 0 ⟨now + 10000000, true, true⟩)
    _ = drained.subscriber.buckets.map (·.id) := ids_afterCall (drained.consume 0) (.drainTcp [])
    _ = world.subscriber.buckets.map (·.id) :=
      ids_afterCall world (.drainUdp 0 [⟨packet.bytes, now⟩])

end World

namespace Pipeline

theorem neZero_one : NeZero 1 := ⟨Nat.one_ne_zero⟩

/-- The venue adds an order. -/
def openPacket : Bytes := FeedHandler.packetBytes 40 1 1 (framed (addBytes 0x38 7 100 5000))

/-- It leaves 60 of the order's 100 shares. -/
def changePacket : Bytes := FeedHandler.packetBytes 40 1 2 (framed (modifyBytes 7 60 5000))

/-- A consumer of the one bucket. -/
def openSession (firstExpected : UInt64) : Session := { World.lateSession with firstExpected }

/-- One consumer starts with message 1, the other joins live. -/
def openSetup : Setup 2 where
  capture := [openPacket, changePacket]
  lossPercent := 0
  lossRng := Stream'.const 0
  session i := openSession (if i = 0 then 1 else 0)
  publisher _ := ⟨rfl, rfl⟩

/-- What is published for the Add. -/
def openUpdate : OrderMessage where
  type := ascii 'B'
  symbol := #v[0x5a, 0, 0, 0, 0, 0, 0, 0, 0]
  price := 5000
  size := 100

/-- What is published for the Modify. -/
def changeUpdate : OrderMessage := { openUpdate with size := 60 }

section
attribute [local instance] neZero_one

/-- Both updates have been published, and the end marker. -/
def openFed : Pipeline 1 1 2 :=
  (({ Pipeline.init openSetup with replayed := 2 }.afterPayload
    (openPacket.take FeedHandler.BUFFER_SIZE)).afterPayload
    (changePacket.take FeedHandler.BUFFER_SIZE)).afterFinish

end

/-- A datagram of the one bucket arrives at a consumer. -/
def openPumped (pipeline : Pipeline 1 1 2) (i : Fin 2) (sequence : Nat) (msg : OrderMessage)
    (now : UInt64) : Pipeline 1 1 2 :=
  pipeline.withConsumer i
    (World.latePump { pipeline.world i with phase := .drainUdp 0 }
      (packet 0 sequence (encodePayload msg)) now)

/-- Both consumers have been handed everything from their starts on. -/
def openDone : Pipeline 1 1 2 :=
  let first := ((openFed.openPumped 0 1 openUpdate 0).openPumped 0 2 changeUpdate
    20000000).openPumped 0 3
    endMessage 40000000
  (first.openPumped 1 2 changeUpdate 20000000).openPumped 1 3 endMessage 40000000

theorem reachable_openFed : Reachable openSetup openFed := by
  have hreplayed :
      Reachable openSetup ({ Pipeline.init openSetup with replayed := 2 } : Pipeline 1 1 2) :=
    .step (.step .init (.replay (Nat.zero_lt_succ 1))) (.replay (Nat.one_lt_succ_succ 0))
  have hreceived := (hreplayed.step (.receive (.head _) rfl (by unfold Room; decide))).step
    (.receive (.tail _ (.head _)) rfl (by unfold Room; decide))
  exact hreceived.step (.finish rfl (by unfold Room; decide))

theorem Reachable.openPumped {pipeline : Pipeline 1 1 2}
    (h : Reachable openSetup pipeline) {i : Fin 2}
    {sequence : Nat} {msg : OrderMessage} (now : UInt64)
    (hsent : packet 0 sequence (encodePayload msg) ∈ pipeline.sent)
    (hids : (pipeline.consumers i).subscriber.buckets.map (·.id) = [0])
    (hphase : (pipeline.consumers i).phase = .drainUdp 0 ∨ (pipeline.consumers i).phase = .nak 1)
    (hclock : (pipeline.consumers i).clock ≤ now) (hlater : now ≤ now + 10000000) :
    Reachable openSetup (pipeline.openPumped i sequence msg now) := by
  have hready : Relation.ReflTransGen World.Quiet (pipeline.world i)
      { pipeline.world i with phase := .drainUdp 0 } := by
    rcases hphase with hphase | hphase
    · have hsame : pipeline.world i = { pipeline.world i with phase := .drainUdp 0 } :=
        congrArg (fun phase => { pipeline.world i with phase }) hphase
      rw [← hsame]
    · obtain ⟨bucket, hbuckets, -⟩ := World.one_bucket hids
      have hlast : (pipeline.world i).phase = .nak (pipeline.world i).subscriber.buckets.length :=
        hphase.trans (congrArg (fun buckets => Phase.nak buckets.length) hbuckets).symm
      exact .single ⟨.again hlast, rfl⟩
  exact h.quietly (hready.trans (World.quiet_latePump now hids rfl hsent rfl hclock hlater))

theorem reachable_openDone : Reachable openSetup openDone := by
  have hopen : packet 0 1 (encodePayload openUpdate) ∈ openFed.sent := .head _
  have hchange : packet 0 2 (encodePayload changeUpdate) ∈ openFed.sent := .tail _ (.head _)
  have hend : packet 0 3 (encodePayload endMessage) ∈ openFed.sent := .tail _ (.tail _ (.head _))
  have h := reachable_openFed.openPumped (i := 0) 0 hopen rfl (.inl rfl) (by decide) (by decide)
  have h := h.openPumped (i := 0) 20000000 hchange rfl (.inr rfl) (by decide) (by decide)
  have h := h.openPumped (i := 0) 40000000 hend rfl (.inr rfl) (by decide) (by decide)
  have h := h.openPumped (i := 1) 20000000 hchange rfl (.inl rfl) (by decide) (by decide)
  exact h.openPumped (i := 1) 40000000 hend rfl (.inr rfl) (by decide) (by decide)

/-- The bucket of a consumer. -/
def openBucket (i : Fin 2) : Subscriber.Bucket :=
  (openDone.consumers i).subscriber.buckets[0]?.getD { id := 0 }

theorem openBucket_mem (i : Fin 2) : openBucket i ∈ (openDone.consumers i).subscriber.buckets := by
  have hsome : ∀ i : Fin 2, (openDone.consumers i).subscriber.buckets[0]?.isSome = true := by
    decide +kernel
  exact List.mem_of_getElem?
    (Option.getD_of_ne_none (Option.isSome_iff_ne_none.mp (hsome i)) _).symm

end Pipeline
end MegaFeed
