import MegaFeed.Verify.Buckets
import MegaFeed.Verify.Nak

/-! # The invariant of a session

`World.Inv` holds of every reachable world (`World.Reachable.inv`): the publisher keeps its records,
every subscriber bucket its invariant, and the repair connection carries nothing but the
subscriber's requests one way and genuine answers the other, however it has been cut up. -/

namespace MegaFeed
open FeedPublisher Subscriber Framing

variable {bucketCount ringSize : Nat} {assigned : List Assigned} {log events : List Event}
  {buffer : Bytes} {link : Link}

/-! ## The repair connection -/

/-- A request the subscriber has completely written. -/
structure Requested (log : List Event) (id : Nat) (sequences : List Nat) : Prop where
  fits : id < 2 ^ 16
  pos : 1 ≤ sequences.length
  batch : sequences.length ≤ MAX_REPAIR_BATCH
  asked : ∀ s ∈ sequences, Asked (history id log) s ∧ s < 2 ^ 64

theorem Requested.mono {id : Nat} {sequences : List Nat} (R : Requested log id sequences)
    (events : List Event) : Requested (log ++ events) id sequences :=
  { R with
    asked := fun s hs => (R.asked s hs).imp_left fun h => by
      rw [history_append]
      exact asked_append.mpr (.inl h) }

/-- A connection with only requests on it to the server, as long as that reads them, and only
genuine answers to the client; `buffer` is what the client has taken off already. -/
structure Link.Honest (assigned : List Assigned) (log : List Event) (buffer : Bytes) (link : Link) :
    Prop where
  requests : link.alive = true → ∃ requests : List (Nat × List Nat),
    link.toServer = requests.flatMap (fun request => requestBytes request.1 request.2) ∧
    ∀ request ∈ requests, Requested log request.1 request.2
  answers : ∃ replies : List Answer, (∀ reply ∈ replies, reply.Genuine assigned log) ∧
    buffer ++ link.toClient <+: replies.flatMap Answer.bytes ∧
    (link.alive = true → buffer ++ link.toClient = replies.flatMap Answer.bytes)

theorem Link.honest_new : Link.Honest assigned log [] {} where
  requests _ := ⟨[], rfl, nofun⟩
  answers := ⟨[], nofun, List.prefix_rfl, fun _ => rfl⟩

theorem Link.Honest.mono (L : link.Honest assigned log buffer) (new : List Assigned)
    (events : List Event) : link.Honest (assigned ++ new) (log ++ events) buffer where
  requests halive := by
    obtain ⟨requests, heq, hall⟩ := L.requests halive
    exact ⟨requests, heq, fun request hmem => (hall request hmem).mono events⟩
  answers := by
    obtain ⟨replies, hall, hfront, heq⟩ := L.answers
    exact ⟨replies, fun reply hmem => (hall reply hmem).mono new events, hfront, heq⟩

/-- One more request. -/
theorem Link.Honest.request (L : link.Honest assigned log buffer) {id : Nat} {sequences : List Nat}
    (R : Requested log id sequences) :
    Link.Honest assigned log buffer
      { link with toServer := link.toServer ++ requestBytes id sequences } where
  requests halive := by
    obtain ⟨requests, heq, hall⟩ := L.requests halive
    refine ⟨requests ++ [(id, sequences)], ?_, ?_⟩
    · rw [List.flatMap_append, ← heq]
      simp
    · intro request hmem
      rcases List.mem_append.mp hmem with hmem | hmem
      · exact hall request hmem
      · rw [List.mem_singleton.mp hmem]
        exact R
  answers := L.answers

/-- Only answers with `P` are on their way to the client, who has taken `buffer` off already. -/
def Link.Brings (P : Answer → Prop) (buffer : Bytes) (link : Link) : Prop :=
  ∃ replies : List Answer, (∀ reply ∈ replies, P reply) ∧
    buffer ++ link.toClient <+: replies.flatMap Answer.bytes ∧
    (link.alive = true → buffer ++ link.toClient = replies.flatMap Answer.bytes)

theorem Link.Brings.mono {P Q : Answer → Prop} (B : link.Brings P buffer)
    (h : ∀ reply, P reply → Q reply) :
    link.Brings Q buffer := by
  obtain ⟨replies, hall, hbytes⟩ := B
  exact ⟨replies, fun reply hmem => h reply (hall reply hmem), hbytes⟩

/-- The connection breaks. -/
theorem Link.Brings.cut {P : Answer → Prop} (B : link.Brings P buffer) (kept : Nat) :
    Link.Brings P buffer { toClient := link.toClient.take kept, alive := false } := by
  obtain ⟨replies, hall, hfront, -⟩ := B
  refine ⟨replies, hall, .trans ?_ hfront, nofun⟩
  exact (List.prefix_append_right_inj buffer).mpr (List.take_prefix kept link.toClient)

/-- The server answers. -/
theorem Link.Brings.answer {P : Answer → Prop} (B : link.Brings P buffer)
    (halive : link.alive = true)
    {replies : List Answer} (h : ∀ reply ∈ replies, P reply) (rest : Bytes) :
    Link.Brings P buffer
      { link with toServer := rest, toClient := link.toClient ++
        replies.flatMap Answer.bytes } := by
  obtain ⟨earlier, hearlier, -, hwhole⟩ := B
  have hnow : buffer ++ (link.toClient ++ replies.flatMap Answer.bytes) =
      (earlier ++ replies).flatMap Answer.bytes := by
    rw [← List.append_assoc, hwhole halive, List.flatMap_append]
  refine ⟨earlier ++ replies, fun reply hmem => ?_, hnow ▸ List.prefix_rfl, fun _ => hnow⟩
  exact (List.mem_append.mp hmem).elim (hearlier reply) (h reply)

theorem Link.Honest.cut (L : link.Honest assigned log buffer) (kept : Nat) :
    Link.Honest assigned log buffer { toClient := link.toClient.take kept, alive := false } where
  requests := nofun
  answers := Link.Brings.cut L.answers kept

/-- The client takes bytes off the connection: whole answers, and the front of one that is still to
come. -/
theorem Link.Brings.receive {P : Answer → Prop} (B : link.Brings P buffer) (taken : Nat) :
    ∃ (replies : List Answer) (tail : Bytes),
      buffer ++ link.toClient.take taken = replies.flatMap Answer.bytes ++ tail ∧
      (∀ reply ∈ replies, P reply) ∧ ¬repairFormat.Ready tail ∧
      Link.Brings P tail { link with toClient := link.toClient.drop taken } := by
  obtain ⟨replies, hall, hfront, heq⟩ := B
  have hbytes : buffer ++ link.toClient =
      (buffer ++ link.toClient.take taken) ++ link.toClient.drop taken := by
    rw [List.append_assoc, List.take_append_drop]
  rw [hbytes] at hfront
  obtain ⟨first, later, tail, hsplit, htail, rfl, hlater⟩ := answers_split hfront
  refine ⟨first, tail, hsplit, fun reply hmem => hall reply (List.mem_append_left _ hmem), htail,
    later, fun reply hmem => hall reply (List.mem_append_right _ hmem), hlater, ?_⟩
  intro halive
  have hwhole := heq halive
  rw [hbytes, hsplit, List.flatMap_append, List.append_assoc] at hwhole
  exact List.append_cancel_left hwhole

theorem Link.Honest.receive (L : link.Honest assigned log buffer) (taken : Nat) :
    ∃ (replies : List Answer) (tail : Bytes),
      buffer ++ link.toClient.take taken = replies.flatMap Answer.bytes ++ tail ∧
      (∀ reply ∈ replies, reply.Genuine assigned log) ∧ ¬repairFormat.Ready tail ∧
      Link.Honest assigned log tail { link with toClient := link.toClient.drop taken } := by
  obtain ⟨replies, tail, hsplit, hgenuine, htail, B⟩ := Link.Brings.receive L.answers taken
  exact ⟨replies, tail, hsplit, hgenuine, htail, L.requests, B⟩

/-! ## The invariant -/

/-- The backfill a subscriber keeps. -/
def Session.rewind (session : Session) : Nat :=
  if session.firstExpected ≠ 0 then 0 else session.backfill.toNat

theorem start_rewind {session : Session} {history : List BucketEvent} :
    start session.firstExpected.toNat session.rewind history =
      start session.firstExpected.toNat session.backfill.toNat history := by
  unfold start Session.rewind
  split
  · rfl
  · next hzero =>
    rw [if_neg fun hne => hne (UInt64.toNat_inj.mp (Nat.eq_zero_of_not_pos hzero))]

/-- The subscriber's side of the repair connection. -/
def Connected (assigned : List Assigned) (log : List Event) (subscriber : Subscriber) :
    Option Link → Prop
  | none => subscriber.repairOpen = false ∧ subscriber.repairBuffer = []
  | some link => subscriber.repairOpen = true ∧ link.Honest assigned log subscriber.repairBuffer

theorem Connected.mono {subscriber : Subscriber} {link : Option Link}
    (C : Connected assigned log subscriber link) (new : List Assigned) (events : List Event) :
    Connected (assigned ++ new) (log ++ events) subscriber link := by
  cases link with
  | none => exact C
  | some link => exact ⟨C.1, C.2.mono new events⟩

variable {subscriber subscriber' : Subscriber} {bucket bucket' : Bucket} {input : NakInput}

/-- A request that was written is on the connection. -/
theorem Subscriber.Asks.connected (h : Asks subscriber bucket input (subscriber', bucket', events))
    {link : Option Link} (C : Connected assigned log subscriber link) (hid : bucket.id < 2 ^ 16)
    (hbounded : ∀ s ∈ bucket.holes, s < 2 ^ 64) :
    Connected assigned (log ++ events) subscriber' (events.foldl World.linkAfter link) := by
  have C' := C.mono [] events
  rw [List.append_nil] at C'
  cases h with
  | waits => exact C'
  | refused => cases link <;> exact C'
  | failed =>
    rw [List.foldl_append]
    exact ⟨rfl, rfl⟩
  | written sequences hready hdue hpos =>
    have hbatch : sequences.length ≤ MAX_REPAIR_BATCH := hdue ▸ Bucket.length_toRequest
    have hholes : ∀ s ∈ sequences, s ∈ bucket.holes := fun s hs => Bucket.mem_toRequest (hdue ▸ hs)
    have R : Requested (log ++ (Subscriber.connected subscriber input ++
        [.bucket bucket.id (.requested sequences input.now)])) bucket.id sequences := by
      refine ⟨hid, hpos, hbatch, fun s hs => ⟨?_, hbounded s (hholes s hs)⟩⟩
      refine ⟨sequences, input.now, ?_, hs⟩
      rw [history_append, history_append]
      refine List.mem_append_right _ (List.mem_append_right _ ?_)
      rw [history_same]
      exact List.mem_singleton_self _
    rw [List.foldl_append]
    cases hlink : link with
    | none =>
      rw [hlink] at C'
      have hconnected : Subscriber.connected subscriber input = [.connect true input.now] := by
        rw [Subscriber.connected, C'.1]
        rfl
      rw [hconnected] at R ⊢
      refine ⟨rfl, ?_⟩
      rw [C'.2]
      exact Link.honest_new.request R
    | some link =>
      rw [hlink] at C'
      have hconnected : Subscriber.connected subscriber input = [] := by
        rw [Subscriber.connected, C'.1]
        rfl
      rw [hconnected] at R C' ⊢
      exact ⟨rfl, C'.2.request R⟩

theorem Connected.withBuckets {subscriber : Subscriber} {link : Option Link}
    (C : Connected assigned log subscriber link) (buckets : List Bucket) :
    Connected assigned log { subscriber with buckets } link := by
  cases link <;> exact C

namespace World

variable {session : Session} {world : World bucketCount ringSize}

structure Inv (session : Session) (world : World bucketCount ringSize) : Prop where
  published : Published world.publisher world.finished world.assigned world.sent
  ids : world.subscriber.buckets.map (·.id) = session.bucketIds
  backfill : world.subscriber.backfill = session.rewind
  tended : Tended session.firstExpected.toNat session.rewind world.assigned world.log
    world.subscriber.buckets
  connected : Connected world.assigned world.log world.subscriber world.link

/-- Events that do not touch the connection. -/
theorem foldl_linkAfter_eq {link : Option Link} {events : List Event}
    (h : ∀ event ∈ events, ∀ link, linkAfter link event = link) :
    events.foldl linkAfter link = link := by
  induction events with
  | nil => rfl
  | cons event events ih =>
    obtain ⟨hevent, hevents⟩ := List.forall_mem_cons.mp h
    rw [List.foldl_cons, hevent, ih hevents]

theorem foldl_linkAfter_silent {link : Option Link} {events : List Event}
    (h : ∀ event ∈ events, event.Silent) : events.foldl linkAfter link = link := by
  refine foldl_linkAfter_eq fun event hmem link => ?_
  match event, h event hmem with
  | .bucket _ (.arrived _), _ | .bucket _ (.noticed _ _), _ | .bucket _ (.frame _ _), _
  | .bucket _ (.delivered _ _), _ | .bucket _ (.unrecoverable _), _ | .bucket _ (.ended _), _ => rfl

theorem foldl_linkAfter_expired {link : Option Link} {bucket : Bucket} {now giveup : UInt64} :
    ((bucket.expire now giveup).2.map (Event.bucket bucket.id)).foldl linkAfter link = link := by
  refine foldl_linkAfter_eq fun event hmem link => ?_
  obtain ⟨_, hgiven, rfl⟩ := List.mem_map.mp hmem
  obtain ⟨_, -, rfl⟩ := List.mem_map.mp hgiven
  rfl

/-- The subscriber moves its buckets, and nothing else that the invariant speaks of. -/
theorem Inv.moved (I : Inv session world) {buckets : List Bucket} {events : List Event}
    (M : Moved session.firstExpected.toNat session.rewind world.assigned world.log
      world.subscriber.buckets (buckets, events)) {subscriber : Subscriber}
    (hbuckets : subscriber.buckets = buckets)
    (hbackfill : subscriber.backfill = world.subscriber.backfill)
    (hopen : subscriber.repairOpen = world.subscriber.repairOpen)
    (hbuffer : subscriber.repairBuffer = world.subscriber.repairBuffer) :
    Inv session { world with
      subscriber, link := events.foldl linkAfter world.link, log := world.log ++ events } where
  published := I.published
  ids := by
    rw [hbuckets]
    exact M.ids.trans I.ids
  backfill := hbackfill.trans I.backfill
  tended := hbuckets ▸ M.tended
  connected := by
    rw [foldl_linkAfter_silent M.silent]
    have C := I.connected.mono [] events
    rw [List.append_nil] at C
    dsimp only
    cases hlink : world.link with
    | none =>
      rw [hlink] at C
      exact ⟨hopen.trans C.1, hbuffer.trans C.2⟩
    | some link =>
      rw [hlink] at C
      exact ⟨hopen.trans C.1, hbuffer ▸ C.2⟩

theorem Inv.drainUdp (I : Inv session world) {i : Nat} {bucket : Bucket} {arrivals : List Arrival}
    (hbucket : world.subscriber.buckets[i]? = some bucket)
    (hsent : ∀ arrival ∈ arrivals, ⟨bucket.id, arrival.bytes⟩ ∈ world.sent) :
    Inv session (world.afterCall (.drainUdp i arrivals)) := by
  have F := (I.tended.kept bucket (List.mem_of_getElem? hbucket)).follows_drainUdp I.published hsent
  have M := I.tended.moved_set hbucket F
  simp only [afterCall, Subscriber.call, atBucket, hbucket, I.backfill]
  exact I.moved M rfl I.backfill.symm rfl rfl

theorem Inv.deliver (I : Inv session world) (i : Nat) :
    Inv session (world.afterCall (.deliver i)) := by
  simp only [afterCall, Subscriber.call, atBucket]
  split
  · exact I.moved I.tended.moved_nil rfl rfl rfl rfl
  · next bucket hbucket =>
    have K := I.tended.kept bucket (List.mem_of_getElem? hbucket)
    exact I.moved (I.tended.moved_set hbucket K.follows_deliver) rfl rfl rfl rfl

/-! ## The repair stream -/

theorem Inv.drainTcp (I : Inv session world) {recvs : List Recv} {taken : Nat}
    (h : world.Receives recvs taken) :
    Inv session ((world.consume taken).afterCall (.drainTcp recvs)) := by
  have C := I.connected
  cases hlink : world.link with
  | none =>
    rw [hlink] at C
    simp only [afterCall, consume, Subscriber.call, C.1, hlink, Option.map_none]
    exact ⟨I.published, I.ids, I.backfill, (I.moved I.tended.moved_nil rfl rfl rfl rfl).tended, C⟩
  | some link =>
    rw [hlink] at C
    have hbytes := h link hlink
    simp only [afterCall, consume, Subscriber.call, C.1, if_true, hlink, Option.map_some,
      Subscriber.drainTcp]
    cases hreceive : receive world.subscriber.repairBuffer recvs with
    | none =>
      refine ⟨I.published, I.ids, I.backfill, ⟨I.tended.nodup, fun bucket hmem => ?_⟩, rfl, rfl⟩
      have hnone : history bucket.id [Event.closed] = [] := rfl
      rw [history_append, hnone, List.append_nil]
      exact I.tended.kept bucket hmem
    | some bytes =>
      rw [hreceive] at hbytes
      obtain ⟨replies, tail, hsplit, hgenuine, htail, L⟩ := C.2.receive taken
      have hfuel : (replies.flatMap Answer.bytes ++ tail).length ≤ bytes.length := by
        rw [hbytes, hsplit]
      have M := I.tended.moved_onAnswers hgenuine
      have hloop := frameLoop_answers world.subscriber.buckets
        (fun reply hmem => (hgenuine reply hmem).valid) htail hfuel
      rw [← hsplit, ← hbytes] at hloop
      simp only [hloop]
      refine ⟨I.published, M.ids.trans I.ids, I.backfill, M.tended, ?_⟩
      rw [foldl_linkAfter_silent M.silent]
      have L' := L.mono [] (onAnswers world.subscriber.buckets replies).2
      rw [List.append_nil] at L'
      exact ⟨rfl, L'⟩

theorem Inv.nak (I : Inv session world) {i : Nat} {input : NakInput} :
    Inv session (world.afterCall (.nak i input)) := by
  simp only [afterCall, Subscriber.call]
  split
  · exact I.moved I.tended.moved_nil rfl rfl rfl rfl
  · next bucket hbucket =>
    have hmem := List.mem_of_getElem? hbucket
    have K := I.tended.kept bucket hmem
    rcases nak_cases world.subscriber bucket input with
      ⟨-, heq⟩ | ⟨hholes, subscriber', bucket', events, hasks, heq⟩
    · simp only [heq]
      exact I.moved (I.tended.moved_set hbucket K.follows_nothing) rfl rfl rfl rfl
    · simp only [heq]
      have hid : bucket.id < 2 ^ 16 := by
        refine session.addressable _ ?_
        rw [← I.ids]
        exact List.mem_map_of_mem hmem
      have K' := K.expire input.now world.subscriber.giveupNs hholes
      have hlink := @foldl_linkAfter_expired world.link bucket input.now world.subscriber.giveupNs
      generalize (bucket.expire input.now world.subscriber.giveupNs).2 = expired at K' hlink ⊢
      have hown : history bucket.id (expired.map (Event.bucket bucket.id) ++ events) =
          expired ++ history bucket.id events := by rw [history_append, history_map_same]
      have T : Tended session.firstExpected.toNat session.rewind world.assigned
          (world.log ++ (expired.map (Event.bucket bucket.id) ++ events))
          (world.subscriber.buckets.set i bucket') := by
        refine I.tended.set hbucket hasks.id_eq (fun id hne => ?_) ?_
        · rw [history_append, history_map_other hne.symm, hasks.history_other hne]
          rfl
        · rw [hown, ← List.append_assoc]
          exact hasks.kept K'
      have C : Connected world.assigned
          (world.log ++ (expired.map (Event.bucket bucket.id) ++ events)) subscriber'
          ((expired.map (Event.bucket bucket.id) ++ events).foldl linkAfter world.link) := by
        have C' := I.connected.mono [] (expired.map (Event.bucket bucket.id))
        rw [List.append_nil] at C'
        rw [List.foldl_append, hlink, ← List.append_assoc]
        refine hasks.connected C' hid fun s hs => ?_
        obtain ⟨S, -, H⟩ := K'.running fun hidle => by simp [hidle.holes] at hs
        have := (H.holes s hs).2.1
        have := H.bounded
        omega
      obtain ⟨hbuckets, hbackfill, -⟩ := hasks.subscriber_eq
      rw [hbuckets]
      exact ⟨I.published, (map_id_set hbucket hasks.id_eq).trans I.ids,
        hbackfill.trans I.backfill, T, C.withBuckets _⟩

/-! ## Every step -/

variable [NeZero bucketCount] [NeZero ringSize]

theorem Inv.publisher (I : Inv session world) {call : FeedPublisher.Call} (h : world.Allows call) :
    Inv session (world.afterPublisher call) := by
  obtain ⟨hopen, hroom, hcall⟩ := h
  have P := I.published
  rw [hopen] at P
  have C := I.connected.mono (world.publisher.call call).2.assigned []
  rw [List.append_nil] at C
  refine ⟨?_, I.ids, I.backfill, I.tended.mono _, C⟩
  have P' := P.call call hroom (by rintro msg rfl; exact hcall)
  simpa only [afterPublisher, hopen, Bool.false_or] using P'

omit [NeZero bucketCount] in
/-- What the server replies to is the first request on the connection, and the reply is made of
genuine answers to it; where one brings no message that is assigned, the ring has gone on. -/
theorem Inv.replied (I : Inv session world) {link : Link} (hlink : world.link = some link)
    (halive : link.alive = true) {response rest : Bytes}
    (hserve : world.publisher.serveOneClient link.toServer = .reply response rest) :
    ∃ (id : Nat) (sequences : List Nat) (requests : List (Nat × List Nat)) (replies : List Answer),
      link.toServer = requestBytes id sequences ++ rest ∧
      rest = requests.flatMap (fun request => requestBytes request.1 request.2) ∧
      (∀ request ∈ requests, Requested world.log request.1 request.2) ∧
      response = replies.flatMap Answer.bytes ∧
      ∀ reply ∈ replies, reply.Genuine world.assigned world.log ∧ reply.bucket = id ∧
        reply.sequence ∈ sequences ∧
        (reply.msg = none → ∀ msg, ⟨id, reply.sequence, msg⟩ ∈ world.assigned →
          reply.sequence + ringSize ≤ (messages world.assigned id).length) := by
  have C := I.connected
  rw [hlink] at C
  obtain ⟨requests, hrequests, hall⟩ := C.2.requests halive
  rw [hrequests] at hserve
  cases requests with
  | nil => cases hserve
  | cons request requests =>
    obtain ⟨R, hrest⟩ := List.forall_mem_cons.mp hall
    rw [List.flatMap_cons] at hserve hrequests
    by_cases hb : request.1 < bucketCount
    · obtain ⟨replies, heq, hreplies⟩ := I.published.serve
        (requests.flatMap fun request => requestBytes request.1 request.2) hb R.fits R.pos R.batch
        fun s hs => (R.asked s hs).2
      rw [heq] at hserve
      obtain ⟨rfl, rfl⟩ := Served.reply.inj hserve
      refine ⟨request.1, request.2, requests, replies, hrequests, rfl, hrest, rfl,
        fun reply hmem => ?_⟩
      obtain ⟨hbucket, hsequence, hpayload, hlapped⟩ := hreplies reply hmem
      obtain ⟨hasked, hlt⟩ := R.asked _ hsequence
      refine ⟨⟨⟨hbucket ▸ R.fits, hlt, fun msg hmsg => I.published.nul _ (hpayload msg hmsg)⟩, ?_,
        ?_⟩, hbucket, hsequence, hlapped⟩
      · rwa [hbucket]
      · rwa [hbucket]
    · -- the server has no such bucket and closes the connection
      rw [requestBytes, serveOneClient_unknown (by
        rw [UInt16.toNat_ofNat', Nat.mod_eq_of_lt R.fits]
        exact Nat.not_lt.mp hb)] at hserve
      cases hserve

omit [NeZero bucketCount] in
theorem Inv.serve (I : Inv session world) {link : Link} (hlink : world.link = some link)
    (halive : link.alive = true) : Inv session (world.serve link) := by
  have C := I.connected
  rw [hlink] at C
  obtain ⟨hopen, L⟩ := C
  have hwith : ∀ link' : Link, link'.Honest world.assigned world.log world.subscriber.repairBuffer →
      Inv session { world with link := some link' } :=
    fun link' L' => ⟨I.published, I.ids, I.backfill, I.tended, hopen, L'⟩
  unfold World.serve
  split
  · exact I
  · exact hwith _ ⟨by simp, L.answers.imp fun replies h => ⟨h.1, h.2.1, by simp⟩⟩
  · next response rest hserve =>
    obtain ⟨id, sequences, requests, replies, -, hrest, hall, rfl, hreplies⟩ :=
      I.replied hlink halive hserve
    exact hwith _ ⟨fun _ => ⟨requests, hrest, hall⟩,
      Link.Brings.answer L.answers halive (fun reply hmem => (hreplies reply hmem).1) rest⟩

omit [NeZero bucketCount] [NeZero ringSize] in
theorem Inv.cut (I : Inv session world) {link : Link} (hlink : world.link = some link)
    (kept : Nat) :
    Inv session
      { world with link := some { toClient := link.toClient.take kept, alive := false } } := by
  have C := I.connected
  rw [hlink] at C
  exact ⟨I.published, I.ids, I.backfill, I.tended, C.1, C.2.cut kept⟩

omit [NeZero bucketCount] [NeZero ringSize] in
/-- The invariant does not speak of the place in `pump` and the clock. -/
theorem Inv.elsewhere (I : Inv session world) (phase : Phase) (clock : UInt64)
    (nakNow : Nat → UInt64) : Inv session { world with phase, clock, nakNow } :=
  ⟨I.published, I.ids, I.backfill, I.tended, I.connected⟩

theorem Inv.step (I : Inv session world) {world' : World bucketCount ringSize}
    (h : Step world world') : Inv session world' := by
  cases h with
  | publisher call hallows => exact I.publisher hallows
  | serve hlink halive => exact I.serve hlink halive
  | cut kept hlink => exact I.cut hlink kept
  | drainUdp arrivals _ hbucket hsent _ => exact (I.drainUdp hbucket hsent).elsewhere ..
  | drainTcp recvs taken _ hreceives => exact (I.drainTcp hreceives).elsewhere ..
  | nak input => exact I.nak.elsewhere ..
  | deliver => exact (I.deliver _).elsewhere ..
  | again => exact I.elsewhere ..

omit [NeZero bucketCount] [NeZero ringSize] in
theorem init_ids (session : Session) :
    (World.init session : World bucketCount ringSize).subscriber.buckets.map (·.id) =
      session.bucketIds := by
  simp only [World.init, Subscriber.init, List.map_map]
  exact (List.map_congr_left fun id _ => by simp only [Function.comp]; split <;> rfl).trans
    (List.map_id _)

omit [NeZero bucketCount] [NeZero ringSize] in
theorem inv_init (session : Session) :
    Inv session (World.init session : World bucketCount ringSize) where
  published := published_init
  ids := init_ids session
  backfill := rfl
  tended := by
    refine ⟨?_, fun bucket hmem => ?_⟩
    · rw [init_ids]
      exact session.nodup
    · obtain ⟨id, -, rfl⟩ := List.mem_map.mp hmem
      exact Kept.new id session.firstExpected
  connected := ⟨rfl, rfl⟩

theorem Reachable.inv {session : Session} (h : Reachable session world) : Inv session world := by
  induction h with
  | init => exact inv_init session
  | step _ hstep ih => exact ih.step hstep

variable {start : UInt64} {worlds earlier : List (World bucketCount ringSize)}

theorem Run.inv {session : Session} (h : Run session start worlds) : ∀ world ∈ worlds,
    Inv session world := by
  induction h with
  | init => exact List.forall_mem_singleton.mpr ((inv_init session).elsewhere ..)
  | step _ hstep ih => exact List.forall_mem_cons.mpr ⟨(ih _ (.head _)).step hstep, ih⟩

theorem Run.reachable {session : Session} (h : Run session 0 worlds) :
    ∀ world ∈ worlds, Reachable session world := by
  induction h with
  | init => exact List.forall_mem_singleton.mpr .init
  | step _ hstep ih => exact List.forall_mem_cons.mpr ⟨(ih _ (.head _)).step hstep, ih⟩

/-! ## A session

One message is published. Its datagram is late: the end marker shows the hole, the first `pump` asks
for it, and the second one delivers. -/

def lateSession : Session where
  bucketIds := [0]
  firstExpected := 1
  backfill := 0
  lossPercent := 0
  lossRng := Stream'.const 0
  nodup := by decide
  addressable := by decide

/-- The publisher is done. -/
def latePublished : World 1 1 :=
  ((init lateSession : World 1 1).afterPublisher (.publish {})).afterPublisher .finish

theorem run_latePublished (start : UInt64) :
    ∃ earlier, Run lateSession start ({ latePublished with clock := start } :: earlier) := by
  have hpublish : (init lateSession : World 1 1).Allows (.publish {}) := by
    refine ⟨rfl, ?_, ?_⟩ <;> decide
  have hfinish : ((init lateSession : World 1 1).afterPublisher (.publish {})).Allows .finish :=
    ⟨rfl, by decide, trivial⟩
  exact ⟨_, .step (.step .init (.publisher (.publish {}) hpublish)) (.publisher .finish hfinish)⟩

/-- A `pump` in which `packet` arrives, and `nak` is reached 10 ms later. -/
def latePump (world : World 1 1) (packet : Packet) (now : UInt64) : World 1 1 :=
  let later := now + 10000000
  let world := { world.afterCall (.drainUdp 0 [⟨packet.bytes, now⟩]) with
    phase := .drainUdp 1, clock := now }
  let world := { (world.consume 0).afterCall (.drainTcp []) with phase := .nak 0 }
  let world := { world.afterCall (.nak 0 ⟨later, true, true⟩) with
    phase := .deliver 0, clock := later, nakNow := Function.update world.nakNow 0 later }
  { world.afterCall (.deliver 0) with phase := .nak 1 }

theorem Run.one_bucket {world : World 1 1} {earlier : List (World 1 1)}
    (h : Run lateSession start (world :: earlier)) :
    ∃ bucket, world.subscriber.buckets = [bucket] ∧ bucket.id = 0 :=
  List.map_eq_singleton_iff.mp (h.inv _ (.head _)).ids

theorem Run.latePump {world : World 1 1} {earlier : List (World 1 1)}
    (h : Run lateSession start (world :: earlier)) (now : UInt64)
    (hphase : world.phase = .drainUdp 0) {packet : Packet} (hpacket : packet ∈ latePublished.sent)
    (hsent : world.sent = latePublished.sent) (hclock : world.clock ≤ now)
    (hlater : now ≤ now + 10000000) :
    ∃ earlier, Run lateSession start (latePump world packet now :: earlier) := by
  obtain ⟨bucket, hbuckets, hid⟩ := h.one_bucket
  have hdestination : ∀ packet ∈ latePublished.sent, packet.destination = 0 := by decide
  have hdrained := h.step (.drainUdp [⟨packet.bytes, now⟩] hphase (by rw [hbuckets]; rfl)
    (List.forall_mem_singleton.mpr (by rwa [hid, hsent, ← hdestination packet hpacket]))
    (List.pairwise_pair.mpr hclock))
  obtain ⟨_, hbuckets', -⟩ := hdrained.one_bucket
  have hread := hdrained.step (.drainTcp [] 0 (by rw [hbuckets']; rfl)
    fun link _ => (List.append_nil _).symm)
  obtain ⟨_, hbuckets'', -⟩ := hread.one_bucket
  exact ⟨_, (hread.step (.nak ⟨now + 10000000, true, true⟩ rfl (congrArg List.length hbuckets'').ge
    hlater)).step (.deliver rfl)⟩

/-- The end marker has arrived, and a request for the first message is away. -/
def lateAsked : World 1 1 := latePump latePublished (packet 0 2 (encodePayload endMessage)) 0

theorem run_lateAsked : ∃ earlier, Run lateSession 0 (lateAsked :: earlier) := by
  obtain ⟨_, hpublished⟩ := run_latePublished 0
  exact hpublished.latePump 0 rfl (.tail _ (.head _)) rfl (by decide) (by decide)

theorem reachable_lateAsked : Reachable lateSession lateAsked := by
  obtain ⟨_, h⟩ := run_lateAsked
  exact h.reachable _ (.head _)

/-- The ring has room for one message. By the time the first one is asked for it holds the
end marker. -/
def lateAnswered : World 1 1 := lateAsked.serve (lateAsked.link.getD {})

/-- The first message has arrived. -/
def lateDone : World 1 1 :=
  latePump { lateAsked with phase := .drainUdp 0 } (packet 0 1 (encodePayload {})) 20000000

theorem reachable_lateDone : Reachable lateSession lateDone := by
  obtain ⟨_, h⟩ := run_lateAsked
  obtain ⟨_, h'⟩ :=
    (h.step (.again rfl)).latePump 20000000 rfl (.head _) rfl (by decide) (by decide)
  exact h'.reachable _ (.head _)

end World

end MegaFeed
