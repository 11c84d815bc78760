import MegaFeed.Verify.Reassembly

/-! # Requests and answers agree

On a repair connection that stays open the server reads exactly the requests `nak` wrote, and
`drain_tcp` acts on exactly one answer for every number requested, in order, wherever the two byte
streams are cut and whatever the rings hold when a request is served (`repair_agreement`). -/

namespace MegaFeed
open FeedPublisher Subscriber Framing

variable {bucketCount ringSize : Nat} [NeZero ringSize]
  {publisher : FeedPublisher bucketCount ringSize}
  {id : Nat} {sequences : List Nat} {bytes rest : Bytes}

/-! ## The server -/

namespace FeedPublisher

theorem length_request {bucketIndex : UInt16} {sequences : List UInt64} :
    (request bucketIndex sequences).length = 4 + sequences.length * 8 := by
  rw [← List.append_nil (request bucketIndex sequences), request_append]
  simp only [List.length_append, length_putU16, length_flatMap_putU64, List.length_nil]
  omega

/-- A request that has not arrived completely is waited for. -/
theorem serveOneClient_wait {bucketIndex : UInt16} {sequences : List UInt64}
    (hb : bucketIndex.toNat < bucketCount) (hpos : 1 ≤ sequences.length)
    (hbatch : sequences.length ≤ MAX_REPAIR_BATCH)
    (hfront : bytes <+: request bucketIndex sequences)
    (hshort : bytes.length < (request bucketIndex sequences).length) :
    publisher.serveOneClient bytes = .wait := by
  rw [length_request] at hshort
  rw [serveOneClient]
  split
  · rfl
  next hheader =>
  have hcount : (UInt16.ofNat sequences.length).toNat = sequences.length := by
    rw [UInt16.toNat_ofNat', Nat.mod_eq_of_lt]
    have : MAX_REPAIR_BATCH = 512 := rfl
    omega
  have hbytes := List.prefix_iff_eq_take.mp hfront
  have hindex : getU16 bytes = bucketIndex := by
    rw [hbytes, getU16_take (by omega), ← List.append_nil (request _ _), getU16_request]
  have hlength : getU16 (bytes.drop 2) = UInt16.ofNat sequences.length := by
    rw [hbytes, List.drop_take, getU16_take (by omega), ← List.append_nil (request _ _),
      request_append, List.drop_left' length_putU16, getU16_putU16]
  simp only [hindex, hlength, hcount]
  rw [dif_pos ⟨hb, by omega, hbatch⟩, if_pos]
  rw [List.length_take, List.length_drop]
  omega

/-- A frame is the answer the ring has. -/
theorem frame_inRing (hsized : publisher.Sized) (hid : id < bucketCount) {s : Nat}
    (hs : s < 2 ^ 64) :
    frame (UInt16.ofNat id) publisher.buckets[id].ring (UInt64.ofNat s) =
      Answer.bytes ⟨id, s, publisher.inRing id s⟩ := by
  have hsequence : (UInt64.ofNat s).toNat = s := by rw [UInt64.toNat_ofNat', Nat.mod_eq_of_lt hs]
  have hindex : s % ringSize < ringSize := Nat.mod_lt _ (NeZero.pos ringSize)
  have hslot := hsized _ (Vector.getElem_mem hid) _ (Vector.getElem_mem hindex)
  simp only [frame, Answer.bytes, answer, inRing, Vector.getElem?_eq_getElem hid, hsequence]
  generalize (publisher.buckets[id]).ring[s % ringSize] = slot at hslot
  by_cases hused : slot.used ∧ slot.sequence = s
  · simp only [if_pos hused, Option.map_some, Option.isSome_some, if_true, Option.getD_some,
      encodePayload_eq, OrderMessage.wire_decode hslot]
  · simp only [if_neg hused, Option.map_none, Option.isSome_none, Option.getD_none]
    rfl

/-- A complete request is answered from the rings. -/
theorem serveOneClient_inRing (hsized : publisher.Sized) (hid : id < bucketCount)
    (hfits : id < 2 ^ 16)
    (hpos : 1 ≤ sequences.length) (hbatch : sequences.length ≤ MAX_REPAIR_BATCH)
    (hkeys : ∀ s ∈ sequences, s < 2 ^ 64) (rest : Bytes) :
    publisher.serveOneClient (requestBytes id sequences ++ rest) =
      .reply ((sequences.map fun s => ⟨id, s, publisher.inRing id s⟩).flatMap Answer.bytes)
        rest := by
  have hindex : (UInt16.ofNat id).toNat = id := by
    rw [UInt16.toNat_ofNat', Nat.mod_eq_of_lt hfits]
  rw [requestBytes, serveOneClient_request (by rwa [hindex]) (by simpa using hpos)
    (by simpa using hbatch), List.flatMap_map, List.flatMap_map]
  refine congrArg (Served.reply · rest) (List.flatMap_congr fun s hs => ?_)
  simp only [hindex]
  exact frame_inRing hsized hid (hkeys s hs)

end FeedPublisher

/-! ## The subscriber -/

namespace Subscriber

variable {subscriber : Subscriber} {recvs : List Recv} {log events : List Event} {i : Nat}
  {input : NakInput} {replies : List Answer}

theorem requested_append : requested (log ++ events) = requested log ++ requested events :=
  List.filterMap_append

/-- What the log says once an answer has been acted on. -/
def Answer.event (reply : Answer) : Event := .bucket reply.bucket (.frame reply.sequence reply.msg)

/-- All answers that arrive are for buckets that were joined. -/
theorem acted_known {ids : List Nat} {tail : Bytes} (h : ∀ reply ∈ replies, reply.bucket ∈ ids) :
    acted ids (replies, some tail) = replies.map Answer.event := by
  have hall : replies.filter (·.bucket ∈ ids) = replies :=
    List.filter_eq_self.mpr fun reply hmem => decide_eq_true (h reply hmem)
  simp only [acted, hall, resync, Option.isNone_some, if_neg Bool.false_ne_true, List.append_nil]
  rfl

theorem requested_onAnswers (buckets : List Bucket) (replies : List Answer) :
    requested (onAnswers buckets replies).2 = [] := by
  induction replies generalizing buckets with
  | nil => rfl
  | cons reply replies ih =>
    simp only [onAnswers, requested_append, withBucket_onFrame, ih]
    split <;> rfl

theorem receive_isSome {buffer : Bytes} (h : .closed ∉ recvs) :
    ∃ bytes, receive buffer recvs = some bytes := by
  induction recvs generalizing buffer with
  | nil => exact ⟨_, rfl⟩
  | cons recv recvs ih =>
    unfold receive
    split
    · exact ⟨_, rfl⟩
    · cases recv with
      | closed => exact absurd List.mem_cons_self h
      | data piece => exact ih fun hmem => h (List.mem_cons_of_mem _ hmem)

/-- A request the server accepts. -/
structure Accepted (bucketCount : Nat) (ids : List Nat) (request : Nat × List Nat) : Prop where
  known : request.1 < bucketCount
  joined : request.1 ∈ ids
  pos : 1 ≤ request.2.length
  batch : request.2.length ≤ MAX_REPAIR_BATCH
  keys : ∀ s ∈ request.2, s < 2 ^ 64

theorem not_failed_of_writes {bucket : Bucket} (hwrites : input.writes = true) {now : UInt64} :
    .writeFailed now ∉ (subscriber.nak bucket input).2.2 := by
  unfold nak
  split
  · simp
  intro hmem
  rcases List.mem_append.mp hmem with hmem | hmem
  · obtain ⟨_, -, heq⟩ := List.mem_map.mp hmem
    cases heq
  · simp only [ask, hwrites, not_true_eq_false, if_false] at hmem
    split at hmem
    · cases hmem
    split at hmem
    · cases hmem
    split at hmem
    · cases hmem
    split at hmem
    · cases List.mem_singleton.mp hmem
    · rcases List.mem_append.mp hmem with hmem | hmem
      · split at hmem
        · cases hmem
        · cases List.mem_singleton.mp hmem
      · cases List.mem_singleton.mp hmem

/-- `nak` writes nothing but requests the server accepts. -/
theorem call_nak (hids : ∀ bucket ∈ subscriber.buckets, bucket.id < bucketCount)
    (hkeys : ∀ bucket ∈ subscriber.buckets, ∀ s ∈ bucket.holes, s < 2 ^ 64)
    (hwrites : input.writes = true) :
    (subscriber.call (.nak i input)).1.repairBuffer = subscriber.repairBuffer ∧
    repairs (subscriber.call (.nak i input)).2 = [] ∧
    ∀ request ∈ requested (subscriber.call (.nak i input)).2,
      Accepted bucketCount (subscriber.buckets.map (·.id)) request := by
  rw [call]
  split
  · exact ⟨rfl, rfl, by simp [requested]⟩
  next bucket hbucket =>
  have hmem := List.mem_of_getElem? hbucket
  have hwritten : ∀ now, .writeFailed now ∉ (subscriber.nak bucket input).2.2 :=
    fun now => not_failed_of_writes hwrites
  rcases nak_cases subscriber bucket input with ⟨-, heq⟩ | ⟨-, subscriber', bucket',
    events, hasks, heq⟩
  · rw [heq]
    exact ⟨rfl, rfl, by simp [requested]⟩
  rw [heq] at hwritten ⊢
  have hquiet :
      repairs ((bucket.expire input.now subscriber.giveupNs).2.map (.bucket bucket.id)) = [] ∧
      requested ((bucket.expire input.now subscriber.giveupNs).2.map (.bucket bucket.id)) = [] := by
    refine ⟨repairs_map fun sequence payload hexpired => ?_,
      List.filterMap_eq_nil_iff.mpr fun event hexpired => ?_⟩
    · obtain ⟨_, -, heq⟩ := List.mem_map.mp hexpired
      cases heq
    · obtain ⟨_, hgiven, rfl⟩ := List.mem_map.mp hexpired
      obtain ⟨_, -, rfl⟩ := List.mem_map.mp hgiven
      rfl
  rw [repairs_append, requested_append, hquiet.1, hquiet.2]
  cases hasks with
  | waits => exact ⟨rfl, rfl, by simp [requested]⟩
  | refused => exact ⟨rfl, rfl, by simp [requested]⟩
  | failed =>
    exact absurd (List.mem_append_right _ (List.mem_append_right _ (List.mem_singleton_self _)))
      (hwritten input.now)
  | written sequences hready hdue hpos =>
    have hconnected : repairs (Subscriber.connected subscriber input) = [] ∧
        requested (Subscriber.connected subscriber input) = [] := by
      unfold Subscriber.connected
      split <;> exact ⟨rfl, rfl⟩
    refine ⟨rfl, ?_, fun request hrequest => ?_⟩
    · rw [repairs_append, hconnected.1]
      rfl
    · rw [requested_append, hconnected.2] at hrequest
      obtain rfl := List.mem_singleton.mp hrequest
      have hbatch : sequences.length ≤ MAX_REPAIR_BATCH := hdue ▸ Bucket.length_toRequest
      have hjoined : bucket.id ∈ subscriber.buckets.map (·.id) := List.mem_map_of_mem hmem
      refine ⟨hids bucket hmem, hjoined, hpos, hbatch, fun s hs => hkeys bucket hmem s ?_⟩
      exact (Bucket.mem_expire_holes.mp (Bucket.mem_toRequest (hdue ▸ hs))).2

end Subscriber

namespace Exchange

variable {exchange exchange' : Exchange bucketCount ringSize} {requests : List (Nat × List Nat)}
  {served : List (FeedPublisher bucketCount ringSize)}

/-! ## The answers due -/

/-- A request that is not served yet makes nothing due. -/
theorem due_append (h : served.length ≤ requests.length) (later : List (Nat × List Nat)) :
    due (requests ++ later) served = due requests served := by
  have hzip : (requests ++ later).zip served = requests.zip served := by
    have hlong : served.length ≤ (requests ++ later).length :=
      List.length_append ▸ Nat.le_add_right_of_le h
    conv_lhs => rw [List.zip_eq_zip_take_min, Nat.min_eq_right hlong,
      List.take_append_of_le_length h]
    conv_rhs => rw [List.zip_eq_zip_take_min, Nat.min_eq_right h]
  rw [due, hzip, due]

/-- One more request is served. -/
theorem due_serve {id : Nat} {sequences : List Nat} {later : List (Nat × List Nat)}
    (h : requests.drop served.length = (id, sequences) :: later)
    (publisher : FeedPublisher bucketCount ringSize) :
    due requests (served ++ [publisher]) =
      due requests served ++ sequences.map fun s => ⟨id, s, publisher.inRing id s⟩ := by
  have hlength : (requests.take served.length).length = served.length := by
    have hpos := congrArg List.length h
    rw [List.length_drop, List.length_cons] at hpos
    rw [List.length_take]
    omega
  have hsplit : requests = requests.take served.length ++ (id, sequences) :: later := by
    rw [← h, List.take_append_drop]
  have hserved : due requests served = due (requests.take served.length) served := by
    conv_lhs => rw [hsplit]
    exact due_append hlength.ge _
  rw [hserved]
  conv_lhs => rw [due, hsplit, List.zip_append hlength, List.flatMap_append]
  simp [due]

theorem terminated_of_inRing {id s : Nat} {msg : OrderMessage}
    (h : publisher.inRing id s = some msg) :
    msg.Terminated := by
  rw [inRing] at h
  split at h
  · cases h
  · dsimp only at h
    split at h
    · cases h
      exact OrderMessage.terminated_decode _
    · cases h

/-- Every answer due fits its frame and is for a bucket that was joined. -/
theorem valid_of_due (hcount : bucketCount ≤ 2 ^ 16) {ids : List Nat}
    (hrequests : ∀ request ∈ requests, Accepted bucketCount ids request) {reply : Answer}
    (h : reply ∈ due requests served) : reply.Valid ∧ reply.bucket ∈ ids := by
  obtain ⟨pair, hpair, hreply⟩ := List.mem_flatMap.mp h
  obtain ⟨s, hs, rfl⟩ := List.mem_map.mp hreply
  have A := hrequests pair.1 (List.of_mem_zip hpair).1
  exact ⟨⟨A.known.trans_le hcount, A.keys s hs, fun msg hmsg => terminated_of_inRing hmsg⟩,
    A.joined⟩

/-! ## The invariant -/

structure Inv (exchange : Exchange bucketCount ringSize) : Prop where
  ids : ∀ bucket ∈ exchange.subscriber.buckets, bucket.id < bucketCount
  requests : ∀ request ∈ requested exchange.log,
    Accepted bucketCount (exchange.subscriber.buckets.map (·.id)) request
  count : exchange.served.length ≤ (requested exchange.log).length
  toServer : exchange.atServer ++ exchange.toServer =
    ((requested exchange.log).drop exchange.served.length).flatMap fun request =>
      requestBytes request.1 request.2
  answers : ∃ acted pending, due (requested exchange.log) exchange.served = acted ++ pending ∧
    repairs exchange.log = acted.map Answer.event ∧
    exchange.subscriber.repairBuffer ++ exchange.toClient = pending.flatMap Answer.bytes
  held : ¬repairFormat.Ready exchange.subscriber.repairBuffer
  closed : exchange.closed = false

theorem inv_new {subscriber : Subscriber} (hempty : subscriber.repairBuffer = [])
    (hids : ∀ bucket ∈ subscriber.buckets, bucket.id < bucketCount) :
    Inv ({ subscriber } : Exchange bucketCount ringSize) where
  ids := hids
  requests := nofun
  count := le_rfl
  toServer := rfl
  answers := ⟨[], [], rfl, rfl, by rw [hempty]; rfl⟩
  held := by
    rw [hempty, ready_iff]
    simp
  closed := rfl

theorem Inv.buckets (I : Inv exchange) (buckets : List Bucket)
    (hids : buckets.map (·.id) = exchange.subscriber.buckets.map (·.id)) :
    Inv { exchange with subscriber := { exchange.subscriber with buckets } } where
  ids bucket hmem := by
    have hid : bucket.id ∈ exchange.subscriber.buckets.map (·.id) := hids ▸ List.mem_map_of_mem hmem
    obtain ⟨bucket', hmem', heq⟩ := List.mem_map.mp hid
    exact heq ▸ I.ids bucket' hmem'
  requests := by
    rw [show (({ exchange.subscriber with buckets } : Subscriber).buckets.map (·.id)) =
      exchange.subscriber.buckets.map (·.id) from hids]
    exact I.requests
  count := I.count
  toServer := I.toServer
  answers := I.answers
  held := I.held
  closed := I.closed

/-- The ids of the buckets stay what they are. -/
theorem Inv.ids_call (I : Inv exchange) (call : Subscriber.Call) :
    ∀ bucket ∈ (exchange.subscriber.call call).1.buckets, bucket.id < bucketCount := by
  intro bucket hmem
  have hid : bucket.id ∈ exchange.subscriber.buckets.map (·.id) :=
    (call_acted exchange.subscriber call).ids ▸ List.mem_map_of_mem hmem
  obtain ⟨bucket', hmem', heq⟩ := List.mem_map.mp hid
  exact heq ▸ I.ids bucket' hmem'

theorem Inv.nak (I : Inv exchange) (i : Nat) (input : NakInput)
    (hkeys : ∀ bucket ∈ exchange.subscriber.buckets, ∀ s ∈ bucket.holes, s < 2 ^ 64)
    (hwrites : input.writes = true) :
    Inv (exchange.afterCall (.nak i input) exchange.toClient) := by
  obtain ⟨hbuffer, hrepairs, hnew⟩ := @call_nak bucketCount _ i input I.ids hkeys hwrites
  have hids := (call_acted exchange.subscriber (.nak i input)).ids
  refine ⟨I.ids_call (.nak i input), ?_, ?_, ?_, ?_, ?_, I.closed⟩
  · intro request hrequest
    simp only [afterCall, requested_append] at hrequest ⊢
    rw [hids]
    exact (List.mem_append.mp hrequest).elim (I.requests request) (hnew request)
  · simp only [afterCall, requested_append, List.length_append]
    exact Nat.le_add_right_of_le I.count
  · simp only [afterCall, requested_append, List.drop_append_of_le_length I.count,
      List.flatMap_append, ← List.append_assoc, I.toServer]
  · obtain ⟨acted, pending, hdue, hacted, hpending⟩ := I.answers
    refine ⟨acted, pending, ?_, ?_, ?_⟩
    · simp only [afterCall, requested_append, due_append I.count, hdue]
    · simp only [afterCall, repairs_append, hrepairs, List.append_nil, hacted]
    · simp only [afterCall, hbuffer, hpending]
  · simp only [afterCall, hbuffer]
    exact I.held

/-- The answers that have arrived are acted on, and the front of the next one is kept. -/
theorem Inv.drainTcp (I : Inv exchange) (hcount : bucketCount ≤ 2 ^ 16) {recvs : List Recv}
    {rest : Bytes}
    (hbytes : exchange.toClient = exchange.subscriber.took (.drainTcp recvs) ++ rest)
    (hopen : .closed ∉ recvs) : Inv (exchange.afterCall (.drainTcp recvs) rest) := by
  have hids := (call_acted exchange.subscriber (.drainTcp recvs)).ids
  obtain ⟨acted, pending, hdue, hacted, hpending⟩ := I.answers
  cases hrepair : exchange.subscriber.repairOpen with
  | false =>
    have htook : exchange.subscriber.took (.drainTcp recvs) = [] := if_neg (by simp [hrepair])
    have hcall : exchange.subscriber.call (.drainTcp recvs) = (exchange.subscriber, []) :=
      if_neg (by simp [hrepair])
    rw [htook, List.nil_append] at hbytes
    have hsame : exchange.afterCall (.drainTcp recvs) rest = exchange := by
      simp only [afterCall, hcall, ← hbytes, requested, List.filterMap_nil, List.flatMap_nil,
        List.append_nil]
    rwa [hsame]
  | true =>
    obtain ⟨bytes, hreceive⟩ := @receive_isSome recvs exchange.subscriber.repairBuffer hopen
    obtain ⟨hall, hevents, -, -, hbuffer⟩ := call_drainTcp hrepair hreceive
    rw [hbytes, ← List.append_assoc, ← hall] at hpending
    obtain ⟨first, later, tail, hsplit, htail, rfl, hlater⟩ :=
      answers_split (hpending ▸ List.prefix_rfl : bytes ++ rest <+: pending.flatMap Answer.bytes)
    have hvalid : ∀ reply ∈ first, reply.Valid ∧
        reply.bucket ∈ exchange.subscriber.buckets.map (·.id) :=
      fun reply hmem => valid_of_due hcount I.requests
        (hdue ▸ List.mem_append_right _ (List.mem_append_left _ hmem))
    have hparse : parse bytes = (first, some tail) := by
      rw [hsplit]
      exact parse_answers (fun reply hmem => (hvalid reply hmem).1) htail
    rw [hparse] at hevents hbuffer
    have hresync : resync (some tail) = [] := rfl
    rw [hresync, List.append_nil] at hevents
    have hnone : requested (exchange.subscriber.call (.drainTcp recvs)).2 = [] := by
      rw [hevents, requested_onAnswers]
    refine ⟨I.ids_call (.drainTcp recvs), ?_, ?_, ?_,
      ⟨acted ++ first, later, ?_, ?_, ?_⟩, ?_, I.closed⟩
    · simp only [afterCall, requested_append, hnone, List.append_nil]
      rw [hids]
      exact I.requests
    · simp only [afterCall, requested_append, hnone, List.append_nil]
      exact I.count
    · simp only [afterCall, requested_append, hnone, List.append_nil, List.flatMap_nil]
      exact I.toServer
    · simp only [afterCall, requested_append, hnone, List.append_nil, hdue, List.append_assoc]
    · simp only [afterCall, repairs_append, hevents, repairs_onAnswers _ _ tail, hacted,
        List.map_append]
      rw [acted_known fun reply hmem => (hvalid reply hmem).2]
    · have hwhole := hpending
      rw [hsplit, List.flatMap_append, List.append_assoc] at hwhole
      have hrest := List.append_cancel_left hwhole
      simp only [afterCall, hbuffer, Option.getD_some, hrest]
    · simp only [afterCall, hbuffer, Option.getD_some]
      exact htail

theorem Inv.receive (I : Inv exchange) {bytes rest : Bytes}
    (hbytes : exchange.toServer = bytes ++ rest) :
    Inv { exchange with toServer := rest, atServer := exchange.atServer ++ bytes } where
  ids := I.ids
  requests := I.requests
  count := I.count
  toServer := by
    rw [← I.toServer, hbytes, List.append_assoc]
  answers := I.answers
  held := I.held
  closed := I.closed

/-- What the server has received is the front of the next request, or that request and more. -/
theorem Inv.atServer (I : Inv exchange) (hcount : bucketCount ≤ 2 ^ 16)
    (publisher : FeedPublisher bucketCount ringSize) (hsized : publisher.Sized) :
    publisher.serveOneClient exchange.atServer = .wait ∧
      (exchange.toServer = [] → exchange.atServer = []) ∨
    ∃ id sequences later rest,
      (requested exchange.log).drop exchange.served.length = (id, sequences) :: later ∧
      publisher.serveOneClient exchange.atServer = .reply
        ((sequences.map fun s => ⟨id, s, publisher.inRing id s⟩).flatMap Answer.bytes) rest ∧
      rest ++ exchange.toServer = later.flatMap fun request =>
        requestBytes request.1 request.2 := by
  have hbytes := I.toServer
  cases hdrop : (requested exchange.log).drop exchange.served.length with
  | nil =>
    rw [hdrop, List.flatMap_nil, List.append_eq_nil_iff] at hbytes
    exact .inl ⟨by rw [hbytes.1]; rfl, fun _ => hbytes.1⟩
  | cons request later =>
    obtain ⟨id, sequences⟩ := request
    have A := I.requests (id, sequences) (List.mem_of_mem_drop (hdrop ▸ List.mem_cons_self))
    have hfits : id < 2 ^ 16 := A.known.trans_le hcount
    have hindex : (UInt16.ofNat id).toNat = id := by
      rw [UInt16.toNat_ofNat', Nat.mod_eq_of_lt hfits]
    rw [hdrop, List.flatMap_cons] at hbytes
    have hreply : ∀ rest, publisher.serveOneClient (requestBytes id sequences ++ rest) = .reply
        ((sequences.map fun s => ⟨id, s, publisher.inRing id s⟩).flatMap Answer.bytes) rest :=
      serveOneClient_inRing hsized A.known hfits A.pos A.batch A.keys
    rcases List.append_eq_append_iff.mp hbytes with ⟨missing, hrequest, htoServer⟩ | ⟨rest,
      hatServer, hrest⟩
    · cases missing with
      | nil =>
        rw [List.append_nil] at hrequest
        refine .inr ⟨id, sequences, later, [], rfl, ?_, ?_⟩
        · rw [← hrequest, ← List.append_nil (requestBytes id sequences)]
          exact hreply []
        · simpa using htoServer
      | cons byte missing =>
        refine .inl ⟨?_, fun hnone => ?_⟩
        · refine serveOneClient_wait (by rw [hindex]; exact A.known) (by simpa using A.pos)
            (by simpa using A.batch) ⟨byte :: missing, hrequest.symm⟩ ?_
          have hlength := congrArg List.length hrequest
          rw [List.length_append, List.length_cons] at hlength
          exact Nat.lt_of_lt_of_eq (by omega) hlength.symm
        · rw [hnone] at htoServer
          cases htoServer
    · refine .inr ⟨id, sequences, later, rest, rfl, ?_, hrest.symm⟩
      rw [hatServer]
      exact hreply rest

theorem Inv.serve (I : Inv exchange) (hcount : bucketCount ≤ 2 ^ 16)
    (publisher : FeedPublisher bucketCount ringSize) (hsized : publisher.Sized) :
    Inv (exchange.serve publisher) := by
  rcases I.atServer hcount publisher hsized with
    ⟨hwait, -⟩ | ⟨id, sequences, later, rest, hdrop, hreply, hrest⟩
  · rw [Exchange.serve, hwait]
    exact I
  rw [Exchange.serve, hreply]
  have hlt : exchange.served.length < (requested exchange.log).length := by
    have hlength := congrArg List.length hdrop
    rw [List.length_drop, List.length_cons] at hlength
    omega
  obtain ⟨acted, pending, hdue, hacted, hpending⟩ := I.answers
  refine ⟨I.ids, I.requests, ?_, ?_,
    ⟨acted, pending ++ sequences.map fun s => ⟨id, s, publisher.inRing id s⟩, ?_, hacted, ?_⟩,
    I.held, I.closed⟩
  · rw [List.length_append]
    exact hlt
  · have hnext : (requested exchange.log).drop (exchange.served ++ [publisher]).length = later := by
      rw [List.length_append, List.length_singleton, ← List.drop_drop, hdrop, List.drop_one,
        List.tail_cons]
    rw [hnext]
    exact hrest
  · rw [due_serve hdrop, hdue, List.append_assoc]
  · rw [List.flatMap_append, ← hpending, List.append_assoc]

theorem Step.inv (hcount : bucketCount ≤ 2 ^ 16) (I : Inv exchange) (h : Step exchange exchange') :
    Inv exchange' := by
  cases h with
  | buckets buckets hids => exact I.buckets buckets hids
  | nak i input hkeys hwrites => exact I.nak i input hkeys hwrites
  | drainTcp recvs rest hbytes hopen => exact I.drainTcp hcount hbytes hopen
  | receive bytes rest hbytes => exact I.receive hbytes
  | serve publisher hsized hopen => exact I.serve hcount publisher hsized

theorem Reachable.inv (hcount : bucketCount ≤ 2 ^ 16) (h : Reachable exchange) : Inv exchange := by
  induction h with
  | new hempty hids => exact inv_new hempty hids
  | step _ hstep ih => exact hstep.inv hcount ih

/-! ## Agreement -/

/-- **Requests and answers agree.** Whatever has been requested, and however the two streams were
cut, the server has not left its loop and will not, and waits for nothing but the rest of a request.
Every request names between 1 and 512 numbers. The frames acted on are the answers due, in order,
all of them once nothing is under way, and the framing is never lost. -/
theorem repair_agreement (hcount : bucketCount ≤ 2 ^ 16) (h : Reachable exchange) :
    (exchange.closed = false ∧ ∀ publisher : FeedPublisher bucketCount ringSize, publisher.Sized →
      publisher.serveOneClient exchange.atServer ≠ .close ∧
      (exchange.toServer = [] → exchange.atServer ≠ [] →
        publisher.serveOneClient exchange.atServer ≠ .wait)) ∧
    (∀ request ∈ requested exchange.log,
      1 ≤ request.2.length ∧ request.2.length ≤ MAX_REPAIR_BATCH) ∧
    exchange.served.length ≤ (requested exchange.log).length ∧
    (exchange.toServer = [] → exchange.atServer = [] →
      exchange.served.length = (requested exchange.log).length) ∧
    repairs exchange.log <+: (due (requested exchange.log) exchange.served).map Answer.event ∧
    (exchange.toClient = [] → exchange.subscriber.repairBuffer = [] ∧
      repairs exchange.log = (due (requested exchange.log) exchange.served).map Answer.event) ∧
    .resync ∉ exchange.log := by
  have I := h.inv hcount
  obtain ⟨acted, pending, hdue, hacted, hpending⟩ := I.answers
  refine ⟨⟨I.closed, fun publisher hsized => ?_⟩, fun request hmem => ?_, I.count, ?_, ?_, ?_, ?_⟩
  · rcases I.atServer hcount publisher hsized with ⟨hwait, hall⟩ | ⟨_, _, _, _, -, hreply, -⟩
    · rw [hwait]
      exact ⟨by simp, fun hnone hsome => absurd (hall hnone) hsome⟩
    · rw [hreply]
      exact ⟨by simp, fun _ _ => by simp⟩
  · have A := I.requests request hmem
    exact ⟨A.pos, A.batch⟩
  · intro hnone hserved
    have hbytes := I.toServer
    rw [hnone, hserved, List.append_nil, eq_comm, List.flatMap_eq_nil_iff] at hbytes
    refine I.count.antisymm (Nat.not_lt.mp fun hlt => ?_)
    obtain ⟨request, later, hdrop⟩ := List.exists_cons_of_length_pos
      (show 0 < ((requested exchange.log).drop exchange.served.length).length by
        rw [List.length_drop]; omega)
    have hempty := congrArg List.length (hbytes request (hdrop ▸ List.mem_cons_self))
    rw [requestBytes, length_request, List.length_nil] at hempty
    omega
  · rw [hacted, hdue, List.map_append]
    exact List.prefix_append ..
  · intro hnone
    rw [hnone, List.append_nil] at hpending
    have hall : pending = [] := by
      cases pending with
      | nil => rfl
      | cons reply later =>
        refine absurd ?_ I.held
        rw [hpending, List.flatMap_cons]
        exact reply.isFrame.ready.append _
    rw [hall] at hpending hdue
    exact ⟨hpending, by rw [hacted, hdue, List.append_nil]⟩
  · intro hmem
    have hkept : Event.resync ∈ repairs exchange.log := List.mem_filter.mpr ⟨hmem, rfl⟩
    rw [hacted] at hkept
    obtain ⟨_, -, heq⟩ := List.mem_map.mp hkept
    cases heq

/-- The first message is asked for. -/
def cutAsked : Exchange bucketCount ringSize :=
  let subscriber : Subscriber :=
    { buckets := [{ id := 0, holes := (∅ : Std.ExtTreeMap Nat Hole).insert 1 ⟨0, 0⟩ }] }
  ({ subscriber } : Exchange bucketCount ringSize).afterCall (.nak 0 ⟨10000000, true, true⟩) []

/-- The server receives the request in two pieces, and makes a round after each. -/
def cutServed (publisher : FeedPublisher bucketCount ringSize) : Exchange bucketCount ringSize :=
  let asked : Exchange bucketCount ringSize := cutAsked
  let exchange :=
    { asked with toServer := asked.toServer.drop 3, atServer := asked.toServer.take 3 }
  let exchange := exchange.serve publisher
  let exchange :=
    { exchange with toServer := [], atServer := exchange.atServer ++ exchange.toServer }
  exchange.serve publisher

/-- The subscriber takes the answer off in two pieces. -/
def cutDone (publisher : FeedPublisher bucketCount ringSize) : Exchange bucketCount ringSize :=
  let served := cutServed publisher
  let exchange :=
    served.afterCall (.drainTcp [.data (served.toClient.take 20)]) (served.toClient.drop 20)
  exchange.afterCall (.drainTcp [.data exchange.toClient]) []

/-- A publisher that has published one message. -/
def firstPublished [NeZero bucketCount] : FeedPublisher bucketCount ringSize :=
  ((init 0 (Stream'.const 0)).publish {}).1

theorem sized_firstPublished : (firstPublished : FeedPublisher 1 1).Sized := by
  unfold FeedPublisher.Sized
  decide

theorem reachable_cutDone : Reachable (cutDone firstPublished : Exchange 1 1) := by
  have hkeys : ∀ s ∈ (∅ : Std.ExtTreeMap Nat Hole).insert 1 ⟨0, 0⟩, s < 2 ^ 64 := by
    intro s hs
    rcases Std.ExtTreeMap.mem_insert.mp hs with hs | hs
    · rw [← Nat.compare_eq_eq.mp hs]
      decide
    · exact absurd hs Std.ExtTreeMap.not_mem_empty
  have hnew : Reachable ({ subscriber := { buckets := [{
      id := 0, holes := (∅ : Std.ExtTreeMap Nat Hole).insert 1 ⟨0, 0⟩ }] } } : Exchange 1 1) :=
    .new rfl (by decide)
  have hasked := hnew.step (.nak 0 ⟨10000000, true, true⟩ (List.forall_mem_singleton.mpr hkeys) rfl)
  have hfirst := hasked.step (.receive ((cutAsked : Exchange 1 1).toServer.take 3)
    ((cutAsked : Exchange 1 1).toServer.drop 3) (List.take_append_drop 3 _).symm)
  have hwaited := hfirst.step (.serve firstPublished sized_firstPublished rfl)
  have hsecond := hwaited.step (.receive _ [] (List.append_nil _).symm)
  have hserved := hsecond.step (.serve firstPublished sized_firstPublished rfl)
  have hcut := hserved.step (.drainTcp
    [.data ((cutServed firstPublished : Exchange 1 1).toClient.take 20)]
    ((cutServed firstPublished : Exchange 1 1).toClient.drop 20) (by decide) (by simp))
  exact hcut.step (.drainTcp [.data ((cutServed firstPublished : Exchange 1 1).toClient.drop 20)] []
    (by decide) (by simp))

theorem repair_agreement_cut : requested (cutDone firstPublished : Exchange 1 1).log = [(0, [1])] ∧
    repairs (cutDone firstPublished : Exchange 1 1).log = [.bucket 0 (.frame 1 (some {}))] := by
  have h := (repair_agreement (by decide) reachable_cutDone).2.2.2.2.2.1 rfl
  refine ⟨by decide, h.2.trans ?_⟩
  decide

end Exchange
end MegaFeed
