import MegaFeed.Verify.Life

/-! # Runs of a session

Along a run of a session every bucket lives with an honest publisher (`Run.life`): what arrives was
assigned, every frame answers a request, and where one brings no message the ring had gone on when
the server answered (`Lapped`). -/

namespace MegaFeed
open FeedPublisher Subscriber Framing

variable {bucketCount ringSize : Nat}

variable {link : Link} {P : Answer → Prop} {subscriber subscriber' : Subscriber}
  {bucket bucket' : Bucket}
  {input : NakInput} {log events : List Event} {assigned : List Assigned}
  {bytes : Bytes} {taken : Nat}

/-- The frames read in what a connection brings. -/
theorem Link.Brings.parse {buffer : Bytes} (B : link.Brings P buffer)
    (hvalid : ∀ reply, P reply → reply.Valid)
    (hbytes : bytes = buffer ++ link.toClient.take taken) :
    ∃ replies tail, parse bytes = (replies, some tail) ∧ (∀ reply ∈ replies, P reply) ∧
      Link.Brings P tail { link with toClient := link.toClient.drop taken } := by
  obtain ⟨replies, tail, hsplit, hall, htail, B'⟩ := B.receive taken
  refine ⟨replies, tail, ?_, hall, B'⟩
  rw [hbytes, hsplit]
  exact parse_answers (fun reply hmem => hvalid reply (hall reply hmem)) htail

/-- A request brings nothing yet. -/
theorem Subscriber.Asks.brings (h : Asks subscriber bucket input (subscriber', bucket', events))
    {link : Option Link} (C : Connected assigned log subscriber link)
    (B : ∀ l ∈ link, l.Brings P subscriber.repairBuffer) :
    ∀ l ∈ events.foldl World.linkAfter link, l.Brings P subscriber'.repairBuffer := by
  cases h with
  | waits => exact B
  | refused => exact B
  | failed =>
    rw [List.foldl_append]
    intro l hl
    cases hl
  | written sequences =>
    rw [List.foldl_append]
    cases hlink : link with
    | none =>
      rw [hlink] at C
      have hconnected : Subscriber.connected subscriber input = [.connect true input.now] := by
        rw [Subscriber.connected, C.1]
        rfl
      rw [hconnected]
      intro l hl
      cases hl
      exact ⟨[], by simp, by rw [C.2]; exact List.prefix_rfl, fun _ => by rw [C.2]; rfl⟩
    | some link =>
      rw [hlink] at C B
      have hconnected : Subscriber.connected subscriber input = [] := by
        rw [Subscriber.connected, C.1]
        rfl
      rw [hconnected]
      intro l hl
      cases hl
      exact B link rfl

namespace World

variable {session : Session} {start : UInt64} {world world' : World bucketCount ringSize}
  {worlds earlier : List (World bucketCount ringSize)}

variable [NeZero ringSize]

theorem Lapped.later {id s : Nat} (h : Lapped worlds id s) : Lapped (world :: worlds) id s := by
  obtain ⟨later, world', earlier, link, sequences, rest, rfl, h⟩ := h
  exact ⟨world :: later, world', earlier, link, sequences, rest, rfl, h⟩

/-! ## Answers without a message -/

omit [NeZero ringSize] in
/-- The numbers that follow `s` in its bucket. -/
theorem length_filter_later {publisher : FeedPublisher bucketCount ringSize}
    {assigned : List Assigned}
    (R : Records publisher assigned) {id s : Nat}
    (h : s + ringSize ≤ (messages assigned id).length) :
    ringSize ≤ (assigned.filter fun a => a.bucket = id ∧ s < a.sequence).length := by
  have hsequences : ((assigned.filter fun a => a.bucket = id ∧ s < a.sequence).map (·.sequence)) =
      (List.range' 1 (inBucket assigned id).length).filter (s < ·) := by
    rw [← R.numbered, List.filter_map, inBucket, List.filter_filter]
    refine congrArg _ (List.filter_congr fun a _ => ?_)
    simp [Bool.and_comm]
  have hcount : (inBucket assigned id).length = s + ((inBucket assigned id).length - s) := by
    rw [messages, List.length_map] at h
    omega
  have hlater : (List.range' (1 + s) ((inBucket assigned id).length - s)).filter (s < ·) =
      List.range' (1 + s) ((inBucket assigned id).length - s) := by
    refine List.filter_eq_self.mpr fun i hi => decide_eq_true ?_
    have := (List.mem_range'_1.mp hi).1
    omega
  rw [← List.length_map (·.sequence), hsequences, hcount, ← List.range'_append_1,
    List.filter_append, hlater, List.length_append, List.length_range']
  rw [messages, List.length_map] at h
  omega

/-- An answer that brings no message was given when the ring had gone on. -/
def Told (worlds : List (World bucketCount ringSize)) (reply : Answer) : Prop :=
  reply.Valid ∧ (reply.msg = none → Lapped worlds reply.bucket reply.sequence)

/-- What is true at the end of a run. -/
structure Lives (session : Session) (start : UInt64) (worlds : List (World bucketCount ringSize))
    (world : World bucketCount ringSize) : Prop where
  brings : ∀ link ∈ world.link, link.Brings (Told worlds) world.subscriber.repairBuffer
  lives : ∀ bucket ∈ world.subscriber.buckets,
    Life world.subscriber.settings (Timed (Honest world.assigned (Lapped worlds))) start
      (newBucket session.firstExpected bucket.id) world.clock (history bucket.id world.log) bucket
  known : ∀ id, id ∉ world.subscriber.buckets.map (·.id) → history id world.log = []

theorem Lives.mono (V : Lives session start worlds world)
    (hsubscriber : world'.subscriber = world.subscriber)
    (hassigned : world.assigned ⊆ world'.assigned) (hclock : world'.clock = world.clock)
    (hlog : world'.log = world.log)
    (hlink : ∀ link ∈ world'.link,
      link.Brings (Told (world' :: worlds)) world'.subscriber.repairBuffer) :
    Lives session start (world' :: worlds) world' where
  brings := hlink
  lives := by
    rw [hsubscriber, hclock, hlog]
    exact fun bucket hmem => (V.lives bucket hmem).honest_mono hassigned fun _ _ => Lapped.later
  known := by
    rw [hsubscriber, hlog]
    exact V.known

theorem Told.later {reply : Answer} (h : Told worlds reply) : Told (world :: worlds) reply :=
  ⟨h.1, fun hnone => Lapped.later (h.2 hnone)⟩

/-- The repair server answers: where it has no message the ring has gone on. -/
theorem Lives.serve (V : Lives session start (world :: earlier) world)
    (I : Inv session world) {link : Link}
    (hlink : world.link = some link) (halive : link.alive = true) :
    ∀ link' ∈ (world.serve link).link,
      link'.Brings (Told (world.serve link :: world :: earlier)) world.subscriber.repairBuffer := by
  have B : link.Brings (Told (world.serve link :: world :: earlier))
      world.subscriber.repairBuffer :=
    (V.brings link hlink).mono fun _ => Told.later
  generalize hworlds : world.serve link :: world :: earlier = worlds at B ⊢
  unfold World.serve at hworlds ⊢
  split
  · rw [hlink]
    intro l hl
    cases hl
    exact B
  · intro l hl
    cases hl
    obtain ⟨replies, hreplies, hfront, -⟩ := B
    exact ⟨replies, hreplies, hfront, nofun⟩
  · next response rest hserve =>
    intro l hl
    cases hl
    obtain ⟨id, sequences, requests, replies, hrequest, -, -, rfl, hreplies⟩ :=
      I.replied hlink halive hserve
    refine B.answer halive (fun reply hmem => ?_) rest
    obtain ⟨G, rfl, hsequence, hlapped⟩ := hreplies reply hmem
    refine ⟨G.valid, fun hnone => ?_⟩
    have hknown : reply.bucket ∈ world.subscriber.buckets.map (·.id) := by
      by_contra hunknown
      obtain ⟨_, _, hmem, -⟩ := G.asked
      rw [V.known _ hunknown] at hmem
      cases hmem
    obtain ⟨bucket, hmem, hid⟩ := List.mem_map.mp hknown
    have L := V.lives bucket hmem
    rw [hid] at L
    obtain ⟨t, hnoticed⟩ := L.asked (newBucket_maps _ _).1 G.asked
    obtain ⟨⟨msg, hassigned⟩, -⟩ := L.noticed_assigned I.published.records hnoticed
    exact ⟨[], world, earlier, link, sequences, rest, hworlds.symm, hlink, halive,
      hrequest, hsequence, length_filter_later I.published.records (hlapped hnone msg hassigned)⟩

theorem serve_same (world : World bucketCount ringSize) (link : Link) :
    (world.serve link).subscriber = world.subscriber ∧ (world.serve link).assigned =
      world.assigned ∧
      (world.serve link).clock = world.clock ∧ (world.serve link).log = world.log := by
  unfold World.serve
  split <;> exact ⟨rfl, rfl, rfl, rfl⟩

/-! ## Calls -/

/-- The buckets live on through a call of honest acts. -/
theorem Lives.call (V : Lives session start worlds world) (I : Inv session world)
    (call : Subscriber.Call) {clock : UInt64}
    (hclock : (world.clock :: call.readings).Pairwise (· ≤ ·))
    (hlast : call.readings.getLast?.getD world.clock ≤ clock)
    (hhonest : ∀ bucket ∈ world.subscriber.buckets, ∀ acts,
      world.subscriber.Does call bucket.id acts →
      ∀ act ∈ acts, ∀ events bucket', bucket'.id = bucket.id →
        Honest world.assigned (Lapped worlds) (history bucket.id world.log ++ events) bucket' act) :
    ∀ bucket ∈ (world.subscriber.call call).1.buckets,
      Life (world.subscriber.call call).1.settings
        (Timed (Honest world.assigned (Lapped worlds))) start
        (newBucket session.firstExpected bucket.id) clock
        (history bucket.id (world.log ++ (world.subscriber.call call).2)) bucket := by
  intro bucket' hmem'
  have A := call_acted world.subscriber call
  obtain ⟨bucket, hmem, acts, hdoes, rfl, hhistory⟩ := A.exists_acts hmem'
  obtain ⟨htimed, hle⟩ := hdoes.timed hclock
  rw [settings_call, bucket.id_acts, history_append, hhistory I.tended.nodup]
  exact ((V.lives bucket hmem).acts (hhonest bucket hmem acts hdoes) htimed).wait
    (UInt64.le_trans hle hlast)

theorem Lives.call_known (V : Lives session start worlds world) (call : Subscriber.Call) :
    ∀ id, id ∉ (world.subscriber.call call).1.buckets.map (·.id) →
      history id (world.log ++ (world.subscriber.call call).2) = [] := by
  intro id hid
  have A := call_acted world.subscriber call
  rw [A.ids] at hid
  rw [history_append, V.known id hid, A.known id hid]
  rfl

omit [NeZero ringSize] in
/-- What a datagram on the socket of a bucket carries. -/
theorem honest_arrival {Lost : Nat → Nat → Prop} {history : List BucketEvent}
    (I : Inv session world)
    {id : Nat} {arrival : Arrival} {act : Act}
    (hsent : ⟨id, arrival.bytes⟩ ∈ world.sent) (hact : arrival.act id = some act)
    (hid : bucket'.id = id) :
    Honest world.assigned Lost history bucket' act := by
  obtain ⟨s, msg, hassigned, hlt, hdecode⟩ := I.published.decode hsent
  simp only [Arrival.act, hdecode] at hact
  split at hact
  · cases hact
  · cases hact
    rw [Honest, UInt64.toNat_ofNat', Nat.mod_eq_of_lt (by omega), hid]
    exact ⟨I.published.assigned_pos hassigned, hlt, hassigned⟩

/-- The frames `drain_tcp` acts on answer requests. -/
theorem Lives.frames (V : Lives session start worlds world) (I : Inv session world)
    {recvs : List Recv}
    {taken : Nat} (h : world.Receives recvs taken) : ∀ reply ∈ world.subscriber.framesRead recvs,
      reply.Genuine world.assigned world.log ∧ Told worlds reply := by
  intro reply hmem
  have C := I.connected
  rw [framesRead] at hmem
  cases hlink : world.link with
  | none =>
    rw [hlink] at C
    rw [C.1] at hmem
    cases hmem
  | some link =>
    rw [hlink] at C
    rw [if_pos C.1] at hmem
    have hbytes := h link hlink
    cases hreceive : receive world.subscriber.repairBuffer recvs with
    | none =>
      rw [hreceive] at hmem
      cases hmem
    | some bytes =>
      rw [hreceive] at hmem hbytes
      obtain ⟨replies, tail, hparse, hgenuine, -⟩ :=
        Link.Brings.parse C.2.answers (fun _ h => h.valid) hbytes
      obtain ⟨replies', tail', hparse', htold, -⟩ :=
        Link.Brings.parse (V.brings link hlink) (fun _ h => h.1) hbytes
      dsimp only at hmem
      have hsame : replies' = replies := by
        rw [hparse] at hparse'
        exact (Prod.mk.inj hparse').1.symm
      rw [hparse] at hmem
      exact ⟨hgenuine reply hmem, htold reply (hsame ▸ hmem)⟩

theorem Lives.drainTcp_brings (V : Lives session start worlds world) (I : Inv session world)
    {recvs : List Recv} {taken : Nat} (h : world.Receives recvs taken) :
    ∀ link ∈ ((world.consume taken).afterCall (.drainTcp recvs)).link,
      link.Brings (Told worlds)
        ((world.consume taken).afterCall (.drainTcp recvs)).subscriber.repairBuffer := by
  have C := I.connected
  cases hlink : world.link with
  | none =>
    rw [hlink] at C
    simp only [afterCall, consume, Subscriber.call, C.1, hlink, Option.map_none]
    intro l hl
    cases hl
  | some link =>
    rw [hlink] at C
    have hbytes := h link hlink
    simp only [afterCall, consume, Subscriber.call, C.1, if_true, hlink, Option.map_some,
      Subscriber.drainTcp]
    cases hreceive : receive world.subscriber.repairBuffer recvs with
    | none =>
      intro l hl
      cases hl
    | some bytes =>
      rw [hreceive] at hbytes
      obtain ⟨replies, tail, hparse, hgenuine, -⟩ :=
        Link.Brings.parse C.2.answers (fun _ h => h.valid) hbytes
      obtain ⟨replies', tail', hparse', -, B⟩ :=
        Link.Brings.parse (V.brings link hlink) (fun _ h => h.1) hbytes
      have M := I.tended.moved_onAnswers hgenuine
      have htail : tail' = tail := by
        rw [hparse] at hparse'
        exact (Option.some.inj (Prod.mk.inj hparse').2).symm
      simp only [frameLoop_eq _ le_rfl, hparse]
      intro l hl
      rw [resync, if_neg (by simp), List.append_nil, foldl_linkAfter_silent M.silent] at hl
      cases hl
      exact htail ▸ B

/-- Events of one bucket that ask for nothing leave the connection alone. -/
theorem foldl_linkAfter_map {link : Option Link} {id : Nat} {events : List BucketEvent}
    (h : ∀ event ∈ events, event.Silent) :
    (events.map (Event.bucket id)).foldl linkAfter link = link := by
  refine foldl_linkAfter_silent fun event hmem => ?_
  obtain ⟨event, hevent, rfl⟩ := List.mem_map.mp hmem
  exact h event hevent

theorem Lives.atBucket_brings (V : Lives session start worlds world)
    {action : Bucket → Bucket × List BucketEvent}
    (h : ∀ bucket, ∀ event ∈ (action bucket).2, event.Silent)
    (i : Nat) : ∀ link ∈ (world.subscriber.atBucket i action).2.foldl linkAfter world.link,
      link.Brings (Told worlds) (world.subscriber.atBucket i action).1.repairBuffer := by
  rw [atBucket]
  split
  · exact V.brings
  · rw [foldl_linkAfter_map (h _)]
    exact V.brings

theorem Lives.nak_brings (V : Lives session start worlds world) (I : Inv session world) (i : Nat) :
    ∀ link ∈ (world.afterCall (.nak i input)).link,
      link.Brings (Told worlds) (world.afterCall (.nak i input)).subscriber.repairBuffer := by
  simp only [afterCall, Subscriber.call]
  split
  · exact V.brings
  · next bucket hbucket =>
    rcases nak_cases world.subscriber bucket input with
      ⟨-, heq⟩ | ⟨-, subscriber', bucket', events, hasks, heq⟩
    · simp only [heq]
      exact V.brings
    · simp only [heq]
      rw [List.foldl_append, foldl_linkAfter_expired]
      exact hasks.brings I.connected V.brings

/-! ## Every step -/

theorem Lives.step [NeZero bucketCount] (V : Lives session start (world :: earlier) world)
    (I : Inv session world) (hstep : Step world world') :
    Lives session start (world' :: world :: earlier) world' := by
  have hnext : ∀ {world' : World bucketCount ringSize},
      (∀ link ∈ world'.link, link.Brings (Told (world :: earlier)) world'.subscriber.repairBuffer) →
      (∀ bucket ∈ world'.subscriber.buckets, Life world'.subscriber.settings
        (Timed (Honest world'.assigned (Lapped (world :: earlier)))) start
        (newBucket session.firstExpected bucket.id) world'.clock
        (history bucket.id world'.log) bucket) →
      (∀ id, id ∉ world'.subscriber.buckets.map (·.id) → history id world'.log = []) →
      Lives session start (world' :: world :: earlier) world' := fun hbrings hlives hknown =>
    { brings := fun link hlink => (hbrings link hlink).mono fun _ => Told.later
      lives :=
        fun bucket hmem => (hlives bucket hmem).honest_mono (List.Subset.refl _) fun _ _ =>
          Lapped.later
      known := hknown }
  have hquiet : ∀ {link : Link}, link ∈ world.link → link.Brings (Told (world' :: world :: earlier))
      world.subscriber.repairBuffer := fun hlink => (V.brings _ hlink).mono fun _ => Told.later
  cases hstep with
  | publisher call _ =>
    exact V.mono rfl (List.subset_append_left _ _) rfl rfl fun link hlink => hquiet hlink
  | serve hlink halive =>
    obtain ⟨hsubscriber, hassigned, hclock, hlog⟩ := serve_same world _
    refine V.mono hsubscriber (hassigned ▸ List.Subset.refl _) hclock hlog ?_
    rw [hsubscriber]
    exact V.serve I hlink halive
  | cut kept hlink =>
    refine V.mono rfl (List.Subset.refl _) rfl rfl fun link' hlink' => ?_
    cases hlink'
    exact (hquiet hlink).cut kept
  | @drainUdp i bucket arrivals _ hbucket hsent hclock =>
    refine hnext (V.atBucket_brings (fun _ => id_silent_drainUdp.2) i) ?_
      (V.call_known (.drainUdp i arrivals))
    refine V.call I (.drainUdp i arrivals) hclock (UInt64.le_refl _)
      fun other _ acts hdoes act hact events bucket' hid => ?_
    rcases hdoes with rfl | ⟨found, hfound, hsame, rfl⟩
    · cases hact
    · cases hbucket.symm.trans hfound
      obtain ⟨arrival, harrival, harrives⟩ := List.mem_filterMap.mp hact
      exact honest_arrival I (hsame ▸ hsent arrival harrival) harrives hid
  | drainTcp recvs taken _ hreceives =>
    refine hnext (V.drainTcp_brings I hreceives) ?_ (V.call_known (.drainTcp recvs))
    refine V.call I (.drainTcp recvs) (List.pairwise_singleton _ _) (UInt64.le_refl _)
      fun bucket _ acts hdoes act hact events bucket' hid => ?_
    obtain ⟨reply, hreply, hsame, rfl⟩ := hdoes act hact
    obtain ⟨hgenuine, htold⟩ := V.frames I hreceives reply hreply
    have hasked : Asked (history bucket.id world.log ++ events) reply.sequence :=
      asked_append.mpr (.inl (hsame ▸ hgenuine.asked))
    cases hmsg : reply.msg with
    | none => exact ⟨hasked, hid.trans hsame.symm ▸ htold.2 hmsg⟩
    | some msg => exact ⟨hasked, hid.trans hsame.symm ▸ hgenuine.published msg hmsg⟩
  | @nak i input _ _ hclock =>
    refine hnext (V.nak_brings I i) ?_ (V.call_known (.nak i input))
    refine V.call I (.nak i input) (List.pairwise_pair.mpr hclock) (UInt64.le_refl _)
      fun bucket _ acts hdoes act hact events bucket' hid => ?_
    rcases hdoes with rfl | rfl | rfl <;> simp only [List.mem_cons, List.not_mem_nil,
      or_false] at hact
    · cases hact
      trivial
    · rcases hact with rfl | rfl <;> trivial
  | @deliver i _ =>
    refine hnext (V.atBucket_brings (fun _ => (Bucket.deliverLoop_rounds _ _).id_silent.2) i) ?_
      (V.call_known (.deliver i))
    refine V.call I (.deliver i) (List.pairwise_singleton _ _) (UInt64.le_refl _)
      fun bucket _ acts hdoes act hact events bucket' hid => ?_
    rcases hdoes with rfl | rfl
    · cases hact
    · cases List.mem_singleton.mp hact
      trivial
  | again => exact hnext V.brings V.lives V.known

theorem lives_init : Lives session start [{ World.init session with clock := start }]
    ({ World.init session with clock := start } : World bucketCount ringSize) where
  brings := nofun
  lives := by
    intro bucket hmem
    obtain ⟨id, -, rfl⟩ := List.mem_map.mp hmem
    have hid : (newBucket session.firstExpected id).id = id := id_newBucket
    exact hid.symm ▸ .new
  known _ _ := rfl

theorem Run.lives [NeZero bucketCount] (h : Run session start (world :: earlier)) :
    Lives session start (world :: earlier) world := by
  generalize hworlds : world :: earlier = worlds at h
  induction h generalizing world earlier with
  | init =>
    cases hworlds
    exact lives_init
  | step hrun hstep ih =>
    cases hworlds
    exact (ih rfl).step (hrun.inv _ (.head _)) hstep

end World
end MegaFeed
