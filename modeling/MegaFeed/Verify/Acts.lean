import MegaFeed.Spec.Acts
import MegaFeed.Verify.World

/-! # Every call is a list of acts

What a call of the subscriber does to a bucket is a list of acts (`call_acted`), at the readings of
the clock the call was given. So every bucket of a run has a `Life`, and in a session one in which
only what was published and what was asked for arrives (`World.Run.life`). -/

namespace MegaFeed
namespace Subscriber

variable {settings : Settings} {Allowed : List BucketEvent → Bucket → Act → Prop}
  {start clock : UInt64}
  {first bucket : Bucket} {history : List BucketEvent}

/-! ## Lists of acts -/

theorem Bucket.id_act (bucket : Bucket) (act : Act) : (bucket.act settings act).1.id =
    bucket.id := by
  cases act with
  | accept => exact id_accept
  | frame sequence payload => exact (bucket.onFrame_answered sequence payload).id
  | expire => rfl
  | request =>
    simp only [act]
    split <;> rfl
  | deliver => exact (deliverLoop_rounds _ _).id_silent.1

theorem Bucket.id_acts (bucket : Bucket) (acts : List Act) :
    (bucket.acts settings acts).1.id = bucket.id := by
  induction acts generalizing bucket with
  | nil => rfl
  | cons first rest ih => exact (ih _).trans (bucket.id_act first)

theorem Bucket.acts_append (bucket : Bucket) (acts acts' : List Act) :
    bucket.acts settings (acts ++ acts') =
      (((bucket.acts settings acts).1.acts settings acts').1,
        (bucket.acts settings acts).2 ++
        ((bucket.acts settings acts).1.acts settings acts').2) := by
  induction acts generalizing bucket with
  | nil => rfl
  | cons first rest ih => simp only [List.cons_append, Bucket.acts, ih, List.append_assoc]

theorem Bucket.acts_singleton (bucket : Bucket) (act : Act) :
    bucket.acts settings [act] = bucket.act settings act := by
  simp [Bucket.acts]

theorem Life.acts {acts : List Act}
    (L : Life settings (Timed Allowed) start first clock history bucket)
    (hallowed : ∀ act ∈ acts, ∀ events bucket', bucket'.id = bucket.id →
      Allowed (history ++ events) bucket' act)
    (hnow : (clock :: acts.filterMap Act.now).Pairwise (· ≤ ·)) :
    Life settings (Timed Allowed) start first ((acts.filterMap Act.now).getLast?.getD clock)
      (history ++ (bucket.acts settings acts).2) (bucket.acts settings acts).1 := by
  induction acts generalizing clock history bucket with
  | nil =>
    rw [Bucket.acts, List.append_nil]
    exact L
  | cons act acts ih =>
    obtain ⟨hact, hacts⟩ := List.forall_mem_cons.mp hallowed
    have hact' := hact [] bucket rfl
    rw [List.append_nil] at hact'
    have hacts' : ∀ act' ∈ acts, ∀ events bucket', bucket'.id = (bucket.act settings act).1.id →
        Allowed (history ++ (bucket.act settings act).2 ++ events) bucket' act' := by
      intro act' hmem events bucket' hid
      rw [List.append_assoc]
      exact hacts act' hmem _ bucket' (hid.trans (bucket.id_act act))
    simp only [Bucket.acts, ← List.append_assoc]
    cases hreading : act.now with
    | none =>
      rw [List.filterMap_cons_none hreading] at hnow ⊢
      have L' := L.act act ⟨by simp [hreading], hact'⟩
      rw [hreading] at L'
      exact ih L' hacts' hnow
    | some now =>
      rw [List.filterMap_cons_some hreading] at hnow ⊢
      obtain ⟨hclock, hrest⟩ := List.pairwise_cons.mp hnow
      have L' := L.act act ⟨by simpa [hreading] using hclock now (.head _), hact'⟩
      rw [hreading] at L'
      rw [List.getLast?_cons, Option.getD_some]
      exact ih L' hacts' hrest

/-! ## One call

`Acted` says of a part of a call what it does to every bucket. Two buckets of one id share their
part of the log, so that the events of a bucket can be told only if the ids are distinct. -/

structure Acted (settings : Settings) (P : Nat → List Act → Prop) (buckets : List Bucket)
    (result : List Bucket × List Event) : Prop where
  length : result.1.length = buckets.length
  acted : ∀ (i : Nat) (bucket : Bucket), buckets[i]? = some bucket → ∃ acts, P bucket.id acts ∧
    result.1[i]? = some (bucket.acts settings acts).1 ∧
    ((buckets.map (·.id)).Nodup →
      Subscriber.history bucket.id result.2 = (bucket.acts settings acts).2)
  known : ∀ id, id ∉ buckets.map (·.id) → Subscriber.history id result.2 = []

variable {P Q : Nat → List Act → Prop} {log : List Event} {buckets buckets' buckets'' : List Bucket}
  {events events' : List Event}

theorem acted_nil (h : ∀ id, P id []) : Acted settings P buckets (buckets, []) where
  length := rfl
  acted _ bucket hi := ⟨[], h bucket.id, hi, fun _ => rfl⟩
  known _ _ := rfl

theorem Acted.ids (A : Acted settings P buckets (buckets', events)) :
    buckets'.map (·.id) = buckets.map (·.id) := by
  refine List.ext_getElem? fun i => ?_
  rw [List.getElem?_map, List.getElem?_map]
  cases hi : buckets[i]? with
  | none =>
    rw [List.getElem?_eq_none (A.length ▸ List.getElem?_eq_none_iff.mp hi)]
  | some bucket =>
    obtain ⟨acts, -, hi', -⟩ := A.acted i bucket hi
    rw [hi', Option.map_some, Option.map_some, bucket.id_acts]

theorem Acted.trans (A : Acted settings P buckets (buckets', events))
    (A' : Acted settings P buckets' (buckets'', events'))
    (h : ∀ id acts acts', P id acts → P id acts' → P id (acts ++ acts')) :
    Acted settings P buckets (buckets'', events ++ events') where
  length := A'.length.trans A.length
  acted i bucket hi := by
    obtain ⟨acts, hacts, hi', hhistory⟩ := A.acted i bucket hi
    obtain ⟨acts', hacts', hi'', hhistory'⟩ := A'.acted i _ hi'
    rw [bucket.id_acts] at hacts' hhistory'
    refine ⟨acts ++ acts', h _ _ _ hacts hacts', ?_, fun hnodup => ?_⟩
    · rw [bucket.acts_append]
      exact hi''
    · rw [history_append, hhistory hnodup, hhistory' (by rwa [A.ids]), bucket.acts_append]
  known id hid := by
    rw [history_append, A.known id hid, A'.known id (by rwa [A.ids])]
    rfl

/-- The bucket at `i` goes through `acts`, and the others are left alone. -/
theorem acted_set {i : Nat} {acts : List Act} (hi : buckets[i]? = some bucket)
    (hacts : P bucket.id acts) (h : ∀ id, P id []) (hown : Subscriber.history bucket.id events =
      (bucket.acts settings acts).2) (hother : ∀ id, id ≠ bucket.id →
      Subscriber.history id events = []) :
    Acted settings P buckets (buckets.set i (bucket.acts settings acts).1, events) where
  length := List.length_set ..
  acted j other hj := by
    by_cases heq : i = j
    · subst heq
      cases hi.symm.trans hj
      refine ⟨acts, hacts, ?_, fun _ => hown⟩
      rw [List.getElem?_set_self (List.getElem?_eq_some_iff.mp hi).1]
    · refine ⟨[], h other.id, ?_, fun hnodup => ?_⟩
      · rw [List.getElem?_set_ne heq]
        exact hj
      · refine hother other.id fun hsame => heq ?_
        have hids : ∀ (k : Nat) (b : Bucket), buckets[k]? = some b →
            (buckets.map (·.id))[k]? = some b.id := fun k b hk => by rw [List.getElem?_map, hk]; rfl
        refine (List.getElem?_inj ?_ hnodup).mp ((hids i bucket hi).trans ?_)
        · rw [List.length_map]
          exact (List.getElem?_eq_some_iff.mp hi).1
        · rw [hids j other hj, hsame]
  known id hid := hother id fun hsame => hid (hsame ▸ List.mem_map_of_mem (List.mem_of_getElem? hi))

/-! ### Datagrams -/

theorem drainUdp_acts (bucket : Bucket) (arrivals : List Arrival) :
    drainUdp settings.backfill bucket arrivals =
      bucket.acts settings (arrivals.filterMap (·.act bucket.id)) := by
  induction arrivals generalizing bucket with
  | nil => rfl
  | cons arrival arrivals ih =>
    rw [drainUdp, onDatagram]
    dsimp only
    cases hdecode : dgramDecode (arrival.bytes.take 512) with
    | none =>
      rw [List.filterMap_cons_none (by simp only [Arrival.act, hdecode]), ← ih]
      rfl
    | some datagram =>
      dsimp only
      split
      · next hother =>
        rw [List.filterMap_cons_none (by simp only [Arrival.act, hdecode, if_pos hother]), ← ih]
        rfl
      · next hown =>
        have hact : arrival.act bucket.id =
            some (.accept datagram.sequence.toNat datagram.message arrival.now) := by
          simp only [Arrival.act, hdecode, if_neg hown]
        rw [List.filterMap_cons_some hact, ih, Bucket.id_accept]
        rfl

variable {subscriber : Subscriber} {i : Nat}

theorem atBucket_acted {action : Bucket → Bucket × List BucketEvent} {acts : Bucket → List Act}
    (h : ∀ bucket, action bucket = bucket.acts settings (acts bucket))
    (hacts : ∀ bucket, subscriber.buckets[i]? = some bucket → P bucket.id (acts bucket))
    (hnil : ∀ id, P id []) :
    Acted settings P subscriber.buckets
      ((subscriber.atBucket i action).1.buckets, (subscriber.atBucket i action).2) := by
  rw [atBucket]
  split
  · exact acted_nil hnil
  · next bucket hi =>
    dsimp only
    rw [h bucket]
    exact acted_set hi (hacts bucket hi) hnil history_map_same fun id hne =>
      history_map_other hne.symm

theorem drainUdp_acted {arrivals : List Arrival}
    (hacts : ∀ bucket, subscriber.buckets[i]? = some bucket →
      P bucket.id (arrivals.filterMap (·.act bucket.id)))
    (hnil : ∀ id, P id []) :
    Acted subscriber.settings P subscriber.buckets
      ((subscriber.call (.drainUdp i arrivals)).1.buckets,
        (subscriber.call (.drainUdp i arrivals)).2) :=
  atBucket_acted (fun bucket => @drainUdp_acts subscriber.settings bucket arrivals) hacts hnil

theorem deliver_acted (hacts : ∀ id, P id [.deliver]) (hnil : ∀ id, P id []) :
    Acted subscriber.settings P subscriber.buckets
      ((subscriber.call (.deliver i)).1.buckets, (subscriber.call (.deliver i)).2) :=
  have h : ∀ bucket : Bucket, bucket.deliver = bucket.acts subscriber.settings [.deliver] :=
    fun bucket => (bucket.acts_singleton .deliver).symm
  atBucket_acted h (fun bucket _ => hacts bucket.id) hnil

/-! ### Frames -/

theorem onAnswers_acted {replies : List Answer}
    (hacts : ∀ reply ∈ replies, P reply.bucket [.frame reply.sequence reply.msg])
    (hnil : ∀ id, P id [])
    (happend : ∀ id acts acts', P id acts → P id acts' → P id (acts ++ acts')) :
    Acted settings P buckets (onAnswers buckets replies) := by
  induction replies generalizing buckets with
  | nil => exact acted_nil hnil
  | cons reply replies ih =>
    obtain ⟨hreply, hreplies⟩ := List.forall_mem_cons.mp hacts
    have hfirst : Acted settings P buckets
        (withBucket reply.bucket (·.onFrame reply.sequence reply.msg) buckets) := by
      rcases withBucket_cases reply.bucket (·.onFrame reply.sequence reply.msg) buckets with
        hnone | ⟨i, bucket, hi, hid, heq⟩
      · rw [hnone]
        exact acted_nil hnil
      · have hframe : bucket.onFrame reply.sequence reply.msg =
            bucket.acts settings [.frame reply.sequence reply.msg] :=
          (bucket.acts_singleton (.frame reply.sequence reply.msg)).symm
        rw [heq, hframe, ← hid]
        exact acted_set hi (hid ▸ hreply) hnil history_map_same fun id hne =>
          history_map_other hne.symm
    exact hfirst.trans (ih hreplies) happend

theorem history_resync {id : Nat} {rest : Option Bytes} :
    Subscriber.history id (resync rest) = [] := by
  unfold resync
  split <;> rfl

theorem Acted.append_quiet (A : Acted settings P buckets (buckets', events))
    (h : ∀ id, Subscriber.history id events' = []) :
    Acted settings P buckets (buckets', events ++ events') where
  length := A.length
  acted i bucket hi := by
    obtain ⟨acts, hacts, hi', hhistory⟩ := A.acted i bucket hi
    exact ⟨acts, hacts, hi', fun hnodup => by
      rw [history_append, h, List.append_nil, hhistory hnodup]⟩
  known id hid := by
    rw [history_append, A.known id hid, h]
    rfl

/-- The frames `drain_tcp` acts on. -/
def framesRead (subscriber : Subscriber) (recvs : List Recv) : List Answer :=
  if subscriber.repairOpen then
    match receive subscriber.repairBuffer recvs with
    | none => []
    | some bytes => (parse bytes).1
  else []

theorem drainTcp_acted {recvs : List Recv}
    (hacts : ∀ reply ∈ subscriber.framesRead recvs,
      P reply.bucket [.frame reply.sequence reply.msg])
    (hnil : ∀ id, P id [])
    (happend : ∀ id acts acts', P id acts → P id acts' → P id (acts ++ acts')) :
    Acted subscriber.settings P subscriber.buckets
      ((subscriber.call (.drainTcp recvs)).1.buckets, (subscriber.call (.drainTcp recvs)).2) := by
  rw [framesRead] at hacts
  rw [call]
  split
  · next hopen =>
    rw [if_pos hopen] at hacts
    rw [drainTcp]
    cases hreceive : receive subscriber.repairBuffer recvs with
    | none =>
      have hquiet : ∀ id, Subscriber.history id [Event.closed] = [] := fun _ => rfl
      exact (acted_nil hnil).append_quiet hquiet
    | some bytes =>
      rw [hreceive] at hacts
      have A : Acted subscriber.settings P subscriber.buckets
          (onAnswers subscriber.buckets (parse bytes).1) := onAnswers_acted hacts hnil happend
      have A' := A.append_quiet fun id => @history_resync id (parse bytes).2
      dsimp only
      rw [frameLoop_eq _ le_rfl]
      generalize (parse bytes).2 = rest at A' ⊢
      cases rest with
      | none => exact A'
      | some rest => exact A'
  · exact acted_nil hnil

/-! ### Requests -/

theorem Asks.acted {input : NakInput} {subscriber' : Subscriber} {bucket' : Bucket}
    (h : Asks subscriber bucket input (subscriber', bucket', events)) :
    ∃ acts, (acts = [] ∨ acts = [.request input.now]) ∧
      bucket' = (bucket.acts subscriber.settings acts).1 ∧
      Subscriber.history bucket.id events = (bucket.acts subscriber.settings acts).2 := by
  cases h with
  | waits => exact ⟨[], .inl rfl, rfl, rfl⟩
  | refused => exact ⟨[], .inl rfl, rfl, rfl⟩
  | failed =>
    refine ⟨[], .inl rfl, rfl, ?_⟩
    rw [history_append, history_connected]
    rfl
  | written sequences hready hdue hpos =>
    have hsome :
        ¬(bucket.toRequest input.now subscriber.nakDelayNs subscriber.nakRepeatNs).isEmpty := by
      rw [← hdue]
      exact fun hnone => absurd hpos (by simp [List.isEmpty_iff.mp hnone])
    have hrequest : bucket.act subscriber.settings (.request input.now) =
        (bucket.stamp sequences input.now, [.requested sequences input.now]) := by
      rw [hdue]
      exact if_neg hsome
    refine ⟨[.request input.now], .inr rfl, ?_, ?_⟩
    · rw [Bucket.acts_singleton, hrequest]
    · rw [history_append, history_connected, Bucket.acts_singleton, hrequest, history_same]
      rfl

theorem nak_acted {input : NakInput} (hnil : ∀ id, P id [])
    (hexpire : ∀ id, P id [.expire input.now])
    (hrequest : ∀ id, P id [.expire input.now, .request input.now]) :
    Acted subscriber.settings P subscriber.buckets
      ((subscriber.call (.nak i input)).1.buckets, (subscriber.call (.nak i input)).2) := by
  rw [call]
  split
  · exact acted_nil hnil
  · next bucket hi =>
    rcases nak_cases subscriber bucket input with
      ⟨-, heq⟩ | ⟨-, subscriber', bucket', events, hasks, heq⟩
    · rw [heq]
      exact acted_set hi (hnil _) hnil rfl fun _ _ => rfl
    · rw [heq]
      dsimp only
      obtain ⟨acts, hacts, hbucket, hhistory⟩ := hasks.acted
      rw [hasks.subscriber_eq.1, hbucket]
      have hboth : ∀ id, P id (.expire input.now :: acts) := by
        rcases hacts with rfl | rfl
        · exact hexpire
        · exact hrequest
      have hown : Subscriber.history bucket.id ((bucket.expire input.now subscriber.giveupNs).2.map
          (.bucket bucket.id) ++ events) =
          (bucket.acts subscriber.settings (.expire input.now :: acts)).2 := by
        rw [history_append, history_map_same]
        exact congrArg _ hhistory
      refine @acted_set subscriber.settings bucket P subscriber.buckets _ i _ hi (hboth _) hnil hown
        fun id hne => ?_
      rw [history_append, history_map_other hne.symm, hasks.history_other hne]
      rfl

/-! ### Every call -/

/-- What a call may do to a bucket. -/
def Does (subscriber : Subscriber) : Call → Nat → List Act → Prop
  | .drainUdp i arrivals, id, acts => acts = [] ∨ ∃ bucket, subscriber.buckets[i]? = some bucket ∧
      bucket.id = id ∧ acts = arrivals.filterMap (·.act id)
  | .drainTcp recvs, id, acts => ∀ act ∈ acts, ∃ reply ∈ subscriber.framesRead recvs,
      reply.bucket = id ∧ act = .frame reply.sequence reply.msg
  | .nak _ input, _, acts =>
      acts = [] ∨ acts = [.expire input.now] ∨ acts = [.expire input.now, .request input.now]
  | .deliver _, _, acts => acts = [] ∨ acts = [.deliver]

/-- A call is a list of acts for every bucket. -/
theorem call_acted (subscriber : Subscriber) (call : Call) :
    Acted subscriber.settings (subscriber.Does call) subscriber.buckets
      ((subscriber.call call).1.buckets, (subscriber.call call).2) := by
  cases call with
  | drainUdp i arrivals =>
    exact drainUdp_acted (fun bucket hi => .inr ⟨bucket, hi, rfl, rfl⟩) fun _ => .inl rfl
  | drainTcp recvs =>
    refine drainTcp_acted (fun reply hmem act hact => ?_) (fun _ act hact => nomatch hact)
      fun _ acts acts' h h' act hact => (List.mem_append.mp hact).elim (h act) (h' act)
    exact ⟨reply, hmem, rfl, List.mem_singleton.mp hact⟩
  | nak i input =>
    exact nak_acted (fun _ => .inl rfl) (fun _ => .inr (.inl rfl)) fun _ => .inr (.inr rfl)
  | deliver i => exact deliver_acted (fun _ => .inr rfl) fun _ => .inl rfl

theorem settings_call (subscriber : Subscriber) (call : Call) :
    (subscriber.call call).1.settings = subscriber.settings := by
  have hat : ∀ i action, (subscriber.atBucket i action).1.settings = subscriber.settings := by
    intro i action
    rw [atBucket]
    split <;> rfl
  cases call with
  | drainUdp i arrivals => exact hat i _
  | drainTcp recvs =>
    rw [Subscriber.call]
    split
    · rw [drainTcp]
      split
      · rfl
      · split <;> rfl
    · rfl
  | nak i input =>
    rw [Subscriber.call]
    split
    · rfl
    · next bucket _ =>
      rcases nak_cases subscriber bucket input with ⟨-, heq⟩ | ⟨-, _, _, _, hasks, heq⟩
      · rw [heq]
        rfl
      · rw [heq]
        cases hasks <;> rfl
  | deliver i => exact hat i _

theorem filterMap_now_arrivals (arrivals : List Arrival) (id : Nat) :
    ((arrivals.filterMap (·.act id)).filterMap Act.now).Sublist (arrivals.map (·.now)) := by
  induction arrivals with
  | nil => exact .slnil
  | cons arrival arrivals ih =>
    cases hact : arrival.act id with
    | none =>
      rw [List.filterMap_cons_none hact]
      exact ih.cons _
    | some act =>
      have hnow : act.now = some arrival.now := by
        unfold Arrival.act at hact
        split at hact
        · cases hact
        · split at hact <;> cases hact
          rfl
      rw [List.filterMap_cons_some hact, List.filterMap_cons_some hnow]
      exact ih.cons_cons _

/-- In a row of clock readings none is later than the last. -/
theorem le_last {now : UInt64} {times : List UInt64} (h : (now :: times).Pairwise (· ≤ ·)) :
    ∀ t ∈ now :: times, t ≤ times.getLast?.getD now := by
  induction times generalizing now with
  | nil =>
    intro t ht
    rw [List.mem_singleton.mp ht]
    exact UInt64.le_refl _
  | cons next times ih =>
    obtain ⟨hfirst, hrest⟩ := List.pairwise_cons.mp h
    have hlast := ih hrest
    rw [List.getLast?_cons, Option.getD_some]
    intro t ht
    rcases List.mem_cons.mp ht with rfl | ht
    · exact UInt64.le_trans (hfirst next (.head _)) (hlast next (.head _))
    · exact hlast t ht

theorem last_mem {now : UInt64} {times : List UInt64} : times.getLast?.getD now ∈ now :: times := by
  cases hlast : times.getLast? with
  | none => exact .head _
  | some last => exact .tail _ (List.mem_of_getLast? hlast)

/-- The acts of a call are at readings the call was given. -/
theorem Does.timed {call : Call} {id : Nat} {acts : List Act} (h : subscriber.Does call id acts)
    (hclock : (clock :: call.readings).Pairwise (· ≤ ·)) :
    (clock :: acts.filterMap Act.now).Pairwise (· ≤ ·) ∧
      (acts.filterMap Act.now).getLast?.getD clock ≤ call.readings.getLast?.getD clock := by
  have hquiet : acts.filterMap Act.now = [] → (clock :: acts.filterMap Act.now).Pairwise (· ≤ ·) ∧
      (acts.filterMap Act.now).getLast?.getD clock ≤ call.readings.getLast?.getD clock := by
    intro hnone
    rw [hnone]
    exact ⟨List.pairwise_singleton _ _, le_last hclock _ (.head _)⟩
  cases call with
  | drainUdp i arrivals =>
    rcases h with rfl | ⟨bucket, -, -, rfl⟩
    · exact hquiet rfl
    · have hsub := (filterMap_now_arrivals arrivals id).cons_cons clock
      exact ⟨hclock.sublist hsub, le_last hclock _ (hsub.subset last_mem)⟩
  | drainTcp recvs =>
    refine hquiet (List.filterMap_eq_nil_iff.mpr fun act hact => ?_)
    obtain ⟨reply, -, -, rfl⟩ := h act hact
    rfl
  | nak i input =>
    have hle : clock ≤ input.now := (List.pairwise_cons.mp hclock).1 _ (.head _)
    rcases h with rfl | rfl | rfl
    · exact hquiet rfl
    · exact ⟨hclock, UInt64.le_refl _⟩
    · have hsame : input.now ≤ input.now := UInt64.le_refl _
      refine ⟨?_, hsame⟩
      simp [Act.now, hle]
  | deliver i =>
    rcases h with rfl | rfl <;> exact hquiet rfl

theorem Acted.exists_acts (A : Acted settings P buckets (buckets', events)) {bucket' : Bucket}
    (hmem : bucket' ∈ buckets') : ∃ bucket ∈ buckets, ∃ acts, P bucket.id acts ∧
      bucket' = (bucket.acts settings acts).1 ∧
      ((buckets.map (·.id)).Nodup →
        Subscriber.history bucket.id events = (bucket.acts settings acts).2) := by
  obtain ⟨i, hi'⟩ := List.getElem?_of_mem hmem
  have hlt : i < buckets.length := A.length ▸ (List.getElem?_eq_some_iff.mp hi').1
  obtain ⟨acts, hacts, hi'', hhistory⟩ := A.acted i _ (List.getElem?_eq_getElem hlt)
  exact ⟨_, List.getElem_mem hlt, acts, hacts, Option.some.inj (hi'.symm.trans hi''), hhistory⟩

/-! ## Runs -/

/-- Sequence numbers have 64 bits. -/
def Bounded (_ : List BucketEvent) (_ : Bucket) : Act → Prop
  | .accept sequence _ _ => sequence < 2 ^ 64
  | _ => True

theorem Does.bounded {call : Call} {id : Nat} {acts : List Act} (h : subscriber.Does call id acts) :
    ∀ act ∈ acts, Bounded history bucket act := by
  intro act hact
  cases call with
  | drainUdp i arrivals =>
    rcases h with rfl | ⟨_, -, -, rfl⟩
    · cases hact
    · obtain ⟨arrival, -, heq⟩ := List.mem_filterMap.mp hact
      unfold Arrival.act at heq
      split at heq
      · cases heq
      · split at heq <;> cases heq
        exact UInt64.toNat_lt _
  | drainTcp recvs =>
    obtain ⟨reply, -, -, rfl⟩ := h act hact
    trivial
  | nak i input =>
    rcases h with rfl | rfl | rfl <;> simp only [List.mem_cons, List.not_mem_nil, or_false] at hact
    · cases hact
      trivial
    · rcases hact with rfl | rfl <;> trivial
  | deliver i =>
    rcases h with rfl | rfl
    · cases hact
    · cases List.mem_singleton.mp hact
      trivial

/-- Every bucket lives through a run of calls at readings of a clock that goes forward. -/
theorem run_life {calls : List Call} {firstExpected : UInt64}
    (hlife : ∀ bucket ∈ subscriber.buckets, ∃ id history,
      Life settings (Timed Bounded) start (newBucket firstExpected id) clock history bucket)
    (hsettings : subscriber.settings = settings)
    (hclock : (clock :: calls.flatMap Call.readings).Pairwise (· ≤ ·)) :
    ∀ bucket ∈ (subscriber.run calls).1.buckets, ∃ id history,
      Life settings (Timed Bounded) start (newBucket firstExpected id)
        ((calls.flatMap Call.readings).getLast?.getD clock) history bucket := by
  induction calls generalizing subscriber clock with
  | nil => exact hlife
  | cons call calls ih =>
    rw [List.flatMap_cons, ← List.cons_append, List.pairwise_append] at hclock
    obtain ⟨hcall, hcalls, hacross⟩ := hclock
    have hnext :
        (call.readings.getLast?.getD clock :: calls.flatMap Call.readings).Pairwise (· ≤ ·) :=
      List.pairwise_cons.mpr ⟨fun t ht => hacross _ last_mem t ht, hcalls⟩
    have hlast : (List.flatMap Call.readings (call :: calls)).getLast?.getD clock =
        (calls.flatMap Call.readings).getLast?.getD (call.readings.getLast?.getD clock) := by
      rw [List.flatMap_cons, List.getLast?_append]
      cases (calls.flatMap Call.readings).getLast? <;> rfl
    rw [run, hlast]
    refine ih (fun bucket' hmem => ?_) ((settings_call subscriber call).trans hsettings) hnext
    obtain ⟨bucket, hbucket, acts, hdoes, rfl, -⟩ := (call_acted subscriber call).exists_acts hmem
    obtain ⟨id, history, L⟩ := hlife bucket hbucket
    obtain ⟨htimed, hle⟩ := hdoes.timed hcall
    rw [hsettings]
    exact ⟨id, _, (L.acts (fun act hact _ _ _ => hdoes.bounded act hact) htimed).wait hle⟩

end Subscriber
end MegaFeed
