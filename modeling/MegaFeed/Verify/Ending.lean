import MegaFeed.Verify.ExactlyOnce
import MegaFeed.Verify.NoWedge
import MegaFeed.Verify.Pipeline
import MegaFeed.Verify.RealLoss

/-! # The stream ends

Once the end marker of a bucket has arrived no new hole can open: everything up to the marker is
parked, missing or written off, and nothing comes behind it (`Settled`). The holes there are age,
and `nak` writes off what is past the deadline, so `deliver` gets through to the marker:
`ends_in_time` says by when, whatever the network loses, delays or repeats, and whether or not the
repair server ever answers. -/

namespace MegaFeed
open FeedPublisher Subscriber
open Std (ExtTreeMap ExtTreeSet)

namespace Subscriber

variable {settings : Settings} {e : Nat} {t now : UInt64} {bucket bucket' : Bucket}
  {events : List BucketEvent}

theorem of_mem_arrived {history : List BucketEvent} (h : s ∈ arrived history) :
    .arrived s ∈ history := by
  obtain ⟨event, hmem, hevent⟩ := List.mem_filterMap.mp h
  cases event <;> cases hevent
  exact hmem

theorem foldl_max_le {l : List Nat} {a b : Nat} (ha : a ≤ b) (h : ∀ x ∈ l, x ≤ b) :
    l.foldl max a ≤ b := by
  induction l generalizing a with
  | nil => exact ha
  | cons x l ih =>
    obtain ⟨hx, hl⟩ := List.forall_mem_cons.mp h
    exact ih (Nat.max_le.mpr ⟨ha, hx⟩) hl

theorem of_mem_outcomes {history : List BucketEvent} (h : (s, .unrecoverable) ∈ outcomes history) :
    .unrecoverable s ∈ history := by
  obtain ⟨event, hmem, hevent⟩ := List.mem_filterMap.mp h
  cases event <;> cases hevent
  exact hmem

/-- Every number up to `e` has its place, none is beyond it, and the holes were noticed by the
time `t`. -/
structure Settled (e : Nat) (t : UInt64) (bucket : Bucket) : Prop where
  synced : bucket.synced = true
  frontier : Frontier (e + 1) bucket
  parked : ∀ s ∈ bucket.parked, s ≤ e
  gone : ∀ s ∈ bucket.gone, s ≤ e
  dated : HolesSatisfy (fun _ hole => hole.noticed ≤ t) bucket

/-- What arrives is not beyond `e`. -/
def Act.Within (e : Nat) : Act → Prop
  | .accept sequence _ _ | .frame sequence _ => sequence ≤ e
  | .expire _ | .request _ | .deliver => True

/-- A datagram opens no hole. -/
theorem Settled.accept (H : Settled e t bucket) {backfill sequence : Nat} {msg : OrderMessage}
    (hle : sequence ≤ e) : Settled e t (bucket.acceptOrderMessage backfill sequence msg now).1 := by
  rw [Bucket.accept_eq H.synced]
  split
  · exact ⟨H.synced, ⟨H.frontier.next_le, H.frontier.holes, H.frontier.covered⟩, H.parked,
      H.gone, H.dated⟩
  · have F : Frontier _ (bucket.park sequence msg now) := H.frontier.park
    rw [Nat.max_eq_left (Nat.succ_le_succ hle)] at F
    refine ⟨H.synced, F, fun s hs => ?_, H.gone, fun s hole hs => ?_⟩
    · rcases Bucket.mem_park_parked.mp hs with rfl | hs
      · exact hle
      · exact H.parked s hs
    · rw [Bucket.getElem?_park_holes] at hs
      split at hs
      · cases hs
      · split at hs
        · next hmissing =>
          have hbehind := H.frontier.le_missing hmissing
          have hbefore := (Bucket.mem_missing.mp hmissing).2.1
          omega
        · exact H.dated s hole hs

theorem Settled.onFrame (H : Settled e t bucket) {sequence : Nat} {payload : Option OrderMessage}
    (hle : sequence ≤ e) : Settled e t (bucket.onFrame sequence payload).1 := by
  have A := bucket.onFrame_answered sequence payload
  refine ⟨A.synced.trans H.synced, H.frontier.answered A, fun s hs => ?_, fun s hs => ?_,
    H.dated.onFrame⟩
  · rcases A.mem_parked hs with hs | rfl
    · exact H.parked s hs
    · exact hle
  · rcases (A.gone s).mp hs with hs | ⟨rfl, -⟩
    · exact H.gone s hs
    · exact hle

theorem Settled.expire (H : Settled e t bucket) {giveup : UInt64} :
    Settled e t (bucket.expire now giveup).1 := by
  refine ⟨H.synced, H.frontier.expire, H.parked, fun s hs => ?_, H.dated.expire⟩
  rcases Bucket.mem_expire_gone.mp hs with hs | hs
  · exact Nat.le_of_lt_succ (H.frontier.holes s (Bucket.mem_expired hs)).2.1
  · exact H.gone s hs

theorem Settled.stamp (H : Settled e t bucket) {sequences : List Nat} :
    Settled e t (bucket.stamp sequences now) := by
  refine ⟨H.synced, ⟨H.frontier.next_le, fun s hs => ?_, fun s hfrom hto => ?_⟩, H.parked, H.gone,
    H.dated.stamp fun s _ hole h => h⟩
  · exact H.frontier.holes s (Bucket.mem_stamp_holes.mp hs)
  · rw [Bucket.mem_stamp_holes]
    exact H.frontier.covered s hfrom hto

theorem Settled.rounds (H : Settled e t bucket) (he : e + 1 < 2 ^ 64)
    (h : bucket.Rounds events bucket') :
    Settled e t bucket' := by
  induction h with
  | nil => exact H
  | @cons bucket next _ _ _ hround _ ih =>
    obtain ⟨outcome, P⟩ := hround.passes
    have hle : bucket.nextSequence ≤ e := P.ready.elim (H.parked _) (H.gone _)
    have hnext := P.next
    rw [Nat.mod_eq_of_lt (by omega)] at hnext
    refine ih ⟨P.synced.trans H.synced, H.frontier.pass P hnext (Nat.lt_succ_of_le hle),
      fun s hs => ?_, fun s hs => H.gone s (P.mem_gone hs), fun s hole hs =>
        H.dated s hole (P.holes ▸ hs)⟩
    obtain ⟨msg, hmsg⟩ := ExtTreeMap.exists_of_mem hs
    exact H.parked s (ExtTreeMap.mem_of_getElem? (P.getElem?_parked hmsg))

theorem Settled.act {act : Act} (H : Settled e t bucket) (he : e + 1 < 2 ^ 64)
    (hwithin : act.Within e) :
    Settled e t (bucket.act settings act).1 := by
  cases act with
  | accept sequence msg now => exact H.accept hwithin
  | frame sequence payload => exact H.onFrame hwithin
  | expire now => exact H.expire
  | request now =>
    simp only [Bucket.act]
    split
    · exact H
    · exact H.stamp
  | deliver => exact H.rounds he (Bucket.deliverLoop_rounds _ _)

theorem Settled.acts {acts : List Act} (H : Settled e t bucket) (he : e + 1 < 2 ^ 64)
    (hwithin : ∀ act ∈ acts, act.Within e) : Settled e t (bucket.acts settings acts).1 := by
  induction acts generalizing bucket with
  | nil => exact H
  | cons act acts ih =>
    obtain ⟨hact, hacts⟩ := List.forall_mem_cons.mp hwithin
    exact ih (H.act he hact) hacts

/-- A bucket that has passed `e`, the last number there is: it is done and misses nothing. -/
structure AtRest (e : Nat) (bucket : Bucket) : Prop where
  synced : bucket.synced = true
  done : bucket.done = true
  passed : e < bucket.nextSequence
  holes : ∀ s, s ∉ bucket.holes

/-- Only datagrams and frames that come too late. -/
def Late (event : BucketEvent) : Prop :=
  (∃ s, event = .arrived s) ∨ ∃ s payload, event = .frame s payload

/-- At most more duplicates have been counted. -/
def Undisturbed (bucket bucket' : Bucket) : Prop :=
  bucket' = { bucket with stats.duplicates := bucket'.stats.duplicates } ∧
    bucket.stats.duplicates ≤ bucket'.stats.duplicates

theorem undisturbed_refl (bucket : Bucket) : Undisturbed bucket bucket := ⟨rfl, le_rfl⟩

theorem Undisturbed.trans {bucket bucket' bucket'' : Bucket} (h : Undisturbed bucket bucket')
    (h' : Undisturbed bucket' bucket'') : Undisturbed bucket bucket'' := by
  refine ⟨h'.1.trans ?_, h.2.trans h'.2⟩
  rw [h.1]

theorem AtRest.act {act : Act} (R : AtRest e bucket) (settings : Settings)
    (hwithin : act.Within e) :
    AtRest e (bucket.act settings act).1 ∧ (∀ event ∈ (bucket.act settings act).2, Late event) ∧
    Undisturbed bucket (bucket.act settings act).1 := by
  have hempty : bucket.holes.toList = [] :=
    List.eq_nil_iff_forall_not_mem.mpr fun p hp => R.holes p.1 (Bucket.mem_toList_keys hp)
  cases act with
  | accept sequence msg now =>
    have hpassed : sequence < bucket.nextSequence := Nat.lt_of_le_of_lt hwithin R.passed
    simp only [Bucket.act, Bucket.accept_eq R.synced, if_pos (Or.inl hpassed)]
    exact ⟨⟨R.synced, R.done, R.passed, R.holes⟩,
      List.forall_mem_singleton.mpr (.inl ⟨_, rfl⟩), rfl,
      Nat.le_succ _⟩
  | frame sequence payload =>
    have hpassed : ¬sequence ≥ bucket.nextSequence :=
      Nat.not_le.mpr (Nat.lt_of_le_of_lt hwithin R.passed)
    have hlate : ∀ event ∈ (bucket.act settings (.frame sequence payload)).2, Late event :=
      List.forall_mem_singleton.mpr (.inr ⟨_, _, rfl⟩)
    have hholes : bucket.holes.erase sequence = bucket.holes := by
      rw [ExtTreeMap.eq_empty_iff_forall_not_mem.mpr R.holes]
      exact ExtTreeMap.erase_empty
    have hsame : (bucket.act settings (.frame sequence payload)).1 = bucket := by
      cases payload <;> simp only [Bucket.act, Bucket.onFrame, hpassed, false_and, if_false, hholes]
    exact ⟨hsame.symm ▸ R, hlate, hsame.symm ▸ undisturbed_refl bucket⟩
  | expire now =>
    have hnone : bucket.expired now settings.giveupNs = [] := by rw [Bucket.expired, hempty]; rfl
    simp only [Bucket.act, Bucket.expire_eq, hnone, List.map_nil]
    exact ⟨⟨R.synced, R.done, R.passed, R.holes⟩, fun event hmem => absurd hmem List.not_mem_nil,
      undisturbed_refl bucket⟩
  | request now =>
    have hnone : bucket.toRequest now settings.nakDelayNs settings.nakRepeatNs = [] := by
      rw [Bucket.toRequest, hempty]
      rfl
    simp only [Bucket.act, hnone, List.isEmpty_nil, if_true]
    exact ⟨R, fun event hmem => absurd hmem List.not_mem_nil, undisturbed_refl bucket⟩
  | deliver =>
    have hnothing : bucket.deliver = (bucket, []) := by
      rw [Bucket.deliver]
      cases bucket.parked.size + bucket.gone.size with
      | zero => rfl
      | succ fuel => rw [Bucket.deliverLoop, if_pos R.done]
    rw [Bucket.act, hnothing]
    exact ⟨R, fun event hmem => absurd hmem List.not_mem_nil, undisturbed_refl bucket⟩

theorem AtRest.acts {acts : List Act} (R : AtRest e bucket) (settings : Settings)
    (hwithin : ∀ act ∈ acts, act.Within e) :
    AtRest e (bucket.acts settings acts).1 ∧ (∀ event ∈ (bucket.acts settings acts).2, Late event) ∧
    Undisturbed bucket (bucket.acts settings acts).1 := by
  induction acts generalizing bucket with
  | nil => exact ⟨R, fun event hmem => absurd hmem List.not_mem_nil, undisturbed_refl bucket⟩
  | cons act acts ih =>
    obtain ⟨hact, hacts⟩ := List.forall_mem_cons.mp hwithin
    obtain ⟨R', hevents, hsame⟩ := R.act settings hact
    obtain ⟨R'', hevents', hsame'⟩ := ih R' hacts
    exact ⟨R'', fun event hmem => (List.mem_append.mp hmem).elim (hevents event) (hevents' event),
      hsame.trans hsame'⟩

end Subscriber

namespace World

variable {bucketCount ringSize : Nat} [NeZero bucketCount] [NeZero ringSize] {session : Session}
  {start : UInt64} {world world' : World bucketCount ringSize}
  {worlds earlier : List (World bucketCount ringSize)} {id e : Nat} {t : UInt64}
  {marker : OrderMessage}

omit [NeZero bucketCount] [NeZero ringSize] in
/-- Nothing is published behind the end marker. -/
theorem Inv.le_marker (I : Inv session world) (hmarker : ⟨id, e, marker⟩ ∈ world.assigned)
    (htype : marker.type = ascii 'E') {s : Nat} {msg : OrderMessage}
    (h : ⟨id, s, msg⟩ ∈ world.assigned) :
    s ≤ e := by
  by_contra hlt
  exact not_ended_of_later I.published hmarker h (Nat.not_le.mp hlt) htype

/-- What a step does to a bucket is a list of acts that an honest publisher allows. -/
theorem Lives.step_acts (V : Lives session start worlds world) (I : Inv session world)
    (hstep : Step world world') {bucket' : Subscriber.Bucket}
    (hmem' : bucket' ∈ world'.subscriber.buckets) :
    ∃ bucket ∈ world.subscriber.buckets, ∃ acts,
      bucket' = (bucket.acts world.subscriber.settings acts).1 ∧
      history bucket.id world'.log =
        history bucket.id world.log ++ (bucket.acts world.subscriber.settings acts).2 ∧
      ∀ act ∈ acts, Honest world.assigned (Lapped worlds) (history bucket.id world.log)
        bucket act := by
  have hcall : ∀ {before : World bucketCount ringSize} (call : Subscriber.Call),
      before.subscriber = world.subscriber → before.log = world.log →
      bucket' ∈ (before.afterCall call).subscriber.buckets →
      (∀ bucket ∈ world.subscriber.buckets, ∀ acts, world.subscriber.Does call bucket.id acts →
        ∀ act ∈ acts,
        Honest world.assigned (Lapped worlds) (history bucket.id world.log) bucket act) →
      ∃ bucket ∈ world.subscriber.buckets, ∃ acts,
        bucket' = (bucket.acts world.subscriber.settings acts).1 ∧
        history bucket.id (before.afterCall call).log =
          history bucket.id world.log ++ (bucket.acts world.subscriber.settings acts).2 ∧
        ∀ act ∈ acts, Honest world.assigned (Lapped worlds) (history bucket.id world.log)
          bucket act := by
    intro before call hsubscriber hlog hmem hhonest
    simp only [afterCall, hsubscriber, hlog] at hmem ⊢
    obtain ⟨bucket, hbucket, acts, hdoes, heq, hhistory⟩ :=
      (call_acted world.subscriber call).exists_acts hmem
    exact ⟨bucket, hbucket, acts, heq, by rw [history_append, hhistory I.tended.nodup],
      hhonest bucket hbucket acts hdoes⟩
  have hidle : world'.subscriber = world.subscriber → world'.log = world.log →
      ∃ bucket ∈ world.subscriber.buckets, ∃ acts,
        bucket' = (bucket.acts world.subscriber.settings acts).1 ∧
        history bucket.id world'.log =
          history bucket.id world.log ++ (bucket.acts world.subscriber.settings acts).2 ∧
        ∀ act ∈ acts, Honest world.assigned (Lapped worlds) (history bucket.id world.log)
          bucket act := by
    intro hsubscriber hlog
    rw [hsubscriber] at hmem'
    refine ⟨bucket', hmem', [], rfl, ?_, fun act hact => absurd hact List.not_mem_nil⟩
    rw [hlog]
    exact (List.append_nil _).symm
  cases hstep with
  | publisher call _ => exact hidle rfl rfl
  | serve hlink halive =>
    obtain ⟨hsubscriber, -, -, hlog⟩ := serve_same world _
    exact hidle hsubscriber hlog
  | cut kept hlink => exact hidle rfl rfl
  | again => exact hidle rfl rfl
  | @drainUdp i found arrivals _ hbucket hsent _ =>
    refine hcall (.drainUdp i arrivals) rfl rfl hmem' fun bucket _ acts hdoes act hact => ?_
    rcases hdoes with rfl | ⟨found', hfound, hsame, rfl⟩
    · cases hact
    · cases hbucket.symm.trans hfound
      obtain ⟨arrival, harrival, harrives⟩ := List.mem_filterMap.mp hact
      exact honest_arrival I (hsame ▸ hsent arrival harrival) harrives rfl
  | drainTcp recvs taken _ hreceives =>
    refine hcall (.drainTcp recvs) rfl rfl hmem' fun bucket _ acts hdoes act hact => ?_
    obtain ⟨reply, hreply, hsame, rfl⟩ := hdoes act hact
    obtain ⟨hgenuine, htold⟩ := V.frames I hreceives reply hreply
    cases hmsg : reply.msg with
    | none => exact ⟨hsame ▸ hgenuine.asked, hsame ▸ htold.2 hmsg⟩
    | some msg => exact ⟨hsame ▸ hgenuine.asked, hsame ▸ hgenuine.published msg hmsg⟩
  | @nak i input _ _ _ =>
    refine hcall (.nak i input) rfl rfl hmem' fun bucket _ acts hdoes act hact => ?_
    rcases hdoes with rfl | rfl | rfl <;> simp only [List.mem_cons, List.not_mem_nil,
      or_false] at hact
    · cases hact
      trivial
    · rcases hact with rfl | rfl <;> trivial
  | @deliver i _ =>
    refine hcall (.deliver i) rfl rfl hmem' fun bucket _ acts hdoes act hact => ?_
    rcases hdoes with rfl | rfl
    · cases hact
    · cases List.mem_singleton.mp hact
      trivial

omit [NeZero bucketCount] in
/-- What a step does to a bucket stays within its end marker. -/
theorem Lives.within (V : Lives session start worlds world) (I : Inv session world)
    {bucket : Subscriber.Bucket} (hbucket : bucket ∈ world.subscriber.buckets)
    (hmarker : ⟨bucket.id, e, marker⟩ ∈ world.assigned)
    (htype : marker.type = ascii 'E') {act : Act}
    (h : Honest world.assigned (Lapped worlds) (history bucket.id world.log) bucket act) :
    act.Within e := by
  have L := V.lives bucket hbucket
  obtain ⟨hholes, -⟩ := newBucket_maps session.firstExpected bucket.id
  cases act with
  | accept sequence msg now => exact I.le_marker hmarker htype h.2.2
  | frame sequence payload =>
    have hasked : Asked (history bucket.id world.log) sequence := by
      cases payload <;> exact h.1
    obtain ⟨t, hnoticed⟩ := L.asked hholes hasked
    obtain ⟨⟨msg, hmsg⟩, -⟩ := L.noticed_assigned I.published.records hnoticed
    exact I.le_marker hmarker htype hmsg
  | expire _ | request _ | deliver => trivial

omit [NeZero bucketCount] in
/-- A bucket that has received its end marker, and was not to start behind it. -/
theorem Lives.running (V : Lives session start worlds world) (I : Inv session world)
    {bucket : Subscriber.Bucket} (hbucket : bucket ∈ world.subscriber.buckets)
    (hmarker : ⟨bucket.id, e, marker⟩ ∈ world.assigned) (htype : marker.type = ascii 'E')
    (harrived : .arrived e ∈ history bucket.id world.log)
    (hfirst : session.firstExpected.toNat ≤ e) :
    ∃ S, Subscriber.start session.firstExpected.toNat session.backfill.toNat
        (history bucket.id world.log) = some S ∧ S ≤ e ∧
      Running S world.assigned (history bucket.id world.log) bucket ∧
      highest S (history bucket.id world.log) = e := by
  have K := I.tended.kept bucket hbucket
  obtain ⟨S, hstart, H⟩ := K.running fun hidle => by
    have harrivals := mem_arrived harrived
    rw [hidle.quiet.1] at harrivals
    cases harrivals
  have hassigned : ∀ s ∈ arrived (history bucket.id world.log), 1 ≤ s ∧ s ≤ e := by
    intro s hs
    obtain ⟨msg, hmsg⟩ := (V.lives bucket hbucket).arrived (of_mem_arrived hs)
    rw [id_newBucket] at hmsg
    exact ⟨I.published.assigned_pos hmsg, I.le_marker hmarker htype hmsg⟩
  have hle : S ≤ e := by
    rw [Subscriber.start] at hstart
    split at hstart
    · exact Option.some.inj hstart ▸ hfirst
    · obtain ⟨s, hs, rfl⟩ := Option.map_eq_some_iff.mp hstart
      obtain ⟨hpos, hbound⟩ := hassigned s (List.mem_of_mem_head? hs)
      exact (Bucket.startAt_le _ hpos).trans hbound
  refine ⟨S, start_rewind ▸ hstart, hle, H, Nat.le_antisymm ?_ (le_highest harrived)⟩
  exact foldl_max_le (by omega) fun s hs => (hassigned s hs).2

omit [NeZero bucketCount] in
/-- From the moment on at which the end marker has arrived its bucket is settled. -/
theorem Lives.settled (V : Lives session start worlds world) (I : Inv session world)
    (T : Timely world)
    {bucket : Subscriber.Bucket} (hbucket : bucket ∈ world.subscriber.buckets)
    (hmarker : ⟨bucket.id, e, marker⟩ ∈ world.assigned) (htype : marker.type = ascii 'E')
    (harrived : .arrived e ∈ history bucket.id world.log)
    (hfirst : session.firstExpected.toNat ≤ e) :
    Settled e world.clock bucket := by
  obtain ⟨S, -, -, H, hhighest⟩ := V.running I hbucket hmarker htype harrived hfirst
  have F := H.frontier
  rw [hhighest] at F
  refine ⟨H.synced, F, fun s hs => hhighest ▸ H.parked_le hs, fun s hs => hhighest ▸ H.gone s hs,
    T.dated bucket hbucket⟩

theorem Run.timely (h : Run session start worlds) : ∀ world ∈ worlds, Timely world := by
  induction h with
  | init =>
    refine List.forall_mem_singleton.mpr ⟨fun bucket hmem => ?_, trivial⟩
    obtain ⟨id, -, rfl⟩ := List.mem_map.mp hmem
    intro s hole hs
    split at hs <;> simp at hs
  | step _ hstep ih => exact List.forall_mem_cons.mpr ⟨(ih _ (.head _)).step hstep, ih⟩

theorem Step.assigned_subset (h : Step world world') : world.assigned ⊆ world'.assigned := by
  cases h with
  | publisher call _ => exact List.subset_append_left _ _
  | serve hlink halive => exact (serve_same world _).2.1 ▸ List.Subset.refl _
  | cut | drainUdp | drainTcp | nak | deliver | again => exact List.Subset.refl _

/-- The end marker of a bucket has arrived, and it is not before the first number the subscriber was
told to expect (with a `firstExpected` of 0 or 1 it never is). -/
def Concluded (session : Session) (world : World bucketCount ringSize) (id e : Nat) : Prop :=
  session.firstExpected.toNat ≤ e ∧ .arrived e ∈ history id world.log ∧
    ∃ marker, ⟨id, e, marker⟩ ∈ world.assigned ∧ marker.type = ascii 'E'

theorem Concluded.step (C : Concluded session world id e) (hstep : Step world world') :
    Concluded session world' id e := by
  obtain ⟨hfirst, harrived, marker, hmarker, htype⟩ := C
  refine ⟨hfirst, ?_, marker, hstep.assigned_subset hmarker, htype⟩
  have hsame : ∀ {events}, .arrived e ∈ history id (world.log ++ events) := fun {events} => by
    rw [history_append]
    exact List.mem_append_left _ harrived
  cases hstep with
  | serve hlink halive => rwa [(serve_same world _).2.2.2]
  | publisher | cut | again => exact harrived
  | drainUdp | drainTcp | nak | deliver => exact hsame

/-- A bucket whose end marker had arrived at `before` opens no hole from then on. -/
theorem Run.settled (h : Run session start (world :: earlier)) {before : World bucketCount ringSize}
    (hbefore : before ∈ world :: earlier) : ∀ bucket ∈ world.subscriber.buckets,
      Concluded session before bucket.id e →
      Concluded session world bucket.id e ∧ Settled e before.clock bucket := by
  generalize hworlds : world :: earlier = worlds at h
  induction h generalizing world earlier with
  | init =>
    cases hworlds
    cases List.mem_singleton.mp hbefore
    rintro bucket - ⟨-, harrived, -⟩
    cases harrived
  | @step world _ earlier hrun hstep ih =>
    cases hworlds
    intro bucket' hbucket' C
    rcases List.mem_cons.mp hbefore with rfl | hbefore
    · have hlater := hrun.step hstep
      have I := hlater.inv _ (.head _)
      obtain ⟨hfirst, harrived, marker, hmarker, htype⟩ := id C
      exact ⟨C, hlater.lives.settled I (hlater.timely _ (.head _)) hbucket' hmarker htype
        harrived hfirst⟩
    · have I := hrun.inv _ (.head _)
      obtain ⟨bucket, hbucket, acts, rfl, -, hhonest⟩ := hrun.lives.step_acts I hstep hbucket'
      rw [bucket.id_acts] at C ⊢
      obtain ⟨C', H⟩ := ih hbefore rfl bucket hbucket C
      obtain ⟨-, -, marker, hmarker, htype⟩ := id C'
      have he : e + 1 < 2 ^ 64 := I.published.bounded _ hmarker
      exact ⟨C'.step hstep, H.acts he fun act hact =>
        hrun.lives.within I hbucket hmarker htype (hhonest act hact)⟩

omit [NeZero bucketCount] in
/-- An end marker is never written off: nothing that comes later shows it missing. -/
theorem Lives.marker_kept (V : Lives session start worlds world) (I : Inv session world)
    {bucket : Subscriber.Bucket} (hbucket : bucket ∈ world.subscriber.buckets)
    (hmarker : ⟨bucket.id, e, marker⟩ ∈ world.assigned) (htype : marker.type = ascii 'E') :
    .unrecoverable e ∉ history bucket.id world.log := by
  intro hlost
  have L := V.lives bucket hbucket
  obtain ⟨hholes, hgone⟩ := newBucket_maps session.firstExpected bucket.id
  have hnoticed : ∃ t, .noticed e t ∈ history bucket.id world.log := by
    rcases L.unrecoverable hgone hlost with ⟨now, hexpired⟩ | hframe
    · exact (L.expired hholes hexpired).imp fun t h => h.1
    · exact L.asked hholes (L.lost hframe).1
  obtain ⟨t, hnoticed⟩ := hnoticed
  obtain ⟨-, s', msg', hlt, hlater⟩ := L.noticed_assigned I.published.records hnoticed
  exact Nat.not_lt.mpr (I.le_marker hmarker htype hlater) hlt

omit [NeZero bucketCount] in
/-- A bucket that has passed its end marker is done. -/
theorem Lives.done_of_passed (V : Lives session start worlds world) (I : Inv session world)
    {bucket : Subscriber.Bucket} (hbucket : bucket ∈ world.subscriber.buckets)
    (hmarker : ⟨bucket.id, e, marker⟩ ∈ world.assigned) (htype : marker.type = ascii 'E')
    (H : Running S world.assigned (history bucket.id world.log) bucket) (hle : S ≤ e)
    (hpassed : e < bucket.nextSequence) : bucket.done = true := by
  have B := (I.tended.kept bucket hbucket).booked
  have hnumber : e ∈ (outcomes (history bucket.id world.log)).map (·.1) := by
    rw [H.passed, List.mem_range'_1]
    omega
  obtain ⟨⟨_, outcome⟩, houtcome, rfl⟩ := List.mem_map.mp hnumber
  by_contra hopen
  cases outcome with
  | delivered msg =>
    obtain ⟨hmsg, hdata⟩ := B.published _ msg houtcome
    have hsame := Option.some.inj ((I.published.records.mem_assigned.mp hmarker).2.symm.trans
      (I.published.records.mem_assigned.mp hmsg).2)
    exact hdata (hsame ▸ htype)
  | unrecoverable => exact V.marker_kept I hbucket hmarker htype (of_mem_outcomes houtcome)
  | ended => exact B.opened (Bool.eq_false_iff.mpr hopen) _ houtcome

/-- A bucket whose end marker arrived is done by the first `pump` at whose `nak` all holes that
there were then are past the deadline. -/
theorem Run.done_in_time (h : Run session start (world :: earlier))
    {before : World bucketCount ringSize}
    (hbefore : before ∈ world :: earlier) {i : Nat} {bucket : Subscriber.Bucket}
    (hbucket : world.subscriber.buckets[i]? = some bucket)
    (C : Concluded session before bucket.id e)
    (hpump : world.phase = .nak world.subscriber.buckets.length)
    (hdeadline : before.clock.toNat + world.subscriber.giveupNs.toNat < (world.nakNow i).toNat) :
    bucket.done = true := by
  have hmem := List.mem_of_getElem? hbucket
  have I := h.inv _ (.head _)
  obtain ⟨⟨hfirst, harrived, marker, hmarker, htype⟩, D⟩ := h.settled hbefore bucket hmem C
  obtain ⟨S, -, hle, H, hhighest⟩ := h.lives.running I hmem hmarker htype harrived hfirst
  have hvisited := (h.timely _ (.head _)).visited
  rw [hpump] at hvisited
  obtain ⟨hstopped, U⟩ := hvisited i bucket (List.getElem?_eq_some_iff.mp hbucket).1 hbucket
  rcases hstopped with hdone | ⟨hparked, hgone⟩
  · exact hdone
  by_cases hpassed : e < bucket.nextSequence
  · exact h.lives.done_of_passed I hmem hmarker htype H hle hpassed
  -- what it waits for is a hole, and all holes are past the deadline
  have hhole : bucket.nextSequence ∈ bucket.holes := by
    rcases H.covered _ le_rfl (hhighest ▸ Nat.not_lt.mp hpassed) with hp | hh | hg
    · exact (hparked hp).elim
    · exact hh
    · exact (hgone hg).elim
  obtain ⟨hole, hget⟩ := ExtTreeMap.exists_of_mem hhole
  have hdated := UInt64.le_iff_toNat_le.mp (D.dated _ hole hget)
  have hage := U.least _ hole hget fun s hs => (H.holes s hs).1
  rw [UInt64.le_iff_toNat_le,
    UInt64.toNat_sub_of_le _ _ (UInt64.le_iff_toNat_le.mpr (by omega))] at hage
  omega

omit [NeZero bucketCount] [NeZero ringSize] in
/-- What a bucket that is done has handed over or counted unrecoverable: all numbers before
the marker. -/
theorem Inv.counted (I : Inv session world) {bucket : Subscriber.Bucket}
    (hbucket : bucket ∈ world.subscriber.buckets)
    (hmarker : ⟨bucket.id, e, marker⟩ ∈ world.assigned)
    (htype : marker.type = ascii 'E')
    (H : Running S world.assigned (history bucket.id world.log) bucket)
    (hdone : bucket.done = true) : S + bucket.stats.delivered + bucket.stats.unrecoverable = e := by
  have B := (I.tended.kept bucket hbucket).booked
  obtain ⟨before, s, msg, hlast, -, hmsg, hmsgtype⟩ := B.closed hdone
  have hsame : s = e :=
    Nat.le_antisymm (I.le_marker hmarker htype hmsg) (I.le_marker hmsg hmsgtype hmarker)
  have hlength := @length_outcomes (history bucket.id world.log)
  rw [← B.delivered, ← B.unrecoverable, tally_ended B, hdone, if_pos rfl] at hlength
  have hpassed := H.passed
  have hcount : bucket.nextSequence - S = before.length + 1 := by
    have := congrArg List.length hpassed
    rw [hlast, List.length_map, List.length_append, List.length_range',
      List.length_singleton] at this
    exact this.symm
  rw [hlast, List.map_append, hcount, List.range'_concat, Nat.one_mul] at hpassed
  have hend : s = S + before.length := (List.cons.inj (List.append_inj' hpassed rfl).2).1
  rw [hlast, List.length_append, List.length_singleton] at hlength
  omega

/-- **The stream ends in time.** Once the end markers of all buckets have arrived, none of them
before the number the subscriber was started with, the first `pump` at whose `nak`s the time since
is more than the deadline leaves the subscriber done, whatever becomes of the repairs; and every
number from a bucket's start up to its end marker has been handed over or counted unrecoverable. -/
theorem ends_in_time (h : Run session start (world :: earlier))
    {before : World bucketCount ringSize}
    (hbefore : before ∈ world :: earlier)
    (hconcluded : ∀ bucket ∈ world.subscriber.buckets, ∃ e, Concluded session before bucket.id e)
    (hpump : world.phase = .nak world.subscriber.buckets.length)
    (hdeadline : ∀ i < world.subscriber.buckets.length,
      before.clock.toNat + world.subscriber.giveupNs.toNat < (world.nakNow i).toNat) :
    world.subscriber.isDone = true ∧
    ∀ bucket ∈ world.subscriber.buckets, ∃ S e,
      Subscriber.start session.firstExpected.toNat session.backfill.toNat
        (history bucket.id world.log) = some S ∧
      (∃ marker, ⟨bucket.id, e, marker⟩ ∈ world.assigned ∧ marker.type = ascii 'E') ∧
      S + bucket.stats.delivered + bucket.stats.unrecoverable = e := by
  have I := h.inv _ (.head _)
  have hdone : ∀ bucket ∈ world.subscriber.buckets, bucket.done = true := by
    intro bucket hbucket
    obtain ⟨e, C⟩ := hconcluded bucket hbucket
    obtain ⟨i, hi⟩ := List.mem_iff_getElem?.mp hbucket
    exact h.done_in_time hbefore hi C hpump (hdeadline i (List.getElem?_eq_some_iff.mp hi).1)
  refine ⟨List.all_eq_true.mpr hdone, fun bucket hbucket => ?_⟩
  obtain ⟨e, C⟩ := hconcluded bucket hbucket
  obtain ⟨⟨hfirst, harrived, marker, hmarker, htype⟩, -⟩ := h.settled hbefore bucket hbucket C
  obtain ⟨S, hstart, -, H, -⟩ := h.lives.running I hbucket hmarker htype harrived hfirst
  exact ⟨S, e, hstart, ⟨marker, hmarker, htype⟩,
    I.counted hbucket hmarker htype H (hdone bucket hbucket)⟩

omit [NeZero bucketCount] in
/-- A bucket that is done is at rest, behind an end marker. -/
theorem Lives.atRest (V : Lives session start worlds world) (I : Inv session world)
    {bucket : Subscriber.Bucket} (hbucket : bucket ∈ world.subscriber.buckets)
    (hdone : bucket.done = true) :
    ∃ e marker, ⟨bucket.id, e, marker⟩ ∈ world.assigned ∧ marker.type = ascii 'E' ∧
    AtRest e bucket := by
  have K := I.tended.kept bucket hbucket
  obtain ⟨before, e, marker, hlast, -, hmarker, htype⟩ := K.booked.closed hdone
  obtain ⟨S, -, H⟩ := K.running fun hidle => by
    rw [hidle.quiet.2.1] at hlast
    exact List.append_ne_nil_of_right_ne_nil before (List.cons_ne_nil _ _) hlast.symm
  have hpassed : e ∈ List.range' S (bucket.nextSequence - S) := by
    rw [← H.passed, hlast, List.map_append]
    exact List.mem_append_right _ (.head _)
  rw [List.mem_range'_1] at hpassed
  have hhighest : highest S (history bucket.id world.log) ≤ e := by
    refine foldl_max_le (by omega) fun s hs => ?_
    obtain ⟨msg, hmsg⟩ := (V.lives bucket hbucket).arrived (of_mem_arrived hs)
    rw [id_newBucket] at hmsg
    exact I.le_marker hmarker htype hmsg
  refine ⟨e, marker, hmarker, htype, H.synced, hdone, by omega, fun s hs => ?_⟩
  obtain ⟨hfrom, hto, -⟩ := H.holes s hs
  omega

/-- **Done is done.** From the moment on at which a bucket has passed its end marker it asks for
nothing, misses nothing, hands nothing over and writes nothing off. What still comes for it comes
too late: it changes nothing in the bucket, but that it may be counted as a duplicate. -/
theorem done_for_good (h : Run session start (world :: earlier))
    {before : World bucketCount ringSize}
    (hbefore : before ∈ world :: earlier) {bucket bucket' : Subscriber.Bucket}
    (hbucket : bucket ∈ before.subscriber.buckets) (hdone : bucket.done = true)
    (hbucket' : bucket' ∈ world.subscriber.buckets) (hid : bucket'.id = bucket.id) :
    bucket'.done = true ∧ (∀ s, s ∉ bucket'.holes) ∧
    (∃ events, history bucket.id world.log = history bucket.id before.log ++ events ∧
      ∀ event ∈ events, Late event) ∧
    bucket' = { bucket with stats.duplicates := bucket'.stats.duplicates } ∧
    bucket.stats.duplicates ≤ bucket'.stats.duplicates := by
  suffices ∃ e marker, ⟨bucket.id, e, marker⟩ ∈ world.assigned ∧ marker.type = ascii 'E' ∧
    AtRest e bucket' ∧
      (∃ events, history bucket.id world.log = history bucket.id before.log ++ events ∧
        ∀ event ∈ events, Late event) ∧ Undisturbed bucket bucket' by
    obtain ⟨e, marker, -, -, R, hrest⟩ := this
    exact ⟨R.done, R.holes, hrest⟩
  have hself : ∀ {earlier : List (World bucketCount ringSize)},
      Run session start (before :: earlier) →
      ∀ bucket' ∈ before.subscriber.buckets, bucket'.id = bucket.id → bucket' = bucket ∧
        ∃ e marker, ⟨bucket.id, e, marker⟩ ∈ before.assigned ∧ marker.type = ascii 'E' ∧
        AtRest e bucket' := by
    intro earlier hrun bucket' hbucket' hid
    have I := hrun.inv _ (.head _)
    obtain rfl := List.inj_on_of_nodup_map I.tended.nodup hbucket' hbucket hid
    exact ⟨rfl, hrun.lives.atRest I hbucket hdone⟩
  generalize hworlds : world :: earlier = worlds at h
  induction h generalizing world earlier bucket' with
  | init =>
    cases hworlds
    cases List.mem_singleton.mp hbefore
    obtain ⟨rfl, e, marker, hmarker, htype, R⟩ := hself .init bucket' hbucket' hid
    exact ⟨e, marker, hmarker, htype, R,
      ⟨[], (List.append_nil _).symm, fun _ hmem => absurd hmem List.not_mem_nil⟩,
      undisturbed_refl _⟩
  | @step world _ earlier hrun hstep ih =>
    cases hworlds
    rcases List.mem_cons.mp hbefore with rfl | hbefore
    · obtain ⟨rfl, e, marker, hmarker, htype, R⟩ := hself (hrun.step hstep) bucket' hbucket' hid
      exact ⟨e, marker, hmarker, htype, R,
        ⟨[], (List.append_nil _).symm, fun _ hmem => absurd hmem List.not_mem_nil⟩,
        undisturbed_refl _⟩
    · have I := hrun.inv _ (.head _)
      obtain ⟨old, hold, acts, rfl, hhistory, hhonest⟩ := hrun.lives.step_acts I hstep hbucket'
      rw [old.id_acts] at hid
      obtain ⟨e, marker, hmarker, htype, R, ⟨events, hevents, hlate⟩, hsame⟩ :=
        ih hbefore hold hid rfl
      obtain ⟨R', hlate', hsame'⟩ := R.acts world.subscriber.settings fun act hact =>
        hrun.lives.within I hold (hid ▸ hmarker) htype (hhonest act hact)
      refine ⟨e, marker, hstep.assigned_subset hmarker, htype, R',
        ⟨events ++ (old.acts world.subscriber.settings acts).2, ?_, fun event hmem => ?_⟩,
        hsame.trans hsame'⟩
      · rw [← List.append_assoc, ← hevents, ← hid]
        exact hhistory
      · exact (List.mem_append.mp hmem).elim (hlate event) (hlate' event)

theorem Run.trans (h : Run session start (world :: earlier))
    (hsteps : Relation.ReflTransGen Step world world') :
    ∃ later, Run session start (world' :: later) ∧ world ∈ world' :: later := by
  induction hsteps with
  | refl => exact ⟨earlier, h, .head _⟩
  | tail _ hstep ih =>
    obtain ⟨later, hrun, hmem⟩ := ih
    exact ⟨_, hrun.step hstep, .tail _ hmem⟩

/-- The late message never arrives, and the request for it gets no answer. -/
def lateEnded : World 1 1 :=
  latePump { lateAsked with phase := .drainUdp 0 }
    (packet 0 2 (encodePayload endMessage)) 2100000000

theorem run_lateEnded : ∃ earlier, Run lateSession 0 (lateEnded :: earlier) ∧
    lateAsked ∈ lateEnded :: earlier := by
  obtain ⟨_, h⟩ := run_lateAsked
  have hpump := @quiet_latePump { lateAsked with phase := .drainUdp 0 }
    (packet 0 2 (encodePayload endMessage))
    2100000000 rfl rfl (.tail _ (.head _)) rfl (by decide) (by decide)
  exact h.trans ((Relation.ReflTransGen.single (.again rfl)).trans (hpump.lift id fun _ _ h => h.1))

/-- It is written off after two seconds, and the subscriber is done. -/
theorem ends_in_time_late : lateEnded.subscriber.isDone = true ∧
    ∀ bucket ∈ lateEnded.subscriber.buckets, ∃ S e,
      Subscriber.start 1 0 (history bucket.id lateEnded.log) = some S ∧
      (∃ marker, ⟨bucket.id, e, marker⟩ ∈ lateEnded.assigned ∧ marker.type = ascii 'E') ∧
      S + bucket.stats.delivered + bucket.stats.unrecoverable = e := by
  obtain ⟨_, hrun, hbefore⟩ := run_lateEnded
  have hid : ∀ bucket ∈ lateEnded.subscriber.buckets, bucket.id = 0 := by
    intro bucket hbucket
    have hids := List.mem_map_of_mem (f := (·.id)) hbucket
    rw [(hrun.inv _ (.head _)).ids] at hids
    exact List.mem_singleton.mp hids
  refine ends_in_time hrun hbefore (fun bucket hbucket => ⟨2, by decide, ?_, endMessage, ?_, rfl⟩)
    rfl ?_
  · rw [hid bucket hbucket]
    decide
  · rw [hid bucket hbucket]
    decide
  · intro i hi
    have hcount : lateEnded.subscriber.buckets.length = 1 := rfl
    obtain rfl : i = 0 := by omega
    decide

/-- Then the late message does arrive. -/
def lateAfter : World 1 1 :=
  latePump { lateEnded with phase := .drainUdp 0 } (packet 0 1 (encodePayload {})) 3000000000

theorem run_lateAfter : ∃ earlier, Run lateSession 0 (lateAfter :: earlier) ∧
    lateEnded ∈ lateAfter :: earlier := by
  obtain ⟨_, h, -⟩ := run_lateEnded
  have hpump := @quiet_latePump { lateEnded with phase := .drainUdp 0 }
    (packet 0 1 (encodePayload {}))
    3000000000 rfl rfl (.head _) rfl (by decide) (by decide)
  exact h.trans ((Relation.ReflTransGen.single (.again rfl)).trans (hpump.lift id fun _ _ h => h.1))

/-- It has been written off, and stays so: it is one more duplicate. -/
theorem done_for_good_late : ∃ bucket ∈ lateEnded.subscriber.buckets,
    ∃ bucket' ∈ lateAfter.subscriber.buckets,
    bucket.stats = ⟨0, 0, 1, 1, 1⟩ ∧ bucket' = { bucket with stats.duplicates := 2 } := by
  obtain ⟨_, hrun, hbefore⟩ := run_lateAfter
  have hbucket : lateEnded.subscriber.buckets[0]?.getD { id := 0 } ∈ lateEnded.subscriber.buckets :=
    .head _
  have hbucket' : lateAfter.subscriber.buckets[0]?.getD { id := 0 } ∈
    lateAfter.subscriber.buckets := .head _
  have hgood := done_for_good hrun hbefore hbucket (by decide) hbucket' (by decide)
  exact ⟨_, hbucket, _, hbucket', by decide, hgood.2.2.2.1⟩

end World
end MegaFeed
