import MegaFeed.Verify.RealLoss
import MegaFeed.Verify.Reassembly

/-! # One status for every number

A number that is not passed yet is parked, a hole, gone or none of these. Along a run it is never
two of them, and none is left behind, if and only if nothing arrives for a number that is gone and
no number that has arrived is answered gone (`Subscriber.Clean`, `World.one_status_iff`). A late
datagram and an answer that the server has its number no more break it, whichever comes first
(`left_behind`). -/

namespace MegaFeed
open FeedPublisher Subscriber

namespace Subscriber
open Std (ExtTreeMap ExtTreeSet)

variable {settings : Settings} {bucket bucket' : Bucket} {subscriber : Subscriber}
  {s sequence : Nat}
  {msg : OrderMessage} {now giveup : UInt64} {backfill : Nat} {acts : List Act} {call : Call}

/-- No number has two of the three statuses. -/
structure Bucket.OneStatus (bucket : Bucket) : Prop where
  parked_holes : ∀ s ∈ bucket.parked, s ∉ bucket.holes
  parked_gone : ∀ s ∈ bucket.parked, s ∉ bucket.gone
  holes_gone : ∀ s ∈ bucket.holes, s ∉ bucket.gone

/-- Every number that has a status is still to be passed. -/
structure Bucket.Ahead (bucket : Bucket) : Prop where
  parked : ∀ s ∈ bucket.parked, bucket.nextSequence ≤ s
  holes : ∀ s ∈ bucket.holes, bucket.nextSequence ≤ s
  gone : ∀ s ∈ bucket.gone, bucket.nextSequence ≤ s

/-! ## What arrives -/

/-- The number of a message that a datagram or a frame brings. -/
def Act.received : Act → Option Nat
  | .accept sequence _ _ | .frame sequence (some _) => some sequence
  | _ => none

/-- The number that a frame says the server has no more. -/
def Act.lost : Act → Option Nat
  | .frame sequence none => some sequence
  | _ => none

/-- What a call brings to the bucket `id`. -/
def arriving (subscriber : Subscriber) (id : Nat) : Call → List Act
  | .drainUdp i arrivals =>
    if subscriber.buckets[i]?.map (·.id) = some id then arrivals.filterMap (·.act id) else []
  | .drainTcp recvs =>
    ((subscriber.framesRead recvs).filter (·.bucket = id)).map fun reply =>
      .frame reply.sequence reply.msg
  | .nak _ _ | .deliver _ => []

/-- Of the numbers to come, none that is gone or reported lost is received, and none that is parked
is reported lost. -/
structure Bucket.Clean (bucket : Bucket) (acts : List Act) : Prop where
  received : ∀ s ∈ acts.filterMap Act.received, bucket.nextSequence ≤ s → s ∉ bucket.parked →
    s ∉ bucket.gone ∧ s ∉ acts.filterMap Act.lost
  lost : ∀ s ∈ acts.filterMap Act.lost, bucket.nextSequence ≤ s → s ∉ bucket.parked

/-- What a call finds on the sockets and the repair connection is clean for every bucket. -/
def Clean (subscriber : Subscriber) (call : Call) : Prop :=
  ∀ bucket ∈ subscriber.buckets, bucket.Clean (subscriber.arriving bucket.id call)

/-! ## One bucket -/

/-- What is parked or gone is still to be passed, and not both. -/
structure Bucket.Apart (bucket : Bucket) : Prop where
  parked : ∀ s ∈ bucket.parked, bucket.nextSequence ≤ s ∧ s ∉ bucket.gone
  gone : ∀ s ∈ bucket.gone, bucket.nextSequence ≤ s

theorem Bucket.apart_of_empty (hparked : bucket.parked = ∅) (hgone : bucket.gone = ∅) :
    bucket.Apart where
  parked s hs := by simp [hparked] at hs
  gone s hs := by simp [hgone] at hs

theorem Bucket.Apart.accept (A : bucket.Apart)
    (hidle : bucket.synced = false → bucket.parked = ∅ ∧ bucket.gone = ∅)
    (hclean : sequence ∈ bucket.gone → bucket.nextSequence ≤ sequence → sequence ∈ bucket.parked) :
    (bucket.acceptOrderMessage backfill sequence msg now).1.Apart := by
  have hsynced : ∀ bucket : Bucket, bucket.synced = true → bucket.Apart →
      (sequence ∈ bucket.gone → bucket.nextSequence ≤ sequence → sequence ∈ bucket.parked) →
      (bucket.acceptOrderMessage backfill sequence msg now).1.Apart := by
    intro bucket hsynced A hclean
    rw [accept_eq hsynced]
    split
    · exact ⟨A.parked, A.gone⟩
    · next hnew =>
      obtain ⟨hle, hfree⟩ := not_or.mp hnew
      refine ⟨fun s hs => ?_, A.gone⟩
      rcases mem_park_parked.mp hs with rfl | hs
      · exact ⟨Nat.not_lt.mp hle, fun hgone => hfree (hclean hgone (Nat.not_lt.mp hle))⟩
      · exact A.parked s hs
  cases hs : bucket.synced with
  | true => exact hsynced bucket hs A hclean
  | false =>
    obtain ⟨hparked, hgone⟩ := hidle hs
    rw [accept_unsynced hs]
    refine hsynced _ rfl (apart_of_empty hparked hgone) fun h => ?_
    simp [hgone] at h

/-- A datagram makes no number gone, and nothing leaves the parking area. -/
structure Bucket.Accepts (bucket bucket' : Bucket) : Prop where
  synced : bucket'.synced = true
  next : bucket.synced = true → bucket'.nextSequence = bucket.nextSequence
  gone : bucket'.gone = bucket.gone
  parked : ∀ s ∈ bucket.parked, s ∈ bucket'.parked

theorem Bucket.accept_accepts :
    bucket.Accepts (bucket.acceptOrderMessage backfill sequence msg now).1 := by
  obtain ⟨hparked, -, hgone⟩ := bucket.joined_maps backfill sequence
  have hnext : bucket.synced = true → (bucket.joined backfill sequence).nextSequence =
      bucket.nextSequence :=
    fun h => by rw [joined_of_synced h]
  rw [accept_joined, accept_eq joined_synced]
  split
  · exact ⟨joined_synced, hnext, hgone, fun s hs => hparked ▸ hs⟩
  · exact ⟨joined_synced, hnext, hgone, fun s hs => mem_park_parked.mpr (.inr (hparked ▸ hs))⟩

theorem Bucket.Apart.accepts (A : bucket.Apart)
    (hidle : bucket.synced = false → bucket.parked = ∅ ∧ bucket.gone = ∅)
    (hacts : ∀ act ∈ acts, ∃ sequence msg now, act = .accept sequence msg now ∧
      (sequence ∈ bucket.gone → bucket.nextSequence ≤ sequence → sequence ∈ bucket.parked)) :
    (bucket.acts settings acts).1.Apart := by
  induction acts generalizing bucket with
  | nil => exact A
  | cons act acts ih =>
    obtain ⟨⟨sequence, msg, now, rfl, hclean⟩, hrest⟩ := List.forall_mem_cons.mp hacts
    have H : bucket.Accepts (bucket.act settings (.accept sequence msg now)).1 := accept_accepts
    have A' : (bucket.act settings (.accept sequence msg now)).1.Apart := A.accept hidle hclean
    have hrest' : ∀ act ∈ acts, ∃ s msg' now', act = .accept s msg' now' ∧
        (s ∈ (bucket.act settings (.accept sequence msg now)).1.gone →
          (bucket.act settings (.accept sequence msg now)).1.nextSequence ≤ s →
          s ∈ (bucket.act settings (.accept sequence msg now)).1.parked) := by
      intro act hmem
      obtain ⟨s, msg', now', rfl, hs⟩ := hrest act hmem
      refine ⟨s, msg', now', rfl, fun hgone hle => ?_⟩
      rw [H.gone] at hgone
      cases hb : bucket.synced with
      | false => simp [(hidle hb).2] at hgone
      | true => exact H.parked s (hs hgone (H.next hb ▸ hle))
    exact @ih (bucket.act settings (.accept sequence msg now)).1 A'
      (fun h => absurd (h.symm.trans H.synced) Bool.false_ne_true) hrest'

theorem Bucket.Apart.expire (A : bucket.Apart)
    (hholes : ∀ s ∈ bucket.holes, bucket.nextSequence ≤ s ∧
    s ∉ bucket.parked) : (bucket.expire now giveup).1.Apart where
  parked s hs := by
    obtain ⟨hle, hfree⟩ := A.parked s hs
    refine ⟨hle, fun hgone => ?_⟩
    rcases mem_expire_gone.mp hgone with hexpired | hgone
    · exact (hholes s (mem_expired hexpired)).2 hs
    · exact hfree hgone
  gone s hs := by
    rcases mem_expire_gone.mp hs with hexpired | hgone
    · exact (hholes s (mem_expired hexpired)).1
    · exact A.gone s hgone

theorem Bucket.Apart.round {event : BucketEvent} (A : bucket.Apart)
    (h : bucket.Round event bucket') :
    bucket'.Apart := by
  have hnext : ∀ s, bucket.nextSequence ≤ s → bucket.nextSequence ≠ s →
      (bucket.nextSequence + 1) % 2 ^ 64 ≤ s :=
    fun s hle hne => (Nat.mod_le _ _).trans (Nat.lt_of_le_of_ne hle hne)
  -- a number that leaves `parked` is not gone
  have htaken : bucket.nextSequence ∈ bucket.parked → ∀ bucket' : Bucket,
      bucket'.parked = bucket.parked.erase bucket.nextSequence → bucket'.gone = bucket.gone →
      bucket'.nextSequence = (bucket.nextSequence + 1) % 2 ^ 64 → bucket'.Apart := by
    intro hmem bucket' hparked hgone hsame
    refine ⟨fun s hs => ?_, fun s hs => ?_⟩
    · rw [hparked, ExtTreeMap.mem_erase'] at hs
      rw [hsame, hgone]
      exact ⟨hnext s (A.parked s hs.2).1 hs.1, (A.parked s hs.2).2⟩
    · rw [hgone] at hs
      rw [hsame]
      refine hnext s (A.gone s hs) ?_
      rintro rfl
      exact (A.parked _ hmem).2 hs
  cases h with
  | delivered hopen hmsg htype => exact htaken (ExtTreeMap.mem_of_getElem? hmsg) _ rfl rfl rfl
  | ended hopen hmsg htype => exact htaken (ExtTreeMap.mem_of_getElem? hmsg) _ rfl rfl rfl
  | unrecoverable hopen hgone =>
    refine ⟨fun s hs => ?_, fun s hs => ?_⟩
    · have hfree := (A.parked s hs).2
      refine ⟨hnext s (A.parked s hs).1 ?_, fun hs' => hfree (ExtTreeSet.mem_erase'.mp hs').2⟩
      rintro rfl
      exact hfree hgone
    · obtain ⟨hne, hs⟩ := ExtTreeSet.mem_erase'.mp hs
      exact hnext s (A.gone s hs) hne

theorem Bucket.Apart.rounds {events : List BucketEvent} (A : bucket.Apart)
    (h : bucket.Rounds events bucket') : bucket'.Apart := by
  induction h with
  | nil => exact A
  | cons hround _ ih => exact ih (A.round hround)

/-- Frames park and mark only the numbers they are about, of those to come. -/
structure Bucket.Frames (bucket : Bucket) (acts : List Act) (bucket' : Bucket) : Prop where
  next : bucket'.nextSequence = bucket.nextSequence
  parked : ∀ s ∈ bucket'.parked,
    s ∈ bucket.parked ∨ bucket.nextSequence ≤ s ∧ s ∈ acts.filterMap Act.received
  gone : ∀ s ∈ bucket'.gone, s ∈ bucket.gone ∨ bucket.nextSequence ≤ s ∧ s ∈ acts.filterMap Act.lost

theorem Bucket.acts_frames
    (hacts : ∀ act ∈ acts, ∃ sequence payload, act = .frame sequence payload) :
    bucket.Frames acts (bucket.acts settings acts).1 := by
  induction acts generalizing bucket with
  | nil => exact ⟨rfl, fun s hs => .inl hs, fun s hs => .inl hs⟩
  | cons act acts ih =>
    obtain ⟨⟨sequence, payload, rfl⟩, hrest⟩ := List.forall_mem_cons.mp hacts
    have A := bucket.onFrame_answered sequence payload
    have F : (bucket.onFrame sequence payload).1.Frames acts
        ((bucket.onFrame sequence payload).1.acts settings acts).1 := ih hrest
    have hnext := A.next
    refine ⟨F.next.trans hnext, fun s hs => ?_, fun s hs => ?_⟩
    · rcases F.parked s hs with hs | ⟨hle, hs⟩
      · obtain ⟨msg, hmsg⟩ := ExtTreeMap.exists_of_mem hs
        rw [A.parked] at hmsg
        split at hmsg
        · next hnew =>
          refine .inr ⟨hnew.2.1, List.mem_filterMap.mpr ⟨_, .head _, ?_⟩⟩
          rw [hmsg, Act.received, hnew.1]
        · exact .inl (ExtTreeMap.mem_of_getElem? hmsg)
      · exact .inr ⟨hnext ▸ hle, List.mem_filterMap.mpr <|
          (List.mem_filterMap.mp hs).imp fun act h => ⟨.tail _ h.1, h.2⟩⟩
    · rcases F.gone s hs with hs | ⟨hle, hs⟩
      · rcases (A.gone s).mp hs with hs | ⟨hsame, hle, hnone⟩
        · exact .inl hs
        · refine .inr ⟨hle, List.mem_filterMap.mpr ⟨_, .head _, ?_⟩⟩
          rw [hnone, Act.lost, hsame]
      · exact .inr ⟨hnext ▸ hle, List.mem_filterMap.mpr <|
          (List.mem_filterMap.mp hs).imp fun act h => ⟨.tail _ h.1, h.2⟩⟩

theorem Bucket.Clean.mono {acts' : List Act} (C : bucket.Clean acts) (h : acts' ⊆ acts) :
    bucket.Clean acts' where
  received s hs hle hnew :=
    (C.received s (List.filterMap_subset _ h hs) hle hnew).imp_right fun hlost hs' =>
      hlost (List.filterMap_subset _ h hs')
  lost s hs := C.lost s (List.filterMap_subset _ h hs)

theorem Bucket.clean_nil : bucket.Clean [] where
  received _ hs := absurd hs List.not_mem_nil
  lost _ hs := absurd hs List.not_mem_nil

theorem Bucket.clean_of_fresh (hgone : bucket.gone = ∅) (hlost : acts.filterMap Act.lost = []) :
    bucket.Clean acts where
  received s hs hle hnew := by simp [hgone, hlost]
  lost s hs := by simp [hlost] at hs

theorem Bucket.Apart.frames (A : bucket.Apart) (C : bucket.Clean acts)
    (hacts : ∀ act ∈ acts, ∃ sequence payload, act = .frame sequence payload) :
    (bucket.acts settings acts).1.Apart := by
  have F := @acts_frames settings bucket acts hacts
  refine ⟨fun s hs => ?_, fun s hs => ?_⟩
  · rw [F.next]
    rcases F.parked s hs with hold | ⟨hle, hreceived⟩
    · refine ⟨(A.parked s hold).1, fun hgone => ?_⟩
      rcases F.gone s hgone with hgone | ⟨hle, hlost⟩
      · exact (A.parked s hold).2 hgone
      · exact C.lost s hlost hle hold
    · refine ⟨hle, fun hgone => ?_⟩
      have hnew : s ∉ bucket.parked := fun hold => by
        rcases F.gone s hgone with hgone | ⟨-, hlost⟩
        · exact (A.parked s hold).2 hgone
        · exact C.lost s hlost hle hold
      obtain ⟨hfree, hkept⟩ := C.received s hreceived hle hnew
      rcases F.gone s hgone with hgone | ⟨-, hlost⟩
      · exact hfree hgone
      · exact hkept hlost
  · rw [F.next]
    exact (F.gone s hs).elim (A.gone s) And.left

/-- What arrives stays: a number to come that is received is parked, and one reported
lost is gone. -/
structure Bucket.Reached (bucket : Bucket) (acts : List Act) (bucket' : Bucket) : Prop where
  parked : ∀ s ∈ bucket.parked, s ∈ bucket'.parked
  gone : ∀ s ∈ bucket.gone, s ∈ bucket'.gone
  received : ∀ s ∈ acts.filterMap Act.received, bucket.nextSequence ≤ s → s ∈ bucket'.parked
  lost : ∀ s ∈ acts.filterMap Act.lost, bucket.nextSequence ≤ s → s ∈ bucket'.gone

/-- A frame, or a datagram for a bucket that is synced. -/
def Bucket.Takes (bucket : Bucket) : Act → Prop
  | .accept _ _ _ => bucket.synced = true
  | .frame _ _ => True
  | _ => False

theorem Bucket.act_reached {act : Act} (h : bucket.Takes act) :
    bucket.Reached [act] (bucket.act settings act).1 ∧
      (bucket.act settings act).1.nextSequence = bucket.nextSequence ∧
      (bucket.act settings act).1.synced = bucket.synced := by
  cases act with
  | accept sequence msg now =>
    have H : bucket.Accepts (bucket.act settings (.accept sequence msg now)).1 := accept_accepts
    refine ⟨⟨H.parked, fun s hs => H.gone ▸ hs, fun s hs hle => ?_,
      fun s hs => absurd hs List.not_mem_nil⟩,
      H.next h, H.synced.trans h.symm⟩
    rw [List.mem_singleton.mp hs] at hle ⊢
    change sequence ∈ (bucket.acceptOrderMessage settings.backfill sequence msg now).1.parked
    rw [accept_eq h]
    split
    · next hdup => exact hdup.resolve_left (Nat.not_lt.mpr hle)
    · exact mem_park_parked.mpr (.inl rfl)
  | frame sequence payload =>
    have A := bucket.onFrame_answered sequence payload
    have hkept : ∀ s ∈ bucket.parked, s ∈ (bucket.onFrame sequence payload).1.parked := by
      intro s hs
      obtain ⟨msg, hmsg⟩ := ExtTreeMap.exists_of_mem hs
      have hold : (bucket.onFrame sequence payload).1.parked[s]? = some msg := by
        rw [A.parked, if_neg fun hnew => hnew.2.2 hs, hmsg]
      exact ExtTreeMap.mem_of_getElem? hold
    refine ⟨⟨hkept, fun s hs => (A.gone s).mpr (.inl hs), fun s hs hle => ?_, fun s hs hle => ?_⟩,
      A.next, A.synced⟩
    · cases payload with
      | none => cases hs
      | some msg =>
        rw [List.mem_singleton.mp hs] at hle ⊢
        by_cases hold : sequence ∈ bucket.parked
        · exact hkept sequence hold
        · exact ExtTreeMap.mem_of_getElem? ((A.parked sequence).trans (if_pos ⟨rfl, hle, hold⟩))
    · cases payload with
      | none =>
        rw [List.mem_singleton.mp hs] at hle ⊢
        exact (A.gone sequence).mpr (.inr ⟨rfl, hle, rfl⟩)
      | some msg => cases hs
  | expire now => cases h
  | request now => cases h
  | deliver => cases h

theorem Bucket.acts_reached (h : ∀ act ∈ acts, bucket.Takes act) :
    bucket.Reached acts (bucket.acts settings acts).1 := by
  induction acts generalizing bucket with
  | nil =>
    exact ⟨fun s hs => hs, fun s hs => hs, fun s hs => absurd hs List.not_mem_nil,
      fun s hs => absurd hs List.not_mem_nil⟩
  | cons act acts ih =>
    obtain ⟨hact, hrest⟩ := List.forall_mem_cons.mp h
    obtain ⟨R, hnext, hsynced⟩ := @act_reached settings bucket act hact
    have hrest' : ∀ act' ∈ acts, (bucket.act settings act).1.Takes act' := by
      intro act' hmem
      have htakes := hrest act' hmem
      cases act' with
      | accept => exact hsynced.trans htakes
      | frame => trivial
      | expire | request | deliver => cases htakes
    have R' : (bucket.act settings act).1.Reached acts (bucket.acts settings (act :: acts)).1 :=
      ih hrest'
    have hsplit (f : Act → Option Nat) {s : Nat} (hs : s ∈ (act :: acts).filterMap f) :
        s ∈ [act].filterMap f ∨ s ∈ acts.filterMap f := by
      rw [← List.singleton_append, List.filterMap_append] at hs
      exact List.mem_append.mp hs
    refine ⟨fun s hs => R'.parked s (R.parked s hs), fun s hs => R'.gone s (R.gone s hs),
      fun s hs hle => ?_, fun s hs hle => ?_⟩
    · rcases hsplit _ hs with hs | hs
      · exact R'.parked s (R.received s hs hle)
      · exact R'.received s hs (hnext ▸ hle)
    · rcases hsplit _ hs with hs | hs
      · exact R'.gone s (R.lost s hs hle)
      · exact R'.lost s hs (hnext ▸ hle)

/-- A number that two of these give different statuses has both afterwards. -/
theorem Bucket.clean_of_oneStatus (htakes : ∀ act ∈ acts, bucket.Takes act)
    (O : (bucket.acts settings acts).1.OneStatus) : bucket.Clean acts := by
  have R : bucket.Reached acts (bucket.acts settings acts).1 := acts_reached htakes
  refine ⟨fun s hs hle _ => ⟨fun hgone => ?_, fun hlost => ?_⟩, fun s hs hle hparked => ?_⟩
  · exact O.parked_gone s (R.received s hs hle) (R.gone s hgone)
  · exact O.parked_gone s (R.received s hs hle) (R.lost s hlost hle)
  · exact O.parked_gone s (R.parked s hparked) (R.lost s hs hle)

/-! ## One call -/

/-- What is true of every bucket that has an honest publisher. -/
structure Bucket.Sound (bucket : Bucket) : Prop where
  idle : bucket.synced = false → bucket.parked = ∅ ∧ bucket.gone = ∅
  holes : ∀ s ∈ bucket.holes, bucket.nextSequence ≤ s ∧ s ∉ bucket.parked ∧ s ∉ bucket.gone

theorem Kept.sound {firstExpected : Nat} {assigned : List Assigned} {history : List BucketEvent}
    (K : Kept firstExpected backfill assigned history bucket) : bucket.Sound := by
  rcases K.state with H | ⟨S, -, H⟩
  · exact ⟨fun _ => ⟨H.parked, H.gone⟩, fun s hs => by simp [H.holes] at hs⟩
  · exact ⟨fun h => absurd (h.symm.trans H.synced) Bool.false_ne_true,
      fun s hs => ⟨(H.holes s hs).1, (H.holes s hs).2.2⟩⟩

theorem Bucket.Apart.statuses (A : bucket.Apart) (H : bucket.Sound) : bucket.OneStatus ∧
    bucket.Ahead :=
  ⟨⟨fun s hs hhole => (H.holes s hhole).2.1 hs, fun s hs => (A.parked s hs).2,
      fun s hs => (H.holes s hs).2.2⟩,
    ⟨fun s hs => (A.parked s hs).1, fun s hs => (H.holes s hs).1, A.gone⟩⟩

theorem Bucket.Apart.request (A : bucket.Apart) : (bucket.act settings (.request now)).1.Apart := by
  rw [Bucket.act]
  split
  · exact A
  · exact ⟨A.parked, A.gone⟩

theorem Arrival.act_accept {arrival : Arrival} {id : Nat} {act : Act}
    (h : arrival.act id = some act) :
    ∃ sequence msg now, act = .accept sequence msg now := by
  unfold Arrival.act at h
  split at h
  · cases h
  · split at h <;> cases h
    exact ⟨_, _, _, rfl⟩

/-- A call that finds nothing unclean leaves no number with two statuses. -/
theorem call_apart (hclean : subscriber.Clean call)
    (hsound : ∀ bucket ∈ subscriber.buckets, bucket.Sound)
    (hapart : ∀ bucket ∈ subscriber.buckets, bucket.Apart) :
    ∀ bucket ∈ (subscriber.call call).1.buckets, bucket.Apart := by
  intro bucket' hmem
  obtain ⟨bucket, hbucket, acts, hdoes, rfl, -⟩ := (call_acted subscriber call).exists_acts hmem
  have A := hapart bucket hbucket
  have H := hsound bucket hbucket
  have C := hclean bucket hbucket
  cases call with
  | drainUdp i arrivals =>
    rcases hdoes with rfl | ⟨found, hfound, hid, rfl⟩
    · exact A
    · have hplace : subscriber.buckets[i]?.map (·.id) = some bucket.id := by
        rw [hfound, Option.map_some, hid]
      rw [arriving, if_pos hplace] at C
      refine A.accepts H.idle fun act hact => ?_
      obtain ⟨arrival, harrival, heq⟩ := List.mem_filterMap.mp hact
      obtain ⟨sequence, msg, now, rfl⟩ := Arrival.act_accept heq
      refine ⟨sequence, msg, now, rfl, fun hgone hle => ?_⟩
      by_contra hnew
      exact (C.received sequence (List.mem_filterMap.mpr ⟨_, hact, rfl⟩) hle hnew).1 hgone
  | drainTcp recvs =>
    have hsub : acts ⊆ subscriber.arriving bucket.id (.drainTcp recvs) := by
      intro act hact
      obtain ⟨reply, hreply, hid, rfl⟩ := hdoes act hact
      exact List.mem_map.mpr ⟨reply, List.mem_filter.mpr ⟨hreply, decide_eq_true hid⟩, rfl⟩
    refine A.frames (C.mono hsub) fun act hact => ?_
    obtain ⟨reply, -, -, rfl⟩ := hdoes act hact
    exact ⟨_, _, rfl⟩
  | nak i input =>
    have hexpire := @Bucket.Apart.expire bucket input.now subscriber.settings.giveupNs A fun s hs =>
      ⟨(H.holes s hs).1, (H.holes s hs).2.1⟩
    rcases hdoes with rfl | rfl | rfl
    · exact A
    · exact hexpire
    · exact hexpire.request
  | deliver i =>
    rcases hdoes with rfl | rfl
    · exact A
    · exact A.rounds (Bucket.deliverLoop_rounds _ _)

theorem mem_withBucket {buckets : List Bucket} {id : Nat}
    {action : Bucket → Bucket × List BucketEvent}
    (hnodup : (buckets.map (·.id)).Nodup) (hmem : bucket ∈ buckets) :
    (if bucket.id = id then (action bucket).1 else bucket) ∈ (withBucket id action buckets).1 := by
  induction buckets with
  | nil => cases hmem
  | cons first buckets ih =>
    obtain ⟨hfirst, hrest⟩ := List.nodup_cons.mp hnodup
    rw [withBucket]
    split
    · next hid =>
      rcases List.mem_cons.mp hmem with rfl | hmem
      · rw [if_pos hid]
        exact .head _
      · have hne : bucket.id ≠ id :=
          fun h => hfirst (List.mem_map.mpr ⟨bucket, hmem, h.trans hid.symm⟩)
        rw [if_neg hne]
        exact .tail _ hmem
    · next hid =>
      rcases List.mem_cons.mp hmem with rfl | hmem
      · rw [if_neg hid]
        exact .head _
      · exact .tail _ (ih hrest hmem)

/-- Every bucket gets the frames that are about it. -/
theorem mem_onAnswers {buckets : List Bucket} {replies : List Answer}
    (hnodup : (buckets.map (·.id)).Nodup)
    (hmem : bucket ∈ buckets) :
    (bucket.acts settings ((replies.filter (·.bucket = bucket.id)).map fun reply =>
      .frame reply.sequence reply.msg)).1 ∈ (onAnswers buckets replies).1 := by
  induction replies generalizing buckets bucket with
  | nil => exact hmem
  | cons reply replies ih =>
    have hthere :=
      @mem_withBucket bucket buckets reply.bucket (·.onFrame reply.sequence reply.msg) hnodup hmem
    rw [← @ids_withBucket reply.bucket reply.sequence reply.msg buckets] at hnodup
    have hrest := ih hnodup hthere
    by_cases hid : reply.bucket = bucket.id
    · rw [if_pos hid.symm, (bucket.onFrame_answered reply.sequence reply.msg).id] at hrest
      rw [List.filter_cons, if_pos (decide_eq_true hid)]
      exact hrest
    · rw [if_neg (Ne.symm hid)] at hrest
      rw [List.filter_cons, if_neg (by simpa using hid)]
      exact hrest

theorem mem_drainTcp {recvs : List Recv} (hnodup : (subscriber.buckets.map (·.id)).Nodup)
    (hmem : bucket ∈ subscriber.buckets) :
    (bucket.acts settings (subscriber.arriving bucket.id (.drainTcp recvs))).1 ∈
      (subscriber.call (.drainTcp recvs)).1.buckets := by
  rw [arriving, framesRead, Subscriber.call]
  split
  · rw [drainTcp]
    cases hreceive : receive subscriber.repairBuffer recvs with
    | none => exact hmem
    | some bytes =>
      have hanswers := @mem_onAnswers settings bucket subscriber.buckets (parse bytes).1 hnodup hmem
      dsimp only
      rw [frameLoop_eq _ le_rfl]
      generalize (parse bytes).2 = rest
      cases rest <;> exact hanswers
  · exact hmem

/-- A call after which no number has two statuses has found nothing unclean. -/
theorem clean_of_oneStatus (hnodup : (subscriber.buckets.map (·.id)).Nodup)
    (hsound : ∀ bucket ∈ subscriber.buckets, bucket.Sound)
    (hone : ∀ bucket ∈ (subscriber.call call).1.buckets, bucket.OneStatus) :
    subscriber.Clean call := by
  intro bucket hmem
  cases call with
  | drainUdp i arrivals =>
    rw [arriving]
    split
    · next hplace =>
      obtain ⟨found, hfound, hid⟩ := Option.map_eq_some_iff.mp hplace
      cases List.inj_on_of_nodup_map hnodup (List.mem_of_getElem? hfound) hmem hid
      have hacts : ∀ act ∈ arrivals.filterMap (·.act bucket.id), ∃ sequence msg now,
          act = .accept sequence msg now := by
        intro act hact
        obtain ⟨arrival, -, heq⟩ := List.mem_filterMap.mp hact
        exact Arrival.act_accept heq
      cases hsynced : bucket.synced with
      | true =>
        have htakes : ∀ act ∈ arrivals.filterMap (·.act bucket.id), bucket.Takes act := by
          intro act hact
          obtain ⟨sequence, msg, now, rfl⟩ := hacts act hact
          exact hsynced
        refine @Bucket.clean_of_oneStatus subscriber.settings bucket _ htakes (hone _ ?_)
        rw [← drainUdp_acts, Subscriber.call, atBucket, hfound]
        exact List.mem_set (List.getElem?_eq_some_iff.mp hfound).1 _
      | false =>
        refine Bucket.clean_of_fresh ((hsound bucket hmem).idle hsynced).2
          (List.filterMap_eq_nil_iff.mpr ?_)
        intro act hact
        obtain ⟨sequence, msg, now, rfl⟩ := hacts act hact
        rfl
    · exact Bucket.clean_nil
  | drainTcp recvs =>
    have hframes : ∀ act ∈ subscriber.arriving bucket.id (.drainTcp recvs), bucket.Takes act := by
      intro act hact
      obtain ⟨reply, -, rfl⟩ := List.mem_map.mp hact
      trivial
    exact Bucket.clean_of_oneStatus hframes
      (hone _ (@mem_drainTcp subscriber.settings _ _ _ hnodup hmem))
  | nak i input => exact Bucket.clean_nil
  | deliver i => exact Bucket.clean_nil

end Subscriber

/-! ## Runs -/

namespace World

variable {bucketCount ringSize : Nat} [NeZero bucketCount] [NeZero ringSize] {session : Session}
  {start : UInt64} {worlds : List (World bucketCount ringSize)}

omit [NeZero bucketCount] [NeZero ringSize] in
/-- What the subscriber does in a step, if anything, is a call that finds everything clean. -/
def Cleanly (world world' : World bucketCount ringSize) : Prop :=
  world'.subscriber = world.subscriber ∨
    ∃ call, world.subscriber.Clean call ∧ world'.subscriber = (world.subscriber.call call).1

theorem Run.apart (h : Run session start worlds)
    (hclean : worlds.IsChain fun world' world => Cleanly world world') :
    ∀ world ∈ worlds, ∀ bucket ∈ world.subscriber.buckets, bucket.Apart := by
  induction h with
  | init =>
    refine List.forall_mem_singleton.mpr fun bucket hmem => ?_
    obtain ⟨id, -, rfl⟩ := List.mem_map.mp hmem
    split <;> exact Bucket.apart_of_empty rfl rfl
  | @step world world' earlier hrun hstep ih =>
    obtain ⟨hlast, hearlier⟩ := List.isChain_cons_cons.mp hclean
    have hall := ih hearlier
    have I := hrun.inv world (.head _)
    refine List.forall_mem_cons.mpr ⟨?_, hall⟩
    rcases hlast with hsame | ⟨call, hcall, hsame⟩
    · rw [hsame]
      exact hall world (.head _)
    · rw [hsame]
      exact call_apart hcall (fun bucket hmem => (I.tended.kept bucket hmem).sound)
        (hall world (.head _))

omit [NeZero bucketCount] [NeZero ringSize] in
/-- No number has two statuses in a bucket that has started, and after its `deliver` those that have
one are still to be passed. -/
def OneStatus (world : World bucketCount ringSize) : Prop :=
  ∀ (i : Nat) (bucket : Subscriber.Bucket), world.subscriber.buckets[i]? = some bucket →
    bucket.synced →
    bucket.OneStatus ∧ (world.phase = .nak (i + 1) → bucket.Ahead)

omit [NeZero bucketCount] [NeZero ringSize] in
/-- A bucket that has not started has no number. -/
theorem OneStatus.bucket {world : World bucketCount ringSize} (H : world.OneStatus)
    (I : Inv session world) :
    ∀ bucket ∈ world.subscriber.buckets, bucket.OneStatus := by
  intro bucket hmem
  obtain ⟨i, hi⟩ := List.getElem?_of_mem hmem
  cases hsynced : bucket.synced with
  | true => exact (H i bucket hi hsynced).1
  | false =>
    have S := (I.tended.kept bucket hmem).sound
    obtain ⟨hparked, hgone⟩ := S.idle hsynced
    exact ((Bucket.apart_of_empty hparked hgone).statuses S).1

theorem Step.cleanly {world world' : World bucketCount ringSize} (hstep : Step world world')
    (I : Inv session world) (hone : ∀ bucket ∈ world'.subscriber.buckets, bucket.OneStatus) :
    Cleanly world world' := by
  have hcall : ∀ call, world'.subscriber = (world.subscriber.call call).1 →
      Cleanly world world' := by
    intro call hsame
    refine .inr ⟨call, clean_of_oneStatus I.tended.nodup ?_ (hsame ▸ hone), hsame⟩
    exact fun bucket hmem => (I.tended.kept bucket hmem).sound
  cases hstep with
  | publisher | cut | again => exact .inl rfl
  | serve => exact .inl (serve_same _ _).1
  | drainUdp arrivals => exact hcall (.drainUdp _ arrivals) rfl
  | drainTcp recvs taken => exact hcall (.drainTcp recvs) rfl
  | nak input => exact hcall (.nak _ input) rfl
  | deliver => exact hcall (.deliver _) rfl

/-- **One status for every number.** Along a run, the parked numbers, the holes and the numbers that
are gone are disjoint in every bucket, and none is left behind by `deliver`, if and only if what
arrives is clean at every step. -/
theorem one_status_iff (h : Run session start worlds) :
    (∀ world ∈ worlds, world.OneStatus) ↔ worlds.IsChain fun world' world =>
      Cleanly world world' := by
  constructor
  · intro hone
    induction h with
    | init => exact .singleton _
    | step hrun hstep ih =>
      obtain ⟨hlast, hearlier⟩ := List.forall_mem_cons.mp hone
      have I := (hrun.step hstep).inv _ (.head _)
      exact List.isChain_cons_cons.mpr
        ⟨hstep.cleanly (hrun.inv _ (.head _)) (hlast.bucket I), ih hearlier⟩
  · intro hclean world hworld i bucket hi _
    have hbucket := List.mem_of_getElem? hi
    have S := (h.apart hclean world hworld bucket hbucket).statuses
      (((h.inv world hworld).tended.kept bucket hbucket).sound)
    exact ⟨S.1, fun _ => S.2⟩

/-! ### A late datagram and an answer that its number is gone

After `lateAnswered` the first message still arrives, in the `pump` that reads the answer. -/

/-- Nothing has arrived. -/
def lateWaiting : World 1 1 := { lateAnswered.afterCall (.drainUdp 0 []) with phase := .drainUdp 1 }

/-- The answer is read, and nothing else has arrived. -/
def lateTold : World 1 1 :=
  { (lateWaiting.consume 12).afterCall (.drainTcp [.data (answer 0 none 1)]) with phase := .nak 0 }

/-- The answer is read after the first message has arrived. -/
def lateBoth : World 1 1 :=
  let world :=
    { lateAnswered.afterCall (.drainUdp 0 [⟨(packet 0 1 (encodePayload {})).bytes, 20000000⟩])
    with phase := .drainUdp 1, clock := 20000000 }
  { (world.consume 12).afterCall (.drainTcp [.data (answer 0 none 1)]) with phase := .nak 0 }

/-- Both messages are delivered. -/
def lateBehind : World 1 1 :=
  let world := { lateBoth.afterCall (.nak 0 ⟨20000000, true, true⟩) with
    phase := .deliver 0, clock := 20000000, nakNow := Function.update lateBoth.nakNow 0 20000000 }
  { world.afterCall (.deliver 0) with phase := .nak 1 }

theorem receives_answer {world : World 1 1}
    (hlink : world.link = some { toClient := answer 0 none 1 })
    (hbuffer : world.subscriber.repairBuffer = []) :
    world.Receives [.data (answer 0 none 1)] 12 := by
  intro link h
  cases hlink.symm.trans h
  rw [hbuffer]
  rfl

theorem reachable_lateBoth : Reachable lateSession lateBoth := by
  have hanswered : Reachable lateSession { lateAnswered with phase := .drainUdp 0 } :=
    (reachable_lateAsked.step (@Step.serve _ _ _ _ lateAsked (lateAsked.link.getD {}) rfl rfl)).step
      (.again rfl)
  have harrived := hanswered.step (@Step.drainUdp _ _ _ _ _ 0 _
    [⟨(packet 0 1 (encodePayload {})).bytes, 20000000⟩] rfl rfl
    (List.forall_mem_singleton.mpr (.head _)) (by decide))
  exact harrived.step
    (.drainTcp [.data (answer 0 none 1)] 12 rfl (receives_answer lateAnswered_link rfl))

theorem reachable_lateBehind : Reachable lateSession lateBehind :=
  (reachable_lateBoth.step (.nak ⟨20000000, true, true⟩ rfl (by decide) (by decide))).step
    (.deliver rfl)

/-- The first message is parked and gone at once, and once it is delivered its number stays among
those that are gone for ever. -/
theorem left_behind :
    ¬(∀ world : World 1 1, Reachable lateSession world → ∀ (i : Nat) (bucket : Subscriber.Bucket),
        world.subscriber.buckets[i]? = some bucket → bucket.synced → bucket.OneStatus) ∧
    ¬(∀ world : World 1 1, Reachable lateSession world → ∀ (i : Nat) (bucket : Subscriber.Bucket),
        world.subscriber.buckets[i]? = some bucket → bucket.synced → world.phase = .nak (i + 1) →
        bucket.Ahead) := by
  refine ⟨fun h => ?_, fun h => ?_⟩
  · have hone := (h lateBoth reachable_lateBoth 0 (lateBoth.subscriber.buckets[0]?.getD { id := 0 })
      rfl rfl).parked_gone 1
    exact hone (by decide) (by decide)
  · have hahead := (h lateBehind reachable_lateBehind 0
      (lateBehind.subscriber.buckets[0]?.getD { id := 0 }) rfl rfl rfl).gone 1 (by decide)
    exact absurd hahead (by decide)

/-! ### The run in which nothing arrives late -/

omit [NeZero bucketCount] [NeZero ringSize] in
/-- A call that brings nothing. -/
theorem cleanly_of_quiet {world world' : World bucketCount ringSize} (call : Subscriber.Call)
    (hquiet : ∀ id, world.subscriber.arriving id call = [])
    (hsame : world'.subscriber = (world.subscriber.call call).1) : Cleanly world world' := by
  refine .inr ⟨call, fun bucket _ => ?_, hsame⟩
  rw [hquiet]
  exact Subscriber.Bucket.clean_nil

theorem Run.cleanly {world world' : World bucketCount ringSize}
    {earlier : List (World bucketCount ringSize)}
    (h : Run session start (world :: earlier) ∧
      (world :: earlier).IsChain fun world' world => Cleanly world world')
    (hstep : Step world world') (hclean : Cleanly world world') :
    Run session start (world' :: world :: earlier) ∧
      (world' :: world :: earlier).IsChain fun world' world => Cleanly world world' :=
  ⟨h.1.step hstep, List.isChain_cons_cons.mpr ⟨hclean, h.2⟩⟩

/-- The run of `lateAsked`. -/
theorem run_lateAsked_cleanly : ∃ earlier, Run lateSession 0 (lateAsked :: earlier) ∧
    (lateAsked :: earlier).IsChain fun world' world => Cleanly world world' := by
  have hpublish : (init lateSession : World 1 1).Allows (.publish {}) := by
    refine ⟨rfl, ?_, ?_⟩ <;> decide
  have hfinish : ((init lateSession : World 1 1).afterPublisher (.publish {})).Allows .finish :=
    ⟨rfl, by decide, trivial⟩
  have hpublished := Run.cleanly
    (Run.cleanly ⟨.init, .singleton _⟩ (.publisher _ hpublish) (.inl rfl))
    (.publisher _ hfinish) (.inl rfl)
  have hdrained := Run.cleanly hpublished
    (@Step.drainUdp _ _ _ _ _ 0 _ [⟨(packet 0 2 (encodePayload endMessage)).bytes, 0⟩] rfl rfl
      (List.forall_mem_singleton.mpr (.tail _ (.head _))) (by decide))
    (.inr ⟨.drainUdp 0 [⟨(packet 0 2 (encodePayload endMessage)).bytes, 0⟩], fun bucket hmem => by
      rw [List.mem_singleton.mp hmem]
      exact Bucket.clean_of_fresh rfl rfl, rfl⟩)
  have hread := Run.cleanly hdrained (.drainTcp [] 0 rfl fun link _ => (List.append_nil _).symm)
    (cleanly_of_quiet (.drainTcp []) (fun _ => rfl) rfl)
  have hasked := Run.cleanly hread (.nak ⟨10000000, true, true⟩ rfl (by decide) (by decide))
    (cleanly_of_quiet (.nak 0 ⟨10000000, true, true⟩) (fun _ => rfl) rfl)
  exact ⟨_, Run.cleanly hasked (.deliver rfl) (cleanly_of_quiet (.deliver 0) (fun _ => rfl) rfl)⟩

theorem lateWaiting_clean : lateWaiting.subscriber.Clean (.drainTcp [.data (answer 0 none 1)]) := by
  intro bucket hmem
  have hvalid : Answer.Valid ⟨0, 1, none⟩ := ⟨by decide, by decide, fun _ => nofun⟩
  have hparse : parse ([(⟨0, 1, none⟩ : Answer)].flatMap Answer.bytes ++ []) =
      ([⟨0, 1, none⟩], some []) :=
    parse_answers (List.forall_mem_singleton.mpr hvalid) (by decide)
  have harriving : lateWaiting.subscriber.arriving 0 (.drainTcp [.data (answer 0 none 1)]) =
      [.frame 1 none] :=
    congrArg (fun parsed => (parsed.1.filter fun reply => reply.bucket = 0).map fun reply =>
      Act.frame reply.sequence reply.msg) hparse
  have hid : bucket.id = 0 := by
    rw [List.mem_singleton.mp hmem]
    rfl
  have hnew : 1 ∉ bucket.parked := by
    rw [List.mem_singleton.mp hmem]
    decide
  rw [hid, harriving]
  exact ⟨fun s hs => absurd hs List.not_mem_nil, fun s hs _ => List.mem_singleton.mp hs ▸ hnew⟩

/-- The run of `lateTold`. -/
theorem run_lateTold : ∃ earlier, Run lateSession 0 (lateTold :: earlier) ∧
    (lateTold :: earlier).IsChain fun world' world => Cleanly world world' := by
  obtain ⟨_, hasked⟩ := run_lateAsked_cleanly
  have hanswered := Run.cleanly hasked
    (@Step.serve _ _ _ _ lateAsked (lateAsked.link.getD {}) rfl rfl) (.inl rfl)
  have hwaiting := Run.cleanly (Run.cleanly hanswered (.again rfl) (.inl rfl))
    (.drainUdp [] rfl rfl nofun (List.pairwise_singleton _ _))
    (cleanly_of_quiet (.drainUdp 0 []) (fun id => by rw [Subscriber.arriving]; split <;> rfl) rfl)
  exact ⟨_, Run.cleanly hwaiting
    (.drainTcp [.data (answer 0 none 1)] 12 rfl (receives_answer lateAnswered_link rfl))
    (.inr ⟨_, lateWaiting_clean, rfl⟩)⟩

/-- The end marker is parked, and the first message is a hole and then gone. -/
theorem one_status_told :
    (∃ bucket ∈ lateAsked.subscriber.buckets, 2 ∈ bucket.parked ∧ 1 ∈ bucket.holes ∧
      bucket.OneStatus ∧
      bucket.Ahead) ∧
    ∃ bucket ∈ lateTold.subscriber.buckets, 2 ∈ bucket.parked ∧ 1 ∈ bucket.gone ∧
    bucket.OneStatus := by
  obtain ⟨_, hasked, haskedCleanly⟩ := run_lateAsked_cleanly
  obtain ⟨_, htold, htoldCleanly⟩ := run_lateTold
  have hget : lateAsked.subscriber.buckets[0]? =
    some (lateAsked.subscriber.buckets[0]?.getD { id := 0 }) := rfl
  have hget' : lateTold.subscriber.buckets[0]? =
    some (lateTold.subscriber.buckets[0]?.getD { id := 0 }) := rfl
  obtain ⟨hone, hahead⟩ :=
    (one_status_iff hasked).mpr haskedCleanly lateAsked (.head _) 0 _ hget rfl
  obtain ⟨hone', -⟩ := (one_status_iff htold).mpr htoldCleanly lateTold (.head _) 0 _ hget' rfl
  exact ⟨⟨_, List.mem_of_getElem? hget, by decide, by decide, hone, hahead rfl⟩,
    ⟨_, List.mem_of_getElem? hget', by decide, by decide, hone'⟩⟩

end World
end MegaFeed
