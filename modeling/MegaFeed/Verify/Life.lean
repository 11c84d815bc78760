import MegaFeed.Verify.Acts

/-! # Where the events of a bucket come from

Every event of a life was emitted by an act (`Life.origin`), and what an act emits says what the
bucket was like then (`Bucket.Emits`). So a number is given up, written off or asked for only when
it was a hole, and every hole was noticed below a number that had arrived. -/

namespace MegaFeed
namespace Subscriber
open Std (ExtTreeMap ExtTreeSet)
open FeedPublisher (Assigned)

variable {settings : Settings} {Allowed Allowed' : UInt64 → List BucketEvent → Bucket → Act → Prop}
  {start clock now : UInt64} {first bucket bucket' : Bucket} {history events : List BucketEvent}
  {event : BucketEvent} {act : Act} {s : Nat}

/-! ## Acts -/

/-- The bucket once it has joined with `sequence`. -/
def Bucket.joined (bucket : Bucket) (backfill sequence : Nat) : Bucket :=
  if bucket.synced then bucket
  else { bucket with nextSequence := startAt backfill sequence, synced := true }

theorem Bucket.joined_of_synced {backfill sequence : Nat} (h : bucket.synced = true) :
    bucket.joined backfill sequence = bucket := if_pos h

theorem Bucket.joined_maps (bucket : Bucket) (backfill sequence : Nat) :
    (bucket.joined backfill sequence).parked = bucket.parked ∧
    (bucket.joined backfill sequence).holes = bucket.holes ∧
    (bucket.joined backfill sequence).gone = bucket.gone := by
  unfold joined
  split <;> exact ⟨rfl, rfl, rfl⟩

theorem Bucket.accept_joined {backfill sequence : Nat} {msg : OrderMessage} :
    bucket.acceptOrderMessage backfill sequence msg now =
      (bucket.joined backfill sequence).acceptOrderMessage backfill sequence msg now := by
  cases h : bucket.synced with
  | true => rw [joined_of_synced h]
  | false => rw [accept_unsynced h, joined, h, if_neg Bool.false_ne_true]

theorem Bucket.joined_synced {backfill sequence : Nat} :
    (bucket.joined backfill sequence).synced = true := by
  unfold joined
  split
  · assumption
  · rfl

/-- The events of an act, and what the bucket is like when it emits them. -/
inductive Bucket.Emits (settings : Settings) (bucket : Bucket) : Act → BucketEvent → Prop
  | arrived {sequence : Nat} {msg : OrderMessage} {now : UInt64} :
    Emits settings bucket (.accept sequence msg now) (.arrived sequence)
  | noticed {sequence missing : Nat} {msg : OrderMessage} {now : UInt64}
    (h : missing ∈ (bucket.joined settings.backfill sequence).missing sequence) :
    Emits settings bucket (.accept sequence msg now) (.noticed missing now)
  | frame {sequence : Nat} {payload : Option OrderMessage} :
    Emits settings bucket (.frame sequence payload) (.frame sequence payload)
  | expired {sequence : Nat} {now : UInt64} (h : sequence ∈ bucket.expired now settings.giveupNs) :
    Emits settings bucket (.expire now) (.expired sequence now)
  | requested {now : UInt64} :
    Emits settings bucket (.request now)
      (.requested (bucket.toRequest now settings.nakDelayNs settings.nakRepeatNs) now)
  | passed {event : BucketEvent} {sequence : Nat} {outcome : Outcome}
    (h : event.outcome = some (sequence, outcome))
    (hgone : event = .unrecoverable sequence → sequence ∈ bucket.gone) :
    Emits settings bucket .deliver event

theorem Bucket.Rounds.passed (h : bucket.Rounds events bucket') (hmem : event ∈ events) :
    ∃ sequence outcome, event.outcome = some (sequence, outcome) ∧
      (event = .unrecoverable sequence → sequence ∈ bucket.gone) := by
  induction h with
  | nil => cases hmem
  | cons hround _ ih =>
    rcases List.mem_cons.mp hmem with rfl | hmem
    · cases hround with
      | delivered => exact ⟨_, _, rfl, nofun⟩
      | ended => exact ⟨_, _, rfl, nofun⟩
      | unrecoverable _ hgone => exact ⟨_, _, rfl, fun _ => hgone⟩
    · obtain ⟨sequence, outcome, houtcome, hgone⟩ := ih hmem
      exact ⟨sequence, outcome, houtcome, fun h => hround.passes.choose_spec.mem_gone (hgone h)⟩

theorem Bucket.emits_of_mem (h : event ∈ (bucket.act settings act).2) :
    bucket.Emits settings act event := by
  cases act with
  | accept sequence msg now =>
    rw [Bucket.act, accept_joined, accept_eq joined_synced] at h
    split at h
    · cases List.mem_singleton.mp h
      exact .arrived
    · rcases List.mem_cons.mp h with rfl | h
      · exact .arrived
      · obtain ⟨missing, hmissing, rfl⟩ := List.mem_map.mp h
        exact .noticed hmissing
  | frame sequence payload =>
    cases List.mem_singleton.mp h
    exact .frame
  | expire now =>
    obtain ⟨sequence, hexpired, rfl⟩ := List.mem_map.mp h
    exact .expired hexpired
  | request now =>
    rw [Bucket.act] at h
    split at h
    · cases h
    · cases List.mem_singleton.mp h
      exact .requested
  | deliver =>
    obtain ⟨sequence, outcome, houtcome, hgone⟩ := (deliverLoop_rounds _ _).passed h
    exact .passed houtcome hgone

/-- Where a hole that is there after an act comes from. -/
inductive Bucket.HoleFrom (settings : Settings) (bucket : Bucket) (s : Nat)
    (hole : Hole) : Act → Prop
  | opened {sequence : Nat} {msg : OrderMessage} {now : UInt64} (hhole : hole = ⟨now, 0⟩)
    (hmissing : s ∈ (bucket.joined settings.backfill sequence).missing sequence)
    (hnoticed : .noticed s now ∈ (bucket.act settings (.accept sequence msg now)).2) :
    HoleFrom settings bucket s hole (.accept sequence msg now)
  | kept {act : Act} (hold : bucket.holes[s]? = some hole)
    (hquiet : ¬Asked (bucket.act settings act).2 s) : HoleFrom settings bucket s hole act
  | stamped {now : UInt64} {old : Hole} (hold : bucket.holes[s]? = some old)
    (hhole : hole = { old with asked := now })
    (hmem : s ∈ bucket.toRequest now settings.nakDelayNs settings.nakRepeatNs) :
    HoleFrom settings bucket s hole (.request now)

theorem Bucket.asked_act (h : Asked (bucket.act settings act).2 s) :
    ∃ now, act = .request now ∧ s ∈ bucket.toRequest now settings.nakDelayNs
      settings.nakRepeatNs := by
  obtain ⟨sequences, now, hmem, hs⟩ := h
  cases emits_of_mem hmem with
  | requested => exact ⟨now, rfl, hs⟩
  | passed houtcome => cases houtcome

/-- A hole after an act was opened by it, asked for by it, or left alone. -/
theorem Bucket.act_holes {hole : Hole} (h : (bucket.act settings act).1.holes[s]? = some hole) :
    bucket.HoleFrom settings s hole act := by
  have hquiet : (∀ now, act ≠ .request now) → ¬Asked (bucket.act settings act).2 s :=
    fun hne hasked => by
      obtain ⟨now, heq, -⟩ := asked_act hasked
      exact hne now heq
  cases act with
  | accept sequence msg now =>
    obtain ⟨-, hholes, -⟩ := bucket.joined_maps settings.backfill sequence
    have hevents : (bucket.act settings (.accept sequence msg now)).2 =
      ((bucket.joined settings.backfill sequence).acceptOrderMessage settings.backfill
        sequence msg now).2 :=
        congrArg Prod.snd accept_joined
    rw [Bucket.act, accept_joined, accept_eq joined_synced] at h
    rw [accept_eq joined_synced] at hevents
    split at h
    · dsimp only at h
      rw [hholes] at h
      exact .kept h (hquiet (by simp))
    · next hnew =>
      rw [if_neg hnew] at hevents
      rw [getElem?_park_holes] at h
      split at h
      · cases h
      · split at h
        · next hmissing =>
          refine .opened (Option.some.inj h).symm hmissing ?_
          rw [hevents]
          exact .tail _ (List.mem_map.mpr ⟨s, hmissing, rfl⟩)
        · rw [hholes] at h
          exact .kept h (hquiet (by simp))
  | frame sequence payload =>
    rw [Bucket.act, (bucket.onFrame_answered sequence payload).holes,
      ExtTreeMap.getElem?_erase'] at h
    split at h
    · cases h
    · exact .kept h (hquiet (by simp))
  | expire now =>
    rw [Bucket.act, expire_eq, ExtTreeMap.getElem?_eraseAll] at h
    split at h
    · cases h
    · exact .kept h (hquiet (by simp))
  | request now =>
    by_cases hs : s ∈ bucket.toRequest now settings.nakDelayNs settings.nakRepeatNs
    · have hsome : ¬(bucket.toRequest now settings.nakDelayNs settings.nakRepeatNs).isEmpty := by
        intro hnone
        rw [List.isEmpty_iff.mp hnone] at hs
        cases hs
      have hstamp : bucket.act settings (.request now) =
          (bucket.stamp (bucket.toRequest now settings.nakDelayNs settings.nakRepeatNs) now,
            [.requested (bucket.toRequest now settings.nakDelayNs settings.nakRepeatNs) now]) :=
            if_neg hsome
      rw [hstamp, getElem?_stamp_holes, if_pos hs] at h
      obtain ⟨old, hold, rfl⟩ := Option.map_eq_some_iff.mp h
      exact .stamped hold rfl hs
    · refine .kept ?_ fun hasked => ?_
      · rw [Bucket.act] at h
        split at h
        · exact h
        · rwa [getElem?_stamp_holes, if_neg hs] at h
      · obtain ⟨_, heq, hmem⟩ := asked_act hasked
        cases heq
        exact hs hmem
  | deliver =>
    rw [Bucket.act, deliver, (deliverLoop_rounds _ _).holes_eq] at h
    exact .kept h (hquiet (by simp))

theorem Bucket.Rounds.mem_gone (h : bucket.Rounds events bucket') (hs : s ∈ bucket'.gone) :
    s ∈ bucket.gone := by
  induction h with
  | nil => exact hs
  | cons hround _ ih => exact hround.passes.choose_spec.mem_gone (ih hs)

/-- A number is gone because it was given up, or because the server has it no more. -/
theorem Bucket.act_gone (h : s ∈ (bucket.act settings act).1.gone) :
    (∃ now, .expired s now ∈ (bucket.act settings act).2) ∨
      .frame s none ∈ (bucket.act settings act).2 ∨ s ∈ bucket.gone := by
  cases act with
  | accept sequence msg now =>
    obtain ⟨-, -, hgone⟩ := bucket.joined_maps settings.backfill sequence
    rw [Bucket.act, accept_joined, accept_eq joined_synced] at h
    rw [← hgone]
    split at h <;> exact .inr (.inr h)
  | frame sequence payload =>
    rcases ((bucket.onFrame_answered sequence payload).gone s).mp h with h | ⟨rfl, -, rfl⟩
    · exact .inr (.inr h)
    · exact .inr (.inl (List.mem_singleton_self _))
  | expire now =>
    rcases mem_expire_gone.mp h with h | h
    · exact .inl ⟨now, List.mem_map_of_mem h⟩
    · exact .inr (.inr h)
  | request now =>
    rw [Bucket.act] at h
    split at h <;> exact .inr (.inr h)
  | deliver => exact .inr (.inr ((deliverLoop_rounds _ _).mem_gone h))

/-! ## Lives -/

theorem Life.mono (L : Life settings Allowed start first clock history bucket)
    (h : ∀ clock history bucket act, Allowed clock history bucket act →
      Allowed' clock history bucket act) :
    Life settings Allowed' start first clock history bucket := by
  induction L with
  | new => exact .new
  | act act _ hallowed ih => exact ih.act act (h _ _ _ _ hallowed)
  | wait _ hle ih => exact ih.wait hle

theorem Life.id_eq (L : Life settings Allowed start first clock history bucket) :
    bucket.id = first.id := by
  induction L with
  | new => rfl
  | act act _ _ ih => exact (Bucket.id_act _ act).trans ih
  | wait _ _ ih => exact ih

/-- Every event comes from an act that was allowed. -/
theorem Life.origin (L : Life settings Allowed start first clock history bucket)
    (h : event ∈ history) :
    ∃ clock' before bucket' act, Life settings Allowed start first clock' before bucket' ∧
      Allowed clock' before bucket' act ∧ bucket'.Emits settings act event ∧
      before ++ (bucket'.act settings act).2 <+: history := by
  induction L with
  | new => cases h
  | @act clock history bucket act L hallowed ih =>
    rcases List.mem_append.mp h with h | h
    · obtain ⟨clock', before, bucket', act', L', hallowed', hemits, hfront⟩ := ih h
      exact ⟨clock', before, bucket', act', L', hallowed', hemits,
        hfront.trans (List.prefix_append _ _)⟩
    · exact ⟨clock, history, bucket, act, L, hallowed, Bucket.emits_of_mem h, List.prefix_rfl⟩
  | wait _ _ ih => exact ih h

/-- A hole was noticed when it says. -/
theorem Life.hole (L : Life settings Allowed start first clock history bucket)
    (hnew : ∀ s, s ∉ first.holes) {hole : Hole} (h : bucket.holes[s]? = some hole) :
    .noticed s hole.noticed ∈ history := by
  induction L generalizing hole with
  | new => exact (hnew s (ExtTreeMap.mem_of_getElem? h)).elim
  | act act _ _ ih =>
    cases Bucket.act_holes h with
    | opened hhole _ hnoticed => exact List.mem_append_right _ (hhole ▸ hnoticed)
    | kept hold _ => exact List.mem_append_left _ (ih hold)
    | stamped hold hhole _ =>
      have hnoticed := ih hold
      exact List.mem_append_left _ (hhole ▸ hnoticed)
  | wait _ _ ih => exact ih h

theorem Life.gone (L : Life settings Allowed start first clock history bucket)
    (hnew : ∀ s, s ∉ first.gone) (h : s ∈ bucket.gone) :
    (∃ now, .expired s now ∈ history) ∨ .frame s none ∈ history := by
  induction L with
  | new => exact (hnew s h).elim
  | act act _ _ ih =>
    rcases Bucket.act_gone h with ⟨now, h⟩ | h | h
    · exact .inl ⟨now, List.mem_append_right _ h⟩
    · exact .inr (List.mem_append_right _ h)
    · exact (ih h).imp (fun ⟨now, h⟩ => ⟨now, List.mem_append_left _ h⟩) (List.mem_append_left _)
  | wait _ _ ih => exact ih h

/-- A number is written off after it was given up or the server did not have it. -/
theorem Life.unrecoverable (L : Life settings Allowed start first clock history bucket)
    (hnew : ∀ s, s ∉ first.gone) (h : .unrecoverable s ∈ history) :
    (∃ now, .expired s now ∈ history) ∨ .frame s none ∈ history := by
  obtain ⟨_, before, bucket', act, L', -, hemits, hfront⟩ := L.origin h
  cases hemits with
  | passed houtcome hgone =>
    cases houtcome
    have hsub := (List.prefix_append _ _).trans hfront |>.subset
    exact (L'.gone hnew (hgone rfl)).imp (fun ⟨now, h⟩ => ⟨now, hsub h⟩) (hsub ·)

/-- A number that was asked for had been noticed. -/
theorem Life.asked (L : Life settings Allowed start first clock history bucket)
    (hnew : ∀ s, s ∉ first.holes) (h : Asked history s) : ∃ t, .noticed s t ∈ history := by
  obtain ⟨sequences, now, hmem, hs⟩ := h
  obtain ⟨_, before, bucket', act, L', -, hemits, hfront⟩ := L.origin hmem
  cases hemits with
  | requested =>
    obtain ⟨hole, hget⟩ := ExtTreeMap.exists_of_mem (Bucket.mem_toRequest hs)
    exact ⟨_, ((List.prefix_append _ _).trans hfront).subset (L'.hole hnew hget)⟩
  | passed houtcome => cases houtcome

/-- A number that was given up had been noticed, longer ago than the deadline. -/
theorem Life.expired (L : Life settings Allowed start first clock history bucket)
    (hnew : ∀ s, s ∉ first.holes) (h : .expired s now ∈ history) :
    ∃ t, .noticed s t ∈ history ∧ now - t > settings.giveupNs := by
  obtain ⟨_, before, bucket', act, L', -, hemits, hfront⟩ := L.origin h
  cases hemits with
  | expired hexpired =>
    obtain ⟨hole, hget, hage, -⟩ := Bucket.mem_expired_iff.mp hexpired
    exact ⟨_, ((List.prefix_append _ _).trans hfront).subset (L'.hole hnew hget), hage⟩
  | passed houtcome => cases houtcome

/-- A number is noticed when a later one arrives. -/
theorem Life.noticed (L : Life settings Allowed start first clock history bucket)
    (h : .noticed s now ∈ history) : ∃ s', s < s' ∧ .arrived s' ∈ history := by
  obtain ⟨_, before, bucket', act, L', -, hemits, hfront⟩ := L.origin h
  cases hemits with
  | @noticed sequence _ msg _ hmissing =>
    refine ⟨sequence, (Bucket.mem_missing.mp hmissing).2.1,
      hfront.subset (List.mem_append_right _ ?_)⟩
    rw [Bucket.act, Bucket.accept_joined, Bucket.accept_eq Bucket.joined_synced]
    split <;> exact .head _
  | passed houtcome => cases houtcome

/-! ## With an honest publisher -/

section
variable {assigned assigned' : List Assigned} {Lost Lost' : Nat → Nat → Prop}

theorem Life.honest_mono
    (L : Life settings (Timed (Honest assigned Lost)) start first clock history bucket)
    (hassigned : assigned ⊆ assigned') (hlost : ∀ id s, Lost id s → Lost' id s) :
    Life settings (Timed (Honest assigned' Lost')) start first clock history bucket := by
  refine L.mono fun clock history bucket act hallowed => ⟨hallowed.1, ?_⟩
  obtain ⟨-, hallowed⟩ := hallowed
  match act, hallowed with
  | .accept _ _ _, ⟨hpos, hlt, hmem⟩ => exact ⟨hpos, hlt, hassigned hmem⟩
  | .frame _ (some _), ⟨hasked, hmem⟩ => exact ⟨hasked, hassigned hmem⟩
  | .frame _ none, ⟨hasked, hgone⟩ => exact ⟨hasked, hlost _ _ hgone⟩
  | .expire _, _ | .request _, _ | .deliver, _ => trivial

theorem Life.arrived
    (L : Life settings (Timed (Honest assigned Lost)) start first clock history bucket)
    (h : .arrived s ∈ history) : ∃ msg, ⟨first.id, s, msg⟩ ∈ assigned := by
  obtain ⟨_, before, bucket', act, L', hallowed, hemits, -⟩ := L.origin h
  cases hemits with
  | arrived => exact ⟨_, L'.id_eq ▸ hallowed.2.2.2⟩
  | passed houtcome => cases houtcome

/-- A frame without payload answers a request. -/
theorem Life.lost
    (L : Life settings (Timed (Honest assigned Lost)) start first clock history bucket)
    (h : .frame s none ∈ history) : Asked history s ∧ Lost first.id s := by
  obtain ⟨_, before, bucket', act, L', hallowed, hemits, hfront⟩ := L.origin h
  cases hemits with
  | frame =>
    obtain ⟨-, ⟨sequences, now, hmem, hs⟩, hlost⟩ := hallowed
    exact ⟨⟨sequences, now, ((List.prefix_append _ _).trans hfront).subset hmem, hs⟩,
      L'.id_eq ▸ hlost⟩
  | passed houtcome => cases houtcome

@[simp] theorem id_newBucket {firstExpected : UInt64}
    {id : Nat} : (newBucket firstExpected id).id = id := by
  unfold newBucket
  split <;> rfl

theorem newBucket_maps (firstExpected : UInt64) (id : Nat) :
    (∀ s, s ∉ (newBucket firstExpected id).holes) ∧ ∀ s, s ∉ (newBucket firstExpected id).gone := by
  unfold newBucket
  split <;> simp

theorem Life.kept {firstExpected : UInt64} {id : Nat}
    (L : Life settings (Timed (Honest assigned Lost)) start
      (newBucket firstExpected id) clock history
      bucket) : Kept firstExpected.toNat settings.backfill assigned history bucket := by
  induction L with
  | new => exact Kept.new id firstExpected
  | @act clock history bucket act _ hallowed ih =>
    obtain ⟨-, hallowed⟩ := hallowed
    match act, hallowed with
    | .accept _ _ _, ⟨hpos, hlt, hmem⟩ => exact ih.accept hpos hlt hmem
    | .frame _ (some _), ⟨hasked, hmem⟩ =>
        exact ih.onFrame hasked fun _ h => Option.some.inj h ▸ hmem
    | .frame _ none, ⟨hasked, _⟩ => exact ih.onFrame hasked nofun
    | .expire now, _ =>
      cases hholes : bucket.holes.isEmpty with
      | false => exact ih.expire now settings.giveupNs hholes
      | true =>
        have hnothing : bucket.expired now settings.giveupNs = [] := by
          rw [Bucket.expired, ExtTreeMap.isEmpty_iff.mp hholes, ExtTreeMap.toList_empty]
          rfl
        rw [Bucket.act, Bucket.expire_eq, hnothing, List.map_nil, List.append_nil]
        exact ih
    | .request now, _ =>
      rw [Bucket.act]
      split
      · rw [List.append_nil]
        exact ih
      · next hsome =>
        exact ih.stamp (List.length_pos_of_ne_nil fun hnil => hsome (List.isEmpty_iff.mpr hnil))
          fun s hs => Bucket.mem_toRequest hs
    | .deliver, _ => exact ih.deliver
  | wait _ _ ih => exact ih

/-- What was noticed was assigned, and so was a later number. -/
theorem Life.noticed_assigned {bucketCount ringSize : Nat}
    {publisher : FeedPublisher bucketCount ringSize}
    {firstExpected : UInt64} {id : Nat}
    (L : Life settings (Timed (Honest assigned Lost)) start
      (newBucket firstExpected id) clock history
      bucket) (R : FeedPublisher.Records publisher assigned) (h : .noticed s now ∈ history) :
    (∃ msg, ⟨id, s, msg⟩ ∈ assigned) ∧ ∃ s' msg', s < s' ∧ ⟨id, s', msg'⟩ ∈ assigned := by
  obtain ⟨s', hlt, harrived⟩ := L.noticed h
  obtain ⟨msg', hmsg'⟩ := L.arrived harrived
  rw [id_newBucket] at hmsg'
  have hpos : 1 ≤ s := by
    obtain ⟨_, before, bucket', act, L', hallowed, hemits, -⟩ := L.origin h
    cases hemits with
    | noticed hmissing =>
      refine le_trans ?_ (Bucket.mem_missing.mp hmissing).1
      rcases L'.kept.state with H | ⟨S, -, H⟩
      · rw [Bucket.joined, H.synced, if_neg Bool.false_ne_true]
        exact Bucket.startAt_pos _ hallowed.2.1
      · rw [Bucket.joined_of_synced H.synced]
        exact H.start_pos.trans H.start_le
    | passed houtcome => cases houtcome
  have hcount := (List.getElem?_eq_some_iff.mp (R.mem_assigned.mp hmsg').2).1
  have hget : (FeedPublisher.messages assigned id)[s - 1]? =
      some ((FeedPublisher.messages assigned id)[s - 1]) := List.getElem?_eq_getElem (by omega)
  exact ⟨⟨_, R.mem_assigned.mpr ⟨hpos, hget⟩⟩, s', msg', hlt, hmsg'⟩

end

end Subscriber
end MegaFeed
