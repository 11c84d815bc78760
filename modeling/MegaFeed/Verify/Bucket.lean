import MegaFeed.Theory.OrdMap
import MegaFeed.Spec.History

/-! # One subscriber bucket

`Running` is the invariant of a bucket that has started at `S`: the numbers passed are exactly `S, S
+ 1, …` up to `nextSequence`, each with its outcome, and every number from there to the highest one
received is parked, a hole or gone. Every function of the subscriber that touches a bucket keeps it,
given that what arrives is what was published (`Running.accept`, `Running.onFrame`,
`Running.expire`, `Running.stamp`, `Running.deliver`). -/

namespace MegaFeed
namespace Subscriber
open Std (ExtTreeMap ExtTreeSet)
open FeedPublisher (Assigned)

variable {history events : List BucketEvent} {bucket : Bucket} {assigned : List Assigned}
  {S sequence backfill : Nat} {msg : OrderMessage} {now giveup : UInt64}

/-! ## Histories -/

@[simp] theorem arrived_append : arrived (history ++ events) = arrived history ++ arrived events :=
  List.filterMap_append

@[simp] theorem outcomes_append :
    outcomes (history ++ events) = outcomes history ++ outcomes events := List.filterMap_append

@[simp] theorem delivered_append :
    delivered (history ++ events) = delivered history ++ delivered events := List.filterMap_append

theorem asked_append :
    Asked (history ++ events) sequence ↔ Asked history sequence ∨ Asked events sequence := by
  simp only [Asked, List.mem_append, or_and_right, exists_or]

theorem highest_append :
    highest S (history ++ events) = (arrived events).foldl max (highest S history) := by
  rw [highest, arrived_append, List.foldl_append, highest]

theorem highest_of_none (h : arrived events = []) :
    highest S (history ++ events) = highest S history := by
  rw [highest_append, h, List.foldl_nil]

theorem highest_arrived : highest S (history ++ [.arrived sequence]) =
    max (highest S history) sequence := highest_append

theorem mem_arrived (h : .arrived sequence ∈ history) : sequence ∈ arrived history :=
  List.mem_filterMap.mpr ⟨_, h, rfl⟩

theorem le_foldl_max {l : List Nat} {a : Nat} : a ≤ l.foldl max a ∧ ∀ x ∈ l, x ≤ l.foldl max a := by
  induction l generalizing a with
  | nil => exact ⟨le_rfl, nofun⟩
  | cons b l ih =>
    obtain ⟨hfirst, hrest⟩ := @ih (max a b)
    exact ⟨(Nat.le_max_left a b).trans hfirst,
      List.forall_mem_cons.mpr ⟨(Nat.le_max_right a b).trans hfirst, hrest⟩⟩

theorem le_highest (h : .arrived sequence ∈ history) : sequence ≤ highest S history :=
  le_foldl_max.2 _ (mem_arrived h)

/-- Events that neither pass a number nor receive or request one. -/
def Quiet (events : List BucketEvent) : Prop :=
  arrived events = [] ∧ outcomes events = [] ∧ ∀ sequence, ¬Asked events sequence

theorem quiet_of_forall (h : ∀ event ∈ events, (∃ s now, event = .noticed s now) ∨
    (∃ s payload, event = .frame s payload) ∨ ∃ s now, event = .expired s now) : Quiet events := by
  refine ⟨List.filterMap_eq_nil_iff.mpr fun event hmem => ?_,
    List.filterMap_eq_nil_iff.mpr fun event hmem => ?_, ?_⟩
  · rcases h event hmem with ⟨_, _, rfl⟩ | ⟨_, _, rfl⟩ | ⟨_, _, rfl⟩ <;> rfl
  · rcases h event hmem with ⟨_, _, rfl⟩ | ⟨_, _, rfl⟩ | ⟨_, _, rfl⟩ <;> rfl
  · rintro sequence ⟨sequences, now, hmem, -⟩
    rcases h _ hmem with ⟨_, _, h⟩ | ⟨_, _, h⟩ | ⟨_, _, h⟩ <;> cases h

theorem quiet_noticed {missing : List Nat} : Quiet (missing.map (.noticed · now)) :=
  quiet_of_forall fun _ hmem => by
    obtain ⟨s, _, rfl⟩ := List.mem_map.mp hmem
    exact .inl ⟨s, now, rfl⟩

theorem quiet_expired {expired : List Nat} : Quiet (expired.map (.expired · now)) :=
  quiet_of_forall fun _ hmem => by
    obtain ⟨s, _, rfl⟩ := List.mem_map.mp hmem
    exact .inr (.inr ⟨s, now, rfl⟩)

theorem quiet_frame {payload : Option OrderMessage} : Quiet [.frame sequence payload] :=
  quiet_of_forall fun _ hmem => .inr (.inl ⟨sequence, payload, List.mem_singleton.mp hmem⟩)

/-! ## The invariant -/

/-- Every number from `nextSequence` to before `L` is parked, a hole or gone, and only such
are holes. -/
structure Frontier (L : Nat) (bucket : Bucket) : Prop where
  next_le : bucket.nextSequence ≤ L
  holes : ∀ s ∈ bucket.holes, bucket.nextSequence ≤ s ∧ s < L ∧ s ∉ bucket.parked ∧ s ∉ bucket.gone
  covered : ∀ s, bucket.nextSequence ≤ s → s < L →
    s ∈ bucket.parked ∨ s ∈ bucket.holes ∨ s ∈ bucket.gone

/-- A bucket that has started at `S`. -/
structure Running (S : Nat) (assigned : List Assigned) (history : List BucketEvent)
    (bucket : Bucket) : Prop where
  synced : bucket.synced = true
  start_pos : 1 ≤ S
  start_le : S ≤ bucket.nextSequence
  /-- The numbers passed, in order. -/
  passed : (outcomes history).map (·.1) = List.range' S (bucket.nextSequence - S)
  next_le : bucket.nextSequence ≤ highest S history + 1
  bounded : highest S history + 1 < 2 ^ 64
  parked : ∀ s msg, bucket.parked[s]? = some msg → ⟨bucket.id, s, msg⟩ ∈ assigned ∧
    s ≤ highest S history
  gone : ∀ s ∈ bucket.gone, s ≤ highest S history
  holes : ∀ s ∈ bucket.holes, bucket.nextSequence ≤ s ∧ s ≤ highest S history ∧
    s ∉ bucket.parked ∧ s ∉ bucket.gone
  covered : ∀ s, bucket.nextSequence ≤ s → s ≤ highest S history →
    s ∈ bucket.parked ∨ s ∈ bucket.holes ∨ s ∈ bucket.gone
  asked : ∀ s, Asked history s → s ≤ highest S history

theorem Running.frontier (H : Running S assigned history bucket) :
    Frontier (highest S history + 1) bucket where
  next_le := H.next_le
  holes s hs := by
    obtain ⟨hfrom, hto, hfree⟩ := H.holes s hs
    exact ⟨hfrom, Nat.lt_succ_of_le hto, hfree⟩
  covered s hfrom hto := H.covered s hfrom (Nat.le_of_lt_succ hto)

theorem Running.parked_le (H : Running S assigned history bucket) (h : s ∈ bucket.parked) :
    s ≤ highest S history := by
  obtain ⟨msg, hmsg⟩ := ExtTreeMap.exists_of_mem h
  exact (H.parked s msg hmsg).2

theorem Running.mono (H : Running S assigned history bucket) (new : List Assigned) :
    Running S (assigned ++ new) history bucket :=
  { H with parked := fun s msg h => ⟨List.mem_append_left _ (H.parked s msg h).1,
    (H.parked s msg h).2⟩ }

/-- Counters and the `done` flag are no part of the invariant. -/
theorem Running.congr {bucket' : Bucket} (H : Running S assigned history bucket)
    (hid : bucket'.id = bucket.id) (hsynced : bucket'.synced = bucket.synced)
    (hnext : bucket'.nextSequence = bucket.nextSequence) (hparked : bucket'.parked = bucket.parked)
    (hholes : bucket'.holes = bucket.holes) (hgone : bucket'.gone = bucket.gone) :
    Running S assigned history bucket' := by
  cases bucket
  cases bucket'
  cases hid; cases hsynced; cases hnext; cases hparked; cases hholes; cases hgone
  exact { H with }

/-- Events that leave the numbers passed and the highest one received alone. -/
theorem Running.append (H : Running S assigned history bucket)
    (houtcomes : outcomes events = [])
    (hhighest : highest S (history ++ events) = highest S history)
    (hasked : ∀ s, Asked events s → s ≤ highest S history) :
    Running S assigned (history ++ events) bucket := by
  have hpassed : outcomes (history ++ events) = outcomes history := by
    rw [outcomes_append, houtcomes, List.append_nil]
  have hboth : ∀ s, Asked (history ++ events) s → s ≤ highest S history :=
    fun s hs => (asked_append.mp hs).elim (H.asked s) (hasked s)
  refine ⟨H.synced, H.start_pos, H.start_le, ?_, ?_, ?_, ?_, ?_, ?_, ?_, ?_⟩ <;>
    simp only [hpassed, hhighest]
  exacts [H.passed, H.next_le, H.bounded, H.parked, H.gone, H.holes, H.covered, hboth]

theorem Running.quiet (H : Running S assigned history bucket) (h : Quiet events) :
    Running S assigned (history ++ events) bucket :=
  H.append h.2.1 (highest_of_none h.1) fun s hs => (h.2.2 s hs).elim

/-! ## Datagrams -/

theorem asked_arrived : ¬Asked [.arrived sequence] s := by
  rintro ⟨_, _, hmem, -⟩
  cases List.mem_singleton.mp hmem

/-- The holes a datagram opens. -/
def Bucket.missing (bucket : Bucket) (sequence : Nat) : List Nat :=
  (List.range' bucket.nextSequence (sequence - bucket.nextSequence)).filter
    fun missing => missing ∉ bucket.parked ∧ missing ∉ bucket.holes ∧ missing ∉ bucket.gone

theorem Bucket.mem_missing : s ∈ bucket.missing sequence ↔
    bucket.nextSequence ≤ s ∧ s < sequence ∧ s ∉ bucket.parked ∧ s ∉ bucket.holes ∧
    s ∉ bucket.gone := by
  rw [missing, List.mem_filter, List.mem_range'_1, decide_eq_true_eq]
  constructor
  · rintro ⟨⟨hle, hlt⟩, hnew⟩
    exact ⟨hle, by omega, hnew⟩
  · rintro ⟨hle, hlt, hnew⟩
    exact ⟨⟨hle, by omega⟩, hnew⟩

/-- The bucket after a datagram that is no duplicate. -/
def Bucket.park (bucket : Bucket) (sequence : Nat) (msg : OrderMessage) (now : UInt64) : Bucket :=
  { bucket with
    holes := (bucket.holes.insertAll (bucket.missing sequence) ⟨now, 0⟩).erase sequence
    parked := bucket.parked.insert sequence msg }

theorem Bucket.accept_eq (h : bucket.synced = true) :
    bucket.acceptOrderMessage backfill sequence msg now =
      if sequence < bucket.nextSequence ∨ sequence ∈ bucket.parked then
        ({ bucket with stats.duplicates := bucket.stats.duplicates + 1 }, [.arrived sequence])
      else
        (bucket.park sequence msg now, .arrived sequence :: (bucket.missing sequence).map
          (.noticed · now)) := by
  rw [acceptOrderMessage, if_pos h]
  rfl

theorem Bucket.getElem?_park_holes : (bucket.park sequence msg now).holes[s]? =
    if sequence = s then none
    else if s ∈ bucket.missing sequence then some ⟨now, 0⟩ else bucket.holes[s]? := by
  rw [park, ExtTreeMap.getElem?_erase', ExtTreeMap.getElem?_insertAll]

theorem Bucket.mem_park_holes : s ∈ (bucket.park sequence msg now).holes ↔
    sequence ≠ s ∧ (s ∈ bucket.missing sequence ∨ s ∈ bucket.holes) := by
  rw [ExtTreeMap.mem_iff_isSome_getElem?, getElem?_park_holes, ExtTreeMap.mem_iff_isSome_getElem?]
  split
  · simp [*]
  · split <;> simp [*]

theorem Bucket.mem_park_parked :
    s ∈ (bucket.park sequence msg now).parked ↔ sequence = s ∨ s ∈ bucket.parked :=
  ExtTreeMap.mem_insert'

theorem Frontier.le_missing {L : Nat} (F : Frontier L bucket) (h : s ∈ bucket.missing sequence) :
    L ≤ s := by
  obtain ⟨hfrom, -, hnp, hnh, hng⟩ := Bucket.mem_missing.mp h
  refine Nat.not_lt.mp fun hlt => ?_
  rcases F.covered s hfrom hlt with hp | hh | hg
  exacts [hnp hp, hnh hh, hng hg]

theorem Frontier.park {L : Nat} (F : Frontier L bucket) :
    Frontier (max L (sequence + 1)) (bucket.park sequence msg now) where
  next_le := F.next_le.trans (Nat.le_max_left ..)
  holes := by
    intro s hs
    rw [Bucket.mem_park_parked]
    obtain ⟨hne, hmissing | hhole⟩ := Bucket.mem_park_holes.mp hs
    · obtain ⟨hfrom, hto, hnp, -, hng⟩ := Bucket.mem_missing.mp hmissing
      exact ⟨hfrom, by omega, not_or.mpr ⟨hne, hnp⟩, hng⟩
    · obtain ⟨hfrom, hto, hnp, hng⟩ := F.holes s hhole
      exact ⟨hfrom, by omega, not_or.mpr ⟨hne, hnp⟩, hng⟩
  covered := by
    intro s hfrom hto
    rw [Bucket.mem_park_parked, Bucket.mem_park_holes, Bucket.mem_missing]
    by_cases hsame : sequence = s
    · exact .inl (.inl hsame)
    by_cases hp : s ∈ bucket.parked
    · exact .inl (.inr hp)
    by_cases hg : s ∈ bucket.gone
    · exact .inr (.inr hg)
    by_cases hh : s ∈ bucket.holes
    · exact .inr (.inl ⟨hsame, .inr hh⟩)
    rcases Nat.lt_or_ge s L with hlt | hge
    · rcases F.covered s hfrom hlt with h | h | h
      exacts [(hp h).elim, (hh h).elim, (hg h).elim]
    · exact .inr (.inl ⟨hsame, .inl ⟨hfrom, by omega, hp, hh, hg⟩⟩)

theorem Running.park (H : Running S assigned history bucket)
    (h : ⟨bucket.id, sequence, msg⟩ ∈ assigned) (hlt : sequence + 1 < 2 ^ 64) :
    Running S assigned (history ++ [.arrived sequence]) (bucket.park sequence msg now) := by
  have hhighest : highest S (history ++ [.arrived sequence]) = max (highest S history) sequence :=
    highest_arrived
  have F : Frontier (max (highest S history + 1) (sequence + 1)) (bucket.park sequence msg now) :=
    H.frontier.park
  refine ⟨H.synced, H.start_pos, H.start_le, ?_, ?_, ?_, ?_, ?_, ?_, ?_, ?_⟩
  · rw [outcomes_append]
    exact (congrArg _ (List.append_nil _)).trans H.passed
  · rw [hhighest]
    exact H.next_le.trans (by omega)
  · rw [hhighest]
    have := H.bounded
    omega
  · intro s msg' hs
    simp only [Bucket.park, ExtTreeMap.getElem?_insert'] at hs
    rw [hhighest]
    split at hs
    · next heq =>
      cases hs
      exact ⟨heq ▸ h, by omega⟩
    · have := H.parked s msg' hs
      exact ⟨this.1, by omega⟩
  · intro s hs
    have := H.gone s hs
    omega
  · intro s hs
    obtain ⟨hfrom, hto, hfree⟩ := F.holes s hs
    exact ⟨hfrom, by omega, hfree⟩
  · intro s hfrom hto
    exact F.covered s hfrom (by omega)
  · intro s hs
    have := H.asked s ((asked_append.mp hs).resolve_right asked_arrived)
    omega

theorem Running.accept (H : Running S assigned history bucket)
    (h : ⟨bucket.id, sequence, msg⟩ ∈ assigned) (hlt : sequence + 1 < 2 ^ 64) :
    Running S assigned (history ++ (bucket.acceptOrderMessage backfill sequence msg now).2)
      (bucket.acceptOrderMessage backfill sequence msg now).1 := by
  rw [Bucket.accept_eq H.synced]
  split
  · next hduplicate =>
    have hlow : sequence ≤ highest S history := by
      rcases hduplicate with hpassed | hparked
      · have := H.next_le
        omega
      · exact H.parked_le hparked
    have hsame : highest S (history ++ [.arrived sequence]) = highest S history := by
      rw [highest_arrived, Nat.max_eq_left hlow]
    exact (H.append rfl hsame fun s hs => (asked_arrived hs).elim).congr rfl rfl rfl rfl rfl rfl
  · have hpark :
        Running S assigned (history ++ [.arrived sequence]) (bucket.park sequence msg now) :=
      H.park h hlt
    have hquiet := hpark.quiet (@quiet_noticed now (bucket.missing sequence))
    rwa [List.append_assoc] at hquiet

/-! ## Repair frames -/

/-- What a frame does: its hole is closed, and the number is parked or gone unless it is passed or
parked already. -/
structure Bucket.Answered (bucket bucket' : Bucket) (sequence : Nat)
    (payload : Option OrderMessage) :
    Prop where
  id : bucket'.id = bucket.id
  synced : bucket'.synced = bucket.synced
  next : bucket'.nextSequence = bucket.nextSequence
  holes : bucket'.holes = bucket.holes.erase sequence
  parked : ∀ s, bucket'.parked[s]? =
    if sequence = s ∧ bucket.nextSequence ≤ s ∧
      s ∉ bucket.parked then payload else bucket.parked[s]?
  gone : ∀ s, s ∈ bucket'.gone ↔
    s ∈ bucket.gone ∨ sequence = s ∧ bucket.nextSequence ≤ s ∧ payload = none

theorem Bucket.onFrame_answered (bucket : Bucket) (sequence : Nat) (payload : Option OrderMessage) :
    bucket.Answered (bucket.onFrame sequence payload).1 sequence payload := by
  cases payload with
  | none =>
    have hparked : ∀ s, bucket.parked[s]? =
        if sequence = s ∧ bucket.nextSequence ≤ s ∧ s ∉ bucket.parked then none
        else bucket.parked[s]? := by
      intro s
      split
      · next h => exact ExtTreeMap.getElem?_eq_none h.2.2
      · rfl
    by_cases hnew : sequence ≥ bucket.nextSequence
    · simp only [onFrame, if_pos hnew]
      refine ⟨rfl, rfl, rfl, rfl, hparked, fun s => ?_⟩
      rw [ExtTreeSet.mem_insert', or_comm]
      exact or_congr_right ⟨fun h => ⟨h, h ▸ hnew, rfl⟩, And.left⟩
    · simp only [onFrame, if_neg hnew]
      refine ⟨rfl, rfl, rfl, rfl, hparked, fun s => ?_⟩
      exact ⟨.inl, fun h => h.elim (fun h => h) fun h => (hnew (h.1 ▸ h.2.1)).elim⟩
  | some msg =>
    have hgone : ∀ s, s ∈ bucket.gone ↔
        s ∈ bucket.gone ∨ sequence = s ∧ bucket.nextSequence ≤ s ∧ some msg = none :=
      fun s => ⟨.inl, fun h => h.elim (fun h => h) fun h => nomatch h.2.2⟩
    by_cases hnew : sequence ≥ bucket.nextSequence ∧ sequence ∉ bucket.parked
    · simp only [onFrame, if_pos hnew]
      refine ⟨rfl, rfl, rfl, rfl, fun s => ?_, hgone⟩
      rw [ExtTreeMap.getElem?_insert']
      by_cases hsame : sequence = s
      · subst hsame
        rw [if_pos rfl, if_pos ⟨rfl, hnew⟩]
      · rw [if_neg hsame, if_neg fun h => hsame h.1]
    · simp only [onFrame, if_neg hnew]
      refine ⟨rfl, rfl, rfl, rfl, fun s => (if_neg ?_).symm, hgone⟩
      rintro ⟨rfl, h⟩
      exact hnew h

theorem Bucket.Answered.mem_parked {bucket' : Bucket} {payload : Option OrderMessage}
    (A : bucket.Answered bucket' sequence payload) (h : s ∈ bucket'.parked) :
    s ∈ bucket.parked ∨ sequence = s := by
  obtain ⟨msg, hmsg⟩ := ExtTreeMap.exists_of_mem h
  rw [A.parked] at hmsg
  split at hmsg
  · next hnew => exact .inr hnew.1
  · exact .inl (ExtTreeMap.mem_of_getElem? hmsg)

theorem Frontier.answered {L : Nat} {bucket' : Bucket} {payload : Option OrderMessage}
    (F : Frontier L bucket) (A : bucket.Answered bucket' sequence payload) :
    Frontier L bucket' where
  next_le := A.next ▸ F.next_le
  holes := by
    intro s hs
    rw [A.holes, ExtTreeMap.mem_erase'] at hs
    obtain ⟨hfrom, hto, hnp, hng⟩ := F.holes s hs.2
    exact ⟨A.next ▸ hfrom, hto, fun hp => (A.mem_parked hp).elim hnp hs.1,
      fun hg => ((A.gone s).mp hg).elim hng fun h => hs.1 h.1⟩
  covered := by
    intro s hfrom hto
    rw [A.next] at hfrom
    rw [A.gone, A.holes, ExtTreeMap.mem_erase', ExtTreeMap.mem_iff_isSome_getElem?, A.parked]
    by_cases hnew : sequence = s ∧ bucket.nextSequence ≤ s ∧ s ∉ bucket.parked
    · rw [if_pos hnew]
      cases payload with
      | none => exact .inr (.inr (.inr ⟨hnew.1, hfrom, rfl⟩))
      | some msg => exact .inl rfl
    · rw [if_neg hnew, ← ExtTreeMap.mem_iff_isSome_getElem?]
      rcases F.covered s hfrom hto with hp | hh | hg
      · exact .inl hp
      · have hnp := (F.holes s hh).2.2.1
        exact .inr (.inl ⟨fun heq => hnew ⟨heq, hfrom, hnp⟩, hh⟩)
      · exact .inr (.inr (.inl hg))

theorem Running.onFrame (H : Running S assigned history bucket) {payload : Option OrderMessage}
    (hasked : Asked history sequence)
    (hpayload : ∀ msg ∈ payload, ⟨bucket.id, sequence, msg⟩ ∈ assigned) :
    Running S assigned (history ++ (bucket.onFrame sequence payload).2)
      (bucket.onFrame sequence payload).1 := by
  refine Running.quiet ?_ quiet_frame
  have A := bucket.onFrame_answered sequence payload
  have hle := H.asked sequence hasked
  generalize (bucket.onFrame sequence payload).1 = bucket' at A
  have F := H.frontier.answered A
  refine ⟨A.synced.trans H.synced, H.start_pos, A.next ▸ H.start_le, A.next ▸ H.passed,
    A.next ▸ H.next_le, H.bounded, ?_, ?_, ?_, ?_, H.asked⟩
  · intro s msg hs
    rw [A.id]
    rw [A.parked] at hs
    split at hs
    · next h => exact ⟨h.1 ▸ hpayload msg hs, h.1 ▸ hle⟩
    · exact H.parked s msg hs
  · intro s hs
    rcases (A.gone s).mp hs with hs | ⟨rfl, -⟩
    · exact H.gone s hs
    · exact hle
  · intro s hs
    obtain ⟨hfrom, hto, hfree⟩ := F.holes s hs
    exact ⟨hfrom, Nat.le_of_lt_succ hto, hfree⟩
  · exact fun s hfrom hto => F.covered s hfrom (Nat.lt_succ_of_le hto)

/-! ## Giving up and asking -/

theorem Bucket.mem_toList_keys {p : Nat × Hole} (h : p ∈ bucket.holes.toList) :
    p.1 ∈ bucket.holes :=
  ExtTreeMap.mem_of_getElem? (ExtTreeMap.mem_toList_iff_getElem?_eq_some.mp h)

/-- The holes `expire` gives up. -/
def Bucket.expired (bucket : Bucket) (now giveup : UInt64) : List Nat :=
  (bucket.holes.toList.takeWhile fun (_, hole) => now - hole.noticed > giveup).map (·.1)

theorem Bucket.expire_eq : bucket.expire now giveup =
    ({ bucket with
        gone := bucket.gone.insertAll (bucket.expired now giveup)
        holes := bucket.holes.eraseAll (bucket.expired now giveup) },
      (bucket.expired now giveup).map (.expired · now)) := rfl

/-- A hole is given up when it and all holes before it are past the deadline. -/
theorem Bucket.mem_expired_iff : s ∈ bucket.expired now giveup ↔
    ∃ hole, bucket.holes[s]? = some hole ∧ now - hole.noticed > giveup ∧
      ∀ (s' : Nat) (hole' : Hole), s' < s → bucket.holes[s']? = some hole' →
        now - hole'.noticed > giveup := by
  simp only [expired, List.mem_map, Prod.exists, exists_and_right, exists_eq_right,
    ExtTreeMap.mem_takeWhile_toList, decide_eq_true_eq, Nat.compare_eq_lt]

theorem Bucket.mem_expired (h : s ∈ bucket.expired now giveup) : s ∈ bucket.holes := by
  obtain ⟨hole, hget, -⟩ := mem_expired_iff.mp h
  exact ExtTreeMap.mem_of_getElem? hget

theorem Bucket.mem_expire_holes : s ∈ (bucket.expire now giveup).1.holes ↔
    s ∉ bucket.expired now giveup ∧ s ∈ bucket.holes := by
  rw [expire_eq, ExtTreeMap.mem_iff_isSome_getElem?, ExtTreeMap.getElem?_eraseAll,
    ExtTreeMap.mem_iff_isSome_getElem?]
  split <;> simp [*]

theorem Bucket.mem_expire_gone : s ∈ (bucket.expire now giveup).1.gone ↔
    s ∈ bucket.expired now giveup ∨ s ∈ bucket.gone :=
  ExtTreeSet.mem_insertAll

theorem Frontier.expire {L : Nat} (F : Frontier L bucket) :
    Frontier L (bucket.expire now giveup).1 where
  next_le := F.next_le
  holes := by
    intro s hs
    obtain ⟨hkept, hs⟩ := Bucket.mem_expire_holes.mp hs
    obtain ⟨hfrom, hto, hnp, hng⟩ := F.holes s hs
    exact ⟨hfrom, hto, hnp, fun hg => (Bucket.mem_expire_gone.mp hg).elim hkept hng⟩
  covered := by
    intro s hfrom hto
    rw [Bucket.mem_expire_gone, Bucket.mem_expire_holes]
    rcases F.covered s hfrom hto with hp | hh | hg
    · exact .inl hp
    · by_cases hexpired : s ∈ bucket.expired now giveup
      · exact .inr (.inr (.inl hexpired))
      · exact .inr (.inl ⟨hexpired, hh⟩)
    · exact .inr (.inr (.inr hg))

theorem Running.expire (H : Running S assigned history bucket) :
    Running S assigned (history ++ (bucket.expire now giveup).2) (bucket.expire now giveup).1 := by
  refine Running.quiet ?_ quiet_expired
  have F : Frontier (highest S history + 1) (bucket.expire now giveup).1 := H.frontier.expire
  refine ⟨H.synced, H.start_pos, H.start_le, H.passed, H.next_le, H.bounded, H.parked, ?_, ?_, ?_,
    H.asked⟩
  · intro s hs
    rcases Bucket.mem_expire_gone.mp hs with hs | hs
    · exact (H.holes s (Bucket.mem_expired hs)).2.1
    · exact H.gone s hs
  · intro s hs
    obtain ⟨hfrom, hto, hfree⟩ := F.holes s hs
    exact ⟨hfrom, Nat.le_of_lt_succ hto, hfree⟩
  · exact fun s hfrom hto => F.covered s hfrom (Nat.lt_succ_of_le hto)

theorem Bucket.mem_toRequest {nakDelayNs nakRepeatNs : UInt64}
    (h : s ∈ bucket.toRequest now nakDelayNs nakRepeatNs) : s ∈ bucket.holes := by
  obtain ⟨p, hp, rfl⟩ := List.mem_map.mp h
  exact mem_toList_keys (List.mem_of_mem_filter (List.mem_of_mem_take hp))

theorem Bucket.getElem?_stamp_holes {sequences : List Nat} :
    (bucket.stamp sequences now).holes[s]? =
      if s ∈ sequences then bucket.holes[s]?.map fun hole => { hole with asked := now }
      else bucket.holes[s]? :=
  ExtTreeMap.getElem?_modifyAll fun _ => rfl

theorem Bucket.mem_stamp_holes {sequences : List Nat} :
    s ∈ (bucket.stamp sequences now).holes ↔ s ∈ bucket.holes := by
  rw [ExtTreeMap.mem_iff_isSome_getElem?, getElem?_stamp_holes, ExtTreeMap.mem_iff_isSome_getElem?]
  split <;> simp

theorem Running.stamp (H : Running S assigned history bucket) {sequences : List Nat}
    (h : ∀ s ∈ sequences, s ∈ bucket.holes) :
    Running S assigned (history ++ [.requested sequences now]) (bucket.stamp sequences now) := by
  have hstamped : Running S assigned history (bucket.stamp sequences now) :=
    { H with
      holes := fun s hs => H.holes s (Bucket.mem_stamp_holes.mp hs)
      covered := fun s hfrom hto => by rw [Bucket.mem_stamp_holes]; exact H.covered s hfrom hto }
  refine hstamped.append rfl (highest_of_none rfl) ?_
  rintro s ⟨sequences', now', hmem, hs⟩
  cases List.mem_singleton.mp hmem
  exact (H.holes s (h s hs)).2.1

/-! ## Delivery -/

/-- What one round of `deliver` does: the next number leaves `parked` or `gone`. -/
structure Bucket.Passes (bucket bucket' : Bucket) (outcome : Outcome) (events : List BucketEvent) :
    Prop where
  id : bucket'.id = bucket.id
  synced : bucket'.synced = bucket.synced
  next : bucket'.nextSequence = (bucket.nextSequence + 1) % 2 ^ 64
  holes : bucket'.holes = bucket.holes
  parked : bucket'.parked = bucket.parked ∨ bucket'.parked = bucket.parked.erase bucket.nextSequence
  gone : bucket'.gone = bucket.gone ∨ bucket'.gone = bucket.gone.erase bucket.nextSequence
  ready : bucket.nextSequence ∈ bucket.parked ∨ bucket.nextSequence ∈ bucket.gone
  outcomes : outcomes events = [(bucket.nextSequence, outcome)]
  arrived : arrived events = []
  asked : ∀ s, ¬Asked events s

theorem Bucket.Passes.getElem?_parked {bucket' : Bucket} {outcome : Outcome}
    (P : bucket.Passes bucket' outcome events) {s : Nat} {msg : OrderMessage}
    (h : bucket'.parked[s]? = some msg) : bucket.parked[s]? = some msg := by
  rcases P.parked with heq | heq
  · rwa [heq] at h
  · rw [heq, ExtTreeMap.getElem?_erase'] at h
    split at h
    · exact nomatch h
    · exact h

theorem Bucket.Passes.mem_gone {bucket' : Bucket} {outcome : Outcome}
    (P : bucket.Passes bucket' outcome events) (h : s ∈ bucket'.gone) : s ∈ bucket.gone := by
  rcases P.gone with heq | heq
  · rwa [heq] at h
  · rw [heq, ExtTreeSet.mem_erase'] at h
    exact h.2

/-- The number passed is no hole, and the others keep their places. -/
theorem Frontier.pass {L : Nat} {bucket' : Bucket} {outcome : Outcome} (F : Frontier L bucket)
    (P : bucket.Passes bucket' outcome events)
    (hnext : bucket'.nextSequence = bucket.nextSequence + 1)
    (hlt : bucket.nextSequence < L) : Frontier L bucket' where
  next_le := by omega
  holes := by
    intro s hs
    rw [P.holes] at hs
    obtain ⟨hfrom, hto, hnp, hng⟩ := F.holes s hs
    have hne : s ≠ bucket.nextSequence := by
      rintro rfl
      exact P.ready.elim hnp hng
    refine ⟨by omega, hto, fun hp => ?_, fun hg => hng (P.mem_gone hg)⟩
    obtain ⟨msg, hmsg⟩ := ExtTreeMap.exists_of_mem hp
    exact hnp (ExtTreeMap.mem_of_getElem? (P.getElem?_parked hmsg))
  covered := by
    intro s hfrom hto
    have hne : bucket.nextSequence ≠ s := by omega
    rw [P.holes]
    rcases F.covered s (by omega) hto with hp | hh | hg
    · refine .inl ?_
      rcases P.parked with h | h
      · rwa [h]
      · rw [h, ExtTreeMap.mem_erase']
        exact ⟨hne, hp⟩
    · exact .inr (.inl hh)
    · refine .inr (.inr ?_)
      rcases P.gone with h | h
      · rwa [h]
      · rw [h, ExtTreeSet.mem_erase']
        exact ⟨hne, hg⟩

theorem Running.pass {bucket' : Bucket} {outcome : Outcome}
    (H : Running S assigned history bucket) (P : bucket.Passes bucket' outcome events) :
    Running S assigned (history ++ events) bucket' ∧ bucket'.nextSequence =
      bucket.nextSequence + 1 := by
  have hle : bucket.nextSequence ≤ highest S history := P.ready.elim H.parked_le (H.gone _)
  have hbound := H.bounded
  have hstart := H.start_le
  have hnext := P.next
  rw [Nat.mod_eq_of_lt (by omega)] at hnext
  have F := H.frontier.pass P hnext (Nat.lt_succ_of_le hle)
  refine ⟨?_, hnext⟩
  refine ⟨P.synced.trans H.synced, H.start_pos, by omega, ?_, ?_, ?_, ?_, ?_, ?_, ?_, ?_⟩
  · have hcount : bucket'.nextSequence - S = (bucket.nextSequence - S) + 1 := by omega
    have hlast : S + 1 * (bucket.nextSequence - S) = bucket.nextSequence := by omega
    rw [outcomes_append, P.outcomes, List.map_append, H.passed, hcount, List.range'_concat, hlast]
    rfl
  all_goals rw [highest_of_none P.arrived]
  · omega
  · exact H.bounded
  · intro s msg hs
    rw [P.id]
    exact H.parked s msg (P.getElem?_parked hs)
  · exact fun s hs => H.gone s (P.mem_gone hs)
  · intro s hs
    obtain ⟨hfrom, hto, hfree⟩ := F.holes s hs
    exact ⟨hfrom, Nat.le_of_lt_succ hto, hfree⟩
  · exact fun s hfrom hto => F.covered s hfrom (Nat.lt_succ_of_le hto)
  · exact fun s hs => H.asked s ((asked_append.mp hs).resolve_right (P.asked s))

/-- One round of the loop of `deliver`. -/
inductive Bucket.Round : Bucket → BucketEvent → Bucket → Prop
  | delivered {bucket : Bucket} {msg : OrderMessage} (hopen : bucket.done = false)
    (hmsg : bucket.parked[bucket.nextSequence]? = some msg) (htype : msg.type ≠ ascii 'E') :
    Round bucket (.delivered bucket.nextSequence msg)
      { bucket with
        parked := bucket.parked.erase bucket.nextSequence
        nextSequence := (bucket.nextSequence + 1) % 2 ^ 64
        stats.delivered := bucket.stats.delivered + 1 }
  | ended {bucket : Bucket} {msg : OrderMessage} (hopen : bucket.done = false)
    (hmsg : bucket.parked[bucket.nextSequence]? = some msg) (htype : msg.type = ascii 'E') :
    Round bucket (.ended bucket.nextSequence)
      { bucket with
        parked := bucket.parked.erase bucket.nextSequence
        nextSequence := (bucket.nextSequence + 1) % 2 ^ 64
        done := true }
  | unrecoverable {bucket : Bucket} (hopen : bucket.done = false)
    (hgone : bucket.nextSequence ∈ bucket.gone) :
    Round bucket (.unrecoverable bucket.nextSequence)
      { bucket with
        gone := bucket.gone.erase bucket.nextSequence
        nextSequence := (bucket.nextSequence + 1) % 2 ^ 64
        stats.unrecoverable := bucket.stats.unrecoverable + 1 }

inductive Bucket.Rounds : Bucket → List BucketEvent → Bucket → Prop
  | nil {bucket : Bucket} : Rounds bucket [] bucket
  | cons {bucket next last : Bucket} {event : BucketEvent} {events : List BucketEvent}
    (h : bucket.Round event next) (hrest : next.Rounds events last) :
    Rounds bucket (event :: events) last

theorem Bucket.deliverLoop_rounds (fuel : Nat) (bucket : Bucket) :
    bucket.Rounds (deliverLoop fuel bucket).2 (deliverLoop fuel bucket).1 := by
  induction fuel generalizing bucket with
  | zero => exact .nil
  | succ fuel ih =>
    rw [deliverLoop]
    split
    · exact .nil
    · next hdone =>
      have hopen : bucket.done = false := Bool.eq_false_iff.mpr hdone
      split
      · next msg hmsg =>
        dsimp only
        split
        · next htype => exact .cons (.ended hopen hmsg htype) .nil
        · next htype => exact .cons (.delivered hopen hmsg htype) (ih _)
      · split
        · next hgone => exact .cons (.unrecoverable hopen hgone) (ih _)
        · exact .nil

theorem Bucket.Round.passes {bucket bucket' : Bucket} {event : BucketEvent}
    (h : bucket.Round event bucket') :
    ∃ outcome, bucket.Passes bucket' outcome [event] := by
  cases h with
  | delivered hopen hmsg htype =>
    exact ⟨_, rfl, rfl, rfl, rfl, .inr rfl, .inl rfl,
      .inl (ExtTreeMap.mem_of_getElem? hmsg), rfl, rfl,
      fun s hs => by obtain ⟨_, _, hmem, -⟩ := hs; cases List.mem_singleton.mp hmem⟩
  | ended hopen hmsg htype =>
    exact ⟨_, rfl, rfl, rfl, rfl, .inr rfl, .inl rfl,
      .inl (ExtTreeMap.mem_of_getElem? hmsg), rfl, rfl,
      fun s hs => by obtain ⟨_, _, hmem, -⟩ := hs; cases List.mem_singleton.mp hmem⟩
  | unrecoverable hopen hgone =>
    exact ⟨_, rfl, rfl, rfl, rfl, .inl rfl, .inr rfl, .inr hgone, rfl, rfl,
      fun s hs => by obtain ⟨_, _, hmem, -⟩ := hs; cases List.mem_singleton.mp hmem⟩

theorem Running.rounds {bucket' : Bucket} (H : Running S assigned history bucket)
    (h : bucket.Rounds events bucket') : Running S assigned (history ++ events) bucket' := by
  induction h generalizing history with
  | nil => rwa [List.append_nil]
  | @cons bucket next last event events hround _ ih =>
    obtain ⟨outcome, hpasses⟩ := hround.passes
    have := ih (H.pass hpasses).1
    rwa [List.append_assoc] at this

theorem Running.deliver (H : Running S assigned history bucket) :
    Running S assigned (history ++ bucket.deliver.2) bucket.deliver.1 :=
  H.rounds (Bucket.deliverLoop_rounds _ _)

theorem Bucket.Rounds.holes_eq {bucket bucket' : Bucket} {events : List BucketEvent}
    (h : bucket.Rounds events bucket') : bucket'.holes = bucket.holes := by
  induction h with
  | nil => rfl
  | cons hround _ ih => exact ih.trans hround.passes.choose_spec.holes

/-- The fuel suffices: `deliver` ends when the next number is neither parked nor gone, or done. -/
theorem Bucket.deliverLoop_stops {fuel : Nat} (h : bucket.parked.size + bucket.gone.size ≤ fuel) :
    (deliverLoop fuel bucket).1.done = true ∨
    (deliverLoop fuel bucket).1.nextSequence ∉ (deliverLoop fuel bucket).1.parked ∧
    (deliverLoop fuel bucket).1.nextSequence ∉ (deliverLoop fuel bucket).1.gone := by
  induction fuel generalizing bucket with
  | zero =>
    refine .inr ⟨fun hp => ?_, fun hg => ?_⟩
    · have := ExtTreeMap.size_erase_of_mem hp
      simp only [deliverLoop] at this
      omega
    · have := ExtTreeSet.size_erase_of_mem hg
      simp only [deliverLoop] at this
      omega
  | succ fuel ih =>
    rw [deliverLoop]
    split
    · next hdone => exact .inl hdone
    · split
      · next msg hmsg =>
        dsimp only
        split
        · exact .inl rfl
        · refine ih ?_
          have := ExtTreeMap.size_erase_of_mem (ExtTreeMap.mem_of_getElem? hmsg)
          dsimp only
          omega
      · next hnone =>
        split
        · next hgone =>
          refine ih ?_
          have := ExtTreeSet.size_erase_of_mem hgone
          dsimp only
          omega
        · next hgone =>
          refine .inr ⟨fun hp => ?_, hgone⟩
          rw [ExtTreeMap.mem_iff_isSome_getElem?, hnone] at hp
          exact nomatch hp

end Subscriber
end MegaFeed
