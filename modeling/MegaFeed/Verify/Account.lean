import MegaFeed.Verify.Bucket

/-! # What a bucket hands over and counts

`Booked` relates the history of a bucket to its counters and its `done` flag. Together with
`Running`, or `Idle` before the bucket has started, it is the invariant `Kept` of a subscriber
bucket, which every function keeps. -/

namespace MegaFeed
namespace Subscriber
open FeedPublisher (Assigned)

variable {history events : List BucketEvent} {bucket bucket' : Bucket} {assigned : List Assigned}
  {S sequence firstExpected backfill : Nat} {msg : OrderMessage} {now giveup : UInt64}

/-! ## Outcomes -/

/-- The message of a delivery. -/
def Outcome.message : Outcome → Option OrderMessage
  | .delivered msg => some msg
  | _ => none

theorem delivered_eq : delivered history =
    (outcomes history).filterMap fun (s, outcome) => outcome.message.map (s, ·) := by
  rw [delivered, outcomes, List.filterMap_filterMap]
  refine List.filterMap_congr fun event _ => ?_
  cases event <;> rfl

theorem mem_delivered : (sequence, msg) ∈ delivered history ↔
    (sequence, .delivered msg) ∈ outcomes history := by
  simp only [delivered_eq, List.mem_filterMap, Prod.exists, Option.map_eq_some_iff, Prod.mk.injEq]
  constructor
  · rintro ⟨s, outcome, hmem, msg', hmsg, rfl, rfl⟩
    cases outcome <;> cases hmsg
    exact hmem
  · exact fun h => ⟨sequence, _, h, msg, rfl, rfl, rfl⟩

/-- How many of the numbers passed came to `outcome`. -/
def tally (outcome : Outcome) (history : List BucketEvent) : Nat :=
  ((outcomes history).map (·.2)).count outcome

theorem tally_append {outcome : Outcome} :
    tally outcome (history ++ events) = tally outcome history + tally outcome events := by
  rw [tally, outcomes_append, List.map_append, List.count_append, tally, tally]

/-- Every number passed was delivered, unrecoverable or the end. -/
theorem length_outcomes : (outcomes history).length =
    (delivered history).length + tally .unrecoverable history + tally .ended history := by
  rw [delivered_eq, tally, tally]
  induction outcomes history with
  | nil => rfl
  | cons first rest ih =>
    obtain ⟨s, outcome⟩ := first
    cases outcome <;> simp [Outcome.message, ih] <;> omega

/-! ## Counters and the end -/

/-- The counters count, what was delivered was published, and the end is the last number passed. -/
structure Booked (assigned : List Assigned) (history : List BucketEvent)
    (bucket : Bucket) : Prop where
  delivered : bucket.stats.delivered = (delivered history).length
  unrecoverable : bucket.stats.unrecoverable = tally .unrecoverable history
  published : ∀ s msg, (s, .delivered msg) ∈ outcomes history →
    ⟨bucket.id, s, msg⟩ ∈ assigned ∧ msg.type ≠ ascii 'E'
  opened : bucket.done = false → ∀ s, (s, .ended) ∉ outcomes history
  closed : bucket.done = true → ∃ before s msg, outcomes history = before ++ [(s, .ended)] ∧
    (∀ s', (s', .ended) ∉ before) ∧ ⟨bucket.id, s, msg⟩ ∈ assigned ∧ msg.type = ascii 'E'

theorem Booked.mono (B : Booked assigned history bucket) (new : List Assigned) :
    Booked (assigned ++ new) history bucket :=
  { B with
    published := fun s msg h => (B.published s msg h).imp_left (List.mem_append_left _)
    closed := fun h => by
      obtain ⟨before, s, msg, hlast, hbefore, hmem, htype⟩ := B.closed h
      exact ⟨before, s, msg, hlast, hbefore, List.mem_append_left _ hmem, htype⟩ }

/-- Events that pass no number, and a bucket with the same counters. -/
theorem Booked.append (B : Booked assigned history bucket) (h : outcomes events = [])
    (hid : bucket'.id = bucket.id) (hdone : bucket'.done = bucket.done)
    (hdelivered : bucket'.stats.delivered = bucket.stats.delivered)
    (hunrecoverable : bucket'.stats.unrecoverable = bucket.stats.unrecoverable) :
    Booked assigned (history ++ events) bucket' := by
  have hsame : outcomes (history ++ events) = outcomes history := by
    rw [outcomes_append, h, List.append_nil]
  refine ⟨?_, ?_, ?_, ?_, ?_⟩
  · rw [hdelivered, B.delivered, delivered_eq, delivered_eq, hsame]
  · rw [hunrecoverable, B.unrecoverable, tally, tally, hsame]
  · rw [hsame, hid]
    exact B.published
  · rw [hsame, hdone]
    exact B.opened
  · rw [hsame, hid, hdone]
    exact B.closed

theorem Booked.round {event : BucketEvent} (B : Booked assigned history bucket)
    (H : Running S assigned history bucket) (h : bucket.Round event bucket') :
    Booked assigned (history ++ [event]) bucket' := by
  cases h with
  | @delivered msg hopen hmsg htype =>
    have hlast : outcomes [.delivered bucket.nextSequence msg] =
      [(bucket.nextSequence, .delivered msg)] := rfl
    refine ⟨?_, ?_, ?_, fun _ => ?_, fun hdone => ?_⟩
    · rw [delivered_append, List.length_append, ← B.delivered]
      rfl
    · rw [tally_append, ← B.unrecoverable]
      rfl
    · intro s msg' hs
      rw [outcomes_append, hlast, List.mem_append, List.mem_singleton] at hs
      rcases hs with hs | hs
      · exact B.published s msg' hs
      · cases hs
        exact ⟨(H.parked _ _ hmsg).1, htype⟩
    · intro s hs
      rw [outcomes_append, hlast, List.mem_append, List.mem_singleton] at hs
      exact hs.elim (B.opened hopen s) nofun
    · exact nomatch hopen.symm.trans hdone
  | @ended msg hopen hmsg htype =>
    have hlast : outcomes [.ended bucket.nextSequence] = [(bucket.nextSequence, .ended)] := rfl
    refine ⟨?_, ?_, ?_, nofun, fun _ => ?_⟩
    · rw [delivered_append, List.length_append, ← B.delivered]
      rfl
    · rw [tally_append, ← B.unrecoverable]
      rfl
    · intro s msg' hs
      rw [outcomes_append, hlast, List.mem_append, List.mem_singleton] at hs
      exact hs.elim (B.published s msg') nofun
    · rw [outcomes_append, hlast]
      exact ⟨_, _, msg, rfl, B.opened hopen, (H.parked _ _ hmsg).1, htype⟩
  | unrecoverable hopen hgone =>
    have hlast : outcomes [.unrecoverable bucket.nextSequence] =
      [(bucket.nextSequence, .unrecoverable)] := rfl
    refine ⟨?_, ?_, ?_, fun _ => ?_, fun hdone => ?_⟩
    · rw [delivered_append, List.length_append, ← B.delivered]
      rfl
    · rw [tally_append, ← B.unrecoverable]
      rfl
    · intro s msg' hs
      rw [outcomes_append, hlast, List.mem_append, List.mem_singleton] at hs
      exact hs.elim (B.published s msg') nofun
    · intro s hs
      rw [outcomes_append, hlast, List.mem_append, List.mem_singleton] at hs
      exact hs.elim (B.opened hopen s) nofun
    · exact nomatch hopen.symm.trans hdone

theorem Booked.rounds (B : Booked assigned history bucket) (H : Running S assigned history bucket)
    (h : bucket.Rounds events bucket') : Booked assigned (history ++ events) bucket' := by
  induction h generalizing history with
  | nil => rwa [List.append_nil]
  | cons hround _ ih =>
    obtain ⟨outcome, hpasses⟩ := hround.passes
    have := ih (B.round H hround) (H.pass hpasses).1
    rwa [List.append_assoc] at this

/-! ## Before the start -/

/-- A bucket that joined live and has received nothing yet. -/
structure Idle (firstExpected : Nat) (history : List BucketEvent) (bucket : Bucket) : Prop where
  live : firstExpected = 0
  quiet : Quiet history
  synced : bucket.synced = false
  parked : bucket.parked = ∅
  gone : bucket.gone = ∅
  holes : bucket.holes = ∅

theorem start_append (h : start firstExpected backfill history = some S) :
    start firstExpected backfill (history ++ events) = some S := by
  unfold start at h ⊢
  split at h
  · next hpos => rwa [if_pos hpos]
  · next hpos =>
    obtain ⟨q, hq, rfl⟩ := Option.map_eq_some_iff.mp h
    rw [if_neg hpos, arrived_append, List.head?_append, hq]
    rfl

theorem Bucket.startAt_pos (backfill : Nat) (h : 1 ≤ sequence) : 1 ≤ startAt backfill sequence := by
  unfold startAt
  split
  · split <;> omega
  · exact h

theorem Bucket.startAt_le (backfill : Nat) (h : 1 ≤ sequence) :
    startAt backfill sequence ≤ sequence := by
  unfold startAt
  split
  · split <;> omega
  · exact le_rfl

/-- The start point of a bucket is all that its first datagram settles. -/
theorem Bucket.accept_unsynced (h : bucket.synced = false) :
    bucket.acceptOrderMessage backfill sequence msg now =
      { bucket with nextSequence := startAt backfill sequence, synced := true }.acceptOrderMessage
        backfill sequence msg now := by
  simp only [acceptOrderMessage, h, if_true, Bool.false_eq_true, if_false]

/-- The first datagram starts a bucket. -/
theorem Idle.accept (H : Idle firstExpected history bucket) (hpos : 1 ≤ sequence)
    (hlt : sequence + 1 < 2 ^ 64) (h : ⟨bucket.id, sequence, msg⟩ ∈ assigned) :
    start firstExpected backfill
      (history ++ (bucket.acceptOrderMessage backfill sequence msg now).2) =
      some (Bucket.startAt backfill sequence) ∧
    Running (Bucket.startAt backfill sequence) assigned
      (history ++ (bucket.acceptOrderMessage backfill sequence msg now).2)
      (bucket.acceptOrderMessage backfill sequence msg now).1 := by
  have hstart_pos := Bucket.startAt_pos backfill hpos
  have hstart_le := Bucket.startAt_le backfill hpos
  have hhighest : highest (Bucket.startAt backfill sequence) history =
      Bucket.startAt backfill sequence - 1 := by rw [highest, H.quiet.1, List.foldl_nil]
  have hstarted : Running (Bucket.startAt backfill sequence) assigned history
      { bucket with nextSequence := Bucket.startAt backfill sequence, synced := true } := by
    refine ⟨rfl, hstart_pos, le_rfl, ?_, ?_, ?_, ?_, ?_, ?_, ?_, ?_⟩
    · rw [H.quiet.2.1, Nat.sub_self]
      rfl
    · dsimp only
      omega
    · omega
    · intro s msg hs
      simp [H.parked] at hs
    · intro s hs
      simp [H.gone] at hs
    · intro s hs
      simp [H.holes] at hs
    · intro s hfrom hto
      dsimp only at hfrom
      omega
    · exact fun s hs => (H.quiet.2.2 s hs).elim
  rw [Bucket.accept_unsynced H.synced]
  refine ⟨?_, hstarted.accept h hlt⟩
  rw [Bucket.accept_eq rfl, start, if_neg (by simp [H.live]), arrived_append, H.quiet.1]
  split <;> rfl

/-! ## The invariant of a bucket -/

/-- What is true of a subscriber's bucket at any time. -/
structure Kept (firstExpected backfill : Nat) (assigned : List Assigned)
    (history : List BucketEvent)
    (bucket : Bucket) : Prop where
  booked : Booked assigned history bucket
  state : Idle firstExpected history bucket ∨
    ∃ S, start firstExpected backfill history = some S ∧ Running S assigned history bucket

/-- A bucket of the constructor. -/
theorem Kept.new (id : Nat) (firstExpected : UInt64) :
    Kept firstExpected.toNat backfill assigned []
      (if firstExpected > 0 then { id, nextSequence := firstExpected.toNat, synced := true }
        else { id }) := by
  have hlt := firstExpected.toNat_lt
  split
  · next hpos =>
    have hpos : 0 < firstExpected.toNat := UInt64.lt_iff_toNat_lt.mp hpos
    refine ⟨⟨rfl, rfl, nofun, fun _ _ => nofun, nofun⟩, .inr ⟨firstExpected.toNat, if_pos hpos, ?_⟩⟩
    have hhighest : highest firstExpected.toNat [] = firstExpected.toNat - 1 := rfl
    refine ⟨rfl, hpos, le_rfl, ?_, ?_, ?_, ?_, ?_, ?_, ?_, ?_⟩
    · rw [Nat.sub_self]
      rfl
    · dsimp only
      omega
    · omega
    · intro s msg hs
      simp at hs
    · intro s hs
      simp at hs
    · intro s hs
      simp at hs
    · intro s hfrom hto
      dsimp only at hfrom
      omega
    · rintro s ⟨_, _, hmem, -⟩
      exact nomatch hmem
  · next hzero =>
    have hzero : firstExpected.toNat = 0 :=
      Nat.eq_zero_of_not_pos fun h => hzero (UInt64.lt_iff_toNat_lt.mpr h)
    refine ⟨⟨rfl, rfl, nofun, fun _ _ => nofun, nofun⟩, .inl ⟨hzero, ?_, rfl, rfl, rfl, rfl⟩⟩
    exact quiet_of_forall nofun

/-- A step that keeps a started bucket running. -/
theorem Kept.running (K : Kept firstExpected backfill assigned history bucket)
    (hidle : ¬Idle firstExpected history bucket) :
    ∃ S, start firstExpected backfill history = some S ∧ Running S assigned history bucket :=
  K.state.resolve_left hidle

theorem Kept.mono (K : Kept firstExpected backfill assigned history bucket) (new : List Assigned) :
    Kept firstExpected backfill (assigned ++ new) history bucket where
  booked := K.booked.mono new
  state := K.state.imp_right fun ⟨S, hstart, H⟩ => ⟨S, hstart, H.mono new⟩

theorem Kept.accept (K : Kept firstExpected backfill assigned history bucket) (hpos : 1 ≤ sequence)
    (hlt : sequence + 1 < 2 ^ 64) (h : ⟨bucket.id, sequence, msg⟩ ∈ assigned) :
    Kept firstExpected backfill assigned
      (history ++ (bucket.acceptOrderMessage backfill sequence msg now).2)
      (bucket.acceptOrderMessage backfill sequence msg now).1 where
  booked := by
    refine K.booked.append ?_ ?_ ?_ ?_ ?_ <;> unfold Bucket.acceptOrderMessage <;> dsimp only <;>
      split <;> split <;> first | rfl | exact quiet_noticed.2.1
  state := by
    refine .inr ?_
    rcases K.state with H | ⟨S, hstart, H⟩
    · exact ⟨_, H.accept hpos hlt h⟩
    · exact ⟨S, start_append hstart, H.accept h hlt⟩

theorem Kept.onFrame (K : Kept firstExpected backfill assigned history bucket)
    {payload : Option OrderMessage} (hasked : Asked history sequence)
    (hpayload : ∀ msg ∈ payload, ⟨bucket.id, sequence, msg⟩ ∈ assigned) :
    Kept firstExpected backfill assigned (history ++ (bucket.onFrame sequence payload).2)
      (bucket.onFrame sequence payload).1 where
  booked := by
    refine K.booked.append rfl (bucket.onFrame_answered sequence payload).id ?_ ?_ ?_ <;>
      unfold Bucket.onFrame <;> dsimp only <;> split <;> split <;> rfl
  state := by
    obtain ⟨S, hstart, H⟩ := K.running fun H => H.quiet.2.2 sequence hasked
    exact .inr ⟨S, start_append hstart, H.onFrame hasked hpayload⟩

theorem Kept.expire (K : Kept firstExpected backfill assigned history bucket) (now giveup : UInt64)
    (hholes : bucket.holes.isEmpty = false) :
    Kept firstExpected backfill assigned (history ++ (bucket.expire now giveup).2)
      (bucket.expire now giveup).1 where
  booked := K.booked.append quiet_expired.2.1 rfl rfl rfl rfl
  state := by
    obtain ⟨S, hstart, H⟩ := K.running fun H => by simp [H.holes] at hholes
    exact .inr ⟨S, start_append hstart, H.expire⟩

theorem Kept.stamp (K : Kept firstExpected backfill assigned history bucket) {sequences : List Nat}
    (hpos : 1 ≤ sequences.length) (h : ∀ s ∈ sequences, s ∈ bucket.holes) :
    Kept firstExpected backfill assigned (history ++ [.requested sequences now])
      (bucket.stamp sequences now) where
  booked := K.booked.append rfl rfl rfl rfl rfl
  state := by
    obtain ⟨s, hs⟩ := List.exists_mem_of_length_pos hpos
    obtain ⟨S, hstart, H⟩ := K.running fun H => by simpa [H.holes] using h s hs
    exact .inr ⟨S, start_append hstart, H.stamp h⟩

theorem Kept.deliver (K : Kept firstExpected backfill assigned history bucket) :
    Kept firstExpected backfill assigned (history ++ bucket.deliver.2) bucket.deliver.1 := by
  rcases K.state with H | ⟨S, hstart, H⟩
  · have hnothing : bucket.deliver = (bucket, []) := by
      rw [Bucket.deliver, H.parked, H.gone]
      rfl
    rw [hnothing, List.append_nil]
    exact K
  · exact ⟨K.booked.rounds H (Bucket.deliverLoop_rounds _ _),
      .inr ⟨S, start_append hstart, H.deliver⟩⟩

end Subscriber
end MegaFeed
