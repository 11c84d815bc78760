import MegaFeed.Verify.Acts

/-! # Giving up from the front

The first loop of `nak` stops at the first hole within its deadline. It misses none behind it
(`expire_eq_expireAll`), since a hole is only ever opened above all others, at a later reading of
the clock: `Aging` is kept by every act. -/

namespace MegaFeed
namespace Subscriber
open Std (ExtTreeMap)

variable {settings : Settings} {start clock now giveup : UInt64} {first bucket : Bucket}
  {history : List BucketEvent} {L sequence backfill : Nat} {msg : OrderMessage}

/-- Give up every hole past the deadline, wherever it is. -/
def Bucket.expireAll (bucket : Bucket) (now giveupNs : UInt64) : Bucket × List BucketEvent :=
  let expired :=
    (bucket.holes.toList.filter fun (_, hole) => now - hole.noticed > giveupNs).map (·.1)
  ({ bucket with
      gone := expired.foldl (fun gone sequence => gone.insert sequence) bucket.gone
      holes := expired.foldl (fun holes sequence => holes.erase sequence) bucket.holes },
   expired.map (.expired · now))

/-- Whatever the bucket receives, its holes lie before a frontier below which nothing is open any
more, and a higher one was not noticed earlier. -/
structure Aging (clock : UInt64) (bucket : Bucket) : Prop where
  unsynced : bucket.synced = false → ∀ s, s ∉ bucket.holes
  frontier : ∃ L ≤ 2 ^ 64, Frontier L bucket
  dated : HolesSatisfy (fun _ hole => hole.noticed ≤ clock) bucket
  sorted : ∀ (s s' : Nat) (hole hole' : Hole), s < s' → bucket.holes[s]? = some hole →
    bucket.holes[s']? = some hole' → hole.noticed ≤ hole'.noticed

/-- Without holes the frontier can be anywhere. -/
theorem Frontier.of_no_holes (h : ∀ s, s ∉ bucket.holes) : Frontier bucket.nextSequence bucket where
  next_le := le_rfl
  holes s hs := (h s hs).elim
  covered _ hfrom hto := absurd hfrom (Nat.not_le.mpr hto)

theorem Aging.wait {clock' : UInt64} (A : Aging clock bucket) (hle : clock ≤ clock') :
    Aging clock' bucket :=
  { A with dated := A.dated.mono fun _ _ h => UInt64.le_trans h hle }

/-- Closing holes. -/
theorem Aging.of_sub {bucket' : Bucket} (A : Aging clock bucket)
    (hholes : ∀ (s : Nat) (hole : Hole), bucket'.holes[s]? = some hole →
      bucket.holes[s]? = some hole)
    (hsynced : bucket'.synced = bucket.synced) (hfrontier : ∃ L ≤ 2 ^ 64, Frontier L bucket') :
    Aging clock bucket' where
  unsynced h s hs := by
    obtain ⟨hole, hget⟩ := ExtTreeMap.exists_of_mem hs
    exact A.unsynced (hsynced.symm.trans h) s (ExtTreeMap.mem_of_getElem? (hholes s hole hget))
  frontier := hfrontier
  dated := A.dated.of_sub hholes
  sorted s s' hole hole' hlt hs hs' :=
    A.sorted s s' hole hole' hlt (hholes s hole hs) (hholes s' hole' hs')

/-! ## Acts -/

theorem Aging.park (A : Aging clock bucket) (hnow : clock ≤ now) (hlt : sequence < 2 ^ 64)
    (hsynced : bucket.synced = true) :
    Aging now (bucket.park sequence msg now) where
  unsynced h := by cases hsynced.symm.trans h
  frontier := by
    obtain ⟨L, hL, F⟩ := A.frontier
    exact ⟨max L (sequence + 1), by omega, F.park⟩
  dated := (A.wait hnow).dated.park fun _ => UInt64.le_refl _
  sorted := by
    obtain ⟨L, -, F⟩ := A.frontier
    intro s s' hole hole' hbefore hs hs'
    have hin : ∀ (s : Nat) (hole : Hole), (bucket.park sequence msg now).holes[s]? = some hole →
        s ∈ bucket.missing sequence ∧ hole.noticed = now ∨ bucket.holes[s]? = some hole := by
      intro s hole hget
      rw [Bucket.getElem?_park_holes] at hget
      split at hget
      · cases hget
      · split at hget
        · next hmissing =>
          cases hget
          exact .inl ⟨hmissing, rfl⟩
        · exact .inr hget
    rcases hin s' hole' hs' with ⟨-, hnew'⟩ | hold'
    · rw [hnew']
      rcases hin s hole hs with ⟨-, hnew⟩ | hold
      · rw [hnew]
        exact UInt64.le_refl _
      · exact UInt64.le_trans (A.dated s hole hold) hnow
    · rcases hin s hole hs with ⟨hmissing, -⟩ | hold
      · -- a new hole is above every old one
        have hlow := F.le_missing hmissing
        have hhigh := (F.holes s' (ExtTreeMap.mem_of_getElem? hold')).2.1
        omega
      · exact A.sorted s s' hole hole' hbefore hold hold'

theorem Bucket.startAt_lt (backfill : Nat) (h : sequence < 2 ^ 64) :
    startAt backfill sequence < 2 ^ 64 := by
  unfold startAt
  split
  · split <;> omega
  · exact h

theorem Aging.accept (A : Aging clock bucket) (hnow : clock ≤ now) (hlt : sequence < 2 ^ 64) :
    Aging now (bucket.acceptOrderMessage backfill sequence msg now).1 := by
  have hsynced : ∀ bucket : Bucket, bucket.synced = true → Aging clock bucket →
      Aging now (bucket.acceptOrderMessage backfill sequence msg now).1 := by
    intro bucket hsynced A
    rw [Bucket.accept_eq hsynced]
    split
    · exact (A.wait hnow).of_sub (fun _ _ h => h) rfl
        (A.frontier.imp fun L hL => ⟨hL.1, hL.2.next_le, hL.2.holes, hL.2.covered⟩)
    · exact A.park hnow hlt hsynced
  cases hs : bucket.synced with
  | true => exact hsynced bucket hs A
  | false =>
    rw [Bucket.accept_unsynced hs]
    refine hsynced _ rfl ⟨nofun, ⟨_, (Bucket.startAt_lt backfill hlt).le, ?_⟩, A.dated, A.sorted⟩
    exact @Frontier.of_no_holes
      { bucket with nextSequence := Bucket.startAt backfill sequence, synced := true }
        (A.unsynced hs)

theorem Aging.onFrame (A : Aging clock bucket) (payload : Option OrderMessage) :
    Aging clock (bucket.onFrame sequence payload).1 := by
  have B := bucket.onFrame_answered sequence payload
  obtain ⟨L, hL, F⟩ := A.frontier
  refine A.of_sub (fun s hole hs => ?_) B.synced ⟨L, hL, F.answered B⟩
  rw [B.holes, ExtTreeMap.getElem?_erase'] at hs
  split at hs
  · exact nomatch hs
  · exact hs

theorem Aging.expire (A : Aging clock bucket) : Aging clock (bucket.expire now giveup).1 := by
  obtain ⟨L, hL, F⟩ := A.frontier
  refine A.of_sub (fun s hole hs => ?_) rfl ⟨L, hL, F.expire⟩
  rw [Bucket.expire_eq, ExtTreeMap.getElem?_eraseAll] at hs
  split at hs
  · exact nomatch hs
  · exact hs

theorem Aging.stamp {sequences : List Nat} (A : Aging clock bucket) :
    Aging clock (bucket.stamp sequences now) where
  unsynced h s hs := A.unsynced h s (Bucket.mem_stamp_holes.mp hs)
  frontier := by
    obtain ⟨L, hL, F⟩ := A.frontier
    refine ⟨L, hL, F.next_le, fun s hs => F.holes s (Bucket.mem_stamp_holes.mp hs),
      fun s hfrom hto => ?_⟩
    rw [Bucket.mem_stamp_holes]
    exact F.covered s hfrom hto
  dated := A.dated.stamp fun _ _ _ h => h
  sorted s s' hole hole' hlt hs hs' := by
    have hold : ∀ (s : Nat) (hole : Hole), (bucket.stamp sequences now).holes[s]? = some hole →
        ∃ old, bucket.holes[s]? = some old ∧ old.noticed = hole.noticed := by
      intro s hole hget
      rw [Bucket.getElem?_stamp_holes] at hget
      split at hget
      · obtain ⟨old, hold, rfl⟩ := Option.map_eq_some_iff.mp hget
        exact ⟨old, hold, rfl⟩
      · exact ⟨hole, hget, rfl⟩
    obtain ⟨old, hget, heq⟩ := hold s hole hs
    obtain ⟨old', hget', heq'⟩ := hold s' hole' hs'
    rw [← heq, ← heq']
    exact A.sorted s s' old old' hlt hget hget'

/-- A round of `deliver`; where `nextSequence` wraps there is no hole. -/
theorem Aging.pass {bucket' : Bucket} {outcome : Outcome} {events : List BucketEvent}
    (A : Aging clock bucket) (P : bucket.Passes bucket' outcome events) : Aging clock bucket' := by
  have hholes : ∀ (s : Nat) (hole : Hole), bucket'.holes[s]? = some hole →
      bucket.holes[s]? = some hole :=
    fun s hole hs => by rwa [P.holes] at hs
  refine A.of_sub hholes P.synced ?_
  obtain ⟨L, hL, F⟩ := A.frontier
  have hnext := P.next
  by_cases hinside : bucket.nextSequence < L ∧ bucket.nextSequence + 1 < 2 ^ 64
  · rw [Nat.mod_eq_of_lt hinside.2] at hnext
    exact ⟨L, hL, F.pass P hnext hinside.1⟩
  · refine ⟨bucket'.nextSequence, ?_, Frontier.of_no_holes fun s hs => ?_⟩
    · rw [hnext]
      exact (Nat.mod_lt _ (by decide)).le
    · rw [P.holes] at hs
      obtain ⟨hfrom, hto, hnp, hng⟩ := F.holes s hs
      obtain rfl : s = bucket.nextSequence := by omega
      exact P.ready.elim hnp hng

theorem Aging.rounds {bucket' : Bucket} {events : List BucketEvent} (A : Aging clock bucket)
    (h : bucket.Rounds events bucket') : Aging clock bucket' := by
  induction h with
  | nil => exact A
  | cons hround _ ih => exact ih (A.pass hround.passes.choose_spec)

/-! ## Runs -/

theorem aging_new (clock firstExpected : UInt64) (id : Nat) :
    Aging clock (newBucket firstExpected id) := by
  have hnone : ∀ s : Nat, s ∉ (newBucket firstExpected id).holes := by
    intro s
    unfold newBucket
    split <;> simp
  have hget : ∀ (s : Nat) (hole : Hole), (newBucket firstExpected id).holes[s]? ≠ some hole :=
    fun s hole hs => hnone s (ExtTreeMap.mem_of_getElem? hs)
  refine ⟨fun _ => hnone, ⟨_, ?_, Frontier.of_no_holes hnone⟩,
    fun s hole hs => (hget s hole hs).elim, fun s _ hole _ _ hs => (hget s hole hs).elim⟩
  unfold newBucket
  split
  · exact firstExpected.toNat_lt.le
  · exact Nat.one_lt_two_pow (by decide) |>.le

theorem Life.aging (L : Life settings (Timed Bounded) start first clock history bucket)
    (h : Aging start first) : Aging clock bucket := by
  induction L with
  | new => exact h
  | act act L hallowed ih =>
    obtain ⟨hnow, hbounded⟩ := hallowed
    cases act with
    | accept sequence msg now => exact ih.accept (hnow now rfl) hbounded
    | frame sequence payload => exact ih.onFrame payload
    | expire now => exact (ih.wait (hnow now rfl)).expire
    | request now =>
      rw [Bucket.act]
      split
      · exact ih.wait (hnow now rfl)
      · exact (ih.wait (hnow now rfl)).stamp
    | deliver => exact ih.rounds (Bucket.deliverLoop_rounds _ _)
  | wait _ hle ih => exact ih.wait hle

/-- A hole noticed earlier is older. -/
theorem age_le {noticed noticed' : UInt64} (h : noticed ≤ noticed') (h' : noticed' ≤ now) :
    now - noticed' ≤ now - noticed := by
  have hnow : noticed ≤ now := UInt64.le_trans h h'
  rw [UInt64.le_iff_toNat_le] at *
  rw [UInt64.toNat_sub_of_le _ _ (UInt64.le_iff_toNat_le.mpr h'),
    UInt64.toNat_sub_of_le _ _ (UInt64.le_iff_toNat_le.mpr hnow)]
  omega

theorem Aging.expire_eq (A : Aging now bucket) :
    bucket.expire now giveup = bucket.expireAll now giveup := by
  have hscan : bucket.holes.toList.takeWhile (fun (_, hole) => now - hole.noticed > giveup) =
      bucket.holes.toList.filter fun (_, hole) => now - hole.noticed > giveup := by
    refine ExtTreeMap.takeWhile_toList_eq_filter fun s hole s' hole' hlt hs hs' hage => ?_
    have hsorted := A.sorted s s' hole hole' (Nat.compare_eq_lt.mp hlt) hs hs'
    have hage : giveup < now - hole'.noticed := of_decide_eq_true hage
    exact decide_eq_true (UInt64.lt_of_lt_of_le hage (age_le hsorted (A.dated s' hole' hs')))
  rw [Bucket.expire, hscan, Bucket.expireAll]

/-- **The early exit loses nothing.** At any reading of the clock that is not before the last one,
the loop that stops at the first hole within its deadline does what a scan of all holes would do,
and no age wraps. -/
theorem expire_eq_expireAll (bucketIds : List Nat) (firstExpected backfill : UInt64)
    (calls : List Call)
    (hclock : (calls.flatMap Call.readings).Pairwise (· ≤ ·)) :
    ∀ bucket ∈ ((init bucketIds firstExpected backfill).run calls).1.buckets,
      (∀ (s s' : Nat) (hole hole' : Hole), s < s' → bucket.holes[s]? = some hole →
        bucket.holes[s']? = some hole' → hole.noticed ≤ hole'.noticed) ∧
      ∀ now giveupNs : UInt64, (∀ t ∈ calls.flatMap Call.readings, t ≤ now) →
        (∀ (s : Nat) (hole : Hole), bucket.holes[s]? = some hole → hole.noticed ≤ now) ∧
        bucket.expire now giveupNs = bucket.expireAll now giveupNs := by
  intro bucket hmem
  have hfrom : (0 :: calls.flatMap Call.readings).Pairwise (· ≤ ·) :=
    List.pairwise_cons.mpr ⟨fun t _ => UInt64.zero_le, hclock⟩
  obtain ⟨id, history, L⟩ := @run_life (init bucketIds firstExpected backfill).settings 0 0
    (init bucketIds firstExpected backfill) calls firstExpected (fun bucket hmem => by
      obtain ⟨id, -, rfl⟩ := List.mem_map.mp hmem
      exact ⟨id, [], .new⟩) rfl hfrom bucket hmem
  have A := L.aging (aging_new 0 firstExpected id)
  refine ⟨A.sorted, fun now giveupNs hnow => ?_⟩
  have A' : Aging now bucket := by
    refine A.wait ?_
    rcases List.mem_cons.mp (@last_mem 0 (calls.flatMap Call.readings)) with h | h
    · rw [h]
      exact UInt64.zero_le
    · exact hnow _ h
  exact ⟨A'.dated, A'.expire_eq⟩

/-- The second datagram of bucket 0 arrives, a second later the fourth. -/
def twoGaps : List Call :=
  [.drainUdp 0 [⟨(FeedPublisher.packet 0 2 (FeedPublisher.encodePayload {})).bytes, 1000000000⟩],
    .drainUdp 0 [⟨(FeedPublisher.packet 0 4 (FeedPublisher.encodePayload {})).bytes, 2000000000⟩]]

/-- Two and a half seconds after the first of two holes was noticed, only that one is given up. -/
theorem expire_eq_expireAll_twoGaps : ∃ bucket ∈ ((init [0] 1 0).run twoGaps).1.buckets,
    1 ∈ bucket.holes ∧ 3 ∈ bucket.holes ∧
    (bucket.expire 3500000000 2000000000).2 = [.expired 1 3500000000] ∧
    bucket.expire 3500000000 2000000000 = bucket.expireAll 3500000000 2000000000 := by
  have hget : ((init [0] 1 0).run twoGaps).1.buckets[0]? =
    some (((init [0] 1 0).run twoGaps).1.buckets[0]?.getD { id := 0 }) := rfl
  have hreadings : twoGaps.flatMap Call.readings = [1000000000, 2000000000] := rfl
  have hmem := List.mem_of_getElem? hget
  have hscan := (expire_eq_expireAll [0] 1 0 twoGaps (by rw [hreadings]; decide) _ hmem).2
    3500000000 2000000000 (by simp [hreadings])
  exact ⟨_, hmem, by decide, by decide, by decide, hscan.2⟩

end Subscriber
end MegaFeed
