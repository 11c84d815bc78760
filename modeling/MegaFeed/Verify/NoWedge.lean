import MegaFeed.Verify.Acts

/-! # No bucket wedges

`Timely` follows the calls of `pump`: a bucket that `nak` has visited has no expired hole in front,
and one that `deliver` has visited waits for a hole or for nothing. `no_bucket_wedges` is what holds
after every `pump`. -/

namespace MegaFeed
open FeedPublisher Subscriber
open Std (ExtTreeMap ExtTreeSet)

namespace Subscriber

variable {bucket : Bucket} {now giveup : UInt64}

/-- `expire` stops at the first live hole, so the least hole it leaves is live. -/
theorem Bucket.expire_least {hole : Hole} (hs : (bucket.expire now giveup).1.holes[s]? = some hole)
    (hleast : ∀ s' ∈ (bucket.expire now giveup).1.holes, s ≤ s') : now - hole.noticed ≤ giveup := by
  by_contra hage
  obtain ⟨hkept, -⟩ := mem_expire_holes.mp (ExtTreeMap.mem_of_getElem? hs)
  have hget : bucket.holes[s]? = some hole := by
    rw [expire_eq, ExtTreeMap.getElem?_eraseAll, if_neg hkept] at hs
    exact hs
  refine hkept
    (mem_expired_iff.mpr ⟨hole, hget, UInt64.not_le.mp hage, fun s' hole' hlt hget' => ?_⟩)
  have hexpired : s' ∈ bucket.expired now giveup := by
    by_contra hkept'
    have hleft := mem_expire_holes.mpr ⟨hkept', ExtTreeMap.mem_of_getElem? hget'⟩
    exact Nat.not_lt.mpr (hleast s' hleft) hlt
  obtain ⟨_, hsame, hage', -⟩ := mem_expired_iff.mp hexpired
  rwa [Option.some.inj (hget'.symm.trans hsame)]

/-- The holes are not from the future, and the least one is not to be given up. -/
structure Unexpired (now giveup : UInt64) (bucket : Bucket) : Prop where
  dated : HolesSatisfy (fun _ hole => hole.noticed ≤ now) bucket
  least : ∀ (s : Nat) (hole : Hole), bucket.holes[s]? = some hole →
    (∀ s' ∈ bucket.holes, s ≤ s') → now - hole.noticed ≤ giveup

/-- `deliver` has nothing more to do. -/
def Stopped (bucket : Bucket) : Prop :=
  bucket.done = true ∨ bucket.nextSequence ∉ bucket.parked ∧ bucket.nextSequence ∉ bucket.gone

theorem Unexpired.congr {bucket' : Bucket} (U : Unexpired now giveup bucket)
    (h : ∀ s : Nat, bucket'.holes[s]?.map (·.noticed) = bucket.holes[s]?.map (·.noticed)) :
    Unexpired now giveup bucket' := by
  have hget : ∀ (s : Nat) (hole : Hole), bucket'.holes[s]? = some hole →
      ∃ old, bucket.holes[s]? = some old ∧ old.noticed = hole.noticed := by
    intro s hole hs
    have := h s
    rw [hs, Option.map_some] at this
    exact Option.map_eq_some_iff.mp this.symm
  refine ⟨fun s hole hs => ?_, fun s hole hs hleast => ?_⟩
  · obtain ⟨old, hold, heq⟩ := hget s hole hs
    exact heq ▸ U.dated s old hold
  · obtain ⟨old, hold, heq⟩ := hget s hole hs
    refine heq ▸ U.least s old hold fun s' hs' => hleast s' ?_
    have := congrArg Option.isSome (h s')
    rw [Option.isSome_map, Option.isSome_map] at this
    rw [ExtTreeMap.mem_iff_isSome_getElem?, this, ← ExtTreeMap.mem_iff_isSome_getElem?]
    exact hs'

theorem Unexpired.deliver (U : Unexpired now giveup bucket) :
    Unexpired now giveup bucket.deliver.1 :=
  U.congr fun s => by rw [Bucket.deliver, (Bucket.deliverLoop_rounds _ _).holes_eq]

theorem stopped_deliver (bucket : Bucket) : Stopped bucket.deliver.1 :=
  Bucket.deliverLoop_stops le_rfl

/-- What expiring and asking leave of the holes is live. -/
theorem unexpired_nak {subscriber : Subscriber} {input : NakInput}
    (hdated : HolesSatisfy (fun _ hole => hole.noticed ≤ input.now) bucket) :
    Unexpired input.now subscriber.giveupNs (subscriber.nak bucket input).2.1 := by
  rcases nak_cases subscriber bucket input with ⟨hempty, heq⟩ | ⟨-, _, bucket', _, hasks, heq⟩
  · rw [heq]
    refine ⟨hdated, fun s hole hs => ?_⟩
    rw [ExtTreeMap.isEmpty_iff.mp hempty] at hs
    simp at hs
  · rw [heq]
    have U : Unexpired input.now subscriber.giveupNs
        (bucket.expire input.now subscriber.giveupNs).1 :=
      ⟨hdated.expire, fun s hole hs hleast => Bucket.expire_least hs hleast⟩
    exact U.congr hasks.holes

theorem nak_giveupNs {subscriber : Subscriber} {input : NakInput} :
    (subscriber.nak bucket input).1.giveupNs = subscriber.giveupNs ∧
      (subscriber.nak bucket input).1.buckets = subscriber.buckets := by
  rcases nak_cases subscriber bucket input with ⟨-, heq⟩ | ⟨-, _, _, _, hasks, heq⟩
  · rw [heq]
    exact ⟨rfl, rfl⟩
  · rw [heq]
    exact ⟨hasks.subscriber_eq.2.2, hasks.subscriber_eq.1⟩

end Subscriber

namespace World

variable {bucketCount ringSize : Nat} {world : World bucketCount ringSize}

/-- The buckets before `i` have been visited by `nak` and `deliver` in this `pump`. -/
def Visited (world : World bucketCount ringSize) (i : Nat) : Prop :=
  ∀ (j : Nat) (bucket : Subscriber.Bucket), j < i → world.subscriber.buckets[j]? = some bucket →
    Stopped bucket ∧ Unexpired (world.nakNow j) world.subscriber.giveupNs bucket

structure Timely (world : World bucketCount ringSize) : Prop where
  dated : ∀ bucket ∈ world.subscriber.buckets,
    HolesSatisfy (fun _ hole => hole.noticed ≤ world.clock) bucket
  visited : match world.phase with
    | .drainUdp _ => True
    | .nak i => world.Visited i
    | .deliver i => world.Visited i ∧ ∀ bucket, world.subscriber.buckets[i]? = some bucket →
        Unexpired (world.nakNow i) world.subscriber.giveupNs bucket

theorem Timely.drainUdp (T : Timely world) {i : Nat} {bucket : Subscriber.Bucket}
    {arrivals : List Arrival} (hbucket : world.subscriber.buckets[i]? = some bucket)
    (hclock : (world.clock :: arrivals.map (·.now)).Pairwise (· ≤ ·)) :
    Timely { world.afterCall (.drainUdp i arrivals) with
      phase := .drainUdp (i + 1)
      clock := (arrivals.map (·.now)).getLast?.getD world.clock } where
  visited := trivial
  dated := by
    have hlast := le_last hclock
    have hold : ∀ bucket ∈ world.subscriber.buckets, HolesSatisfy
        (fun _ hole => hole.noticed ≤ (arrivals.map (·.now)).getLast?.getD world.clock) bucket :=
      fun bucket hmem => (T.dated bucket hmem).mono fun _ _ h =>
        UInt64.le_trans h (hlast _ (.head _))
    intro bucket' hmem
    simp only [afterCall, Subscriber.call, atBucket, hbucket] at hmem
    rcases List.mem_or_eq_of_mem_set hmem with hmem | rfl
    · exact hold bucket' hmem
    · refine (hold bucket (List.mem_of_getElem? hbucket)).drainUdp fun arrival harrival _ => ?_
      exact hlast arrival.now (.tail _ (List.mem_map.mpr ⟨arrival, harrival, rfl⟩))

theorem Timely.drainTcp (T : Timely world) {recvs : List Recv} {taken : Nat} :
    Timely { (world.consume taken).afterCall (.drainTcp recvs) with phase := .nak 0 } where
  visited := fun _ _ hlt => absurd hlt (Nat.not_lt_zero _)
  dated := by
    exact drainTcp_forall (fun _ _ _ H => HolesSatisfy.onFrame H) world.subscriber recvs T.dated

theorem Timely.nak (T : Timely world) {i : Nat} {input : NakInput} (hphase : world.phase = .nak i)
    (hclock : world.clock ≤ input.now) :
    Timely { world.afterCall (.nak i input) with
      phase := .deliver i
      clock := input.now
      nakNow := Function.update world.nakNow i input.now } := by
  have hvisited := T.visited
  rw [hphase] at hvisited
  have hold : ∀ bucket ∈ world.subscriber.buckets,
      HolesSatisfy (fun _ hole => hole.noticed ≤ input.now) bucket :=
    fun bucket hmem => (T.dated bucket hmem).mono fun _ _ h => UInt64.le_trans h hclock
  cases hbucket : world.subscriber.buckets[i]? with
  | none =>
    simp only [afterCall, Subscriber.call, hbucket]
    refine ⟨hold, fun j bucket hlt hj => ?_, fun bucket hi => ?_⟩
    · dsimp only
      rw [Function.update_of_ne (Nat.ne_of_lt hlt)]
      exact hvisited j bucket hlt hj
    · cases hbucket.symm.trans hi
  | some bucket =>
    have U :=
      @unexpired_nak bucket world.subscriber input (hold bucket (List.mem_of_getElem? hbucket))
    obtain ⟨hgiveup, hbuckets⟩ := @nak_giveupNs bucket world.subscriber input
    simp only [afterCall, Subscriber.call, hbucket]
    generalize world.subscriber.nak bucket input = result at U hgiveup hbuckets ⊢
    obtain ⟨subscriber', bucket', events⟩ := result
    dsimp only at U hgiveup hbuckets ⊢
    refine ⟨fun bucket'' hmem => ?_, fun j bucket'' hlt hj => ?_, fun bucket'' hi => ?_⟩
    · dsimp only at hmem
      rw [hbuckets] at hmem
      rcases List.mem_or_eq_of_mem_set hmem with hmem | rfl
      · exact hold bucket'' hmem
      · exact U.dated
    · dsimp only at hj ⊢
      rw [hbuckets, List.getElem?_set_ne (Nat.ne_of_gt hlt)] at hj
      rw [Function.update_of_ne (Nat.ne_of_lt hlt), hgiveup]
      exact hvisited j bucket'' hlt hj
    · dsimp only at hi ⊢
      rw [hbuckets, List.getElem?_set_self (List.getElem?_eq_some_iff.mp hbucket).1] at hi
      rw [Function.update_self, hgiveup, ← Option.some.inj hi]
      exact U

theorem Timely.deliver (T : Timely world) {i : Nat} (hphase : world.phase = .deliver i) :
    Timely { world.afterCall (.deliver i) with phase := .nak (i + 1) } := by
  have hvisited := T.visited
  rw [hphase] at hvisited
  cases hbucket : world.subscriber.buckets[i]? with
  | none =>
    simp only [afterCall, Subscriber.call, atBucket, hbucket]
    refine ⟨T.dated, fun j bucket hlt hj => ?_⟩
    rcases Nat.lt_succ_iff_lt_or_eq.mp hlt with hlt | rfl
    · exact hvisited.1 j bucket hlt hj
    · cases hbucket.symm.trans hj
  | some bucket =>
    simp only [afterCall, Subscriber.call, atBucket, hbucket]
    refine ⟨fun bucket' hmem => ?_, fun j bucket' hlt hj => ?_⟩
    · rcases List.mem_or_eq_of_mem_set hmem with hmem | rfl
      · exact T.dated bucket' hmem
      · exact (T.dated bucket (List.mem_of_getElem? hbucket)).deliver
    · dsimp only at hj ⊢
      rcases Nat.lt_succ_iff_lt_or_eq.mp hlt with hlt | rfl
      · rw [List.getElem?_set_ne (Nat.ne_of_gt hlt)] at hj
        exact hvisited.1 j bucket' hlt hj
      · rw [List.getElem?_set_self (List.getElem?_eq_some_iff.mp hbucket).1] at hj
        rw [← Option.some.inj hj]
        exact ⟨stopped_deliver bucket, (hvisited.2 bucket hbucket).deliver⟩

variable [NeZero bucketCount] [NeZero ringSize]

theorem Timely.step (T : Timely world) {world' : World bucketCount ringSize}
    (h : Step world world') : Timely world' := by
  cases h with
  | publisher call _ => exact ⟨T.dated, T.visited⟩
  | serve hlink halive =>
    unfold World.serve
    split <;> exact ⟨T.dated, T.visited⟩
  | cut kept hlink => exact ⟨T.dated, T.visited⟩
  | drainUdp arrivals _ hbucket _ hclock => exact T.drainUdp hbucket hclock
  | drainTcp recvs taken _ _ => exact T.drainTcp
  | nak input hphase _ hclock => exact T.nak hphase hclock
  | deliver hphase => exact T.deliver hphase
  | again => exact ⟨T.dated, trivial⟩

theorem Reachable.timely {session : Session} (h : Reachable session world) : Timely world := by
  induction h with
  | init =>
    refine ⟨fun bucket hmem => ?_, trivial⟩
    obtain ⟨id, -, rfl⟩ := List.mem_map.mp hmem
    intro s hole hs
    split at hs <;> simp at hs
  | step _ hstep ih => exact ih.step hstep

/-- **No bucket wedges.** After every `pump`, a started bucket that is not done has lost sight of no
number up to the highest received, and waits, if at all, for a hole that is within its deadline. -/
theorem no_bucket_wedges {session : Session} (h : Reachable session world)
    (hpump : world.phase = .nak world.subscriber.buckets.length) {i : Nat}
    {bucket : Subscriber.Bucket} (hbucket : world.subscriber.buckets[i]? = some bucket)
    (hsynced : bucket.synced = true) (hopen : bucket.done = false) :
    ∃ S, start session.firstExpected.toNat session.backfill.toNat (history bucket.id world.log) =
      some S ∧
      (∀ s, bucket.nextSequence ≤ s → s ≤ highest S (history bucket.id world.log) →
        s ∈ bucket.parked ∨ s ∈ bucket.holes ∨ s ∈ bucket.gone) ∧
      (bucket.nextSequence > highest S (history bucket.id world.log) ∨
        ∃ hole, bucket.holes[bucket.nextSequence]? = some hole ∧ hole.noticed ≤ world.nakNow i ∧
          world.nakNow i - hole.noticed ≤ world.subscriber.giveupNs) := by
  have K := h.inv.tended.kept bucket (List.mem_of_getElem? hbucket)
  obtain ⟨S, hstart, H⟩ := K.running fun hidle => nomatch hsynced.symm.trans hidle.synced
  have hvisited := h.timely.visited
  rw [hpump] at hvisited
  obtain ⟨hstopped, U⟩ := hvisited i bucket (List.getElem?_eq_some_iff.mp hbucket).1 hbucket
  refine ⟨S, start_rewind ▸ hstart, H.covered, ?_⟩
  rcases Nat.lt_or_ge (highest S (history bucket.id world.log)) bucket.nextSequence with hlt | hle
  · exact .inl hlt
  obtain ⟨hnp, hng⟩ := hstopped.resolve_left (by simp [hopen])
  have hhole := ((H.covered _ le_rfl hle).resolve_left hnp).resolve_right hng
  obtain ⟨hole, hget⟩ := ExtTreeMap.exists_of_mem hhole
  exact .inr ⟨hole, hget, U.dated _ hole hget, U.least _ hole hget fun s hs => (H.holes s hs).1⟩

/-- After the first `pump` the bucket waits for the late message, 10 ms after the hole
was noticed. -/
theorem no_bucket_wedges_late : ∃ bucket, lateAsked.subscriber.buckets[0]? = some bucket ∧
    bucket.nextSequence = 1 ∧ highest 1 (history bucket.id lateAsked.log) = 2 ∧
    ∃ S, start 1 0 (history bucket.id lateAsked.log) = some S ∧
      (∀ s, bucket.nextSequence ≤ s → s ≤ highest S (history bucket.id lateAsked.log) →
        s ∈ bucket.parked ∨ s ∈ bucket.holes ∨ s ∈ bucket.gone) ∧
      (bucket.nextSequence > highest S (history bucket.id lateAsked.log) ∨
        ∃ hole, bucket.holes[bucket.nextSequence]? = some hole ∧ hole.noticed ≤ lateAsked.nakNow 0 ∧
          lateAsked.nakNow 0 - hole.noticed ≤ lateAsked.subscriber.giveupNs) := by
  have hget : lateAsked.subscriber.buckets[0]? =
    some (lateAsked.subscriber.buckets[0]?.getD { id := 0 }) := rfl
  exact ⟨_, hget, by decide, by decide,
    no_bucket_wedges reachable_lateAsked rfl hget (by decide) (by decide)⟩

end World
end MegaFeed
