import MegaFeed.Verify.Nak

/-! # What every function of a bucket leaves alone

No function changes the id of a bucket, and only `nak` gives up and asks (`BucketEvent.Silent`). A
hole is opened by a datagram, not yet asked for, and from then on only asking changes it: a property
of holes that new ones have and asking keeps is never lost (`HolesSatisfy`). -/

namespace MegaFeed
namespace Subscriber
open Std (ExtTreeMap)

variable {P Q : Nat → Hole → Prop} {bucket : Bucket} {backfill : Nat} {now giveup : UInt64}

/-! ## Ids and events -/

/-- Neither a request nor a hole given up. -/
def BucketEvent.Silent : BucketEvent → Prop
  | .requested _ _ => False
  | .expired _ _ => False
  | _ => True

theorem Bucket.id_accept {sequence : Nat} {msg : OrderMessage} :
    (bucket.acceptOrderMessage backfill sequence msg now).1.id = bucket.id := by
  unfold acceptOrderMessage
  dsimp only
  split <;> split <;> rfl

theorem Bucket.silent_accept {sequence : Nat} {msg : OrderMessage} :
    ∀ event ∈ (bucket.acceptOrderMessage backfill sequence msg now).2, event.Silent := by
  unfold acceptOrderMessage
  dsimp only
  generalize (if bucket.synced then bucket else _) = started
  split
  · exact List.forall_mem_cons.mpr ⟨trivial, nofun⟩
  · refine List.forall_mem_cons.mpr ⟨trivial, fun event hmem => ?_⟩
    obtain ⟨s, -, rfl⟩ := List.mem_map.mp hmem
    trivial

theorem id_silent_onDatagram {arrival : Arrival} :
    (onDatagram backfill bucket arrival).1.id = bucket.id ∧
      ∀ event ∈ (onDatagram backfill bucket arrival).2, event.Silent := by
  unfold onDatagram
  split
  · exact ⟨rfl, nofun⟩
  · split
    · exact ⟨rfl, nofun⟩
    · exact ⟨Bucket.id_accept, Bucket.silent_accept⟩

theorem id_silent_drainUdp {arrivals : List Arrival} :
    (drainUdp backfill bucket arrivals).1.id = bucket.id ∧
      ∀ event ∈ (drainUdp backfill bucket arrivals).2, event.Silent := by
  induction arrivals generalizing bucket with
  | nil => exact ⟨rfl, nofun⟩
  | cons arrival arrivals ih =>
    obtain ⟨hid, hsilent⟩ := @id_silent_onDatagram bucket backfill arrival
    refine ⟨ih.1.trans hid, fun event hmem => ?_⟩
    exact (List.mem_append.mp hmem).elim (hsilent event) (ih.2 event)

theorem Bucket.Rounds.id_silent {bucket bucket' : Bucket} {events : List BucketEvent}
    (h : bucket.Rounds events bucket') :
    bucket'.id = bucket.id ∧ ∀ event ∈ events, event.Silent := by
  induction h with
  | nil => exact ⟨rfl, nofun⟩
  | cons hround _ ih =>
    refine ⟨ih.1.trans hround.passes.choose_spec.id, List.forall_mem_cons.mpr ⟨?_, ih.2⟩⟩
    cases hround <;> trivial

/-! ## Holes -/

/-- Every hole satisfies `P`. -/
def HolesSatisfy (P : Nat → Hole → Prop) (bucket : Bucket) : Prop :=
  ∀ (s : Nat) (hole : Hole), bucket.holes[s]? = some hole → P s hole

theorem HolesSatisfy.mono (H : HolesSatisfy P bucket) (h : ∀ s hole, P s hole → Q s hole) :
    HolesSatisfy Q bucket :=
  fun s hole hs => h s hole (H s hole hs)

theorem HolesSatisfy.of_sub {bucket' : Bucket} (H : HolesSatisfy P bucket)
    (h : ∀ (s : Nat) (hole : Hole), bucket'.holes[s]? = some hole → bucket.holes[s]? = some hole) :
    HolesSatisfy P bucket' :=
  fun s hole hs => H s hole (h s hole hs)

theorem HolesSatisfy.park {sequence : Nat} {msg : OrderMessage} (H : HolesSatisfy P bucket)
    (h : ∀ s, P s ⟨now, 0⟩) : HolesSatisfy P (bucket.park sequence msg now) := by
  intro s hole hs
  rw [Bucket.getElem?_park_holes] at hs
  split at hs
  · exact nomatch hs
  · split at hs
    · cases hs
      exact h s
    · exact H s hole hs

theorem HolesSatisfy.accept {sequence : Nat} {msg : OrderMessage} (H : HolesSatisfy P bucket)
    (h : ∀ s, P s ⟨now, 0⟩) :
    HolesSatisfy P (bucket.acceptOrderMessage backfill sequence msg now).1 := by
  have hsynced : ∀ bucket : Bucket, bucket.synced = true → HolesSatisfy P bucket →
      HolesSatisfy P (bucket.acceptOrderMessage backfill sequence msg now).1 := by
    intro bucket hsynced H
    rw [Bucket.accept_eq hsynced]
    split
    · exact H
    · exact H.park h
  cases hs : bucket.synced with
  | true => exact hsynced bucket hs H
  | false =>
    rw [Bucket.accept_unsynced hs]
    exact hsynced _ rfl H

theorem HolesSatisfy.drainUdp {arrivals : List Arrival} (H : HolesSatisfy P bucket)
    (h : ∀ arrival ∈ arrivals, ∀ s, P s ⟨arrival.now, 0⟩) :
    HolesSatisfy P (drainUdp backfill bucket arrivals).1 := by
  induction arrivals generalizing bucket with
  | nil => exact H
  | cons arrival arrivals ih =>
    obtain ⟨hfirst, hrest⟩ := List.forall_mem_cons.mp h
    refine ih ?_ hrest
    split
    · exact H
    · split
      · exact H
      · exact H.accept hfirst

theorem HolesSatisfy.onFrame {sequence : Nat} {payload : Option OrderMessage}
    (H : HolesSatisfy P bucket) : HolesSatisfy P (bucket.onFrame sequence payload).1 := by
  refine H.of_sub fun s hole hs => ?_
  rw [(bucket.onFrame_answered sequence payload).holes, ExtTreeMap.getElem?_erase'] at hs
  split at hs
  · exact nomatch hs
  · exact hs

theorem HolesSatisfy.expire (H : HolesSatisfy P bucket) :
    HolesSatisfy P (bucket.expire now giveup).1 := by
  refine H.of_sub fun s hole hs => ?_
  rw [Bucket.expire_eq, ExtTreeMap.getElem?_eraseAll] at hs
  split at hs
  · exact nomatch hs
  · exact hs

theorem HolesSatisfy.stamp {sequences : List Nat} (H : HolesSatisfy P bucket)
    (h : ∀ s ∈ sequences, ∀ hole, P s hole → P s { hole with asked := now }) :
    HolesSatisfy P (bucket.stamp sequences now) := by
  intro s hole hs
  rw [Bucket.getElem?_stamp_holes] at hs
  split at hs
  · next hmem =>
    obtain ⟨old, hold, rfl⟩ := Option.map_eq_some_iff.mp hs
    exact h s hmem old (H s old hold)
  · exact H s hole hs

theorem HolesSatisfy.deliver (H : HolesSatisfy P bucket) : HolesSatisfy P bucket.deliver.1 :=
  H.of_sub fun s hole hs => by rwa [Bucket.deliver, (Bucket.deliverLoop_rounds _ _).holes_eq] at hs

/-! ## Frame by frame -/

/-- `find_bucket` finds a place in the list. -/
theorem withBucket_cases (id : Nat) (action : Bucket → Bucket × List BucketEvent)
    (buckets : List Bucket) :
    withBucket id action buckets = (buckets, []) ∨
    ∃ i bucket, buckets[i]? = some bucket ∧ bucket.id = id ∧
      withBucket id action buckets = (buckets.set i (action bucket).1,
        (action bucket).2.map (.bucket id)) := by
  induction buckets with
  | nil => exact .inl rfl
  | cons first buckets ih =>
    by_cases hid : first.id = id
    · refine .inr ⟨0, first, rfl, hid, ?_⟩
      simp only [withBucket, if_pos hid]
      rfl
    · simp only [withBucket, if_neg hid]
      rcases ih with hnone | ⟨i, bucket, hi, hsame, heq⟩
      · exact .inl (by rw [hnone])
      · exact .inr ⟨i + 1, bucket, hi, hsame, by rw [heq]; rfl⟩

/-- What every frame keeps, the frame loop keeps. -/
theorem frameLoop_forall {keeps : Bucket → Prop}
    (h : ∀ bucket sequence payload, keeps bucket → keeps (bucket.onFrame sequence payload).1)
    {buckets : List Bucket} {bytes : Bytes} (hbuckets : ∀ bucket ∈ buckets, keeps bucket) :
    ∀ bucket ∈ (frameLoop fuel buckets bytes).1, keeps bucket := by
  induction fuel generalizing buckets bytes with
  | zero => exact hbuckets
  | succ fuel ih =>
    rw [frameLoop]
    split
    · exact hbuckets
    · dsimp only
      split
      · exact hbuckets
      · split
        · exact hbuckets
        · refine ih fun bucket hmem => ?_
          rcases withBucket_cases _ _ buckets with hnone | ⟨i, found, hi, -, heq⟩
          · rw [hnone] at hmem
            exact hbuckets bucket hmem
          · rw [heq] at hmem
            rcases List.mem_or_eq_of_mem_set hmem with hmem | rfl
            · exact hbuckets bucket hmem
            · exact h _ _ _ (hbuckets found (List.mem_of_getElem? hi))

theorem drainTcp_forall {keeps : Bucket → Prop}
    (h : ∀ bucket sequence payload, keeps bucket → keeps (bucket.onFrame sequence payload).1)
    (subscriber : Subscriber) (recvs : List Recv)
    (hbuckets : ∀ bucket ∈ subscriber.buckets, keeps bucket) :
    ∀ bucket ∈ (subscriber.call (.drainTcp recvs)).1.buckets, keeps bucket := by
  rw [Subscriber.call]
  split
  · rw [drainTcp]
    split
    · exact hbuckets
    · next bytes _ =>
      have hloop := @frameLoop_forall bytes.length keeps h subscriber.buckets bytes hbuckets
      split
      · next heq => rwa [heq] at hloop
      · next heq => rwa [heq] at hloop
  · exact hbuckets

end Subscriber
end MegaFeed
