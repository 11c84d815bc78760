import MegaFeed.Verify.Buckets

/-! # Giving up

A hole carries in `asked` whether it has ever been asked for, and a run keeps this honest
(`Chases.call`). So a run in which `nak` never meets an expired hole that was never asked for writes
nothing off unasked (`asked_first_of_chased`). Nothing in `nak` ensures that it does not: expiry
counts from `noticed`, whether or not the server could be reached (`asked_first_unreachable`). -/

namespace MegaFeed
namespace Subscriber
open Std (ExtTreeMap)

/-- Wherever the log says that a number was given up, a request naming it had been written. -/
def AskedFirst (log : List Event) : Prop :=
  ∀ (i id s : Nat) (now : UInt64), log[i]? = some (.bucket id (.expired s now)) →
    Asked (history id (log.take i)) s

/-- The next call does not find a hole that was never asked for and is past the deadline with all
holes before it. -/
def Chased (subscriber : Subscriber) : Call → Prop
  | .nak i input => ∀ bucket ∈ subscriber.buckets[i]?, ∀ p ∈ bucket.holes.toList, p.2.asked = 0 →
      ∃ p' ∈ bucket.holes.toList, p'.1 ≤ p.1 ∧ input.now - p'.2.noticed ≤ subscriber.giveupNs
  | _ => True

instance {subscriber : Subscriber} : DecidablePred (Chased subscriber)
  | .nak i _ => inferInstanceAs (Decidable (∀ bucket ∈ subscriber.buckets[i]?, _))
  | .drainUdp _ _ | .drainTcp _ | .deliver _ => inferInstanceAs (Decidable True)

/-- Every call of a run is `Chased`. -/
def ChasedRun (subscriber : Subscriber) : List Call → Prop
  | [] => True
  | first :: calls => subscriber.Chased first ∧ ChasedRun (subscriber.call first).1 calls

instance : (calls : List Call) → (subscriber : Subscriber) → Decidable (subscriber.ChasedRun calls)
  | [], _ => inferInstanceAs (Decidable True)
  | first :: calls, subscriber =>
    have := instDecidableChasedRun calls (subscriber.call first).1
    inferInstanceAs (Decidable (_ ∧ _))

variable {subscriber : Subscriber} {log events : List Event} {bucket : Bucket}

theorem AskedFirst.append (h : AskedFirst log)
    (hevents : ∀ (id s : Nat) (now : UInt64), .bucket id (.expired s now) ∈ events →
      Asked (history id log) s) : AskedFirst (log ++ events) := by
  intro i id s now hi
  rcases Nat.lt_or_ge i log.length with hlt | hge
  · rw [List.getElem?_append_left hlt] at hi
    rw [List.take_append_of_le_length hlt.le]
    exact h i id s now hi
  · rw [List.getElem?_append_right hge] at hi
    rw [List.take_append, List.take_of_length_le hge, history_append]
    exact asked_append.mpr (.inl (hevents id s now (List.mem_of_getElem? hi)))

/-- Every hole with `asked` set has been asked for. -/
def Chases (log : List Event) (subscriber : Subscriber) : Prop :=
  ∀ bucket ∈ subscriber.buckets,
    HolesSatisfy (fun s hole => hole.asked ≠ 0 → Asked (history bucket.id log) s) bucket

theorem asked_mono {id s : Nat} (h : Asked (history id log) s) (events : List Event) :
    Asked (history id (log ++ events)) s := by
  rw [history_append]
  exact asked_append.mpr (.inl h)

/-- A bucket changes, and the request in `events`, if there is one, accounts for its stamps. -/
theorem Chases.set (C : Chases log subscriber) {subscriber' : Subscriber} {bucket' : Bucket}
    (hbuckets : subscriber'.buckets = subscriber.buckets.set i bucket')
    (h : HolesSatisfy (fun s hole => hole.asked ≠ 0 → Asked (history bucket'.id (log ++ events)) s)
      bucket') : Chases (log ++ events) subscriber' := by
  intro other hmem
  rw [hbuckets] at hmem
  rcases List.mem_or_eq_of_mem_set hmem with hmem | rfl
  · exact (C other hmem).mono fun s hole hask hasked => asked_mono (hask hasked) events
  · exact h

theorem not_expired_of_silent {id' : Nat} {events : List BucketEvent}
    (h : ∀ event ∈ events, event.Silent) {id s : Nat} {now : UInt64} :
    .bucket id (.expired s now) ∉ events.map (Event.bucket id') := by
  intro hmem
  obtain ⟨event, hevent, heq⟩ := List.mem_map.mp hmem
  cases heq
  exact h _ hevent

/-- An action that opens holes, closes them and leaves the others. -/
theorem Chases.atBucket (C : Chases log subscriber) (i : Nat)
    (action : Bucket → Bucket × List BucketEvent)
    (hid : ∀ bucket, (action bucket).1.id = bucket.id)
    (hsilent : ∀ bucket, ∀ event ∈ (action bucket).2, event.Silent)
    (hholes : ∀ bucket (P : Nat → Hole → Prop), (∀ s now, P s ⟨now, 0⟩) → HolesSatisfy P bucket →
      HolesSatisfy P (action bucket).1) :
    Chases (log ++ (subscriber.atBucket i action).2) (subscriber.atBucket i action).1 ∧
      ∀ (id s : Nat) (now : UInt64),
        .bucket id (.expired s now) ∉ (subscriber.atBucket i action).2 := by
  rw [Subscriber.atBucket]
  split
  · rw [List.append_nil]
    exact ⟨C, by simp⟩
  · next bucket hbucket =>
    refine ⟨C.set rfl ?_, fun _ _ _ => not_expired_of_silent (hsilent bucket)⟩
    dsimp only
    rw [hid]
    refine hholes bucket _ (fun s now hne => absurd rfl hne) ?_
    exact (C bucket (List.mem_of_getElem? hbucket)).mono fun s hole hask hasked =>
      asked_mono (hask hasked) _

theorem frameLoop_events {buckets : List Bucket} {bytes : Bytes} :
    ∀ event ∈ (frameLoop fuel buckets bytes).2.2,
      (∃ id sequence payload, event = .bucket id (.frame sequence payload)) ∨ event = .resync := by
  induction fuel generalizing buckets bytes with
  | zero => simp [frameLoop]
  | succ fuel ih =>
    rw [frameLoop]
    split
    · simp
    · dsimp only
      split
      · simp
      · split
        · exact fun event hmem => .inr (List.mem_singleton.mp hmem)
        · intro event hmem
          rcases List.mem_append.mp hmem with hmem | hmem
          · refine .inl ?_
            rcases withBucket_cases _ _ buckets with hnone | ⟨i, found, hi, hid, heq⟩
            · rw [hnone] at hmem
              cases hmem
            · rw [heq] at hmem
              exact ⟨_, _, _, List.mem_singleton.mp hmem⟩
          · exact ih event hmem

theorem Chases.drainTcp (C : Chases log subscriber) {recvs : List Recv} :
    Chases (log ++ (subscriber.call (.drainTcp recvs)).2) (subscriber.call (.drainTcp recvs)).1 ∧
      ∀ (id s : Nat) (now : UInt64),
        .bucket id (.expired s now) ∉ (subscriber.call (.drainTcp recvs)).2 := by
  refine ⟨?_, ?_⟩
  · have hkept := @drainTcp_forall (fun bucket => HolesSatisfy
      (fun s hole => hole.asked ≠ 0 → Asked (history bucket.id log) s) bucket)
      (fun bucket sequence payload H => by
        rw [(bucket.onFrame_answered sequence payload).id]
        exact H.onFrame) subscriber recvs C
    exact fun bucket hmem => (hkept bucket hmem).mono fun s hole hask hasked =>
      asked_mono (hask hasked) _
  · intro id s now
    have hloop : ∀ fuel bytes, Event.bucket id (.expired s now) ∉
        (frameLoop fuel subscriber.buckets bytes).2.2 := by
      intro fuel bytes hmem
      rcases frameLoop_events _ hmem with ⟨_, _, _, heq⟩ | heq <;> cases heq
    rw [Subscriber.call]
    split
    · rw [Subscriber.drainTcp]
      split
      · simp
      · next bytes _ =>
        have hnone := hloop bytes.length bytes
        split
        · next heq => rwa [heq] at hnone
        · next heq => rwa [heq] at hnone
    · simp

/-! ## Requests and deadlines -/

/-- The holes given up by a `nak` that finds no such hole have been asked for. -/
theorem Chases.expired {i : Nat} {input : NakInput} (C : Chases log subscriber)
    (h : subscriber.Chased (.nak i input)) (hbucket : subscriber.buckets[i]? = some bucket)
    (hs : s ∈ bucket.expired input.now subscriber.giveupNs) : Asked (history bucket.id log) s := by
  obtain ⟨hole, hget, hage, hbefore⟩ := Bucket.mem_expired_iff.mp hs
  refine C bucket (List.mem_of_getElem? hbucket) s hole hget fun hnever => ?_
  obtain ⟨⟨s', hole'⟩, hmem', hle, hlive⟩ :=
    h bucket hbucket (s, hole) (ExtTreeMap.mem_toList_iff_getElem?_eq_some.mpr hget) hnever
  have hget' := ExtTreeMap.mem_toList_iff_getElem?_eq_some.mp hmem'
  rcases Nat.lt_or_eq_of_le hle with hlt | rfl
  · exact UInt64.not_lt.mpr hlive (hbefore s' hole' hlt hget')
  · rw [Option.some.inj (hget.symm.trans hget')] at hage
    exact UInt64.not_lt.mpr hlive hage

theorem Asks.chases {input : NakInput} {subscriber' : Subscriber} {bucket' : Bucket}
    (h : Asks subscriber bucket input (subscriber', bucket', events))
    (H : HolesSatisfy (fun s hole => hole.asked ≠ 0 → Asked (history bucket.id log) s) bucket) :
    HolesSatisfy (fun s hole => hole.asked ≠ 0 → Asked (history bucket.id (log ++ events)) s)
      bucket' := by
  have H' := H.mono (Q := fun s hole => hole.asked ≠ 0 →
    Asked (history bucket.id (log ++ events)) s)
    fun s hole hask hasked => asked_mono (hask hasked) events
  cases h with
  | waits => exact H'
  | refused => exact H'
  | failed => exact H'
  | written sequences =>
    refine H'.stamp fun s hs hole _ _ => ⟨sequences, input.now, ?_, hs⟩
    rw [history_append, history_append, history_same]
    exact List.mem_append_right _ (List.mem_append_right _ (List.mem_singleton_self _))

theorem Asks.not_expired {input : NakInput} {subscriber' : Subscriber} {bucket' : Bucket}
    (h : Asks subscriber bucket input (subscriber', bucket', events)) {id s : Nat} {now : UInt64} :
    .bucket id (.expired s now) ∉ events := by
  have hconnected : Event.bucket id (.expired s now) ∉ connected subscriber input := by
    unfold connected
    split <;> simp
  cases h <;> simp [hconnected]

theorem Chases.nak {i : Nat} {input : NakInput} (C : Chases log subscriber)
    (h : subscriber.Chased (.nak i input)) :
    Chases (log ++ (subscriber.call (.nak i input)).2) (subscriber.call (.nak i input)).1 ∧
      ∀ (id s : Nat) (now : UInt64),
        .bucket id (.expired s now) ∈ (subscriber.call (.nak i input)).2 →
          Asked (history id log) s := by
  rw [Subscriber.call]
  split
  · rw [List.append_nil]
    exact ⟨C, by simp⟩
  · next bucket hbucket =>
    have H := C bucket (List.mem_of_getElem? hbucket)
    rcases nak_cases subscriber bucket input with
      ⟨-, heq⟩ | ⟨-, subscriber', bucket', events, hasks, heq⟩
    · rw [heq]
      refine ⟨C.set rfl ?_, by simp⟩
      rw [List.append_nil]
      exact H
    · rw [heq]
      dsimp only
      have hexpired : ∀ s ∈ bucket.expired input.now subscriber.giveupNs,
          Asked (history bucket.id log) s := fun s hs => C.expired h hbucket hs
      refine ⟨C.set (by rw [← hasks.subscriber_eq.1]) ?_, fun id s now hmem => ?_⟩
      · rw [hasks.id_eq, ← List.append_assoc]
        exact hasks.chases (H.expire.mono fun s hole hask hasked => asked_mono (hask hasked) _)
      · rcases List.mem_append.mp hmem with hmem | hmem
        · obtain ⟨event, hevent, heq⟩ := List.mem_map.mp hmem
          obtain ⟨s', hs', rfl⟩ := List.mem_map.mp hevent
          cases heq
          exact hexpired s hs'
        · exact (hasks.not_expired hmem).elim

/-! ## Runs -/

theorem Chases.call (C : Chases log subscriber) {next : Call} (h : subscriber.Chased next) :
    Chases (log ++ (subscriber.call next).2) (subscriber.call next).1 ∧
      ∀ (id s : Nat) (now : UInt64), .bucket id (.expired s now) ∈ (subscriber.call next).2 →
        Asked (history id log) s := by
  cases next with
  | drainUdp i arrivals =>
    have hat := C.atBucket i
      (fun bucket => Subscriber.drainUdp subscriber.backfill bucket arrivals)
      (fun _ => id_silent_drainUdp.1) (fun _ => id_silent_drainUdp.2)
      (fun _ _ hnew H => H.drainUdp fun _ _ s => hnew s _)
    exact ⟨hat.1, fun id s now hmem => (hat.2 id s now hmem).elim⟩
  | drainTcp recvs => exact ⟨C.drainTcp.1, fun id s now hmem => (C.drainTcp.2 id s now hmem).elim⟩
  | nak i input => exact C.nak h
  | deliver i =>
    have hat := C.atBucket i (·.deliver)
      (fun _ => (Bucket.deliverLoop_rounds _ _).id_silent.1)
      (fun _ => (Bucket.deliverLoop_rounds _ _).id_silent.2) (fun _ _ _ H => H.deliver)
    exact ⟨hat.1, fun id s now hmem => (hat.2 id s now hmem).elim⟩

theorem AskedFirst.run (A : AskedFirst log) (C : Chases log subscriber) {calls : List Call}
    (h : subscriber.ChasedRun calls) : AskedFirst (log ++ (subscriber.run calls).2) := by
  induction calls generalizing subscriber log with
  | nil => rwa [Subscriber.run, List.append_nil]
  | cons first calls ih =>
    obtain ⟨C', hasked⟩ := C.call h.1
    rw [Subscriber.run, ← List.append_assoc]
    exact ih (A.append hasked) C' h.2

/-- **A run that chases every hole writes nothing off unasked.** If no `nak` of the run finds a hole
that was never asked for and is past the deadline with all holes before it, then every number given
up had been named by a completely written request. -/
theorem asked_first_of_chased (bucketIds : List Nat) (firstExpected backfill : UInt64)
    (calls : List Call) (h : (init bucketIds firstExpected backfill).ChasedRun calls) :
    AskedFirst ((init bucketIds firstExpected backfill).run calls).2 := by
  have hnothing : AskedFirst [] := fun i id s now hi => nomatch hi
  have hstart : Chases [] (init bucketIds firstExpected backfill) := by
    intro bucket hmem
    obtain ⟨id, -, rfl⟩ := List.mem_map.mp hmem
    intro s hole hs
    split at hs <;> simp at hs
  exact hnothing.run hstart h

/-- A `pump` 10 ms long that begins at `now`, in which the second datagram of bucket 0 may arrive
and a `connect` may succeed. -/
def pumpAt (now : UInt64) (arrives connects : Bool) : List Call :=
  pumpCalls 1
    { arrivals := fun _ =>
        if arrives then [⟨(FeedPublisher.packet 0 2 (FeedPublisher.encodePayload {})).bytes, now⟩]
        else []
      recvs := []
      naks := fun _ => ⟨now + 10000000, connects, true⟩ }

/-- With the server reachable the hole is asked for after 10 ms and given up after two seconds. -/
theorem asked_first_of_chased_reachable :
    AskedFirst
      ((init [0] 1 0).run (pumpAt 1000000000 true true ++ pumpAt 3100000000 false true)).2 :=
  asked_first_of_chased [0] 1 0 _ (by decide)

/-- With the server unreachable for two seconds the hole is given up and was never asked for. -/
theorem asked_first_unreachable :
    ¬∀ bucketIds firstExpected backfill calls,
      AskedFirst ((init bucketIds firstExpected backfill).run calls).2 := by
  intro hall
  have hasked := hall [0] 1 0 (pumpAt 1000000000 true false ++ pumpAt 1200000000 false false ++
    pumpAt 3100000000 false false) 4 0 1 3110000000 (by decide)
  have hbefore : history 0 (((init [0] 1 0).run (pumpAt 1000000000 true false ++
      pumpAt 1200000000 false false ++ pumpAt 3100000000 false false)).2.take 4) =
      [.arrived 2, .noticed 1 1000000000] := by decide
  obtain ⟨sequences, now, hmem, -⟩ := hasked
  rw [hbefore] at hmem
  simp at hmem

end Subscriber
end MegaFeed
