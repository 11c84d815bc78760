import MegaFeed.Verify.Acts

/-! # The counters account for every datagram

What the counters of a bucket and its parking area say together is how many datagrams the bucket was
passed (`Bucket.balance`): a datagram adds one, and nothing else changes it. So whatever arrives,
every datagram is a duplicate, waits, was delivered or was the end marker (`conserved`). -/

namespace MegaFeed
namespace Subscriber
open Std (ExtTreeMap)

variable {bucket bucket' : Bucket} {backfill sequence : Nat} {msg : OrderMessage}
  {now giveup : UInt64}
  {subscriber : Subscriber} {buckets : List Bucket} {events : List BucketEvent}

/-! ## One bucket -/

/-- The datagrams that a bucket accounts for. -/
def Bucket.balance (bucket : Bucket) : Int :=
  bucket.stats.duplicates + bucket.stats.delivered + bucket.parked.size + bucket.done.toNat -
    bucket.stats.repaired

theorem Bucket.balance_accept :
    (bucket.acceptOrderMessage backfill sequence msg now).1.balance = bucket.balance + 1 := by
  have hsynced : ∀ bucket : Bucket, bucket.synced = true →
      (bucket.acceptOrderMessage backfill sequence msg now).1.balance = bucket.balance + 1 := by
    intro bucket hsynced
    rw [accept_eq hsynced]
    split
    · simp only [balance]
      omega
    · next hnew =>
      simp only [balance, park, ExtTreeMap.size_insert_of_not_mem (not_or.mp hnew).2]
      omega
  cases hs : bucket.synced with
  | true => exact hsynced bucket hs
  | false =>
    rw [accept_unsynced hs]
    exact hsynced _ rfl

theorem Bucket.balance_onFrame (bucket : Bucket) (sequence : Nat) (payload : Option OrderMessage) :
    (bucket.onFrame sequence payload).1.balance = bucket.balance := by
  unfold onFrame
  cases payload with
  | none =>
    dsimp only
    split <;> rfl
  | some msg =>
    dsimp only
    split
    · next hnew =>
      simp only [balance, ExtTreeMap.size_insert_of_not_mem hnew.2]
      omega
    · rfl

theorem Bucket.Round.balance {event : BucketEvent} (h : bucket.Round event bucket') :
    bucket'.balance = bucket.balance := by
  cases h with
  | delivered hopen hmsg htype =>
    have hsize := ExtTreeMap.size_erase_of_mem (ExtTreeMap.mem_of_getElem? hmsg)
    simp only [Bucket.balance]
    omega
  | ended hopen hmsg htype =>
    have hsize := ExtTreeMap.size_erase_of_mem (ExtTreeMap.mem_of_getElem? hmsg)
    simp only [Bucket.balance, hopen, Bool.toNat_true, Bool.toNat_false]
    omega
  | unrecoverable hopen hgone => rfl

theorem Bucket.Rounds.balance (h : bucket.Rounds events bucket') :
    bucket'.balance = bucket.balance := by
  induction h with
  | nil => rfl
  | cons hround _ ih => exact ih.trans hround.balance

theorem balance_drainUdp (bucket : Bucket) (arrivals : List Arrival) :
    (drainUdp backfill bucket arrivals).1.balance =
      bucket.balance + arrivals.countP (fun arrival => (arrival.act bucket.id).isSome) := by
  induction arrivals generalizing bucket with
  | nil => exact (Int.add_zero _).symm
  | cons arrival arrivals ih =>
    have hfirst : (onDatagram backfill bucket arrival).1.balance =
        bucket.balance + if (arrival.act bucket.id).isSome then 1 else 0 := by
      unfold onDatagram Arrival.act
      cases dgramDecode (arrival.bytes.take 512) with
      | none => exact (Int.add_zero _).symm
      | some datagram =>
        by_cases hother : datagram.bucket.toNat ≠ bucket.id
        · simp only [if_pos hother]
          exact (Int.add_zero _).symm
        · simp only [if_neg hother]
          exact Bucket.balance_accept
    have hid := (@id_silent_onDatagram bucket backfill arrival).1
    have hrest := ih (onDatagram backfill bucket arrival).1
    rw [hid, hfirst] at hrest
    rw [drainUdp, List.countP_cons]
    refine hrest.trans ?_
    split <;> push_cast <;> ring

/-! ## All buckets -/

/-- The ids of the buckets and what they account for. -/
def balances (buckets : List Bucket) : List (Nat × Int) :=
  buckets.map fun bucket => (bucket.id, bucket.balance)

theorem getElem?_balances {i : Nat} :
    (balances buckets)[i]? = buckets[i]?.map fun bucket => (bucket.id, bucket.balance) :=
  List.getElem?_map ..

theorem balances_set {i : Nat} (hi : buckets[i]? = some bucket) (hid : bucket'.id = bucket.id)
    (hbalance : bucket'.balance = bucket.balance) :
    balances (buckets.set i bucket') = balances buckets :=
  map_set_same hi (Prod.ext hid hbalance)

theorem balances_frameLoop (count : Nat) (buckets : List Bucket) (bytes : Bytes) :
    balances (frameLoop count buckets bytes).1 = balances buckets := by
  induction count generalizing buckets bytes with
  | zero => rfl
  | succ count ih =>
    rw [frameLoop]
    split
    · rfl
    · dsimp only
      split
      · rfl
      · split
        · rfl
        · refine (ih _ _).trans ?_
          rcases withBucket_cases _ _ buckets with hnone | ⟨i, found, hi, -, heq⟩
          · rw [hnone]
          · rw [heq]
            exact balances_set hi (found.onFrame_answered _ _).id (found.balance_onFrame _ _)

theorem balances_deliverLoop (count : Nat) {i : Nat} (hi : buckets[i]? = some bucket) :
    balances (buckets.set i (Bucket.deliverLoop count bucket).1) = balances buckets :=
  have hrounds := Bucket.deliverLoop_rounds count bucket
  balances_set hi hrounds.id_silent.1 hrounds.balance

/-- The datagrams a call passes to `accept_OrderMessage` for the bucket at `i`, which has
the id `id`. -/
def Call.accepted (i id : Nat) : Call → Nat
  | .drainUdp j arrivals =>
    if j = i then arrivals.countP fun arrival => (arrival.act id).isSome else 0
  | .drainTcp _ | .nak _ _ | .deliver _ => 0

/-- The datagrams that calls pass to `accept_OrderMessage` for the bucket at `i`, which has
the id `id`. -/
def accepted (i id : Nat) (calls : List Call) : Nat := (calls.map (Call.accepted i id)).sum

theorem balances_nak {i : Nat} {input : NakInput} :
    balances (subscriber.call (.nak i input)).1.buckets = balances subscriber.buckets := by
  rw [call]
  split
  · rfl
  · next bucket hi =>
    rcases nak_cases subscriber bucket input with
      ⟨-, heq⟩ | ⟨-, subscriber', bucket', events, hasks, heq⟩
    · rw [heq]
      exact balances_set hi rfl rfl
    · have hsame : bucket'.id = bucket.id ∧ bucket'.balance = bucket.balance := by
        cases hasks <;> exact ⟨rfl, rfl⟩
      rw [heq]
      dsimp only
      rw [hasks.subscriber_eq.1]
      exact balances_set hi hsame.1 hsame.2

theorem balances_drainTcp {recvs : List Recv} :
    balances (subscriber.call (.drainTcp recvs)).1.buckets = balances subscriber.buckets := by
  rw [call]
  split
  · rw [drainTcp]
    split
    · rfl
    · next bytes _ =>
      have hloop := balances_frameLoop bytes.length subscriber.buckets bytes
      split
      · next heq => rwa [heq] at hloop
      · next heq => rwa [heq] at hloop
  · rfl

/-- A call adds the datagrams it passes on, and changes nothing else. -/
theorem call_balance (subscriber : Subscriber) (call : Call) {i : Nat}
    (hi : (subscriber.call call).1.buckets[i]? = some bucket') :
    ∃ bucket, subscriber.buckets[i]? = some bucket ∧ bucket.id = bucket'.id ∧
      bucket'.balance = bucket.balance + call.accepted i bucket'.id := by
  have hsame : balances (subscriber.call call).1.buckets = balances subscriber.buckets →
      ∃ bucket, subscriber.buckets[i]? = some bucket ∧ bucket.id = bucket'.id ∧
        bucket'.balance = bucket.balance := by
    intro h
    have hget := congrArg (·[i]?) h
    simp only [getElem?_balances, hi, Option.map_some] at hget
    obtain ⟨bucket, hbucket, heq⟩ := Option.map_eq_some_iff.mp hget.symm
    obtain ⟨hid, hbalance⟩ := Prod.mk.inj heq
    exact ⟨bucket, hbucket, hid, hbalance.symm⟩
  cases call with
  | drainUdp j arrivals =>
    rw [Subscriber.call, atBucket] at hi
    by_cases hplace : j = i
    · subst hplace
      cases hget : subscriber.buckets[j]? with
      | none =>
        rw [hget] at hi
        cases hget.symm.trans hi
      | some bucket =>
        rw [hget] at hi
        dsimp only at hi
        rw [List.getElem?_set_self (List.getElem?_eq_some_iff.mp hget).1] at hi
        cases hi
        rw [Call.accepted, if_pos rfl, id_silent_drainUdp.1]
        exact ⟨bucket, rfl, rfl, balance_drainUdp bucket arrivals⟩
    · have hold : subscriber.buckets[i]? = some bucket' := by
        cases hget : subscriber.buckets[j]? with
        | none => rwa [hget] at hi
        | some bucket =>
          rw [hget] at hi
          dsimp only at hi
          rwa [List.getElem?_set_ne hplace] at hi
      rw [Call.accepted, if_neg hplace]
      exact ⟨bucket', hold, rfl, (Int.add_zero _).symm⟩
  | drainTcp recvs => simpa [Call.accepted] using hsame balances_drainTcp
  | nak j input => simpa [Call.accepted] using hsame balances_nak
  | deliver j =>
    have hdeliver : balances (subscriber.call (.deliver j)).1.buckets =
        balances subscriber.buckets := by
      rw [Subscriber.call, atBucket]
      split
      · rfl
      · next bucket hget => exact balances_deliverLoop _ hget
    simpa [Call.accepted] using hsame hdeliver

/-! ## Runs -/

theorem run_balance {calls : List Call} {i : Nat}
    (hi : (subscriber.run calls).1.buckets[i]? = some bucket') :
    ∃ bucket, subscriber.buckets[i]? = some bucket ∧ bucket.id = bucket'.id ∧
      bucket'.balance = bucket.balance + accepted i bucket'.id calls := by
  induction calls generalizing subscriber with
  | nil => exact ⟨bucket', hi, rfl, (Int.add_zero _).symm⟩
  | cons first calls ih =>
    obtain ⟨next, hnext, hid, hrest⟩ := ih hi
    obtain ⟨bucket, hbucket, hid', hfirst⟩ := call_balance subscriber first hnext
    refine ⟨bucket, hbucket, hid'.trans hid, ?_⟩
    rw [hrest, hfirst, hid, accepted, accepted, List.map_cons, List.sum_cons]
    push_cast
    ring

/-- The buckets at a point of a run: before a call, while `drain_tcp` goes through its frames, or
while `deliver` releases what is contiguous. -/
inductive Point (subscriber : Subscriber) : List Bucket → Prop
  | between : Point subscriber subscriber.buckets
  | frames {recvs : List Recv} {bytes : Bytes} (count : Nat) (hopen : subscriber.repairOpen)
    (hreceive : receive subscriber.repairBuffer recvs = some bytes) :
    Point subscriber (frameLoop count subscriber.buckets bytes).1
  | rounds {i : Nat} {bucket : Bucket} (count : Nat) (hi : subscriber.buckets[i]? = some bucket) :
    Point subscriber (subscriber.buckets.set i (bucket.deliverLoop count).1)

theorem Point.balances (h : Point subscriber buckets) :
    Subscriber.balances buckets = Subscriber.balances subscriber.buckets := by
  cases h with
  | between => rfl
  | frames count => exact balances_frameLoop count _ _
  | rounds count hi => exact balances_deliverLoop count hi

/-- At every point of every run, every datagram passed to a bucket is accounted for, by one of the
counters, the parking area or the end: whatever arrives on the sockets and the repair connection,
asked for or not, and whatever the clock says. -/
theorem conserved (ids : List Nat) (firstExpected backfill : UInt64) (calls : List Call)
    {buckets : List Bucket} {bucket : Bucket} {i : Nat}
    (hpoint : Point ((init ids firstExpected backfill).run calls).1 buckets)
    (hi : buckets[i]? = some bucket) :
    accepted i bucket.id calls + bucket.stats.repaired =
      bucket.stats.duplicates + bucket.stats.delivered + bucket.parked.size +
        if bucket.done then 1 else 0 := by
  have hget := congrArg (·[i]?) hpoint.balances
  simp only [getElem?_balances, hi, Option.map_some] at hget
  obtain ⟨before, hbefore, heq⟩ := Option.map_eq_some_iff.mp hget.symm
  obtain ⟨hid, hbalance⟩ := Prod.mk.inj heq
  obtain ⟨first, hfirst, -, hrun⟩ := run_balance hbefore
  have hnew : first.balance = 0 := by
    rw [init, List.getElem?_map] at hfirst
    obtain ⟨id, -, rfl⟩ := Option.map_eq_some_iff.mp hfirst
    split <;> rfl
  rw [hbalance, hnew, hid] at hrun
  have hdone : (if bucket.done then 1 else 0) = bucket.done.toNat := by cases bucket.done <;> rfl
  rw [hdone]
  unfold Bucket.balance at hrun
  omega

/-- Datagram 2 arrives twice and opens hole 1, which is asked for; the answer comes with one nobody
asked for, for number 3. -/
def copies : List Call :=
  [.drainUdp 0 (List.replicate 2
      ⟨(FeedPublisher.packet 0 2 (FeedPublisher.encodePayload {})).bytes, 1000000000⟩),
    .nak 0 ⟨1100000000, true, true⟩,
    .drainTcp [.data (FeedPublisher.answer 0 (some (FeedPublisher.encodePayload {})) 1 ++
      FeedPublisher.answer 0 (some (FeedPublisher.encodePayload {})) 3)]]

/-- After two rounds of `deliver` two messages are delivered and one waits. -/
theorem conserved_copies : ∃ bucket,
    (((init [0] 1 0).run copies).1.buckets.map fun bucket => (bucket.deliverLoop 2).1) = [bucket] ∧
    bucket.stats = ⟨2, 2, 0, 1, 1⟩ ∧ bucket.parked.size = 1 ∧
    accepted 0 0 copies + bucket.stats.repaired =
      bucket.stats.duplicates + bucket.stats.delivered + bucket.parked.size +
        if bucket.done then 1 else 0 := by
  obtain ⟨bucket, hbucket⟩ := List.length_eq_one_iff.mp
    (show ((init [0] 1 0).run copies).1.buckets.length = 1 by decide)
  have hcount :
      ((((init [0] 1 0).run copies).1.buckets.map fun bucket => (bucket.deliverLoop 2).1).map
      fun bucket => (bucket.id, bucket.stats, bucket.parked.size)) = [(0, ⟨2, 2, 0, 1, 1⟩, 1)] := by
    decide
  rw [hbucket] at hcount
  obtain ⟨hid, hstats, hsize⟩ : (bucket.deliverLoop 2).1.id = 0 ∧
      (bucket.deliverLoop 2).1.stats = ⟨2, 2, 0, 1, 1⟩ ∧
      (bucket.deliverLoop 2).1.parked.size = 1 := by
    simpa using hcount
  have hi : ((init [0] 1 0).run copies).1.buckets[0]? = some bucket := by rw [hbucket]; rfl
  have hset : (((init [0] 1 0).run copies).1.buckets.set 0 (bucket.deliverLoop 2).1)[0]? =
      some (bucket.deliverLoop 2).1 := by rw [hbucket]; rfl
  have hall := conserved [0] 1 0 copies (.rounds 2 hi) hset
  rw [hid] at hall
  exact ⟨_, by rw [hbucket]; rfl, hstats, hsize, hall⟩

end Subscriber
end MegaFeed
