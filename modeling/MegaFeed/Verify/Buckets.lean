import MegaFeed.Verify.Holes
import MegaFeed.Verify.Sending

/-! # All buckets of a subscriber

`Tended` says that every bucket keeps its invariant along its own part of the log. What `pump`
does to the buckets, one at a time or frame by frame, keeps it (`Tended.atBucket`,
`Tended.onAnswers`). -/

namespace MegaFeed
namespace Subscriber
open FeedPublisher (Assigned Packet Published)

variable {log events events' : List Event} {buckets buckets' buckets'' : List Bucket}
  {bucket : Bucket}
  {assigned : List Assigned} {firstExpected backfill : Nat}

/-! ## The part of the log about one bucket -/

@[simp] theorem history_append {id : Nat} :
    history id (log ++ events) = history id log ++ history id events := List.filterMap_append

theorem history_map_same {id : Nat} {events : List BucketEvent} :
    history id (events.map (.bucket id)) = events := by
  simp only [history, List.filterMap_map]
  exact (List.filterMap_congr fun _ _ => if_pos rfl).trans List.filterMap_some

theorem history_map_other {id id' : Nat} {events : List BucketEvent} (h : id' ≠ id) :
    history id (events.map (.bucket id')) = [] := by
  simp only [history, List.filterMap_map]
  exact List.filterMap_eq_nil_iff.mpr fun _ _ => if_neg h

theorem history_same {id : Nat} {event : BucketEvent} : history id [.bucket id event] = [event] :=
  @history_map_same id [event]

theorem history_other {id id' : Nat} {event : BucketEvent} (h : id' ≠ id) :
    history id [.bucket id' event] = [] :=
  @history_map_other id id' [event] h

/-- An event that does not touch the repair connection. -/
def Event.Silent : Event → Prop
  | .bucket _ event => event.Silent
  | _ => False

/-! ## One action on one bucket -/

/-- The result of an action that keeps the invariant of a bucket and sends no request. -/
structure Follows (firstExpected backfill : Nat) (assigned : List Assigned)
    (history : List BucketEvent) (bucket : Bucket) (result : Bucket × List BucketEvent) : Prop where
  kept : Kept firstExpected backfill assigned (history ++ result.2) result.1
  id : result.1.id = bucket.id
  silent : ∀ event ∈ result.2, event.Silent

section
variable {history : List BucketEvent}

theorem Kept.follows_nothing (K : Kept firstExpected backfill assigned history bucket) :
    Follows firstExpected backfill assigned history bucket (bucket, []) where
  kept := by
    rw [List.append_nil]
    exact K
  id := rfl
  silent := nofun

theorem Kept.onDatagram {finished : Bool} {sent : List Packet} {bucketCount ringSize : Nat}
    {publisher : FeedPublisher bucketCount ringSize} {arrival : Arrival}
    (K : Kept firstExpected backfill assigned history bucket)
    (P : Published publisher finished assigned sent) (h : ⟨bucket.id, arrival.bytes⟩ ∈ sent) :
    Kept firstExpected backfill assigned (history ++ (onDatagram backfill bucket arrival).2)
      (onDatagram backfill bucket arrival).1 := by
  obtain ⟨s, msg, hassigned, hlt, hdecode⟩ := P.decode h
  rw [Subscriber.onDatagram, hdecode]
  dsimp only
  have hs : (UInt64.ofNat s).toNat = s := by rw [UInt64.toNat_ofNat', Nat.mod_eq_of_lt (by omega)]
  split
  · rw [List.append_nil]
    exact K
  · rw [hs]
    exact K.accept (P.assigned_pos hassigned) hlt hassigned

theorem Kept.follows_drainUdp {finished : Bool} {sent : List Packet} {bucketCount ringSize : Nat}
    {publisher : FeedPublisher bucketCount ringSize} {arrivals : List Arrival}
    (K : Kept firstExpected backfill assigned history bucket)
    (P : Published publisher finished assigned sent)
    (h : ∀ arrival ∈ arrivals, ⟨bucket.id, arrival.bytes⟩ ∈ sent) :
    Follows firstExpected backfill assigned history bucket (drainUdp backfill bucket arrivals) := by
  refine ⟨?_, id_silent_drainUdp.1, id_silent_drainUdp.2⟩
  induction arrivals generalizing history bucket with
  | nil =>
    rw [drainUdp, List.append_nil]
    exact K
  | cons arrival arrivals ih =>
    obtain ⟨hfirst, hrest⟩ := List.forall_mem_cons.mp h
    have hkept := ih (K.onDatagram P hfirst) (by rwa [id_silent_onDatagram.1])
    rwa [List.append_assoc] at hkept

theorem Kept.follows_onFrame {sequence : Nat} {payload : Option OrderMessage}
    (K : Kept firstExpected backfill assigned history bucket) (hasked : Asked history sequence)
    (hpayload : ∀ msg ∈ payload, ⟨bucket.id, sequence, msg⟩ ∈ assigned) :
    Follows firstExpected backfill assigned history bucket (bucket.onFrame sequence payload) where
  kept := K.onFrame hasked hpayload
  id := (bucket.onFrame_answered sequence payload).id
  silent event hmem := by
    rw [List.mem_singleton.mp hmem]
    trivial

theorem Kept.follows_deliver (K : Kept firstExpected backfill assigned history bucket) :
    Follows firstExpected backfill assigned history bucket bucket.deliver where
  kept := K.deliver
  id := (Bucket.deliverLoop_rounds _ _).id_silent.1
  silent := (Bucket.deliverLoop_rounds _ _).id_silent.2

end

/-! ## All buckets -/

/-- Every bucket keeps its invariant, and no two have the same id. -/
structure Tended (firstExpected backfill : Nat) (assigned : List Assigned) (log : List Event)
    (buckets : List Bucket) : Prop where
  nodup : (buckets.map (·.id)).Nodup
  kept : ∀ bucket ∈ buckets, Kept firstExpected backfill assigned (history bucket.id log) bucket

theorem Tended.mono (T : Tended firstExpected backfill assigned log buckets) (new : List Assigned) :
    Tended firstExpected backfill (assigned ++ new) log buckets :=
  ⟨T.nodup, fun bucket hmem => (T.kept bucket hmem).mono new⟩

/-- An element is replaced by one that `f` does not tell from it. -/
theorem map_set_same {α β : Type} {f : α → β} {l : List α} {a a' : α} {i : Nat}
    (hi : l[i]? = some a)
    (h : f a' = f a) : (l.set i a').map f = l.map f := by
  obtain ⟨hlt, rfl⟩ := List.getElem?_eq_some_iff.mp hi
  rw [List.map_set, h, ← List.getElem_map f (h := (List.length_map f).symm ▸ hlt),
    List.set_getElem_self]

theorem map_id_set {bucket' : Bucket} (hi : buckets[i]? = some bucket)
    (hid : bucket'.id = bucket.id) :
    (buckets.set i bucket').map (·.id) = buckets.map (·.id) := map_set_same hi hid

/-- The events `new` concern the bucket at `i` only, and it keeps its invariant along them. -/
theorem Tended.set (T : Tended firstExpected backfill assigned log buckets) {bucket' : Bucket}
    {new : List Event} (hi : buckets[i]? = some bucket) (hid : bucket'.id = bucket.id)
    (hother : ∀ id, id ≠ bucket.id → history id new = [])
    (h : Kept firstExpected backfill assigned (history bucket.id log ++ history bucket.id new)
      bucket') :
    Tended firstExpected backfill assigned (log ++ new) (buckets.set i bucket') where
  nodup := by
    rw [map_id_set hi hid]
    exact T.nodup
  kept := by
    intro other hmem
    obtain ⟨j, hj⟩ := List.getElem?_of_mem hmem
    rw [List.getElem?_set] at hj
    split at hj
    · split at hj
      · cases hj
        rw [history_append, hid]
        exact h
      · exact nomatch hj
    · next hne =>
      have hids : ∀ (k : Nat) (b : Bucket), buckets[k]? = some b →
          (buckets.map (·.id))[k]? = some b.id := by
        intro k b hk
        rw [List.getElem?_map, hk]
        rfl
      have hdistinct : other.id ≠ bucket.id := by
        intro hsame
        have hlt := (List.getElem?_eq_some_iff.mp hi).1
        refine hne ((List.getElem?_inj (by rwa [List.length_map]) T.nodup).mp ?_)
        rw [hids i bucket hi, hids j other hj, hsame]
      rw [history_append, hother other.id hdistinct, List.append_nil]
      exact T.kept other (List.mem_of_getElem? hj)

/-- What a part of `pump` does to the buckets when it keeps their invariants and sends
no request. -/
structure Moved (firstExpected backfill : Nat) (assigned : List Assigned) (log : List Event)
    (buckets : List Bucket) (result : List Bucket × List Event) : Prop where
  tended : Tended firstExpected backfill assigned (log ++ result.2) result.1
  ids : result.1.map (·.id) = buckets.map (·.id)
  silent : ∀ event ∈ result.2, event.Silent

theorem Tended.moved_nil (T : Tended firstExpected backfill assigned log buckets) :
    Moved firstExpected backfill assigned log buckets (buckets, []) where
  tended := by
    rw [List.append_nil]
    exact T
  ids := rfl
  silent := nofun

theorem Moved.trans (M : Moved firstExpected backfill assigned log buckets (buckets', events))
    (M' : Moved firstExpected backfill assigned (log ++ events) buckets' (buckets'', events')) :
    Moved firstExpected backfill assigned log buckets (buckets'', events ++ events') where
  tended := by
    rw [← List.append_assoc]
    exact M'.tended
  ids := M'.ids.trans M.ids
  silent event hmem := (List.mem_append.mp hmem).elim (M.silent event) (M'.silent event)

theorem Tended.moved_set (T : Tended firstExpected backfill assigned log buckets)
    {result : Bucket × List BucketEvent} (hi : buckets[i]? = some bucket)
    (F : Follows firstExpected backfill assigned (history bucket.id log) bucket result) :
    Moved firstExpected backfill assigned log buckets
      (buckets.set i result.1, result.2.map (.bucket bucket.id)) where
  tended := T.set hi F.id (fun _ hne => history_map_other hne.symm) (by
    rw [history_map_same]
    exact F.kept)
  ids := map_id_set hi F.id
  silent := by
    intro event hmem
    obtain ⟨e, he, rfl⟩ := List.mem_map.mp hmem
    exact F.silent e he

/-- An answer the subscriber asked for, with what was published. -/
structure Answer.Genuine (assigned : List Assigned) (log : List Event) (reply : Answer) : Prop where
  valid : reply.Valid
  asked : Asked (history reply.bucket log) reply.sequence
  published : ∀ msg ∈ reply.msg, ⟨reply.bucket, reply.sequence, msg⟩ ∈ assigned

theorem Answer.Genuine.mono {reply : Answer} (G : reply.Genuine assigned log) (new : List Assigned)
    (events : List Event) : reply.Genuine (assigned ++ new) (log ++ events) where
  valid := G.valid
  asked := by
    rw [history_append]
    exact asked_append.mpr (.inl G.asked)
  published msg hmsg := List.mem_append_left _ (G.published msg hmsg)

theorem Tended.moved_onAnswers (T : Tended firstExpected backfill assigned log buckets)
    {replies : List Answer} (h : ∀ reply ∈ replies, reply.Genuine assigned log) :
    Moved firstExpected backfill assigned log buckets (onAnswers buckets replies) := by
  induction replies generalizing log buckets with
  | nil => exact T.moved_nil
  | cons reply replies ih =>
    obtain ⟨hgenuine, hreplies⟩ := List.forall_mem_cons.mp h
    have M : Moved firstExpected backfill assigned log buckets
        (withBucket reply.bucket (·.onFrame reply.sequence reply.msg) buckets) := by
      rcases withBucket_cases reply.bucket (·.onFrame reply.sequence reply.msg) buckets with
        hnone | ⟨i, bucket, hi, hid, heq⟩
      · rw [hnone]
        exact T.moved_nil
      · rw [heq, ← hid]
        refine T.moved_set hi ((T.kept bucket (List.mem_of_getElem? hi)).follows_onFrame ?_ ?_)
        · rw [hid]
          exact hgenuine.asked
        · rw [hid]
          exact hgenuine.published
    refine M.trans (ih M.tended fun reply' hmem => ?_)
    have := (hreplies reply' hmem).mono []
      (withBucket reply.bucket (·.onFrame reply.sequence reply.msg) buckets).2
    rwa [List.append_nil] at this

/-! ## Requests -/

section
variable {subscriber subscriber' : Subscriber} {bucket' : Bucket} {input : NakInput}

theorem history_connected {id : Nat} : history id (connected subscriber input) = [] := by
  unfold connected
  split <;> rfl

theorem Asks.history_other (h : Asks subscriber bucket input (subscriber', bucket', events))
    {id : Nat} (hne : id ≠ bucket.id) : history id events = [] := by
  cases h with
  | waits => rfl
  | refused => rfl
  | failed => rw [history_append, history_connected]; rfl
  | written sequences =>
    rw [history_append, history_connected]
    exact history_other hne.symm

theorem Asks.kept {firstExpected backfill : Nat} {history : List BucketEvent}
    (h : Asks subscriber bucket input (subscriber', bucket', events))
    (K : Kept firstExpected backfill assigned history bucket) :
    Kept firstExpected backfill assigned (history ++ Subscriber.history bucket.id events)
      bucket' := by
  cases h with
  | waits => exact K.follows_nothing.kept
  | refused => exact K.follows_nothing.kept
  | failed =>
    rw [history_append, history_connected]
    exact K.follows_nothing.kept
  | written sequences hready hdue hpos =>
    rw [history_append, history_connected, List.nil_append, history_same]
    exact K.stamp hpos fun s hs => Bucket.mem_toRequest (hdue ▸ hs)

end

end Subscriber
end MegaFeed
