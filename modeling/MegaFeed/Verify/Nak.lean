import MegaFeed.Verify.Account

/-! # What `nak` does

`nak` gives up the expired holes and then either does nothing, fails to reach the server, or writes
one request and stamps the holes it names (`Asks`). -/

namespace MegaFeed
namespace Subscriber

variable {subscriber : Subscriber} {bucket : Bucket} {input : NakInput}

/-- The `connect` of a `nak` that finds no connection. -/
def connected (subscriber : Subscriber) (input : NakInput) : List Event :=
  if subscriber.repairOpen then [] else [.connect true input.now]

/-- What `nak` does after the expiry loop. -/
inductive Asks (subscriber : Subscriber) (bucket : Bucket) (input : NakInput) :
    Subscriber × Bucket × List Event → Prop
  | waits : Asks subscriber bucket input (subscriber, bucket, [])
  | refused (hclosed : subscriber.repairOpen = false)
    (hready : subscriber.repairBlockedUntil ≤ input.now) :
    Asks subscriber bucket input
      ({ subscriber with repairBlockedUntil := input.now + subscriber.repairRetryNs }, bucket,
        [.connect false input.now])
  | failed (hready : subscriber.repairOpen = false → subscriber.repairBlockedUntil ≤ input.now)
    (hpos : 1 ≤ (bucket.toRequest input.now subscriber.nakDelayNs subscriber.nakRepeatNs).length) :
    Asks subscriber bucket input
      ({ subscriber.resetRepair with repairBlockedUntil := input.now + subscriber.repairRetryNs },
        bucket, connected subscriber input ++ [.writeFailed input.now])
  | written (sequences : List Nat)
    (hready : subscriber.repairOpen = false → subscriber.repairBlockedUntil ≤ input.now)
    (hdue : sequences = bucket.toRequest input.now subscriber.nakDelayNs subscriber.nakRepeatNs)
    (hpos : 1 ≤ sequences.length) :
    Asks subscriber bucket input
      ({ subscriber with repairOpen := true }, bucket.stamp sequences input.now,
        connected subscriber input ++ [.bucket bucket.id (.requested sequences input.now)])

theorem ask_asks (subscriber : Subscriber) (bucket : Bucket) (input : NakInput) :
    Asks subscriber bucket input (subscriber.ask bucket input) := by
  unfold ask
  dsimp only
  split
  · exact .waits
  split
  · exact .waits
  next hblocked =>
  have hready : subscriber.repairOpen = false → subscriber.repairBlockedUntil ≤ input.now := by
    intro hclosed
    refine UInt64.not_lt.mp fun hlt => hblocked ⟨?_, hlt⟩
    rw [hclosed]
    exact Bool.false_ne_true
  split
  · exact .waits
  next hsome =>
  have hpos :
      1 ≤ (bucket.toRequest input.now subscriber.nakDelayNs subscriber.nakRepeatNs).length :=
    List.length_pos_of_ne_nil fun hnil => hsome (List.isEmpty_iff.mpr hnil)
  split
  · next hrefused =>
    have hclosed := Bool.eq_false_iff.mpr hrefused.1
    exact .refused hclosed (hready hclosed)
  split
  · exact .failed hready hpos
  · exact .written _ hready rfl hpos

theorem Bucket.length_toRequest {now nakDelayNs nakRepeatNs : UInt64} :
    (bucket.toRequest now nakDelayNs nakRepeatNs).length ≤ MAX_REPAIR_BATCH := by
  rw [toRequest, List.length_map]
  exact List.length_take_le ..

theorem Asks.id_eq {subscriber' : Subscriber} {bucket' : Bucket} {events : List Event}
    (h : Asks subscriber bucket input (subscriber', bucket', events)) : bucket'.id = bucket.id := by
  cases h <;> rfl

theorem Asks.subscriber_eq {subscriber' : Subscriber} {bucket' : Bucket} {events : List Event}
    (h : Asks subscriber bucket input (subscriber', bucket', events)) :
    subscriber'.buckets = subscriber.buckets ∧ subscriber'.backfill = subscriber.backfill ∧
      subscriber'.giveupNs = subscriber.giveupNs := by
  cases h <;> exact ⟨rfl, rfl, rfl⟩

/-- `nak` looks at nothing without holes; otherwise it gives up and asks. -/
theorem nak_cases (subscriber : Subscriber) (bucket : Bucket) (input : NakInput) :
    bucket.holes.isEmpty = true ∧ subscriber.nak bucket input = (subscriber, bucket, []) ∨
    bucket.holes.isEmpty = false ∧ ∃ subscriber' bucket' events,
      Asks subscriber (bucket.expire input.now subscriber.giveupNs).1 input
        (subscriber', bucket', events) ∧
      subscriber.nak bucket input = (subscriber', bucket',
        (bucket.expire input.now subscriber.giveupNs).2.map (.bucket bucket.id) ++ events) := by
  cases hholes : bucket.holes.isEmpty with
  | true => exact .inl ⟨rfl, by rw [nak, hholes]; rfl⟩
  | false =>
    have hasks := ask_asks subscriber (bucket.expire input.now subscriber.giveupNs).1 input
    have hid : (subscriber.ask (bucket.expire input.now subscriber.giveupNs).1 input).2.1.id =
      bucket.id := hasks.id_eq
    refine .inr ⟨rfl, (subscriber.ask (bucket.expire input.now subscriber.giveupNs).1 input).1,
      (subscriber.ask (bucket.expire input.now subscriber.giveupNs).1 input).2.1,
      (subscriber.ask (bucket.expire input.now subscriber.giveupNs).1 input).2.2, hasks, ?_⟩
    rw [nak, hholes, if_neg Bool.false_ne_true, ← hid]

/-- Asking stamps holes and changes nothing else about them. -/
theorem Asks.holes {subscriber' : Subscriber} {bucket' : Bucket} {events : List Event}
    (h : Asks subscriber bucket input (subscriber', bucket', events)) (s : Nat) :
    bucket'.holes[s]?.map (·.noticed) = bucket.holes[s]?.map (·.noticed) := by
  cases h with
  | waits => rfl
  | refused => rfl
  | failed => rfl
  | written sequences =>
    rw [Bucket.getElem?_stamp_holes]
    split
    · rw [Option.map_map]
      rfl
    · rfl

end Subscriber
end MegaFeed
