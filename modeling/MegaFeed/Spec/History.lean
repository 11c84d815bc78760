import MegaFeed.Model.Subscriber

/-! # What a log says about one bucket -/

namespace MegaFeed
namespace Subscriber

/-- The events of one bucket. -/
def history (id : Nat) (log : List Event) : List BucketEvent :=
  log.filterMap fun
    | .bucket id' event => if id' = id then some event else none
    | _ => none

/-- The sequence numbers of the datagrams received, oldest first. -/
def arrived (history : List BucketEvent) : List Nat :=
  history.filterMap fun
    | .arrived sequence => some sequence
    | _ => none

/-- The highest sequence number received by a bucket that starts at `S`, `S - 1` before
the first. -/
def highest (S : Nat) (history : List BucketEvent) : Nat := (arrived history).foldl max (S - 1)

/-- What became of a sequence number that was passed. -/
inductive Outcome
  | delivered (msg : OrderMessage)
  | unrecoverable
  | ended
deriving DecidableEq

def BucketEvent.outcome : BucketEvent → Option (Nat × Outcome)
  | .delivered sequence msg => some (sequence, .delivered msg)
  | .unrecoverable sequence => some (sequence, .unrecoverable)
  | .ended sequence => some (sequence, .ended)
  | _ => none

/-- The sequence numbers passed and what became of them, in order. -/
def outcomes (history : List BucketEvent) : List (Nat × Outcome) := history.filterMap (·.outcome)

/-- The messages handed to the callback, in order. -/
def delivered (history : List BucketEvent) : List (Nat × OrderMessage) :=
  history.filterMap fun
    | .delivered sequence msg => some (sequence, msg)
    | _ => none

/-- A completely written request named the sequence number. -/
def Asked (history : List BucketEvent) (sequence : Nat) : Prop :=
  ∃ sequences now, .requested sequences now ∈ history ∧ sequence ∈ sequences

/-- Where a bucket starts, once it does: at `firstExpected`, or at the first sequence number that
arrives, rewound by `backfill`. -/
def start (firstExpected backfill : Nat) (history : List BucketEvent) : Option Nat :=
  if firstExpected > 0 then some firstExpected
  else (arrived history).head?.map (Bucket.startAt backfill)

end Subscriber
end MegaFeed
