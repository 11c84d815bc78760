import MegaFeed.Model.Book
import MegaFeed.Model.Subscriber

/-! # `visualizer.cpp`: a consumer that watches one symbol

`main` runs a subscriber of one bucket, and `draw` prints a ladder. The report of a crossed book and
the format of what is printed are left out; so are the counters at the head of a ladder, but for
those at the end. -/

namespace MegaFeed

structure Visualizer where
  /-- `WATCH_SYMBOL` -/
  symbol : Bytes
  book : Book := {}
  lastTrade : OrderMessage := {}

namespace Visualizer

/-- The one bucket it joins: `bucket_of(symbol.c_str(), bucket_count)`. -/
def bucketId (visualizer : Visualizer) (bucketCount : Nat) : Nat :=
  bucketOf (visualizer.symbol.takeWhile (· ≠ 0)) bucketCount

/-- `symbol == msg.symbol`, a string against the C string in the message. -/
def watches (visualizer : Visualizer) (msg : OrderMessage) : Bool :=
  visualizer.symbol = cString msg.symbol

/-- The callback of `main`. -/
def onOrderMessage (visualizer : Visualizer) (msg : OrderMessage) : Visualizer :=
  if ¬visualizer.watches msg then visualizer
  else
    let visualizer := { visualizer with book := (visualizer.book.apply msg).1 }
    if msg.type = ascii 'T' then { visualizer with lastTrade := msg } else visualizer

/-! ## `draw` -/

/-- A line of the ladder; `bar` is how many `#` it has. -/
structure Row where
  price : Int64
  size : UInt32
  bar : Nat
deriving DecidableEq

def bar (size : UInt32) : Nat := (min (size / 150) 40).toNat

def row (level : Int64 × UInt32) : Row := ⟨level.1, level.2, bar level.2⟩

structure Ladder where
  /-- Worst first, so that the two best prices meet in the middle. -/
  asks : List Row
  /-- `none` is "(one-sided)". -/
  spread : Option Int64
  bids : List Row
  lastTrade : Option (UInt32 × Int64)
deriving DecidableEq

def draw (visualizer : Visualizer) : Ladder :=
  let askLevels := visualizer.book.asks.toList.take 8
  let quote := visualizer.book.bbo
  { asks := askLevels.reverse.map row
    spread :=
      if quote.bidPrice ≠ 0 ∧ quote.askPrice ≠ 0 then some (quote.askPrice - quote.bidPrice)
      else none
    bids := (visualizer.book.bids.toList.take 8).map row
    lastTrade :=
      if visualizer.lastTrade.type = ascii 'T' then
        some (visualizer.lastTrade.size, visualizer.lastTrade.price)
      else none }

end Visualizer

/-! ## `main` -/

structure Showing where
  visualizer : Visualizer
  lastDraw : UInt64 := 0
  drawn : List (UInt64 × Visualizer.Ladder) := []

namespace Showing
open Subscriber

/-- The callback; it reads the clock once for each message it watches. -/
def onOrderMessage (showing : Showing) (msg : OrderMessage) (now : UInt64) : Showing :=
  if ¬showing.visualizer.watches msg then showing
  else
    let visualizer := showing.visualizer.onOrderMessage msg
    if now - showing.lastDraw > 100000000 then
      { visualizer, lastDraw := now, drawn := showing.drawn ++ [(now, visualizer.draw)] }
    else { showing with visualizer }

/-- What `main` has done when it returns, or so far. -/
structure Result where
  showing : Showing
  /-- What `run` returned; `none` if it is still going. -/
  ended : Option Bool
  last : Visualizer.Ladder
  stats : SubscriberStats

def handed (events : List Event) : List OrderMessage :=
  events.filterMap fun
    | .bucket _ (.delivered _ msg) => some msg
    | _ => none

/-- `main`: `rounds` is what `run` meets, `clock i` the reading for the `i`-th message handed over.
The callback leaves the subscriber alone, so it is run behind it. -/
def main (symbol : Bytes) (bucketCount : Nat) (backfill started : UInt64) (rounds : List Round)
    (clock : Nat → UInt64) : Result :=
  let visualizer : Visualizer := { symbol }
  let subscriber := Subscriber.init [visualizer.bucketId bucketCount] 0 backfill
  let (driven, ended) := Driven.loop started { subscriber } rounds
  let showing := (handed driven.events).zipIdx.foldl
    (fun showing entry => showing.onOrderMessage entry.1 (clock entry.2)) { visualizer }
  { showing, ended, last := showing.visualizer.draw, stats := driven.subscriber.stats }

end Showing
end MegaFeed
