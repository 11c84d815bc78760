import MegaFeed.Theory.OrdMap
import MegaFeed.Model.Helpers

/-! # `deepplus.h`: the DEEP+ decoder and its aggregated levels

`levels` is a variable at namespace scope in the source, written by the one decoder of the program;
here it is a field of that decoder. A level total is an `int64_t` there and an `Int` here: signed
overflow is undefined in the source, so only runs without it are modelled. -/

namespace MegaFeed
open Std

/-- The length `copy_symbol` leaves: trailing spaces and NULs are dropped. -/
def symbolLength (bytes : Bytes) : Nat → Nat
  | 0 => 0
  | length + 1 =>
    if bytes.byte length = ascii ' ' ∨ bytes.byte length = 0 then symbolLength bytes length
    else length + 1

/-- `copy_symbol` into a zeroed array. -/
def copySymbol (bytes : Bytes) : Vector UInt8 9 :=
  let length := symbolLength bytes 8
  Vector.ofFn fun i => if i.val < length then bytes.byte i.val else 0

inductive Side
  | bid
  | ask
deriving DecidableEq

structure Level where
  bids : ExtTreeMap Int64 Int := ∅
  asks : ExtTreeMap Int64 Int := ∅

namespace Level

/-- `side[order.side]` -/
def side (level : Level) : Side → ExtTreeMap Int64 Int
  | .bid => level.bids
  | .ask => level.asks

def setSide (level : Level) (sizes : ExtTreeMap Int64 Int) : Side → Level
  | .bid => { level with bids := sizes }
  | .ask => { level with asks := sizes }

end Level

abbrev Levels := ExtTreeMap Bytes Level

namespace DeepPlusDecoder

structure Order where
  symbol : Vector UInt8 9
  price : Int64
  size : UInt32
  side : Side
deriving DecidableEq

end DeepPlusDecoder

structure DeepPlusDecoder where
  orders : ExtTreeMap UInt64 DeepPlusDecoder.Order := ∅
  unknownReferences : Nat := 0
  levels : Levels := ∅

namespace DeepPlusDecoder

/-- The changed levels and the update written to `out[count++]`. -/
def addLevel (levels : Levels) (order : Order) (delta : Int) (timestamp : UInt64) :
    Levels × OrderMessage :=
  let level := levels.getD (cString order.symbol) {}
  let sizes := level.side order.side
  let newTotal := sizes.getD order.price 0 + delta
  let (sizes, newTotal) :=
    if newTotal ≤ 0 then (sizes.erase order.price, 0)
    else (sizes.insert order.price newTotal, newTotal)
  (levels.insert (cString order.symbol) (level.setSide sizes order.side),
   { type := match order.side with
       | .ask => ascii 'S'
       | .bid => ascii 'B'
     symbol := order.symbol
     price := order.price
     size := UInt32.ofInt newTotal
     timestamp })

def ORDER_ADD : UInt8 := 0x61
def SIDE_BUY : UInt8 := 0x38
def SIDE_SELL : UInt8 := 0x35

/-- The second component is `out[0..count)`. -/
def decode (decoder : DeepPlusDecoder) (bytes : Bytes) : DeepPlusDecoder × List OrderMessage :=
  let length := bytes.length
  if length < 26 then
    (decoder, [])
  else
    let timestamp := getU64 (bytes.drop 2)
    if bytes.byte 0 = ORDER_ADD ∧ length ≥ 38 ∧
        (bytes.byte 1 = SIDE_BUY ∨ bytes.byte 1 = SIDE_SELL) then
      let order : Order := {
        side := if bytes.byte 1 = SIDE_SELL then .ask else .bid
        symbol := copySymbol (bytes.drop 10)
        size := getU32 (bytes.drop 26)
        price := (getU64 (bytes.drop 30)).toInt64 }
      let orderID := getU64 (bytes.drop 18)
      let (levels, update) := addLevel decoder.levels order order.size.toNat timestamp
      ({ decoder with orders := decoder.orders.insert orderID order, levels }, [update])
    else if bytes.byte 0 = 0x52 ∧ length ≥ 26 then
      let orderID := getU64 (bytes.drop 18)
      match decoder.orders[orderID]? with
      | none => ({ decoder with unknownReferences := decoder.unknownReferences + 1 }, [])
      | some order =>
        let (levels, update) := addLevel decoder.levels order (-order.size.toNat) timestamp
        ({ decoder with orders := decoder.orders.erase orderID, levels }, [update])
    else if bytes.byte 0 = 0x4d ∧ length ≥ 38 then
      let orderID := getU64 (bytes.drop 18)
      match decoder.orders[orderID]? with
      | none => ({ decoder with unknownReferences := decoder.unknownReferences + 1 }, [])
      | some order =>
        let newSize := getU32 (bytes.drop 26)
        let newPrice := (getU64 (bytes.drop 30)).toInt64
        if newPrice = order.price then
          let (levels, update) :=
            addLevel decoder.levels order ((newSize.toNat : Int) - order.size.toNat) timestamp
          let order := { order with size := newSize }
          ({ decoder with orders := decoder.orders.insert orderID order, levels }, [update])
        else
          let (levels, left) := addLevel decoder.levels order (-order.size.toNat) timestamp
          let order := { order with price := newPrice }
          let (levels, joined) := addLevel levels order newSize.toNat timestamp
          let order := { order with size := newSize }
          ({ decoder with orders := decoder.orders.insert orderID order, levels }, [left, joined])
    else if bytes.byte 0 = 0x4c ∧ length ≥ 46 then
      let orderID := getU64 (bytes.drop 18)
      match decoder.orders[orderID]? with
      | none => ({ decoder with unknownReferences := decoder.unknownReferences + 1 }, [])
      | some order =>
        let executed := getU32 (bytes.drop 26)
        let (levels, update) := addLevel decoder.levels order (-executed.toNat) timestamp
        let trade : OrderMessage := {
          type := ascii 'T'
          symbol := order.symbol
          price := (getU64 (bytes.drop 30)).toInt64
          size := executed
          timestamp }
        let orders :=
          if executed ≥ order.size then decoder.orders.erase orderID
          else decoder.orders.insert orderID { order with size := order.size - executed }
        ({ decoder with orders, levels }, [update, trade])
    else if bytes.byte 0 = 0x54 ∧ length ≥ 38 then
      let trade : OrderMessage := {
        type := ascii 'T'
        symbol := copySymbol (bytes.drop 10)
        size := getU32 (bytes.drop 18)
        price := (getU64 (bytes.drop 22)).toInt64
        timestamp }
      (decoder, [trade])
    else
      (decoder, [])

end DeepPlusDecoder
end MegaFeed
