import MegaFeed.Theory.Reads
import MegaFeed.Model.FeedHandler

/-! # `iextp.h`, `deepplus.h`, `feedhandler.cpp`: accesses to the venue's bytes

The functions of `Model.Iextp`, `Model.DeepPlus` and `Model.FeedHandler` once more, with each access
they make through a pointer. A pointer and the length that is passed with it are a `Span`. Its
`part` is `packet + offset` with a length of its own. `OrderMessage out[2]` is the list of what has
been written to it. -/

namespace MegaFeed
namespace Accesses
open Std

def readByte (bytes : Span UInt8) (offset : Nat) : Reads UInt8 :=
  return Bytes.byte (← bytes.read offset 1) 0

/-- `get_u16(bytes + offset)` -/
def readU16 (bytes : Span UInt8) (offset : Nat) : Reads UInt16 :=
  return getU16 (← bytes.read offset 2)

def readU32 (bytes : Span UInt8) (offset : Nat) : Reads UInt32 :=
  return getU32 (← bytes.read offset 4)

def readU64 (bytes : Span UInt8) (offset : Nat) : Reads UInt64 :=
  return getU64 (← bytes.read offset 8)

/-! ## `iextp.h` -/

def iextpDecode (packet : Span UInt8) : Reads (Option IextpHeader) :=
  if packet.length < 40 then
    return none
  else do
    let header : IextpHeader := {
      version := ← readByte packet 0
      protocol := ← readU16 packet 2
      channel := ← readU32 packet 4
      session := ← readU32 packet 8
      payloadLength := ← readU16 packet 12
      messageCount := ← readU16 packet 14
      streamOffset := ← readU64 packet 16
      firstSequenceNumber := ← readU64 packet 24
      sendNs := ← readU64 packet 32 }
    return if header.version = 1 then some header else none

section
variable {σ : Type} (packet : Span UInt8) (callback : σ → Span UInt8 → Reads σ)

/-- The loop of `iextp_for_each_message` with `count` rounds to go; `state` is what `callback` works
on. No sum wraps: `stop` is at most 65575. -/
def iextpWalk (stop : Nat) : (count offset : Nat) → (state : σ) → Reads σ
  | 0, _, state => return state
  | count + 1, offset, state =>
    if offset + 2 ≤ stop then do
      let messageLength := (← readU16 packet offset).toNat
      let offset := offset + 2
      if offset + messageLength > stop then
        return state
      else
        let state ← callback state (packet.part offset messageLength)
        iextpWalk stop count (offset + messageLength) state
    else
      return state

def iextpForEachMessage (header : IextpHeader) (state : σ) : Reads σ :=
  iextpWalk packet callback (min packet.length (header.payloadLength.toNat + 40))
    header.messageCount.toNat 40 state

end

/-! ## `deepplus.h` -/

def symbolLength (bytes : Span UInt8) (offset : Nat) : Nat → Reads Nat
  | 0 => return 0
  | length + 1 => do
    let last ← readByte bytes (offset + length)
    if last = ascii ' ' ∨ last = 0 then symbolLength bytes offset length else return length + 1

/-- `copy_symbol(destination, bytes + offset)` into a zeroed array. -/
def copySymbol (bytes : Span UInt8) (offset : Nat) : Reads (Vector UInt8 9) := do
  let length ← symbolLength bytes offset 8
  let symbol ← bytes.read offset length
  return Vector.ofFn fun i => if i.val < length then Bytes.byte symbol i.val else 0

/-- `out[count++] = update` -/
def write (out : List OrderMessage) (update : OrderMessage) : Reads (List OrderMessage) where
  value := out ++ [update]
  inside := out.length < 2

def addLevel (levels : Levels) (out : List OrderMessage) (order : DeepPlusDecoder.Order)
    (delta : Int) (timestamp : UInt64) : Reads (Levels × List OrderMessage) := do
  let (levels, update) := DeepPlusDecoder.addLevel levels order delta timestamp
  return (levels, ← write out update)

section
variable (decoder : DeepPlusDecoder) (bytes : Span UInt8) (timestamp : UInt64)

/-- The condition of the first branch: `bytes[1]` is looked at last. -/
def isOrderAdd : Reads Bool := do
  if (← readByte bytes 0) = DeepPlusDecoder.ORDER_ADD ∧ bytes.length ≥ 38 then
    let side ← readByte bytes 1
    return side = DeepPlusDecoder.SIDE_BUY ∨ side = DeepPlusDecoder.SIDE_SELL
  else
    return false

def orderAdd : Reads (DeepPlusDecoder × List OrderMessage) := do
  let order : DeepPlusDecoder.Order := {
    side := if (← readByte bytes 1) = DeepPlusDecoder.SIDE_SELL then .ask else .bid
    symbol := ← copySymbol bytes 10
    size := ← readU32 bytes 26
    price := (← readU64 bytes 30).toInt64 }
  let orderID ← readU64 bytes 18
  let (levels, out) ← addLevel decoder.levels [] order order.size.toNat timestamp
  return ({ decoder with orders := decoder.orders.insert orderID order, levels }, out)

/-- `orders.find` and what follows it: the branch is left if the order is not known. -/
def withOrder
    (found : UInt64 → DeepPlusDecoder.Order → Reads (DeepPlusDecoder × List OrderMessage)) :
    Reads (DeepPlusDecoder × List OrderMessage) := do
  let orderID ← readU64 bytes 18
  match decoder.orders[orderID]? with
  | none => return ({ decoder with unknownReferences := decoder.unknownReferences + 1 }, [])
  | some order => found orderID order

def orderDelete : Reads (DeepPlusDecoder × List OrderMessage) :=
  withOrder decoder bytes fun orderID order => do
    let (levels, out) ← addLevel decoder.levels [] order (-order.size.toNat) timestamp
    return ({ decoder with orders := decoder.orders.erase orderID, levels }, out)

def orderModify : Reads (DeepPlusDecoder × List OrderMessage) :=
  withOrder decoder bytes fun orderID order => do
    let newSize ← readU32 bytes 26
    let newPrice := (← readU64 bytes 30).toInt64
    if newPrice = order.price then
      let (levels, out) ←
        addLevel decoder.levels [] order ((newSize.toNat : Int) - order.size.toNat) timestamp
      let order := { order with size := newSize }
      return ({ decoder with orders := decoder.orders.insert orderID order, levels }, out)
    else
      let (levels, out) ← addLevel decoder.levels [] order (-order.size.toNat) timestamp
      let order := { order with price := newPrice }
      let (levels, out) ← addLevel levels out order newSize.toNat timestamp
      let order := { order with size := newSize }
      return ({ decoder with orders := decoder.orders.insert orderID order, levels }, out)

def orderExecuted : Reads (DeepPlusDecoder × List OrderMessage) :=
  withOrder decoder bytes fun orderID order => do
    let executed ← readU32 bytes 26
    let (levels, out) ← addLevel decoder.levels [] order (-executed.toNat) timestamp
    let trade : OrderMessage := {
      type := ascii 'T'
      symbol := order.symbol
      price := (← readU64 bytes 30).toInt64
      size := executed
      timestamp }
    let out ← write out trade
    let orders :=
      if executed ≥ order.size then decoder.orders.erase orderID
      else decoder.orders.insert orderID { order with size := order.size - executed }
    return ({ decoder with orders, levels }, out)

def tradeReport : Reads (DeepPlusDecoder × List OrderMessage) := do
  let trade : OrderMessage := {
    type := ascii 'T'
    symbol := ← copySymbol bytes 10
    size := ← readU32 bytes 18
    price := (← readU64 bytes 22).toInt64
    timestamp }
  return (decoder, ← write [] trade)

def decode : Reads (DeepPlusDecoder × List OrderMessage) :=
  if bytes.length < 26 then
    return (decoder, [])
  else do
    let timestamp ← readU64 bytes 2
    if ← isOrderAdd bytes then
      orderAdd decoder bytes timestamp
    else
      let type ← readByte bytes 0
      if type = 0x52 ∧ bytes.length ≥ 26 then
        orderDelete decoder bytes timestamp
      else if type = 0x4d ∧ bytes.length ≥ 38 then
        orderModify decoder bytes timestamp
      else if type = 0x4c ∧ bytes.length ≥ 46 then
        orderExecuted decoder bytes timestamp
      else if type = 0x54 ∧ bytes.length ≥ 38 then
        tradeReport decoder bytes timestamp
      else
        return (decoder, [])

end

/-! ## `feedhandler.cpp` -/

/-- A call of `decode`: where the message lies in the payload, and what `out` holds afterwards. -/
structure Handed where
  slice : Slice
  out : List OrderMessage

/-- What the callback of `on_payload` works on, and what it leaves behind. -/
structure Handling (bucketCount ringSize : Nat) where
  handler : FeedHandler bucketCount ringSize
  skip : UInt64 := 0
  handed : List Handed := []
  published : FeedPublisher.Output := {}

variable {bucketCount ringSize : Nat} [NeZero bucketCount] [NeZero ringSize]

/-- The callback of `on_payload`. -/
def onMessage (state : Handling bucketCount ringSize) (message : Span UInt8) :
    Reads (Handling bucketCount ringSize) :=
  if state.skip ≠ 0 then
    return { state with skip := state.skip - 1 }
  else do
    let (decoder, out) ← decode state.handler.decoder message
    let (publisher, output) := state.handler.publisher.run (out.map .publish)
    let published := state.handler.published + out.length
    return { state with
      handler := { state.handler with decoder, publisher, published }
      handed := state.handed ++ [⟨⟨message.offset, message.length⟩, out⟩]
      published := state.published ++ output }

def onPayload (handler : FeedHandler bucketCount ringSize) (payload : Span UInt8) :
    Reads (Handling bucketCount ringSize) := do
  match ← iextpDecode payload with
  | none => return { handler }
  | some header =>
    if header.protocol ≠ 0x8005 then
      return { handler := { handler with warnedProtocol := true } }
    else if header.messageCount = 0 then
      return { handler }
    else
      let first := header.firstSequenceNumber
      let captureGaps :=
        if handler.expected ≠ 0 ∧ first > handler.expected then
          handler.captureGaps + (first - handler.expected)
        else handler.captureGaps
      let skip :=
        if handler.expected ≠ 0 ∧ first < handler.expected then handler.expected - first else 0
      let state ← iextpForEachMessage payload onMessage header
        { handler := { handler with captureGaps }, skip }
      let next := first + header.messageCount.toUInt64
      let expected := if next > state.handler.expected then next else state.handler.expected
      return { state with handler := { state.handler with expected } }

end Accesses
end MegaFeed
