import Mathlib

/-! # `helpers.h`: wire integers, `OrderMessage`, datagrams, hashes

Memory the source reads through a pointer is a `Bytes`; `bytes + k` is `bytes.drop k`. A write
through a pointer into a buffer is `Bytes.write`. Words keep the source's widths. -/

namespace MegaFeed

abbrev Bytes := List UInt8

namespace Bytes

/-- `bytes[i]` -/
def byte (bytes : Bytes) (i : Nat) : UInt8 := bytes.getD i 0

/-- The buffer after `memcpy(bytes + offset, data, data.length)`. -/
def write (bytes : Bytes) (offset : Nat) (data : Bytes) : Bytes :=
  bytes.take offset ++ data ++ bytes.drop (offset + data.length)

end Bytes

/-! ## Little-endian words

`putU16 value` is what `put_u16` stores in the two bytes it is pointed at, and likewise for the
wider ones. -/

def putU16 (value : UInt16) : Bytes := [value.toUInt8, (value >>> 8).toUInt8]

def putU32 (value : UInt32) : Bytes :=
  [value.toUInt8, (value >>> 8).toUInt8, (value >>> 16).toUInt8, (value >>> 24).toUInt8]

def putU64 (value : UInt64) : Bytes :=
  [value.toUInt8, (value >>> 8).toUInt8, (value >>> 16).toUInt8, (value >>> 24).toUInt8,
   (value >>> 32).toUInt8, (value >>> 40).toUInt8, (value >>> 48).toUInt8, (value >>> 56).toUInt8]

def getU16 (bytes : Bytes) : UInt16 :=
  (bytes.byte 0).toUInt16 ||| (bytes.byte 1).toUInt16 <<< 8

def getU32 (bytes : Bytes) : UInt32 :=
  (bytes.byte 0).toUInt32 ||| (bytes.byte 1).toUInt32 <<< 8 |||
  (bytes.byte 2).toUInt32 <<< 16 ||| (bytes.byte 3).toUInt32 <<< 24

def getU64 (bytes : Bytes) : UInt64 :=
  (bytes.byte 0).toUInt64 ||| (bytes.byte 1).toUInt64 <<< 8 |||
  (bytes.byte 2).toUInt64 <<< 16 ||| (bytes.byte 3).toUInt64 <<< 24 |||
  (bytes.byte 4).toUInt64 <<< 32 ||| (bytes.byte 5).toUInt64 <<< 40 |||
  (bytes.byte 6).toUInt64 <<< 48 ||| (bytes.byte 7).toUInt64 <<< 56

/-! ## `OrderMessage` -/

/-- A character constant of the source. -/
def ascii (c : Char) : UInt8 := c.val.toUInt8

structure OrderMessage where
  type : UInt8 := 0
  symbol : Vector UInt8 9 := Vector.replicate 9 0
  price : Int64 := 0
  size : UInt32 := 0
  timestamp : UInt64 := 0
deriving DecidableEq

/-- The symbol ends in NUL, as a C string in a `char[9]` does. -/
def OrderMessage.Terminated (msg : OrderMessage) : Prop := msg.symbol[8] = 0

instance {msg : OrderMessage} : Decidable msg.Terminated := inferInstanceAs (Decidable (_ = _))

/-- The C string a `char` array holds: its bytes up to the first NUL. -/
def cString (chars : Vector UInt8 9) : Bytes := chars.toList.takeWhile (· ≠ 0)

def ORDER_MESSAGE_SIZE : Nat := 1 + 8 + 8 + 4 + 8
def HDR_BYTES : Nat := 16
def MAGIC : UInt32 := 0x4d464844
def MAX_REPAIR_BATCH : Nat := 512

def OrderMessage.encode (bytes : Bytes) (msg : OrderMessage) : Bytes :=
  let bytes := bytes.write 0 [msg.type]
  let bytes := bytes.write 1 (msg.symbol.toList.take 8)
  let bytes := bytes.write 9 (putU64 msg.price.toUInt64)
  let bytes := bytes.write 17 (putU32 msg.size)
  bytes.write 21 (putU64 msg.timestamp)

def OrderMessage.decode (bytes : Bytes) : OrderMessage where
  type := bytes.byte 0
  symbol := Vector.ofFn fun i => if i.val < 8 then bytes.byte (1 + i.val) else 0
  price := (getU64 (bytes.drop 9)).toInt64
  size := getU32 (bytes.drop 17)
  timestamp := getU64 (bytes.drop 21)

/-! ## Datagrams -/

def dgramEncode (bytes : Bytes) (bucket : UInt16) (sequence : UInt64) (msgBytes : Bytes) : Bytes :=
  let bytes := bytes.write 0 (putU32 MAGIC)
  let bytes := bytes.write 4 (putU16 bucket)
  let bytes := bytes.write 6 (putU64 sequence)
  let bytes := bytes.write 14 (putU16 (UInt16.ofNat ORDER_MESSAGE_SIZE))
  bytes.write HDR_BYTES (msgBytes.take ORDER_MESSAGE_SIZE)

structure Dgram where
  bucket : UInt16
  sequence : UInt64
  message : OrderMessage
deriving DecidableEq

/-- `none` where the source returns false. -/
def dgramDecode (bytes : Bytes) : Option Dgram :=
  if bytes.length < HDR_BYTES + ORDER_MESSAGE_SIZE ∨ getU32 bytes ≠ MAGIC then
    none
  else if getU16 (bytes.drop 14) ≠ UInt16.ofNat ORDER_MESSAGE_SIZE then
    none
  else
    some {
      bucket := getU16 (bytes.drop 4)
      sequence := getU64 (bytes.drop 6)
      message := OrderMessage.decode (bytes.drop HDR_BYTES) }

/-! ## Hashes -/

def fnv1a (data : Bytes) : UInt64 :=
  data.foldl (fun hash byte => (hash ^^^ byte.toUInt64) * 1099511628211) 1469598103934665603

/-- `bucket_of(symbol, bucket_count)`; the `strlen` is `cString`'s. -/
def bucketOf (symbol : Bytes) (bucketCount : Nat) : Nat := (fnv1a symbol).toNat % bucketCount

structure Fingerprint where
  hash : UInt64 := 6942098103934665603
deriving DecidableEq

def Fingerprint.mix (fingerprint : Fingerprint) (value : UInt64) : Fingerprint where
  hash := (List.range 8).foldl
    (fun hash i => (hash ^^^ ((value >>> UInt64.ofNat (8 * i)) &&& 0xff)) * 1099511628211)
    fingerprint.hash

end MegaFeed
