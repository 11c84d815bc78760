import MegaFeed.Model.Helpers

/-! # `iextp.h`: IEX-TP packets -/

namespace MegaFeed

structure IextpHeader where
  version : UInt8
  protocol : UInt16
  payloadLength : UInt16
  messageCount : UInt16
  channel : UInt32
  session : UInt32
  streamOffset : UInt64
  firstSequenceNumber : UInt64
  sendNs : UInt64
deriving DecidableEq

/-- `none` where the source returns false. -/
def iextpDecode (packet : Bytes) : Option IextpHeader :=
  if packet.length < 40 then
    none
  else
    let header : IextpHeader := {
      version := packet.byte 0
      protocol := getU16 (packet.drop 2)
      channel := getU32 (packet.drop 4)
      session := getU32 (packet.drop 8)
      payloadLength := getU16 (packet.drop 12)
      messageCount := getU16 (packet.drop 14)
      streamOffset := getU64 (packet.drop 16)
      firstSequenceNumber := getU64 (packet.drop 24)
      sendNs := getU64 (packet.drop 32) }
    if header.version = 1 then some header else none

/-- The part of a packet a callback is given. -/
structure Slice where
  offset : Nat
  length : Nat
deriving DecidableEq

def Slice.of (slice : Slice) (packet : Bytes) : Bytes :=
  (packet.drop slice.offset).take slice.length

/-- The loop of `iextp_for_each_message` with `count` rounds to go. -/
def iextpWalk (packet : Bytes) (stop : Nat) : (count offset : Nat) → List Slice
  | 0, _ => []
  | count + 1, offset =>
    if offset + 2 ≤ stop then
      let messageLength := (getU16 (packet.drop offset)).toNat
      let offset := offset + 2
      if offset + messageLength > stop then []
      else ⟨offset, messageLength⟩ :: iextpWalk packet stop count (offset + messageLength)
    else []

/-- The slices `callback` is called with, in order. -/
def iextpForEachMessage (packet : Bytes) (header : IextpHeader) : List Slice :=
  iextpWalk packet (min packet.length (header.payloadLength.toNat + 40))
    header.messageCount.toNat 40

end MegaFeed
