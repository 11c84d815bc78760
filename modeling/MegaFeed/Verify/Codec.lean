import MegaFeed.Verify.Helpers

/-! # The datagram codec is inverse both ways

`dgramDecode` accepts exactly the strings that begin with the 45 bytes of a datagram
(`isSome_dgramDecode_iff`), and what it reads is what was written, field by field and byte by byte
(`codec_round_trip`). -/

namespace MegaFeed

variable {bytes : Bytes} {datagram : Dgram}

theorem getU32_eq_iff {value : UInt32} (h : 4 ≤ bytes.length) :
    getU32 bytes = value ↔ bytes.take 4 = putU32 value := by
  constructor
  · rintro rfl
    exact (putU32_getU32 h).symm
  · intro heq
    rw [← List.take_append_drop 4 bytes, heq, getU32_putU32]

theorem getU16_eq_iff {value : UInt16} (h : 2 ≤ bytes.length) :
    getU16 bytes = value ↔ bytes.take 2 = putU16 value := by
  constructor
  · rintro rfl
    exact (putU16_getU16 h).symm
  · intro heq
    rw [← List.take_append_drop 2 bytes, heq, getU16_putU16]

/-- What is accepted, and what it is read as. -/
theorem dgramDecode_eq_some_iff : dgramDecode bytes = some datagram ↔
    HDR_BYTES + ORDER_MESSAGE_SIZE ≤ bytes.length ∧ bytes.take 4 = putU32 MAGIC ∧
    (bytes.drop 14).take 2 = putU16 (UInt16.ofNat ORDER_MESSAGE_SIZE) ∧
    datagram = ⟨getU16 (bytes.drop 4), getU64 (bytes.drop 6),
      OrderMessage.decode (bytes.drop HDR_BYTES)⟩ := by
  rw [dgramDecode]
  by_cases hlong : HDR_BYTES + ORDER_MESSAGE_SIZE ≤ bytes.length
  · have h45 : 45 ≤ bytes.length := hlong
    rw [← getU32_eq_iff (by omega), ← getU16_eq_iff (by rw [List.length_drop]; omega)]
    split
    · next hbad =>
      have hmagic := hbad.resolve_left (Nat.not_lt.mpr hlong)
      exact ⟨fun h => absurd h.symm (Option.some_ne_none _), fun h => (hmagic h.2.1).elim⟩
    · next hgood =>
      have hmagic := not_not.mp (not_or.mp hgood).2
      split
      · next hlength => exact ⟨fun h => absurd h.symm (Option.some_ne_none _),
          fun h => (hlength h.2.2.1).elim⟩
      · next hlength =>
        rw [Option.some.injEq, eq_comm]
        exact ⟨fun h => ⟨hlong, hmagic, not_not.mp hlength, h⟩, fun h => h.2.2.2⟩
  · rw [if_pos (.inl (Nat.lt_of_not_le hlong))]
    exact ⟨fun h => absurd h.symm (Option.some_ne_none _), fun h => (hlong h.1).elim⟩

theorem isSome_dgramDecode_iff : (dgramDecode bytes).isSome ↔
    HDR_BYTES + ORDER_MESSAGE_SIZE ≤ bytes.length ∧ bytes.take 4 = putU32 MAGIC ∧
    (bytes.drop 14).take 2 = putU16 (UInt16.ofNat ORDER_MESSAGE_SIZE) := by
  simp only [Option.isSome_iff_exists, dgramDecode_eq_some_iff, exists_and_left,
    exists_eq, and_true]

/-- The datagram that was read is made of the bytes it was read from. -/
theorem dgramWire_of_dgramDecode (h : dgramDecode bytes = some datagram) :
    dgramWire datagram.bucket datagram.sequence datagram.message.wire =
      bytes.take (HDR_BYTES + ORDER_MESSAGE_SIZE) := by
  obtain ⟨hlong, hmagic, hlength, rfl⟩ := dgramDecode_eq_some_iff.mp h
  have h45 : 45 ≤ bytes.length := hlong
  have hmessage : (OrderMessage.decode (bytes.drop HDR_BYTES)).wire = (bytes.drop 16).take 29 := by
    rw [← OrderMessage.decode_take le_rfl]
    exact OrderMessage.wire_decode
      (length_take_of_le (by rw [List.length_drop]; exact Nat.le_sub_of_add_le' h45))
  have hbucket : putU16 (getU16 (bytes.drop 4)) = (bytes.drop 4).take 2 :=
    putU16_getU16 (by rw [List.length_drop]; omega)
  have hsequence : putU64 (getU64 (bytes.drop 6)) = (bytes.drop 6).take 8 :=
    putU64_getU64 (by rw [List.length_drop]; omega)
  have hsize : putU16 29 = (bytes.drop 14).take 2 := hlength.symm
  simp only [dgramWire, hmessage, hbucket, hsequence]
  rw [← hmagic, hsize, ← List.take_add, ← List.take_add, ← List.take_add, ← List.take_add]
  rfl

/-- **The datagram codec.** `dgram_encode` returns 45, the bytes it has written of its buffer. A
message written into any buffers and read back, with any bytes behind it, is what it was; what is
read from a string and written back is the string's first 45 bytes; and a string is read if and only
if it has these, starts with the magic and carries the length 29. -/
theorem codec_round_trip :
    (∀ (messageBuffer buffer rest : Bytes) (bucket : UInt16) (sequence : UInt64)
      (msg : OrderMessage), msg.Terminated → dgramDecode ((dgramEncode buffer bucket sequence
        (OrderMessage.encode messageBuffer msg)).take 45 ++ rest) = some ⟨bucket, sequence, msg⟩) ∧
    (∀ (bytes messageBuffer buffer : Bytes) (datagram : Dgram), dgramDecode bytes = some datagram →
      (dgramEncode buffer datagram.bucket datagram.sequence
        (OrderMessage.encode messageBuffer datagram.message)).take 45 = bytes.take 45) ∧
    ∀ bytes : Bytes, (dgramDecode bytes).isSome ↔
      45 ≤ bytes.length ∧ bytes.take 4 = [0x44, 0x48, 0x46, 0x4d] ∧
      (bytes.drop 14).take 2 = [29, 0] := by
  have hwritten : ∀ (messageBuffer buffer : Bytes) (bucket : UInt16) (sequence : UInt64)
      (msg : OrderMessage), (dgramEncode buffer bucket sequence
        (OrderMessage.encode messageBuffer msg)).take 45 = dgramWire bucket sequence msg.wire := by
    intro messageBuffer buffer bucket sequence msg
    have hlong : ORDER_MESSAGE_SIZE ≤ (OrderMessage.encode messageBuffer msg).length := by
      rw [OrderMessage.encode_append, List.length_append, OrderMessage.length_wire]
      exact Nat.le_add_right ..
    rw [dgramEncode_append hlong, OrderMessage.encode_append,
      List.take_left' OrderMessage.length_wire]
    exact List.take_left' (by simp [dgramWire, ORDER_MESSAGE_SIZE])
  refine ⟨fun messageBuffer buffer rest bucket sequence msg hnul => ?_,
    fun bytes messageBuffer buffer datagram h => ?_, fun bytes => isSome_dgramDecode_iff⟩
  · rw [hwritten]
    exact dgramDecode_dgramWire hnul
  · rw [hwritten]
    exact dgramWire_of_dgramDecode h

/-- A negative price, and a symbol of eight bytes that leaves no room for a NUL on the wire. -/
def extreme : OrderMessage where
  type := 0xff
  symbol := #v[0x41, 0x42, 0x43, 0x44, 0x45, 0x46, 0x47, 0xfe, 0]
  price := -1
  size := 0xffffffff
  timestamp := 0xfedcba9876543210

theorem codec_round_trip_extreme :
    dgramDecode
      ((dgramEncode [] 0xfedc 0xffffffffffffffff (OrderMessage.encode [] extreme)).take 45 ++
      [0x44, 0x48]) = some ⟨0xfedc, 0xffffffffffffffff, extreme⟩ :=
  codec_round_trip.1 [] [] [0x44, 0x48] 0xfedc 0xffffffffffffffff extreme rfl

end MegaFeed
