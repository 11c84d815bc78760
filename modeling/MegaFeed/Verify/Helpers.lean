import MegaFeed.Theory.LittleEndian
import MegaFeed.Model.Helpers

/-! # The codecs of `helpers.h` are inverse

`getU16_putU16` and its wider siblings, the buffer form of `OrderMessage.encode` and
`dgramEncode` (`encode_eq`, `dgramEncode_eq`), and the two round trips the protocol rests on:
`decode_encode` and `dgramDecode_dgramEncode`. -/

namespace MegaFeed
open LittleEndian

/-! ## Words -/

theorem putU16_eq (value : UInt16) : putU16 value = leBytes 2 value.toNat := by
  simp only [putU16, leBytes, List.cons.injEq, and_true, ← UInt8.toNat_inj]
  simp [Nat.shiftRight_eq_div_pow]

theorem putU32_eq (value : UInt32) : putU32 value = leBytes 4 value.toNat := by
  simp only [putU32, leBytes, List.cons.injEq, and_true, ← UInt8.toNat_inj]
  simp [Nat.shiftRight_eq_div_pow, Nat.div_div_eq_div_mul]

theorem putU64_eq (value : UInt64) : putU64 value = leBytes 8 value.toNat := by
  simp only [putU64, leBytes, List.cons.injEq, and_true, ← UInt8.toNat_inj]
  simp [Nat.shiftRight_eq_div_pow, Nat.div_div_eq_div_mul]

@[simp] theorem length_putU16 : (putU16 value).length = 2 := rfl
@[simp] theorem length_putU32 : (putU32 value).length = 4 := rfl
@[simp] theorem length_putU64 : (putU64 value).length = 8 := rfl

private theorem toNat_eq_ofLE (b : UInt8) : b.toNat = ofLE [b] := by simp [ofLE]

theorem toNat_getU16 (h : 2 ≤ bytes.length) : (getU16 bytes).toNat = ofLE (bytes.take 2) := by
  match bytes, h with
  | b0 :: b1 :: rest, _ =>
    simp only [getU16, Bytes.byte, List.getD_cons_zero, List.getD_cons_succ, UInt16.toNat_or,
      UInt16.toNat_shiftLeft, UInt8.toNat_toUInt16, UInt16.reduceToNat, Nat.reduceMod]
    simp (disch := decide) only [byte_shiftLeft_mod]
    rw [toNat_eq_ofLE b0]
    simp (disch := simp) only [or_shiftLeft_eq_ofLE, List.cons_append, List.nil_append,
      List.take_succ_cons, List.take_zero]

theorem toNat_getU32 (h : 4 ≤ bytes.length) : (getU32 bytes).toNat = ofLE (bytes.take 4) := by
  match bytes, h with
  | b0 :: b1 :: b2 :: b3 :: rest, _ =>
    simp only [getU32, Bytes.byte, List.getD_cons_zero, List.getD_cons_succ, UInt32.toNat_or,
      UInt32.toNat_shiftLeft, UInt8.toNat_toUInt32, UInt32.reduceToNat, Nat.reduceMod]
    simp (disch := decide) only [byte_shiftLeft_mod]
    rw [toNat_eq_ofLE b0]
    simp (disch := simp) only [or_shiftLeft_eq_ofLE, List.cons_append, List.nil_append,
      List.take_succ_cons, List.take_zero]

theorem toNat_getU64 (h : 8 ≤ bytes.length) : (getU64 bytes).toNat = ofLE (bytes.take 8) := by
  match bytes, h with
  | b0 :: b1 :: b2 :: b3 :: b4 :: b5 :: b6 :: b7 :: rest, _ =>
    simp only [getU64, Bytes.byte, List.getD_cons_zero, List.getD_cons_succ, UInt64.toNat_or,
      UInt64.toNat_shiftLeft, UInt8.toNat_toUInt64, UInt64.reduceToNat, Nat.reduceMod]
    simp (disch := decide) only [byte_shiftLeft_mod]
    rw [toNat_eq_ofLE b0]
    simp (disch := simp) only [or_shiftLeft_eq_ofLE, List.cons_append, List.nil_append,
      List.take_succ_cons, List.take_zero]

@[simp] theorem getU16_putU16 : getU16 (putU16 value ++ rest) = value := by
  apply UInt16.toNat_inj.mp
  rw [toNat_getU16 (by simp), List.take_left' (by simp), putU16_eq, ofLE_leBytes_of_lt]
  exact value.toNat_lt

@[simp] theorem getU32_putU32 : getU32 (putU32 value ++ rest) = value := by
  apply UInt32.toNat_inj.mp
  rw [toNat_getU32 (by simp), List.take_left' (by simp), putU32_eq, ofLE_leBytes_of_lt]
  exact value.toNat_lt

@[simp] theorem getU64_putU64 : getU64 (putU64 value ++ rest) = value := by
  apply UInt64.toNat_inj.mp
  rw [toNat_getU64 (by simp), List.take_left' (by simp), putU64_eq, ofLE_leBytes_of_lt]
  exact value.toNat_lt

/-! ## Words read and written back -/

theorem length_take_of_le {bytes : Bytes} (h : n ≤ bytes.length) : (bytes.take n).length = n := by
  rw [List.length_take, Nat.min_eq_left h]

theorem putU16_getU16 (h : 2 ≤ bytes.length) : putU16 (getU16 bytes) = bytes.take 2 := by
  rw [putU16_eq, toNat_getU16 h]
  conv_rhs => rw [← leBytes_ofLE (bytes.take 2), length_take_of_le h]

theorem putU32_getU32 (h : 4 ≤ bytes.length) : putU32 (getU32 bytes) = bytes.take 4 := by
  rw [putU32_eq, toNat_getU32 h]
  conv_rhs => rw [← leBytes_ofLE (bytes.take 4), length_take_of_le h]

theorem putU64_getU64 (h : 8 ≤ bytes.length) : putU64 (getU64 bytes) = bytes.take 8 := by
  rw [putU64_eq, toNat_getU64 h]
  conv_rhs => rw [← leBytes_ofLE (bytes.take 8), length_take_of_le h]

theorem byte_take {bytes : Bytes} (h : i < n) : Bytes.byte (bytes.take n) i = bytes.byte i := by
  simp [Bytes.byte, h]

theorem byte_drop {bytes : Bytes} : Bytes.byte (bytes.drop n) i = bytes.byte (n + i) := by
  simp [Bytes.byte]

theorem getU16_take (h : 2 ≤ n) : getU16 (bytes.take n) = getU16 bytes := by
  rw [getU16, byte_take (by omega), byte_take (by omega), getU16]

theorem getU32_take (h : 4 ≤ n) : getU32 (bytes.take n) = getU32 bytes := by
  rw [getU32, byte_take (by omega), byte_take (by omega), byte_take (by omega),
    byte_take (by omega), getU32]

theorem getU64_take (h : 8 ≤ n) : getU64 (bytes.take n) = getU64 bytes := by
  rw [getU64, byte_take (by omega), byte_take (by omega), byte_take (by omega),
    byte_take (by omega), byte_take (by omega), byte_take (by omega), byte_take (by omega),
    byte_take (by omega), getU64]

/-! ## Buffers written front to back -/

/-- Writing right behind what has been written so far. -/
theorem Bytes.write_behind {done tail data : Bytes} (h : done.length = offset) :
    Bytes.write (done ++ tail) offset data = done ++ data ++ tail.drop data.length := by
  subst h
  simp [Bytes.write, List.drop_append]

theorem Bytes.write_zero {tail data : Bytes} :
    Bytes.write tail 0 data = data ++ tail.drop data.length := by
  simp [Bytes.write]

/-! ## `OrderMessage` -/

namespace OrderMessage

/-- The 29 wire bytes of a message. -/
def wire (msg : OrderMessage) : Bytes :=
  [msg.type] ++ msg.symbol.toList.take 8 ++ putU64 msg.price.toUInt64 ++ putU32 msg.size ++
    putU64 msg.timestamp

@[simp] theorem length_wire {msg : OrderMessage} : msg.wire.length = ORDER_MESSAGE_SIZE := by
  simp [wire, ORDER_MESSAGE_SIZE]

/-- `encode` overwrites the front of the buffer, so nothing of its old content is published. -/
theorem encode_append : encode bytes msg = msg.wire ++ bytes.drop ORDER_MESSAGE_SIZE := by
  simp only [encode]
  rw [Bytes.write_zero, Bytes.write_behind (by simp), Bytes.write_behind (by simp),
    Bytes.write_behind (by simp), Bytes.write_behind (by simp)]
  simp [wire, ORDER_MESSAGE_SIZE]

theorem encode_eq (h : bytes.length = ORDER_MESSAGE_SIZE) : encode bytes msg = msg.wire := by
  rw [encode_append, List.drop_eq_nil_of_le h.le, List.append_nil]

/-- What a wire message decodes to does not depend on the bytes behind it. -/
theorem decode_wire {msg : OrderMessage} (hnul : msg.Terminated) :
    decode (msg.wire ++ rest) = msg := by
  have hprice : (msg.wire ++ rest).drop 9 =
      putU64 msg.price.toUInt64 ++ (putU32 msg.size ++ (putU64 msg.timestamp ++ rest)) := by
    simp only [wire, List.append_assoc]
    rw [← List.append_assoc, List.drop_left' (by simp)]
  have hsize : (msg.wire ++ rest).drop 17 =
      putU32 msg.size ++ (putU64 msg.timestamp ++ rest) := by
    rw [show 17 = 9 + 8 from rfl, ← List.drop_drop, hprice, List.drop_left' (by simp)]
  have htime : (msg.wire ++ rest).drop 21 = putU64 msg.timestamp ++ rest := by
    rw [show 21 = 17 + 4 from rfl, ← List.drop_drop, hsize, List.drop_left' (by simp)]
  have hsymbol : (decode (msg.wire ++ rest)).symbol = msg.symbol := by
    ext i hi
    by_cases hi8 : i < 8
    · simp [decode, Bytes.byte, wire, hi8, List.getElem?_append, Nat.add_comm 1 i]
    · obtain rfl : i = 8 := by omega
      have hlast : msg.symbol[8] = 0 := hnul
      simp [decode, hlast]
  have htype : (decode (msg.wire ++ rest)).type = msg.type := by simp [decode, Bytes.byte, wire]
  obtain ⟨type, symbol, price, size, timestamp⟩ := msg
  simp only at hsymbol htype
  simp only [decode, hprice, hsize, htime, getU64_putU64, getU32_putU32, mk.injEq] at *
  exact ⟨htype, hsymbol, by simp⟩

theorem decode_take (h : ORDER_MESSAGE_SIZE ≤ n) : decode (bytes.take n) = decode bytes := by
  have hn : 29 ≤ n := h
  have hsymbol : ∀ i, i < 8 → Bytes.byte (bytes.take n) (1 + i) = bytes.byte (1 + i) :=
    fun i hi => byte_take (by omega)
  simp only [decode, List.drop_take]
  rw [byte_take (by omega), getU64_take (by omega), getU32_take (by omega), getU64_take (by omega)]
  congr 1
  refine Vector.ext fun i hi => ?_
  simp only [Vector.getElem_ofFn]
  split
  · next hi8 => exact hsymbol i hi8
  · rfl

/-- Whatever 29 bytes a message is decoded from, it encodes to them. -/
theorem wire_decode {bytes : Bytes} (h : bytes.length = ORDER_MESSAGE_SIZE) :
    (decode bytes).wire = bytes := by
  have h : bytes.length = 29 := h
  have htype : [(decode bytes).type] = bytes.take 1 := by
    match bytes, h with
    | first :: rest, _ => rfl
  have hsymbol : (decode bytes).symbol.toList.take 8 = (bytes.drop 1).take 8 := by
    refine List.ext_getElem ?_ fun i hi _ => ?_
    · simp [h]
    · have hi8 : i < 8 := by simpa using hi
      have hbound : 1 + i < bytes.length := by omega
      simp [decode, Bytes.byte, hi8, List.getElem?_eq_getElem hbound, Nat.add_comm i 1]
  have hprice : putU64 (decode bytes).price.toUInt64 = (bytes.drop 9).take 8 := by
    rw [decode, UInt64.toUInt64_toInt64, putU64_getU64 (by rw [List.length_drop]; omega)]
  have hsize : putU32 (decode bytes).size = (bytes.drop 17).take 4 := by
    rw [decode, putU32_getU32 (by rw [List.length_drop]; omega)]
  have htime : putU64 (decode bytes).timestamp = (bytes.drop 21).take 8 := by
    rw [decode, putU64_getU64 (by rw [List.length_drop]; omega)]
  rw [wire, htype, hsymbol, hprice, hsize, htime, ← List.take_add, ← List.take_add, ← List.take_add,
    ← List.take_add, List.take_of_length_le h.le]

theorem terminated_decode (bytes : Bytes) : (decode bytes).Terminated := by
  rw [Terminated, decode, Vector.getElem_ofFn]
  rfl

end OrderMessage

/-! ## Datagrams -/

variable {bucket : UInt16} {sequence : UInt64}

/-- The 45 bytes of a datagram carrying the message bytes `payload`. -/
def dgramWire (bucket : UInt16) (sequence : UInt64) (payload : Bytes) : Bytes :=
  putU32 MAGIC ++ putU16 bucket ++ putU64 sequence ++ putU16 29 ++ payload

theorem dgramEncode_append (hp : ORDER_MESSAGE_SIZE ≤ payload.length) :
    dgramEncode bytes bucket sequence payload =
      dgramWire bucket sequence (payload.take ORDER_MESSAGE_SIZE) ++
        bytes.drop (HDR_BYTES + ORDER_MESSAGE_SIZE) := by
  have hlength : (payload.take ORDER_MESSAGE_SIZE).length = 29 := length_take_of_le hp
  simp only [dgramEncode]
  rw [Bytes.write_zero, Bytes.write_behind (by simp), Bytes.write_behind (by simp),
    Bytes.write_behind (by simp), Bytes.write_behind (by simp [HDR_BYTES]), hlength]
  simp [dgramWire, ORDER_MESSAGE_SIZE, HDR_BYTES]

theorem dgramEncode_eq (h : bytes.length = HDR_BYTES + ORDER_MESSAGE_SIZE)
    (hp : payload.length = ORDER_MESSAGE_SIZE) :
    dgramEncode bytes bucket sequence payload = dgramWire bucket sequence payload := by
  rw [dgramEncode_append hp.ge, List.drop_eq_nil_of_le h.le, List.append_nil,
    List.take_of_length_le hp.le]

theorem dgramDecode_dgramWire {msg : OrderMessage} (hnul : msg.Terminated) :
    dgramDecode (dgramWire bucket sequence msg.wire ++ rest) = some ⟨bucket, sequence, msg⟩ := by
  have hmagic : getU32 (dgramWire bucket sequence msg.wire ++ rest) = MAGIC := by
    simp only [dgramWire, List.append_assoc, getU32_putU32]
  have hbucket : (dgramWire bucket sequence msg.wire ++ rest).drop 4 =
      putU16 bucket ++ (putU64 sequence ++ (putU16 29 ++ (msg.wire ++ rest))) := by
    simp only [dgramWire, List.append_assoc, List.drop_left' length_putU32]
  have hsequence : (dgramWire bucket sequence msg.wire ++ rest).drop 6 =
      putU64 sequence ++ (putU16 29 ++ (msg.wire ++ rest)) := by
    rw [show 6 = 4 + 2 from rfl, ← List.drop_drop, hbucket, List.drop_left' length_putU16]
  have hlength : (dgramWire bucket sequence msg.wire ++ rest).drop 14 =
      putU16 29 ++ (msg.wire ++ rest) := by
    rw [show 14 = 6 + 8 from rfl, ← List.drop_drop, hsequence, List.drop_left' length_putU64]
  have hpayload : (dgramWire bucket sequence msg.wire ++ rest).drop HDR_BYTES =
      msg.wire ++ rest := by
    rw [show HDR_BYTES = 14 + 2 from rfl, ← List.drop_drop, hlength, List.drop_left' length_putU16]
  have hlong : ¬(dgramWire bucket sequence msg.wire ++ rest).length <
      HDR_BYTES + ORDER_MESSAGE_SIZE := by
    simp [dgramWire, HDR_BYTES, ORDER_MESSAGE_SIZE]
    omega
  rw [dgramDecode, if_neg (not_or.mpr ⟨hlong, not_not.mpr hmagic⟩), hlength, hbucket,
    hsequence, hpayload, getU16_putU16, getU16_putU16, getU64_putU64, OrderMessage.decode_wire hnul,
    if_neg (by decide)]

end MegaFeed
