import MegaFeed.Model.RawSubscriber
import MegaFeed.Verify.Accesses
import MegaFeed.Verify.Reassembly

/-! # The subscriber stays inside its buffers

On arrays, `drain_udp` and `drain_tcp` do what they do on lists of bytes: `raw_refines`. So
whatever the network sends, in whatever pieces, no access of a run leaves the datagram buffer or
the repair buffer or reads a byte that was not received, and the repair buffer is never full
between two calls. -/

namespace MegaFeed
namespace Accesses
open Subscriber

/-! ## Decoding -/

section
variable {bytes : Span UInt8}

theorem orderMessageDecode_eq (h : bytes.Within) (hle : ORDER_MESSAGE_SIZE ≤ bytes.length) :
    orderMessageDecode bytes = pure (OrderMessage.decode bytes.elements) := by
  rw [ORDER_MESSAGE_SIZE] at hle
  rw [orderMessageDecode, readByte_eq h (by omega), pure_bind, h.read_eq (by omega), pure_bind,
    readU64_eq h (by omega), pure_bind, readU32_eq h (by omega), pure_bind,
    readU64_eq h (by omega), pure_bind, OrderMessage.decode]
  congr 2
  refine Vector.ext fun i hi => ?_
  rw [Vector.getElem_ofFn, Vector.getElem_ofFn]
  dsimp only
  split
  · next hlt => rw [byte_take hlt, byte_drop]
  · rfl

theorem dgramDecode_eq (h : bytes.Within) :
    dgramDecode bytes = pure (MegaFeed.dgramDecode bytes.elements) := by
  have hsize : HDR_BYTES + ORDER_MESSAGE_SIZE = 45 := rfl
  have hheader : HDR_BYTES = 16 := rfl
  rw [dgramDecode, MegaFeed.dgramDecode, h.length_elements]
  by_cases hshort : bytes.length < HDR_BYTES + ORDER_MESSAGE_SIZE
  · rw [if_pos hshort, if_pos (.inl hshort)]
  have hpart : HDR_BYTES + (bytes.length - HDR_BYTES) ≤ bytes.length := by omega
  have helements : (bytes.part HDR_BYTES (bytes.length - HDR_BYTES)).elements =
      bytes.elements.drop HDR_BYTES := by
    rw [Span.elements_part hpart, List.take_of_length_le]
    rw [List.length_drop, h.length_elements]
  rw [if_neg hshort, readU32_eq h (by omega), pure_bind, List.drop_zero]
  by_cases hmagic : getU32 bytes.elements = MAGIC
  · rw [if_neg (not_not.mpr hmagic), if_neg (by rw [not_or, not_not]; exact ⟨hshort, hmagic⟩),
      readU16_eq h (by omega), pure_bind, readU64_eq h (by omega), pure_bind,
      readU16_eq h (by omega), pure_bind]
    by_cases hlength : getU16 (bytes.elements.drop 14) = UInt16.ofNat ORDER_MESSAGE_SIZE
    · rw [if_neg (not_not.mpr hlength), if_neg (not_not.mpr hlength),
        orderMessageDecode_eq (h.part hpart) (by dsimp only [Span.part]; omega),
        pure_bind, helements]
    · rw [if_pos hlength, if_pos hlength]
  · rw [if_pos hmagic, if_pos (.inr hmagic)]

end

/-! ## Arrays -/

theorem length_write {array data : Bytes} (h : offset + data.length ≤ array.length) :
    (array.write offset data).length = array.length := by
  rw [Bytes.write, List.length_append, List.length_append, List.length_take, List.length_drop]
  omega

/-- What is written comes behind what was there. -/
theorem take_write {array data : Bytes} (h : offset + data.length ≤ array.length) :
    (array.write offset data).take (offset + data.length) = array.take offset ++ data := by
  rw [Bytes.write, List.take_left']
  rw [List.length_append, List.length_take]
  omega

theorem recvInto_eq {array bytes : Bytes} (h : offset + room ≤ array.length) :
    recvInto array offset room bytes = pure (array.write offset (bytes.take room)) :=
  Reads.ext rfl (decide_eq_true h)

/-- `memmove` brings the bytes to the front. -/
theorem memmove_eq {array : Bytes} (h : offset + count ≤ array.length) :
    ∃ array', memmove array offset count = pure array' ∧ array'.length = array.length ∧
      array'.take count = (array.drop offset).take count := by
  have hcount : ((array.drop offset).take count).length = count := by
    rw [List.length_take, List.length_drop]
    omega
  have hroom : 0 + ((array.drop offset).take count).length ≤ array.length := by omega
  refine ⟨_, Reads.ext rfl (decide_eq_true h), length_write hroom, ?_⟩
  have htake := take_write hroom
  rwa [hcount, Nat.zero_add, List.take_zero, List.nil_append] at htake

namespace Raw

variable {stray : Bytes}

/-! ## Datagrams -/

theorem onDatagram_eq {buf : Bytes} (hbuf : buf.length = 512) (backfill : Nat) (bucket : Bucket)
    (arrival : Arrival) : ∃ buf', buf'.length = 512 ∧
      onDatagram stray backfill bucket buf arrival =
        pure (buf', Subscriber.onDatagram backfill bucket arrival) := by
  have hlength : (arrival.bytes.take 512).length ≤ 512 := List.length_take_le ..
  have hroom : 0 + (arrival.bytes.take 512).length ≤ buf.length := by omega
  have hwithin :
      Span.Within ⟨⟨buf.write 0 (arrival.bytes.take 512), stray⟩, 0,
        (arrival.bytes.take 512).length⟩ := by
    rw [Span.Within, length_write hroom]
    exact hroom
  have helements : Span.elements ⟨⟨buf.write 0 (arrival.bytes.take 512), stray⟩, 0,
      (arrival.bytes.take 512).length⟩ = arrival.bytes.take 512 := by
    have htake := take_write hroom
    rwa [Nat.zero_add, List.take_zero, List.nil_append] at htake
  refine ⟨buf.write 0 (arrival.bytes.take 512), (length_write hroom).trans hbuf, ?_⟩
  rw [onDatagram, recvInto_eq (by omega), pure_bind, dgramDecode_eq hwithin, pure_bind, helements,
    Subscriber.onDatagram]
  cases MegaFeed.dgramDecode (arrival.bytes.take 512) with
  | none => rfl
  | some datagram =>
      exact (apply_ite (fun next => pure (buf.write 0 (arrival.bytes.take 512), next)) ..).symm

theorem drainUdp_eq {buf : Bytes} (hbuf : buf.length = 512) (backfill : Nat) (bucket : Bucket)
    (arrivals : List Arrival) :
    drainUdp stray backfill bucket buf arrivals =
      pure (Subscriber.drainUdp backfill bucket arrivals) := by
  induction arrivals generalizing buf bucket with
  | nil => rfl
  | cons arrival arrivals ih =>
    obtain ⟨buf', hbuf', hone⟩ := @onDatagram_eq stray buf hbuf backfill bucket arrival
    rw [drainUdp, hone, pure_bind]
    dsimp only
    rw [ih hbuf', pure_bind, Subscriber.drainUdp]

/-! ## The repair connection -/

/-- An array that holds `length` bytes of a stream. -/
structure Held (array : Bytes) (length : Nat) : Prop where
  capacity : array.length = REPAIR_BUF_CAP
  length_le : length ≤ REPAIR_BUF_CAP

section
variable {repairBytes : Bytes} {repairLen : Nat}

theorem receive_eq (H : Held repairBytes repairLen) (recvs : List Recv) :
    ∃ received, receive repairBytes repairLen recvs = pure received ∧
      Subscriber.receive (repairBytes.take repairLen) recvs =
        received.map (fun held => held.1.take held.2) ∧
      ∀ held ∈ received, Held held.1 held.2 := by
  induction recvs generalizing repairBytes repairLen with
  | nil => exact ⟨_, rfl, rfl, fun held hmem => by cases hmem; exact H⟩
  | cons recv recvs ih =>
    have hlength : (repairBytes.take repairLen).length = repairLen := by
      rw [List.length_take, H.capacity, min_eq_left H.length_le]
    unfold receive Subscriber.receive
    rw [hlength]
    split
    · exact ⟨_, rfl, rfl, fun held hmem => by cases hmem; exact H⟩
    cases recv with
    | closed => exact ⟨none, rfl, rfl, fun held hmem => by cases hmem⟩
    | data bytes =>
      have hle := H.length_le
      have htaken : (bytes.take (REPAIR_BUF_CAP - repairLen)).length ≤ REPAIR_BUF_CAP - repairLen :=
        List.length_take_le ..
      have hroom : repairLen + (bytes.take (REPAIR_BUF_CAP - repairLen)).length ≤
          repairBytes.length := by
        rw [H.capacity]
        omega
      have hnext : Held (repairBytes.write repairLen (bytes.take (REPAIR_BUF_CAP - repairLen)))
          (repairLen + (bytes.take (REPAIR_BUF_CAP - repairLen)).length) :=
        ⟨(length_write hroom).trans H.capacity, by omega⟩
      obtain ⟨received, hreceive, habstract, hheld⟩ := ih hnext
      rw [take_write hroom] at habstract
      dsimp only
      rw [recvInto_eq (by rw [H.capacity]; omega), pure_bind]
      exact ⟨received, hreceive, habstract, hheld⟩

theorem framePayload_eq {frame : Span UInt8} (h : frame.Within) (hle : 12 + length ≤ frame.length)
    (hlength : length = 0 ∨ length = ORDER_MESSAGE_SIZE) : framePayload frame length =
      pure (if length = 0 then none else some (OrderMessage.decode (frame.elements.drop 12))) := by
  rw [framePayload]
  split
  · rfl
  · next hsome =>
    have hsize := hlength.resolve_left hsome
    rw [orderMessageDecode_eq (h.part hle) hsize.ge, pure_bind, Span.elements_part hle, hsize,
      OrderMessage.decode_take le_rfl]

theorem frameLoop_eq (H : Held repairBytes repairLen) (fuel : Nat) (buckets : List Bucket)
    (hoffset : offset ≤ repairLen) :
    ∃ buckets' last events, frameLoop stray repairBytes repairLen fuel buckets offset =
        pure (buckets', last, events) ∧
      Subscriber.frameLoop fuel buckets ((repairBytes.take repairLen).drop offset) =
        (buckets', last.map (fun last => (repairBytes.take repairLen).drop last), events) ∧
      ∀ last' ∈ last, last' ≤ repairLen := by
  induction fuel generalizing buckets offset with
  | zero => exact ⟨_, _, _, rfl, rfl, fun last' hmem => by cases hmem; exact hoffset⟩
  | succ fuel ih =>
    have hle := H.length_le
    have hcapacity := H.capacity
    have hwithin : Span.Within ⟨⟨repairBytes, stray⟩, offset, repairLen - offset⟩ := by
      rw [Span.Within]
      dsimp only
      omega
    have helements : Span.elements ⟨⟨repairBytes, stray⟩, offset, repairLen - offset⟩ =
        (repairBytes.take repairLen).drop offset := by
      rw [Span.elements, List.drop_take]
    have hlength : ((repairBytes.take repairLen).drop offset).length = repairLen - offset := by
      rw [List.length_drop, List.length_take]
      omega
    rw [frameLoop, Subscriber.frameLoop, hlength]
    by_cases hheader : repairLen - offset < 12
    · rw [if_pos hheader, if_pos hheader]
      exact ⟨_, _, _, rfl, rfl, fun last' hmem => by cases hmem; exact hoffset⟩
    rw [if_neg hheader, if_neg hheader]
    dsimp only
    rw [readU16_eq hwithin (by dsimp only; omega), pure_bind,
      readU64_eq hwithin (by dsimp only; omega), pure_bind,
      readU16_eq hwithin (by dsimp only; omega), pure_bind, helements, List.drop_zero]
    generalize hbody : (getU16 (((repairBytes.take repairLen).drop offset).drop 10)).toNat = length
    by_cases hshort : repairLen - offset < 12 + length
    · rw [if_pos hshort, if_pos hshort]
      exact ⟨_, _, _, rfl, rfl, fun last' hmem => by cases hmem; exact hoffset⟩
    rw [if_neg hshort, if_neg hshort]
    by_cases hbad : length ≠ 0 ∧ length ≠ ORDER_MESSAGE_SIZE
    · rw [if_pos hbad, if_pos hbad]
      exact ⟨_, _, _, rfl, rfl, fun last' hmem => by cases hmem⟩
    rw [if_neg hbad, if_neg hbad, framePayload_eq hwithin (by dsimp only; omega)
      (or_iff_not_and_not.mpr hbad), pure_bind, helements]
    generalize withBucket _ _ buckets = acted
    obtain ⟨buckets', events'⟩ := acted
    obtain ⟨buckets'', last, events, hloop, habstract, hlast⟩ :=
      ih buckets' (show offset + (12 + length) ≤ repairLen by omega)
    rw [← List.drop_drop] at habstract
    dsimp only
    rw [hloop, pure_bind, habstract]
    exact ⟨_, _, _, rfl, rfl, hlast⟩

end

/-! ## Calls -/

/-- The subscriber with the bytes its array holds. -/
def toSubscriber (raw : Raw) : Subscriber :=
  { raw.subscriber with repairBuffer := raw.repairBytes.take raw.repairLen }

/-- Between two calls: `repair_len_` is always less than `REPAIR_BUF_CAP`. -/
structure Sound (raw : Raw) : Prop where
  capacity : raw.repairBytes.length = REPAIR_BUF_CAP
  length_lt : raw.repairLen < REPAIR_BUF_CAP
  unused : raw.subscriber.repairBuffer = []

variable {raw : Raw}

theorem Sound.held (S : raw.Sound) : Held raw.repairBytes raw.repairLen :=
  ⟨S.capacity, S.length_lt.le⟩

theorem drainTcp_eq (S : raw.Sound) (recvs : List Recv) :
    ∃ raw', raw.drainTcp stray recvs = pure (raw', (raw.toSubscriber.drainTcp recvs).2) ∧
      raw'.toSubscriber = (raw.toSubscriber.drainTcp recvs).1 ∧ raw'.Sound := by
  obtain ⟨received, hreceive, habstract, hheld⟩ := receive_eq S.held recvs
  have hcap : 0 < REPAIR_BUF_CAP := by decide
  rw [drainTcp, hreceive, pure_bind, Subscriber.drainTcp]
  rw [show raw.toSubscriber.repairBuffer = raw.repairBytes.take raw.repairLen from rfl, habstract]
  cases received with
  | none => exact ⟨_, rfl, rfl, S.capacity, hcap, rfl⟩
  | some held =>
    obtain ⟨repairBytes, repairLen⟩ := held
    have H := hheld _ rfl
    dsimp only at H
    obtain ⟨buckets, last, events, hloop, hframes, hlast⟩ :=
      @frameLoop_eq stray _ _ 0 H repairLen raw.subscriber.buckets (Nat.zero_le _)
    have hlength : (repairBytes.take repairLen).length = repairLen := by
      rw [List.length_take, H.capacity, min_eq_left H.length_le]
    rw [List.drop_zero] at hframes
    dsimp only [Option.map_some]
    rw [hloop, pure_bind, hlength, show raw.toSubscriber.buckets = raw.subscriber.buckets from rfl,
      hframes]
    cases last with
    | none => exact ⟨_, rfl, rfl, H.capacity, hcap, rfl⟩
    | some offset =>
      have hoffset := hlast offset rfl
      have hshort : repairLen - offset < REPAIR_BUF_CAP := by
        have hrest := congrArg (·.2.1) (Subscriber.frameLoop_eq raw.subscriber.buckets hlength.le)
        rw [hframes] at hrest
        have hready := length_lt_of_not_ready (not_ready_of_parse hrest.symm)
        rwa [List.length_drop, hlength] at hready
      dsimp only [Option.map_some]
      split
      · obtain ⟨repairBytes', hmove, hsame, hfront⟩ :=
          @memmove_eq offset (repairLen - offset) repairBytes
            (by have := H.capacity; have := H.length_le; omega)
        rw [hmove, pure_bind]
        refine ⟨_, rfl, ?_, hsame.trans H.capacity, hshort, S.unused⟩
        rw [toSubscriber]
        dsimp only
        rw [hfront, ← List.drop_take]
        rfl
      · next hstays =>
        rw [pure_bind]
        refine ⟨_, rfl, ?_, H.capacity, hshort, S.unused⟩
        rw [toSubscriber]
        dsimp only
        have hsame : repairBytes.take (repairLen - offset) =
            (repairBytes.take repairLen).drop offset := by
          rw [not_and_or, not_not, not_not] at hstays
          rcases hstays with rfl | hnone
          · rfl
          · rw [hnone, List.take_zero, List.drop_eq_nil_of_le (by omega)]
        rw [hsame]
        rfl

/-- A request does not look at the buffer; it is emptied if the request cannot be written. -/
theorem ask_buffer {subscriber : Subscriber} (h : subscriber.repairBuffer = []) (bytes : Bytes)
    (bucket : Bucket)
    (input : NakInput) :
    { subscriber with repairBuffer := bytes }.ask bucket input =
      ({ (subscriber.ask bucket input).1 with
          repairBuffer :=
            if .writeFailed input.now ∈ (subscriber.ask bucket input).2.2 then [] else bytes },
        (subscriber.ask bucket input).2) ∧
    (subscriber.ask bucket input).1.repairBuffer = [] := by
  rw [ask, ask]
  dsimp only
  split
  · exact ⟨by simp, h⟩
  split
  · exact ⟨by simp, h⟩
  split
  · exact ⟨by simp, h⟩
  split
  · exact ⟨by simp, h⟩
  split
  · refine ⟨?_, rfl⟩
    simp only [List.mem_append, List.mem_singleton, or_true, if_true]
    rfl
  · refine ⟨?_, h⟩
    split <;> simp

theorem nak_buffer {subscriber : Subscriber} (h : subscriber.repairBuffer = []) (bytes : Bytes)
    (bucket : Bucket)
    (input : NakInput) :
    { subscriber with repairBuffer := bytes }.nak bucket input =
      ({ (subscriber.nak bucket input).1 with
          repairBuffer :=
            if .writeFailed input.now ∈ (subscriber.nak bucket input).2.2 then [] else bytes },
        (subscriber.nak bucket input).2) ∧
    (subscriber.nak bucket input).1.repairBuffer = [] := by
  unfold nak
  split
  · exact ⟨by simp, h⟩
  · obtain ⟨hask, hempty⟩ :=
      ask_buffer h bytes (bucket.expire input.now subscriber.giveupNs).1 input
    dsimp only
    rw [hask]
    refine ⟨?_, hempty⟩
    simp

theorem call_nak_buffer {subscriber : Subscriber} (h : subscriber.repairBuffer = [])
    (bytes : Bytes) (i : Nat)
    (input : NakInput) :
    { subscriber with repairBuffer := bytes }.call (.nak i input) =
      ({ (subscriber.call (.nak i input)).1 with
          repairBuffer :=
            if .writeFailed input.now ∈ (subscriber.call (.nak i input)).2 then [] else bytes },
        (subscriber.call (.nak i input)).2) ∧
    (subscriber.call (.nak i input)).1.repairBuffer = [] := by
  rw [Subscriber.call, Subscriber.call]
  cases subscriber.buckets[i]? with
  | none => exact ⟨by simp, h⟩
  | some bucket =>
    obtain ⟨hnak, hempty⟩ := nak_buffer h bytes bucket input
    dsimp only
    rw [hnak]
    exact ⟨rfl, hempty⟩

theorem call_eq (S : raw.Sound) {buf : Bytes} (hbuf : buf.length = 512) (call : Call) :
    ∃ raw', raw.call stray buf call = pure (raw', (raw.toSubscriber.call call).2) ∧
      raw'.toSubscriber = (raw.toSubscriber.call call).1 ∧ raw'.Sound := by
  cases call with
  | drainUdp i arrivals =>
    rw [Raw.call, Subscriber.call, atBucket]
    rw [show raw.toSubscriber.buckets = raw.subscriber.buckets from rfl]
    cases raw.subscriber.buckets[i]? with
    | none => exact ⟨raw, rfl, rfl, S⟩
    | some bucket =>
      dsimp only
      rw [drainUdp_eq hbuf, pure_bind, show raw.toSubscriber.backfill =
        raw.subscriber.backfill from rfl]
      generalize Subscriber.drainUdp raw.subscriber.backfill bucket arrivals = drained
      obtain ⟨bucket', events⟩ := drained
      dsimp only
      exact ⟨_, rfl, rfl, S.capacity, S.length_lt, S.unused⟩
  | drainTcp recvs =>
    rw [Raw.call, Subscriber.call, show raw.toSubscriber.repairOpen =
      raw.subscriber.repairOpen from rfl]
    split
    · exact drainTcp_eq S recvs
    · exact ⟨raw, rfl, rfl, S⟩
  | nak i input =>
    obtain ⟨hcall, hempty⟩ := call_nak_buffer S.unused (raw.repairBytes.take raw.repairLen) i input
    have hstate : raw.toSubscriber.call (.nak i input) = _ := hcall
    rw [Raw.call, hstate]
    generalize raw.subscriber.call (.nak i input) = next at hempty ⊢
    obtain ⟨subscriber, events⟩ := next
    dsimp only at hempty ⊢
    refine ⟨_, rfl, ?_, S.capacity, ?_, hempty⟩
    · rw [toSubscriber, apply_ite (raw.repairBytes.take ·), List.take_zero]
    · have hcap : 0 < REPAIR_BUF_CAP := by decide
      have hlt := S.length_lt
      dsimp only
      split <;> assumption
  | deliver i =>
    rw [Raw.call, Subscriber.call, Subscriber.call, atBucket, atBucket,
      show raw.toSubscriber.buckets = raw.subscriber.buckets from rfl]
    cases raw.subscriber.buckets[i]? with
    | none => exact ⟨_, rfl, rfl, S.capacity, S.length_lt, S.unused⟩
    | some bucket => exact ⟨_, rfl, rfl, S.capacity, S.length_lt, S.unused⟩

/-- **The subscriber stays inside its buffers.** In every run, whatever the sockets bring, in
whatever pieces, and whatever is in memory, no access leaves the datagram buffer or the repair
buffer or reads a byte that was not received; the run is the one on lists of bytes; and between two
calls the repair buffer is not full. -/
theorem raw_refines (stray : Bytes) {buf : Nat → Bytes} (hbuf : ∀ n, (buf n).length = 512)
    {raw : Raw} (S : raw.Sound)
    (calls : List Call) :
    (raw.run stray buf calls).inside = true ∧
    (raw.run stray buf calls).value.1.toSubscriber = (raw.toSubscriber.run calls).1 ∧
    (raw.run stray buf calls).value.2 = (raw.toSubscriber.run calls).2 ∧
    (raw.run stray buf calls).value.1.Sound := by
  induction calls generalizing raw with
  | nil => exact ⟨rfl, rfl, rfl, S⟩
  | cons call calls ih =>
    obtain ⟨raw', hcall, hstate, S'⟩ := @call_eq stray raw S _ (hbuf calls.length) call
    obtain ⟨hinside, hrun, hevents, hsound⟩ := ih S'
    rw [hstate] at hrun hevents
    rw [Raw.run, hcall, pure_bind]
    refine ⟨?_, hrun, ?_, hsound⟩
    · rw [Reads.inside_bind, hinside]
      rfl
    · rw [Reads.value_bind, Reads.value_pure, hevents]
      rfl

/-- The members of a new subscriber of bucket 0 that has a connection. -/
def fresh : Raw where
  subscriber := { buckets := [{ id := 0 }], repairOpen := true }
  repairBytes := .replicate REPAIR_BUF_CAP 0xff
  repairLen := 0

/-- A datagram that is too short, and a stream whose second frame lies about its length. -/
theorem raw_refines_hostile :
    let calls : List Call := [.drainUdp 0 [⟨[1, 2, 3], 5⟩], .drainTcp [.data (hostile.take 5)],
      .drainTcp [.data (hostile.drop 5)]]
    (fresh.run [7] (fun _ => .replicate 512 0x44) calls).inside = true ∧
    (fresh.run [7] (fun _ => .replicate 512 0x44) calls).value.2 =
      [.bucket 0 (.frame 7 none), .resync] := by
  have S : fresh.Sound := ⟨List.length_replicate .., by decide, rfl⟩
  intro calls
  obtain ⟨hinside, -, hevents, -⟩ :=
    @raw_refines [7] (fun _ => .replicate 512 0x44)
      (fun _ => List.length_replicate ..) fresh S calls
  refine ⟨hinside, hevents.trans ?_⟩
  have hsubscriber : fresh.toSubscriber = { buckets := [{ id := 0 }], repairOpen := true } := rfl
  rw [hsubscriber]
  decide

end Raw
end Accesses
end MegaFeed
