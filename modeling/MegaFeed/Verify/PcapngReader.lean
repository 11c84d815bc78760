import MegaFeed.Model.PcapngReader
import MegaFeed.Verify.Helpers

/-! # The capture reader, block by block

`step` is one block together with what `next_packet` makes of it, and the reader's loops are its
iteration (`nextPacket_step`, `packets_step`). Whatever lies behind the buffers in memory, a step
comes to the same (`step_stray`), and it stays inside them unless it reads an Enhanced Packet Block
of less than 28 bytes (`inside_step`). -/

namespace MegaFeed.PcapngReader
open Reads

section
variable {stray stray' : Nat → Bytes} {reader : PcapngReader}

/-! ## Single reads -/

/-- The shifts of `order_u32` reverse the bytes. -/
theorem orderU32_eq {bytes : Bytes} :
    reader.orderU32 bytes =
      if reader.isSwappedEndian then getU32 [bytes.byte 3, bytes.byte 2, bytes.byte 1, bytes.byte 0]
      else getU32 bytes := by
  rw [orderU32]
  split
  · simp only [getU32, Bytes.byte, List.getD_cons_zero, List.getD_cons_succ]
    apply UInt32.toBitVec_inj.mp
    apply BitVec.eq_of_getLsbD_eq
    intro i hi
    simp only [UInt32.toBitVec_or, UInt32.toBitVec_and, UInt32.toBitVec_shiftLeft,
      UInt32.toBitVec_shiftRight, UInt8.toBitVec_toUInt32]
    interval_cases i <;> simp
  · rfl

theorem orderU16_eq {bytes : Bytes} :
    reader.orderU16 bytes =
      if reader.isSwappedEndian then getU16 [bytes.byte 1, bytes.byte 0] else getU16 bytes := by
  rw [orderU16]
  split
  · simp only [getU16, Bytes.byte, List.getD_cons_zero, List.getD_cons_succ]
    apply UInt16.toBitVec_inj.mp
    apply BitVec.eq_of_getLsbD_eq
    intro i hi
    simp only [UInt16.toBitVec_or, UInt16.toBitVec_shiftLeft, UInt16.toBitVec_shiftRight,
      UInt8.toBitVec_toUInt16]
    interval_cases i <;> simp
  · rfl

theorem orderU32_take {bytes : Bytes} (h : 4 ≤ n) :
    reader.orderU32 (bytes.take n) = reader.orderU32 bytes := by
  rw [orderU32, getU32_take h, orderU32]

theorem orderU32_length {bytes : Bytes} :
    reader.orderU32 ((bytes.take 8).drop 4) = reader.orderU32 (bytes.drop 4) := by
  rw [List.drop_take, orderU32_take (by decide)]

/-- The type of a section header reads the same in both byte orders. -/
theorem orderU32_section {bytes : Bytes} (h : getU32 bytes = 0x0a0d0d0a) :
    reader.orderU32 bytes = 0x0a0d0d0a := by
  rw [orderU32, h]
  split <;> rfl

/-! ## Interface descriptions -/

theorem timestampOption_steady {data : Bytes} (h : optionEnd ≤ data.length) :
    Steady fun stray => timestampOption ⟨data, stray⟩ optionCode optionLength optionEnd optionOffset
      interfaceInfo :=
  .ite (fun hin => .bind (Buffer.read_steady (by omega)) fun _ _ => .pure) fun _ => .pure

theorem interfaceOptions_steady {data : Bytes} (h : optionEnd ≤ data.length) :
    Steady fun stray => interfaceOptions reader ⟨data, stray⟩ optionEnd optionOffset
      interfaceInfo := by
  induction hn : optionEnd - optionOffset using Nat.strong_induction_on generalizing optionOffset
    interfaceInfo with
  | _ n ih =>
  subst hn
  rw [funext fun stray => interfaceOptions.eq_1 reader ⟨data, stray⟩ optionEnd optionOffset
    interfaceInfo]
  refine .ite (fun hin => ?_) fun _ => .pure
  refine .bind (Buffer.read_steady (by omega)) fun optionCode _ => ?_
  refine .bind (Buffer.read_steady (by omega)) fun optionLength _ => ?_
  refine .ite (fun _ => .pure) fun _ => ?_
  exact .bind (timestampOption_steady h) fun _ _ => ih _ (by omega) rfl

theorem interfaceDescription_steady {data : Bytes} (hlength : data.length = remainingLength)
    (h : 4 ≤ remainingLength) :
    Steady fun stray => interfaceDescription reader ⟨data, stray⟩ remainingLength := by
  refine .bind (Buffer.read_steady (by omega)) fun linkType _ => interfaceOptions_steady ?_
  split <;> omega

theorem linkType_resolve {interfaceInfo : InterfaceInfo} :
    (interfaceInfo.resolve timestampResolution).linkType = interfaceInfo.linkType := by
  rw [InterfaceInfo.resolve]
  split
  · split <;> rfl
  · split <;> rfl

/-- Options leave the link type alone. -/
theorem linkType_interfaceOptions {body : Buffer UInt8} :
    (interfaceOptions reader body optionEnd optionOffset interfaceInfo).value.linkType =
      interfaceInfo.linkType := by
  induction hn : optionEnd - optionOffset using Nat.strong_induction_on generalizing optionOffset
    interfaceInfo with
  | _ n ih =>
  subst hn
  rw [interfaceOptions.eq_1]
  split
  · simp only [value_bind]
    split
    · rfl
    · rw [value_bind, ih _ (by omega) rfl, timestampOption]
      split
      · exact linkType_resolve
      · rfl
  · rfl

theorem linkType_interfaceDescription {body : Buffer UInt8} :
    (interfaceDescription reader body remainingLength).value.linkType =
      (reader.orderU16 (body.read 0 2).value).toUInt32 :=
  linkType_interfaceOptions

/-! ## Packets -/

/-- The 28 bytes of the smallest Enhanced Packet Block, less the header, are what is read. -/
theorem enhancedPacket_steady {data : Bytes} (hlength : data.length = remainingLength)
    (h : 20 ≤ remainingLength) :
    Steady fun stray => enhancedPacket reader ⟨data, stray⟩ remainingLength := by
  refine .bind (Buffer.read_steady (by omega)) fun interfaceId _ => ?_
  refine .bind (Buffer.read_steady (by omega)) fun ticksHigh _ => ?_
  refine .bind (Buffer.read_steady (by omega)) fun ticksLow _ => ?_
  refine .bind (Buffer.read_steady (by omega)) fun capturedLength _ => ?_
  refine .bind (Buffer.read_steady (by omega)) fun wireLength _ => ?_
  refine .ite (fun _ => .pure) fun hfits => ?_
  exact .bind (Buffer.read_steady (by omega)) fun packetData _ => .pure

theorem value_enhancedPacket_short {body : Buffer UInt8} (h : remainingLength < 20) :
    (enhancedPacket reader body remainingLength).value = .next := by
  simp only [enhancedPacket, value_bind]
  rw [if_pos (by omega), value_pure]

theorem inside_enhancedPacket_short {data stray : Bytes} (hlength : data.length = remainingLength)
    (h : remainingLength < 20) :
    (enhancedPacket reader ⟨data, stray⟩ remainingLength).inside = false := by
  simp only [enhancedPacket, inside_bind, Buffer.read]
  simp only [show ¬16 + 4 ≤ data.length by omega, decide_false, Bool.false_and, Bool.and_false]

theorem length_enhancedPacket {data stray : Bytes} (hlength : data.length = remainingLength)
    (h : (enhancedPacket reader ⟨data, stray⟩ remainingLength).value = .found packet) :
    packet.packetData.length = packet.capturedLength.toNat := by
  simp only [enhancedPacket, value_bind] at h
  split at h
  · cases h
  · rename_i hfits
    cases h
    exact Buffer.length_read (by dsimp only; omega)

theorem ethernetPayload_steady {packet : PacketBlock}
    (h : packet.packetData.length = packet.capturedLength.toNat) :
    Steady fun stray => ethernetPayload packet stray := by
  refine .ite (fun _ => .pure) fun hethernet => ?_
  refine .bind (Buffer.read_steady (by omega)) fun etherType _ => .ite (fun _ => .pure) fun _ => ?_
  refine .ite (fun _ => .pure) fun hip => ?_
  refine .bind (Buffer.read_steady (by omega)) fun ipVersion _ => .ite (fun _ => .pure) fun _ => ?_
  refine .ite (fun _ => .pure) fun hudp => ?_
  refine .bind (Buffer.read_steady (by omega)) fun protocol _ => .ite (fun _ => .pure) fun _ => ?_
  refine .bind (Buffer.read_steady (by omega)) fun udpLength _ => .ite (fun _ => .pure) fun _ => ?_
  refine .bind (Buffer.read_steady ?_) fun payload _ => .pure
  split <;> omega

theorem udpPayload_steady {packet : PacketBlock}
    (h : packet.packetData.length = packet.capturedLength.toNat) :
    Steady fun stray => udpPayload reader packet stray :=
  .ite (fun _ => .pure) fun _ => .ite (fun _ => .pure) fun _ =>
    .bind (ethernetPayload_steady h) fun _ _ => .pure

/-! ## One block

The rounds of the reader, one lemma for each way a round may go. -/

variable {file : Bytes}

/-- A total length the reader refuses. -/
def BadLength (totalLength : UInt32) : Prop := totalLength < 12 ∨ totalLength > MAX_BLOCK_LENGTH

theorem le_of_not_bad {totalLength : UInt32} (h : ¬BadLength totalLength) :
    12 ≤ totalLength.toNat := by
  rw [BadLength, not_or, UInt32.not_lt] at h
  exact UInt32.le_iff_toNat_le.mp h.1

theorem toNat_sub_eight {totalLength : UInt32} (h : ¬BadLength totalLength) :
    (totalLength - 8).toNat = totalLength.toNat - 8 :=
  UInt32.toNat_sub_of_le _ _ (UInt32.le_iff_toNat_le.mpr (le_trans (by decide) (le_of_not_bad h)))

theorem readBlock_cut (h : file.length < 8) :
    readBlock stray reader file = pure (.stop, { reader with file := some [] }) := by
  rw [readBlock]
  dsimp only
  rw [if_pos (by rw [List.length_take]; omega), List.drop_eq_nil_of_le (by omega)]

section
variable (hlength : 8 ≤ file.length)
include hlength

theorem length_take_eight : ¬(file.take 8).length ≠ 8 := by
  rw [not_not, List.length_take]
  omega

theorem readBlock_section (hsection : getU32 file = 0x0a0d0d0a) :
    readBlock stray reader file =
      pure (sectionHeader { reader with file := some (file.drop 8) } (file.drop 8)
        (file.take 8)) := by
  rw [readBlock]
  dsimp only
  rw [if_neg (length_take_eight hlength), if_pos (by rwa [getU32_take (by decide)])]

variable (hsection : getU32 file ≠ 0x0a0d0d0a)
include hsection

theorem readBlock_bad (hbad : BadLength (reader.orderU32 (file.drop 4))) :
    readBlock stray reader file = pure (.stop, { reader with file := some (file.drop 8) }) := by
  rw [readBlock]
  dsimp only
  rw [if_neg (length_take_eight hlength), if_neg (by rwa [getU32_take (by decide)])]
  rw [← orderU32_length] at hbad
  exact if_pos hbad

theorem readBlock_body (hgood : ¬BadLength (reader.orderU32 (file.drop 4))) :
    readBlock stray reader file =
      readBody stray { reader with file := some (file.drop 8) } (file.drop 8) (reader.orderU32 file)
        ((reader.orderU32 (file.drop 4)).toNat - 8) := by
  rw [← toNat_sub_eight hgood, ← orderU32_length, ← @orderU32_take reader 8 file (by decide)]
  rw [← orderU32_length] at hgood
  rw [readBlock]
  dsimp only
  rw [if_neg (length_take_eight hlength), if_neg (by rwa [getU32_take (by decide)])]
  exact if_neg hgood

end

/-- The reader behind `count` more bytes. -/
def skip (reader : PcapngReader) (file : Bytes) (count : Nat) : PcapngReader :=
  { reader with file := some (file.drop count) }

theorem readBody_interface (h : remainingLength ≤ file.length) :
    readBody stray reader file 1 remainingLength =
      interfaceDescription (reader.skip file remainingLength)
          ⟨file.take remainingLength, stray (file.drop remainingLength).length⟩ remainingLength
            >>= fun info =>
        pure (.next,
          { reader.skip file remainingLength with interfaces := reader.interfaces ++ [info] }) := by
  rw [readBody, if_pos rfl]
  dsimp only
  rw [if_neg (by rw [not_not, List.length_take]; omega)]
  rfl

theorem readBody_packet (h : remainingLength ≤ file.length) :
    readBody stray reader file 6 remainingLength =
      enhancedPacket (reader.skip file remainingLength)
          ⟨file.take remainingLength, stray (file.drop remainingLength).length⟩ remainingLength
            >>= fun round =>
        pure (round, reader.skip file remainingLength) := by
  rw [readBody, if_neg (by decide), if_pos rfl]
  dsimp only
  rw [if_neg (by rw [not_not, List.length_take]; omega)]
  rfl

theorem readBody_other (hinterface : blockType ≠ 1) (hpacket : blockType ≠ 6) :
    readBody stray reader file blockType remainingLength =
      pure (.next, reader.skip file remainingLength) := by
  rw [readBody, if_neg hinterface, if_neg hpacket]
  rfl

theorem readBody_cut (h : file.length < remainingLength) (htype : blockType = 1 ∨ blockType = 6) :
    readBody stray reader file blockType remainingLength =
      pure (.stop, { reader with file := some [] }) := by
  have hshort : (file.take remainingLength).length ≠ remainingLength := by
    rw [List.length_take]
    omega
  rcases htype with rfl | rfl
  · rw [readBody, if_pos rfl]
    dsimp only
    rw [if_pos hshort, List.drop_eq_nil_of_le (by omega)]
  · rw [readBody, if_neg (by decide), if_pos rfl]
    dsimp only
    rw [if_pos hshort, List.drop_eq_nil_of_le (by omega)]

/-- Inside a section interfaces are added only. -/
theorem readBody_interfaces :
    reader.interfaces <+:
      (readBody stray reader file blockType remainingLength).value.2.interfaces := by
  by_cases htype : blockType = 1 ∨ blockType = 6
  · by_cases hcut : file.length < remainingLength
    · rw [readBody_cut hcut htype]
      exact List.prefix_refl _
    rcases htype with rfl | rfl
    · rw [readBody_interface (by omega)]
      exact List.prefix_append ..
    · rw [readBody_packet (by omega)]
      exact List.prefix_refl _
  · rw [not_or] at htype
    rw [readBody_other htype.1 htype.2]
    exact List.prefix_refl _

/-! ## What lies behind the buffers -/

/-- An Enhanced Packet Block of the file that has no room for what is read of it. -/
def ShortPacket (blockType : UInt32) (remainingLength : Nat) (file : Bytes) : Prop :=
  blockType = 6 ∧ remainingLength ≤ file.length ∧ remainingLength < 20

theorem readBody_steady (hroom : 4 ≤ remainingLength)
    (h : ¬ShortPacket blockType remainingLength file) :
    Steady fun stray => readBody stray reader file blockType remainingLength := by
  refine .ite (fun _ => .ite (fun _ => .pure) fun hbody => .bind ?_ fun _ _ => .pure) fun _ => ?_
  · exact (interfaceDescription_steady (not_not.mp hbody) hroom).comp _
  refine .ite (fun htype => .ite (fun _ => .pure) fun hbody => .bind ?_ fun _ _ => .pure) fun _ =>
    .pure
  refine (enhancedPacket_steady (not_not.mp hbody) ?_).comp _
  have hlength : min remainingLength file.length = remainingLength :=
    List.length_take.symm.trans (not_not.mp hbody)
  by_contra hshort
  exact h ⟨htype, by omega, by omega⟩

theorem readBody_short (h : ShortPacket blockType remainingLength file) :
    (readBody stray reader file blockType remainingLength).value =
      (.next, reader.skip file remainingLength) ∧
    (readBody stray reader file blockType remainingLength).inside = false := by
  obtain ⟨rfl, hle, hlt⟩ := h
  rw [readBody_packet hle, value_bind, inside_bind, value_enhancedPacket_short hlt,
    inside_enhancedPacket_short (by rw [List.length_take]; omega) hlt]
  exact ⟨rfl, rfl⟩

theorem readBody_found
    (h : (readBody stray reader file blockType remainingLength).value = (.found packet, reader')) :
    packet.packetData.length = packet.capturedLength.toNat := by
  by_cases hle : remainingLength ≤ file.length
  · by_cases hinterface : blockType = 1
    · subst hinterface
      rw [readBody_interface hle, value_bind, value_pure] at h
      cases h
    by_cases hpacket : blockType = 6
    · subst hpacket
      rw [readBody_packet hle, value_bind, value_pure] at h
      exact length_enhancedPacket (by rw [List.length_take]; omega) (congrArg Prod.fst h)
    rw [readBody_other hinterface hpacket, value_pure] at h
    cases h
  · by_cases htype : blockType = 1 ∨ blockType = 6
    · rw [readBody_cut (by omega) htype, value_pure] at h
      cases h
    · rw [not_or] at htype
      rw [readBody_other htype.1 htype.2, value_pure] at h
      cases h

theorem sectionHeader_ne_found : (sectionHeader reader file blockHeader).1 ≠ .found packet := by
  rw [sectionHeader]
  dsimp only
  split
  · simp
  split
  · simp
  split <;> simp

theorem readBlock_found (h : (readBlock stray reader file).value = (.found packet, reader')) :
    packet.packetData.length = packet.capturedLength.toNat := by
  by_cases hlength : 8 ≤ file.length
  · by_cases hsection : getU32 file = 0x0a0d0d0a
    · rw [readBlock_section hlength hsection, value_pure] at h
      exact absurd (congrArg Prod.fst h) sectionHeader_ne_found
    by_cases hbad : BadLength (reader.orderU32 (file.drop 4))
    · rw [readBlock_bad hlength hsection hbad, value_pure] at h
      cases h
    rw [readBlock_body hlength hsection hbad] at h
    exact readBody_found h
  · rw [readBlock_cut (by omega), value_pure] at h
    cases h

/-! ## One step -/

/-- What `next_packet` makes of a round: a payload with its timestamp, or nothing. -/
def examine (stray : Nat → Bytes) :
    Round PacketBlock × PcapngReader → Reads (Round (Bytes × UInt64) × PcapngReader)
  | (.stop, reader) => pure (.stop, reader)
  | (.next, reader) => pure (.next, reader)
  | (.found packet, reader) => reader.udpPayload packet (stray reader.unread) >>= fun
    | (none, reader) => pure (.next, reader)
    | (some payload, reader) => pure (.found (payload, packet.timestampNs), reader)

def step (stray : Nat → Bytes) (reader : PcapngReader) :
    Reads (Round (Bytes × UInt64) × PcapngReader) :=
  match reader.file with
  | none => pure (.stop, reader)
  | some file => readBlock stray reader file >>= examine stray

/-- The reader a step leaves. -/
def after (stray : Nat → Bytes) (reader : PcapngReader) : PcapngReader :=
  (step stray reader).value.2

theorem step_none (hfile : reader.file = none) : step stray reader = pure (.stop, reader) := by
  rw [step, hfile]

theorem step_some (hfile : reader.file = some file) :
    step stray reader = readBlock stray reader file >>= examine stray := by
  rw [step, hfile]

/-- What is examined sets no more than the warnings. -/
theorem examine_warned (round : Round PacketBlock × PcapngReader) :
    ∃ truncated linkType, (examine stray round).value.2 =
      { round.2 with warnedTruncated := truncated, warnedLinkType := linkType } := by
  obtain ⟨round, reader⟩ := round
  cases round with
  | stop => exact ⟨_, _, rfl⟩
  | next => exact ⟨_, _, rfl⟩
  | found packet =>
    rw [examine, value_bind]
    generalize hpayload : (reader.udpPayload packet (stray reader.unread)).value = payload
    have hwarned := udpPayload_warned (congrArg Prod.snd hpayload)
    obtain ⟨payload, reader'⟩ := payload
    cases payload <;> exact ⟨_, _, hwarned⟩

theorem examine_interfaces {round : Round PacketBlock × PcapngReader} :
    (examine stray round).value.2.interfaces = round.2.interfaces := by
  obtain ⟨_, _, hwarned⟩ := @examine_warned stray round
  rw [hwarned]

theorem nextPacket_step :
    nextPacket stray reader = step stray reader >>= fun
      | (.stop, reader) => pure (none, reader)
      | (.next, reader) => nextPacket stray reader
      | (.found packet, reader) => pure (some packet, reader) := by
  rw [nextPacket_eq, readUntilNextPacketBlock_eq]
  cases hfile : reader.file with
  | none =>
    rw [step_none hfile]
    rfl
  | some file =>
    rw [step_some hfile]
    simp only [bind_assoc]
    refine congrArg (readBlock stray reader file >>= ·) (funext fun round => ?_)
    obtain ⟨round, reader⟩ := round
    cases round with
    | stop => simp only [examine, pure_bind]
    | next =>
      simp only [examine, pure_bind]
      exact (nextPacket_eq stray reader).symm
    | found packet =>
      simp only [examine, pure_bind, bind_assoc]
      refine congrArg (reader.udpPayload packet (stray reader.unread) >>= ·)
        (funext fun payload => ?_)
      obtain ⟨payload, reader⟩ := payload
      cases payload <;> rfl

theorem packets_eq :
    packets stray reader = nextPacket stray reader >>= fun
      | (none, _) => pure []
      | (some packet, reader) => (packet :: ·) <$> packets stray reader := by
  rw [packets]
  split <;> rename_i hcall <;> refine Reads.ext ?_ ?_ <;>
    simp [hcall]

theorem packets_step :
    packets stray reader = step stray reader >>= fun
      | (.stop, _) => pure []
      | (.next, reader) => packets stray reader
      | (.found packet, reader) => (packet :: ·) <$> packets stray reader := by
  rw [packets_eq, nextPacket_step, bind_assoc]
  refine congrArg (step stray reader >>= ·) (funext fun round => ?_)
  obtain ⟨round, reader⟩ := round
  cases round with
  | stop => rfl
  | next => exact packets_eq.symm
  | found packet => rw [pure_bind]

theorem value_packets_step :
    (packets stray reader).value = match (step stray reader).value with
      | (.stop, _) => []
      | (.next, reader) => (packets stray reader).value
      | (.found packet, reader) => packet :: (packets stray reader).value := by
  rw [packets_step, value_bind]
  obtain ⟨round, reader⟩ := (step stray reader).value
  cases round <;> rfl

/-- Every step but the last consumes a block header. -/
theorem unread_step (h : (step stray reader).value.1 ≠ .stop) :
    (step stray reader).value.2.unread < reader.unread := by
  cases hfile : reader.file with
  | none =>
    rw [step_none hfile] at h
    exact absurd rfl h
  | some file =>
    have hunread : reader.unread = file.length := by rw [unread, hfile]; rfl
    rw [hunread]
    rw [step_some hfile, value_bind] at h ⊢
    have hlt := @unread_readBlock stray reader file
    generalize (readBlock stray reader file).value = round at h hlt ⊢
    obtain ⟨round, next⟩ := round
    cases round with
    | stop => exact absurd rfl h
    | next => exact hlt (by simp)
    | found packet =>
      rw [examine, value_bind] at h ⊢
      have hkept := @unread_udpPayload packet next (stray next.unread)
      generalize (next.udpPayload packet (stray next.unread)).value = payload at h hkept ⊢
      obtain ⟨payload, next'⟩ := payload
      cases payload <;> exact hkept.trans_lt (hlt (by simp))

/-- The next block is an Enhanced Packet Block of less than 28 bytes, all of them in the file. -/
structure ShortBlock (reader : PcapngReader) (file : Bytes) : Prop where
  header : 8 ≤ file.length
  section_ne : getU32 file ≠ 0x0a0d0d0a
  good : ¬BadLength (reader.orderU32 (file.drop 4))
  short : ShortPacket (reader.orderU32 file)
    ((reader.orderU32 (file.drop 4)).toNat - 8) (file.drop 8)

theorem readBlock_steady (h : ¬reader.ShortBlock file) : Steady fun stray =>
    readBlock stray reader file := by
  by_cases hlength : 8 ≤ file.length
  · by_cases hsection : getU32 file = 0x0a0d0d0a
    · exact ⟨_, fun stray => readBlock_section hlength hsection⟩
    by_cases hbad : BadLength (reader.orderU32 (file.drop 4))
    · exact ⟨_, fun stray => readBlock_bad hlength hsection hbad⟩
    simp only [funext fun stray => @readBlock_body stray reader file hlength hsection hbad]
    have hle := le_of_not_bad hbad
    exact readBody_steady (by omega) fun hshort => h ⟨hlength, hsection, hbad, hshort⟩
  · exact ⟨_, fun stray => readBlock_cut (by omega)⟩

theorem step_steady (h : ∀ file ∈ reader.file, ¬reader.ShortBlock file) :
    Steady fun stray => step stray reader := by
  cases hfile : reader.file with
  | none => exact ⟨_, fun stray => step_none hfile⟩
  | some file =>
    rw [funext fun stray => @step_some stray reader file hfile]
    refine .bind (readBlock_steady (h file hfile)) fun round hround => ?_
    obtain ⟨round, reader'⟩ := round
    cases round with
    | stop => exact .pure
    | next => exact .pure
    | found packet =>
      have hpacket := readBlock_found (congrArg Reads.value (hround fun _ => []))
      refine .bind ((udpPayload_steady hpacket).comp _) fun payload _ => ?_
      obtain ⟨payload, reader''⟩ := payload
      cases payload <;> exact .pure

theorem step_short (hfile : reader.file = some file) (h : reader.ShortBlock file) :
    (step stray reader).value =
      (.next, reader.skip file (reader.orderU32 (file.drop 4)).toNat) ∧
      (step stray reader).inside = false := by
  have hle := le_of_not_bad h.good
  obtain ⟨hvalue, hinside⟩ :=
    @readBody_short stray { reader with file := some (file.drop 8) } _ _ _ h.short
  rw [step_some hfile, readBlock_body h.header h.section_ne h.good, value_bind, inside_bind,
    hvalue, hinside]
  refine ⟨?_, rfl⟩
  have hskip : (file.drop 8).drop ((reader.orderU32 (file.drop 4)).toNat - 8) =
      file.drop (reader.orderU32 (file.drop 4)).toNat := by
    rw [List.drop_drop]
    congr 1
    omega
  rw [examine, value_pure, skip, skip, hskip]

/-- What memory holds behind the buffers decides nothing. -/
theorem step_stray (stray stray' : Nat → Bytes) : (step stray reader).value =
    (step stray' reader).value := by
  by_cases h : ∀ file ∈ reader.file, ¬reader.ShortBlock file
  · exact (step_steady h).value_eq stray stray'
  · push Not at h
    obtain ⟨file, hfile, hshort⟩ := h
    rw [(step_short hfile hshort).1, (step_short hfile hshort).1]

/-- A step leaves the buffers just at a short block. -/
theorem inside_step : (step stray reader).inside = true ↔ ∀ file ∈ reader.file,
    ¬reader.ShortBlock file := by
  refine ⟨fun h file hfile hshort => ?_, fun h => (step_steady h).inside stray⟩
  rw [(step_short hfile hshort).2] at h
  cases h

end
end MegaFeed.PcapngReader
