import MegaFeed.Spec.Capture
import MegaFeed.Verify.PcapngReader

/-! # Reading what was written

The reader hands back, from the file of any sections, the payloads of their datagrams and nothing
else (`reads_back`): each block is one step (`step_entry`), and a section header sets byte order and
interfaces. -/

namespace MegaFeed.Pcapng
open PcapngReader

/-! ## Words -/

@[simp] theorem length_word16 : (word16 swapped value).length = 2 := by cases swapped <;> rfl
@[simp] theorem length_word32 : (word32 swapped value).length = 4 := by cases swapped <;> rfl

theorem orderU32_word32 {reader : PcapngReader} (h : reader.isSwappedEndian = swapped) :
    reader.orderU32 (word32 swapped value ++ behind) = value := by
  rw [orderU32_eq, h]
  cases swapped with
  | false => exact getU32_putU32
  | true => exact @getU32_putU32 value []

theorem orderU16_word16 {reader : PcapngReader} (h : reader.isSwappedEndian = swapped) :
    reader.orderU16 (word16 swapped value ++ behind) = value := by
  rw [orderU16_eq, h]
  cases swapped with
  | false => exact getU16_putU16
  | true => exact @getU16_putU16 value []

theorem orderU32_word32_self {reader : PcapngReader} (h : reader.isSwappedEndian = swapped) :
    reader.orderU32 (word32 swapped value) = value := by
  rw [← List.append_nil (word32 swapped value), orderU32_word32 h]

theorem orderU16_word16_self {reader : PcapngReader} (h : reader.isSwappedEndian = swapped) :
    reader.orderU16 (word16 swapped value) = value := by
  rw [← List.append_nil (word16 swapped value), orderU16_word16 h]

theorem netU16_putU16_reverse {value : UInt16} : netU16 (putU16 value).reverse = value := by
  have hvalue : getU16 (putU16 value ++ []) = value := getU16_putU16
  rw [netU16, UInt16.or_comm]
  exact hvalue

/-- The two halves of a tick count. -/
theorem join_halves (ticks : UInt64) :
    (ticks >>> 32).toUInt32.toUInt64 <<< 32 ||| ticks.toUInt32.toUInt64 = ticks := by
  apply UInt64.toNat_inj.mp
  have hlt := ticks.toNat_lt
  have hhigh : ((ticks >>> 32).toUInt32.toUInt64 <<< 32).toNat = (ticks.toNat / 2 ^ 32) <<< 32 := by
    simp [Nat.shiftRight_eq_div_pow, Nat.shiftLeft_eq]
    omega
  have hlow : ticks.toUInt32.toUInt64.toNat = ticks.toNat % 2 ^ 32 := by simp
  rw [UInt64.toNat_or, hhigh, hlow, ← Nat.shiftLeft_add_eq_or_of_lt (Nat.mod_lt _ (by decide)),
    Nat.shiftLeft_eq]
  omega

/-! ## Blocks -/

section
variable {reader : PcapngReader} {stray : Nat → Bytes}

theorem readBlock_block (hswapped : reader.isSwappedEndian = swapped) (htype : type ≠ 0x0a0d0d0a)
    (hsize : (block swapped type body).length ≤ MAX_BLOCK_LENGTH.toNat) :
    readBlock stray reader (block swapped type body ++ more) =
      readBody stray
        { reader with file := some (body ++
          (word32 swapped (UInt32.ofNat (body.length + 12)) ++ more)) }
        (body ++ (word32 swapped (UInt32.ofNat (body.length + 12)) ++ more)) type
          (body.length + 4) := by
  have hlength : (block swapped type body).length = body.length + 12 := by
    simp [block]
    omega
  have hmax : MAX_BLOCK_LENGTH.toNat = 16777216 := rfl
  have htotal : (UInt32.ofNat (body.length + 12)).toNat = body.length + 12 := by
    rw [UInt32.toNat_ofNat', Nat.mod_eq_of_lt (by omega)]
  have hfile : block swapped type body ++ more = word32 swapped type ++
      (word32 swapped (UInt32.ofNat (body.length + 12)) ++
        (body ++ (word32 swapped (UInt32.ofNat (body.length + 12)) ++ more))) := by
    simp [block]
  have hdrop4 : (block swapped type body ++ more).drop 4 =
      word32 swapped (UInt32.ofNat (body.length + 12)) ++
        (body ++ (word32 swapped (UInt32.ofNat (body.length + 12)) ++ more)) := by
    rw [hfile, List.drop_left' length_word32]
  have hdrop8 : (block swapped type body ++ more).drop 8 =
      body ++ (word32 swapped (UInt32.ofNat (body.length + 12)) ++ more) := by
    rw [show 8 = 4 + 4 from rfl, ← List.drop_drop, hdrop4, List.drop_left' length_word32]
  have htypeAt : reader.orderU32 (block swapped type body ++ more) = type := by
    rw [hfile, orderU32_word32 hswapped]
  have hlengthAt : reader.orderU32 ((block swapped type body ++ more).drop 4) =
      UInt32.ofNat (body.length + 12) := by
    rw [hdrop4, orderU32_word32 hswapped]
  have hgood : ¬BadLength (UInt32.ofNat (body.length + 12)) := by
    rw [BadLength, not_or, UInt32.not_lt, gt_iff_lt, UInt32.not_lt, UInt32.le_iff_toNat_le,
      UInt32.le_iff_toNat_le, htotal]
    exact ⟨Nat.le_add_left .., hlength ▸ hsize⟩
  rw [readBlock_body, hlengthAt, htypeAt, hdrop8, htotal]
  · rfl
  · rw [List.length_append, hlength]
    omega
  · intro hsection
    rw [orderU32_section hsection] at htypeAt
    exact htype htypeAt.symm
  · rwa [hlengthAt]

theorem take_block {body length : Bytes} (hlength : length.length = 4) :
    (body ++ (length ++ more)).take (body.length + 4) = body ++ length ∧
    (body ++ (length ++ more)).drop (body.length + 4) = more := by
  have hwhole : body.length + 4 = (body ++ length).length := by rw [List.length_append, hlength]
  rw [hwhole, ← List.append_assoc, List.take_left, List.drop_left]
  exact ⟨rfl, rfl⟩

theorem readBlock_interface (hswapped : reader.isSwappedEndian = swapped)
    (hsize : (block swapped 1 body).length ≤ MAX_BLOCK_LENGTH.toNat) :
    (readBlock stray reader (block swapped 1 body ++ more)).value =
      (.next, { reader with
        file := some more
        interfaces := reader.interfaces ++ [(interfaceDescription { reader with file := some more }
          ⟨body ++ word32 swapped (UInt32.ofNat (body.length + 12)), []⟩
          (body.length + 4)).value] }) := by
  obtain ⟨htake, hdrop⟩ :=
    @take_block more body (word32 swapped (UInt32.ofNat (body.length + 12))) length_word32
  rw [readBlock_block hswapped (by decide) hsize, readBody_interface (by simp), Reads.value_bind,
    Reads.value_pure, skip, htake, hdrop]
  rw [(interfaceDescription_steady (by simp) (by omega)).value_eq _ []]

theorem readBlock_packet (hswapped : reader.isSwappedEndian = swapped)
    (hsize : (block swapped 6 body).length ≤ MAX_BLOCK_LENGTH.toNat) :
    (readBlock stray reader (block swapped 6 body ++ more)).value =
      ((enhancedPacket { reader with file := some more }
          ⟨body ++ word32 swapped (UInt32.ofNat (body.length + 12)), stray more.length⟩
          (body.length + 4)).value,
        { reader with file := some more }) := by
  obtain ⟨htake, hdrop⟩ :=
    @take_block more body (word32 swapped (UInt32.ofNat (body.length + 12))) length_word32
  rw [readBlock_block hswapped (by decide) hsize, readBody_packet (by simp), Reads.value_bind,
    Reads.value_pure, skip, htake, hdrop]

theorem readBlock_other (hswapped : reader.isSwappedEndian = swapped)
    (hsize : (block swapped type body).length ≤ MAX_BLOCK_LENGTH.toNat)
    (hsection : type ≠ 0x0a0d0d0a)
    (hinterface : type ≠ 1) (hpacket : type ≠ 6) :
    (readBlock stray reader (block swapped type body ++ more)).value =
      (.next, { reader with file := some more }) := by
  rw [readBlock_block hswapped hsection hsize, readBody_other hinterface hpacket,
    Reads.value_pure, skip, (take_block length_word32).2]

/-- The interface a packet is of, as the reader has it. -/
def interfaceOf (reader : PcapngReader) (interfaceId : UInt32) : InterfaceInfo :=
  reader.interfaces[interfaceId.toNat]?.getD ⟨1, 1000, 1⟩

theorem value_enhancedPacket (hswapped : reader.isSwappedEndian = swapped)
    (hdata : data.length < 2 ^ 32)
    {length behind : Bytes} :
    (enhancedPacket reader ⟨packetBody swapped interfaceId ticks data wireLength rest ++
      length, behind⟩
        ((packetBody swapped interfaceId ticks data wireLength rest).length + 4)).value =
      .found {
        packetData := data
        capturedLength := UInt32.ofNat data.length
        timestampNs := .ofNat (ticks.toNat * (interfaceOf reader interfaceId).nsMultiplier.toNat /
          (interfaceOf reader interfaceId).nsDivisor.toNat)
        wireLength
        packetLinkType := (interfaceOf reader interfaceId).linkType } := by
  have hsize : (packetBody swapped interfaceId ticks data wireLength rest).length =
      20 + data.length + rest.length := by
    simp [packetBody]
    omega
  have hcaptured : (UInt32.ofNat data.length).toNat = data.length := by
    rw [UInt32.toNat_ofNat', Nat.mod_eq_of_lt hdata]
  let high := (ticks >>> 32).toUInt32
  let low := ticks.toUInt32
  let captured := UInt32.ofNat data.length
  have hword {before after : Bytes} {value : UInt32} (offset : Nat)
      (hbody : packetBody swapped interfaceId ticks data wireLength rest ++ length =
        before ++ (word32 swapped value ++ after)) (hoffset : before.length = offset) :
      reader.orderU32 (Buffer.read
        ⟨packetBody swapped interfaceId ticks data wireLength rest ++ length, behind⟩ offset
        4).value = value := by
    rw [Buffer.value_read hbody hoffset length_word32, orderU32_word32_self hswapped]
  have hinterface := @hword []
    (word32 swapped high ++ (word32 swapped low ++ (word32 swapped captured ++
    (word32 swapped wireLength ++ (data ++ (rest ++ length)))))) interfaceId 0
    (by simp [packetBody, high, low, captured]) rfl
  have hhigh := @hword (word32 swapped interfaceId)
    (word32 swapped low ++ (word32 swapped captured ++
    (word32 swapped wireLength ++ (data ++ (rest ++ length))))) high 4
    (by simp [packetBody, high, low, captured]) (by simp)
  have hlow := @hword (word32 swapped interfaceId ++ word32 swapped high)
    (word32 swapped captured ++ (word32 swapped wireLength ++ (data ++ (rest ++ length)))) low 8
    (by simp [packetBody, high, low, captured]) (by simp)
  have hlen := @hword (word32 swapped interfaceId ++ word32 swapped high ++ word32 swapped low)
    (word32 swapped wireLength ++ (data ++ (rest ++ length))) captured 12
      (by simp [packetBody, high, low, captured]) (by simp)
  have hwire := @hword (word32 swapped interfaceId ++ word32 swapped high ++ word32 swapped low ++
    word32 swapped captured) (data ++ (rest ++ length)) wireLength 16
    (by simp [packetBody, high, low, captured]) (by simp)
  have hpacket :
      (Buffer.read ⟨packetBody swapped interfaceId ticks data wireLength rest ++ length, behind⟩
      20 data.length).value = data := by
    refine @Buffer.value_read _ _ _ _ (word32 swapped interfaceId ++ word32 swapped high ++
      word32 swapped low ++ word32 swapped captured ++ word32 swapped wireLength) data
      (rest ++ length) behind ?_ (by simp) rfl
    simp [packetBody, high, low, captured]
  simp only [enhancedPacket, Reads.value_bind]
  rw [hinterface, hhigh, hlow, hlen, hwire, if_neg (by rw [hcaptured]; omega), join_halves,
    Reads.value_bind, hcaptured, hpacket]
  rfl

/-! ## Frames -/

theorem byte_slice {bytes : Bytes} : Bytes.byte ((bytes.drop offset).take 1) 0 =
    bytes.byte offset := by
  simp [Bytes.byte]

theorem eq_of_netU16 {bytes : Bytes} (hlength : bytes.length = 2) (h : netU16 bytes = value) :
    bytes = (putU16 value).reverse := by
  obtain ⟨high, low, rfl⟩ := List.length_eq_two.mp hlength
  have hback : putU16 (getU16 [low, high]) = [low, high] := putU16_getU16 (by simp)
  rw [netU16, UInt16.or_comm] at h
  rw [← h]
  exact (congrArg List.reverse hback).symm

theorem length_frame {frame : UdpFrame} :
    frame.bytes.length = 14 + frame.headerWords * 4 + 8 + frame.payload.length +
      frame.padding.length := by
  have hwords := frame.words_ge
  simp [UdpFrame.bytes, frame.addresses_length]
  omega

theorem versionByte (hge : 5 ≤ words) (hle : words ≤ 15) :
    (0x40 ||| UInt8.ofNat words) >>> 4 = 4 ∧
    ((0x40 ||| UInt8.ofNat words) &&& 0x0f).toNat = words := by
  interval_cases words <;> decide

theorem value_udpPayload_frame {frame : UdpFrame} {behind : Bytes} {packet : PacketBlock}
    (hdata : packet.packetData = frame.bytes)
    (hcaptured : packet.capturedLength.toNat = frame.bytes.length)
    (hwire : ¬packet.capturedLength < packet.wireLength) (hlink : packet.packetLinkType = 1) :
    (udpPayload reader packet behind).value = (some frame.payload, reader) := by
  obtain ⟨hversion, hwords⟩ := versionByte frame.words_ge frame.words_le
  have hlength := @length_frame frame
  have hge := frame.words_ge
  have hudp : (UInt16.ofNat (frame.payload.length + 8)).toNat = frame.payload.length + 8 := by
    rw [UInt16.toNat_ofNat', Nat.mod_eq_of_lt frame.payload_fits]
  have hread {before field after : Bytes} (offset count : Nat)
      (hbytes : frame.bytes = before ++ (field ++ after))
      (hoffset : before.length = offset) (hcount : field.length = count) :
      (Buffer.read ⟨frame.bytes, behind⟩ offset count).value = field :=
        Buffer.value_read hbytes hoffset hcount
  have hethertype := @hread frame.macs.toList [0x08, 0x00] _ 12 2
    (by simp only [UdpFrame.bytes, List.append_assoc]; rfl) (by simp) rfl
  have hip := @hread (frame.macs.toList ++ [0x08, 0x00])
    [0x40 ||| UInt8.ofNat frame.headerWords] _ 14 1
    (by simp only [UdpFrame.bytes, List.append_assoc]; rfl) (by simp) rfl
  have hprotocol :=
    @hread (frame.macs.toList ++ [0x08, 0x00] ++ [0x40 ||| UInt8.ofNat frame.headerWords] ++
    frame.service.toList) [17] _ (14 + 9) 1 (by simp only [UdpFrame.bytes, List.append_assoc]; rfl)
    (by simp) rfl
  have hudpLength :=
    @hread (frame.macs.toList ++ [0x08, 0x00] ++ [0x40 ||| UInt8.ofNat frame.headerWords] ++
    frame.service.toList ++ [17] ++ frame.addresses ++ frame.ports.toList)
    (putU16 (UInt16.ofNat (frame.payload.length + 8))).reverse _ (14 + frame.headerWords * 4 + 4) 2
    (by simp only [UdpFrame.bytes, List.append_assoc]; rfl)
      (by simp [frame.addresses_length]; omega) rfl
  have hpayload :=
    @hread (frame.macs.toList ++ [0x08, 0x00] ++ [0x40 ||| UInt8.ofNat frame.headerWords] ++
    frame.service.toList ++ [17] ++ frame.addresses ++ frame.ports.toList ++
    (putU16 (UInt16.ofNat (frame.payload.length + 8))).reverse ++ frame.checksum.toList)
    frame.payload _
    (14 + frame.headerWords * 4 + 8) frame.payload.length
      (by simp only [UdpFrame.bytes, List.append_assoc]; rfl)
    (by simp [frame.addresses_length]; omega) rfl
  rw [udpPayload, if_neg hwire, if_neg (not_not.mpr hlink), Reads.value_bind, ethernetPayload,
    hdata, hcaptured]
  dsimp only
  rw [if_neg (by omega), Reads.value_bind, hethertype,
    if_neg (by decide), if_neg (by omega), Reads.value_bind, hip]
  rw [show Bytes.byte [0x40 ||| UInt8.ofNat frame.headerWords] 0 = 0x40 ||| UInt8.ofNat
    frame.headerWords from rfl, if_neg (not_not.mpr hversion), hwords, if_neg (by omega),
    Reads.value_bind, hprotocol, if_neg (by decide),
    Reads.value_bind, hudpLength, netU16_putU16_reverse, hudp, if_neg (by omega), Reads.value_bind,
    Nat.add_sub_cancel, if_neg (by omega), hpayload]
  rfl

/-- Only datagrams are handed back. -/
theorem udpPayload_some {behind : Bytes} {packet : PacketBlock}
    (hlength : packet.packetData.length = packet.capturedLength.toNat)
    (h : (udpPayload reader packet behind).value = (some payload, reader')) :
    ¬packet.capturedLength < packet.wireLength ∧ packet.packetLinkType = 1 ∧
    ¬Entry.NotUdp packet.packetData := by
  have hslice {offset count : Nat} (hfits : offset + count ≤ packet.capturedLength.toNat) :
      (Buffer.read ⟨packet.packetData, behind⟩ offset count).value =
        (packet.packetData.drop offset).take count :=
    congrArg Reads.value (Buffer.read_sure (by omega) behind)
  rw [udpPayload] at h
  split at h
  · cases h
  rename_i hwire
  split at h
  · cases h
  rename_i hlink
  rw [Reads.value_bind, ethernetPayload] at h
  dsimp only at h
  split at h
  · cases h
  rw [Reads.value_bind, hslice (by omega)] at h
  split at h
  · cases h
  rename_i hethertype
  split at h
  · cases h
  rw [Reads.value_bind, hslice (by omega)] at h
  split at h
  · cases h
  rename_i hversion
  split at h
  · cases h
  rw [Reads.value_bind, hslice (by omega)] at h
  split at h
  · cases h
  rename_i hprotocol
  refine ⟨hwire, not_not.mp hlink, ?_⟩
  rw [byte_slice] at hversion hprotocol
  rintro (h | h | h)
  · exact h (eq_of_netU16 (by simp; omega) (not_not.mp hethertype))
  · exact hversion h
  · exact hprotocol h

/-! ## Blocks, step by step -/

/-- A reader inside a section: what is left of the file, and the link types of the
interfaces so far. -/
structure Ready (reader : PcapngReader) (swapped : Bool) (links : List UInt16)
    (more : Bytes) : Prop where
  file : reader.file = some more
  order : reader.isSwappedEndian = swapped
  linkTypes : reader.interfaces.map (·.linkType) = links.map (·.toUInt32)

theorem Ready.interfaceOf (R : Ready reader swapped links more)
    (h : links[interfaceId.toNat]? = some link) :
    (interfaceOf reader interfaceId).linkType = link.toUInt32 := by
  have hlinks : (reader.interfaces.map (·.linkType))[interfaceId.toNat]? = some link.toUInt32 := by
    rw [R.linkTypes, List.getElem?_map, h]
    rfl
  rw [List.getElem?_map] at hlinks
  obtain ⟨info, hinfo, hlink⟩ := Option.map_eq_some_iff.mp hlinks
  rw [Pcapng.interfaceOf, hinfo]
  exact hlink

theorem linkType_described (hswapped : reader.isSwappedEndian = swapped) {behind : Bytes} :
    (interfaceDescription reader ⟨word16 swapped linkType ++ rest ++ behind, []⟩
      remainingLength).value.linkType =
      linkType.toUInt32 := by
  have hread : (Buffer.read ⟨word16 swapped linkType ++ rest ++ behind, []⟩ 0 2).value =
      word16 swapped linkType :=
    Buffer.value_read (by rw [List.append_assoc]; exact (List.nil_append _).symm) rfl length_word16
  rw [linkType_interfaceDescription, hread, orderU16_word16_self hswapped]

theorem step_interface
    (R : Ready reader swapped links (block swapped 1 (word16 swapped linkType ++ rest) ++ more))
    (hsize : (block swapped 1 (word16 swapped linkType ++ rest)).length ≤ MAX_BLOCK_LENGTH.toNat) :
    ∃ reader', (step stray reader).value = (.next, reader') ∧
    Ready reader' swapped (links ++ [linkType]) more := by
  rw [step_some R.file, Reads.value_bind, readBlock_interface R.order hsize]
  refine ⟨_, rfl, rfl, R.order, ?_⟩
  have hswapped : PcapngReader.isSwappedEndian { reader with file := some more } = swapped :=
    R.order
  rw [List.map_append, List.map_append, R.linkTypes, List.map_singleton, List.map_singleton,
    linkType_described hswapped]

theorem step_other (R : Ready reader swapped links (block swapped type body ++ more))
    (hsize : (block swapped type body).length ≤ MAX_BLOCK_LENGTH.toNat)
    (hsection : type ≠ 0x0a0d0d0a)
    (hinterface : type ≠ 1) (hpacket : type ≠ 6) :
    ∃ reader', (step stray reader).value = (.next, reader') ∧ Ready reader' swapped links more := by
  rw [step_some R.file, Reads.value_bind, readBlock_other R.order hsize hsection hinterface hpacket]
  exact ⟨_, rfl, rfl, R.order, R.linkTypes⟩

theorem length_data_lt
    (hsize : (block swapped 6 (packetBody swapped interfaceId ticks data wireLength rest)).length ≤
    MAX_BLOCK_LENGTH.toNat) : data.length < 2 ^ 32 := by
  have hmax : MAX_BLOCK_LENGTH.toNat = 16777216 := rfl
  simp [block, packetBody] at hsize
  omega

theorem step_datagram {frame : UdpFrame} {wireLength : UInt32}
    (hwire : wireLength = UInt32.ofNat frame.bytes.length)
    (R : Ready reader swapped links
      (block swapped 6 (packetBody swapped interfaceId ticks frame.bytes wireLength rest) ++ more))
    (hsize : (block swapped 6 (packetBody swapped interfaceId ticks frame.bytes wireLength
      rest)).length ≤
      MAX_BLOCK_LENGTH.toNat)
    (hlink : links[interfaceId.toNat]? = some 1) :
    ∃ timestampNs reader', (step stray reader).value =
      (.found (frame.payload, timestampNs), reader') ∧
      Ready reader' swapped links more := by
  have hlt := length_data_lt hsize
  have hswapped : PcapngReader.isSwappedEndian { reader with file := some more } = swapped :=
    R.order
  rw [step_some R.file, Reads.value_bind, readBlock_packet R.order hsize,
    value_enhancedPacket hswapped hlt, examine, Reads.value_bind]
  rw [value_udpPayload_frame rfl (by rw [UInt32.toNat_ofNat', Nat.mod_eq_of_lt hlt])
    (by rw [hwire]; exact UInt32.lt_irrefl _)
    (R.interfaceOf hlink)]
  exact ⟨_, _, rfl, rfl, R.order, R.linkTypes⟩

theorem step_packet
    (R : Ready reader swapped links
      (block swapped 6 (packetBody swapped interfaceId ticks data wireLength rest) ++ more))
    (hsize : (block swapped 6 (packetBody swapped interfaceId ticks data wireLength rest)).length ≤
      MAX_BLOCK_LENGTH.toNat)
    (hfits : Entry.Fits links (.packet interfaceId ticks data wireLength rest)) :
    ∃ reader', (step stray reader).value = (.next, reader') ∧ Ready reader' swapped links more := by
  have hlt := length_data_lt hsize
  have hswapped : PcapngReader.isSwappedEndian { reader with file := some more } = swapped :=
    R.order
  have hcaptured : (UInt32.ofNat data.length).toNat = data.length := by
    rw [UInt32.toNat_ofNat', Nat.mod_eq_of_lt hlt]
  rw [step_some R.file, Reads.value_bind, readBlock_packet R.order hsize,
    value_enhancedPacket hswapped hlt, examine, Reads.value_bind]
  dsimp only
  generalize hpayload : (udpPayload _ _ _).value = payload
  have hwarned := udpPayload_warned (congrArg Prod.snd hpayload)
  obtain ⟨payload, reader'⟩ := payload
  cases payload with
  | none =>
    refine ⟨reader', rfl, ?_⟩
    rw [show reader' = _ from hwarned]
    exact ⟨rfl, R.order, R.linkTypes⟩
  | some payload =>
    obtain ⟨hwire, hlink, hudp⟩ := udpPayload_some hcaptured.symm hpayload
    rcases hfits with hshort | ⟨link, hlinks, hother⟩ | hnot
    · rw [UInt32.lt_iff_toNat_lt, hcaptured] at hwire
      exact absurd hshort hwire
    · have heq : link.toUInt32 = (1 : UInt16).toUInt32 := (R.interfaceOf hlinks).symm.trans hlink
      exact absurd (UInt16.toUInt32_inj.mp heq) hother
    · exact absurd hnot hudp

/-- What a reader makes of a block. -/
def Entry.round (timestampNs : UInt64) (entry : Entry) : Round (Bytes × UInt64) :=
  match entry.payload? with
  | some payload => .found (payload, timestampNs)
  | none => .next

theorem step_entry {entry : Entry} (R : Ready reader swapped links (entry.bytes swapped ++ more))
    (hfits : entry.Fits links) (hsize : (entry.bytes swapped).length ≤ MAX_BLOCK_LENGTH.toNat) :
    ∃ timestampNs reader', (step stray reader).value = (entry.round timestampNs, reader') ∧
      Ready reader' swapped (entry.links links) more := by
  cases entry with
  | interface linkType rest => exact ⟨0, step_interface R hsize⟩
  | datagram interfaceId ticks frame rest => exact step_datagram rfl R hsize hfits
  | packet interfaceId ticks data wireLength rest => exact ⟨0, step_packet R hsize hfits⟩
  | other type body => exact ⟨0, step_other R hsize hfits.1 hfits.2.1 hfits.2.2⟩

/-! ## Files -/

theorem packets_entries {entries : List Entry}
    (R : Ready reader swapped links (entries.flatMap (·.bytes swapped) ++ more))
    (hfits : Fits swapped links entries) :
    ∃ reader', reader'.file = some more ∧ (packets stray reader).value.map Prod.fst =
      entries.filterMap (·.payload?) ++ (packets stray reader').value.map Prod.fst := by
  induction entries generalizing reader links with
  | nil => exact ⟨reader, R.file, rfl⟩
  | cons entry entries ih =>
    obtain ⟨hentry, hsize, hrest⟩ := hfits
    rw [List.flatMap_cons, List.append_assoc] at R
    obtain ⟨timestampNs, reader', hstep, R'⟩ := step_entry R hentry hsize
    obtain ⟨last, hlast, hpayloads⟩ := ih R' hrest
    refine ⟨last, hlast, ?_⟩
    rw [value_packets_step, hstep, Entry.round, List.filterMap_cons]
    cases entry.payload? with
    | none => exact hpayloads
    | some payload => exact congrArg (payload :: ·) hpayloads

theorem getU32_section : getU32 (word32 swapped 0x0a0d0d0a ++ behind) = 0x0a0d0d0a := by
  have hsame : word32 swapped 0x0a0d0d0a = putU32 0x0a0d0d0a := by cases swapped <;> rfl
  rw [hsame, getU32_putU32]

theorem getU32_magic :
    getU32 (word32 swapped 0x1a2b3c4d) = if swapped then 0x4d3c2b1a else 0x1a2b3c4d := by
  cases swapped <;> rfl

theorem step_header {s : Section} (hfile : reader.file = some (s.header ++ more)) :
    ∃ reader', (step stray reader).value = (.next, reader') ∧ Ready reader' s.swapped [] more := by
  have hmax : MAX_BLOCK_LENGTH.toNat = 16777216 := rfl
  have hfits := s.rest_fits
  have hrest := s.rest_length
  let length := word32 s.swapped (UInt32.ofNat (s.rest.length + 16))
  have hlength : length.length = 4 := length_word32
  have htotal : (UInt32.ofNat (s.rest.length + 16)).toNat = s.rest.length + 16 := by
    rw [UInt32.toNat_ofNat', Nat.mod_eq_of_lt (by omega)]
  have hsplit : s.header ++ more = word32 s.swapped 0x0a0d0d0a ++
      (length ++ (word32 s.swapped 0x1a2b3c4d ++
      (s.rest ++ (length ++ more)))) := by
    simp only [Section.header, List.append_assoc]
    rfl
  have hdrop4 : (s.header ++ more).drop 4 =
      length ++ (word32 s.swapped 0x1a2b3c4d ++ (s.rest ++ (length ++ more))) := by
    rw [hsplit, List.drop_left' length_word32]
  have hdrop8 : (s.header ++ more).drop 8 = word32 s.swapped 0x1a2b3c4d ++
      (s.rest ++ (length ++ more)) := by
    rw [show 8 = 4 + 4 from rfl, ← List.drop_drop, hdrop4, List.drop_left' hlength]
  have hmagic : ((s.header ++ more).drop 8).take 4 = word32 s.swapped 0x1a2b3c4d := by
    rw [hdrop8, List.take_left' length_word32]
  have hbehind : ((s.header ++ more).drop 8).drop 4 = s.rest ++ (length ++ more) := by
    rw [hdrop8, List.drop_left' length_word32]
  have hsection : getU32 (s.header ++ more) = 0x0a0d0d0a := by rw [hsplit, getU32_section]
  have hlong : 8 ≤ (s.header ++ more).length := by
    rw [hsplit]
    simp [hlength]
    omega
  have hswapped : decide (getU32 (word32 s.swapped 0x1a2b3c4d) ≠ 0x1a2b3c4d) = s.swapped := by
    rw [getU32_magic]
    cases s.swapped <;> rfl
  rw [step_some hfile, Reads.value_bind, readBlock_section hlong hsection, Reads.value_pure,
    sectionHeader]
  dsimp only
  rw [hmagic, hbehind, if_neg (by rw [length_word32]; simp),
    if_neg (by rw [getU32_magic]; cases s.swapped <;> decide),
    hswapped, orderU32_length, hdrop4, orderU32_word32 rfl]
  rw [if_neg (by
    rw [not_or, UInt32.not_lt, gt_iff_lt, UInt32.not_lt, UInt32.le_iff_toNat_le,
      UInt32.le_iff_toNat_le, htotal]
    exact ⟨Nat.add_le_add_right hrest 16, hfits⟩)]
  refine ⟨_, rfl, ?_, rfl, rfl⟩
  have hsub : (UInt32.ofNat (s.rest.length + 16) - 12).toNat = s.rest.length + 4 := by
    rw [UInt32.toNat_sub_of_le _ _
      (UInt32.le_iff_toNat_le.mpr (by rw [htotal]; exact Nat.le_add_left_of_le (by decide))),
      htotal]
    rfl
  dsimp only [fseek]
  rw [hsub, (take_block hlength).2]

theorem packets_sections {sections : List Section}
    (hfile : reader.file = some (sections.flatMap (·.bytes))) :
    (packets stray reader).value.map Prod.fst = sections.flatMap (·.payloads) := by
  induction sections generalizing reader with
  | nil =>
    rw [value_packets_step, step_some hfile, List.flatMap_nil, readBlock_cut (by decide)]
    rfl
  | cons s sections ih =>
    rw [List.flatMap_cons, Section.bytes, List.append_assoc] at hfile
    obtain ⟨reader', hstep, R⟩ := step_header hfile
    obtain ⟨last, hlast, hpayloads⟩ := packets_entries R s.fits
    rw [value_packets_step, hstep]
    dsimp only
    rw [hpayloads, ih hlast]
    rfl

/-- **Reading undoes writing.** From the file of any sections, in whatever byte orders, the reader
hands back the payloads of their datagrams, byte for byte and in order. -/
theorem reads_back (stray : Nat → Bytes) (reader : PcapngReader) {sections : List Section}
    (hsome : sections ≠ []) :
    (reader.openFile (some (sections.flatMap (·.bytes)))).1 = true ∧
    (packets stray (reader.openFile (some (sections.flatMap (·.bytes)))).2).value.map Prod.fst =
      sections.flatMap (·.payloads) := by
  have hopen : reader.openFile (some (sections.flatMap (·.bytes))) =
      (true, { reader with file := some (sections.flatMap (·.bytes)) }) := by
    obtain ⟨s, sections, rfl⟩ := List.exists_cons_of_ne_nil hsome
    have hmagic : ((s :: sections).flatMap (·.bytes)).take 4 = word32 s.swapped 0x0a0d0d0a := by
      rw [List.flatMap_cons, Section.bytes, Section.header]
      simp only [List.append_assoc]
      rw [List.take_left' length_word32]
    rw [openFile]
    dsimp only
    rw [hmagic, if_neg (by rw [length_word32]; simp), if_neg]
    · rfl
    · rw [← List.append_nil (word32 _ _), getU32_section]
      simp
  rw [hopen]
  exact ⟨rfl, packets_sections rfl⟩

end

/-- The shortest frame around a payload. -/
def plainFrame (payload : Bytes) (h : payload.length + 8 < 2 ^ 16) : UdpFrame where
  macs := .replicate 12 0
  headerWords := 5
  service := .replicate 8 0
  addresses := .replicate 10 0
  ports := .replicate 4 0
  payload
  checksum := .replicate 2 0
  padding := []
  words_ge := le_rfl
  words_le := by decide
  addresses_length := rfl
  payload_fits := h

/-- Two sections in different byte orders, the second with a packet of another link type. -/
theorem reads_back_orders :
    let little : Section := {
      swapped := false
      rest := .replicate 12 0
      entries :=
        [.interface 1 (.replicate 6 0), .datagram 0 7 (plainFrame [1, 2, 3] (by decide))
          [0], .other 5 [9]]
      rest_length := by decide
      rest_fits := by decide
      fits := ⟨trivial,
        by decide, rfl, by decide, ⟨by decide, by decide, by decide⟩, by decide, trivial⟩ }
    let big : Section := {
      swapped := true
      rest := .replicate 12 0
      entries := [.interface 101 (.replicate 6 0), .packet 0 8 [4, 5] 2 [0, 0],
        .interface 1 (.replicate 6 0), .datagram 1 9 (plainFrame [] (by decide)) []]
      rest_length := by decide
      rest_fits := by decide
      fits := ⟨trivial,
        by decide, .inr (.inl ⟨101, rfl, by decide⟩), by decide, trivial, by decide, rfl, by decide,
        trivial⟩ }
    (packets (fun _ => []) (openFile {} (some ([little, big].flatMap (·.bytes)))).2).value.map
      Prod.fst =
      [[1, 2, 3], []] := by
  intro little big
  exact (reads_back (fun _ => []) {} (List.cons_ne_nil little [big])).2

end MegaFeed.Pcapng
