import MegaFeed.Theory.Reads
import MegaFeed.Model.Helpers

/-! # `pcapng_reader.h`: the capture reader

A `FILE *` is the bytes from its position to the end of the file: `fread` takes what is there, and
a forward `fseek` that passes the end leaves nothing to read. Accesses to `body` and to
`packet_data` are `Reads`; `stray n` is what lies behind these vectors in memory while `n` bytes of
the file are unread. The warnings on `stderr` are left out, the flags that keep them from being
repeated are not. -/

namespace MegaFeed

/-- `fread(buffer, 1, count, file)`: the bytes it reads, and the file behind them. -/
abbrev fread (file : Bytes) (count : Nat) : Bytes × Bytes := (file.take count, file.drop count)

/-- `fseek(file, offset, SEEK_CUR)` -/
abbrev fseek (file : Bytes) (offset : Nat) : Bytes := file.drop offset

structure PcapngReader.InterfaceInfo where
  linkType : UInt32
  nsMultiplier : UInt64
  nsDivisor : UInt64
deriving DecidableEq

structure PcapngReader where
  file : Option Bytes := none
  isSwappedEndian : Bool := false
  warnedTruncated : Bool := false
  warnedLinkType : Bool := false
  interfaces : List PcapngReader.InterfaceInfo := []
deriving DecidableEq

namespace PcapngReader

def MAX_BLOCK_LENGTH : UInt32 := (16 : UInt32) <<< 20

def closeFile (reader : PcapngReader) : PcapngReader := { reader with file := none }

/-- `content` is the file `fopen` finds, if it finds one. -/
def openFile (reader : PcapngReader) (content : Option Bytes) : Bool × PcapngReader :=
  let reader := reader.closeFile
  match content with
  | none => (false, reader)
  | some content =>
    let (magicBytes, _) := fread content 4
    if magicBytes.length ≠ 4 then (false, reader.closeFile)
    else if getU32 magicBytes ≠ 0x0a0d0d0a then (false, reader.closeFile)
    else (true, { reader with file := some content })

def orderU16 (reader : PcapngReader) (bytes : Bytes) : UInt16 :=
  let value := getU16 bytes
  if reader.isSwappedEndian then value >>> 8 ||| value <<< 8 else value

def orderU32 (reader : PcapngReader) (bytes : Bytes) : UInt32 :=
  let value := getU32 bytes
  if reader.isSwappedEndian then
    ((value >>> 24) &&& (0x000000ff : UInt32)) ||| ((value >>> 8) &&& (0x0000ff00 : UInt32)) |||
    ((value <<< 8) &&& (0x00ff0000 : UInt32)) ||| ((value <<< 24) &&& (0xff000000 : UInt32))
  else value

def netU16 (bytes : Bytes) : UInt16 := (bytes.byte 0).toUInt16 <<< 8 ||| (bytes.byte 1).toUInt16

def pow10 : Nat → UInt64
  | 0 => 1
  | n + 1 => pow10 n * 10

/-! ## One block -/

/-- What a round of the loop in `read_until_next_packet_block` comes to. -/
inductive Round (α : Type)
  /-- `return false` -/
  | stop
  /-- `continue` -/
  | next
  /-- `return true` -/
  | found (packet : α)
deriving DecidableEq

structure PacketBlock where
  packetData : Bytes
  capturedLength : UInt32
  timestampNs : UInt64
  wireLength : UInt32
  packetLinkType : UInt32
deriving DecidableEq

/-- A section header, from its byte-order magic on. -/
def sectionHeader (reader : PcapngReader) (file blockHeader : Bytes) :
    Round PacketBlock × PcapngReader :=
  let (byteOrderMagic, file) := fread file 4
  let reader := { reader with file := some file }
  if byteOrderMagic.length ≠ 4 then (.stop, reader)
  else if getU32 byteOrderMagic ≠ 0x1a2b3c4d ∧ getU32 byteOrderMagic ≠ 0x4d3c2b1a then
    (.stop, reader)
  else
    let reader := { reader with isSwappedEndian := getU32 byteOrderMagic ≠ 0x1a2b3c4d }
    let blockTotalLength := reader.orderU32 (blockHeader.drop 4)
    if blockTotalLength < 28 ∨ blockTotalLength > MAX_BLOCK_LENGTH then (.stop, reader)
    else
      (.next,
        { reader with file := some (fseek file (blockTotalLength - 12).toNat), interfaces := [] })

/-- `if_tsresol` -/
def InterfaceInfo.resolve (interfaceInfo : InterfaceInfo) (timestampResolution : UInt8) :
    InterfaceInfo :=
  let exponent := timestampResolution &&& 0x7f
  if timestampResolution &&& 0x80 ≠ 0 then
    if exponent < 64 then
      { interfaceInfo with nsMultiplier := 1000000000, nsDivisor := 1 <<< exponent.toUInt64 }
    else interfaceInfo
  else if exponent ≤ 9 then
    { interfaceInfo with nsMultiplier := pow10 (9 - exponent.toNat), nsDivisor := 1 }
  else interfaceInfo

def timestampOption (body : Buffer UInt8) (optionCode optionLength : UInt16)
    (optionEnd optionOffset : Nat) (interfaceInfo : InterfaceInfo) : Reads InterfaceInfo :=
  if optionCode = 9 ∧ optionLength ≥ 1 ∧ optionOffset + 4 < optionEnd then do
    let timestampResolution ← body.read (optionOffset + 4) 1
    return interfaceInfo.resolve (Bytes.byte timestampResolution 0)
  else
    return interfaceInfo

/-- The loop over the options of an interface description. -/
def interfaceOptions (reader : PcapngReader) (body : Buffer UInt8) (optionEnd optionOffset : Nat)
    (interfaceInfo : InterfaceInfo) : Reads InterfaceInfo :=
  if optionOffset + 4 ≤ optionEnd then do
    let optionCode := reader.orderU16 (← body.read optionOffset 2)
    let optionLength := reader.orderU16 (← body.read (optionOffset + 2) 2)
    if optionCode = 0 then
      return interfaceInfo
    else
      let interfaceInfo ←
        timestampOption body optionCode optionLength optionEnd optionOffset interfaceInfo
      interfaceOptions reader body optionEnd
        (optionOffset + (4 + ((optionLength.toUInt32 + 3) &&& ~~~3).toNat)) interfaceInfo
  else
    return interfaceInfo
termination_by optionEnd - optionOffset

def interfaceDescription (reader : PcapngReader) (body : Buffer UInt8) (remainingLength : Nat) :
    Reads InterfaceInfo := do
  let interfaceInfo := ⟨(reader.orderU16 (← body.read 0 2)).toUInt32, 1000, 1⟩
  reader.interfaceOptions body (if remainingLength ≥ 4 then remainingLength - 4 else 0) 8
    interfaceInfo

def enhancedPacket (reader : PcapngReader) (body : Buffer UInt8) (remainingLength : Nat) :
    Reads (Round PacketBlock) := do
  let interfaceId := reader.orderU32 (← body.read 0 4)
  let ticks := (reader.orderU32 (← body.read 4 4)).toUInt64 <<< 32 |||
    (reader.orderU32 (← body.read 8 4)).toUInt64
  let capturedLength := reader.orderU32 (← body.read 12 4)
  let wireLength := reader.orderU32 (← body.read 16 4)
  -- 20 bytes before the packet, and the trailing length
  if capturedLength.toNat + 24 > remainingLength then
    return .next
  else
    let interfaceInfo := reader.interfaces[interfaceId.toNat]?.getD ⟨1, 1000, 1⟩
    let packetData ← body.read 20 capturedLength.toNat
    return .found {
      packetData
      capturedLength
      timestampNs := .ofNat
        (ticks.toNat * interfaceInfo.nsMultiplier.toNat / interfaceInfo.nsDivisor.toNat)
      wireLength
      packetLinkType := interfaceInfo.linkType }

/-- The payload of an Ethernet frame; `none` is `continue`. -/
def ethernetPayload (packet : PacketBlock) (stray : Bytes) : Reads (Option Bytes) :=
  let capturedLength := packet.capturedLength.toNat
  let packetData : Buffer UInt8 := ⟨packet.packetData, stray⟩
  if capturedLength < 14 then
    return none
  else do
    if netU16 (← packetData.read 12 2) ≠ 0x0800 then
      return none
    let offset := 14
    if capturedLength < offset + 20 then
      return none
    let ipVersion ← packetData.read offset 1
    if Bytes.byte ipVersion 0 >>> 4 ≠ 4 then
      return none
    let ipHeaderLength := (Bytes.byte ipVersion 0 &&& 0x0f).toNat * 4
    if ipHeaderLength < 20 ∨ capturedLength < offset + ipHeaderLength + 8 then
      return none
    if Bytes.byte (← packetData.read (offset + 9) 1) 0 ≠ 17 then
      return none
    let udpTotal := (netU16 (← packetData.read (offset + ipHeaderLength + 4) 2)).toNat
    if udpTotal < 8 then
      return none
    let payloadOffset := offset + ipHeaderLength + 8
    let payloadLength := udpTotal - 8
    let payloadLength :=
      if payloadOffset + payloadLength > capturedLength then capturedLength - payloadOffset
      else payloadLength
    let payload ← packetData.read payloadOffset payloadLength
    return some payload

/-- The rest of a round in `next_packet`; `none` is `continue`. -/
def udpPayload (reader : PcapngReader) (packet : PacketBlock) (stray : Bytes) :
    Reads (Option Bytes × PcapngReader) :=
  if packet.capturedLength < packet.wireLength then
    return (none, { reader with warnedTruncated := true })
  else if packet.packetLinkType ≠ 1 then
    return (none, { reader with warnedLinkType := true })
  else do
    let payload ← ethernetPayload packet stray
    return (payload, reader)

section
variable (stray : Nat → Bytes)

/-- A block of another kind, from the end of its header on. -/
def readBody (reader : PcapngReader) (file : Bytes) (blockType : UInt32) (remainingLength : Nat) :
    Reads (Round PacketBlock × PcapngReader) :=
  if blockType = 1 then
    let (body, file) := fread file remainingLength
    let reader := { reader with file := some file }
    if body.length ≠ remainingLength then return (.stop, reader)
    else do
      let interfaceInfo ← reader.interfaceDescription ⟨body, stray file.length⟩ remainingLength
      return (.next, { reader with interfaces := reader.interfaces ++ [interfaceInfo] })
  else if blockType = 6 then
    let (body, file) := fread file remainingLength
    let reader := { reader with file := some file }
    if body.length ≠ remainingLength then return (.stop, reader)
    else do
      let round ← reader.enhancedPacket ⟨body, stray file.length⟩ remainingLength
      return (round, reader)
  else
    return (.next, { reader with file := some (fseek file remainingLength) })

/-- One round of the loop in `read_until_next_packet_block`. -/
def readBlock (reader : PcapngReader) (file : Bytes) : Reads (Round PacketBlock × PcapngReader) :=
  let (blockHeader, file) := fread file 8
  let reader := { reader with file := some file }
  if blockHeader.length ≠ 8 then return (.stop, reader)
  else if getU32 blockHeader = 0x0a0d0d0a then return reader.sectionHeader file blockHeader
  else
    let blockType := reader.orderU32 blockHeader
    let totalLength := reader.orderU32 (blockHeader.drop 4)
    if totalLength < 12 ∨ totalLength > MAX_BLOCK_LENGTH then return (.stop, reader)
    else reader.readBody stray file blockType (totalLength - 8).toNat

/-! ## The loops

Every round but the last consumes a block header, which is why both loops end. -/

def unread (reader : PcapngReader) : Nat := (reader.file.getD []).length

theorem unread_sectionHeader {reader : PcapngReader} {file : Bytes} :
    (reader.sectionHeader file blockHeader).2.unread ≤ file.length := by
  rw [sectionHeader]
  simp only [fseek]
  rw [apply_ite Prod.snd, apply_ite unread]
  split
  · simp [unread]
  rw [apply_ite Prod.snd, apply_ite unread]
  split
  · simp [unread]
  rw [apply_ite Prod.snd, apply_ite unread]
  split <;> simp [unread]

theorem unread_readBody {reader : PcapngReader} {file : Bytes} :
    (readBody stray reader file blockType remainingLength).value.2.unread ≤ file.length := by
  rw [readBody]
  simp only [fseek]
  split
  · split <;> simp [unread]
  split
  · split <;> simp [unread]
  · simp [unread]

theorem unread_readBlock {reader : PcapngReader} {file : Bytes}
    (h : (readBlock stray reader file).value.1 ≠ .stop) :
    (readBlock stray reader file).value.2.unread < file.length := by
  rw [readBlock] at h ⊢
  dsimp only at h ⊢
  by_cases hheader : (file.take 8).length ≠ 8
  · rw [if_pos hheader] at h
    exact absurd rfl h
  rw [if_neg hheader] at h ⊢
  have hlength : (file.drop 8).length < file.length := by
    rw [List.length_take] at hheader
    rw [List.length_drop]
    omega
  by_cases hsection : getU32 (file.take 8) = 0x0a0d0d0a
  · rw [if_pos hsection]
    exact unread_sectionHeader.trans_lt hlength
  rw [if_neg hsection] at h ⊢
  split at h
  · exact absurd rfl h
  · rename_i hgood
    rw [if_neg hgood]
    exact (unread_readBody stray).trans_lt hlength

/-- The loop of `read_until_next_packet_block`; `none` is `false`. -/
def readUntilNextPacketBlock (reader : PcapngReader) : Reads (Option PacketBlock × PcapngReader) :=
  match _hfile : reader.file with
  | none => return (none, reader)
  | some file =>
    let round := readBlock stray reader file
    match _hround : round.value with
    | (.stop, reader) => do
      let _ ← round
      return (none, reader)
    | (.next, next) => do
      let _ ← round
      readUntilNextPacketBlock next
    | (.found packet, reader) => do
      let _ ← round
      return (some packet, reader)
termination_by reader.unread
decreasing_by
  have hlt := @unread_readBlock stray reader file (by rw [_hround]; simp)
  rw [_hround] at hlt
  simpa [unread, _hfile] using hlt

theorem readUntilNextPacketBlock_eq (reader : PcapngReader) :
    readUntilNextPacketBlock stray reader =
      match reader.file with
      | none => pure (none, reader)
      | some file => readBlock stray reader file >>= fun
        | (.stop, reader) => pure (none, reader)
        | (.next, reader) => readUntilNextPacketBlock stray reader
        | (.found packet, reader) => pure (some packet, reader) := by
  rw [readUntilNextPacketBlock]
  split
  · rename_i hfile
    rw [hfile]
  · rename_i file hfile
    simp only [hfile]
    split <;> rename_i hround <;>
      exact Reads.ext (by simp only [Reads.value_bind, hround])
        (by simp only [Reads.inside_bind, hround])

theorem unread_readUntilNextPacketBlock {reader reader' : PcapngReader}
    (h : (readUntilNextPacketBlock stray reader).value = (some packet, reader')) :
    reader'.unread < reader.unread := by
  induction reader using readUntilNextPacketBlock.induct stray with
  | case1 reader hfile => simp [readUntilNextPacketBlock_eq, hfile] at h
  | case2 reader file hfile round last hround =>
    simp only [readUntilNextPacketBlock_eq stray reader, hfile, Reads.value_bind,
      show (readBlock stray reader file).value = _ from hround, Reads.value_pure] at h
    cases h
  | case3 reader file hfile round next hround ih =>
    simp only [readUntilNextPacketBlock_eq stray reader, hfile, Reads.value_bind,
      show (readBlock stray reader file).value = _ from hround] at h
    have hlt := @unread_readBlock stray reader file (by rw [hround]; simp)
    rw [hround] at hlt
    exact (ih h).trans (by simpa [unread, hfile] using hlt)
  | case4 reader file hfile round packet' found hround =>
    simp only [readUntilNextPacketBlock_eq stray reader, hfile, Reads.value_bind,
      show (readBlock stray reader file).value = _ from hround, Reads.value_pure,
        Prod.mk.injEq] at h
    have hlt := @unread_readBlock stray reader file (by rw [hround]; simp)
    rw [hround, h.2] at hlt
    simpa [unread, hfile] using hlt

/-- It sets warnings only. -/
theorem udpPayload_warned {reader reader' : PcapngReader} {stray : Bytes}
    (h : (udpPayload reader packet stray).value.2 = reader') :
    reader' = { reader with
      warnedTruncated := reader'.warnedTruncated, warnedLinkType := reader'.warnedLinkType } := by
  subst h
  rw [udpPayload]
  split
  · rfl
  split <;> rfl

theorem unread_udpPayload {reader : PcapngReader} {stray : Bytes} :
    (udpPayload reader packet stray).value.2.unread = reader.unread := by
  rw [udpPayload_warned (Eq.refl (udpPayload reader packet stray).value.2), unread, unread]

/-- `next_packet`, which also hands back the timestamp; `none` is `false`. -/
def nextPacket (reader : PcapngReader) : Reads (Option (Bytes × UInt64) × PcapngReader) :=
  let block := readUntilNextPacketBlock stray reader
  match _hblock : block.value with
  | (none, reader) => do
    let _ ← block
    return (none, reader)
  | (some packet, reader) =>
    let payload := reader.udpPayload packet (stray reader.unread)
    match _hpayload : payload.value with
    | (none, next) => do
      let _ ← block
      let _ ← payload
      nextPacket next
    | (some payloadBytes, reader) => do
      let _ ← block
      let _ ← payload
      return (some (payloadBytes, packet.timestampNs), reader)
termination_by reader.unread
decreasing_by
  have hlt := unread_readUntilNextPacketBlock stray _hblock
  rw [← @unread_udpPayload packet, _hpayload] at hlt
  exact hlt

theorem nextPacket_eq (reader : PcapngReader) :
    nextPacket stray reader = readUntilNextPacketBlock stray reader >>= fun
      | (none, reader) => pure (none, reader)
      | (some packet, reader) => reader.udpPayload packet (stray reader.unread) >>= fun
        | (none, reader) => nextPacket stray reader
        | (some payload, reader) => pure (some (payload, packet.timestampNs), reader) := by
  rw [nextPacket]
  split <;> rename_i hblock
  · exact Reads.ext (by simp only [Reads.value_bind, hblock])
      (by simp only [Reads.inside_bind, hblock])
  · dsimp only
    split <;> rename_i hpayload <;>
      exact Reads.ext (by simp only [Reads.value_bind, hblock, hpayload])
        (by simp only [Reads.inside_bind, hblock, hpayload])

theorem unread_nextPacket {reader reader' : PcapngReader}
    (h : (nextPacket stray reader).value = (some packet, reader')) :
    reader'.unread < reader.unread := by
  induction reader using nextPacket.induct stray with
  | case1 reader block last hblock =>
    simp only [nextPacket_eq stray reader, Reads.value_bind,
      show (readUntilNextPacketBlock stray reader).value = _ from hblock, Reads.value_pure] at h
    cases h
  | case2 reader block packet' last hblock payload next hpayload ih =>
    have hlt := unread_readUntilNextPacketBlock stray hblock
    rw [← @unread_udpPayload packet', hpayload] at hlt
    simp only [nextPacket_eq stray reader, Reads.value_bind,
      show (readUntilNextPacketBlock stray reader).value = _ from hblock,
      show (udpPayload last packet' (stray last.unread)).value = _ from hpayload] at h
    exact (ih h).trans hlt
  | case3 reader block packet' last hblock payload payloadBytes next hpayload =>
    have hlt := unread_readUntilNextPacketBlock stray hblock
    rw [← @unread_udpPayload packet', hpayload] at hlt
    simp only [nextPacket_eq stray reader, Reads.value_bind,
      show (readUntilNextPacketBlock stray reader).value = _ from hblock,
      show (udpPayload last packet' (stray last.unread)).value = _ from hpayload,
        Reads.value_pure] at h
    cases h
    exact hlt

/-- What a caller collects that calls `next_packet` until it returns false. -/
def packets (reader : PcapngReader) : Reads (List (Bytes × UInt64)) :=
  let call := nextPacket stray reader
  match _hcall : call.value with
  | (none, _) => do
    let _ ← call
    return []
  | (some packet, next) => do
    let _ ← call
    let later ← packets next
    return packet :: later
termination_by reader.unread
decreasing_by exact unread_nextPacket stray _hcall

/-- What a caller gets of a file; nothing if `open` refuses it. -/
def replay (reader : PcapngReader) (content : Bytes) : Reads (List (Bytes × UInt64)) :=
  match reader.openFile (some content) with
  | (true, reader) => packets stray reader
  | (false, _) => return []

/-- The reader after `count` calls of `next_packet`, whatever they return. -/
def calls : (count : Nat) → PcapngReader → Reads PcapngReader
  | 0, reader => return reader
  | count + 1, reader => do
    let (_, reader) ← nextPacket stray reader
    calls count reader

end

end PcapngReader
end MegaFeed
