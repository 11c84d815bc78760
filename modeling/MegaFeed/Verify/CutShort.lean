import MegaFeed.Verify.PcapngReader

/-! # Interrupted downloads

A reader of the first bytes of a file goes through the same states as one of the whole file until it
gives up (`step_cut`), so it hands back a first part of the same packets (`packets_cut`). -/

namespace MegaFeed.PcapngReader
open Reads

section
variable {stray stray' : Nat → Bytes} {reader : PcapngReader} {file : Bytes}

/-- The reader, if only `k` more bytes of the file were there. -/
def cut (reader : PcapngReader) (k : Nat) : PcapngReader :=
  { reader with file := reader.file.map (·.take k) }

/-- What a cut reader comes to where the whole one comes to `whole`: it stops, or goes on the
same way. -/
def CutOf (whole part : Round α × PcapngReader) : Prop :=
  part.1 = .stop ∨ ∃ k, part = (whole.1, whole.2.cut k)

/-! ## Fields -/

theorem interfaceOptions_congr {reader' : PcapngReader}
    (h : reader'.isSwappedEndian = reader.isSwappedEndian)
    {body : Buffer UInt8} :
    interfaceOptions reader' body optionEnd optionOffset interfaceInfo =
      interfaceOptions reader body optionEnd optionOffset interfaceInfo := by
  have horder (bytes : Bytes) : reader'.orderU16 bytes = reader.orderU16 bytes := by
    rw [orderU16, h, orderU16]
  induction hn : optionEnd - optionOffset using Nat.strong_induction_on generalizing optionOffset
    interfaceInfo with
  | _ n ih =>
  subst hn
  rw [interfaceOptions.eq_1, interfaceOptions.eq_1 reader]
  simp only [horder]
  split
  · refine congrArg (body.read optionOffset 2 >>= ·) (funext fun optionCode => ?_)
    refine congrArg (body.read (optionOffset + 2) 2 >>= ·) (funext fun optionLength => ?_)
    split
    · rfl
    · exact congrArg (timestampOption body _ _ optionEnd optionOffset interfaceInfo >>= ·)
        (funext fun _ => ih _ (by omega) rfl)
  · rfl

theorem interfaceDescription_congr {reader' : PcapngReader}
    (h : reader'.isSwappedEndian = reader.isSwappedEndian)
    {body : Buffer UInt8} :
    interfaceDescription reader' body remainingLength = interfaceDescription reader body
      remainingLength := by
  have horder (bytes : Bytes) : reader'.orderU16 bytes = reader.orderU16 bytes := by
    rw [orderU16, h, orderU16]
  simp only [interfaceDescription, horder, interfaceOptions_congr h]

/-- The block of an interface or a packet is the same if it is all there. -/
theorem value_enhancedPacket_stray {data stray stray' : Bytes}
    (hlength : data.length = remainingLength) :
    (enhancedPacket reader ⟨data, stray⟩ remainingLength).value =
      (enhancedPacket reader ⟨data, stray'⟩ remainingLength).value := by
  by_cases h : remainingLength < 20
  · rw [value_enhancedPacket_short h, value_enhancedPacket_short h]
  · exact (enhancedPacket_steady hlength (by omega)).value_eq stray stray'

/-! ## Blocks -/

theorem sectionHeader_cut {blockHeader : Bytes} :
    CutOf (reader.sectionHeader file blockHeader)
      ((reader.sectionHeader (file.take k) blockHeader)) := by
  by_cases hk : 4 ≤ k
  · have htake : (file.take k).take 4 = file.take 4 := by rw [List.take_take, min_eq_left hk]
    have hdrop : (file.take k).drop 4 = (file.drop 4).take (k - 4) := List.drop_take ..
    rw [sectionHeader, sectionHeader]
    dsimp only
    rw [htake, hdrop]
    split
    · exact .inl rfl
    split
    · exact .inl rfl
    let ordered : PcapngReader :=
      { reader with isSwappedEndian := getU32 (file.take 4) ≠ 0x1a2b3c4d }
    by_cases hbad : ordered.orderU32 (blockHeader.drop 4) < 28 ∨
        ordered.orderU32 (blockHeader.drop 4) > MAX_BLOCK_LENGTH
    · exact .inl (congrArg Prod.fst (if_pos hbad))
    · refine .inr ⟨k - 4 - (ordered.orderU32 (blockHeader.drop 4) - 12).toNat,
        (if_neg hbad).trans ?_⟩
      refine Eq.trans ?_
        (congrArg (fun round : Round PacketBlock × PcapngReader => (round.1, cut round.2 _))
          (if_neg hbad).symm)
      dsimp only [cut, fseek, Option.map_some]
      rw [List.drop_take]
      rfl
  · left
    rw [sectionHeader]
    dsimp only
    rw [if_pos (by rw [List.length_take, List.length_take]; omega)]

theorem readBody_cutOf (hroom : 4 ≤ remainingLength) :
    CutOf (readBody stray reader file blockType remainingLength).value
      (readBody stray' reader (file.take k) blockType remainingLength).value := by
  by_cases htype : blockType = 1 ∨ blockType = 6
  · by_cases hle : remainingLength ≤ (file.take k).length
    · have hle' : remainingLength ≤ file.length := hle.trans (List.length_take_le' ..)
      have htake : (file.take k).take remainingLength = file.take remainingLength := by
        rw [List.length_take] at hle
        rw [List.take_take, min_eq_left (by omega)]
      have hlength : (file.take remainingLength).length = remainingLength := by
        rw [List.length_take]
        omega
      have hskip : reader.skip (file.take k) remainingLength =
          (reader.skip file remainingLength).cut (k - remainingLength) := by
        rw [skip, List.drop_take]
        rfl
      have horder : ((reader.skip file remainingLength).cut (k - remainingLength)).isSwappedEndian =
          (reader.skip file remainingLength).isSwappedEndian := rfl
      refine .inr ⟨k - remainingLength, ?_⟩
      rcases htype with rfl | rfl
      · rw [readBody_interface hle, readBody_interface hle', value_bind, value_bind, value_pure,
          value_pure, hskip, htake, interfaceDescription_congr horder,
          (interfaceDescription_steady hlength hroom).value_eq _
          (stray (file.drop remainingLength).length)]
        rfl
      · rw [readBody_packet hle, readBody_packet hle', value_bind, value_bind, value_pure,
          value_pure, hskip, htake, value_enhancedPacket_stray hlength]
        rfl
    · left
      rw [readBody_cut (by omega) htype]
      rfl
  · rw [not_or] at htype
    rw [readBody_other htype.1 htype.2, readBody_other htype.1 htype.2]
    refine .inr ⟨k - remainingLength, Prod.ext rfl ?_⟩
    rw [value_pure, value_pure, skip, List.drop_take]
    rfl

theorem readBlock_cutOf :
    CutOf (readBlock stray reader file).value
      (readBlock stray' (reader.cut k) (file.take k)).value := by
  by_cases hlength : 8 ≤ (file.take k).length
  · have hk : 8 ≤ k := hlength.trans (List.length_take_le ..)
    have hlength' : 8 ≤ file.length := hlength.trans (List.length_take_le' ..)
    have htype : getU32 (file.take k) = getU32 file := getU32_take (by omega)
    have horder (n : Nat) (h : n + 4 ≤ k) :
        (reader.cut k).orderU32 ((file.take k).drop n) = reader.orderU32 (file.drop n) := by
      rw [List.drop_take]
      exact orderU32_take (by omega)
    have hdrop : (file.take k).drop 8 = (file.drop 8).take (k - 8) := List.drop_take ..
    have hheader : (file.take k).take 8 = file.take 8 := by rw [List.take_take, min_eq_left hk]
    by_cases hsection : getU32 file = 0x0a0d0d0a
    · rw [readBlock_section hlength' hsection, readBlock_section hlength (htype.trans hsection),
        hdrop, hheader]
      exact sectionHeader_cut
    by_cases hbad : BadLength (reader.orderU32 (file.drop 4))
    · left
      rw [readBlock_bad hlength (by rwa [htype]) (by rwa [horder 4 hk])]
      rfl
    rw [readBlock_body hlength' hsection hbad,
      readBlock_body hlength (by rwa [htype]) (by rwa [horder 4 hk]), hdrop,
      horder 4 hk, show (reader.cut k).orderU32 (file.take k) = reader.orderU32 file
      from orderU32_take (by omega)]
    have hle := le_of_not_bad hbad
    exact readBody_cutOf (by omega)
  · left
    rw [readBlock_cut (by omega)]
    rfl

/-! ## Packets -/

theorem udpPayload_cut {packet : PacketBlock}
    (h : packet.packetData.length = packet.capturedLength.toNat)
    (behind behind' : Bytes) :
    (udpPayload (reader.cut k) packet behind').value =
      ((udpPayload reader packet behind).value.1,
        (udpPayload reader packet behind).value.2.cut k) := by
  rw [udpPayload, udpPayload]
  split
  · rfl
  split
  · rfl
  · rw [value_bind, value_bind, (ethernetPayload_steady h).value_eq behind' behind]
    rfl

theorem examine_cutOf {whole part : Round PacketBlock × PcapngReader} (h : CutOf whole part)
    (hfound : ∀ packet, whole.1 = .found packet → packet.packetData.length =
      packet.capturedLength.toNat) :
    CutOf (examine stray whole).value (examine stray' part).value := by
  obtain ⟨round, reader⟩ := whole
  rcases h with hstop | ⟨k, rfl⟩
  · obtain ⟨round', reader'⟩ := part
    subst hstop
    exact .inl rfl
  cases round with
  | stop => exact .inl rfl
  | next => exact .inr ⟨k, rfl⟩
  | found packet =>
    refine .inr ⟨k, ?_⟩
    rw [examine, examine, value_bind, value_bind,
      udpPayload_cut (hfound packet rfl) (stray reader.unread) (stray' (reader.cut k).unread)]
    generalize (udpPayload reader packet (stray reader.unread)).value = payload
    obtain ⟨payload, reader'⟩ := payload
    cases payload <;> rfl

theorem step_cut (k : Nat) :
    CutOf (step stray reader).value (step stray' (reader.cut k)).value := by
  cases hfile : reader.file with
  | none =>
    left
    rw [step_none (by rw [cut, hfile]; rfl)]
    rfl
  | some file =>
    rw [step_some hfile, @step_some stray' (reader.cut k) (file.take k) (by rw [cut, hfile]; rfl),
      value_bind, value_bind]
    exact examine_cutOf readBlock_cutOf fun packet h => readBlock_found (Prod.ext h rfl)

theorem packets_cut (k : Nat) :
    (packets stray' (reader.cut k)).value <+: (packets stray reader).value := by
  induction hn : reader.unread using Nat.strong_induction_on generalizing reader k with
  | _ n ih =>
  subst hn
  rw [value_packets_step, @value_packets_step stray reader]
  have hless := @unread_step stray reader
  have hcut := @step_cut stray stray' reader k
  generalize (step stray reader).value = whole at hless hcut ⊢
  generalize (step stray' (reader.cut k)).value = part at hcut ⊢
  obtain ⟨round, next⟩ := whole
  rcases hcut with hstop | ⟨k', rfl⟩
  · obtain ⟨round', next'⟩ := part
    subst hstop
    exact List.nil_prefix
  cases round with
  | stop => exact List.nil_prefix
  | next => exact ih _ (hless (by simp)) k' rfl
  | found packet => exact List.prefix_cons_inj packet |>.mpr (ih _ (hless (by simp)) k' rfl)

theorem openFile_cut (h : (reader.openFile (some (file.take k))).1 = true) :
    (reader.openFile (some (file.take k))).2 = (reader.openFile (some file)).2.cut k ∧
    (reader.openFile (some file)).1 = true := by
  rw [openFile] at h ⊢
  dsimp only at h ⊢
  split at h
  · cases h
  rename_i hlength
  rw [if_neg hlength]
  split at h
  · cases h
  rename_i hmagic
  rw [if_neg hmagic, openFile]
  rw [not_not, List.length_take, List.length_take] at hlength
  have htake : (file.take k).take 4 = file.take 4 := by rw [List.take_take, min_eq_left (by omega)]
  rw [htake] at hmagic
  dsimp only
  rw [if_neg (by rw [not_not, List.length_take]; omega), if_neg hmagic]
  exact ⟨rfl, rfl⟩

/-- The calls end: behind the last packet `next_packet` returns false. -/
theorem calls_end (reader : PcapngReader) :
    (nextPacket stray (calls stray (packets stray reader).value.length reader).value).value.1 =
      none := by
  induction hn : reader.unread using Nat.strong_induction_on generalizing reader with
  | _ n ih =>
  subst hn
  rw [packets_eq, value_bind]
  cases hcall : (nextPacket stray reader).value with
  | mk packet next =>
  cases packet with
  | none => exact congrArg Prod.fst hcall
  | some packet =>
    have hrest := ih _ (unread_nextPacket stray hcall) next rfl
    rw [value_map, List.length_cons, calls, value_bind, hcall]
    exact hrest

/-- **An interrupted download only shortens the replay.** What the reader hands back from the first
`k` bytes of a file is a first part of what it hands back from all of it, whatever memory holds
behind its buffers in either run; and on every file the calls end. -/
theorem replay_cut (stray stray' : Nat → Bytes) (reader : PcapngReader)
    (content : Bytes) (k : Nat) :
    (replay stray' reader (content.take k)).value <+: (replay stray reader content).value ∧
    ∃ count,
      (nextPacket stray (calls stray count (reader.openFile (some content)).2).value).value.1 =
        none := by
  refine ⟨?_, _, calls_end _⟩
  rw [replay]
  generalize hopen : reader.openFile (some (content.take k)) = opened
  obtain ⟨accepted, reader'⟩ := opened
  cases accepted with
  | false => exact List.nil_prefix
  | true =>
    obtain ⟨hreader, haccepted⟩ := openFile_cut (congrArg Prod.fst hopen)
    rw [hopen] at hreader
    rw [replay]
    generalize reader.openFile (some content) = whole at hreader haccepted
    obtain ⟨accepted, reader''⟩ := whole
    subst haccepted
    dsimp only at hreader ⊢
    rw [hreader]
    exact packets_cut k

end
end MegaFeed.PcapngReader
