import MegaFeed.Theory.Pieces
import MegaFeed.Verify.Replay

/-! # Nothing but the capture goes out

Whatever bytes a capture file holds, each payload that the reader hands back is a piece of it
(`packets_apart`), so what `exchange` puts on the network are pieces of the file, one behind the
other (`Replay.wire_from_file`). -/

namespace MegaFeed
open Pieces

namespace PcapngReader
open Reads

variable {stray : Nat → Bytes} {reader next : PcapngReader} {file payload : Bytes}

/-- Headers in front of a payload: of the block, the packet, Ethernet, IPv4 and UDP. -/
def headers : Nat := 8 + 20 + 14 + 20 + 8

/-- The longest payload of a UDP datagram. -/
def maxPayload : Nat := 65527

theorem ethernetPayload_slice {packet : PacketBlock} {behind : Bytes}
    (h : packet.packetData.length = packet.capturedLength.toNat)
    (hpayload : (ethernetPayload packet behind).value = some payload) :
    ∃ offset count, 42 ≤ offset ∧ count ≤ maxPayload ∧
      offset + count ≤ packet.capturedLength.toNat ∧
      payload = (packet.packetData.drop offset).take count := by
  simp only [ethernetPayload] at hpayload
  split at hpayload
  · cases hpayload
  rw [value_bind] at hpayload
  split at hpayload
  · cases hpayload
  split at hpayload
  · cases hpayload
  rw [value_bind] at hpayload
  split at hpayload
  · cases hpayload
  generalize (Bytes.byte (Buffer.read _ 14 1).value 0 &&& 15).toNat * 4 = ipHeaderLength at hpayload
  split at hpayload
  · cases hpayload
  rename_i hroom
  rw [value_bind] at hpayload
  split at hpayload
  · cases hpayload
  rw [value_bind] at hpayload
  generalize netU16 (Buffer.read _ (14 + ipHeaderLength + 4) 2).value = udpTotal at hpayload
  split at hpayload
  · cases hpayload
  have htotal := udpTotal.toNat_lt
  have hcount : 14 + ipHeaderLength + 8 + (if 14 + ipHeaderLength + 8 + (udpTotal.toNat - 8) >
      packet.capturedLength.toNat then packet.capturedLength.toNat - (14 + ipHeaderLength + 8)
      else udpTotal.toNat - 8) ≤ packet.packetData.length := by
    split <;> omega
  rw [value_bind, value_pure, Buffer.value_read_of_le hcount] at hpayload
  refine ⟨_, _, by omega, ?_, h ▸ hcount, (Option.some.inj hpayload).symm⟩
  rw [maxPayload]
  split <;> omega

/-- Where an Enhanced Packet Block keeps its packet. -/
theorem readBody_slice
    (h : (readBody stray reader file blockType remainingLength).value = (.found packet, next)) :
    packet.packetData = (file.drop 20).take packet.capturedLength.toNat ∧
    20 + packet.capturedLength.toNat ≤ remainingLength ∧ remainingLength ≤ file.length ∧
    next.file = some (file.drop remainingLength) := by
  by_cases htype : blockType = 1 ∨ blockType = 6
  · by_cases hle : remainingLength ≤ file.length
    · have hlength : (file.take remainingLength).length = remainingLength := by
        rw [List.length_take]
        omega
      rcases htype with rfl | rfl
      · rw [readBody_interface hle, value_bind, value_pure] at h
        cases h
      · rw [readBody_packet hle, value_bind, value_pure, Prod.mk.injEq] at h
        obtain ⟨hfound, rfl⟩ := h
        simp only [enhancedPacket, value_bind] at hfound
        split at hfound
        · cases hfound
        rename_i hfits
        rw [value_bind, value_pure, Buffer.value_read_of_le (by omega)] at hfound
        cases hfound
        dsimp only
        refine ⟨?_, by omega, hle, rfl⟩
        rw [List.drop_take, List.take_take, min_eq_left (by omega)]
    · rw [readBody_cut (by omega) htype, value_pure] at h
      cases h
  · rw [not_or] at htype
    rw [readBody_other htype.1 htype.2, value_pure] at h
    cases h

theorem readBlock_slice (h : (readBlock stray reader file).value = (.found packet, next)) :
    ∃ stop ≤ file.length, packet.packetData = (file.drop 28).take packet.capturedLength.toNat ∧
      28 + packet.capturedLength.toNat ≤ stop ∧ next.file = some (file.drop stop) := by
  by_cases hlength : 8 ≤ file.length
  · by_cases hsection : getU32 file = 0x0a0d0d0a
    · rw [readBlock_section hlength hsection, value_pure] at h
      exact absurd (congrArg Prod.fst h) sectionHeader_ne_found
    by_cases hbad : BadLength (reader.orderU32 (file.drop 4))
    · rw [readBlock_bad hlength hsection hbad, value_pure] at h
      cases h
    rw [readBlock_body hlength hsection hbad] at h
    obtain ⟨hdata, hroom, hle, hnext⟩ := readBody_slice h
    rw [List.length_drop] at hle
    rw [List.drop_drop] at hdata hnext
    exact ⟨_, by omega, hdata, by omega, hnext⟩
  · rw [readBlock_cut (by omega), value_pure] at h
    cases h

theorem sectionHeader_rest : ∃ n, (reader.sectionHeader file blockHeader).2.file =
    some (file.drop n) := by
  rw [sectionHeader]
  dsimp only
  split
  · exact ⟨4, rfl⟩
  split
  · exact ⟨4, rfl⟩
  split
  · exact ⟨4, rfl⟩
  · exact ⟨_, congrArg some List.drop_drop⟩

theorem readBody_rest :
    ∃ n, (readBody stray reader file blockType remainingLength).value.2.file =
      some (file.drop n) := by
  by_cases htype : blockType = 1 ∨ blockType = 6
  · by_cases hle : remainingLength ≤ file.length
    · rcases htype with rfl | rfl
      · rw [readBody_interface hle]
        exact ⟨_, rfl⟩
      · rw [readBody_packet hle]
        exact ⟨_, rfl⟩
    · rw [readBody_cut (by omega) htype]
      exact ⟨file.length, congrArg some List.drop_length.symm⟩
  · rw [not_or] at htype
    rw [readBody_other htype.1 htype.2]
    exact ⟨_, rfl⟩

/-- Whatever a round does, it goes on with the rest of the file. -/
theorem readBlock_rest : ∃ n, (readBlock stray reader file).value.2.file = some (file.drop n) := by
  by_cases hlength : 8 ≤ file.length
  · by_cases hsection : getU32 file = 0x0a0d0d0a
    · rw [readBlock_section hlength hsection, value_pure]
      obtain ⟨n, hrest⟩ :=
        @sectionHeader_rest { reader with file := some (file.drop 8) } (file.drop 8) (file.take 8)
      exact ⟨8 + n, hrest.trans (by rw [List.drop_drop])⟩
    by_cases hbad : BadLength (reader.orderU32 (file.drop 4))
    · rw [readBlock_bad hlength hsection hbad]
      exact ⟨8, rfl⟩
    rw [readBlock_body hlength hsection hbad]
    obtain ⟨n, hrest⟩ := @readBody_rest stray
      { reader with file := some (file.drop 8) } (file.drop 8)
      (reader.orderU32 file) ((reader.orderU32 (file.drop 4)).toNat - 8)
    exact ⟨8 + n, hrest.trans (by rw [List.drop_drop])⟩
  · rw [readBlock_cut (by omega)]
    exact ⟨file.length, congrArg some List.drop_length.symm⟩

theorem step_rest (hfile : reader.file = some file) :
    ∃ n, (step stray reader).value.2.file = some (file.drop n) := by
  obtain ⟨n, hrest⟩ := @readBlock_rest stray reader file
  obtain ⟨_, _, hwarned⟩ := @examine_warned stray (readBlock stray reader file).value
  rw [step_some hfile, value_bind, hwarned]
  exact ⟨n, hrest⟩

/-- A payload that is found is a piece of what has been read. -/
theorem step_slice (hfile : reader.file = some file)
    (h : (step stray reader).value = (.found (payload, timestamp), next)) :
    ∃ start count stop, headers ≤ start ∧ count ≤ maxPayload ∧ start + count ≤ stop ∧
      stop ≤ file.length ∧
      payload = (file.drop start).take count ∧ next.file = some (file.drop stop) := by
  rw [step_some hfile, value_bind] at h
  generalize hround : (readBlock stray reader file).value = round at h
  obtain ⟨round, reader'⟩ := round
  cases round with
  | stop => cases h
  | next => cases h
  | found packet =>
    obtain ⟨stop, hle, hdata, hroom, hrest⟩ := readBlock_slice hround
    have hcaptured := readBlock_found hround
    rw [examine, value_bind] at h
    generalize hudp : (reader'.udpPayload packet _).value = udp at h
    obtain ⟨found, reader''⟩ := udp
    cases found with
    | none => cases h
    | some found =>
      cases h
      rw [udpPayload] at hudp
      split at hudp
      · cases hudp
      split at hudp
      · cases hudp
      rw [value_bind, value_pure, Prod.mk.injEq] at hudp
      obtain ⟨hpayload, rfl⟩ := hudp
      obtain ⟨offset, count, hoffset, hcount, hinside, rfl⟩ :=
        ethernetPayload_slice hcaptured hpayload
      refine ⟨28 + offset, count, stop, by rw [headers]; omega, hcount, by omega, hle, ?_, hrest⟩
      rw [hdata, List.drop_take, List.take_take, min_eq_left (by omega), List.drop_drop]

/-- The payloads of any file are pieces of it, one behind the other. -/
theorem packets_apart (hfile : reader.file = some file) :
    Apart headers ((packets stray reader).value.map Prod.fst) file ∧
    ∀ packet ∈ (packets stray reader).value, packet.1.length ≤ maxPayload := by
  induction hn : reader.unread using Nat.strong_induction_on generalizing reader file with
  | _ n ih =>
  subst hn
  have hless := @unread_step stray reader
  have hslice := @step_slice stray reader
  obtain ⟨n, hrest⟩ := @step_rest stray reader file hfile
  rw [value_packets_step]
  generalize (step stray reader).value = round at hless hslice hrest ⊢
  obtain ⟨round, next⟩ := round
  cases round with
  | stop => exact ⟨trivial, by simp⟩
  | next =>
    obtain ⟨hapart, hlengths⟩ := ih _ (hless (by simp)) hrest rfl
    exact ⟨hapart.drop, hlengths⟩
  | found packet =>
    obtain ⟨start, count, stop, hstart, hcount, hstop, hle, hpayload, hnext⟩ := hslice hfile rfl
    obtain ⟨hapart, hlengths⟩ := ih _ (hless (by simp)) hnext rfl
    refine ⟨⟨file.take start, (file.drop start).drop count, ?_, ?_, ?_⟩, ?_⟩
    · rw [hpayload, List.take_append_drop, List.take_append_drop]
    · rw [List.length_take]
      omega
    · rw [List.drop_drop]
      refine Apart.drop (n := stop - (start + count)) ?_
      rwa [List.drop_drop, show start + count + (stop - (start + count)) = stop by omega]
    · refine List.forall_mem_cons.mpr ⟨?_, hlengths⟩
      rw [hpayload, List.length_take]
      omega

end PcapngReader

namespace Replay
open PcapngReader (headers maxPayload packets_apart replay)

theorem readable_apart (content : Bytes) :
    Apart headers (readable content) content ∧ ∀ payload ∈ readable content,
      payload.length ≤ maxPayload := by
  rw [readable, replay]
  obtain ⟨-, hopened⟩ := @PcapngReader.openFile_accepts {} content
  generalize ({} : PcapngReader).openFile (some content) = opened at hopened ⊢
  obtain ⟨accepted, reader⟩ := opened
  cases accepted with
  | false => exact ⟨trivial, by simp⟩
  | true =>
    obtain ⟨-, rfl⟩ := hopened rfl
    obtain ⟨hapart, hlengths⟩ := @packets_apart (fun _ => []) { file := some content } content rfl
    refine ⟨hapart, fun payload hmem => ?_⟩
    obtain ⟨packet, hpacket, rfl⟩ := List.mem_map.mp hmem
    exact hlengths packet hpacket

theorem taken_sublist : List.Sublist (taken sends first payloads) payloads := by
  rw [taken]
  refine (List.filter_sublist.map Prod.fst).trans ?_
  rw [List.zipIdx_map_fst]

/-- **Nothing but the capture goes out.** Whatever bytes the file holds, the datagrams that
`exchange` sends are pieces of it, one behind the other and with the room of their headers before
each of them: nothing is made up, sent twice or taken from memory outside, and there are no more of
them than fit. -/
theorem wire_from_file (stray : Nat → Bytes) (stop sends : Nat → Bool) (packetCount : Nat)
    (stopped : Bool)
    (content : Bytes) :
    let sent := (exchange stray stop sends packetCount (some content) stopped).2
    Apart headers sent.wire content ∧
    headers * sent.wire.length + (sent.wire.map (·.length)).sum ≤ content.length ∧
    ∀ payload ∈ sent.wire, payload.length ≤ maxPayload := by
  intro sent
  obtain ⟨rounds, M⟩ := sendAll_made stop sends ((readable content).take packetCount) {}
  rw [← exchange_sent] at M
  obtain ⟨hapart, hlengths⟩ := readable_apart content
  have hsub : List.Sublist sent.wire (readable content) := by
    rw [M.wire]
    exact taken_sublist.trans ((List.take_sublist ..).trans (List.take_sublist ..))
  exact ⟨hapart.sublist hsub, (hapart.sublist hsub).room,
    fun payload hmem => hlengths payload (hsub.subset hmem)⟩

end Replay
end MegaFeed
