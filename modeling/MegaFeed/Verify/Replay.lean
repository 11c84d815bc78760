import MegaFeed.Model.Replay
import MegaFeed.Verify.CutShort
import MegaFeed.Spec.Capture

/-! # Replaying a capture

What a reader hands back depends on the file alone, whatever it has read before (`reopen_fresh`).
`checkcap_predicts`: what `checkcap` says of a file is what `exchange` makes of it, and a download
that is cut short behind enough packets replays like the whole one. -/

namespace MegaFeed

/-! ## Reopening -/

namespace PcapngReader
open Reads

variable {stray : Nat → Bytes} {reader : PcapngReader} {file : Bytes} {truncated linkType : Bool}

/-- The reader with other warnings given. -/
def warned (reader : PcapngReader) (truncated linkType : Bool) : PcapngReader :=
  { reader with warnedTruncated := truncated, warnedLinkType := linkType }

theorem sectionHeader_warned {blockHeader : Bytes} :
    (reader.warned truncated linkType).sectionHeader file blockHeader =
      ((reader.sectionHeader file blockHeader).1,
        (reader.sectionHeader file blockHeader).2.warned truncated linkType) := by
  rw [sectionHeader, sectionHeader]
  dsimp only
  split
  · rfl
  split
  · rfl
  simp only [orderU32, warned]
  split_ifs <;> rfl

theorem readBody_warned :
    (readBody stray (reader.warned truncated linkType) file blockType remainingLength).value =
      ((readBody stray reader file blockType remainingLength).value.1,
        (readBody stray reader file blockType remainingLength).value.2.warned truncated
        linkType) := by
  by_cases htype : blockType = 1 ∨ blockType = 6
  · by_cases hle : remainingLength ≤ file.length
    · have horder : ((reader.warned truncated linkType).skip file remainingLength).isSwappedEndian =
          (reader.skip file remainingLength).isSwappedEndian := rfl
      rcases htype with rfl | rfl
      · rw [readBody_interface hle, readBody_interface hle, value_bind, value_bind,
          value_pure, value_pure, interfaceDescription_congr horder]
        rfl
      · rw [readBody_packet hle, readBody_packet hle]
        rfl
    · rw [readBody_cut (by omega) htype, readBody_cut (by omega) htype]
      rfl
  · rw [not_or] at htype
    rw [readBody_other htype.1 htype.2, readBody_other htype.1 htype.2]
    rfl

theorem readBlock_warned :
    (readBlock stray (reader.warned truncated linkType) file).value =
      ((readBlock stray reader file).value.1,
        (readBlock stray reader file).value.2.warned truncated linkType) := by
  by_cases hlength : 8 ≤ file.length
  · by_cases hsection : getU32 file = 0x0a0d0d0a
    · rw [readBlock_section hlength hsection, readBlock_section hlength hsection,
        value_pure, value_pure]
      exact @sectionHeader_warned { reader with file := some (file.drop 8) } _ _ _ _
    by_cases hbad : BadLength (reader.orderU32 (file.drop 4))
    · rw [readBlock_bad hlength hsection hbad,
        @readBlock_bad stray (reader.warned truncated linkType) _ hlength
        hsection hbad]
      rfl
    · rw [readBlock_body hlength hsection hbad,
        @readBlock_body stray (reader.warned truncated linkType) _ hlength
        hsection hbad]
      exact @readBody_warned stray { reader with file := some (file.drop 8) } _ _ _ _ _
  · rw [readBlock_cut (by omega), readBlock_cut (by omega)]
    rfl

/-- The warnings that have been given change nothing but the warnings. -/
theorem step_warned : ∃ truncated' linkType',
    (step stray (reader.warned truncated linkType)).value =
    ((step stray reader).value.1, (step stray reader).value.2.warned truncated' linkType') := by
  cases hfile : reader.file with
  | none =>
    rw [step_none hfile, @step_none stray (reader.warned truncated linkType) hfile]
    exact ⟨_, _, rfl⟩
  | some file =>
    rw [step_some hfile, @step_some stray (reader.warned truncated linkType) file hfile,
      value_bind, value_bind, readBlock_warned]
    generalize (readBlock stray reader file).value = round
    obtain ⟨round, reader⟩ := round
    cases round with
    | stop => exact ⟨_, _, rfl⟩
    | next => exact ⟨_, _, rfl⟩
    | found packet =>
      simp only [examine, value_bind]
      have hunread : (reader.warned truncated linkType).unread = reader.unread := rfl
      rw [hunread, udpPayload, udpPayload]
      by_cases hcut : packet.capturedLength < packet.wireLength
      · rw [if_pos hcut, if_pos hcut]
        exact ⟨_, _, rfl⟩
      by_cases hlink : packet.packetLinkType ≠ 1
      · rw [if_neg hcut, if_neg hcut, if_pos hlink, if_pos hlink]
        exact ⟨_, _, rfl⟩
      · rw [if_neg hcut, if_neg hcut, if_neg hlink, if_neg hlink, value_bind, value_bind]
        cases (ethernetPayload packet (stray reader.unread)).value <;> exact ⟨_, _, rfl⟩

theorem packets_warned :
    (packets stray (reader.warned truncated linkType)).value = (packets stray reader).value := by
  induction hn : reader.unread using Nat.strong_induction_on generalizing reader
    truncated linkType with
  | _ n ih =>
  subst hn
  rw [value_packets_step, @value_packets_step stray reader]
  obtain ⟨truncated', linkType', hstep⟩ := @step_warned stray reader truncated linkType
  have hless := @unread_step stray reader
  rw [hstep]
  generalize (step stray reader).value = round at hless ⊢
  obtain ⟨round, next⟩ := round
  cases round with
  | stop => rfl
  | next => exact ih _ (hless (by simp)) rfl
  | found packet => exact congrArg (packet :: ·) (ih _ (hless (by simp)) rfl)

/-- A section header starts anew. -/
theorem sectionHeader_anew (reader reader' : PcapngReader) (file blockHeader : Bytes) :
    (reader.sectionHeader file blockHeader).1 = (reader'.sectionHeader file blockHeader).1 ∧
    ((reader.sectionHeader file blockHeader).1 = .next →
      (reader.sectionHeader file blockHeader).2 =
        (reader'.sectionHeader file blockHeader).2.warned reader.warnedTruncated
        reader.warnedLinkType) := by
  rw [sectionHeader, sectionHeader]
  dsimp only
  split
  · exact ⟨rfl, fun h => by cases h⟩
  split
  · exact ⟨rfl, fun h => by cases h⟩
  simp only [orderU32, warned]
  split_ifs <;> exact ⟨rfl, fun h => by first | rfl | cases h⟩

theorem openFile_accepts {content : Bytes} :
    (reader.openFile (some content)).1 = (({} : PcapngReader).openFile (some content)).1 ∧
    ((reader.openFile (some content)).1 = true → getU32 content = 0x0a0d0d0a ∧
      (reader.openFile (some content)).2 = { reader with file := some content }) := by
  rw [openFile, openFile]
  dsimp only
  split
  · exact ⟨rfl, fun h => by cases h⟩
  split
  · exact ⟨rfl, fun h => by cases h⟩
  · next hmagic =>
    rw [not_not, getU32_take le_rfl] at hmagic
    exact ⟨rfl, fun _ => ⟨hmagic, rfl⟩⟩

/-- A file begins with a section header, so a reader forgets what it was. -/
theorem packets_anew {content : Bytes} (h : getU32 content = 0x0a0d0d0a) :
    (packets stray { reader with file := some content }).value =
      (packets stray { file := some content }).value := by
  rw [value_packets_step, @value_packets_step stray { file := some content }, step_some rfl,
    @step_some stray { file := some content } content rfl]
  by_cases hlength : 8 ≤ content.length
  · rw [readBlock_section hlength h, readBlock_section hlength h, pure_bind, pure_bind]
    have hne := @sectionHeader_ne_found { reader with file := some (content.drop 8) }
      (content.drop 8)
      (content.take 8)
    obtain ⟨hround, hnext⟩ := sectionHeader_anew { reader with file := some (content.drop 8) }
      { file := some (content.drop 8) } (content.drop 8) (content.take 8)
    generalize sectionHeader { reader with file := some (content.drop 8) } _ _ =
      whole at hne hround hnext ⊢
    generalize sectionHeader { file := some (content.drop 8) } _ _ = fresh at hround hnext ⊢
    obtain ⟨round, next⟩ := whole
    obtain ⟨round', next'⟩ := fresh
    dsimp only at hne hround hnext
    subst hround
    cases round with
    | stop => rfl
    | next =>
      rw [hnext rfl]
      exact packets_warned
    | found packet => exact absurd rfl hne
  · rw [readBlock_cut (by omega), readBlock_cut (by omega)]
    rfl

/-- What is left in memory behind the buffers never shows. -/
theorem packets_steady (stray stray' : Nat → Bytes) :
    (packets stray' reader).value = (packets stray reader).value := by
  induction hn : reader.unread using Nat.strong_induction_on generalizing reader with
  | _ n ih =>
  subst hn
  rw [value_packets_step, @value_packets_step stray reader, step_stray stray' stray]
  have hless := @unread_step stray reader
  generalize (step stray reader).value = step at hless ⊢
  obtain ⟨round, next⟩ := step
  cases round with
  | stop => rfl
  | next => exact ih _ (hless (by simp)) rfl
  | found packet => exact congrArg (packet :: ·) (ih _ (hless (by simp)) rfl)

/-- **A reopened reader is a new one.** What a reader hands back of a file does not depend on what
it has read before, nor on what memory holds behind its buffers. -/
theorem reopen_fresh (stray stray' : Nat → Bytes) (reader : PcapngReader) (content : Bytes) :
    (replay stray reader content).value = (replay stray' {} content).value := by
  obtain ⟨haccepts, hopened⟩ := @openFile_accepts reader content
  obtain ⟨-, hfresh⟩ := @openFile_accepts {} content
  rw [replay, replay]
  generalize reader.openFile (some content) = reopened at haccepts hopened ⊢
  generalize ({} : PcapngReader).openFile (some content) = opened at haccepts hfresh ⊢
  obtain ⟨accepted, next⟩ := reopened
  obtain ⟨accepted', next'⟩ := opened
  dsimp only at haccepts hopened hfresh
  subst haccepts
  cases accepted with
  | false => rfl
  | true =>
    obtain ⟨hmagic, rfl⟩ := hopened rfl
    obtain ⟨-, rfl⟩ := hfresh rfl
    exact (packets_anew hmagic).trans (packets_steady ..)

end PcapngReader

/-! ## Replaying -/

namespace Replay
open PcapngReader (packets replay packets_eq packets_cut packets_steady openFile_cut)
open Reads

/-- The payloads that a reader hands back of a file. -/
def readable (content : Bytes) : List Bytes := (replay (fun _ => []) {} content).value.map Prod.fst

/-- The loop of `exchange` on the payloads that are there. -/
def Sent.sendAll (stop sends : Nat → Bool) : List Bytes → Sent → Sent
  | [], sent => sent
  | payload :: payloads, sent =>
    if stop sent.packets then sent else sendAll stop sends payloads (sent.send sends payload)

/-- Those payloads that `sendto` takes, if the first one is packet `first`. -/
def taken (sends : Nat → Bool) (first : Nat) (payloads : List Bytes) : List Bytes :=
  ((payloads.zipIdx first).filter (sends ·.2)).map Prod.fst

section
variable {stray : Nat → Bytes} {stop sends : Nat → Bool} {content : Bytes}

theorem parseIpv4_group : Net.parseIpv4 IEX_GROUP = some 0xef4d0601 := by decide +kernel

theorem loop_eq {reader : PcapngReader} {sent : Sent} :
    loop stray stop sends remaining reader sent =
    sent.sendAll stop sends (((packets stray reader).value.map Prod.fst).take remaining) := by
  induction remaining generalizing reader sent with
  | zero => rfl
  | succ remaining ih =>
    rw [loop, packets_eq, value_bind]
    generalize (PcapngReader.nextPacket stray reader).value = call
    obtain ⟨packet, next⟩ := call
    cases packet with
    | none =>
      rw [value_pure, List.map_nil, List.take_nil, Sent.sendAll]
      exact ite_self _
    | some packet =>
      rw [value_map, List.map_cons, List.take_succ_cons, Sent.sendAll]
      dsimp only
      rw [ih]

theorem exchange_sent : (exchange stray stop sends packetCount (some content) stopped).2 =
    Sent.sendAll stop sends ((readable content).take packetCount) {} := by
  rw [exchange, readable, replay]
  generalize ({} : PcapngReader).openFile (some content) = opened
  obtain ⟨accepted, reader⟩ := opened
  cases accepted with
  | false =>
    dsimp only
    rw [value_pure, List.map_nil, List.take_nil, Sent.sendAll]
  | true =>
    dsimp only
    rw [parseIpv4_group, loop_eq, packets_steady (fun _ => []) stray]

theorem status_iff (packets packetCount : Nat) :
    let status := if packets = 0 then 1 else if packets < packetCount then 2 else 0
    (status = 1 ↔ packets = 0) ∧ (status = 2 ↔ 0 < packets ∧ packets < packetCount) ∧
    (status = 0 ↔ 0 < packets ∧ packetCount ≤ packets) := by
  dsimp only
  split_ifs <;> simp <;> omega

theorem checkcap_eq : checkcap stray packetCount (some content) =
    { status := if (readable content).length = 0 then 1
        else if (readable content).length < packetCount then 2 else 0
      packets := (readable content).length
      bytes := ((readable content).map (·.length)).sum } := by
  rw [checkcap, readable, replay]
  generalize ({} : PcapngReader).openFile (some content) = opened
  obtain ⟨accepted, reader⟩ := opened
  cases accepted with
  | false => rfl
  | true =>
    dsimp only
    rw [packets_steady (fun _ => []) stray, List.length_map, List.map_map]
    rfl

/-- What a run over some payloads comes to: it makes `rounds` rounds, up to a signal or
to the end. -/
structure Sent.Made (sent last : Sent) (stop sends : Nat → Bool) (payloads : List Bytes)
    (rounds : Nat) : Prop where
  rounds_le : rounds ≤ payloads.length
  running : ∀ i < rounds, stop (sent.packets + i) = false
  ends : rounds = payloads.length ∨ stop (sent.packets + rounds) = true
  packets : last.packets = sent.packets + rounds
  bytes : last.bytes = sent.bytes + ((payloads.take rounds).map (·.length)).sum
  wire : last.wire = sent.wire ++ taken sends sent.packets (payloads.take rounds)
  failures : last.wire.length + last.sendFailures = sent.wire.length + sent.sendFailures + rounds

theorem sendAll_made (stop sends : Nat → Bool) (payloads : List Bytes) (sent : Sent) :
    ∃ rounds, sent.Made (sent.sendAll stop sends payloads) stop sends payloads rounds := by
  induction payloads generalizing sent with
  | nil => exact ⟨0, by constructor <;> simp [Sent.sendAll, taken]⟩
  | cons payload payloads ih =>
    rw [Sent.sendAll]
    by_cases hstop : stop sent.packets = true
    · rw [if_pos hstop]
      exact ⟨0, by constructor <;> simp [taken, hstop]⟩
    · rw [if_neg hstop]
      obtain ⟨rounds, M⟩ := ih (sent.send sends payload)
      have hnext : (sent.send sends payload).packets = sent.packets + 1 := rfl
      refine ⟨rounds + 1, Nat.succ_le_succ M.rounds_le, fun i hi => ?_, ?_, ?_, ?_, ?_, ?_⟩
      · cases i with
        | zero => exact Bool.eq_false_of_not_eq_true hstop
        | succ i =>
          have hrunning := M.running i (by omega)
          rwa [hnext, Nat.add_right_comm, Nat.add_assoc] at hrunning
      · refine M.ends.imp (congrArg (· + 1)) fun hends => ?_
        rwa [hnext, Nat.add_right_comm, Nat.add_assoc] at hends
      · rw [M.packets, hnext, Nat.add_right_comm, Nat.add_assoc]
      · rw [M.bytes, Sent.send, List.take_succ_cons, List.map_cons, List.sum_cons, Nat.add_assoc]
      · rw [M.wire, hnext, List.take_succ_cons, taken, taken, List.zipIdx_cons, Sent.send]
        by_cases hsends : sends sent.packets = true <;> simp [hsends]
      · rw [M.failures, Sent.send]
        by_cases hsends : sends sent.packets = true <;> simp [hsends] <;> omega

/-- The exit status is that of `open` unless a signal came. -/
theorem exchange_status : (exchange stray stop sends packetCount (some content) stopped).1 =
    if (({} : PcapngReader).openFile (some content)).1 =
      false then 1 else if stopped then 130 else 0 := by
  rw [exchange]
  generalize ({} : PcapngReader).openFile (some content) = opened
  obtain ⟨accepted, reader⟩ := opened
  cases accepted with
  | false => rfl
  | true =>
    dsimp only
    rw [parseIpv4_group]
    rfl

theorem openFile_of_readable (h : readable content ≠ []) :
    (({} : PcapngReader).openFile (some content)).1 = true := by
  by_contra hrefused
  rw [Bool.not_eq_true] at hrefused
  refine h ?_
  rw [readable, replay]
  generalize ({} : PcapngReader).openFile (some content) = opened at hrefused
  obtain ⟨accepted, reader⟩ := opened
  subst hrefused
  rfl

/-- What the beginning of a file holds comes first in the whole of it. -/
theorem readable_front (content rest : Bytes) :
    readable content <+: readable (content ++ rest) := by
  by_cases hreadable : readable content = []
  · rw [hreadable]
    exact List.nil_prefix
  have hcut : (content ++ rest).take content.length = content := List.take_left' rfl
  have haccepts := openFile_of_readable hreadable
  obtain ⟨hreader, hwhole⟩ := @openFile_cut {} (content ++ rest) content.length (by rwa [hcut])
  rw [hcut] at hreader
  rw [readable, readable, replay, replay]
  generalize ({} : PcapngReader).openFile (some content) = part at haccepts hreader
  generalize ({} : PcapngReader).openFile (some (content ++ rest)) = whole at hwhole hreader
  obtain ⟨accepted, next⟩ := part
  obtain ⟨accepted', next'⟩ := whole
  dsimp only at haccepts hwhole hreader
  subst haccepts hwhole hreader
  exact (packets_cut content.length).map Prod.fst

end

/-- **`checkcap` tells what `exchange` will do.** Whatever signals and send failures it meets,
`exchange` makes its rounds over the packets that `checkcap` counts, in order and each once, up to
the configured number or the first signal, and every packet either goes out or is a counted failure.
Status 1 means that there is nothing to send, status 2 that the packets run out early, and where the
status is 0, whatever a broken download is still missing makes no difference. -/
theorem checkcap_predicts (stray stray' : Nat → Bytes) (stop sends : Nat → Bool) (packetCount : Nat)
    (stopped : Bool) (content : Bytes) :
    let checked := checkcap stray packetCount (some content)
    let sent := (exchange stray' stop sends packetCount (some content) stopped).2
    (checked.status = 1 ↔ checked.packets = 0) ∧
    (checked.status = 2 ↔ 0 < checked.packets ∧ checked.packets < packetCount) ∧
    (∃ rounds, ({} : Sent).Made sent stop sends ((readable content).take packetCount) rounds) ∧
    ((∀ i, stop i = false) → sent.packets = min packetCount checked.packets) ∧
    (sent.packets = checked.packets → sent.bytes = checked.bytes) ∧
    (checked.status = 0 → ∀ rest,
      exchange stray' stop sends packetCount (some (content ++ rest)) stopped =
        exchange stray stop sends packetCount (some content) stopped) := by
  intro checked sent
  have hchecked : checked = _ := checkcap_eq
  have hsent : sent = _ := exchange_sent
  obtain ⟨rounds, M⟩ := sendAll_made stop sends ((readable content).take packetCount) {}
  rw [← hsent] at M
  have hrounds : sent.packets = rounds := M.packets.trans (Nat.zero_add _)
  have hlength : ((readable content).take packetCount).length =
      min packetCount checked.packets := by
    rw [hchecked, List.length_take]
  refine ⟨?_, ?_, ⟨rounds, M⟩, fun hnever => ?_, fun hall => ?_, fun hstatus rest => ?_⟩
  · rw [hchecked]
    exact (status_iff ..).1
  · rw [hchecked]
    exact (status_iff ..).2.1
  · rw [hrounds, ← hlength]
    exact M.ends.resolve_right (by rw [hnever]; simp)
  · have hle := M.rounds_le
    rw [hlength, ← hrounds, hall] at hle
    rw [M.bytes, hchecked, ← hrounds, hall, List.take_take, List.take_of_length_le]
    · exact Nat.zero_add _
    · rw [hchecked] at hle ⊢
      dsimp only at hle ⊢
      omega
  · obtain ⟨hpos, henough⟩ := (status_iff ..).2.2.mp (hchecked ▸ hstatus)
    have hne : readable content ≠ [] := List.ne_nil_of_length_pos hpos
    have hfront := readable_front content rest
    have hne' : readable (content ++ rest) ≠ [] := fun h => hne (List.prefix_nil.mp (h ▸ hfront))
    refine Prod.ext ?_ ?_
    · rw [exchange_status, exchange_status, openFile_of_readable hne, openFile_of_readable hne']
    · obtain ⟨later, hlater⟩ := hfront
      rw [exchange_sent, exchange_sent, ← hlater, List.take_append_of_le_length henough]

/-- A section with one interface and two datagrams. -/
def twoDatagrams : Bytes :=
  let frame : Bytes := .replicate 12 0 ++ [8, 0, 0x45] ++ .replicate 8 0 ++ [17] ++
    .replicate 14 0 ++ [0, 11, 0, 0]
  Pcapng.block false 0x0a0d0d0a (Pcapng.word32 false 0x1a2b3c4d ++ .replicate 12 0) ++
  Pcapng.block false 1 (Pcapng.word16 false 1 ++ .replicate 6 0) ++
  Pcapng.block false 6 (Pcapng.packetBody false 0 7 (frame ++ [1, 2, 3]) 45 [0, 0, 0]) ++
  Pcapng.block false 6 (Pcapng.packetBody false 0 8 (frame ++ [4, 5, 6]) 45 [0, 0, 0])

/-- The second datagram has lost its last ten bytes. -/
def cutDatagram : Bytes := twoDatagrams.take (twoDatagrams.length - 10)

/-- The one packet left is all there is for two rounds, and enough for one, whatever was to come. -/
theorem checkcap_predicts_enough :
    (checkcap (fun _ => []) 2 (some cutDatagram)).status = 2 ∧
    (exchange (fun _ => []) (fun _ => false) (fun _ => true) 2 (some cutDatagram) false).2.packets =
      1 ∧
    exchange (fun _ => []) (fun _ => false) (fun _ => true) 1 (some twoDatagrams) false =
      (0, { packets := 1, bytes := 3, wire := [[1, 2, 3]] }) ∧
    (exchange (fun _ => []) (fun _ => false) (fun _ => true) 2 (some twoDatagrams) false).2.wire =
      [[1, 2, 3], [4, 5, 6]] := by
  have hpackets : (checkcap (fun _ => []) 2 (some cutDatagram)).packets = 1 := by decide +kernel
  have hwhole : cutDatagram ++ twoDatagrams.drop (twoDatagrams.length - 10) = twoDatagrams :=
    List.take_append_drop _ _
  obtain ⟨-, hearly, -, hrounds, -⟩ := checkcap_predicts (fun _ => []) (fun _ => [])
    (fun _ => false)
    (fun _ => true) 2 false cutDatagram
  obtain ⟨-, -, -, -, -, henough⟩ := checkcap_predicts (fun _ => []) (fun _ => []) (fun _ => false)
    (fun _ => true) 1 false cutDatagram
  refine ⟨hearly.mpr ?_, ?_, ?_, by decide +kernel⟩
  · rw [hpackets]
    decide
  · rw [hrounds fun _ => rfl, hpackets]
    decide
  · have hsame := henough (by decide +kernel) (twoDatagrams.drop (twoDatagrams.length - 10))
    rw [hwhole] at hsame
    rw [hsame]
    decide +kernel

end Replay
end MegaFeed
