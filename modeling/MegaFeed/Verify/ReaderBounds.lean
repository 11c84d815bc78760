import MegaFeed.Spec.Capture
import MegaFeed.Verify.PcapngReader

/-! # Where the capture reader leaves its buffers

The fields of an Enhanced Packet Block are read before its length is held against them. The reader
stays inside its buffers, whatever it is called for and however often, exactly on the files whose
walk meets no such block of less than 28 bytes (`inside_iff`). -/

namespace MegaFeed.PcapngReader
open Reads Pcapng

section
variable {stray : Nat → Bytes} {reader : PcapngReader} {file : Bytes}

/-! ## Steps walk the file -/

theorem orderU32_word : reader.orderU32 file = word reader.isSwappedEndian file := orderU32_eq

theorem badLength_iff {totalLength : UInt32} :
    BadLength totalLength ↔ ¬(12 ≤ totalLength ∧ totalLength ≤ MAX_BLOCK_LENGTH) := by
  rw [not_and_or, UInt32.not_le, UInt32.not_le]
  rfl

/-- The place of a reader in its file. -/
def At (reader : PcapngReader) (place : Position) : Prop :=
  reader.file = some place.2 ∧ reader.isSwappedEndian = place.1

theorem sectionHeader_at (h : 8 ≤ file.length) (hsection : getU32 file = 0x0a0d0d0a) :
    (sectionHeader { reader with file := some (file.drop 8) } (file.drop 8) (file.take 8)).2.At
      (following (reader.isSwappedEndian, file)) := by
  rw [sectionHeader, following]
  dsimp only
  rw [if_pos hsection, List.drop_drop]
  by_cases hmagic : ((file.drop 8).take 4).length ≠ 4
  · have hend : ¬12 ≤ file.length := by
      rw [List.length_take, List.length_drop] at hmagic
      omega
    rw [if_pos hmagic, if_neg fun h => hend h.1]
    exact ⟨rfl, rfl⟩
  have hend : 12 ≤ file.length := by
    rw [List.length_take, List.length_drop] at hmagic
    omega
  rw [if_neg hmagic, getU32_take (by decide)]
  by_cases hknown : getU32 (file.drop 8) = 0x1a2b3c4d ∨ getU32 (file.drop 8) = 0x4d3c2b1a
  · have hswapped : decide (getU32 (file.drop 8) ≠ 0x1a2b3c4d) =
        decide (getU32 (file.drop 8) = 0x4d3c2b1a) := by
      rcases hknown with h | h <;> rw [h] <;> rfl
    rw [if_neg (by tauto), if_pos (And.intro hend hknown), hswapped, orderU32_length, orderU32_word]
    dsimp only
    by_cases hlength : 28 ≤ word (getU32 (file.drop 8) = 0x4d3c2b1a) (file.drop 4) ∧
        word (getU32 (file.drop 8) = 0x4d3c2b1a) (file.drop 4) ≤ MAX_BLOCK_LENGTH
    · have hle : 28 ≤ (word (getU32 (file.drop 8) = 0x4d3c2b1a) (file.drop 4)).toNat :=
        UInt32.le_iff_toNat_le.mp hlength.1
      rw [if_neg (by rw [not_or, UInt32.not_lt, gt_iff_lt, UInt32.not_lt]; exact hlength),
        if_pos hlength]
      refine ⟨?_, rfl⟩
      dsimp only [fseek]
      rw [List.drop_drop,
        UInt32.toNat_sub_of_le _ _ (UInt32.le_iff_toNat_le.mpr (le_trans (by decide) hle))]
      exact congrArg (fun n => some (file.drop n)) (by simp; omega)
    · rw [if_pos (by rwa [← UInt32.not_le, gt_iff_lt, ← UInt32.not_le, ← not_and_or]),
        if_neg hlength]
      exact ⟨rfl, rfl⟩
  · rw [if_pos (by tauto), if_neg fun h => hknown h.2]
    exact ⟨rfl, rfl⟩

theorem readBody_at {length : Nat} (hroom : 8 ≤ length) (hle : 8 ≤ file.length) :
    (readBody stray { reader with file := some (file.drop 8) } (file.drop 8) blockType
      (length - 8)).value.2.At
      (reader.isSwappedEndian, file.drop length) := by
  have hskip : (file.drop 8).drop (length - 8) = file.drop length := by
    rw [List.drop_drop]
    congr 1
    omega
  by_cases htype : blockType = 1 ∨ blockType = 6
  · by_cases hcut : (file.drop 8).length < length - 8
    · rw [readBody_cut hcut htype]
      rw [List.length_drop] at hcut
      exact ⟨congrArg some (List.drop_eq_nil_of_le (by omega)).symm, rfl⟩
    rcases htype with rfl | rfl
    · rw [readBody_interface (by omega)]
      exact ⟨congrArg some hskip, rfl⟩
    · rw [readBody_packet (by omega)]
      exact ⟨congrArg some hskip, rfl⟩
  · rw [not_or] at htype
    rw [readBody_other htype.1 htype.2]
    exact ⟨congrArg some hskip, rfl⟩

theorem readBlock_at :
    (readBlock stray reader file).value.2.At (following (reader.isSwappedEndian, file)) := by
  by_cases hheader : 8 ≤ file.length
  · by_cases hsection : getU32 file = 0x0a0d0d0a
    · rw [readBlock_section hheader hsection]
      exact sectionHeader_at hheader hsection
    rw [following]
    dsimp only
    rw [if_neg hsection]
    by_cases hbad : BadLength (reader.orderU32 (file.drop 4))
    · rw [readBlock_bad hheader hsection hbad]
      rw [orderU32_word, badLength_iff] at hbad
      rw [if_neg hbad]
      exact ⟨rfl, rfl⟩
    · rw [readBlock_body hheader hsection hbad]
      have hle := le_of_not_bad hbad
      rw [orderU32_word, badLength_iff, not_not] at hbad
      rw [if_pos hbad, ← orderU32_word]
      exact readBody_at (by omega) hheader
  · have hend (n : Nat) (h : 8 ≤ n) : file.drop n = [] := List.drop_eq_nil_of_le (by omega)
    rw [readBlock_cut (by omega), following]
    dsimp only
    split
    · rw [if_neg fun h => absurd h.1 (by omega)]
      exact ⟨congrArg some (hend 12 (by decide)).symm, rfl⟩
    · refine ⟨congrArg some (hend _ ?_).symm, rfl⟩
      split
      · rename_i hgood
        exact le_trans (by decide) (UInt32.le_iff_toNat_le.mp hgood.1)
      · exact le_rfl

theorem examine_at {round : Round PacketBlock × PcapngReader} (h : round.2.At place) :
    (examine stray round).value.2.At place := by
  obtain ⟨_, _, hwarned⟩ := @examine_warned stray round
  rw [hwarned]
  exact h

theorem after_at (h : reader.At place) : (after stray reader).At (following place) := by
  obtain ⟨swapped, rest⟩ := place
  obtain ⟨hfile, rfl⟩ := h
  rw [after, step_some hfile, value_bind]
  exact examine_at readBlock_at

theorem after_iterate_at (h : reader.At place)
    (n : Nat) : ((after stray)^[n] reader).At (following^[n] place) := by
  induction n with
  | zero => exact h
  | succ n ih =>
    rw [Function.iterate_succ_apply', Function.iterate_succ_apply']
    exact after_at ih

theorem shortBlock_iff : reader.ShortBlock file ↔
    ShortPacketBlock (reader.isSwappedEndian, file) := by
  dsimp only [ShortPacketBlock]
  rw [← orderU32_word, ← orderU32_word]
  constructor
  · rintro ⟨hheader, -, hgood, htype, hcomplete, hlt⟩
    have hle := le_of_not_bad hgood
    rw [List.length_drop] at hcomplete
    refine ⟨htype, UInt32.le_iff_toNat_le.mpr hle, UInt32.lt_iff_toNat_lt.mpr ?_, by omega⟩
    change _ < 28
    omega
  · rintro ⟨htype, hle, hlt, hcomplete⟩
    have hle' : 12 ≤ (reader.orderU32 (file.drop 4)).toNat := UInt32.le_iff_toNat_le.mp hle
    have hlt' : (reader.orderU32 (file.drop 4)).toNat < 28 := UInt32.lt_iff_toNat_lt.mp hlt
    refine ⟨by omega, fun h => ?_, ?_, htype, by rw [List.length_drop]; omega, by omega⟩
    · rw [orderU32_section h] at htype
      exact absurd htype (by decide)
    · rw [badLength_iff, not_not]
      exact ⟨hle, UInt32.le_iff_toNat_le.mpr (hlt'.le.trans (by decide))⟩

/-- A step stays inside just where the walk is at no short block. -/
theorem inside_at (h : reader.At place) : (step stray reader).inside = true ↔
    ¬ShortPacketBlock place := by
  obtain ⟨swapped, rest⟩ := place
  obtain ⟨hfile, rfl⟩ := h
  rw [inside_step, hfile, ← shortBlock_iff]
  simp

/-! ## Calls are steps -/

/-- A call is one step or more, and stays inside if they do. -/
theorem nextPacket_steps (reader : PcapngReader) :
    ∃ n, (nextPacket stray reader).value.2 = (after stray)^[n + 1] reader ∧
      ((nextPacket stray reader).inside = true ↔
        ∀ i ≤ n, (step stray ((after stray)^[i] reader)).inside = true) := by
  induction hn : reader.unread using Nat.strong_induction_on generalizing reader with
  | _ unread ih =>
  subst hn
  rw [nextPacket_step, value_bind, inside_bind]
  cases hround : (step stray reader).value with
  | mk round next =>
  have hnext : after stray reader = next := congrArg Prod.snd hround
  cases round with
  | stop => exact ⟨0, hnext.symm, by simp⟩
  | found packet => exact ⟨0, hnext.symm, by simp⟩
  | next =>
    obtain ⟨n, hvalue, hinside⟩ := ih next.unread (by
      have hless := @unread_step stray reader
      rw [hround] at hless
      exact hless (by simp)) next rfl
    refine ⟨n + 1, ?_, ?_⟩
    · rw [Function.iterate_succ_apply, hnext, hvalue]
    · rw [Bool.and_eq_true, hinside]
      constructor
      · rintro ⟨hfirst, hlater⟩ i hi
        cases i with
        | zero => exact hfirst
        | succ i =>
          rw [Function.iterate_succ_apply, hnext]
          exact hlater i (by omega)
      · intro hall
        refine ⟨hall 0 (by omega), fun i hi => ?_⟩
        rw [← hnext, ← Function.iterate_succ_apply]
        exact hall (i + 1) (by omega)

theorem calls_steps (count : Nat) (reader : PcapngReader) :
    ∃ n, count ≤ n ∧ (calls stray count reader).value = (after stray)^[n] reader ∧
      ((calls stray count reader).inside = true ↔
        ∀ i < n, (step stray ((after stray)^[i] reader)).inside = true) := by
  induction count generalizing reader with
  | zero => exact ⟨0, le_rfl, rfl, by simp [calls]⟩
  | succ count ih =>
    obtain ⟨n, hvalue, hinside⟩ := @nextPacket_steps stray reader
    obtain ⟨m, hle, hvalues, hinsides⟩ := ih (nextPacket stray reader).value.2
    have hsplit (i : Nat) : (after stray)^[i] ((after stray)^[n + 1] reader) =
        (after stray)^[i + (n + 1)] reader :=
      (Function.iterate_add_apply ..).symm
    refine ⟨m + (n + 1), by omega, ?_, ?_⟩
    · rw [calls, value_bind, hvalues, hvalue, hsplit]
    · rw [calls, inside_bind, Bool.and_eq_true, hinside, hinsides, hvalue]
      constructor
      · rintro ⟨hfirst, hlater⟩ i hi
        rcases Nat.lt_or_ge i (n + 1) with hlt | hge
        · exact hfirst i (by omega)
        · have hlate := hlater (i - (n + 1)) (by omega)
          rwa [hsplit, Nat.sub_add_cancel hge] at hlate
      · intro hall
        refine ⟨fun i hi => hall i (by omega), fun i hi => ?_⟩
        rw [hsplit]
        exact hall _ (by omega)

/-- **Where the reader stays inside.** Called any number of times on a file it has opened, it makes
no access outside `body` and `packet_data` just if the walk over that file meets no Enhanced Packet
Block of less than 28 bytes that the file has all bytes of. -/
theorem inside_iff (stray : Nat → Bytes) {content : Bytes}
    (hopen : (reader.openFile (some content)).1 = true) :
    (∀ count, (calls stray count (reader.openFile (some content)).2).inside = true) ↔
      ∀ n, ¬ShortPacketBlock (following^[n] (reader.isSwappedEndian, content)) := by
  have hat : (reader.openFile (some content)).2.At (reader.isSwappedEndian, content) := by
    rw [openFile] at hopen ⊢
    dsimp only at hopen ⊢
    split at hopen
    · cases hopen
    rename_i hfull
    rw [if_neg hfull]
    split at hopen
    · cases hopen
    rename_i hmagic
    rw [if_neg hmagic]
    exact ⟨rfl, rfl⟩
  have hstep (n : Nat) := @inside_at stray _ _ (@after_iterate_at stray _ _ hat n)
  constructor
  · intro h n
    obtain ⟨m, hle, -, hinside⟩ := @calls_steps stray (n + 1) (reader.openFile (some content)).2
    exact (hstep n).mp (hinside.mp (h (n + 1)) n (by omega))
  · intro h count
    obtain ⟨m, -, -, hinside⟩ := @calls_steps stray count (reader.openFile (some content)).2
    exact hinside.mpr fun i _ => (hstep i).mpr (h i)

end

/-- The fields of the short block lie outside its four bytes. -/
theorem inside_iff_shortCapture :
    ¬∀ count, (calls (fun _ => []) count (openFile {} (some shortCapture)).2).inside = true :=
      fun h =>
  (@inside_iff {} (fun _ => []) shortCapture (by decide)).mp h 1 (by decide)

theorem not_always_inside :
    ¬∀ (stray : Nat → Bytes) (reader : PcapngReader) (content : Bytes),
      (reader.openFile (some content)).1 = true →
      ∀ count, (calls stray count (reader.openFile (some content)).2).inside = true := fun h =>
  absurd (h (fun _ => []) {} shortCapture (by decide) 1) (by decide +kernel)

end MegaFeed.PcapngReader
