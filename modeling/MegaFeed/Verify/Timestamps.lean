import MegaFeed.Verify.CaptureRead

/-! # Capture timestamps

The options of an interface, read one after the other, leave the multiplier and the divisor of the
last resolution that the reader takes (`interfaceOptions_eq`), and a packet's ticks are scaled by
those (`timestamp_resolved`). -/

namespace MegaFeed.Pcapng
open PcapngReader

/-! ## Resolutions -/

/-- The interface scales ticks as `perSecond` of them in a second ask for. -/
def Scales (info : InterfaceInfo) (perSecond : Nat) : Prop :=
  ∀ ticks : Nat, ticks * info.nsMultiplier.toNat / info.nsDivisor.toNat = ticks * 10 ^ 9 / perSecond

theorem pow10_toNat (h : n ≤ 19) : (pow10 n).toNat = 10 ^ n := by
  interval_cases n <;> rfl

theorem exponent_eq {resolution : UInt8} : (resolution &&& 0x7f).toNat =
    resolution.toNat % 128 := by
  rw [UInt8.toNat_and]
  exact Nat.and_two_pow_sub_one_eq_mod _ 7

theorem base_iff {resolution : UInt8} : resolution &&& 0x80 ≠ 0 ↔ 128 ≤ resolution.toNat := by
  have hlt := resolution.toNat_lt
  have hbit : (resolution &&& 0x80).toNat = (resolution.toNat.testBit 7).toNat * 2 ^ 7 := by
    rw [UInt8.toNat_and]
    exact Nat.and_two_pow resolution.toNat 7
  rw [ne_eq, ← UInt8.toNat_inj, hbit, Nat.testBit_eq_decide_div_mod_eq]
  change ¬_ = 0 ↔ _
  by_cases h : 128 ≤ resolution.toNat
  · have hdiv : resolution.toNat / 128 % 2 = 1 := by omega
    simp [hdiv, h]
  · have hdiv : resolution.toNat / 128 % 2 = 0 := by omega
    simp [hdiv, h]

theorem exponent_lt {resolution : UInt8} : resolution &&& 0x7f < 64 ↔
    resolution.toNat % 128 < 64 := by
  rw [UInt8.lt_iff_toNat_lt, exponent_eq]
  rfl

theorem exponent_le {resolution : UInt8} : resolution &&& 0x7f ≤ 9 ↔
    resolution.toNat % 128 ≤ 9 := by
  rw [UInt8.le_iff_toNat_le, exponent_eq]
  rfl

theorem toNat_one_shiftLeft {exponent : UInt8} (h : exponent.toNat < 64) :
    ((1 : UInt64) <<< exponent.toUInt64).toNat = 2 ^ exponent.toNat := by
  have hpow : 2 ^ exponent.toNat < 2 ^ 64 := Nat.pow_lt_pow_right (by decide) h
  rw [UInt64.toNat_shiftLeft, UInt8.toNat_toUInt64, Nat.mod_eq_of_lt h, Nat.shiftLeft_eq,
    UInt64.toNat_one, one_mul, Nat.mod_eq_of_lt hpow]

theorem resolve_supported {info : InterfaceInfo} {resolution : UInt8} (h : Supported resolution) :
    Scales (info.resolve resolution) (ticksPerSecond resolution) := by
  rw [Supported] at h
  rw [InterfaceInfo.resolve, ticksPerSecond]
  by_cases hbase : 128 ≤ resolution.toNat
  · rw [if_pos hbase] at h ⊢
    rw [if_pos (base_iff.mpr hbase), if_pos (exponent_lt.mpr h)]
    intro ticks
    dsimp only
    rw [toNat_one_shiftLeft (by rw [exponent_eq]; exact h), exponent_eq]
    rfl
  · rw [if_neg hbase] at h ⊢
    have hmod : resolution.toNat % 128 = resolution.toNat := Nat.mod_eq_of_lt (by omega)
    rw [if_neg (mt base_iff.mp hbase), if_pos (exponent_le.mpr (hmod.trans_le h))]
    intro ticks
    dsimp only
    rw [exponent_eq, hmod, pow10_toNat (by omega)]
    -- `10 ^ 9` is the multiplier times the resolution
    have hsplit : ticks * 10 ^ 9 = ticks * 10 ^ (9 - resolution.toNat) * 10 ^ resolution.toNat := by
      rw [Nat.mul_assoc, ← Nat.pow_add, Nat.sub_add_cancel h]
    rw [hsplit, Nat.mul_div_cancel _ (Nat.pow_pos (by decide))]
    exact Nat.div_one _

theorem resolve_unsupported {info : InterfaceInfo} {resolution : UInt8}
    (h : ¬Supported resolution) :
    info.resolve resolution = info := by
  rw [Supported] at h
  rw [InterfaceInfo.resolve]
  by_cases hbase : 128 ≤ resolution.toNat
  · rw [if_pos hbase] at h
    rw [if_pos (base_iff.mpr hbase), if_neg (mt exponent_lt.mp h)]
  · rw [if_neg hbase] at h
    have hmod : resolution.toNat % 128 = resolution.toNat := Nat.mod_eq_of_lt (by omega)
    rw [if_neg (mt base_iff.mp hbase), if_neg (mt exponent_le.mp (by rwa [hmod]))]

/-! ## Options -/

/-- An interface after one more option. -/
def applyOption (info : InterfaceInfo) (option : InterfaceOption) : InterfaceInfo :=
  match option.resolution? with
  | some resolution => info.resolve resolution
  | none => info

theorem scales_options {options : List InterfaceOption} {linkType : UInt32} :
    Scales (options.foldl applyOption ⟨linkType, 1000, 1⟩) (ticksOf (taken options)) := by
  induction options using List.reverseRecOn with
  | nil =>
    intro ticks
    have hsplit : ticks * 10 ^ 9 = ticks * 1000 * 10 ^ 6 := by omega
    change ticks * 1000 / 1 = ticks * 10 ^ 9 / 10 ^ 6
    rw [hsplit, Nat.mul_div_cancel _ (by decide), Nat.div_one]
  | append_singleton options option ih =>
    rw [List.foldl_append, List.foldl_cons, List.foldl_nil, applyOption, taken,
      List.filterMap_append, List.filter_append, ← taken]
    cases hresolution : option.resolution? with
    | none =>
      rw [List.filterMap_cons_none hresolution, List.filterMap_nil, List.filter_nil,
        List.append_nil]
      exact ih
    | some resolution =>
      rw [List.filterMap_cons_some hresolution, List.filterMap_nil]
      by_cases h : Supported resolution
      · rw [List.filter_cons_of_pos (by simpa using h), List.filter_nil, ticksOf,
          List.getLast?_concat]
        exact resolve_supported h
      · rw [List.filter_cons_of_neg (by simpa using h), List.filter_nil, List.append_nil]
        dsimp only
        rw [resolve_unsupported h]
        exact ih

theorem toNat_padded {length : UInt16} :
    ((length.toUInt32 + 3) &&& ~~~3).toNat = (length.toNat + 3) / 4 * 4 := by
  have hlt := length.toNat_lt
  have hsum : (length.toUInt32 + 3).toNat = length.toNat + 3 := by
    rw [UInt32.toNat_add, UInt16.toNat_toUInt32]
    exact Nat.mod_eq_of_lt (by simp; omega)
  rw [UInt32.toNat_and, hsum, show (~~~3 : UInt32).toNat = (2 ^ 30 - 1) <<< 2 from rfl]
  apply Nat.eq_of_testBit_eq
  intro i
  have hshift : (length.toNat + 3) / 4 * 4 = ((length.toNat + 3) >>> 2) <<< 2 := by
    rw [Nat.shiftLeft_eq, Nat.shiftRight_eq_div_pow]
  rw [hshift, Nat.testBit_and, Nat.testBit_shiftLeft, Nat.testBit_shiftLeft,
    Nat.testBit_two_pow_sub_one, Nat.testBit_shiftRight]
  by_cases hi : 2 ≤ i
  · by_cases hhigh : i < 32
    · have hlow : i - 2 < 30 := by omega
      simp [hi, hlow, Nat.add_sub_cancel' hi]
    · have hzero : (length.toNat + 3).testBit i = false :=
        Nat.testBit_lt_two_pow
          (lt_of_lt_of_le (by omega) (Nat.pow_le_pow_right (by decide) (show 17 ≤ i by omega)))
      simp [hzero, Nat.add_sub_cancel' hi]
  · simp [hi]

section
variable {reader : PcapngReader}

theorem length_option {option : InterfaceOption} :
    (option.bytes swapped).length = 4 + (option.value.length + 3) / 4 * 4 := by
  have hpadded := option.padded
  simp [InterfaceOption.bytes]
  omega

theorem value_timestampOption {option : InterfaceOption} {data stray before later : Bytes}
    (hdata : data = before ++ (option.value ++ later)) (hoffset : before.length = optionOffset + 4)
    (hend : before.length + option.value.length ≤ optionEnd) :
    (timestampOption ⟨data, stray⟩ option.code (UInt16.ofNat option.value.length) optionEnd
      optionOffset info).value =
      applyOption info option := by
  have hlength : (UInt16.ofNat option.value.length).toNat = option.value.length := by
    rw [UInt16.toNat_ofNat', Nat.mod_eq_of_lt option.value_fits]
  rw [timestampOption, applyOption, InterfaceOption.resolution?]
  by_cases hcode : option.code = 9
  · rw [if_pos hcode]
    cases hvalue : option.value with
    | nil =>
      rw [if_neg fun h => absurd h.2.1 (by decide)]
      rfl
    | cons resolution rest =>
      rw [hvalue] at hdata hlength hend
      have hbyte : (Buffer.read ⟨data, stray⟩ (optionOffset + 4) 1).value = [resolution] :=
        @Buffer.value_read _ _ _ _ before [resolution] (rest ++ later) stray hdata hoffset rfl
      have hone : UInt16.ofNat (resolution :: rest).length ≥ 1 := by
        rw [ge_iff_le, UInt16.le_iff_toNat_le, hlength]
        exact Nat.le_add_left ..
      rw [List.length_cons] at hend
      rw [if_pos ⟨hcode, hone, by omega⟩, Reads.value_bind, hbyte]
      rfl
  · rw [if_neg hcode, if_neg fun h => hcode h.1]
    rfl

/-- The reader's loop goes through the options one by one. `before` is what lies in front of them in
the body, and `behind` the length at its end. -/
theorem interfaceOptions_eq (hswapped : reader.isSwappedEndian = swapped)
    {options : List InterfaceOption}
    {before tail behind stray : Bytes} (htail : OptionsEnd tail) :
    (interfaceOptions reader
        ⟨before ++ (options.flatMap (·.bytes swapped) ++ (tail ++ behind)), stray⟩
        (before.length + (options.flatMap (·.bytes swapped)).length + tail.length)
        before.length info).value =
      options.foldl applyOption info := by
  induction options generalizing before info with
  | nil =>
    rw [interfaceOptions.eq_1]
    rcases htail with rfl | ⟨later, rfl⟩
    · rw [if_neg (by simp)]
      rfl
    · have hcode : (Buffer.read ⟨before ++ (([] : List InterfaceOption).flatMap (·.bytes swapped) ++
          (([0, 0, 0, 0] ++ later) ++ behind)), stray⟩ before.length 2).value = [0, 0] :=
        @Buffer.value_read _ _ _ _ before [0, 0] ([0, 0] ++ (later ++ behind)) stray rfl rfl rfl
      have hzero : reader.orderU16 [0, 0] = 0 := by
        rw [orderU16]
        split <;> rfl
      rw [if_pos (by simp), Reads.value_bind, Reads.value_bind, hcode, if_pos hzero]
      rfl
  | cons option options ih =>
    have hlength := @length_option swapped option
    have hvalue : (UInt16.ofNat option.value.length).toNat = option.value.length := by
      rw [UInt16.toNat_ofNat', Nat.mod_eq_of_lt option.value_fits]
    have hpadded := option.padded
    rw [List.flatMap_cons, List.append_assoc]
    generalize hlater : options.flatMap (·.bytes swapped) ++ (tail ++ behind) = later at ih ⊢
    let code := word16 swapped option.code
    let length := word16 swapped (UInt16.ofNat option.value.length)
    have hdata : before ++ (option.bytes swapped ++ later) =
        before ++ (code ++ (length ++ (option.value ++ (option.padding ++ later)))) := by
      simp only [InterfaceOption.bytes, List.append_assoc, code, length]
    have hcode :
        (Buffer.read ⟨before ++ (option.bytes swapped ++ later), stray⟩ before.length 2).value =
          code :=
      Buffer.value_read hdata rfl length_word16
    have hsize :
        (Buffer.read ⟨before ++ (option.bytes swapped ++ later), stray⟩ (before.length + 2)
          2).value = length :=
      Buffer.value_read (hdata.trans (List.append_assoc before code _).symm)
        (by simp [code]) length_word16
    have happly : (timestampOption ⟨before ++ (option.bytes swapped ++ later), stray⟩ option.code
        (UInt16.ofNat option.value.length)
        (before.length + (option.bytes swapped ++ options.flatMap (·.bytes swapped)).length +
          tail.length)
        before.length info).value = applyOption info option := by
      refine @value_timestampOption _ _ _ _ _ _ (before ++ (code ++ length))
        (option.padding ++ later) ?_ ?_ ?_
      · rw [hdata, List.append_assoc, List.append_assoc]
      · simp [code, length]
      · rw [List.length_append, List.length_append, List.length_append, hlength, length_word16,
          length_word16]
        omega
    have hnext : before.length + (4 + ((option.value.length + 3) / 4 * 4)) =
        (before ++ option.bytes swapped).length := by
      rw [List.length_append, hlength]
    have hend :
        before.length + (option.bytes swapped ++ options.flatMap (·.bytes swapped)).length +
          tail.length =
        (before ++ option.bytes swapped).length + (options.flatMap (·.bytes swapped)).length +
          tail.length := by
      rw [List.length_append, List.length_append]
      omega
    rw [interfaceOptions.eq_1, if_pos (by rw [List.length_append]; omega), Reads.value_bind,
      Reads.value_bind, hcode, hsize, orderU16_word16_self hswapped, orderU16_word16_self hswapped,
      if_neg option.code_ne, Reads.value_bind,
      happly, toNat_padded, hvalue, hnext, hend, ← List.append_assoc before, ih]
    rfl

/-- The options start behind the link type, two reserved bytes and the snap length. -/
theorem interfaceDescription_eq (hswapped : reader.isSwappedEndian = swapped)
    {options : List InterfaceOption}
    {fixed tail behind stray : Bytes} (hfixed : fixed.length = 6) (htail : OptionsEnd tail) :
    (interfaceDescription reader
        ⟨word16 swapped linkType ++ (fixed ++ (options.flatMap (·.bytes swapped) ++ tail)) ++
          behind, stray⟩
        ((word16 swapped linkType ++
          (fixed ++ (options.flatMap (·.bytes swapped) ++ tail))).length + 4)).value =
      options.foldl applyOption ⟨linkType.toUInt32, 1000, 1⟩ := by
  have hbefore : (word16 swapped linkType ++ fixed).length = 8 := by
    rw [List.length_append, length_word16, hfixed]
  have hdata :
      word16 swapped linkType ++ (fixed ++ (options.flatMap (·.bytes swapped) ++ tail)) ++ behind =
      word16 swapped linkType ++ fixed ++
        (options.flatMap (·.bytes swapped) ++ (tail ++ behind)) := by
    simp only [List.append_assoc]
  have hlink :
      (Buffer.read ⟨word16 swapped linkType ++ fixed ++ (options.flatMap (·.bytes swapped) ++
      (tail ++ behind)), stray⟩ 0 2).value = word16 swapped linkType :=
    Buffer.value_read (by rw [List.append_assoc]; exact (List.nil_append _).symm) rfl length_word16
  have hend :
      (word16 swapped linkType ++ (fixed ++ (options.flatMap (·.bytes swapped) ++ tail))).length +
        4 - 4 =
      (word16 swapped linkType ++ fixed).length + (options.flatMap (·.bytes swapped)).length +
        tail.length := by
    simp only [List.length_append]
    omega
  rw [interfaceDescription, Reads.value_bind, hdata, hlink, orderU16_word16_self hswapped,
    if_pos (Nat.le_add_left ..), hend]
  have heq := @interfaceOptions_eq _ _ ⟨linkType.toUInt32, 1000, 1⟩ hswapped options
    (word16 swapped linkType ++ fixed) tail behind stray htail
  rw [hbefore] at heq ⊢
  exact heq

/-! ## Ticks -/

variable {stray : Nat → Bytes}

/-- Whatever blocks of the section are read, an interface keeps its place. -/
theorem interfaces_entry {entry : Entry}
    (R : Ready reader swapped links (entry.bytes swapped ++ more))
    (hfits : entry.Fits links) (hsize : (entry.bytes swapped).length ≤ MAX_BLOCK_LENGTH.toNat) :
    reader.interfaces <+: (after stray reader).interfaces := by
  have htype : entry.type ≠ 0x0a0d0d0a := by
    cases entry with
    | other type body => exact hfits.1
    | _ => simp [Entry.type]
  have hinterfaces := @readBody_interfaces stray
  rw [after, step_some R.file, Reads.value_bind, examine_interfaces, Entry.bytes,
    readBlock_block R.order htype hsize]
  exact hinterfaces

theorem after_entries {entries : List Entry}
    (R : Ready reader swapped links (entries.flatMap (·.bytes swapped) ++ more))
    (hfits : Fits swapped links entries) :
    ∃ links', Ready ((after stray)^[entries.length] reader) swapped links' more ∧
      reader.interfaces <+: ((after stray)^[entries.length] reader).interfaces := by
  induction entries generalizing reader links with
  | nil => exact ⟨links, R, List.prefix_refl _⟩
  | cons entry entries ih =>
    obtain ⟨hentry, hsize, hrest⟩ := hfits
    rw [List.flatMap_cons, List.append_assoc] at R
    have hfirst : reader.interfaces <+: (after stray reader).interfaces :=
      interfaces_entry R hentry hsize
    obtain ⟨_, reader', hstep, R'⟩ := @step_entry reader stray _ _ _ _ R hentry hsize
    have hafter : after stray reader = reader' := congrArg Prod.snd hstep
    rw [hafter] at hfirst
    obtain ⟨links', R'', hlater⟩ := ih R' hrest
    rw [List.length_cons, Function.iterate_succ_apply, hafter]
    exact ⟨links', R'', hfirst.trans hlater⟩

/-- **Timestamps.** In a section of either byte order stands an interface description with any
options, later, behind any other blocks of the section, a packet of that interface. The packet is
found with the time of its ticks in nanoseconds, rounded down and modulo `2 ^ 64`, by the last of
the resolutions that the reader takes. -/
theorem timestamp_resolved (stray : Nat → Bytes) {options : List InterfaceOption}
    {between : List Entry}
    {fixed tail : Bytes} (hfixed : fixed.length = 6) (htail : OptionsEnd tail)
    (R : Ready reader swapped links
      (block swapped 1
        (word16 swapped linkType ++ (fixed ++ (options.flatMap (·.bytes swapped) ++ tail))) ++
        (between.flatMap (·.bytes swapped) ++
          (block swapped 6 (packetBody swapped interfaceId ticks data wireLength rest) ++ more))))
    (hinterface : (block swapped 1
      (word16 swapped linkType ++ (fixed ++ (options.flatMap (·.bytes swapped) ++ tail)))).length ≤
        MAX_BLOCK_LENGTH.toNat)
    (hbetween : Fits swapped (links ++ [linkType]) between)
    (hpacket : (block swapped 6 (packetBody swapped interfaceId ticks data wireLength
      rest)).length ≤
      MAX_BLOCK_LENGTH.toNat)
    (hid : interfaceId.toNat = reader.interfaces.length) :
    ∃ packet reader', ((after stray)^[between.length + 1] reader).file =
        some (block swapped 6 (packetBody swapped interfaceId ticks data wireLength rest) ++ more) ∧
      (readBlock stray ((after stray)^[between.length + 1] reader)
        (block swapped 6 (packetBody swapped interfaceId ticks data wireLength rest) ++
          more)).value =
          (.found packet, reader') ∧
      packet.timestampNs = nanoseconds ticks (ticksOf (taken options)) := by
  have hswapped (file : Bytes) : PcapngReader.isSwappedEndian { reader with file := some file } =
    swapped := R.order
  obtain ⟨reader', hstep, R'⟩ := @step_interface reader stray _ _ _ _ _ R hinterface
  have hafter : after stray reader = reader' := congrArg Prod.snd hstep
  have hdescribed : reader'.interfaces =
      reader.interfaces ++ [options.foldl applyOption ⟨linkType.toUInt32, 1000, 1⟩] := by
    rw [← hafter, after, step_some R.file, Reads.value_bind, readBlock_interface R.order hinterface]
    exact congrArg (fun info => reader.interfaces ++ [info])
      (interfaceDescription_eq (hswapped _) hfixed htail)
  obtain ⟨links', R'', later, hlater⟩ := @after_entries reader' stray _ _ _ between R' hbetween
  rw [Function.iterate_succ_apply, hafter]
  generalize (after stray)^[between.length] reader' = last at R'' hlater ⊢
  have hlt := length_data_lt hpacket
  have hlast (file : Bytes) : PcapngReader.isSwappedEndian { last with file := some file } =
    swapped := R''.order
  have hinfo : interfaceOf { last with file := some more } interfaceId =
      options.foldl applyOption ⟨linkType.toUInt32, 1000, 1⟩ := by
    rw [interfaceOf, hid]
    dsimp only
    rw [← hlater, hdescribed, List.append_assoc, List.getElem?_append_right le_rfl, Nat.sub_self]
    rfl
  rw [readBlock_packet R''.order hpacket, value_enhancedPacket (hlast more) hlt, hinfo]
  exact ⟨_, _, R''.file, rfl, congrArg UInt64.ofNat (scales_options ticks.toNat)⟩

end

/-- An `if_tsresol` option. -/
def tsresol (resolution : UInt8) : InterfaceOption where
  code := 9
  value := [resolution]
  padding := [0, 0, 0]
  code_ne := by decide
  value_fits := by simp
  padded := by simp

/-- An interface with the option, and an empty packet of it. -/
def resolved (swapped : Bool) (resolution : UInt8) (ticks : UInt64) : Bytes :=
  block swapped 1
    (word16 swapped 1 ++
      (.replicate 6 0 ++ ([tsresol resolution].flatMap (·.bytes swapped) ++ []))) ++
  (([] : List Entry).flatMap (·.bytes swapped) ++
    (block swapped 6 (packetBody swapped 0 ticks [] 0 []) ++ []))

/-- Ticks of `2 ^ -10` seconds in a big-endian section. -/
theorem timestamp_resolved_binary :
    ∃ packet reader', (readBlock (fun _ => [])
        ((after fun _ => [])^[1] { file := some (resolved true 0x8a 3), isSwappedEndian := true })
        (block true 6 (packetBody true 0 3 [] 0 []) ++ [])).value = (.found packet, reader') ∧
      packet.timestampNs = 2929687 := by
  have R : Ready { file := some (resolved true 0x8a 3), isSwappedEndian := true } true []
      (block true 1
        (word16 true 1 ++ (.replicate 6 0 ++ ([tsresol 0x8a].flatMap (·.bytes true) ++ []))) ++
        (([] : List Entry).flatMap (·.bytes true) ++
          (block true 6 (packetBody true 0 3 [] 0 []) ++ []))) :=
    ⟨rfl, rfl, rfl⟩
  obtain ⟨packet, reader', -, hfound, htime⟩ :=
    timestamp_resolved (fun _ => []) rfl (.inl rfl) R (by decide) trivial (by decide) rfl
  exact ⟨packet, reader', hfound, htime.trans (by decide)⟩

/-- A resolution of picoseconds is passed over, and the ticks of one second count as those of
a million. -/
theorem picoseconds_passed :
    (match (readBlock (fun _ => [])
      (after (fun _ => []) { file := some (resolved false 12 (10 ^ 12)) })
        (block false 6 (packetBody false 0 (10 ^ 12) [] 0 []) ++ [])).value.1 with
      | .found packet => some packet.timestampNs
      | _ => none) = some (10 ^ 15) ∧
    nanoseconds (10 ^ 12) (ticksOf ([tsresol 12].filterMap (·.resolution?))) = 10 ^ 9 := by
  decide +kernel

end MegaFeed.Pcapng
