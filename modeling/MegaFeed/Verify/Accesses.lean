import MegaFeed.Model.Accesses
import MegaFeed.Verify.Decoder
import MegaFeed.Verify.Gaps

/-! # The venue's bytes are read within bounds

Every function of `Model.Accesses` that is given a `Span` within its buffer stays inside it and
comes to what the function of the same name makes of its elements (`iextpDecode_eq`, `decode_eq`,
`iextpWalk_eq`). For one payload this is `within_bounds`, which also says what slices of it the
decoder is given. -/

namespace MegaFeed
namespace Accesses

variable {bytes : Span UInt8} {offset : Nat}

/-! ## Words -/

theorem readByte_eq (h : bytes.Within) (hle : offset + 1 ≤ bytes.length) :
    readByte bytes offset = pure (Bytes.byte bytes.elements offset) := by
  rw [readByte, h.read_eq hle, pure_bind, byte_take Nat.one_pos, byte_drop, Nat.add_zero]

theorem readU16_eq (h : bytes.Within) (hle : offset + 2 ≤ bytes.length) :
    readU16 bytes offset = pure (getU16 (bytes.elements.drop offset)) := by
  rw [readU16, h.read_eq hle, pure_bind, getU16_take le_rfl]

theorem readU32_eq (h : bytes.Within) (hle : offset + 4 ≤ bytes.length) :
    readU32 bytes offset = pure (getU32 (bytes.elements.drop offset)) := by
  rw [readU32, h.read_eq hle, pure_bind, getU32_take le_rfl]

theorem readU64_eq (h : bytes.Within) (hle : offset + 8 ≤ bytes.length) :
    readU64 bytes offset = pure (getU64 (bytes.elements.drop offset)) := by
  rw [readU64, h.read_eq hle, pure_bind, getU64_take le_rfl]

theorem iextpDecode_eq (h : bytes.Within) :
    iextpDecode bytes = pure (MegaFeed.iextpDecode bytes.elements) := by
  rw [iextpDecode, MegaFeed.iextpDecode, h.length_elements]
  split
  · rfl
  · next hlength =>
    simp (disch := first | assumption | omega) only [readByte_eq, readU16_eq, readU32_eq,
      readU64_eq, pure_bind]

/-! ## Messages -/

theorem symbolLength_eq {n : Nat} (h : bytes.Within) (hle : offset + n ≤ bytes.length) :
    symbolLength bytes offset n = pure (MegaFeed.symbolLength (bytes.elements.drop offset) n) := by
  induction n with
  | zero => rfl
  | succ n ih =>
    rw [symbolLength, readByte_eq h (by omega), pure_bind, MegaFeed.symbolLength, byte_drop]
    split
    · exact ih (by omega)
    · rfl

theorem copySymbol_eq (h : bytes.Within) (hle : offset + 8 ≤ bytes.length) :
    copySymbol bytes offset = pure (MegaFeed.copySymbol (bytes.elements.drop offset)) := by
  have hlength := @symbolLength_le (bytes.elements.drop offset) 8
  rw [copySymbol, symbolLength_eq h hle, pure_bind, h.read_eq (by omega), pure_bind,
    MegaFeed.copySymbol]
  refine congrArg pure (Vector.ext fun i hi => ?_)
  rw [Vector.getElem_ofFn, Vector.getElem_ofFn]
  split
  · next hcopied => rw [byte_take hcopied]
  · rfl

section
variable {out : List OrderMessage} {update : OrderMessage} {decoder : DeepPlusDecoder}
  {timestamp : UInt64}

theorem write_eq (h : out.length < 2) : write out update = pure (out ++ [update]) :=
  Reads.ext rfl (decide_eq_true h)

theorem addLevel_eq {levels : Levels} {order : DeepPlusDecoder.Order} {delta : Int}
    (h : out.length < 2) :
    addLevel levels out order delta timestamp =
      pure ((DeepPlusDecoder.addLevel levels order delta timestamp).1,
        out ++ [(DeepPlusDecoder.addLevel levels order delta timestamp).2]) := by
  rw [addLevel]
  dsimp only
  rw [write_eq h, pure_bind]

theorem isOrderAdd_eq (h : bytes.Within) (hle : 26 ≤ bytes.length) :
    isOrderAdd bytes = pure (decide (Bytes.byte bytes.elements 0 = DeepPlusDecoder.ORDER_ADD ∧
      bytes.length ≥ 38 ∧ (Bytes.byte bytes.elements 1 = DeepPlusDecoder.SIDE_BUY ∨
        Bytes.byte bytes.elements 1 = DeepPlusDecoder.SIDE_SELL))) := by
  rw [isOrderAdd, readByte_eq h (by omega), pure_bind]
  split
  · next hadd =>
    rw [readByte_eq h (by omega), pure_bind]
    exact congrArg pure
      (decide_eq_decide.mpr ⟨fun hside => ⟨hadd.1, hadd.2, hside⟩, fun hall => hall.2.2⟩)
  · next hother => rw [decide_eq_false fun hall => hother ⟨hall.1, hall.2.1⟩]

theorem withOrder_eq
    {found : UInt64 → DeepPlusDecoder.Order → Reads (DeepPlusDecoder × List OrderMessage)}
    (h : bytes.Within) (hle : 26 ≤ bytes.length) :
    withOrder decoder bytes found = decoder.orders[getU64 (bytes.elements.drop 18)]?.elim
      (pure ({ decoder with unknownReferences := decoder.unknownReferences + 1 }, []))
      (found (getU64 (bytes.elements.drop 18))) := by
  rw [withOrder, readU64_eq h (by omega), pure_bind]
  cases decoder.orders[getU64 (bytes.elements.drop 18)]? <;> rfl

/-- A message is decoded from the bytes the span has of it. -/
theorem decode_eq (h : bytes.Within) :
    decode decoder bytes = pure (decoder.decode bytes.elements) := by
  rw [decode, DeepPlusDecoder.decode, h.length_elements]
  dsimp only
  split
  · rfl
  next hlength =>
  rw [readU64_eq h (by omega), pure_bind, isOrderAdd_eq h (by omega), pure_bind]
  refine (ite_congr decide_eq_true_eq (fun hadd => ?_) fun _ => ?_).trans (apply_ite pure ..).symm
  · rw [orderAdd, readByte_eq h (by omega), pure_bind, copySymbol_eq h (by omega), pure_bind,
      readU32_eq h (by omega), pure_bind, readU64_eq h (by omega), pure_bind,
      readU64_eq h (by omega), pure_bind, addLevel_eq (by simp), pure_bind]
    rfl
  rw [readByte_eq h (by omega), pure_bind]
  refine (ite_congr rfl (fun _ => ?_) fun _ => ?_).trans (apply_ite pure ..).symm
  · rw [orderDelete, withOrder_eq h (by omega)]
    generalize decoder.orders[getU64 (bytes.elements.drop 18)]? = found
    cases found with
    | none => rfl
    | some order =>
      rw [Option.elim_some, addLevel_eq (by simp), pure_bind]
      rfl
  refine (ite_congr rfl (fun hmodify => ?_) fun _ => ?_).trans (apply_ite pure ..).symm
  · rw [orderModify, withOrder_eq h (by omega)]
    generalize decoder.orders[getU64 (bytes.elements.drop 18)]? = found
    cases found with
    | none => rfl
    | some order =>
      rw [Option.elim_some, readU32_eq h (by omega), pure_bind, readU64_eq h (by omega), pure_bind]
      refine (ite_congr rfl (fun _ => ?_) fun _ => ?_).trans (apply_ite pure ..).symm
      · rw [addLevel_eq (by simp), pure_bind]
        rfl
      · rw [addLevel_eq (by simp), pure_bind]
        dsimp only
        rw [addLevel_eq (by simp), pure_bind]
        rfl
  refine (ite_congr rfl (fun hexecuted => ?_) fun _ => ?_).trans (apply_ite pure ..).symm
  · rw [orderExecuted, withOrder_eq h (by omega)]
    generalize decoder.orders[getU64 (bytes.elements.drop 18)]? = found
    cases found with
    | none => rfl
    | some order =>
      rw [Option.elim_some, readU32_eq h (by omega), pure_bind, addLevel_eq (by simp), pure_bind]
      dsimp only
      rw [readU64_eq h (by omega), pure_bind, write_eq (by simp), pure_bind]
      rfl
  refine (ite_congr rfl (fun htrade => ?_) fun _ => rfl).trans (apply_ite pure ..).symm
  rw [tradeReport, copySymbol_eq h (by omega), pure_bind, readU32_eq h (by omega), pure_bind,
    readU64_eq h (by omega), pure_bind]
  dsimp only
  rw [write_eq (by simp), pure_bind]
  rfl

theorem length_out_le {decoder' : DeepPlusDecoder} {event : VenueEvent} {out : List OrderMessage}
    (D : DeepPlusDecoder.Decoded decoder event decoder' out) : out.length ≤ 2 := by
  cases D <;> simp

end

/-! ## The walk -/

/-- Parts of a packet that follow each other between `start` and `stop`. -/
structure InOrder (start stop : Nat) (slices : List Slice) : Prop where
  ordered : slices.Pairwise fun a b => a.offset + a.length ≤ b.offset
  between : ∀ slice ∈ slices, start ≤ slice.offset ∧ slice.offset + slice.length ≤ stop

theorem InOrder.sublist {start stop : Nat} {slices slices' : List Slice}
    (H : InOrder start stop slices)
    (h : slices'.Sublist slices) : InOrder start stop slices' where
  ordered := H.ordered.sublist h
  between slice hmem := H.between slice (h.subset hmem)

section
variable {packet : Bytes} {stop count : Nat}

theorem length_iextpWalk : (MegaFeed.iextpWalk packet stop count offset).length ≤ count := by
  induction count generalizing offset with
  | zero => exact Nat.le_refl 0
  | succ count ih =>
    rw [MegaFeed.iextpWalk]
    dsimp only
    split
    · split
      · exact Nat.zero_le _
      · exact Nat.succ_le_succ ih
    · exact Nat.zero_le _

/-- Each message lies behind its length, and that behind the messages before. -/
theorem iextpWalk_inOrder :
    InOrder (offset + 2) stop (MegaFeed.iextpWalk packet stop count offset) := by
  induction count generalizing offset with
  | zero => exact ⟨.nil, fun slice hmem => absurd hmem List.not_mem_nil⟩
  | succ count ih =>
    rw [MegaFeed.iextpWalk]
    dsimp only
    split
    · split
      · exact ⟨.nil, fun slice hmem => absurd hmem List.not_mem_nil⟩
      · next hfits =>
        have H := @ih (offset + 2 + (getU16 (packet.drop offset)).toNat)
        refine ⟨List.pairwise_cons.mpr ⟨fun slice hmem => ?_, H.ordered⟩,
          List.forall_mem_cons.mpr ⟨?_, ?_⟩⟩
        · exact (Nat.le_add_right ..).trans (H.between slice hmem).1
        · exact ⟨le_rfl, Nat.not_lt.mp hfits⟩
        · intro slice hmem
          exact (H.between slice hmem).imp_left fun hle => by omega
    · exact ⟨.nil, fun slice hmem => absurd hmem List.not_mem_nil⟩

/-- The walk reads the lengths and calls back for each of the slices, if the callback reads
only these. -/
theorem iextpWalk_eq {σ : Type} {callback : σ → Span UInt8 → Reads σ}
    {next : σ → Slice → σ} {state : σ}
    (h : bytes.Within) (hstop : stop ≤ bytes.length)
    (hcallback : ∀ state slice, slice.offset + slice.length ≤ bytes.length →
      callback state (bytes.part slice.offset slice.length) = pure (next state slice)) :
    iextpWalk bytes callback stop count offset state =
      pure ((MegaFeed.iextpWalk bytes.elements stop count offset).foldl next state) := by
  induction count generalizing offset state with
  | zero => rfl
  | succ count ih =>
    rw [iextpWalk, MegaFeed.iextpWalk]
    dsimp only
    split
    · next hheader =>
      rw [readU16_eq h (by omega), pure_bind]
      split
      · rfl
      · next hfits =>
        have hslice := hcallback state ⟨offset + 2, (getU16 (bytes.elements.drop offset)).toNat⟩
          ((Nat.not_lt.mp hfits).trans hstop)
        dsimp only at hslice
        rw [hslice, pure_bind, ih, List.foldl_cons]
    · rfl

end

/-! ## One payload -/

section
variable {bucketCount ringSize : Nat} [NeZero bucketCount] [NeZero ringSize] {payload stray : Bytes}
  {state : Handling bucketCount ringSize} {slices : List Slice}

theorem output_append_empty {output : FeedPublisher.Output} : output ++ {} = output :=
  congrArg₂ FeedPublisher.Output.mk (List.append_nil _) (List.append_nil _)

/-- What the callback makes of a part of the payload. -/
def Handling.next (payload : Bytes) (state : Handling bucketCount ringSize) (slice : Slice) :
    Handling bucketCount ringSize :=
  if state.skip ≠ 0 then
    { state with skip := state.skip - 1 }
  else
    let (handler, published) := state.handler.handOver (slice.of payload)
    { state with
      handler
      handed := state.handed ++ [⟨slice, (state.handler.decoder.decode (slice.of payload)).2⟩]
      published := state.published ++ published }

theorem onMessage_eq {slice : Slice} (h : slice.offset + slice.length ≤ payload.length) :
    onMessage state ((Span.whole payload stray).part slice.offset slice.length) =
      pure (state.next payload slice) := by
  rw [onMessage, Handling.next]
  split
  · rfl
  · rw [decode_eq (Span.within_whole.part h), pure_bind, Span.elements_part h, Span.elements_whole]
    dsimp only [Span.part, Span.whole]
    rw [Nat.zero_add]
    rfl

/-- The callback on one slice after the other is `onMessages` on their bytes, and hands over the
slices in order. -/
theorem foldl_next (slices : List Slice) (state : Handling bucketCount ringSize)
    (sequence : UInt64) :
    let after :=
      FeedHandler.onMessages state.handler state.skip sequence (slices.map (·.of payload))
    ∃ handed, slices.foldl (Handling.next payload) state =
        ⟨after.1, (slices.foldl (Handling.next payload) state).skip, state.handed ++ handed,
          state.published ++ after.2.published⟩ ∧
      handed.map (·.slice.of payload) = after.2.handed.map (·.bytes) ∧
      (handed.map (·.slice)).Sublist slices ∧ ∀ message ∈ handed, message.out.length ≤ 2 := by
  induction slices generalizing state sequence with
  | nil =>
    refine ⟨[], ?_, rfl, .slnil, fun message hmem => absurd hmem List.not_mem_nil⟩
    rw [List.append_nil]
    exact congrArg (Handling.mk _ _ _) output_append_empty.symm
  | cons slice slices ih =>
    rw [List.map_cons, List.foldl_cons, FeedHandler.onMessages, Handling.next]
    split
    · obtain ⟨handed, heq, hbytes, hsub, hout⟩ :=
        ih { state with skip := state.skip - 1 } (sequence + 1)
      exact ⟨handed, heq, hbytes, hsub.cons slice, hout⟩
    · next hskip =>
      dsimp only
      obtain ⟨handed, heq, hbytes, hsub, hout⟩ := ih { state with
        handler := (state.handler.handOver (slice.of payload)).1
        handed := state.handed ++ [⟨slice, (state.handler.decoder.decode (slice.of payload)).2⟩]
        published := state.published ++ (state.handler.handOver (slice.of payload)).2 }
          (sequence + 1)
      refine ⟨⟨slice, (state.handler.decoder.decode (slice.of payload)).2⟩ :: handed,
        ?_, ?_, ?_, ?_⟩
      · rw [heq]
        congr 1
        · exact List.append_assoc ..
        · exact FeedHandler.output_append_assoc
      · rw [List.map_cons, hbytes]
        rfl
      · exact hsub.cons_cons slice
      · exact List.forall_mem_cons.mpr ⟨length_out_le (DeepPlusDecoder.decode_decoded ..), hout⟩

/-- What `onPayload` comes to: the result of `FeedHandler.onPayload`, from messages that lie in the
payload one behind the other, no more than its header announces, each of them decoded to no more
than `out` has room for. -/
structure WithinBounds (handler : FeedHandler bucketCount ringSize) (payload : Bytes)
    (state : Handling bucketCount ringSize) : Prop where
  after : state.handler = (handler.onPayload payload).1
  published : state.published = (handler.onPayload payload).2.published
  bytes : state.handed.map (·.slice.of payload) = (handler.onPayload payload).2.handed.map (·.bytes)
  out : ∀ message ∈ state.handed, message.out.length ≤ 2
  undecoded : MegaFeed.iextpDecode payload = none → state.handed = []
  count : ∀ header, MegaFeed.iextpDecode payload = some header →
    state.handed.length ≤ header.messageCount.toNat
  slices : ∀ header, MegaFeed.iextpDecode payload = some header →
    InOrder 42 (min payload.length (header.payloadLength.toNat + 40)) (state.handed.map (·.slice))

/-- A payload that brings no message. -/
theorem withinBounds_of_none {handler handler' : FeedHandler bucketCount ringSize}
    (h : handler.onPayload payload = (handler', {})) :
    WithinBounds handler payload { handler := handler' } where
  after := by rw [h]
  published := by rw [h]
  bytes := by rw [h]; rfl
  out message hmem := absurd hmem List.not_mem_nil
  undecoded _ := rfl
  count _ _ := Nat.zero_le _
  slices _ _ := ⟨.nil, fun slice hmem => absurd hmem List.not_mem_nil⟩

/-- A payload whose messages are walked, the callback starting from `start`; `finish` is what
comes after. -/
theorem withinBounds_of_walk {handler : FeedHandler bucketCount ringSize} {header : IextpHeader}
    (hheader : MegaFeed.iextpDecode payload = some header) (start : Handling bucketCount ringSize)
    (hhanded : start.handed = []) (hpublished : start.published = {})
    (finish : FeedHandler bucketCount ringSize → FeedHandler bucketCount ringSize)
    (h : handler.onPayload payload =
      let after := FeedHandler.onMessages start.handler start.skip header.firstSequenceNumber
        ((MegaFeed.iextpForEachMessage payload header).map (·.of payload))
      (finish after.1, after.2)) :
    let state := (MegaFeed.iextpForEachMessage payload header).foldl (Handling.next payload) start
    WithinBounds handler payload { state with handler := finish state.handler } := by
  obtain ⟨handed, heq, hbytes, hsub, hout⟩ :=
    foldl_next (MegaFeed.iextpForEachMessage payload header) start header.firstSequenceNumber
  rw [hhanded, hpublished, List.nil_append] at heq
  have hslices := @iextpWalk_inOrder 40 payload
    (min payload.length (header.payloadLength.toNat + 40)) header.messageCount.toNat
  dsimp only
  rw [heq]
  constructor
  · rw [h]
  · rw [h]
    exact congrArg₂ FeedPublisher.Output.mk (List.nil_append _) (List.nil_append _)
  · rw [h]
    exact hbytes
  · exact hout
  · exact fun hnone => absurd (hnone.symm.trans hheader).symm (Option.some_ne_none _)
  · intro header' hheader'
    cases hheader.symm.trans hheader'
    rw [← List.length_map]
    exact hsub.length_le.trans length_iextpWalk
  · intro header' hheader'
    cases hheader.symm.trans hheader'
    exact hslices.sublist hsub

theorem onPayload_eq (handler : FeedHandler bucketCount ringSize) (payload stray : Bytes) :
    ∃ state, onPayload handler (.whole payload stray) = pure state ∧
    WithinBounds handler payload state := by
  have hwithin := @Span.within_whole _ payload stray
  rw [onPayload, iextpDecode_eq hwithin, pure_bind, Span.elements_whole]
  cases hheader : MegaFeed.iextpDecode payload with
  | none => exact ⟨_, rfl, withinBounds_of_none (by rw [FeedHandler.onPayload, hheader])⟩
  | some header =>
    dsimp only
    split
    · next hprotocol =>
      refine ⟨_, rfl, withinBounds_of_none ?_⟩
      rw [FeedHandler.onPayload, hheader]
      exact if_pos hprotocol
    split
    · next hprotocol hcount =>
      refine ⟨_, rfl, withinBounds_of_none ?_⟩
      rw [FeedHandler.onPayload, hheader]
      exact (if_neg hprotocol).trans (if_pos hcount)
    · next hprotocol hcount =>
      rw [iextpForEachMessage, iextpWalk_eq hwithin (Nat.min_le_left ..) fun _ _ => onMessage_eq,
        pure_bind, Span.elements_whole]
      refine ⟨_, rfl, withinBounds_of_walk hheader _ rfl rfl (fun handler => { handler with
        expected := if header.firstSequenceNumber + header.messageCount.toUInt64 >
          handler.expected then
          header.firstSequenceNumber + header.messageCount.toUInt64 else handler.expected }) ?_⟩
      rw [FeedHandler.onPayload, hheader]
      exact (if_neg hprotocol).trans (if_neg hcount)

/-- **The venue's bytes are read within bounds.** Whatever a payload holds, and whatever lies behind
it in memory, `on_payload` makes no access outside its bytes, outside the bytes of the message it
decodes, or outside `out`. -/
theorem within_bounds (handler : FeedHandler bucketCount ringSize) (payload stray : Bytes) :
    (onPayload handler (.whole payload stray)).inside = true ∧
      WithinBounds handler payload (onPayload handler (.whole payload stray)).value := by
  obtain ⟨state, heq, hbounds⟩ := onPayload_eq handler payload stray
  rw [heq]
  exact ⟨rfl, hbounds⟩

end

/-- A packet whose lengths go far beyond its end: one short message, and the length of one that is
not there. -/
def overlong : Bytes :=
  FeedHandler.packetBytes 0xffff 0xffff 1 (framed [0x52, 0x00] ++ [0xff, 0xff, 0x61])

theorem within_bounds_overlong :
    let handler : FeedHandler 1 1 := FeedHandler.fresh (FeedPublisher.init 0 (Stream'.const 0))
    (onPayload handler (.whole overlong [0x38, 0x38])).inside = true ∧
      WithinBounds handler overlong (onPayload handler (.whole overlong [0x38, 0x38])).value ∧
      (onPayload handler (.whole overlong [0x38, 0x38])).value.handed.map (·.slice) =
        [⟨42, 2⟩] := by
  obtain ⟨hinside, hbounds⟩ := within_bounds
    (FeedHandler.fresh (FeedPublisher.init 0 (Stream'.const 0)) :
    FeedHandler 1 1) overlong [0x38, 0x38]
  exact ⟨hinside, hbounds, by decide⟩

end Accesses
end MegaFeed
