import MegaFeed.Theory.Framing
import MegaFeed.Model.Iextp
import MegaFeed.Verify.Helpers

/-! # The message walk of IEX-TP packets

A packet's body is a stream of messages, each behind its 16-bit length (`messageFormat`).
`walk_eq_split` says that `iextpForEachMessage` visits the first `messageCount` complete messages of
the body as `payload_length` cuts it, and `length_messages_iff` that it visits all of them exactly
when the body is `Complete`. -/

namespace MegaFeed
open LittleEndian Framing

/-- Messages behind their lengths. -/
def messageFormat : Format UInt8 where
  header := 2
  header_pos := by decide
  body header := (getU16 header).toNat

/-- A message as a body holds it. -/
def framed (message : Bytes) : Bytes := putU16 (UInt16.ofNat message.length) ++ message

theorem drop_framed : (framed message).drop 2 = message := List.drop_left' length_putU16

theorem isFrame_framed (h : message.length < 2 ^ 16) : messageFormat.IsFrame (framed message) := by
  refine ⟨by simp [framed, messageFormat], ?_⟩
  simp only [Format.frameLength, messageFormat, framed, getU16_take le_rfl, getU16_putU16,
    UInt16.toNat_ofNat', Nat.mod_eq_of_lt h, List.length_append, length_putU16]

theorem framed_drop (h : messageFormat.IsFrame frame) :
    framed (frame.drop 2) = frame ∧ (frame.drop 2).length < 2 ^ 16 := by
  obtain ⟨hheader, hlength⟩ := h
  simp only [messageFormat, Format.frameLength, getU16_take le_rfl] at hheader hlength
  have hbody : frame.length - 2 = (getU16 frame).toNat := by omega
  refine ⟨?_, ?_⟩
  · rw [framed, List.length_drop, hbody, UInt16.ofNat_toNat, putU16_getU16 hheader,
      List.take_append_drop]
  · rw [List.length_drop, hbody]
    exact (getU16 frame).toNat_lt

/-! ## The walk -/

/-- The walk visits the first `count` frames between `offset` and `stop`. -/
theorem walk_eq_split (h : stop ≤ packet.length) :
    (iextpWalk packet stop count offset).map (·.of packet) =
      ((messageFormat.split ((packet.take stop).drop offset)).1.take count).map (·.drop 2) := by
  induction count generalizing offset with
  | zero => rfl
  | succ count ih =>
    have hlen : ((packet.take stop).drop offset).length = stop - offset := by
      rw [List.length_drop, List.length_take, Nat.min_eq_left h]
    by_cases hheader : offset + 2 ≤ stop
    · have hbody : (getU16 (((packet.take stop).drop offset).take 2)) =
          getU16 (packet.drop offset) := by
        rw [getU16_take le_rfl, List.drop_take, getU16_take (by omega)]
      have hframe : messageFormat.frameLength ((packet.take stop).drop offset) =
          2 + (getU16 (packet.drop offset)).toNat := by
        simp only [Format.frameLength, messageFormat, hbody]
      rw [iextpWalk, if_pos hheader]
      dsimp only
      split
      · next hover =>
        rw [Format.split_of_not_ready]
        · rfl
        · rintro ⟨-, hready⟩
          omega
      · next hfits =>
        have hready : messageFormat.Ready ((packet.take stop).drop offset) :=
          ⟨by rw [hlen]; simp only [messageFormat]; omega, by omega⟩
        rw [Format.split_of_ready hready, List.take_succ_cons, List.map_cons, List.map_cons, ih,
          hframe, List.drop_drop, Nat.add_assoc]
        congr 1
        simp only [Slice.of, List.drop_take, List.drop_drop, List.take_take]
        congr 1
        omega
    · rw [iextpWalk, if_neg hheader, Format.split_of_not_ready]
      · rfl
      · rintro ⟨hready, -⟩
        simp only [messageFormat] at hready
        omega

/-- The body as `payload_length` and the packet's end cut it. -/
def IextpHeader.body (header : IextpHeader) (packet : Bytes) : Bytes :=
  (packet.drop 40).take header.payloadLength.toNat

/-- The messages a packet brings to the callback. -/
def messagesOf (packet : Bytes) (header : IextpHeader) : List Bytes :=
  (iextpForEachMessage packet header).map (·.of packet)

theorem messagesOf_eq {header : IextpHeader} : messagesOf packet header =
    ((messageFormat.split (header.body packet)).1.take header.messageCount.toNat).map
      (·.drop 2) := by
  have hbody : (packet.take (min packet.length (header.payloadLength.toNat + 40))).drop 40 =
      header.body packet := by
    rw [IextpHeader.body, List.drop_take, List.take_eq_take_iff, List.length_drop]
    omega
  rw [messagesOf, iextpForEachMessage, walk_eq_split (Nat.min_le_left ..), hbody]

/-- The body holds all the messages its header announces. -/
def IextpHeader.Complete (header : IextpHeader) (packet : Bytes) : Prop :=
  ∃ messages : List Bytes, messages.length = header.messageCount.toNat ∧
    (∀ message ∈ messages, message.length < 2 ^ 16) ∧
    (messages.map framed).flatten <+: header.body packet

theorem length_messagesOf_le {header : IextpHeader} :
    (messagesOf packet header).length ≤ header.messageCount.toNat := by
  rw [messagesOf_eq, List.length_map, List.length_take]
  exact Nat.min_le_left ..

/-- The walk brings every announced message exactly when the body is complete. -/
theorem length_messagesOf_iff {header : IextpHeader} :
    (messagesOf packet header).length = header.messageCount.toNat ↔ header.Complete packet := by
  obtain ⟨hall, hframes, -⟩ := Format.split_spec (header.body packet) (F := messageFormat)
  rw [messagesOf_eq, List.length_map, List.length_take, min_eq_left_iff]
  constructor
  · intro hcount
    generalize (messageFormat.split (header.body packet)).1 = frames at *
    have htake : ∀ frame ∈ frames.take header.messageCount.toNat, messageFormat.IsFrame frame :=
      fun frame hmem => hframes frame (List.mem_of_mem_take hmem)
    refine ⟨(frames.take header.messageCount.toNat).map (·.drop 2), by simpa using hcount, ?_, ?_⟩
    · intro message hmem
      obtain ⟨frame, hframe, rfl⟩ := List.mem_map.mp hmem
      exact (framed_drop (htake frame hframe)).2
    · have hback : ((frames.take header.messageCount.toNat).map (·.drop 2)).map framed =
          frames.take header.messageCount.toNat := by
        rw [List.map_map]
        exact (List.map_congr_left fun frame hmem => (framed_drop (htake frame hmem)).1).trans
          (List.map_id _)
      rw [hback, ← hall]
      conv_rhs => rw [← List.take_append_drop header.messageCount.toNat frames, List.flatten_append,
        List.append_assoc]
      exact List.prefix_append ..
  · rintro ⟨messages, hlength, hshort, hbody⟩
    have hframed : ∀ frame ∈ messages.map framed, messageFormat.IsFrame frame :=
      List.forall_mem_map.mpr fun message hmem => isFrame_framed (hshort message hmem)
    have hprefix := (Format.prefix_split hframed hbody).length_le
    rwa [List.length_map, hlength] at hprefix

/-- A body that starts with the announced messages brings just them. -/
theorem messagesOf_of_prefix {header : IextpHeader} {messages : List Bytes}
    (hlength : messages.length = header.messageCount.toNat)
    (hbody : (messages.map framed).flatten <+: header.body packet) :
    messagesOf packet header = messages := by
  have hshort : ∀ message ∈ messages, message.length < 2 ^ 16 := by
    intro message hmem
    have hpart : (framed message).length ≤ (messages.map framed).flatten.length :=
      (List.sublist_flatten_of_mem (List.mem_map_of_mem hmem)).length_le
    have hbound : (header.body packet).length ≤ header.payloadLength.toNat := List.length_take_le ..
    have htotal := hbody.length_le
    have hword := header.payloadLength.toNat_lt
    simp only [framed, List.length_append, length_putU16] at hpart
    omega
  have hframed : ∀ frame ∈ messages.map framed, messageFormat.IsFrame frame :=
    List.forall_mem_map.mpr fun message hmem => isFrame_framed (hshort message hmem)
  have htake := (List.prefix_iff_eq_take.mp (Format.prefix_split hframed hbody)).symm
  rw [List.length_map, hlength] at htake
  have hback : ((·.drop 2) ∘ framed : Bytes → Bytes) = id := funext fun _ => drop_framed
  rw [messagesOf_eq, htake, List.map_map, hback, List.map_id]

end MegaFeed
