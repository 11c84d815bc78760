import MegaFeed.Spec.History
import MegaFeed.Spec.Repair
import MegaFeed.Verify.Iextp
import MegaFeed.Verify.Publisher

/-! # The repair stream

What the repair server writes is a stream of answers. `parse` reads a stream of any bytes, and the
frame loop of `drain_tcp` acts on what it reads (`frameLoop_eq`). On a stream of answers, wherever
it has been cut, these are the complete answers one by one, and the framing is never lost
(`frameLoop_answers`). -/

namespace MegaFeed
namespace Subscriber
open Framing FeedPublisher

/-- An answer as it is written to the connection. -/
def Answer.bytes (reply : Answer) : Bytes :=
  answer (UInt16.ofNat reply.bucket) (reply.msg.map encodePayload) (UInt64.ofNat reply.sequence)

/-- An answer that fits its frame. -/
structure Answer.Valid (reply : Answer) : Prop where
  bucket : reply.bucket < 2 ^ 16
  sequence : reply.sequence < 2 ^ 64
  nul : ∀ msg ∈ reply.msg, msg.Terminated

theorem encodePayload_eq : encodePayload msg = msg.wire :=
  OrderMessage.encode_eq (List.length_replicate ..)

namespace Answer

variable {reply : Answer} {rest : Bytes}

/-- The length a frame announces. -/
def length (reply : Answer) : Nat := if reply.msg.isSome then ORDER_MESSAGE_SIZE else 0

theorem bytes_append : reply.bytes ++ rest = putU16 (UInt16.ofNat reply.bucket) ++
    (putU64 (UInt64.ofNat reply.sequence) ++ (putU16 (UInt16.ofNat reply.length) ++
      ((reply.msg.map OrderMessage.wire).getD [] ++ rest))) := by
  have hpayload : reply.msg.map encodePayload = reply.msg.map OrderMessage.wire :=
    Option.map_congr fun _ _ => encodePayload_eq
  have hlength : (if (reply.msg.map OrderMessage.wire).isSome then UInt16.ofNat ORDER_MESSAGE_SIZE
      else 0) = UInt16.ofNat reply.length := by
    rw [length, Option.isSome_map]
    split <;> rfl
  simp only [bytes, answer, hpayload, hlength, List.append_assoc]

theorem length_payload : ((reply.msg.map OrderMessage.wire).getD []).length = reply.length := by
  rw [length]
  cases reply.msg <;> simp

theorem length_lt : reply.length < 2 ^ 16 := by
  rw [length]
  split <;> decide

theorem length_bytes : reply.bytes.length = 12 + reply.length := by
  rw [← List.append_nil reply.bytes, bytes_append]
  simp only [List.length_append, length_putU16, length_putU64, length_payload, List.length_nil]
  omega

theorem drop_two : (reply.bytes ++ rest).drop 2 = putU64 (UInt64.ofNat reply.sequence) ++
    (putU16 (UInt16.ofNat reply.length) ++
      ((reply.msg.map OrderMessage.wire).getD [] ++ rest)) := by
  rw [bytes_append, List.drop_left' length_putU16]

theorem drop_ten : (reply.bytes ++ rest).drop 10 =
    putU16 (UInt16.ofNat reply.length) ++ ((reply.msg.map OrderMessage.wire).getD [] ++ rest) := by
  rw [show 10 = 2 + 8 from rfl, ← List.drop_drop, drop_two, List.drop_left' length_putU64]

theorem drop_twelve : (reply.bytes ++ rest).drop 12 =
    (reply.msg.map OrderMessage.wire).getD [] ++ rest := by
  rw [show 12 = 10 + 2 from rfl, ← List.drop_drop, drop_ten, List.drop_left' length_putU16]

theorem getU16_length : (getU16 ((reply.bytes ++ rest).drop 10)).toNat = reply.length := by
  rw [drop_ten, getU16_putU16, UInt16.toNat_ofNat', Nat.mod_eq_of_lt length_lt]

theorem isFrame (reply : Answer) : repairFormat.IsFrame reply.bytes := by
  have hheader : ((reply.bytes.take 12).drop 10) = (reply.bytes.drop 10).take 2 := by
    rw [List.drop_take]
  have hlength : (getU16 ((reply.bytes ++ []).drop 10)).toNat = reply.length := getU16_length
  rw [List.append_nil] at hlength
  refine ⟨?_, ?_⟩
  · rw [length_bytes]
    exact Nat.le_add_right ..
  · simp only [Format.frameLength, repairFormat, hheader, getU16_take le_rfl, hlength, length_bytes]

/-- The loop of `drain_tcp` reads back what was answered. -/
theorem Valid.read (h : reply.Valid) (rest : Bytes) :
    (getU16 (reply.bytes ++ rest)).toNat = reply.bucket ∧
    (getU64 ((reply.bytes ++ rest).drop 2)).toNat = reply.sequence ∧
    (if reply.length = 0 then none else some
      (OrderMessage.decode ((reply.bytes ++ rest).drop 12))) =
      reply.msg := by
  refine ⟨?_, ?_, ?_⟩
  · rw [bytes_append, getU16_putU16, UInt16.toNat_ofNat', Nat.mod_eq_of_lt h.bucket]
  · rw [drop_two, getU64_putU64, UInt64.toNat_ofNat', Nat.mod_eq_of_lt h.sequence]
  · rw [drop_twelve, length]
    cases hmsg : reply.msg with
    | none => rfl
    | some msg => exact congrArg some (OrderMessage.decode_wire (h.nul msg hmsg))

end Answer

/-- What `drain_tcp` does with a list of answers. -/
def onAnswers (buckets : List Bucket) : List Answer → List Bucket × List Event
  | [] => (buckets, [])
  | reply :: replies =>
    let (buckets, events) := withBucket reply.bucket (·.onFrame reply.sequence reply.msg) buckets
    let (buckets, events') := onAnswers buckets replies
    (buckets, events ++ events')

/-! ## Parsing

`parse` is what the frame loop reads in a stream of any bytes; the loop acts on it
(`frameLoop_eq`). -/

theorem frameLength_eq {bytes : Bytes} :
    repairFormat.frameLength bytes = 12 + (getU16 (bytes.drop 10)).toNat := by
  simp only [Format.frameLength, repairFormat, List.drop_take, getU16_take le_rfl]

theorem ready_iff {bytes : Bytes} : repairFormat.Ready bytes ↔
    12 ≤ bytes.length ∧ 12 + (getU16 (bytes.drop 10)).toNat ≤ bytes.length := by
  rw [Format.Ready, frameLength_eq]
  rfl

/-- The first frame of a stream says what the stream says in its place. -/
theorem read_take (bytes : Bytes) {length : Nat} (h : (getU16 (bytes.drop 10)).toNat = length) :
    (getU16 ((bytes.take (12 + length)).drop 10)).toNat = length ∧
    (length = 0 ∨ length = ORDER_MESSAGE_SIZE → Answer.read (bytes.take (12 + length)) =
      { bucket := (getU16 bytes).toNat
        sequence := (getU64 (bytes.drop 2)).toNat
        msg := if length = 0 then none else some (OrderMessage.decode (bytes.drop 12)) }) := by
  have hlength : (getU16 ((bytes.take (12 + length)).drop 10)).toNat = length := by
    rw [List.drop_take, getU16_take (by omega), h]
  refine ⟨hlength, fun hpossible => ?_⟩
  simp only [Answer.read, hlength]
  rw [getU16_take (by omega), List.drop_take, getU64_take (by omega)]
  rcases hpossible with hzero | hsize
  · rw [if_pos hzero, if_pos hzero]
  · rw [List.drop_take, OrderMessage.decode_take (by omega)]

theorem parse_of_not_ready {bytes : Bytes} (h : ¬repairFormat.Ready bytes) :
    parse bytes = ([], some bytes) := by
  rw [parse, Format.splitWhile_of_not_ready h]
  rfl

/-- The frame loop acts on the frames of the stream in order. -/
theorem frameLoop_eq (buckets : List Bucket) {bytes : Bytes} (hfuel : bytes.length ≤ fuel) :
    frameLoop fuel buckets bytes = ((onAnswers buckets (parse bytes).1).1, (parse bytes).2,
      (onAnswers buckets (parse bytes).1).2 ++ resync (parse bytes).2) := by
  induction fuel generalizing buckets bytes with
  | zero =>
    rw [parse_of_not_ready fun h => absurd ((ready_iff.mp h).1.trans hfuel) (by decide)]
    rfl
  | succ fuel ih =>
    rw [frameLoop]
    split
    · next hheader =>
      rw [parse_of_not_ready fun h => Nat.not_le.mpr hheader (ready_iff.mp h).1]
      rfl
    next hheader =>
    dsimp only
    split
    · next hshort =>
      rw [parse_of_not_ready fun h => Nat.not_le.mpr hshort (ready_iff.mp h).2]
      rfl
    next hlong =>
    have hready : repairFormat.Ready bytes :=
      ready_iff.mpr ⟨Nat.not_lt.mp hheader, Nat.not_lt.mp hlong⟩
    obtain ⟨hlength, hread⟩ := read_take bytes rfl
    split
    · next hbad =>
      have himpossible : possible (bytes.take (repairFormat.frameLength bytes)) = false := by
        rw [frameLength_eq, possible, hlength]
        simpa using hbad
      rw [parse, Format.splitWhile_of_bad hready himpossible]
      rfl
    · next hgood =>
      have hgood := or_iff_not_and_not.mpr hgood
      have hpossible : possible (bytes.take (repairFormat.frameLength bytes)) = true := by
        rw [frameLength_eq, possible, hlength]
        exact decide_eq_true hgood
      have hparse : parse bytes =
          (Answer.read (bytes.take (12 + (getU16 (bytes.drop 10)).toNat)) ::
            (parse (bytes.drop (12 + (getU16 (bytes.drop 10)).toNat))).1,
          (parse (bytes.drop (12 + (getU16 (bytes.drop 10)).toNat))).2) := by
        rw [parse, Format.splitWhile_of_good hready hpossible, frameLength_eq]
        rfl
      rw [ih _ (by rw [List.length_drop]; omega), hparse, hread hgood]
      simp only [onAnswers, List.append_assoc]

/-- What the repair server wrote is read back, wherever the stream has been cut. -/
theorem parse_answers {replies : List Answer} {tail : Bytes} (h : ∀ reply ∈ replies, reply.Valid)
    (htail : ¬repairFormat.Ready tail) :
    parse (replies.flatMap Answer.bytes ++ tail) = (replies, some tail) := by
  have hframes : ∀ frame ∈ replies.map Answer.bytes, repairFormat.IsFrame frame :=
    List.forall_mem_map.mpr fun reply _ => reply.isFrame
  have hpossible : ∀ frame ∈ replies.map Answer.bytes, possible frame = true := by
    refine List.forall_mem_map.mpr fun reply _ => decide_eq_true ?_
    have hlength := @Answer.getU16_length reply []
    rw [List.append_nil] at hlength
    rw [hlength, Answer.length]
    split
    · exact .inr rfl
    · exact .inl rfl
  have hread : (replies.map Answer.bytes).map Answer.read = replies := by
    rw [List.map_map]
    refine (List.map_congr_left fun reply hmem => ?_).trans (List.map_id _)
    obtain ⟨hbucket, hsequence, hmsg⟩ := (h reply hmem).read []
    have hlength := @Answer.getU16_length reply []
    rw [List.append_nil] at hbucket hsequence hmsg hlength
    simp only [Function.comp, Answer.read, hbucket, hsequence, hlength, hmsg]
    rfl
  rw [parse, Format.splitWhile, List.flatMap_def, Format.split_flatten hframes,
    Format.split_of_not_ready htail]
  simp only [List.append_nil]
  rw [List.takeWhile_eq_self_iff.mpr hpossible, if_pos (List.all_eq_true.mpr hpossible), hread]

/-- What has arrived of a stream of answers is the first of them and the front of the next. -/
theorem answers_split {replies : List Answer} {bytes rest : Bytes}
    (h : bytes ++ rest <+: replies.flatMap Answer.bytes) :
    ∃ first later tail, bytes = first.flatMap Answer.bytes ++ tail ∧ ¬repairFormat.Ready tail ∧
      replies = first ++ later ∧ tail ++ rest <+: later.flatMap Answer.bytes := by
  have hframes : ∀ frame ∈ replies.map Answer.bytes, repairFormat.IsFrame frame :=
    List.forall_mem_map.mpr fun reply _ => reply.isFrame
  rw [List.flatMap_def] at h
  obtain ⟨later, hsplit, hlater⟩ := Format.split_prefix hframes h
  obtain ⟨hjoin, -, htail⟩ := @Format.split_spec _ repairFormat bytes
  obtain ⟨first, second, rfl, hfirst, rfl⟩ := List.map_eq_append_iff.mp hsplit
  rw [← hfirst, ← List.flatMap_def] at hjoin
  rw [← List.flatMap_def] at hlater
  exact ⟨first, second, _, hjoin.symm, htail, rfl, hlater⟩

theorem frameLoop_answers (buckets : List Bucket) {replies : List Answer} {tail : Bytes}
    (h : ∀ reply ∈ replies, reply.Valid) (htail : ¬repairFormat.Ready tail)
    (hfuel : (replies.flatMap Answer.bytes ++ tail).length ≤ fuel) :
    frameLoop fuel buckets (replies.flatMap Answer.bytes ++ tail) =
      ((onAnswers buckets replies).1, some tail, (onAnswers buckets replies).2) := by
  rw [frameLoop_eq buckets hfuel, parse_answers h htail]
  simp [resync]

end Subscriber
end MegaFeed
