import MegaFeed.Model.FeedHandler
import MegaFeed.Verify.Iextp

/-! # What one payload does to the feed handler

`onPayload_bearing` is the specification of `onPayload` in natural numbers, and `onPayload_other`
says that every other payload changes nothing. What is decoded and published depends only on the
messages handed over (`run_published`). -/

namespace MegaFeed

/-- The header of a payload that brings messages of our protocol. -/
def bearing (payload : Bytes) : Option IextpHeader :=
  (iextpDecode payload).filter fun header => header.protocol = 0x8005 ∧ header.messageCount ≠ 0

namespace IextpHeader

def first (header : IextpHeader) : Nat := header.firstSequenceNumber.toNat
def count (header : IextpHeader) : Nat := header.messageCount.toNat

end IextpHeader

theorem bearing_eq_some {header : IextpHeader} : bearing payload = some header ↔
    iextpDecode payload = some header ∧ header.protocol = 0x8005 ∧ header.messageCount ≠ 0 := by
  simp [bearing, Option.filter_eq_some_iff]

namespace FeedHandler

variable {bucketCount ringSize : Nat} [NeZero bucketCount] [NeZero ringSize]
  {handler : FeedHandler bucketCount ringSize} {messages : List Bytes}

/-! ## Handing over -/

/-- A handler that has seen nothing. -/
def fresh (publisher : FeedPublisher bucketCount ringSize) : FeedHandler bucketCount ringSize :=
  { publisher }

/-- The messages of a run that starts with number `sequence`. -/
def numbered (sequence : Nat) (messages : List Bytes) : List Handed :=
  messages.mapIdx fun i bytes => ⟨UInt64.ofNat (sequence + i), bytes⟩

/-- Hands over one message after the other. -/
def handOverAll (handler : FeedHandler bucketCount ringSize) :
    List Bytes → FeedHandler bucketCount ringSize × FeedPublisher.Output
  | [] => (handler, {})
  | bytes :: messages =>
    let (handler, output) := handler.handOver bytes
    let (handler, outputs) := handOverAll handler messages
    (handler, output ++ outputs)

/-- The part of a handler that decoding and publishing work on. -/
def downstream (handler : FeedHandler bucketCount ringSize) :
    DeepPlusDecoder × FeedPublisher bucketCount ringSize × Nat :=
  (handler.decoder, handler.publisher, handler.published)

theorem handOver_congr {handler' : FeedHandler bucketCount ringSize}
    (h : handler.downstream = handler'.downstream) (bytes : Bytes) :
    (handler.handOver bytes).1.downstream = (handler'.handOver bytes).1.downstream ∧
    (handler.handOver bytes).2 = (handler'.handOver bytes).2 := by
  simp only [downstream, Prod.mk.injEq] at h
  obtain ⟨hdecoder, hpublisher, hpublished⟩ := h
  simp only [handOver, downstream, hdecoder, hpublisher, hpublished, and_self]

theorem handOverAll_congr {handler' : FeedHandler bucketCount ringSize}
    (h : handler.downstream = handler'.downstream) (messages : List Bytes) :
    (handler.handOverAll messages).1.downstream = (handler'.handOverAll messages).1.downstream ∧
    (handler.handOverAll messages).2 = (handler'.handOverAll messages).2 := by
  induction messages generalizing handler handler' with
  | nil => exact ⟨h, rfl⟩
  | cons bytes messages ih =>
    obtain ⟨hdownstream, houtput⟩ := handOver_congr h bytes
    obtain ⟨hrest, houtputs⟩ := ih hdownstream
    exact ⟨hrest, congrArg₂ (· ++ ·) houtput houtputs⟩

theorem handOverAll_frame (handler : FeedHandler bucketCount ringSize) (messages : List Bytes) :
    (handler.handOverAll messages).1.expected = handler.expected ∧
    (handler.handOverAll messages).1.captureGaps = handler.captureGaps := by
  induction messages generalizing handler with
  | nil => exact ⟨rfl, rfl⟩
  | cons bytes messages ih => exact ih (handler.handOver bytes).1

theorem numbered_cons {start : Nat} {bytes : Bytes} :
    numbered start (bytes :: messages) = ⟨UInt64.ofNat start, bytes⟩ :: numbered (start + 1)
      messages := by
  simp [numbered, List.mapIdx_cons, Nat.add_comm, Nat.add_left_comm]

/-- The callback passes the first `skip` messages over and hands the others over with
their numbers. -/
theorem onMessages_eq {skip sequence : UInt64} {start : Nat}
    (hstart : UInt64.ofNat start = sequence + skip) :
    onMessages handler skip sequence messages =
      ((handler.handOverAll (messages.drop skip.toNat)).1,
        { handed := numbered start (messages.drop skip.toNat)
          published := (handler.handOverAll (messages.drop skip.toNat)).2 }) := by
  induction messages generalizing handler skip sequence start with
  | nil => simp [onMessages, numbered, handOverAll]
  | cons bytes messages ih =>
    by_cases hskip : skip = 0
    · subst hskip
      have hnext : UInt64.ofNat (start + 1) = sequence + 1 + 0 := by
        rw [UInt64.ofNat_add, hstart, UInt64.add_zero, UInt64.add_zero]
        rfl
      simp only [onMessages, if_neg (not_not.mpr (rfl : (0 : UInt64) = 0)), ih hnext]
      simp only [UInt64.toNat_zero, List.drop_zero, numbered_cons, handOverAll, hstart,
        UInt64.add_zero]
      rfl
    · have hpos : skip.toNat = (skip - 1).toNat + 1 := by
        have hle : (1 : UInt64) ≤ skip := UInt64.pos_iff_ne_zero.mpr hskip
        rw [UInt64.toNat_sub_of_le _ _ hle]
        have : skip.toNat ≠ 0 := fun h => hskip (UInt64.toNat_inj.mp h)
        simp only [UInt64.toNat_one]
        omega
      have hnext : UInt64.ofNat start = sequence + 1 + (skip - 1) := by
        rw [hstart, UInt64.add_assoc, UInt64.add_comm 1, UInt64.sub_add_cancel]
      rw [onMessages, if_pos hskip, ih hnext, hpos, List.drop_succ_cons]

/-! ## One payload -/

theorem onPayload_other (handler : FeedHandler bucketCount ringSize)
    (h : bearing payload = none) :
    (handler.onPayload payload).2 = {} ∧
    (handler.onPayload payload).1.expected = handler.expected ∧
    (handler.onPayload payload).1.captureGaps = handler.captureGaps ∧
    (handler.onPayload payload).1.downstream = handler.downstream := by
  rw [onPayload]
  cases hheader : iextpDecode payload with
  | none => exact ⟨rfl, rfl, rfl, rfl⟩
  | some header =>
    dsimp only
    split
    · exact ⟨rfl, rfl, rfl, rfl⟩
    split
    · exact ⟨rfl, rfl, rfl, rfl⟩
    · next hprotocol hcount =>
      have := bearing_eq_some.mpr ⟨hheader, not_not.mp hprotocol, hcount⟩
      exact nomatch h.symm.trans this

theorem map_bytes_numbered {start : Nat} : (numbered start messages).map (·.bytes) = messages := by
  induction messages generalizing start with
  | nil => rfl
  | cons bytes messages ih => rw [numbered_cons, List.map_cons, ih]

/-- How many messages of a payload were seen before. -/
def overlap (expected : UInt64) (header : IextpHeader) : UInt64 :=
  if expected ≠ 0 ∧ header.firstSequenceNumber < expected then expected - header.firstSequenceNumber
  else 0

/-- How many numbers before a payload were never seen. -/
def gap (expected : UInt64) (header : IextpHeader) : UInt64 :=
  if expected ≠ 0 ∧ header.firstSequenceNumber > expected then header.firstSequenceNumber - expected
  else 0

theorem toNat_overlap {expected : UInt64} {header : IextpHeader} :
    (overlap expected header).toNat = expected.toNat - header.first := by
  rw [overlap]
  split
  · next h => exact UInt64.toNat_sub_of_le _ _ (Nat.le_of_lt h.2)
  · next h =>
    have hle : expected.toNat ≤ header.first := by
      by_contra hlt
      refine h ⟨fun hzero => ?_, Nat.not_le.mp hlt⟩
      rw [hzero] at hlt
      exact hlt (Nat.zero_le _)
    rw [Nat.sub_eq_zero_of_le hle, UInt64.toNat_zero]

theorem toNat_gap {expected : UInt64} {header : IextpHeader} :
    (gap expected header).toNat = if expected.toNat = 0 then 0 else header.first -
      expected.toNat := by
  rw [gap]
  split
  · next h =>
    have hne : expected.toNat ≠ 0 := fun hzero => h.1 (UInt64.toNat_inj.mp hzero)
    rw [if_neg hne]
    exact UInt64.toNat_sub_of_le _ _ (Nat.le_of_lt h.2)
  · next h =>
    split
    · rfl
    · next hne =>
      have hle : header.first ≤ expected.toNat :=
        Nat.not_lt.mp fun hlt => h ⟨fun hzero => hne (by rw [hzero]; rfl), hlt⟩
      rw [Nat.sub_eq_zero_of_le hle, UInt64.toNat_zero]

/-- The first number of a payload that was not seen before. -/
theorem first_add_overlap {expected : UInt64} {header : IextpHeader} :
    UInt64.ofNat (max expected.toNat header.first) =
      header.firstSequenceNumber + overlap expected header := by
  apply UInt64.toNat_inj.mp
  have he := expected.toNat_lt
  have hf := header.firstSequenceNumber.toNat_lt
  rw [UInt64.toNat_add, toNat_overlap, UInt64.toNat_ofNat']
  simp only [IextpHeader.first]
  congr 1
  omega

theorem onPayload_eq {header : IextpHeader} (h : bearing payload = some header) :
    handler.onPayload payload =
      let after := onMessages
        { handler with captureGaps := handler.captureGaps + gap handler.expected header }
        (overlap handler.expected header) header.firstSequenceNumber (messagesOf payload header)
      let next := header.firstSequenceNumber + header.messageCount.toUInt64
      ({ after.1 with expected := if next > after.1.expected then next else after.1.expected },
        after.2) := by
  obtain ⟨hdecode, hprotocol, hcount⟩ := bearing_eq_some.mp h
  have hgap : (if handler.expected ≠ 0 ∧ header.firstSequenceNumber > handler.expected then
      handler.captureGaps + (header.firstSequenceNumber - handler.expected)
      else handler.captureGaps) = handler.captureGaps + gap handler.expected header := by
    rw [gap]
    split
    · rfl
    · rw [UInt64.add_zero]
  simp only [onPayload, hdecode, hprotocol, if_neg hcount, ne_eq, not_true_eq_false,
    if_false] at hgap ⊢
  rw [hgap]
  rfl

/-- What a payload with messages changes, in natural numbers. -/
structure Took (handler handler' : FeedHandler bucketCount ringSize) (header : IextpHeader)
    (messages : List Bytes) (output : Output) : Prop where
  expected : handler'.expected.toNat = max handler.expected.toNat (header.first + header.count)
  captureGaps : handler.captureGaps.toNat ≤ handler.expected.toNat →
    handler'.captureGaps.toNat = handler.captureGaps.toNat +
      if handler.expected.toNat = 0 then 0 else header.first - handler.expected.toNat
  handed : output.handed = numbered (max handler.expected.toNat header.first)
    (messages.drop (handler.expected.toNat - header.first))
  published : output.published = (handler.handOverAll (output.handed.map (·.bytes))).2
  downstream :
    handler'.downstream = (handler.handOverAll (output.handed.map (·.bytes))).1.downstream

theorem onPayload_bearing (handler : FeedHandler bucketCount ringSize) {header : IextpHeader}
    (h : bearing payload = some header)
    (hfit : header.first + header.count < 2 ^ 64) :
    Took handler (handler.onPayload payload).1 header (messagesOf payload header)
      (handler.onPayload payload).2 := by
  have hnext : (header.firstSequenceNumber + header.messageCount.toUInt64).toNat =
      header.first + header.count := by
    rw [UInt64.toNat_add, UInt16.toNat_toUInt64]
    exact Nat.mod_eq_of_lt hfit
  rw [onPayload_eq h, onMessages_eq first_add_overlap]
  let counted := { handler with captureGaps := handler.captureGaps + gap handler.expected header }
  have hsame : counted.downstream = handler.downstream := rfl
  obtain ⟨hexpected, hgaps⟩ := handOverAll_frame counted
    ((messagesOf payload header).drop (overlap handler.expected header).toNat)
  obtain ⟨hdownstream, houtput⟩ := handOverAll_congr hsame
    ((messagesOf payload header).drop (overlap handler.expected header).toNat)
  constructor
  · dsimp only [counted] at hexpected ⊢
    rw [hexpected]
    split
    · next hlt => rw [hnext, Nat.max_eq_right]; rw [← hnext]; exact Nat.le_of_lt hlt
    · next hle => rw [Nat.max_eq_left]; rw [← hnext]; exact Nat.not_lt.mp hle
  · intro hle
    have hfirst : header.first < 2 ^ 64 := header.firstSequenceNumber.toNat_lt
    have hbound := handler.captureGaps.toNat_lt
    dsimp only [counted] at hgaps ⊢
    rw [hgaps, UInt64.toNat_add, toNat_gap, Nat.mod_eq_of_lt]
    split <;> omega
  · rw [toNat_overlap]
  · rw [map_bytes_numbered, houtput]
  · rw [map_bytes_numbered, ← hdownstream]
    rfl

/-! ## Runs -/

/-- The numbers of a payload's messages fit 64 bits. -/
def NoOverflow (payload : Bytes) : Prop :=
  ∀ header ∈ bearing payload, header.first + header.count < 2 ^ 64

instance (payload : Bytes) : Decidable (NoOverflow payload) :=
  inferInstanceAs (Decidable (∀ _ ∈ bearing payload, _ < _))

/-- The number the first payload with messages starts with. -/
def firstNumber (payloads : List Bytes) : Option Nat :=
  (payloads.filterMap bearing).head?.map (·.first)

@[simp] theorem handed_append {a b : Output} : (a ++ b).handed = a.handed ++ b.handed := rfl
@[simp] theorem published_append {a b : Output} : (a ++ b).published = a.published ++ b.published :=
  rfl

theorem output_append_assoc {a b c : FeedPublisher.Output} : a ++ b ++ c = a ++ (b ++ c) :=
  congrArg₂ FeedPublisher.Output.mk (List.append_assoc ..) (List.append_assoc ..)

theorem run_cons {payloads : List Bytes} :
    handler.run (payload :: payloads) = (((handler.onPayload payload).1.run payloads).1,
      (handler.onPayload payload).2 ++ ((handler.onPayload payload).1.run payloads).2) := rfl

theorem run_snoc (handler : FeedHandler bucketCount ringSize) (payloads : List Bytes)
    (payload : Bytes) :
    (handler.run (payloads ++ [payload])).1 = ((handler.run payloads).1.onPayload payload).1 ∧
    (handler.run (payloads ++ [payload])).2.handed =
      (handler.run payloads).2.handed ++ ((handler.run payloads).1.onPayload payload).2.handed := by
  induction payloads generalizing handler with
  | nil => exact ⟨rfl, List.append_nil _⟩
  | cons first payloads ih =>
    simp only [List.cons_append, run_cons, handed_append, List.append_assoc]
    obtain ⟨hstate, hhanded⟩ := ih (handler.onPayload first).1
    exact ⟨hstate, congrArg _ hhanded⟩

theorem handOverAll_append {messages' : List Bytes} :
    handler.handOverAll (messages ++ messages') =
      (((handler.handOverAll messages).1.handOverAll messages').1,
        (handler.handOverAll messages).2 ++
        ((handler.handOverAll messages).1.handOverAll messages').2) := by
  induction messages generalizing handler with
  | nil => rfl
  | cons bytes messages ih =>
    simp only [List.cons_append, handOverAll, ih, output_append_assoc]

/-- What is published, and all that publishing changes, depends only on the messages handed over. -/
theorem run_published {payloads : List Bytes} (h : ∀ payload ∈ payloads, NoOverflow payload) :
    (handler.run payloads).2.published =
      (handler.handOverAll ((handler.run payloads).2.handed.map (·.bytes))).2 ∧
    (handler.run payloads).1.downstream =
      (handler.handOverAll ((handler.run payloads).2.handed.map (·.bytes))).1.downstream := by
  induction payloads generalizing handler with
  | nil => exact ⟨rfl, rfl⟩
  | cons payload payloads ih =>
    obtain ⟨hpayload, hpayloads⟩ := List.forall_mem_cons.mp h
    obtain ⟨hrest, hrestDown⟩ := @ih (handler.onPayload payload).1 hpayloads
    rw [run_cons, handed_append, published_append, List.map_append, handOverAll_append]
    cases hbearing : bearing payload with
    | none =>
      obtain ⟨hempty, -, -, hdown⟩ := onPayload_other handler hbearing
      obtain ⟨hcongrDown, hcongr⟩ := handOverAll_congr hdown
        (((handler.onPayload payload).1.run payloads).2.handed.map (·.bytes))
      rw [hempty, hrest, hrestDown, hcongr, hcongrDown]
      exact ⟨rfl, rfl⟩
    | some header =>
      have htook := onPayload_bearing handler hbearing (hpayload header hbearing)
      obtain ⟨hcongrDown, hcongr⟩ := handOverAll_congr htook.downstream
        (((handler.onPayload payload).1.run payloads).2.handed.map (·.bytes))
      rw [hrest, hrestDown, htook.published, hcongr, hcongrDown]
      exact ⟨rfl, rfl⟩

end FeedHandler
end MegaFeed
