import MegaFeed.Verify.FeedHandler

/-! # Gap accounting

`Accounted`: every number the handler has moved past was decoded or is counted as a gap. A payload
whose body is cut short moves `expected` past messages that are neither, unless all its numbers were
passed before (`Covered`); `accounted_snoc` says that this is the only way to lose count, and
`gap_accounting_iff` that a run keeps count exactly as long as its payloads are covered. -/

namespace MegaFeed
namespace FeedHandler

variable {bucketCount ringSize : Nat} [NeZero bucketCount] [NeZero ringSize]
  {publisher : FeedPublisher bucketCount ringSize}

/-- The messages decoded and the gaps counted make up the numbers moved past. -/
def Accounted (publisher : FeedPublisher bucketCount ringSize) (payloads : List Bytes) : Prop :=
  let (handler, output) := (fresh publisher).run payloads
  ∀ first ∈ firstNumber payloads,
    first + output.handed.length + handler.captureGaps.toNat = handler.expected.toNat

instance (payloads : List Bytes) : Decidable (Accounted publisher payloads) :=
  inferInstanceAs (Decidable (∀ _ ∈ firstNumber payloads, _ = _))

/-- The payload holds all messages it announces, or announces none that are not passed already. -/
def Covered (handler : FeedHandler bucketCount ringSize) (payload : Bytes) : Prop :=
  ∀ header ∈ bearing payload,
    header.first + header.count ≤ handler.expected.toNat ∨ header.Complete payload

theorem length_numbered {start : Nat} {messages : List Bytes} :
    (numbered start messages).length = messages.length := List.length_mapIdx

theorem firstNumber_snoc {payloads : List Bytes} :
    firstNumber (payloads ++ [payload]) =
      ((firstNumber payloads).or ((bearing payload).map (·.first))) := by
  rw [firstNumber, firstNumber, List.filterMap_append, List.head?_append, Option.map_or]
  cases h : bearing payload <;> simp [h]

/-- What one payload with messages adds to both sides of the account. -/
theorem Took.account {handler handler' : FeedHandler bucketCount ringSize}
    (H : Took handler handler' header messages output)
    (h : handler.captureGaps.toNat ≤ handler.expected.toNat) :
    handler'.expected.toNat = max handler.expected.toNat (header.first + header.count) ∧
    output.handed.length + handler'.captureGaps.toNat =
      messages.length - (handler.expected.toNat - header.first) + (handler.captureGaps.toNat +
        if handler.expected.toNat = 0 then 0 else header.first - handler.expected.toNat) := by
  refine ⟨H.expected, ?_⟩
  rw [H.captureGaps h, H.handed, length_numbered, List.length_drop]

theorem one_le_count {header : IextpHeader} (h : bearing payload = some header) :
    1 ≤ header.count := by
  obtain ⟨-, -, hcount⟩ := bearing_eq_some.mp h
  exact Nat.one_le_iff_ne_zero.mpr fun hzero => hcount (UInt16.toNat_inj.mp hzero)

/-- The handler never counts more than it moved past. -/
structure Counted (handler : FeedHandler bucketCount ringSize) (output : Output)
    (first : Option Nat) : Prop where
  nothing : first = none → handler.expected.toNat = 0 ∧ output.handed = [] ∧
    handler.captureGaps.toNat = 0
  counted : ∀ n, first = some n → handler.expected.toNat ≠ 0 ∧
    n + output.handed.length + handler.captureGaps.toNat ≤ handler.expected.toNat

omit [NeZero bucketCount] [NeZero ringSize] in
theorem Counted.gaps_le {handler : FeedHandler bucketCount ringSize}
    (H : Counted handler output first) : handler.captureGaps.toNat ≤ handler.expected.toNat := by
  cases first with
  | none => rw [(H.nothing rfl).2.2]; exact Nat.zero_le _
  | some n => have := (H.counted n rfl).2; omega

theorem Counted.onPayload {handler : FeedHandler bucketCount ringSize}
    (H : Counted handler output first) (hfit : NoOverflow payload) :
    Counted (handler.onPayload payload).1 (output ++ (handler.onPayload payload).2)
      (first.or ((bearing payload).map (·.first))) := by
  cases hbearing : bearing payload with
  | none =>
    obtain ⟨hempty, hexpected, hgaps, -⟩ := onPayload_other handler hbearing
    have hhanded : (output ++ (handler.onPayload payload).2).handed = output.handed := by
      rw [hempty, handed_append, List.append_nil]
    rw [Option.map_none, Option.or_none]
    exact ⟨fun h => by rw [hexpected, hgaps, hhanded]; exact H.nothing h,
      fun n h => by rw [hexpected, hgaps, hhanded]; exact H.counted n h⟩
  | some header =>
    obtain ⟨hexpected, haccount⟩ :=
      (onPayload_bearing handler hbearing (hfit header hbearing)).account H.gaps_le
    have hle := @length_messagesOf_le payload header
    have hpos := one_le_count hbearing
    refine ⟨fun h => by cases first <;> simp at h, fun n hn => ?_⟩
    rw [handed_append, List.length_append, hexpected]
    simp only [IextpHeader.count] at *
    cases first with
    | none =>
      obtain ⟨hzero, hnil, hgaps⟩ := H.nothing rfl
      rw [hzero, hgaps, if_pos rfl] at haccount
      cases hn
      rw [hnil, List.length_nil]
      dsimp only
      omega
    | some m =>
      obtain ⟨hne, hcounted⟩ := H.counted m rfl
      rw [if_neg hne] at haccount
      cases hn
      omega

theorem counted_run (publisher : FeedPublisher bucketCount ringSize) {payloads : List Bytes}
    (h : ∀ payload ∈ payloads, NoOverflow payload) :
    Counted ((fresh publisher).run payloads).1 ((fresh publisher).run payloads).2
      (firstNumber payloads) := by
  induction payloads using List.reverseRecOn with
  | nil => exact ⟨fun _ => ⟨rfl, rfl, rfl⟩, nofun⟩
  | append_singleton before payload ih =>
    obtain ⟨hstate, hhanded⟩ := run_snoc (fresh publisher) before payload
    have H := (ih fun p hp => h p (List.mem_append_left _ hp)).onPayload
      (h payload (List.mem_append_right _ (List.mem_singleton_self _)))
    rw [firstNumber_snoc, hstate]
    exact ⟨fun hn => hhanded ▸ H.nothing hn, fun n hn => hhanded ▸ H.counted n hn⟩

/-- One payload keeps the account exactly if it is covered. -/
theorem accounted_snoc {before : List Bytes}
    (h : ∀ p ∈ before ++ [payload], NoOverflow p) :
    Accounted publisher (before ++ [payload]) ↔
      Accounted publisher before ∧ Covered ((fresh publisher).run before).1 payload := by
  obtain ⟨hstate, hhanded⟩ := run_snoc (fresh publisher) before payload
  have H := counted_run publisher fun p hp => h p (List.mem_append_left _ hp)
  have hfit := h payload (List.mem_append_right _ (List.mem_singleton_self _))
  simp only [Accounted, hstate, hhanded, firstNumber_snoc, Covered, List.length_append]
  generalize ((fresh publisher).run before).1 = handler at *
  generalize ((fresh publisher).run before).2 = output at *
  cases hbearing : bearing payload with
  | none =>
    obtain ⟨hempty, hexpected, hgaps, -⟩ := onPayload_other handler hbearing
    simp [hempty, hexpected, hgaps]
  | some header =>
    obtain ⟨hexpected, haccount⟩ :=
      (onPayload_bearing handler hbearing (hfit header hbearing)).account H.gaps_le
    have hle := @length_messagesOf_le payload header
    have hpos := one_le_count hbearing
    simp only [Option.map_some, Option.mem_some_iff, forall_eq', ← length_messagesOf_iff, hexpected,
      IextpHeader.count] at *
    cases hfirst : firstNumber before with
    | none =>
      obtain ⟨hzero, hnil, hgaps⟩ := H.nothing hfirst
      rw [hzero, hgaps, if_pos rfl] at haccount
      simp only [hzero, hnil, Option.none_or, Option.mem_some_iff, forall_eq', List.length_nil,
        Option.not_mem_none, IsEmpty.forall_iff, implies_true, true_and]
      omega
    | some n =>
      obtain ⟨hne, hcounted⟩ := H.counted n hfirst
      rw [if_neg hne] at haccount
      simp only [Option.some_or, Option.mem_some_iff, forall_eq']
      omega

/-- **Gap accounting.** A run keeps the account after every payload exactly if every payload is
covered: its body holds all the messages it announces, or all their numbers were passed before. -/
theorem gap_accounting_iff {payloads : List Bytes} (h : ∀ payload ∈ payloads, NoOverflow payload) :
    (∀ before, before <+: payloads → Accounted publisher before) ↔
      ∀ before payload, before ++ [payload] <+: payloads →
        Covered ((fresh publisher).run before).1 payload := by
  have hsnoc : ∀ before payload, before ++ [payload] <+: payloads →
      (Accounted publisher (before ++ [payload]) ↔
        Accounted publisher before ∧ Covered ((fresh publisher).run before).1 payload) :=
    fun before payload hb => accounted_snoc fun p hp => h p (hb.subset hp)
  constructor
  · intro hall before payload hb
    exact ((hsnoc before payload hb).mp (hall _ hb)).2
  · intro hcovered before hb
    induction before using List.reverseRecOn with
    | nil => exact nofun
    | append_singleton before payload ih =>
      exact (hsnoc before payload hb).mpr
        ⟨ih ((List.prefix_append _ _).trans hb), hcovered before payload hb⟩

/-- A packet of our protocol. -/
def packetBytes (payloadLength messageCount : UInt16) (first : UInt64) (body : Bytes) : Bytes :=
  [1, 0] ++ putU16 0x8005 ++ putU32 1 ++ putU32 1 ++ putU16 payloadLength ++ putU16 messageCount ++
    putU64 0 ++ putU64 first ++ putU64 0 ++ body

/-- A packet that announces two messages and holds one of them. -/
def cutShort : Bytes := packetBytes 4 2 1 (framed [0, 0])

/-- A single packet that is not covered. -/
theorem gap_accounting_iff_cutShort :
    ¬∀ before payload, before ++ [payload] <+: [cutShort] →
      Covered ((fresh (FeedPublisher.init 0 (Stream'.const 0) : FeedPublisher 1 1)).run before).1
        payload := by
  intro hcovered
  have haccounted := (gap_accounting_iff (by decide)).mpr hcovered _ (List.prefix_refl _)
  revert haccounted
  decide

/-- `expected` moves past the second message of `cutShort`, which is not decoded and not counted. -/
theorem gap_accounting_cutShort :
    ¬∀ (publisher : FeedPublisher 1 1) payloads,
      (∀ payload ∈ payloads, ∃ header ∈ iextpDecode payload, header.protocol = 0x8005 ∧
        header.first + header.count < 2 ^ 64) →
      Accounted publisher payloads := by
  intro hall
  have haccounted := hall (FeedPublisher.init 0 (Stream'.const 0)) [cutShort] (by decide)
  revert haccounted
  decide

end FeedHandler
end MegaFeed
