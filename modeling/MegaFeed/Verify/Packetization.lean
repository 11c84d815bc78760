import MegaFeed.Verify.Gaps

/-! # Packetization independence

A venue numbers its messages and sends runs of them in packets, cut anywhere, repeated and
overlapping. `handed_of_stream`: whatever the packets, each message is decoded at most once, in
order, with its own bytes. `handed_eq_stream`: if no packet starts beyond `expected`, what is
decoded is the stream itself from the first number on. So how the stream was cut does not matter
(`packetization_independent`). -/

namespace MegaFeed
namespace FeedHandler

variable {bucketCount ringSize : Nat} [NeZero bucketCount] [NeZero ringSize]
  {handler : FeedHandler bucketCount ringSize} {stream : Nat → Bytes} {payloads : List Bytes}

/-- If a payload brings messages, they are a run of the stream, behind their lengths. -/
def OfStream (stream : Nat → Bytes) (payload : Bytes) : Prop :=
  ∀ header ∈ bearing payload, header.first + header.count < 2 ^ 64 ∧
    header.body payload =
      ((List.range' header.first header.count).map fun n => framed (stream n)).flatten

instance (payload : Bytes) : Decidable (OfStream stream payload) :=
  inferInstanceAs (Decidable (∀ _ ∈ bearing payload, _ < _ ∧ _ = _))

/-- No payload with messages starts beyond `expected` when it arrives. -/
def NoGap (handler : FeedHandler bucketCount ringSize) : List Bytes → Prop
  | [] => True
  | payload :: payloads =>
    (∀ header ∈ bearing payload, handler.expected = 0 ∨ header.first ≤ handler.expected.toNat) ∧
    NoGap (handler.onPayload payload).1 payloads

instance NoGap.decidable : ∀ (handler : FeedHandler bucketCount ringSize) payloads,
    Decidable (handler.NoGap payloads)
  | _, [] => inferInstanceAs (Decidable True)
  | _, _ :: _ => @instDecidableAnd _ _ _ (NoGap.decidable _ _)

/-- The messages numbered from `start` to `stop`, each handed over under its number. -/
def span (stream : Nat → Bytes) (start stop : Nat) : List Handed :=
  (List.range' start (stop - start)).map fun n => ⟨UInt64.ofNat n, stream n⟩

theorem span_append (h : a ≤ b) (h' : b ≤ c) : span stream a b ++ span stream b c =
    span stream a c := by
  have hjoin : List.range' b (c - b) = List.range' (a + 1 * (b - a)) (c - b) := by
    rw [Nat.one_mul, Nat.add_sub_cancel' h]
  rw [span, span, span, ← List.map_append, hjoin, List.range'_append, Nat.add_comm,
    Nat.sub_add_sub_cancel h' h]

theorem numbered_range' {start count : Nat} :
    numbered start ((List.range' start count).map stream) = span stream start (start + count) := by
  rw [span, Nat.add_sub_cancel_left]
  induction count generalizing start with
  | zero => rfl
  | succ count ih => rw [List.range'_succ, List.map_cons, numbered_cons, ih, List.map_cons]

theorem mem_span {message : Handed} (h : message ∈ span stream start stop) (hstop : stop < 2 ^ 64) :
    start ≤ message.sequence.toNat ∧ message.sequence.toNat < stop ∧
    message.bytes = stream message.sequence.toNat := by
  obtain ⟨n, hn, rfl⟩ := List.mem_map.mp h
  rw [List.mem_range'_1] at hn
  have hword : (UInt64.ofNat n).toNat = n := by rw [UInt64.toNat_ofNat', Nat.mod_eq_of_lt]; omega
  simp only [hword]
  exact ⟨hn.1, by omega, trivial⟩

theorem span_sorted (hstop : stop < 2 ^ 64) :
    (span stream start stop).Pairwise (·.sequence < ·.sequence) := by
  refine List.pairwise_map.mpr ((List.pairwise_lt_range' ..).imp_of_mem fun hm hn hlt => ?_)
  rw [List.mem_range'_1] at hm hn
  rw [UInt64.lt_iff_toNat_lt, UInt64.toNat_ofNat', UInt64.toNat_ofNat', Nat.mod_eq_of_lt (by omega),
    Nat.mod_eq_of_lt (by omega)]
  exact hlt

/-- The first number of a payload that was not passed before. -/
def newFrom (handler : FeedHandler bucketCount ringSize) (payload : Bytes) : Nat :=
  (bearing payload).elim handler.expected.toNat fun header =>
    max handler.expected.toNat header.first

omit [NeZero bucketCount] [NeZero ringSize] in
theorem expected_le_newFrom (handler : FeedHandler bucketCount ringSize) (payload : Bytes) :
    handler.expected.toNat ≤ handler.newFrom payload := by
  rw [newFrom]
  cases bearing payload with
  | none => exact le_rfl
  | some header => exact Nat.le_max_left ..

omit [NeZero bucketCount] [NeZero ringSize] in
theorem newFrom_eq (h : ∀ header ∈ bearing payload, header.first ≤ handler.expected.toNat) :
    handler.newFrom payload = handler.expected.toNat := by
  rw [newFrom]
  cases hbearing : bearing payload with
  | none => rfl
  | some header => exact Nat.max_eq_left (h header hbearing)

/-- A payload hands over the stream from what is new in it up to the new `expected`. -/
theorem onPayload_span (handler : FeedHandler bucketCount ringSize)
    (h : OfStream stream payload) :
    handler.newFrom payload ≤ (handler.onPayload payload).1.expected.toNat ∧
    (handler.onPayload payload).2.handed =
      span stream (handler.newFrom payload) (handler.onPayload payload).1.expected.toNat := by
  rw [newFrom]
  cases hbearing : bearing payload with
  | none =>
    obtain ⟨hempty, hexpected, -⟩ := onPayload_other handler hbearing
    simp [hempty, hexpected, span]
  | some header =>
    obtain ⟨hfit, hbody⟩ := h header hbearing
    have hmessages :
        messagesOf payload header = (List.range' header.first header.count).map stream := by
      refine messagesOf_of_prefix (by simp [IextpHeader.count]) ?_
      rw [hbody, List.map_map]
      exact List.prefix_refl _
    have htook := onPayload_bearing handler hbearing hfit
    have hstart : header.first + (handler.expected.toNat - header.first) * 1 =
        max handler.expected.toNat header.first := by omega
    have hstop : max handler.expected.toNat header.first +
        (header.count - (handler.expected.toNat - header.first)) =
        (handler.onPayload payload).1.expected.toNat := by
      rw [htook.expected]
      omega
    rw [Option.elim_some, htook.handed, hmessages, ← List.map_drop, List.drop_range', hstart,
      numbered_range', hstop]
    exact ⟨hstop ▸ Nat.le_add_right .., rfl⟩

/-- The numbers handed over increase, from `expected` on, and each message has its own bytes. -/
theorem handed_of_stream (handler : FeedHandler bucketCount ringSize)
    (h : ∀ payload ∈ payloads, OfStream stream payload) :
    (handler.run payloads).2.handed.Pairwise (·.sequence < ·.sequence) ∧
    ∀ message ∈ (handler.run payloads).2.handed,
      handler.expected.toNat ≤ message.sequence.toNat ∧
      message.bytes = stream message.sequence.toNat := by
  induction payloads generalizing handler with
  | nil => exact ⟨.nil, nofun⟩
  | cons payload payloads ih =>
    obtain ⟨hpayload, hpayloads⟩ := List.forall_mem_cons.mp h
    obtain ⟨hsorted, hrest⟩ := ih (handler.onPayload payload).1 hpayloads
    obtain ⟨hstart, hhanded⟩ := onPayload_span handler hpayload
    have hle := expected_le_newFrom handler payload
    have hstop := (handler.onPayload payload).1.expected.toNat_lt
    rw [run_cons, handed_append, hhanded]
    refine ⟨List.pairwise_append.mpr ⟨span_sorted hstop, hsorted, ?_⟩, fun message hmem => ?_⟩
    · intro first hfirst later hlater
      rw [UInt64.lt_iff_toNat_lt]
      exact lt_of_lt_of_le (mem_span hfirst hstop).2.1 (hrest later hlater).1
    · rcases List.mem_append.mp hmem with hmem | hmem
      · exact ⟨hle.trans (mem_span hmem hstop).1, (mem_span hmem hstop).2.2⟩
      · exact ⟨hle.trans (hstart.trans (hrest message hmem).1), (hrest message hmem).2⟩

/-- Without gaps, a handler that has seen something decodes the stream from `expected` on. -/
theorem handed_eq_span (h : ∀ payload ∈ payloads, OfStream stream payload)
    (hseen : handler.expected ≠ 0) (hgap : handler.NoGap payloads) :
    handler.expected.toNat ≤ (handler.run payloads).1.expected.toNat ∧
    (handler.run payloads).2.handed =
      span stream handler.expected.toNat (handler.run payloads).1.expected.toNat := by
  induction payloads generalizing handler with
  | nil => exact ⟨le_rfl, by simp [run, span]⟩
  | cons payload payloads ih =>
    obtain ⟨hpayload, hpayloads⟩ := List.forall_mem_cons.mp h
    obtain ⟨hstart, hhanded⟩ := onPayload_span handler hpayload
    rw [newFrom_eq fun header hmem => (hgap.1 header hmem).resolve_left hseen] at hstart hhanded
    have hseen' : (handler.onPayload payload).1.expected ≠ 0 := by
      rintro hzero
      rw [hzero] at hstart
      exact hseen (UInt64.toNat_inj.mp (Nat.le_zero.mp hstart))
    obtain ⟨hmono, hrest⟩ := ih hpayloads hseen' hgap.2
    rw [run_cons, handed_append, hhanded, hrest, span_append hstart hmono]
    exact ⟨hstart.trans hmono, rfl⟩

/-- Without gaps, the stream from the first number received up to `expected` is decoded. -/
theorem fresh_handed_eq_span (h : ∀ payload ∈ payloads, OfStream stream payload)
    (hfresh : handler.expected = 0) (hgap : handler.NoGap payloads) :
    (handler.run payloads).2.handed =
      (firstNumber payloads).elim [] fun first =>
        span stream first (handler.run payloads).1.expected.toNat := by
  induction payloads generalizing handler with
  | nil => rfl
  | cons payload payloads ih =>
    obtain ⟨hpayload, hpayloads⟩ := List.forall_mem_cons.mp h
    cases hbearing : bearing payload with
    | none =>
      obtain ⟨hempty, hexpected, -⟩ := onPayload_other handler hbearing
      have hfirst : firstNumber (payload :: payloads) = firstNumber payloads := by
        simp [firstNumber, hbearing]
      rw [run_cons, handed_append, hempty, ih hpayloads (hexpected.trans hfresh) hgap.2, hfirst]
      rfl
    | some header =>
      obtain ⟨hstart, hhanded⟩ := onPayload_span handler hpayload
      have hfrom : handler.newFrom payload = header.first := by
        rw [newFrom, hbearing, hfresh]
        exact Nat.max_eq_right (Nat.zero_le _)
      have hfirst : firstNumber (payload :: payloads) = some header.first := by
        simp [firstNumber, hbearing]
      have hseen : (handler.onPayload payload).1.expected ≠ 0 := by
        have hexpected :=
          (onPayload_bearing handler hbearing (hpayload header hbearing).1).expected
        have hpos := one_le_count hbearing
        intro hzero
        rw [hzero, UInt64.toNat_zero] at hexpected
        omega
      obtain ⟨hmono, hrest⟩ := handed_eq_span hpayloads hseen hgap.2
      rw [hfrom] at hstart hhanded
      rw [run_cons, handed_append, hhanded, hrest, span_append hstart hmono, hfirst]
      rfl

/-- **Packetization independence.** Whatever packets bring a stream, the messages decoded have
increasing numbers and their own bytes, and if no packet starts beyond `expected` they are the
stream from the first number on; so two such sequences of packets that start and end at the same
numbers publish the same messages. -/
theorem packetization_independent (publisher : FeedPublisher bucketCount ringSize)
    (stream : Nat → Bytes) :
    (∀ payloads, (∀ payload ∈ payloads, OfStream stream payload) →
      let (handler, output) := (fresh publisher).run payloads
      output.handed.Pairwise (·.sequence < ·.sequence) ∧
      (∀ message ∈ output.handed, message.bytes = stream message.sequence.toNat) ∧
      ((fresh publisher).NoGap payloads → ∀ first ∈ firstNumber payloads,
        output.handed = span stream first handler.expected.toNat)) ∧
    ∀ payloads payloads',
      (∀ payload ∈ payloads, OfStream stream payload) →
      (∀ payload ∈ payloads', OfStream stream payload) →
      (fresh publisher).NoGap payloads → (fresh publisher).NoGap payloads' →
      firstNumber payloads = firstNumber payloads' →
      ((fresh publisher).run payloads).1.expected = ((fresh publisher).run payloads').1.expected →
      ((fresh publisher).run payloads).2 = ((fresh publisher).run payloads').2 := by
  constructor
  · intro payloads h
    obtain ⟨hsorted, hown⟩ := handed_of_stream (fresh publisher) h
    refine ⟨hsorted, fun message hmem => (hown message hmem).2, fun hgap first hfirst => ?_⟩
    rw [fresh_handed_eq_span h rfl hgap, hfirst]
    rfl
  · intro payloads payloads' h h' hgap hgap' hfirst hexpected
    have hhanded : ((fresh publisher).run payloads).2.handed =
        ((fresh publisher).run payloads').2.handed := by
      rw [fresh_handed_eq_span h rfl hgap, fresh_handed_eq_span h' rfl hgap', hfirst, hexpected]
    have hfit : ∀ {payloads : List Bytes}, (∀ payload ∈ payloads, OfStream stream payload) →
        ∀ payload ∈ payloads, NoOverflow payload :=
      fun h payload hmem header hbearing => (h payload hmem header hbearing).1
    have hpublished : ((fresh publisher).run payloads).2.published =
        ((fresh publisher).run payloads').2.published := by
      rw [(run_published (hfit h)).1, (run_published (hfit h')).1, hhanded]
    exact congrArg₂ Output.mk hhanded hpublished

/-- Three messages in two packets, or one of them first and then all of them behind a heartbeat. -/
theorem packetization_independent_overlap :
    let run := (fresh (FeedPublisher.init 0 (Stream'.const 0) : FeedPublisher 1 1)).run
    (run [packetBytes 6 2 1 (framed [1] ++ framed [2]), packetBytes 3 1 3 (framed [3])]).2 =
      (run [packetBytes 3 1 1 (framed [1] ++ [0xff]), packetBytes 0 0 2 [],
        packetBytes 9 3 1 (framed [1] ++ framed [2] ++ framed [3])]).2 :=
  (packetization_independent _ fun n => [UInt8.ofNat n]).2 _ _ (by decide) (by decide) (by decide)
    (by decide) (by decide) (by decide)

end FeedHandler
end MegaFeed
