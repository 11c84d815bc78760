import Mathlib

/-! # Length-prefixed frames in a byte stream

A `Format` has a header of fixed length from which the length of the rest of the frame can be read.
`Format.split` cuts a stream into its complete frames and the incomplete tail. The rules: a stream
that starts with frames is split there (`split_flatten`), and splitting in two goes, the tail of the
first kept for the second, is splitting once (`split_append`), so the cut points of a stream do not
matter. `Format.splitWhile` stops for good at the first frame that fails a test, and has the same
rule (`splitWhile_append`). -/

namespace Framing

structure Format (α : Type u) where
  header : Nat
  header_pos : 0 < header
  /-- The length of the rest of a frame, read from its header. -/
  body : List α → Nat

variable {α : Type u} (F : Format α)

namespace Format

/-- The length of the frame that starts here. -/
def frameLength (bytes : List α) : Nat := F.header + F.body (bytes.take F.header)

/-- The stream starts with a complete frame. -/
def Ready (bytes : List α) : Prop := F.header ≤ bytes.length ∧ F.frameLength bytes ≤ bytes.length

instance : Decidable (F.Ready bytes) := inferInstanceAs (Decidable (_ ∧ _))

/-- A single complete frame. -/
def IsFrame (frame : List α) : Prop := F.header ≤ frame.length ∧ F.frameLength frame = frame.length

/-- The complete frames at the front of a stream, and what is left. -/
def split (bytes : List α) : List (List α) × List α :=
  if _h : F.Ready bytes then
    let (frames, tail) := split (bytes.drop (F.frameLength bytes))
    (bytes.take (F.frameLength bytes) :: frames, tail)
  else ([], bytes)
termination_by bytes.length
decreasing_by
  have := F.header_pos
  have := _h.2
  simp only [List.length_drop, frameLength] at *
  omega

variable {F}

theorem split_of_ready (h : F.Ready bytes) :
    F.split bytes = (bytes.take (F.frameLength bytes) ::
      (F.split (bytes.drop (F.frameLength bytes))).1,
      (F.split (bytes.drop (F.frameLength bytes))).2) := by
  rw [split, dif_pos h]

theorem split_of_not_ready (h : ¬F.Ready bytes) : F.split bytes = ([], bytes) := by
  rw [split, dif_neg h]

theorem frameLength_append (h : F.header ≤ bytes.length) :
    F.frameLength (bytes ++ rest) = F.frameLength bytes := by
  rw [frameLength, frameLength, List.take_append_of_le_length h]

theorem Ready.append (h : F.Ready bytes) (rest : List α) : F.Ready (bytes ++ rest) := by
  refine ⟨?_, ?_⟩
  · rw [List.length_append]
    exact Nat.le_add_right_of_le h.1
  · rw [frameLength_append h.1, List.length_append]
    exact Nat.le_add_right_of_le h.2

theorem IsFrame.ready (h : F.IsFrame frame) : F.Ready frame := ⟨h.1, h.2.le⟩

theorem isFrame_take (h : F.Ready bytes) : F.IsFrame (bytes.take (F.frameLength bytes)) := by
  have hheader : F.header ≤ F.frameLength bytes := Nat.le_add_right ..
  refine ⟨?_, ?_⟩
  · rw [List.length_take]
    exact Nat.le_min.mpr ⟨hheader, h.1⟩
  · rw [List.length_take, Nat.min_eq_left h.2, frameLength, List.take_take,
      Nat.min_eq_left hheader, frameLength]

/-- A frame at the front of a stream is what `split` takes off first. -/
theorem split_cons (h : F.IsFrame frame) :
    F.split (frame ++ rest) = (frame :: (F.split rest).1, (F.split rest).2) := by
  rw [split_of_ready (h.ready.append rest), frameLength_append h.1, h.2,
    List.take_left' rfl, List.drop_left' rfl]

theorem split_flatten {frames : List (List α)} (h : ∀ frame ∈ frames, F.IsFrame frame) :
    F.split (frames.flatten ++ rest) = (frames ++ (F.split rest).1, (F.split rest).2) := by
  induction frames with
  | nil => rfl
  | cons frame frames ih =>
    obtain ⟨hframe, hframes⟩ := List.forall_mem_cons.mp h
    rw [List.flatten_cons, List.append_assoc, split_cons hframe, ih hframes]
    rfl

/-- `split` loses nothing, and what it cuts off are frames. -/
theorem split_spec (bytes : List α) :
    (F.split bytes).1.flatten ++ (F.split bytes).2 = bytes ∧
    (∀ frame ∈ (F.split bytes).1, F.IsFrame frame) ∧ ¬F.Ready (F.split bytes).2 := by
  fun_induction F.split bytes with
  | case1 bytes h frames tail heq ih =>
    rw [heq] at ih
    obtain ⟨hall, hframes, htail⟩ := ih
    refine ⟨?_, ?_, htail⟩
    · rw [List.flatten_cons, List.append_assoc, hall, List.take_append_drop]
    · exact List.forall_mem_cons.mpr ⟨isFrame_take h, hframes⟩
  | case2 bytes h => exact ⟨rfl, nofun, h⟩

/-- The frames of a stream that arrives in two pieces. -/
theorem split_append (bytes rest : List α) :
    F.split (bytes ++ rest) = ((F.split bytes).1 ++ (F.split ((F.split bytes).2 ++ rest)).1,
      (F.split ((F.split bytes).2 ++ rest)).2) := by
  obtain ⟨hall, hframes, -⟩ := split_spec bytes (F := F)
  conv_lhs => rw [← hall, List.append_assoc, split_flatten hframes]

/-- A list of frames at the front of a stream is the front of its frames. -/
theorem prefix_split {frames : List (List α)} (h : ∀ frame ∈ frames, F.IsFrame frame)
    (hb : frames.flatten <+: bytes) : frames <+: (F.split bytes).1 := by
  obtain ⟨rest, rfl⟩ := hb
  rw [split_flatten h]
  exact List.prefix_append ..

theorem split_nil : F.split ([] : List α) = ([], []) :=
  split_of_not_ready fun h => absurd h.1 (Nat.not_le.mpr F.header_pos)

/-- What has arrived of a stream of frames splits into the first of them, and its tail is the front
of the others. -/
theorem split_prefix {frames : List (List α)} (h : ∀ frame ∈ frames, F.IsFrame frame)
    (hb : bytes ++ rest <+: frames.flatten) :
    ∃ later, frames = (F.split bytes).1 ++ later ∧ (F.split bytes).2 ++ rest <+: later.flatten := by
  have hfront : bytes <+: frames.flatten := (List.prefix_append bytes rest).trans hb
  obtain ⟨missing, hmissing⟩ := hfront
  have hall : F.split (bytes ++ missing) = (frames, []) := by
    rw [hmissing, ← List.append_nil frames.flatten, split_flatten h, split_nil, List.append_nil]
  have hframes : (F.split bytes).1 ++ (F.split ((F.split bytes).2 ++ missing)).1 = frames :=
    congrArg Prod.fst ((split_append bytes missing).symm.trans hall)
  refine ⟨_, hframes.symm, ?_⟩
  rw [← hframes, List.flatten_append] at hb
  conv at hb => lhs; rw [← (split_spec bytes (F := F)).1, List.append_assoc]
  exact (List.prefix_append_right_inj _).mp hb

/-! ## Up to the first bad frame -/

/-- The frames before the first one that is not `good`, and what is left of the stream, `none` if
there is such a frame. -/
def splitWhile (F : Format α) (good : List α → Bool) (bytes : List α) :
    List (List α) × Option (List α) :=
  let (frames, tail) := F.split bytes
  (frames.takeWhile good, if frames.all good then some tail else none)

variable {good : List α → Bool}

theorem splitWhile_of_not_ready (h : ¬F.Ready bytes) :
    F.splitWhile good bytes = ([], some bytes) := by
  rw [splitWhile, split_of_not_ready h]
  rfl

theorem splitWhile_of_bad (h : F.Ready bytes)
    (hbad : good (bytes.take (F.frameLength bytes)) = false) :
    F.splitWhile good bytes = ([], none) := by
  rw [splitWhile, split_of_ready h]
  simp [hbad]

theorem splitWhile_of_good (h : F.Ready bytes)
    (hgood : good (bytes.take (F.frameLength bytes)) = true) :
    F.splitWhile good bytes = (bytes.take (F.frameLength bytes) ::
      (F.splitWhile good (bytes.drop (F.frameLength bytes))).1,
      (F.splitWhile good (bytes.drop (F.frameLength bytes))).2) := by
  rw [splitWhile, split_of_ready h]
  simp [splitWhile, hgood]

/-- What is left over does not start with a frame. -/
theorem not_ready_of_splitWhile (h : (F.splitWhile good bytes).2 = some tail) : ¬F.Ready tail := by
  rw [splitWhile] at h
  dsimp only at h
  split at h
  · cases h
    exact (split_spec bytes).2.2
  · cases h

/-- A stream that arrives in two pieces: a bad frame in the first ends it, and otherwise its tail is
kept for the second. -/
theorem splitWhile_append (bytes rest : List α) :
    F.splitWhile good (bytes ++ rest) =
      match F.splitWhile good bytes with
      | (frames, none) => (frames, none)
      | (frames, some tail) =>
        (frames ++ (F.splitWhile good (tail ++ rest)).1, (F.splitWhile good (tail ++ rest)).2) := by
  simp only [splitWhile, split_append bytes rest]
  generalize (F.split bytes).1 = frames
  generalize (F.split bytes).2 = tail
  cases hall : frames.all good with
  | true =>
    have hself : frames.takeWhile good = frames :=
      List.takeWhile_eq_self_iff.mpr (List.all_eq_true.mp hall)
    rw [List.takeWhile_append_of_pos (List.all_eq_true.mp hall), List.all_append, hall,
      Bool.true_and, hself, if_pos rfl]
  | false =>
    have hshort : (frames.takeWhile good).length ≠ frames.length := by
      intro hlength
      have hself := (List.takeWhile_prefix good).eq_of_length hlength
      rw [List.takeWhile_eq_self_iff, ← List.all_eq_true, hall] at hself
      cases hself
    rw [List.takeWhile_append, if_neg hshort, List.all_append, hall]
    rfl

end Format
end Framing
