import Mathlib

/-! # Reads that may leave a buffer

`Reads α` is a computation over raw memory: the value it comes to, and whether every access on the
way stayed inside its buffer. A read through a pointer never fails. Behind the end of a buffer it
returns what memory holds there (`Buffer.stray`), which nobody knows, so a result about a program is
one about every `stray`. A family of computations over it is `Steady` if all stay inside and come to
the same value. A `Span` is a pointer that goes with a length; what is read through one that is
`Within` its buffer, below that length, is part of its `elements` (`Span.Within.read_eq`). -/

structure Reads (α : Type u) where
  value : α
  inside : Bool
deriving DecidableEq

namespace Reads

instance : Monad Reads where
  pure a := ⟨a, true⟩
  bind x f := ⟨(f x.value).value, x.inside && (f x.value).inside⟩

@[simp] theorem value_pure : (pure a : Reads α).value = a := rfl
@[simp] theorem inside_pure : (pure a : Reads α).inside = true := rfl

@[simp] theorem value_bind {x : Reads α} {f : α → Reads β} : (x >>= f).value = (f x.value).value :=
  rfl

@[simp] theorem inside_bind {x : Reads α} {f : α → Reads β} :
    (x >>= f).inside = (x.inside && (f x.value).inside) := rfl

@[simp] theorem value_map {x : Reads α} {f : α → β} : (f <$> x).value = f x.value := rfl

@[simp] theorem inside_map {x : Reads α} {f : α → β} : (f <$> x).inside = x.inside :=
  Bool.and_true _

@[ext] theorem ext {x y : Reads α} (hvalue : x.value = y.value)
    (hinside : x.inside = y.inside) : x = y := by
  cases x
  cases y
  simp_all

instance : LawfulMonad Reads := .mk' Reads
  (fun x => ext rfl (Bool.and_true x.inside))
  (fun a f => ext rfl (Bool.true_and (f a).inside))
  (fun x f g => ext rfl (Bool.and_assoc x.inside (f x.value).inside (g (f x.value).value).inside))

/-! ## Steady reads -/

/-- Whatever memory holds outside, the computation stays inside and comes to `a`. -/
def Sure (x : σ → Reads α) (a : α) : Prop := ∀ stray, x stray = pure a

def Steady (x : σ → Reads α) : Prop := ∃ a, Sure x a

variable {x : σ → Reads α} {f : α → σ → Reads β}

theorem Sure.pure : Sure (fun _ : σ => (Pure.pure a : Reads α)) a := fun _ => rfl

theorem Sure.bind (hx : Sure x a) (hf : Sure (f a) b) :
    Sure (fun stray => x stray >>= fun a => f a stray) b := fun stray =>
  (congrArg (· >>= fun a => f a stray) (hx stray)).trans ((pure_bind ..).trans (hf stray))

theorem Steady.pure : Steady fun _ : σ => (Pure.pure a : Reads α) := ⟨a, .pure⟩

theorem Steady.bind (hx : Steady x) (hf : ∀ a, Sure x a → Steady (f a)) :
    Steady fun stray => x stray >>= fun a => f a stray := by
  obtain ⟨a, ha⟩ := hx
  obtain ⟨b, hb⟩ := hf a ha
  exact ⟨b, ha.bind hb⟩

theorem Steady.ite [Decidable c] {y : σ → Reads α} (hx : c → Steady x) (hy : ¬c → Steady y) :
    Steady fun stray => if c then x stray else y stray := by
  by_cases h : c
  · simpa only [if_pos h] using hx h
  · simpa only [if_neg h] using hy h

/-- What is steady in one part of memory is steady in all of it. -/
theorem Steady.comp (h : Steady x) (part : τ → σ) : Steady fun stray => x (part stray) := by
  obtain ⟨a, ha⟩ := h
  exact ⟨a, fun stray => ha (part stray)⟩

theorem Steady.inside (h : Steady x) (stray : σ) : (x stray).inside = true := by
  obtain ⟨a, ha⟩ := h
  rw [ha stray, inside_pure]

theorem Steady.value_eq (h : Steady x) (stray stray' : σ) : (x stray).value = (x stray').value := by
  obtain ⟨a, ha⟩ := h
  rw [ha stray, ha stray']

end Reads

/-- A vector, and what memory holds behind it. -/
structure Buffer (α : Type u) where
  data : List α
  stray : List α
deriving DecidableEq

namespace Buffer

/-- The `count` elements at `data() + offset`. -/
def read (buffer : Buffer α) (offset count : Nat) : Reads (List α) where
  value := ((buffer.data ++ buffer.stray).drop offset).take count
  inside := offset + count ≤ buffer.data.length

theorem read_sure {data : List α} (h : offset + count ≤ data.length) :
    Reads.Sure (fun stray => read ⟨data, stray⟩ offset count) ((data.drop offset).take count) := by
  refine fun stray => Reads.ext ?_ (decide_eq_true h)
  have hlength : count ≤ (data.drop offset).length := by rw [List.length_drop]; omega
  calc ((data ++ stray).drop offset).take count
      = (data.drop offset ++ stray).take count := by rw [List.drop_append_of_le_length (by omega)]
    _ = (data.drop offset).take count := List.take_append_of_le_length hlength

theorem value_read_of_le {data stray : List α} (h : offset + count ≤ data.length) :
    (read ⟨data, stray⟩ offset count).value = (data.drop offset).take count :=
  congrArg Reads.value (read_sure h stray)

theorem read_steady {data : List α} (h : offset + count ≤ data.length) :
    Reads.Steady fun stray => read ⟨data, stray⟩ offset count := ⟨_, read_sure h⟩

/-- A read of what lies between two parts of the vector. -/
theorem value_read {data before field behind stray : List α}
    (hdata : data = before ++ (field ++ behind))
    (hoffset : before.length = offset) (hcount : field.length = count) :
    (read ⟨data, stray⟩ offset count).value = field := by
  rw [read, hdata, ← hoffset, ← hcount, List.append_assoc, List.append_assoc, List.drop_left,
    List.take_left]

theorem length_read {buffer : Buffer α} (h : offset + count ≤ buffer.data.length) :
    (buffer.read offset count).value.length = count := by
  rw [read, List.length_take, List.length_drop, List.length_append]
  omega

end Buffer

/-- A pointer into a buffer, and the number of elements its holder is told are there. -/
structure Span (α : Type u) where
  buffer : Buffer α
  offset : Nat
  length : Nat

namespace Span

/-- The `count` elements at `pointer + offset`: inside if the length covers them and so does
the buffer. -/
def read (span : Span α) (offset count : Nat) : Reads (List α) where
  value := (span.buffer.read (span.offset + offset) count).value
  inside :=
    (span.buffer.read (span.offset + offset) count).inside && decide (offset + count ≤ span.length)

/-- `pointer + offset`, passed on with a length of its own. -/
def part (span : Span α) (offset length : Nat) : Span α :=
  { span with offset := span.offset + offset, length }

/-- The data of a buffer. -/
def whole (data stray : List α) : Span α := ⟨⟨data, stray⟩, 0, data.length⟩

/-- The buffer has what the length says. -/
def Within (span : Span α) : Prop := span.offset + span.length ≤ span.buffer.data.length

def elements (span : Span α) : List α := (span.buffer.data.drop span.offset).take span.length

variable {span : Span α} {offset length count : Nat}

theorem within_whole {data stray : List α} : (whole data stray).Within := (Nat.zero_add _).le

theorem elements_whole {data stray : List α} : (whole data stray).elements = data :=
  List.take_length ..

theorem Within.length_elements (h : span.Within) : span.elements.length = span.length := by
  rw [elements, List.length_take, List.length_drop]
  exact Nat.min_eq_left (Nat.le_sub_of_add_le' h)

/-- Below the length, the elements are read. -/
theorem Within.read_eq (h : span.Within) (hle : offset + count ≤ span.length) :
    span.read offset count = pure ((span.elements.drop offset).take count) := by
  have hinside : span.offset + offset + count ≤ span.buffer.data.length :=
    calc span.offset + offset + count = span.offset + (offset + count) := Nat.add_assoc ..
      _ ≤ span.offset + span.length := Nat.add_le_add_left hle _
      _ ≤ span.buffer.data.length := h
  have hread : span.buffer.read (span.offset + offset) count =
      pure ((span.buffer.data.drop (span.offset + offset)).take count) :=
    Buffer.read_sure hinside span.buffer.stray
  refine Reads.ext ?_ ?_
  · rw [read, hread, Reads.value_pure, elements, List.drop_take, List.drop_drop, List.take_take,
      Nat.min_eq_left (Nat.le_sub_of_add_le' hle), Reads.value_pure]
  · rw [read, hread, Reads.inside_pure, Bool.true_and, Reads.inside_pure, decide_eq_true hle]

theorem Within.part (h : span.Within) (hle : offset + length ≤ span.length) :
    (span.part offset length).Within := by
  calc span.offset + offset + length = span.offset + (offset + length) := Nat.add_assoc ..
    _ ≤ span.offset + span.length := Nat.add_le_add_left hle _
    _ ≤ span.buffer.data.length := h

theorem elements_part (hle : offset + length ≤ span.length) :
    (span.part offset length).elements = (span.elements.drop offset).take length := by
  rw [elements, elements, Span.part, List.drop_take, List.drop_drop, List.take_take,
    Nat.min_eq_left (Nat.le_sub_of_add_le' hle)]

end Span
