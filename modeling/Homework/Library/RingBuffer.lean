import Mathlib.Data.List.Basic
import Mathlib.Data.List.Range
import Mathlib.Logic.Function.Basic

/-!
# Ring buffers

A ring buffer keeps a queue in a cyclic array: the elements stand from `tail` up to, and without,
`head`. One cell stays free, so that an empty buffer, with `head = tail`, and a full one, with
`head` just behind `tail`, are told apart.

On well-formed buffers, where both indices are inside the array, the operations are those of a
bounded queue: the buffer is empty when the queue is (`contents_eq_nil_iff`), full when the queue
has one element less than the array has cells (`isFull_iff`), `push` appends an element
(`contents_push`) and `pop` removes the first one (`contents_eq_cons`).

Two loops are built from them: `pushAll` pushes elements until the buffer is full, which appends the
longest prefix that fits (`contents_pushAll`), and `popMany` pops elements until the buffer is empty
or a number is reached, which removes a prefix of the queue (`popMany_eq`).
-/

set_option autoImplicit false
set_option relaxedAutoImplicit false

namespace Homework.Library

variable {α : Type*}

/-- A ring buffer. The cells are the memory from the start of the array on. -/
structure RingBuffer (α : Type*) where
  cells : ℕ → α
  head : ℕ
  tail : ℕ

namespace RingBuffer

/-! ### The operations -/

section Operations

variable (size : ℕ)

/-- The buffer is full: another element would make `head` meet `tail`. -/
def IsFull (ring : RingBuffer α) : Prop := (ring.head + 1) % size = ring.tail

/-- The buffer is empty. -/
def IsEmpty (ring : RingBuffer α) : Prop := ring.head = ring.tail

instance (ring : RingBuffer α) : Decidable (ring.IsFull size) :=
  inferInstanceAs (Decidable ((ring.head + 1) % size = ring.tail))

instance (ring : RingBuffer α) : Decidable ring.IsEmpty :=
  inferInstanceAs (Decidable (ring.head = ring.tail))

/-- Writes an element at `head` and moves `head` on. -/
def push (ring : RingBuffer α) (element : α) : RingBuffer α :=
  { ring with
    cells := Function.update ring.cells ring.head element
    head := (ring.head + 1) % size }

/-- The element at `tail`. -/
def front (ring : RingBuffer α) : α := ring.cells ring.tail

/-- Moves `tail` on. -/
def pop (ring : RingBuffer α) : RingBuffer α :=
  { ring with tail := (ring.tail + 1) % size }

/-- The number of elements from `tail` to `head`. -/
def count (ring : RingBuffer α) : ℕ :=
  if ring.tail ≤ ring.head then ring.head - ring.tail else ring.head + size - ring.tail

/-- The queue: the elements from `tail` to `head`, cyclically. -/
def contents (ring : RingBuffer α) : List α :=
  (List.range (ring.count size)).map fun place ↦ ring.cells ((ring.tail + place) % size)

/-- Both indices are inside the array. -/
structure WellFormed (ring : RingBuffer α) : Prop where
  head_lt : ring.head < size
  tail_lt : ring.tail < size

end Operations

/-! ### The operations on the queue -/

section Queue

variable {size : ℕ}

/-- An index that has gone at most once around the array. -/
theorem mod_eq_ite {index : ℕ} (hindex : index < size + size) :
    index % size = if index < size then index else index - size := by
  split_ifs with hlt
  · exact Nat.mod_eq_of_lt hlt
  · have hle : size ≤ index := Nat.le_of_not_lt hlt
    rw [Nat.mod_eq_sub_mod hle]
    exact Nat.mod_eq_of_lt (Nat.sub_lt_left_of_lt_add hle hindex)

@[simp] theorem length_contents (ring : RingBuffer α) :
    (ring.contents size).length = ring.count size := by
  rw [contents, List.length_map, List.length_range]

namespace WellFormed

variable {ring : RingBuffer α} (hring : ring.WellFormed size)
include hring

theorem count_lt : ring.count size < size := by
  have hhead := hring.head_lt
  have htail := hring.tail_lt
  unfold count
  split_ifs <;> omega

theorem push (element : α) : (ring.push size element).WellFormed size :=
  ⟨Nat.mod_lt _ (Nat.zero_lt_of_lt hring.head_lt), hring.tail_lt⟩

theorem pop : (ring.pop size).WellFormed size :=
  ⟨hring.head_lt, Nat.mod_lt _ (Nat.zero_lt_of_lt hring.head_lt)⟩

theorem isEmpty_iff : ring.IsEmpty ↔ ring.count size = 0 := by
  have htail := hring.tail_lt
  unfold IsEmpty count
  split_ifs <;> omega

/-- The buffer is full exactly when one cell is free. -/
theorem isFull_iff : ring.IsFull size ↔ ring.count size + 1 = size := by
  have hhead := hring.head_lt
  have htail := hring.tail_lt
  have hnext : (ring.head + 1) % size =
      if ring.head + 1 < size then ring.head + 1 else ring.head + 1 - size :=
    mod_eq_ite (by omega)
  unfold IsFull count
  rw [hnext]
  split_ifs <;> omega

/-- The buffer is empty exactly when the queue is. -/
theorem contents_eq_nil_iff : ring.contents size = [] ↔ ring.IsEmpty := by
  rw [hring.isEmpty_iff, ← List.length_eq_zero_iff, length_contents]

/-- Pushing onto a buffer that is not full counts one element more. -/
theorem count_push (element : α) (hfull : ¬ ring.IsFull size) :
    (ring.push size element).count size = ring.count size + 1 := by
  have hhead := hring.head_lt
  have htail := hring.tail_lt
  have hnext : (ring.head + 1) % size =
      if ring.head + 1 < size then ring.head + 1 else ring.head + 1 - size :=
    mod_eq_ite (by omega)
  rw [hring.isFull_iff] at hfull
  simp only [count, RingBuffer.push, hnext] at hfull ⊢
  split_ifs at hfull ⊢ <;> omega

/-- The place behind the queue is `head`, and no place in the queue is. -/
theorem place_eq_head_iff {place : ℕ} (hplace : place ≤ ring.count size) :
    (ring.tail + place) % size = ring.head ↔ place = ring.count size := by
  have hhead := hring.head_lt
  have htail := hring.tail_lt
  have hcount := hring.count_lt
  rw [mod_eq_ite (by omega)]
  unfold count at *
  split_ifs at * <;> omega

/-- Pushing onto a buffer that is not full appends to the queue. -/
theorem contents_push (element : α) (hfull : ¬ ring.IsFull size) :
    (ring.push size element).contents size = ring.contents size ++ [element] := by
  have hlast : (ring.tail + ring.count size) % size = ring.head :=
    (hring.place_eq_head_iff (Nat.le_refl _)).mpr rfl
  rw [contents, hring.count_push element hfull, List.range_succ, List.map_append,
    List.map_singleton, contents]
  congr 1
  · refine List.map_congr_left fun place hplace ↦ ?_
    have hlt := List.mem_range.mp hplace
    have hne : (ring.tail + place) % size ≠ ring.head := fun heq ↦
      absurd ((hring.place_eq_head_iff hlt.le).mp heq) hlt.ne
    exact Function.update_of_ne hne element ring.cells
  · show [Function.update ring.cells ring.head element ((ring.tail + ring.count size) % size)] =
      [element]
    rw [hlast, Function.update_self]

/-- Popping from a buffer that is not empty counts one element less. -/
theorem count_pop (hempty : ¬ ring.IsEmpty) :
    ring.count size = (ring.pop size).count size + 1 := by
  have hhead := hring.head_lt
  have htail := hring.tail_lt
  have hnext : (ring.tail + 1) % size =
      if ring.tail + 1 < size then ring.tail + 1 else ring.tail + 1 - size :=
    mod_eq_ite (by omega)
  unfold IsEmpty at hempty
  simp only [count, RingBuffer.pop, hnext]
  split_ifs <;> omega

/-- Popping from a buffer that is not empty removes the first element, the one at `tail`. -/
theorem contents_eq_cons (hempty : ¬ ring.IsEmpty) :
    ring.contents size = ring.front :: (ring.pop size).contents size := by
  have htail := hring.tail_lt
  rw [contents, hring.count_pop hempty, List.range_succ_eq_map, List.map_cons, List.map_map,
    Nat.add_zero, Nat.mod_eq_of_lt htail, contents]
  congr 1
  refine List.map_congr_left fun place _ ↦ ?_
  show ring.cells ((ring.tail + (place + 1)) % size) =
    ring.cells (((ring.tail + 1) % size + place) % size)
  rw [Nat.mod_add_mod, Nat.add_assoc, Nat.add_comm place]

end WellFormed

end Queue

/-! ### Pushing and popping many -/

section Loops

variable (size : ℕ)

/-- Pushes elements in order until the buffer is full. Gives the number pushed. -/
def pushAll : List α → RingBuffer α → ℕ × RingBuffer α
  | [], ring => (0, ring)
  | element :: rest, ring =>
    if ring.IsFull size then (0, ring)
    else ((pushAll rest (ring.push size element)).1 + 1, (pushAll rest (ring.push size element)).2)

/-- Pops at most a number of elements, until the buffer is empty. Gives the elements popped. -/
def popMany : ℕ → RingBuffer α → List α × RingBuffer α
  | 0, ring => ([], ring)
  | limit + 1, ring =>
    if ring.IsEmpty then ([], ring)
    else (ring.front :: (popMany limit (ring.pop size)).1, (popMany limit (ring.pop size)).2)

variable {size}

namespace WellFormed

variable {ring : RingBuffer α} (hring : ring.WellFormed size)
include hring

/-- Pushing elements until the buffer is full pushes as many as leave one cell free, and appends
them to the queue. -/
theorem pushAll (elements : List α) :
    (pushAll size elements ring).2.WellFormed size ∧
      (pushAll size elements ring).1 = min elements.length (size - 1 - ring.count size) ∧
      (pushAll size elements ring).2.contents size =
        ring.contents size ++ elements.take (size - 1 - ring.count size) := by
  induction elements generalizing ring with
  | nil =>
    rw [List.take_nil, List.append_nil]
    exact ⟨hring, (Nat.zero_min _).symm, rfl⟩
  | cons element rest ih =>
    rw [RingBuffer.pushAll]
    split_ifs with hfull
    · have hroom : size - 1 - ring.count size = 0 := by
        have hcount := hring.isFull_iff.mp hfull
        omega
      rw [hroom, Nat.min_zero, List.take_zero, List.append_nil]
      exact ⟨hring, rfl, rfl⟩
    · obtain ⟨hwell, hnumber, hcontents⟩ := ih (hring.push element)
      have hcount := hring.count_lt
      have hroom : size - 1 - ring.count size =
          size - 1 - (ring.push size element).count size + 1 := by
        have hne := mt hring.isFull_iff.mpr hfull
        rw [hring.count_push element hfull]
        omega
      rw [hring.contents_push element hfull, List.append_assoc] at hcontents
      refine ⟨hwell, ?_, ?_⟩
      · show (RingBuffer.pushAll size rest (ring.push size element)).1 + 1 = _
        rw [hnumber, hroom, List.length_cons, Nat.succ_min_succ]
      · rw [hroom, List.take_succ_cons]
        exact hcontents

/-- Popping until the buffer is empty or a number is reached removes that prefix of the queue. -/
theorem popMany (limit : ℕ) :
    (popMany size limit ring).2.WellFormed size ∧
      (popMany size limit ring).1 = (ring.contents size).take limit ∧
      (popMany size limit ring).2.contents size = (ring.contents size).drop limit := by
  induction limit generalizing ring with
  | zero => exact ⟨hring, rfl, rfl⟩
  | succ limit ih =>
    rw [RingBuffer.popMany]
    split_ifs with hempty
    · rw [hring.contents_eq_nil_iff.mpr hempty]
      exact ⟨hring, rfl, rfl⟩
    · obtain ⟨hwell, helements, hcontents⟩ := ih hring.pop
      rw [hring.contents_eq_cons hempty, List.take_succ_cons, List.drop_succ_cons, ← helements]
      exact ⟨hwell, rfl, hcontents⟩

end WellFormed

end Loops

end RingBuffer

end Homework.Library
