import Homework.Library.ByteBuffer
import Homework.Library.CString

/-!
# Memory that may not have been written

A cell of an array that was never written holds no byte, and to read it is a fault. A text that was
written with its terminator reads back as it is (`readString_written`), whatever the cells behind
it hold.

An array that is written from its start on holds some content and was never written behind it
(`begun`). Writing behind the content extends it (`write_begun`), and moving the array to a larger
place keeps it (`resize_begun`). An `Allocator` says which requests for memory succeed.
-/

set_option autoImplicit false
set_option relaxedAutoImplicit false

namespace Homework.Library.Cells

open ByteBuffer CString

/-- A write or a read outside an array of some size, or the read of a cell that was never
written. -/
inductive CellFault where
  | outside (size : ℕ)
  | unwritten
deriving DecidableEq, Repr

/-- An array: each of its cells holds a byte or was never written. -/
abbrev CellArray := List (Option UInt8)

/-- An array that was never written. -/
def fresh (size : ℕ) : CellArray := List.replicate size none

/-- Bytes written from an index on. -/
def write (cells : CellArray) (index : ℕ) (bytes : List UInt8) : Except CellFault CellArray :=
  if index + bytes.length ≤ cells.length then
    .ok (cells.take index ++ (bytes.map some ++ cells.drop (index + bytes.length)))
  else .error (.outside cells.length)

/-- The string that starts an array, read up to its terminator. -/
def readString : CellArray → Except CellFault (List UInt8)
  | [] => .error (.outside 0)
  | none :: _ => .error .unwritten
  | some byte :: rest =>
    if byte = 0 then .ok []
    else do
      let text ← readString rest
      return byte :: text

/-- All the bytes of an array. -/
def readAll (cells : CellArray) : Except CellFault (List UInt8) :=
  cells.mapM fun cell ↦ cell.elim (.error .unwritten) .ok

/-- The array that `realloc` gives: what fits keeps its values, and the rest was never written. -/
def resize (cells : CellArray) (size : ℕ) : CellArray :=
  cells.take size ++ fresh (size - cells.length)

/-- Which requests for memory succeed: none for more than `PTRDIFF_MAX` bytes. -/
structure Allocator where
  grants : ℕ → Bool
  lt_of_grants : ∀ size, grants size = true → size < 2 ^ 63

/-- Every request for less than 2⁶³ bytes succeeds. -/
def generous : Allocator where
  grants := fun size ↦ decide (size < 2 ^ 63)
  lt_of_grants := fun _ hgrants ↦ of_decide_eq_true hgrants

theorem readAll_map_some (bytes : List UInt8) : readAll (bytes.map some) = .ok bytes := by
  induction bytes with
  | nil => rfl
  | cons byte rest ih =>
    unfold readAll at ih ⊢
    rw [List.map_cons, List.mapM_cons, ih]
    rfl

/-- Bytes written behind some content keep the content. -/
theorem write_of_take {cells : CellArray} {content bytes : List UInt8}
    (htake : cells.take content.length = content.map some)
    (hfits : content.length + bytes.length ≤ cells.length) :
    write cells content.length bytes =
      .ok ((content ++ bytes).map some ++ cells.drop (content.length + bytes.length)) := by
  rw [write, if_pos hfits, htake, List.map_append, List.append_assoc]

/-- A text and then its terminator, written behind some content up to the end of an array. -/
theorem write_string {cells : CellArray} {content text : List UInt8}
    (htake : cells.take content.length = content.map some)
    (hlength : cells.length = (content ++ text).length + 1) :
    ∃ middle, write cells content.length text = .ok middle ∧
      write middle (content ++ text).length [0] = .ok ((content ++ text ++ [0]).map some) := by
  rw [List.length_append] at hlength
  refine ⟨_, write_of_take htake (by omega), ?_⟩
  rw [write_of_take (List.take_left' (List.length_map _)), List.drop_of_length_le, List.append_nil]
  · simp only [List.length_append, List.length_map, List.length_drop, List.length_singleton]
    omega
  · simp only [List.length_append, List.length_map, List.length_drop, List.length_singleton]
    omega

theorem length_resize (cells : CellArray) (size : ℕ) : (resize cells size).length = size := by
  rw [resize, List.length_append, List.length_take, fresh, List.length_replicate]
  omega

theorem take_resize {cells : CellArray} {count size : ℕ} (hcells : count ≤ cells.length)
    (hsize : count ≤ size) : (resize cells size).take count = cells.take count := by
  have hcount : count ≤ (cells.take size).length := by
    rw [List.length_take]
    exact le_min hsize hcells
  rw [resize, List.take_append_of_le_length hcount, List.take_take, min_eq_left hsize]

/-- An array that was written from its start on. -/
def begun (size : ℕ) (content : List UInt8) : CellArray :=
  content.map some ++ fresh (size - content.length)

section Begun

variable {size : ℕ} {content : List UInt8}

theorem length_begun (hsize : content.length ≤ size) : (begun size content).length = size := by
  rw [begun, List.length_append, List.length_map, fresh, List.length_replicate,
    Nat.add_sub_of_le hsize]

theorem take_begun (size : ℕ) (content : List UInt8) :
    (begun size content).take content.length = content.map some :=
  List.take_left' (List.length_map _)

/-- Bytes written behind the content. -/
theorem write_begun {bytes : List UInt8} (hfits : content.length + bytes.length ≤ size) :
    write (begun size content) content.length bytes = .ok (begun size (content ++ bytes)) := by
  have hlength : (begun size content).length = size := length_begun (by omega)
  have hdrop : (begun size content).drop (content.length + bytes.length) =
      fresh (size - (content ++ bytes).length) := by
    rw [← List.drop_drop, begun, List.drop_left' (List.length_map _), fresh, List.drop_replicate,
      List.length_append, Nat.sub_sub]
    rfl
  rw [write_of_take (take_begun size content) (hlength.symm ▸ hfits), hdrop]
  rfl

/-- A larger place for the array. -/
theorem resize_begun {larger : ℕ} (hsize : content.length ≤ size) (hlarger : size ≤ larger) :
    resize (begun size content) larger = begun larger content := by
  have hlength : (begun size content).length = size := length_begun hsize
  rw [resize, hlength, List.take_of_length_le (hlength.trans_le hlarger), begun, begun,
    List.append_assoc, fresh, fresh, fresh, List.replicate_append_replicate]
  congr 3
  omega

end Begun

/-- A text with its terminator, written to the front of an array that was never written. -/
theorem write_fresh {size : ℕ} {text : List UInt8} (hsize : text.length < size) :
    write (fresh size) 0 (text ++ [0]) =
      .ok ((text ++ [0]).map some ++ fresh (size - (text.length + 1))) := by
  have hfits : ([] : List UInt8).length + (text ++ [0]).length ≤ size := by
    rw [List.length_append, List.length_singleton, List.length_nil]
    omega
  have hwrite := write_begun hfits
  rw [List.nil_append, begun, begun, List.length_append] at hwrite
  exact hwrite

theorem write_fresh_of_le {size : ℕ} {text : List UInt8} (hsize : size ≤ text.length) :
    write (fresh size) 0 (text ++ [0]) = .error (.outside size) := by
  have hfull : ¬0 + (text ++ [0]).length ≤ (fresh size).length := by
    rw [List.length_append, List.length_singleton, fresh, List.length_replicate]
    omega
  rw [write, if_neg hfull, fresh, List.length_replicate]

/-- What was written reads back up to its first zero. -/
theorem readString_eq_cString (text : List UInt8) (rest : CellArray) :
    readString ((text ++ [0]).map some ++ rest) = .ok (cString text) := by
  induction text with
  | nil => rfl
  | cons byte text ih =>
    rw [List.cons_append, List.map_cons, List.cons_append, readString, cString,
      List.takeWhile_cons]
    by_cases hbyte : byte = 0
    · rw [if_pos hbyte, if_neg (by simp [hbyte])]
    · rw [if_neg hbyte, if_pos (decide_eq_true hbyte), ih]
      rfl

/-- A text that was written reads back. -/
theorem readString_written {text : List UInt8} (htext : (0 : UInt8) ∉ text) (rest : CellArray) :
    readString ((text ++ [0]).map some ++ rest) = .ok text := by
  rw [readString_eq_cString, cString_eq_self htext]

/-- A text that is written to a new array reads back as another one exactly when it fits and is the
other one. -/
theorem exists_write_fresh_iff {size : ℕ} {text expected : List UInt8}
    (htext : (0 : UInt8) ∉ text) :
    (∃ cells, write (fresh size) 0 (text ++ [0]) = .ok cells ∧ readString cells = .ok expected) ↔
      text.length < size ∧ text = expected := by
  by_cases hsize : text.length < size
  · rw [write_fresh hsize, and_iff_right hsize]
    have hread := readString_written htext (fresh (size - (text.length + 1)))
    constructor
    · rintro ⟨cells, hcells, hexpected⟩
      obtain rfl := Except.ok.inj hcells
      exact Except.ok.inj (hread.symm.trans hexpected)
    · rintro rfl
      exact ⟨_, rfl, hread⟩
  · rw [write_fresh_of_le (not_lt.mp hsize)]
    exact iff_of_false (fun ⟨_, hcells, _⟩ ↦ absurd hcells nofun) fun hfits ↦ hsize hfits.1

end Homework.Library.Cells
