import Homework.Library.ByteBuffer
import Homework.Library.CString

/-!
# Strings in buffers of fixed size

The string functions of C write into buffers whose size they do not know. Here every write is
checked: one at an index outside the buffer is a fault. A buffer that was zero from some index on
and has only been written by `strncat` is `filled` with its content, the bytes of its string, with
zeros behind. Appending to it appends to the content as long as there is room for the terminator
(`strncat_filled`), and is a fault at the end of the buffer otherwise (`strncat_filled_of_le`).
-/

set_option autoImplicit false
set_option relaxedAutoImplicit false

namespace Homework.Library.StringBuffer

open ByteBuffer CString

/-! ### Checked writes -/

/-- The checked write of one byte. -/
def writeByte (buffer : List UInt8) (index : ℕ) (value : UInt8) : Except Fault (List UInt8) :=
  if index < buffer.length then .ok (buffer.set index value) else .error (.outside index)

/-- Checked writes of bytes from an index on. -/
def writeBytes (buffer : List UInt8) (index : ℕ) : List UInt8 → Except Fault (List UInt8)
  | [] => .ok buffer
  | value :: rest => do
    let next ← writeByte buffer index value
    writeBytes next (index + 1) rest

/-- `strlen`, which reads outside a buffer without a zero. -/
def strlen (buffer : List UInt8) : Except Fault ℕ :=
  if 0 ∈ buffer then .ok (cString buffer).length else .error (.outside buffer.length)

/-- `strncat(buffer, source, count)`. Assumes: `source` holds `count` bytes, or a zero. -/
def strncat (buffer source : List UInt8) (count : ℕ) : Except Fault (List UInt8) := do
  let length ← strlen buffer
  writeBytes buffer length (cString (source.take count) ++ [0])

/-- `strcpy(buffer, text)`. -/
def strcpy (buffer text : List UInt8) : Except Fault (List UInt8) :=
  writeBytes buffer 0 (text ++ [0])

/-- `strcat(buffer, text)`. -/
def strcat (buffer text : List UInt8) : Except Fault (List UInt8) := do
  let length ← strlen buffer
  writeBytes buffer length (text ++ [0])

theorem writeBytes_append (front : List UInt8) {hole bytes : List UInt8}
    (hhole : hole.length = bytes.length) (back : List UInt8) :
    writeBytes (front ++ (hole ++ back)) front.length bytes =
      .ok (front ++ (bytes ++ back)) := by
  induction bytes generalizing front hole with
  | nil =>
    rw [List.length_eq_zero_iff.mp hhole]
    rfl
  | cons value rest ih =>
    obtain ⟨old, tail, rfl⟩ := List.exists_cons_of_length_eq_add_one hhole
    have hindex : front.length < (front ++ (old :: tail ++ back)).length := by
      rw [List.length_append, List.length_append, List.length_cons]
      omega
    have hset : (front ++ (old :: tail ++ back)).set front.length value =
        (front ++ [value]) ++ (tail ++ back) := by
      rw [List.set_append_right _ _ le_rfl, Nat.sub_self, List.append_assoc]
      rfl
    have hlength : front.length + 1 = (front ++ [value]).length := by rw [List.length_append]; rfl
    rw [writeBytes, writeByte, if_pos hindex, ok_bind, hset, hlength,
      ih (front ++ [value]) (Nat.succ.inj hhole), List.append_assoc]
    rfl

/-- Writes that go past the end stop there. -/
theorem writeBytes_of_lt {buffer bytes : List UInt8} {index : ℕ} (hindex : index ≤ buffer.length)
    (hlength : buffer.length < index + bytes.length) :
    writeBytes buffer index bytes = .error (.outside buffer.length) := by
  induction bytes generalizing buffer index with
  | nil => exact absurd hlength (not_lt.mpr hindex)
  | cons value rest ih =>
    rw [List.length_cons] at hlength
    rw [writeBytes, writeByte]
    rcases hindex.lt_or_eq with hinside | hend
    · rw [if_pos hinside, ok_bind, ih, List.length_set]
      · rw [List.length_set]
        exact hinside
      · rw [List.length_set]
        omega
    · rw [if_neg (not_lt.mpr hend.ge), error_bind, hend]

/-- A text copied to the front of a buffer. -/
theorem strcpy_eq {buffer text : List UInt8} (hfits : text.length < buffer.length) :
    strcpy buffer text = .ok (text ++ 0 :: buffer.drop (text.length + 1)) := by
  have hlength : (text ++ [0]).length = text.length + 1 := List.length_append
  have hhole : (buffer.take (text ++ [0]).length).length = (text ++ [0]).length := by
    rw [List.length_take_of_le]
    rw [hlength]
    exact hfits
  have hwrite := writeBytes_append [] hhole (buffer.drop (text ++ [0]).length)
  rw [List.take_append_drop, List.nil_append, List.nil_append, hlength, List.append_assoc] at hwrite
  exact hwrite

/-- A text appended to a string. -/
theorem strcat_eq {text more rest : List UInt8} (htext : (0 : UInt8) ∉ text)
    (hfits : more.length ≤ rest.length) :
    strcat (text ++ 0 :: rest) more = .ok (text ++ more ++ 0 :: rest.drop more.length) := by
  have hzero : (0 : UInt8) ∈ text ++ 0 :: rest := List.mem_append_right _ List.mem_cons_self
  have hlength : (more ++ [0]).length = more.length + 1 := List.length_append
  have hhole : (0 :: rest.take more.length).length = (more ++ [0]).length := by
    rw [hlength, List.length_cons, List.length_take_of_le hfits]
  have hwrite := writeBytes_append text hhole (rest.drop more.length)
  rw [List.cons_append, List.take_append_drop] at hwrite
  rw [strcat, strlen, if_pos hzero, ok_bind, cString_append_zero htext, hwrite]
  simp only [List.append_assoc, List.cons_append, List.nil_append]

/-! ### Filled buffers -/

/-- A buffer with some content and zeros behind. -/
def filled (size : ℕ) (content : List UInt8) : List UInt8 :=
  content ++ List.replicate (size - content.length) 0

section Filled

variable {size : ℕ} {content : List UInt8}

theorem length_filled (hsize : content.length ≤ size) : (filled size content).length = size := by
  rw [filled, List.length_append, List.length_replicate, Nat.add_sub_of_le hsize]

/-- Where the content ends there is a zero. -/
theorem filled_eq (hsize : content.length < size) :
    filled size content = content ++ 0 :: List.replicate (size - content.length - 1) 0 := by
  have hroom : size - content.length = size - content.length - 1 + 1 := by omega
  rw [filled, hroom, List.replicate_succ, Nat.add_sub_cancel]

theorem cString_filled (hcontent : (0 : UInt8) ∉ content) (hsize : content.length < size) :
    cString (filled size content) = content := by
  rw [filled_eq hsize, cString_append_zero hcontent]

theorem strlen_filled (hcontent : (0 : UInt8) ∉ content) (hsize : content.length < size) :
    strlen (filled size content) = .ok content.length := by
  have hzero : (0 : UInt8) ∈ filled size content := by
    rw [filled_eq hsize]
    exact List.mem_append_right _ List.mem_cons_self
  rw [strlen, if_pos hzero, cString_filled hcontent hsize]

/-- The first bytes of a filled buffer, from the content on. -/
theorem take_filled {count : ℕ} (hcontent : content.length ≤ count) (hcount : count ≤ size) :
    (filled size content).take count =
      content ++ List.replicate (count - content.length) 0 := by
  rw [filled, List.take_append, List.take_of_length_le hcontent, List.take_replicate,
    min_eq_left (Nat.sub_le_sub_right hcount _)]

/-- Text and its terminator behind the content. -/
theorem writeBytes_filled {text : List UInt8} (hsize : (content ++ text).length < size) :
    writeBytes (filled size content) content.length (text ++ [0]) =
      .ok (filled size (content ++ text)) := by
  have hsum : content.length + text.length < size := by rwa [List.length_append] at hsize
  have hsplit : filled size content =
      content ++ (List.replicate (text ++ [0]).length 0 ++
        List.replicate (size - (content ++ text).length - 1) 0) := by
    rw [filled, List.replicate_append_replicate, List.length_append, List.length_append,
      List.length_singleton]
    congr 2
    omega
  rw [hsplit, writeBytes_append _ List.length_replicate, filled_eq hsize]
  simp only [List.append_assoc, List.cons_append, List.nil_append]

variable (hcontent : (0 : UInt8) ∉ content) (hsize : content.length < size)

include hcontent hsize

/-- Appending text that fits. -/
theorem strncat_filled {source : List UInt8} {count : ℕ}
    (hfits : (content ++ cString (source.take count)).length < size) :
    strncat (filled size content) source count =
      .ok (filled size (content ++ cString (source.take count))) := by
  rw [strncat, strlen_filled hcontent hsize, ok_bind, writeBytes_filled hfits]

/-- Appending text that does not fit. -/
theorem strncat_filled_of_le {source : List UInt8} {count : ℕ}
    (hfull : size ≤ (content ++ cString (source.take count)).length) :
    strncat (filled size content) source count = .error (.outside size) := by
  have hlength : (filled size content).length = size := length_filled hsize.le
  rw [List.length_append] at hfull
  rw [strncat, strlen_filled hcontent hsize, ok_bind, writeBytes_of_lt, hlength]
  · rw [hlength]
    exact hsize.le
  · rw [hlength, List.length_append, List.length_singleton]
    omega

end Filled

/-- A zero written behind the content changes nothing. -/
theorem writeByte_filled {size index : ℕ} {content : List UInt8} (hcontent : content.length ≤ index)
    (hindex : index < size) : writeByte (filled size content) index 0 =
      .ok (filled size content) := by
  have hlength : (filled size content).length = size := length_filled (hcontent.trans hindex.le)
  rw [writeByte, if_pos (hlength.symm ▸ hindex)]
  congr 1
  rw [filled, List.set_append_right _ _ hcontent]
  congr 1
  apply List.ext_getElem
  · rw [List.length_set]
  · intro i hi hi'
    rw [List.getElem_set, List.getElem_replicate]
    split
    · rfl
    · rfl

end Homework.Library.StringBuffer
