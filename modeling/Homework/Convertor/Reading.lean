import Homework.Library.StringBuffer

/-!
# Reading from the telnet server

`read_msg` reads into a buffer of 2048 bytes again and again, prints the string that starts the
buffer each time, and stops when this string ends with a dot. The buffer is cleared once, so that
what a `read` gets is laid over what the earlier ones left, and the number of bytes it got is not
looked at. An index outside the buffer is a fault.

The results of the `read` calls are given as a list. When all of them are used up, the loop waits
for the next one.
-/

set_option autoImplicit false
set_option relaxedAutoImplicit false

namespace Homework.Convertor

open Homework.Library.ByteBuffer Homework.Library.CString Homework.Library.StringBuffer

def bufSize : ℕ := 2048

/-- The data of one `read`. -/
structure Chunk where
  bytes : List UInt8
  pos : 0 < bytes.length
  le : bytes.length ≤ bufSize

/-- What `read` returns: data, 0 after the peer has closed the connection, or -1. -/
inductive ReadResult where
  | data (chunk : Chunk)
  | closed
  | failed

/-- How far the loop of `read_msg` has come: what it has printed, and, if it has returned, the
results of `read` that it has not asked for. -/
inductive Reading where
  | waiting (printed : List UInt8)
  | returned (printed : List UInt8) (rest : List ReadResult)

/-- A reading that goes on after some text has been printed. -/
def Reading.after (text : List UInt8) : Reading → Reading
  | .waiting printed => .waiting (text ++ printed)
  | .returned printed rest => .returned (text ++ printed) rest

/-- Bytes laid over the front of a buffer. -/
def laidOver (buffer bytes : List UInt8) : List UInt8 := bytes ++ buffer.drop bytes.length

/-- The buffer after a `read`. -/
def received (buffer : List UInt8) : ReadResult → List UInt8
  | .data chunk => laidOver buffer chunk.bytes
  | .closed => buffer
  | .failed => buffer

def dot : UInt8 := 46

def newline : UInt8 := 10

/-- The loop of `read_msg`. -/
def readLoop (print : Bool) (buffer : List UInt8) : List ReadResult → Except Fault Reading
  | [] => .ok (.waiting [])
  | result :: rest => do
    let buffer := received buffer result
    let length ← strlen buffer
    let idx : ℤ := length - 1
    let text := if print then cString buffer else []
    let last ← readByte buffer idx
    if last = dot then return .returned text rest
    else
      let reading ← readLoop print buffer rest
      return reading.after text

/-- What `read_msg` prints behind the loop. -/
def Reading.finish (print : Bool) : Reading → Reading
  | .waiting printed => .waiting printed
  | .returned printed rest => .returned (printed ++ if print then [newline] else []) rest

/-- `read_msg`. -/
def readMsg (print : Bool) (results : List ReadResult) : Except Fault Reading := do
  let reading ← readLoop print (filled bufSize []) results
  return reading.finish print

/-! ### The callers -/

/-- What `fetch` sends: `snprintf(msg, BUF_SIZE, "figlet /%s %s\r\n", font_name, text)`. -/
def message (fontName text : List UInt8) : List UInt8 :=
  (ascii "figlet /" ++ fontName ++ ascii " " ++ text ++ ascii "\r\n").take (bufSize - 1)

/-- How far `fetch` has come: it reads the greeting, or it has sent its message and reads the
answer. -/
inductive Fetching where
  | greeting (reading : Reading)
  | answer (sent : List UInt8) (reading : Reading)

/-- `fetch`. -/
def fetch (fontName text : List UInt8) (results : List ReadResult) : Except Fault Fetching := do
  let reading ← readMsg false results
  match reading with
  | .waiting printed => return .greeting (.waiting printed)
  | .returned _ rest =>
    let answer ← readMsg true rest
    return .answer (message fontName text) answer

/-- An address of the server, with the results of `socket` and `connect`. -/
structure Address where
  socket : ℤ
  connects : Bool

/-- How far `print_message` has come. -/
inductive Printing where
  | unresolved
  | unconnected
  | fetching (fetching : Fetching)

/-- `print_message`. `resolved` is what `getaddrinfo` finds, if it succeeds. -/
def printMessage (resolved : Option (List Address)) (font message : List UInt8)
    (results : List ReadResult) : Except Fault Printing :=
  match resolved with
  | none => .ok .unresolved
  | some addresses =>
    if addresses.any fun address ↦ 0 < address.socket && address.connects then do
      let fetching ← fetch font message results
      return .fetching fetching
    else .ok .unconnected

/-! ### One round -/

section Round

variable {print : Bool} {buffer text : List UInt8} {result : ReadResult} {rest : List ReadResult}

/-- The string in a buffer ends with a dot. -/
def EndsWithDot (buffer : List UInt8) : Prop := (cString buffer).getLast? = some dot

instance (buffer : List UInt8) : Decidable (EndsWithDot buffer) :=
  inferInstanceAs (Decidable (_ = _))

/-- There is a string in the buffer, and it is not empty. -/
def HasText (buffer : List UInt8) : Prop := 0 ∈ buffer ∧ cString buffer ≠ []

theorem endsWithDot_iff :
    EndsWithDot buffer ↔ ∃ htext : cString buffer ≠ [], (cString buffer).getLast htext = dot := by
  rw [EndsWithDot]
  constructor
  · intro hlast
    have htext : cString buffer ≠ [] := by
      intro hempty
      rw [hempty, List.getLast?_nil] at hlast
      exact absurd hlast nofun
    rw [List.getLast?_eq_some_getLast htext] at hlast
    exact ⟨htext, Option.some.inj hlast⟩
  · rintro ⟨htext, hlast⟩
    rw [List.getLast?_eq_some_getLast htext, hlast]

/-- The last byte of the string in a buffer. -/
theorem readByte_last (htext : cString buffer ≠ []) :
    readByte buffer (((cString buffer).length : ℤ) - 1) =
      .ok ((cString buffer).getLast htext) := by
  obtain ⟨rest, hrest⟩ : cString buffer <+: buffer := List.takeWhile_prefix _
  have hpos : 0 < (cString buffer).length := List.length_pos_iff.mpr htext
  have hlength := length_cString_le buffer
  have hlast : (cString buffer ++ rest)[(cString buffer).length - 1]? =
      some ((cString buffer).getLast htext) := by
    rw [List.getElem?_append_left (by omega), List.getLast_eq_getElem,
      List.getElem?_eq_getElem (by omega)]
  rw [hrest] at hlast
  have hindex : (((cString buffer).length : ℤ) - 1).toNat = (cString buffer).length - 1 := by omega
  rw [readByte_of_inside (by omega) (by omega), byte, hindex, List.getD_eq_getElem?_getD, hlast,
    Option.getD_some]

/-- A round stops the loop if the string in the buffer ends with a dot then. -/
theorem readLoop_of_dot (hzero : 0 ∈ received buffer result)
    (hdot : EndsWithDot (received buffer result)) :
    readLoop print buffer (result :: rest) =
      .ok (.returned (if print then cString (received buffer result) else []) rest) := by
  obtain ⟨htext, hlast⟩ := endsWithDot_iff.mp hdot
  rw [readLoop]
  simp only [strlen, if_pos hzero, ok_bind, readByte_last htext, hlast, if_true]
  rfl

/-- A round goes on if it does not. -/
theorem readLoop_of_not_dot (htext : HasText (received buffer result))
    (hdot : ¬EndsWithDot (received buffer result)) :
    readLoop print buffer (result :: rest) = do
      let reading ← readLoop print (received buffer result) rest
      return reading.after (if print then cString (received buffer result) else []) := by
  have hlast : (cString (received buffer result)).getLast htext.2 ≠ dot := fun heq ↦
    hdot (endsWithDot_iff.mpr ⟨htext.2, heq⟩)
  rw [readLoop]
  simp only [strlen, if_pos htext.1, ok_bind, readByte_last htext.2, if_neg hlast]

/-- A round without a text in the buffer is a fault. -/
theorem readLoop_of_not_hasText (htext : ¬HasText (received buffer result)) :
    ∃ fault, readLoop print buffer (result :: rest) = .error fault := by
  rw [readLoop]
  by_cases hzero : 0 ∈ received buffer result
  · have hempty : cString (received buffer result) = [] := by
      by_contra hne
      exact htext ⟨hzero, hne⟩
    simp only [strlen, if_pos hzero, ok_bind, hempty]
    rw [readByte_of_neg (by decide)]
    exact ⟨_, rfl⟩
  · simp only [strlen, if_neg hzero]
    exact ⟨_, rfl⟩

/-- A round that goes through prints the string that is in the buffer then, and returns or goes
on. -/
theorem round_cases {reading : Reading}
    (hread : readLoop print buffer (result :: rest) = .ok reading) :
    HasText (received buffer result) ∧
      ((EndsWithDot (received buffer result) ∧
        reading = .returned (if print then cString (received buffer result) else []) rest) ∨
      (¬EndsWithDot (received buffer result) ∧
        ∃ later, readLoop print (received buffer result) rest = .ok later ∧
          reading = later.after (if print then cString (received buffer result) else []))) := by
  by_cases htext : HasText (received buffer result)
  · refine ⟨htext, ?_⟩
    by_cases hdot : EndsWithDot (received buffer result)
    · rw [readLoop_of_dot htext.1 hdot] at hread
      exact Or.inl ⟨hdot, (Except.ok.inj hread).symm⟩
    · rw [readLoop_of_not_dot htext hdot] at hread
      obtain ⟨later, hlater, hreading⟩ := bind_eq_ok hread
      exact Or.inr ⟨hdot, later, hlater, (Except.ok.inj hreading).symm⟩
  · obtain ⟨fault, hfault⟩ := readLoop_of_not_hasText htext
    exact absurd (hfault.symm.trans hread) nofun

end Round

end Homework.Convertor
