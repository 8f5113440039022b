import Homework.FileServer.EventLoop
import Homework.Library.Cells

/-!
# Scanning the request line

`method` and `uri` are arrays of 16 and 256 bytes on the stack of `handle_request`, and `sscanf`
writes the first two words of the request to them, whatever their lengths and however many there
are. Here the cells of the two arrays are tracked (`scanLine`): a word that does not fit, and the
use of an array to which no word was written, is a fault. Where there is none, it is what
`handle_request` does, whatever was on the stack (`scanLine_eq_rejected`, `scanLine_eq_path`).
-/

set_option autoImplicit false
set_option relaxedAutoImplicit false

namespace Homework.FileServer

open Homework.Library.ByteBuffer Homework.Library.CString Homework.Library.Cells

/-! ### The arrays -/

/-- An array of some size after `sscanf` has written a word to it, or none. -/
def scanned (size : ℕ) : Option (List UInt8) → Except CellFault CellArray
  | none => .ok (fresh size)
  | some word => write (fresh size) 0 (word ++ [0])

/-- What the request line leads to: the method is refused, or there is a path. -/
inductive Line where
  | rejected
  | path (uri : List UInt8)
deriving DecidableEq

/-- `handle_request` up to the path. -/
def scanLine (request : List UInt8) : Except CellFault Line := do
  let words := scanRequest (cString request)
  let method ← scanned 16 words.1
  let uri ← scanned 256 words.2
  let name ← readString method
  if name ≠ ascii "GET" then return .rejected
  else
    let path ← readString uri
    return .path path

/-- `handle_request` answers that the method is not implemented, whatever its arrays held before. -/
def Refused (request : List UInt8) : Prop :=
  ∀ environment clientFd rootDir, handleRequest environment clientFd rootDir request =
    .ok (request, [.write clientFd ((notImplemented ++ 0 :: environment.beyond).take 76),
      .close clientFd])

/-- The words are written inside the arrays, and an array is read only if a word was written to it:
the request is refused for its method, or the method and the path are words of the request. -/
def ScansSafely (request : List UInt8) : Prop :=
  (scanLine request = .ok .rejected ∧ Refused request) ∨
    ∃ uri, scanLine request = .ok (.path uri) ∧
      ∀ environment, requestLine environment request = .ok (ascii "GET", uri)

/-- The first word of a text has at most 15 bytes and its second one at most 255; if there is no
second word, the first is not `GET`. -/
def WordsFit (text : List UInt8) : Prop :=
  ∃ method rest, scanWord text = some (method, rest) ∧ method.length < 16 ∧
    match scanWord rest with
    | none => method ≠ ascii "GET"
    | some (uri, _) => uri.length < 256

section Scan

variable {request text word rest : List UInt8} {size : ℕ}

theorem zero_notMem_of_scanWord (htext : (0 : UInt8) ∉ text)
    (hscan : scanWord text = some (word, rest)) : (0 : UInt8) ∉ word ∧ (0 : UInt8) ∉ rest := by
  rw [scanWord] at hscan
  split at hscan
  · exact absurd hscan nofun
  · obtain ⟨rfl, rfl⟩ := Prod.mk.inj (Option.some.inj hscan)
    have hstart : (0 : UInt8) ∉ text.dropWhile isSpace :=
      fun hmem ↦ htext ((List.dropWhile_sublist _).subset hmem)
    exact ⟨fun hmem ↦ hstart ((List.takeWhile_sublist _).subset hmem),
      fun hmem ↦ hstart ((List.dropWhile_sublist _).subset hmem)⟩

/-- A word that fits reads back from its array. -/
theorem scanned_of_lt (hword : (0 : UInt8) ∉ word) (hsize : word.length < size) :
    ∃ cells, scanned size (some word) = .ok cells ∧ readString cells = .ok word :=
  ⟨_, write_fresh hsize, readString_written hword _⟩

theorem scanned_of_le (hsize : size ≤ word.length) :
    scanned size (some word) = .error (.outside size) :=
  write_fresh_of_le hsize

/-- `handle_request` refuses a request whose method is another one than GET, if the words fit. -/
theorem refused_of_method (hmethod : word ≠ ascii "GET")
    (hline : ∀ environment, ∃ uri, requestLine environment request = .ok (word, uri)) :
    Refused request := by
  intro environment clientFd rootDir
  obtain ⟨uri, hline⟩ := hline environment
  rw [handleRequest, hline, ok_bind]
  exact if_pos hmethod

/-- Where the first word fits, what `scanLine` does depends on the second one. -/
theorem scanLine_of_method {second : Option (List UInt8)} (hword : (0 : UInt8) ∉ word)
    (hsize : word.length < 16) (hscan : scanRequest (cString request) = (some word, second)) :
    scanLine request = (do
      let uri ← scanned 256 second
      if word ≠ ascii "GET" then return .rejected
      else
        let path ← readString uri
        return .path path) := by
  obtain ⟨cells, hcells, hread⟩ := scanned_of_lt hword hsize
  unfold scanLine
  rw [hscan]
  simp only [hcells, hread, ok_bind]

/-- A request line that can be scanned has words that fit. -/
theorem wordsFit_of_scanLine {line : Line} (hline : scanLine request = .ok line) :
    WordsFit (cString request) := by
  have hzero := zero_notMem_cString request
  rcases hscan : scanWord (cString request) with _ | ⟨method, rest⟩
  · have hnone : scanRequest (cString request) = (none, none) := by rw [scanRequest, hscan]
    rw [scanLine, hnone] at hline
    exact absurd hline nofun
  have hsome : scanRequest (cString request) =
      (some method, (scanWord rest).map Prod.fst) := by rw [scanRequest, hscan]
  obtain ⟨hmethodZero, hrestZero⟩ := zero_notMem_of_scanWord hzero hscan
  rcases lt_or_ge method.length 16 with hmethod | hmethod
  · rw [scanLine_of_method hmethodZero hmethod hsome] at hline
    refine ⟨method, rest, hscan, hmethod, ?_⟩
    rcases huri : scanWord rest with _ | ⟨uri, rest'⟩
    · -- the array of the path was never written
      rintro rfl
      rw [huri] at hline
      exact absurd hline nofun
    · rw [huri, Option.map_some] at hline
      by_contra hsize
      rw [scanned_of_le (not_lt.mp hsize)] at hline
      exact absurd hline nofun
  · rw [scanLine, hsome] at hline
    simp only [scanned_of_le hmethod, error_bind] at hline
    exact absurd hline nofun

/-- A request line whose words fit is scanned, and `handle_request` does the same with it. -/
theorem scansSafely_of_wordsFit (hfit : WordsFit (cString request)) : ScansSafely request := by
  have hzero := zero_notMem_cString request
  obtain ⟨method, rest, hscan, hmethod, hsecond⟩ := hfit
  have hsome : scanRequest (cString request) =
      (some method, (scanWord rest).map Prod.fst) := by rw [scanRequest, hscan]
  obtain ⟨hmethodZero, hrestZero⟩ := zero_notMem_of_scanWord hzero hscan
  have hline := scanLine_of_method hmethodZero hmethod hsome
  rcases huri : scanWord rest with _ | ⟨uri, rest'⟩
  · simp only [huri] at hsecond
    refine Or.inl ⟨?_, refused_of_method hsecond fun environment ↦ ⟨environment.uri, ?_⟩⟩
    · rw [hline, huri]
      exact if_pos hsecond
    · rw [requestLine, hsome, huri]
      simp only [stored, if_pos hmethod, ok_bind, Option.map_none]
      rfl
  · simp only [huri] at hsecond
    obtain ⟨huriZero, -⟩ := zero_notMem_of_scanWord hrestZero huri
    obtain ⟨cells, hcells, hread⟩ := scanned_of_lt huriZero hsecond
    have hrequest (environment : Environment) :
        requestLine environment request = .ok (method, uri) := by
      rw [requestLine, hsome, huri]
      simp only [stored, if_pos hmethod, if_pos hsecond, ok_bind, Option.map_some]
      rfl
    rw [huri, Option.map_some, hcells] at hline
    by_cases hget : method = ascii "GET"
    · refine Or.inr ⟨uri, ?_, fun environment ↦ hget ▸ hrequest environment⟩
      rw [hline]
      change (if _ then _ else _) = _
      rw [if_neg (not_not.mpr hget), hread]
      rfl
    · refine Or.inl ⟨hline.trans (if_pos hget), refused_of_method hget fun environment ↦ ?_⟩
      exact ⟨uri, hrequest environment⟩

end Scan

/-- Scanning a request is safe exactly when its words fit. -/
theorem scansSafely_iff (request : List UInt8) :
    ScansSafely request ↔ WordsFit (cString request) := by
  constructor
  · rintro (⟨hline, -⟩ | ⟨uri, hline, -⟩)
    · exact wordsFit_of_scanLine hline
    · exact wordsFit_of_scanLine hline
  · exact scansSafely_of_wordsFit

/-- A request of a method and nothing else. -/
theorem methodOnly_not_scansSafely : ¬∀ text : List UInt8, (0 : UInt8) ∉ text →
    text.length < bufferSize → crlfcrlf <:+: text → ScansSafely (text ++ [0]) := by
  intro hall
  have hsafe := hall (ascii "GET\r\n\r\n") (by decide) (by decide) (by decide)
  have hfit : WordsFit (cString (ascii "GET\r\n\r\n" ++ [0])) := by
    rcases hsafe with ⟨hline, -⟩ | ⟨uri, hline, -⟩
    · exact wordsFit_of_scanLine hline
    · exact wordsFit_of_scanLine hline
  obtain ⟨method, rest, hscan, -, hsecond⟩ := hfit
  have hword : scanWord (cString (ascii "GET\r\n\r\n" ++ [0])) =
      some (ascii "GET", ascii "\r\n\r\n") := by decide
  obtain ⟨rfl, rfl⟩ := Prod.mk.inj (Option.some.inj (hword.symm.trans hscan))
  exact hsecond rfl

end Homework.FileServer
