import Homework.FileServer.Request

/-!
# What arrives of a file

The client socket does not block, so a `write` may take some of its bytes or none, and the server
looks at no result. What arrives is the taken part of every write (`delivered`). It is everything
only if every write takes all of its bytes (`delivered_eq_flatten_iff`), so a file arrives whole
exactly when the write of the header and that of every chunk do (`file_delivered_iff`).
-/

set_option autoImplicit false
set_option relaxedAutoImplicit false

namespace Homework.FileServer

open Homework.Library.ByteBuffer Homework.Library.CString Homework.Library.StringBuffer

/-! ### Results of writes -/

/-- The result of a `write`: the number of bytes taken, or -1 with `EAGAIN`. -/
inductive WriteResult where
  | count (bytes : ℕ)
  | again
deriving DecidableEq, Repr

def WriteResult.taken : WriteResult → ℕ
  | .count bytes => bytes
  | .again => 0

/-- The writes to a connection before it is closed. -/
def writesTo (fd : ℤ) : List Action → List (List UInt8)
  | [] => []
  | .write fd' bytes :: rest => if fd' = fd then bytes :: writesTo fd rest else writesTo fd rest
  | .close fd' :: rest => if fd' = fd then [] else writesTo fd rest
  | .register _ :: rest => writesTo fd rest
  | .request _ _ :: rest => writesTo fd rest
  | .fopen _ :: rest => writesTo fd rest
  | .fclose :: rest => writesTo fd rest

/-- What writes put on a connection, by their results. -/
def delivered : (ℕ → WriteResult) → List (List UInt8) → List UInt8
  | _, [] => []
  | results, bytes :: rest =>
    bytes.take (results 0).taken ++ delivered (fun index ↦ results (index + 1)) rest

theorem length_delivered_le (results : ℕ → WriteResult) (writes : List (List UInt8)) :
    (delivered results writes).length ≤ writes.flatten.length := by
  induction writes generalizing results with
  | nil => exact le_refl _
  | cons bytes rest ih =>
    rw [delivered, List.flatten_cons, List.length_append, List.length_append]
    exact add_le_add (List.length_take_le' _ _) (ih _)

/-- Everything arrives if every write takes all of its bytes, and only then. -/
theorem delivered_eq_flatten_iff (results : ℕ → WriteResult) (writes : List (List UInt8)) :
    delivered results writes = writes.flatten ↔
      ∀ index bytes, writes[index]? = some bytes → bytes.length ≤ (results index).taken := by
  induction writes generalizing results with
  | nil =>
    refine iff_of_true rfl fun index bytes hbytes ↦ ?_
    exact absurd hbytes (by rw [List.getElem?_nil]; exact Option.some_ne_none _ ∘ Eq.symm)
  | cons first rest ih =>
    rw [delivered, List.flatten_cons]
    constructor
    · intro heq
      have hlength := congrArg List.length heq
      have hrest := length_delivered_le (fun index ↦ results (index + 1)) rest
      rw [List.length_append, List.length_append, List.length_take] at hlength
      have hfirst : first.length ≤ (results 0).taken := by omega
      rw [List.take_of_length_le hfirst] at heq
      have hall := (ih _).mp (List.append_cancel_left heq)
      intro index bytes hbytes
      rcases index with _ | index
      · exact Option.some.inj hbytes ▸ hfirst
      · exact hall index bytes hbytes
    · intro hall
      rw [List.take_of_length_le (hall 0 first rfl)]
      congr 1
      exact (ih _).mpr fun index bytes hbytes ↦ hall (index + 1) bytes hbytes

/-! ### The writes of a file -/

theorem fread_nil : fread [] = [] := by
  rw [fread, if_pos rfl]

theorem fread_of_ne_nil {content : List UInt8} (hcontent : content ≠ []) :
    fread content = content.take bufferSize :: fread (content.drop bufferSize) := by
  rw [fread, if_neg hcontent]

theorem flatten_fread (content : List UInt8) : (fread content).flatten = content := by
  induction content using fread.induct with
  | case1 => rw [fread_nil, List.flatten_nil]
  | case2 content hcontent ih =>
    rw [fread_of_ne_nil hcontent, List.flatten_cons, ih, List.take_append_drop]

/-- The chunks of a file, by their numbers. -/
theorem getElem?_fread (content : List UInt8) (index : ℕ) :
    (fread content)[index]? =
      if bufferSize * index < content.length then
        some ((content.drop (bufferSize * index)).take bufferSize)
      else none := by
  induction content using fread.induct generalizing index with
  | case1 =>
    rw [fread_nil, List.getElem?_nil, if_neg]
    exact Nat.not_lt_zero _
  | case2 content hcontent ih =>
    have hpos : 0 < content.length := List.length_pos_iff.mpr hcontent
    rw [fread_of_ne_nil hcontent]
    rcases index with _ | index
    · rw [Nat.mul_zero, if_pos hpos]
      rfl
    · have hlt : bufferSize * index < (content.drop bufferSize).length ↔
          bufferSize * (index + 1) < content.length := by
        rw [List.length_drop, Nat.mul_succ]
        omega
      rw [List.getElem?_cons_succ, ih]
      simp only [hlt, List.drop_drop, Nat.mul_succ, Nat.add_comm bufferSize]

theorem writesTo_sendFile (file : File) (fd : ℤ) (path : List UInt8) :
    writesTo fd (.fopen path :: sendFile file fd ++ [.close fd]) =
      responseHeader 200 file.size :: fread file.content := by
  have hchunks (chunks : List (List UInt8)) :
      writesTo fd (chunks.map (Action.write fd) ++ [.fclose] ++ [.close fd]) = chunks := by
    induction chunks with
    | nil => simp [writesTo]
    | cons chunk rest ih =>
      rw [List.map_cons, List.cons_append, List.cons_append, writesTo, if_pos rfl, ih]
  change writesTo fd (.write fd _ :: (_ ++ [.fclose] ++ [.close fd])) = _
  rw [writesTo, if_pos rfl, hchunks]

/-! ### The delivery of a file -/

/-- Every write takes all of its bytes: the one of the header, and those of the chunks of
`bufferSize` bytes, of which the last may be shorter. -/
def AllTaken (results : ℕ → WriteResult) (content : List UInt8) : Prop :=
  (responseHeader 200 content.length).length ≤ (results 0).taken ∧
    ∀ index, bufferSize * index < content.length →
      min bufferSize (content.length - bufferSize * index) ≤ (results (index + 1)).taken

theorem allTaken_iff (results : ℕ → WriteResult) (content : List UInt8) :
    AllTaken results content ↔ ∀ index bytes,
      (responseHeader 200 content.length :: fread content)[index]? = some bytes →
        bytes.length ≤ (results index).taken := by
  constructor
  · rintro ⟨hheader, hchunks⟩ index bytes hbytes
    rcases index with _ | index
    · exact Option.some.inj hbytes ▸ hheader
    · rw [List.getElem?_cons_succ, getElem?_fread] at hbytes
      split at hbytes
      · next hindex =>
        rw [← Option.some.inj hbytes, List.length_take, List.length_drop]
        exact hchunks index hindex
      · exact absurd hbytes (Option.some_ne_none _).symm
  · intro hall
    refine ⟨hall 0 _ rfl, fun index hindex ↦ ?_⟩
    have hchunk := hall (index + 1) _
      (by rw [List.getElem?_cons_succ, getElem?_fread, if_pos hindex])
    rwa [List.length_take, List.length_drop] at hchunk

section Delivered

variable {environment : Environment} {clientFd : ℤ} {rootDir request path : List UInt8}
  {file : File}

/-- A file arrives whole, behind the header, if every write takes all of its bytes, and only then.
Assumes: the request is for a file that can be read and does not change. -/
theorem file_delivered_iff (hserved : Served environment rootDir request path file)
    (hsize : file.size = file.content.length) (results : ℕ → WriteResult) :
    (∃ answer actions,
      handleRequest environment clientFd rootDir request = .ok (answer, actions) ∧
        delivered results (writesTo clientFd actions) =
          responseHeader 200 file.content.length ++ file.content) ↔
      AllTaken results file.content := by
  rw [allTaken_iff, ← delivered_eq_flatten_iff, List.flatten_cons, flatten_fread]
  constructor
  · rintro ⟨answer, actions, hactions, hdelivered⟩
    rw [hserved.handleRequest] at hactions
    obtain ⟨rfl, rfl⟩ := Prod.mk.inj (Except.ok.inj hactions)
    rwa [writesTo_sendFile, hsize] at hdelivered
  · intro hdelivered
    refine ⟨request, _, hserved.handleRequest, ?_⟩
    rwa [writesTo_sendFile, hsize]

end Delivered

/-! ### A file of one byte -/

/-- Every path is that of a file with the letter A. -/
def letterEnvironment : Environment where
  stat := fun _ ↦ some true
  fopen := fun _ ↦ some ⟨1, [65]⟩
  method := []
  uri := []
  beyond := List.replicate 5 0
  length_beyond := length_zeros

/-- The buffer of a connection with a request for the file. -/
def letterRequest : List UInt8 := filled bufferSize (ascii "GET /a HTTP/1.1\r\n\r\n")

theorem letter_served : Served letterEnvironment (ascii "/srv") letterRequest
    (fullPath (ascii "/srv") (ascii "/a")) ⟨1, [65]⟩ where
  line := by
    refine ⟨ascii "/a", ?_, rfl⟩
    rw [requestLine, letterRequest, cString_filled (by decide) (by decide)]
    rfl
  stat := rfl
  fopen := rfl

/-- The file arrives if all writes are complete. -/
theorem letter_delivered : ∃ answer actions,
    handleRequest letterEnvironment 5 (ascii "/srv") letterRequest = .ok (answer, actions) ∧
      delivered (fun _ ↦ .count 8192) (writesTo 5 actions) = responseHeader 200 1 ++ [65] := by
  refine (file_delivered_iff letter_served rfl _).mpr ⟨by decide, fun index _ ↦ ?_⟩
  exact min_le_left _ _

/-- The letter is lost if its write is refused. -/
theorem letter_lost : ¬∃ answer actions,
    handleRequest letterEnvironment 5 (ascii "/srv") letterRequest = .ok (answer, actions) ∧
      delivered (fun index ↦ if index = 0 then .count 8192 else .again) (writesTo 5 actions) =
        responseHeader 200 1 ++ [65] := by
  rintro ⟨answer, actions, hactions, hdelivered⟩
  rw [letter_served.handleRequest] at hactions
  obtain ⟨rfl, rfl⟩ := Prod.mk.inj (Except.ok.inj hactions)
  rw [writesTo_sendFile, fread_of_ne_nil (List.cons_ne_nil _ _)] at hdelivered
  have hlength := congrArg List.length hdelivered
  simp [delivered, WriteResult.taken, bufferSize, fread_nil] at hlength
  omega

end Homework.FileServer
