import Homework.FileServer.Delivery
import Homework.FileServer.EventLoop
import Homework.Library.HttpMessage

/-!
# The framing of the answers

When every write is complete, what arrives is the bytes of the writes, one after another. The answer
with a file is well framed when the file still has the size that was announced. The three error
answers announce an empty body and send one: the notes of 403 and 404 are appended behind the blank
line, and the length of the 501 literal is counted six too high, so that its terminator and five
bytes behind it are sent as well. So an answer is well framed exactly when it is a file of the
announced size (`answer_framed_iff`).
-/

set_option autoImplicit false
set_option relaxedAutoImplicit false

namespace Homework.FileServer

open Homework.Library.ByteBuffer Homework.Library.CString Homework.Library.StringBuffer
open Homework.Library.HttpMessage Homework.Library.Decimal

/-! ### The answers as responses -/

def contentType : Field :=
  ⟨ascii "Content-Type", ascii "application/octet-stream", by decide, by decide, by decide,
    by decide⟩

def connection : Field :=
  ⟨ascii "Connection", ascii "close", by decide, by decide, by decide, by decide⟩

def contentLength (size : ℕ) : Field :=
  ⟨ascii "Content-Length", digitBytes size, by decide, by decide, by decide,
    notMem_digitBytes (by decide) size⟩

/-- The answer with a file. -/
def fileResponse (size : ℕ) (body : List UInt8) : Response where
  status := ascii "HTTP/1.1 200 OK"
  fields := [contentType, contentLength size, connection]
  body := body
  isStatus := ⟨[50, 48, 48], ascii "OK", rfl, by decide, by decide, by decide⟩

/-- An answer that announces an empty body. -/
def errorResponse (status : List UInt8) (hstatus : IsStatus status) (body : List UInt8) :
    Response where
  status := status
  fields := [contentLength 0, connection]
  body := body
  isStatus := hstatus

theorem isStatus_notFound : IsStatus (ascii "HTTP/1.1 404 Not Found") :=
  ⟨[52, 48, 52], ascii "Not Found", rfl, by decide, by decide, by decide⟩

theorem isStatus_forbidden : IsStatus (ascii "HTTP/1.1 403 Forbidden") :=
  ⟨[52, 48, 51], ascii "Forbidden", rfl, by decide, by decide, by decide⟩

theorem isStatus_notImplemented : IsStatus (ascii "HTTP/1.1 501 Not Implemented") :=
  ⟨[53, 48, 49], ascii "Not Implemented", rfl, by decide, by decide, by decide⟩

theorem bytes_fileResponse (size : ℕ) (body : List UInt8) :
    (fileResponse size body).bytes = responseHeader 200 size ++ body := by
  have hbefore :
      ascii "HTTP/1.1 200 OK\r\nContent-Type: application/octet-stream\r\nContent-Length: " =
      (ascii "HTTP/1.1 200 OK" ++ crlf) ++ (contentType.line ++ ascii "Content-Length: ") := by
    decide
  have hbehind : ascii "\r\nConnection: close\r\n\r\n" = crlf ++ (connection.line ++ crlf) := by
    decide
  have hlength : (contentLength size).line =
      ascii "Content-Length: " ++ (digitBytes size ++ crlf) := rfl
  rw [Response.bytes, Response.head, responseHeader]
  simp only [fileResponse, List.map_cons, List.map_nil, List.flatten_cons, List.flatten_nil,
    List.append_nil, hbefore, hbehind, hlength, List.append_assoc]

/-- The answer with a file is well framed when the announced size is the length of the body. -/
theorem framed_fileResponse_iff (size : ℕ) (body : List UInt8) :
    (fileResponse size body).Framed ↔ size = body.length := by
  have hlengths : (fileResponse size body).contentLengths = [digitBytes size] := rfl
  unfold Response.Framed
  rw [hlengths]
  constructor
  · rintro ⟨digits, hdigits, -, -, hnumber⟩
    rw [← List.singleton_inj.mp hdigits, numberOf_digitBytes] at hnumber
    exact hnumber
  · intro hsize
    refine ⟨digitBytes size, rfl, digitBytes_ne_nil size, ?_, ?_⟩
    · exact List.all_eq_true.mpr fun byte hbyte ↦ isDigit_of_mem_digitBytes hbyte
    · rw [numberOf_digitBytes]
      exact hsize

/-- An answer that announces an empty body is well framed only without a body. -/
theorem not_framed_errorResponse {status : List UInt8} (hstatus : IsStatus status)
    {body : List UInt8} (hbody : body ≠ []) : ¬ (errorResponse status hstatus body).Framed := by
  rintro ⟨digits, hdigits, -, -, hnumber⟩
  have hlengths : (errorResponse status hstatus body).contentLengths = [digitBytes 0] := rfl
  rw [hlengths] at hdigits
  rw [← List.singleton_inj.mp hdigits, numberOf_digitBytes] at hnumber
  exact hbody (List.length_eq_zero_iff.mp hnumber.symm)

theorem bytes_notFound : (errorResponse _ isStatus_notFound fileNotFound).bytes =
    responseHeader 404 0 ++ fileNotFound := by
  decide

theorem bytes_forbidden : (errorResponse _ isStatus_forbidden accessDenied).bytes =
    responseHeader 403 0 ++ accessDenied := by
  decide

/-- The literal of the 501 answer has 70 bytes, and 76 are sent. -/
theorem bytes_notImplemented (environment : Environment) :
    (errorResponse _ isStatus_notImplemented (0 :: environment.beyond)).bytes =
      (notImplemented ++ 0 :: environment.beyond).take 76 := by
  have hliteral : notImplemented = (ascii "HTTP/1.1 501 Not Implemented" ++ crlf) ++
      ((contentLength 0).line ++ (connection.line ++ crlf)) := by
    decide
  have hlength : (notImplemented ++ 0 :: environment.beyond).length = 76 := by
    rw [List.length_append, List.length_cons, environment.length_beyond]
    rfl
  rw [List.take_of_length_le hlength.le, hliteral, Response.bytes, Response.head]
  simp only [errorResponse, List.map_cons, List.map_nil, List.flatten_cons, List.flatten_nil,
    List.append_nil, List.append_assoc]

/-! ### What arrives when every write is complete -/

/-- Every write takes all of its bytes. -/
def Complete (results : ℕ → WriteResult) (writes : List (List UInt8)) : Prop :=
  ∀ index bytes, writes[index]? = some bytes → bytes.length ≤ (results index).taken

theorem delivered_of_complete {results : ℕ → WriteResult} {writes : List (List UInt8)}
    (hcomplete : Complete results writes) : delivered results writes = writes.flatten :=
  (delivered_eq_flatten_iff results writes).mpr hcomplete

theorem exists_complete (writes : List (List UInt8)) : ∃ results, Complete results writes := by
  refine ⟨fun index ↦ .count (writes[index]?.getD []).length, fun index bytes hbytes ↦ ?_⟩
  change bytes.length ≤ (writes[index]?.getD []).length
  rw [hbytes]
  exact le_refl _

/-- The request is answered, and when every write is complete, what arrives is one well framed
response. -/
def AnsweredFramed (environment : Environment) (clientFd : ℤ) (rootDir request : List UInt8) :
    Prop :=
  ∃ answer actions, handleRequest environment clientFd rootDir request = .ok (answer, actions) ∧
    ∀ results, Complete results (writesTo clientFd actions) →
      WellFramed (delivered results (writesTo clientFd actions))

section Answered

variable {environment : Environment} {clientFd : ℤ} {path rootDir request : List UInt8}

/-- Only the bytes of the writes matter. -/
theorem framed_delivered_iff (writes : List (List UInt8)) :
    (∀ results, Complete results writes → WellFramed (delivered results writes)) ↔
      WellFramed writes.flatten := by
  constructor
  · intro hframed
    obtain ⟨results, hcomplete⟩ := exists_complete writes
    have hresults := hframed results hcomplete
    rwa [delivered_of_complete hcomplete] at hresults
  · intro hframed results hcomplete
    rwa [delivered_of_complete hcomplete]

/-- The answer with a file is well framed when the file has the announced size. -/
theorem wellFramed_file_iff (file : File) :
    WellFramed (responseHeader 200 file.size :: fread file.content).flatten ↔
      file.size = file.content.length := by
  rw [List.flatten_cons, flatten_fread, ← bytes_fileResponse, wellFramed_iff,
    framed_fileResponse_iff]

/-- A single write before the connection is closed. -/
theorem writesTo_single (clientFd : ℤ) (bytes : List UInt8) :
    (writesTo clientFd [.write clientFd bytes, .close clientFd]).flatten = bytes := by
  simp [writesTo]

theorem not_wellFramed_forbidden : ¬ WellFramed (responseHeader 403 0 ++ accessDenied) := by
  rw [← bytes_forbidden, wellFramed_iff]
  exact not_framed_errorResponse _ (by decide)

theorem not_wellFramed_notFound : ¬ WellFramed (responseHeader 404 0 ++ fileNotFound) := by
  rw [← bytes_notFound, wellFramed_iff]
  exact not_framed_errorResponse _ (by decide)

theorem not_wellFramed_notImplemented (environment : Environment) :
    ¬ WellFramed ((notImplemented ++ 0 :: environment.beyond).take 76) := by
  rw [← bytes_notImplemented, wellFramed_iff]
  exact not_framed_errorResponse _ (List.cons_ne_nil _ _)

/-- A well framed answer to a `GET` request is one with a file. -/
theorem Answers.file_of_wellFramed {actions : List Action}
    (hanswers : Answers environment clientFd path actions)
    (hframed : WellFramed (writesTo clientFd actions).flatten) :
    ∃ file, environment.stat path = some true ∧ environment.fopen path = some file ∧
      file.size = file.content.length := by
  cases hanswers with
  | notFound hstat =>
    rw [writesTo_single] at hframed
    exact absurd hframed not_wellFramed_notFound
  | file file hstat hopen =>
    rw [writesTo_sendFile, wellFramed_file_iff] at hframed
    exact ⟨file, hstat, hopen, hframed⟩
  | notRegular file hstat hopen =>
    rw [writesTo, writesTo_single] at hframed
    exact absurd hframed not_wellFramed_forbidden
  | notOpened regular hstat hopen =>
    rw [writesTo_single] at hframed
    exact absurd hframed not_wellFramed_forbidden

/-- A request is answered by one well framed response when it is for a file that can be read and
has the announced size, and only then. Assumes: the request is in the buffer of a connection. -/
theorem answer_framed_iff (hrequest : request.length = bufferSize) :
    AnsweredFramed environment clientFd rootDir request ↔
      ∃ path file, Served environment rootDir request path file ∧
        file.size = file.content.length := by
  unfold AnsweredFramed
  simp only [framed_delivered_iff]
  constructor
  · rintro ⟨answer, actions, hhandle, hframed⟩
    obtain ⟨method, uri, hline, hspec⟩ := of_handleRequest hrequest hhandle
    by_cases hmethod : method = ascii "GET"
    · rw [if_pos hmethod] at hspec
      obtain ⟨file, hstat, hopen, hsize⟩ := hspec.file_of_wellFramed hframed
      exact ⟨_, file, ⟨⟨uri, hmethod ▸ hline, rfl⟩, hstat, hopen⟩, hsize⟩
    · rw [if_neg hmethod] at hspec
      rw [hspec, writesTo_single] at hframed
      exact absurd hframed (not_wellFramed_notImplemented environment)
  · rintro ⟨path, file, hserved, hsize⟩
    refine ⟨request, _, hserved.handleRequest, ?_⟩
    rw [writesTo_sendFile]
    exact (wellFramed_file_iff file).mpr hsize

end Answered

theorem letter_framed : AnsweredFramed letterEnvironment 5 (ascii "/srv") letterRequest :=
  (answer_framed_iff (length_filled (by decide))).mpr ⟨_, _, letter_served, rfl⟩

/-- There is no file. -/
def emptyEnvironment : Environment := { letterEnvironment with stat := fun _ ↦ none }

/-- The note that there is no file follows a header that announces an empty body. -/
theorem letter_not_framed :
    letterRequest.length = bufferSize ∧ crlfcrlf <:+: cString letterRequest ∧
      ¬ AnsweredFramed emptyEnvironment 5 (ascii "/srv") letterRequest := by
  have hlength : letterRequest.length = bufferSize := length_filled (by decide)
  refine ⟨hlength, ?_, ?_⟩
  · rw [letterRequest, cString_filled (by decide) (by decide)]
    decide
  · rintro ⟨answer, actions, hhandle, hframed⟩
    obtain ⟨uri, hserved, -⟩ := letter_served.line
    obtain ⟨method, uri', hline, hspec⟩ := of_handleRequest hlength hhandle
    have hmethod : method = ascii "GET" :=
      (congrArg Prod.fst (Except.ok.inj (hserved.symm.trans hline))).symm
    rw [if_pos hmethod] at hspec
    obtain ⟨file, hstat, -⟩ := hspec.file_of_wellFramed ((framed_delivered_iff _).mp hframed)
    cases hstat

end Homework.FileServer
