import Homework.Library.StringBuffer
import Homework.Library.Decimal

/-!
# Requests and responses

`handle_request` scans the request line, and answers with a file or with an error. What it does is a
list of actions, in the order of its system calls: no result of a `write` is looked at. What a
request finds in the file system, and what is in memory that the function never wrote, is an
`Environment`. A word that does not fit its array is a fault.
-/

set_option autoImplicit false
set_option relaxedAutoImplicit false

namespace Homework.FileServer

open Homework.Library.ByteBuffer Homework.Library.CString Homework.Library.StringBuffer
open Homework.Library.Decimal

/-! ### Constants and texts -/

def bufferSize : ℕ := 8192

def pathMax : ℕ := 4096

def notImplemented : List UInt8 :=
  ascii "HTTP/1.1 501 Not Implemented\r\nContent-Length: 0\r\nConnection: close\r\n\r\n"

/-- The text that `build_response_header` puts into its buffer. -/
def responseHeader (code filesize : ℕ) : List UInt8 :=
  match code with
  | 200 =>
    ascii "HTTP/1.1 200 OK\r\nContent-Type: application/octet-stream\r\nContent-Length: " ++
      digitBytes filesize ++ ascii "\r\nConnection: close\r\n\r\n"
  | 404 => ascii "HTTP/1.1 404 Not Found\r\nContent-Length: 0\r\nConnection: close\r\n\r\n"
  | 403 => ascii "HTTP/1.1 403 Forbidden\r\nContent-Length: 0\r\nConnection: close\r\n\r\n"
  | _ =>
    ascii "HTTP/1.1 500 Internal Server Error\r\nContent-Length: 0\r\nConnection: close\r\n\r\n"

def fileNotFound : List UInt8 := ascii "\r\nFile not found."

def accessDenied : List UInt8 := ascii "\r\nAccess denied."

/-! ### What surrounds a request -/

/-- An open file: the size that `fstat` reports, and the bytes that `fread` gets. -/
structure File where
  size : ℕ
  content : List UInt8

structure Environment where
  /-- `none` if `stat` fails, else whether there is a regular file. -/
  stat : List UInt8 → Option Bool
  fopen : List UInt8 → Option File
  /-- The strings in `method` and `uri` before `sscanf`. -/
  method : List UInt8
  uri : List UInt8
  /-- The bytes in memory behind the literal of the 501 response. -/
  beyond : List UInt8
  length_beyond : beyond.length = 5

theorem length_zeros : (List.replicate 5 (0 : UInt8)).length = 5 :=
  rfl

/-- What the server does, by its system calls, and the calls of `handle_request`. -/
inductive Action where
  | register (fd : ℤ)
  | request (fd : ℤ) (text : List UInt8)
  | write (fd : ℤ) (bytes : List UInt8)
  | fopen (path : List UInt8)
  | fclose
  | close (fd : ℤ)
deriving DecidableEq

/-! ### The request line -/

/-- `%s`: blanks are skipped, and the word up to the next blank is stored. -/
def scanWord (text : List UInt8) : Option (List UInt8 × List UInt8) :=
  let start := text.dropWhile isSpace
  if start = [] then none
  else some (start.takeWhile (!isSpace ·), start.dropWhile (!isSpace ·))

/-- The words that `sscanf(request, "%s %s ", method, uri)` stores. -/
def scanRequest (text : List UInt8) : Option (List UInt8) × Option (List UInt8) :=
  match scanWord text with
  | none => (none, none)
  | some (method, rest) => (some method, (scanWord rest).map Prod.fst)

/-- The string in an array of some size, after a word has been stored in it or not. -/
def stored (size : ℕ) (before : List UInt8) : Option (List UInt8) → Except Fault (List UInt8)
  | none => .ok before
  | some word => if word.length < size then .ok word else .error (.outside size)

/-- A word that `sscanf` can store in an array of some size. -/
structure Word (size : ℕ) where
  bytes : List UInt8
  ne_nil : bytes ≠ []
  notBlank : ∀ byte ∈ bytes, isSpace byte = false
  notZero : (0 : UInt8) ∉ bytes
  length_lt : bytes.length < size

/-- The strings in `method` and `uri` after `sscanf`. -/
def requestLine (environment : Environment) (request : List UInt8) :
    Except Fault (List UInt8 × List UInt8) := do
  let words := scanRequest (cString request)
  let method ← stored 16 environment.method words.1
  let uri ← stored 256 environment.uri words.2
  return (method, uri)

theorem notBlank_of_all {bytes : List UInt8} (hall : bytes.all (!isSpace ·) = true) :
    ∀ byte ∈ bytes, isSpace byte = false := by
  simpa using hall

def get : Word 16 :=
  ⟨ascii "GET", by decide, notBlank_of_all (by decide), by decide, by decide⟩

theorem scanWord_eq {size : ℕ} (word : Word size) {blank : UInt8} (hblank : isSpace blank = true)
    (rest : List UInt8) :
    scanWord (word.bytes ++ blank :: rest) = some (word.bytes, blank :: rest) := by
  have hword : ∀ byte ∈ word.bytes, (!isSpace byte) = true := fun byte hbyte ↦
    congrArg not (word.notBlank byte hbyte)
  have hstart : (word.bytes ++ blank :: rest).dropWhile isSpace = word.bytes ++ blank :: rest := by
    rcases hbytes : word.bytes with _ | ⟨first, more⟩
    · exact absurd hbytes word.ne_nil
    · have hfirst : isSpace first = false :=
        word.notBlank first (hbytes ▸ List.mem_cons_self)
      exact List.dropWhile_cons_of_neg (Bool.not_eq_true _ ▸ hfirst)
  have hne : word.bytes ++ blank :: rest ≠ [] := List.append_ne_nil_of_left_ne_nil word.ne_nil _
  unfold scanWord
  rw [hstart]
  simp only [hne, if_false, List.takeWhile_append_of_pos hword, List.dropWhile_append_of_pos hword]
  simp only [List.takeWhile_cons, List.dropWhile_cons, hblank, Bool.not_true, Bool.false_eq_true,
    if_false, List.append_nil]

/-- The words of a request line: the first one ends in a single blank, the second one in any. -/
theorem scanRequest_eq {size size' : ℕ} (method : Word size) (uri : Word size') {blank : UInt8}
    (hblank : isSpace blank = true) (rest : List UInt8) :
    scanRequest (method.bytes ++ 32 :: (uri.bytes ++ blank :: rest)) =
      (some method.bytes, some uri.bytes) := by
  have hspace : isSpace 32 = true := by decide
  have hskip : scanWord (32 :: (uri.bytes ++ blank :: rest)) =
      scanWord (uri.bytes ++ blank :: rest) := by
    unfold scanWord
    rw [List.dropWhile_cons_of_pos hspace]
  unfold scanRequest
  rw [scanWord_eq method hspace]
  simp only [hskip, scanWord_eq uri hblank, Option.map_some]

theorem stored_eq {size : ℕ} (before : List UInt8) (word : Word size) :
    stored size before (some word.bytes) = .ok word.bytes :=
  if_pos word.length_lt

section Scanned

variable {size : ℕ} {request : List UInt8} {method : Word 16} {uri : Word size}

/-- `sscanf` on a request line whose words fit. -/
theorem requestLine_eq (environment : Environment)
    (hscan : scanRequest (cString request) = (some method.bytes, some uri.bytes))
    (huri : uri.bytes.length < 256) :
    requestLine environment request = .ok (method.bytes, uri.bytes) := by
  have hstored : stored 256 environment.uri (some uri.bytes) = .ok uri.bytes := if_pos huri
  unfold requestLine
  rw [hscan]
  simp only [stored_eq, hstored, ok_bind, pure_eq_ok]

end Scanned

/-! ### Sending a file -/

/-- The chunks that `fread` gets until the end of the file. -/
def fread (content : List UInt8) : List (List UInt8) :=
  if content = [] then []
  else content.take bufferSize :: fread (content.drop bufferSize)
termination_by content.length
decreasing_by
  rw [List.length_drop, bufferSize]
  have hpos : 0 < content.length := List.length_pos_iff.mpr ‹_›
  omega

def sendFile (file : File) (fd : ℤ) : List Action :=
  .write fd (responseHeader 200 file.size) ::
    (fread file.content).map (Action.write fd) ++ [.fclose]

/-! ### The response -/

/-- An error is written by way of the buffer of the request. -/
def respond (clientFd : ℤ) (request : List UInt8) (code : ℕ) (note : List UInt8) :
    Except Fault (List UInt8 × List Action) := do
  let header ← strcpy request (responseHeader code 0)
  let answer ← strcat header note
  let length ← strlen answer
  return (answer, [.write clientFd (answer.take length), .close clientFd])

/-- `snprintf` cuts the path. -/
def fullPath (rootDir uri : List UInt8) : List UInt8 := (rootDir ++ uri).take (pathMax - 1)

/-- `handle_request` behind the test of the method. A file that was opened stays open when access is
denied. -/
def answerGet (environment : Environment) (clientFd : ℤ) (path request : List UInt8) :
    Except Fault (List UInt8 × List Action) :=
  match environment.stat path, environment.fopen path with
  | none, _ => respond clientFd request 404 fileNotFound
  | some true, some file =>
    .ok (request, .fopen path :: sendFile file clientFd ++ [.close clientFd])
  | some false, some _ => do
    let (answer, actions) ← respond clientFd request 403 accessDenied
    return (answer, .fopen path :: actions)
  | some _, none => respond clientFd request 403 accessDenied

/-- `handle_request`. `request` is the buffer of the connection, which error responses overwrite. -/
def handleRequest (environment : Environment) (clientFd : ℤ) (rootDir request : List UInt8) :
    Except Fault (List UInt8 × List Action) := do
  let (method, uri) ← requestLine environment request
  if method ≠ ascii "GET" then
    return (request, [
      .write clientFd ((notImplemented ++ 0 :: environment.beyond).take 76), .close clientFd])
  else
    answerGet environment clientFd (fullPath rootDir uri) request

/-! ### What the server answers -/

section Answer

variable {environment : Environment} {clientFd : ℤ} {path rootDir request method uri : List UInt8}

/-- An error response fits the buffer, and is written whole. -/
theorem respond_eq {code : ℕ} {note : List UInt8} (hheader : (0 : UInt8) ∉ responseHeader code 0)
    (hnote : (0 : UInt8) ∉ note)
    (hfits : (responseHeader code 0 ++ note).length < request.length) :
    ∃ answer, respond clientFd request code note = .ok (answer,
      [.write clientFd (responseHeader code 0 ++ note), .close clientFd]) := by
  rw [List.length_append] at hfits
  have hroom : (responseHeader code 0).length < request.length := by omega
  have hrest : note.length ≤ (request.drop ((responseHeader code 0).length + 1)).length := by
    rw [List.length_drop]
    omega
  have hzero : (0 : UInt8) ∉ responseHeader code 0 ++ note := by
    rw [List.mem_append]
    exact not_or.mpr ⟨hheader, hnote⟩
  refine ⟨responseHeader code 0 ++ note ++
    0 :: (request.drop ((responseHeader code 0).length + 1)).drop note.length, ?_⟩
  rw [respond, strcpy_eq hroom, ok_bind, strcat_eq hheader hrest, ok_bind, strlen,
    if_pos (List.mem_append_right _ List.mem_cons_self), ok_bind, cString_append_zero hzero,
    List.take_left]
  rfl

/-- Errors are answered with a single response. Assumes: the request is in the buffer of a
connection. -/
theorem respond_404 (clientFd : ℤ) (hrequest : request.length = bufferSize) :
    ∃ answer, respond clientFd request 404 fileNotFound = .ok (answer,
      [.write clientFd (responseHeader 404 0 ++ fileNotFound), .close clientFd]) :=
  respond_eq (by decide) (by decide) (by rw [hrequest]; decide)

theorem respond_403 (clientFd : ℤ) (hrequest : request.length = bufferSize) :
    ∃ answer, respond clientFd request 403 accessDenied = .ok (answer,
      [.write clientFd (responseHeader 403 0 ++ accessDenied), .close clientFd]) :=
  respond_eq (by decide) (by decide) (by rw [hrequest]; decide)

/-- A request for a file that can be read. -/
structure Served (environment : Environment) (rootDir request path : List UInt8) (file : File) :
    Prop where
  line : ∃ uri, requestLine environment request = .ok (ascii "GET", uri) ∧
    path = fullPath rootDir uri
  stat : environment.stat path = some true
  fopen : environment.fopen path = some file

theorem Served.handleRequest {file : File}
    (hserved : Served environment rootDir request path file) :
    handleRequest environment clientFd rootDir request = .ok (request,
      .fopen path :: sendFile file clientFd ++ [.close clientFd]) := by
  obtain ⟨uri, hline, rfl⟩ := hserved.line
  rw [FileServer.handleRequest, hline, ok_bind]
  change answerGet environment clientFd (fullPath rootDir uri) request = _
  rw [answerGet, hserved.stat, hserved.fopen]

/-- The actions of `answerGet`, by what it finds at the path. -/
inductive Answers (environment : Environment) (clientFd : ℤ) (path : List UInt8) :
    List Action → Prop where
  | notFound (hstat : environment.stat path = none) : Answers environment clientFd path
      [.write clientFd (responseHeader 404 0 ++ fileNotFound), .close clientFd]
  | file (file : File) (hstat : environment.stat path = some true)
      (hopen : environment.fopen path = some file) : Answers environment clientFd path
      (.fopen path :: sendFile file clientFd ++ [.close clientFd])
  | notRegular (file : File) (hstat : environment.stat path = some false)
      (hopen : environment.fopen path = some file) : Answers environment clientFd path
      [.fopen path, .write clientFd (responseHeader 403 0 ++ accessDenied), .close clientFd]
  | notOpened (regular : Bool) (hstat : environment.stat path = some regular)
      (hopen : environment.fopen path = none) : Answers environment clientFd path
      [.write clientFd (responseHeader 403 0 ++ accessDenied), .close clientFd]

theorem answerGet_spec (hrequest : request.length = bufferSize) :
    ∃ answer actions, answerGet environment clientFd path request = .ok (answer, actions) ∧
      Answers environment clientFd path actions := by
  obtain ⟨answer404, h404⟩ := respond_404 clientFd hrequest
  obtain ⟨answer403, h403⟩ := respond_403 clientFd hrequest
  unfold answerGet
  rw [h404, h403]
  rcases hstat : environment.stat path with _ | _ | _
  · exact ⟨_, _, rfl, .notFound hstat⟩
  · rcases hopen : environment.fopen path with _ | file
    · exact ⟨_, _, rfl, .notOpened false hstat hopen⟩
    · exact ⟨_, _, rfl, .notRegular file hstat hopen⟩
  · rcases hopen : environment.fopen path with _ | file
    · exact ⟨_, _, rfl, .notOpened true hstat hopen⟩
    · exact ⟨_, _, rfl, .file file hstat hopen⟩

/-- `handle_request`, when the words of the request line fit. -/
theorem handleRequest_spec (clientFd : ℤ) (rootDir : List UInt8)
    (hline : requestLine environment request = .ok (method, uri))
    (hrequest : request.length = bufferSize) :
    ∃ answer actions, handleRequest environment clientFd rootDir request = .ok (answer, actions) ∧
      if method = ascii "GET" then Answers environment clientFd (fullPath rootDir uri) actions
      else actions = [.write clientFd ((notImplemented ++ 0 :: environment.beyond).take 76),
        .close clientFd] := by
  rw [handleRequest, hline, ok_bind]
  by_cases hmethod : method = ascii "GET"
  · simp only [hmethod, ne_eq, not_true_eq_false, if_false, if_true]
    exact answerGet_spec hrequest
  · simp only [hmethod, ne_eq, not_false_eq_true, if_true, if_false]
    exact ⟨_, _, rfl, rfl⟩

/-- What `handle_request` has done when it returns. -/
theorem of_handleRequest {answer : List UInt8} {actions : List Action}
    (hrequest : request.length = bufferSize)
    (hhandle : handleRequest environment clientFd rootDir request = .ok (answer, actions)) :
    ∃ method uri, requestLine environment request = .ok (method, uri) ∧
      if method = ascii "GET" then Answers environment clientFd (fullPath rootDir uri) actions
      else actions = [.write clientFd ((notImplemented ++ 0 :: environment.beyond).take 76),
        .close clientFd] := by
  rcases hline : requestLine environment request with fault | ⟨method, uri⟩
  · rw [handleRequest, hline, error_bind] at hhandle
    exact absurd hhandle nofun
  · obtain ⟨answer', actions', hhandle', hspec⟩ :=
      handleRequest_spec clientFd rootDir hline hrequest
    obtain ⟨rfl, rfl⟩ := Prod.mk.inj (Except.ok.inj (hhandle'.symm.trans hhandle))
    exact ⟨method, uri, rfl, hspec⟩

/-- `handle_request` closes no other descriptor than that of the client. -/
theorem close_of_handleRequest {answer : List UInt8} {actions : List Action} {fd : ℤ}
    (hrequest : request.length = bufferSize)
    (hhandle : handleRequest environment clientFd rootDir request = .ok (answer, actions))
    (hclose : .close fd ∈ actions) : fd = clientFd := by
  obtain ⟨method, uri, -, hspec⟩ := of_handleRequest hrequest hhandle
  split at hspec
  · cases hspec with
    | notFound hstat => simpa using hclose
    | file file hstat hopen => simpa [sendFile] using hclose
    | notRegular file hstat hopen => simpa using hclose
    | notOpened regular hstat hopen => simpa using hclose
  · rw [hspec] at hclose
    simpa using hclose

end Answer

end Homework.FileServer
