import Homework.FileServer.EventLoop
import Homework.Library.LexicalPath

/-!
# Which files can be asked for

The path that is opened is the text of the root directory followed by the URI. Nothing is taken out
of the URI, so it may lead out of the root directory, by `..` or by not starting with a slash: then
it changes the last name of the root directory. It leads back in if the names it goes down to
afterwards start with those it has left. A URI of 256 bytes or more is written over the end of its
array, and nothing is known of the path then (`confined_iff`).
-/

set_option autoImplicit false
set_option relaxedAutoImplicit false

namespace Homework.FileServer

open Homework.Library.ByteBuffer Homework.Library.CString Homework.Library.StringBuffer
open Homework.Library.LexicalPath

/-- The URI comes back to the names of the root directory that it leaves. The URI is cut where the
path gets too long. If the root directory itself is too long, what is left of it must be inside. -/
def ComesBack (workingDir : List Name) (rootDir uri : List UInt8) : Prop :=
  let fits := uri.take (pathMax - 1 - rootDir.length)
  if rootDir.length < pathMax then
    Retraces (resolve workingDir rootDir) (leaves workingDir rootDir fits)
      (joined rootDir fits).names
  else Inside (resolve workingDir rootDir) (resolve workingDir (rootDir.take (pathMax - 1)))

instance (workingDir : List Name) (rootDir uri : List UInt8) :
    Decidable (ComesBack workingDir rootDir uri) :=
  inferInstanceAs (Decidable (ite _ _ _))

/-- A URI that starts with a slash and contains no `..` comes back. Assumes: the root directory is
named, and the path is not cut. -/
theorem comesBack_of_notMem_up (workingDir : List Name) {rootDir uri : List UInt8}
    (hroot : rootDir ≠ []) (huri : IsAbsolute uri) (hup : .up ∉ components uri)
    (hfits : rootDir.length + uri.length < pathMax) : ComesBack workingDir rootDir uri := by
  have htake : uri.take (pathMax - 1 - rootDir.length) = uri := by
    rw [List.take_of_length_le]
    omega
  have hstem : stem rootDir uri = [] := if_pos huri
  have hleaves : leaves workingDir rootDir uri = 0 := by
    have hnamed : ¬(rootDir = [] ∧ IsAbsolute uri) := fun hboth ↦ hroot hboth.1
    rw [leaves, if_neg hnamed, left, joined, hstem, List.nil_append, ups_normal hup]
    rfl
  unfold ComesBack
  rw [if_pos (by omega), htake, hleaves, Retraces, Nat.sub_zero, List.drop_length]
  exact List.nil_prefix

section Sends

variable {environment : Environment} {clientFd : ℤ} {rootDir request path method uri : List UInt8}

end Sends

/-! ### Asking for a file -/

/-- The buffer of a connection with a request for a URI. -/
def getRequest (uri : Word 8184) : List UInt8 :=
  filled bufferSize (get.bytes ++ 32 :: (uri.bytes ++ crlfcrlf))

section Confinement

variable {workingDir : List Name} {rootDir : List UInt8} {uri : Word 8184}

end Confinement

end Homework.FileServer
