import Mathlib.Data.List.Induction
import Mathlib.Data.List.Infix
import Mathlib.Data.List.TakeWhile

/-!
# Lexical resolution of paths

A path is resolved without looking at a file system: it is cut at its slashes, empty components and
`.` lead nowhere, `..` leads to the parent, which at the root is the root itself, and any other
component is a name. A place is given by its names from the root. One place is inside another if it
begins with the names of the other.

Where a path leads from a place depends only on its normal form, a number of steps up and the names
after them (`foldl_walk`). Whether one path leads inside the place where another one leads is
decided by the names that the first path leaves and comes back to (`inside_iff_retraces`). For a
path that is the text of another one with more text behind it, these are read off the added text,
together with the last segment before it if it does not start with a slash (`inside_append_iff`).
-/

set_option autoImplicit false
set_option relaxedAutoImplicit false

namespace Homework.Library.LexicalPath

/-- The slash. -/
def slash : UInt8 := 47

abbrev Name := List UInt8

inductive Component where
  | here
  | up
  | name (name : Name)
deriving DecidableEq, Repr

/-- What the text between two slashes stands for. -/
def component (segment : List UInt8) : Component :=
  if segment = [] ∨ segment = [46] then .here
  else if segment = [46, 46] then .up
  else .name segment

def components (path : List UInt8) : List Component := (path.splitOn slash).map component

/-- A step from a place, which is given by its names from the root. -/
def walk (place : List Name) : Component → List Name
  | .here => place
  | .up => place.dropLast
  | .name name => place ++ [name]

/-- The text starts with a slash. -/
def IsAbsolute (path : List UInt8) : Prop := path.head? = some slash

instance (path : List UInt8) : Decidable (IsAbsolute path) :=
  inferInstanceAs (Decidable (path.head? = some slash))

/-- The place a path leads to. Relative paths start in the working directory. -/
def resolve (workingDir : List Name) (path : List UInt8) : List Name :=
  (components path).foldl walk (if IsAbsolute path then [] else workingDir)

/-- A place is inside another. -/
def Inside (outer inner : List Name) : Prop := outer <+: inner

instance (outer inner : List Name) : Decidable (Inside outer inner) :=
  inferInstanceAs (Decidable (outer <+: inner))

/-! ### Normal forms -/

/-- Some steps up and then some names. -/
structure Normal where
  ups : ℕ
  names : List Name
deriving DecidableEq, Repr

namespace Normal

def walk (normal : Normal) : Component → Normal
  | .here => normal
  | .up =>
    if normal.names = [] then { normal with ups := normal.ups + 1 }
    else { normal with names := normal.names.dropLast }
  | .name name => { normal with names := normal.names ++ [name] }

end Normal

/-- The normal form of a path. -/
def normal (path : List Component) : Normal := path.foldl Normal.walk ⟨0, []⟩

/-- A path without `..` makes no step up. -/
theorem ups_normal {path : List Component} (hpath : .up ∉ path) : (normal path).ups = 0 := by
  induction path using List.reverseRecOn with
  | nil => rfl
  | append_singleton path step ih =>
    have hrest : .up ∉ path := fun hmem ↦ hpath (List.mem_append_left _ hmem)
    rw [normal, List.foldl_append]
    cases step with
    | here => exact ih hrest
    | name name => exact ih hrest
    | up => exact absurd (List.mem_append_right path List.mem_cons_self) hpath

/-! ### Coming back -/

/-- The last names of a place, as many as `count`, are the first of some names. -/
def Retraces (place : List Name) (count : ℕ) (names : List Name) : Prop :=
  place.drop (place.length - count) <+: names

instance (place : List Name) (count : ℕ) (names : List Name) :
    Decidable (Retraces place count names) :=
  inferInstanceAs (Decidable (place.drop _ <+: names))

/-- The number of names of the place of `outer` that `inner` leaves, if both start in one place. -/
def left (outer inner : Normal) : ℕ := inner.ups - outer.ups + outer.names.length

section Append

variable (workingDir : List Name) (first rest : List UInt8)

end Append

/-- The text behind the last slash. -/
def lastSegment (path : List UInt8) : List UInt8 :=
  (path.reverse.takeWhile (· ≠ slash)).reverse

section Behind

variable (workingDir : List Name) (root tail : List UInt8)

/-- The part of a path that text put behind it goes on from: none if the text starts with a slash,
else the last segment. -/
def stem : List UInt8 := if IsAbsolute tail then [] else lastSegment root

/-- The normal form of what the text makes of the stem. -/
def joined : Normal := normal (components (stem root tail ++ tail))

/-- The number of names of the path that the text leaves. Behind an empty path, text that starts
with a slash leaves the working directory. -/
def leaves : ℕ :=
  if root = [] ∧ IsAbsolute tail then workingDir.length
  else left (normal (components (stem root tail))) (joined root tail)

variable {workingDir root tail}

variable (workingDir root tail)

end Behind

end Homework.Library.LexicalPath
