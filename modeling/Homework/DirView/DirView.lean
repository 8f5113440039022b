import Homework.Library.CString

/-!
# The directory view

`add_directory_to_model` fills a tree store with the entries of a directory, and goes down wherever
`stat` finds a directory. The file system is not part of the program: it is what `stat` says of a
path, which for a symbolic link is said of its target, and the names that `readdir` gives after
`opendir`, with `.` and `..` among them. Either call may fail.

A tree store is the list of its rows, each with the rows below it. The recursion is bounded by fuel.
-/

set_option autoImplicit false
set_option relaxedAutoImplicit false

namespace Homework.DirView

open Homework.Library.CString

abbrev Name := List UInt8

abbrev Path := List UInt8

/-- What `S_ISDIR` makes of `st_mode`. -/
inductive Mode where
  | directory
  | other
deriving DecidableEq, Repr

structure FileSystem where
  stat : Path → Option Mode
  opendir : Path → Option (List Name)

inductive Row where
  | mk (name : Name) (children : List Row)

/-- `is_directory`. -/
def isDirectory (system : FileSystem) (path : Path) : Bool :=
  match system.stat path with
  | none => false
  | some mode => mode = .directory

/-- `is_dot_directory`. -/
def isDotDirectory (name : Name) : Bool := name = ascii ".." || name = ascii "."

/-- `get_full_path`. -/
def getFullPath (dir : Path) (name : Name) : Path := dir ++ ascii "/" ++ name

/-- `add_directory_to_model`: the rows that it appends below its parent. -/
def addDirectoryToModel (system : FileSystem) : ℕ → Path → Option (List Row)
  | 0, _ => none
  | fuel + 1, path =>
    match system.opendir path with
    | none => some []
    | some names =>
      names.mapM fun name ↦
        let dst := getFullPath path name
        if isDirectory system dst && !isDotDirectory name then
          (addDirectoryToModel system fuel dst).map (Row.mk name)
        else some (.mk name [])

/-- `create_and_fill_model`. -/
def createAndFillModel (system : FileSystem) (fuel : ℕ) : Option (List Row) :=
  addDirectoryToModel system fuel (ascii ".")

end Homework.DirView
