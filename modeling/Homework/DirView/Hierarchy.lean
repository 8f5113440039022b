import Homework.DirView.DirView
import Mathlib.Data.List.Basic

/-!
# The view of a file hierarchy

A file hierarchy is what is physically below a directory: a symbolic link is an entry like a file,
with nothing below it. The file system that the program sees presents a hierarchy if `stat` and
`opendir` agree with it (`Presents`); where a link leads to is not said by the hierarchy.

The tree store is the hierarchy exactly when every directory that has entries can be opened, and no
link leads to a directory in which there is anything to be listed (`faithful_iff`): the program goes
down there as well, and lists the entries of that directory below the link.
-/

set_option autoImplicit false
set_option relaxedAutoImplicit false

namespace Homework.DirView

open Homework.Library.CString

/-! ### Hierarchies -/

/-- The entries without entries below them: `.` and `..`, files, and symbolic links. -/
inductive Leaf where
  | dot
  | file
  | link
deriving DecidableEq, Repr

/-- The entries of a directory in the order of `readdir`, each with the entries below it. -/
inductive Entries where
  | nil
  | leaf (name : Name) (kind : Leaf) (rest : Entries)
  | directory (name : Name) (below : Entries) (rest : Entries)

namespace Entries

def names : Entries → List Name
  | nil => []
  | leaf name _ rest => name :: rest.names
  | directory name _ rest => name :: rest.names

/-- The tree of the hierarchy: each entry once, below the directory that contains it. -/
def rows : Entries → List Row
  | nil => []
  | leaf name _ rest => .mk name [] :: rest.rows
  | directory name below rest => .mk name below.rows :: rest.rows

theorem rows_eq_nil_iff (entries : Entries) : entries.rows = [] ↔ entries.names = [] := by
  cases entries with
  | nil => exact iff_of_true rfl rfl
  | leaf name kind rest => exact iff_of_false (List.cons_ne_nil _ _) (List.cons_ne_nil _ _)
  | directory name below rest => exact iff_of_false (List.cons_ne_nil _ _) (List.cons_ne_nil _ _)

end Entries

/-- A file system shows the entries of the directory at a path: an entry is a directory for `stat`
only if it is one or is a link, and a directory that can be opened lists its own entries. -/
def Presents (system : FileSystem) : Path → Entries → Prop
  | _, .nil => True
  | path, .leaf name kind rest =>
    (match kind with
      | .dot => isDotDirectory name = true
      | .file => isDotDirectory name = false ∧ isDirectory system (getFullPath path name) = false
      | .link => isDotDirectory name = false) ∧
    Presents system path rest
  | path, .directory name below rest =>
    isDotDirectory name = false ∧
    (∀ names, system.opendir (getFullPath path name) = some names → names = below.names) ∧
    Presents system (getFullPath path name) below ∧ Presents system path rest

/-- The directory at a path can be opened, if it has entries. -/
def Opens (system : FileSystem) (path : Path) (entries : Entries) : Prop :=
  entries.names ≠ [] → (system.opendir path).isSome = true

/-- A link does not lead to a directory in which there is anything to be listed. -/
def LeadsNowhere (system : FileSystem) (path : Path) : Prop :=
  isDirectory system path = true → ∀ names, system.opendir path = some names → names = []

/-- Below a directory all directories with entries can be opened, and links lead nowhere. -/
def Plain (system : FileSystem) : Path → Entries → Prop
  | _, .nil => True
  | path, .leaf name kind rest =>
    (kind = .link → LeadsNowhere system (getFullPath path name)) ∧ Plain system path rest
  | path, .directory name below rest =>
    ((below.names ≠ [] → isDirectory system (getFullPath path name) = true) ∧
      Opens system (getFullPath path name) below ∧
      Plain system (getFullPath path name) below) ∧
    Plain system path rest

/-! ### One entry -/

section Lists

variable {A B : Type} {first second : A → Option B}

theorem mapM_cons_eq_some_iff {item : A} {items : List A} {found : B} {results : List B} :
    (item :: items).mapM first = some (found :: results) ↔
      first item = some found ∧ items.mapM first = some results := by
  rw [List.mapM_cons]
  rcases first item with _ | other
  · exact iff_of_false nofun nofun
  · rcases items.mapM first with _ | others
    · exact iff_of_false nofun (fun hand ↦ absurd hand.2 nofun)
    · simp

theorem mapM_cons_eq_some {item : A} {items : List A} {results : List B}
    (hresults : (item :: items).mapM first = some results) :
    ∃ found others, results = found :: others ∧ first item = some found ∧
      items.mapM first = some others := by
  rw [List.mapM_cons] at hresults
  obtain ⟨found, hfound, hrest⟩ := Option.bind_eq_some_iff.mp hresults
  obtain ⟨others, hothers, heq⟩ := Option.bind_eq_some_iff.mp hrest
  exact ⟨found, others, (Option.some.inj heq).symm, hfound, hothers⟩

theorem mapM_mono (hmono : ∀ item found, first item = some found → second item = some found)
    {items : List A} {results : List B} (hresults : items.mapM first = some results) :
    items.mapM second = some results := by
  induction items generalizing results with
  | nil => exact hresults
  | cons item items ih =>
    obtain ⟨found, others, rfl, hfound, hothers⟩ := mapM_cons_eq_some hresults
    exact mapM_cons_eq_some_iff.mpr ⟨hmono item found hfound, ih hothers⟩

end Lists

/-- The row of an entry, and those below it. -/
def addEntry (system : FileSystem) (fuel : ℕ) (path : Path) (name : Name) : Option Row :=
  if isDirectory system (getFullPath path name) && !isDotDirectory name then
    (addDirectoryToModel system fuel (getFullPath path name)).map (Row.mk name)
  else some (.mk name [])

section Entry

variable {system : FileSystem} {path : Path} {name : Name} {fuel more : ℕ}

theorem addDirectoryToModel_of_none (hopendir : system.opendir path = none) (fuel : ℕ) :
    addDirectoryToModel system (fuel + 1) path = some [] := by
  rw [addDirectoryToModel, hopendir]

theorem addDirectoryToModel_of_some {names : List Name}
    (hopendir : system.opendir path = some names) (fuel : ℕ) :
    addDirectoryToModel system (fuel + 1) path = names.mapM (addEntry system fuel path) := by
  rw [addDirectoryToModel, hopendir]
  rfl

theorem addEntry_mono {row : Row}
    (hmono : ∀ rows, addDirectoryToModel system fuel (getFullPath path name) = some rows →
      addDirectoryToModel system more (getFullPath path name) = some rows)
    (hrow : addEntry system fuel path name = some row) :
    addEntry system more path name = some row := by
  rw [addEntry] at hrow ⊢
  split at hrow
  · next hdescends =>
    obtain ⟨rows, hrows, rfl⟩ := Option.map_eq_some_iff.mp hrow
    rw [if_pos hdescends, hmono rows hrows]
    rfl
  · next hstays =>
    rw [if_neg hstays]
    exact hrow

/-- A call that succeeds succeeds with more fuel. -/
theorem addDirectoryToModel_mono {rows : List Row} (hfuel : fuel ≤ more)
    (hrows : addDirectoryToModel system fuel path = some rows) :
    addDirectoryToModel system more path = some rows := by
  induction fuel generalizing path rows more with
  | zero => exact absurd hrows nofun
  | succ fuel ih =>
    obtain ⟨more, rfl⟩ := Nat.exists_eq_add_of_lt hfuel
    rcases hopendir : system.opendir path with _ | names
    · rw [addDirectoryToModel_of_none hopendir] at hrows ⊢
      exact hrows
    · rw [addDirectoryToModel_of_some hopendir] at hrows ⊢
      refine mapM_mono (fun name row hrow ↦ addEntry_mono (fun rows hrows ↦ ?_) hrow) hrows
      exact ih (Nat.le_add_right fuel _) hrows

/-- The rows of some entries, and that of one more: both are found with enough fuel exactly when
each is. -/
theorem exists_fuel_cons {names : List Name} {row : Row} {rows : List Row} :
    (∃ fuel, (name :: names).mapM (addEntry system fuel path) = some (row :: rows)) ↔
      (∃ fuel, addEntry system fuel path name = some row) ∧
        ∃ fuel, names.mapM (addEntry system fuel path) = some rows := by
  constructor
  · rintro ⟨fuel, hrows⟩
    obtain ⟨hrow, hrows⟩ := mapM_cons_eq_some_iff.mp hrows
    exact ⟨⟨fuel, hrow⟩, fuel, hrows⟩
  · rintro ⟨⟨first, hrow⟩, second, hrows⟩
    have hfirst := addEntry_mono
      (fun _ ↦ addDirectoryToModel_mono (le_max_left first second)) hrow
    have hsecond := mapM_mono (fun _ _ ↦ addEntry_mono
      (fun _ ↦ addDirectoryToModel_mono (le_max_right first second))) hrows
    exact ⟨max first second, mapM_cons_eq_some_iff.mpr ⟨hfirst, hsecond⟩⟩

theorem exists_fuel_of_none (hopendir : system.opendir path = none) {rows : List Row} :
    (∃ fuel, addDirectoryToModel system fuel path = some rows) ↔ rows = [] := by
  constructor
  · rintro ⟨_ | fuel, hrows⟩
    · exact absurd hrows nofun
    · rw [addDirectoryToModel_of_none hopendir] at hrows
      exact (Option.some.inj hrows).symm
  · rintro rfl
    exact ⟨1, addDirectoryToModel_of_none hopendir 0⟩

theorem exists_fuel_of_some {names : List Name} (hopendir : system.opendir path = some names)
    {rows : List Row} :
    (∃ fuel, addDirectoryToModel system fuel path = some rows) ↔
      ∃ fuel, names.mapM (addEntry system fuel path) = some rows := by
  constructor
  · rintro ⟨_ | fuel, hrows⟩
    · exact absurd hrows nofun
    · rw [addDirectoryToModel_of_some hopendir] at hrows
      exact ⟨fuel, hrows⟩
  · rintro ⟨fuel, hrows⟩
    exact ⟨fuel + 1, (addDirectoryToModel_of_some hopendir fuel).trans hrows⟩

/-- The view of the directory at a path, once the rows of its entries are known. -/
theorem exists_fuel_addDirectory {entries : Entries}
    (hlists : ∀ names, system.opendir path = some names → names = entries.names) :
    (∃ fuel, addDirectoryToModel system fuel path = some entries.rows) ↔
      Opens system path entries ∧
        ∃ fuel, entries.names.mapM (addEntry system fuel path) = some entries.rows := by
  rw [Opens]
  rcases hopendir : system.opendir path with _ | names
  · rw [exists_fuel_of_none hopendir, entries.rows_eq_nil_iff]
    constructor
    · intro hnames
      rw [hnames, entries.rows_eq_nil_iff.mpr hnames]
      exact ⟨fun hne ↦ absurd rfl hne, 0, rfl⟩
    · rintro ⟨hopens, -⟩
      by_contra hnames
      exact Bool.false_ne_true (hopens hnames)
  · obtain rfl := hlists names hopendir
    rw [exists_fuel_of_some hopendir]
    exact (and_iff_right fun _ ↦ rfl).symm

/-- An entry in which the program does not go down. -/
theorem exists_fuel_stays
    (hstays : ¬(isDirectory system (getFullPath path name) && !isDotDirectory name) = true)
    {rows : List Row} :
    (∃ fuel, addEntry system fuel path name = some (.mk name rows)) ↔ rows = [] := by
  simp only [addEntry, if_neg hstays, Option.some.injEq, Row.mk.injEq, true_and, exists_const]
  exact eq_comm

/-- An entry in which the program goes down. -/
theorem exists_fuel_descends
    (hdescends : (isDirectory system (getFullPath path name) && !isDotDirectory name) = true)
    {rows : List Row} :
    (∃ fuel, addEntry system fuel path name = some (.mk name rows)) ↔
      ∃ fuel, addDirectoryToModel system fuel (getFullPath path name) = some rows := by
  refine exists_congr fun fuel ↦ ?_
  rw [addEntry, if_pos hdescends, Option.map_eq_some_iff]
  constructor
  · rintro ⟨found, hfound, heq⟩
    exact (Row.mk.inj heq).2 ▸ hfound
  · exact fun hrows ↦ ⟨rows, hrows, rfl⟩

/-- A row has nothing below it exactly when its entry does not lead to a directory. -/
theorem exists_fuel_leaf :
    (∃ fuel, addEntry system fuel path name = some (.mk name [])) ↔
      (isDotDirectory name = false → LeadsNowhere system (getFullPath path name)) := by
  rw [LeadsNowhere]
  by_cases hdescends : (isDirectory system (getFullPath path name) && !isDotDirectory name) = true
  · obtain ⟨hdirectory, hdot⟩ := Bool.and_eq_true_iff.mp hdescends
    rw [exists_fuel_descends hdescends, forall_prop_of_true (Bool.not_eq_true' _ |>.mp hdot),
      forall_prop_of_true hdirectory]
    rcases hopendir : system.opendir (getFullPath path name) with _ | names
    · rw [exists_fuel_of_none hopendir]
      exact iff_of_true rfl nofun
    · rw [exists_fuel_of_some hopendir]
      constructor
      · rintro ⟨fuel, hrows⟩ others hothers
        obtain rfl := Option.some.inj hothers
        rcases names with _ | ⟨first, names⟩
        · rfl
        · obtain ⟨row, rows, heq, -⟩ := mapM_cons_eq_some hrows
          exact absurd heq nofun
      · intro hempty
        rw [hempty names rfl]
        exact ⟨0, rfl⟩
  · rw [exists_fuel_stays hdescends]
    refine iff_of_true rfl fun hdot hdirectory ↦ absurd ?_ hdescends
    rw [hdirectory, hdot]
    rfl

/-- A directory gets its row and the rows of what is below it. -/
theorem exists_fuel_directory {below : Entries} (hname : isDotDirectory name = false)
    (hlists : ∀ names, system.opendir (getFullPath path name) = some names → names = below.names)
    (hbelow : (∃ fuel, below.names.mapM (addEntry system fuel (getFullPath path name)) =
      some below.rows) ↔ Plain system (getFullPath path name) below) :
    (∃ fuel, addEntry system fuel path name = some (.mk name below.rows)) ↔
      (below.names ≠ [] → isDirectory system (getFullPath path name) = true) ∧
        Opens system (getFullPath path name) below ∧
        Plain system (getFullPath path name) below := by
  rcases hdirectory : isDirectory system (getFullPath path name) with _ | _
  · have hstays : ¬(isDirectory system (getFullPath path name) && !isDotDirectory name) = true := by
      rw [hdirectory]
      exact Bool.false_ne_true
    rw [exists_fuel_stays hstays, below.rows_eq_nil_iff]
    constructor
    · intro hnames
      refine ⟨fun hne ↦ absurd hnames hne, fun hne ↦ absurd hnames hne, hbelow.mp ⟨0, ?_⟩⟩
      rw [hnames, below.rows_eq_nil_iff.mpr hnames]
      rfl
    · rintro ⟨hdescends, -⟩
      by_contra hnames
      exact Bool.false_ne_true (hdescends hnames)
  · have hdescends :
        (isDirectory system (getFullPath path name) && !isDotDirectory name) = true := by
      rw [hdirectory, hname]
      rfl
    rw [exists_fuel_descends hdescends, exists_fuel_addDirectory hlists, hbelow]
    exact (and_iff_right fun _ ↦ rfl).symm

end Entry

/-! ### The hierarchy -/

/-- The entries of a directory get their rows exactly when everything below it is plain. -/
theorem exists_fuel_iff {system : FileSystem} {path : Path} {entries : Entries}
    (hpresents : Presents system path entries) :
    (∃ fuel, entries.names.mapM (addEntry system fuel path) = some entries.rows) ↔
      Plain system path entries := by
  induction entries generalizing path with
  | nil => exact iff_of_true ⟨0, rfl⟩ trivial
  | leaf name kind rest ih =>
    obtain ⟨hkind, hrest⟩ := hpresents
    refine exists_fuel_cons.trans (and_congr (exists_fuel_leaf.trans ?_) (ih hrest))
    cases kind with
    | dot =>
      rw [show isDotDirectory name = true from hkind]
      exact iff_of_true nofun nofun
    | file =>
      rw [show isDotDirectory name = false from hkind.1, LeadsNowhere, hkind.2]
      exact iff_of_true (fun _ ↦ nofun) nofun
    | link =>
      rw [show isDotDirectory name = false from hkind]
      rw [forall_prop_of_true rfl, forall_prop_of_true rfl]
  | directory name below rest ihBelow ihRest =>
    obtain ⟨hname, hlists, hbelow, hrest⟩ := hpresents
    exact exists_fuel_cons.trans
      (and_congr (exists_fuel_directory hname hlists (ihBelow hbelow)) (ihRest hrest))

/-- The tree store is the hierarchy exactly when it can be opened and is plain. -/
theorem faithful_iff {system : FileSystem} {entries : Entries}
    (hlists : ∀ names, system.opendir (ascii ".") = some names → names = entries.names)
    (hpresents : Presents system (ascii ".") entries) :
    (∃ fuel, createAndFillModel system fuel = some entries.rows) ↔
      Opens system (ascii ".") entries ∧ Plain system (ascii ".") entries := by
  refine (exists_fuel_addDirectory hlists).trans (and_congr_right fun _ ↦ ?_)
  exact exists_fuel_iff hpresents

/-! ### A link to a file, and a link to a directory -/

/-- A file system that is given by its directories. All other paths are files. -/
def FileSystem.ofDirectories (directories : List (Path × List Name)) : FileSystem where
  stat := fun path ↦ some (if (directories.lookup path).isSome then .directory else .other)
  opendir := fun path ↦ directories.lookup path

/-- The dots, and the entries after them. -/
def Entries.dotted (entries : Entries) : Entries :=
  .leaf (ascii ".") .dot (.leaf (ascii "..") .dot entries)

/-- An empty directory `d`, and a link `l`. -/
def linkEntries : Entries :=
  .dotted (.directory (ascii "d") (.dotted .nil) (.leaf (ascii "l") .link .nil))

/-- The link leads to a file. -/
def fileLink : FileSystem := .ofDirectories
  [(ascii ".", [ascii ".", ascii "..", ascii "d", ascii "l"]),
    (ascii "./d", [ascii ".", ascii ".."])]

/-- The link leads to the directory `d`. -/
def directoryLink : FileSystem := .ofDirectories
  [(ascii ".", [ascii ".", ascii "..", ascii "d", ascii "l"]),
    (ascii "./d", [ascii ".", ascii ".."]), (ascii "./l", [ascii ".", ascii ".."])]

theorem faithful_fileLink : ∃ fuel, createAndFillModel fileLink fuel = some linkEntries.rows := by
  refine (faithful_iff (fun _ hnames ↦ (Option.some.inj hnames).symm) ?_).mpr ⟨?_, ?_⟩
  · refine ⟨rfl, rfl, ⟨rfl, fun _ hnames ↦ (Option.some.inj hnames).symm, ⟨rfl, rfl, trivial⟩, rfl,
      trivial⟩⟩
  · exact fun _ ↦ rfl
  · refine ⟨nofun, nofun, ⟨fun _ ↦ rfl, fun _ ↦ rfl, nofun, nofun, trivial⟩, ?_, trivial⟩
    exact fun _ hdirectory ↦ absurd hdirectory (by decide)

/-- The entries of a directory are listed below a link to it. -/
theorem directoryLink_not_faithful :
    ¬∀ (system : FileSystem) (entries : Entries),
      (∀ names, system.opendir (ascii ".") = some names → names = entries.names) →
      Presents system (ascii ".") entries →
      ∃ fuel, createAndFillModel system fuel = some entries.rows := by
  intro hall
  have hlists (names : List Name) (hnames : directoryLink.opendir (ascii ".") = some names) :
      names = linkEntries.names := (Option.some.inj hnames).symm
  have hpresents : Presents directoryLink (ascii ".") linkEntries :=
    ⟨rfl, rfl, ⟨rfl, fun _ hnames ↦ (Option.some.inj hnames).symm, ⟨rfl, rfl, trivial⟩, rfl,
      trivial⟩⟩
  have hentries := ((exists_fuel_addDirectory hlists).mp (hall _ _ hlists hpresents)).2
  obtain ⟨-, -, -, hlink, -⟩ := (exists_fuel_iff hpresents).mp hentries
  exact absurd (hlink rfl (by decide) _ rfl) (by decide)

end Homework.DirView
