import Homework.Hash.Correctness
import Homework.Hash.Growth
import Homework.Library.Console
import Homework.Library.Decimal
import Homework.Library.Lines
import Homework.Library.Words

/-!
# The word counter as a program

`main` reads the words of its file with `%99s`, so a longer run of signs is taken as several words,
counts them in the table and prints the key and the value of every element, in the order of the
array. The lines can be told apart in what is printed, because no key holds a blank. So from the
output alone one can see whether the count went right, and it did exactly when the file holds no
zero byte, no word occurs too often for an `int` and every new word is placeable
(`main_counts_iff`).
-/

set_option autoImplicit false
set_option relaxedAutoImplicit false

namespace Homework.Hash

open Homework.Library.CString Homework.Library.Console Homework.Library.Decimal
open Homework.Library.LinearProbing Homework.Library.Lines Homework.Library.Words

/-! ### The program -/

/-- The words that the calls of `fscanf` with `%99s` read. -/
def readWords (content : List UInt8) : List (List UInt8) := scanWords isSpace 99 content

/-- What `printf` prints with `%s %d`. -/
def countLine (key : List UInt8) (value : ℤ) : List UInt8 :=
  key ++ 32 :: (intBytes value ++ [10])

/-- A round of the printing loop of `main`. -/
def printElement (table : HashTable) (i : ℕ) : Printer Fault Unit :=
  match table.elements i with
  | none => pure ()
  | some element => print (countLine element.key element.value)

/-- `main`, with its exit status. The content of a file is given if it can be opened. -/
def main (openFile : List UInt8 → Option (List UInt8)) (argv : List (List UInt8)) :
    Printer Fault ℕ :=
  match argv with
  | _ :: path :: _ =>
    match openFile path with
    | none => do
      print (ascii "Open error")
      return 1
    | some content => do
      let table ← silently id (countWords (readWords content))
      (List.range table.capacity).forM (printElement table)
      return 0
  | _ => do
    print (ascii "Usage: hash <path>")
    return 1

/-! ### Lines -/

/-- The line of an element. -/
def Element.line (element : Element) : List UInt8 := countLine element.key element.value

theorem isLine_countLine {key : List UInt8} (hkey : (10 : UInt8) ∉ key) (value : ℤ) :
    IsLine 10 (countLine key value) := by
  refine ⟨key ++ 32 :: intBytes value, ?_, ?_⟩
  · rw [List.mem_append, List.mem_cons, not_or, not_or]
    exact ⟨hkey, by decide, notMem_intBytes (by decide) (by decide) value⟩
  · rw [countLine, List.append_assoc, List.cons_append]

/-- A key without blanks and a value are determined by their line. -/
theorem countLine_inj {key key' : List UInt8} {value value' : ℤ} (hkey : (32 : UInt8) ∉ key)
    (hkey' : (32 : UInt8) ∉ key') (hline : countLine key value = countLine key' value') :
    key = key' ∧ value = value' := by
  obtain ⟨rfl, hrest⟩ := eq_of_append_stop hkey hkey' hline
  exact ⟨rfl, intBytes_inj.mp (List.append_cancel_right hrest)⟩

/-- The printing loop prints the lines of the elements. -/
theorem prints_elements (table : HashTable) :
    Prints ((List.range table.capacity).forM (printElement table))
      ((entries table).map Element.line).flatten (.ok ()) := by
  have hround : ∀ i ∈ List.range table.capacity, Prints (printElement table i)
      ((table.elements i).elim [] Element.line) (.ok ()) := by
    intro i _
    unfold printElement
    rcases table.elements i with _ | element
    · exact prints_pure ()
    · exact prints_print _
  have htext : ∀ indices : List ℕ,
      indices.flatMap (fun i ↦ (table.elements i).elim [] Element.line) =
        ((indices.filterMap table.elements).map Element.line).flatten := by
    intro indices
    induction indices with
    | nil => rfl
    | cons i rest ih =>
      rw [List.flatMap_cons, ih, List.filterMap_cons]
      rcases table.elements i with _ | element
      · rfl
      · rfl
  exact htext _ ▸ prints_forM hround

/-! ### What the program prints -/

section Printed

variable {openFile : List UInt8 → Option (List UInt8)} {path content : List UInt8}
  (hfile : openFile path = some content) (program : List UInt8)
include hfile

theorem prints_main_of_fault {fault : Fault}
    (hcount : countWords (readWords content) = .error fault) :
    Prints (main openFile [program, path]) [] (.error fault) := by
  simp only [main, hfile, hcount]
  exact (prints_silently_error id fault).bind_stop _

theorem prints_main_of_table {table : HashTable}
    (hcount : countWords (readWords content) = .ok table) :
    Prints (main openFile [program, path]) ((entries table).map Element.line).flatten
      (.ok 0) := by
  simp only [main, hfile, hcount]
  refine (prints_silently_ok id table).silent_bind ?_
  have hboth : Prints ((List.range table.capacity).forM (printElement table) >>= fun _ ↦ pure 0)
      (((entries table).map Element.line).flatten ++ []) (.ok 0) :=
    (prints_elements table).bind (prints_pure 0)
  rwa [List.append_nil] at hboth

end Printed

/-- Every key of the table is one of the words, as a C string. -/
theorem key_of_countWords {words : List (List UInt8)} {table : HashTable}
    (hrun : countWords words = .ok table) {slot : ℕ} {element : Element}
    (helement : table.elements slot = some element) :
    ∃ word ∈ words, element.key = cString word := by
  induction words using List.reverseRecOn generalizing table slot element with
  | nil =>
    obtain rfl := Except.ok.inj hrun
    cases helement
  | append_singleton words word ih =>
    have hlast : word ∈ words ++ [word] := List.mem_append_right _ List.mem_cons_self
    rw [countWords_append_singleton] at hrun
    rcases hbefore : countWords words with fault | before
    · simp only [hbefore, reduceCtorEq] at hrun
    · simp only [hbefore] at hrun
      rcases elements_of_countWord hrun helement with
        ⟨place, hold⟩ | ⟨_, _, _, _, rfl⟩ | rfl
      · obtain ⟨other, hother, hkey⟩ := ih hbefore hold
        exact ⟨other, List.mem_append_left _ hother, hkey⟩
      · exact ⟨word, hlast, rfl⟩
      · exact ⟨word, hlast, rfl⟩

/-- The words of a file hold a zero byte exactly when the file does. -/
theorem zero_mem_readWords_iff (content : List UInt8) :
    (∃ word ∈ readWords content, (0 : UInt8) ∈ word) ↔ (0 : UInt8) ∈ content := by
  have hflatten : (readWords content).flatten = content.filter fun byte ↦ !isSpace byte :=
    flatten_scanWords (by decide) content
  rw [← List.mem_flatten, hflatten, List.mem_filter]
  exact and_iff_left (by decide)

theorem notMem_of_isSpace {content word : List UInt8} (hword : word ∈ readWords content)
    {blank : UInt8} (hblank : isSpace blank = true) : blank ∉ word := by
  intro hmem
  have hclean := (of_mem_scanWords (by decide) hword).2.2 blank hmem
  exact absurd (hblank.symm.trans hclean) (by decide)

/-- The keys hold no blanks, as the words hold none. -/
theorem notMem_key_of_isSpace {content : List UInt8} {table : HashTable}
    (hcount : countWords (readWords content) = .ok table) {element : Element}
    (helement : element ∈ entries table) {blank : UInt8} (hblank : isSpace blank = true) :
    blank ∉ element.key := by
  obtain ⟨slot, -, hslot⟩ := mem_entries.mp helement
  obtain ⟨word, hword, hkey⟩ := key_of_countWords hcount hslot
  rw [hkey]
  exact fun hmem ↦ notMem_of_isSpace hword hblank ((List.takeWhile_subset _) hmem)

/-- The lines of a correct count. -/
def tallyLines (words : List (List UInt8)) : List (List UInt8) :=
  words.dedup.map fun word ↦ countLine word (words.count word)

/-- In a table with the exact content the elements are the words with their numbers. -/
theorem Content.perm_entries {words : List (List UInt8)} {table : HashTable}
    (htable : Content words table) (hsmall : ∀ word ∈ words, words.count word < 2 ^ 31) :
    (entries table).Perm (words.dedup.map fun word ↦ ⟨words.count word, word⟩) := by
  have honce : (entries table).Nodup := nodup_entries fun slot slot' element hslot hslot' ↦
    htable.probing.distinct hslot hslot' rfl
  have hdedup : (words.dedup.map fun word ↦ (⟨words.count word, word⟩ : Element)).Nodup :=
    (List.nodup_dedup words).map fun first second hsame ↦ congrArg Element.key hsame
  rw [List.perm_ext_iff_of_nodup honce hdedup]
  intro element
  have hvalue : ∀ word ∈ words, ∀ other ∈ entries table, other.key = word →
      other = ⟨words.count word, word⟩ := by
    intro word hword other hother hkey
    obtain ⟨slot, hslot⟩ := htable.mem_entries_iff.mp hother
    have heq : other.value = words.count word := by
      rw [htable.value_eq hslot, hkey, (wrapInt_natCast_eq_iff _).mpr (hsmall word hword)]
    obtain ⟨value, key⟩ := other
    obtain rfl : key = word := hkey
    obtain rfl : value = _ := heq
    rfl
  rw [List.mem_map]
  constructor
  · intro helement
    have hword := (htable.stored_iff_entries element.key).mpr ⟨element, helement, rfl⟩
    exact ⟨element.key, List.mem_dedup.mpr hword, (hvalue _ hword element helement rfl).symm⟩
  · rintro ⟨word, hword, rfl⟩
    have hmem := List.mem_dedup.mp hword
    obtain ⟨other, hother, hkey⟩ := (htable.stored_iff_entries word).mp hmem
    exact hvalue word hmem other hother hkey ▸ hother

/-- From the output of a run that ends, the lines of the elements can be read off. -/
theorem lines_eq_of_prints {openFile : List UInt8 → Option (List UInt8)} {path content : List UInt8}
    (hfile : openFile path = some content) (program : List UInt8)
    {lines : List (List UInt8)} (hperm : lines.Perm (tallyLines (readWords content)))
    (hprints : Prints (main openFile [program, path]) lines.flatten (.ok 0)) :
    ∃ table, countWords (readWords content) = .ok table ∧
      lines = (entries table).map Element.line := by
  rcases hcount : countWords (readWords content) with fault | table
  · exact absurd (hprints.unique (prints_main_of_fault hfile program hcount)).1 (by simp)
  · refine ⟨table, rfl, ?_⟩
    have htext := (hprints.unique (prints_main_of_table hfile program hcount)).2
    have htally : ∀ line ∈ lines, IsLine 10 line := by
      intro line hline
      obtain ⟨word, hword, rfl⟩ := List.mem_map.mp (hperm.mem_iff.mp hline)
      exact isLine_countLine (notMem_of_isSpace (List.mem_dedup.mp hword) (by decide)) _
    have hprinted : ∀ line ∈ (entries table).map Element.line, IsLine 10 line := by
      intro line hline
      obtain ⟨element, helement, rfl⟩ := List.mem_map.mp hline
      exact isLine_countLine (notMem_key_of_isSpace hcount helement (by decide)) _
    exact eq_of_flatten_eq htally hprinted htext

section Counted

variable {content : List UInt8} {table : HashTable}
  (hcount : countWords (readWords content) = .ok table)
  (hperm : ((entries table).map Element.line).Perm (tallyLines (readWords content)))
include hcount hperm

/-- If the lines are those of a correct count, every word has an element with its number. -/
theorem exists_element_of_perm {word : List UInt8} (hword : word ∈ readWords content) :
    ∃ slot element, table.elements slot = some element ∧ element.key = word ∧
      element.value = (readWords content).count word := by
  have hline := hperm.mem_iff.mpr (List.mem_map_of_mem (List.mem_dedup.mpr hword))
  obtain ⟨element, helement, hsame⟩ := List.mem_map.mp hline
  obtain ⟨slot, -, hslot⟩ := mem_entries.mp helement
  obtain ⟨hkey, hvalue⟩ := countLine_inj
    (notMem_key_of_isSpace hcount helement (by decide)) (notMem_of_isSpace hword (by decide)) hsame
  exact ⟨slot, element, hslot, hkey, hvalue⟩

theorem zero_notMem_of_perm : ∀ word ∈ readWords content, (0 : UInt8) ∉ word := by
  intro word hword
  obtain ⟨slot, element, hslot, rfl, -⟩ := exists_element_of_perm hcount hperm hword
  exact zero_notMem_of_countWords hcount hslot

/-- The lines are those of a correct count only if every new word was placeable and no number is too
large. Otherwise the elements of some word hold less than its number. -/
theorem allPlaceable_of_perm :
    (∀ word ∈ readWords content, (readWords content).count word < 2 ^ 31) ∧
      AllPlaceable (readWords content) := by
  rcases countWords_cases (zero_notMem_of_perm hcount hperm) with
    ⟨hall, table', hrun, hexact⟩ | ⟨-, hlow⟩
  · obtain rfl := Except.ok.inj (hcount.symm.trans hrun)
    refine ⟨fun word hword ↦ ?_, hall⟩
    obtain ⟨slot, element, hslot, rfl, hvalue⟩ := exists_element_of_perm hcount hperm hword
    exact (wrapInt_natCast_eq_iff _).mp ((hexact.value_eq hslot).symm.trans hvalue)
  · obtain ⟨word, hword, hless⟩ := hlow table hcount
    obtain ⟨slot, element, hslot, hkey, hvalue⟩ := exists_element_of_perm hcount hperm hword
    obtain ⟨count, hlt, hwrapped⟩ := hless slot element hslot hkey
    have hle := wrapInt_natCast_le count
    omega

end Counted

/-- The program prints one line for each word of its file, with its number of occurrences, and
returns 0, exactly when the file holds no zero byte, no word occurs `2 ^ 31` times or more, and
every new word is placeable. The words are the pieces of the file between its blanks, cut to 99
bytes. -/
theorem main_counts_iff (openFile : List UInt8 → Option (List UInt8)) {path content : List UInt8}
    (hfile : openFile path = some content) (program : List UInt8) {words : List (List UInt8)}
    (hwords : words = (pieces isSpace content).flatMap (cut 99)) :
    (∃ lines : List (List UInt8),
        lines.Perm (tallyLines words) ∧
        Prints (main openFile [program, path]) lines.flatten (.ok 0)) ↔
      (0 : UInt8) ∉ content ∧ (∀ word ∈ words, words.count word < 2 ^ 31) ∧
        AllPlaceable words := by
  obtain rfl : words = readWords content := hwords.trans (scanWords_eq (by decide) content).symm
  constructor
  · rintro ⟨lines, hperm, hprints⟩
    obtain ⟨table, hcount, rfl⟩ := lines_eq_of_prints hfile program hperm hprints
    refine ⟨fun hmem ↦ ?_, allPlaceable_of_perm hcount hperm⟩
    obtain ⟨word, hword, hmem⟩ := (zero_mem_readWords_iff content).mpr hmem
    exact zero_notMem_of_perm hcount hperm word hword hmem
  · rintro ⟨hclean, hsmall, hall⟩
    have hzero : ∀ word ∈ readWords content, (0 : UInt8) ∉ word := fun word hword hmem ↦
      hclean ((zero_mem_readWords_iff content).mp ⟨word, hword, hmem⟩)
    rcases countWords_cases hzero with ⟨-, table, hrun, hexact⟩ | ⟨hnot, -⟩
    · refine ⟨(entries table).map Element.line, ?_, prints_main_of_table hfile program hrun⟩
      have hperm := (hexact.perm_entries hsmall).map Element.line
      rwa [List.map_map] at hperm
    · exact absurd hall hnot

/-- A file of three words, two of them the same. -/
def threeWords : List UInt8 := ascii "b a b\n"

theorem pieces_threeWords :
    [[98], [97], [98]] = (pieces isSpace threeWords).flatMap (cut 99) := by
  have hpieces : pieces isSpace threeWords = [[98], [97], [98]] := by decide +kernel
  have hfits : ∀ piece ∈ pieces isSpace threeWords, piece.length ≤ 99 := by
    rw [hpieces]
    decide
  rw [flatMap_cut_of_fits hfits, hpieces]

/-- Both words are printed with their numbers. -/
theorem main_threeWords : ∃ lines : List (List UInt8),
    lines.Perm [ascii "a 1\n", ascii "b 2\n"] ∧
      Prints (main (fun _ ↦ some threeWords) [ascii "hash", ascii "t"]) lines.flatten (.ok 0) := by
  have hfits : ∀ words : List (List UInt8), words ⊆ [[98], [97]] → words.length ≤ 2 →
      Fits (homeOf 10) 10 words := by
    intro words hwords hlength
    refine fits_of_le (show ∀ word ∈ words, homeOf 10 word ≤ 2 from fun word hword ↦ ?_) (by omega)
    have hhomes : ∀ word ∈ ([[98], [97]] : List (List UInt8)), homeOf 10 word ≤ 2 := by decide
    exact hhomes word (hwords hword)
  have hall : AllPlaceable [[98], [97], [98]] := by
    intro held word later hsplit
    have hdistinct : distinctWords ([[98], [97], [98]] : List (List UInt8)) = [[98], [97]] := by
      decide
    rw [hdistinct] at hsplit
    rcases held with _ | ⟨first, _ | ⟨second, others⟩⟩
    · obtain ⟨rfl, -⟩ := List.cons.inj hsplit
      exact ⟨by decide, hfits _ (by decide) (by decide), fun hgrows ↦ absurd hgrows (by decide)⟩
    · obtain ⟨rfl, hrest⟩ := List.cons.inj hsplit
      obtain ⟨rfl, -⟩ := List.cons.inj hrest
      exact ⟨by decide, hfits _ (by decide) (by decide), fun hgrows ↦ absurd hgrows (by decide)⟩
    · have hlength := congrArg List.length hsplit
      simp at hlength
  exact (main_counts_iff (fun _ ↦ some threeWords) rfl (ascii "hash") pieces_threeWords).mpr
    ⟨by decide, by decide, hall⟩

end Homework.Hash
