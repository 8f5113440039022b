import Homework.Library.Selection
import Homework.LogParser.Statistics
import Mathlib.Algebra.Order.Ring.Int

/-!
# The heaviest urls and the most frequent referers

`select_top_n` sorts a map with `qsort` and prints the first entries. Its comparator subtracts two
`long` values and returns the difference as an `int`, so it sees the difference modulo `2 ^ 32` only
and takes an entry that is ahead by 2 GiB for one that is behind. `selectTopN_iff` says for which
maps it prints the entries of the largest values all the same, and `selectTopN_of_close` that it
does so when all values are close together.
-/

set_option autoImplicit false
set_option relaxedAutoImplicit false

namespace Homework.LogParser

open Homework.Library.Selection

/-! ### The program -/

/-- `compare_by_value`: the difference of two `long` values, returned as an `int`, which keeps its
lower 32 bits. -/
def compareByValue (a b : HashEntry) : ℤ := (b.value - a.value).bmod (2 ^ 32)

/-- A sorting routine for the entries of a map. -/
abbrev QSort := (HashEntry → HashEntry → ℤ) → List HashEntry → List HashEntry

/-- The entries that `select_top_n` prints, in order. -/
def selectTopN (qsort : QSort) (map : EntryMap) (n : ℕ) : List HashEntry :=
  (qsort compareByValue map.entries).take n

/-! ### The comparator -/

theorem compareByValue_of_eq {a b : HashEntry} (hvalue : a.value = b.value) :
    compareByValue a b = 0 := by
  rw [compareByValue, hvalue, sub_self, Int.zero_bmod]

/-- An entry goes strictly before another exactly when its value is ahead by at most 2 GiB, up to
multiples of 4 GiB. -/
theorem compareByValue_neg_iff (a b : HashEntry) : compareByValue a b < 0 ↔
    0 < (a.value - b.value) % 2 ^ 32 ∧ (a.value - b.value) % 2 ^ 32 ≤ 2 ^ 31 := by
  rw [compareByValue, Int.bmod_def]
  split_ifs
  · omega
  · omega

/-- On values that are close together the comparator returns their difference. -/
theorem compareByValue_of_close {a b : HashEntry} (hclose : |b.value - a.value| < 2 ^ 31) :
    compareByValue a b = b.value - a.value := by
  obtain ⟨hlow, hhigh⟩ := abs_lt.mp hclose
  exact Int.bmod_eq_of_le (by omega) (by omega)

/-- The values of a map are close together. -/
def Close (map : EntryMap) : Prop :=
  ∀ a ∈ map.entries, ∀ b ∈ map.entries, |b.value - a.value| < 2 ^ 31

theorem consistent_of_close {map : EntryMap} (hclose : Close map) :
    Consistent compareByValue map.entries where
  neg_iff a ha b hb := by
    rw [compareByValue_of_close (hclose a ha b hb), compareByValue_of_close (hclose b hb a ha)]
    omega
  trans a ha b hb c hc := by
    rw [compareByValue_of_close (hclose a ha b hb), compareByValue_of_close (hclose b hb c hc),
      compareByValue_of_close (hclose a ha c hc)]
    omega

theorem largerFirst_of_close {map : EntryMap} (hclose : Close map) (n : ℕ) :
    LargerFirst HashEntry.value compareByValue n map.entries := by
  intro a ha _ b hb hlt
  rw [compareByValue_of_close (hclose b hb a ha)]
  exact sub_neg.mpr hlt

/-! ### The selection -/

/-- `select_top_n` prints the entries of the largest values, with every `qsort` that sorts whenever
its comparator is consistent, exactly when it is asked for none, or when `compare_by_value` is
consistent on the map and puts every entry that can come out among the first `n` behind all entries
of larger value. -/
theorem selectTopN_iff (map : EntryMap) (n : ℕ) :
    (∀ qsort : QSort, Sorts qsort →
        IsTop HashEntry.value n map.entries (selectTopN qsort map n)) ↔
      n = 0 ∨ (Consistent compareByValue map.entries ∧
        LargerFirst HashEntry.value compareByValue n map.entries) :=
  isTop_take_iff fun _ _ ↦ compareByValue_of_eq

/-- `select_top_n` prints the entries of the largest values of a map whose values are close
together. -/
theorem selectTopN_of_close {map : EntryMap} (hclose : Close map) (n : ℕ) {qsort : QSort}
    (hqsort : Sorts qsort) : IsTop HashEntry.value n map.entries (selectTopN qsort map n) := by
  obtain ⟨hperm, hordered⟩ := hqsort compareByValue map.entries (consistent_of_close hclose)
  exact isTop_take (consistent_of_close hclose) (largerFirst_of_close hclose n) hperm hordered

/-- The map of a log with 3 GiB sent for `/a` and nothing for `/b`. -/
def heavyMap : EntryMap :=
  (EntryMap.empty.addEntry [47, 97] 3221225472).addEntry [47, 98] 0

/-- The ten heaviest urls of that log come out in the wrong order. -/
theorem selectTopN_heavyMap :
    ¬∀ qsort : QSort, Sorts qsort →
      IsTop HashEntry.value 10 heavyMap.entries (selectTopN qsort heavyMap 10) := by
  intro hall
  have hentries : heavyMap.entries = [⟨[47, 97], 3221225472⟩, ⟨[47, 98], 0⟩] := rfl
  have hperm : ([] ++ (⟨[47, 98], 0⟩ : HashEntry) :: [⟨[47, 97], 3221225472⟩]).Perm
      heavyMap.entries := hentries ▸ List.Perm.swap ..
  have hordered : Ordered compareByValue
      ([] ++ (⟨[47, 98], 0⟩ : HashEntry) :: [⟨[47, 97], 3221225472⟩]) := by
    unfold Ordered
    decide
  have hle := le_of_arranged hall hperm (fun _ ↦ hordered) (Nat.zero_lt_succ 9)
    (hentries ▸ List.mem_cons_self) List.not_mem_nil
  exact absurd hle (by decide)

end Homework.LogParser
