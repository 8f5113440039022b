import Homework.Column.Main
import Homework.Library.ByteBuffer
import Mathlib.Algebra.BigOperators.Group.List.Basic
import Mathlib.Order.Bounds.Basic
import Mathlib.Algebra.Order.BigOperators.Group.List

/-!
# What the program computes

The two queries use the same rows, those whose first field is a number. After the first query the
statistics are the count, the sum, the minimum and the maximum of these numbers (`Accumulated`), and
after the second one the sum of the squared deviations is there as well (`foldl_secondPass`). The
count is an `int`, which bounds how many numbers there may be: the results are those of the column
exactly when it has fewer than 2³¹ numbers (`correct_iff`).
-/

set_option autoImplicit false
set_option relaxedAutoImplicit false

namespace Homework.Column

open Homework.Library Homework.Library.ByteBuffer Homework.Library.CString
open Homework.Library.Runs

/-! ### The statistics of some numbers -/

def mean (values : List ℚ) : ℚ := values.sum / values.length

/-- The mean of the squared deviations from the mean. -/
def populationVariance (values : List ℚ) : ℚ :=
  (values.map fun value ↦ (value - mean values) ^ 2).sum / values.length

/-- Results before formatting that are those of some numbers. -/
structure Describes (stats : Statistics) (values : List ℚ) : Prop where
  sum : stats.sum = .finite values.sum
  avg : stats.avg = .finite (mean values)
  minValue : ∃ least, IsLeast {value | value ∈ values} least ∧ stats.minValue = .finite least
  maxValue : ∃ greatest, IsGreatest {value | value ∈ values} greatest ∧
    stats.maxValue = .finite greatest
  variance : stats.variance = .finite (populationVariance values)

/-! ### The rows -/

/-- The number in a field, if there is one. -/
def number? (field : Field) : Option ℚ :=
  match parseNumber field with
  | .finite value => some value
  | _ => none

/-- The numbers of some rows. -/
def numbers (rows : List Field) : List ℚ := rows.filterMap number?

theorem numbers_cons_of_none {field : Field} (hnumber : number? field = none) (rows : List Field) :
    numbers (field :: rows) = numbers rows := List.filterMap_cons_none hnumber

theorem numbers_cons_of_some {field : Field} {value : ℚ} (hnumber : number? field = some value)
    (rows : List Field) : numbers (field :: rows) = value :: numbers rows :=
  List.filterMap_cons_some hnumber

/-- The rows with a number. -/
def numericRows (rows : List Field) : List Field := rows.filter fun field ↦ (number? field).isSome

/-- A field that is `NULL`, no number, or the text of a finite number. -/
def FiniteOrNone (field : Field) : Prop := ∀ negative, parseNumber field ≠ .infinite negative

instance (field : Field) : Decidable (FiniteOrNone field) :=
  inferInstanceAs (Decidable (∀ negative, parseNumber field ≠ .infinite negative))

theorem parseNumber_of_some {field : Field} {value : ℚ} (hnumber : number? field = some value) :
    parseNumber field = .finite value := by
  rw [number?] at hnumber
  split at hnumber
  · next found hparse => rw [hparse, Option.some.inj hnumber]
  · exact absurd hnumber nofun

theorem parseNumber_of_none {field : Field} (hfinite : FiniteOrNone field)
    (hnumber : number? field = none) : parseNumber field = .nan := by
  rw [number?] at hnumber
  rcases hparse : parseNumber field with value | negative | _
  · rw [hparse] at hnumber
    exact absurd hnumber nofun
  · exact absurd hparse (hfinite negative)
  · rfl

/-! ### The first query -/

/-- The element of some numbers that comes first in an order, or `nan` if there are none. -/
def Extreme (order : ℚ → ℚ → Prop) (values : List ℚ) (found : Double) : Prop :=
  (values = [] ∧ found = .nan) ∨
    ∃ value ∈ values, (∀ other ∈ values, order value other) ∧ found = .finite value

/-- The element that comes first after one number more. -/
theorem Extreme.append {order : ℚ → ℚ → Prop} [Std.Total order] [IsTrans ℚ order]
    {values : List ℚ} {found : Double} (hextreme : Extreme order values found) {value : ℚ}
    {replaces : Bool} (hreplaces : ∀ kept, found = .finite kept →
      (replaces = true ↔ ¬order kept value)) :
    Extreme order (values ++ [value])
      (if found.isNan || replaces then .finite value else found) := by
  rcases hextreme with ⟨rfl, rfl⟩ | ⟨kept, hmem, hfirst, rfl⟩
  · refine Or.inr ⟨value, List.mem_singleton_self value, fun other hother ↦ ?_, rfl⟩
    obtain rfl := List.mem_singleton.mp hother
    exact (Std.Total.total other other).elim id id
  · have hnan : (Double.finite kept).isNan = false := rfl
    rw [hnan, Bool.false_or]
    by_cases horder : order kept value
    · rw [if_neg fun htrue ↦ (hreplaces kept rfl).mp htrue horder]
      refine Or.inr ⟨kept, List.mem_append_left _ hmem, fun other hother ↦ ?_, rfl⟩
      rcases List.mem_append.mp hother with hold | hnew
      · exact hfirst other hold
      · exact List.mem_singleton.mp hnew ▸ horder
    · rw [if_pos ((hreplaces kept rfl).mpr horder)]
      have hback := (Std.Total.total kept value).resolve_left horder
      refine Or.inr ⟨value, List.mem_append_right _ (List.mem_singleton_self value),
        fun other hother ↦ ?_, rfl⟩
      rcases List.mem_append.mp hother with hold | hnew
      · exact Trans.trans hback (hfirst other hold)
      · obtain rfl := List.mem_singleton.mp hnew
        exact (Std.Total.total other other).elim id id

/-- The statistics after the first query has given some numbers. -/
structure Accumulated (values : List ℚ) (stats : Statistics) : Prop where
  count : (stats.count : ℤ) = values.length
  sum : stats.sum = .finite values.sum
  minValue : Extreme (· ≤ ·) values stats.minValue
  maxValue : Extreme (· ≥ ·) values stats.maxValue
  variance : stats.variance = .finite 0

theorem accumulated_start : Accumulated [] start where
  count := rfl
  sum := rfl
  minValue := Or.inl ⟨rfl, rfl⟩
  maxValue := Or.inl ⟨rfl, rfl⟩
  variance := rfl

section FirstPass

variable {values : List ℚ} {stats : Statistics} {field : Field}

/-- A row without a number is skipped. -/
theorem firstPassCallback_of_none (hfinite : FiniteOrNone field) (hnumber : number? field = none) :
    firstPassCallback stats field = .ok stats := by
  rw [firstPassCallback, parseNumber_of_none hfinite hnumber]
  rfl

/-- A number is added, if the count does not overflow. -/
theorem Accumulated.firstPassCallback_of_some (haccumulated : Accumulated values stats) {value : ℚ}
    (hnumber : number? field = some value) (hlength : values.length + 1 < 2 ^ 31) :
    ∃ next, firstPassCallback stats field = .ok next ∧ Accumulated (values ++ [value]) next := by
  have hcount : InIntRange ((stats.count : ℤ) + 1) := by
    rw [InIntRange, haccumulated.count]
    omega
  have hnan : (Double.finite value).isNan = false := rfl
  rw [firstPassCallback, parseNumber_of_some hnumber]
  simp only [hnan, Bool.false_eq_true, if_false, checked_of_inRange hcount, ok_bind, pure_eq_ok]
  refine ⟨_, rfl, ⟨?_, ?_, ?_, ?_, haccumulated.variance⟩⟩
  · change (stats.count : ℤ) + 1 = _
    rw [haccumulated.count, List.length_append]
    rfl
  · change stats.sum.add (.finite value) = _
    rw [haccumulated.sum, Double.finite_add, List.sum_append, List.sum_singleton]
  · refine haccumulated.minValue.append fun kept hkept ↦ ?_
    rw [hkept, Double.finite_lt, decide_eq_true_eq, not_le]
  · refine haccumulated.maxValue.append fun kept hkept ↦ ?_
    rw [hkept, Double.finite_lt, decide_eq_true_eq, ge_iff_le, not_le]

/-- The count overflows with the number after 2³¹ - 1 others. -/
theorem Accumulated.firstPassCallback_overflow (haccumulated : Accumulated values stats) {value : ℚ}
    (hnumber : number? field = some value) (hlength : ¬values.length + 1 < 2 ^ 31) :
    firstPassCallback stats field = .error .overflow := by
  have hcount : ¬InIntRange ((stats.count : ℤ) + 1) := by
    rw [InIntRange, haccumulated.count]
    omega
  have hnan : (Double.finite value).isNan = false := rfl
  rw [firstPassCallback, parseNumber_of_some hnumber]
  simp only [hnan, Bool.false_eq_true, if_false, checked, dif_neg hcount, error_bind]

/-- The first query accumulates the numbers of its rows, if there are not too many. -/
theorem Accumulated.run {rows : List Field} (haccumulated : Accumulated values stats)
    (hfinite : ∀ field ∈ rows, FiniteOrNone field) :
    if (values ++ numbers rows).length < 2 ^ 31 then
      ∃ next, run firstPassCallback stats rows = .ok next ∧
        Accumulated (values ++ numbers rows) next
    else run firstPassCallback stats rows = .error .overflow := by
  induction rows generalizing values stats with
  | nil =>
    have hlength : values.length < 2 ^ 31 := by
      have hrange := stats.count.2.2
      rw [haccumulated.count] at hrange
      omega
    rw [numbers, List.filterMap_nil, List.append_nil, if_pos hlength]
    exact ⟨stats, rfl, haccumulated⟩
  | cons field rows ih =>
    have hrest : ∀ field ∈ rows, FiniteOrNone field := fun other hother ↦
      hfinite other (List.mem_cons_of_mem field hother)
    rcases hnumber : number? field with _ | value
    · have hskip : firstPassCallback stats field = .ok stats :=
        firstPassCallback_of_none (hfinite field List.mem_cons_self) hnumber
      rw [numbers_cons_of_none hnumber, run_cons_of_ok hskip]
      exact ih haccumulated hrest
    · rw [numbers_cons_of_some hnumber, List.append_cons]
      by_cases hlength : values.length + 1 < 2 ^ 31
      · obtain ⟨next, hstep, hnext⟩ := haccumulated.firstPassCallback_of_some hnumber hlength
        rw [run_cons_of_ok hstep]
        exact ih hnext hrest
      · rw [if_neg, Runs.run, haccumulated.firstPassCallback_overflow hnumber hlength]
        rw [List.length_append, List.length_append, List.length_singleton]
        omega

end FirstPass

/-! ### The second query -/

theorem secondPassCallback_of_none {field : Field} (hfinite : FiniteOrNone field)
    (hnumber : number? field = none) (stats : Statistics) :
    secondPassCallback stats field = stats := by
  rw [secondPassCallback, parseNumber_of_none hfinite hnumber]
  rfl

/-- The second query adds the squared deviations of its numbers from the mean of the first. -/
theorem foldl_secondPass {rows : List Field} (hfinite : ∀ field ∈ rows, FiniteOrNone field)
    {stats : Statistics} {avg variance : ℚ} (havg : stats.avg = .finite avg)
    (hvariance : stats.variance = .finite variance) :
    rows.foldl secondPassCallback stats =
      { stats with
        variance := .finite
          (variance + ((numbers rows).map fun value ↦ (value - avg) ^ 2).sum) } := by
  induction rows generalizing stats variance with
  | nil =>
    rw [numbers, List.filterMap_nil, List.map_nil, List.sum_nil, add_zero, ← hvariance]
    rfl
  | cons field rows ih =>
    have hrest : ∀ field ∈ rows, FiniteOrNone field := fun other hother ↦
      hfinite other (List.mem_cons_of_mem field hother)
    rw [List.foldl_cons]
    rcases hnumber : number? field with _ | value
    · rw [secondPassCallback_of_none (hfinite field List.mem_cons_self) hnumber,
        numbers_cons_of_none hnumber]
      exact ih hrest havg hvariance
    · have hstep : secondPassCallback stats field =
          { stats with variance := .finite (variance + (value - avg) ^ 2) } := by
        have hnan : (Double.finite value).isNan = false := rfl
        rw [secondPassCallback, parseNumber_of_some hnumber]
        simp only [hnan, Bool.false_eq_true, if_false]
        rw [havg, hvariance, Double.finite_sub, Double.finite_mul, Double.finite_add, ← sq]
      have hnext : ({ stats with variance := .finite (variance + (value - avg) ^ 2) } :
          Statistics).avg = .finite avg := havg
      rw [hstep, ih hrest hnext rfl, numbers_cons_of_some hnumber, List.map_cons, List.sum_cons,
        add_assoc]

/-! ### The rows used -/

/-- Both queries use the rows with a number, and no others. -/
def SameRows (rows : List Field) : Prop :=
  (∀ stats, run firstPassCallback stats rows = run firstPassCallback stats (numericRows rows)) ∧
    ∀ stats, rows.foldl secondPassCallback stats =
      (numericRows rows).foldl secondPassCallback stats

theorem sameRows_of_finite {rows : List Field} (hfinite : ∀ field ∈ rows, FiniteOrNone field) :
    SameRows rows := by
  induction rows with
  | nil => exact ⟨fun _ ↦ rfl, fun _ ↦ rfl⟩
  | cons field rows ih =>
    obtain ⟨hfirst, hsecond⟩ := ih fun other hother ↦ hfinite other (List.mem_cons_of_mem _ hother)
    have hfield := hfinite field List.mem_cons_self
    rcases hnumber : number? field with _ | value
    · have hskip : numericRows (field :: rows) = numericRows rows :=
        List.filter_cons_of_neg (by rw [hnumber]; exact Bool.false_ne_true)
      rw [SameRows, hskip]
      refine ⟨fun stats ↦ ?_, fun stats ↦ ?_⟩
      · rw [run_cons_of_ok (firstPassCallback_of_none hfield hnumber)]
        exact hfirst stats
      · rw [List.foldl_cons, secondPassCallback_of_none hfield hnumber]
        exact hsecond stats
    · have hkeep : numericRows (field :: rows) = field :: numericRows rows :=
        List.filter_cons_of_pos (by rw [hnumber]; rfl)
      rw [SameRows, hkeep]
      refine ⟨fun stats ↦ ?_, fun stats ↦ hsecond _⟩
      rw [run, run]
      split
      · rfl
      · exact hfirst _

/-! ### The program -/

section Program

variable {answer : Answer} {stats : Statistics}

theorem firstPass_of_overflow (hrun : run firstPassCallback start answer.rows = .error .overflow)
    (divisions : List (Double × Double)) :
    (firstPass answer).run divisions = .error .overflow := by
  rw [firstPass, hrun]
  rfl

theorem firstPass_of_failure (hrun : run firstPassCallback start answer.rows = .ok stats)
    (hfails : answer.succeeds = false) (divisions : List (Double × Double)) :
    (firstPass answer).run divisions =
      .ok (.inl (.error "SQL error on first pass"), divisions) := by
  rw [firstPass, hrun]
  simp [hfails]

theorem firstPass_of_none (hrun : run firstPassCallback start answer.rows = .ok stats)
    (hsucceeds : answer.succeeds = true) (hcount : stats.count.val ≤ 0)
    (divisions : List (Double × Double)) :
    (firstPass answer).run divisions =
      .ok (.inl (.puts "No valid numeric values found in the specified column."), divisions) := by
  rw [firstPass, hrun]
  simp [hsucceeds, hcount]

theorem firstPass_of_pos (hrun : run firstPassCallback start answer.rows = .ok stats)
    (hsucceeds : answer.succeeds = true) (hcount : ¬stats.count.val ≤ 0)
    (divisions : List (Double × Double)) :
    (firstPass answer).run divisions =
      .ok (.inr { stats with avg := stats.sum.div (countDouble stats.count) },
        divisions ++ [(stats.sum, countDouble stats.count)]) := by
  rw [firstPass, hrun]
  simp [hsucceeds, hcount, divide]

theorem secondPass_of_succeeds (hsucceeds : answer.succeeds = true) {result : Statistics}
    (hresult : answer.rows.foldl secondPassCallback stats = result)
    (divisions : List (Double × Double)) :
    (secondPass stats answer).run divisions =
      .ok (.results { result with variance := result.variance.div (countDouble result.count) },
        divisions ++ [(result.variance, countDouble result.count)]) := by
  rw [secondPass, hresult]
  simp [hsucceeds, divide]

variable {database : Database} {table column : List UInt8}

theorem main_of_inl {outcome : Outcome} {divisions : List (Double × Double)}
    (hfirst : (firstPass (database (query column table))).run [] = .ok (.inl outcome, divisions))
    (program file : List UInt8) (second : Database) :
    (main [program, file, table, column] true database second).run [] =
      .ok (outcome, divisions) := by
  rw [main]
  simp [hfirst]

theorem main_of_inr {divisions : List (Double × Double)}
    (hfirst : (firstPass (database (query column table))).run [] = .ok (.inr stats, divisions))
    (program file : List UInt8) (second : Database) :
    (main [program, file, table, column] true database second).run [] =
      (secondPass stats (second (query column table))).run divisions := by
  rw [main]
  simp [hfirst]

theorem main_of_overflow
    (hfirst : (firstPass (database (query column table))).run [] = .error .overflow)
    (program file : List UInt8) (second : Database) :
    (main [program, file, table, column] true database second).run [] = .error .overflow := by
  rw [main]
  simp [hfirst]

/-- The program does what it is for: both queries use the same rows, and the results are those of
their numbers. If there are none, it says so without a division. -/
def Correct (program file table column : List UInt8) (database : Database) : Prop :=
  SameRows (database (query column table)).rows ∧
    if numbers (database (query column table)).rows = [] then
      (main [program, file, table, column] true database database).run [] =
        .ok (.puts "No valid numeric values found in the specified column.", [])
    else
      ∃ stats divisions,
        (main [program, file, table, column] true database database).run [] =
          .ok (.results stats, divisions) ∧
        Describes stats (numbers (database (query column table)).rows)

/-- An element that comes first among some numbers of which there is one. -/
theorem Extreme.of_ne_nil {order : ℚ → ℚ → Prop} {values : List ℚ} {found : Double}
    (hextreme : Extreme order values found) (hvalues : values ≠ []) :
    ∃ value ∈ values, (∀ other ∈ values, order value other) ∧ found = .finite value :=
  hextreme.resolve_left fun hnone ↦ hvalues hnone.1

/-- The results of both queries on the same rows. -/
theorem Accumulated.describes {values : List ℚ} (haccumulated : Accumulated values stats)
    (hvalues : values ≠ []) {result : Statistics}
    (hresult : result = { stats with
      avg := .finite (mean values)
      variance := .finite (populationVariance values) }) : Describes result values := by
  subst hresult
  obtain ⟨least, hleastMem, hleast, hmin⟩ := haccumulated.minValue.of_ne_nil hvalues
  obtain ⟨greatest, hgreatestMem, hgreatest, hmax⟩ := haccumulated.maxValue.of_ne_nil hvalues
  exact ⟨haccumulated.sum, rfl, ⟨least, ⟨hleastMem, hleast⟩, hmin⟩,
    ⟨greatest, ⟨hgreatestMem, hgreatest⟩, hmax⟩, rfl⟩

/-- If the count overflows, there are no results. -/
theorem not_correct_of_overflow
    (hrun : run firstPassCallback start (database (query column table)).rows = .error .overflow)
    (program file : List UInt8) : ¬Correct program file table column database := by
  rintro ⟨-, hresult⟩
  rw [main_of_overflow (firstPass_of_overflow hrun []) program file database] at hresult
  split at hresult
  · exact absurd hresult nofun
  · obtain ⟨stats, divisions, hresults, -⟩ := hresult
    exact absurd hresults nofun

/-- The results where there are numbers, and not too many. -/
theorem exists_results (hsucceeds : (database (query column table)).succeeds = true)
    (hfinite : ∀ field ∈ (database (query column table)).rows, FiniteOrNone field)
    (hlength : (numbers (database (query column table)).rows).length < 2 ^ 31)
    (hsome : numbers (database (query column table)).rows ≠ []) (program file : List UInt8) :
    ∃ stats divisions, (main [program, file, table, column] true database database).run [] =
        .ok (.results stats, divisions) ∧
      Describes stats (numbers (database (query column table)).rows) := by
  have hrun := accumulated_start.run hfinite
  rw [List.nil_append, if_pos hlength] at hrun
  obtain ⟨stats, hrun, haccumulated⟩ := hrun
  have hcount := haccumulated.count
  have hpos : 0 < (numbers (database (query column table)).rows).length :=
    List.length_pos_of_ne_nil hsome
  have hcountPos : ¬stats.count.val ≤ 0 := by
    rw [hcount]
    omega
  have hdivide (dividend : ℚ) : (Double.finite dividend).div (countDouble stats.count) =
      .finite (dividend / (numbers (database (query column table)).rows).length) := by
    have hne : ((numbers (database (query column table)).rows).length : ℚ) ≠ 0 :=
      Nat.cast_ne_zero.mpr hpos.ne'
    rw [countDouble, hcount, Int.cast_natCast, Double.finite_div dividend hne]
  have havg : ({ stats with avg := stats.sum.div (countDouble stats.count) } :
      Statistics).avg = .finite (mean (numbers (database (query column table)).rows)) := by
    rw [haccumulated.sum, hdivide, mean]
  have hfirst := main_of_inr (firstPass_of_pos hrun hsucceeds hcountPos []) program file database
  have hsecond := foldl_secondPass hfinite havg haccumulated.variance
  rw [secondPass_of_succeeds hsucceeds hsecond] at hfirst
  refine ⟨_, _, hfirst, haccumulated.describes hsome ?_⟩
  rw [zero_add, hdivide, haccumulated.sum, hdivide]
  rfl

/-- A column without numbers has no results. -/
theorem main_of_no_numbers (hsucceeds : (database (query column table)).succeeds = true)
    (hfinite : ∀ field ∈ (database (query column table)).rows, FiniteOrNone field)
    (hnone : numbers (database (query column table)).rows = []) (program file : List UInt8) :
    (main [program, file, table, column] true database database).run [] =
      .ok (.puts "No valid numeric values found in the specified column.", []) := by
  have hrun := accumulated_start.run hfinite
  rw [List.nil_append, hnone, if_pos (by decide)] at hrun
  obtain ⟨stats, hrun, haccumulated⟩ := hrun
  have hfirst := firstPass_of_none hrun hsucceeds haccumulated.count.le []
  exact main_of_inl hfirst program file database

/-- The results of a database that does not change are those of the column. -/
theorem describes_of_results {program file : List UInt8} {divisions : List (Double × Double)}
    (hfinite : ∀ field ∈ (database (query column table)).rows, FiniteOrNone field)
    (hresults : (main [program, file, table, column] true database database).run [] =
      .ok (.results stats, divisions)) :
    Describes stats (numbers (database (query column table)).rows) := by
  have hrun := accumulated_start.run hfinite
  rw [List.nil_append] at hrun
  split at hrun
  · next hlength =>
    obtain ⟨counted, hrun, -⟩ := hrun
    rcases hsucceeds : (database (query column table)).succeeds with _ | _
    · rw [main_of_inl (firstPass_of_failure hrun hsucceeds []) program file database] at hresults
      exact absurd hresults nofun
    · by_cases hnone : numbers (database (query column table)).rows = []
      · rw [main_of_no_numbers hsucceeds hfinite hnone program file] at hresults
        exact absurd hresults nofun
      · obtain ⟨found, others, hfound, hdescribes⟩ :=
          exists_results hsucceeds hfinite hlength hnone program file
        obtain ⟨hstats, -⟩ := Prod.mk.inj (Except.ok.inj (hfound.symm.trans hresults))
        exact Outcome.results.inj hstats ▸ hdescribes
  · rw [main_of_overflow (firstPass_of_overflow hrun []) program file database] at hresults
    exact absurd hresults nofun

/-- The results are those of the column exactly when it has fewer than 2³¹ numbers. -/
theorem correct_iff (hsucceeds : (database (query column table)).succeeds = true)
    (hfinite : ∀ field ∈ (database (query column table)).rows, FiniteOrNone field)
    (program file : List UInt8) :
    Correct program file table column database ↔
      (numbers (database (query column table)).rows).length < 2 ^ 31 := by
  by_cases hlength : (numbers (database (query column table)).rows).length < 2 ^ 31
  · refine iff_of_true ⟨sameRows_of_finite hfinite, ?_⟩ hlength
    split
    · next hnone => exact main_of_no_numbers hsucceeds hfinite hnone program file
    · next hsome => exact exists_results hsucceeds hfinite hlength hsome program file
  · have hrun := accumulated_start.run hfinite
    rw [List.nil_append, if_neg hlength] at hrun
    exact iff_of_false (not_correct_of_overflow hrun program file) hlength

/-- A column with two numbers among four rows. -/
theorem correct_fourRows :
    Correct (ascii "main") (ascii "a.db") (ascii "points") (ascii "x") fun _ ↦
      ⟨[none, some (ascii "3"), some (ascii "abc"), some (ascii "-1.5e1")], true⟩ :=
  (correct_iff rfl (by decide +kernel) _ _).mpr (by decide +kernel)

end Program

/-- A database whose tables have the number 1 in each of some rows. -/
def onesDatabase (count : ℕ) : Database := fun _ ↦ ⟨List.replicate count (some (ascii "1")), true⟩

theorem onesDatabase_number {count : ℕ} {text : List UInt8} {field : Field}
    (hfield : field ∈ (onesDatabase count text).rows) : number? field = some 1 := by
  rw [List.eq_of_mem_replicate hfield]
  decide +kernel

theorem onesDatabase_overflow {count : ℕ} (hcount : 2 ^ 31 ≤ count) (text : List UInt8) :
    run firstPassCallback start (onesDatabase count text).rows = .error .overflow := by
  have hfinite : ∀ field ∈ (onesDatabase count text).rows, FiniteOrNone field := by
    intro field hfield negative
    rw [parseNumber_of_some (onesDatabase_number hfield)]
    exact nofun
  have hnumbers : numbers (onesDatabase count text).rows = List.replicate count 1 := by
    refine List.filterMap_replicate_of_some ?_
    decide +kernel
  have hrun := accumulated_start.run hfinite
  rwa [List.nil_append, hnumbers, List.length_replicate, if_neg hcount.not_gt] at hrun

/-- A column with 2³¹ numbers overflows the count. -/
theorem manyNumbers_not_correct :
    ¬∀ (program file table column : List UInt8) (database : Database),
      (database (query column table)).succeeds = true →
      (∀ field ∈ (database (query column table)).rows, FiniteOrNone field) →
      Correct program file table column database := by
  intro hall
  refine not_correct_of_overflow (onesDatabase_overflow le_rfl _) [] []
    (hall [] [] [] [] (onesDatabase (2 ^ 31)) rfl fun field hfield negative ↦ ?_)
  rw [parseNumber_of_some (onesDatabase_number hfield)]
  exact nofun

end Homework.Column
