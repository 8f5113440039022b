import Homework.Library.CInt
import Homework.Library.Double
import Homework.Library.Runs

/-!
# The statistics of a column

The program reads a column of a table twice: the first query gives the count, the sum, the minimum
and the maximum of its numbers, the second one their variance about the mean found before. The
database is not part of the program: it is what it answers to the text of a query, that is the first
field of each row for which `sqlite3_exec` calls the callback, and whether it returns `SQLITE_OK`.
Every division is noted down.
-/

set_option autoImplicit false
set_option relaxedAutoImplicit false

namespace Homework.Column

open Homework.Library Homework.Library.CString Homework.Library.Runs

/-- The first field of a row: `none` for `NULL`. -/
abbrev Field := Option (List UInt8)

structure Answer where
  rows : List Field
  succeeds : Bool

abbrev Database := List UInt8 → Answer

/-- `parse_number`. -/
def parseNumber : Field → Double
  | none => .nan
  | some text =>
    match strtod text with
    | some (value, []) => value
    | _ => .nan

structure Statistics where
  count : CInt
  sum : Double
  minValue : Double
  maxValue : Double
  avg : Double
  variance : Double

/-- The statistics before the first query. -/
def start : Statistics where
  count := ⟨0, by decide⟩
  sum := .finite 0
  minValue := .nan
  maxValue := .nan
  avg := .finite 0
  variance := .finite 0

/-! ### The callbacks -/

def firstPassCallback (stats : Statistics) (field : Field) : Except Overflow Statistics :=
  let value := parseNumber field
  if value.isNan then .ok stats
  else do
    let count ← checked (stats.count + 1)
    return { stats with
      count
      sum := stats.sum.add value
      minValue :=
        if stats.minValue.isNan || value.lt stats.minValue then value else stats.minValue
      maxValue :=
        if stats.maxValue.isNan || stats.maxValue.lt value then value else stats.maxValue }

def secondPassCallback (stats : Statistics) (field : Field) : Statistics :=
  let value := parseNumber field
  if value.isNan then stats
  else
    let diff := value.sub stats.avg
    { stats with variance := stats.variance.add (diff.mul diff) }

/-! ### The program -/

/-- How the program ends: with the usage, with a message of `handle_sqlite_error`, with a message
on the standard output, or with the results. -/
inductive Outcome where
  | usage
  | error (message : String)
  | puts (message : String)
  | results (stats : Statistics)

/-- A computation that notes down its divisions, each as its dividend and its divisor. -/
abbrev Computation := StateT (List (Double × Double)) (Except Overflow)

def divide (dividend divisor : Double) : Computation Double := do
  modify (· ++ [(dividend, divisor)])
  return dividend.div divisor

/-- A count as a double. -/
def countDouble (count : CInt) : Double := .finite (count : ℤ)

/-- What `snprintf` writes to a buffer of 1024 bytes. -/
def query (column table : List UInt8) : List UInt8 :=
  (ascii "SELECT " ++ column ++ ascii " FROM " ++ table ++ ascii ";").take 1023

/-- From the first query to the second. -/
def firstPass (answer : Answer) : Computation (Outcome ⊕ Statistics) := do
  let stats ← (run firstPassCallback start answer.rows : Except Overflow Statistics)
  if !answer.succeeds then return .inl (.error "SQL error on first pass")
  else if stats.count.val ≤ 0 then
    return .inl (.puts "No valid numeric values found in the specified column.")
  else
    let avg ← divide stats.sum (countDouble stats.count)
    return .inr { stats with avg }

/-- From the second query to the end. -/
def secondPass (stats : Statistics) (answer : Answer) : Computation Outcome := do
  let stats := answer.rows.foldl secondPassCallback stats
  if !answer.succeeds then return .error "SQL error on second pass"
  else
    let variance ← divide stats.variance (countDouble stats.count)
    return .results { stats with variance }

/-- `main`. `opens` says whether `sqlite3_open` returns `SQLITE_OK`, and the two databases are those
that the two queries see. -/
def main (argv : List (List UInt8)) (opens : Bool) (first second : Database) :
    Computation Outcome :=
  match argv with
  | [_, _, table, column] => do
    if !opens then return .error "Can't open database"
    else
      match ← firstPass (first (query column table)) with
      | .inl outcome => return outcome
      | .inr stats => secondPass stats (second (query column table))
  | _ => return .usage

end Homework.Column
