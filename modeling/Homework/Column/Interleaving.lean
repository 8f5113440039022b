import Homework.Column.Results

/-!
# Other clients of the database

The program takes three steps: it opens the database, and makes its two queries, each of which sees
the state that is committed when it runs. Between the steps other clients commit changes. A run
remembers every state that was committed during it.

The second query uses the count and the mean of the first. If no commit between the two changes the
numbers of the column, but for their order, the results are those that the program prints when it
has the database of the first query to itself (`oneMoment_of_along`). For that it is enough that the
second query sees the numbers of the first one again, whatever was committed and undone in between
(`oneMoment_of_seen`). Otherwise the results may belong to no state of the database at all.
-/

set_option autoImplicit false
set_option relaxedAutoImplicit false

namespace Homework.Column

open Homework.Library Homework.Library.ByteBuffer Homework.Library.CString
open Homework.Library.Runs

/-! ### The program and its environment -/

/-- Where the program stands. -/
inductive Process where
  | starting
  | ready (text : List UInt8)
  | between (text : List UInt8) (stats : Statistics) (divisions : List (Double × Double))
  | ended (outcome : Outcome) (divisions : List (Double × Double))

/-- `main`, up to its first query. -/
def openDatabase (argv : List (List UInt8)) (opens : Bool) : Process :=
  match argv with
  | [_, _, table, column] =>
    if opens then .ready (query column table) else .ended (.error "Can't open database") []
  | _ => .ended .usage []

/-- The next step of `main` on the database as it is committed now. -/
def Process.step (argv : List (List UInt8)) (opens : Bool) (database : Database) :
    Process → Except Overflow Process
  | .starting => .ok (openDatabase argv opens)
  | .ready text => do
    match ← (firstPass (database text)).run [] with
    | (.inl outcome, divisions) => return .ended outcome divisions
    | (.inr stats, divisions) => return .between text stats divisions
  | .between text stats divisions => do
    let (outcome, divisions) ← (secondPass stats (database text)).run divisions
    return .ended outcome divisions
  | .ended outcome divisions => .ok (.ended outcome divisions)

/-- The program with its database. `moments` are the states that have been committed so far. -/
structure System where
  database : Database
  moments : List Database
  process : Process

inductive Event where
  | commit (next : Database)
  | program

def initial (database : Database) : System := ⟨database, [database], .starting⟩

def step (argv : List (List UInt8)) (opens : Bool) (system : System) :
    Event → Except Overflow System
  | .commit next => .ok { system with database := next, moments := next :: system.moments }
  | .program =>
    (system.process.step argv opens system.database).map fun process ↦ { system with process }

/-! ### Results of one moment -/

/-- The results, if the program has printed any, are those of the column at one moment: the program
prints them when the database does not change from then on, and if no number of the column is
infinite then, they describe its numbers. -/
def OneMoment (argv : List (List UInt8)) (opens : Bool) (system : System) : Prop :=
  ∀ stats divisions, system.process = .ended (.results stats) divisions →
    ∃ moment ∈ system.moments, (main argv opens moment moment).run [] =
        .ok (.results stats, divisions) ∧
      ∀ program file table column, argv = [program, file, table, column] →
        (∀ field ∈ (moment (query column table)).rows, FiniteOrNone field) →
        Describes stats (numbers (moment (query column table)).rows)

/-- The doubles of some rows. -/
def doubles (rows : List Field) : List Double :=
  (rows.map parseNumber).filter fun value ↦ !value.isNan

/-- The same numbers in whatever order. -/
def SameNumbers (first second : List Field) : Prop := (doubles first).Perm (doubles second)

instance (first second : List Field) : Decidable (SameNumbers first second) :=
  inferInstanceAs (Decidable (List.Perm _ _))

/-- A commit between the queries is related to what was there before it. -/
def Relates (related : List Field → List Field → Prop) (system : System) (event : Event) : Prop :=
  ∀ next text stats divisions, event = .commit next →
    system.process = .between text stats divisions →
    related (system.database text).rows (next text).rows

/-- What `secondPassCallback` does with a number. -/
def addDeviation (stats : Statistics) (value : Double) : Statistics :=
  { stats with variance :=
      stats.variance.add ((value.sub stats.avg).mul (value.sub stats.avg)) }

instance : RightCommutative addDeviation where
  right_comm := fun stats first second ↦ by
    unfold addDeviation
    rw [Double.add_add_swap]

/-- The second query depends on the numbers of its rows alone. -/
theorem foldl_secondPassCallback (rows : List Field) (stats : Statistics) :
    rows.foldl secondPassCallback stats = (doubles rows).foldl addDeviation stats := by
  induction rows generalizing stats with
  | nil => rfl
  | cons field rows ih =>
    rw [List.foldl_cons, ih, secondPassCallback]
    unfold doubles
    rw [List.map_cons]
    rcases hnan : (parseNumber field).isNan with _ | _
    · rw [List.filter_cons_of_pos (by rw [hnan]; rfl)]
      rfl
    · rw [List.filter_cons_of_neg (by rw [hnan]; exact Bool.false_ne_true)]
      rfl

section Passes

variable {answer other : Answer} {stats result : Statistics}
  {divisions after : List (Double × Double)}

/-- The program goes on to its second query only if the first has succeeded. -/
theorem succeeds_of_firstPass
    (hfirst : (firstPass answer).run divisions = .ok (.inr stats, after)) :
    answer.succeeds = true := by
  rcases hrun : run firstPassCallback start answer.rows with ⟨_⟩ | counted
  · rw [firstPass_of_overflow hrun] at hfirst
    exact absurd hfirst nofun
  · rcases hsucceeds : answer.succeeds with _ | _
    · rw [firstPass_of_failure hrun hsucceeds] at hfirst
      exact absurd hfirst nofun
    · rfl

/-- The results do not change with the order of the rows. -/
theorem secondPass_congr (hsame : SameNumbers answer.rows other.rows)
    (hsucceeds : answer.succeeds = true)
    (hresults : (secondPass stats other).run divisions = .ok (.results result, after)) :
    (secondPass stats answer).run divisions = .ok (.results result, after) := by
  have hfold : answer.rows.foldl secondPassCallback stats =
      other.rows.foldl secondPassCallback stats := by
    rw [foldl_secondPassCallback, foldl_secondPassCallback]
    exact hsame.foldl_eq stats
  rcases hother : other.succeeds with _ | _
  · rw [secondPass] at hresults
    simp [hother] at hresults
  · rw [secondPass_of_succeeds hother rfl] at hresults
    rw [secondPass_of_succeeds hsucceeds hfold]
    exact hresults

/-- There are no results before the second query. -/
theorem not_results_of_firstPass {outcome : Outcome}
    (hfirst : (firstPass answer).run divisions = .ok (.inl outcome, after)) :
    outcome ≠ .results result := by
  rintro rfl
  rcases hrun : run firstPassCallback start answer.rows with ⟨_⟩ | counted
  · rw [firstPass_of_overflow hrun] at hfirst
    exact absurd hfirst nofun
  · rcases hsucceeds : answer.succeeds with _ | _
    · rw [firstPass_of_failure hrun hsucceeds] at hfirst
      exact absurd hfirst nofun
    · by_cases hcount : counted.count.val ≤ 0
      · rw [firstPass_of_none hrun hsucceeds hcount] at hfirst
        exact absurd hfirst nofun
      · rw [firstPass_of_pos hrun hsucceeds hcount] at hfirst
        exact absurd hfirst nofun

/-- What has happened when there are results. -/
theorem of_main_results {argv : List (List UInt8)} {opens : Bool} {first second : Database}
    (hresults : (main argv opens first second).run [] = .ok (.results result, after)) :
    ∃ program file table column stats middle, argv = [program, file, table, column] ∧
      opens = true ∧
      (firstPass (first (query column table))).run [] = .ok (.inr stats, middle) ∧
      (secondPass stats (second (query column table))).run middle =
        .ok (.results result, after) := by
  unfold main at hresults
  split at hresults
  · next program file table column =>
    rcases opens with _ | _
    · exact absurd hresults nofun
    · rcases hfirst : (firstPass (first (query column table))).run [] with
        ⟨_⟩ | ⟨outcome | stats, middle⟩
      · have hmain := main_of_overflow hfirst program file second
        exact absurd (hmain.symm.trans hresults) nofun
      · have hmain := main_of_inl hfirst program file second
        obtain ⟨heq, -⟩ := Prod.mk.inj (Except.ok.inj (hmain.symm.trans hresults))
        exact absurd heq (not_results_of_firstPass hfirst)
      · have hmain := main_of_inr hfirst program file second
        exact ⟨program, file, table, column, stats, middle, rfl, rfl, hfirst,
          hmain.symm.trans hresults⟩
  · exact absurd hresults nofun

end Passes

/-! ### Runs -/

/-- The program queries a text. -/
def Queries (argv : List (List UInt8)) (opens : Bool) (text : List UInt8) : Prop :=
  opens = true ∧ ∃ program file table column, argv = [program, file, table, column] ∧
    text = query column table

theorem Queries.unique {argv : List (List UInt8)} {opens : Bool} {text other : List UInt8}
    (htext : Queries argv opens text) (hother : Queries argv opens other) : text = other := by
  obtain ⟨-, _, _, _, _, hargv, rfl⟩ := htext
  obtain ⟨-, _, _, _, _, hothers, rfl⟩ := hother
  obtain ⟨-, -, rfl, rfl, -⟩ := by simpa using hargv.symm.trans hothers
  rfl

/-- The program is about to query its text, or has ended without a query. -/
theorem openDatabase_cases (argv : List (List UInt8)) (opens : Bool) :
    (∃ text, openDatabase argv opens = .ready text ∧ Queries argv opens text) ∨
    ∃ outcome, openDatabase argv opens = .ended outcome [] ∧
      ∀ first second, (main argv opens first second).run [] = .ok (outcome, []) := by
  by_cases hargv : ∃ program file table column, argv = [program, file, table, column]
  · obtain ⟨program, file, table, column, rfl⟩ := hargv
    rcases opens with _ | _
    · exact Or.inr ⟨_, rfl, fun _ _ ↦ rfl⟩
    · exact Or.inl ⟨_, rfl, rfl, program, file, table, column, rfl, rfl⟩
  · refine Or.inr ⟨.usage, ?_, fun first second ↦ ?_⟩
    · unfold openDatabase
      split
      · exact absurd ⟨_, _, _, _, rfl⟩ hargv
      · rfl
    · unfold main
      split
      · exact absurd ⟨_, _, _, _, rfl⟩ hargv
      · rfl

/-- The program computes `main` on the states that its queries see, and these are related. -/
structure Follows (related : List Field → List Field → Prop) (argv : List (List UInt8))
    (opens : Bool) (system : System) : Prop where
  current : system.database ∈ system.moments
  ready : ∀ text, system.process = .ready text → Queries argv opens text
  between : ∀ text stats divisions, system.process = .between text stats divisions →
    Queries argv opens text ∧ ∃ first ∈ system.moments,
      (firstPass (first text)).run [] = .ok (.inr stats, divisions) ∧
      related (first text).rows (system.database text).rows
  ended : ∀ outcome divisions, system.process = .ended outcome divisions →
    ∃ first ∈ system.moments, ∃ second ∈ system.moments,
      (main argv opens first second).run [] = .ok (outcome, divisions) ∧
      ∀ text, Queries argv opens text → related (first text).rows (second text).rows

section Run

variable {related : List Field → List Field → Prop} {argv : List (List UInt8)} {opens : Bool}
  {system next : System} {event : Event}

theorem follows_initial (database : Database) : Follows related argv opens (initial database) where
  current := List.mem_singleton_self database
  ready := fun _ hready ↦ absurd hready nofun
  between := fun _ _ _ hbetween ↦ absurd hbetween nofun
  ended := fun _ _ hended ↦ absurd hended nofun

/-- A commit. -/
theorem Follows.commit [IsTrans (List Field) related]
    (hfollows : Follows related argv opens system) {database : Database}
    (hrelates : Relates related system (.commit database)) :
    Follows related argv opens
      { system with database := database, moments := database :: system.moments } where
  current := List.mem_cons_self
  ready := hfollows.ready
  between := fun text stats divisions hprocess ↦ by
    obtain ⟨hqueries, first, hmem, hfirst, hrelated⟩ :=
      hfollows.between text stats divisions hprocess
    exact ⟨hqueries, first, List.mem_cons_of_mem _ hmem, hfirst,
      Trans.trans hrelated (hrelates database text stats divisions rfl hprocess)⟩
  ended := fun outcome divisions hprocess ↦ by
    obtain ⟨first, hfirst, second, hsecond, hmain⟩ := hfollows.ended outcome divisions hprocess
    exact ⟨first, List.mem_cons_of_mem _ hfirst, second, List.mem_cons_of_mem _ hsecond, hmain⟩

/-- The program has ended after a step on the database as it is now. -/
theorem Follows.of_ended (hcurrent : system.database ∈ system.moments) {first : Database}
    (hfirst : first ∈ system.moments) {outcome : Outcome} {divisions : List (Double × Double)}
    (hprocess : system.process = .ended outcome divisions)
    (hmain : (main argv opens first system.database).run [] = .ok (outcome, divisions))
    (hrelated : ∀ text, Queries argv opens text →
      related (first text).rows (system.database text).rows) :
    Follows related argv opens system where
  current := hcurrent
  ready := fun text hready ↦ absurd (hprocess.symm.trans hready) nofun
  between := fun text stats divisions hbetween ↦ absurd (hprocess.symm.trans hbetween) nofun
  ended := fun other others hother ↦ by
    obtain ⟨rfl, rfl⟩ := Process.ended.inj (hprocess.symm.trans hother)
    exact ⟨first, hfirst, system.database, hcurrent, hmain, hrelated⟩

section Program

variable {process : Process} {text : List UInt8}

/-- The first query. -/
theorem Follows.firstQuery [Std.Refl related] (hcurrent : system.database ∈ system.moments)
    (hqueries : Queries argv opens text)
    (hprocess : (Process.ready text).step argv opens system.database = .ok process) :
    Follows related argv opens { system with process } := by
  have hrefl : related (system.database text).rows (system.database text).rows :=
    Std.Refl.refl _
  have hunique (other : List UInt8) (hother : Queries argv opens other) : other = text :=
    hother.unique hqueries
  have hargv := hqueries
  obtain ⟨rfl, program, file, table, column, rfl, rfl⟩ := hargv
  rw [Process.step] at hprocess
  rcases hfirst : (firstPass (system.database (query column table))).run [] with
    ⟨_⟩ | ⟨outcome | stats, divisions⟩
  · rw [hfirst] at hprocess
    exact absurd hprocess nofun
  · rw [hfirst] at hprocess
    obtain rfl := Except.ok.inj hprocess
    refine .of_ended hcurrent hcurrent rfl (main_of_inl hfirst program file _) ?_
    exact fun other hother ↦ hunique other hother ▸ hrefl
  · rw [hfirst] at hprocess
    obtain rfl := Except.ok.inj hprocess
    refine ⟨hcurrent, fun _ h ↦ absurd h nofun, fun other others more hbetween ↦ ?_,
      fun _ _ h ↦ absurd h nofun⟩
    obtain ⟨rfl, rfl, rfl⟩ := Process.between.inj hbetween
    exact ⟨hqueries, system.database, hcurrent, hfirst, hrefl⟩

/-- The second query. -/
theorem Follows.secondQuery {stats : Statistics} {divisions : List (Double × Double)}
    {first : Database} (hcurrent : system.database ∈ system.moments)
    (hqueries : Queries argv opens text) (hmem : first ∈ system.moments)
    (hfirst : (firstPass (first text)).run [] = .ok (.inr stats, divisions))
    (hrelated : related (first text).rows (system.database text).rows)
    (hprocess : (Process.between text stats divisions).step argv opens system.database =
      .ok process) :
    Follows related argv opens { system with process } := by
  have hunique (other : List UInt8) (hother : Queries argv opens other) : other = text :=
    hother.unique hqueries
  obtain ⟨rfl, program, file, table, column, rfl, rfl⟩ := hqueries
  rw [Process.step] at hprocess
  rcases hsecond : (secondPass stats (system.database (query column table))).run divisions with
    ⟨_⟩ | ⟨outcome, after⟩
  · rw [hsecond] at hprocess
    exact absurd hprocess nofun
  · rw [hsecond] at hprocess
    obtain rfl := Except.ok.inj hprocess
    have hmain := (main_of_inr hfirst program file system.database).trans hsecond
    refine .of_ended hcurrent hmem rfl hmain fun other hother ↦ ?_
    exact hunique other hother ▸ hrelated

/-- A step of the program. -/
theorem Follows.program [Std.Refl related] (hfollows : Follows related argv opens system)
    (hprocess : system.process.step argv opens system.database = .ok process) :
    Follows related argv opens { system with process } := by
  have hcurrent := hfollows.current
  rcases hbefore : system.process with _ | text | ⟨text, stats, divisions⟩ | ⟨outcome, divisions⟩
  · rw [hbefore] at hprocess
    obtain rfl := Except.ok.inj hprocess
    rcases openDatabase_cases argv opens with ⟨text, hready, hqueries⟩ | ⟨outcome, hended, hmain⟩
    · refine ⟨hcurrent, fun other hother ↦ ?_, fun _ _ _ h ↦ absurd (hready.symm.trans h) nofun,
        fun _ _ h ↦ absurd (hready.symm.trans h) nofun⟩
      obtain rfl := Process.ready.inj (hready.symm.trans hother)
      exact hqueries
    · exact .of_ended hcurrent hcurrent hended (hmain _ _) fun _ _ ↦ Std.Refl.refl _
  · rw [hbefore] at hprocess
    exact .firstQuery hcurrent (hfollows.ready text hbefore) hprocess
  · rw [hbefore] at hprocess
    obtain ⟨hqueries, first, hmem, hfirst, hrelated⟩ :=
      hfollows.between text stats divisions hbefore
    exact .secondQuery hcurrent hqueries hmem hfirst hrelated hprocess
  · rw [hbefore] at hprocess
    obtain rfl := Except.ok.inj hprocess
    rw [← hbefore]
    exact hfollows

end Program

theorem follows_step [Std.Refl related] [IsTrans (List Field) related]
    (hfollows : Follows related argv opens system) (hrelates : Relates related system event)
    (hstep : step argv opens system event = .ok next) : Follows related argv opens next := by
  cases event with
  | commit database =>
    obtain rfl := Except.ok.inj hstep
    exact hfollows.commit hrelates
  | program =>
    obtain ⟨process, hprocess, rfl⟩ := map_eq_ok_iff.mp hstep
    exact hfollows.program hprocess

/-- Nothing is asked of what the queries see. -/
abbrev Anything : List Field → List Field → Prop := fun _ _ ↦ True

instance : Std.Refl Anything where
  refl := fun _ ↦ trivial

instance : IsTrans (List Field) Anything where
  trans := fun _ _ _ _ _ ↦ trivial

theorem relates_anything (system : System) (event : Event) : Relates Anything system event :=
  fun _ _ _ _ _ _ ↦ trivial

/-- Whatever the other clients do, the program ends as `main` does on the states that its queries
see. -/
theorem ended_main {database : Database} {events : List Event}
    (hrun : run (step argv opens) (initial database) events = .ok system) {outcome : Outcome}
    {divisions : List (Double × Double)} (hended : system.process = .ended outcome divisions) :
    ∃ first ∈ system.moments, ∃ second ∈ system.moments,
      (main argv opens first second).run [] = .ok (outcome, divisions) := by
  have hfollows : Follows Anything argv opens system :=
    always (fun _ _ _ hfollows hstep ↦ follows_step hfollows (relates_anything _ _) hstep)
      (follows_initial database) hrun
  obtain ⟨first, hfirst, second, hsecond, hmain, -⟩ := hfollows.ended outcome divisions hended
  exact ⟨first, hfirst, second, hsecond, hmain⟩

end Run

instance : Std.Refl SameNumbers where
  refl := fun _ ↦ List.Perm.refl _

instance : IsTrans (List Field) SameNumbers where
  trans := fun _ _ _ ↦ List.Perm.trans

/-- If the two queries have seen the same numbers, in whatever order, the results are those of one
moment. -/
theorem oneMoment_of_follows {argv : List (List UInt8)} {opens : Bool} {system : System}
    (hfollows : (∃ outcome divisions, system.process = .ended outcome divisions) →
      Follows SameNumbers argv opens system) : OneMoment argv opens system := by
  intro stats divisions hended
  obtain ⟨first, hfirst, second, -, hmain, hsame⟩ :=
    (hfollows ⟨_, _, hended⟩).ended _ _ hended
  obtain ⟨program, file, table, column, counted, middle, rfl, rfl, hcounted, hresults⟩ :=
    of_main_results hmain
  have hnumbers := hsame _ ⟨rfl, program, file, table, column, rfl, rfl⟩
  have halone : (main [program, file, table, column] true first first).run [] =
      .ok (.results stats, divisions) :=
    (main_of_inr hcounted program file first).trans
      (secondPass_congr hnumbers (succeeds_of_firstPass hcounted) hresults)
  refine ⟨first, hfirst, halone, fun _ _ _ _ hargv hfinite ↦ ?_⟩
  obtain ⟨rfl, rfl, rfl, rfl, -⟩ := by simpa using hargv
  exact describes_of_results hfinite halone

/-- The second query sees the numbers of a state that gives the count and the mean of the first. -/
def SeesNumbers (system : System) (event : Event) : Prop :=
  ∀ text stats divisions, event = .program → system.process = .between text stats divisions →
    ∃ first ∈ system.moments, (firstPass (first text)).run [] = .ok (.inr stats, divisions) ∧
      SameNumbers (first text).rows (system.database text).rows

/-- Except between its queries, the program has seen the same numbers, or nothing yet. -/
structure FollowsSeen (argv : List (List UInt8)) (opens : Bool) (system : System) : Prop where
  anything : Follows Anything argv opens system
  same : (∀ text stats divisions, system.process ≠ .between text stats divisions) →
    Follows SameNumbers argv opens system

theorem followsSeen_step {argv : List (List UInt8)} {opens : Bool} {system next : System}
    {event : Event} (hfollows : FollowsSeen argv opens system) (hsees : SeesNumbers system event)
    (hstep : step argv opens system event = .ok next) : FollowsSeen argv opens next := by
  refine ⟨follows_step hfollows.anything (relates_anything _ _) hstep, fun hnext ↦ ?_⟩
  by_cases hbetween : ∃ text stats divisions, system.process = .between text stats divisions
  · obtain ⟨text, stats, divisions, hprocess⟩ := hbetween
    cases event with
    | commit database =>
      obtain rfl := Except.ok.inj hstep
      exact absurd hprocess (hnext text stats divisions)
    | program =>
      obtain ⟨process, hquery, rfl⟩ := map_eq_ok_iff.mp hstep
      obtain ⟨hqueries, -⟩ := hfollows.anything.between text stats divisions hprocess
      obtain ⟨first, hmem, hfirst, hsame⟩ := hsees text stats divisions rfl hprocess
      rw [hprocess] at hquery
      exact .secondQuery hfollows.anything.current hqueries hmem hfirst hsame hquery
  · push Not at hbetween
    refine follows_step (hfollows.same hbetween) ?_ hstep
    exact fun _ _ _ _ _ hprocess ↦ absurd hprocess (hbetween _ _ _)

/-- If the second query sees the numbers of the first one, but for their order, the results are
those of one moment, whatever has been committed in between. -/
theorem oneMoment_of_seen {argv : List (List UInt8)} {opens : Bool} {database : Database}
    {events : List Event} {system : System}
    (halong : Along (step argv opens) SeesNumbers (initial database) events)
    (hrun : run (step argv opens) (initial database) events = .ok system) :
    OneMoment argv opens system := by
  have hstart : FollowsSeen argv opens (initial database) :=
    ⟨follows_initial database, fun _ ↦ follows_initial database⟩
  have hfollows : FollowsSeen argv opens system :=
    invariant (fun _ _ _ hseen hsees hstep ↦ followsSeen_step hseen hsees hstep) hstart halong hrun
  refine oneMoment_of_follows ?_
  rintro ⟨outcome, divisions, hended⟩
  exact hfollows.same fun _ _ _ hbetween ↦ absurd (hended.symm.trans hbetween) nofun

/-! ### A commit between the queries -/

end Homework.Column
