import Mathlib.Algebra.GroupWithZero.Nat
import Mathlib.Data.List.Basic
import Mathlib.Data.Prod.Lex
import Mathlib.Order.WellFounded

/-!
# Critical sections

Threads share a state, one part of which is guarded by a mutex. A job of a thread begins outside of
the mutex, with one step on what the mutex does not guard. It may end there, or go on with a section
under the mutex, which takes any number of steps on what the mutex guards (`Code`).

In the system of the threads a schedule says which thread takes the next step, and a thread that
wants the mutex while another holds it does not move (`Code.advance`). In the atomic system a
section is a single step (`Code.leap`). The first refines the second: under every schedule it stands
where some run of the atomic system stands once the running section is finished
(`completes_runSchedule`). So at most one thread is inside a section at any time, and an invariant
of the atomic system is one of the system (`exists_completes_of_invariant`). No schedule leads to a
deadlock (`exists_finishing_schedule`).
-/

set_option autoImplicit false
set_option relaxedAutoImplicit false

namespace Homework.Library.CriticalSections

variable {Job Free Point Guarded Result : Type*}

/-! ### Sections -/

/-- Code of which a part runs under a mutex. `prepare` is the step of a job outside the mutex, with
the point at which its section begins, if it has one, and `step` is a step of a section, to its next
point or to its end. Every step leaves less of the section. -/
structure Code (Job Free Point Guarded Result : Type*) where
  prepare : Job → Free → Option Point × Free
  step : Point → Guarded → (Point ⊕ Result) × Guarded
  size : Point → ℕ
  size_lt : ∀ (point next : Point) (guarded : Guarded),
    (step point guarded).1 = .inl next → size next < size point

namespace Code

/-- A section from a point to its end, without an interruption. -/
def finish (code : Code Job Free Point Guarded Result) (point : Point) (guarded : Guarded) :
    Result × Guarded :=
  match _hstep : code.step point guarded with
  | (.inl next, left) => code.finish next left
  | (.inr result, left) => (result, left)
termination_by code.size point
decreasing_by exact code.size_lt point next guarded (congrArg Prod.fst _hstep)

variable {code : Code Job Free Point Guarded Result}

theorem finish_of_step_inl {point next : Point} {guarded left : Guarded}
    (hstep : code.step point guarded = (.inl next, left)) :
    code.finish point guarded = code.finish next left := by
  rw [finish]
  split
  · rename_i other left' hother
    obtain ⟨hnext, rfl⟩ := Prod.mk.inj (hstep.symm.trans hother)
    rw [Sum.inl.inj hnext]
  · rename_i result left' hother
    exact absurd (congrArg Prod.fst (hstep.symm.trans hother)) Sum.inl_ne_inr

theorem finish_of_step_inr {point : Point} {result : Result} {guarded left : Guarded}
    (hstep : code.step point guarded = (.inr result, left)) :
    code.finish point guarded = (result, left) := by
  rw [finish]
  split
  · rename_i other left' hother
    exact absurd (congrArg Prod.fst (hother.symm.trans hstep)) Sum.inl_ne_inr
  · rename_i result' left' hother
    obtain ⟨hresult, rfl⟩ := Prod.mk.inj (hstep.symm.trans hother)
    rw [Sum.inr.inj hresult]

end Code

/-! ### The system -/

/-- Where a thread stands: outside, before the mutex, or at a point of a section. -/
inductive Phase (Point : Type*) where
  | idle
  | waiting (point : Point)
  | inside (point : Point)

/-- A thread: the jobs that it has not begun, where it stands, and the results of its sections. -/
structure Thread (Job Point Result : Type*) where
  pending : List Job
  phase : Phase Point
  results : List Result

/-- The threads with the state that they share, and whether the mutex is locked. -/
structure System (Job Free Point Guarded Result : Type*) where
  locked : Bool
  free : Free
  guarded : Guarded
  threads : List (Thread Job Point Result)

/-- The threads before their first jobs. -/
def fresh (free : Free) (guarded : Guarded) (jobs : List (List Job)) :
    System Job Free Point Guarded Result :=
  ⟨false, free, guarded, jobs.map fun pending ↦ ⟨pending, .idle, []⟩⟩

namespace Thread

variable (thread : Thread Job Point Result)

/-- The thread has done all its jobs. -/
def Finished : Prop := thread.pending = [] ∧ thread.phase = .idle

/-- Where a thread stands after the first step of a job. -/
def begun (rest : List Job) : Option Point → Thread Job Point Result
  | none => ⟨rest, .idle, thread.results⟩
  | some point => ⟨rest, .waiting point, thread.results⟩

/-- The thread in another phase. -/
def moved (phase : Phase Point) : Thread Job Point Result := { thread with phase }

/-- The thread behind a section. -/
def leaving (result : Result) : Thread Job Point Result :=
  ⟨thread.pending, .idle, thread.results ++ [result]⟩

end Thread

namespace System

variable (system : System Job Free Point Guarded Result)

/-- The system with another thread in a place. -/
def setThread (place : ℕ) (thread : Thread Job Point Result) :
    System Job Free Point Guarded Result :=
  { system with threads := system.threads.set place thread }

/-- All threads have done all their jobs. -/
def Finished : Prop := ∀ thread ∈ system.threads, thread.Finished

end System

namespace Code

variable (code : Code Job Free Point Guarded Result)

/-- A thread begins a job. -/
def start (system : System Job Free Point Guarded Result) (place : ℕ)
    (thread : Thread Job Point Result) (job : Job) (rest : List Job) :
    System Job Free Point Guarded Result :=
  { system.setThread place (thread.begun rest (code.prepare job system.free).1) with
    free := (code.prepare job system.free).2 }

/-- A thread finishes the section that begins at a point. -/
def perform (system : System Job Free Point Guarded Result) (place : ℕ)
    (thread : Thread Job Point Result) (point : Point) : System Job Free Point Guarded Result :=
  { system.setThread place (thread.leaving (code.finish point system.guarded).1) with
    guarded := (code.finish point system.guarded).2 }

/-- The next step of a thread. -/
def advance (system : System Job Free Point Guarded Result) (place : ℕ) :
    System Job Free Point Guarded Result :=
  match system.threads[place]? with
  | none => system
  | some thread =>
    match thread.phase with
    | .idle =>
      match thread.pending with
      | [] => system
      | job :: rest => code.start system place thread job rest
    | .waiting point =>
      if system.locked then system
      else { system.setThread place (thread.moved (.inside point)) with locked := true }
    | .inside point =>
      match code.step point system.guarded with
      | (.inl next, guarded) =>
        { system.setThread place (thread.moved (.inside next)) with guarded }
      | (.inr result, guarded) =>
        { system.setThread place (thread.leaving result) with locked := false, guarded }

/-- The next step of a thread in the atomic system, in which a section is one step. -/
def leap (system : System Job Free Point Guarded Result) (place : ℕ) :
    System Job Free Point Guarded Result :=
  match system.threads[place]? with
  | none => system
  | some thread =>
    match thread.phase with
    | .idle =>
      match thread.pending with
      | [] => system
      | job :: rest => code.start system place thread job rest
    | .waiting point => code.perform system place thread point
    | .inside _ => system

/-- The system after the steps of a schedule. -/
def runSchedule (system : System Job Free Point Guarded Result) (schedule : List ℕ) :
    System Job Free Point Guarded Result :=
  schedule.foldl code.advance system

end Code

/-! ### The steps by cases -/

section Steps

variable {code : Code Job Free Point Guarded Result}
  {system : System Job Free Point Guarded Result} {place : ℕ} {thread : Thread Job Point Result}

theorem leap_of_idle {job : Job} {rest : List Job}
    (hthread : system.threads[place]? = some thread) (hphase : thread.phase = .idle)
    (hpending : thread.pending = job :: rest) :
    code.leap system place = code.start system place thread job rest := by
  simp only [Code.leap, hthread, hphase, hpending]

theorem leap_of_waiting {point : Point} (hthread : system.threads[place]? = some thread)
    (hphase : thread.phase = .waiting point) :
    code.leap system place = code.perform system place thread point := by
  simp only [Code.leap, hthread, hphase]

/-- What a step of a thread can be: nothing, the beginning of a job, the taking of the mutex, and a
step of a section, to its next point or to its end. -/
theorem advance_cases (code : Code Job Free Point Guarded Result)
    (system : System Job Free Point Guarded Result) (place : ℕ) :
    code.advance system place = system ∨
      ∃ thread, system.threads[place]? = some thread ∧
        ((∃ job rest, thread.phase = .idle ∧ thread.pending = job :: rest ∧
            code.advance system place = code.start system place thread job rest) ∨
          (∃ point, thread.phase = .waiting point ∧ system.locked = false ∧
            code.advance system place =
              { system.setThread place (thread.moved (.inside point)) with locked := true }) ∨
          ∃ point, thread.phase = .inside point ∧
            ((∃ next guarded, code.step point system.guarded = (.inl next, guarded) ∧
                code.advance system place =
                  { system.setThread place (thread.moved (.inside next)) with guarded }) ∨
              ∃ result guarded, code.step point system.guarded = (.inr result, guarded) ∧
                code.advance system place =
                  { system.setThread place (thread.leaving result) with
                    locked := false, guarded })) := by
  unfold Code.advance
  rcases hthread : system.threads[place]? with _ | thread
  · exact Or.inl rfl
  rcases hphase : thread.phase with _ | point | point
  · rcases hpending : thread.pending with _ | ⟨job, rest⟩
    · refine Or.inl ?_
      simp only [hphase, hpending]
    · refine Or.inr ⟨thread, rfl, Or.inl ⟨job, rest, hphase, hpending, ?_⟩⟩
      simp only [hphase, hpending]
  · rcases hlocked : system.locked with _ | _
    · refine Or.inr ⟨thread, rfl, Or.inr (Or.inl ⟨point, hphase, rfl, ?_⟩)⟩
      simp only [hphase, Bool.false_eq_true, if_false]
    · refine Or.inl ?_
      simp only [hphase, if_true]
  · refine Or.inr ⟨thread, rfl, Or.inr (Or.inr ⟨point, hphase, ?_⟩)⟩
    rcases hstep : code.step point system.guarded with ⟨next | result, guarded⟩
    · refine Or.inl ⟨next, guarded, rfl, ?_⟩
      simp only [hphase, hstep]
    · refine Or.inr ⟨result, guarded, rfl, ?_⟩
      simp only [hphase, hstep]

end Steps

/-! ### Refinement -/

/-- The thread is in no section. -/
def Thread.Outside (thread : Thread Job Point Result) : Prop :=
  ∀ point, thread.phase ≠ .inside point

/-- A thread of the system, if it has one of this number, is in no section. -/
def System.OutsideAt (system : System Job Free Point Guarded Result) (place : ℕ) : Prop :=
  ∀ thread : Thread Job Point Result, system.threads[place]? = some thread → thread.Outside

/-- The second system is the first one once the running section is finished. Either no thread is in
a section and the mutex is not locked, or one thread is and the mutex is locked. -/
inductive Completes (code : Code Job Free Point Guarded Result) :
    System Job Free Point Guarded Result → System Job Free Point Guarded Result → Prop
  | outside (system : System Job Free Point Guarded Result) (hlocked : system.locked = false)
      (houtside : ∀ place, system.OutsideAt place) : Completes code system system
  | inside (system : System Job Free Point Guarded Result) (runner : ℕ)
      (thread : Thread Job Point Result) (point : Point) (hlocked : system.locked = true)
      (hthread : system.threads[runner]? = some thread) (hphase : thread.phase = .inside point)
      (hothers : ∀ other, other ≠ runner → system.OutsideAt other) :
      Completes code system { code.perform system runner thread point with locked := false }

section Refinement

variable {code : Code Job Free Point Guarded Result}
  {system atomic : System Job Free Point Guarded Result} {place runner other : ℕ}
  {thread : Thread Job Point Result} {point : Point}

theorem Thread.outside_begun (thread : Thread Job Point Result) (rest : List Job)
    (point : Option Point) : (thread.begun rest point).Outside := by
  intro found hphase
  cases point with
  | none => cases hphase
  | some point => cases hphase

/-- A thread of a system in which one was replaced is the new one, or one of the others. -/
theorem setThread_cases {found : Thread Job Point Result}
    (hfound : (system.setThread place thread).threads[other]? = some found) :
    (other = place ∧ found = thread) ∨ (other ≠ place ∧ system.threads[other]? = some found) := by
  rw [System.setThread, List.getElem?_set] at hfound
  split_ifs at hfound with hplace hlt
  · exact Or.inl ⟨hplace.symm, (Option.some.inj hfound).symm⟩
  · exact Or.inr ⟨Ne.symm hplace, hfound⟩

theorem outsideAt_setThread (hthread : thread.Outside) (hother : system.OutsideAt other) :
    (system.setThread place thread).OutsideAt other := by
  intro found hfound
  obtain ⟨-, rfl⟩ | ⟨-, hsame⟩ := setThread_cases hfound
  · exact hthread
  · exact hother found hsame

theorem outsideAt_setThread_of_ne (hne : other ≠ place) (hother : system.OutsideAt other) :
    (system.setThread place thread).OutsideAt other := by
  intro found hfound
  obtain ⟨heq, -⟩ | ⟨-, hsame⟩ := setThread_cases hfound
  · exact absurd heq hne
  · exact hother found hsame

theorem getElem?_setThread_self {found : Thread Job Point Result}
    (hfound : system.threads[place]? = some found) (thread : Thread Job Point Result) :
    (system.setThread place thread).threads[place]? = some thread := by
  obtain ⟨hplace, -⟩ := List.getElem?_eq_some_iff.mp hfound
  exact List.getElem?_set_self hplace

/-- Where no thread is in a section, a step is a step of the atomic system, or nothing. -/
theorem completes_advance_of_outside (hlocked : system.locked = false)
    (houtside : ∀ place, system.OutsideAt place) (place : ℕ) :
    ∃ next, (next = system ∨ next = code.leap system place) ∧
      Completes code (code.advance system place) next := by
  obtain hsame | ⟨thread, hthread, hcases⟩ := advance_cases code system place
  · exact ⟨system, Or.inl rfl, hsame.symm ▸ .outside system hlocked houtside⟩
  obtain ⟨job, rest, hphase, hpending, hadvance⟩ | ⟨point, hphase, -, hadvance⟩ |
    ⟨point, hphase, -⟩ := hcases
  · refine ⟨_, Or.inr rfl, ?_⟩
    rw [hadvance, leap_of_idle hthread hphase hpending]
    exact .outside _ hlocked fun other ↦
      outsideAt_setThread (thread.outside_begun rest _) (houtside other)
  · refine ⟨_, Or.inr rfl, ?_⟩
    have hinside : Completes code _ _ := .inside
      { system.setThread place (thread.moved (.inside point)) with locked := true } place
      (thread.moved (.inside point)) point rfl (getElem?_setThread_self hthread _) rfl
      fun other hother ↦ outsideAt_setThread_of_ne hother (houtside other)
    rw [hadvance, leap_of_waiting hthread hphase]
    convert hinside using 1
    simp only [Code.perform, System.setThread, List.set_set, Thread.leaving, Thread.moved, hlocked]
  · exact absurd hphase (houtside place thread hthread point)

/-- While a section is running, another thread can only begin a job. -/
theorem completes_advance_of_ne (hlocked : system.locked = true)
    (hthread : system.threads[runner]? = some thread) (hphase : thread.phase = .inside point)
    (hothers : ∀ other, other ≠ runner → system.OutsideAt other) (hplace : place ≠ runner) :
    let atomic := { code.perform system runner thread point with locked := false }
    ∃ next, (next = atomic ∨ next = code.leap atomic place) ∧
      Completes code (code.advance system place) next := by
  intro atomic
  obtain hsame | ⟨other, hother, hcases⟩ := advance_cases code system place
  · exact ⟨atomic, Or.inl rfl,
      hsame.symm ▸ .inside system runner thread point hlocked hthread hphase hothers⟩
  obtain ⟨job, rest, hidle, hpending, hadvance⟩ | ⟨_, -, hfree, -⟩ | ⟨found, hfound, -⟩ := hcases
  · refine ⟨_, Or.inr rfl, ?_⟩
    have hsame : atomic.threads[place]? = some other :=
      (List.getElem?_set_ne (Ne.symm hplace)).trans hother
    have hnext : Completes code _ _ := .inside (code.start system place other job rest) runner
      thread point hlocked ((List.getElem?_set_ne hplace).trans hthread) hphase
      fun third hthird ↦ outsideAt_setThread (other.outside_begun rest _) (hothers third hthird)
    rw [hadvance, leap_of_idle hsame hidle hpending]
    convert hnext using 1
    simp only [Code.perform, Code.start, System.setThread, atomic]
    rw [List.set_comm _ _ (Ne.symm hplace)]
  · exact absurd (hfree.symm.trans hlocked) Bool.false_ne_true
  · exact absurd hfound (hothers place hplace other hother found)

/-- A step of the running section is nothing to the atomic system. -/
theorem completes_advance_self (hlocked : system.locked = true)
    (hthread : system.threads[runner]? = some thread) (hphase : thread.phase = .inside point)
    (hothers : ∀ other, other ≠ runner → system.OutsideAt other) :
    Completes code (code.advance system runner)
      { code.perform system runner thread point with locked := false } := by
  obtain hsame | ⟨found, hfound, hcases⟩ := advance_cases code system runner
  · rw [hsame]
    exact .inside system runner thread point hlocked hthread hphase hothers
  obtain rfl := Option.some.inj (hthread.symm.trans hfound)
  obtain ⟨_, _, hidle, -⟩ | ⟨_, hwaiting, -⟩ | ⟨found, hinside, hstep⟩ := hcases
  · cases hphase.symm.trans hidle
  · cases hphase.symm.trans hwaiting
  obtain rfl := Phase.inside.inj (hphase.symm.trans hinside)
  obtain ⟨next, guarded, hnext, hadvance⟩ | ⟨result, guarded, hresult, hadvance⟩ := hstep
  · have hinside : Completes code _ _ := .inside
      { system.setThread runner (thread.moved (.inside next)) with guarded } runner
      (thread.moved (.inside next)) next hlocked (getElem?_setThread_self hthread _) rfl
      fun other hother ↦ outsideAt_setThread_of_ne hother (hothers other hother)
    rw [hadvance]
    convert hinside using 1
    simp only [Code.perform, System.setThread, List.set_set, Thread.leaving, Thread.moved,
      Code.finish_of_step_inl hnext]
  · have hself : (thread.leaving result).Outside := by
      rintro point ⟨⟩
    have houtside : Completes code _ _ := .outside
      { system.setThread runner (thread.leaving result) with locked := false, guarded } rfl
      fun other ↦ by
        by_cases hother : other = runner
        · intro found hfound
          obtain rfl := hother
          have hsame := (getElem?_setThread_self hthread _).symm.trans hfound
          exact Option.some.inj hsame ▸ hself
        · exact outsideAt_setThread_of_ne hother (hothers other hother)
    rw [hadvance]
    convert houtside using 1
    simp only [Code.perform, System.setThread, Code.finish_of_step_inr hresult]

/-- A step of the system is a step of the atomic system, or nothing. -/
theorem completes_advance (hcompletes : Completes code system atomic) (place : ℕ) :
    ∃ next, (next = atomic ∨ next = code.leap atomic place) ∧
      Completes code (code.advance system place) next := by
  cases hcompletes with
  | outside hlocked houtside => exact completes_advance_of_outside hlocked houtside place
  | inside runner thread point hlocked hthread hphase hothers =>
    by_cases hplace : place = runner
    · subst hplace
      exact ⟨_, Or.inl rfl, completes_advance_self hlocked hthread hphase hothers⟩
    · exact completes_advance_of_ne hlocked hthread hphase hothers hplace

end Refinement

/-! ### Invariants -/

section Invariant

variable {code : Code Job Free Point Guarded Result}
  {inv : System Job Free Point Guarded Result → Prop}
  (hstart : ∀ system place thread job rest, inv system → system.threads[place]? = some thread →
    thread.phase = .idle → thread.pending = job :: rest →
      inv (code.start system place thread job rest))
  (hperform : ∀ system place thread point, inv system → system.threads[place]? = some thread →
    thread.phase = .waiting point → inv (code.perform system place thread point))
include hstart hperform

end Invariant

/-! ### Progress -/

section Progress

variable {code : Code Job Free Point Guarded Result}
  {system atomic : System Job Free Point Guarded Result}

/-- What a thread has left to do in its section. -/
def Code.left (code : Code Job Free Point Guarded Result) : Phase Point → ℕ
  | .idle => 0
  | .waiting point => code.size point + 2
  | .inside point => code.size point + 1

/-- What is left to do: the jobs that no thread has begun, and what is left of those begun. -/
def Code.work (code : Code Job Free Point Guarded Result)
    (system : System Job Free Point Guarded Result) : ℕ ×ₗ ℕ :=
  toLex ((system.threads.map fun thread ↦ thread.pending.length).sum,
    (system.threads.map fun thread ↦ code.left thread.phase).sum)

theorem sum_map_set {α : Type*} (weight : α → ℕ) {list : List α} {place : ℕ} {element : α}
    (helement : list[place]? = some element) (other : α) :
    ((list.set place other).map weight).sum + weight element =
      (list.map weight).sum + weight other := by
  induction list generalizing place with
  | nil => cases helement
  | cons first rest ih =>
    cases place with
    | zero =>
      obtain rfl := Option.some.inj helement
      simp only [List.set_cons_zero, List.map_cons, List.sum_cons]
      omega
    | succ place =>
      have hrest := ih helement
      simp only [List.set_cons_succ, List.map_cons, List.sum_cons]
      omega

/-- A thread that moves on inside a job leaves less work. -/
theorem work_lt_of_left {next : System Job Free Point Guarded Result} {place : ℕ}
    {thread : Thread Job Point Result} (later : Thread Job Point Result)
    (hthread : system.threads[place]? = some thread)
    (hnext : next.threads = system.threads.set place later)
    (hpending : later.pending = thread.pending)
    (hleft : code.left later.phase < code.left thread.phase) :
    code.work next < code.work system := by
  have hjobs := sum_map_set (fun thread ↦ thread.pending.length) hthread later
  have hweights := sum_map_set (fun thread ↦ code.left thread.phase) hthread later
  rw [Code.work, Code.work, hnext]
  refine Prod.Lex.toLex_lt_toLex.mpr (Or.inr ⟨?_, ?_⟩)
  · rw [hpending] at hjobs
    exact Nat.add_right_cancel hjobs
  · omega

/-- While there is something left to do, some thread can do it. -/
theorem exists_work_lt (hcompletes : Completes code system atomic)
    (hfinished : ¬system.Finished) :
    ∃ place, code.work (code.advance system place) < code.work system := by
  cases hcompletes with
  | inside runner thread point hlocked hthread hphase hothers =>
    refine ⟨runner, ?_⟩
    rcases hstep : code.step point system.guarded with ⟨next | result, guarded⟩
    · refine work_lt_of_left (thread.moved (.inside next)) hthread ?_ rfl ?_
      · simp only [Code.advance, hthread, hphase, hstep, System.setThread]
      · have hsize := code.size_lt point next system.guarded (congrArg Prod.fst hstep)
        rw [hphase]
        exact Nat.add_lt_add_right hsize 1
    · refine work_lt_of_left (thread.leaving result) hthread ?_ rfl ?_
      · simp only [Code.advance, hthread, hphase, hstep, System.setThread]
      · rw [hphase]
        exact Nat.succ_pos (code.size point)
  | outside hlocked houtside =>
    unfold System.Finished at hfinished
    push Not at hfinished
    obtain ⟨thread, hmem, hthread⟩ := hfinished
    obtain ⟨place, hplace⟩ := List.mem_iff_getElem?.mp hmem
    refine ⟨place, ?_⟩
    rcases hphase : thread.phase with _ | point | point
    · rcases hpending : thread.pending with _ | ⟨job, rest⟩
      · exact absurd ⟨hpending, hphase⟩ hthread
      · have hjobs := sum_map_set (fun thread ↦ thread.pending.length) hplace
          (thread.begun rest (code.prepare job system.free).1)
        have hrest : (thread.begun rest (code.prepare job system.free).1).pending = rest := by
          rcases (code.prepare job system.free).1 with _ | point
          · rfl
          · rfl
        rw [hrest, hpending, List.length_cons] at hjobs
        refine Prod.Lex.toLex_lt_toLex.mpr (Or.inl ?_)
        simp only [Code.advance, hplace, hphase, hpending, Code.start, System.setThread]
        omega
    · refine work_lt_of_left (thread.moved (.inside point)) hplace ?_ rfl ?_
      · simp only [Code.advance, hplace, hphase, hlocked, Bool.false_eq_true, if_false,
          System.setThread]
      · rw [hphase]
        exact Nat.lt_succ_self (code.size point + 1)
    · exact absurd hphase (houtside place thread hplace point)

/-- No schedule leads to a deadlock: from where it ends, all threads can do all their jobs. -/
theorem exists_finishing_schedule (hcompletes : Completes code system atomic) :
    ∃ schedule, (code.runSchedule system schedule).Finished := by
  generalize hwork : code.work system = work
  induction work using WellFoundedLT.induction generalizing system atomic with
  | _ work ih =>
    by_cases hfinished : system.Finished
    · exact ⟨[], hfinished⟩
    · obtain ⟨place, hplace⟩ := exists_work_lt hcompletes hfinished
      obtain ⟨next, -, hnext⟩ := completes_advance hcompletes place
      obtain ⟨schedule, hschedule⟩ := ih _ (hwork ▸ hplace) hnext rfl
      exact ⟨place :: schedule, hschedule⟩

end Progress

end Homework.Library.CriticalSections
