import Mathlib.Algebra.GroupWithZero.Nat
import Mathlib.Data.List.Basic

/-!
# Independent workers

Jobs are dealt to a number of workers round robin, and the workers then run in any interleaving.

Dealing hands out every job exactly once (`flatten_deal_perm`), and as the hands fill up in order,
no hand after an empty one holds a job (`deal_pairwise`): cutting the hands at the first empty one
loses nothing (`flatten_takeWhile_deal`).

A `Worker` has pending jobs and a state of its own. A schedule says which worker takes its next job.
The outcome of a worker, what is left to do done in order, is the same after every step
(`Worker.outcome_step`), so under every schedule that leaves nothing pending the states are the
outcomes the workers started with (`map_state_runSchedule`).
-/

set_option autoImplicit false
set_option relaxedAutoImplicit false

namespace Homework.Library.Workers

variable {Job State : Type*}

/-! ### Dealing round robin -/

/-- Gives a job to the hand of its number, counted round robin. -/
def dealJob (number : ℕ) (hands : List (List Job)) (job : Job) : List (List Job) :=
  hands.modify (number % hands.length) (· ++ [job])

/-- Deals jobs to a number of hands, from a number on. -/
def dealFrom : ℕ → List (List Job) → List Job → List (List Job)
  | _, hands, [] => hands
  | number, hands, job :: jobs => dealFrom (number + 1) (dealJob number hands job) jobs

/-- Deals jobs to empty hands. -/
def deal (count : ℕ) (jobs : List Job) : List (List Job) :=
  dealFrom 0 (List.replicate count []) jobs

@[simp] theorem length_dealJob (number : ℕ) (hands : List (List Job)) (job : Job) :
    (dealJob number hands job).length = hands.length :=
  List.length_modify ..

theorem getElem_dealJob (number : ℕ) (hands : List (List Job)) (job : Job) (place : ℕ)
    (hplace : place < hands.length) (hdealt : place < (dealJob number hands job).length) :
    (dealJob number hands job)[place] =
      if number % hands.length = place then hands[place] ++ [job] else hands[place] :=
  List.getElem_modify ..

/-- Adding a job to one hand adds it to the jobs of all hands. -/
theorem flatten_modify_perm (hands : List (List Job)) (job : Job) {place : ℕ}
    (hplace : place < hands.length) :
    (hands.modify place (· ++ [job])).flatten.Perm (hands.flatten ++ [job]) := by
  induction hands generalizing place with
  | nil => exact absurd hplace (Nat.not_lt_zero place)
  | cons hand rest ih =>
    cases place with
    | zero =>
      rw [List.modify_zero_cons, List.flatten_cons, List.flatten_cons, List.append_assoc,
        List.append_assoc]
      exact List.Perm.append_left hand List.perm_append_comm
    | succ place =>
      rw [List.modify_succ_cons, List.flatten_cons, List.flatten_cons, List.append_assoc]
      exact (ih (Nat.lt_of_succ_lt_succ hplace)).append_left hand

/-- Dealing adds the jobs to those of the hands. Assumes: there is a hand. -/
theorem flatten_dealFrom_perm (number : ℕ) {hands : List (List Job)} (hhands : 0 < hands.length)
    (jobs : List Job) : (dealFrom number hands jobs).flatten.Perm (hands.flatten ++ jobs) := by
  induction jobs generalizing number hands with
  | nil =>
    rw [dealFrom, List.append_nil]
  | cons job jobs ih =>
    have hjob := flatten_modify_perm hands job (Nat.mod_lt number hhands)
    have hrest := ih (number + 1) ((length_dealJob number hands job).symm ▸ hhands)
    rw [dealFrom, List.append_cons]
    exact hrest.trans (hjob.append_right jobs)

theorem length_emptyHands_pos {count : ℕ} (hcount : 0 < count) :
    0 < (List.replicate count ([] : List Job)).length := by
  rwa [List.length_replicate]

/-- Every job is dealt exactly once. -/
theorem flatten_deal_perm {count : ℕ} (hcount : 0 < count) (jobs : List Job) :
    (deal count jobs).flatten.Perm jobs := by
  have hdeal := flatten_dealFrom_perm 0 (length_emptyHands_pos hcount) jobs
  rwa [List.flatten_replicate_nil, List.nil_append] at hdeal

/-- The hands fill up in order: a hand is empty exactly when the number has not reached it. -/
def FilledTo (number : ℕ) (hands : List (List Job)) : Prop :=
  ∀ place (hplace : place < hands.length), hands[place] = [] ↔ number ≤ place

theorem FilledTo.dealJob {number : ℕ} {hands : List (List Job)} (hfilled : FilledTo number hands)
    (hhands : 0 < hands.length) (job : Job) : FilledTo (number + 1) (dealJob number hands job) := by
  intro place hdealt
  have hplace : place < hands.length := length_dealJob number hands job ▸ hdealt
  have hold := hfilled place hplace
  have hmod := Nat.mod_lt number hhands
  have hsmall : number ≤ place → number % hands.length = number := fun hle ↦
    Nat.mod_eq_of_lt (Nat.lt_of_le_of_lt hle hplace)
  have hle := Nat.mod_le number hands.length
  rw [getElem_dealJob number hands job place hplace hdealt]
  split_ifs with hhere
  · simp only [List.append_eq_nil_iff, List.cons_ne_self, and_false, false_iff]
    omega
  · rw [hold]
    constructor
    · intro hnumber
      have hsame := hsmall hnumber
      omega
    · omega

theorem FilledTo.dealFrom {number : ℕ} {hands : List (List Job)} (hfilled : FilledTo number hands)
    (hhands : 0 < hands.length) (jobs : List Job) :
    FilledTo (number + jobs.length) (dealFrom number hands jobs) := by
  induction jobs generalizing number hands with
  | nil => exact hfilled
  | cons job jobs ih =>
    have hrest := ih (hfilled.dealJob hhands job)
      ((length_dealJob number hands job).symm ▸ hhands)
    rwa [Workers.dealFrom, List.length_cons, Nat.add_comm jobs.length, ← Nat.add_assoc]

/-- No hand after an empty one holds a job. -/
theorem deal_pairwise {count : ℕ} (hcount : 0 < count) (jobs : List Job) :
    (deal count jobs).Pairwise fun hand later ↦ hand = [] → later = [] := by
  have hempty : FilledTo 0 (List.replicate count ([] : List Job)) := by
    intro place hplace
    simp
  have hfilled := hempty.dealFrom (length_emptyHands_pos hcount) jobs
  rw [List.pairwise_iff_getElem]
  intro first second hfirst hsecond hlt hnil
  have hreached := (hfilled first hfirst).mp hnil
  exact (hfilled second hsecond).mpr (Nat.le_trans hreached (Nat.le_of_lt hlt))

/-- Cutting lists at the first empty one keeps every element, when no list after an empty one holds
an element. -/
theorem flatten_takeWhile_of_pairwise {hands : List (List Job)}
    (hpairwise : hands.Pairwise fun hand later ↦ hand = [] → later = []) :
    (hands.takeWhile fun hand ↦ !hand.isEmpty).flatten = hands.flatten := by
  induction hands with
  | nil => rfl
  | cons hand rest ih =>
    rw [List.pairwise_cons] at hpairwise
    rcases hand with _ | ⟨job, hand⟩
    · have hrest : rest.flatten = [] :=
        List.flatten_eq_nil_iff.mpr fun later hlater ↦ hpairwise.1 later hlater rfl
      rw [List.flatten_cons, hrest]
      rfl
    · rw [List.takeWhile_cons_of_pos rfl, List.flatten_cons, List.flatten_cons, ih hpairwise.2]

/-- The hands before the first empty one hold every job exactly once. -/
theorem flatten_takeWhile_deal {count : ℕ} (hcount : 0 < count) (jobs : List Job) :
    ((deal count jobs).takeWhile fun hand ↦ !hand.isEmpty).flatten.Perm jobs := by
  rw [flatten_takeWhile_of_pairwise (deal_pairwise hcount jobs)]
  exact flatten_deal_perm hcount jobs

/-! ### Running in any interleaving -/

/-- A worker: the jobs it has not taken yet and the state it works on. -/
structure Worker (Job State : Type*) where
  pending : List Job
  state : State

section Schedule

variable (work : Job → State → State)

/-- The worker does its next job, if it has one. -/
def Worker.step (worker : Worker Job State) : Worker Job State :=
  match worker.pending with
  | [] => worker
  | job :: rest => ⟨rest, work job worker.state⟩

/-- The state of the worker once it has done all its jobs. -/
def Worker.outcome (worker : Worker Job State) : State :=
  worker.pending.foldl (fun state job ↦ work job state) worker.state

/-- The workers after the steps of a schedule, which names the worker of each step. -/
def runSchedule (workers : List (Worker Job State)) (schedule : List ℕ) :
    List (Worker Job State) :=
  schedule.foldl (fun workers place ↦ workers.modify place (Worker.step work)) workers

/-- What the steps of the worker at each place keep holds there after every schedule. -/
theorem forall_runSchedule {inv : ℕ → Worker Job State → Prop}
    (hkeep : ∀ place worker, inv place worker → inv place (worker.step work))
    {workers : List (Worker Job State)}
    (hstart : ∀ place worker, workers[place]? = some worker → inv place worker)
    (schedule : List ℕ) :
    ∀ place worker, (runSchedule work workers schedule)[place]? = some worker →
      inv place worker := by
  induction schedule generalizing workers with
  | nil => exact hstart
  | cons next rest ih =>
    refine ih fun place worker hworker ↦ ?_
    rw [List.getElem?_modify, Option.map_eq_map, Option.map_eq_some_iff] at hworker
    obtain ⟨before, hbefore, rfl⟩ := hworker
    split_ifs
    · exact hkeep place before (hstart place before hbefore)
    · exact hstart place before hbefore

/-- At every moment the worker at a place has done some of its jobs, in order, and the others are
left. -/
theorem exists_done_of_getElem?_runSchedule (workers : List (Worker Job State))
    (schedule : List ℕ) :
    ∀ (place : ℕ) (worker : Worker Job State),
      (runSchedule work workers schedule)[place]? = some worker →
        ∃ beginning : Worker Job State, workers[place]? = some beginning ∧ ∃ done,
          beginning.pending = done ++ worker.pending ∧
            worker.state = done.foldl (fun state job ↦ work job state) beginning.state := by
  refine forall_runSchedule work ?_ (fun place worker hworker ↦ ⟨worker, hworker, [], rfl, rfl⟩)
    schedule
  rintro place ⟨_ | ⟨job, rest⟩, state⟩ ⟨beginning, hbeginning, done, hpending, hstate⟩
  · exact ⟨beginning, hbeginning, done, hpending, hstate⟩
  · refine ⟨beginning, hbeginning, done ++ [job], ?_, ?_⟩
    · rw [hpending, List.append_assoc]
      rfl
    · rw [List.foldl_append, ← hstate]
      rfl

/-- A worker that is named a number of times, and no other, does so many of its jobs. -/
theorem runSchedule_replicate (workers : List (Worker Job State)) (place : ℕ)
    {done rest : List Job} {state : State}
    (hworker : workers[place]? = some ⟨done ++ rest, state⟩) :
    (runSchedule work workers (List.replicate done.length place))[place]? =
      some ⟨rest, done.foldl (fun state job ↦ work job state) state⟩ := by
  induction done generalizing workers state with
  | nil => exact hworker
  | cons job done ih =>
    refine ih _ ?_
    rw [List.getElem?_modify_eq, hworker]
    rfl

/-- A step leaves the outcome of a worker as it is. -/
theorem Worker.outcome_step (worker : Worker Job State) :
    (worker.step work).outcome work = worker.outcome work := by
  rcases worker with ⟨_ | ⟨job, rest⟩, state⟩ <;> rfl

theorem map_outcome_modify (workers : List (Worker Job State)) (place : ℕ) :
    (workers.modify place (Worker.step work)).map (Worker.outcome work) =
      workers.map (Worker.outcome work) := by
  apply List.ext_getElem
  · rw [List.length_map, List.length_map, List.length_modify]
  · intro position hleft hright
    rw [List.getElem_map, List.getElem_map, List.getElem_modify]
    split_ifs
    · exact Worker.outcome_step work _
    · rfl

/-- A schedule leaves the outcome of every worker as it is. -/
theorem map_outcome_runSchedule (workers : List (Worker Job State)) (schedule : List ℕ) :
    (runSchedule work workers schedule).map (Worker.outcome work) =
      workers.map (Worker.outcome work) := by
  induction schedule generalizing workers with
  | nil => rfl
  | cons place rest ih =>
    rw [← map_outcome_modify work workers place]
    exact ih _

/-- The state of workers with nothing pending is their outcome. -/
theorem map_state_eq_outcome {workers : List (Worker Job State)}
    (hfinished : ∀ worker ∈ workers, worker.pending = []) :
    workers.map Worker.state = workers.map (Worker.outcome work) := by
  refine List.map_congr_left fun worker hworker ↦ ?_
  rw [Worker.outcome, hfinished worker hworker, List.foldl_nil]

/-- Once a schedule has left nothing pending, the state of every worker is its outcome. -/
theorem map_state_runSchedule (workers : List (Worker Job State)) (schedule : List ℕ)
    (hfinished : ∀ worker ∈ runSchedule work workers schedule, worker.pending = []) :
    (runSchedule work workers schedule).map Worker.state = workers.map (Worker.outcome work) := by
  rw [map_state_eq_outcome work hfinished, map_outcome_runSchedule]

/-- The jobs that the workers have not taken yet. -/
def pendingJobs (workers : List (Worker Job State)) : ℕ :=
  (workers.map fun worker ↦ worker.pending.length).sum

/-- A step of a worker that has a job leaves fewer jobs pending. -/
theorem pendingJobs_modify_lt (workers : List (Worker Job State)) (place : ℕ)
    (hplace : place < workers.length) (hpending : workers[place].pending ≠ []) :
    pendingJobs (workers.modify place (Worker.step work)) < pendingJobs workers := by
  induction workers generalizing place with
  | nil => exact absurd hplace (Nat.not_lt_zero place)
  | cons worker rest ih =>
    cases place with
    | zero =>
      rcases worker with ⟨_ | ⟨job, pending⟩, state⟩
      · exact absurd rfl hpending
      · simp [pendingJobs, Worker.step]
    | succ place =>
      have hrest := ih place (Nat.lt_of_succ_lt_succ hplace) hpending
      unfold pendingJobs at hrest ⊢
      rw [List.modify_succ_cons, List.map_cons, List.map_cons, List.sum_cons, List.sum_cons]
      exact Nat.add_lt_add_left hrest _

/-- Workers that have jobs left can always finish: some schedule leaves nothing pending. -/
theorem exists_finishing_schedule (workers : List (Worker Job State)) :
    ∃ schedule, ∀ worker ∈ runSchedule work workers schedule, worker.pending = [] := by
  generalize hjobs : pendingJobs workers = jobs
  induction jobs using Nat.strongRecOn generalizing workers with
  | _ jobs ih =>
    by_cases hfinished : ∀ worker ∈ workers, worker.pending = []
    · exact ⟨[], hfinished⟩
    · push Not at hfinished
      obtain ⟨worker, hworker, hpending⟩ := hfinished
      obtain ⟨place, hplace, rfl⟩ := List.mem_iff_getElem.mp hworker
      have hlt := pendingJobs_modify_lt work workers place hplace hpending
      obtain ⟨schedule, hschedule⟩ := ih _ (hjobs ▸ hlt) _ rfl
      exact ⟨place :: schedule, hschedule⟩

theorem runSchedule_append (workers : List (Worker Job State)) (schedule more : List ℕ) :
    runSchedule work workers (schedule ++ more) =
      runSchedule work (runSchedule work workers schedule) more :=
  List.foldl_append ..

end Schedule

end Homework.Library.Workers
