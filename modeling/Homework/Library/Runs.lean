import Mathlib.Data.List.Basic
import Mathlib.Data.List.Induction

/-!
# Runs of a system

A system takes one input after another. A step gives the next state, or an error, after which the
run goes no further. A property that holds in a state and is kept by every step holds after every
run (`invariant`), and where it also rules the error out, every run goes through (`run_ok`). Both
rules take a condition that the steps of the run are to meet (`Along`); it is a condition on the
state before a step and on its input. Where a step goes wrong exactly when it does not meet the
condition, a run does exactly when one of its steps does not (`never_bad_iff`). Where a state stands
for the inputs so far, the run goes through exactly when these are good at every moment
(`run_settled`).
-/

set_option autoImplicit false
set_option relaxedAutoImplicit false

namespace Homework.Library.Runs

section Run

variable {S A E : Type*} (step : S → A → Except E S)

/-- The state after some inputs. -/
def run : S → List A → Except E S
  | state, [] => .ok state
  | state, input :: rest =>
    match step state input with
    | .error error => .error error
    | .ok next => run next rest

/-- Every step of a run meets a condition. -/
def Along (condition : S → A → Prop) : S → List A → Prop
  | _, [] => True
  | state, input :: rest =>
    condition state input ∧ ∀ next, step state input = .ok next → Along condition next rest

variable {step}

theorem run_cons_of_ok {state next : S} {input : A} (hstep : step state input = .ok next)
    (rest : List A) : run step state (input :: rest) = run step next rest := by
  rw [run, hstep]

/-- The first step of a run that goes through. -/
theorem of_run_cons_eq_ok {state last : S} {input : A} {rest : List A}
    (hrun : run step state (input :: rest) = .ok last) :
    ∃ next, step state input = .ok next ∧ run step next rest = .ok last := by
  rw [run] at hrun
  rcases hstep : step state input with error | next
  · simp only [hstep, reduceCtorEq] at hrun
  · simp only [hstep] at hrun
    exact ⟨next, rfl, hrun⟩

/-- A run goes on from where its first part ends. -/
theorem run_append_of_ok {state middle : S} {first : List A}
    (hfirst : run step state first = .ok middle) (second : List A) :
    run step state (first ++ second) = run step middle second := by
  induction first generalizing state with
  | nil =>
    obtain rfl := Except.ok.inj hfirst
    rfl
  | cons input rest ih =>
    obtain ⟨next, hstep, hrest⟩ := of_run_cons_eq_ok hfirst
    rw [List.cons_append, run_cons_of_ok hstep]
    exact ih hrest

/-- A run that goes through goes through its first part. -/
theorem of_run_append_eq_ok {state last : S} {first second : List A}
    (hrun : run step state (first ++ second) = .ok last) :
    ∃ middle, run step state first = .ok middle ∧ run step middle second = .ok last := by
  induction first generalizing state with
  | nil => exact ⟨state, rfl, hrun⟩
  | cons input rest ih =>
    obtain ⟨next, hstep, hrest⟩ := of_run_cons_eq_ok hrun
    obtain ⟨middle, hmiddle, hlast⟩ := ih hrest
    exact ⟨middle, (run_cons_of_ok hstep rest).trans hmiddle, hlast⟩

theorem run_append_singleton {state middle : S} {inputs : List A}
    (hrun : run step state inputs = .ok middle) (input : A) :
    run step state (inputs ++ [input]) = step middle input := by
  rw [run_append_of_ok hrun, run]
  rcases step middle input with error | next
  · rfl
  · rfl

/-- The last step of a run that goes through. -/
theorem of_run_append_singleton_eq_ok {state last : S} {inputs : List A} {input : A}
    (hrun : run step state (inputs ++ [input]) = .ok last) :
    ∃ middle, run step state inputs = .ok middle ∧ step middle input = .ok last := by
  obtain ⟨middle, hmiddle, -⟩ := of_run_append_eq_ok hrun
  rw [run_append_singleton hmiddle] at hrun
  exact ⟨middle, hmiddle, hrun⟩

/-- An error stops a run. -/
theorem run_append_of_error {state : S} {first : List A} {error : E}
    (hfirst : run step state first = .error error) (second : List A) :
    run step state (first ++ second) = .error error := by
  induction first generalizing state with
  | nil => exact absurd hfirst nofun
  | cons input rest ih =>
    rw [List.cons_append, run]
    rw [run] at hfirst
    rcases hstep : step state input with found | next
    · simp only [hstep] at hfirst ⊢
      exact hfirst
    · simp only [hstep] at hfirst ⊢
      exact ih hfirst

/-- A run is a loop that goes on with the state, or keeps the error. -/
theorem foldl_bind_eq_run (inputs : List A) (state : S) :
    inputs.foldl (fun (result : Except E S) input ↦ result >>= fun state ↦ step state input)
      (.ok state) = run step state inputs := by
  induction inputs using List.reverseRecOn with
  | nil => rfl
  | append_singleton inputs input ih =>
    rw [List.foldl_append, ih]
    rcases hrun : run step state inputs with error | last
    · rw [run_append_of_error hrun]
      rfl
    · rw [run_append_singleton hrun]
      rfl

theorem along_cons_of_ok {condition : S → A → Prop} {state next : S} {input : A}
    (hstep : step state input = .ok next) (rest : List A) :
    Along step condition state (input :: rest) ↔
      condition state input ∧ Along step condition next rest := by
  refine and_congr_right fun _ ↦ ⟨fun hall ↦ hall next hstep, fun halong other hother ↦ ?_⟩
  obtain rfl := Except.ok.inj (hstep.symm.trans hother)
  exact halong

/-- A condition on the inputs alone. -/
theorem along_of_forall {condition : A → Prop} {inputs : List A}
    (hall : ∀ input ∈ inputs, condition input) (state : S) :
    Along step (fun _ input ↦ condition input) state inputs := by
  induction inputs generalizing state with
  | nil => trivial
  | cons input rest ih =>
    exact ⟨hall input List.mem_cons_self,
      fun next _ ↦ ih (fun other hother ↦ hall other (List.mem_cons_of_mem _ hother)) next⟩

theorem Along.of_append {condition : S → A → Prop} {state : S} {first second : List A}
    (halong : Along step condition state (first ++ second)) :
    Along step condition state first := by
  induction first generalizing state with
  | nil => trivial
  | cons input rest ih => exact ⟨halong.1, fun next hstep ↦ ih (halong.2 next hstep)⟩

/-- The last step of a run all of whose steps meet a condition. -/
theorem Along.last {condition : S → A → Prop} {state middle : S} {inputs : List A} {input : A}
    (halong : Along step condition state (inputs ++ [input]))
    (hrun : run step state inputs = .ok middle) : condition middle input := by
  induction inputs generalizing state with
  | nil =>
    obtain rfl := Except.ok.inj hrun
    exact halong.1
  | cons first rest ih =>
    obtain ⟨next, hstep, hrest⟩ := of_run_cons_eq_ok hrun
    exact ih (halong.2 next hstep) hrest

/-- The last step of a run that meets a condition: the run is cut behind it, or at its start if no
step meets it. -/
theorem exists_last_along (condition : S → A → Prop) {state last : S} {inputs : List A}
    (hrun : run step state inputs = .ok last) :
    ∃ before after middle, inputs = before ++ after ∧ run step state before = .ok middle ∧
      Along step (fun state input ↦ ¬condition state input) middle after ∧
      (before = [] ∨ ∃ earlier input previous, before = earlier ++ [input] ∧
        run step state earlier = .ok previous ∧ condition previous input) := by
  induction inputs generalizing state with
  | nil => exact ⟨[], [], state, rfl, rfl, trivial, Or.inl rfl⟩
  | cons input rest ih =>
    obtain ⟨next, hstep, hrest⟩ := of_run_cons_eq_ok hrun
    obtain ⟨before, after, middle, hsplit, hmiddle, hafter, hlast⟩ := ih hrest
    have hcons : input :: rest = (input :: before) ++ after := by rw [hsplit]; rfl
    rcases hlast with rfl | ⟨earlier, found, previous, rfl, hearlier, hfound⟩
    · obtain rfl := Except.ok.inj hmiddle
      by_cases hcondition : condition state input
      · exact ⟨[input], after, next, hcons, run_cons_of_ok hstep [], hafter,
          Or.inr ⟨[], input, state, rfl, rfl, hcondition⟩⟩
      · refine ⟨[], input :: after, state, hcons, rfl, ⟨hcondition, ?_⟩, Or.inl rfl⟩
        intro other hother
        rw [hstep] at hother
        exact Except.ok.inj hother ▸ hafter
    · exact ⟨input :: (earlier ++ [found]), after, middle, hcons,
        (run_cons_of_ok hstep _).trans hmiddle, hafter,
        Or.inr ⟨input :: earlier, found, previous, rfl,
          (run_cons_of_ok hstep earlier).trans hearlier, hfound⟩⟩

end Run

section Invariant

variable {S A E : Type*} {step : S → A → Except E S} {condition : S → A → Prop}
  {inv : S → Prop}

/-- A property that every step keeps holds after every run. Assumes: the steps of the run meet the
condition under which they keep it. -/
theorem invariant
    (hkeep : ∀ state input next, inv state → condition state input →
      step state input = .ok next → inv next)
    {state last : S} {inputs : List A} (hstart : inv state)
    (halong : Along step condition state inputs) (hrun : run step state inputs = .ok last) :
    inv last := by
  induction inputs generalizing state with
  | nil => exact Except.ok.inj hrun ▸ hstart
  | cons input rest ih =>
    obtain ⟨next, hstep, hrest⟩ := of_run_cons_eq_ok hrun
    exact ih (hkeep state input next hstart halong.1 hstep) (halong.2 next hstep) hrest

/-- A property that every step keeps without an error holds after every run, and every run goes
through. -/
theorem run_ok
    (hkeep : ∀ state input, inv state → condition state input →
      ∃ next, step state input = .ok next ∧ inv next)
    {state : S} {inputs : List A} (hstart : inv state)
    (halong : Along step condition state inputs) :
    ∃ last, run step state inputs = .ok last ∧ inv last := by
  induction inputs generalizing state with
  | nil => exact ⟨state, rfl, hstart⟩
  | cons input rest ih =>
    obtain ⟨next, hstep, hnext⟩ := hkeep state input hstart halong.1
    obtain ⟨last, hlast, hinv⟩ := ih hnext (halong.2 next hstep)
    exact ⟨last, (run_cons_of_ok hstep rest).trans hlast, hinv⟩

/-- Where the states of a run stand for the inputs so far, all of which are good, and a step goes
through to the state for one input more or ends in an error for inputs that are not good, the run
goes through exactly when the inputs are good at every moment. -/
theorem run_settled {error : E} {rel : S → List A → Prop} {good : List A → Prop}
    (hgood : ∀ state inputs, rel state inputs → good inputs)
    {start : S} (hstart : rel start []) {inputs : List A}
    (hstep : ∀ before input state, before ++ [input] <+: inputs → rel state before →
      (∃ next, step state input = .ok next ∧ rel next (before ++ [input])) ∨
        step state input = .error error ∧ ¬good (before ++ [input])) :
    (∃ last, run step start inputs = .ok last ∧ rel last inputs ∧
        ∀ before, before <+: inputs → good before) ∨
      run step start inputs = .error error ∧ ∃ before, before <+: inputs ∧ ¬good before := by
  induction inputs using List.reverseRecOn with
  | nil =>
    refine Or.inl ⟨start, rfl, hstart, fun before hbefore ↦ ?_⟩
    rw [List.prefix_nil.mp hbefore]
    exact hgood start [] hstart
  | append_singleton inputs input ih =>
    have hinitial : inputs <+: inputs ++ [input] := List.prefix_append inputs [input]
    rcases ih fun before input state hbefore ↦ hstep before input state (hbefore.trans hinitial)
      with ⟨middle, hmiddle, hrel, hall⟩ | ⟨herror, before, hbefore, hbad⟩
    · rw [run_append_singleton hmiddle]
      rcases hstep inputs input middle List.prefix_rfl hrel with
        ⟨last, hlast, hlastRel⟩ | ⟨hlast, hbad⟩
      · refine Or.inl ⟨last, hlast, hlastRel, fun before hbefore ↦ ?_⟩
        rcases List.prefix_concat_iff.mp hbefore with rfl | hshort
        · exact hgood last _ hlastRel
        · exact hall before hshort
      · exact Or.inr ⟨hlast, inputs ++ [input], List.prefix_rfl, hbad⟩
    · exact Or.inr ⟨run_append_of_error herror [input], before, hbefore.trans hinitial, hbad⟩

/-- Where a step of a system in order ends in a bad error exactly when it does not meet a condition,
no run ends in one exactly when all its steps meet it. -/
theorem never_bad_iff {bad : E → Prop}
    (hkeep : ∀ state input next, inv state → step state input = .ok next → inv next)
    (hbad : ∀ state input, inv state →
      ((∃ error, step state input = .error error ∧ bad error) ↔ ¬condition state input))
    {state : S} (hstart : inv state) (inputs : List A) :
    (∀ error, run step state inputs = .error error → ¬bad error) ↔
      Along step condition state inputs := by
  induction inputs generalizing state with
  | nil => exact iff_of_true nofun trivial
  | cons input rest ih =>
    have hinput := hbad state input hstart
    rcases hstep : step state input with error | next
    · have herror : run step state (input :: rest) = .error error := by rw [run, hstep]
      constructor
      · intro hnever
        refine ⟨by_contra fun hcondition ↦ ?_, fun next hnext ↦ ?_⟩
        · obtain ⟨found, hfound, hfoundBad⟩ := hinput.mpr hcondition
          obtain rfl := Except.error.inj (hstep.symm.trans hfound)
          exact hnever error herror hfoundBad
        · exact absurd (hstep.symm.trans hnext) nofun
      · intro halong found hfound hfoundBad
        obtain rfl := Except.error.inj (herror.symm.trans hfound)
        exact hinput.mp ⟨error, hstep, hfoundBad⟩ halong.1
    · have hcondition : condition state input := by
        by_contra hnone
        obtain ⟨found, hfound, -⟩ := hinput.mpr hnone
        exact absurd (hstep.symm.trans hfound) nofun
      rw [run_cons_of_ok hstep, along_cons_of_ok hstep, and_iff_right hcondition]
      exact ih (hkeep state input next hstart hstep)

/-- Where a step leaves a good state for a good one exactly when it meets a condition, all states of
a run are good exactly when all its steps meet it. -/
theorem everywhere_iff {good : S → Prop}
    (hkeep : ∀ state input next, inv state → step state input = .ok next → inv next)
    (hgood : ∀ state input, inv state → good state →
      ((∀ next, step state input = .ok next → good next) ↔ condition state input))
    {state : S} (hinv : inv state) (hstart : good state) (inputs : List A) :
    (∀ before last, before <+: inputs → run step state before = .ok last → good last) ↔
      Along step condition state inputs := by
  induction inputs generalizing state with
  | nil =>
    refine iff_of_true (fun before last hinitial hrun ↦ ?_) trivial
    obtain rfl := List.prefix_nil.mp hinitial
    exact Except.ok.inj hrun ▸ hstart
  | cons input rest ih =>
    have hinput := hgood state input hinv hstart
    have hcons {before : List A} (hinitial : before <+: rest) : input :: before <+: input :: rest :=
      List.cons_prefix_cons.mpr ⟨rfl, hinitial⟩
    constructor
    · intro hall
      have hnext (next : S) (hstep : step state input = .ok next) : good next :=
        hall [input] next (hcons List.nil_prefix) (run_cons_of_ok hstep [])
      refine ⟨hinput.mp hnext, fun next hstep ↦ ?_⟩
      refine (ih (hkeep state input next hinv hstep) (hnext next hstep)).mp ?_
      intro before last hinitial hrun
      exact hall (input :: before) last (hcons hinitial) ((run_cons_of_ok hstep before).trans hrun)
    · rintro ⟨hcondition, hrest⟩ before last hinitial hrun
      rcases before with _ | ⟨first, before⟩
      · exact Except.ok.inj hrun ▸ hstart
      · obtain ⟨rfl, hbefore⟩ := List.cons_prefix_cons.mp hinitial
        obtain ⟨next, hstep, hlast⟩ := of_run_cons_eq_ok hrun
        exact (ih (hkeep state first next hinv hstep) (hinput.mpr hcondition next hstep)).mpr
          (hrest next hstep) before last hbefore hlast

/-- Conditions that agree in the states of a system in order agree along its runs. -/
theorem along_congr {other : S → A → Prop}
    (hcongr : ∀ state input, inv state → (condition state input ↔ other state input))
    (hkeep : ∀ state input next, inv state → step state input = .ok next → inv next)
    {state : S} (hstart : inv state) (inputs : List A) :
    Along step condition state inputs ↔ Along step other state inputs := by
  induction inputs generalizing state with
  | nil => exact Iff.rfl
  | cons input rest ih =>
    refine and_congr (hcongr state input hstart) (forall₂_congr fun next hstep ↦ ?_)
    exact ih (hkeep state input next hstart hstep)

theorem along_true (state : S) (inputs : List A) : Along step (fun _ _ ↦ True) state inputs := by
  induction inputs generalizing state with
  | nil => trivial
  | cons input rest ih => exact ⟨trivial, fun next _ ↦ ih next⟩

/-- A property that every step keeps holds after every run. -/
theorem always
    (hkeep : ∀ state input next, inv state → step state input = .ok next → inv next)
    {state last : S} {inputs : List A} (hstart : inv state)
    (hrun : run step state inputs = .ok last) : inv last :=
  invariant (fun state input next hinv _ hstep ↦ hkeep state input next hinv hstep) hstart
    (along_true state inputs) hrun

end Invariant

end Homework.Library.Runs
