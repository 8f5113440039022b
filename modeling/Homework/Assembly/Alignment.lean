import Homework.Assembly.Agreement

/-!
# The alignment of the stack

The System V convention wants the stack pointer to be a multiple of 16 at every call. `main` is
entered with 8 bytes more, and calls its routines and `puts` with an aligned stack. `add_element`
keeps to the convention when its caller does, but `print_int` moves the stack pointer by 32 behind
the return address, so that it calls `printf` and `fflush` with 8 bytes too many. As soon as there
is a value to print, some call is misaligned (`callsAligned_iff`).
-/

set_option autoImplicit false
set_option relaxedAutoImplicit false

namespace Homework.Assembly

open Homework.Library.Machine

/-- A call with an aligned stack. -/
def Aligned (site : External × ℤ) : Prop := site.2 % 16 = 0

instance (site : External × ℤ) : Decidable (Aligned site) :=
  inferInstanceAs (Decidable (_ = _))

/-- All calls of the C library that the machine makes from a state on are aligned. -/
def CallsAligned (symbols : Symbols) (externals : Externals External) (state : State External) :
    Prop :=
  ∀ last, Leads (program symbols) externals state last →
    ∀ sites, Visits state last sites → ∀ site ∈ sites, Aligned site

/-! ### The calls of each routine -/

section Sites

variable {rsp : ℤ} {values : List ℤ}

theorem aligned_addElementSites : (∀ site ∈ addElementSites rsp, Aligned site) ↔ rsp % 16 = 8 := by
  simp only [addElementSites, List.forall_mem_singleton, Aligned]
  omega

theorem aligned_printIntSites : (∀ site ∈ printIntSites rsp, Aligned site) ↔ rsp % 16 = 0 := by
  rw [printIntSites, List.forall_mem_cons, List.forall_mem_singleton]
  simp only [Aligned]
  omega

/-- At every depth `m` calls `print_int` with the same alignment. -/
theorem aligned_mSites :
    (∀ site ∈ mSites rsp values, Aligned site) ↔ values = [] ∨ rsp % 16 = 0 := by
  induction values generalizing rsp with
  | nil => exact iff_of_true nofun (Or.inl rfl)
  | cons value rest ih =>
    have hrsp : (rsp - 16) % 16 = rsp % 16 := by omega
    rw [mSites, List.forall_mem_append, aligned_printIntSites, ih, hrsp]
    simp only [reduceCtorEq, false_or]
    exact and_iff_left_of_imp Or.inr

theorem aligned_loopSites (halign : rsp % 16 = 0) (rounds : ℕ) :
    ∀ site ∈ loopSites rsp rounds, Aligned site := by
  induction rounds with
  | zero => exact nofun
  | succ rounds ih =>
    rw [loopSites, List.forall_mem_append]
    exact ⟨aligned_addElementSites.mpr (by omega), ih⟩

/-- `main` prints no value with an aligned stack. -/
theorem not_aligned_mainSites (halign : rsp % 16 = 8) (hvalues : values ≠ []) :
    ¬∀ site ∈ mainSites rsp values, Aligned site := by
  intro hall
  have hmain := (List.forall_mem_append.mp (List.forall_mem_append.mp hall).2).1
  have hlist := aligned_mSites.mp (List.forall_mem_append.mp hmain).1
  exact hlist.elim hvalues fun hzero ↦ by omega

end Sites

/-! ### The whole program -/

section Program

variable {symbols : Symbols} {layout : Layout} {externals : Externals External} {ret : ℤ}
  {values : List ℤ} {caller state next : State External}

/-- A run of `main` that prints something makes a misaligned call. -/
theorem not_callsAligned (hlibc : Libc layout externals) (hvalues : values ≠ [])
    (hdata : DataSection symbols layout values state)
    (hpc : state.pc = address (program symbols) .main)
    (hentered : Entered layout (mainRoom values.length) ret state)
    (halign : state.regs.rsp % 16 = 8) : ¬CallsAligned symbols externals state := by
  intro haligned
  obtain ⟨last, hleads, -, -, -, hvisits⟩ := main_spec hlibc hvalues hdata hpc hentered
  exact not_aligned_mainSites halign hvalues (haligned last hleads _ hvisits)

theorem Visits.isPrefix {goal : State External} {sites sites' : List (External × ℤ)}
    (hvisits : Visits state next sites) (hlater : Visits state goal sites')
    (hleads : Leads (program symbols) externals next goal) : sites <+: sites' := by
  have hcalls := hleads.isPrefix_calls.map site
  rw [hvisits, hlater] at hcalls
  exact (List.prefix_append_right_inj _).mp hcalls

/-- All calls of a run of `main` are aligned exactly when the array holds no value, and nothing is
ever printed. Assumes: `main` is entered as the convention wants it, and `Libc`, with `malloc`
successful. -/
theorem callsAligned_iff (hlibc : Libc layout externals)
    (hdata : DataSection symbols layout values state)
    (hpc : state.pc = address (program symbols) .main)
    (hentered : Entered layout (mainRoom values.length) ret state)
    (halign : state.regs.rsp % 16 = 8) :
    CallsAligned symbols externals state ↔ values = [] := by
  constructor
  · intro haligned
    by_contra hvalues
    exact not_callsAligned hlibc hvalues hdata hpc hentered halign haligned
  · rintro rfl last hleads sites hvisits
    obtain ⟨goal, hgoal, hlooping⟩ := looping_of_leads hlibc hdata hpc hentered hleads
    obtain ⟨rounds, hlater⟩ := hlooping.visits
    intro site hsite
    have hmem := (hvisits.isPrefix hlater hgoal).subset hsite
    exact aligned_loopSites (by omega) rounds site hmem

end Program

theorem callsAligned_source :
    CallsAligned sourceSymbols risingLibc sourceState ↔ data = [] :=
  callsAligned_iff libc_rising dataSection_source rfl entered_source (by decide)

/-- `main` of the source is entered as the convention wants it, and some of its calls are not
aligned. -/
theorem source_not_aligned : sourceState.regs.rsp % 16 = 8 ∧
    ¬CallsAligned sourceSymbols risingLibc sourceState :=
  ⟨by decide, not_callsAligned libc_rising (by decide) dataSection_source rfl entered_source
    (by decide)⟩

end Homework.Assembly
