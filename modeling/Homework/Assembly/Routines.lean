import Homework.Assembly.Convention

/-!
# The routines without recursion

What `print_int`, `p` and `add_element` return, print and keep, each with the stack it needs and the
calls of the C library it makes. A `_spec` theorem speaks about the routine from its label on, the
`_called` theorem next to it is the same fact seen from a call.
-/

set_option autoImplicit false
set_option relaxedAutoImplicit false

namespace Homework.Assembly

open Homework.Library.Machine

attribute [local simp] runLines State.execute Instr.isJump State.next State.push State.value
  State.write State.set State.result Registers.get Registers.set

section Routines

variable {symbols : Symbols} {layout : Layout} {externals : Externals External} {ret : ℤ}
  {state called : State External}

theorem address_printInt : address (program symbols) .printInt = 0 := rfl

/-- The calls that `print_int` makes, from the stack pointer at its entry. -/
def printIntSites (rsp : ℤ) : List (External × ℤ) := [(.printf, rsp - 32), (.fflush, rsp - 32)]

/-- `print_int` prints its argument. -/
theorem printInt_spec (hlibc : Libc layout externals)
    (hpc : state.pc = address (program symbols) .printInt)
    (hentered : Entered layout 32 ret state) :
    Reaches (program symbols) externals state fun next ↦
      Returned layout ret state next ∧ next.regs.rsi = state.regs.rsi ∧
        Logs symbols state next [] [.number state.regs.rdi] ∧
        Visits state next (printIntSites state.regs.rsp) := by
  have hret := hentered.ret
  have hlow := hentered.low
  have hhigh := hentered.high
  rw [address_printInt] at hpc
  apply Reaches.lines ((printIntCode symbols).take 8) (by rw [hpc]; rfl)
    (by simp [printIntCode, hpc]; rfl)
  refine reaches_external hlibc hentered.heap rfl nofun ?_
  intro printed hprinted hpc hrsp hcalls _
  apply Reaches.lines [.instr (.xor .rdi (.reg .rdi))] (by rw [hpc]; rfl)
    (by simp [hpc]; rfl)
  refine reaches_external hlibc hprinted.heap rfl nofun ?_
  intro flushed hflushed hpc' hrsp' hcalls' _
  have hkept := hprinted.trans (hflushed.of_alike ⟨rfl, rfl, rfl, rfl, rfl, rfl, rfl⟩)
    (le_of_eq hrsp)
  dsimp only at hpc' hrsp' hcalls' hcalls hrsp
  have hrbp : flushed.regs.rbp = state.regs.rsp - 8 - 8 := hkept.rbp
  have hsaved : flushed.memory (state.regs.rsp - 8 - 8) = some state.regs.rbp := by
    rw [hkept.memory _ (Or.inl ⟨by dsimp only; omega, by omega⟩)]
    exact store_self _ _ _
  have hsaved' : flushed.memory (state.regs.rsp - 8) = some state.regs.rsi := by
    rw [hkept.memory _ (Or.inl ⟨by dsimp only; omega, by omega⟩)]
    dsimp only
    rw [store_of_apart _ _ _ (by unfold Apart; omega)]
    exact store_self _ _ _
  have hmemory : ∀ cell, Owned layout state cell → flushed.memory cell = state.memory cell := by
    intro cell howned
    rw [hkept.memory cell (howned.mono (by dsimp only; omega) (List.Subset.refl _))]
    dsimp only
    rw [store_of_apart _ _ _ (howned.apart hentered.heap (by omega) (by omega) (by omega)),
      store_of_apart _ _ _ (howned.apart hentered.heap (by omega) (by omega) (by omega))]
  apply Reaches.lines [.instr (.mov (.reg .rsp) (.reg .rbp)), .instr (.pop .rbp),
    .instr (.pop .rsi)] (by rw [hpc']; rfl) (by simp [hpc', hrbp, hsaved, hsaved']; rfl)
  have hstack : Owned layout state state.regs.rsp := Or.inl ⟨le_refl _, hhigh⟩
  refine Reaches.ret rfl ((hmemory _ hstack).trans hret) (Reaches.here ?_)
  refine ⟨⟨rfl, rfl, ⟨hkept.rbx, rfl, hkept.r13, hkept.r14, hkept.heap, hkept.blocks, hmemory⟩⟩,
    rfl, ?_, ?_⟩
  all_goals rw [hcalls, List.append_assoc] at hcalls'
  · exact Logs.of_calls hcalls' rfl (by simp [Assembly.printed])
  · have hsum : state.regs.rsp - 8 - 8 - 16 = state.regs.rsp - 32 := by omega
    exact Visits.of_calls hcalls' (by simp [site, printIntSites, hrsp, hsum])

theorem printInt_called (hlibc : Libc layout externals)
    (hcalled : Called layout 32 (address (program symbols) .printInt) state called) :
    Reaches (program symbols) externals called fun next ↦
      Returned layout ((state.pc + 1 : ℕ) : ℤ) called next ∧ next.regs.rsi = state.regs.rsi ∧
        Logs symbols state next [] [.number state.regs.rdi] ∧
        Visits state next (printIntSites (state.regs.rsp - 8)) := by
  refine (printInt_spec hlibc hcalled.pc hcalled.entered).mono ?_
  rintro next ⟨hreturned, hrsi, hlogs, hvisits⟩
  rw [hcalled.regs] at hrsi hlogs hvisits
  exact ⟨hreturned, hrsi, hlogs.of_same hcalled.calls, hvisits.of_same hcalled.calls⟩

theorem address_p : address (program symbols) .p = 15 := rfl

/-- `p` tests the lowest bit of its argument. -/
theorem p_spec (hpc : state.pc = address (program symbols) .p)
    (hentered : Entered layout 0 ret state) :
    Reaches (program symbols) externals state fun next ↦
      Returned layout ret state next ∧ next.regs.rax = Int.land state.regs.rdi 1 ∧
        next.regs.rdi = state.regs.rdi ∧ next.regs.rsi = state.regs.rsi ∧
        Logs symbols state next [] [] ∧ Visits state next [] := by
  rw [address_p] at hpc
  apply Reaches.lines (pCode.take 3) (by rw [hpc]; rfl) (by simp [pCode, hpc]; rfl)
  refine Reaches.ret rfl hentered.ret (Reaches.here ?_)
  refine ⟨⟨rfl, rfl, ?_⟩, rfl, rfl, rfl, ?_, ?_⟩
  · exact ⟨rfl, rfl, rfl, rfl, hentered.heap, List.Subset.refl _, fun _ _ ↦ rfl⟩
  · exact Logs.of_calls (List.append_nil _).symm rfl rfl
  · exact Visits.of_calls (List.append_nil _).symm rfl

theorem p_called (hcalled : Called layout 0 (address (program symbols) .p) state called) :
    Reaches (program symbols) externals called fun next ↦
      Returned layout ((state.pc + 1 : ℕ) : ℤ) called next ∧
        next.regs.rax = Int.land state.regs.rdi 1 ∧ next.regs.rdi = state.regs.rdi ∧
        next.regs.rsi = state.regs.rsi ∧ Logs symbols state next [] [] ∧
        Visits state next [] := by
  refine (p_spec hcalled.pc hcalled.entered).mono ?_
  rintro next ⟨hreturned, hrax, hrdi, hrsi, hlogs, hvisits⟩
  rw [hcalled.regs] at hrax hrdi hrsi
  exact ⟨hreturned, hrax, hrdi, hrsi, hlogs.of_same hcalled.calls, hvisits.of_same hcalled.calls⟩

theorem address_addElement : address (program symbols) .addElement = 19 := rfl

/-- The call that `add_element` makes, from the stack pointer at its entry. -/
def addElementSites (rsp : ℤ) : List (External × ℤ) := [(.malloc, rsp - 40)]

/-- `add_element` puts a node with its arguments into a new block. -/
theorem addElement_spec (hlibc : Libc layout externals)
    (hpc : state.pc = address (program symbols) .addElement)
    (hentered : Entered layout 40 ret state) :
    Reaches (program symbols) externals state fun next ↦
      Returned layout ret state next ∧ next.regs.rax ≠ 0 ∧
        next.memory next.regs.rax = some state.regs.rdi ∧
        next.memory (next.regs.rax + 8) = some state.regs.rsi ∧
        Logs symbols state next [next.regs.rax] [] ∧
        Visits state next (addElementSites state.regs.rsp) := by
  have hret := hentered.ret
  have hlow := hentered.low
  have hhigh := hentered.high
  rw [address_addElement] at hpc
  apply Reaches.lines (addElementCode.take 9) (by rw [hpc]; rfl)
    (by simp [addElementCode, hpc]; rfl)
  refine reaches_external hlibc hentered.heap rfl (fun _ ↦ rfl) ?_
  intro got hgot hpc' hrsp hcalls hfresh
  dsimp only at hpc' hrsp hcalls
  have hblock := hfresh rfl
  apply Reaches.lines [.instr (.test .rax .rax)] (by rw [hpc']; rfl) (by simp [hpc']; rfl)
  refine Reaches.jzPassed rfl ?_ ?_
  · rw [land_self]
    exact beq_false_of_ne hblock.ne_zero
  apply Reaches.lines [.instr (.mov (.cell .rax 0) (.reg .r14)),
    .instr (.mov (.cell .rax 8) (.reg .rbx)), .instr (.mov (.reg .rsp) (.reg .rbp))] rfl
    (by simp [hgot.rbp, hgot.rbx, hgot.r14]; rfl)
  have hroom : layout.limit ≤ state.regs.rsp - 8 - 8 - 8 - 16 := by omega
  have hstored := fun cell howned ↦ (hblock.store hroom howned got.memory state.regs.rdi
    state.regs.rsi).trans (hgot.memory cell howned)
  have hrbp := (hstored (state.regs.rsp - 8) (Or.inl ⟨by dsimp only; omega, by omega⟩)).trans
    (show _ = some state.regs.rbp by
      dsimp only
      rw [store_of_apart _ _ _ (by unfold Apart; omega),
        store_of_apart _ _ _ (by unfold Apart; omega), store_self])
  have hrbx := (hstored (state.regs.rsp - 8 - 8) (Or.inl ⟨by dsimp only; omega, by omega⟩)).trans
    (show _ = some state.regs.rbx by
      dsimp only
      rw [store_of_apart _ _ _ (by unfold Apart; omega), store_self])
  have hr14 := (hstored (state.regs.rsp - 8 - 8 - 8)
    (Or.inl ⟨by dsimp only; omega, by omega⟩)).trans
    (show _ = some state.regs.r14 from store_self _ _ _)
  have hmemory : ∀ cell, Owned layout state cell →
      store (store got.memory got.regs.rax state.regs.rdi) (got.regs.rax + 8) state.regs.rsi cell =
        state.memory cell := by
    intro cell howned
    rw [hstored cell (howned.mono (by dsimp only; omega) (List.Subset.refl _))]
    dsimp only
    rw [store_of_apart _ _ _ (howned.apart hentered.heap (by omega) (by omega) (by omega)),
      store_of_apart _ _ _ (howned.apart hentered.heap (by omega) (by omega) (by omega)),
      store_of_apart _ _ _ (howned.apart hentered.heap (by omega) (by omega) (by omega))]
  apply Reaches.lines [.instr (.pop .r14), .instr (.pop .rbx), .instr (.pop .rbp)] rfl
    (by simp [hr14, hrbx, hrbp]; rfl)
  have hstack : Owned layout state state.regs.rsp := Or.inl ⟨le_refl _, hhigh⟩
  refine Reaches.ret rfl ((hmemory _ hstack).trans hret) (Reaches.here ?_)
  refine ⟨⟨rfl, rfl, rfl, rfl, hgot.r13, rfl, hgot.heap, hgot.blocks, hmemory⟩, hblock.ne_zero, ?_,
    store_self _ _ _, Logs.of_calls hcalls rfl rfl, Visits.of_calls hcalls ?_⟩
  · change store (store _ got.regs.rax _) (got.regs.rax + 8) _ got.regs.rax = _
    rw [store_of_apart _ _ _ (by unfold Apart; omega)]
    exact store_self _ _ _
  · have hsum : state.regs.rsp - 8 - 8 - 8 - 16 = state.regs.rsp - 40 := by omega
    rw [hsum]
    rfl

theorem addElement_called (hlibc : Libc layout externals)
    (hcalled : Called layout 40 (address (program symbols) .addElement) state called) :
    Reaches (program symbols) externals called fun next ↦
      Returned layout ((state.pc + 1 : ℕ) : ℤ) called next ∧ next.regs.rax ≠ 0 ∧
        next.memory next.regs.rax = some state.regs.rdi ∧
        next.memory (next.regs.rax + 8) = some state.regs.rsi ∧
        Logs symbols state next [next.regs.rax] [] ∧
        Visits state next (addElementSites (state.regs.rsp - 8)) := by
  refine (addElement_spec hlibc hcalled.pc hcalled.entered).mono ?_
  rintro next ⟨hreturned, hne, hvalue, hprev, hlogs, hvisits⟩
  rw [hcalled.regs] at hvalue hprev hvisits
  exact ⟨hreturned, hne, hvalue, hprev, hlogs.of_same hcalled.calls,
    hvisits.of_same hcalled.calls⟩

end Routines

end Homework.Assembly
