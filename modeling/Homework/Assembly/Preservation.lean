import Homework.Assembly.Agreement

/-!
# What the recursive routines give back

`m` and `f` may be called from anywhere and with any registers. A caller finds its stack pointer,
the callee-saved registers and its part of the stack as they were when it made the call, however
long the list is and wherever its nodes lie.
-/

set_option autoImplicit false
set_option relaxedAutoImplicit false

namespace Homework.Assembly

open Homework.Library.Machine

/-- The state in which a routine starts when it is called. -/
def enter (symbols : Symbols) (label : Label) (caller : State External) : State External :=
  { caller.push ((caller.pc + 1 : ℕ) : ℤ) with pc := address (program symbols) label }

/-- A caller that leaves `room` bytes of the stack to the routine it calls. -/
structure Ready (layout : Layout) (room : ℤ) (caller : State External) : Prop where
  heap : HeapOffStack layout caller
  low : layout.limit + (room + 8) ≤ caller.regs.rsp
  high : caller.regs.rsp ≤ layout.top

/-- A call has returned, with the registers and the stack that belong to the caller as they were. -/
structure Restored (layout : Layout) (caller next : State External) : Prop where
  pc : next.pc = caller.pc + 1
  rsp : next.regs.rsp = caller.regs.rsp
  rbp : next.regs.rbp = caller.regs.rbp
  rbx : next.regs.rbx = caller.regs.rbx
  r13 : next.regs.r13 = caller.regs.r13
  r14 : next.regs.r14 = caller.regs.r14
  stack : ∀ cell, caller.regs.rsp ≤ cell → cell + 8 ≤ layout.top →
    next.memory cell = caller.memory cell

section Restored

variable {symbols : Symbols} {layout : Layout} {externals : Externals External}
  {caller entered next : State External} {room : ℤ}

theorem Ready.called (hready : Ready layout room caller) (hroom : 0 ≤ room) (label : Label) :
    Called layout room (address (program symbols) label) caller (enter symbols label caller) :=
  .of_push hready.heap hroom hready.low hready.high

theorem Called.restored {entry : ℕ} (hcalled : Called layout room entry caller entered)
    (hreturned : Returned layout ((caller.pc + 1 : ℕ) : ℤ) entered next) :
    Restored layout caller next := by
  obtain ⟨hpc, hrsp, hframe⟩ := hcalled.returned hreturned
  exact ⟨hpc, hrsp, hframe.rbp, hframe.rbx, hframe.r13, hframe.r14,
    fun cell hlow hhigh ↦ hframe.memory cell (Or.inl ⟨hlow, hhigh⟩)⟩

theorem mRoom_nonneg (length : ℕ) : 0 ≤ mRoom length := by
  unfold mRoom
  omega

theorem fRoom_nonneg (length : ℕ) : 0 ≤ fRoom length := by
  unfold fRoom
  omega

/-- `m` with `print_int` and `f` with `p` give back what belongs to their callers, for every list
and all registers. Assumes: `Libc`, with `malloc` successful. -/
theorem traversals_restore (hlibc : Libc layout externals) {values : List ℤ}
    (hlist : Linked layout caller caller.regs.rdi values) :
    (Ready layout (mRoom values.length) caller →
      caller.regs.rsi = address (program symbols) .printInt →
      Reaches (program symbols) externals (enter symbols .m caller) (Restored layout caller)) ∧
    (Ready layout (fRoom values.length) caller →
      caller.regs.rdx = address (program symbols) .p →
      Reaches (program symbols) externals (enter symbols .f caller) (Restored layout caller)) := by
  constructor
  · intro hready hrsi
    have hcalled : Called layout _ _ caller (enter symbols .m caller) :=
      hready.called (mRoom_nonneg _) .m
    refine (m_runs hlibc values rfl hcalled.entered (hcalled.keeps.linked hlist) hrsi).mono ?_
    rintro next ⟨hreturned, -⟩
    exact hcalled.restored hreturned
  · intro hready hrdx
    have hcalled : Called layout _ _ caller (enter symbols .f caller) :=
      hready.called (fRoom_nonneg _) .f
    refine (f_runs hlibc values rfl hcalled.entered (hcalled.keeps.linked hlist) hrdx).mono ?_
    rintro next ⟨hreturned, -⟩
    exact hcalled.restored hreturned

end Restored

/-! ### A list in the data section -/

/-- The numbers 5 and 6 as a list in the cells from 8 to 40, handed to `m` and `f`. -/
def sourceCaller : State External where
  regs := ⟨0, 0, address (program sourceSymbols) .p, 8, address (program sourceSymbols) .printInt,
    0, -8, 0, 0⟩
  zf := false
  memory := fun cell ↦
    if cell = 8 then some 5 else if cell = 16 then some 24
    else if cell = 24 then some 6 else if cell = 32 then some 0 else none
  pc := 1000
  calls := []

theorem source_restored :
    Reaches (program sourceSymbols) risingLibc (enter sourceSymbols .m sourceCaller)
        (Restored sourceLayout sourceCaller) ∧
      Reaches (program sourceSymbols) risingLibc (enter sourceSymbols .f sourceCaller)
        (Restored sourceLayout sourceCaller) := by
  have hlist : Linked sourceLayout sourceCaller sourceCaller.regs.rdi [5, 6] := by
    refine ⟨by decide, Or.inr (Or.inr ⟨by decide, by decide⟩),
      Or.inr (Or.inr ⟨by decide, by decide⟩), rfl, 24, rfl, ?_⟩
    exact ⟨by decide, Or.inr (Or.inr ⟨by decide, by decide⟩),
      Or.inr (Or.inr ⟨by decide, by decide⟩), rfl, 0, rfl, rfl⟩
  have hheap : HeapOffStack sourceLayout sourceCaller := fun _ hblock ↦
    absurd hblock List.not_mem_nil
  exact ⟨(traversals_restore libc_rising hlist).1 ⟨hheap, by decide, by decide⟩ rfl,
    (traversals_restore libc_rising hlist).2 ⟨hheap, by decide, by decide⟩ rfl⟩

end Homework.Assembly
