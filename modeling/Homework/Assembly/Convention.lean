import Homework.Assembly.Program

/-!
# Memory and calls

Memory has three parts: the stack, a range of addresses; the cells of the data section; and the
blocks that `malloc` has returned, two cells each. `Owned` are the cells whose values the program
relies on: the stack at and above the stack pointer, the blocks, and the data section. Functions of
the C library leave them and the callee-saved registers as they are (`Libc`), and so do the routines
of the program (`Frame`), which moreover return to where they were called (`Returned`).
-/

set_option autoImplicit false
set_option relaxedAutoImplicit false

namespace Homework.Assembly

open Homework.Library.Machine

/-- Where the stack and the data section lie. -/
structure Layout where
  limit : ℤ
  top : ℤ
  static : ℤ → Prop
  static_apart : ∀ cell, static cell → cell + 8 ≤ limit ∨ top ≤ cell

/-- The block that a call returns. -/
def blockOf (call : Call External) : Option ℤ :=
  if call.function = .malloc then some call.result else none

/-- The blocks that `malloc` has returned. -/
def blocks (state : State External) : List ℤ := state.calls.filterMap blockOf

/-- A cell of a block. -/
def InBlock (state : State External) (cell : ℤ) : Prop :=
  ∃ block ∈ blocks state, cell = block ∨ cell = block + 8

/-- The cells whose values the program relies on. -/
def Owned (layout : Layout) (state : State External) (cell : ℤ) : Prop :=
  (state.regs.rsp ≤ cell ∧ cell + 8 ≤ layout.top) ∨ InBlock state cell ∨ layout.static cell

/-- A block of two cells outside the stack. -/
def OffStack (layout : Layout) (block : ℤ) : Prop :=
  block + 16 ≤ layout.limit ∨ layout.top ≤ block

/-- A block that overlaps nothing. -/
structure FreshBlock (layout : Layout) (state : State External) (block : ℤ) : Prop where
  ne_zero : block ≠ 0
  offStack : OffStack layout block
  static : ∀ cell, layout.static cell → cell + 8 ≤ block ∨ block + 16 ≤ cell
  blocks : ∀ other ∈ blocks state, other + 16 ≤ block ∨ block + 16 ≤ other

/-- What the C library does: the functions keep the callee-saved registers and the owned cells, and
`malloc(16)` succeeds with a block that overlaps nothing. -/
structure Libc (layout : Layout) (externals : Externals External) : Prop where
  rbx : ∀ function state, (externals function state).regs.rbx = state.regs.rbx
  rbp : ∀ function state, (externals function state).regs.rbp = state.regs.rbp
  rsp : ∀ function state, (externals function state).regs.rsp = state.regs.rsp
  r13 : ∀ function state, (externals function state).regs.r13 = state.regs.r13
  r14 : ∀ function state, (externals function state).regs.r14 = state.regs.r14
  memory : ∀ function state cell, Owned layout state cell →
    (externals function state).memory cell = state.memory cell
  malloc : ∀ state, state.regs.rdi = 16 →
    FreshBlock layout state (externals .malloc state).regs.rax

/-- The blocks lie outside the stack. -/
def HeapOffStack (layout : Layout) (state : State External) : Prop :=
  ∀ block ∈ blocks state, OffStack layout block

/-- A routine has been called: `ret` is the return address, and `room` bytes of the stack are
free. -/
structure Entered (layout : Layout) (room ret : ℤ) (state : State External) : Prop where
  ret : state.memory state.regs.rsp = some ret
  heap : HeapOffStack layout state
  low : layout.limit + room ≤ state.regs.rsp
  high : state.regs.rsp + 8 ≤ layout.top

/-- What a piece of the program keeps. -/
structure Frame (layout : Layout) (state next : State External) : Prop where
  rbx : next.regs.rbx = state.regs.rbx
  rbp : next.regs.rbp = state.regs.rbp
  r13 : next.regs.r13 = state.regs.r13
  r14 : next.regs.r14 = state.regs.r14
  heap : HeapOffStack layout next
  blocks : blocks state ⊆ blocks next
  memory : ∀ cell, Owned layout state cell → next.memory cell = state.memory cell

/-- A routine has returned to `ret`. -/
structure Returned (layout : Layout) (ret : ℤ) (state next : State External) : Prop where
  pc : next.pc = ret.toNat
  rsp : next.regs.rsp = state.regs.rsp + 8
  frame : Frame layout state next

section Owned

variable {layout : Layout} {state next : State External}

theorem Owned.mono {cell : ℤ} (howned : Owned layout state cell)
    (hrsp : next.regs.rsp ≤ state.regs.rsp) (hblocks : blocks state ⊆ blocks next) :
    Owned layout next cell := by
  rcases howned with ⟨hlow, hhigh⟩ | ⟨block, hblock, hcell⟩ | hstatic
  · exact Or.inl ⟨le_trans hrsp hlow, hhigh⟩
  · exact Or.inr (Or.inl ⟨block, hblocks hblock, hcell⟩)
  · exact Or.inr (Or.inr hstatic)

/-- A cell pushed below the stack pointer is apart from the owned cells. -/
theorem Owned.apart {cell pushed : ℤ} (howned : Owned layout state cell)
    (hheap : HeapOffStack layout state) (hlow : layout.limit ≤ pushed)
    (hhigh : pushed + 8 ≤ state.regs.rsp) (htop : state.regs.rsp ≤ layout.top) :
    Apart pushed cell := by
  unfold Apart
  rcases howned with ⟨hcell, -⟩ | ⟨block, hblock, hcell⟩ | hstatic
  · omega
  · have hoff := hheap block hblock
    unfold OffStack at hoff
    omega
  · have hoff := layout.static_apart cell hstatic
    omega

/-- A cell of a fresh block is apart from the owned cells. Assumes: the cell on the stack is in
range. -/
theorem FreshBlock.apart {block cell : ℤ} (hfresh : FreshBlock layout state block)
    (hlow : layout.limit ≤ state.regs.rsp) (howned : Owned layout state cell) :
    Apart block cell ∧ Apart (block + 8) cell := by
  unfold Apart
  rcases howned with ⟨hcell, hhigh⟩ | ⟨other, hother, hcell⟩ | hstatic
  · have hoff := hfresh.offStack
    unfold OffStack at hoff
    omega
  · have hoff := hfresh.blocks other hother
    omega
  · have hoff := hfresh.static cell hstatic
    omega

/-- A fresh block can be filled without harm. -/
theorem FreshBlock.store {block cell : ℤ} (hfresh : FreshBlock layout state block)
    (hlow : layout.limit ≤ state.regs.rsp) (howned : Owned layout state cell) (memory : Memory)
    (first second : ℤ) :
    store (store memory block first) (block + 8) second cell = memory cell := by
  obtain ⟨hapart, hapart'⟩ := hfresh.apart hlow howned
  rw [store_of_apart _ _ _ hapart', store_of_apart _ _ _ hapart]

end Owned

/-- The owned cells keep their values, and the stack has grown. -/
def Keeps (layout : Layout) (state next : State External) : Prop :=
  next.regs.rsp ≤ state.regs.rsp ∧ blocks state ⊆ blocks next ∧
    ∀ cell, Owned layout state cell → next.memory cell = state.memory cell

section Keeps

variable {layout : Layout} {state middle next : State External}

theorem Keeps.refl : Keeps layout state state :=
  ⟨le_refl _, List.Subset.refl _, fun _ _ ↦ rfl⟩

theorem Keeps.trans (hfirst : Keeps layout state middle) (hsecond : Keeps layout middle next) :
    Keeps layout state next := by
  obtain ⟨hrsp, hblocks, hmemory⟩ := hfirst
  obtain ⟨hrsp', hblocks', hmemory'⟩ := hsecond
  refine ⟨le_trans hrsp' hrsp, List.Subset.trans hblocks hblocks', fun cell howned ↦ ?_⟩
  rw [hmemory' cell (howned.mono hrsp hblocks), hmemory cell howned]

theorem Keeps.push (hheap : HeapOffStack layout state) (hlow : layout.limit + 8 ≤ state.regs.rsp)
    (htop : state.regs.rsp ≤ layout.top) (value : ℤ) : Keeps layout state (state.push value) := by
  refine ⟨?_, List.Subset.refl _, fun cell howned ↦ ?_⟩
  · change state.regs.rsp - 8 ≤ state.regs.rsp
    omega
  · exact store_of_apart _ _ _ (howned.apart hheap (by omega) (by omega) htop)

theorem Frame.keeps (hframe : Frame layout state next) (hrsp : next.regs.rsp ≤ state.regs.rsp) :
    Keeps layout state next :=
  ⟨hrsp, hframe.blocks, hframe.memory⟩

end Keeps

/-! ### Linked lists -/

/-- A node leads to a list: nodes are blocks with a value and the address of the previous node. -/
def IsList (state : State External) : ℤ → List ℤ → Prop
  | node, [] => node = 0
  | node, value :: rest => node ≠ 0 ∧ node ∈ blocks state ∧ state.memory node = some value ∧
    ∃ prev, state.memory (node + 8) = some prev ∧ IsList state prev rest

/-- A node leads to a list wherever its nodes lie, as long as their cells are owned. -/
def Linked (layout : Layout) (state : State External) : ℤ → List ℤ → Prop
  | node, [] => node = 0
  | node, value :: rest => node ≠ 0 ∧ Owned layout state node ∧ Owned layout state (node + 8) ∧
    state.memory node = some value ∧
      ∃ prev, state.memory (node + 8) = some prev ∧ Linked layout state prev rest

/-- Blocks with some values lead from one address to another. -/
def Chain (state : State External) : ℤ → List ℤ → ℤ → Prop
  | node, [], last => node = last
  | node, value :: rest, last => node ≠ 0 ∧ node ∈ blocks state ∧ state.memory node = some value ∧
    ∃ prev, state.memory (node + 8) = some prev ∧ Chain state prev rest last

section Lists

variable {layout : Layout} {state next : State External} {node middle last : ℤ}
  {values more : List ℤ}

theorem Chain.mono (hblocks : blocks state ⊆ blocks next)
    (hmemory : ∀ cell, Owned layout state cell → next.memory cell = state.memory cell)
    (hchain : Chain state node values last) : Chain next node values last := by
  induction values generalizing node with
  | nil => exact hchain
  | cons value rest ih =>
    obtain ⟨hne, hblock, hvalue, prev, hprev, hrest⟩ := hchain
    have hcell : InBlock state node := ⟨node, hblock, Or.inl rfl⟩
    have hcell' : InBlock state (node + 8) := ⟨node, hblock, Or.inr rfl⟩
    exact ⟨hne, hblocks hblock, (hmemory node (Or.inr (Or.inl hcell))).trans hvalue, prev,
      (hmemory (node + 8) (Or.inr (Or.inl hcell'))).trans hprev, ih hrest⟩

theorem Chain.of_same (hchain : Chain state node values last) (hcalls : next.calls = state.calls)
    (hmemory : next.memory = state.memory) : Chain next node values last := by
  induction values generalizing node with
  | nil => exact hchain
  | cons value rest ih =>
    obtain ⟨hne, hblock, hvalue, prev, hprev, hrest⟩ := hchain
    refine ⟨hne, ?_, hmemory ▸ hvalue, prev, hmemory ▸ hprev, ih hrest⟩
    unfold blocks at hblock ⊢
    rwa [hcalls]

theorem Chain.trans (hfirst : Chain state node values middle)
    (hsecond : Chain state middle more last) : Chain state node (values ++ more) last := by
  induction values generalizing node with
  | nil =>
    obtain rfl : node = middle := hfirst
    exact hsecond
  | cons value rest ih =>
    obtain ⟨hne, hblock, hvalue, prev, hprev, hrest⟩ := hfirst
    exact ⟨hne, hblock, hvalue, prev, hprev, ih hrest⟩

/-- A list is a chain that ends with the null pointer. -/
theorem isList_iff_chain : IsList state node values ↔ Chain state node values 0 := by
  induction values generalizing node with
  | nil => exact Iff.rfl
  | cons value rest ih => simp only [IsList, Chain, ih]

theorem IsList.of_same (hlist : IsList state node values) (hcalls : next.calls = state.calls)
    (hmemory : next.memory = state.memory) : IsList next node values :=
  isList_iff_chain.mpr ((isList_iff_chain.mp hlist).of_same hcalls hmemory)

/-- The list survives what keeps the owned cells. -/
theorem Keeps.isList (hkeeps : Keeps layout state next) (hlist : IsList state node values) :
    IsList next node values :=
  isList_iff_chain.mpr ((isList_iff_chain.mp hlist).mono hkeeps.2.1 hkeeps.2.2)

theorem Frame.isList (hframe : Frame layout state next) (hlist : IsList state node values) :
    IsList next node values :=
  isList_iff_chain.mpr ((isList_iff_chain.mp hlist).mono hframe.blocks hframe.memory)

theorem IsList.linked (hlist : IsList state node values) : Linked layout state node values := by
  induction values generalizing node with
  | nil => exact hlist
  | cons value rest ih =>
    obtain ⟨hne, hblock, hvalue, prev, hprev, hrest⟩ := hlist
    exact ⟨hne, Or.inr (Or.inl ⟨node, hblock, Or.inl rfl⟩),
      Or.inr (Or.inl ⟨node, hblock, Or.inr rfl⟩), hvalue, prev, hprev, ih hrest⟩

theorem Keeps.linked (hkeeps : Keeps layout state next) (hlist : Linked layout state node values) :
    Linked layout next node values := by
  obtain ⟨hrsp, hblocks, hmemory⟩ := hkeeps
  induction values generalizing node with
  | nil => exact hlist
  | cons value rest ih =>
    obtain ⟨hne, howned, howned', hvalue, prev, hprev, hrest⟩ := hlist
    exact ⟨hne, howned.mono hrsp hblocks, howned'.mono hrsp hblocks,
      (hmemory node howned).trans hvalue, prev, (hmemory (node + 8) howned').trans hprev, ih hrest⟩

end Lists

/-! ### The log -/

/-- What a part of a run allocates and prints. -/
def Logs (symbols : Symbols) (state next : State External) (allocated : List ℤ)
    (pieces : List Piece) : Prop :=
  blocks next = blocks state ++ allocated ∧
    output symbols next = output symbols state ++ pieces

section Logs

variable {symbols : Symbols} {state middle next : State External}

theorem Logs.of_calls {log : List (Call External)} {allocated : List ℤ} {pieces : List Piece}
    (hcalls : next.calls = state.calls ++ log) (hblocks : log.filterMap blockOf = allocated)
    (hpieces : log.filterMap (printed symbols) = pieces) :
    Logs symbols state next allocated pieces := by
  unfold Logs blocks output
  rw [hcalls, List.filterMap_append, List.filterMap_append, hblocks, hpieces]
  exact ⟨rfl, rfl⟩

theorem Logs.trans {allocated allocated' : List ℤ} {pieces pieces' : List Piece}
    (hfirst : Logs symbols state middle allocated pieces)
    (hsecond : Logs symbols middle next allocated' pieces') :
    Logs symbols state next (allocated ++ allocated') (pieces ++ pieces') := by
  obtain ⟨hblocks, houtput⟩ := hfirst
  obtain ⟨hblocks', houtput'⟩ := hsecond
  unfold Logs
  rw [hblocks', hblocks, houtput', houtput, List.append_assoc, List.append_assoc]
  exact ⟨rfl, rfl⟩

theorem Logs.of_same {allocated : List ℤ} {pieces : List Piece}
    (hlogs : Logs symbols middle next allocated pieces) (hcalls : middle.calls = state.calls) :
    Logs symbols state next allocated pieces := by
  unfold Logs blocks output at *
  rwa [hcalls] at hlogs

end Logs

/-- Where a function of the C library is called: its name and the stack pointer at the call. -/
def site (call : Call External) : External × ℤ := (call.function, call.rsp)

/-- The calls of the C library that a part of a run makes. -/
def Visits (state next : State External) (sites : List (External × ℤ)) : Prop :=
  next.calls.map site = state.calls.map site ++ sites

section Visits

variable {state middle next : State External} {sites sites' : List (External × ℤ)}

theorem Visits.of_calls {log : List (Call External)} (hcalls : next.calls = state.calls ++ log)
    (hsites : log.map site = sites) : Visits state next sites := by
  rw [Visits, hcalls, List.map_append, hsites]

theorem Visits.of_same (hvisits : Visits middle next sites) (hcalls : middle.calls = state.calls) :
    Visits state next sites := by
  unfold Visits at *
  rwa [hcalls] at hvisits

theorem Visits.trans (hfirst : Visits state middle sites) (hsecond : Visits middle next sites') :
    Visits state next (sites ++ sites') := by
  unfold Visits at *
  rw [hsecond, hfirst, List.append_assoc]

end Visits

/-! ### Frames -/

section Frame

variable {layout : Layout} {externals : Externals External} {state middle next : State External}

theorem Frame.trans (hfirst : Frame layout state middle) (hsecond : Frame layout middle next)
    (hrsp : middle.regs.rsp ≤ state.regs.rsp) : Frame layout state next where
  rbx := hsecond.rbx.trans hfirst.rbx
  rbp := hsecond.rbp.trans hfirst.rbp
  r13 := hsecond.r13.trans hfirst.r13
  r14 := hsecond.r14.trans hfirst.r14
  heap := hsecond.heap
  blocks := List.Subset.trans hfirst.blocks hsecond.blocks
  memory := fun cell howned ↦
    (hsecond.memory cell (howned.mono hrsp hfirst.blocks)).trans (hfirst.memory cell howned)

/-- Two states that differ in nothing that a frame speaks about, as seen by a callee. -/
structure Alike (state other : State External) : Prop where
  rbx : state.regs.rbx = other.regs.rbx
  rbp : state.regs.rbp = other.regs.rbp
  rsp : state.regs.rsp = other.regs.rsp
  r13 : state.regs.r13 = other.regs.r13
  r14 : state.regs.r14 = other.regs.r14
  memory : state.memory = other.memory
  calls : state.calls = other.calls

theorem Frame.of_alike (hframe : Frame layout middle next) (halike : Alike middle state) :
    Frame layout state next where
  rbx := hframe.rbx.trans halike.rbx
  rbp := hframe.rbp.trans halike.rbp
  r13 := hframe.r13.trans halike.r13
  r14 := hframe.r14.trans halike.r14
  heap := hframe.heap
  blocks := by
    have hblocks := hframe.blocks
    unfold Assembly.blocks at hblocks ⊢
    rwa [halike.calls] at hblocks
  memory := fun cell howned ↦ by
    rw [← halike.memory]
    apply hframe.memory cell
    unfold Owned InBlock Assembly.blocks at howned ⊢
    rwa [halike.rsp, halike.calls]

theorem blocks_callExternal (function : External) :
    blocks (state.callExternal externals function) =
      blocks state ++
        if function = .malloc then [(externals function state).regs.rax] else [] := by
  unfold blocks State.callExternal
  rw [List.filterMap_append]
  split
  · next hmalloc => simp [blockOf, hmalloc]
  · next hmalloc => simp [blockOf, hmalloc]

/-- A call of the C library. Assumes: `malloc` is called for two cells. -/
theorem Libc.frame (hlibc : Libc layout externals) (hheap : HeapOffStack layout state)
    (function : External) (hmalloc : function = .malloc → state.regs.rdi = 16) :
    Frame layout state (state.callExternal externals function) where
  rbx := hlibc.rbx function state
  rbp := hlibc.rbp function state
  r13 := hlibc.r13 function state
  r14 := hlibc.r14 function state
  heap := by
    intro block hblock
    rw [blocks_callExternal] at hblock
    rcases List.mem_append.mp hblock with hold | hnew
    · exact hheap block hold
    · split at hnew
      · next hfunction =>
        subst hfunction
        rw [List.mem_singleton.mp hnew]
        exact (hlibc.malloc state (hmalloc rfl)).offStack
      · exact absurd hnew List.not_mem_nil
  blocks := by
    rw [blocks_callExternal]
    exact List.subset_append_left _ _
  memory := hlibc.memory function state

/-- A line that calls the C library. -/
theorem reaches_external {program : Code} {post : State External → Prop} {function : External}
    (hlibc : Libc layout externals) (hheap : HeapOffStack layout state)
    (hline : program[state.pc]? = some (.instr (.call (.external function))))
    (hmalloc : function = .malloc → state.regs.rdi = 16)
    (hrest : ∀ next, Frame layout state next → next.pc = state.pc + 1 →
      next.regs.rsp = state.regs.rsp →
      next.calls = state.calls ++
        [⟨function, state.regs.rdi, state.regs.rsi, state.regs.rsp, next.regs.rax⟩] →
      (function = .malloc → FreshBlock layout state next.regs.rax) →
      Reaches program externals next post) :
    Reaches program externals state post := by
  refine .callExternal hline
    (hrest _ (hlibc.frame hheap function hmalloc) rfl (hlibc.rsp function state) rfl ?_)
  rintro rfl
  exact hlibc.malloc state (hmalloc rfl)

/-- A call, seen from the routine that is called. -/
structure Called (layout : Layout) (room : ℤ) (entry : ℕ) (state called : State External) :
    Prop where
  pc : called.pc = entry
  regs : called.regs = { state.regs with rsp := state.regs.rsp - 8 }
  calls : called.calls = state.calls
  keeps : Keeps layout state called
  entered : Entered layout room ((state.pc + 1 : ℕ) : ℤ) called

theorem Called.of_push {room : ℤ} {entry : ℕ} (hheap : HeapOffStack layout state)
    (hroom : 0 ≤ room) (hlow : layout.limit + (room + 8) ≤ state.regs.rsp)
    (htop : state.regs.rsp ≤ layout.top) :
    Called layout room entry state
      { state.push ((state.pc + 1 : ℕ) : ℤ) with pc := entry } where
  pc := rfl
  regs := rfl
  calls := rfl
  keeps := Keeps.push hheap (by omega) htop _
  entered := by
    refine ⟨store_self _ _ _, hheap, ?_, ?_⟩
    · change layout.limit + room ≤ state.regs.rsp - 8
      omega
    · change state.regs.rsp - 8 + 8 ≤ layout.top
      omega

/-- The return from a call, seen from where it was made. -/
theorem Called.returned {room : ℤ} {entry : ℕ} (hcalled : Called layout room entry state middle)
    (hreturned : Returned layout ((state.pc + 1 : ℕ) : ℤ) middle next) :
    next.pc = state.pc + 1 ∧ next.regs.rsp = state.regs.rsp ∧ Frame layout state next := by
  have hframe := hreturned.frame
  have hregs := hcalled.regs
  obtain ⟨hrsp, hblocks, hmemory⟩ := hcalled.keeps
  refine ⟨hreturned.pc.trans (Int.toNat_natCast _), ?_, ?_, ?_, ?_, ?_, hframe.heap,
    List.Subset.trans hblocks hframe.blocks, fun cell howned ↦ ?_⟩
  · rw [hreturned.rsp, hregs, sub_add_cancel]
  · rw [hframe.rbx, hregs]
  · rw [hframe.rbp, hregs]
  · rw [hframe.r13, hregs]
  · rw [hframe.r14, hregs]
  · rw [hframe.memory cell (howned.mono hrsp hblocks), hmemory cell howned]

section Call

variable {program : Code} {post : State External → Prop} {label : Label} (room : ℤ)
  (result : State External → Prop)

/-- A call of a routine, of which it is known what it does when it is called. -/
theorem reaches_call (hline : program[state.pc]? = some (.instr (.call (.label label))))
    (hheap : HeapOffStack layout state) (hroom : 0 ≤ room)
    (hlow : layout.limit + (room + 8) ≤ state.regs.rsp) (htop : state.regs.rsp ≤ layout.top)
    (hroutine : ∀ called, Called layout room (address program label) state called →
      Reaches program externals called fun next ↦
        Returned layout ((state.pc + 1 : ℕ) : ℤ) called next ∧ result next)
    (hrest : ∀ next, next.pc = state.pc + 1 → next.regs.rsp = state.regs.rsp →
      Frame layout state next → result next → Reaches program externals next post) :
    Reaches program externals state post := by
  have hcalled : Called layout room (address program label) state _ :=
    .of_push hheap hroom hlow htop
  refine .call hline ((hroutine _ hcalled).trans ?_)
  rintro next ⟨hreturned, hresult⟩
  obtain ⟨hpc, hrsp, hframe⟩ := hcalled.returned hreturned
  exact hrest next hpc hrsp hframe hresult

/-- A call of a routine whose address is in a register. -/
theorem reaches_callReg {reg : Reg} (hline : program[state.pc]? = some (.instr (.call (.reg reg))))
    (htarget : ∀ value, (state.push value).regs.get reg = address program label)
    (hheap : HeapOffStack layout state) (hroom : 0 ≤ room)
    (hlow : layout.limit + (room + 8) ≤ state.regs.rsp) (htop : state.regs.rsp ≤ layout.top)
    (hroutine : ∀ called, Called layout room (address program label) state called →
      Reaches program externals called fun next ↦
        Returned layout ((state.pc + 1 : ℕ) : ℤ) called next ∧ result next)
    (hrest : ∀ next, next.pc = state.pc + 1 → next.regs.rsp = state.regs.rsp →
      Frame layout state next → result next → Reaches program externals next post) :
    Reaches program externals state post := by
  have hcalled : Called layout room (address program label) state _ :=
    .of_push hheap hroom hlow htop
  refine .callReg hline ?_
  rw [htarget, Int.toNat_natCast]
  refine (hroutine _ hcalled).trans ?_
  rintro next ⟨hreturned, hresult⟩
  obtain ⟨hpc, hrsp, hframe⟩ := hcalled.returned hreturned
  exact hrest next hpc hrsp hframe hresult

end Call

end Frame

end Homework.Assembly
