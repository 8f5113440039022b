import Mathlib.Algebra.Order.Ring.Int
import Mathlib.Data.Int.Bitwise
import Mathlib.Logic.Relation

/-!
# A register machine

The part of x86-64 that small hand-written programs use: moves, pushes and pops, bitwise operations
and tests, calls, returns and conditional jumps, on nine of the registers. A program is its listing,
a list of labels and instructions. Functions outside the program are called by name; what they leave
in the registers and in memory is a parameter (`Externals`), and the calls are logged.

Words and addresses are unbounded integers, bitwise operations are those of two's complement, so the
machine agrees with the hardware as long as values and addresses fit 64 bits. Memory is accessed in
cells of eight bytes at any address. A store destroys the cells it overlaps in part (`store`): a
program that ever reads such a cell is stuck.

Runs are judged by where they lead: `Reaches program externals state post` says that the machine
gets from `state` to a state that satisfies `post`. It is proved along the listing, with
`Reaches.lines` for a piece of straight code and one rule for each kind of jump.
-/

set_option autoImplicit false
set_option relaxedAutoImplicit false

namespace Homework.Library.Machine

/-! ### Bitwise operations -/

theorem land_self (value : ℤ) : Int.land value value = value := by
  rcases value with value | value
  · exact congrArg Int.ofNat (Nat.and_self value)
  · exact congrArg Int.negSucc (Nat.or_self value)

theorem xor_self (value : ℤ) : Int.xor value value = 0 := by
  rcases value with value | value
  · exact congrArg Int.ofNat (Nat.xor_self value)
  · exact congrArg Int.ofNat (Nat.xor_self value)

theorem ldiff_one (value : ℕ) : Nat.ldiff 1 value = (value + 1) % 2 := by
  apply Nat.eq_of_testBit_eq
  intro i
  rw [Nat.testBit_ldiff]
  rcases i with _ | i
  · rcases Nat.mod_two_eq_zero_or_one value with hbit | hbit
    · simp [Nat.testBit_zero, hbit, Nat.succ_mod_two_eq_one_iff.mpr hbit]
    · simp [Nat.testBit_zero, hbit, Nat.succ_mod_two_eq_zero_iff.mpr hbit]
  · have hsmall : (value + 1) % 2 < 2 ^ (i + 1) :=
      lt_of_lt_of_le (Nat.mod_lt _ Nat.two_pos) (Nat.le_self_pow (Nat.succ_ne_zero i) 2)
    rw [Nat.testBit_lt_two_pow hsmall, Nat.testBit_succ]
    simp

/-- The lowest bit. -/
theorem land_one (value : ℤ) : Int.land value 1 = value % 2 := by
  rcases value with value | value
  · exact congrArg Int.ofNat (Nat.and_one_is_mod value)
  · change ((Nat.ldiff 1 value : ℕ) : ℤ) = _
    rw [ldiff_one]
    omega

/-! ### Registers and memory -/

inductive Reg where
  | rax
  | rbx
  | rdx
  | rdi
  | rsi
  | rbp
  | rsp
  | r13
  | r14
deriving DecidableEq, Repr

structure Registers where
  rax : ℤ
  rbx : ℤ
  rdx : ℤ
  rdi : ℤ
  rsi : ℤ
  rbp : ℤ
  rsp : ℤ
  r13 : ℤ
  r14 : ℤ

namespace Registers

def get (regs : Registers) : Reg → ℤ
  | .rax => regs.rax
  | .rbx => regs.rbx
  | .rdx => regs.rdx
  | .rdi => regs.rdi
  | .rsi => regs.rsi
  | .rbp => regs.rbp
  | .rsp => regs.rsp
  | .r13 => regs.r13
  | .r14 => regs.r14

def set (regs : Registers) : Reg → ℤ → Registers
  | .rax, value => { regs with rax := value }
  | .rbx, value => { regs with rbx := value }
  | .rdx, value => { regs with rdx := value }
  | .rdi, value => { regs with rdi := value }
  | .rsi, value => { regs with rsi := value }
  | .rbp, value => { regs with rbp := value }
  | .rsp, value => { regs with rsp := value }
  | .r13, value => { regs with r13 := value }
  | .r14, value => { regs with r14 := value }

end Registers

/-- The cells of eight bytes that hold a known value, by the address of their first byte. -/
abbrev Memory := ℤ → Option ℤ

/-- Two different cells share no byte. -/
def Apart (first second : ℤ) : Prop := first + 8 ≤ second ∨ second + 8 ≤ first

/-- A store. The other cells that share a byte with the one written lose their value. -/
def store (memory : Memory) (address value : ℤ) : Memory := fun cell ↦
  if cell = address then some value
  else if address < cell + 8 ∧ cell < address + 8 then none
  else memory cell

section Store

variable (memory : Memory) (address value : ℤ)

@[simp]
theorem store_self : store memory address value address = some value :=
  if_pos rfl

theorem store_of_apart {cell : ℤ} (hapart : Apart address cell) :
    store memory address value cell = memory cell := by
  unfold Apart at hapart
  unfold store
  rw [if_neg (by omega), if_neg (by omega)]

end Store

/-! ### Programs -/

/-- Operands, with labels `L`: a register, a number, the address of a label, the cell at a register
plus an offset, the cell at a scaled register plus an offset. -/
inductive Operand (L : Type) where
  | reg (reg : Reg)
  | imm (value : ℤ)
  | label (label : L)
  | cell (base : Reg) (offset : ℤ)
  | scaled (index : Reg) (scale offset : ℤ)

/-- Where a call or a jump leads: a label, the address in a register, or a function of the
outside. -/
inductive Target (L X : Type) where
  | label (label : L)
  | reg (reg : Reg)
  | external (function : X)

inductive Instr (L X : Type) where
  | mov (dst src : Operand L)
  | push (src : Reg)
  | pop (dst : Reg)
  | sub (dst : Reg) (src : Operand L)
  | and (dst : Reg) (src : Operand L)
  | xor (dst : Reg) (src : Operand L)
  | test (first second : Reg)
  | dec (dst : Reg)
  | call (target : Target L X)
  | ret
  | jz (target : Target L X)
  | jnz (target : Target L X)

/-- A line of a listing. -/
inductive Line (L X : Type) where
  | label (label : L)
  | instr (instr : Instr L X)

/-- A call of an outside function, with its first two arguments, the stack pointer before the call
and the result. -/
structure Call (X : Type) where
  function : X
  rdi : ℤ
  rsi : ℤ
  rsp : ℤ
  result : ℤ

/-- The state of the machine. `pc` is the number of the next line, `calls` the log of the calls of
outside functions. -/
structure State (X : Type) where
  regs : Registers
  zf : Bool
  memory : Memory
  pc : ℕ
  calls : List (Call X)

/-- What an outside function leaves behind. -/
structure Left where
  regs : Registers
  zf : Bool
  memory : Memory

/-- What the outside functions leave behind when they are called in a state. -/
abbrev Externals (X : Type) := X → State X → Left

section Semantics

variable {L X : Type} [DecidableEq L] (program : List (Line L X)) (externals : Externals X)

def Line.isLabel (label : L) : Line L X → Bool
  | .label other => other = label
  | .instr _ => false

/-- The number of the line of a label. -/
def address (label : L) : ℕ := program.findIdx (Line.isLabel label)

namespace State

variable (state : State X)

/-- The next line. -/
def next : State X := { state with pc := state.pc + 1 }

def set (dst : Reg) (value : ℤ) : State X := { state with regs := state.regs.set dst value }

def push (value : ℤ) : State X :=
  { state with
    regs := { state.regs with rsp := state.regs.rsp - 8 }
    memory := store state.memory (state.regs.rsp - 8) value }

/-- The value of an operand, if it is known. -/
def value : Operand L → Option ℤ
  | .reg reg => some (state.regs.get reg)
  | .imm value => some value
  | .label label => some (address program label)
  | .cell base offset => state.memory (state.regs.get base + offset)
  | .scaled index scale offset => state.memory (state.regs.get index * scale + offset)

/-- A value is written to an operand that can be written to. -/
def write : Operand L → ℤ → Option (State X)
  | .reg reg, value => some (state.set reg value)
  | .cell base offset, value =>
    some { state with memory := store state.memory (state.regs.get base + offset) value }
  | .scaled index scale offset, value =>
    some { state with
      memory := store state.memory (state.regs.get index * scale + offset) value }
  | .imm _, _ => none
  | .label _, _ => none

/-- The result of an operation, which also sets the zero flag. -/
def result (dst : Reg) (value : ℤ) : State X :=
  { state.set dst value with zf := value == 0 }

/-- A jump. A jump to an outside function leaves the program. -/
def jump : Target L X → Option (State X)
  | .label label => some { state with pc := address program label }
  | .reg reg => some { state with pc := (state.regs.get reg).toNat }
  | .external _ => none

/-- A call of an outside function, together with its return. -/
def callExternal (function : X) : State X :=
  let left := externals function state
  { regs := left.regs
    zf := left.zf
    memory := left.memory
    pc := state.pc + 1
    calls := state.calls ++
      [⟨function, state.regs.rdi, state.regs.rsi, state.regs.rsp, left.regs.rax⟩] }

/-- A call pushes the number of the next line. -/
def call : Target L X → Option (State X)
  | .external function => some (state.callExternal externals function)
  | target => (state.push ((state.pc + 1 : ℕ) : ℤ)).jump program target

/-- An instruction. It is not executed when it reads a cell without a known value. -/
def execute : Instr L X → Option (State X)
  | .mov dst src => (state.value program src).bind (state.next.write dst)
  | .push src => some (state.next.push (state.regs.get src))
  | .pop dst => (state.memory state.regs.rsp).map fun value ↦
    (state.next.set .rsp (state.regs.rsp + 8)).set dst value
  | .sub dst src => (state.value program src).map fun value ↦
    state.next.result dst (state.regs.get dst - value)
  | .and dst src => (state.value program src).map fun value ↦
    state.next.result dst (Int.land (state.regs.get dst) value)
  | .xor dst src => (state.value program src).map fun value ↦
    state.next.result dst (Int.xor (state.regs.get dst) value)
  | .test first second => some { state.next with
      zf := Int.land (state.regs.get first) (state.regs.get second) == 0 }
  | .dec dst => some (state.next.result dst (state.regs.get dst - 1))
  | .call target => state.call program externals target
  | .ret => (state.memory state.regs.rsp).map fun value ↦
    { state.set .rsp (state.regs.rsp + 8) with pc := value.toNat }
  | .jz target => if state.zf then state.jump program target else some state.next
  | .jnz target => if state.zf then some state.next else state.jump program target

/-- The line `pc` of the program. -/
def step : Option (State X) :=
  match program[state.pc]? with
  | none => none
  | some (.label _) => some state.next
  | some (.instr instr) => state.execute program externals instr

end State

/-- The machine gets from a state to one that satisfies a condition. -/
def Reaches (state : State X) (post : State X → Prop) : Prop :=
  ∃ last, Relation.ReflTransGen
    (fun state next ↦ State.step program externals state = some next) state last ∧ post last

/-- The machine comes from one state to another. -/
def Leads (state last : State X) : Prop :=
  Relation.ReflTransGen (fun state next ↦ State.step program externals state = some next) state last

/-- The instructions that may lead elsewhere than to the next line. -/
def Instr.isJump : Instr L X → Bool
  | .call _ | .ret | .jz _ | .jnz _ => true
  | _ => false

/-- A piece of straight code, line by line. -/
def runLines : List (Line L X) → State X → Option (State X)
  | [], state => some state
  | .label _ :: rest, state => runLines rest state.next
  | .instr instr :: rest, state =>
    if instr.isJump then none
    else (state.execute program externals instr).bind (runLines rest)

end Semantics

/-! ### Reasoning about runs -/

section Rules

variable {L X : Type} [DecidableEq L] {program : List (Line L X)} {externals : Externals X}
  {state next : State X} {post middle : State X → Prop}

theorem Reaches.here (hpost : post state) : Reaches program externals state post :=
  ⟨state, .refl, hpost⟩

theorem Reaches.step (hstep : state.step program externals = some next)
    (hrest : Reaches program externals next post) : Reaches program externals state post := by
  obtain ⟨last, hlast, hpost⟩ := hrest
  exact ⟨last, .head hstep hlast, hpost⟩

theorem Reaches.trans (hfirst : Reaches program externals state middle)
    (hsecond : ∀ next, middle next → Reaches program externals next post) :
    Reaches program externals state post := by
  obtain ⟨next, hnext, hmiddle⟩ := hfirst
  obtain ⟨last, hlast, hpost⟩ := hsecond next hmiddle
  exact ⟨last, hnext.trans hlast, hpost⟩

theorem Reaches.mono (hfirst : Reaches program externals state middle)
    (himp : ∀ next, middle next → post next) : Reaches program externals state post :=
  hfirst.trans fun next hnext ↦ .here (himp next hnext)

theorem step_of_instr {instr : Instr L X}
    (hline : program[state.pc]? = some (.instr instr)) :
    state.step program externals = state.execute program externals instr := by
  rw [State.step, hline]

/-- An instruction that is not a jump leads to the next line. -/
theorem pc_of_execute {instr : Instr L X} (hjump : instr.isJump = false)
    (hexecute : state.execute program externals instr = some next) : next.pc = state.pc + 1 := by
  unfold State.execute at hexecute
  split at hexecute
  · obtain ⟨value, -, hwrite⟩ := Option.bind_eq_some_iff.mp hexecute
    unfold State.write at hwrite
    split at hwrite
    · exact Option.some.inj hwrite ▸ rfl
    · exact Option.some.inj hwrite ▸ rfl
    · exact Option.some.inj hwrite ▸ rfl
    · exact absurd hwrite (Option.some_ne_none _).symm
    · exact absurd hwrite (Option.some_ne_none _).symm
  · exact Option.some.inj hexecute ▸ rfl
  · obtain ⟨value, -, rfl⟩ := Option.map_eq_some_iff.mp hexecute
    rfl
  · obtain ⟨value, -, rfl⟩ := Option.map_eq_some_iff.mp hexecute
    rfl
  · obtain ⟨value, -, rfl⟩ := Option.map_eq_some_iff.mp hexecute
    rfl
  · obtain ⟨value, -, rfl⟩ := Option.map_eq_some_iff.mp hexecute
    rfl
  · exact Option.some.inj hexecute ▸ rfl
  · exact Option.some.inj hexecute ▸ rfl
  all_goals exact absurd hjump Bool.true_eq_false.mp

/-- A piece of straight code. -/
theorem Reaches.lines (code : List (Line L X))
    (hcode : (program.drop state.pc).take code.length = code)
    (hrun : runLines program externals code state = some next)
    (hrest : Reaches program externals next post) : Reaches program externals state post := by
  induction code generalizing state with
  | nil => exact Option.some.inj hrun ▸ hrest
  | cons line rest ih =>
    rcases hdrop : program.drop state.pc with _ | ⟨head, tail⟩
    · rw [hdrop] at hcode
      exact absurd hcode (List.cons_ne_nil _ _).symm
    rw [hdrop, List.length_cons, List.take_succ_cons] at hcode
    obtain ⟨rfl, htail⟩ := List.cons.inj hcode
    have hline : program[state.pc]? = some head := by
      rw [← List.head?_drop, hdrop, List.head?_cons]
    have hnext : program.drop (state.pc + 1) = tail := by
      rw [← List.tail_drop, hdrop, List.tail_cons]
    rcases head with label | instr
    · exact .step (show _ = some state.next by rw [State.step, hline])
        (ih (hnext.symm ▸ htail) hrun)
    · rw [runLines] at hrun
      split at hrun
      · exact absurd hrun (Option.some_ne_none _).symm
      next hjump =>
      obtain ⟨after, hexecute, hafter⟩ := Option.bind_eq_some_iff.mp hrun
      have hpc := pc_of_execute (Bool.eq_false_of_not_eq_true hjump) hexecute
      refine .step ((step_of_instr hline).trans hexecute) (ih ?_ hafter)
      rw [hpc, hnext, htail]

/-- A call of a part of the program. -/
theorem Reaches.call {label : L}
    (hline : program[state.pc]? = some (.instr (.call (.label label))))
    (hrest : Reaches program externals
      { state.push ((state.pc + 1 : ℕ) : ℤ) with pc := address program label } post) :
    Reaches program externals state post :=
  .step ((step_of_instr hline).trans rfl) hrest

/-- A call through a register. -/
theorem Reaches.callReg {reg : Reg}
    (hline : program[state.pc]? = some (.instr (.call (.reg reg))))
    (hrest : Reaches program externals
      { state.push ((state.pc + 1 : ℕ) : ℤ) with
        pc := ((state.push ((state.pc + 1 : ℕ) : ℤ)).regs.get reg).toNat } post) :
    Reaches program externals state post :=
  .step ((step_of_instr hline).trans rfl) hrest

/-- A call of an outside function. -/
theorem Reaches.callExternal {function : X}
    (hline : program[state.pc]? = some (.instr (.call (.external function))))
    (hrest : Reaches program externals (state.callExternal externals function) post) :
    Reaches program externals state post :=
  .step ((step_of_instr hline).trans rfl) hrest

theorem Reaches.ret {value : ℤ} (hline : program[state.pc]? = some (.instr .ret))
    (hload : state.memory state.regs.rsp = some value)
    (hrest : Reaches program externals
      { state.set .rsp (state.regs.rsp + 8) with pc := value.toNat } post) :
    Reaches program externals state post := by
  refine .step ((step_of_instr hline).trans ?_) hrest
  rw [State.execute, hload]
  rfl

/-- A conditional jump that is taken. -/
theorem Reaches.jzTaken {label : L}
    (hline : program[state.pc]? = some (.instr (.jz (.label label)))) (hzero : state.zf = true)
    (hrest : Reaches program externals { state with pc := address program label } post) :
    Reaches program externals state post := by
  refine .step ((step_of_instr hline).trans ?_) hrest
  rw [State.execute, if_pos hzero]
  rfl

/-- A conditional jump that is not taken. -/
theorem Reaches.jzPassed {target : Target L X}
    (hline : program[state.pc]? = some (.instr (.jz target))) (hzero : state.zf = false)
    (hrest : Reaches program externals state.next post) :
    Reaches program externals state post := by
  refine .step ((step_of_instr hline).trans ?_) hrest
  rw [State.execute, hzero]
  rfl

theorem Reaches.jnzTaken {label : L}
    (hline : program[state.pc]? = some (.instr (.jnz (.label label)))) (hzero : state.zf = false)
    (hrest : Reaches program externals { state with pc := address program label } post) :
    Reaches program externals state post := by
  refine .step ((step_of_instr hline).trans ?_) hrest
  rw [State.execute, if_neg (hzero ▸ Bool.false_ne_true)]
  rfl

theorem Reaches.jnzPassed {target : Target L X}
    (hline : program[state.pc]? = some (.instr (.jnz target))) (hzero : state.zf = true)
    (hrest : Reaches program externals state.next post) :
    Reaches program externals state post := by
  refine .step ((step_of_instr hline).trans ?_) hrest
  rw [State.execute, if_pos hzero]

end Rules

/-! ### Whole runs -/

section Whole

variable {L X : Type} [DecidableEq L] {program : List (Line L X)} {externals : Externals X}
  {state next last : State X} {post : State X → Prop}

omit [DecidableEq L] in
theorem calls_of_write {operand : Operand L} {value : ℤ}
    (hwrite : state.write operand value = some next) : next.calls = state.calls := by
  cases operand with
  | reg | cell | scaled => exact Option.some.inj hwrite ▸ rfl
  | imm | label => exact absurd hwrite (Option.some_ne_none _).symm

theorem calls_of_jump {target : Target L X} (hjump : state.jump program target = some next) :
    next.calls = state.calls := by
  cases target with
  | label | reg => exact Option.some.inj hjump ▸ rfl
  | external => exact absurd hjump (Option.some_ne_none _).symm

/-- The log of the calls only grows. -/
theorem calls_prefix_of_execute {instr : Instr L X}
    (hexecute : state.execute program externals instr = some next) :
    state.calls <+: next.calls := by
  have hsame (hcalls : next.calls = state.calls) : state.calls <+: next.calls :=
    hcalls ▸ List.prefix_refl _
  cases instr with
  | mov =>
    obtain ⟨value, -, hwrite⟩ := Option.bind_eq_some_iff.mp hexecute
    have hcalls : next.calls = state.next.calls := calls_of_write hwrite
    exact hsame hcalls
  | push | test | dec => exact hsame (Option.some.inj hexecute ▸ rfl)
  | pop | sub | and | xor | ret =>
    obtain ⟨value, -, rfl⟩ := Option.map_eq_some_iff.mp hexecute
    exact List.prefix_refl _
  | call target =>
    cases target with
    | label | reg => exact hsame (Option.some.inj hexecute ▸ rfl)
    | external function => exact Option.some.inj hexecute ▸ List.prefix_append _ _
  | jz =>
    rw [State.execute] at hexecute
    split at hexecute
    · exact hsame (calls_of_jump hexecute)
    · exact hsame (Option.some.inj hexecute ▸ rfl)
  | jnz =>
    rw [State.execute] at hexecute
    split at hexecute
    · exact hsame (Option.some.inj hexecute ▸ rfl)
    · exact hsame (calls_of_jump hexecute)

theorem calls_prefix_of_step (hstep : state.step program externals = some next) :
    state.calls <+: next.calls := by
  rw [State.step] at hstep
  split at hstep
  · exact absurd hstep (Option.some_ne_none _).symm
  · exact Option.some.inj hstep ▸ List.prefix_refl _
  · exact calls_prefix_of_execute hstep

theorem Leads.isPrefix_calls (hleads : Leads program externals state last) :
    state.calls <+: last.calls := by
  induction hleads with
  | refl => exact List.prefix_refl _
  | tail _ hstep ih => exact ih.trans (calls_prefix_of_step hstep)

/-- A condition that the machine meets again and again is ahead of it all the time. -/
theorem Reaches.ahead
    (hagain : ∀ state next, post state → state.step program externals = some next →
      Reaches program externals next post)
    (hstart : Reaches program externals state post) (hleads : Leads program externals state last) :
    Reaches program externals last post := by
  induction hleads with
  | refl => exact hstart
  | tail _ hstep ih =>
    obtain ⟨goal, hgoal, hpost⟩ := ih
    rcases Relation.ReflTransGen.cases_head hgoal with rfl | ⟨other, hother, hrest⟩
    · exact hagain _ _ hpost hstep
    · obtain rfl := Option.some.inj (hstep.symm.trans hother)
      exact ⟨goal, hrest, hpost⟩

end Whole

end Homework.Library.Machine
