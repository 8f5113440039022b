import Homework.Assembly.EmptyArray

/-!
# The assembly program and its C rewrite

`main.c` does in C what `main.asm` does. A list of nodes that is never changed after it is built is
a list of values here, and what a function prints is a list of pieces. The routines of `main.asm`
build, filter and print the lists that the functions of `main.c` build, filter and print. The two
programs print the same lines, unless the array is empty: `main.c` tests the counter of its loop
before a round, and prints two empty lines (`assembly_agrees_iff`).
-/

set_option autoImplicit false
set_option relaxedAutoImplicit false

namespace Homework.Assembly

open Homework.Library.Machine

/-! ### The functions of `main.c` -/

namespace Rewrite

def printInt (value : ℤ) : List Piece := [.number value]

/-- A node in front of a list. Assumes: `malloc` succeeds, as the source does. -/
def addElement (value : ℤ) (prev : List ℤ) : List ℤ := value :: prev

def printList : List ℤ → List Piece
  | [] => [.newline]
  | value :: prev => printInt value ++ printList prev

/-- The loop of `filter_by_last_digit`. -/
def filterLoop : List ℤ → List ℤ → List ℤ
  | [], prev => prev
  | value :: curNode, prev =>
    filterLoop curNode (if Int.land value 1 ≠ 0 then addElement value prev else prev)

def filterByLastDigit (node : List ℤ) : List ℤ := filterLoop node []

/-- The loop of `main`, with the counter `i`. -/
def addingLoop (data : List ℤ) : ℕ → List ℤ → List ℤ
  | 0, prev => prev
  | i + 1, prev => addingLoop data i (addElement (data.getD i 0) prev)

/-- What `main` prints when its array is `data`. -/
def main (data : List ℤ) : List Piece :=
  let prev := addingLoop data data.length []
  let filtered := filterByLastDigit prev
  printList prev ++ printList filtered

theorem printList_eq (values : List ℤ) :
    printList values = values.map .number ++ [.newline] := by
  induction values with
  | nil => rfl
  | cons value rest ih =>
    rw [printList, ih]
    rfl

theorem filterLoop_eq (values prev : List ℤ) :
    filterLoop values prev = (values.filter lowBit).reverse ++ prev := by
  induction values generalizing prev with
  | nil => rfl
  | cons value rest ih =>
    rw [filterLoop, ih]
    by_cases hodd : Int.land value 1 ≠ 0
    · have hbit : lowBit value = true := bne_iff_ne.mpr hodd
      rw [if_pos hodd, List.filter_cons_of_pos hbit, List.reverse_cons, List.append_assoc]
      rfl
    · have hbit : ¬lowBit value = true := fun hbit ↦ hodd (bne_iff_ne.mp hbit)
      rw [if_neg hodd, List.filter_cons_of_neg hbit]

theorem filterByLastDigit_eq (values : List ℤ) :
    filterByLastDigit values = (values.filter lowBit).reverse := by
  rw [filterByLastDigit, filterLoop_eq, List.append_nil]

/-- The loop of `main` puts the first `i` values in front of what has been built. -/
theorem addingLoop_eq {data : List ℤ} {i : ℕ} (hi : i ≤ data.length) (prev : List ℤ) :
    addingLoop data i prev = data.take i ++ prev := by
  induction i generalizing prev with
  | zero => rfl
  | succ i ih =>
    rw [addingLoop, ih (Nat.le_of_succ_le hi), addElement, List.getD_eq_getElem _ _ hi,
      List.take_succ_eq_append_getElem hi, List.append_assoc]
    rfl

theorem main_eq (data : List ℤ) : main data = lines data := by
  have hbuilt : addingLoop data data.length [] = data := by
    rw [addingLoop_eq le_rfl, List.take_length, List.append_nil]
  unfold main lines
  simp only [hbuilt, filterByLastDigit_eq, printList_eq]

end Rewrite

theorem lowBit_eq (value : ℤ) : lowBit value = decide (value % 2 = 1) := by
  unfold lowBit
  rw [land_one]
  rcases Int.emod_two_eq_zero_or_one value with hbit | hbit
  · rw [hbit]
    rfl
  · rw [hbit]
    rfl

/-! ### Agreement -/

section Agreement

variable (symbols : Symbols) (layout : Layout) (externals : Externals External)

/-- What a routine does when it is called with `room` bytes of the stack free: from a state that
satisfies `given` it returns, and `result` holds of the states before and after. -/
def Routine (label : Label) (room : ℤ) (given : State External → Prop)
    (result : State External → State External → Prop) : Prop :=
  ∀ ret state, state.pc = address (program symbols) label → Entered layout room ret state →
    given state →
      Reaches (program symbols) externals state fun next ↦
        Returned layout ret state next ∧ result state next

/-- The routines of `main.asm` do what the functions of `main.c` do on a list: `add_element` builds
the list, `f` with `p` and no accumulated values filters it, which keeps the odd values in reverse
order, and `m` prints its values, as `print_list` does before it ends the line. Behind its loop
`main` prints the two lines of the `main` of `main.c`. -/
structure RoutinesAgree (values : List ℤ) : Prop where
  addElement : ∀ value, Routine symbols layout externals .addElement 40
    (fun state ↦ state.regs.rdi = value ∧ IsList state state.regs.rsi values)
    fun _ next ↦ IsList next next.regs.rax (Rewrite.addElement value values)
  f : Routine symbols layout externals .f (fRoom values.length)
    (fun state ↦ IsList state state.regs.rdi values ∧ state.regs.rsi = 0 ∧
      state.regs.rdx = address (program symbols) .p)
    fun _ next ↦ IsList next next.regs.rax (Rewrite.filterByLastDigit values)
  filterByLastDigit : Rewrite.filterByLastDigit values =
    (values.filter fun value ↦ value % 2 = 1).reverse
  m : Routine symbols layout externals .m (mRoom values.length)
    (fun state ↦ IsList state state.regs.rdi values ∧
      state.regs.rsi = address (program symbols) .printInt)
    fun state next ↦ output symbols next = output symbols state ++ values.map .number
  printList : Rewrite.printList values = values.map .number ++ [.newline]
  afterLoop : ∀ ret caller state, Entered layout (mainRoom values.length) ret caller →
    state.pc = afterLoop symbols → Built layout symbols values (caller.push caller.regs.rbx) state →
      Reaches (program symbols) externals state fun next ↦ Returned layout ret caller next ∧
        output symbols next = output symbols state ++ Rewrite.main values

/-- `main` of `main.asm` prints what the `main` of `main.c` prints for an array, and returns. -/
def MainAgrees (ret : ℤ) (values : List ℤ) (state : State External) : Prop :=
  Reaches (program symbols) externals state fun next ↦ Returned layout ret state next ∧
    output symbols next = output symbols state ++ Rewrite.main values

variable {symbols layout externals} {ret : ℤ} {values : List ℤ} {state : State External}

theorem routinesAgree (hlibc : Libc layout externals) (values : List ℤ) :
    RoutinesAgree symbols layout externals values where
  addElement := by
    rintro value ret state hpc hentered ⟨rfl, hlist⟩
    refine (addElement_spec hlibc hpc hentered).mono ?_
    rintro next ⟨hreturned, hne, hvalue, hprev, ⟨hblocks, -⟩, -⟩
    refine ⟨hreturned, hne, ?_, hvalue, _, hprev, hreturned.frame.isList hlist⟩
    rw [hblocks]
    exact List.mem_append_right _ List.mem_cons_self
  f := by
    rintro ret state hpc hentered ⟨hlist, hrsi, hrdx⟩
    have hempty : IsList state state.regs.rsi [] := hrsi
    refine (f_spec hlibc values hpc hentered hlist hempty hrdx).mono ?_
    rintro next ⟨hreturned, hrax, hfiltered, -⟩
    rw [List.append_nil, ← Rewrite.filterByLastDigit_eq, ← hrax] at hfiltered
    exact ⟨hreturned, hfiltered⟩
  filterByLastDigit := by rw [Rewrite.filterByLastDigit_eq, funext lowBit_eq]
  m := by
    rintro ret state hpc hentered ⟨hlist, hrsi⟩
    refine (m_spec hlibc _ hpc hentered hlist hrsi).mono ?_
    rintro next ⟨hreturned, -, -, houtput⟩
    exact ⟨hreturned, houtput⟩
  printList := Rewrite.printList_eq values
  afterLoop := by
    intro ret caller state hentered hpc hbuilt
    refine (afterLoop_spec hlibc hentered hpc hbuilt).mono ?_
    rintro next ⟨hreturned, -, ⟨allocated, -, houtput⟩, -⟩
    rw [Rewrite.main_eq]
    exact ⟨hreturned, houtput⟩

theorem mainAgrees_of_ne_nil (hlibc : Libc layout externals) (hvalues : values ≠ [])
    (hdata : DataSection symbols layout values state)
    (hpc : state.pc = address (program symbols) .main)
    (hentered : Entered layout (mainRoom values.length) ret state) :
    MainAgrees symbols layout externals ret values state := by
  refine (main_spec hlibc hvalues hdata hpc hentered).mono ?_
  rintro next ⟨hreturned, -, ⟨allocated, -, houtput⟩, -⟩
  rw [Rewrite.main_eq]
  exact ⟨hreturned, houtput⟩

/-- For the empty array `main.c` prints two empty lines. -/
theorem not_mainAgrees_nil (hlibc : Libc layout externals)
    (hdata : DataSection symbols layout [] state)
    (hpc : state.pc = address (program symbols) .main)
    (hentered : Entered layout (mainRoom 0) ret state) :
    ¬MainAgrees symbols layout externals ret [] state := by
  rintro ⟨next, hleads, -, houtput⟩
  have hnothing := output_of_leads hlibc hdata hpc hentered hleads
  rw [hnothing] at houtput
  exact List.cons_ne_nil _ _ (List.self_eq_append_right.mp houtput)

/-- The routines of `main.asm` agree with the functions of `main.c` on every list, and the two
programs print the same lines exactly when the array holds a value. Assumes: `Libc`, with `malloc`
successful. -/
theorem assembly_agrees_iff (hlibc : Libc layout externals)
    (hdata : DataSection symbols layout values state)
    (hpc : state.pc = address (program symbols) .main)
    (hentered : Entered layout (mainRoom values.length) ret state) :
    (∀ list, RoutinesAgree symbols layout externals list) ∧
      (MainAgrees symbols layout externals ret values state ↔ values ≠ []) := by
  refine ⟨routinesAgree hlibc, ?_, ?_⟩
  · rintro hagrees rfl
    exact not_mainAgrees_nil hlibc hdata hpc hentered hagrees
  · exact fun hvalues ↦ mainAgrees_of_ne_nil hlibc hvalues hdata hpc hentered

end Agreement

/-! ### A run on the array of the source -/

def sourceSymbols : Symbols where
  emptyStr := 1
  intFormat := 2
  data := 8
  dataLength := 6

/-- The stack lies below the address 0, the array above it. -/
def sourceLayout : Layout where
  limit := -1024
  top := 0
  static := fun cell ↦ 8 ≤ cell ∧ cell ≤ 48
  static_apart := fun cell hcell ↦ Or.inr (le_trans (by decide) hcell.1)

/-- The highest of the blocks, or 1024. -/
def highest (blocks : List ℤ) : ℤ := blocks.foldr max 1024

theorem le_highest (blocks : List ℤ) :
    1024 ≤ highest blocks ∧ ∀ block ∈ blocks, block ≤ highest blocks := by
  induction blocks with
  | nil => exact ⟨le_refl _, fun _ hblock ↦ absurd hblock List.not_mem_nil⟩
  | cons first rest ih =>
    refine ⟨le_trans ih.1 (le_max_right _ _), ?_⟩
    intro block hblock
    rcases List.mem_cons.mp hblock with rfl | hrest
    · exact le_max_left _ _
    · exact le_trans (ih.2 block hrest) (le_max_right _ _)

/-- A C library whose `malloc` goes up through memory. -/
def risingLibc : Externals External := fun function state ↦
  { regs := { state.regs with
      rax := if function = .malloc then highest (blocks state) + 16 else 0 }
    zf := state.zf
    memory := state.memory }

theorem libc_rising : Libc sourceLayout risingLibc where
  rbx := fun _ _ ↦ rfl
  rbp := fun _ _ ↦ rfl
  rsp := fun _ _ ↦ rfl
  r13 := fun _ _ ↦ rfl
  r14 := fun _ _ ↦ rfl
  memory := fun _ _ _ _ ↦ rfl
  malloc := by
    intro state _
    have hhigh := (le_highest (blocks state)).1
    change FreshBlock sourceLayout state (highest (blocks state) + 16)
    exact {
      ne_zero := by omega
      offStack := Or.inr (show (0 : ℤ) ≤ _ by omega)
      static := fun cell hcell ↦ Or.inl (by have := hcell.2; omega)
      blocks := fun other hother ↦
        Or.inl (add_le_add_left ((le_highest (blocks state)).2 other hother) 16) }

/-- The start of `main`: the return address is on the stack, the array in the data section. -/
def sourceState : State External where
  regs := ⟨0, 0, 0, 0, 0, 0, -8, 0, 0⟩
  zf := false
  memory := fun cell ↦
    if cell = -8 then some 0
    else if cell % 8 = 0 then data[((cell - 8) / 8).toNat]? else none
  pc := address (program sourceSymbols) .main
  calls := []

theorem dataSection_source : DataSection sourceSymbols sourceLayout data sourceState := by
  refine ⟨rfl, ?_, ?_⟩
  · intro index hindex
    have hsmall : index < 6 := hindex
    exact ⟨show (8 : ℤ) ≤ 8 + 8 * index by omega, show (8 : ℤ) + 8 * index ≤ 48 by omega⟩
  · decide

theorem entered_source : Entered sourceLayout (mainRoom data.length) 0 sourceState :=
  ⟨rfl, fun _ hblock ↦ absurd hblock List.not_mem_nil, by decide, by decide⟩

/-- `main` prints its array, and then 23 and 15. -/
theorem source_prints :
    Reaches (program sourceSymbols) risingLibc sourceState fun next ↦
      output sourceSymbols next = [.number 4, .number 8, .number 15, .number 16, .number 23,
        .number 42, .newline, .number 23, .number 15, .newline] := by
  have hmain := (assembly_agrees_iff libc_rising dataSection_source rfl entered_source).2
  refine (hmain.mpr (by decide)).mono ?_
  rintro next ⟨-, houtput⟩
  rw [houtput]
  decide

/-! ### A run on an empty array -/

def emptySymbols : Symbols := { sourceSymbols with dataLength := 0 }

/-- The start of `main`, with an array that holds nothing. -/
def emptyState : State External := { sourceState with pc := address (program emptySymbols) .main }

theorem dataSection_empty : DataSection emptySymbols sourceLayout [] emptyState :=
  ⟨rfl, fun _ hindex ↦ absurd hindex (Nat.not_lt_zero _),
    fun _ hindex ↦ absurd hindex (Nat.not_lt_zero _)⟩

theorem entered_empty : Entered sourceLayout (mainRoom 0) 0 emptyState :=
  ⟨rfl, fun _ hblock ↦ absurd hblock List.not_mem_nil, by decide, by decide⟩

theorem empty_not_mainAgrees :
    ¬MainAgrees emptySymbols sourceLayout risingLibc 0 [] emptyState :=
  not_mainAgrees_nil libc_rising dataSection_empty rfl entered_empty

end Homework.Assembly
