import Homework.Assembly.Traversals
import Mathlib.Tactic.Ring

/-!
# The main routine

`main` builds the list of the array `data` from its end with `add_element`, prints it with `m`,
filters it with `f` and prints the result. The array may hold any values, but at least one: the loop
tests its counter after the decrement.
-/

set_option autoImplicit false
set_option relaxedAutoImplicit false

namespace Homework.Assembly

open Homework.Library.Machine

attribute [local simp] runLines State.execute Instr.isJump State.next State.push State.value
  State.write State.set State.result Registers.get Registers.set

/-- The array `data` holds some values. -/
structure DataSection (symbols : Symbols) (layout : Layout) (values : List ℤ)
    (state : State External) : Prop where
  length : symbols.dataLength = values.length
  static : ∀ index < values.length, layout.static (symbols.data + 8 * index)
  memory : ∀ index < values.length, state.memory (symbols.data + 8 * index) = values[index]?

/-- Some rounds of the loop of `main` have led from one state to another, where `rax` holds a list.
-/
structure Built (layout : Layout) (symbols : Symbols) (values : List ℤ)
    (state next : State External) : Prop where
  rsp : next.regs.rsp = state.regs.rsp
  rbp : next.regs.rbp = state.regs.rbp
  r13 : next.regs.r13 = state.regs.r13
  r14 : next.regs.r14 = state.regs.r14
  heap : HeapOffStack layout next
  keeps : Keeps layout state next
  list : IsList next next.regs.rax values
  logs : ∃ allocated, Logs symbols state next allocated []

section Loop

variable {symbols : Symbols} {layout : Layout} {externals : Externals External}
  {values : List ℤ} {state middle next : State External}

theorem DataSection.keeps (hdata : DataSection symbols layout values state)
    (hkeeps : Keeps layout state next) : DataSection symbols layout values next where
  length := hdata.length
  static := hdata.static
  memory := fun index hindex ↦
    (hkeeps.2.2 _ (Or.inr (Or.inr (hdata.static index hindex)))).trans (hdata.memory index hindex)

theorem Built.trans {built : List ℤ} (hfirst : Built layout symbols built state middle)
    (hsecond : Built layout symbols values middle next) :
    Built layout symbols values state next where
  rsp := hsecond.rsp.trans hfirst.rsp
  rbp := hsecond.rbp.trans hfirst.rbp
  r13 := hsecond.r13.trans hfirst.r13
  r14 := hsecond.r14.trans hfirst.r14
  heap := hsecond.heap
  keeps := hfirst.keeps.trans hsecond.keeps
  list := hsecond.list
  logs := by
    obtain ⟨allocated, hlogs⟩ := hfirst.logs
    obtain ⟨allocated', hlogs'⟩ := hsecond.logs
    exact ⟨allocated ++ allocated', hlogs.trans hlogs'⟩

theorem address_addingLoop : address (program symbols) .addingLoop = 76 := rfl

/-- The second half of a round of the loop, up to its jump: a node has been added. -/
structure Added (layout : Layout) (symbols : Symbols) (state next : State External) : Prop where
  pc : next.pc = 81
  rbx : next.regs.rbx = state.regs.rbx - 1
  zf : next.zf = (state.regs.rbx - 1 == 0)
  rsp : next.regs.rsp = state.regs.rsp
  rbp : next.regs.rbp = state.regs.rbp
  r13 : next.regs.r13 = state.regs.r13
  r14 : next.regs.r14 = state.regs.r14
  heap : HeapOffStack layout next
  keeps : Keeps layout state next
  node : Chain next next.regs.rax [state.regs.rdi] state.regs.rsi
  logs : ∃ allocated, Logs symbols state next allocated []
  visits : Visits state next (addElementSites (state.regs.rsp - 8))

theorem addingLoop_call (hlibc : Libc layout externals) (hpc : state.pc = 79)
    (hheap : HeapOffStack layout state) (hlow : layout.limit + 48 ≤ state.regs.rsp)
    (hhigh : state.regs.rsp ≤ layout.top) :
    Reaches (program symbols) externals state (Added layout symbols state) := by
  refine reaches_call 40 _ (by rw [hpc]; rfl) hheap (by decide) (by omega) hhigh
    (fun called hcalled ↦ addElement_called hlibc hcalled) ?_
  rintro added hpc' hrsp hframe ⟨hne, hvalue, hprev, hlogs, hvisits⟩
  have hcount := hframe.rbx
  have hkeeps : Keeps layout state added := hframe.keeps (le_of_eq hrsp)
  have hnode : Chain added added.regs.rax [state.regs.rdi] state.regs.rsi := by
    refine ⟨hne, ?_, hvalue, _, hprev, rfl⟩
    rw [hlogs.1]
    exact List.mem_append_right _ List.mem_cons_self
  rw [hpc] at hpc'
  apply Reaches.lines [.instr (.dec .rbx)] (by rw [hpc']; rfl) (by simp [hpc', hcount]; rfl)
  exact Reaches.here {
    pc := rfl
    rbx := rfl
    zf := rfl
    rsp := hrsp
    rbp := hframe.rbp
    r13 := hframe.r13
    r14 := hframe.r14
    heap := hframe.heap
    keeps := hkeeps
    node := hnode.of_same rfl rfl
    logs := ⟨_, hlogs⟩
    visits := hvisits }

/-- A round of the loop, up to its jump, puts one more value in front of the list. -/
theorem addingLoop_round (hlibc : Libc layout externals) {index : ℕ}
    (hindex : index < values.length) (hdata : DataSection symbols layout values state)
    (hpc : state.pc = address (program symbols) .addingLoop)
    (hrbx : state.regs.rbx = index + 1) (hheap : HeapOffStack layout state)
    (hlow : layout.limit + 48 ≤ state.regs.rsp) (hhigh : state.regs.rsp ≤ layout.top)
    (hlist : IsList state state.regs.rax (values.drop (index + 1))) :
    Reaches (program symbols) externals state fun next ↦
      next.pc = 81 ∧ next.regs.rbx = index ∧ next.zf = ((index : ℤ) == 0) ∧
        Built layout symbols (values.drop index) state next ∧
        Visits state next (addElementSites (state.regs.rsp - 8)) := by
  have hload : state.memory (state.regs.rbx * 8 + (symbols.data - 8)) = some values[index] := by
    rw [hrbx, ← List.getElem?_eq_getElem hindex, ← hdata.memory index hindex]
    congr 1
    ring
  rw [address_addingLoop] at hpc
  apply Reaches.lines [.label .addingLoop,
    .instr (.mov (.reg .rdi) (.scaled .rbx 8 (symbols.data - 8))),
    .instr (.mov (.reg .rsi) (.reg .rax))] (by rw [hpc]; rfl) (by simp [hpc, hload]; rfl)
  refine Reaches.mono (addingLoop_call hlibc rfl hheap hlow hhigh) ?_
  rintro next hadded
  have hcount : state.regs.rbx - 1 = index := by omega
  refine ⟨hadded.pc, hadded.rbx.trans hcount, hadded.zf.trans (congrArg (· == 0) hcount), ?_,
    hadded.visits⟩
  have hkeeps : Keeps layout state next := hadded.keeps
  exact {
    rsp := hadded.rsp
    rbp := hadded.rbp
    r13 := hadded.r13
    r14 := hadded.r14
    heap := hadded.heap
    keeps := hkeeps
    list := by
      rw [List.drop_eq_getElem_cons hindex]
      exact isList_iff_chain.mpr
        (hadded.node.trans (isList_iff_chain.mp (hkeeps.isList hlist)))
    logs := hadded.logs }

/-- The calls that some rounds of the loop make, from the stack pointer of `main`. -/
def loopSites (rsp : ℤ) : ℕ → List (External × ℤ)
  | 0 => []
  | rounds + 1 => addElementSites (rsp - 8) ++ loopSites rsp rounds

/-- The loop builds the list of all values. -/
theorem addingLoop_spec (hlibc : Libc layout externals) {index : ℕ}
    (hindex : index < values.length) (hdata : DataSection symbols layout values state)
    (hpc : state.pc = address (program symbols) .addingLoop)
    (hrbx : state.regs.rbx = index + 1) (hheap : HeapOffStack layout state)
    (hlow : layout.limit + 48 ≤ state.regs.rsp) (hhigh : state.regs.rsp ≤ layout.top)
    (hlist : IsList state state.regs.rax (values.drop (index + 1))) :
    Reaches (program symbols) externals state fun next ↦
      next.pc = 82 ∧ Built layout symbols values state next ∧
        Visits state next (loopSites state.regs.rsp (index + 1)) := by
  induction index generalizing state with
  | zero =>
    refine (addingLoop_round hlibc hindex hdata hpc hrbx hheap hlow hhigh hlist).trans ?_
    rintro next ⟨hpc', hrbx', hzero, hbuilt, hvisits⟩
    refine Reaches.jnzPassed (by rw [hpc']; rfl) hzero (Reaches.here ⟨?_, ?_, hvisits⟩)
    · exact congrArg Nat.succ hpc'
    · exact { hbuilt with list := hbuilt.list.of_same rfl rfl }
  | succ index ih =>
    refine (addingLoop_round hlibc hindex hdata hpc hrbx hheap hlow hhigh hlist).trans ?_
    rintro next ⟨hpc', hrbx', hzero, hbuilt, hvisits⟩
    have hnonzero : next.zf = false := hzero.trans (beq_false_of_ne (by omega))
    refine Reaches.jnzTaken (by rw [hpc']; rfl) hnonzero ?_
    have hbuilt' : Built layout symbols (values.drop (index + 1)) state
        { next with pc := address (program symbols) .addingLoop } :=
      ⟨hbuilt.rsp, hbuilt.rbp, hbuilt.r13, hbuilt.r14, hbuilt.heap, hbuilt.keeps,
        hbuilt.list.of_same rfl rfl, hbuilt.logs⟩
    have hrsp := hbuilt'.rsp
    refine (ih (Nat.lt_of_succ_lt hindex) (hdata.keeps hbuilt'.keeps) rfl (by rw [hrbx']; rfl)
      hbuilt'.heap (by omega) (by omega) hbuilt'.list).mono ?_
    rintro last ⟨hpc'', hlast, hvisits'⟩
    dsimp only at hvisits'
    rw [hrsp] at hvisits'
    exact ⟨hpc'', hbuilt'.trans hlast, hvisits.trans hvisits'⟩

end Loop

/-! ### The whole program -/

section Main

variable {symbols : Symbols} {layout : Layout} {externals : Externals External} {ret : ℤ}
  {values : List ℤ} {state called : State External}

theorem m_called (hlibc : Libc layout externals)
    (hcalled : Called layout (mRoom values.length) (address (program symbols) .m) state called)
    (hlist : IsList state state.regs.rdi values)
    (hrsi : state.regs.rsi = address (program symbols) .printInt) :
    Reaches (program symbols) externals called fun next ↦
      Returned layout ((state.pc + 1 : ℕ) : ℤ) called next ∧
        Logs symbols state next [] (values.map .number) ∧
        Visits state next (mSites (state.regs.rsp - 8) values) := by
  have hlist' : Linked layout called called.regs.rdi values := by
    rw [hcalled.regs]
    exact hcalled.keeps.linked hlist.linked
  have hrsi' : called.regs.rsi = address (program symbols) .printInt := by
    rw [hcalled.regs]
    exact hrsi
  refine (m_runs hlibc _ hcalled.pc hcalled.entered hlist' hrsi').mono ?_
  rintro next ⟨hreturned, -, hlogs, hvisits⟩
  rw [hcalled.regs] at hvisits
  exact ⟨hreturned, hlogs.of_same hcalled.calls, hvisits.of_same hcalled.calls⟩

theorem f_called (hlibc : Libc layout externals)
    (hcalled : Called layout (fRoom values.length) (address (program symbols) .f) state called)
    (hlist : IsList state state.regs.rdi values)
    (hrdx : state.regs.rdx = address (program symbols) .p) :
    Reaches (program symbols) externals called fun next ↦
      Returned layout ((state.pc + 1 : ℕ) : ℤ) called next ∧
        FilteredOnto symbols state (values.filter lowBit).reverse
          (fSites (state.regs.rsp - 8) values) next := by
  have hlist' : Linked layout called called.regs.rdi values := by
    rw [hcalled.regs]
    exact hcalled.keeps.linked hlist.linked
  have hrdx' : called.regs.rdx = address (program symbols) .p := by
    rw [hcalled.regs]
    exact hrdx
  refine (f_runs hlibc values hcalled.pc hcalled.entered hlist' hrdx').mono ?_
  rintro next ⟨hreturned, hrax, hchain, ⟨allocated, hlogs⟩, hvisits⟩
  rw [hcalled.regs] at hchain hvisits
  exact ⟨hreturned, hrax, hchain, ⟨allocated, hlogs.of_same hcalled.calls⟩,
    hvisits.of_same hcalled.calls⟩

/-- The calls that `main` makes to print a list, from its stack pointer. -/
def printLineSites (rsp : ℤ) (values : List ℤ) : List (External × ℤ) :=
  mSites (rsp - 8) values ++ [(.puts, rsp)]

/-- The three lines of `main` that print a list and end the line. -/
def printLineCode (symbols : Symbols) : Code := [
  .instr (.call (.label .m)),
  .instr (.mov (.reg .rdi) (.imm symbols.emptyStr)),
  .instr (.call (.external .puts))]

theorem reaches_printLine (hlibc : Libc layout externals) {post : State External → Prop}
    (hcode : ((program symbols).drop state.pc).take 3 = printLineCode symbols)
    (hlist : IsList state state.regs.rdi values)
    (hrsi : state.regs.rsi = address (program symbols) .printInt)
    (hheap : HeapOffStack layout state)
    (hlow : layout.limit + (mRoom values.length + 8) ≤ state.regs.rsp)
    (htop : state.regs.rsp ≤ layout.top)
    (hrest : ∀ next, next.pc = state.pc + 3 → next.regs.rsp = state.regs.rsp →
      Frame layout state next → Logs symbols state next [] (values.map .number ++ [.newline]) →
      Visits state next (printLineSites state.regs.rsp values) →
      Reaches (program symbols) externals next post) :
    Reaches (program symbols) externals state post := by
  have hline : ∀ offset < 3,
      (program symbols)[state.pc + offset]? = (printLineCode symbols)[offset]? := by
    intro offset hoffset
    rw [← hcode, List.getElem?_take_of_lt hoffset, List.getElem?_drop]
  refine reaches_call (mRoom values.length) _ (hline 0 (by decide)) hheap
    (by unfold mRoom; omega) hlow htop (fun called hcalled ↦ m_called hlibc hcalled hlist hrsi) ?_
  rintro printed hpc hrsp hframe ⟨hlogs, hvisits⟩
  have hmov : (program symbols)[printed.pc]? =
      some (.instr (.mov (.reg .rdi) (.imm symbols.emptyStr))) := by
    rw [hpc, hline 1 (by decide)]
    rfl
  have hputs : (program symbols)[printed.pc + 1]? = some (.instr (.call (.external .puts))) := by
    rw [hpc, add_assoc, hline 2 (by decide)]
    rfl
  refine Reaches.step ((step_of_instr hmov).trans rfl) ?_
  refine reaches_external hlibc hframe.heap hputs nofun ?_
  intro next hnext hpc' hrsp' hcalls _
  refine hrest next ?_ (hrsp'.trans hrsp) ?_ ?_ ?_
  · rw [hpc']
    exact congrArg (· + 2) hpc
  · exact hframe.trans (hnext.of_alike ⟨rfl, rfl, rfl, rfl, rfl, rfl, rfl⟩) (le_of_eq hrsp)
  · refine hlogs.trans (Logs.of_calls hcalls rfl ?_)
    simp [Assembly.printed]
  · refine hvisits.trans (Visits.of_calls hcalls ?_)
    simp [site, hrsp]

theorem address_main : address (program symbols) .main = 72 := rfl

/-- The stack that `main` uses. -/
def mainRoom (length : ℕ) : ℤ := 24 * length + 64

/-- What `main` prints of a list. -/
def lines (values : List ℤ) : List Piece :=
  values.map .number ++ [.newline] ++ ((values.filter lowBit).reverse.map .number ++ [.newline])

/-- The calls that `main` makes, from the stack pointer at its entry. -/
def mainSites (rsp : ℤ) (values : List ℤ) : List (External × ℤ) :=
  loopSites (rsp - 8) values.length ++ (printLineSites (rsp - 8) values ++
    (fSites (rsp - 16) values ++ printLineSites (rsp - 8) (values.filter lowBit).reverse))

/-- The line of `main` after its loop. -/
def afterLoop (symbols : Symbols) : ℕ := address (program symbols) .addingLoop + 6

/-- `main` after its loop prints the list in `rax`, and then the odd values from the last to the
first. `caller` is the state in which `main` was called. -/
theorem afterLoop_spec (hlibc : Libc layout externals) {caller : State External}
    (hentered : Entered layout (mainRoom values.length) ret caller)
    (hpc : state.pc = afterLoop symbols)
    (hbuilt : Built layout symbols values (caller.push caller.regs.rbx) state) :
    Reaches (program symbols) externals state fun next ↦
      Returned layout ret caller next ∧ next.regs.rax = 0 ∧
        (∃ allocated, Logs symbols state next allocated (lines values)) ∧
        Visits state next (printLineSites (caller.regs.rsp - 8) values ++
          (fSites (caller.regs.rsp - 16) values ++
            printLineSites (caller.regs.rsp - 8) (values.filter lowBit).reverse)) := by
  have hroom := hentered.low
  have hhigh := hentered.high
  rw [mainRoom] at hroom
  rw [afterLoop, address_addingLoop] at hpc
  have hrsp : state.regs.rsp = caller.regs.rsp - 8 := hbuilt.rsp
  have hpush := Keeps.push hentered.heap (by omega) (by omega) caller.regs.rbx
  have hkeeps : Keeps layout caller state := hpush.trans hbuilt.keeps
  apply Reaches.lines [.instr (.mov (.reg .rbx) (.reg .rax)), .instr (.mov (.reg .rdi) (.reg .rax)),
    .instr (.mov (.reg .rsi) (.label .printInt))] (by rw [hpc]; rfl) (by simp [hpc]; rfl)
  refine reaches_printLine hlibc rfl (hbuilt.list.of_same rfl rfl) rfl hbuilt.heap
    (show _ ≤ state.regs.rsp by rw [hrsp, mRoom]; omega) (show state.regs.rsp ≤ _ by omega) ?_
  intro printed hpc2 hrsp2 hframe2 hlogs2 hvisits2
  dsimp only at hpc2 hrsp2 hvisits2
  have hrbx : printed.regs.rbx = state.regs.rax := hframe2.rbx
  apply Reaches.lines [.instr (.mov (.reg .rdx) (.label .p)), .instr (.xor .rsi (.reg .rsi)),
    .instr (.mov (.reg .rdi) (.reg .rbx))] (by rw [hpc2]; rfl) (by simp [hpc2, hrbx]; rfl)
  have hlist : IsList printed state.regs.rax values := hframe2.isList (hbuilt.list.of_same rfl rfl)
  refine reaches_call (fRoom values.length) _ rfl hframe2.heap (by unfold fRoom; omega)
    (show _ ≤ printed.regs.rsp by rw [hrsp2, hrsp, fRoom]; omega)
    (show printed.regs.rsp ≤ _ by omega)
    (fun called hcalled ↦ f_called hlibc hcalled (hlist.of_same rfl rfl) rfl) ?_
  rintro filtered hpc3 hrsp3 hframe3 ⟨hrax3, hchain3, ⟨allocated3, hlogs3⟩, hvisits3⟩
  dsimp only at hpc3 hrsp3 hchain3 hvisits3
  rw [Library.Machine.xor_self] at hchain3
  have hlist3 := isList_iff_chain.mpr hchain3
  apply Reaches.lines [.instr (.mov (.reg .rdi) (.reg .rax)),
    .instr (.mov (.reg .rsi) (.label .printInt))] (by rw [hpc3]; rfl) (by simp [hpc3, hrax3]; rfl)
  have hshort : (values.filter lowBit).reverse.length ≤ values.length := by
    rw [List.length_reverse]
    exact List.length_filter_le _ _
  refine reaches_printLine hlibc rfl (hlist3.of_same rfl rfl) rfl hframe3.heap
    (show _ ≤ filtered.regs.rsp by rw [hrsp3, hrsp2, hrsp, mRoom]; omega)
    (show filtered.regs.rsp ≤ _ by omega) ?_
  intro last hpc4 hrsp4 hframe4 hlogs4 hvisits4
  dsimp only at hpc4 hrsp4 hvisits4
  have hprinted : Keeps layout state printed := hframe2.keeps (le_of_eq hrsp2)
  have hfiltered : Keeps layout printed filtered := hframe3.keeps (le_of_eq hrsp3)
  have hlast : Keeps layout filtered last := hframe4.keeps (le_of_eq hrsp4)
  have hkept : Keeps layout state last := hprinted.trans (hfiltered.trans hlast)
  have hkept' : Keeps layout caller last := hkeeps.trans hkept
  have hsaved : last.memory (caller.regs.rsp - 8) = some caller.regs.rbx :=
    ((hbuilt.keeps.trans hkept).2.2 (caller.regs.rsp - 8)
      (Or.inl ⟨le_refl _, by omega⟩)).trans (store_self _ _ _)
  have hrsp' : last.regs.rsp = caller.regs.rsp - 8 := by rw [hrsp4, hrsp3, hrsp2, hrsp]
  apply Reaches.lines [.instr (.pop .rbx), .instr (.xor .rax (.reg .rax))] (by rw [hpc4]; rfl)
    (by simp [hpc4, hrsp', hsaved]; rfl)
  have hstack : Owned layout caller caller.regs.rsp := Or.inl ⟨le_refl _, hhigh⟩
  refine Reaches.ret rfl ((hkept'.2.2 _ hstack).trans hentered.ret) (Reaches.here ?_)
  have hentry : caller.regs.rsp - 8 - 8 = caller.regs.rsp - 16 := by omega
  rw [hrsp] at hvisits2
  rw [hrsp2, hrsp, hentry] at hvisits3
  rw [hrsp3, hrsp2, hrsp] at hvisits4
  refine ⟨⟨rfl, rfl, rfl, ?_, ?_, ?_, hframe4.heap, hkept'.2.1, hkept'.2.2⟩, xor_self _,
    ⟨[] ++ (allocated3 ++ []), hlogs2.trans (hlogs3.trans hlogs4)⟩,
    hvisits2.trans (hvisits3.trans hvisits4)⟩
  · exact hframe4.rbp.trans (hframe3.rbp.trans (hframe2.rbp.trans hbuilt.rbp))
  · exact hframe4.r13.trans (hframe3.r13.trans (hframe2.r13.trans hbuilt.r13))
  · exact hframe4.r14.trans (hframe3.r14.trans (hframe2.r14.trans hbuilt.r14))

/-- `main` prints the values, and then the odd ones from the last to the first. -/
theorem main_spec (hlibc : Libc layout externals) (hvalues : values ≠ [])
    (hdata : DataSection symbols layout values state)
    (hpc : state.pc = address (program symbols) .main)
    (hentered : Entered layout (mainRoom values.length) ret state) :
    Reaches (program symbols) externals state fun next ↦
      Returned layout ret state next ∧ next.regs.rax = 0 ∧
        (∃ allocated, Logs symbols state next allocated (lines values)) ∧
        Visits state next (mainSites state.regs.rsp values) := by
  have hroom := hentered.low
  have hhigh := hentered.high
  rw [mainRoom] at hroom
  rw [address_main] at hpc
  apply Reaches.lines ((mainCode symbols).take 4) (by rw [hpc]; rfl)
    (by simp [mainCode, hpc]; rfl)
  have hpush := Keeps.push hentered.heap (by omega) (by omega) state.regs.rbx
  obtain ⟨index, hindex⟩ : ∃ index, values.length = index + 1 :=
    Nat.exists_eq_succ_of_ne_zero (List.length_eq_zero_iff.not.mpr hvalues)
  have hlast : index < values.length := by omega
  have hcount : (symbols.dataLength : ℤ) = index + 1 := by
    rw [hdata.length, hindex]
    rfl
  have hempty : values.drop (index + 1) = [] := List.drop_eq_nil_of_le (le_of_eq hindex)
  refine Reaches.trans (addingLoop_spec hlibc hlast (hdata.keeps ?_) rfl hcount hentered.heap
    (show _ ≤ state.regs.rsp - 8 by omega) (show state.regs.rsp - 8 ≤ _ by omega) ?_) ?_
  · exact hpush
  · rw [hempty]
    exact xor_self _
  rintro built ⟨hpc', hbuilt, hvisits⟩
  rw [← hindex] at hvisits
  have hbuilt' : Built layout symbols values (state.push state.regs.rbx) built :=
    ⟨hbuilt.rsp, hbuilt.rbp, hbuilt.r13, hbuilt.r14, hbuilt.heap, hbuilt.keeps, hbuilt.list,
      hbuilt.logs⟩
  refine (afterLoop_spec hlibc hentered hpc' hbuilt').mono ?_
  rintro next ⟨hreturned, hrax, ⟨allocated, hlogs⟩, hvisits'⟩
  obtain ⟨before, hbefore⟩ := hbuilt'.logs
  exact ⟨hreturned, hrax, ⟨before ++ allocated, hbefore.trans hlogs⟩, hvisits.trans hvisits'⟩

end Main

end Homework.Assembly
