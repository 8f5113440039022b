import Homework.Assembly.Routines

/-!
# The recursive routines

`m` and `f` go through a list, one call deeper at each node. By induction on the list they keep what
their callers rely on, use stack in proportion to the length of the list (`mRoom`, `fRoom`), and
come back with the values printed or filtered. The list may lie anywhere in the owned cells, and
what `f` is given to put the values in front of is not looked at (`m_runs`, `f_runs`); on lists that
the program has built the result is a list again (`m_spec`, `f_spec`).
-/

set_option autoImplicit false
set_option relaxedAutoImplicit false

namespace Homework.Assembly

open Homework.Library.Machine

attribute [local simp] runLines State.execute Instr.isJump State.next State.push State.value
  State.write State.set State.result Registers.get Registers.set

section Traversals

variable {symbols : Symbols} {layout : Layout} {externals : Externals External} {ret : ℤ}
  {state : State External}

theorem address_m : address (program symbols) .m = 38 := rfl

/-- The stack that `m` uses on a list. -/
def mRoom (length : ℕ) : ℤ := 16 * length + 48

/-- What `m` does when it is called with `print_int` on a list. -/
def MSpec (symbols : Symbols) (layout : Layout) (externals : Externals External)
    (values : List ℤ) : Prop :=
  ∀ {ret : ℤ} {state : State External},
    state.pc = address (program symbols) .m →
    Entered layout (mRoom values.length) ret state →
    IsList state state.regs.rdi values →
    state.regs.rsi = address (program symbols) .printInt →
    Reaches (program symbols) externals state fun next ↦
      Returned layout ret state next ∧ next.regs.rsi = state.regs.rsi ∧
        Logs symbols state next [] (values.map .number)

/-- The calls that `m` makes on a list, from the stack pointer at its entry. -/
def mSites (rsp : ℤ) : List ℤ → List (External × ℤ)
  | [] => []
  | _ :: rest => printIntSites (rsp - 16) ++ mSites (rsp - 16) rest

/-- What `m` does when it is called with `print_int` on a list in any owned cells. -/
def MRuns (symbols : Symbols) (layout : Layout) (externals : Externals External)
    (values : List ℤ) : Prop :=
  ∀ {ret : ℤ} {state : State External},
    state.pc = address (program symbols) .m →
    Entered layout (mRoom values.length) ret state →
    Linked layout state state.regs.rdi values →
    state.regs.rsi = address (program symbols) .printInt →
    Reaches (program symbols) externals state fun next ↦
      Returned layout ret state next ∧ next.regs.rsi = state.regs.rsi ∧
        Logs symbols state next [] (values.map .number) ∧
        Visits state next (mSites state.regs.rsp values)

/-- `m` behind its call of `print_int`. `caller` is the state in which `m` was called. -/
structure Printed (layout : Layout) (symbols : Symbols) (caller state : State External)
    (value : ℤ) : Prop where
  pc : state.pc = 45
  rsp : state.regs.rsp = caller.regs.rsp - 8
  rbx : state.regs.rbx = caller.regs.rdi
  rsi : state.regs.rsi = caller.regs.rsi
  rbp : state.regs.rbp = caller.regs.rbp
  r13 : state.regs.r13 = caller.regs.r13
  r14 : state.regs.r14 = caller.regs.r14
  heap : HeapOffStack layout state
  keeps : Keeps layout caller state
  saved_rbx : state.memory (caller.regs.rsp - 8) = some caller.regs.rbx
  logs : Logs symbols caller state [] [.number value]

/-- The start of `m` on a node: its value is printed. -/
theorem m_head (hlibc : Libc layout externals) {value : ℤ} {rest : List ℤ}
    (hpc : state.pc = address (program symbols) .m)
    (hentered : Entered layout (mRoom (rest.length + 1)) ret state)
    (hlist : Linked layout state state.regs.rdi (value :: rest))
    (hrsi : state.regs.rsi = address (program symbols) .printInt) :
    Reaches (program symbols) externals state fun next ↦
      Printed layout symbols state next value ∧
        Visits state next (printIntSites (state.regs.rsp - 16)) := by
  have hroom := hentered.low
  have hhigh := hentered.high
  rw [mRoom, Nat.cast_succ] at hroom
  obtain ⟨hne, howned, -, hvalue, -⟩ := hlist
  rw [address_m] at hpc
  have hpush := Keeps.push hentered.heap (by omega) (by omega) state.regs.rbx
  have hload : store state.memory (state.regs.rsp - 8) state.regs.rbx state.regs.rdi =
      some value := (hpush.2.2 _ howned).trans hvalue
  apply Reaches.lines (mCode.take 2) (by rw [hpc]; rfl) (by simp [mCode, hpc]; rfl)
  refine Reaches.jzPassed rfl ?_ ?_
  · rw [land_self]
    exact beq_false_of_ne hne
  apply Reaches.lines [.instr (.push .rbx), .instr (.mov (.reg .rbx) (.reg .rdi)),
    .instr (.mov (.reg .rdi) (.cell .rdi 0))] rfl (by simp [hload]; rfl)
  refine reaches_callReg 32 _ rfl (fun _ ↦ hrsi) hentered.heap (by decide)
    (show _ ≤ state.regs.rsp - 8 by omega) (show state.regs.rsp - 8 ≤ _ by omega)
    (fun called hcalled ↦ printInt_called hlibc hcalled) ?_
  rintro printed hpc' hrsp hframe ⟨hrsi', hlogs, hvisits⟩
  dsimp only at hpc' hrsp hrsi' hlogs hvisits
  have hkeeps : Keeps layout state printed := by
    refine Keeps.trans ?_ (hframe.keeps (le_of_eq hrsp))
    exact hpush
  rw [sub_sub] at hvisits
  refine Reaches.here ⟨?_, hvisits⟩
  exact {
    pc := hpc'
    rsp := hrsp
    rbx := hframe.rbx
    rsi := hrsi'
    rbp := hframe.rbp
    r13 := hframe.r13
    r14 := hframe.r14
    heap := hframe.heap
    keeps := hkeeps
    saved_rbx := (hframe.memory (state.regs.rsp - 8) (Or.inl ⟨le_refl _, by omega⟩)).trans
      (store_self _ _ _)
    logs := hlogs }

/-- The end of `m` on a node: the rest of the list is printed. -/
theorem m_tail {caller : State External} {value : ℤ} {rest : List ℤ}
    (hrecursion : MRuns symbols layout externals rest)
    (hentered : Entered layout (mRoom (rest.length + 1)) ret caller)
    (hlist : Linked layout caller caller.regs.rdi (value :: rest))
    (hrsi : caller.regs.rsi = address (program symbols) .printInt)
    (hprinted : Printed layout symbols caller state value)
    (hvisits : Visits caller state (printIntSites (caller.regs.rsp - 16))) :
    Reaches (program symbols) externals state fun next ↦
      Returned layout ret caller next ∧ next.regs.rsi = caller.regs.rsi ∧
        Logs symbols caller next [] ((value :: rest).map .number) ∧
        Visits caller next (mSites caller.regs.rsp (value :: rest)) := by
  have hroom := hentered.low
  have hhigh := hentered.high
  rw [mRoom, Nat.cast_succ] at hroom
  have hpc := hprinted.pc
  have hrsp := hprinted.rsp
  have hrbx := hprinted.rbx
  obtain ⟨-, -, howned, -, prev, hprev, hrest⟩ := hlist
  have hload : state.memory (caller.regs.rdi + 8) = some prev :=
    (hprinted.keeps.2.2 _ howned).trans hprev
  apply Reaches.lines [.instr (.mov (.reg .rdi) (.cell .rbx 8))] (by rw [hpc]; rfl)
    (by simp [hpc, hrbx, hload]; rfl)
  refine reaches_call (mRoom rest.length)
    (fun next ↦ next.regs.rsi = caller.regs.rsi ∧
      Logs symbols state next [] (rest.map .number) ∧
      Visits state next (mSites (caller.regs.rsp - 16) rest))
    rfl hprinted.heap (by unfold mRoom; omega)
    (show _ ≤ state.regs.rsp by rw [hrsp, mRoom]; omega)
    (show state.regs.rsp ≤ _ by omega) ?_ ?_
  · intro called hcalled
    have hkeeps : Keeps layout state called := hcalled.keeps
    have hlist' : Linked layout called called.regs.rdi rest := by
      rw [hcalled.regs]
      exact (hprinted.keeps.trans hkeeps).linked hrest
    have hrsi' : called.regs.rsi = caller.regs.rsi := by
      rw [hcalled.regs]
      exact hprinted.rsi
    have hrsp' : called.regs.rsp = caller.regs.rsp - 16 := by
      rw [hcalled.regs]
      change state.regs.rsp - 8 = _
      omega
    refine (hrecursion hcalled.pc hcalled.entered hlist' (hrsi'.trans hrsi)).mono ?_
    rintro next ⟨hreturned, hsame, hlogs, hvisits'⟩
    rw [hrsp'] at hvisits'
    exact ⟨hreturned, hsame.trans hrsi', hlogs.of_same hcalled.calls,
      hvisits'.of_same hcalled.calls⟩
  rintro last hpc' hrsp' hframe ⟨hsame, hlogs, hvisits'⟩
  dsimp only at hpc' hrsp'
  have hsaved : last.memory (caller.regs.rsp - 8) = some caller.regs.rbx :=
    (hframe.memory _ (Or.inl ⟨le_of_eq hrsp, by omega⟩)).trans hprinted.saved_rbx
  have hkeeps : Keeps layout caller last := by
    refine Keeps.trans ?_ (hframe.keeps (le_of_eq hrsp'))
    exact hprinted.keeps
  apply Reaches.lines [.instr (.pop .rbx), .label .outm] (by rw [hpc']; rfl)
    (by simp [hpc', hrsp', hrsp, hsaved]; rfl)
  have hstack : Owned layout caller caller.regs.rsp := Or.inl ⟨le_refl _, hhigh⟩
  refine Reaches.ret rfl ((hkeeps.2.2 _ hstack).trans hentered.ret) (Reaches.here ?_)
  exact ⟨⟨rfl, rfl, rfl, hframe.rbp.trans hprinted.rbp, hframe.r13.trans hprinted.r13,
    hframe.r14.trans hprinted.r14, hframe.heap, hkeeps.2.1, hkeeps.2.2⟩, hsame,
    hprinted.logs.trans hlogs, hvisits.trans hvisits'⟩

/-- `m`, called with `print_int`, prints the values of a list. -/
theorem m_runs (hlibc : Libc layout externals) (values : List ℤ) :
    MRuns symbols layout externals values := by
  induction values with
  | nil =>
    intro ret state hpc hentered hlist hrsi
    rw [address_m] at hpc
    apply Reaches.lines (mCode.take 2) (by rw [hpc]; rfl) (by simp [mCode, hpc]; rfl)
    refine Reaches.jzTaken rfl ?_ ?_
    · rw [land_self]
      exact beq_iff_eq.mpr hlist
    apply Reaches.lines [.label .outm] rfl (by simp; rfl)
    refine Reaches.ret rfl hentered.ret (Reaches.here ?_)
    refine ⟨⟨rfl, rfl, ?_⟩, rfl, Logs.of_calls (List.append_nil _).symm rfl rfl,
      Visits.of_calls (List.append_nil _).symm rfl⟩
    exact ⟨rfl, rfl, rfl, rfl, hentered.heap, List.Subset.refl _, fun _ _ ↦ rfl⟩
  | cons value rest ih =>
    intro ret state hpc hentered hlist hrsi
    refine (m_head hlibc hpc hentered hlist hrsi).trans ?_
    rintro printed ⟨hprinted, hvisits⟩
    exact m_tail ih hentered hlist hrsi hprinted hvisits

theorem m_spec (hlibc : Libc layout externals) (values : List ℤ) :
    MSpec symbols layout externals values := by
  intro ret state hpc hentered hlist hrsi
  refine (m_runs hlibc values hpc hentered hlist.linked hrsi).mono ?_
  rintro next ⟨hreturned, hsame, hlogs, -⟩
  exact ⟨hreturned, hsame, hlogs⟩

theorem address_f : address (program symbols) .f = 50 := rfl

/-- The stack that `f` uses on a list. -/
def fRoom (length : ℕ) : ℤ := 24 * length + 40

/-- The test of `p`. -/
def lowBit (value : ℤ) : Bool := Int.land value 1 != 0

/-- The return of `f`: the result is in both registers. -/
def Filtered (symbols : Symbols) (state : State External) (values : List ℤ)
    (next : State External) : Prop :=
  next.regs.rax = next.regs.rsi ∧ IsList next next.regs.rsi values ∧
    ∃ allocated, Logs symbols state next allocated []

/-- What `f` does when it is called with `p` on a list and an accumulated list. -/
def FSpec (symbols : Symbols) (layout : Layout) (externals : Externals External)
    (values : List ℤ) : Prop :=
  ∀ {ret : ℤ} {state : State External} {accumulated : List ℤ},
    state.pc = address (program symbols) .f →
    Entered layout (fRoom values.length) ret state →
    IsList state state.regs.rdi values → IsList state state.regs.rsi accumulated →
    state.regs.rdx = address (program symbols) .p →
    Reaches (program symbols) externals state fun next ↦
      Returned layout ret state next ∧
        Filtered symbols state ((values.filter lowBit).reverse ++ accumulated) next

/-- The calls that `f` makes on a list, from the stack pointer at its entry. -/
def fSites (rsp : ℤ) : List ℤ → List (External × ℤ)
  | [] => []
  | value :: rest =>
    (if lowBit value then addElementSites (rsp - 24) else []) ++ fSites (rsp - 24) rest

/-- The return of `f`: some values have been put in front of what it was given in `rsi`. -/
structure FilteredOnto (symbols : Symbols) (state : State External) (values : List ℤ)
    (sites : List (External × ℤ)) (next : State External) : Prop where
  rax : next.regs.rax = next.regs.rsi
  chain : Chain next next.regs.rsi values state.regs.rsi
  logs : ∃ allocated, Logs symbols state next allocated []
  visits : Visits state next sites

/-- What `f` does when it is called with `p` on a list in any owned cells. -/
def FRuns (symbols : Symbols) (layout : Layout) (externals : Externals External)
    (values : List ℤ) : Prop :=
  ∀ {ret : ℤ} {state : State External},
    state.pc = address (program symbols) .f →
    Entered layout (fRoom values.length) ret state →
    Linked layout state state.regs.rdi values →
    state.regs.rdx = address (program symbols) .p →
    Reaches (program symbols) externals state fun next ↦
      Returned layout ret state next ∧
        FilteredOnto symbols state (values.filter lowBit).reverse (fSites state.regs.rsp values)
          next

/-- `f` at the label `ff`, when a node has been dealt with. `caller` is the state in which `f` was
called. -/
structure Joined (layout : Layout) (symbols : Symbols) (caller state : State External) : Prop where
  pc : state.pc = address (program symbols) .ff
  rsp : state.regs.rsp = caller.regs.rsp - 8 - 8
  rbx : state.regs.rbx = caller.regs.rdi
  r13 : state.regs.r13 = caller.regs.rdx
  rbp : state.regs.rbp = caller.regs.rbp
  r14 : state.regs.r14 = caller.regs.r14
  heap : HeapOffStack layout state
  keeps : Keeps layout caller state
  saved_rbx : state.memory (caller.regs.rsp - 8) = some caller.regs.rbx
  saved_r13 : state.memory (caller.regs.rsp - 8 - 8) = some caller.regs.r13
  logs : ∃ allocated, Logs symbols caller state allocated []

theorem address_ff : address (program symbols) .ff = 63 := rfl

/-- The end of `f`, from the label `ff` on. -/
theorem f_tail {caller : State External} {value : ℤ} {rest front : List ℤ}
    {sites : List (External × ℤ)} (hrecursion : FRuns symbols layout externals rest)
    (hentered : Entered layout (fRoom (rest.length + 1)) ret caller)
    (hlist : Linked layout caller caller.regs.rdi (value :: rest))
    (hrdx : caller.regs.rdx = address (program symbols) .p)
    (hjoined : Joined layout symbols caller state)
    (hchain : Chain state state.regs.rsi front caller.regs.rsi)
    (hvisits : Visits caller state sites) :
    Reaches (program symbols) externals state fun next ↦
      Returned layout ret caller next ∧
        FilteredOnto symbols caller ((rest.filter lowBit).reverse ++ front)
          (sites ++ fSites (caller.regs.rsp - 24) rest) next := by
  have hroom := hentered.low
  have hhigh := hentered.high
  rw [fRoom, Nat.cast_succ] at hroom
  have hpc := hjoined.pc
  have hrsp := hjoined.rsp
  have hrbx := hjoined.rbx
  have hr13 := hjoined.r13
  obtain ⟨-, -, howned, -, prev, hprev, hrest⟩ := hlist
  rw [address_ff] at hpc
  have hload : state.memory (caller.regs.rdi + 8) = some prev :=
    (hjoined.keeps.2.2 _ howned).trans hprev
  apply Reaches.lines [.label .ff, .instr (.mov (.reg .rdi) (.cell .rbx 8)),
    .instr (.mov (.reg .rdx) (.reg .r13))] (by rw [hpc]; rfl)
    (by simp [hpc, hrbx, hr13, hload]; rfl)
  refine reaches_call (fRoom rest.length)
    (FilteredOnto symbols state (rest.filter lowBit).reverse (fSites (caller.regs.rsp - 24) rest))
    rfl hjoined.heap
    (by unfold fRoom; omega) (show _ ≤ state.regs.rsp by rw [hrsp, fRoom]; omega)
    (show state.regs.rsp ≤ _ by omega) ?_ ?_
  · intro called hcalled
    have hkeeps : Keeps layout state called := hcalled.keeps
    have hlist : Linked layout called called.regs.rdi rest := by
      rw [hcalled.regs]
      exact (hjoined.keeps.trans hkeeps).linked hrest
    have hrdx' : called.regs.rdx = address (program symbols) .p := by
      rw [hcalled.regs]
      exact hrdx
    have hrsp' : called.regs.rsp = caller.regs.rsp - 24 := by
      rw [hcalled.regs]
      change state.regs.rsp - 8 = _
      omega
    have hrsi : called.regs.rsi = state.regs.rsi := by rw [hcalled.regs]
    refine (hrecursion hcalled.pc hcalled.entered hlist hrdx').mono ?_
    rintro next ⟨hreturned, hrax, hfiltered, ⟨allocated, hlogs⟩, hvisits'⟩
    rw [hrsp'] at hvisits'
    rw [hrsi] at hfiltered
    exact ⟨hreturned, hrax, hfiltered, ⟨allocated, hlogs.of_same hcalled.calls⟩,
      hvisits'.of_same hcalled.calls⟩
  rintro last hpc' hrsp' hframe ⟨hrax, hfiltered, ⟨allocated, hlogs⟩, hvisits'⟩
  dsimp only at hpc' hrsp'
  have hsaved : last.memory (caller.regs.rsp - 8) = some caller.regs.rbx :=
    (hframe.memory _ (Or.inl ⟨show state.regs.rsp ≤ _ by omega, by omega⟩)).trans
      hjoined.saved_rbx
  have hsaved' : last.memory (caller.regs.rsp - 8 - 8) = some caller.regs.r13 :=
    (hframe.memory _ (Or.inl ⟨show state.regs.rsp ≤ _ by omega, by omega⟩)).trans
      hjoined.saved_r13
  have hlast : Keeps layout state last := by
    exact hframe.keeps (le_of_eq hrsp')
  have hkeeps : Keeps layout caller last := hjoined.keeps.trans hlast
  have hwhole : Chain last last.regs.rsi ((rest.filter lowBit).reverse ++ front)
      caller.regs.rsi := hfiltered.trans (hchain.mono hlast.2.1 hlast.2.2)
  apply Reaches.lines [.instr (.pop .r13), .instr (.pop .rbx), .label .outf,
    .instr (.mov (.reg .rax) (.reg .rsi))] (by rw [hpc']; rfl)
    (by simp [hpc', hrsp', hrsp, hsaved, hsaved']; rfl)
  have hstack : Owned layout caller caller.regs.rsp := Or.inl ⟨le_refl _, hhigh⟩
  refine Reaches.ret rfl ((hkeeps.2.2 _ hstack).trans hentered.ret) (Reaches.here ?_)
  obtain ⟨before, hbefore⟩ := hjoined.logs
  exact ⟨⟨rfl, rfl, rfl, hframe.rbp.trans hjoined.rbp, rfl, hframe.r14.trans hjoined.r14,
    hframe.heap, hkeeps.2.1, hkeeps.2.2⟩, rfl, hwhole.of_same rfl rfl,
    ⟨before ++ allocated, hbefore.trans hlogs⟩, hvisits.trans hvisits'⟩

theorem address_outf : address (program symbols) .outf = 69 := rfl

/-- `f` behind its call of `p`. -/
structure Tested (layout : Layout) (symbols : Symbols) (caller state : State External)
    (value : ℤ) : Prop where
  pc : state.pc = 59
  rax : state.regs.rax = Int.land value 1
  rdi : state.regs.rdi = value
  joined : Joined layout symbols caller { state with pc := address (program symbols) .ff }

/-- The start of `f` on a node, up to the return of `p`. -/
theorem f_head {value : ℤ} {rest : List ℤ}
    (hpc : state.pc = address (program symbols) .f)
    (hentered : Entered layout (fRoom (rest.length + 1)) ret state)
    (hlist : Linked layout state state.regs.rdi (value :: rest))
    (hrdx : state.regs.rdx = address (program symbols) .p) :
    Reaches (program symbols) externals state fun next ↦
      Tested layout symbols state next value ∧ next.regs.rsi = state.regs.rsi ∧
        Visits state next [] := by
  have hroom := hentered.low
  have hhigh := hentered.high
  rw [fRoom, Nat.cast_succ] at hroom
  obtain ⟨hne, howned, -, hvalue, -⟩ := hlist
  rw [address_f] at hpc
  have hpush := Keeps.push hentered.heap (by omega) (by omega) state.regs.rbx
  have hheap : HeapOffStack layout (state.push state.regs.rbx) := hentered.heap
  have hpush' := hpush.trans (Keeps.push hheap (show _ ≤ state.regs.rsp - 8 by omega)
    (show state.regs.rsp - 8 ≤ _ by omega) state.regs.r13)
  have hload : store (store state.memory (state.regs.rsp - 8) state.regs.rbx)
      (state.regs.rsp - 8 - 8) state.regs.r13 state.regs.rdi = some value :=
    (hpush'.2.2 _ howned).trans hvalue
  apply Reaches.lines (fCode.take 2) (by rw [hpc]; rfl) (by simp [fCode, hpc]; rfl)
  refine Reaches.jzPassed rfl ?_ ?_
  · rw [land_self]
    exact beq_false_of_ne hne
  apply Reaches.lines [.instr (.push .rbx), .instr (.push .r13),
    .instr (.mov (.reg .rbx) (.reg .rdi)), .instr (.mov (.reg .r13) (.reg .rdx)),
    .instr (.mov (.reg .rdi) (.cell .rdi 0))] rfl (by simp [hload]; rfl)
  refine reaches_callReg 0 _ rfl (fun _ ↦ hrdx) hentered.heap (by decide)
    (show _ ≤ state.regs.rsp - 8 - 8 by omega) (show state.regs.rsp - 8 - 8 ≤ _ by omega)
    (fun called hcalled ↦ p_called hcalled) ?_
  rintro tested hpc' hrsp hframe ⟨hrax, hrdi, hrsi, hlogs, hvisits⟩
  dsimp only at hpc' hrsp hrax hrdi hrsi hlogs
  have hkeeps : Keeps layout state tested := by
    refine Keeps.trans ?_ (hframe.keeps (le_of_eq hrsp))
    exact hpush'
  have hsaved : tested.memory (state.regs.rsp - 8) = some state.regs.rbx :=
    (hframe.memory _ (Or.inl ⟨by dsimp only; omega, by omega⟩)).trans
      ((store_of_apart _ _ _ (by unfold Apart; omega)).trans (store_self _ _ _))
  have hsaved' : tested.memory (state.regs.rsp - 8 - 8) = some state.regs.r13 :=
    (hframe.memory (state.regs.rsp - 8 - 8) (Or.inl ⟨le_refl _, by omega⟩)).trans
      (store_self _ _ _)
  refine Reaches.here ⟨⟨hpc', hrax, hrdi, ?_⟩, hrsi, hvisits⟩
  exact {
    pc := rfl
    rsp := hrsp
    rbx := hframe.rbx
    r13 := hframe.r13
    rbp := hframe.rbp
    r14 := hframe.r14
    heap := hframe.heap
    keeps := hkeeps
    saved_rbx := hsaved
    saved_r13 := hsaved'
    logs := ⟨_, hlogs⟩ }

/-- The middle of `f`: an odd value is put in front of the accumulated list. -/
theorem f_join (hlibc : Libc layout externals) {caller : State External} {length : ℕ} {value : ℤ}
    (hentered : Entered layout (fRoom (length + 1)) ret caller)
    (htested : Tested layout symbols caller state value) :
    Reaches (program symbols) externals state fun next ↦ Joined layout symbols caller next ∧
      Chain next next.regs.rsi (if lowBit value then [value] else []) state.regs.rsi ∧
      Visits state next (if lowBit value then addElementSites (caller.regs.rsp - 24) else []) := by
  have hroom := hentered.low
  have hhigh := hentered.high
  rw [fRoom, Nat.cast_succ] at hroom
  have hpc := htested.pc
  have hjoined := htested.joined
  have hrsp : state.regs.rsp = caller.regs.rsp - 8 - 8 := hjoined.rsp
  apply Reaches.lines [.instr (.test .rax .rax)] (by rw [hpc]; rfl) (by simp [hpc]; rfl)
  by_cases hodd : lowBit value = true
  · have hnonzero : Int.land value 1 ≠ 0 := bne_iff_ne.mp hodd
    refine Reaches.jzPassed rfl ?_ ?_
    · rw [land_self, htested.rax]
      exact beq_false_of_ne hnonzero
    refine reaches_call 40 _ rfl hjoined.heap (by decide)
      (show _ ≤ state.regs.rsp by omega) (show state.regs.rsp ≤ _ by omega)
      (fun called hcalled ↦ addElement_called hlibc hcalled) ?_
    rintro added hpc' hrsp' hframe ⟨hne, hvalue, hprev, hlogs, hvisits⟩
    dsimp only [State.next] at hpc' hrsp' hvalue hprev hvisits
    have hkeeps : Keeps layout state added := by
      exact hframe.keeps (le_of_eq hrsp')
    apply Reaches.lines [.instr (.mov (.reg .rsi) (.reg .rax))] (by rw [hpc']; rfl)
      (by simp [hpc']; rfl)
    have hnode : Chain added added.regs.rax [value] state.regs.rsi := by
      refine ⟨hne, ?_, by rw [hvalue, htested.rdi], state.regs.rsi, hprev, rfl⟩
      rw [hlogs.1]
      exact List.mem_append_right _ List.mem_cons_self
    have hstack : ∀ cell, caller.regs.rsp - 8 - 8 ≤ cell → cell + 8 ≤ caller.regs.rsp →
        added.memory cell = state.memory cell := fun cell hlow hcell ↦
      hframe.memory cell (Or.inl ⟨(le_of_eq hrsp).trans hlow, by omega⟩)
    obtain ⟨before, hbefore⟩ := hjoined.logs
    have hentry : state.regs.rsp - 8 = caller.regs.rsp - 24 := by omega
    rw [hentry] at hvisits
    rw [if_pos hodd, if_pos hodd]
    refine Reaches.here ⟨?_, hnode.of_same rfl rfl, hvisits⟩
    exact {
      pc := rfl
      rsp := hrsp'.trans hrsp
      rbx := hframe.rbx.trans hjoined.rbx
      r13 := hframe.r13.trans hjoined.r13
      rbp := hframe.rbp.trans hjoined.rbp
      r14 := hframe.r14.trans hjoined.r14
      heap := hframe.heap
      keeps := hjoined.keeps.trans hkeeps
      saved_rbx := (hstack _ (by omega) (by omega)).trans hjoined.saved_rbx
      saved_r13 := (hstack _ (le_refl _) (by omega)).trans hjoined.saved_r13
      logs := ⟨_, hbefore.trans hlogs⟩ }
  · have hzero : Int.land value 1 = 0 := not_not.mp fun hne ↦ hodd (bne_iff_ne.mpr hne)
    refine Reaches.jzTaken rfl ?_ ?_
    · rw [land_self, htested.rax]
      exact beq_iff_eq.mpr hzero
    rw [if_neg hodd, if_neg hodd]
    refine Reaches.here ⟨?_, rfl, (List.append_nil _).symm⟩
    exact ⟨rfl, hrsp, hjoined.rbx, hjoined.r13, hjoined.rbp, hjoined.r14, hjoined.heap,
      hjoined.keeps, hjoined.saved_rbx, hjoined.saved_r13, hjoined.logs⟩

/-- `f` puts the odd values in front of what it is given, the last one first. -/
theorem f_runs (hlibc : Libc layout externals) (values : List ℤ) :
    FRuns symbols layout externals values := by
  induction values with
  | nil =>
    intro ret state hpc hentered hlist hrdx
    rw [address_f] at hpc
    apply Reaches.lines (fCode.take 2) (by rw [hpc]; rfl) (by simp [fCode, hpc]; rfl)
    refine Reaches.jzTaken rfl ?_ ?_
    · rw [land_self]
      exact beq_iff_eq.mpr hlist
    apply Reaches.lines [.label .outf, .instr (.mov (.reg .rax) (.reg .rsi))] rfl
      (by simp [address_outf]; rfl)
    refine Reaches.ret rfl hentered.ret (Reaches.here ?_)
    refine ⟨⟨rfl, rfl, ?_⟩, rfl, rfl, ⟨[], Logs.of_calls (List.append_nil _).symm rfl rfl⟩,
      Visits.of_calls (List.append_nil _).symm rfl⟩
    exact ⟨rfl, rfl, rfl, rfl, hentered.heap, List.Subset.refl _, fun _ _ ↦ rfl⟩
  | cons value rest ih =>
    intro ret state hpc hentered hlist hrdx
    refine (f_head hpc hentered hlist hrdx).trans ?_
    rintro tested ⟨htested, hrsi, hvisits⟩
    refine (f_join hlibc hentered htested).trans ?_
    rintro joined ⟨hjoined, hchain, hvisits'⟩
    rw [hrsi] at hchain
    refine (f_tail ih hentered hlist hrdx hjoined hchain (hvisits.trans hvisits')).mono ?_
    rintro last ⟨hreturned, hfiltered⟩
    refine ⟨hreturned, ?_⟩
    have hvalues : ((value :: rest).filter lowBit).reverse =
        (rest.filter lowBit).reverse ++ if lowBit value then [value] else [] := by
      rw [List.filter_cons]
      split
      · exact List.reverse_cons
      · exact (List.append_nil _).symm
    rw [hvalues]
    exact hfiltered

/-- On lists that the program has built, the result is a list. -/
theorem f_spec (hlibc : Libc layout externals) (values : List ℤ) :
    FSpec symbols layout externals values := by
  intro ret state accumulated hpc hentered hlist haccumulated hrdx
  refine (f_runs hlibc values hpc hentered hlist.linked hrdx).mono ?_
  rintro next ⟨hreturned, hrax, hchain, hlogs, -⟩
  have hkept := isList_iff_chain.mp (hreturned.frame.isList haccumulated)
  exact ⟨hreturned, hrax, isList_iff_chain.mpr (hchain.trans hkept), hlogs⟩

end Traversals

end Homework.Assembly
