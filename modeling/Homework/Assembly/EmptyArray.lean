import Homework.Assembly.Main

/-!
# The empty array

Where the array holds no value, the counter of the loop of `main` starts at zero. It is tested after
the decrement only, so the loop never ends: it adds nodes of what is in front of the array as long
as that can be read, and `main` prints nothing (`output_of_leads`).
-/

set_option autoImplicit false
set_option relaxedAutoImplicit false

namespace Homework.Assembly

open Homework.Library.Machine

attribute [local simp] runLines State.execute Instr.isJump State.next State.push State.value
  State.write State.set State.result Registers.get Registers.set

variable {symbols : Symbols} {layout : Layout} {externals : Externals External} {ret : ℤ}
  {caller state next last : State External}

/-- `main` in its loop on an array without values, behind the label. The counter is zero or less,
so that it is not zero after the decrement. -/
structure Looping (layout : Layout) (symbols : Symbols) (caller state : State External) :
    Prop where
  pc : state.pc = 77
  rbx : state.regs.rbx ≤ 0
  rsp : state.regs.rsp = caller.regs.rsp - 8
  heap : HeapOffStack layout state
  logs : ∃ allocated, Logs symbols caller state allocated []
  visits : ∃ rounds, Visits caller state (loopSites (caller.regs.rsp - 8) rounds)

theorem Visits.loop_succ {rsp : ℤ} {rounds : ℕ}
    (hfirst : Visits caller state (loopSites rsp rounds))
    (hsecond : Visits state next (addElementSites (rsp - 8))) :
    Visits caller next (loopSites rsp (rounds + 1)) := by
  have hcomm : loopSites rsp rounds ++ addElementSites (rsp - 8) = loopSites rsp (rounds + 1) := by
    clear hfirst hsecond
    induction rounds with
    | zero => rfl
    | succ rounds ih => rw [loopSites, List.append_assoc, ih, ← loopSites]
  rw [← hcomm]
  exact hfirst.trans hsecond

/-- Without values the loop goes on, as long as it finds something to read. -/
theorem Looping.again (hlibc : Libc layout externals)
    (hentered : Entered layout (mainRoom 0) ret caller)
    (hlooping : Looping layout symbols caller state)
    (hstep : state.step (program symbols) externals = some next) :
    Reaches (program symbols) externals next (Looping layout symbols caller) := by
  have hroom := hentered.low
  have hhigh := hentered.high
  rw [mainRoom] at hroom
  have hpc := hlooping.pc
  have hrbx := hlooping.rbx
  have hrsp := hlooping.rsp
  have hline : (program symbols)[state.pc]? =
      some (.instr (.mov (.reg .rdi) (.scaled .rbx 8 (symbols.data - 8)))) := by
    rw [hpc]
    rfl
  rw [step_of_instr hline] at hstep
  obtain ⟨value, -, hwrite⟩ := Option.bind_eq_some_iff.mp hstep
  obtain rfl := Option.some.inj hwrite
  apply Reaches.lines [.instr (.mov (.reg .rsi) (.reg .rax))]
    (by change ((program symbols).drop (state.pc + 1)).take 1 = _; rw [hpc]; rfl)
    (by simp [hpc]; rfl)
  refine Reaches.trans (addingLoop_call hlibc rfl hlooping.heap
    (show _ ≤ state.regs.rsp by omega) (show state.regs.rsp ≤ _ by omega)) ?_
  intro added hadded
  have hcount : added.regs.rbx = state.regs.rbx - 1 := hadded.rbx
  have hzero : added.zf = false :=
    hadded.zf.trans (beq_false_of_ne (show state.regs.rbx - 1 ≠ 0 by omega))
  refine Reaches.jnzTaken (by rw [hadded.pc]; rfl) hzero ?_
  apply Reaches.lines [.label .addingLoop] rfl rfl
  obtain ⟨allocated, hlogs⟩ := hlooping.logs
  obtain ⟨rounds, hvisits⟩ := hlooping.visits
  have hadds : ∃ block, Logs symbols state added block [] := hadded.logs
  have hround : Visits state added (addElementSites (caller.regs.rsp - 8 - 8)) := by
    have hadd := hadded.visits
    rw [show (_ : ℤ) = caller.regs.rsp - 8 from hrsp] at hadd
    exact hadd
  obtain ⟨block, hblock⟩ := hadds
  exact Reaches.here {
    pc := rfl
    rbx := show added.regs.rbx ≤ 0 by omega
    rsp := hadded.rsp.trans hrsp
    heap := hadded.heap
    logs := ⟨_, hlogs.trans hblock⟩
    visits := ⟨rounds + 1, hvisits.loop_succ hround⟩ }

theorem reaches_looping (hdata : DataSection symbols layout [] state)
    (hpc : state.pc = address (program symbols) .main)
    (hentered : Entered layout (mainRoom 0) ret state) :
    Reaches (program symbols) externals state (Looping layout symbols state) := by
  have hcount : (symbols.dataLength : ℤ) = 0 := congrArg Nat.cast hdata.length
  rw [address_main] at hpc
  apply Reaches.lines ((mainCode symbols).take 5) (by rw [hpc]; rfl) (by simp [mainCode, hpc]; rfl)
  exact Reaches.here {
    pc := rfl
    rbx := hcount.le
    rsp := rfl
    heap := hentered.heap
    logs := ⟨[], Logs.of_calls (List.append_nil _).symm rfl rfl⟩
    visits := ⟨0, (List.append_nil _).symm⟩ }

/-- Without values the loop is ahead of `main` all the time. -/
theorem looping_of_leads (hlibc : Libc layout externals)
    (hdata : DataSection symbols layout [] state)
    (hpc : state.pc = address (program symbols) .main)
    (hentered : Entered layout (mainRoom 0) ret state)
    (hleads : Leads (program symbols) externals state last) :
    Reaches (program symbols) externals last (Looping layout symbols state) :=
  Reaches.ahead (fun _ _ hlooping hstep ↦ hlooping.again hlibc hentered hstep)
    (reaches_looping hdata hpc hentered) hleads

/-- Without values `main` prints nothing. -/
theorem output_of_leads (hlibc : Libc layout externals)
    (hdata : DataSection symbols layout [] state)
    (hpc : state.pc = address (program symbols) .main)
    (hentered : Entered layout (mainRoom 0) ret state)
    (hleads : Leads (program symbols) externals state last) :
    output symbols last = output symbols state := by
  obtain ⟨goal, hgoal, hlooping⟩ := looping_of_leads hlibc hdata hpc hentered hleads
  obtain ⟨allocated, -, houtput⟩ := hlooping.logs
  have hbefore : output symbols state <+: output symbols last := hleads.isPrefix_calls.filterMap _
  have hafter : output symbols last <+: output symbols goal :=
    (Leads.isPrefix_calls hgoal).filterMap _
  rw [houtput, List.append_nil] at hafter
  exact hafter.eq_of_length_le hbefore.length_le

end Homework.Assembly
