import Homework.Library.Runs
import Homework.Library.Staged
import Homework.MouseDriver.Queue

/-!
# Loading and unloading the driver

`mouse_init` acquires eight things from the kernel, one after the other, and a failure jumps to the
label that releases those acquired before. `mouse_exit` releases all eight. In between, processes
open the device, read, write and change the mode, and the timer fires. `mouse_init` is one event of
a history: nobody uses the device, which it creates on its way, before it returns.

When `register_chrdev` fails the return value of `mouse_init` is never assigned. If the value that
happens to be there is not negative, the kernel takes the module for loaded, although it holds
nothing, and unloading it removes a file that is not there. Nothing else goes wrong: a history has a
fault exactly when such a module is unloaded in it (`module_lifeCycle`). In every history without
one, a module that is loaded holds everything once and works on a queue of what was put in since it
was loaded, or holds nothing, and a module that is not loaded holds nothing.
-/

set_option autoImplicit false
set_option relaxedAutoImplicit false

namespace Homework.MouseDriver

open Homework.Library Homework.Library.Runs Homework.Library.Staged

/-! ### `mouse_init` and `mouse_exit` -/

/-- What the driver acquires from the kernel. -/
inductive Resource where
  | mouseBuffer
  | chrdev
  | mouseClass
  | mouseDevice
  | mouseCdev
  | mouseKobj
  | modeFile
  | mouseTimer
deriving DecidableEq, Repr

/-- The resources in the order of `mouse_init`. -/
def stages : List Resource :=
  [.mouseBuffer, .chrdev, .mouseClass, .mouseDevice, .mouseCdev, .mouseKobj, .modeFile, .mouseTimer]

/-- The number of an error, which the kernel gives with a minus. -/
structure Errno where
  number : ℕ
  pos : 0 < number

/-- What the calls of `mouse_init` give: whether `kmalloc` and `kobject_create_and_add` give memory,
and the errors of the others. -/
structure Answers where
  kmalloc : Bool
  registerChrdev : Option Errno
  classCreate : Option Errno
  deviceCreate : Option Errno
  cdevAdd : Option Errno
  kobjectCreateAndAdd : Bool
  sysfsCreateFile : Option Errno

/-- `-ENOMEM`. -/
def enomem : ℤ := -12

section Init

/-- What `mouse_init` gives: its return value, `none` if it was never assigned, and what is held. -/
abbrev InitResult := Except Misuse (Option ℤ × List Resource)

/-- From the label `fail_chrdev` on. -/
def failChrdev (result : Option ℤ) (held : List Resource) : InitResult := do
  let held ← release .mouseBuffer held
  return (result, held)

/-- From the label `fail_class` on. -/
def failClass (result : Option ℤ) (held : List Resource) : InitResult := do
  let held ← release .chrdev held
  failChrdev result held

/-- From the label `fail_device` on. -/
def failDevice (result : Option ℤ) (held : List Resource) : InitResult := do
  let held ← release .mouseClass held
  failClass result held

/-- From the label `fail_cdev` on. -/
def failCdev (result : Option ℤ) (held : List Resource) : InitResult := do
  let held ← release .mouseDevice held
  failDevice result held

/-- From the label `fail_kobj` on. -/
def failKobj (result : Option ℤ) (held : List Resource) : InitResult := do
  let held ← release .mouseCdev held
  failCdev result held

/-- From the label `fail_sysfs` on. -/
def failSysfs (result : Option ℤ) (held : List Resource) : InitResult := do
  let held ← release .mouseKobj held
  failKobj result held

/-- The result of a call that failed. -/
def Errno.result (error : Errno) : Option ℤ := some (-error.number)

/-- `mouse_init`. -/
def init (answers : Answers) (held : List Resource) : InitResult := do
  if !answers.kmalloc then return (some enomem, held)
  let held ← acquire .mouseBuffer held
  match answers.registerChrdev with
  | some _ => failChrdev none held
  | none =>
    let held ← acquire .chrdev held
    match answers.classCreate with
    | some error => failClass error.result held
    | none =>
      let held ← acquire .mouseClass held
      match answers.deviceCreate with
      | some error => failDevice error.result held
      | none =>
        let held ← acquire .mouseDevice held
        match answers.cdevAdd with
        | some error => failCdev error.result held
        | none =>
          let held ← acquire .mouseCdev held
          if !answers.kobjectCreateAndAdd then failKobj (some enomem) held
          else
            let held ← acquire .mouseKobj held
            match answers.sysfsCreateFile with
            | some error => failSysfs error.result held
            | none =>
              let held ← acquire .modeFile held
              let held ← acquire .mouseTimer held
              return (some 0, held)

/-- `mouse_exit`. To delete a timer that is not armed does nothing. -/
def mouseExit (held : List Resource) : Except Misuse (List Resource) :=
  releaseAll [.modeFile, .mouseKobj, .mouseCdev, .mouseDevice, .mouseClass, .chrdev, .mouseBuffer]
    (held.erase .mouseTimer)

/-- Whether the kernel grants a resource. -/
def Answers.granted (answers : Answers) : Resource → Bool
  | .mouseBuffer => answers.kmalloc
  | .chrdev => answers.registerChrdev.isNone
  | .mouseClass => answers.classCreate.isNone
  | .mouseDevice => answers.deviceCreate.isNone
  | .mouseCdev => answers.cdevAdd.isNone
  | .mouseKobj => answers.kobjectCreateAndAdd
  | .modeFile => answers.sysfsCreateFile.isNone
  | .mouseTimer => true

/-- The return value, given by the first call that failed. -/
def Answers.result (answers : Answers) : Option ℤ :=
  if !answers.kmalloc then some enomem
  else if answers.registerChrdev.isSome then none
  else match answers.classCreate, answers.deviceCreate, answers.cdevAdd with
    | some error, _, _ => error.result
    | none, some error, _ => error.result
    | none, none, some error => error.result
    | none, none, none =>
      if !answers.kobjectCreateAndAdd then some enomem
      else (answers.sysfsCreateFile.map Errno.result).getD (some 0)

/-- The return value is an error exactly when something was refused, if it was assigned. -/
theorem Answers.result_cases (answers : Answers) :
    stages.all answers.granted = true ∧ answers.result = some 0 ∨
      stages.all answers.granted = false ∧ ∀ value ∈ answers.result, value < 0 := by
  have herror (error : Errno) : ∀ value ∈ error.result, value < 0 := by
    rintro value ⟨⟩
    have hpos := error.pos
    omega
  obtain ⟨kmalloc, registerChrdev, classCreate, deviceCreate, cdevAdd, kobject, sysfs⟩ := answers
  rcases kmalloc with _ | _
  · exact Or.inr ⟨rfl, by rintro value ⟨⟩; decide⟩
  rcases registerChrdev with _ | error
  · rcases classCreate with _ | error
    · rcases deviceCreate with _ | error
      · rcases cdevAdd with _ | error
        · rcases kobject with _ | _
          · exact Or.inr ⟨rfl, by rintro value ⟨⟩; decide⟩
          · rcases sysfs with _ | error
            · exact Or.inl ⟨rfl, rfl⟩
            · exact Or.inr ⟨rfl, herror error⟩
        · exact Or.inr ⟨rfl, herror error⟩
      · exact Or.inr ⟨rfl, herror error⟩
    · exact Or.inr ⟨rfl, herror error⟩
  · exact Or.inr ⟨rfl, nofun⟩

theorem map_bind_eq {A B C : Type} (first : Except Misuse A) (second : A → Except Misuse B)
    (f : B → C) : Except.map f (first >>= second) = first >>= fun a ↦ Except.map f (second a) := by
  rcases first with error | a <;> rfl

/-- The labels of `mouse_init` release what was acquired, in the reverse order. -/
theorem init_eq_acquireAll (answers : Answers) (held : List Resource) :
    init answers held =
      (acquireAll answers.granted [] stages held).map fun result ↦ (answers.result, result.2) := by
  obtain ⟨kmalloc, registerChrdev, classCreate, deviceCreate, cdevAdd, kobject, sysfs⟩ := answers
  rcases kmalloc with _ | _
  · rfl
  rcases registerChrdev with _ | error
  · rcases classCreate with _ | error
    · rcases deviceCreate with _ | error
      · rcases cdevAdd with _ | error
        · rcases kobject with _ | _
          · simp [init, acquireAll, stages, Answers.granted, Answers.result, map_bind_eq,
              releaseAll, failKobj, failCdev, failDevice, failClass, failChrdev]
            rfl
          · rcases sysfs with _ | error
            · simp [init, acquireAll, stages, Answers.granted, Answers.result, map_bind_eq]
              rfl
            · simp [init, acquireAll, stages, Answers.granted, Answers.result, map_bind_eq,
                releaseAll, failSysfs, failKobj, failCdev, failDevice, failClass, failChrdev]
              rfl
        · simp [init, acquireAll, stages, Answers.granted, Answers.result, map_bind_eq,
            releaseAll, failCdev, failDevice, failClass, failChrdev]
          rfl
      · simp [init, acquireAll, stages, Answers.granted, Answers.result, map_bind_eq, releaseAll,
          failDevice, failClass, failChrdev]
        rfl
    · simp [init, acquireAll, stages, Answers.granted, Answers.result, map_bind_eq, releaseAll,
        failClass, failChrdev]
      rfl
  · simp [init, acquireAll, stages, Answers.granted, Answers.result, map_bind_eq, releaseAll,
      failChrdev]
    rfl

/-- `mouse_init` acquires everything or nothing. -/
theorem init_nil (answers : Answers) :
    init answers [] =
      .ok (answers.result, if stages.all answers.granted then stages.reverse else []) := by
  have hall := acquireAll_eq answers.granted (by decide : stages.Nodup)
    fun resource _ ↦ List.not_mem_nil (a := resource)
  rw [init_eq_acquireAll, hall, List.append_nil]
  split_ifs <;> rfl

/-- `mouse_exit` releases everything that `mouse_init` acquires. -/
theorem mouseExit_stages : mouseExit stages.reverse = .ok [] := by decide

end Init

/-! ### Histories -/

/-- A misuse of a resource, or an access to a buffer that the driver does not hold. -/
inductive Fault where
  | misuse (misuse : Misuse)
  | freedBuffer

/-- What happens to the module: it is loaded, with the answers of the kernel, the value that an
unassigned `int` has, the memory from `kmalloc` and the module parameter; it is unloaded; a process
opens or closes the device; and there is a call of the driver. -/
inductive ModuleEvent where
  | insmod (answers : Answers) (indeterminate : ℤ) (mouseBuffer : ℕ → UInt8) (displayMode : ℤ)
  | rmmod
  | openFile
  | closeFile
  | call (call : Call)

/-- The kernel: whether it takes the module for loaded, what the driver holds, how often the device
is open, and its variables, with the bytes that were put into the buffer and taken out of it since
the module was loaded. -/
structure Kernel where
  live : Bool
  held : List Resource
  opened : ℕ
  device : Device
  accepted : List UInt8
  delivered : List UInt8

/-- The calls that can happen: the timer fires when it is armed, the mode is written when its file
is there, the parameter while the module is loaded, and an open device is read and written. -/
def Kernel.possible (kernel : Kernel) : Call → Bool
  | .timer _ _ => .mouseTimer ∈ kernel.held
  | .store _ => .modeFile ∈ kernel.held
  | .parameter _ => kernel.live
  | .read _ | .write _ => 0 < kernel.opened

/-- The calls that use the ring buffer. -/
def usesBuffer : Call → Bool
  | .store _ | .parameter _ => false
  | .timer _ _ | .read _ | .write _ => true

/-- One event. A module that is loaded is not loaded again, and none is unloaded whose device is
open. A module that returns an error is not loaded. -/
def step (kernel : Kernel) : ModuleEvent → Except Fault Kernel
  | .insmod answers indeterminate mouseBuffer displayMode =>
    if kernel.live then .ok kernel
    else
      match init answers kernel.held with
      | .error misuse => .error (.misuse misuse)
      | .ok (result, held) =>
        .ok ⟨0 ≤ result.getD indeterminate, held, kernel.opened,
          mouseInit mouseBuffer displayMode, [], []⟩
  | .rmmod =>
    if !kernel.live || 0 < kernel.opened then .ok kernel
    else
      match mouseExit kernel.held with
      | .error misuse => .error (.misuse misuse)
      | .ok held => .ok { kernel with live := false, held }
  | .openFile =>
    if .chrdev ∈ kernel.held then .ok { kernel with opened := kernel.opened + 1 } else .ok kernel
  | .closeFile => .ok { kernel with opened := kernel.opened - 1 }
  | .call call =>
    if !kernel.possible call then .ok kernel
    else if usesBuffer call && .mouseBuffer ∉ kernel.held then .error .freedBuffer
    else
      let outcome := call.exec kernel.device
      .ok { kernel with
        device := outcome.device
        accepted := kernel.accepted ++ outcome.accepted
        delivered := kernel.delivered ++ outcome.delivered }

/-- The kernel before the module is loaded for the first time. -/
def booted (device : Device) : Kernel := ⟨false, [], 0, device, [], []⟩

/-- A module that is loaded, with everything that `mouse_init` acquires. What was put into the
buffer since then has been taken out or is queued. -/
structure Kernel.Complete (kernel : Kernel) : Prop where
  live : kernel.live = true
  held_eq : kernel.held = stages.reverse
  valid : kernel.device.Valid
  queue_eq : kernel.delivered ++ kernel.device.queue = kernel.accepted

/-- A module that holds nothing, and has no users. -/
structure Kernel.Bare (kernel : Kernel) : Prop where
  held_eq : kernel.held = []
  opened_eq : kernel.opened = 0

/-- A module that the kernel takes for loaded, and that holds nothing. -/
def Kernel.Hollow (kernel : Kernel) : Prop := kernel.live = true ∧ kernel.held = []

/-- A module that holds everything or nothing. -/
def Kernel.InOrder (kernel : Kernel) : Prop := kernel.Complete ∨ kernel.Bare

/-- A module that is loaded and holds everything, or is not loaded and holds nothing. -/
def Kernel.Settled (kernel : Kernel) : Prop :=
  kernel.Complete ∨ kernel.Bare ∧ kernel.live = false

/-- A module that is loaded gives a return value that was assigned, or happens to be an error. -/
def ModuleEvent.Assigned : ModuleEvent → Prop
  | .insmod answers indeterminate _ _ => answers.result = none → indeterminate < 0
  | _ => True

/-! ### One event -/

theorem inOrder_booted (device : Device) : (booted device).InOrder := Or.inr ⟨rfl, rfl⟩

section Step

variable {kernel next : Kernel}

theorem Kernel.Complete.mem_held (hcomplete : kernel.Complete) (resource : Resource) :
    resource ∈ kernel.held := by
  rw [hcomplete.held_eq]
  cases resource <;> decide

theorem Kernel.Bare.notMem_held (hbare : kernel.Bare) (resource : Resource) :
    resource ∉ kernel.held := by
  rw [hbare.held_eq]
  exact List.not_mem_nil

/-- A call of a complete module. -/
theorem Kernel.Complete.exists_call (hcomplete : kernel.Complete) (call : Call) :
    ∃ next, step kernel (.call call) = .ok next ∧ next.Complete := by
  rw [step]
  split_ifs with himpossible hfreed
  · exact ⟨kernel, rfl, hcomplete⟩
  · simp [hcomplete.mem_held] at hfreed
  · have hcall := call.conserves_exec hcomplete.valid
    refine ⟨_, rfl, hcomplete.live, hcomplete.held_eq, hcall.valid, ?_⟩
    rw [List.append_assoc, ← hcall.queue_eq, ← List.append_assoc, hcomplete.queue_eq]

/-- A module that holds nothing has no calls but that of its parameter. -/
theorem Kernel.Bare.exists_call (hbare : kernel.Bare) (call : Call) :
    ∃ next, step kernel (.call call) = .ok next ∧ next.Bare ∧ next.live = kernel.live := by
  rw [step]
  split_ifs with himpossible hfreed
  · exact ⟨kernel, rfl, hbare, rfl⟩
  · cases call <;> simp_all [usesBuffer, Kernel.possible, hbare.notMem_held, hbare.opened_eq]
  · exact ⟨_, rfl, ⟨hbare.held_eq, hbare.opened_eq⟩, rfl⟩

theorem Kernel.Settled.inOrder (hsettled : kernel.Settled) : kernel.InOrder :=
  hsettled.imp id And.left

/-- A module that is complete stays so, or is unloaded and holds nothing. -/
theorem Kernel.Complete.exists_step (hcomplete : kernel.Complete) (event : ModuleEvent) :
    ∃ next, step kernel event = .ok next ∧ next.Settled := by
  cases event with
  | insmod answers indeterminate mouseBuffer displayMode =>
    exact ⟨kernel, if_pos hcomplete.live, Or.inl hcomplete⟩
  | rmmod =>
    rw [step, hcomplete.held_eq, mouseExit_stages]
    split_ifs with hopened
    · exact ⟨kernel, rfl, Or.inl hcomplete⟩
    · rw [hcomplete.live, Bool.not_true, Bool.false_or, decide_eq_true_eq] at hopened
      exact ⟨_, rfl, Or.inr ⟨⟨rfl, Nat.eq_zero_of_not_pos hopened⟩, rfl⟩⟩
  | openFile =>
    refine ⟨_, if_pos (hcomplete.mem_held .chrdev), Or.inl ?_⟩
    exact ⟨hcomplete.live, hcomplete.held_eq, hcomplete.valid, hcomplete.queue_eq⟩
  | closeFile =>
    exact ⟨_, rfl, Or.inl ⟨hcomplete.live, hcomplete.held_eq, hcomplete.valid, hcomplete.queue_eq⟩⟩
  | call call =>
    obtain ⟨next, hnext, hnextComplete⟩ := hcomplete.exists_call call
    exact ⟨next, hnext, Or.inl hnextComplete⟩

/-- The module is loaded when nothing is held. -/
theorem Kernel.Bare.exists_insmod (hbare : kernel.Bare) (hlive : kernel.live = false)
    (answers : Answers) (indeterminate : ℤ) (mouseBuffer : ℕ → UInt8) (displayMode : ℤ) :
    ∃ next, step kernel (.insmod answers indeterminate mouseBuffer displayMode) = .ok next ∧
      next.InOrder ∧ ((answers.result = none → indeterminate < 0) → next.Settled) := by
  have hsize : 0 < bufferSize := by decide
  rw [step, if_neg (by rw [hlive]; exact Bool.false_ne_true), hbare.held_eq, init_nil]
  rcases answers.result_cases with ⟨hall, hresult⟩ | ⟨hall, hresult⟩
  · have hcomplete : (Kernel.mk (0 ≤ answers.result.getD indeterminate)
        (if stages.all answers.granted then stages.reverse else []) kernel.opened
        (mouseInit mouseBuffer displayMode) [] []).Complete := by
      rw [hresult, if_pos hall]
      exact ⟨rfl, rfl, ⟨hsize, hsize⟩, rfl⟩
    exact ⟨_, rfl, Or.inl hcomplete, fun _ ↦ Or.inl hcomplete⟩
  · have hnone : (Kernel.mk (0 ≤ answers.result.getD indeterminate)
        (if stages.all answers.granted then stages.reverse else []) kernel.opened
        (mouseInit mouseBuffer displayMode) [] []).Bare := by
      rw [hall]
      exact ⟨rfl, hbare.opened_eq⟩
    refine ⟨_, rfl, Or.inr hnone, fun hassigned ↦ Or.inr ⟨hnone, ?_⟩⟩
    refine decide_eq_false (not_le.mpr ?_)
    rcases hvalue : answers.result with _ | value
    · exact hassigned hvalue
    · exact hresult value hvalue

/-- A module that holds nothing cannot be unloaded, if the kernel takes it for loaded. Every other
event leaves a module in order. -/
theorem Kernel.Bare.step_cases (hbare : kernel.Bare) (event : ModuleEvent) :
    (∃ next, step kernel event = .ok next ∧ next.InOrder ∧
        (kernel.live = false → event.Assigned → next.Settled)) ∧
          ¬(event = .rmmod ∧ kernel.Hollow) ∨
      (∃ error, step kernel event = .error error) ∧ event = .rmmod ∧ kernel.Hollow := by
  cases event with
  | insmod answers indeterminate mouseBuffer displayMode =>
    refine Or.inl ⟨?_, nofun⟩
    by_cases hlive : kernel.live = true
    · refine ⟨kernel, if_pos hlive, Or.inr hbare, fun hnot ↦ ?_⟩
      exact absurd hlive (Bool.eq_false_iff.mp hnot)
    · obtain ⟨next, hnext, hinOrder, hsettled⟩ := hbare.exists_insmod (Bool.eq_false_iff.mpr hlive)
        answers indeterminate mouseBuffer displayMode
      exact ⟨next, hnext, hinOrder, fun _ hassigned ↦ hsettled hassigned⟩
  | rmmod =>
    have hexit : mouseExit kernel.held = .error .notHeld := by
      rw [hbare.held_eq]
      rfl
    by_cases hlive : kernel.live = true
    · refine Or.inr ⟨⟨.misuse .notHeld, ?_⟩, rfl, hlive, hbare.held_eq⟩
      rw [step, hexit, hlive, hbare.opened_eq]
      rfl
    · have hnot : kernel.live = false := Bool.eq_false_iff.mpr hlive
      refine Or.inl ⟨⟨kernel, ?_, Or.inr hbare, fun _ _ ↦ Or.inr ⟨hbare, hnot⟩⟩,
        fun hhollow ↦ hlive hhollow.2.1⟩
      rw [step, hnot]
      rfl
  | openFile =>
    exact Or.inl ⟨⟨kernel, if_neg (hbare.notMem_held .chrdev), Or.inr hbare,
      fun hlive _ ↦ Or.inr ⟨hbare, hlive⟩⟩, nofun⟩
  | closeFile =>
    have hclosed : ({ kernel with opened := kernel.opened - 1 } : Kernel).Bare :=
      ⟨hbare.held_eq, by rw [hbare.opened_eq]⟩
    exact Or.inl ⟨⟨_, rfl, Or.inr hclosed, fun hlive _ ↦ Or.inr ⟨hclosed, hlive⟩⟩, nofun⟩
  | call call =>
    obtain ⟨next, hnext, hnextBare, hlive⟩ := hbare.exists_call call
    exact Or.inl ⟨⟨next, hnext, Or.inr hnextBare,
      fun hnot _ ↦ Or.inr ⟨hnextBare, hlive.trans hnot⟩⟩, nofun⟩

end Step

/-! ### Every history -/

theorem Kernel.InOrder.step {kernel next : Kernel} (hinOrder : kernel.InOrder) {event : ModuleEvent}
    (hstep : MouseDriver.step kernel event = .ok next) : next.InOrder := by
  rcases hinOrder with hcomplete | hbare
  · obtain ⟨other, hother, hsettled⟩ := hcomplete.exists_step event
    rw [Except.ok.inj (hstep.symm.trans hother)]
    exact hsettled.inOrder
  · rcases hbare.step_cases event with ⟨⟨other, hother, hotherInOrder, -⟩, -⟩ | ⟨⟨error, herror⟩, -⟩
    · rw [Except.ok.inj (hstep.symm.trans hother)]
      exact hotherInOrder
    · exact absurd (hstep.symm.trans herror) nofun

theorem Kernel.InOrder.step_eq_error_iff {kernel : Kernel} (hinOrder : kernel.InOrder)
    (event : ModuleEvent) :
    (∃ error, MouseDriver.step kernel event = .error error) ↔
      event = .rmmod ∧ kernel.Hollow := by
  rcases hinOrder with hcomplete | hbare
  · obtain ⟨next, hnext, -⟩ := hcomplete.exists_step event
    refine iff_of_false ?_ ?_
    · rintro ⟨error, herror⟩
      exact absurd (hnext.symm.trans herror) (by rintro ⟨⟩)
    · rintro ⟨-, -, hheld⟩
      exact absurd (hcomplete.held_eq.symm.trans hheld) (by decide)
  · rcases hbare.step_cases event with ⟨⟨next, hnext, -⟩, hnot⟩ | ⟨herror, hhollow⟩
    · refine iff_of_false ?_ hnot
      rintro ⟨error, herror⟩
      exact absurd (hnext.symm.trans herror) (by rintro ⟨⟩)
    · exact iff_of_true herror hhollow

/-- A module that is settled stays so. Assumes: a return value that is unassigned happens to be an
error. -/
theorem Kernel.Settled.exists_step {kernel : Kernel} (hsettled : kernel.Settled)
    {event : ModuleEvent} (hassigned : event.Assigned) :
    ∃ next, MouseDriver.step kernel event = .ok next ∧ next.Settled := by
  rcases hsettled with hcomplete | ⟨hbare, hlive⟩
  · exact hcomplete.exists_step event
  · rcases hbare.step_cases event with ⟨⟨next, hnext, -, hkept⟩, -⟩ | ⟨-, -, hhollow, -⟩
    · exact ⟨next, hnext, hkept hlive hassigned⟩
    · exact absurd (hlive.symm.trans hhollow) Bool.false_ne_true

/-- The life cycle of the module. Assumes: nobody uses the device before `mouse_init` returns. A
history has a fault exactly when it unloads a module that the
kernel takes for loaded and that holds nothing. Wherever it gets to, the module holds everything
once and its queue is what was put in since it was loaded and not taken out, or it holds nothing and
has no users. If no unassigned return value happens to be no error, there is no fault, and what is
held is everything exactly when the module is loaded. -/
theorem module_lifeCycle (device : Device) (history : List ModuleEvent) :
    ((∃ last, run step (booted device) history = .ok last) ↔
      Along step (fun kernel event ↦ ¬(event = .rmmod ∧ kernel.Hollow)) (booted device) history) ∧
    (∀ last, run step (booted device) history = .ok last → last.InOrder) ∧
    ((∀ event ∈ history, event.Assigned) →
      ∃ last, run step (booted device) history = .ok last ∧ last.Settled) := by
  have hbooted := inOrder_booted device
  refine ⟨?_, fun last hrun ↦ ?_, fun hassigned ↦ ?_⟩
  · have hnever : (∀ error, run step (booted device) history = .error error → ¬True) ↔
        Along step (fun kernel event ↦ ¬(event = .rmmod ∧ kernel.Hollow)) (booted device)
          history := by
      refine never_bad_iff (fun kernel event next hinOrder hstep ↦ hinOrder.step hstep)
        (fun kernel event hinOrder ↦ ?_) hbooted history
      simp only [and_true, not_not]
      exact hinOrder.step_eq_error_iff event
    rw [← hnever]
    constructor
    · rintro ⟨last, hlast⟩ error herror
      exact absurd (hlast.symm.trans herror) (by rintro ⟨⟩)
    · intro hnone
      rcases hrun : run step (booted device) history with error | last
      · exact absurd trivial (hnone error hrun)
      · exact ⟨last, rfl⟩
  · have halong : Along step (fun _ _ ↦ True) (booted device) history :=
      along_of_forall (fun _ _ ↦ trivial) _
    exact invariant (fun kernel event next hinOrder _ hstep ↦ hinOrder.step hstep) hbooted halong
      hrun
  · exact run_ok (fun kernel event hsettled hevent ↦ hsettled.exists_step hevent)
      (Or.inr ⟨⟨rfl, rfl⟩, rfl⟩) (along_of_forall hassigned _)

/-- The device number is refused, and the unassigned value is zero. The module is then unloaded. -/
def unassignedHistory : List ModuleEvent :=
  [.insmod ⟨true, some ⟨16, Nat.succ_pos 15⟩, none, none, none, true, none⟩ 0 (fun _ ↦ 0) 0, .rmmod]

theorem unassignedHistory_fault :
    ¬∃ last, run step (booted (mouseInit (fun _ ↦ 0) 0)) unassignedHistory = .ok last := by
  intro hok
  have halong := (module_lifeCycle (mouseInit (fun _ ↦ 0) 0) unassignedHistory).1.mp hok
  exact (halong.2 ⟨true, [], 0, mouseInit (fun _ ↦ 0) 0, [], []⟩ rfl).1 ⟨rfl, rfl, rfl⟩

end Homework.MouseDriver
