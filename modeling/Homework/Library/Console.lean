import Mathlib.Data.List.Basic

/-!
# Programs that print

A program prints bytes and ends with a result, or stops early; what it has printed by then stays
printed. `Prints` says what a program prints and how it ends, whatever stands on the console before.
A program has one such meaning at most (`Prints.unique`), and the rules of this module put it
together from the meanings of the parts.
-/

set_option autoImplicit false
set_option relaxedAutoImplicit false

namespace Homework.Library.Console

/-- Programs that print and can stop. -/
abbrev Printer (Stop : Type) := ExceptT Stop (StateM (List UInt8))

section Programs

variable {Stop E A B : Type}

/-- Text is put behind what stands on the console. -/
def print (text : List UInt8) : Printer Stop Unit := modify (· ++ text)

/-- A computation that prints nothing, with the stops that its failures are. -/
def silently (stop : E → Stop) : Except E A → Printer Stop A
  | .ok result => pure result
  | .error failure => throw (stop failure)

/-- The end of a program that starts on an empty console, and what it has printed. -/
def runConsole (program : Printer Stop A) : Except Stop A × List UInt8 :=
  (ExceptT.run program).run []

/-- A program prints some text and ends in some way, whatever was printed before. -/
def Prints (program : Printer Stop A) (text : List UInt8) (result : Except Stop A) : Prop :=
  ∀ printed, (ExceptT.run program).run printed = (result, printed ++ text)

variable {program : Printer Stop A} {next : A → Printer Stop B} {text more : List UInt8}

theorem Prints.runConsole_eq {result : Except Stop A} (hprints : Prints program text result) :
    runConsole program = (result, text) :=
  hprints []

theorem Prints.unique {result result' : Except Stop A} (hprints : Prints program text result)
    (hprints' : Prints program more result') : result = result' ∧ text = more := by
  have hboth := hprints.runConsole_eq.symm.trans hprints'.runConsole_eq
  exact ⟨congrArg Prod.fst hboth, congrArg Prod.snd hboth⟩

theorem prints_pure (result : A) : Prints (pure result : Printer Stop A) [] (.ok result) :=
  fun printed ↦ congrArg (Prod.mk _) (List.append_nil printed).symm

theorem prints_throw (stop : Stop) : Prints (throw stop : Printer Stop A) [] (.error stop) :=
  fun printed ↦ congrArg (Prod.mk _) (List.append_nil printed).symm

theorem prints_print (text : List UInt8) : Prints (print text : Printer Stop Unit) text (.ok ()) :=
  fun _ ↦ rfl

theorem prints_silently_ok (stop : E → Stop) (result : A) :
    Prints (silently stop (.ok result)) [] (.ok result) :=
  prints_pure result

theorem prints_silently_error (stop : E → Stop) (failure : E) :
    Prints (silently stop (.error failure : Except E A)) [] (.error (stop failure)) :=
  prints_throw (stop failure)

/-- A program goes on behind a part that ends with a result. -/
theorem Prints.bind {result : A} {final : Except Stop B} (hfirst : Prints program text (.ok result))
    (hnext : Prints (next result) more final) :
    Prints (program >>= next) (text ++ more) final := by
  intro printed
  rw [ExceptT.run_bind, StateT.run_bind, hfirst printed]
  exact (hnext (printed ++ text)).trans (by rw [List.append_assoc])

/-- A program stops with a part that stops. -/
theorem Prints.bind_stop {stop : Stop} (hfirst : Prints program text (.error stop))
    (next : A → Printer Stop B) : Prints (program >>= next) text (.error stop) := by
  intro printed
  rw [ExceptT.run_bind, StateT.run_bind, hfirst printed]
  rfl

/-- A program that prints, and then goes on. -/
theorem Prints.print_bind {program : Unit → Printer Stop B} {final : Except Stop B}
    (text : List UInt8) (hnext : Prints (program ()) more final) :
    Prints (print text >>= program) (text ++ more) final :=
  (prints_print text).bind hnext

/-- A program that prints a last text and stops. -/
theorem prints_print_throw (text : List UInt8) (stop : Stop) :
    Prints (print text >>= fun _ ↦ (throw stop : Printer Stop A)) text (.error stop) :=
  fun _ ↦ rfl

/-- A part that prints nothing leaves no trace. -/
theorem Prints.silent_bind {result : A} {final : Except Stop B}
    (hfirst : Prints program [] (.ok result)) (hnext : Prints (next result) more final) :
    Prints (program >>= next) more final :=
  hfirst.bind hnext

/-- A loop over a list prints what its rounds print, in their order. -/
theorem prints_forM {body : A → Printer Stop Unit} {line : A → List UInt8} {items : List A}
    (hbody : ∀ item ∈ items, Prints (body item) (line item) (.ok ())) :
    Prints (items.forM body) (items.flatMap line) (.ok ()) := by
  induction items with
  | nil => exact prints_pure ()
  | cons item rest ih =>
    rw [List.flatMap_cons]
    change Prints (body item >>= fun _ ↦ rest.forM body) _ _
    exact (hbody item List.mem_cons_self).bind
      (ih fun other hother ↦ hbody other (List.mem_cons_of_mem _ hother))

end Programs

end Homework.Library.Console
