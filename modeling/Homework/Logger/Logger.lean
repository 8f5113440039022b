import Homework.Library.ByteBuffer
import Homework.Library.CString
import Homework.Library.Decimal
import Homework.Library.Runs

/-!
# The logger

The logger keeps its state in three static variables: the stream of the log file, a mutex, and a
flag. A stream is named by its number in the order in which the streams were opened, and what has
been written is the list of all writes, each with its stream. To lock or to destroy a mutex that is
not ready is a fault, and so is a write to a stream that is not open.

A call comes with the results of the library calls that it makes: whether `fopen` succeeds, and the
symbols that `backtrace_symbols` gives.
-/

set_option autoImplicit false
set_option relaxedAutoImplicit false

namespace Homework.Logger

open Homework.Library.ByteBuffer Homework.Library.CString Homework.Library.Decimal
open Homework.Library.Runs

inductive Level where
  | debug
  | info
  | warning
  | error
deriving DecidableEq, Repr

/-- The arguments of `logger_log`, with `format` and what follows it as the text that `vfprintf`
makes of them. `symbols` are the lines of the stack trace. -/
structure Record where
  level : Level
  file : List UInt8
  line : ℤ
  func : List UInt8
  text : List UInt8
  symbols : List (List UInt8)

/-- The calls of the logger. -/
inductive Call where
  | init (opens : Bool)
  | log (record : Record)
  | cleanup

inductive Mutex where
  | ready
  | locked
  | destroyed
deriving DecidableEq, Repr

/-- The state of the logger, with the streams of the process: how many have been opened, which are
open, and what has been written to them. -/
structure State where
  logFp : Option ℕ
  lock : Mutex
  initialized : Bool
  streams : ℕ
  opened : List ℕ
  written : List (ℕ × List UInt8)

inductive LoggerFault where
  | lock (mutex : Mutex)
  | unlock (mutex : Mutex)
  | destroy (mutex : Mutex)
  | write (stream : Option ℕ)
deriving DecidableEq, Repr

/-- The static variables before any call. -/
def start : State where
  logFp := none
  lock := .ready
  initialized := false
  streams := 0
  opened := []
  written := []

/-! ### The text of a record -/

/-- A number as `printf` writes it for `%d`. -/
def number (value : ℤ) : List UInt8 :=
  if value < 0 then 45 :: digitBytes value.natAbs else digitBytes value.natAbs

def Level.tag : Level → List UInt8
  | .debug => ascii "[DEBUG] "
  | .info => ascii "[INFO] "
  | .warning => ascii "[WARN] "
  | .error => ascii "[ERROR] "

/-- What the `switch` of `logger_log` prints. -/
def Record.heading (record : Record) : List UInt8 :=
  record.level.tag ++ record.file ++ ascii ":" ++ number record.line ++ ascii " (" ++
    record.func ++ ascii "): "

/-- The lines that `print_stack_trace(10)` prints. -/
def Record.stackTrace (record : Record) : List (List UInt8) :=
  (record.symbols.take 10).map (· ++ ascii "\n")

/-- What `logger_log` prints, one call of `fprintf` after another. -/
def Record.pieces (record : Record) : List (List UInt8) :=
  [record.heading, record.text, ascii "\n"] ++
    if record.level = .error then record.stackTrace else []

/-! ### The calls -/

namespace State

/-- `pthread_mutex_lock(&lock)`. -/
def mutexLock (state : State) : Except LoggerFault State :=
  if state.lock = .ready then .ok { state with lock := .locked } else .error (.lock state.lock)

/-- `pthread_mutex_unlock(&lock)`. -/
def mutexUnlock (state : State) : Except LoggerFault State :=
  if state.lock = .locked then .ok { state with lock := .ready } else .error (.unlock state.lock)

/-- `pthread_mutex_destroy(&lock)`. -/
def mutexDestroy (state : State) : Except LoggerFault State :=
  if state.lock = .ready then .ok { state with lock := .destroyed }
  else .error (.destroy state.lock)

/-- `fprintf(log_fp, …)`. -/
def fprintf (state : State) (bytes : List UInt8) : Except LoggerFault State :=
  match state.logFp with
  | none => .error (.write none)
  | some stream =>
    if stream ∈ state.opened then .ok { state with written := state.written ++ [(stream, bytes)] }
    else .error (.write stream)

/-- `logger_log`. -/
def loggerLog (state : State) (record : Record) : Except LoggerFault State :=
  if !state.initialized || state.logFp.isNone then .ok state
  else do
    let locked ← state.mutexLock
    let printed ← record.pieces.foldlM fprintf locked
    printed.mutexUnlock

/-- `logger_init`. It returns 1 if the file cannot be opened. -/
def loggerInit (state : State) (opens : Bool) : State × Bool :=
  if state.initialized then (state, false)
  else if opens then
    ({ state with
      logFp := some state.streams
      initialized := true
      streams := state.streams + 1
      opened := state.streams :: state.opened }, false)
  else ({ state with logFp := none }, true)

/-- `fclose(log_fp)`. The variable keeps its value. -/
def fclose (state : State) : State :=
  match state.logFp with
  | none => state
  | some stream => { state with opened := state.opened.erase stream }

/-- `logger_cleanup`. -/
def loggerCleanup (state : State) : Except LoggerFault State := do
  let closed := if state.initialized && state.logFp.isSome then state.fclose else state
  let destroyed ← closed.mutexDestroy
  return { destroyed with initialized := false }

def step (state : State) : Call → Except LoggerFault State
  | .init opens => .ok (state.loggerInit opens).1
  | .log record => state.loggerLog record
  | .cleanup => state.loggerCleanup

end State

/-- The logger after some calls. -/
abbrev runCalls : State → List Call → Except LoggerFault State := run State.step

end Homework.Logger
