import Homework.Library.Machine

/-!
# The assembly program

The listing of `main.asm`, routine by routine. The addresses of the strings and of the array in the
data section are parameters, as is the length of the array: the program is then the same for any
data. What a run prints is read off its calls of `printf` and `puts`.
-/

set_option autoImplicit false
set_option relaxedAutoImplicit false

namespace Homework.Assembly

open Homework.Library.Machine

inductive Label where
  | printInt
  | p
  | addElement
  | m
  | outm
  | f
  | ff
  | outf
  | main
  | addingLoop
deriving DecidableEq, Repr

/-- The functions that the program takes from the C library. -/
inductive External where
  | malloc
  | puts
  | printf
  | fflush
  | abort
deriving DecidableEq, Repr

/-- The symbols of the data section. -/
structure Symbols where
  emptyStr : ℤ
  intFormat : ℤ
  data : ℤ
  dataLength : ℕ

/-- The array `data` of the source. -/
def data : List ℤ := [4, 8, 15, 16, 23, 42]

abbrev Code := List (Line Label External)

section Listing

variable (symbols : Symbols)

def printIntCode : Code := [
  .label .printInt,
  .instr (.push .rsi),
  .instr (.push .rbp),
  .instr (.mov (.reg .rbp) (.reg .rsp)),
  .instr (.sub .rsp (.imm 16)),
  .instr (.mov (.reg .rsi) (.reg .rdi)),
  .instr (.mov (.reg .rdi) (.imm symbols.intFormat)),
  .instr (.xor .rax (.reg .rax)),
  .instr (.call (.external .printf)),
  .instr (.xor .rdi (.reg .rdi)),
  .instr (.call (.external .fflush)),
  .instr (.mov (.reg .rsp) (.reg .rbp)),
  .instr (.pop .rbp),
  .instr (.pop .rsi),
  .instr .ret]

def pCode : Code := [
  .label .p,
  .instr (.mov (.reg .rax) (.reg .rdi)),
  .instr (.and .rax (.imm 1)),
  .instr .ret]

def addElementCode : Code := [
  .label .addElement,
  .instr (.push .rbp),
  .instr (.push .rbx),
  .instr (.push .r14),
  .instr (.mov (.reg .rbp) (.reg .rsp)),
  .instr (.sub .rsp (.imm 16)),
  .instr (.mov (.reg .r14) (.reg .rdi)),
  .instr (.mov (.reg .rbx) (.reg .rsi)),
  .instr (.mov (.reg .rdi) (.imm 16)),
  .instr (.call (.external .malloc)),
  .instr (.test .rax .rax),
  .instr (.jz (.external .abort)),
  .instr (.mov (.cell .rax 0) (.reg .r14)),
  .instr (.mov (.cell .rax 8) (.reg .rbx)),
  .instr (.mov (.reg .rsp) (.reg .rbp)),
  .instr (.pop .r14),
  .instr (.pop .rbx),
  .instr (.pop .rbp),
  .instr .ret]

def mCode : Code := [
  .label .m,
  .instr (.test .rdi .rdi),
  .instr (.jz (.label .outm)),
  .instr (.push .rbx),
  .instr (.mov (.reg .rbx) (.reg .rdi)),
  .instr (.mov (.reg .rdi) (.cell .rdi 0)),
  .instr (.call (.reg .rsi)),
  .instr (.mov (.reg .rdi) (.cell .rbx 8)),
  .instr (.call (.label .m)),
  .instr (.pop .rbx),
  .label .outm,
  .instr .ret]

def fCode : Code := [
  .label .f,
  .instr (.test .rdi .rdi),
  .instr (.jz (.label .outf)),
  .instr (.push .rbx),
  .instr (.push .r13),
  .instr (.mov (.reg .rbx) (.reg .rdi)),
  .instr (.mov (.reg .r13) (.reg .rdx)),
  .instr (.mov (.reg .rdi) (.cell .rdi 0)),
  .instr (.call (.reg .rdx)),
  .instr (.test .rax .rax),
  .instr (.jz (.label .ff)),
  .instr (.call (.label .addElement)),
  .instr (.mov (.reg .rsi) (.reg .rax)),
  .label .ff,
  .instr (.mov (.reg .rdi) (.cell .rbx 8)),
  .instr (.mov (.reg .rdx) (.reg .r13)),
  .instr (.call (.label .f)),
  .instr (.pop .r13),
  .instr (.pop .rbx),
  .label .outf,
  .instr (.mov (.reg .rax) (.reg .rsi)),
  .instr .ret]

def mainCode : Code := [
  .label .main,
  .instr (.push .rbx),
  .instr (.xor .rax (.reg .rax)),
  .instr (.mov (.reg .rbx) (.imm symbols.dataLength)),
  .label .addingLoop,
  .instr (.mov (.reg .rdi) (.scaled .rbx 8 (symbols.data - 8))),
  .instr (.mov (.reg .rsi) (.reg .rax)),
  .instr (.call (.label .addElement)),
  .instr (.dec .rbx),
  .instr (.jnz (.label .addingLoop)),
  .instr (.mov (.reg .rbx) (.reg .rax)),
  .instr (.mov (.reg .rdi) (.reg .rax)),
  .instr (.mov (.reg .rsi) (.label .printInt)),
  .instr (.call (.label .m)),
  .instr (.mov (.reg .rdi) (.imm symbols.emptyStr)),
  .instr (.call (.external .puts)),
  .instr (.mov (.reg .rdx) (.label .p)),
  .instr (.xor .rsi (.reg .rsi)),
  .instr (.mov (.reg .rdi) (.reg .rbx)),
  .instr (.call (.label .f)),
  .instr (.mov (.reg .rdi) (.reg .rax)),
  .instr (.mov (.reg .rsi) (.label .printInt)),
  .instr (.call (.label .m)),
  .instr (.mov (.reg .rdi) (.imm symbols.emptyStr)),
  .instr (.call (.external .puts)),
  .instr (.pop .rbx),
  .instr (.xor .rax (.reg .rax)),
  .instr .ret]

/-- `main.asm`. -/
def program : Code :=
  printIntCode symbols ++ pCode ++ addElementCode ++ mCode ++ fCode ++ mainCode symbols

end Listing

/-! ### Output -/

/-- A piece of output: a number, followed by a blank, or the end of a line. -/
inductive Piece where
  | number (value : ℤ)
  | newline
deriving DecidableEq, Repr

/-- What a call prints. -/
def printed (symbols : Symbols) (call : Call External) : Option Piece :=
  match call.function with
  | .printf => if call.rdi = symbols.intFormat then some (.number call.rsi) else none
  | .puts => if call.rdi = symbols.emptyStr then some .newline else none
  | _ => none

/-- What has been printed so far. -/
def output (symbols : Symbols) (state : State External) : List Piece :=
  state.calls.filterMap (printed symbols)

end Homework.Assembly
