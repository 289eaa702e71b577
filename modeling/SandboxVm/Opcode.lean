/-
SandboxVm.Opcode — the sixty operations of the machine.

Operations that differ only in the comparison, width or arithmetic they perform share a
constructor. Each has a code byte, a mnemonic and an operand width; `ofByte?` and
`ofName?` go back. Conditional branches are the operations whose operand is an
instruction number.
-/

namespace SandboxVm

/-- The test of a conditional branch: equality and order of the two topmost operands, read
as signed words (`i`), unsigned words (`u`) or floats (`f`). -/
inductive Condition where
  | eq | ne
  | ltI | leI | gtI | geI
  | ltU | leU | gtU | geU
  | eqF | neF | ltF | leF | gtF | geF
  deriving DecidableEq

/-- How many bytes a memory access touches. -/
inductive Width where
  | byte | half | word
  deriving DecidableEq

/-- One, two or four. -/
def Width.bytes : Width → Nat
  | .byte => 1
  | .half => 2
  | .word => 4

/-- Operations that replace the topmost operand. -/
inductive Unary where
  | signExtend8 | signExtend16 | negI | complement | negF | intToFloat | floatToInt
  deriving DecidableEq

/-- Operations that replace the two topmost operands and cannot fail. -/
inductive Binary where
  | add | sub | mulI | mulU
  | and | or | xor
  | shiftLeft | shiftRightI | shiftRightU
  | addF | subF | divF | mulF
  deriving DecidableEq

/-- Integer divisions, which fault on a zero divisor. -/
inductive Division where
  | divI | divU | modI | modU
  deriving DecidableEq

/-- One operation of the machine. -/
inductive Opcode where
  /-- Not an instruction: executing it is a fault. -/
  | undef
  /-- Does nothing. -/
  | ignore
  /-- Counts a breakpoint. -/
  | breakpoint
  /-- Opens a stack frame. -/
  | enter
  /-- Closes a stack frame and returns. -/
  | leave
  /-- Calls the instruction, or the host service, on top of the operand stack. -/
  | call
  /-- Pushes zero. -/
  | push
  /-- Drops the topmost operand. -/
  | pop
  /-- Pushes the operand. -/
  | const
  /-- Pushes an address in the current frame. -/
  | frame
  /-- Jumps to the instruction on top of the operand stack. -/
  | jump
  /-- Branches to the operand when the condition holds. -/
  | branch (c : Condition)
  /-- Loads from the address on top of the operand stack. -/
  | load (w : Width)
  /-- Stores the topmost operand at the address below it. -/
  | store (w : Width)
  /-- Stores an outgoing argument in the current frame. -/
  | arg
  /-- Copies a block of memory. -/
  | blockCopy
  | unary (op : Unary)
  | binary (op : Binary)
  | divide (op : Division)
  deriving DecidableEq

namespace Opcode

/-- All operations in the order of their code bytes. -/
def all : Array Opcode := #[
  undef, ignore, breakpoint, enter, leave, call, push, pop, const, frame, jump,
  branch .eq, branch .ne, branch .ltI, branch .leI, branch .gtI, branch .geI,
  branch .ltU, branch .leU, branch .gtU, branch .geU,
  branch .eqF, branch .neF, branch .ltF, branch .leF, branch .gtF, branch .geF,
  load .byte, load .half, load .word, store .byte, store .half, store .word,
  arg, blockCopy,
  unary .signExtend8, unary .signExtend16, unary .negI,
  binary .add, binary .sub, divide .divI, divide .divU, divide .modI, divide .modU,
  binary .mulI, binary .mulU, binary .and, binary .or, binary .xor, unary .complement,
  binary .shiftLeft, binary .shiftRightI, binary .shiftRightU,
  unary .negF, binary .addF, binary .subF, binary .divF, binary .mulF,
  unary .intToFloat, unary .floatToInt]

/-- The operation with the given code byte. -/
def ofByte? (b : UInt8) : Option Opcode := all[b.toNat]?

/-- The code byte. -/
def toByte : Opcode → UInt8
  | undef => 0 | ignore => 1 | breakpoint => 2 | enter => 3 | leave => 4 | call => 5
  | push => 6 | pop => 7 | const => 8 | frame => 9 | jump => 10
  | branch .eq => 11 | branch .ne => 12
  | branch .ltI => 13 | branch .leI => 14 | branch .gtI => 15 | branch .geI => 16
  | branch .ltU => 17 | branch .leU => 18 | branch .gtU => 19 | branch .geU => 20
  | branch .eqF => 21 | branch .neF => 22
  | branch .ltF => 23 | branch .leF => 24 | branch .gtF => 25 | branch .geF => 26
  | load .byte => 27 | load .half => 28 | load .word => 29
  | store .byte => 30 | store .half => 31 | store .word => 32
  | arg => 33 | blockCopy => 34
  | unary .signExtend8 => 35 | unary .signExtend16 => 36 | unary .negI => 37
  | binary .add => 38 | binary .sub => 39
  | divide .divI => 40 | divide .divU => 41 | divide .modI => 42 | divide .modU => 43
  | binary .mulI => 44 | binary .mulU => 45
  | binary .and => 46 | binary .or => 47 | binary .xor => 48 | unary .complement => 49
  | binary .shiftLeft => 50 | binary .shiftRightI => 51 | binary .shiftRightU => 52
  | unary .negF => 53 | binary .addF => 54 | binary .subF => 55 | binary .divF => 56
  | binary .mulF => 57 | unary .intToFloat => 58 | unary .floatToInt => 59

/-- The mnemonic. -/
def name : Opcode → String
  | undef => "UNDEF" | ignore => "IGNORE" | breakpoint => "BREAK" | enter => "ENTER"
  | leave => "LEAVE" | call => "CALL" | push => "PUSH" | pop => "POP" | const => "CONST"
  | frame => "LOCAL" | jump => "JUMP"
  | branch .eq => "EQ" | branch .ne => "NE"
  | branch .ltI => "LTI" | branch .leI => "LEI" | branch .gtI => "GTI" | branch .geI => "GEI"
  | branch .ltU => "LTU" | branch .leU => "LEU" | branch .gtU => "GTU" | branch .geU => "GEU"
  | branch .eqF => "EQF" | branch .neF => "NEF"
  | branch .ltF => "LTF" | branch .leF => "LEF" | branch .gtF => "GTF" | branch .geF => "GEF"
  | load .byte => "LOAD1" | load .half => "LOAD2" | load .word => "LOAD4"
  | store .byte => "STORE1" | store .half => "STORE2" | store .word => "STORE4"
  | arg => "ARG" | blockCopy => "BLOCK_COPY"
  | unary .signExtend8 => "SEX8" | unary .signExtend16 => "SEX16" | unary .negI => "NEGI"
  | binary .add => "ADD" | binary .sub => "SUB"
  | divide .divI => "DIVI" | divide .divU => "DIVU"
  | divide .modI => "MODI" | divide .modU => "MODU"
  | binary .mulI => "MULI" | binary .mulU => "MULU"
  | binary .and => "BAND" | binary .or => "BOR" | binary .xor => "BXOR"
  | unary .complement => "BCOM"
  | binary .shiftLeft => "LSH" | binary .shiftRightI => "RSHI" | binary .shiftRightU => "RSHU"
  | unary .negF => "NEGF" | binary .addF => "ADDF" | binary .subF => "SUBF"
  | binary .divF => "DIVF" | binary .mulF => "MULF"
  | unary .intToFloat => "CVIF" | unary .floatToInt => "CVFI"

/-- The operation with the given mnemonic; the case of ASCII letters does not matter. -/
def ofName? (s : String) : Option Opcode :=
  let upper := s.map Char.toUpper
  all.find? fun op => op.name == upper

/-- Conditional branches, whose operand is an instruction number. -/
def isBranch : Opcode → Bool
  | branch _ => true
  | _ => false

/-- Width in bytes of the operand that follows the code byte. -/
def operandSize : Opcode → Nat
  | enter | leave | const | frame | blockCopy | branch _ => 4
  | arg => 1
  | _ => 0

/-- Reading the code byte of an operation gives the operation back. -/
@[simp]
theorem ofByte?_toByte (op : Opcode) : ofByte? op.toByte = some op := by
  cases op with
  | branch c => cases c <;> rfl
  | load w => cases w <;> rfl
  | store w => cases w <;> rfl
  | unary u => cases u <;> rfl
  | binary b => cases b <;> rfl
  | divide d => cases d <;> rfl
  | _ => rfl

end Opcode

end SandboxVm
