/-
SandboxVm.Assembly — code built from mnemonics and labels.

An assembly is a list of operations whose operands may be labels. A label is placed at
the next instruction, possibly again later, in which case the last place counts. Labels
can be listed as jump targets of the module. `finish` replaces labels by instruction
numbers and writes the code segment; it fails when a label was used and never placed.
-/
import SandboxVm.Instruction

namespace SandboxVm

/-- The operand of an operation under construction. -/
inductive Operand where
  | none
  | imm (v : Int32)
  | label (name : String)
  deriving DecidableEq

/-- An assembled code segment. -/
structure Code where
  bytes : Bytes
  instructionCount : Int32
  /-- Instruction numbers for the jump table, in the order in which they were listed. -/
  jumpTargets : List Int32
  deriving DecidableEq

/-- Code under construction. -/
structure Assembly where
  ops : Array (Opcode × Operand)
  /-- Where labels were placed, latest first. -/
  places : List (String × Nat)
  /-- Labels listed for the jump table, in order. -/
  indirect : Array String

/-- Why an assembly has no code segment. -/
inductive AssemblyError where
  | unknownOpcode (token : String)
  | unresolvedLabel
  deriving DecidableEq

/-- The wording of an assembly failure; an unknown mnemonic is reported as it was written. -/
def AssemblyError.message : AssemblyError → String
  | .unknownOpcode token => token
  | .unresolvedLabel => "label was referenced but never placed"

namespace Assembly

/-- Nothing yet. -/
def empty : Assembly := ⟨#[], [], #[]⟩

/-- The number that the next instruction will get. -/
def here (a : Assembly) : Int32 := Int32.ofNat a.ops.size

/-- Binds a label to the next instruction. -/
def place (a : Assembly) (label : String) : Assembly :=
  { a with places := (label, a.ops.size) :: a.places }

/-- Lists a label in the jump table. -/
def listTarget (a : Assembly) (label : String) : Assembly :=
  { a with indirect := a.indirect.push label }

/-- Appends an operation with the given operand. -/
def emit (a : Assembly) (op : Opcode) (operand : Operand) : Assembly :=
  { a with ops := a.ops.push (op, operand) }

/-- Appends an operation without saying its operand, which is zero if there is one. -/
def op (a : Assembly) (op : Opcode) : Assembly :=
  a.emit op (if op.operandSize = 0 then .none else .imm 0)

/-- Appends an operation with an operand, whether or not its opcode takes one. -/
def opImm (a : Assembly) (op : Opcode) (v : Int32) : Assembly := a.emit op (.imm v)

/-- Appends an operation whose operand is the number of a labelled instruction. -/
def opLabel (a : Assembly) (op : Opcode) (label : String) : Assembly := a.emit op (.label label)

/-- Pushes a constant. -/
def const (a : Assembly) (v : Int32) : Assembly := a.opImm .const v

/-- Jumps to a label. -/
def jump (a : Assembly) (label : String) : Assembly := (a.opLabel .const label).op .jump

/-- Calls the function at a label. -/
def call (a : Assembly) (label : String) : Assembly := (a.opLabel .const label).op .call

/-- Calls a host service by its number. -/
def syscall (a : Assembly) (number : Int32) : Assembly := (a.const (-1 - number)).op .call

/-- Loads the `n`-th entry argument of a function whose frame has `frame` bytes. -/
def param (a : Assembly) (frame n : Int32) : Assembly :=
  (a.opImm .frame (frame + 8 + 4 * n)).op (.load .word)

/-- The instruction that a label was placed at last. -/
def resolve? (a : Assembly) (label : String) : Option Int32 :=
  (a.places.lookup label).map Int32.ofNat

/-- The bytes of one operation. An operand is written even where the opcode takes none, and
then has four bytes. -/
def encodeOp (a : Assembly) : Opcode × Operand → Option Bytes
  | (op, .none) => some [op.toByte]
  | (op, .imm v) => some (op.toByte :: operandBytes op v)
  | (op, .label l) => (a.resolve? l).map fun v => op.toByte :: operandBytes op v
where
  /-- One byte for opcodes with a one-byte operand, four for all others. -/
  operandBytes (op : Opcode) (v : Int32) : Bytes :=
    if op.operandSize = 1 then [v.toUInt32.toUInt8] else Bytes.ofWord v.toUInt32

/-- The finished code segment. -/
def finish (a : Assembly) : Except AssemblyError Code :=
  match a.ops.toList.mapM a.encodeOp, a.indirect.toList.mapM a.resolve? with
  | some chunks, some targets => .ok ⟨chunks.flatten, Int32.ofNat a.ops.size, targets⟩
  | _, _ => .error .unresolvedLabel

end Assembly

end SandboxVm
