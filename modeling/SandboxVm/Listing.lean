/-
SandboxVm.Listing — a program as text, one instruction a line.

A line shows the number of the instruction, its offset, its mnemonic and its operand, and
a star where an indirect jump may land. A function's first instruction has the name of the
function on a line above it.
-/
import SandboxVm.JumpTable
import SandboxVm.Symbols

namespace SandboxVm.Listing

/-- The operand column. Branches show their target, and a negative constant is shown with
the host service that a call of it reaches. -/
def operand (ins : Instruction) : String :=
  if ins.op.operandSize = 0 then ""
  else if ins.op.isBranch then " -> " ++ Text.signed ins.operand
  else if ins.op = .const ∧ ins.operand < 0 then
    " " ++ Text.signed ins.operand ++ "  ; syscall " ++ Text.signed (-1 - ins.operand)
  else " " ++ Text.signed ins.operand

/-- The name shown above an instruction: the first symbol at exactly its offset. -/
def label? (symbols : Option SymbolTable) (offset : UInt32) : Option String :=
  symbols.bind fun t => (t.symbols.find? fun s => s.offset = offset).map (·.name)

/-- The line of an instruction. -/
def row (p : Program) (table : Option JumpTable) (n : Nat) (ins : Instruction) : String :=
  let mark := if table.any (·.allows (Int32.ofNat n)) then "*" else " "
  mark ++ Text.right 6 (Text.nat n) ++ " " ++ Text.hexPadded 8 (p.offsetOf n).toNat ++ "  " ++
    Text.left 10 ins.op.name ++ operand ins

/-- The line of an instruction, below its name if it has one. -/
def lines (p : Program) (symbols : Option SymbolTable) (table : Option JumpTable)
    (n : Nat) (ins : Instruction) : List String :=
  (label? symbols (p.offsetOf n)).toList.map (· ++ ":") ++ [row p table n ins]

/-- The listing of a program. -/
def render (p : Program) (symbols : Option SymbolTable) (table : Option JumpTable) : String :=
  String.join ((p.code.toList.zipIdx.flatMap fun (ins, n) => lines p symbols table n ins).map
    (· ++ "\n"))

end SandboxVm.Listing
