/-
SandboxVm.Strategy — how a program is executed.

Interpreting needs nothing beyond the program. Compiling prepares one operation for each
instruction; three frequent pairs of instructions are fused into one operation, placed
where the pair begins. The second instruction of a pair keeps an operation of its own, so
control can still arrive there.
-/
import SandboxVm.Config
import SandboxVm.JumpTable

namespace SandboxVm

/-- An operation of prepared code. -/
inductive PreparedOp where
  /-- One instruction. -/
  | single (ins : Instruction)
  /-- A constant and a jump to it, known to be permitted. -/
  | jumpTo (target : Nat)
  /-- A constant and a jump to it, known to be illegal. -/
  | jumpIllegal
  /-- A constant and a call of it. -/
  | callTo (target : Int32)
  /-- A frame address and a load of the word there. -/
  | loadFrame (offset : Int32)
  deriving DecidableEq

/-- A way of executing a program. -/
inductive Strategy where
  | interpreted
  | compiled (code : Array PreparedOp)
  deriving DecidableEq

namespace Strategy

/-- Whether a jump may land on the given instruction: on those of the jump table, or on any
instruction when there is no table. -/
@[inline]
def mayJump (p : Program) (table : Option JumpTable) (target : Int32) : Bool :=
  match table with
  | some table => table.allows target
  | none => p.isInstruction target

/-- The operation prepared for an instruction, given the one behind it. -/
def prepareOp (p : Program) (table : Option JumpTable) (ins : Instruction) :
    Option Instruction → PreparedOp
  | some next =>
    match ins.op, next.op with
    | .const, .jump =>
      if mayJump p table ins.operand then .jumpTo ins.operand.toNatClampNeg else .jumpIllegal
    | .const, .call => .callTo ins.operand
    | .frame, .load .word => .loadFrame ins.operand
    | _, _ => .single ins
  | none => .single ins

/-- The operations prepared for a program, one for each instruction. -/
def prepareCode (p : Program) (table : Option JumpTable) : Array PreparedOp :=
  p.code.mapIdx fun i ins => prepareOp p table ins p.code[i + 1]?

/-- Programs with more instructions than this are always interpreted. -/
def maxPrepared : Nat := 4194304

/-- Prepares a program for the requested mode. -/
def prepare (mode : Mode) (p : Program) (table : Option JumpTable) : Strategy :=
  match mode with
  | .interpreted => .interpreted
  | .compiled => if p.size ≤ maxPrepared then .compiled (prepareCode p table) else .interpreted

/-- The mode that a strategy implements. -/
def mode : Strategy → Mode
  | .interpreted => .interpreted
  | .compiled _ => .compiled

end Strategy

end SandboxVm
