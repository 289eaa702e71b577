/-
SandboxVm.Program — a code segment as numbered instructions.

Control flow names instructions by number, diagnostics name them by byte offset. A
decoded program keeps both: `code` gives the instruction with a number, `offsets` the
place where its encoding starts. Decoding fails when the bytes run out, on an unknown
code byte, and when a conditional branch names no instruction.
-/
import SandboxVm.Instruction

namespace SandboxVm

/-- A decoded code segment. -/
structure Program where
  code : Array Instruction
  /-- Byte offset of each instruction, in the order of `code`. -/
  offsets : Array UInt32
  /-- Length of the code segment in bytes. -/
  codeLength : UInt32
  deriving DecidableEq

namespace Program

/-- The program without instructions. -/
def empty : Program := ⟨#[], #[], 0⟩

/-- The number of instructions. -/
def size (p : Program) : Nat := p.code.size

/-- Whether `n` is the number of an instruction. -/
@[inline]
def isInstruction (p : Program) (n : Int32) : Bool :=
  0 ≤ n && n.toNatClampNeg < p.code.size

/-- Byte offset of instruction `n`; numbers past the end map to the code length. -/
def offsetOf (p : Program) (n : Nat) : UInt32 := p.offsets[n]?.getD p.codeLength

/-- The index of `offset` among the `n` entries from index `i` on, found by halving: the entries
have to be in increasing order. -/
def search (offsets : Array UInt32) (offset : UInt32) (i n : Nat) (h : i + n ≤ offsets.size) :
    Option Nat :=
  if hzero : n = 0 then none
  else if hone : n = 1 then
    if offsets[i] = offset then some i else none
  else if offset < offsets[i + n / 2] then search offsets offset i (n - n / 2) (by omega)
  else search offsets offset (i + n / 2) (n - n / 2) (by omega)
termination_by n

/-- The instruction whose encoding starts at `offset`. -/
def instructionAt? (p : Program) (offset : UInt32) : Option Nat :=
  search p.offsets offset 0 p.offsets.size (by omega)

/-- Reads `count` instructions, the first of which starts at byte `offset`. -/
def readMany : (count offset : Nat) → Bytes → Array Instruction → Array UInt32 →
    Except LoadError (Array Instruction × Array UInt32)
  | 0, _, _, code, offsets => .ok (code, offsets)
  | count + 1, offset, bytes, code, offsets =>
    match Instruction.read bytes with
    | .error e => .error e
    | .ok (ins, rest) =>
      readMany count (offset + 1 + ins.op.operandSize) rest (code.push ins)
        (offsets.push (UInt32.ofNat offset))

/-- Every conditional branch names an instruction. -/
def branchesResolve (p : Program) : Bool :=
  p.code.all fun ins => !ins.op.isBranch || p.isInstruction ins.operand

/-- Decodes the first `count` instructions of a code segment. -/
def decode (bytes : Bytes) (count : Nat) : Except LoadError Program :=
  match readMany count 0 bytes #[] #[] with
  | .error e => .error e
  | .ok (code, offsets) =>
    let p : Program := ⟨code, offsets, UInt32.ofNat bytes.length⟩
    if p.branchesResolve then .ok p else .error .badBranchTarget

/-- The number that instruction `i` pushes for a jump right behind it, when it does so and
names an instruction. -/
def directTarget? (p : Program) (i : Nat) : Option UInt32 :=
  match p.code[i]?, p.code[i + 1]? with
  | some ⟨.const, n⟩, some ⟨.jump, _⟩ => if p.isInstruction n then some n.toUInt32 else none
  | _, _ => none

/-- Targets of all jumps whose number is pushed by the instruction before them, in program
order and with repetitions. -/
def directTargets (p : Program) : List UInt32 :=
  (List.range p.code.size).filterMap p.directTarget?

end Program

end SandboxVm
