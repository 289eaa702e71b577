/-
SandboxVm.Instruction — one operation with its operand, and its encoding.

An instruction is its code byte followed by the operand in as many bytes as the opcode
takes: none, one (the low byte), or four (a little-endian word).
-/
import SandboxVm.Bytes
import SandboxVm.Error
import SandboxVm.Opcode

namespace SandboxVm

/-- An operation and its operand; the operand is zero where the opcode takes none. -/
structure Instruction where
  op : Opcode
  operand : Int32
  deriving DecidableEq

namespace Instruction

/-- The bytes of an instruction. -/
def encode (ins : Instruction) : Bytes :=
  ins.op.toByte ::
    match ins.op.operandSize with
    | 0 => []
    | 1 => [ins.operand.toUInt32.toUInt8]
    | _ => Bytes.ofWord ins.operand.toUInt32

/-- Reads one instruction off the front of a code segment. -/
def read : Bytes → Except LoadError (Instruction × Bytes)
  | [] => .error .codeOverrun
  | code :: rest =>
    match Opcode.ofByte? code with
    | none => .error .badOpcode
    | some op =>
      match op.operandSize with
      | 0 => .ok (⟨op, 0⟩, rest)
      | 1 =>
        match rest with
        | [] => .error .codeOverrun
        | b :: rest => .ok (⟨op, b.toUInt32.toInt32⟩, rest)
      | _ =>
        match Bytes.word? rest with
        | none => .error .codeOverrun
        | some (w, rest) => .ok (⟨op, w.toInt32⟩, rest)

end Instruction

end SandboxVm
