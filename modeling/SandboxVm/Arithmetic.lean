/-
SandboxVm.Arithmetic — what the arithmetic operations compute.

Operands are words. Each operation reads them as signed, unsigned or floating-point
numbers; integer arithmetic wraps, shifts take their amount modulo 32, and a float is
carried as its bits, so moving one never changes it.
-/
import SandboxVm.Opcode

namespace SandboxVm

/-- The bits of the sign of a float. -/
def signBit : UInt32 := 0x80000000

/-- Applies a floating-point operation to words. -/
@[inline]
def onFloats (f : Float32 → Float32 → Float32) (a b : UInt32) : UInt32 :=
  (f (Float32.ofBits a) (Float32.ofBits b)).toBits

namespace Condition

/-- Whether the condition holds of two operands, the lower one first. -/
@[inline]
def holds (c : Condition) (a b : UInt32) : Bool :=
  match c with
  | .eq => a == b
  | .ne => a != b
  | .ltI => a.toInt32 < b.toInt32
  | .leI => a.toInt32 ≤ b.toInt32
  | .gtI => b.toInt32 < a.toInt32
  | .geI => b.toInt32 ≤ a.toInt32
  | .ltU => a < b
  | .leU => a ≤ b
  | .gtU => b < a
  | .geU => b ≤ a
  | .eqF => Float32.ofBits a == Float32.ofBits b
  | .neF => !(Float32.ofBits a == Float32.ofBits b)
  | .ltF => Float32.ofBits a < Float32.ofBits b
  | .leF => Float32.ofBits a ≤ Float32.ofBits b
  | .gtF => Float32.ofBits b < Float32.ofBits a
  | .geF => Float32.ofBits b ≤ Float32.ofBits a

end Condition

namespace Unary

/-- The result for one operand. A float is cut toward zero and kept inside the range of
signed words; what is not a number becomes zero. -/
def apply (op : Unary) (a : UInt32) : UInt32 :=
  match op with
  | .signExtend8 => a.toUInt8.toInt8.toInt32.toUInt32
  | .signExtend16 => a.toUInt16.toInt16.toInt32.toUInt32
  | .negI => 0 - a
  | .complement => ~~~a
  | .negF => a ^^^ signBit
  | .intToFloat => a.toInt32.toFloat32.toBits
  | .floatToInt => (Float32.ofBits a).toInt32.toUInt32

end Unary

namespace Binary

/-- The result for two operands, the lower one first. -/
def apply (op : Binary) (a b : UInt32) : UInt32 :=
  match op with
  | .add => a + b
  | .sub => a - b
  | .mulI | .mulU => a * b
  | .and => a &&& b
  | .or => a ||| b
  | .xor => a ^^^ b
  | .shiftLeft => a <<< b
  | .shiftRightI => (a.toInt32 >>> b.toInt32).toUInt32
  | .shiftRightU => a >>> b
  | .addF => onFloats (· + ·) a b
  | .subF => onFloats (· - ·) a b
  | .divF => onFloats (· / ·) a b
  | .mulF => onFloats (· * ·) a b

end Binary

namespace Division

/-- The quotient or remainder, cut toward zero; `none` when the divisor is zero. -/
def result? (op : Division) (a b : UInt32) : Option UInt32 :=
  if b = 0 then none
  else
    some <| match op with
      | .divI => (a.toInt32 / b.toInt32).toUInt32
      | .divU => a / b
      | .modI => (a.toInt32 % b.toInt32).toUInt32
      | .modU => a % b

end Division

end SandboxVm
