/-
SandboxVm.Text.Fixed — a binary floating-point number with a fixed number of decimals.

The number is taken apart into an integer times a power of two, so the decimal expansion
is exact; what lies beyond the last decimal is rounded to nearest, a tie to the even
neighbour.
-/
import SandboxVm.Text

namespace SandboxVm.Text

/-- The quotient rounded to nearest, a tie to the even neighbour. -/
def roundDiv (num den : Nat) : Nat :=
  let q := num / den
  let twice := 2 * (num % den)
  if twice < den then q
  else if den < twice then q + 1
  else q + q % 2

/-- The leading bit of a significand, which is not written down. -/
def hiddenBit : Nat := 4503599627370496

/-- The significand and the exponent of two of a non-negative finite number. -/
def significand (x : Float) : Nat × Int :=
  let bits := x.toBits.toNat
  let exponent : Nat := bits / hiddenBit % 2048
  let fraction : Nat := bits % hiddenBit
  if exponent = 0 then (fraction, -1074) else (fraction + hiddenBit, (exponent : Int) - 1075)

/-- A power of ten. -/
def tenTo (places : Nat) : Nat := Nat.pow 10 places

/-- A non-negative finite number times a power of ten, rounded to an integer. -/
def scaled (places : Nat) (x : Float) : Nat :=
  let (m, e) := significand x
  match e with
  | .ofNat e => (m <<< e) * tenTo places
  | .negSucc e => roundDiv (m * tenTo places) (1 <<< (e + 1))

/-- Decimal text of a non-negative finite number with a fixed number of decimals. -/
def fixed (places : Nat) (x : Float) : String :=
  let n := scaled places x
  let decimals := nat (n % tenTo places)
  nat (n / tenTo places) ++ "." ++
    String.ofList (List.replicate (places - decimals.length) '0') ++ decimals

end SandboxVm.Text
