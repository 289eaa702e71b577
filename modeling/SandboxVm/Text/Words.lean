/-
SandboxVm.Text.Words — text cut at blanks.

A blank is a character with the White_Space property.
-/

namespace SandboxVm.Text

/-- Characters with the White_Space property. -/
def isBlank (c : Char) : Bool :=
  let n := c.toNat
  (9 ≤ n && n ≤ 13) || n == 32 || n == 0x85 || n == 0xA0 || n == 0x1680 ||
    (0x2000 ≤ n && n ≤ 0x200A) || n == 0x2028 || n == 0x2029 || n == 0x202F || n == 0x205F ||
    n == 0x3000

/-- The longest runs without blanks, in order. -/
def words (s : String) : List String :=
  ((s.toList.splitBy fun a b => isBlank a == isBlank b).filter
    fun run => !run.all isBlank).map String.ofList

end SandboxVm.Text
