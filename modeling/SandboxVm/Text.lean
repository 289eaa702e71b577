/-
SandboxVm.Text — numbers and names as they appear in reports and listings.

Columns are filled with blanks, hexadecimal is lower case, and a text inside a
diagnostic stands between double quotes with its special characters escaped.
-/

namespace SandboxVm.Text

/-- Fills with blanks on the left up to `width` characters. -/
def right (width : Nat) (s : String) : String :=
  String.ofList (List.replicate (width - s.length) ' ') ++ s

/-- Fills with blanks on the right up to `width` characters. -/
def left (width : Nat) (s : String) : String :=
  s ++ String.ofList (List.replicate (width - s.length) ' ')

/-- Lower-case hexadecimal without leading zeros. -/
def hex (n : Nat) : String := String.ofList (Nat.toDigits 16 n)

/-- Lower-case hexadecimal, filled with zeros up to `width` digits. -/
def hexPadded (width n : Nat) : String :=
  let digits := Nat.toDigits 16 n
  String.ofList (List.replicate (width - digits.length) '0' ++ digits)

/-- Decimal text of a natural number. -/
def nat (n : Nat) : String := String.ofList (Nat.toDigits 10 n)

/-- Decimal text of an integer. -/
def int : Int → String
  | .ofNat n => nat n
  | .negSucc n => "-" ++ nat (n + 1)

/-- Decimal text of a signed word. -/
def signed (w : Int32) : String := int w.toInt

/-- The value of a hexadecimal digit, in either case. -/
def hexDigit? (c : Char) : Option Nat :=
  if '0' ≤ c ∧ c ≤ '9' then some (c.toNat - 48)
  else if 'a' ≤ c ∧ c ≤ 'f' then some (c.toNat - 87)
  else if 'A' ≤ c ∧ c ≤ 'F' then some (c.toNat - 55)
  else none

end SandboxVm.Text
