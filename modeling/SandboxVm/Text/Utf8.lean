/-
SandboxVm.Text.Utf8 — text from bytes that may not be valid UTF-8.

Each longest run of bytes that starts a valid encoding and is then broken off is replaced
by one replacement character; a byte that starts none is replaced alone.
-/
import SandboxVm.Bytes
import SandboxVm.Text

namespace SandboxVm.Text

/-- The character that stands for undecodable bytes. -/
def replacement : Char := '\uFFFD'

/-- Bytes that continue an encoding. -/
def isContinuation (b : UInt8) : Bool := 0x80 ≤ b && b ≤ 0xBF

/-- The second bytes allowed behind the first byte of a three-byte encoding. -/
def secondOfThree (a b : UInt8) : Bool :=
  if a = 0xE0 then 0xA0 ≤ b && b ≤ 0xBF
  else if a = 0xED then 0x80 ≤ b && b ≤ 0x9F
  else isContinuation b

/-- The second bytes allowed behind the first byte of a four-byte encoding. -/
def secondOfFour (a b : UInt8) : Bool :=
  if a = 0xF0 then 0x90 ≤ b && b ≤ 0xBF
  else if a = 0xF4 then 0x80 ≤ b && b ≤ 0x8F
  else isContinuation b

/-- The low six bits of a continuation byte. -/
def payload (b : UInt8) : Nat := b.toNat % 64

/-- Decodes a byte string behind `acc`, which is reversed, replacing what is not UTF-8. -/
def decodeFrom : Bytes → (acc : List Char) → List Char
  | [], acc => acc.reverse
  | a :: rest, acc =>
    if a < 0x80 then decodeFrom rest (Char.ofNat a.toNat :: acc)
    else if 0xC2 ≤ a && a ≤ 0xDF then
      match rest with
      | b :: rest' =>
        if isContinuation b then
          decodeFrom rest' (Char.ofNat (a.toNat % 32 * 64 + payload b) :: acc)
        else decodeFrom (b :: rest') (replacement :: acc)
      | [] => (replacement :: acc).reverse
    else if 0xE0 ≤ a && a ≤ 0xEF then
      match rest with
      | b :: c :: rest' =>
        if secondOfThree a b then
          if isContinuation c then
            decodeFrom rest'
              (Char.ofNat (a.toNat % 16 * 4096 + payload b * 64 + payload c) :: acc)
          else decodeFrom (c :: rest') (replacement :: acc)
        else decodeFrom (b :: c :: rest') (replacement :: acc)
      | [b] =>
        if secondOfThree a b then (replacement :: acc).reverse
        else decodeFrom [b] (replacement :: acc)
      | [] => (replacement :: acc).reverse
    else if 0xF0 ≤ a && a ≤ 0xF4 then
      match rest with
      | b :: c :: d :: rest' =>
        if secondOfFour a b then
          if isContinuation c then
            if isContinuation d then
              decodeFrom rest' (Char.ofNat (a.toNat % 8 * 262144 + payload b * 4096 +
                payload c * 64 + payload d) :: acc)
            else decodeFrom (d :: rest') (replacement :: acc)
          else decodeFrom (c :: d :: rest') (replacement :: acc)
        else decodeFrom (b :: c :: d :: rest') (replacement :: acc)
      | [b, c] =>
        if secondOfFour a b then
          if isContinuation c then (replacement :: acc).reverse
          else decodeFrom [c] (replacement :: acc)
        else decodeFrom [b, c] (replacement :: acc)
      | [b] =>
        if secondOfFour a b then (replacement :: acc).reverse
        else decodeFrom [b] (replacement :: acc)
      | [] => (replacement :: acc).reverse
    else decodeFrom rest (replacement :: acc)
termination_by bytes => bytes.length

/-- The text of a byte string. -/
def decodeUtf8 (bytes : Bytes) : String := String.ofList (decodeFrom bytes [])

/-- The text of a byte string that is valid UTF-8. -/
def ofUtf8? (bytes : Bytes) : Option String := String.fromUTF8? bytes.toByteArray

/-- The bytes of a text. -/
def toUtf8 (s : String) : Bytes := s.toUTF8.data.toList

end SandboxVm.Text
