/-
SandboxVm.Image.Header — the fixed fields at the start of a module image.

Two formats exist. A legacy header has eight words; an extended one has a ninth, the
length of a jump table. All fields are signed little-endian words, and a header is
accepted when no count, offset or length is negative, there is some code, and the data
region does not exceed `maxDataSize`.
-/
import SandboxVm.Bytes
import SandboxVm.Error

namespace SandboxVm

/-- The layout of an image. -/
inductive Format where
  /-- Without a jump table. -/
  | legacy
  /-- With a jump-table segment. -/
  | extended
  deriving DecidableEq

namespace Format

/-- The word that starts an image of this format. -/
def magic : Format → UInt32
  | .legacy => 0x12721444
  | .extended => 0x12721445

/-- The format announced by the first word of an image. -/
def ofMagic? (w : UInt32) : Option Format :=
  if w = magic .legacy then some .legacy
  else if w = magic .extended then some .extended
  else none

/-- Header length in words. -/
def headerWords : Format → Nat
  | .legacy => 8
  | .extended => 9

/-- Header length in bytes. -/
def headerSize (f : Format) : Nat := 4 * f.headerWords

end Format

/-- The fields of an image header. -/
structure Header where
  format : Format
  instructionCount : Int32
  codeOffset : Int32
  codeLength : Int32
  dataOffset : Int32
  dataLength : Int32
  litLength : Int32
  bssLength : Int32
  /-- Length of the jump table in bytes; zero in the legacy format. -/
  jumpTableLength : Int32
  deriving DecidableEq

namespace Header

/-- The largest data region that an image may ask for. -/
def maxDataSize : Nat := 1073741824

/-- The header fields behind the magic word, in file order. -/
def ofWords? (f : Format) (ws : List UInt32) : Option Header :=
  match f, ws with
  | .legacy, [n, co, cl, d, dl, ll, bl] =>
    some ⟨f, n.toInt32, co.toInt32, cl.toInt32, d.toInt32, dl.toInt32, ll.toInt32, bl.toInt32, 0⟩
  | .extended, [n, co, cl, d, dl, ll, bl, jl] =>
    some ⟨f, n.toInt32, co.toInt32, cl.toInt32, d.toInt32, dl.toInt32, ll.toInt32, bl.toInt32,
      jl.toInt32⟩
  | _, _ => none

/-- No count, offset or length is negative, and there is some code. -/
def wellFormed (h : Header) : Bool :=
  0 ≤ h.jumpTableLength && 0 ≤ h.bssLength && 0 ≤ h.dataLength && 0 ≤ h.litLength &&
    0 < h.codeLength && 0 ≤ h.instructionCount && 0 ≤ h.codeOffset && 0 ≤ h.dataOffset

/-- Bytes of initialised, literal and zero-filled data together. -/
def dataTotal (h : Header) : Nat :=
  h.dataLength.toNatClampNeg + h.litLength.toNatClampNeg + h.bssLength.toNatClampNeg

/-- Reads and checks the header of an image. -/
def parse (bytes : Bytes) : Except LoadError Header :=
  match bytes.word? with
  | none => .error .imageTruncated
  | some (magic, rest) =>
    match Format.ofMagic? magic with
    | none => .error .badMagic
    | some f =>
      match (rest.words? (f.headerWords - 1)).bind fun (ws, _) => ofWords? f ws with
      | none => .error .imageTruncated
      | some h =>
        if !h.wellFormed then .error .badHeader
        else if h.dataTotal > maxDataSize then .error .dataTooLarge
        else .ok h

/-- The number of jump-table entries; an incomplete last entry does not count. -/
def jumpTableCount (h : Header) : Nat := h.jumpTableLength.toNatClampNeg / 4

end Header

end SandboxVm
