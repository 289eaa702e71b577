/-
SandboxVm.Image — module images: their segments, and how an image is laid out.

`Image.parse` cuts an image into its segments, which may lie anywhere inside it except
for the jump table, which follows the literal data. `Layout.build` writes the canonical
image: header, code, data, literals, jump table.
-/
import SandboxVm.Assembly
import SandboxVm.Image.Header

namespace SandboxVm

/-- A parsed image. -/
structure Image where
  header : Header
  code : Bytes
  /-- Initialised data immediately followed by literal data. -/
  data : Bytes
  /-- The jump table; empty in the legacy format. -/
  jumpTargets : List Int32
  deriving DecidableEq

namespace Image

/-- The jump table that starts at byte `start` of an image. -/
def readTargets? (bytes : Bytes) (h : Header) (start : Nat) : Option (List Int32) :=
  match h.format with
  | .legacy => some []
  | .extended =>
    (Bytes.words? h.jumpTableCount (bytes.drop start)).map fun (ws, _) => ws.map UInt32.toInt32

/-- Reads an image: a valid header, and every segment inside the image. -/
def parse (bytes : Bytes) : Except LoadError Image := do
  let header ← Header.parse bytes
  let dataLen := header.dataLength.toNatClampNeg + header.litLength.toNatClampNeg
  let dataStart := header.dataOffset.toNatClampNeg
  match bytes.slice? header.codeOffset.toNatClampNeg header.codeLength.toNatClampNeg,
      bytes.slice? dataStart dataLen, readTargets? bytes header (dataStart + dataLen) with
  | some code, some data, some jumpTargets => .ok ⟨header, code, data, jumpTargets⟩
  | _, _, _ => .error .segmentOutOfImage

end Image

/-- What goes into an image. -/
structure Layout where
  format : Format
  code : Code
  data : Bytes
  lit : Bytes
  bss : UInt32

namespace Layout

/-- The header words in file order. -/
def headerWords (l : Layout) : List UInt32 :=
  let codeOffset := l.format.headerSize
  let dataOffset := codeOffset + l.code.bytes.length
  let fixed := [l.format.magic, l.code.instructionCount.toUInt32, UInt32.ofNat codeOffset,
    UInt32.ofNat l.code.bytes.length, UInt32.ofNat dataOffset, UInt32.ofNat l.data.length,
    UInt32.ofNat l.lit.length, l.bss]
  match l.format with
  | .legacy => fixed
  | .extended => fixed ++ [UInt32.ofNat (4 * l.code.jumpTargets.length)]

/-- The jump-table segment. -/
def targetWords (l : Layout) : List UInt32 :=
  match l.format with
  | .legacy => []
  | .extended => l.code.jumpTargets.map Int32.toUInt32

/-- The image: header, code, data, literals, jump table. -/
def build (l : Layout) : Bytes :=
  l.headerWords.flatMap Bytes.ofWord ++ l.code.bytes ++ l.data ++ l.lit ++
    l.targetWords.flatMap Bytes.ofWord

end Layout

end SandboxVm
