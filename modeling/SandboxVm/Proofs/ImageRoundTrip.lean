/-
SandboxVm.Proofs.ImageRoundTrip — an image that was laid out is read back.

`Layout.build` adds up the places of the segments while it writes them. `Image.parse` takes the
places from the header, except for that of the jump table, which it finds behind the data.

  §1  numbers of bytes as header fields;
  §2  `Layout.header`, the header that is written: it is read back and passes its checks;
  §3  `parse_build`: the segments are where the header says, whatever follows the image.
-/
import Mathlib.Algebra.Group.Nat.Defs
import SandboxVm.Image

namespace SandboxVm

/-! ## §1 Lengths as header fields -/

/-- Numbers below 2 ^ 31 go through a header word unchanged. -/
theorem toInt_toInt32_ofNat {n : Nat} (h : n < 2 ^ 31) : (UInt32.ofNat n).toInt32.toInt = n :=
  Int32.toInt_ofNat_of_lt h

theorem toNatClampNeg_toInt32_ofNat {n : Nat} (h : n < 2 ^ 31) :
    (UInt32.ofNat n).toInt32.toNatClampNeg = n := by
  rw [Int32.toNatClampNeg, toInt_toInt32_ofNat h, Int.toNat_natCast]

theorem zero_le_toInt32_ofNat {n : Nat} (h : n < 2 ^ 31) : 0 ≤ (UInt32.ofNat n).toInt32 := by
  rw [Int32.le_iff_toInt_le, toInt_toInt32_ofNat h]
  exact Int.natCast_nonneg n

/-- The part of a byte string that stands between two others. -/
theorem Bytes.slice?_append (before bytes after : Bytes) :
    Bytes.slice? (before ++ bytes ++ after) before.length bytes.length = some bytes := by
  simp [slice?]

theorem Bytes.length_flatMap_ofWord (ws : List UInt32) :
    (ws.flatMap ofWord).length = 4 * ws.length := by
  induction ws with
  | nil => rfl
  | cons w ws ih =>
    simp only [List.flatMap_cons, List.length_append, length_ofWord, ih, List.length_cons]
    omega

/-! ## §2 Headers -/

@[simp]
theorem Format.ofMagic?_magic (f : Format) : ofMagic? f.magic = some f := by
  cases f <;> rfl

namespace Layout

/-- The length in bytes of the jump table that is written. -/
def jumpTableLength (l : Layout) : Nat := 4 * l.targetWords.length

/-- The header that is written. -/
def header (l : Layout) : Header where
  format := l.format
  instructionCount := l.code.instructionCount
  codeOffset := (UInt32.ofNat l.format.headerSize).toInt32
  codeLength := (UInt32.ofNat l.code.bytes.length).toInt32
  dataOffset := (UInt32.ofNat (l.format.headerSize + l.code.bytes.length)).toInt32
  dataLength := (UInt32.ofNat l.data.length).toInt32
  litLength := (UInt32.ofNat l.lit.length).toInt32
  bssLength := l.bss.toInt32
  jumpTableLength := (UInt32.ofNat l.jumpTableLength).toInt32

variable {l : Layout}

theorem length_headerWords : l.headerWords.length = l.format.headerWords := by
  obtain ⟨f, code, data, lit, bss⟩ := l
  cases f <;> rfl

/-- The size of an image is the sum of the sizes of its parts. -/
theorem length_build : l.build.length =
    l.format.headerSize + l.code.bytes.length + l.data.length + l.lit.length +
      l.jumpTableLength := by
  simp only [build, List.length_append, Bytes.length_flatMap_ofWord, length_headerWords,
    Format.headerSize, jumpTableLength]

/-- The words behind the magic one are read as the header that they were written for. -/
theorem exists_headerWords_eq_cons (l : Layout) :
    ∃ ws, l.headerWords = l.format.magic :: ws ∧ ws.length = l.format.headerWords - 1 ∧
      Header.ofWords? l.format ws = some l.header := by
  obtain ⟨f, code, data, lit, bss⟩ := l
  cases f with
  | legacy => exact ⟨_, rfl, rfl, rfl⟩
  | extended =>
    refine ⟨_, rfl, rfl, ?_⟩
    simp [Header.ofWords?, header, jumpTableLength, targetWords]

/-- What can be laid out: there is some code, the count of instructions is one, and the sizes of
the data and of the image have room in the header. -/
structure Fits (l : Layout) : Prop where
  code : l.code.bytes ≠ []
  count : 0 ≤ l.code.instructionCount
  data : l.data.length + l.lit.length + l.bss.toNat ≤ 2 ^ 30
  size : l.build.length < 2 ^ 31

theorem toInt_bss (h : l.Fits) : l.bss.toInt32.toInt = l.bss.toNat := by
  have hlt : l.bss.toNat < 2 ^ 31 := by have := h.data; omega
  simpa using toInt_toInt32_ofNat hlt

theorem wellFormed_header (h : l.Fits) : l.header.wellFormed = true := by
  have hsize := h.size
  rw [length_build] at hsize
  have hcode : 0 < l.code.bytes.length := List.length_pos_iff.2 h.code
  have hbss : 0 ≤ l.bss.toInt32 := by
    rw [Int32.le_iff_toInt_le, toInt_bss h]
    exact Int.natCast_nonneg _
  have hpos : 0 < (UInt32.ofNat l.code.bytes.length).toInt32 := by
    rw [Int32.lt_iff_toInt_lt, toInt_toInt32_ofNat (by omega)]
    exact Int.natCast_pos.2 hcode
  simp only [Header.wellFormed, header, Bool.and_eq_true, decide_eq_true_eq, hbss, hpos, h.count,
    zero_le_toInt32_ofNat (n := l.jumpTableLength) (by omega),
    zero_le_toInt32_ofNat (n := l.data.length) (by omega),
    zero_le_toInt32_ofNat (n := l.lit.length) (by omega),
    zero_le_toInt32_ofNat (n := l.format.headerSize) (by omega),
    zero_le_toInt32_ofNat (n := l.format.headerSize + l.code.bytes.length) (by omega), and_self]

theorem dataTotal_header (h : l.Fits) : l.header.dataTotal ≤ Header.maxDataSize := by
  have hdata := h.data
  have hbss : l.bss.toInt32.toNatClampNeg = l.bss.toNat := by
    rw [Int32.toNatClampNeg, toInt_bss h, Int.toNat_natCast]
  rw [Header.dataTotal, header, toNatClampNeg_toInt32_ofNat (by omega),
    toNatClampNeg_toInt32_ofNat (by omega), hbss]
  exact hdata

/-- The header that was written is read back, whatever follows it. -/
theorem parse_headerWords (h : l.Fits) (rest : Bytes) :
    Header.parse (l.headerWords.flatMap Bytes.ofWord ++ rest) = .ok l.header := by
  obtain ⟨ws, hws, hlen, hof⟩ := exists_headerWords_eq_cons l
  have hfields := Bytes.words?_flatMap_ofWord ws rest
  rw [hlen] at hfields
  rw [hws, List.flatMap_cons, List.append_assoc, Header.parse, Bytes.word?_ofWord_append]
  simp [hfields, hof, wellFormed_header h, dataTotal_header h]

/-! ## §3 Images -/

/-- The image presents what was laid out: its format, counts and lengths, its segments, and its
jump table if the format has one. -/
structure Presents (image : Image) (l : Layout) : Prop where
  format : image.header.format = l.format
  count : image.header.instructionCount = l.code.instructionCount
  code : image.code = l.code.bytes
  data : image.data = l.data ++ l.lit
  dataLength : image.header.dataLength.toInt = l.data.length
  litLength : image.header.litLength.toInt = l.lit.length
  bssLength : image.header.bssLength.toInt = l.bss.toNat
  extended : l.format = .extended → image.jumpTargets = l.code.jumpTargets
  legacy : l.format = .legacy → image.jumpTargets = [] ∧ image.header.jumpTableLength = 0

/-- The jump table is found where the data end. -/
theorem readTargets?_header (h : l.Fits) (before tail : Bytes) :
    Image.readTargets? (before ++ (l.targetWords.flatMap Bytes.ofWord ++ tail)) l.header
      before.length = some (l.targetWords.map UInt32.toInt32) := by
  have hsize := h.size
  rw [length_build] at hsize
  have hcount : l.header.jumpTableCount = l.targetWords.length := by
    rw [Header.jumpTableCount, header, toNatClampNeg_toInt32_ofNat (by omega), jumpTableLength]
    omega
  unfold Image.readTargets?
  split
  next hf => simp [targetWords, show l.format = .legacy from hf]
  next => rw [List.drop_left, hcount, Bytes.words?_flatMap_ofWord, Option.map_some]

/-- What was laid out is read back, whatever follows the image. -/
theorem parse_build_append (h : l.Fits) (tail : Bytes) :
    Image.parse (l.build ++ tail) =
      .ok ⟨l.header, l.code.bytes, l.data ++ l.lit, l.targetWords.map UInt32.toInt32⟩ := by
  have hsize := h.size
  rw [length_build] at hsize
  have hhead : (l.headerWords.flatMap Bytes.ofWord).length = l.format.headerSize := by
    rw [Bytes.length_flatMap_ofWord, length_headerWords, Format.headerSize]
  -- The same bytes, cut at the segment that is read.
  have hheader : Header.parse (l.build ++ tail) = .ok l.header := by
    simpa only [build, List.append_assoc] using parse_headerWords h _
  have hcode : (l.build ++ tail).slice? l.header.codeOffset.toNatClampNeg
      l.header.codeLength.toNatClampNeg = some l.code.bytes := by
    rw [header, toNatClampNeg_toInt32_ofNat (by omega), toNatClampNeg_toInt32_ofNat (by omega),
      ← hhead]
    simpa only [build, List.append_assoc] using
      Bytes.slice?_append (l.headerWords.flatMap Bytes.ofWord) l.code.bytes
        (l.data ++ l.lit ++ l.targetWords.flatMap Bytes.ofWord ++ tail)
  have hlens : l.header.dataLength.toNatClampNeg + l.header.litLength.toNatClampNeg =
      (l.data ++ l.lit).length := by
    rw [header, toNatClampNeg_toInt32_ofNat (by omega), toNatClampNeg_toInt32_ofNat (by omega),
      List.length_append]
  have hstart : l.header.dataOffset.toNatClampNeg =
      (l.headerWords.flatMap Bytes.ofWord ++ l.code.bytes).length := by
    rw [header, toNatClampNeg_toInt32_ofNat (by omega), List.length_append, hhead]
  have hdata : (l.build ++ tail).slice? l.header.dataOffset.toNatClampNeg
      (l.header.dataLength.toNatClampNeg + l.header.litLength.toNatClampNeg) =
        some (l.data ++ l.lit) := by
    rw [hlens, hstart]
    simpa only [build, List.append_assoc] using
      Bytes.slice?_append (l.headerWords.flatMap Bytes.ofWord ++ l.code.bytes) (l.data ++ l.lit)
        (l.targetWords.flatMap Bytes.ofWord ++ tail)
  have htargets : Image.readTargets? (l.build ++ tail) l.header
      (l.header.dataOffset.toNatClampNeg +
        (l.header.dataLength.toNatClampNeg + l.header.litLength.toNatClampNeg)) =
        some (l.targetWords.map UInt32.toInt32) := by
    rw [hlens, hstart, ← List.length_append]
    simpa only [build, List.append_assoc] using readTargets?_header h
      (l.headerWords.flatMap Bytes.ofWord ++ l.code.bytes ++ (l.data ++ l.lit)) tail
  simp only [Image.parse, hheader, bind, Except.bind, hcode, hdata, htargets]

/-- Whatever fits into an image is read back from it: laying out a module and parsing the image
succeeds and presents the module, also when arbitrary bytes follow the image. -/
theorem parse_build (l : Layout) (h : l.Fits) :
    ∃ image, Image.parse l.build = .ok image ∧
      (∀ tail, Image.parse (l.build ++ tail) = .ok image) ∧ Presents image l := by
  have hsize := h.size
  rw [length_build] at hsize
  refine ⟨_, ?_, parse_build_append h, ?_⟩
  · simpa using parse_build_append h []
  · constructor
    case format | count | code | data => rfl
    case dataLength | litLength => exact toInt_toInt32_ofNat (by omega)
    case bssLength => exact toInt_bss h
    case extended =>
      intro hf
      simp [targetWords, hf, Function.comp_def]
    case legacy =>
      intro hf
      simp [targetWords, header, jumpTableLength, hf]

/-- One jump target, both kinds of data and space behind them. -/
def small : Layout := ⟨.extended, ⟨[5], 1, [-7]⟩, [1, 2], [3], 9⟩

theorem parse_build_small :
    small.Fits ∧ ∃ image, Image.parse small.build = .ok image ∧
      (∀ tail, Image.parse (small.build ++ tail) = .ok image) ∧ Presents image small := by
  have hfits : small.Fits := ⟨by decide, by decide, by decide, by decide⟩
  exact ⟨hfits, parse_build small hfits⟩

end Layout

end SandboxVm
