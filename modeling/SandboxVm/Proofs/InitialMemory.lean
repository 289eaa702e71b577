/-
SandboxVm.Proofs.InitialMemory — the memory that a module starts with.

The lengths in the header of an image are added up and checked once, when the image is read. All
that is computed from them afterwards is computed in 32 bits, and relies on this check: the size
of the region, the mask, and the ends of the program stack.

  §1  `Sandbox.roundUp` is the least size that a region can have;
  §2  `Checked.dataSize?`: the size of the region in words of 32 bits, with every step checked,
      which succeeds for all headers that are read;
  §3  `Instance.StartsFrom`: what an image says about memory and stack.

`initial_memory` states the result.
-/
import Mathlib.Order.Bounds.Defs
import SandboxVm.Proofs.ImageFormat
import SandboxVm.Proofs.Lifecycle

namespace SandboxVm

/-! ## §1 Sizes of regions -/

namespace Sandbox

theorem isLeast_roundUp (n : Nat) : IsLeast {p | p.isPowerOfTwo ∧ max 4 n ≤ p} (roundUp n) := by
  refine ⟨⟨isPowerOfTwo_roundUp n, le_roundUp n⟩, ?_⟩
  rintro p ⟨⟨k, rfl⟩, hle⟩
  have hlog : (max 4 n - 1).log2 < k := (Nat.log2_lt (by omega)).2 (by omega)
  rw [roundUp, Nat.one_shiftLeft]
  exact Nat.pow_le_pow_right (by omega) hlog

/-- A region that is made for data holds the data first and zeros behind it. -/
theorem toList_ofData (size : UInt32) {data : Bytes} (h : data.length ≤ roundUp size.toNat) :
    (ofData size data).bytes.data.toList =
      data ++ List.replicate (roundUp size.toNat - data.length) 0 := by
  have hroom : 0 + data.length ≤ (Region.zeros (roundUp size.toNat)).size := by
    rw [Region.size_zeros]
    omega
  have hover := Region.toList_overwrite _ 0 data hroom
  rw [Region.toList_zeros, List.take_zero, List.nil_append, List.drop_replicate,
    Nat.zero_add] at hover
  exact hover

end Sandbox

/-! ## §2 Sizes in words -/

namespace Checked

/-- The least power of two that is not below a word, unless it has more than 32 bits. -/
def powerOfTwo? (n : UInt32) : Option UInt32 :=
  ((List.range 32).map fun k => UInt32.ofNat (2 ^ k)).find? (n ≤ ·)

/-- The size of the region that a header asks for: the lengths of the data, of the literals and
of the zeros are added up, which fails if a sum has more than 32 bits. -/
def dataSize? (h : Header) : Option UInt32 :=
  (Sandbox.endAddress? h.dataLength.toUInt32 h.litLength.toUInt32).bind fun initialised =>
    (Sandbox.endAddress? initialised h.bssLength.toUInt32).bind fun total =>
      powerOfTwo? (max total 4)

theorem powerOfTwo?_max {n : UInt32} (h : n.toNat ≤ Header.maxDataSize) :
    powerOfTwo? (max n 4) = some (UInt32.ofNat (Sandbox.roundUp n.toNat)) := by
  have hword (k : Nat) (hk : k < 32) :
      (max n 4 ≤ UInt32.ofNat (2 ^ k)) ↔ max 4 n.toNat ≤ 2 ^ k := by
    have hpow : 2 ^ k < UInt32.size := Nat.pow_lt_pow_right (by omega) hk
    have hfour : (4 : UInt32).toNat = 4 := rfl
    rw [UInt32.le_iff_toNat_le, UInt32.toNat_max, UInt32.toNat_ofNat_of_lt' hpow, hfour,
      Nat.max_comm]
  -- the exponent is one more than that of the last bit of the number before
  have hlog : (max 4 n.toNat - 1).log2 < 30 := by
    simp only [Header.maxDataSize] at h
    exact (Nat.log2_lt (by omega)).2 (by omega)
  have hfind : (List.range 32).find? ((max n 4 ≤ ·) ∘ fun k => UInt32.ofNat (2 ^ k)) =
      some ((max 4 n.toNat - 1).log2 + 1) := by
    refine List.find?_range_eq_some.2 ⟨?_, List.mem_range.2 (by omega), ?_⟩
    · have hle := Sandbox.le_roundUp n.toNat
      rw [Sandbox.roundUp, Nat.one_shiftLeft] at hle
      exact decide_eq_true ((hword _ (by omega)).2 hle)
    · intro j hj
      have hbelow : ¬ max 4 n.toNat ≤ 2 ^ j := by
        intro hle
        have hlt : (max 4 n.toNat - 1).log2 < j := (Nat.log2_lt (by omega)).2 (by omega)
        omega
      simpa using mt (hword j (by omega)).1 hbelow
  rw [powerOfTwo?, List.find?_map, hfind, Option.map_some, Sandbox.roundUp, Nat.one_shiftLeft]

/-- For the headers that are read, no step of the computation fails, and the result is exact. -/
theorem dataSize?_eq {h : Header} (hwf : h.wellFormed = true)
    (htotal : h.dataTotal ≤ Header.maxDataSize) :
    dataSize? h = some (Instance.dataSize h) := by
  obtain ⟨-, -, -, -, hdata, hlit, hbss, -⟩ := h.wellFormed_iff.1 hwf
  have hmax : Header.maxDataSize < UInt32.size := by decide
  have hdata := Int32.toNat_toUInt32_of_le (Int32.le_iff_toInt_le.2 hdata)
  have hlit := Int32.toNat_toUInt32_of_le (Int32.le_iff_toInt_le.2 hlit)
  have hbss := Int32.toNat_toUInt32_of_le (Int32.le_iff_toInt_le.2 hbss)
  unfold Header.dataTotal at htotal
  have hfirst : Sandbox.endAddress? h.dataLength.toUInt32 h.litLength.toUInt32 =
      some (h.dataLength.toUInt32 + h.litLength.toUInt32) := if_pos (by omega)
  have hinitialised := Sandbox.toNat_of_endAddress? hfirst
  have hsecond : Sandbox.endAddress? (h.dataLength.toUInt32 + h.litLength.toUInt32)
      h.bssLength.toUInt32 =
        some (h.dataLength.toUInt32 + h.litLength.toUInt32 + h.bssLength.toUInt32) :=
    if_pos (by omega)
  have hsum := Sandbox.toNat_of_endAddress? hsecond
  rw [dataSize?, hfirst, Option.bind_some, hsecond, Option.bind_some,
    powerOfTwo?_max (by omega), hsum, hinitialised, hdata, hlit, hbss]
  rfl

end Checked

/-! ## §3 The memory of a loaded instance -/

theorem Image.wellFormed_of_parse {bytes : Bytes} {image : Image}
    (hp : parse bytes = .ok image) : image.header.wellFormed = true := by
  unfold parse at hp
  cases hh : Header.parse bytes with
  | error e => simp [hh, bind, Except.bind] at hp
  | ok header =>
    simp only [hh, bind, Except.bind] at hp
    split at hp
    · cases hp
      exact Header.wellFormed_of_parse hh
    · cases hp

namespace Instance

variable {name : String} {bytes : Bytes} {opts : LoadOptions} {parsed : Parsed} {inst : Instance}

theorem toNat_dataSize {h : Header} (htotal : h.dataTotal ≤ Header.maxDataSize) :
    (dataSize h).toNat = Sandbox.roundUp h.dataTotal :=
  UInt32.toNat_ofNat_of_lt'
    (Nat.lt_of_le_of_lt (Sandbox.roundUp_le_maxDataSize htotal) (by decide))

theorem exists_parse_of_load (h : load name bytes opts = .ok inst) :
    ∃ parsed, parse bytes = .ok parsed ∧ inst.state = .ready ∧
      inst.header = parsed.image.header ∧
      inst.memory = Sandbox.ofData (dataSize parsed.image.header) parsed.image.data := by
  cases hparsed : parse bytes with
  | error e =>
    rw [load_of_parse_error hparsed] at h
    cases h
  | ok parsed =>
    unfold load at h
    rw [hparsed] at h
    cases h
    exact ⟨parsed, rfl, rfl, rfl, rfl⟩

/-- The memory and the stack of an instance are as an image says: the region is the smallest one
with room for the data, and of four bytes at least; it holds the data that stands in the image,
and zeros; and the program stack begins at its end. -/
structure StartsFrom (bytes : Bytes) (inst : Instance) : Prop where
  numbers : inst.header.numbers = Image.numbers bytes
  size : IsLeast {p : Nat | p.isPowerOfTwo ∧
    max 4 ((Image.numbers bytes).dataLength + (Image.numbers bytes).litLength +
      (Image.numbers bytes).bssLength) ≤ p} inst.memory.size
  size_le : inst.memory.size ≤ 2 ^ 30
  dataSize : (Instance.dataSize inst.header).toNat = inst.memory.size
  dataSize? : Checked.dataSize? inst.header = some (Instance.dataSize inst.header)
  mask : inst.memory.mask.toNat = inst.memory.size - 1
  contents : ∃ data : Bytes, data.StandsAt (Image.numbers bytes).dataOffset bytes ∧
    (data.length : Int) = (Image.numbers bytes).dataLength + (Image.numbers bytes).litLength ∧
    inst.memory.bytes.data.toList =
      data ++ List.replicate (inst.memory.size - data.length) 0
  stack : inst.programStack.toInt = inst.memory.size
  bottom : inst.stackBottom.toInt = inst.memory.size - 0x10000

theorem isLeast_size {h : Header} (hwf : h.wellFormed = true) :
    IsLeast {p : Nat | p.isPowerOfTwo ∧
      max 4 (h.numbers.dataLength + h.numbers.litLength + h.numbers.bssLength) ≤ p}
        (Sandbox.roundUp h.dataTotal) := by
  have hcast (p : Nat) : max 4 (h.dataTotal : Int) ≤ p ↔ max 4 h.dataTotal ≤ p := by omega
  simp only [← Header.natCast_dataTotal hwf, hcast]
  exact Sandbox.isLeast_roundUp h.dataTotal

/-- Loading an image gives the instance the memory and the stack that the image says. -/
theorem initial_memory (h : load name bytes opts = .ok inst) : inst.StartsFrom bytes := by
  obtain ⟨parsed, hparsed, hstate, hheader, hmemory⟩ := exists_parse_of_load h
  have hloaded : inst.state ≠ .unloaded := by simp [hstate]
  have hfurnished := (resting_of_load h).furnished hloaded
  have hstack := seated_of_load h hloaded
  have himage := image_of_parse hparsed
  have hcut := Image.cutFrom_of_parse himage
  have hwf := Image.wellFormed_of_parse himage
  obtain ⟨hdata, htotal⟩ := Image.length_data_le_of_parse himage
  have hbytes := toNat_dataSize htotal
  have hround : Sandbox.roundUp (dataSize parsed.image.header).toNat = inst.memory.size := by
    rw [hmemory, Sandbox.size_ofData]
  have hsize : inst.memory.size = Sandbox.roundUp parsed.image.header.dataTotal := by
    rw [← hround, hbytes]
    have hfour := Sandbox.le_roundUp parsed.image.header.dataTotal
    exact Sandbox.roundUp_eq_self (Sandbox.isPowerOfTwo_roundUp _) (by omega)
  constructor
  case numbers =>
    rw [hheader]
    exact hcut.numbers
  case size =>
    rw [← hcut.numbers, hsize]
    exact isLeast_size hwf
  case size_le => exact (fits_of_load h).size_le
  case dataSize => rw [hheader, hbytes, hsize]
  case dataSize? =>
    rw [hheader]
    exact Checked.dataSize?_eq hwf htotal
  case mask =>
    have hmask : inst.memory.size = inst.memory.mask.toNat + 1 := inst.memory.size_eq
    omega
  case contents =>
    refine ⟨parsed.image.data, hcut.data, hcut.length_data, ?_⟩
    have hroom :
        parsed.image.data.length ≤ Sandbox.roundUp (dataSize parsed.image.header).toNat := by
      have hfour := Sandbox.le_roundUp parsed.image.header.dataTotal
      omega
    rw [← hround, hmemory, Sandbox.toList_ofData _ hroom]
  case stack => exact hstack
  case bottom => rw [hfurnished.bottom, hstack]

/-- The image of a module with three bytes of data, two literals and room for sixty more bytes. -/
def spacious : Bytes :=
  Layout.build ⟨.legacy, ⟨Instruction.encode ⟨.ignore, 0⟩, 1, []⟩, [1, 2, 3], [4, 5], 60⟩

theorem initial_memory_spacious :
    ∃ inst, load "m" spacious ⟨.interpreted, none, false⟩ = .ok inst ∧ inst.memory.size = 128 ∧
      inst.StartsFrom spacious := by
  have hsize : ((load "m" spacious ⟨.interpreted, none, false⟩).toOption.map (·.memory.size)) =
      some 128 := by decide +kernel
  obtain ⟨inst, hload, hsize⟩ := Option.map_eq_some_iff.1 hsize
  have hload := eq_ok_of_toOption hload
  exact ⟨inst, hload, hsize, initial_memory hload⟩

end Instance

end SandboxVm
