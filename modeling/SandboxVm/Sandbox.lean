/-
SandboxVm.Sandbox — the data region of a module.

The region has a power of two of at least four bytes. Every address that a module
supplies is masked into the region, and an access of two or four bytes is aligned down to
its own width, so a module can reach no byte outside it. A host works with pointers
instead: the null pointer refers to nothing, and a range that would run past the end of
the region is refused rather than wrapped.

The shape of the region is part of its type, and every operation below keeps it.
-/
import SandboxVm.Bytes
import SandboxVm.Error
import SandboxVm.Opcode
import SandboxVm.Text.Utf8

namespace SandboxVm

/-! ## Byte arrays -/

namespace Region

/-- `n` zero bytes behind `acc`. -/
def pushZeros : Nat → ByteArray → ByteArray
  | 0, acc => acc
  | n + 1, acc => pushZeros n (acc.push 0)

theorem toList_pushZeros (n : Nat) (acc : ByteArray) :
    (pushZeros n acc).data.toList = acc.data.toList ++ List.replicate n 0 := by
  induction n generalizing acc with
  | zero => simp [pushZeros]
  | succ n ih => simp [pushZeros, ih, ByteArray.data_push, List.replicate_succ]

/-- `n` copies of a block behind `acc`. -/
def appendBlocks (block : ByteArray) : Nat → ByteArray → ByteArray
  | 0, acc => acc
  | n + 1, acc => appendBlocks block n (acc ++ block)

theorem toList_appendBlocks {block : ByteArray} {k : Nat}
    (h : block.data.toList = List.replicate k 0) (n : Nat) (acc : ByteArray) :
    (appendBlocks block n acc).data.toList = acc.data.toList ++ List.replicate (k * n) 0 := by
  induction n generalizing acc with
  | zero => simp [appendBlocks]
  | succ n ih =>
    rw [appendBlocks, ih, ByteArray.data_append, Array.toList_append, h, List.append_assoc,
      List.replicate_append_replicate, Nat.mul_succ, Nat.add_comm k]

/-- The number of zeros that are appended at a time. -/
def blockSize : Nat := 65536

/-- The zeros that are appended at a time. -/
def block : ByteArray := pushZeros blockSize ByteArray.empty

theorem toList_block : block.data.toList = List.replicate blockSize 0 := by
  rw [block, toList_pushZeros]
  exact List.nil_append _

/-- `n` zero bytes. -/
def zeros (n : Nat) : ByteArray :=
  pushZeros (n % blockSize) (appendBlocks block (n / blockSize) (ByteArray.emptyWithCapacity n))

theorem toList_zeros (n : Nat) : (zeros n).data.toList = List.replicate n 0 := by
  rw [zeros, toList_pushZeros, toList_appendBlocks toList_block, List.append_assoc,
    List.replicate_append_replicate, Nat.div_add_mod]
  exact List.nil_append _

@[simp]
theorem size_zeros (n : Nat) : (zeros n).size = n := by
  rw [← ByteArray.size_data, ← Array.length_toList, toList_zeros, List.length_replicate]

@[simp]
theorem size_set (b : ByteArray) (i : Nat) (v : UInt8) (h : i < b.size) :
    (b.set i v h).size = b.size := by
  cases b
  simp [ByteArray.set, ByteArray.size]

/-- Overwrites bytes from index `i` on; bytes past the end are dropped. -/
def overwrite : ByteArray → Nat → Bytes → ByteArray
  | b, _, [] => b
  | b, i, v :: vs => if h : i < b.size then overwrite (b.set i v h) (i + 1) vs else b

@[simp]
theorem size_overwrite (b : ByteArray) (i : Nat) (vs : Bytes) :
    (overwrite b i vs).size = b.size := by
  induction vs generalizing b i with
  | nil => rfl
  | cons v vs ih =>
    unfold overwrite
    split
    · rw [ih, size_set]
    · rfl

theorem toList_overwrite (b : ByteArray) (i : Nat) (vs : Bytes) (h : i + vs.length ≤ b.size) :
    (overwrite b i vs).data.toList =
      b.data.toList.take i ++ vs ++ b.data.toList.drop (i + vs.length) := by
  induction vs generalizing b i with
  | nil => simp [overwrite]
  | cons v vs ih =>
    rw [List.length_cons] at h
    have hi : i < b.size := by omega
    have hl : i < b.data.toList.length := by rw [Array.length_toList]; exact hi
    have hset : (b.set i v hi).data.toList = b.data.toList.set i v :=
      Array.toList_set b.data i v hi
    have htake : (b.data.toList.set i v).take (i + 1) = b.data.toList.take i ++ [v] := by
      rw [List.take_add_one, List.take_set_of_le (Nat.le_refl i), List.getElem?_set_self hl]
      rfl
    rw [overwrite, dif_pos hi, ih _ _ (by rw [size_set]; omega), hset, htake,
      List.drop_set_of_lt (by omega)]
    simp [Nat.add_assoc, Nat.add_comm 1]

/-- Sets `n` bytes from index `i` on; bytes past the end are dropped. -/
def fill (v : UInt8) : (n : Nat) → ByteArray → Nat → ByteArray
  | 0, b, _ => b
  | n + 1, b, i => if h : i < b.size then fill v n (b.set i v h) (i + 1) else b

theorem fill_eq_overwrite (v : UInt8) (n : Nat) (b : ByteArray) (i : Nat) :
    fill v n b i = overwrite b i (List.replicate n v) := by
  induction n generalizing b i with
  | zero => rfl
  | succ n ih => simp only [fill, List.replicate_succ, overwrite, ih]

@[simp]
theorem size_fill (v : UInt8) (n : Nat) (b : ByteArray) (i : Nat) :
    (fill v n b i).size = b.size := by
  rw [fill_eq_overwrite, size_overwrite]

/-- Copies `n` bytes from index `src` to index `dest`; the ranges may overlap. -/
def copyWithin (b : ByteArray) (dest src n : Nat) : ByteArray :=
  (b.extract src (src + n)).copySlice 0 b dest n

theorem toList_copyWithin (b : ByteArray) (dest src n : Nat) (h : src + n ≤ b.size) :
    (copyWithin b dest src n).data.toList =
      b.data.toList.take dest ++ (b.data.toList.drop src).take n ++
        b.data.toList.drop (dest + n) := by
  have hn : min n (min (src + n) b.size - src) = n := by omega
  have hrest : (b.data.toList.drop (dest + n)).take (b.size - (dest + n)) =
      b.data.toList.drop (dest + n) :=
    List.take_of_length_le (by simp)
  simp only [copyWithin, ByteArray.copySlice, ByteArray.data_extract, Array.toList_append,
    Array.toList_extract, Array.size_extract, List.extract_eq_take_drop, List.drop_zero]
  simp [hn, hrest, List.take_take]

theorem size_copyWithin (b : ByteArray) (dest src n : Nat) (hd : dest + n ≤ b.size)
    (hs : src + n ≤ b.size) : (copyWithin b dest src n).size = b.size := by
  have hl : b.data.toList.length = b.size := Array.length_toList
  rw [← ByteArray.size_data, ← Array.length_toList, toList_copyWithin b dest src n hs]
  simp only [List.length_append, List.length_take, List.length_drop, hl]
  omega

/-- The index of the first zero among `n` bytes from index `i` on, or else the index behind
them. -/
def zeroIndex (b : ByteArray) : (n : Nat) → (i : Nat) → Nat
  | 0, i => i
  | n + 1, i =>
    if h : i < b.size then if b.get i h = 0 then i else zeroIndex b n (i + 1) else i

theorem zeroIndex_succ (b : ByteArray) (n i : Nat) :
    zeroIndex b (n + 1) i =
      if h : i < b.size then if b.get i h = 0 then i else zeroIndex b n (i + 1) else i := rfl

/-- The bytes from index `i` to the first zero byte, or else to the end. -/
def terminated (b : ByteArray) (i : Nat) : Bytes :=
  (b.extract i (zeroIndex b (b.size - i) i)).data.toList

theorem take_zeroIndex (b : ByteArray) (n i : Nat) (h : i + n = b.size) :
    i ≤ zeroIndex b n i ∧ (b.data.toList.drop i).take (zeroIndex b n i - i) =
      (b.data.toList.drop i).takeWhile (· ≠ 0) := by
  induction n generalizing i with
  | zero =>
    have hi : b.data.toList.length ≤ i := by rw [Array.length_toList]; exact Nat.le_of_eq h.symm
    rw [List.drop_eq_nil_of_le hi]
    exact ⟨Nat.le_refl i, List.take_nil⟩
  | succ n ih =>
    have hi : i < b.size := by omega
    have hl : i < b.data.toList.length := by rw [Array.length_toList]; exact hi
    have hget : b.get i hi = b.data.toList[i] := by cases b; rfl
    rw [zeroIndex_succ, dif_pos hi, List.drop_eq_getElem_cons hl, hget]
    by_cases h0 : b.data.toList[i] = 0
    · rw [if_pos h0]
      simp [h0]
    · rw [if_neg h0]
      obtain ⟨hle, heq⟩ := ih (i + 1) (by omega)
      refine ⟨by omega, ?_⟩
      rw [List.takeWhile_cons_of_pos (by simpa using h0), ← heq,
        show zeroIndex b n (i + 1) - i = (zeroIndex b n (i + 1) - (i + 1)) + 1 by omega,
        List.take_succ_cons]

theorem terminated_eq (b : ByteArray) (i : Nat) (h : i ≤ b.size) :
    terminated b i = (b.data.toList.drop i).takeWhile (· ≠ 0) := by
  rw [terminated, ByteArray.data_extract, Array.toList_extract, List.extract_eq_take_drop]
  exact (take_zeroIndex b (b.size - i) i (by omega)).2

end Region

/-! ## The region and its shape -/

/-- A data region together with the mask that keeps addresses inside it. -/
structure Sandbox where
  bytes : ByteArray
  mask : UInt32
  size_eq : bytes.size = mask.toNat + 1
  four_le : 4 ≤ bytes.size
  power : bytes.size.isPowerOfTwo

namespace Sandbox

/-- The smallest power of two that holds `size` bytes and at least four. -/
def roundUp (size : Nat) : Nat := 1 <<< ((max 4 size - 1).log2 + 1)

theorem isPowerOfTwo_roundUp (size : Nat) : (roundUp size).isPowerOfTwo :=
  ⟨_, Nat.one_shiftLeft _⟩

theorem le_roundUp (size : Nat) : max 4 size ≤ roundUp size := by
  have h : max 4 size - 1 < roundUp size := by
    rw [roundUp, Nat.one_shiftLeft]
    exact Nat.lt_log2_self
  omega

theorem roundUp_le_size {size : Nat} (h : size < UInt32.size) : roundUp size ≤ UInt32.size := by
  have hlog : (max 4 size - 1).log2 < 32 := by
    simp only [UInt32.size] at h
    exact (Nat.log2_lt (by omega)).2 (by omega)
  rw [roundUp, Nat.one_shiftLeft]
  exact Nat.pow_le_pow_right (by omega) hlog

/-- A size that is fit for a region is not rounded. -/
theorem roundUp_eq_self {n : Nat} (hpower : n.isPowerOfTwo) (hfour : 4 ≤ n) : roundUp n = n := by
  obtain ⟨k, rfl⟩ := hpower
  obtain ⟨k, rfl⟩ : ∃ j, k = j + 1 := by
    cases k with
    | zero => simp at hfour
    | succ j => exact ⟨j, rfl⟩
  have hlog : (2 ^ (k + 1) - 1).log2 = k := by
    rw [Nat.log2_eq_iff (by omega)]
    omega
  rw [roundUp, Nat.max_eq_right hfour, hlog, Nat.one_shiftLeft]

/-- The mask of a region is one less than its size. -/
theorem toNat_ofNat_sub_one {n : Nat} (hpos : 4 ≤ n) (hle : n ≤ UInt32.size) :
    (UInt32.ofNat (n - 1)).toNat + 1 = n := by
  rw [UInt32.toNat_ofNat_of_lt' (by omega)]
  omega

/-- A region of zeros with room for `size` bytes, rounded up to a power of two of at least
four. -/
def zeroed (size : UInt32) : Sandbox where
  bytes := Region.zeros (roundUp size.toNat)
  mask := UInt32.ofNat (roundUp size.toNat - 1)
  size_eq := by
    have h := le_roundUp size.toNat
    rw [Region.size_zeros, toNat_ofNat_sub_one (by omega) (roundUp_le_size size.toNat_lt)]
  four_le := by
    have h := le_roundUp size.toNat
    rw [Region.size_zeros]
    omega
  power := by
    rw [Region.size_zeros]
    exact isPowerOfTwo_roundUp _

/-- The number of bytes. -/
def size (s : Sandbox) : Nat := s.bytes.size

@[simp]
theorem size_zeroed (size : UInt32) : (zeroed size).size = roundUp size.toNat :=
  Region.size_zeros _

/-- Regions of one size have one mask. -/
theorem mask_congr {s t : Sandbox} (h : s.size = t.size) : s.mask = t.mask := by
  apply UInt32.toNat_inj.1
  have hs : s.size = s.mask.toNat + 1 := s.size_eq
  have ht : t.size = t.mask.toNat + 1 := t.size_eq
  omega

/-- A region is given by its bytes. -/
theorem ext {s t : Sandbox} (h : s.bytes = t.bytes) : s = t := by
  have hmask : s.mask = t.mask := mask_congr (congrArg ByteArray.size h)
  cases s
  cases t
  cases h
  cases hmask
  rfl

/-- Masks an address into the region. -/
@[inline]
def wrap (s : Sandbox) (addr : UInt32) : Nat := (addr &&& s.mask).toNat

/-- Whether an address lies inside the region without masking. -/
def contains (s : Sandbox) (addr : UInt32) : Bool := addr &&& s.mask = addr

/-- The first byte of the cell of width `w` that an address belongs to. -/
@[inline]
def cell (s : Sandbox) (w : Width) (addr : UInt32) : Nat :=
  match w with
  | .byte => s.wrap addr
  | .half => s.wrap addr / 2 * 2
  | .word => s.wrap addr / 4 * 4

/-- A cell begins at the masked address, rounded down to a multiple of the width. -/
theorem cell_eq (s : Sandbox) (w : Width) (addr : UInt32) :
    s.cell w addr = s.wrap addr / w.bytes * w.bytes := by
  cases w with
  | byte => exact ((Nat.mul_one _).trans (Nat.div_one _)).symm
  | half => rfl
  | word => rfl

/-- Regions of one size have the same cells. -/
theorem cell_congr {s t : Sandbox} (h : s.size = t.size) (w : Width) (addr : UInt32) :
    s.cell w addr = t.cell w addr := by
  rw [cell_eq, cell_eq, wrap, wrap, mask_congr h]

theorem wrap_lt_size (s : Sandbox) (addr : UInt32) : s.wrap addr < s.bytes.size := by
  rw [s.size_eq, wrap, UInt32.toNat_and]
  exact Nat.lt_succ_of_le Nat.and_le_right

/-- The size is a multiple of four. -/
theorem size_eq_four_mul (s : Sandbox) : ∃ q, s.bytes.size = 4 * q := by
  obtain ⟨k, hk⟩ := s.power
  have h := s.four_le
  match k with
  | 0 | 1 => simp at hk; omega
  | k + 2 => exact ⟨_, by rw [hk, Nat.pow_add, Nat.mul_comm]⟩

/-- A cell lies inside the region. -/
theorem cell_add_bytes_le (s : Sandbox) (w : Width) (addr : UInt32) :
    s.cell w addr + w.bytes ≤ s.bytes.size := by
  have h := s.wrap_lt_size addr
  obtain ⟨q, hq⟩ := s.size_eq_four_mul
  cases w <;> simp only [cell, Width.bytes] <;> omega

/-! ## Loads and stores -/

/-- Loads the byte at an address. -/
@[inline]
def load8 (s : Sandbox) (addr : UInt32) : UInt8 :=
  s.bytes.get (s.cell .byte addr) (s.cell_add_bytes_le .byte addr)

/-- Loads the aligned two-byte cell at an address. -/
@[inline]
def load16 (s : Sandbox) (addr : UInt32) : UInt16 :=
  let i := s.cell .half addr
  have h : i + 2 ≤ s.bytes.size := s.cell_add_bytes_le .half addr
  (s.bytes.get i (by omega)).toUInt16 ||| ((s.bytes.get (i + 1) (by omega)).toUInt16 <<< 8)

/-- Loads the aligned word at an address. -/
@[inline]
def load32 (s : Sandbox) (addr : UInt32) : UInt32 :=
  let i := s.cell .word addr
  have h : i + 4 ≤ s.bytes.size := s.cell_add_bytes_le .word addr
  Bytes.toWord (s.bytes.get i (by omega)) (s.bytes.get (i + 1) (by omega))
    (s.bytes.get (i + 2) (by omega)) (s.bytes.get (i + 3) (by omega))

/-- Loads a cell of the given width, zero-extended to a word. -/
@[inline]
def load (s : Sandbox) (w : Width) (addr : UInt32) : UInt32 :=
  match w with
  | .byte => (s.load8 addr).toUInt32
  | .half => (s.load16 addr).toUInt32
  | .word => s.load32 addr

/-- Stores a byte. -/
@[inline]
def store8 (s : Sandbox) (addr : UInt32) (v : UInt8) : Sandbox :=
  let i := s.cell .byte addr
  have h : i < s.bytes.size := s.cell_add_bytes_le .byte addr
  { s with
    bytes := s.bytes.set i v h
    size_eq := by rw [Region.size_set, s.size_eq]
    four_le := by rw [Region.size_set]; exact s.four_le
    power := by rw [Region.size_set]; exact s.power }

/-- Stores into the aligned two-byte cell at an address. -/
@[inline]
def store16 (s : Sandbox) (addr : UInt32) (v : UInt16) : Sandbox :=
  let i := s.cell .half addr
  have h : i + 2 ≤ s.bytes.size := s.cell_add_bytes_le .half addr
  { s with
    bytes := (s.bytes.set i v.toUInt8 (by omega)).set (i + 1) (v >>> 8).toUInt8
      (by rw [Region.size_set]; omega)
    size_eq := by rw [Region.size_set, Region.size_set, s.size_eq]
    four_le := by rw [Region.size_set, Region.size_set]; exact s.four_le
    power := by rw [Region.size_set, Region.size_set]; exact s.power }

/-- Stores into the aligned word at an address. -/
@[inline]
def store32 (s : Sandbox) (addr : UInt32) (v : UInt32) : Sandbox :=
  let i := s.cell .word addr
  have h : i + 4 ≤ s.bytes.size := s.cell_add_bytes_le .word addr
  { s with
    bytes := (((s.bytes.set i v.toUInt8 (by omega)).set (i + 1) (v >>> 8).toUInt8
      (by rw [Region.size_set]; omega)).set (i + 2) (v >>> 16).toUInt8
      (by rw [Region.size_set, Region.size_set]; omega)).set (i + 3) (v >>> 24).toUInt8
      (by rw [Region.size_set, Region.size_set, Region.size_set]; omega)
    size_eq := by
      rw [Region.size_set, Region.size_set, Region.size_set, Region.size_set, s.size_eq]
    four_le := by
      rw [Region.size_set, Region.size_set, Region.size_set, Region.size_set]; exact s.four_le
    power := by
      rw [Region.size_set, Region.size_set, Region.size_set, Region.size_set]; exact s.power }

/-- Stores the low bytes of a word into a cell of the given width. -/
@[inline]
def store (s : Sandbox) (w : Width) (addr v : UInt32) : Sandbox :=
  match w with
  | .byte => s.store8 addr v.toUInt8
  | .half => s.store16 addr v.toUInt16
  | .word => s.store32 addr v

@[simp]
theorem size_store8 (s : Sandbox) (addr : UInt32) (v : UInt8) : (s.store8 addr v).size = s.size :=
  Region.size_set ..

@[simp]
theorem size_store16 (s : Sandbox) (addr : UInt32) (v : UInt16) :
    (s.store16 addr v).size = s.size := by
  simp only [size, store16, Region.size_set]

@[simp]
theorem size_store32 (s : Sandbox) (addr v : UInt32) : (s.store32 addr v).size = s.size := by
  simp only [size, store32, Region.size_set]

@[simp]
theorem size_store (s : Sandbox) (w : Width) (addr v : UInt32) :
    (s.store w addr v).size = s.size := by
  cases w <;> simp [store]

/-! ## Host access -/

/-- The index that a module pointer refers to; the null pointer refers to nothing. -/
def resolve? (s : Sandbox) (ptr : UInt32) : Option Nat :=
  if ptr = 0 then none else some (s.wrap ptr)

/-- The pointer to an index of the region. -/
def pointer? (s : Sandbox) (index : Nat) : Option UInt32 :=
  if index < s.size then some (UInt32.ofNat index) else none

/-- The first index of `len` bytes at a pointer, when they all lie inside the region. -/
def range? (s : Sandbox) (ptr : UInt32) (len : Nat) : Option Nat :=
  match s.resolve? ptr with
  | none => none
  | some i => if i + len ≤ s.size then some i else none

/-- The `len` bytes at a pointer. -/
def slice? (s : Sandbox) (ptr : UInt32) (len : Nat) : Option Bytes :=
  (s.range? ptr len).map fun i => (s.bytes.extract i (i + len)).data.toList

/-- The bytes from a pointer to the first zero byte, or to the end of the region. -/
def cString? (s : Sandbox) (ptr : UInt32) : Option Bytes :=
  (s.resolve? ptr).map (Region.terminated s.bytes)

/-- The zero-terminated string at a pointer as text. -/
def string? (s : Sandbox) (ptr : UInt32) : Option String :=
  (s.cString? ptr).map Text.decodeUtf8

/-- Overwrites bytes from an index on. -/
def overwrite (s : Sandbox) (i : Nat) (data : Bytes) : Sandbox :=
  { s with
    bytes := Region.overwrite s.bytes i data
    size_eq := by rw [Region.size_overwrite, s.size_eq]
    four_le := by rw [Region.size_overwrite]; exact s.four_le
    power := by rw [Region.size_overwrite]; exact s.power }

/-- Sets `n` bytes from an index on. -/
def fillFrom (s : Sandbox) (i n : Nat) (v : UInt8) : Sandbox :=
  { s with
    bytes := Region.fill v n s.bytes i
    size_eq := by rw [Region.size_fill, s.size_eq]
    four_le := by rw [Region.size_fill]; exact s.four_le
    power := by rw [Region.size_fill]; exact s.power }

/-- The address `n` bytes behind another one, unless it passes the last address. -/
def endAddress? (addr n : UInt32) : Option UInt32 :=
  if addr.toNat + n.toNat < UInt32.size then some (addr + n) else none

/-- Whether `n` bytes can be copied. Both ranges must lie inside the region before masking,
and so must the addresses just behind them. -/
def canCopy (s : Sandbox) (dest src n : UInt32) : Bool :=
  match endAddress? dest n, endAddress? src n with
  | some destEnd, some srcEnd =>
    s.contains dest && s.contains src && s.contains destEnd && s.contains srcEnd
  | _, _ => false

theorem toNat_lt_size_of_contains {s : Sandbox} {addr : UInt32} (h : s.contains addr = true) :
    addr.toNat < s.bytes.size := by
  have hw := s.wrap_lt_size addr
  rwa [wrap, of_decide_eq_true h] at hw

theorem toNat_of_endAddress? {addr n last : UInt32} (h : endAddress? addr n = some last) :
    last.toNat = addr.toNat + n.toNat := by
  unfold endAddress? at h
  split at h
  · cases h
    rw [UInt32.toNat_add, Nat.mod_eq_of_lt (by assumption)]
  · cases h

/-- Ranges that can be copied end inside the region. -/
theorem add_lt_size_of_canCopy {s : Sandbox} {dest src n : UInt32}
    (h : s.canCopy dest src n = true) :
    dest.toNat + n.toNat < s.bytes.size ∧ src.toNat + n.toNat < s.bytes.size := by
  unfold canCopy at h
  split at h
  · rename_i destEnd srcEnd hd hs
    simp only [Bool.and_eq_true] at h
    rw [← toNat_of_endAddress? hd, ← toNat_of_endAddress? hs]
    exact ⟨toNat_lt_size_of_contains h.1.2, toNat_lt_size_of_contains h.2⟩
  · cases h

/-! ## Edits -/

/-- A change that a host makes to the region of a module. -/
inductive Edit where
  | store (w : Width) (addr v : UInt32)
  | write (ptr : UInt32) (data : Bytes)
  | fill (ptr : UInt32) (n : Nat) (v : UInt8)
  | copy (dest src n : UInt32)
  /-- Puts another region in the place of this one. -/
  | replace (other : Sandbox)

/-- The edit is one that a region offers itself: the region is not replaced by another one. -/
def Edit.InPlace : Edit → Prop
  | .store .. | .write .. | .fill .. | .copy .. => True
  | .replace _ => False

/-- Whether an edit is possible: a range of bytes must lie inside the region. -/
def accepts (s : Sandbox) : Edit → Bool
  | .store .. | .replace _ => true
  | .write ptr data => (s.range? ptr data.length).isSome
  | .fill ptr n _ => (s.range? ptr n).isSome
  | .copy dest src n => s.canCopy dest src n

/-- Carries out an edit; one that is not possible changes nothing. -/
def edit (s : Sandbox) : Edit → Sandbox
  | .store w addr v => s.store w addr v
  | .write ptr data =>
    match s.range? ptr data.length with
    | some i => s.overwrite i data
    | none => s
  | .fill ptr n v =>
    match s.range? ptr n with
    | some i => s.fillFrom i n v
    | none => s
  | .copy dest src n =>
    if h : s.canCopy dest src n then
      have hb := add_lt_size_of_canCopy h
      have hsize := Region.size_copyWithin s.bytes dest.toNat src.toNat n.toNat
        (Nat.le_of_lt hb.1) (Nat.le_of_lt hb.2)
      { s with
        bytes := Region.copyWithin s.bytes dest.toNat src.toNat n.toNat
        size_eq := by rw [hsize, s.size_eq]
        four_le := by rw [hsize]; exact s.four_le
        power := by rw [hsize]; exact s.power }
    else s
  | .replace other => other

/-- An edit in place keeps the size. -/
theorem size_edit (s : Sandbox) {e : Edit} (he : e.InPlace) : (s.edit e).size = s.size := by
  cases e with
  | store w addr v => exact s.size_store w addr v
  | write ptr data =>
    simp only [edit]
    split
    · exact Region.size_overwrite ..
    · rfl
  | fill ptr n v =>
    simp only [edit]
    split
    · exact Region.size_fill ..
    · rfl
  | copy dest src n =>
    simp only [edit]
    split
    · rename_i h
      have hb := add_lt_size_of_canCopy h
      exact Region.size_copyWithin s.bytes _ _ _ (Nat.le_of_lt hb.1) (Nat.le_of_lt hb.2)
    · rfl
  | replace other => exact he.elim

/-- Carries out an edit if it is possible. -/
def edit? (s : Sandbox) (e : Edit) : Option Sandbox := if s.accepts e then some (s.edit e) else none

/-- Overwrites the bytes at a pointer; refused when they do not all lie inside the region. -/
def write? (s : Sandbox) (ptr : UInt32) (data : Bytes) : Option Sandbox := s.edit? (.write ptr data)

/-- Sets `n` bytes at a pointer; refused when they do not all lie inside the region. -/
def fill? (s : Sandbox) (ptr : UInt32) (n : Nat) (v : UInt8) : Option Sandbox :=
  s.edit? (.fill ptr n v)

/-- Copies `n` bytes; the ranges may overlap. -/
def blockCopy (s : Sandbox) (dest src n : UInt32) : Except FaultCause Sandbox :=
  if s.canCopy dest src n then .ok (s.edit (.copy dest src n)) else .error .blockCopyOutOfRange

/-- Copies `n` bytes if that is possible. -/
def blockCopy? (s : Sandbox) (dest src n : UInt32) : Option Sandbox :=
  (s.blockCopy dest src n).toOption

/-- A region that holds the given bytes, followed by zeros. -/
def ofData (size : UInt32) (data : Bytes) : Sandbox := (zeroed size).overwrite 0 data

/-- Fills the region with zeros and puts the given bytes at its start. -/
def reset (s : Sandbox) (data : Bytes) : Sandbox := (s.fillFrom 0 s.size 0).overwrite 0 data

/-- One-line description for diagnostics. -/
def inspect (s : Sandbox) : String :=
  "SandboxMemory \x7b len: " ++ Text.nat s.size ++ ", mask: " ++ Text.nat s.mask.toNat ++ " \x7d"

end Sandbox

end SandboxVm
