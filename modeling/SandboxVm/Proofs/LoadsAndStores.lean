/-
SandboxVm.Proofs.LoadsAndStores — what a load finds after a store.

Loads and stores of one, two and four bytes work on the same bytes, and the address of each is
masked and rounded down to its own width. The widths divide one another and the size of the
region, so no cell lies across the border of another one. A load after a store therefore finds
what was stored, a part of it, what was there before, or that with a part replaced; which of
these it is depends on the two cells alone, and what exactly it finds is said by numbers to the
base 256.

  §1  `Sandbox.extent`: the bytes of a cell, and how two cells lie;
  §2  `Sandbox.number`: the number in a range of bytes, with its parts, and what loads return;
  §3  `written_store`: the bytes that a store leaves behind, and addresses of the same cell;
  §4  `load_after_store`, which puts these together.
-/
import Mathlib.Data.Nat.Digits.Defs
import Mathlib.Order.Interval.Finset.Nat
import Mathlib.Order.Interval.Set.Disjoint
import SandboxVm.Proofs.Cells
import SandboxVm.Proofs.Checked

namespace SandboxVm

/-! ## §1 How cells lie -/

namespace Width

theorem bytes_pos (w : Width) : 0 < w.bytes := by
  cases w <;> decide

theorem bytes_dvd_or_dvd (w v : Width) : w.bytes ∣ v.bytes ∨ v.bytes ∣ w.bytes := by
  cases w <;> cases v <;> decide

end Width

namespace Sandbox

variable {s t : Sandbox} {w v : Width} {p q x : UInt32} {i n m d : Nat}

theorem disjoint_Ico_iff {a b c e : Nat} :
    Disjoint (Finset.Ico a b) (Finset.Ico c e) ↔ min b e ≤ max a c := by
  rw [← Finset.disjoint_coe, Finset.coe_Ico, Finset.coe_Ico, Set.Ico_disjoint_Ico]

/-- The bytes of the cell of width `w` that an address belongs to. -/
def extent (s : Sandbox) (w : Width) (p : UInt32) : Finset Nat :=
  Finset.Ico (s.cell w p) (s.cell w p + w.bytes)

theorem extent_subset_iff : s.extent w p ⊆ s.extent v q ↔
    s.cell v q ≤ s.cell w p ∧ s.cell w p + w.bytes ≤ s.cell v q + v.bytes := by
  have hpos := w.bytes_pos
  exact Finset.Ico_subset_Ico_iff (by omega)

theorem disjoint_extent_iff : Disjoint (s.extent w p) (s.extent v q) ↔
    s.cell w p + w.bytes ≤ s.cell v q ∨ s.cell v q + v.bytes ≤ s.cell w p := by
  have hw := w.bytes_pos
  have hv := v.bytes_pos
  rw [extent, extent, disjoint_Ico_iff]
  omega

/-- A block of `m` bytes and one of `n` bytes, where `m` divides `n`: if both begin at a multiple
of `m`, the first one lies inside the second one or outside of it. -/
theorem subset_or_disjoint_of_dvd {a b : Nat} (hn : m ∣ n) (ha : m ∣ a) (hb : m ∣ b) :
    Finset.Ico a (a + m) ⊆ Finset.Ico b (b + n) ∨
      Disjoint (Finset.Ico a (a + m)) (Finset.Ico b (b + n)) := by
  by_cases hin : b ≤ a ∧ a < b + n
  · left
    -- the distance from `a` to the end of the second block is a multiple of `m` as well
    have hle : m ≤ b + n - a := Nat.le_of_dvd (by omega) (Nat.dvd_sub (Nat.dvd_add hb hn) ha)
    exact Finset.Ico_subset_Ico hin.1 (by omega)
  · right
    rw [disjoint_Ico_iff]
    by_cases hbefore : a < b
    · have hle : m ≤ b - a := Nat.le_of_dvd (by omega) (Nat.dvd_sub hb ha)
      omega
    · omega

theorem bytes_dvd_cell (s : Sandbox) (w : Width) (p : UInt32) : w.bytes ∣ s.cell w p := by
  rw [cell_eq]
  exact Nat.dvd_mul_left ..

/-- Two cells are nested or disjoint. -/
theorem nested_or_disjoint (s : Sandbox) (w v : Width) (p q : UInt32) :
    s.extent w p ⊆ s.extent v q ∨ s.extent v q ⊆ s.extent w p ∨
      Disjoint (s.extent w p) (s.extent v q) := by
  have hp := s.bytes_dvd_cell w p
  have hq := s.bytes_dvd_cell v q
  rcases w.bytes_dvd_or_dvd v with hdvd | hdvd
  · rcases subset_or_disjoint_of_dvd hdvd hp (hdvd.trans hq) with hsub | hdisj
    · exact .inl hsub
    · exact .inr (.inr hdisj)
  · rcases subset_or_disjoint_of_dvd hdvd hq (hdvd.trans hp) with hsub | hdisj
    · exact .inr (.inl hsub)
    · exact .inr (.inr hdisj.symm)

/-! ## §2 Numbers in the region -/

/-- The number in the `n` bytes from index `i` on, least significant byte first. -/
def number (s : Sandbox) (i n : Nat) : Nat :=
  Nat.ofDigits 256 ((List.range' i n).map fun j => (s.byte j).toNat)

@[simp]
theorem number_zero (s : Sandbox) (i : Nat) : s.number i 0 = 0 := rfl

@[simp]
theorem number_one (s : Sandbox) (i : Nat) : s.number i 1 = (s.byte i).toNat := by
  simp [number]

theorem number_add (s : Sandbox) (i m n : Nat) :
    s.number i (m + n) = s.number i m + 256 ^ m * s.number (i + m) n := by
  simp [number, ← List.range'_append_1, Nat.ofDigits_append]

theorem number_lt (s : Sandbox) (i n : Nat) : s.number i n < 256 ^ n := by
  have hdigits : ∀ a ∈ (List.range' i n).map fun j => (s.byte j).toNat, a < 256 := by
    intro a ha
    obtain ⟨j, -, rfl⟩ := List.mem_map.1 ha
    exact (s.byte j).toNat_lt
  have hlt := Nat.ofDigits_lt_base_pow_length (by decide) hdigits
  simpa [number] using hlt

theorem number_congr (h : ∀ k < n, t.byte (i + k) = s.byte (i + k)) :
    t.number i n = s.number i n := by
  have hbyte : ∀ j ∈ List.range' i n, (t.byte j).toNat = (s.byte j).toNat := by
    intro j hj
    obtain ⟨hle, hlt⟩ := List.mem_range'_1.1 hj
    have hj := h (j - i) (by omega)
    rw [Nat.add_sub_cancel' hle] at hj
    rw [hj]
  rw [number, number, List.map_congr_left hbyte]

/-- The low digits of a number are those of its first bytes. -/
theorem number_mod (h : d ≤ m) : s.number i m % 256 ^ d = s.number i d := by
  obtain ⟨r, rfl⟩ := Nat.exists_eq_add_of_le h
  rw [number_add, Nat.add_mul_mod_self_left, Nat.mod_eq_of_lt (s.number_lt i d)]

/-- The high digits of a number are those of its last bytes. -/
theorem number_div (h : d ≤ m) : s.number i m / 256 ^ d = s.number (i + d) (m - d) := by
  obtain ⟨r, rfl⟩ := Nat.exists_eq_add_of_le h
  rw [number_add, Nat.add_mul_div_left _ _ (Nat.pow_pos (by decide)),
    Nat.div_eq_of_lt (s.number_lt i d), Nat.zero_add, Nat.add_sub_cancel_left]

/-- The number `old`, with its `n` bytes from byte `d` on replaced by the number `new`. -/
def splice (old d n new : Nat) : Nat :=
  old % 256 ^ d + 256 ^ d * new + 256 ^ (d + n) * (old / 256 ^ (d + n))

/-- Where only some of the bytes have changed, they are replaced in the number. -/
theorem number_splice (h : d + n ≤ m)
    (hkept : ∀ j, j < i + d ∨ i + d + n ≤ j → t.byte j = s.byte j) :
    t.number i m = splice (s.number i m) d n (t.number (i + d) n) := by
  have hlow : t.number i d = s.number i d := number_congr fun k hk => hkept _ (by omega)
  have hhigh : t.number (i + (d + n)) (m - (d + n)) = s.number (i + (d + n)) (m - (d + n)) :=
    number_congr fun k hk => hkept _ (by omega)
  calc t.number i m = t.number i (d + n + (m - (d + n))) := by rw [Nat.add_sub_cancel' h]
    _ = t.number i d + 256 ^ d * t.number (i + d) n +
          256 ^ (d + n) * t.number (i + (d + n)) (m - (d + n)) := by
        rw [number_add, number_add]
    _ = splice (s.number i m) d n (t.number (i + d) n) := by
        rw [hlow, hhigh, splice, number_mod (by omega), number_div h]

example : splice 0x44332211 1 2 0xBBAA = 0x44BBAA11 := by decide

theorem load8_eq (s : Sandbox) (p : UInt32) : s.load8 p = s.byte (s.cell .byte p) :=
  Region.get_eq ..

theorem load16_eq (s : Sandbox) (p : UInt32) :
    s.load16 p = (s.byte (s.cell .half p)).toUInt16 |||
      ((s.byte (s.cell .half p + 1)).toUInt16 <<< 8) := by
  rw [load16, Region.get_eq, Region.get_eq]
  rfl

/-- Two bytes that are put together are the digits of the result. -/
theorem toNat_or_shiftLeft (a b : UInt8) :
    (a.toUInt16 ||| (b.toUInt16 <<< 8)).toNat = a.toNat + 256 * b.toNat := by
  have ha := a.toNat_lt
  have hb := b.toNat_lt
  have hlt : b.toNat <<< 8 < 2 ^ 16 := by
    rw [Nat.shiftLeft_eq]
    omega
  have hshift : (b.toUInt16 <<< 8).toNat = b.toNat <<< 8 := by
    rw [UInt16.toNat_shiftLeft, UInt8.toNat_toUInt16]
    exact Nat.mod_eq_of_lt hlt
  rw [UInt16.toNat_or, hshift, UInt8.toNat_toUInt16, Nat.or_comm,
    ← Nat.shiftLeft_add_eq_or_of_lt (by omega), Nat.shiftLeft_eq]
  omega

/-- A load returns the number in the bytes of its cell. -/
theorem toNat_load (s : Sandbox) (w : Width) (p : UInt32) :
    (s.load w p).toNat = s.number (s.cell w p) w.bytes := by
  cases w with
  | byte =>
    show (s.load8 p).toUInt32.toNat = s.number _ 1
    rw [UInt8.toNat_toUInt32, load8_eq, number_one]
  | half =>
    show (s.load16 p).toUInt32.toNat = s.number _ (1 + 1)
    rw [UInt16.toNat_toUInt32, load16_eq, toNat_or_shiftLeft, number_add]
    simp
  | word =>
    show (s.load32 p).toNat = s.number _ (1 + 1 + 1 + 1)
    rw [load32_eq, Bytes.toNat_toWord, number_add, number_add, number_add]
    simp

/-! ## §3 Stores and their bytes -/

open Checked (Memory)

/-- Byte `k` of a word; byte 0 is the least significant one. -/
def digit (x : UInt32) (k : Nat) : UInt8 := UInt8.ofNat (x.toNat / 256 ^ k)

theorem eq_digit_iff {b : UInt8} {k : Nat} : b = digit x k ↔ b.toNat = x.toNat / 256 ^ k % 256 := by
  simp [← UInt8.toNat_inj, digit]

theorem encode_eq_map_digit (w : Width) (x : UInt32) :
    Memory.encode w x = (List.range w.bytes).map (digit x) := by
  cases w with
  | byte =>
    have h₀ : x.toUInt8 = digit x 0 := by simp [eq_digit_iff]
    rw [Memory.encode, h₀]
    rfl
  | half =>
    have h₀ : x.toUInt16.toUInt8 = digit x 0 := by simp [eq_digit_iff]
    have h₁ : (x.toUInt16 >>> 8).toUInt8 = digit x 1 := by simp [eq_digit_iff]; omega
    rw [Memory.encode, h₀, h₁]
    rfl
  | word =>
    have h₀ : x.toUInt8 = digit x 0 := by simp [eq_digit_iff]
    have h₁ : (x >>> 8).toUInt8 = digit x 1 := by simp [eq_digit_iff]; omega
    have h₂ : (x >>> 16).toUInt8 = digit x 2 := by simp [eq_digit_iff]; omega
    have h₃ : (x >>> 24).toUInt8 = digit x 3 := by simp [eq_digit_iff]; omega
    rw [Memory.encode, Bytes.ofWord, h₀, h₁, h₂, h₃]
    rfl

/-- A store overwrites its cell. -/
theorem store_eq_overwrite (s : Sandbox) (w : Width) (p x : UInt32) :
    s.store w p x = s.overwrite (s.cell w p) (Memory.encode w x) := by
  have hstore := Memory.store?_of s w p x
  rw [Memory.store?, Memory.index_of, Memory.put?] at hstore
  split at hstore
  · exact ext (congrArg Memory.bytes (Option.some.inj hstore)).symm
  · cases hstore

/-- A store changes the bytes of its cell and no others. -/
theorem written_store (s : Sandbox) (w : Width) (p x : UInt32) :
    s.Written (s.store w p x) (s.cell w p) w.bytes (digit x) := by
  have hlen : (Memory.encode w x).length = w.bytes := by simp [encode_eq_map_digit]
  have hin : s.cell w p + (Memory.encode w x).length ≤ s.size := by
    rw [hlen]
    exact s.cell_add_bytes_le w p
  have hover := written_overwrite hin
  rw [← store_eq_overwrite, hlen] at hover
  refine ⟨hover.size, ?_, hover.kept⟩
  intro k hk
  rw [hover.written k hk]
  simp [encode_eq_map_digit, hk]

/-- The number in some bytes of a word, from byte `d` on. -/
theorem number_of_digits (h : ∀ k < n, t.byte (i + k) = digit x (d + k)) :
    t.number i n = x.toNat / 256 ^ d % 256 ^ n := by
  induction n with
  | zero => simp [Nat.mod_one]
  | succ n ih =>
    have hfirst := ih fun k hk => h k (Nat.lt_succ_of_lt hk)
    have hlast : (t.byte (i + n)).toNat = x.toNat / 256 ^ d / 256 ^ n % 256 := by
      rw [Nat.div_div_eq_div_mul, ← Nat.pow_add]
      exact eq_digit_iff.1 (h n (Nat.lt_succ_self n))
    rw [number_add, number_one, hfirst, hlast, Nat.pow_succ, Nat.mod_mul]

/-- The number in some bytes of a cell after a store into the cell. -/
theorem number_store (s : Sandbox) (p x : UInt32) (h : d + n ≤ w.bytes) :
    (s.store w p x).number (s.cell w p + d) n = x.toNat / 256 ^ d % 256 ^ n := by
  apply number_of_digits
  intro k hk
  rw [Nat.add_assoc]
  exact (s.written_store w p x).written _ (by omega)

/-- Addresses that are the same modulo the size belong to the same cells. -/
theorem cell_eq_of_mod_eq (h : q.toNat % s.size = p.toNat % s.size) (w : Width) :
    s.cell w q = s.cell w p := by
  rw [cell_eq, cell_eq, wrap_eq_mod, wrap_eq_mod, h]

/-- A load looks at nothing but the cell. -/
theorem load_eq_of_cell_eq (h : s.cell w q = s.cell w p) : s.load w q = s.load w p := by
  apply UInt32.toNat_inj.1
  rw [toNat_load, toNat_load, h]

/-- A store looks at nothing but the cell. -/
theorem store_eq_of_cell_eq (h : s.cell w q = s.cell w p) (x : UInt32) :
    s.store w q x = s.store w p x := by
  rw [store_eq_overwrite, store_eq_overwrite, h]

/-! ## §4 Loads after stores -/

/-- The number that a load at `q` finds after `x` has been stored at `p`. It is the one in the
bytes of its own cell. So it is what was stored, if that was stored into the same cell; what was
there before, if the cells have no byte in common; a part of what was stored, if the cell of the
load lies inside the one of the store; and what was there before with a part replaced, if it is
the other way round. -/
structure Finds (s : Sandbox) (w : Width) (p x : UInt32) (v : Width) (q : UInt32) (found : Nat) :
    Prop where
  bytes : found = (s.store w p x).number (s.cell v q) v.bytes
  same : s.extent v q = s.extent w p → found = x.toNat % 256 ^ w.bytes
  apart : Disjoint (s.extent w p) (s.extent v q) → found = (s.load v q).toNat
  inside : s.extent v q ⊆ s.extent w p →
    found = x.toNat / 256 ^ (s.cell v q - s.cell w p) % 256 ^ v.bytes
  around : s.extent w p ⊆ s.extent v q →
    found = splice (s.load v q).toNat (s.cell w p - s.cell v q) w.bytes
      (x.toNat % 256 ^ w.bytes)

theorem finds_load_store (s : Sandbox) (w v : Width) (p q x : UInt32) :
    s.Finds w p x v q ((s.store w p x).load v q).toNat := by
  have hwritten := s.written_store w p x
  have hcell : (s.store w p x).number (s.cell w p) w.bytes = x.toNat % 256 ^ w.bytes := by
    simpa using s.number_store p x (d := 0) (Nat.zero_add w.bytes).le
  have hfound : ((s.store w p x).load v q).toNat =
      (s.store w p x).number (s.cell v q) v.bytes := by
    rw [toNat_load, cell_congr hwritten.size]
  rw [hfound]
  constructor
  case bytes => rfl
  case same =>
    intro heq
    obtain ⟨hle, hle'⟩ := extent_subset_iff.1 heq.subset
    obtain ⟨hge, hge'⟩ := extent_subset_iff.1 heq.superset
    have hstart : s.cell v q = s.cell w p := by omega
    have hwidth : v.bytes = w.bytes := by omega
    rw [hstart, hwidth, hcell]
  case apart =>
    intro hdisj
    have hout := disjoint_extent_iff.1 hdisj
    rw [toNat_load]
    apply number_congr
    intro k hk
    exact hwritten.kept _ (by omega)
  case inside =>
    intro hsub
    obtain ⟨hle, hend⟩ := extent_subset_iff.1 hsub
    rw [← s.number_store p x (w := w) (by omega), Nat.add_sub_cancel' hle]
  case around =>
    intro hsub
    obtain ⟨hle, hend⟩ := extent_subset_iff.1 hsub
    have hsplice := number_splice (s := s) (t := s.store w p x) (i := s.cell v q) (m := v.bytes)
      (d := s.cell w p - s.cell v q) (n := w.bytes) (by omega)
    rw [Nat.add_sub_cancel' hle] at hsplice
    rw [hsplice hwritten.kept, hcell, toNat_load]

/-- Storing a value of one, two or four bytes changes the bytes of one cell, which begins at the
masked address, rounded down to a multiple of the width, and lies inside the region. A load of any
width then finds the number in the bytes of its own cell. Two cells are nested or disjoint, which
decides what this number is. Addresses that are the same modulo the size are the same for loads and
for stores. -/
theorem load_after_store (s : Sandbox) (w v : Width) (p q x : UInt32) :
    (s.cell w p = (p &&& s.mask).toNat / w.bytes * w.bytes ∧ s.cell w p + w.bytes ≤ s.size) ∧
      s.Written (s.store w p x) (s.cell w p) w.bytes (digit x) ∧
      s.Finds w p x v q ((s.store w p x).load v q).toNat ∧
      (s.extent w p ⊆ s.extent v q ∨ s.extent v q ⊆ s.extent w p ∨
        Disjoint (s.extent w p) (s.extent v q)) ∧
      ∀ p' : UInt32, p'.toNat % s.size = p.toNat % s.size →
        s.load w p' = s.load w p ∧ s.store w p' x = s.store w p x := by
  refine ⟨⟨s.cell_eq w p, s.cell_add_bytes_le w p⟩, s.written_store w p x,
    s.finds_load_store w v p q x, s.nested_or_disjoint w v p q, ?_⟩
  intro p' hmod
  have hcell := cell_eq_of_mod_eq hmod w
  exact ⟨load_eq_of_cell_eq hcell, store_eq_of_cell_eq hcell x⟩

/-- A region of 64 bytes with a word at index 16. -/
def marked : Sandbox := (zeroed 64).store .word 16 0x44332211

/-- The address 81 is masked to 17 and leads to the word at 16. Two bytes are stored into the upper
half of this word, at an address that is masked to 19 and rounded down to 18. A load of that half
finds both, a load of the other half neither, a load of byte 19 the upper one, and a load of the
word finds both next to the old lower half. -/
theorem load_after_store_spliced :
    marked.load .word 81 = marked.load .word 17 ∧ (marked.load .word 81).toNat = 0x44332211 ∧
      ((marked.store .half 0xFFFFFF53 0xBBAA).load .half 18).toNat = 0xBBAA ∧
      ((marked.store .half 0xFFFFFF53 0xBBAA).load .half 17).toNat = 0x2211 ∧
      ((marked.store .half 0xFFFFFF53 0xBBAA).load .byte 19).toNat = 0xBB ∧
      ((marked.store .half 0xFFFFFF53 0xBBAA).load .word 81).toNat = 0xBBAA2211 := by
  obtain ⟨-, -, -, -, hmasked⟩ := load_after_store marked .word .word 17 17 0
  have hword : (marked.load .word 81).toNat = 0x44332211 := by decide +kernel
  have hfinds (v : Width) (q : UInt32) :
      marked.Finds .half 0xFFFFFF53 0xBBAA v q
        ((marked.store .half 0xFFFFFF53 0xBBAA).load v q).toNat :=
    (load_after_store marked .half v 0xFFFFFF53 q 0xBBAA).2.2.1
  have hcell : marked.cell .half 0xFFFFFF53 = 18 := by decide +kernel
  have hhalf : marked.cell .half 18 = 18 := by decide +kernel
  have hlower : marked.cell .half 17 = 16 := by decide +kernel
  have hbyte : marked.cell .byte 19 = 19 := by decide +kernel
  have hwhole : marked.cell .word 81 = 16 := by decide +kernel
  refine ⟨(hmasked 81 (by decide +kernel)).1, hword, ?_, ?_, ?_, ?_⟩
  · rw [(hfinds .half 18).same (by rw [extent, extent, hcell, hhalf])]
    decide
  · rw [(hfinds .half 17).apart (by rw [disjoint_extent_iff, hcell, hlower]; decide)]
    decide +kernel
  · rw [(hfinds .byte 19).inside (by rw [extent_subset_iff, hcell, hbyte]; decide), hcell, hbyte]
    decide
  · rw [(hfinds .word 81).around (by rw [extent_subset_iff, hcell, hwhole]; decide), hcell, hwhole,
      hword]
    decide

end Sandbox

end SandboxVm
