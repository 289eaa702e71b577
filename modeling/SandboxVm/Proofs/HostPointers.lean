/-
SandboxVm.Proofs.HostPointers — what a host finds at a pointer.

A pointer is looked up in two steps. The null pointer refers to nothing; any other one is masked
and refers to the byte with the masked address. The first step looks at the pointer as it is
given, so masking a pointer beforehand changes nothing unless it makes the pointer null: the
multiples of the size refer to the first byte, which no pointer within the region does.

  §1  the index that a pointer refers to, as a remainder, and ranges of bytes (`RangeFits`);
  §2  `Sandbox.Interchangeable`: pointers that a host cannot tell apart;
  §3  `pointers_respect_masking`: masking, bounds, and the way back from an index.
-/
import SandboxVm.Proofs.Cells
import SandboxVm.Service

namespace SandboxVm.Sandbox

variable {s : Sandbox} {x y : UInt32} {i : Nat}

/-! ## §1 The index that a pointer refers to -/

theorem resolve?_of_ne_zero (h : x ≠ 0) : s.resolve? x = some (s.wrap x) := if_neg h

@[simp]
theorem resolve?_zero : s.resolve? 0 = none := if_pos rfl

/-- A pointer refers to the byte with its address, taken modulo the size. -/
theorem resolve?_eq_some_iff : s.resolve? x = some i ↔ x ≠ 0 ∧ x.toNat % s.size = i := by
  by_cases hx : x = 0
  · simp [hx]
  · rw [resolve?_of_ne_zero hx, wrap_eq_mod, Option.some.injEq]
    exact ⟨fun h => ⟨hx, h⟩, fun h => h.2⟩

theorem wrap_and_mask (s : Sandbox) (x : UInt32) : s.wrap (x &&& s.mask) = s.wrap x := by
  rw [wrap, wrap, UInt32.and_assoc, UInt32.and_self]

/-- The `n` bytes at a pointer exist, and none of them is behind the end of the region. -/
def RangeFits (s : Sandbox) (ptr : UInt32) (n : Nat) : Prop :=
  ptr ≠ 0 ∧ ptr.toNat % s.size + n ≤ s.size

theorem range?_of_fits {n : Nat} (h : s.RangeFits x n) :
    s.range? x n = some (x.toNat % s.size) := by
  simp only [range?, resolve?_eq_some_iff.2 ⟨h.1, rfl⟩]
  exact if_pos h.2

theorem range?_of_not_fits {n : Nat} (h : ¬ s.RangeFits x n) : s.range? x n = none := by
  by_cases hx : x = 0
  · simp only [hx, range?, resolve?_zero]
  · simp only [range?, resolve?_eq_some_iff.2 ⟨hx, rfl⟩]
    exact if_neg fun hle => h ⟨hx, hle⟩

/-! ## §2 Pointers that a host cannot tell apart -/

/-- Whatever a host reads or writes through either of two pointers, the outcome is the same. -/
structure Interchangeable (s : Sandbox) (x y : UInt32) : Prop where
  resolve : s.resolve? x = s.resolve? y
  slice : ∀ n, s.slice? x n = s.slice? y n
  cString : s.cString? x = s.cString? y
  string : s.string? x = s.string? y
  write : ∀ data, s.write? x data = s.write? y data
  index : ∀ v : View, v.memory = some s → v.index? x.toInt32 = v.index? y.toInt32
  text : ∀ v : View, v.memory = some s → v.string? x.toInt32 = v.string? y.toInt32

/-- All access goes through the index. -/
theorem interchangeable_iff : s.Interchangeable x y ↔ s.resolve? x = s.resolve? y := by
  refine ⟨Interchangeable.resolve, fun h => ?_⟩
  have hrange (n : Nat) : s.range? x n = s.range? y n := by simp only [range?, h]
  have hstring : s.string? x = s.string? y := by simp only [string?, cString?, h]
  constructor
  case resolve => exact h
  case slice =>
    intro n
    simp only [slice?, hrange]
  case cString => simp only [cString?, h]
  case string => exact hstring
  case write =>
    intro data
    have haccepts : s.accepts (.write x data) = s.accepts (.write y data) := by
      simp only [accepts, hrange]
    have hedit : s.edit (.write x data) = s.edit (.write y data) := by simp only [edit, hrange]
    rw [write?, write?, edit?, edit?, haccepts, hedit]
  case index =>
    intro v hv
    simpa [View.index?, hv] using h
  case text =>
    intro v hv
    simpa [View.string?, hv] using hstring

/-! ## §3 Masking -/

/-- Masking makes a difference exactly if it makes a pointer null. -/
theorem resolve?_and_mask_iff :
    s.resolve? x = s.resolve? (x &&& s.mask) ↔ x = 0 ∨ x &&& s.mask ≠ 0 := by
  by_cases hx : x = 0
  · simp [hx]
  · by_cases hmask : x &&& s.mask = 0
    · simp [hx, hmask, resolve?_of_ne_zero]
    · simp [hmask, resolve?_of_ne_zero hx, resolve?_of_ne_zero hmask, wrap_and_mask]

/-- A pointer and the pointer that is left when it is masked are the same to a host, unless the
one is null and the other is not: a multiple of the size refers to the first byte, the null
pointer to nothing. What a pointer refers to is inside the region, and the pointer to an index
behind the first refers to that index. -/
theorem pointers_respect_masking (s : Sandbox) :
    (∀ x, s.Interchangeable x (x &&& s.mask) ↔ x = 0 ∨ x &&& s.mask ≠ 0) ∧
      (∀ x, x ≠ 0 → x &&& s.mask = 0 →
        s.resolve? x = some 0 ∧ s.resolve? (x &&& s.mask) = none) ∧
      (∀ x i, s.resolve? x = some i → i < s.size ∧ s.pointer? i = some (x &&& s.mask)) ∧
      ∀ i, 0 < i → i < s.size → ∃ p, s.pointer? i = some p ∧ s.resolve? p = some i := by
  refine ⟨fun x => interchangeable_iff.trans resolve?_and_mask_iff, ?_, ?_, ?_⟩
  · intro x hx hmask
    rw [resolve?_of_ne_zero hx, hmask, wrap, hmask]
    exact ⟨rfl, resolve?_zero⟩
  · intro x i hi
    obtain ⟨hx, rfl⟩ := resolve?_eq_some_iff.1 hi
    have hlt : x.toNat % s.size < s.size := by
      rw [← wrap_eq_mod]
      exact s.wrap_lt_size x
    refine ⟨hlt, ?_⟩
    rw [pointer?, if_pos hlt, ← wrap_eq_mod, wrap, UInt32.ofNat_toNat]
  · intro i hpos hlt
    have hsize : s.size ≤ UInt32.size := by
      rw [size, s.size_eq]
      exact s.mask.toNat_lt
    have hnat : (UInt32.ofNat i).toNat = i :=
      UInt32.toNat_ofNat_of_lt' (Nat.lt_of_lt_of_le hlt hsize)
    refine ⟨_, if_pos hlt, resolve?_eq_some_iff.2 ⟨?_, ?_⟩⟩
    · intro hzero
      rw [hzero] at hnat
      exact Nat.ne_of_gt hpos hnat.symm
    · rw [hnat, Nat.mod_eq_of_lt hlt]

/-- In a region of 64 bytes: a pointer that is masked to another, a multiple of the size, and the
way back from an index. -/
theorem pointers_respect_masking_behind :
    (zeroed 64).Interchangeable 200 8 ∧ (zeroed 64).resolve? 128 = some 0 ∧
      ∃ p, (zeroed 64).pointer? 8 = some p ∧ (zeroed 64).resolve? p = some 8 := by
  obtain ⟨hmasked, hmultiple, -, hback⟩ := pointers_respect_masking (zeroed 64)
  have hmask : 200 &&& (zeroed 64).mask = 8 := by decide +kernel
  refine ⟨?_, ?_, hback 8 (by decide) (by decide +kernel)⟩
  · rw [← hmask]
    exact (hmasked 200).2 (.inr (by decide +kernel))
  · exact (hmultiple 128 (by decide) (by decide +kernel)).1

/-- In a region of 64 bytes the pointer 64 refers to the first byte and becomes null when it is
masked; and the pointer to the first byte is null. -/
theorem resolve?_of_multiple :
    (zeroed 64).resolve? 64 ≠ (zeroed 64).resolve? (64 &&& (zeroed 64).mask) ∧
      ((zeroed 64).pointer? 0).bind (zeroed 64).resolve? ≠ some 0 := by
  decide +kernel

end SandboxVm.Sandbox
