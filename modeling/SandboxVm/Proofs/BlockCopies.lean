/-
SandboxVm.Proofs.BlockCopies — copying bytes inside a data region.

A copy is possible if both ranges, with the addresses just behind them, are inside the region as
they are given. This is decided by masking four addresses and by two sums that may not fit into
32 bits; what it comes to is a comparison of numbers. The bytes that are copied are those before
the copy, also where the ranges overlap.

  §1  `Sandbox.canCopy_iff`: when a copy is possible;
  §2  `Sandbox.Copied`: what it does to each byte;
  §3  `block_copies`: the operation of a region, and the instruction that uses it, in either mode.
-/
import Mathlib.Algebra.Group.Int.Defs
import SandboxVm.Proofs.Cells
import SandboxVm.Proofs.Instructions

namespace SandboxVm

namespace Sandbox

variable {s : Sandbox} {dest src n : UInt32}

/-! ## §1 Ranges that can be copied -/

/-- Both ranges of a copy end inside the region. -/
def CopyFits (s : Sandbox) (dest src n : Nat) : Prop := dest + n < s.size ∧ src + n < s.size

/-- Masking leaves exactly those addresses alone that are inside the region. -/
theorem contains_iff {addr : UInt32} : s.contains addr = true ↔ addr.toNat < s.size := by
  refine ⟨toNat_lt_size_of_contains, fun h => ?_⟩
  have hwrap : (addr &&& s.mask).toNat = addr.toNat := by
    rw [← wrap, wrap_eq_mod, Nat.mod_eq_of_lt h]
  exact decide_eq_true (UInt32.toNat_inj.1 hwrap)

theorem endAddress?_of_lt {addr : UInt32} (h : addr.toNat + n.toNat < s.size) :
    endAddress? addr n = some (addr + n) := by
  have hsize : s.size ≤ UInt32.size := by
    have hmask : s.size = s.mask.toNat + 1 := s.size_eq
    have hlt : s.mask.toNat < UInt32.size := s.mask.toNat_lt
    omega
  exact if_pos (by omega)

/-- The sums are those of the numbers: nothing is accepted that fits only after wrapping. -/
theorem canCopy_iff :
    s.canCopy dest src n = true ↔ s.CopyFits dest.toNat src.toNat n.toNat := by
  refine ⟨add_lt_size_of_canCopy, fun ⟨hdest, hsrc⟩ => ?_⟩
  have hdestEnd := toNat_of_endAddress? (endAddress?_of_lt hdest)
  have hsrcEnd := toNat_of_endAddress? (endAddress?_of_lt hsrc)
  simp only [canCopy, endAddress?_of_lt hdest, endAddress?_of_lt hsrc, Bool.and_eq_true,
    contains_iff, hdestEnd, hsrcEnd]
  omega

/-! ## §2 Bytes that are copied -/

/-- The region `t` is the region `s` with `n` bytes copied, overlapping or not. -/
structure Copied (s t : Sandbox) (dest src n : Nat) : Prop where
  size : t.size = s.size
  moved : ∀ k < n, t.byte (dest + k) = s.byte (src + k)
  kept : ∀ i, i < dest ∨ dest + n ≤ i → t.byte i = s.byte i

theorem copied_edit (h : s.canCopy dest src n = true) :
    s.Copied (s.edit (.copy dest src n)) dest.toNat src.toNat n.toNat := by
  obtain ⟨hdest, hsrc⟩ := canCopy_iff.1 h
  constructor
  case size => exact s.size_edit trivial
  case moved =>
    intro k hk
    have hsize : s.bytes.data.toList.length = s.size := Array.length_toList
    have hlen : ((s.bytes.data.toList.drop src.toNat).take n.toNat).length = n.toNat := by
      rw [List.length_take, List.length_drop]
      omega
    have hbytes : (s.edit (.copy dest src n)).bytes =
        Region.copyWithin s.bytes dest.toNat src.toNat n.toNat := by
      simp only [edit, dif_pos h]
    have hsplice := getElem?_splice_of_inside s.bytes.data.toList
      ((s.bytes.data.toList.drop src.toNat).take n.toNat) (i := dest.toNat) (k := k)
      (by omega) (by omega)
    rw [hlen] at hsplice
    rw [byte, byte, hbytes, ← Array.getElem?_toList, ← Array.getElem?_toList,
      Region.toList_copyWithin _ _ _ _ (Nat.le_of_lt hsrc), hsplice,
      List.getElem?_take_of_lt hk, List.getElem?_drop]
  case kept =>
    intro i hi
    refine byte_edit_of_spares ⟨trivial, ?_⟩
    intro start len hrange
    rw [Edit.range?, if_pos h] at hrange
    cases hrange
    omega

/-- A copy that is not possible changes nothing. -/
theorem edit_copy_of_not_canCopy (h : ¬ s.canCopy dest src n = true) :
    s.edit (.copy dest src n) = s := by
  simp only [edit, dif_neg h]

end Sandbox

/-! ## §3 The operation and the instruction -/

variable {s : Sandbox} {dest src n : UInt32}

namespace Machine

variable {m : Machine} {rest : OperandStack} {v : Int32}

/-- The number of bytes that the instruction with a given operand copies: a negative operand is
taken as the unsigned number with the same bits. -/
def blockLength (v : Int32) : Nat := (v.toInt % 2 ^ 32).toNat

theorem toNat_toUInt32 (v : Int32) : v.toUInt32.toNat = blockLength v := by
  have hlt : v.toUInt32.toNat < 2 ^ 32 := v.toUInt32.toNat_lt
  have hint : v.toInt = Int.bmod v.toUInt32.toNat (2 ^ 32) :=
    BitVec.toInt_eq_toNat_bmod v.toBitVec
  have hmod := Int.bmod_emod (x := v.toUInt32.toNat) (m := 2 ^ 32)
  unfold blockLength
  omega

/-- The instruction does what the operation of the region does, or faults where that fails. -/
theorem step_blockCopy (hs : Strategy.Suits m.inst.program m.inst.jumpTable m.inst.strategy)
    (hins : m.inst.program.code[m.pc]? = some ⟨.blockCopy, v⟩)
    (hstack : m.stack = (rest.push dest).push src) :
    m.step =
      match m.inst.memory.blockCopy dest src v.toUInt32 with
      | .ok memory => .next ⟨{ m.inst with memory := memory }, rest, m.pc + 1, m.pc, m.ps⟩
      | .error cause => .fault ⟨m.inst, rest, m.pc + 1, m.pc, m.ps⟩ cause := by
  rw [step_of_single hs hins nofun nofun]
  obtain ⟨inst, stack, pc, cur, ps⟩ := m
  obtain rfl : stack = (rest.push dest).push src := hstack
  have hexecute : (fetched ⟨inst, (rest.push dest).push src, pc, cur, ps⟩).execute
      ⟨.blockCopy, v⟩ = blockCopy ⟨inst, rest, pc + 1, pc, ps⟩ dest src v.toUInt32 := rfl
  rw [hexecute]
  unfold blockCopy Sandbox.blockCopy
  split <;> rfl

end Machine

theorem Sandbox.blockCopy_of_fits (h : s.CopyFits dest.toNat src.toNat n.toNat) :
    ∃ t, s.blockCopy dest src n = .ok t ∧ s.Copied t dest.toNat src.toNat n.toNat := by
  have hcopy := canCopy_iff.2 h
  exact ⟨_, if_pos hcopy, copied_edit hcopy⟩

theorem Sandbox.copied_of_blockCopy {t : Sandbox} (h : s.blockCopy dest src n = .ok t) :
    s.CopyFits dest.toNat src.toNat n.toNat ∧ s.Copied t dest.toNat src.toNat n.toNat := by
  unfold blockCopy at h
  split at h
  · rename_i hcopy
    cases h
    exact ⟨canCopy_iff.1 hcopy, copied_edit hcopy⟩
  · cases h

theorem Sandbox.blockCopy_of_not_fits (h : ¬ s.CopyFits dest.toNat src.toNat n.toNat) :
    s.blockCopy dest src n = .error .blockCopyOutOfRange :=
  if_neg (mt canCopy_iff.1 h)

/-- Copying succeeds exactly if both ranges end inside the region, and then moves the bytes as
they were and leaves the others alone; otherwise it fails and changes nothing. The instruction
faults where copying fails, in either mode and with any operand. -/
theorem block_copies (s : Sandbox) (dest src n : UInt32) :
    ((∃ t, s.blockCopy dest src n = .ok t) ↔ s.CopyFits dest.toNat src.toNat n.toNat) ∧
      (∀ t, s.blockCopy dest src n = .ok t → s.Copied t dest.toNat src.toNat n.toNat) ∧
      (¬ s.CopyFits dest.toNat src.toNat n.toNat →
        s.blockCopy dest src n = .error .blockCopyOutOfRange ∧ s.edit (.copy dest src n) = s) ∧
      ∀ (m : Machine) (v : Int32) (rest : OperandStack),
        Strategy.Suits m.inst.program m.inst.jumpTable m.inst.strategy →
        m.inst.program.code[m.pc]? = some ⟨.blockCopy, v⟩ →
        m.stack = (rest.push dest).push src →
        (m.inst.memory.CopyFits dest.toNat src.toNat (Machine.blockLength v) →
          ∃ t, m.inst.memory.Copied t dest.toNat src.toNat (Machine.blockLength v) ∧
            m.step = .next ⟨{ m.inst with memory := t }, rest, m.pc + 1, m.pc, m.ps⟩) ∧
        (¬ m.inst.memory.CopyFits dest.toNat src.toNat (Machine.blockLength v) →
          m.step = .fault ⟨m.inst, rest, m.pc + 1, m.pc, m.ps⟩ .blockCopyOutOfRange) := by
  refine ⟨⟨?_, ?_⟩, ?_, ?_, ?_⟩
  · rintro ⟨t, ht⟩
    exact (Sandbox.copied_of_blockCopy ht).1
  · intro hfits
    obtain ⟨t, ht, -⟩ := Sandbox.blockCopy_of_fits hfits
    exact ⟨t, ht⟩
  · intro t ht
    exact (Sandbox.copied_of_blockCopy ht).2
  · intro hfits
    exact ⟨Sandbox.blockCopy_of_not_fits hfits,
      Sandbox.edit_copy_of_not_canCopy (mt Sandbox.canCopy_iff.1 hfits)⟩
  · intro m v rest hs hins hstack
    have hstep := Machine.step_blockCopy hs hins hstack
    rw [← Machine.toNat_toUInt32]
    constructor
    · intro hfits
      obtain ⟨t, ht, hcopied⟩ := Sandbox.blockCopy_of_fits hfits
      rw [ht] at hstep
      exact ⟨t, hcopied, hstep⟩
    · intro hfits
      rw [Sandbox.blockCopy_of_not_fits hfits] at hstep
      exact hstep

-- the addresses behind the ranges have to be inside as well
example : (Sandbox.zeroed 16).canCopy 8 0 7 = true ∧ (Sandbox.zeroed 16).canCopy 8 0 8 = false := by
  decide +kernel

end SandboxVm
