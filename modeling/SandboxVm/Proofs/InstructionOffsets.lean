/-
SandboxVm.Proofs.InstructionOffsets — where the instructions of a decoded program begin.

Decoding goes through a code segment with nothing but a count, and an instruction takes one, two
or five bytes. The offsets that are noted on the way are the numbers of bytes read so far, so
they are in increasing order, and that is what finding the instruction at an offset relies on.

  §1  `search_eq_some_iff`: halving finds an entry of an increasing table exactly if it is there;
  §2  `bytesBefore`: the bytes in front of an instruction;
  §3  `offsets_of_readMany`: what decoding notes, by induction over the count;
  §4  `decoded_structure`: the program as a whole, and the way back from offsets.
-/
import SandboxVm.Proofs.Codec

namespace SandboxVm

namespace Program

/-! ## §1 Searching an increasing table -/

section Search

variable {offsets : Array UInt32} {offset : UInt32} {i n k l : Nat}

/-- Entries of an increasing table are in the order of their indices. -/
theorem lt_iff_of_increasing (hinc : offsets.toList.Pairwise (· < ·)) {a b : UInt32}
    (hk : offsets[k]? = some a) (hl : offsets[l]? = some b) : a < b ↔ k < l := by
  obtain ⟨hk, rfl⟩ := Array.getElem?_eq_some_iff.1 hk
  obtain ⟨hl, rfl⟩ := Array.getElem?_eq_some_iff.1 hl
  have hlt {i j : Nat} (hi : i < offsets.size) (hj : j < offsets.size) (hij : i < j) :
      offsets[i] < offsets[j] := by
    simpa using List.pairwise_iff_getElem.1 hinc i j hi hj hij
  rcases Nat.lt_trichotomy k l with h | rfl | h
  · exact iff_of_true (hlt _ _ h) h
  · exact iff_of_false (UInt32.lt_irrefl _) (Nat.lt_irrefl k)
  · exact iff_of_false (UInt32.lt_asymm (hlt _ _ h)) (Nat.lt_asymm h)

/-- The half that is left out does not hold the offset. -/
theorem search_eq_some_iff (hinc : offsets.toList.Pairwise (· < ·))
    (h : i + n ≤ offsets.size) :
    search offsets offset i n h = some k ↔
      i ≤ k ∧ k < i + n ∧ offsets[k]? = some offset := by
  have hsplit (j : Nat) (hj : j < offsets.size) (hk : offsets[k]? = some offset) :
      offset < offsets[j] ↔ k < j :=
    lt_iff_of_increasing hinc hk (Array.getElem?_eq_getElem hj)
  fun_induction search offsets offset i n h with
  | case1 i h =>
    simp
    omega
  | case2 i h hone hfound =>
    have hi : offsets[i]? = some offset := hfound ▸ Array.getElem?_eq_getElem (by omega)
    rw [Option.some.injEq]
    constructor
    · rintro rfl
      exact ⟨Nat.le_refl i, Nat.lt_succ_self i, hi⟩
    · omega
  | case3 i h hone hne =>
    have hi : offsets[i]? ≠ some offset := by
      rw [Array.getElem?_eq_getElem (by omega)]
      simpa using hne
    refine iff_of_false nofun ?_
    rintro ⟨hle, hlt, hk⟩
    obtain rfl : i = k := by omega
    exact hi hk
  | case4 i n h hzero hone hlt ih =>
    -- if the number of entries is odd, the window that is kept reaches one entry too far
    have hleft := fun hk => (hsplit (i + n / 2) (by omega) hk).1 hlt
    refine ih.trans ⟨?_, ?_⟩
    · rintro ⟨hle, hin, hk⟩
      exact ⟨hle, by omega, hk⟩
    · rintro ⟨hle, hin, hk⟩
      have := hleft hk
      exact ⟨hle, by omega, hk⟩
  | case5 i n h hzero hone hge ih =>
    have hright := fun hk => mt (hsplit (i + n / 2) (by omega) hk).2 hge
    refine ih.trans ⟨?_, ?_⟩
    · rintro ⟨hle, hin, hk⟩
      exact ⟨by omega, by omega, hk⟩
    · rintro ⟨hle, hin, hk⟩
      have := hright hk
      exact ⟨by omega, by omega, hk⟩

end Search

/-! ## §2 Bytes in front of an instruction -/

variable {p : Program} {bytes : Bytes} {count n m : Nat} {ins : Instruction}

/-- An instruction is a code byte with an operand behind it. -/
theorem length_encode (ins : Instruction) : ins.encode.length = 1 + ins.op.operandSize := by
  rcases ins.op.operandSize_cases with ⟨h, -⟩ | h | ⟨h, -⟩
  · simp [Instruction.encode, h]
  · simp [Instruction.encode, h, Opcode.operandSize]
  · simp [Instruction.encode, h]

/-- The number of bytes that the first `n` instructions of a program take. -/
def bytesBefore (p : Program) (n : Nat) : Nat :=
  ((p.code.toList.take n).flatMap Instruction.encode).length

theorem bytesBefore_succ (h : p.code[n]? = some ins) :
    p.bytesBefore (n + 1) = p.bytesBefore n + (1 + ins.op.operandSize) := by
  rw [← Array.getElem?_toList] at h
  rw [bytesBefore, List.take_add_one, h, List.flatMap_append, List.length_append, bytesBefore,
    ← length_encode]
  simp

theorem bytesBefore_mono (h : n ≤ m) : p.bytesBefore n ≤ p.bytesBefore m := by
  obtain ⟨k, rfl⟩ := Nat.exists_eq_add_of_le h
  rw [bytesBefore, bytesBefore, List.take_add, List.flatMap_append, List.length_append]
  exact Nat.le_add_right _ _

/-- What begins later begins behind the operand. -/
theorem add_operandSize_lt_bytesBefore (hins : p.code[n]? = some ins) (h : n < m) :
    p.bytesBefore n + ins.op.operandSize < p.bytesBefore m := by
  have hnext := bytesBefore_succ hins
  have hle : p.bytesBefore (n + 1) ≤ p.bytesBefore m := bytesBefore_mono h
  omega

/-! ## §3 What decoding notes -/

/-- The offset of an instruction is the number of bytes that were read before it. -/
theorem offsets_of_readMany {offset : Nat} {code code' : Array Instruction}
    {offsets offsets' : Array UInt32}
    (h : readMany count offset bytes code offsets = .ok (code', offsets')) :
    ∃ inss : List Instruction, inss.length = count ∧ code'.toList = code.toList ++ inss ∧
      offsets'.toList = offsets.toList ++ (List.range count).map fun n =>
        UInt32.ofNat (offset + ((inss.take n).flatMap Instruction.encode).length) := by
  induction count generalizing offset bytes code offsets with
  | zero =>
    cases h
    exact ⟨[], by simp⟩
  | succ count ih =>
    simp only [readMany] at h
    split at h
    · cases h
    · rename_i ins rest hread
      obtain ⟨inss, hlen, hcode, hoffsets⟩ := ih h
      refine ⟨ins :: inss, by simp [hlen], by simp [hcode], ?_⟩
      rw [hoffsets, List.range_succ_eq_map]
      simp [length_encode, Function.comp_def, Nat.add_assoc]

theorem exists_readMany_of_decode (h : decode bytes count = .ok p) :
    readMany count 0 bytes #[] #[] = .ok (p.code, p.offsets) ∧
      p.codeLength = UInt32.ofNat bytes.length ∧ p.branchesResolve = true := by
  unfold decode at h
  split at h
  · cases h
  · rename_i code offsets hread
    dsimp only at h
    split at h <;> cases h
    rename_i hbranches
    exact ⟨hread, rfl, hbranches⟩

/-- Offsets and instructions come in equal numbers, and the offsets count bytes. -/
theorem getElem?_offsets_of_decode (h : decode bytes count = .ok p) :
    p.code.size = count ∧ p.offsets.size = count ∧
      ∀ n < count, p.offsets[n]? = some (UInt32.ofNat (p.bytesBefore n)) := by
  obtain ⟨hread, -, -⟩ := exists_readMany_of_decode h
  obtain ⟨inss, hlen, hcode, hoffsets⟩ := offsets_of_readMany hread
  have hinss : p.code.toList = inss := by simpa using hcode
  refine ⟨?_, ?_, ?_⟩
  · rw [← Array.length_toList, hinss, hlen]
  · rw [← Array.length_toList, hoffsets]
    simp
  · intro n hn
    rw [← Array.getElem?_toList, hoffsets, bytesBefore, hinss]
    simp [hn]

/-! ## §4 Decoded programs -/

/-- A program of `count` instructions that stand one behind the other in a code segment, from its
first byte on, and whose conditional branches name instructions. -/
structure LiesIn (p : Program) (bytes : Bytes) (count : Nat) : Prop where
  size_code : p.code.size = count
  size_offsets : p.offsets.size = count
  codeLength : p.codeLength.toNat = bytes.length
  first : 0 < count → p.offsetOf 0 = 0
  increasing : p.offsets.toList.Pairwise (· < ·)
  next : ∀ n ins, p.code[n]? = some ins → n + 1 < count →
    (p.offsetOf (n + 1)).toNat = (p.offsetOf n).toNat + (1 + ins.op.operandSize)
  ends : ∀ n ins, p.code[n]? = some ins →
    (p.offsetOf n).toNat + (1 + ins.op.operandSize) ≤ p.codeLength.toNat
  stands : ∀ n ins, p.code[n]? = some ins →
    (bytes.drop (p.offsetOf n).toNat).take (1 + ins.op.operandSize) = ins.encode
  branches : ∀ ins ∈ p.code, ins.op.isBranch = true →
    0 ≤ ins.operand.toInt ∧ ins.operand.toInt < count

/-- Instructions are found by their offsets, and nothing is found elsewhere: not inside an
operand, and not behind the code. -/
structure FindsInstructions (p : Program) : Prop where
  inverse : ∀ o n, p.instructionAt? o = some n ↔ n < p.size ∧ p.offsetOf n = o
  operand : ∀ n ins k, p.code[n]? = some ins → 0 < k → k ≤ ins.op.operandSize →
    p.instructionAt? (p.offsetOf n + UInt32.ofNat k) = none
  behind : ∀ o, p.codeLength ≤ o → p.instructionAt? o = none

/-- An instruction stands in the code segment behind those before it. -/
theorem exists_append_of_getElem? (h : decode bytes count = .ok p)
    (hins : p.code[n]? = some ins) :
    ∃ before behind, before.length = p.bytesBefore n ∧ bytes = before ++ (ins.encode ++ behind) := by
  obtain ⟨rest, -, hbytes⟩ := exists_append_of_decode h
  rw [← Array.getElem?_toList] at hins
  obtain ⟨hn, hget⟩ := List.getElem?_eq_some_iff.1 hins
  have hcode := congrArg (List.flatMap Instruction.encode) (List.take_append_drop n p.code.toList)
  rw [List.drop_eq_getElem_cons hn, hget, List.flatMap_append, List.flatMap_cons] at hcode
  refine ⟨_, (p.code.toList.drop (n + 1)).flatMap Instruction.encode ++ rest, rfl, ?_⟩
  rw [hbytes, ← hcode, List.append_assoc, List.append_assoc]

section

variable (hlen : bytes.length < 2 ^ 32) (h : decode bytes count = .ok p)
include h

theorem bytesBefore_add_le (hins : p.code[n]? = some ins) :
    p.bytesBefore n + (1 + ins.op.operandSize) ≤ bytes.length := by
  obtain ⟨before, behind, hbefore, rfl⟩ := exists_append_of_getElem? h hins
  rw [List.length_append, List.length_append, length_encode]
  omega

include hlen

theorem toNat_offsetOf (hins : p.code[n]? = some ins) :
    (p.offsetOf n).toNat = p.bytesBefore n := by
  obtain ⟨hsize, -, hoffsets⟩ := getElem?_offsets_of_decode h
  have hn : n < count := hsize ▸ (Array.getElem?_eq_some_iff.1 hins).1
  have hle := bytesBefore_add_le h hins
  rw [offsetOf, hoffsets n hn, Option.getD_some]
  exact UInt32.toNat_ofNat_of_lt' (Nat.lt_of_le_of_lt (by omega) hlen)

theorem toNat_codeLength : p.codeLength.toNat = bytes.length := by
  obtain ⟨-, hcodeLength, -⟩ := exists_readMany_of_decode h
  rw [hcodeLength]
  exact UInt32.toNat_ofNat_of_lt' hlen

theorem liesIn_of_decode : p.LiesIn bytes count := by
  obtain ⟨hcode, hoffsets, hget⟩ := getElem?_offsets_of_decode h
  obtain ⟨-, -, hbranches⟩ := exists_readMany_of_decode h
  have hins {n : Nat} (hn : n < count) : ∃ ins, p.code[n]? = some ins :=
    ⟨_, Array.getElem?_eq_getElem (hcode.symm ▸ hn)⟩
  constructor
  case size_code => exact hcode
  case size_offsets => exact hoffsets
  case codeLength => exact toNat_codeLength hlen h
  case first =>
    intro hpos
    rw [offsetOf, hget 0 hpos]
    rfl
  case increasing =>
    have hentry {i : Nat} (hi : i < p.offsets.toList.length) :
        p.offsets.toList[i].toNat = p.bytesBefore i := by
      rw [Array.length_toList, hoffsets] at hi
      obtain ⟨ins, hi'⟩ := hins hi
      rw [← toNat_offsetOf hlen h hi', offsetOf, Array.getElem_toList,
        Array.getElem?_eq_getElem (hoffsets.symm ▸ hi), Option.getD_some]
    rw [List.pairwise_iff_getElem]
    intro i j hi hj hij
    obtain ⟨ins, hi'⟩ := hins (n := i) (by rwa [Array.length_toList, hoffsets] at hi)
    have hlt := add_operandSize_lt_bytesBefore hi' hij
    rw [UInt32.lt_iff_toNat_lt, hentry hi, hentry hj]
    omega
  case next =>
    intro n ins hn hnext
    obtain ⟨ins', hn'⟩ := hins hnext
    rw [toNat_offsetOf hlen h hn, toNat_offsetOf hlen h hn', bytesBefore_succ hn]
  case ends =>
    intro n ins hn
    rw [toNat_offsetOf hlen h hn, toNat_codeLength hlen h]
    exact bytesBefore_add_le h hn
  case stands =>
    intro n ins hn
    obtain ⟨before, behind, hbefore, hbytes⟩ := exists_append_of_getElem? h hn
    rw [toNat_offsetOf hlen h hn, ← hbefore, hbytes, List.drop_left, ← length_encode,
      List.take_left]
  case branches =>
    intro ins hmem hbranch
    have hall := Array.all_eq_true_iff_forall_mem.1 hbranches ins hmem
    rw [hbranch] at hall
    simpa [isInstruction_iff_toInt, size, hcode] using hall

theorem findsInstructions_of_decode : p.FindsInstructions := by
  obtain ⟨hcode, hoffsets, hget⟩ := getElem?_offsets_of_decode h
  have hinverse (o : UInt32) (n : Nat) :
      p.instructionAt? o = some n ↔ n < p.size ∧ p.offsetOf n = o := by
    rw [instructionAt?, search_eq_some_iff (liesIn_of_decode hlen h).increasing, offsetOf, size,
      hcode, hoffsets, Nat.zero_add]
    constructor
    · rintro ⟨-, hn, ho⟩
      exact ⟨hn, by rw [ho, Option.getD_some]⟩
    · rintro ⟨hn, rfl⟩
      exact ⟨Nat.zero_le n, hn, by rw [hget n hn, Option.getD_some]⟩
  constructor
  case inverse => exact hinverse
  case operand =>
    intro n ins k hn hpos hle
    have hend := bytesBefore_add_le h hn
    rw [Option.eq_none_iff_forall_ne_some]
    intro m hm
    obtain ⟨hlt, heq⟩ := (hinverse _ m).1 hm
    have hk : (UInt32.ofNat k).toNat = k :=
      UInt32.toNat_ofNat_of_lt' (Nat.lt_of_le_of_lt (by omega) hlen)
    have hnat := congrArg UInt32.toNat heq
    rw [toNat_offsetOf hlen h (Array.getElem?_eq_getElem hlt), UInt32.toNat_add,
      toNat_offsetOf hlen h hn, hk, Nat.mod_eq_of_lt (by omega)] at hnat
    -- an instruction inside the operand would begin neither before this one nor behind it
    rcases Nat.lt_or_ge n m with hnm | hmn
    · have hbehind := add_operandSize_lt_bytesBefore hn hnm
      omega
    · have hbefore : p.bytesBefore m ≤ p.bytesBefore n := bytesBefore_mono hmn
      omega
  case behind =>
    intro o ho
    rw [Option.eq_none_iff_forall_ne_some]
    intro m hm
    obtain ⟨hlt, rfl⟩ := (hinverse _ m).1 hm
    have hins := Array.getElem?_eq_getElem hlt
    have hend := bytesBefore_add_le h hins
    rw [UInt32.le_iff_toNat_le, toNat_offsetOf hlen h hins, toNat_codeLength hlen h] at ho
    omega

end

/-- A program that was decoded has as many instructions and offsets as were asked for, lies in the
code segment without gaps, and branches to its own instructions only. The instruction at an
offset is found if there is one, and only then. -/
theorem decoded_structure {bytes : Bytes} {count : Nat} {p : Program}
    (hlen : bytes.length < 2 ^ 32) (h : decode bytes count = .ok p) :
    p.LiesIn bytes count ∧ p.FindsInstructions :=
  ⟨liesIn_of_decode hlen h, findsInstructions_of_decode hlen h⟩

/-- A branch, an argument and a push, with two bytes behind them that are not read. -/
theorem decoded_structure_branching :
    ∃ p, decode [11, 2, 0, 0, 0, 33, 44, 6, 255, 255] 3 = .ok p ∧
      p.LiesIn [11, 2, 0, 0, 0, 33, 44, 6, 255, 255] 3 ∧ p.FindsInstructions ∧
      p.instructionAt? 7 = some 2 ∧ p.instructionAt? 6 = none := by
  have hdecode : decode [11, 2, 0, 0, 0, 33, 44, 6, 255, 255] 3 =
      .ok ⟨#[⟨.branch .eq, 2⟩, ⟨.arg, 44⟩, ⟨.push, 0⟩], #[0, 5, 7], 10⟩ := by decide +kernel
  obtain ⟨hlies, hfinds⟩ := decoded_structure (by decide) hdecode
  exact ⟨_, hdecode, hlies, hfinds, by decide +kernel, by decide +kernel⟩

end Program

end SandboxVm
