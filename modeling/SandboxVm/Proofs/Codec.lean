/-
SandboxVm.Proofs.Codec — code segments are written and read back without loss.

An assembly is written operation by operation, each in one to five bytes, and a code segment is
read with nothing but a count to go by. Writer and reader decide on their own how wide an
operand is, and labels are looked up when everything has been written.

  §1  one instruction: what was written is read back, up to the part of an operand that has no
      room (`Instruction.kept`), and what is read was written that way;
  §2  programs, by induction over the count;
  §3  `Assembly.Item`: an assembly as the sequence of what was put into it. Where a label is
      placed last, and which instruction an operation stands for, is said by that sequence
      alone (`LastPlaced`, `Denotes`);
  §4  `code_segment_codec`, both directions.
-/
import Mathlib.Algebra.Group.Nat.Defs
import Mathlib.Data.List.Forall2
import Mathlib.Data.List.Induction
import SandboxVm.Assembly
import SandboxVm.Program

namespace SandboxVm

/-! ## §1 Instructions -/

namespace Opcode

/-- An operation has the code byte that it is read from. -/
theorem toByte_of_ofByte? {b : UInt8} {op : Opcode} (h : ofByte? b = some op) :
    op.toByte = b := by
  have hall : ∀ i : Fin all.size, all[i].toByte = UInt8.ofNat i := by decide
  obtain ⟨hb, hop⟩ := Array.getElem?_eq_some_iff.1 h
  have hbyte := hall ⟨b.toNat, hb⟩
  simp only [Fin.getElem_fin, hop, UInt8.ofNat_toNat] at hbyte
  exact hbyte

/-- There are three kinds of operands: none, the byte of an argument offset, and words. -/
theorem operandSize_cases (op : Opcode) :
    op.operandSize = 0 ∧ op ≠ .arg ∨ op = .arg ∨ op.operandSize = 4 ∧ op ≠ .arg := by
  cases op <;> simp [operandSize]

/-- What is kept of an operand: of the offset of an argument only the low byte is written. -/
def kept (op : Opcode) (v : Int32) : Int32 := if op = .arg then v &&& 0xff else v

@[simp]
theorem kept_kept (op : Opcode) (v : Int32) : op.kept (op.kept v) = op.kept v := by
  by_cases h : op = .arg
  · simp [kept, h, Int32.and_assoc]
  · simp [kept, h]

end Opcode

namespace Instruction

/-- The instruction that is read where the given one was written. -/
def kept (ins : Instruction) : Instruction :=
  ⟨ins.op, if ins.op.operandSize = 0 then 0 else ins.op.kept ins.operand⟩

theorem toInt32_mod_256 (v : Int32) : (v.toUInt32 % 256).toInt32 = v &&& 0xff := by
  apply Int32.toBitVec_inj.1
  apply BitVec.eq_of_toNat_eq
  have hmask := Nat.and_two_pow_sub_one_eq_mod v.toBitVec.toNat 8
  simpa using hmask.symm

/-- An instruction that was written is read back, whatever follows it. -/
theorem read_encode (ins : Instruction) (rest : Bytes) :
    read (ins.encode ++ rest) = .ok (ins.kept, rest) := by
  obtain ⟨op, v⟩ := ins
  rcases op.operandSize_cases with ⟨h, hne⟩ | rfl | ⟨h, hne⟩
  · simp [encode, read, kept, h]
  · simp [encode, read, kept, Opcode.kept, Opcode.operandSize, toInt32_mod_256]
  · simp [encode, read, kept, Opcode.kept, h, hne]

/-- What has no room in an instruction is not written. -/
theorem encode_kept (op : Opcode) (v : Int32) :
    (Instruction.mk op (op.kept v)).encode = (Instruction.mk op v).encode := by
  by_cases h : op = .arg
  · have hlow : (v.toUInt32 % 256).toUInt8 = v.toUInt32.toUInt8 := by
      simp [← UInt8.toNat_inj]
    subst h
    simp [encode, Opcode.kept, Opcode.operandSize, ← toInt32_mod_256, hlow]
  · simp [Opcode.kept, h]

/-- What is read as an instruction is the instruction as it is written. -/
theorem eq_encode_of_read {bytes rest : Bytes} {ins : Instruction}
    (h : read bytes = .ok (ins, rest)) : bytes = ins.encode ++ rest := by
  cases bytes with
  | nil => simp [read] at h
  | cons b bytes =>
    cases hop : Opcode.ofByte? b with
    | none => simp [read, hop] at h
    | some op =>
      have hb := Opcode.toByte_of_ofByte? hop
      rcases op.operandSize_cases with ⟨hsize, -⟩ | rfl | ⟨hsize, -⟩
      · simp only [read, hop, hsize] at h
        cases h
        simp [encode, hsize, hb]
      · cases bytes with
        | nil => simp [read, hop, Opcode.operandSize] at h
        | cons v bytes =>
          simp only [read, hop, Opcode.operandSize] at h
          cases h
          simp [encode, Opcode.operandSize, hb]
      · cases hw : Bytes.word? bytes with
        | none => simp [read, hop, hsize, hw] at h
        | some r =>
          simp only [read, hop, hsize, hw] at h
          cases h
          simp [encode, hsize, hb, Bytes.eq_ofWord_append_of_word? hw]

end Instruction

/-! ## §2 Programs -/

namespace Program

/-- What is left of a code segment behind its first `count` instructions. -/
def leftover? : (count : Nat) → Bytes → Option Bytes
  | 0, bytes => some bytes
  | count + 1, bytes =>
    match Instruction.read bytes with
    | .error _ => none
    | .ok (_, rest) => leftover? count rest

/-- Instructions that were written one after another are read back. -/
theorem readMany_flatMap_encode (inss : List Instruction) (offset : Nat)
    (code : Array Instruction) (offsets : Array UInt32) (hkept : ∀ ins ∈ inss, ins.kept = ins) :
    ∃ offsets', readMany inss.length offset (inss.flatMap Instruction.encode) code offsets =
      .ok (code ++ inss.toArray, offsets') := by
  induction inss generalizing offset code offsets with
  | nil => exact ⟨offsets, by simp [readMany]⟩
  | cons ins inss ih =>
    obtain ⟨hins, hrest⟩ := List.forall_mem_cons.1 hkept
    obtain ⟨offsets', hread⟩ := ih (offset + 1 + ins.op.operandSize) (code.push ins)
      (offsets.push (UInt32.ofNat offset)) hrest
    refine ⟨offsets', ?_⟩
    simp only [List.length_cons, List.flatMap_cons, readMany, Instruction.read_encode, hins]
    rw [hread]
    simp

/-- Instructions that are read were written one after another, up to where reading stopped. -/
theorem exists_flatMap_encode_of_readMany {count offset : Nat} {bytes : Bytes}
    {code code' : Array Instruction} {offsets offsets' : Array UInt32}
    (h : readMany count offset bytes code offsets = .ok (code', offsets')) :
    ∃ (inss : List Instruction) (rest : Bytes), code' = code ++ inss.toArray ∧
      leftover? count bytes = some rest ∧ bytes = inss.flatMap Instruction.encode ++ rest := by
  induction count generalizing offset bytes code offsets with
  | zero =>
    cases h
    exact ⟨[], bytes, by simp, rfl, rfl⟩
  | succ count ih =>
    simp only [readMany] at h
    split at h
    · cases h
    · rename_i ins tail hread
      obtain ⟨inss, rest, hcode, hleft, htail⟩ := ih h
      refine ⟨ins :: inss, rest, ?_, ?_, ?_⟩
      · simp [hcode]
      · simp [leftover?, hread, hleft]
      · rw [Instruction.eq_encode_of_read hread, htail, List.flatMap_cons, List.append_assoc]

theorem isInstruction_iff_toInt {p : Program} {n : Int32} :
    p.isInstruction n = true ↔ 0 ≤ n.toInt ∧ n.toInt < p.size := by
  have hle : 0 ≤ n ↔ 0 ≤ n.toInt := Int32.le_iff_toInt_le
  have hnat : (n.toNatClampNeg : Int) = max n.toInt 0 := Int.toNat_eq_max _
  simp only [isInstruction, Bool.and_eq_true, decide_eq_true_eq, hle, size]
  omega

/-- Decoding instructions that were written gives them back, provided that branches name
instructions, and fails otherwise. -/
theorem decode_flatMap_encode (inss : List Instruction) (hkept : ∀ ins ∈ inss, ins.kept = ins) :
    ((∃ p, decode (inss.flatMap Instruction.encode) inss.length = .ok p) ↔
      ∀ ins ∈ inss, ins.op.isBranch = true →
        0 ≤ ins.operand.toInt ∧ ins.operand.toInt < inss.length) ∧
    ∀ p, decode (inss.flatMap Instruction.encode) inss.length = .ok p → p.code.toList = inss := by
  obtain ⟨offsets, hread⟩ := readMany_flatMap_encode inss 0 #[] #[] hkept
  let p : Program :=
    ⟨#[] ++ inss.toArray, offsets, UInt32.ofNat (inss.flatMap Instruction.encode).length⟩
  have hdecode : decode (inss.flatMap Instruction.encode) inss.length =
      if p.branchesResolve then .ok p else .error .badBranchTarget := by
    simp only [decode, hread]
    rfl
  have hsize : p.size = inss.length := by simp [p, size]
  have hresolve : p.branchesResolve = true ↔ ∀ ins ∈ inss, ins.op.isBranch = true →
      0 ≤ ins.operand.toInt ∧ ins.operand.toInt < inss.length := by
    simp only [branchesResolve, p, Array.empty_append, List.all_toArray, List.all_eq_true,
      Bool.or_eq_true, Bool.not_eq_true', ← Bool.not_eq_true, ← imp_iff_not_or]
    refine forall₂_congr fun ins _ => imp_congr_right fun _ => ?_
    rw [isInstruction_iff_toInt, ← hsize]
    simp [p]
  rw [hdecode]
  by_cases hp : p.branchesResolve = true
  · refine ⟨⟨fun _ => hresolve.1 hp, fun _ => ⟨p, if_pos hp⟩⟩, ?_⟩
    intro q hq
    rw [if_pos hp] at hq
    cases hq
    simp [p]
  · rw [if_neg hp]
    exact ⟨⟨nofun, fun h => absurd (hresolve.2 h) hp⟩, nofun⟩

/-- What a program was decoded from: its instructions, and bytes that were not looked at. -/
theorem exists_append_of_decode {bytes : Bytes} {count : Nat} {p : Program}
    (h : decode bytes count = .ok p) :
    ∃ rest, leftover? count bytes = some rest ∧
      bytes = p.code.toList.flatMap Instruction.encode ++ rest := by
  cases hread : readMany count 0 bytes #[] #[] with
  | error e => simp [decode, hread] at h
  | ok r =>
    obtain ⟨inss, rest, hcode, hleft, hbytes⟩ := exists_flatMap_encode_of_readMany hread
    have hp : p.code = r.1 := by
      simp only [decode, hread] at h
      split at h <;> cases h
      rfl
    exact ⟨rest, hleft, by simpa [hp, hcode] using hbytes⟩

end Program

/-! ## §3 Assemblies as sequences of items -/

namespace Assembly

/-- One thing that is put into an assembly. -/
inductive Item where
  | place (label : String)
  | listTarget (label : String)
  | op (op : Opcode)
  | opImm (op : Opcode) (v : Int32)
  | opLabel (op : Opcode) (label : String)
  deriving DecidableEq

namespace Item

/-- The assembly with one more thing in it. -/
def put (a : Assembly) : Item → Assembly
  | .place l => a.place l
  | .listTarget l => a.listTarget l
  | .op o => a.op o
  | .opImm o v => a.opImm o v
  | .opLabel o l => a.opLabel o l

/-- The operation that an item appends. -/
def operation? : Item → Option (Opcode × Operand)
  | .place _ | .listTarget _ => none
  | .op o => some (o, if o.operandSize = 0 then .none else .imm 0)
  | .opImm o v => some (o, .imm v)
  | .opLabel o l => some (o, .label l)

/-- The label that an item lists for the jump table. -/
def target? : Item → Option String
  | .listTarget l => some l
  | _ => none

/-- How an instruction is put into an assembly: with its operand if its opcode takes one. -/
def ofInstruction (ins : Instruction) : Item :=
  if ins.op.operandSize = 0 then .op ins.op else .opImm ins.op ins.operand

end Item

/-- What has been assembled after the given items. -/
def ofItems (items : List Item) : Assembly := items.foldl Item.put empty

/-- The operations among the given items. -/
def emitted (items : List Item) : List (Opcode × Operand) := items.filterMap Item.operation?

/-- The label is used: as an operand, or as a jump target. -/
def Uses (items : List Item) (l : String) : Prop :=
  (∃ op, .opLabel op l ∈ items) ∨ .listTarget l ∈ items

/-- The label is placed at the instruction with number `n`, and not again later. -/
def LastPlaced (items : List Item) (l : String) (n : Nat) : Prop :=
  ∃ before after, items = before ++ .place l :: after ∧ .place l ∉ after ∧
    (emitted before).length = n

/-- The instruction that an operation of the assembly stands for. -/
inductive Denotes (items : List Item) : Opcode × Operand → Instruction → Prop
  | bare (op : Opcode) : Denotes items (op, .none) ⟨op, 0⟩
  | imm (op : Opcode) (v : Int32) : Denotes items (op, .imm v) ⟨op, op.kept v⟩
  | label (op : Opcode) {l : String} {n : Nat} {v : Int32} (hl : LastPlaced items l n)
      (hv : v.toInt = n) : Denotes items (op, .label l) ⟨op, op.kept v⟩

theorem ofItems_concat (items : List Item) (x : Item) :
    ofItems (items ++ [x]) = x.put (ofItems items) := by
  simp [ofItems]

theorem toList_ops_ofItems (items : List Item) : (ofItems items).ops.toList = emitted items := by
  induction items using List.reverseRecOn with
  | nil => rfl
  | append_singleton items x ih =>
    rw [ofItems_concat, emitted, List.filterMap_append, ← emitted, ← ih]
    cases x <;> simp [Item.put, Item.operation?, place, listTarget, op, opImm, opLabel, emit]

theorem toList_indirect_ofItems (items : List Item) :
    (ofItems items).indirect.toList = items.filterMap Item.target? := by
  induction items using List.reverseRecOn with
  | nil => rfl
  | append_singleton items x ih =>
    rw [ofItems_concat, List.filterMap_append, ← ih]
    cases x <;> simp [Item.put, Item.target?, place, listTarget, op, opImm, opLabel, emit]

theorem size_ops_ofItems (items : List Item) :
    (ofItems items).ops.size = (emitted items).length := by
  rw [← toList_ops_ofItems, Array.length_toList]

theorem not_lastPlaced_nil (l : String) (n : Nat) : ¬ LastPlaced [] l n := by
  rintro ⟨before, after, h, -⟩
  simp at h

/-- Placing a label again hides where it was before. -/
theorem lastPlaced_concat_place (items : List Item) (l : String) (n : Nat) :
    LastPlaced (items ++ [.place l]) l n ↔ (emitted items).length = n := by
  constructor
  · rintro ⟨before, after, h, hafter, hn⟩
    cases after using List.reverseRecOn with
    | nil => rwa [(List.append_inj_left' h rfl : items = before)]
    | append_singleton after x =>
      rw [← List.cons_append, ← List.append_assoc] at h
      obtain ⟨-, hx⟩ := List.append_inj' h rfl
      cases hx
      simp at hafter
  · intro hn
    exact ⟨items, [], rfl, List.not_mem_nil, hn⟩

/-- Whatever else is put into the assembly leaves the label where it is. -/
theorem lastPlaced_concat_of_ne {x : Item} {l : String} (hx : x ≠ .place l) (items : List Item)
    (n : Nat) : LastPlaced (items ++ [x]) l n ↔ LastPlaced items l n := by
  constructor
  · rintro ⟨before, after, h, hafter, hn⟩
    cases after using List.reverseRecOn with
    | nil => exact absurd (List.cons.inj (List.append_inj_right' h rfl)).1 hx
    | append_singleton after y =>
      rw [← List.cons_append, ← List.append_assoc] at h
      exact ⟨before, after, List.append_inj_left' h rfl,
        fun hmem => hafter (List.mem_append_left _ hmem), hn⟩
  · rintro ⟨before, after, rfl, hafter, hn⟩
    refine ⟨before, after ++ [x], by simp, ?_, hn⟩
    simp [hafter, hx.symm]

/-- Labels are looked up where they were placed last. -/
theorem lookup_places_ofItems (items : List Item) (l : String) (n : Nat) :
    (ofItems items).places.lookup l = some n ↔ LastPlaced items l n := by
  induction items using List.reverseRecOn with
  | nil => exact ⟨nofun, fun h => absurd h (not_lastPlaced_nil l n)⟩
  | append_singleton items x ih =>
    rw [ofItems_concat]
    by_cases hx : x = .place l
    · subst hx
      simp [lastPlaced_concat_place, Item.put, place, size_ops_ofItems]
    · rw [lastPlaced_concat_of_ne hx, ← ih]
      cases x with
      | place k =>
        have hk : (l == k) = false := beq_false_of_ne fun h => hx (h ▸ rfl)
        simp [Item.put, place, List.lookup_cons, hk]
      | listTarget _ | op _ | opImm _ _ | opLabel _ _ => rfl

theorem LastPlaced.le {items : List Item} {l : String} {n : Nat} (h : LastPlaced items l n) :
    n ≤ (emitted items).length := by
  obtain ⟨before, after, rfl, -, rfl⟩ := h
  simp [emitted]

theorem LastPlaced.mem {items : List Item} {l : String} {n : Nat} (h : LastPlaced items l n) :
    .place l ∈ items := by
  obtain ⟨before, after, rfl, -, -⟩ := h
  simp

/-- A label that is placed at all is placed somewhere last. -/
theorem exists_lastPlaced_of_mem {items : List Item} {l : String} (h : .place l ∈ items) :
    ∃ n, LastPlaced items l n := by
  induction items using List.reverseRecOn with
  | nil => simp at h
  | append_singleton items x ih =>
    by_cases hx : x = .place l
    · exact ⟨_, hx ▸ (lastPlaced_concat_place items l _).2 rfl⟩
    · obtain ⟨n, hn⟩ := ih (by simpa [Ne.symm hx] using h)
      exact ⟨n, (lastPlaced_concat_of_ne hx items n).2 hn⟩

theorem resolve?_ofItems_eq_none {items : List Item} {l : String} :
    (ofItems items).resolve? l = none ↔ .place l ∉ items := by
  rw [resolve?, Option.map_eq_none_iff, Option.eq_none_iff_forall_ne_some]
  simp only [ne_eq, lookup_places_ofItems]
  exact ⟨fun h hmem => (exists_lastPlaced_of_mem hmem).elim h, fun h _ hn => h hn.mem⟩

/-- In an assembly of fewer than 2 ^ 31 operations labels stand for the numbers of the
instructions they are at. -/
theorem lastPlaced_of_resolve? {items : List Item} (hlen : (emitted items).length < 2 ^ 31)
    {l : String} {v : Int32} (h : (ofItems items).resolve? l = some v) :
    ∃ n, LastPlaced items l n ∧ v.toInt = n := by
  obtain ⟨n, hn, rfl⟩ := Option.map_eq_some_iff.1 h
  have hl := (lookup_places_ofItems items l n).1 hn
  exact ⟨n, hl, Int32.toInt_ofNat_of_lt (Nat.lt_of_le_of_lt hl.le hlen)⟩

/-! ## §4 Both directions -/

section Traverse

variable {α β : Type} {f : α → Option β}

theorem forall₂_of_mapM {xs : List α} {ys : List β} (h : xs.mapM f = some ys) :
    List.Forall₂ (fun x y => f x = some y) xs ys := by
  induction xs generalizing ys with
  | nil =>
    cases h
    exact .nil
  | cons x xs ih =>
    simp only [List.mapM_cons, Option.bind_eq_bind, Option.bind_eq_some_iff, Option.pure_def,
      Option.some.injEq] at h
    obtain ⟨y, hy, ys, hys, rfl⟩ := h
    exact .cons hy (ih hys)

theorem mapM_eq_none {xs : List α} : xs.mapM f = none ↔ ∃ x ∈ xs, f x = none := by
  induction xs with
  | nil => simp
  | cons x xs ih =>
    cases hx : f x with
    | none => simp [hx]
    | some y => cases hxs : xs.mapM f <;> simp_all

end Traverse

/-- An operation with an operand is written as the instruction that it stands for. -/
theorem cons_operandBytes (op : Opcode) (hop : op.operandSize ≠ 0) (v : Int32) :
    op.toByte :: encodeOp.operandBytes op v = (Instruction.mk op v).encode := by
  rcases op.operandSize_cases with ⟨h, -⟩ | rfl | ⟨h, -⟩
  · exact absurd h hop
  · simp [encodeOp.operandBytes, Instruction.encode, Opcode.operandSize]
  · simp [encodeOp.operandBytes, Instruction.encode, h]

section

variable {items : List Item} {e : Opcode × Operand} {ins : Instruction} {bytes : Bytes}

theorem Denotes.kept_eq (h : Denotes items e ins) (hapt : e.2 = .none ↔ e.1.operandSize = 0) :
    ins.kept = ins := by
  cases h with
  | bare op => simp [Instruction.kept, hapt.1 rfl]
  | imm op v | label op _ _ =>
    have hop : op.operandSize ≠ 0 := fun h => nomatch hapt.2 h
    simp [Instruction.kept, hop]

theorem denotes_of_encodeOp (hlen : (emitted items).length < 2 ^ 31)
    (hapt : e.2 = .none ↔ e.1.operandSize = 0) (h : (ofItems items).encodeOp e = some bytes) :
    ∃ ins, Denotes items e ins ∧ bytes = ins.encode := by
  obtain ⟨op, operand⟩ := e
  cases operand with
  | none =>
    cases h
    exact ⟨_, .bare op, by simp [Instruction.encode, hapt.1 rfl]⟩
  | imm v =>
    cases h
    refine ⟨_, .imm op v, ?_⟩
    rw [Instruction.encode_kept]
    exact cons_operandBytes op (fun hop => nomatch hapt.2 hop) v
  | label l =>
    obtain ⟨v, hv, rfl⟩ := Option.map_eq_some_iff.1 h
    obtain ⟨n, hl, hn⟩ := lastPlaced_of_resolve? hlen hv
    refine ⟨_, .label op hl hn, ?_⟩
    rw [Instruction.encode_kept]
    exact cons_operandBytes op (fun hop => nomatch hapt.2 hop) v

theorem encodeOp_eq_none :
    (ofItems items).encodeOp e = none ↔ ∃ l, e.2 = .label l ∧ .place l ∉ items := by
  obtain ⟨op, operand⟩ := e
  cases operand <;> simp [encodeOp, resolve?_ofItems_eq_none]

end

/-- The instructions that the operations stand for are what gets written. -/
theorem exists_forall₂_denotes {items : List Item} (hlen : (emitted items).length < 2 ^ 31)
    {es : List (Opcode × Operand)} (hapt : ∀ e ∈ es, e.2 = .none ↔ e.1.operandSize = 0)
    {chunks : List Bytes} (h : es.mapM (ofItems items).encodeOp = some chunks) :
    ∃ inss, List.Forall₂ (Denotes items) es inss ∧ (∀ ins ∈ inss, ins.kept = ins) ∧
      chunks.flatten = inss.flatMap Instruction.encode := by
  have hchunks := forall₂_of_mapM h
  clear h
  induction hchunks with
  | nil => exact ⟨[], .nil, by simp, rfl⟩
  | cons he _ ih =>
    obtain ⟨hapt, hapts⟩ := List.forall_mem_cons.1 hapt
    obtain ⟨ins, hd, rfl⟩ := denotes_of_encodeOp hlen hapt he
    obtain ⟨inss, hds, hkept, hflat⟩ := ih hapts
    refine ⟨ins :: inss, .cons hd hds, ?_, ?_⟩
    · exact List.forall_mem_cons.2 ⟨hd.kept_eq hapt, hkept⟩
    · simp [hflat]

theorem label_mem_emitted {items : List Item} {op : Opcode} {l : String} :
    (op, .label l) ∈ emitted items ↔ .opLabel op l ∈ items := by
  constructor
  · intro h
    obtain ⟨x, hx, hop⟩ := List.mem_filterMap.1 h
    cases x with
    | opLabel o k =>
      cases hop
      exact hx
    | op o => by_cases ho : o.operandSize = 0 <;> simp [Item.operation?, ho] at hop
    | place _ | listTarget _ | opImm _ _ => simp [Item.operation?] at hop
  · intro h
    exact List.mem_filterMap.2 ⟨_, h, rfl⟩

theorem mem_targets {items : List Item} {l : String} :
    l ∈ items.filterMap Item.target? ↔ .listTarget l ∈ items := by
  constructor
  · intro h
    obtain ⟨x, hx, hl⟩ := List.mem_filterMap.1 h
    cases x <;> cases hl
    exact hx
  · intro h
    exact List.mem_filterMap.2 ⟨_, h, rfl⟩

/-- Finishing fails when, and only when, a label is used that has no place. -/
theorem finish_eq_error_iff (items : List Item) :
    (∃ e, (ofItems items).finish = .error e) ↔ ∃ l, Uses items l ∧ .place l ∉ items := by
  have hfinish : (∃ e, (ofItems items).finish = .error e) ↔
      (ofItems items).ops.toList.mapM (ofItems items).encodeOp = none ∨
      (ofItems items).indirect.toList.mapM (ofItems items).resolve? = none := by
    unfold finish
    cases (ofItems items).ops.toList.mapM (ofItems items).encodeOp <;>
      cases (ofItems items).indirect.toList.mapM (ofItems items).resolve? <;> simp
  rw [hfinish, mapM_eq_none, mapM_eq_none, toList_ops_ofItems, toList_indirect_ofItems]
  simp only [encodeOp_eq_none, resolve?_ofItems_eq_none, mem_targets]
  constructor
  · rintro (⟨⟨op, operand⟩, hmem, l, hl, hplace⟩ | ⟨l, hmem, hplace⟩)
    · cases hl
      exact ⟨l, .inl ⟨op, label_mem_emitted.1 hmem⟩, hplace⟩
    · exact ⟨l, .inr hmem, hplace⟩
  · rintro ⟨l, ⟨op, hmem⟩ | hmem, hplace⟩
    · exact .inl ⟨_, label_mem_emitted.2 hmem, l, rfl, hplace⟩
    · exact .inr ⟨l, hmem, hplace⟩

/-- Instructions are put into an assembly without labels, and written as they are. -/
theorem mapM_encodeOp_emitted (a : Assembly) (inss : List Instruction) :
    (emitted (inss.map Item.ofInstruction)).mapM a.encodeOp =
      some (inss.map Instruction.encode) := by
  induction inss with
  | nil => rfl
  | cons ins inss ih =>
    obtain ⟨op, v⟩ := ins
    have hcons : emitted ((Instruction.mk op v :: inss).map Item.ofInstruction) =
        (op, if op.operandSize = 0 then .none else .imm v) ::
          emitted (inss.map Item.ofInstruction) := by
      by_cases hop : op.operandSize = 0 <;>
        simp [emitted, Item.ofInstruction, Item.operation?, hop]
    have hhead : a.encodeOp (op, if op.operandSize = 0 then .none else .imm v) =
        some (Instruction.mk op v).encode := by
      by_cases hop : op.operandSize = 0
      · simp [encodeOp, Instruction.encode, hop]
      · simp [encodeOp, cons_operandBytes, hop]
    rw [hcons, List.mapM_cons, hhead, ih]
    rfl

/-- Assembling the instructions of a program again writes them one after another. -/
theorem finish_ofInstructions (inss : List Instruction) :
    ∃ code, (ofItems (inss.map Item.ofInstruction)).finish = .ok code ∧
      code.bytes = inss.flatMap Instruction.encode := by
  have htargets : (inss.map Item.ofInstruction).filterMap Item.target? = [] := by
    apply List.filterMap_eq_nil_iff.2
    intro x hx
    obtain ⟨ins, -, rfl⟩ := List.mem_map.1 hx
    by_cases hop : ins.op.operandSize = 0 <;> simp [Item.ofInstruction, Item.target?, hop]
  rw [finish, toList_ops_ofItems, toList_indirect_ofItems, mapM_encodeOp_emitted, htargets]
  exact ⟨_, rfl, rfl⟩

/-- Code segments are written and read without loss. An assembly that gives every operation an
operand exactly if its opcode takes one is finished unless it uses a label that it never
places. What is then written is decoded if every conditional branch names an instruction, and
gives the instructions that the operations stand for. In the other direction, assembling what
was decoded writes the bytes again that decoding has read. -/
theorem code_segment_codec :
    (∀ items : List Item, (emitted items).length < 2 ^ 31 →
      (∀ e ∈ emitted items, e.2 = .none ↔ e.1.operandSize = 0) →
      ((∃ e, (ofItems items).finish = .error e) ↔ ∃ l, Uses items l ∧ .place l ∉ items) ∧
      ∀ code, (ofItems items).finish = .ok code →
        ∃ inss, List.Forall₂ (Denotes items) (emitted items) inss ∧
          ((∃ p, Program.decode code.bytes code.instructionCount.toNatClampNeg = .ok p) ↔
            ∀ ins ∈ inss, ins.op.isBranch = true →
              0 ≤ ins.operand.toInt ∧ ins.operand.toInt < inss.length) ∧
          ∀ p, Program.decode code.bytes code.instructionCount.toNatClampNeg = .ok p →
            p.code.toList = inss) ∧
    ∀ (bytes : Bytes) (count : Nat) (p : Program), Program.decode bytes count = .ok p →
      ∃ code rest, (ofItems (p.code.toList.map Item.ofInstruction)).finish = .ok code ∧
        Program.leftover? count bytes = some rest ∧ bytes = code.bytes ++ rest := by
  constructor
  · intro items hlen hapt
    refine ⟨finish_eq_error_iff items, ?_⟩
    intro code hcode
    unfold finish at hcode
    split at hcode
    next chunks targets hchunks _ =>
      cases hcode
      rw [toList_ops_ofItems] at hchunks
      obtain ⟨inss, hden, hkept, hbytes⟩ := exists_forall₂_denotes hlen hapt hchunks
      have hcount : (Int32.ofNat (ofItems items).ops.size).toNatClampNeg = inss.length := by
        rw [size_ops_ofItems, ← hden.length_eq, Int32.toNatClampNeg,
          Int32.toInt_ofNat_of_lt hlen, Int.toNat_natCast]
      refine ⟨inss, hden, ?_⟩
      rw [hbytes, hcount]
      exact Program.decode_flatMap_encode inss hkept
    next => cases hcode
  · intro bytes count p hp
    obtain ⟨rest, hleft, hbytes⟩ := Program.exists_append_of_decode hp
    obtain ⟨code, hfinish, hcode⟩ := finish_ofInstructions p.code.toList
    exact ⟨code, rest, hfinish, hleft, hcode ▸ hbytes⟩

/-- A branch forward to a label that is placed twice, and an argument offset that is too large. -/
def replaced : List Item :=
  [.opLabel (.branch .eq) "t", .place "t", .opImm .arg 300, .place "t", .op .push]

theorem code_segment_codec_replaced :
    ∃ code p, (ofItems replaced).finish = .ok code ∧
      Program.decode code.bytes code.instructionCount.toNatClampNeg = .ok p ∧
      List.Forall₂ (Denotes replaced) (emitted replaced) p.code.toList ∧
      p.code.toList = [⟨.branch .eq, 2⟩, ⟨.arg, 44⟩, ⟨.push, 0⟩] := by
  have hfinish : (ofItems replaced).finish =
      .ok ⟨[11, 2, 0, 0, 0, 33, 44, 6], 3, []⟩ := by rfl
  have hdecode : Program.decode [11, 2, 0, 0, 0, 33, 44, 6] 3 =
      .ok ⟨#[⟨.branch .eq, 2⟩, ⟨.arg, 44⟩, ⟨.push, 0⟩], #[0, 5, 7], 8⟩ := by decide +kernel
  obtain ⟨inss, hden, -, hcode⟩ :=
    (code_segment_codec.1 replaced (by decide) (by decide)).2 _ hfinish
  refine ⟨_, _, hfinish, hdecode, ?_, rfl⟩
  rw [hcode _ hdecode]
  exact hden

end Assembly

end SandboxVm
