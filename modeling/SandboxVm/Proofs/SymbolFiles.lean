/-
SandboxVm.Proofs.SymbolFiles — what a symbol file says, read without the reader.

A symbol file is a text. Its words come in threes, every three of them are a record, and a record
names an instruction or is passed over. The reader takes the words one after the other, drops
records on the way and sorts what is left, and a look-up searches the sorted table. What it finds
is said here of the file as it stands: which of the records with the greatest offset comes last.

  §1  `cutInto_iff`: words are the longest runs without blanks;
  §2  `number?_eq_some_iff`: how a record writes the number of an instruction;
  §3  `describes_iff`: the records of a file by their place among the words;
  §4  `symbol_file`: the table and its look-ups.
-/
import Mathlib.Data.List.Permutation
import Mathlib.Data.List.Sort
import Mathlib.Data.List.SplitBy
import Mathlib.Data.List.TakeWhile
import Mathlib.Data.Nat.Digits.Defs
import SandboxVm.Proofs.InstructionOffsets
import SandboxVm.Proofs.SymbolTables

namespace SandboxVm

/-! ## §1 Words -/

namespace Text

/-- Characters are cut at their blanks: the words are the longest runs without blanks, in order. -/
inductive CutInto : List Char → List String → Prop where
  | blank {gap : List Char} (hgap : ∀ c ∈ gap, isBlank c = true) : CutInto gap []
  | word {gap word rest : List Char} {words : List String} (hgap : ∀ c ∈ gap, isBlank c = true)
      (hne : word ≠ []) (hword : ∀ c ∈ word, isBlank c = false)
      (hend : ∀ c ∈ rest.head?, isBlank c = true) (h : CutInto rest words) :
    CutInto (gap ++ (word ++ rest)) (String.ofList word :: words)

/-- The longest runs of characters that are all blank, or all not. -/
def runs (cs : List Char) : List (List Char) := cs.splitBy fun a b => isBlank a == isBlank b

theorem runs_of_forall {run : List Char} {b : Bool} (hne : run ≠ [])
    (h : ∀ c ∈ run, isBlank c = b) : runs run = [run] := by
  refine List.splitBy_of_isChain hne (List.Pairwise.isChain ?_)
  exact List.Pairwise.imp_of_mem (fun hx hy _ => by simp [h _ hx, h _ hy])
    (List.pairwise_of_forall (R := fun _ _ => True) fun _ _ => trivial)

/-- What follows a run and is of the other kind begins a run of its own. -/
theorem runs_append {run rest : List Char} {b : Bool} (hne : run ≠ [])
    (h : ∀ c ∈ run, isBlank c = b) (hend : ∀ c ∈ rest.head?, isBlank c = !b) :
    runs (run ++ rest) = run :: runs rest := by
  have hsplit : runs (run ++ rest) = runs run ++ runs rest := by
    refine List.splitBy_append ?_
    intro x hx y hy
    rw [h x (List.mem_of_mem_getLast? hx), hend y hy]
    cases b <;> rfl
  rw [hsplit, runs_of_forall hne h, List.singleton_append]

theorem filter_runs_of_blank {gap rest : List Char} (hgap : ∀ c ∈ gap, isBlank c = true)
    (hend : ∀ c ∈ rest.head?, isBlank c = false) :
    (runs (gap ++ rest)).filter (fun run => !run.all isBlank) =
      (runs rest).filter fun run => !run.all isBlank := by
  by_cases hne : gap = []
  · rw [hne, List.nil_append]
  · rw [runs_append hne hgap hend, List.filter_cons_of_neg]
    simpa using hgap

theorem CutInto.words_eq {cs : List Char} {ws : List String} (h : CutInto cs ws) :
    ((runs cs).filter fun run => !run.all isBlank).map String.ofList = ws := by
  induction h with
  | @blank gap hgap =>
    have hruns := @filter_runs_of_blank gap [] hgap nofun
    rw [List.append_nil] at hruns
    rw [hruns]
    rfl
  | @word gap word rest words hgap hne hword hend h ih =>
    have hhead : ∀ c ∈ (word ++ rest).head?, isBlank c = false := by
      intro c hc
      rw [List.head?_append_of_ne_nil _ hne] at hc
      exact hword c (List.mem_of_mem_head? hc)
    have hkept : (!word.all isBlank) = true := by
      obtain ⟨c, hc⟩ := List.exists_mem_of_ne_nil word hne
      simpa using ⟨c, hc, hword c hc⟩
    rw [filter_runs_of_blank hgap hhead, runs_append hne hword hend, List.filter_cons,
      if_pos hkept, List.map_cons, ih]

theorem eq_false_of_mem_head?_dropWhile {p : Char → Bool} {cs : List Char} {c : Char}
    (hc : c ∈ (cs.dropWhile p).head?) : p c = false := by
  have h := List.head?_dropWhile_not p cs
  rw [Option.mem_def.1 hc] at h
  exact h

theorem exists_cutInto (cs : List Char) : ∃ ws, CutInto cs ws := by
  induction hn : cs.length using Nat.strongRecOn generalizing cs with
  | ind n ih =>
    let rest := cs.dropWhile isBlank
    let rest' := rest.dropWhile (!isBlank ·)
    have hgap : ∀ c ∈ cs.takeWhile isBlank, isBlank c = true :=
      fun c hc => List.mem_takeWhile_imp hc
    have hword : ∀ c ∈ rest.takeWhile (!isBlank ·), isBlank c = false := by
      intro c hc
      simpa using List.mem_takeWhile_imp hc
    have hend : ∀ c ∈ rest'.head?, isBlank c = true := by
      intro c hc
      simpa using eq_false_of_mem_head?_dropWhile hc
    have hcs : cs = cs.takeWhile isBlank ++ (rest.takeWhile (!isBlank ·) ++ rest') := by
      rw [List.takeWhile_append_dropWhile, List.takeWhile_append_dropWhile]
    by_cases hne : rest.takeWhile (!isBlank ·) = []
    · have hnone : rest = [] := by
        cases hrest : rest with
        | nil => rfl
        | cons c tail =>
          have hc : isBlank c = false := by
            refine @eq_false_of_mem_head?_dropWhile isBlank cs c ?_
            rw [show cs.dropWhile isBlank = c :: tail from hrest]
            rfl
          simp [hrest, hc] at hne
      exact ⟨[], .blank (List.dropWhile_eq_nil_iff.1 hnone)⟩
    · have hlt : rest'.length < n := by
        have hlen := congrArg List.length hcs
        have hpos := List.length_pos_of_ne_nil hne
        simp only [List.length_append, hn] at hlen
        omega
      obtain ⟨ws, hws⟩ := ih _ hlt rest' rfl
      rw [hcs]
      exact ⟨_, .word hgap hne hword hend hws⟩

/-- The words of a text are what it is cut into. -/
theorem cutInto_iff {s : String} {ws : List String} : CutInto s.toList ws ↔ ws = words s := by
  constructor
  · exact fun h => h.words_eq.symm
  · rintro rfl
    obtain ⟨ws, h⟩ := exists_cutInto s.toList
    have heq : words s = ws := h.words_eq
    rw [heq]
    exact h

theorem CutInto.isBlank_of_mem {cs : List Char} {ws : List String} (h : CutInto cs ws)
    {word : String} (hmem : word ∈ ws) {c : Char} (hc : c ∈ word.toList) : isBlank c = false := by
  induction h with
  | blank => cases hmem
  | word _ _ hword _ _ ih =>
    rcases List.mem_cons.1 hmem with rfl | hmem
    · exact hword c (by simpa using hc)
    · exact ih hmem

/-! ## §2 Numbers of instructions -/

/-- The character is a hexadecimal digit with the given value, in either case. -/
def IsHexDigit (c : Char) (d : Nat) : Prop :=
  d < 16 ∧ (c = d.digitChar ∨ c = d.digitChar.toUpper)

/-- A character in a range is found by its distance from the first one. -/
theorem exists_ofNat_of_le {lo hi c : Char} (h : lo ≤ c ∧ c ≤ hi) :
    ∃ k, k + lo.toNat ≤ hi.toNat ∧ c.toNat = k + lo.toNat ∧ c = Char.ofNat (k + lo.toNat) := by
  obtain ⟨k, hk⟩ := Nat.exists_eq_add_of_le' (show lo.toNat ≤ c.toNat from h.1)
  exact ⟨k, hk ▸ h.2, hk, by rw [← hk, Char.ofNat_toNat]⟩

theorem hexDigit?_eq_some_iff {c : Char} {d : Nat} : hexDigit? c = some d ↔ IsHexDigit c d := by
  constructor
  · have hdigit : ∀ k ≤ 9, Char.ofNat (k + 48) = k.digitChar := by decide
    have hlower : ∀ k ≤ 5, Char.ofNat (k + 97) = (k + 10).digitChar := by decide
    have hupper : ∀ k ≤ 5, Char.ofNat (k + 65) = (k + 10).digitChar.toUpper := by decide
    intro h
    unfold hexDigit? at h
    split at h
    · rename_i hrange
      obtain ⟨k, hk : k + 48 ≤ 57, htoNat, hc⟩ := exists_ofNat_of_le hrange
      obtain rfl : k = d := by simpa [htoNat] using h
      exact ⟨by omega, .inl (hc.trans (hdigit k (by omega)))⟩
    · split at h
      · rename_i hrange
        obtain ⟨k, hk : k + 97 ≤ 102, htoNat, hc⟩ := exists_ofNat_of_le hrange
        obtain rfl : k + 10 = d := by simpa [htoNat] using h
        exact ⟨by omega, .inl (hc.trans (hlower k (by omega)))⟩
      · split at h
        · rename_i hrange
          obtain ⟨k, hk : k + 65 ≤ 70, htoNat, hc⟩ := exists_ofNat_of_le hrange
          obtain rfl : k + 10 = d := by simpa [htoNat] using h
          exact ⟨by omega, .inr (hc.trans (hupper k (by omega)))⟩
        · cases h
  · have hread : ∀ d < 16, hexDigit? d.digitChar = some d ∧
        hexDigit? d.digitChar.toUpper = some d := by decide
    rintro ⟨hd, rfl | rfl⟩
    · exact (hread d hd).1
    · exact (hread d hd).2

end Text

namespace SymbolTable

open Text (IsHexDigit)

/-- The word denotes a number: behind any number of marks `0x`, and a plus sign or none, stand
hexadecimal digits, at least one, and their value has at most 32 bits. -/
def Denotes (word : String) (n : Nat) : Prop :=
  ∃ (marks : Nat) (sign digits : List Char) (values : List Nat),
    word.toList = (List.replicate marks ['0', 'x']).flatten ++ (sign ++ digits) ∧
    (sign = [] ∨ sign = ['+']) ∧ digits ≠ [] ∧ List.Forall₂ IsHexDigit digits values ∧
    n = Nat.ofDigits 16 values.reverse ∧ n < 2 ^ 32

/-- Digits are read from the left. -/
theorem ofDigits_reverse (values : List Nat) :
    Nat.ofDigits 16 values.reverse = values.foldl (fun n d => 16 * n + d) 0 := by
  rw [Nat.ofDigits_eq_foldr, List.foldr_reverse]
  simp [Nat.add_comm]

theorem le_foldl_digits (values : List Nat) (n : Nat) :
    n ≤ values.foldl (fun n d => 16 * n + d) n := by
  induction values generalizing n with
  | nil => exact Nat.le_refl n
  | cons d values ih => exact Nat.le_trans (by omega) (ih (16 * n + d))

/-- The number of digits does not matter, as long as the value fits. -/
theorem hexDigits?_eq_some_iff {cs : List Char} {acc n : Nat} (hacc : acc < UInt32.size) :
    hexDigits? cs acc = some n ↔
      ∃ values, List.Forall₂ IsHexDigit cs values ∧
        n = values.foldl (fun n d => 16 * n + d) acc ∧ n < UInt32.size := by
  induction cs generalizing acc with
  | nil =>
    constructor
    · rintro ⟨⟩
      exact ⟨[], .nil, rfl, hacc⟩
    · rintro ⟨_, ⟨⟩, rfl, -⟩
      rfl
  | cons c cs ih =>
    have hstep : hexDigits? (c :: cs) acc = (Text.hexDigit? c).bind fun d =>
        if 16 * acc + d < UInt32.size then hexDigits? cs (16 * acc + d) else none := rfl
    rw [hstep, Option.bind_eq_some_iff]
    constructor
    · rintro ⟨d, hd, h⟩
      split at h
      next hlt =>
        obtain ⟨values, hvalues, hn⟩ := (ih hlt).1 h
        exact ⟨d :: values, .cons (Text.hexDigit?_eq_some_iff.1 hd) hvalues, hn⟩
      next => cases h
    · rintro ⟨_, hvalues, hn, hlt⟩
      obtain ⟨d, values, hd, hrest, rfl⟩ := List.forall₂_cons_left_iff.1 hvalues
      have hle := le_foldl_digits values (16 * acc + d)
      have hfits : 16 * acc + d < UInt32.size := by
        rw [List.foldl_cons] at hn
        omega
      refine ⟨d, Text.hexDigit?_eq_some_iff.2 hd, ?_⟩
      rw [if_pos hfits]
      exact (ih hfits).2 ⟨values, hrest, hn, hlt⟩

theorem ne_of_isHexDigit {c : Char} {d : Nat} (h : IsHexDigit c d) : c ≠ '+' ∧ c ≠ 'x' := by
  rw [← Text.hexDigit?_eq_some_iff] at h
  constructor <;> rintro rfl <;> cases h

/-- A sign is optional, digits are not. -/
theorem hexWord?_eq_some_iff {cs : List Char} {n : Nat} :
    hexWord? cs = some n ↔
      ∃ (sign digits : List Char) (values : List Nat), cs = sign ++ digits ∧
        (sign = [] ∨ sign = ['+']) ∧ digits ≠ [] ∧ List.Forall₂ IsHexDigit digits values ∧
        n = Nat.ofDigits 16 values.reverse ∧ n < 2 ^ 32 := by
  simp only [ofDigits_reverse]
  have hdigits (digits : List Char) := @hexDigits?_eq_some_iff digits 0 n (by decide)
  constructor
  · intro h
    unfold hexWord? at h
    split at h
    · cases h
    · cases h
    · rename_i cs hne
      obtain ⟨values, hvalues, hn⟩ := (hdigits cs).1 h
      exact ⟨['+'], cs, values, rfl, .inr rfl, by rintro rfl; exact hne rfl, hvalues, hn⟩
    · rename_i hne _ _
      obtain ⟨values, hvalues, hn⟩ := (hdigits cs).1 h
      exact ⟨[], cs, values, rfl, .inl rfl, hne, hvalues, hn⟩
  · rintro ⟨sign, digits, values, rfl, hsign, hne, hvalues, hn⟩
    obtain ⟨c, digits, rfl⟩ := List.exists_cons_of_ne_nil hne
    have hread := (hdigits (c :: digits)).2 ⟨values, hvalues, hn⟩
    rcases hsign with rfl | rfl
    · have hplus : c ≠ '+' := by
        rintro rfl
        obtain ⟨d, _, hd, -, -⟩ := List.forall₂_cons_left_iff.1 hvalues
        exact (ne_of_isHexDigit hd).1 rfl
      rw [List.nil_append, hexWord?]
      · exact hread
      · nofun
      · intro h
        exact hplus (List.cons.inj h).1
      · intro tail h
        exact hplus (List.cons.inj h).1
    · exact hread

/-- All marks are removed, and nothing else. -/
theorem exists_dropMarks (cs : List Char) :
    ∃ marks, cs = (List.replicate marks ['0', 'x']).flatten ++ dropMarks cs := by
  fun_induction dropMarks cs with
  | case1 cs ih =>
    obtain ⟨marks, hmarks⟩ := ih
    exact ⟨marks + 1, by simp [List.replicate_succ, ← hmarks]⟩
  | case2 cs => exact ⟨0, rfl⟩

theorem dropMarks_of_not_mem {cs : List Char} (h : 'x' ∉ cs) : dropMarks cs = cs := by
  unfold dropMarks
  split
  · simp at h
  · rfl

theorem dropMarks_flatten (marks : Nat) (cs : List Char) :
    dropMarks ((List.replicate marks ['0', 'x']).flatten ++ cs) = dropMarks cs := by
  induction marks with
  | zero => rfl
  | succ marks ih => simpa [List.replicate_succ, dropMarks] using ih

/-- The value of a record is read as the number that it denotes. -/
theorem number?_eq_some_iff {word : String} {n : Nat} :
    hexWord? (dropMarks word.toList) = some n ↔ Denotes word n := by
  rw [hexWord?_eq_some_iff]
  constructor
  · rintro ⟨sign, digits, values, hcs, h⟩
    obtain ⟨marks, hmarks⟩ := exists_dropMarks word.toList
    exact ⟨marks, sign, digits, values, hcs ▸ hmarks, h⟩
  · rintro ⟨marks, sign, digits, values, hcs, hsign, hne, hvalues, hn⟩
    refine ⟨sign, digits, values, ?_, hsign, hne, hvalues, hn⟩
    have hdigits : 'x' ∉ digits := by
      have hne : List.Forall₂ (fun c d => c ≠ 'x' ∧ IsHexDigit c d) digits values :=
        hvalues.imp fun _ _ hd => ⟨(ne_of_isHexDigit hd).2, hd⟩
      exact fun hx => ((List.forall₂_and_left ..).1 hne).1 'x' hx rfl
    have hnot : 'x' ∉ sign ++ digits := by
      rcases hsign with rfl | rfl <;> simpa using hdigits
    rw [hcs, dropMarks_flatten, dropMarks_of_not_mem hnot]

theorem Denotes.unique {word : String} {n n' : Nat} (h : Denotes word n) (h' : Denotes word n') :
    n = n' := by
  rw [← number?_eq_some_iff] at h h'
  exact Option.some.inj (h.symm.trans h')

/-! ## §3 Records -/

/-- Record number `i`, of three words, names an instruction of the program by the symbol `s`. -/
structure Names (p : Program) (words : List String) (i : Nat) (s : Symbol) : Prop where
  segment : words[3 * i]? = some "0"
  value : ∃ value n, words[3 * i + 1]? = some value ∧ Denotes value n ∧ n < p.size ∧
    s.offset = p.offsetOf n
  name : words[3 * i + 2]? = some s.name
  calls : s.calls = 0

/-- The symbols of a symbol file in file order: one for each record that names an instruction. -/
def Describes (p : Program) (words : List String) (symbols : List Symbol) : Prop :=
  ∃ indices : List Nat, indices.Pairwise (· < ·) ∧ (∀ i, i ∈ indices ↔ ∃ s, Names p words i s) ∧
    List.Forall₂ (Names p words) indices symbols

variable {p : Program} {segment value name : String} {words rest : List String} {i : Nat}
  {s s' : Symbol} {symbols symbols' : List Symbol}

theorem Names.unique (h : Names p words i s) (h' : Names p words i s') : s = s' := by
  obtain ⟨value, n, hvalue, hn, -, hoffset⟩ := h.value
  obtain ⟨value', n', hvalue', hn', -, hoffset'⟩ := h'.value
  obtain rfl : value = value' := Option.some.inj (hvalue.symm.trans hvalue')
  obtain rfl := hn.unique hn'
  have hname : s.name = s'.name := Option.some.inj (h.name.symm.trans h'.name)
  have hcalls : s.calls = s'.calls := h.calls.trans h'.calls.symm
  cases s
  cases s'
  simp_all

/-- A symbol file describes one list of symbols only. -/
theorem Describes.unique (h : Describes p words symbols) (h' : Describes p words symbols') :
    symbols = symbols' := by
  obtain ⟨indices, hinc, hmem, hall⟩ := h
  obtain ⟨indices', hinc', hmem', hall'⟩ := h'
  obtain rfl : indices = indices' :=
    hinc.eq_of_mem_iff hinc' fun i => (hmem i).trans (hmem' i).symm
  exact List.right_unique_forall₂' (fun _ _ _ h h' => h.unique h') hall hall'

theorem record?_eq_some_iff (hsize : p.offsets.size = p.size) :
    record? p segment value name = some s ↔ segment = "0" ∧ name = s.name ∧ s.calls = 0 ∧
      ∃ n, Denotes value n ∧ n < p.size ∧ s.offset = p.offsetOf n := by
  have hoffset (n : Nat) (o : UInt32) :
      p.offsets[n]? = some o ↔ n < p.size ∧ o = p.offsetOf n := by
    rw [Program.offsetOf, ← hsize]
    by_cases hn : n < p.offsets.size
    · simp [hn, eq_comm]
    · simp [hn]
  have hrecord : record? p segment value name =
      if segment = "0" then
        (hexWord? (dropMarks value.toList)).bind fun n =>
          p.offsets[n]?.bind fun offset => some ⟨offset, name, 0⟩
      else none := rfl
  rw [hrecord, Option.ite_none_right_eq_some, Option.bind_eq_some_iff]
  simp only [number?_eq_some_iff, Option.bind_eq_some_iff, hoffset, Option.some.injEq]
  refine and_congr_right fun _ => ⟨?_, ?_⟩
  · rintro ⟨n, hn, _, ⟨hlt, rfl⟩, rfl⟩
    exact ⟨rfl, rfl, n, hn, hlt, rfl⟩
  · rintro ⟨hname, hcalls, n, hn, hlt, ho⟩
    refine ⟨n, hn, _, ⟨hlt, ho⟩, ?_⟩
    rw [hname, ← hcalls]

theorem names_zero_iff (hsize : p.offsets.size = p.size) :
    Names p (segment :: value :: name :: rest) 0 s ↔ record? p segment value name = some s := by
  rw [record?_eq_some_iff hsize]
  constructor
  · rintro ⟨hsegment, ⟨_, n, ⟨⟩, hvalue⟩, hname, hcalls⟩
    exact ⟨Option.some.inj hsegment, Option.some.inj hname, hcalls, n, hvalue⟩
  · rintro ⟨rfl, hname, hcalls, n, hvalue⟩
    exact ⟨rfl, ⟨value, n, rfl, hvalue⟩, congrArg some hname, hcalls⟩

/-- The words of a record do not count for the others. -/
theorem names_succ_iff :
    Names p (segment :: value :: name :: rest) (i + 1) s ↔ Names p rest i s := by
  have hshift (k : Nat) : (segment :: value :: name :: rest)[3 * (i + 1) + k]? =
      rest[3 * i + k]? := by
    rw [show 3 * (i + 1) + k = 3 * i + k + 3 by omega]
    rfl
  constructor
  · rintro ⟨hsegment, hvalue, hname, hcalls⟩
    simp only [hshift] at hvalue
    exact ⟨(hshift 0).symm.trans hsegment, hvalue, (hshift 2).symm.trans hname, hcalls⟩
  · rintro ⟨hsegment, hvalue, hname, hcalls⟩
    refine ⟨(hshift 0).trans hsegment, ?_, (hshift 2).trans hname, hcalls⟩
    simp only [hshift]
    exact hvalue

/-- What is not three words long has no record. -/
theorem describes_of_short (h : words.length < 3) : Describes p words [] := by
  refine ⟨[], .nil, fun i => ?_, .nil⟩
  refine iff_of_false List.not_mem_nil ?_
  rintro ⟨s, hs⟩
  have hlt := (List.getElem?_eq_some_iff.1 hs.name).1
  omega

/-- Reading the words one after the other gives what the file describes. -/
theorem describes_records (hsize : p.offsets.size = p.size) :
    ∀ words, Describes p words (records p words)
  | segment :: value :: name :: rest => by
    obtain ⟨indices, hinc, hmem, hall⟩ := describes_records hsize rest
    have hinc' : (indices.map (· + 1)).Pairwise (· < ·) := by
      rw [List.pairwise_map]
      exact hinc.imp Nat.succ_lt_succ
    have hmem' (i : Nat) : i + 1 ∈ indices.map (· + 1) ↔
        ∃ s, Names p (segment :: value :: name :: rest) (i + 1) s := by
      simp only [names_succ_iff, ← hmem]
      simp
    have hall' : List.Forall₂ (Names p (segment :: value :: name :: rest))
        (indices.map (· + 1)) (records p rest) := by
      rw [List.forall₂_map_left_iff]
      exact hall.imp fun _ _ => names_succ_iff.2
    have hfirst (s : Symbol) : Names p (segment :: value :: name :: rest) 0 s ↔
        record? p segment value name = some s := names_zero_iff hsize
    rw [records_cons]
    cases hrecord : record? p segment value name with
    | some s =>
      refine ⟨0 :: indices.map (· + 1), List.pairwise_cons.2 ⟨by simp, hinc'⟩, ?_,
        .cons ((hfirst s).2 hrecord) hall'⟩
      rintro (_ | i)
      · exact iff_of_true List.mem_cons_self ⟨s, (hfirst s).2 hrecord⟩
      · rw [← hmem']
        simp
    | none =>
      refine ⟨indices.map (· + 1), hinc', ?_, hall'⟩
      rintro (_ | i)
      · refine iff_of_false (by simp) ?_
        rintro ⟨s, hs⟩
        cases hrecord.symm.trans ((hfirst s).1 hs)
      · exact hmem' i
  | [] | [_] | [_, _] => describes_of_short (by simp)

theorem describes_iff (hsize : p.offsets.size = p.size) :
    Describes p words symbols ↔ symbols = records p words :=
  ⟨fun h => h.unique (describes_records hsize words), fun h => h ▸ describes_records hsize words⟩

/-! ## §4 Tables -/

open SandboxVm.Symbol (NearestIn)

theorem stablySorted_parse (text : String) (p : Program) :
    StablySorted Symbol.offset (· ≤ ·) (records p (Text.words text)) (parse text p).symbols :=
  stablySorted_mergeSort (r := fun a b : UInt32 => a ≤ b) UInt32.le_trans UInt32.le_total _

theorem ordered_parse (text : String) (p : Program) : (parse text p).Ordered :=
  (stablySorted_parse text p).ordered

/-- A record takes its name from the file, and nothing has been counted. -/
theorem of_mem_records {s : Symbol} :
    ∀ {words : List String}, s ∈ records p words → s.name ∈ words ∧ s.calls = 0
  | segment :: value :: name :: rest, hs => by
    rw [records_cons, List.mem_append, Option.mem_toList] at hs
    rcases hs with hs | hs
    · rw [record?, Option.ite_none_right_eq_some] at hs
      obtain ⟨n, -, hs⟩ := Option.bind_eq_some_iff.1 hs.2
      obtain ⟨offset, -, ⟨⟩⟩ := Option.bind_eq_some_iff.1 hs
      simp
    · obtain ⟨hname, hcalls⟩ := of_mem_records hs
      simp [hname, hcalls]

theorem of_mem_symbols_parse {text : String} {s : Symbol} (hs : s ∈ (parse text p).symbols) :
    s.name ∈ Text.words text ∧ s.calls = 0 :=
  of_mem_records ((stablySorted_parse text p).perm.mem_iff.1 hs)

/-- A symbol file and its table. The text is cut into words at its blanks, and the words describe
the symbols of the file, record by record. The table holds these symbols, sorted by offset, with
symbols of one offset in file order. Looking up an offset finds nothing exactly if all symbols of
the file are behind the offset. Otherwise it shows the symbol with the greatest offset that is not
behind, the last one in the file if there are several: its name, followed by the distance if the
offset is not exactly that of the symbol. -/
theorem symbol_file {bytes : Bytes} {count : Nat} {p : Program}
    (hp : Program.decode bytes count = .ok p) (text : String) :
    ∃ (words : List String) (file : List Symbol),
      (∀ ws, Text.CutInto text.toList ws ↔ ws = words) ∧
      (∀ symbols, Describes p words symbols ↔ symbols = file) ∧
      StablySorted Symbol.offset (· ≤ ·) file (parse text p).symbols ∧
      ∀ offset,
        ((parse text p).lookup? offset = none ↔ ∀ s ∈ file, offset < s.offset) ∧
        ∀ shown, (parse text p).lookup? offset = some shown ↔
          ∃ s, NearestIn file offset s ∧ s.shownAt offset = shown := by
  obtain ⟨hcode, hoffsets, -⟩ := Program.getElem?_offsets_of_decode hp
  have hsorted := stablySorted_parse text p
  have hordered := ordered_parse text p
  refine ⟨Text.words text, records p (Text.words text), fun _ => Text.cutInto_iff,
    fun _ => describes_iff (hoffsets.trans hcode.symm), hsorted, fun offset => ⟨?_, fun shown => ?_⟩⟩
  · simp only [hordered.lookup?_eq_none_iff, hsorted.perm.mem_iff]
  · simp only [hordered.lookup?_eq_some_iff, hsorted.nearestIn_iff]

/-- A symbol file out of order: a record of data, marks and a sign, a number without an instruction,
two names for the third instruction, and a word too many. -/
def shuffled : String := "1 0 data\n0 0x0x+2 tail 0 9 far\n0 2 end\n0 0 main\n0"

/-- The later one of two names is shown, and the second instruction is five bytes into `main`. -/
theorem symbol_file_shuffled :
    ∃ (p : Program) (words : List String) (file : List Symbol),
      Program.decode [11, 2, 0, 0, 0, 33, 44, 6] 3 = .ok p ∧
      Text.CutInto shuffled.toList words ∧ Describes p words file ∧
      (∃ s, NearestIn file 7 s ∧ s.shownAt 7 = "end") ∧
      (∃ s, NearestIn file 5 s ∧ s.shownAt 5 = "main+5") := by
  have hdecode : Program.decode [11, 2, 0, 0, 0, 33, 44, 6] 3 =
      .ok ⟨#[⟨.branch .eq, 2⟩, ⟨.arg, 44⟩, ⟨.push, 0⟩], #[0, 5, 7], 8⟩ := by decide +kernel
  obtain ⟨words, file, hwords, hfile, -, hlookup⟩ := symbol_file hdecode shuffled
  refine ⟨_, words, file, hdecode, (hwords words).2 rfl, (hfile file).2 rfl,
    ((hlookup 7).2 "end").1 ?_, ((hlookup 5).2 "main+5").1 ?_⟩
  · cbv
  · cbv

end SymbolTable

end SandboxVm
