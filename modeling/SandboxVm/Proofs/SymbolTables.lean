/-
SandboxVm.Proofs.SymbolTables — which symbol an offset belongs to, and what its counter says.

A symbol table is a list in the order of offsets, and an offset belongs to the last symbol that is
not behind it. Several symbols may have one offset, so it matters that sorting a symbol file keeps
the order of its records: what a search in the sorted table finds can then be said of the file.

  §1  `StablySorted`: a sorted list that keeps the order of elements with one key;
  §2  `Nearest`: the symbol that an offset belongs to, in a list in any order;
  §3  `indexAt?_cases`: a search in an ordered table finds it if there is one;
  §4  counters: `symbols_recordCall` for a single call, `totalCalls_foldl` for many.
-/
import Mathlib.Data.List.Basic
import Mathlib.Algebra.BigOperators.Group.List.Basic
import Mathlib.Algebra.GroupWithZero.Nat
import SandboxVm.Symbols

namespace SandboxVm

/-! ## §1 Stable sorting -/

/-- The list `ys` holds the elements of `xs` in the order of a key. Elements with the same key stand
in the order in which they stand in `xs`. -/
structure StablySorted {α κ : Type} [DecidableEq κ] (key : α → κ) (r : κ → κ → Prop)
    (xs ys : List α) : Prop where
  perm : ys.Perm xs
  ordered : ys.Pairwise fun a b => r (key a) (key b)
  stable : ∀ k, ys.filter (key · = k) = xs.filter (key · = k)

theorem stablySorted_mergeSort {α κ : Type} [DecidableEq κ] {key : α → κ} {r : κ → κ → Prop}
    [DecidableRel r] (htrans : ∀ {a b c}, r a b → r b c → r a c) (htotal : ∀ a b, r a b ∨ r b a)
    (xs : List α) : StablySorted key r xs (xs.mergeSort fun a b => r (key a) (key b)) := by
  have htrans' (a b c : α) : decide (r (key a) (key b)) → decide (r (key b) (key c)) →
      decide (r (key a) (key c)) := by
    simpa using htrans
  have htotal' (a b : α) : (decide (r (key a) (key b)) || decide (r (key b) (key a))) = true := by
    simpa using htotal (key a) (key b)
  have hperm := List.mergeSort_perm xs fun a b => r (key a) (key b)
  refine ⟨hperm, by simpa using List.pairwise_mergeSort htrans' htotal' xs, ?_⟩
  intro k
  -- elements of one key are in order already, so they stay a sublist, and none is lost
  have hequal : (xs.filter (key · = k)).Pairwise fun a b => decide (r (key a) (key b)) := by
    rw [List.pairwise_filter]
    refine List.pairwise_of_forall ?_
    intro a b ha hb
    have hrefl : r k k := (htotal k k).elim id id
    simpa [of_decide_eq_true ha, of_decide_eq_true hb] using hrefl
  have hsublist := (List.sublist_mergeSort htrans' htotal' hequal List.filter_sublist).filter
    (key · = k)
  simp only [List.filter_filter, Bool.and_self] at hsublist
  exact (hsublist.eq_of_length (hperm.filter _).length_eq.symm).symm

/-! ## §2 Nearest symbols -/

namespace Symbol

/-- The symbol `s`, between others, is the one that an offset belongs to: of the symbols that are
not behind the offset it is one of those with the greatest offset, and the last of these. -/
structure Nearest (offset : UInt32) (before : List Symbol) (s : Symbol) (after : List Symbol) :
    Prop where
  le : s.offset ≤ offset
  before : ∀ r ∈ before, r.offset ≤ offset → r.offset ≤ s.offset
  after : ∀ r ∈ after, r.offset ≤ offset → r.offset < s.offset

/-- The offset belongs to the symbol, in a list of symbols. -/
def NearestIn (symbols : List Symbol) (offset : UInt32) (s : Symbol) : Prop :=
  ∃ before after, symbols = before ++ s :: after ∧ Nearest offset before s after

/-- How an offset that belongs to the symbol is shown: the name, and the distance if there is
one. -/
def shownAt (s : Symbol) (offset : UInt32) : String :=
  if s.offset = offset then s.name
  else s.name ++ "+" ++ toString (offset.toNat - s.offset.toNat)

variable {symbols symbols' : List Symbol} {offset : UInt32} {s s' : Symbol}

/-- In terms that do not depend on where the other symbols stand. -/
theorem nearestIn_iff : NearestIn symbols offset s ↔
    s.offset ≤ offset ∧ (∀ r ∈ symbols, r.offset ≤ offset → r.offset ≤ s.offset) ∧
      (symbols.filter (·.offset = s.offset)).getLast? = some s := by
  have hlast : (symbols.filter (·.offset = s.offset)).getLast? = some s ↔
      ∃ before after, symbols = before ++ s :: after ∧ ∀ r ∈ after, r.offset ≠ s.offset := by
    rw [List.getLast?_eq_head?_reverse, ← List.filter_reverse, List.head?_filter,
      List.find?_eq_some_iff_append]
    constructor
    · rintro ⟨-, after, before, heq, hafter⟩
      refine ⟨before.reverse, after.reverse, ?_, ?_⟩
      · simpa using congrArg List.reverse heq
      · intro r hr
        simpa using hafter r (List.mem_reverse.1 hr)
    · rintro ⟨before, after, rfl, hafter⟩
      refine ⟨decide_eq_true rfl, after.reverse, before.reverse, by simp, ?_⟩
      intro r hr
      simpa using hafter r (List.mem_reverse.1 hr)
  rw [hlast]
  constructor
  · rintro ⟨before, after, rfl, hle, hbefore, hafter⟩
    refine ⟨hle, ?_, before, after, rfl, ?_⟩
    · intro r hr hrle
      rcases List.mem_append.1 hr with hr | hr
      · exact hbefore r hr hrle
      · rcases List.mem_cons.1 hr with rfl | hr
        · exact UInt32.le_refl _
        · exact UInt32.le_of_lt (hafter r hr hrle)
    · intro r hr heq
      exact UInt32.lt_irrefl _ (heq ▸ hafter r hr (heq ▸ hle))
  · rintro ⟨hle, hmax, before, after, rfl, hafter⟩
    refine ⟨before, after, rfl, hle, ?_, ?_⟩
    · exact fun r hr => hmax r (by simp [hr])
    · exact fun r hr hrle =>
        UInt32.lt_of_le_of_ne (hmax r (by simp [hr]) hrle) (hafter r hr)

/-- An offset belongs to one symbol only. -/
theorem NearestIn.unique (h : NearestIn symbols offset s) (h' : NearestIn symbols offset s') :
    s = s' := by
  obtain ⟨hle, hmax, hlast⟩ := nearestIn_iff.1 h
  obtain ⟨hle', hmax', hlast'⟩ := nearestIn_iff.1 h'
  have hmem : s ∈ symbols := List.mem_of_mem_filter (List.mem_of_getLast? hlast)
  have hmem' : s' ∈ symbols := List.mem_of_mem_filter (List.mem_of_getLast? hlast')
  have heq : s.offset = s'.offset :=
    UInt32.le_antisymm (hmax' s hmem hle) (hmax s' hmem' hle')
  rw [heq] at hlast
  exact Option.some.inj (hlast.symm.trans hlast')

end Symbol

/-- Sorting by offset does not change which symbol an offset belongs to. -/
theorem StablySorted.nearestIn_iff {r : UInt32 → UInt32 → Prop} {xs ys : List Symbol}
    (h : StablySorted Symbol.offset r xs ys) {offset : UInt32} {s : Symbol} :
    Symbol.NearestIn ys offset s ↔ Symbol.NearestIn xs offset s := by
  simp only [Symbol.nearestIn_iff, h.stable, h.perm.mem_iff]

/-! ## §3 Searching a table -/

namespace SymbolTable

open SandboxVm.Symbol (Nearest NearestIn shownAt)

variable {t : SymbolTable} {offset : UInt32} {s : Symbol} {shown : String}

theorem indexAt?_cons (s : Symbol) (symbols : List Symbol) (offset : UInt32) :
    indexAt? ⟨s :: symbols⟩ offset =
      if offset < s.offset then none
      else some ((indexAt? ⟨symbols⟩ offset).elim 0 (· + 1)) := by
  by_cases hlt : offset < s.offset
  · simp [indexAt?, List.findIdx_cons, hlt]
  · simp only [indexAt?, List.findIdx_cons, hlt, decide_false, cond_false, if_false]
    cases symbols.findIdx fun s => offset < s.offset <;> rfl

/-- A search stops in front of the first symbol that is behind the offset. -/
theorem indexAt?_cases (t : SymbolTable) (offset : UInt32) :
    (t.indexAt? offset = none ∧ ∀ s ∈ t.symbols.head?, offset < s.offset) ∨
      ∃ before s after, t.symbols = before ++ s :: after ∧ (∀ r ∈ before, r.offset ≤ offset) ∧
        s.offset ≤ offset ∧ (∀ r ∈ after.head?, offset < r.offset) ∧
        t.indexAt? offset = some before.length := by
  obtain ⟨symbols⟩ := t
  induction symbols with
  | nil => exact .inl ⟨rfl, nofun⟩
  | cons s symbols ih =>
    rw [indexAt?_cons]
    by_cases hlt : offset < s.offset
    · rw [if_pos hlt]
      refine .inl ⟨rfl, ?_⟩
      rintro _ ⟨⟩
      exact hlt
    · rw [if_neg hlt]
      have hle : s.offset ≤ offset := UInt32.not_lt.1 hlt
      right
      rcases ih with ⟨hnone, hbehind⟩ | ⟨before, s', after, rfl, hbefore, hs', hafter, hsome⟩
      · exact ⟨[], s, symbols, rfl, by simp, hle, hbehind, by rw [hnone]; rfl⟩
      · exact ⟨s :: before, s', after, rfl, List.forall_mem_cons.2 ⟨hle, hbefore⟩, hs', hafter,
          by rw [hsome]; rfl⟩

/-- The symbols stand in the order of their offsets. -/
def Ordered (t : SymbolTable) : Prop := t.symbols.Pairwise fun a b => a.offset ≤ b.offset

/-- What is not in front of a symbol is behind an offset if the symbol is. -/
theorem forall_lt_of_head? {symbols : List Symbol}
    (h : symbols.Pairwise fun a b => a.offset ≤ b.offset)
    (hhead : ∀ s ∈ symbols.head?, offset < s.offset) : ∀ s ∈ symbols, offset < s.offset := by
  cases symbols with
  | nil => simp
  | cons s symbols =>
    have hlt : offset < s.offset := hhead s rfl
    exact List.forall_mem_cons.2 ⟨hlt, fun r hr =>
      UInt32.lt_of_lt_of_le hlt ((List.pairwise_cons.1 h).1 r hr)⟩

/-- In an ordered table the symbol that an offset belongs to is found, unless all symbols are
behind the offset. -/
theorem Ordered.indexAt?_cases (ht : t.Ordered) (offset : UInt32) :
    (t.indexAt? offset = none ∧ ∀ s ∈ t.symbols, offset < s.offset) ∨
      ∃ before s after, t.symbols = before ++ s :: after ∧ Nearest offset before s after ∧
        t.indexAt? offset = some before.length := by
  rcases t.indexAt?_cases offset with
    ⟨hnone, hhead⟩ | ⟨before, s, after, heq, hbefore, hs, hafter, hsome⟩
  · exact .inl ⟨hnone, forall_lt_of_head? ht hhead⟩
  · have hordered : (before ++ s :: after).Pairwise fun a b => a.offset ≤ b.offset := heq ▸ ht
    obtain ⟨-, hrest, hcross⟩ := List.pairwise_append.1 hordered
    have hbehind := forall_lt_of_head? (List.pairwise_cons.1 hrest).2 hafter
    refine .inr ⟨before, s, after, heq, ⟨hs, ?_, ?_⟩, hsome⟩
    · exact fun r hr _ => hcross r hr s List.mem_cons_self
    · exact fun r hr hle => absurd (hbehind r hr) (UInt32.not_lt.2 hle)

theorem Ordered.find?_eq_some_iff (ht : t.Ordered) :
    t.find? offset = some s ↔ NearestIn t.symbols offset s := by
  rcases ht.indexAt?_cases offset with ⟨hnone, hbehind⟩ | ⟨before, s', after, heq, hs', hsome⟩
  · rw [find?, hnone]
    refine iff_of_false nofun ?_
    rintro ⟨before, after, heq, hs⟩
    exact UInt32.not_lt.2 hs.le (hbehind s (by simp [heq]))
  · have hfound : t.find? offset = some s' := by
      rw [find?, hsome]
      simp [heq]
    have hnearest : NearestIn t.symbols offset s' := ⟨before, after, heq, hs'⟩
    rw [hfound, Option.some.injEq]
    exact ⟨fun h => h ▸ hnearest, hnearest.unique⟩

theorem Ordered.find?_eq_none_iff (ht : t.Ordered) :
    t.find? offset = none ↔ ∀ s ∈ t.symbols, offset < s.offset := by
  rcases ht.indexAt?_cases offset with ⟨hnone, hbehind⟩ | ⟨before, s, after, heq, hs, hsome⟩
  · exact iff_of_true (by rw [find?, hnone]; rfl) hbehind
  · refine iff_of_false ?_ fun hbehind => UInt32.not_lt.2 hs.le (hbehind s (by simp [heq]))
    rw [find?, hsome]
    simp [heq]

theorem lookup?_eq (t : SymbolTable) {offset : UInt32}
    (hle : ∀ s, t.find? offset = some s → s.offset ≤ offset) :
    t.lookup? offset = (t.find? offset).map fun s => s.shownAt offset := by
  unfold lookup?
  cases hs : t.find? offset with
  | none => rfl
  | some s =>
    rw [Option.map_some, Option.map_some, shownAt, UInt32.toNat_sub_of_le _ _ (hle s hs)]
    rfl

/-- What a look-up shows is the symbol that the offset belongs to. -/
theorem Ordered.lookup?_eq_some_iff (ht : t.Ordered) :
    t.lookup? offset = some shown ↔
      ∃ s, NearestIn t.symbols offset s ∧ s.shownAt offset = shown := by
  have hle (s : Symbol) (hs : t.find? offset = some s) : s.offset ≤ offset := by
    obtain ⟨_, _, _, hs⟩ := ht.find?_eq_some_iff.1 hs
    exact hs.le
  rw [t.lookup?_eq hle, Option.map_eq_some_iff]
  simp only [ht.find?_eq_some_iff]

theorem Ordered.lookup?_eq_none_iff (ht : t.Ordered) :
    t.lookup? offset = none ↔ ∀ s ∈ t.symbols, offset < s.offset := by
  rw [lookup?, Option.map_eq_none_iff, ht.find?_eq_none_iff]

/-! ## §4 Counters -/

/-- The offset is not before the first symbol. -/
def covers (t : SymbolTable) (offset : UInt32) : Bool :=
  t.symbols.head?.any fun s => s.offset ≤ offset

/-- What a table says of its symbols besides their counters. -/
def places (t : SymbolTable) : List (UInt32 × String) := t.symbols.map fun s => (s.offset, s.name)

theorem indexAt?_eq (t : SymbolTable) (offset : UInt32) :
    t.indexAt? offset =
      match t.places.findIdx fun s => offset < s.1 with
      | 0 => none
      | n + 1 => some n := by
  rw [places, List.findIdx_map]
  rfl

/-- Searching does not look at counters. -/
theorem indexAt?_congr {t t' : SymbolTable} (h : t.places = t'.places) :
    t.indexAt? = t'.indexAt? := by
  funext offset
  rw [indexAt?_eq, indexAt?_eq, h]

theorem lookup?_congr {t t' : SymbolTable} (h : t.places = t'.places) :
    t.lookup? = t'.lookup? := by
  funext offset
  have hplace (t : SymbolTable) : t.lookup? offset =
      ((t.indexAt? offset).bind fun i => t.places[i]?).map fun s =>
        if s.1 = offset then s.2 else s.2 ++ "+" ++ Text.nat (offset - s.1).toNat := by
    rw [lookup?, find?]
    cases t.indexAt? offset with
    | none => rfl
    | some i =>
      simp only [Option.bind_some, places, List.getElem?_map, Option.map_map]
      rfl
  rw [hplace, hplace, indexAt?_congr h, h]

theorem covers_eq_isSome_indexAt? (t : SymbolTable) (offset : UInt32) :
    t.covers offset = (t.indexAt? offset).isSome := by
  obtain ⟨symbols⟩ := t
  cases symbols with
  | nil => rfl
  | cons s symbols =>
    rw [indexAt?_cons]
    by_cases hlt : offset < s.offset
    · simp [covers, hlt, UInt32.not_le.2 hlt]
    · simp [covers, hlt, UInt32.not_lt.1 hlt]

theorem recordCall_of_not_found (h : t.indexAt? offset = none) : t.recordCall offset = t := by
  simp only [recordCall, h]

/-- A call is counted under the symbol that is found. -/
theorem symbols_recordCall {before after : List Symbol} (heq : t.symbols = before ++ s :: after)
    (hindex : t.indexAt? offset = some before.length) :
    (t.recordCall offset).symbols = before ++ { s with calls := s.calls + 1 } :: after := by
  simp only [recordCall, hindex, heq]
  clear heq hindex
  induction before with
  | nil => rfl
  | cons r before ih => simp [List.modify_succ_cons, ih]

/-- Counting calls moves and renames no symbol. -/
theorem places_recordCall (t : SymbolTable) (offset : UInt32) :
    (t.recordCall offset).places = t.places := by
  rcases t.indexAt?_cases offset with ⟨hnone, -⟩ | ⟨before, s, after, heq, -, -, -, hindex⟩
  · rw [recordCall_of_not_found hnone]
  · rw [places, places, symbols_recordCall heq hindex, heq]
    simp

theorem covers_recordCall (t : SymbolTable) (offset : UInt32) :
    (t.recordCall offset).covers = t.covers := by
  funext x
  rw [covers_eq_isSome_indexAt?, covers_eq_isSome_indexAt?,
    indexAt?_congr (t.places_recordCall offset)]

theorem totalCalls_eq_sum (t : SymbolTable) :
    t.totalCalls = (t.symbols.map (·.calls)).sum := by
  rw [totalCalls, List.sum_eq_foldl, List.foldl_map]

/-- A call is counted if its offset is covered. -/
theorem totalCalls_recordCall (t : SymbolTable) (offset : UInt32) :
    (t.recordCall offset).totalCalls = t.totalCalls + if t.covers offset then 1 else 0 := by
  rw [covers_eq_isSome_indexAt?]
  rcases t.indexAt?_cases offset with ⟨hnone, -⟩ | ⟨before, s, after, heq, -, -, -, hindex⟩
  · rw [recordCall_of_not_found hnone, hnone]
    rfl
  · rw [totalCalls_eq_sum, totalCalls_eq_sum, symbols_recordCall heq hindex, heq, hindex]
    simp
    omega

theorem totalCalls_foldl (entries : List UInt32) (t : SymbolTable) :
    (entries.foldl recordCall t).totalCalls = t.totalCalls + entries.countP t.covers := by
  induction entries generalizing t with
  | nil => rfl
  | cons offset entries ih =>
    rw [List.foldl_cons, ih, covers_recordCall, totalCalls_recordCall, List.countP_cons]
    omega

end SymbolTable

end SandboxVm
