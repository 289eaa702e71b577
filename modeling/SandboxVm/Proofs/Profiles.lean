/-
SandboxVm.Proofs.Profiles — every counted call is reported once.

A profile is made of two things that can happen in any order: a call is counted under the symbol
that it belongs to, and a report lists the counters and starts them anew. Neither moves a symbol,
so an offset belongs to one and the same symbol throughout. What has been reported and what is
still held by the counters are together the calls that belong to a symbol.

  §1  `uses`: a table in use, and the lines that it reports on the way;
  §2  `totalCalls_use`: no use loses a call, and none counts one twice;
  §3  `profile_counts`: what each use does, at any time, and the balance of all.
-/
import SandboxVm.Proofs.SymbolFiles

namespace SandboxVm.SymbolTable

/-! ## §1 Uses -/

/-- What is done with a symbol table while a module is profiled. -/
inductive Use where
  /-- A call of the function that contains an offset is counted. -/
  | record (offset : UInt32)
  | report

/-- The lines that are reported, and the table afterwards. -/
def use (t : SymbolTable) : Use → List ProfileRow × SymbolTable
  | .record offset => ([], t.recordCall offset)
  | .report => t.report

/-- The lines of all reports in the course of several uses, and the table at the end. -/
def uses : List Use → SymbolTable → List ProfileRow × SymbolTable
  | [], t => ([], t)
  | u :: us, t => ((t.use u).1 ++ (uses us (t.use u).2).1, (uses us (t.use u).2).2)

/-- A call is to be counted that belongs to a symbol. -/
def Use.hits (t : SymbolTable) : Use → Bool
  | .record offset => (t.lookup? offset).isSome
  | .report => false

variable {t : SymbolTable} {offset : UInt32}

theorem Use.hits_congr {t t' : SymbolTable} (h : t.places = t'.places) :
    Use.hits t = Use.hits t' := by
  funext u
  cases u with
  | record offset => rw [hits, hits, lookup?_congr h]
  | report => rfl

theorem places_use (t : SymbolTable) (u : Use) : (t.use u).2.places = t.places := by
  cases u with
  | record offset => exact t.places_recordCall offset
  | report => simp [use, report, resetCounts, places]

theorem places_uses (us : List Use) (t : SymbolTable) : (uses us t).2.places = t.places := by
  induction us generalizing t with
  | nil => rfl
  | cons u us ih => exact (ih _).trans (t.places_use u)

/-- Order is a matter of places. -/
theorem Ordered.of_places {t t' : SymbolTable} (ht : t.Ordered) (h : t'.places = t.places) :
    t'.Ordered := by
  have hplaces (t : SymbolTable) : t.Ordered ↔ t.places.Pairwise fun a b => a.1 ≤ b.1 := by
    rw [places, List.pairwise_map, Ordered]
  rw [hplaces, h]
  exact (hplaces t).1 ht

/-! ## §2 Balance -/

theorem isSome_lookup? (t : SymbolTable) (offset : UInt32) :
    (t.lookup? offset).isSome = t.covers offset := by
  rw [covers_eq_isSome_indexAt?, lookup?, find?, Option.isSome_map]
  rcases t.indexAt?_cases offset with ⟨hnone, -⟩ | ⟨before, s, after, heq, -, -, -, hindex⟩
  · rw [hnone]
    rfl
  · rw [hindex, heq]
    simp

/-- Symbols that were not called do not matter for the sum. -/
theorem sum_calls_filter (symbols : List Symbol) :
    ((symbols.filter fun s => 0 < s.calls).map (·.calls)).sum = (symbols.map (·.calls)).sum := by
  induction symbols with
  | nil => rfl
  | cons s symbols ih =>
    by_cases hpos : 0 < s.calls
    · simp [hpos, ih]
    · simp [ih, Nat.eq_zero_of_not_pos hpos]

theorem totalCalls_eq_zero_iff (t : SymbolTable) :
    t.totalCalls = 0 ↔ ∀ s ∈ t.symbols, s.calls = 0 := by
  rw [totalCalls_eq_sum, List.sum_eq_zero_iff_forall_eq_nat, List.forall_mem_map]

/-- The symbols that were called are listed by their counters. -/
theorem exists_report (t : SymbolTable) :
    ∃ called, StablySorted Symbol.calls (· ≥ ·) (t.symbols.filter fun s => 0 < s.calls) called ∧
      t.report.1 = called.map (row t.totalCalls) :=
  ⟨_, stablySorted_mergeSort (r := fun a b : Nat => a ≥ b) (fun hab hbc => Nat.le_trans hbc hab)
    (fun a b => Nat.le_total b a) _, rfl⟩

/-- A use moves calls from counters to lines, and adds the one that it counts. -/
theorem totalCalls_use (t : SymbolTable) (u : Use) :
    ((t.use u).1.map (·.calls)).sum + (t.use u).2.totalCalls =
      t.totalCalls + if u.hits t then 1 else 0 := by
  cases u with
  | record offset =>
    rw [use, Use.hits, isSome_lookup?, totalCalls_recordCall]
    exact Nat.zero_add _
  | report =>
    obtain ⟨called, hcalled, hrows⟩ := t.exists_report
    have hreset : t.resetCounts.totalCalls = 0 := by
      rw [totalCalls_eq_zero_iff, resetCounts, List.forall_mem_map]
      exact fun s _ => rfl
    have hlines : (t.report.1.map (·.calls)).sum = t.totalCalls := by
      rw [hrows, List.map_map, totalCalls_eq_sum, ← sum_calls_filter]
      exact (hcalled.perm.map _).sum_eq
    simp only [use, Use.hits, hlines]
    simpa [report] using hreset

theorem totalCalls_uses (us : List Use) (t : SymbolTable) :
    ((uses us t).1.map (·.calls)).sum + (uses us t).2.totalCalls =
      t.totalCalls + us.countP (Use.hits t) := by
  induction us generalizing t with
  | nil => simp [uses]
  | cons u us ih =>
    have hone := t.totalCalls_use u
    have hrest := ih (t.use u).2
    rw [Use.hits_congr (t.places_use u)] at hrest
    simp only [uses, List.map_append, List.sum_append, List.countP_cons]
    omega

/-! ## §3 Profiles -/

/-- Counting a call adds one to a single counter, that of the symbol that the offset belongs to and
that a look-up shows. If a look-up shows nothing, nothing is counted. -/
structure Counts (t : SymbolTable) (offset : UInt32) : Prop where
  none : t.lookup? offset = none → t.recordCall offset = t
  some : ∀ shown, t.lookup? offset = some shown → ∃ before s after,
    t.symbols = before ++ s :: after ∧ s.Nearest offset before after ∧ s.shownAt offset = shown ∧
    (t.recordCall offset).symbols = before ++ { s with calls := s.calls + 1 } :: after

/-- A report lists the symbols with a counter above zero, each of them once, by falling counters and
otherwise in the order of the table. It sets all counters to zero and changes nothing else. -/
structure Reports (t : SymbolTable) : Prop where
  rows : ∃ called,
    StablySorted Symbol.calls (· ≥ ·) (t.symbols.filter fun s => 0 < s.calls) called ∧
    t.report.1 = called.map (row t.totalCalls)
  reset : ∀ s ∈ t.report.2.symbols, s.calls = 0
  places : t.report.2.places = t.places

theorem Ordered.counts (ht : t.Ordered) (offset : UInt32) : t.Counts offset := by
  rcases ht.indexAt?_cases offset with ⟨hnone, hbehind⟩ | ⟨before, s, after, heq, hs, hindex⟩
  · refine ⟨fun _ => recordCall_of_not_found hnone, fun shown hshown => ?_⟩
    rw [ht.lookup?_eq_none_iff.2 hbehind] at hshown
    cases hshown
  · have hshown : t.lookup? offset = some (s.shownAt offset) :=
      ht.lookup?_eq_some_iff.2 ⟨s, ⟨before, after, heq, hs⟩, rfl⟩
    refine ⟨fun hnone => ?_, fun shown h => ?_⟩
    · cases hshown.symm.trans hnone
    · exact ⟨before, s, after, heq, hs, Option.some.inj (hshown.symm.trans h),
        symbols_recordCall heq hindex⟩

theorem reports (t : SymbolTable) : t.Reports where
  rows := t.exists_report
  reset := by simp [report, resetCounts]
  places := t.places_use .report

theorem totalCalls_parse (text : String) (p : Program) : (parse text p).totalCalls = 0 := by
  rw [totalCalls_eq_zero_iff]
  exact fun s hs => (of_mem_symbols_parse hs).2

/-- A table that is read from a symbol file, after any uses. Counting a call adds one to the symbol
that a look-up shows. A report lists what was called and sets the counters to zero. The symbols are
where they were at first, and a look-up shows what it showed at first. The calls in all reports, and
those that the counters hold, are as many as were to be counted at an offset where a look-up shows a
symbol. No counter is therefore greater than the number of uses. -/
theorem profile_counts (text : String) (p : Program) (us : List Use) :
    let start := parse text p
    let t := (uses us start).2
    (∀ offset, t.Counts offset) ∧ t.Reports ∧
      t.places = start.places ∧ t.lookup? = start.lookup? ∧
      ((uses us start).1.map (·.calls)).sum + (t.symbols.map (·.calls)).sum =
        us.countP (Use.hits start) := by
  intro start t
  have hplaces : t.places = start.places := places_uses us start
  have hordered : t.Ordered := (ordered_parse text p).of_places hplaces
  have hbalance := totalCalls_uses us start
  rw [totalCalls_parse, Nat.zero_add, totalCalls_eq_sum] at hbalance
  exact ⟨hordered.counts, t.reports, hplaces, lookup?_congr hplaces, hbalance⟩

/-- Of two names for one instruction the later one has all calls. -/
example : (uses [.record 0, .record 3] ⟨[⟨0, "first", 0⟩, ⟨0, "second", 0⟩]⟩).2 =
    ⟨[⟨0, "first", 0⟩, ⟨0, "second", 2⟩]⟩ := by
  decide

end SandboxVm.SymbolTable
