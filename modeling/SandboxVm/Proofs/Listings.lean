/-
SandboxVm.Proofs.Listings — the names in a listing, and those that a look-up shows.

A listing has a line for each instruction, and a function's name on a line of its own above the
first instruction of the function. A symbol file may give one instruction several names. The
listing then shows the first of them. A look-up at the same offset shows the last, as do faults
and profiles, which look symbols up.

  §1  `HasLines`: a text as its lines;
  §2  `newline_notMem_row`: the line of an instruction is a single line;
  §3  `namesAt`: all names of a place, and which of them is shown;
  §4  `label_first_lookup_last`: where the names stand, and which they are.
-/
import SandboxVm.Listing
import SandboxVm.Proofs.SymbolFiles

namespace SandboxVm

/-! ## §1 Lines -/

namespace Text

/-- The text consists of the lines, each of which is ended by a newline. -/
def HasLines (s : String) (lines : List String) : Prop :=
  s = String.join (lines.map (· ++ "\n")) ∧ ∀ line ∈ lines, '\n' ∉ line.toList

/-- What stands in front of the first newline. -/
theorem takeWhile_line {line : List Char} (h : '\n' ∉ line) (rest : List Char) :
    (line ++ '\n' :: rest).takeWhile (· ≠ '\n') = line := by
  rw [List.takeWhile_append_of_pos, List.takeWhile_cons_of_neg (by simp), List.append_nil]
  intro c hc
  simpa using ne_of_mem_of_not_mem hc h

/-- A text can be cut into lines in one way only. -/
theorem HasLines.unique {s : String} {lines lines' : List String} (h : HasLines s lines)
    (h' : HasLines s lines') : lines = lines' := by
  obtain ⟨rfl, hlines⟩ := h
  obtain ⟨heq, hlines'⟩ := h'
  have hchars := congrArg String.toList heq
  clear heq
  induction lines generalizing lines' with
  | nil =>
    cases lines' with
    | nil => rfl
    | cons => simp at hchars
  | cons line lines ih =>
    cases lines' with
    | nil => simp at hchars
    | cons line' lines' =>
      simp only [List.map_cons, String.join_cons, String.toList_append] at hchars
      have hend : "\n".toList = ['\n'] := rfl
      simp only [hend, List.append_assoc, List.singleton_append] at hchars
      have hline : line.toList = line'.toList := by
        have htake := congrArg (List.takeWhile (· ≠ '\n')) hchars
        rwa [takeWhile_line (hlines line List.mem_cons_self),
          takeWhile_line (hlines' line' List.mem_cons_self)] at htake
      rw [hline, List.append_cancel_left_eq, List.cons.injEq] at hchars
      rw [String.toList_inj.1 hline, ih (fun _ hmem => hlines _ (List.mem_cons_of_mem _ hmem))
        (fun _ hmem => hlines' _ (List.mem_cons_of_mem _ hmem)) hchars.2]

theorem HasLines.iff_eq {s : String} {lines lines' : List String} (h : HasLines s lines) :
    HasLines s lines' ↔ lines' = lines :=
  ⟨fun h' => h'.unique h, fun heq => heq ▸ h⟩

/-! ## §2 Lines of instructions -/

theorem newline_notMem_toDigits {b : Nat} (hb : 1 < b) (n : Nat) : '\n' ∉ Nat.toDigits b n := by
  have hdigit (d : Nat) : '\n' ≠ d.digitChar := (Nat.digitChar_ne '\n' (by decide)).symm
  induction n using Nat.strongRecOn with
  | ind n ih =>
    rw [Nat.toDigits_eq_if hb]
    split
    case isTrue =>
      rw [List.mem_singleton]
      exact hdigit n
    case isFalse hge =>
      have hlt : n / b < n := Nat.div_lt_self (by omega) hb
      rw [List.mem_append, List.mem_singleton, not_or]
      exact ⟨ih _ hlt, hdigit _⟩

theorem newline_notMem_nat (n : Nat) : '\n' ∉ (nat n).toList := by
  simpa [nat] using newline_notMem_toDigits (by decide) n

theorem newline_notMem_signed (w : Int32) : '\n' ∉ (signed w).toList := by
  unfold signed int
  split
  · exact newline_notMem_nat _
  · simpa using newline_notMem_nat _

theorem newline_notMem_hexPadded (width n : Nat) : '\n' ∉ (hexPadded width n).toList := by
  simpa [hexPadded] using newline_notMem_toDigits (by decide) n

theorem newline_notMem_right (width : Nat) {s : String} (h : '\n' ∉ s.toList) :
    '\n' ∉ (right width s).toList := by
  simpa [right] using h

theorem newline_notMem_left (width : Nat) {s : String} (h : '\n' ∉ s.toList) :
    '\n' ∉ (left width s).toList := by
  simpa [left] using h

end Text

namespace Listing

theorem newline_notMem_operand (ins : Instruction) : '\n' ∉ (operand ins).toList := by
  have hsigned := Text.newline_notMem_signed
  unfold operand
  split_ifs <;> simp [hsigned]

theorem newline_notMem_name (op : Opcode) : '\n' ∉ op.name.toList := by
  cases op with
  | branch c => cases c <;> decide
  | load w => cases w <;> decide
  | store w => cases w <;> decide
  | unary op => cases op <;> decide
  | binary op => cases op <;> decide
  | divide op => cases op <;> decide
  | _ => decide

theorem newline_notMem_row (p : Program) (table : Option JumpTable) (n : Nat)
    (ins : Instruction) : '\n' ∉ (row p table n ins).toList := by
  have hnumber := Text.newline_notMem_right 6 (Text.newline_notMem_nat n)
  have hname := Text.newline_notMem_left 10 (newline_notMem_name ins.op)
  unfold row
  split <;>
    simp [hnumber, hname, Text.newline_notMem_hexPadded, newline_notMem_operand]

/-- A line of an instruction is told from a name by its columns. -/
theorem blank_mem_row (p : Program) (table : Option JumpTable) (n : Nat) (ins : Instruction) :
    ' ' ∈ (row p table n ins).toList := by
  simp [row]

end Listing

/-! ## §3 Names -/

namespace SymbolTable

/-- The names of all symbols at an offset, in the order of the table. A table that is read from a
symbol file has them in the order of the file. -/
def namesAt (t : SymbolTable) (offset : UInt32) : List String :=
  (t.symbols.filter (·.offset = offset)).map (·.name)

variable {t : SymbolTable} {offset : UInt32}

theorem namesAt_parse (text : String) (p : Program) (offset : UInt32) :
    (parse text p).namesAt offset =
      ((records p (Text.words text)).filter (·.offset = offset)).map (·.name) := by
  rw [namesAt, (stablySorted_parse text p).stable]

theorem isBlank_of_mem_namesAt_parse {text name : String} {p : Program}
    (hname : name ∈ (parse text p).namesAt offset) {c : Char} (hc : c ∈ name.toList) :
    Text.isBlank c = false := by
  obtain ⟨s, hs, rfl⟩ := List.mem_map.1 hname
  have hword := (of_mem_symbols_parse (List.mem_of_mem_filter hs)).1
  exact (Text.cutInto_iff.2 rfl).isBlank_of_mem hword hc

theorem namesAt_ne_nil_iff : t.namesAt offset ≠ [] ↔ ∃ s ∈ t.symbols, s.offset = offset := by
  simp [namesAt]

/-- Where a symbol stands, a look-up shows the last one. -/
theorem Ordered.lookup?_eq_getLast? (ht : t.Ordered) (hne : t.namesAt offset ≠ []) :
    t.lookup? offset = (t.namesAt offset).getLast? := by
  obtain ⟨s, hlast⟩ : ∃ s, (t.symbols.filter (·.offset = offset)).getLast? = some s := by
    rw [← Option.isSome_iff_exists, List.getLast?_isSome]
    simpa [namesAt] using hne
  have hs : s.offset = offset := by
    simpa using (List.mem_filter.1 (List.mem_of_getLast? hlast)).2
  have hnearest : Symbol.NearestIn t.symbols offset s := by
    subst hs
    exact Symbol.nearestIn_iff.2 ⟨UInt32.le_refl _, fun _ _ hle => hle, hlast⟩
  rw [namesAt, List.getLast?_map, hlast, Option.map_some, ht.lookup?_eq_some_iff]
  exact ⟨s, hnearest, if_pos hs⟩

end SymbolTable

namespace Listing

open Text (HasLines)

theorem label?_eq_head? (t : SymbolTable) (offset : UInt32) :
    label? (some t) offset = (t.namesAt offset).head? := by
  rw [SymbolTable.namesAt, List.head?_map, List.head?_filter]
  rfl

/-- The name above an instruction at an offset, and what a look-up shows there. There is a name if
there is a symbol. It is the first one, and a look-up shows the last. They are the same if the
symbols have a single name. -/
structure Labels (t : SymbolTable) (offset : UInt32) (label : Option String) : Prop where
  isSome_iff : label.isSome ↔ ∃ s ∈ t.symbols, s.offset = offset
  first : label = (t.namesAt offset).head?
  last : label.isSome → t.lookup? offset = (t.namesAt offset).getLast?
  agree : (∀ name ∈ t.namesAt offset, ∀ name' ∈ t.namesAt offset, name = name') →
    label.isSome → t.lookup? offset = label

theorem labels_label? {t : SymbolTable} (ht : t.Ordered) (offset : UInt32) :
    Labels t offset (label? (some t) offset) := by
  have hlabel := label?_eq_head? t offset
  have hisSome : (label? (some t) offset).isSome ↔ t.namesAt offset ≠ [] := by
    rw [hlabel, List.isSome_head?]
  have hlast (h : (label? (some t) offset).isSome) := ht.lookup?_eq_getLast? (hisSome.1 h)
  refine ⟨hisSome.trans SymbolTable.namesAt_ne_nil_iff, hlabel, hlast, ?_⟩
  intro hsingle h
  have hne := hisSome.1 h
  rw [hlast h, hlabel, List.getLast?_eq_some_getLast hne, List.head?_eq_some_head hne,
    hsingle _ (List.getLast_mem hne) _ (List.head_mem hne)]

/-! ## §4 Listings -/

theorem map_zipIdx_eq_map_range {α β : Type} {xs : List α} {f : α × Nat → β} {g : Nat → β}
    (h : ∀ n (hn : n < xs.length), f (xs[n], n) = g n) :
    xs.zipIdx.map f = (List.range xs.length).map g := by
  refine List.ext_getElem (by simp) ?_
  intro n hn _
  simpa using h n (by simpa using hn)

/-- The line of the instruction with the given number. -/
def rowAt (p : Program) (table : Option JumpTable) (n : Nat) : String :=
  p.code[n]?.elim "" (row p table n)

theorem hasLines_render (p : Program) (symbols : Option SymbolTable) (table : Option JumpTable)
    (hsymbols : ∀ offset, ∀ name ∈ label? symbols offset, '\n' ∉ name.toList) :
    HasLines (render p symbols table) ((List.range p.size).flatMap fun n =>
      (label? symbols (p.offsetOf n)).toList.map (· ++ ":") ++ [rowAt p table n]) := by
  have hrows : (p.code.toList.zipIdx.flatMap fun e => lines p symbols table e.2 e.1) =
      (List.range p.size).flatMap fun n =>
        (label? symbols (p.offsetOf n)).toList.map (· ++ ":") ++ [rowAt p table n] := by
    rw [List.flatMap_def, List.flatMap_def, Program.size, ← Array.length_toList,
      map_zipIdx_eq_map_range]
    intro n hn
    rw [Array.length_toList] at hn
    simp [lines, rowAt, hn]
  rw [← hrows]
  refine ⟨rfl, ?_⟩
  simp only [List.mem_flatMap, lines, List.mem_append, List.mem_map, Option.mem_toList,
    List.mem_singleton]
  rintro line ⟨⟨ins, n⟩, -, ⟨name, hname, rfl⟩ | rfl⟩
  · simpa using hsymbols _ name hname
  · exact newline_notMem_row p table n ins

/-- The listing of a program with a symbol file. It has the lines of a listing without symbols, one
for each instruction, and above some of them a name with a colon. An instruction has a name above
it if there is a symbol at its offset. This is the first symbol of the file there, while a look-up
at the offset shows the last one: they agree if the file gives the instruction a single name. -/
theorem label_first_lookup_last (map : String) (p : Program) (table : Option JumpTable) :
    let t := SymbolTable.parse map p
    ∃ (row : Nat → String) (label : Nat → Option String),
      (∀ lines, HasLines (render p none table) lines ↔ lines = (List.range p.size).map row) ∧
      (∀ lines, HasLines (render p (some t) table) lines ↔
        lines = (List.range p.size).flatMap fun n => (label n).toList.map (· ++ ":") ++ [row n]) ∧
      (∀ n < p.size, ' ' ∈ (row n).toList) ∧
      (∀ n < p.size, ∀ name ∈ label n, ' ' ∉ name.toList) ∧
      (∀ n < p.size, Labels t (p.offsetOf n) (label n)) ∧
      ∀ offset, t.namesAt offset =
        ((SymbolTable.records p (Text.words map)).filter (·.offset = offset)).map (·.name) := by
  intro t
  have hblank (offset : UInt32) (name : String) (hname : name ∈ label? (some t) offset) {c : Char}
      (hc : Text.isBlank c = true) : c ∉ name.toList := by
    intro hmem
    rw [label?_eq_head?] at hname
    have hnot := SymbolTable.isBlank_of_mem_namesAt_parse (List.mem_of_mem_head? hname) hmem
    exact Bool.false_ne_true (hnot.symm.trans hc)
  have hplain : HasLines (render p none table) ((List.range p.size).map (rowAt p table)) := by
    simpa [label?, List.map_eq_flatMap] using hasLines_render p none table nofun
  have hnamed := hasLines_render p (some t) table
    fun offset name hname => hblank offset name hname (by decide)
  refine ⟨rowAt p table, fun n => label? (some t) (p.offsetOf n), fun _ => hplain.iff_eq,
    fun _ => hnamed.iff_eq, ?_, ?_, ?_, SymbolTable.namesAt_parse map p⟩
  · intro n hn
    rw [Program.size] at hn
    simpa [rowAt, hn] using blank_mem_row p table n p.code[n]
  · exact fun n _ name hname => hblank _ name hname (by decide)
  · exact fun n _ => labels_label? (SymbolTable.ordered_parse map p) _

/-- Two names for the first instruction of a function: the listing and a look-up show different
ones. -/
theorem listing_shows_first_of_two_names :
    ∃ p, Program.decode [3, 8, 0, 0, 0, 6, 4, 8, 0, 0, 0] 3 = .ok p ∧
      render p (some (.parse "0 0 first 0 0 second" p)) none =
        "first:\n      0 00000000  ENTER      8\n      1 00000005  PUSH      \n" ++
          "      2 00000006  LEAVE      8\n" ∧
      (SymbolTable.parse "0 0 first 0 0 second" p).lookup? (p.offsetOf 0) = some "second" := by
  have hparse : SymbolTable.parse "0 0 first 0 0 second"
      ⟨#[⟨.enter, 8⟩, ⟨.push, 0⟩, ⟨.leave, 8⟩], #[0, 5, 6], 11⟩ =
        ⟨[⟨0, "first", 0⟩, ⟨0, "second", 0⟩]⟩ := by
    cbv
  refine ⟨⟨#[⟨.enter, 8⟩, ⟨.push, 0⟩, ⟨.leave, 8⟩], #[0, 5, 6], 11⟩, by decide +kernel, ?_, ?_⟩
  · rw [hparse]
    decide +kernel
  · rw [hparse]
    decide +kernel

end Listing

end SandboxVm
