/-
SandboxVm.Symbols — names for places in the code, and how often they were entered.

A symbol file is a sequence of records `segment value name`. Records of segment `0` name
the instruction whose number is the hexadecimal value; all other records are skipped. The
table is ordered by code offset, symbols with the same offset in file order.
-/
import SandboxVm.Program
import SandboxVm.Text.Fixed
import SandboxVm.Text.Words

namespace SandboxVm

/-- One named function in the code segment. -/
structure Symbol where
  /-- Byte offset in the code segment. -/
  offset : UInt32
  name : String
  /-- How often the function was entered since the last report. -/
  calls : Nat
  deriving DecidableEq

/-- The symbols of a module, ordered by offset. -/
structure SymbolTable where
  symbols : List Symbol
  deriving DecidableEq

/-- One line of a profile. -/
structure ProfileRow where
  name : String
  calls : Nat
  /-- Share of all calls in the report. -/
  percent : Float

/-- Count, share with two decimals, and name, in columns. -/
def ProfileRow.text (r : ProfileRow) : String :=
  Text.right 9 (Text.nat r.calls) ++ " " ++ Text.right 6 (Text.fixed 2 r.percent) ++ "% " ++ r.name

namespace SymbolTable

/-- The value of a sequence of hexadecimal digits that fits a word. -/
def hexDigits? : List Char → Nat → Option Nat
  | [], acc => some acc
  | c :: cs, acc => do
    let acc := 16 * acc + (← Text.hexDigit? c)
    if acc < UInt32.size then hexDigits? cs acc else none

/-- An unsigned hexadecimal word: an optional plus sign and at least one digit. -/
def hexWord? : List Char → Option Nat
  | [] => none
  | '+' :: [] => none
  | '+' :: cs => hexDigits? cs 0
  | cs => hexDigits? cs 0

/-- Removes every leading `0x`. -/
def dropMarks : List Char → List Char
  | '0' :: 'x' :: cs => dropMarks cs
  | cs => cs

/-- The symbol that a record describes, if it names an instruction of the program. -/
def record? (p : Program) (segment value name : String) : Option Symbol :=
  if segment = "0" then do
    let n ← hexWord? (dropMarks value.toList)
    let offset ← p.offsets[n]?
    some ⟨offset, name, 0⟩
  else none

/-- The symbols of a list of words, three of which make a record, behind `acc`, which is
reversed. -/
def recordsInto (p : Program) : List String → (acc : List Symbol) → List Symbol
  | segment :: value :: name :: rest, acc =>
    recordsInto p rest ((record? p segment value name).toList ++ acc)
  | _, acc => acc.reverse

/-- The symbols of a list of words, three of which make a record. -/
def records (p : Program) (words : List String) : List Symbol := recordsInto p words []

theorem recordsInto_eq (p : Program) : ∀ (words : List String) (acc : List Symbol),
    recordsInto p words acc = acc.reverse ++ records p words
  | segment :: value :: name :: rest, acc => by
    rw [records, recordsInto, recordsInto, recordsInto_eq p rest, recordsInto_eq p rest (_ ++ [])]
    cases record? p segment value name <;> simp
  | [], acc | [_], acc | [_, _], acc => by simp [records, recordsInto]

theorem records_cons (p : Program) (segment value name : String) (rest : List String) :
    records p (segment :: value :: name :: rest) =
      (record? p segment value name).toList ++ records p rest := by
  rw [records, recordsInto, recordsInto_eq]
  cases record? p segment value name <;> rfl

/-- Reads a symbol file. -/
def parse (text : String) (p : Program) : SymbolTable :=
  ⟨(records p (Text.words text)).mergeSort fun a b => a.offset ≤ b.offset⟩

/-- The position of the last symbol at or before an offset. -/
def indexAt? (t : SymbolTable) (offset : UInt32) : Option Nat :=
  match t.symbols.findIdx fun s => offset < s.offset with
  | 0 => none
  | n + 1 => some n

/-- The last symbol at or before an offset. -/
def find? (t : SymbolTable) (offset : UInt32) : Option Symbol :=
  (t.indexAt? offset).bind fun i => t.symbols[i]?

/-- The last symbol at or before an offset, followed by the distance when there is one. -/
def lookup? (t : SymbolTable) (offset : UInt32) : Option String :=
  (t.find? offset).map fun s =>
    if s.offset = offset then s.name
    else s.name ++ "+" ++ Text.nat (offset - s.offset).toNat

/-- Counts a call of the function that contains an offset. -/
def recordCall (t : SymbolTable) (offset : UInt32) : SymbolTable :=
  match t.indexAt? offset with
  | none => t
  | some i => ⟨t.symbols.modify i fun s => { s with calls := s.calls + 1 }⟩

/-- Forgets all counts. -/
def resetCounts (t : SymbolTable) : SymbolTable :=
  ⟨t.symbols.map fun s => { s with calls := 0 }⟩

/-- All counts together. -/
def totalCalls (t : SymbolTable) : Nat := t.symbols.foldl (fun n s => n + s.calls) 0

/-- The line of a profile for one symbol. -/
def row (total : Nat) (s : Symbol) : ProfileRow :=
  ⟨s.name, s.calls, 100.0 * Float.ofNat s.calls / Float.ofNat total⟩

/-- The functions that were called, most frequent first and otherwise in table order. -/
def profile (t : SymbolTable) : List ProfileRow :=
  ((t.symbols.filter fun s => 0 < s.calls).mergeSort fun a b => b.calls ≤ a.calls).map
    (row t.totalCalls)

/-- The profile since the last report, and the table with its counts reset. -/
def report (t : SymbolTable) : List ProfileRow × SymbolTable := (t.profile, t.resetCounts)

end SymbolTable

end SandboxVm
