/-
SandboxVm.Assembly.Source — assembler text, one operation or directive a line.

A line ending in a colon places a label. A mnemonic stands alone, or has a decimal operand
or a label written `@name`. Directives start with a point and stand for the usual short
sequences; `.repeat n` repeats the rest of its line.
-/
import SandboxVm.Assembly

namespace SandboxVm.Assembly

/-- The words of a line. -/
def tokens (line : String) : List String :=
  ((line.toList.splitBy fun a b => (a == ' ') == (b == ' ')).filter
    fun run => run.head? != some ' ').map String.ofList

/-- A decimal number with an optional sign. -/
def integer? (token : String) : Option Int :=
  match token.toList with
  | '+' :: digits => (String.ofList digits).toNat?.map Int.ofNat
  | _ => token.toInt?

/-- A decimal number with an optional sign, cut down to a word. -/
def number? (token : String) : Option Int32 := (integer? token).map Int32.ofInt

/-- A mnemonic with an optional operand. -/
def operation (a : Assembly) (mnemonic : String) (operand : Option String) :
    Except AssemblyError Assembly :=
  match Opcode.ofName? mnemonic with
  | none => .error (.unknownOpcode mnemonic)
  | some op =>
    match operand with
    | none => .ok (a.op op)
    | some text =>
      match text.toList with
      | '@' :: label => .ok (a.opLabel op (String.ofList label))
      | _ => .ok (a.opImm op ((number? text).getD 0))

/-- A directive with numbers as operands. -/
def directive (a : Assembly) : String → List Int32 → Option Assembly
  | ".syscall", [n] => some (a.syscall n)
  | ".param", [frame, n] => some (a.param frame n)
  | ".enter", [n] => some (a.opImm .enter n)
  | ".leave", [n] => some (a.opImm .leave n)
  | ".const", [n] => some (a.const n)
  | ".constf", [bits] => some (a.const bits)
  | ".local", [n] => some (a.opImm .frame n)
  | ".block_copy", [n] => some (a.opImm .blockCopy n)
  | ".arg", [n] => some (a.opImm .arg n.toUInt32.toUInt8.toUInt32.toInt32)
  | ".here", [] => some (a.const a.here)
  | _, _ => none

/-- Applies a step `n` times, stopping at the first failure. -/
def iterate (step : Assembly → Except AssemblyError Assembly) :
    Nat → Assembly → Except AssemblyError Assembly
  | 0, a => .ok a
  | n + 1, a => step a >>= iterate step n

/-- Assembles the words of one line. -/
def line : List String → Assembly → Except AssemblyError Assembly
  | [], a => .ok a
  | [word], a =>
    if word.endsWith ":" then .ok (a.place (word.dropEnd 1).copy)
    else
      match a.directive word [] with
      | some b => .ok b
      | none => a.operation word none
  | word :: next :: rest, a =>
    if word = ".repeat" then
      iterate (line rest) ((integer? next).getD 0).toNat a
    else if word = ".indirect" then .ok (a.listTarget next)
    else if word = ".jump" then .ok (a.jump next)
    else if word = ".call" then .ok (a.call next)
    else
      match (next :: rest).mapM number? >>= a.directive word with
      | some b => .ok b
      | none => a.operation word (some next)

/-- Assembles a whole text, given by its lines. -/
def ofLines (lines : List String) : Except AssemblyError Assembly :=
  lines.foldlM (fun a text => line (tokens text) a) empty

/-- Assembles and finishes a text. -/
def assemble (lines : List String) : Except AssemblyError Code := do
  (← ofLines lines).finish

end SandboxVm.Assembly
