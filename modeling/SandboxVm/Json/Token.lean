/-
SandboxVm.Json.Token — the words of a JSON text.

`Token.scan` cuts a text into tokens and refuses one that cannot be cut. Of a number only
its value is kept, where it is written as a natural number of at most twenty digits: nothing
else is ever asked of it. A string is kept as `none` when it holds half of a surrogate pair,
which is no text.
-/
import SandboxVm.Text

namespace SandboxVm.Json

/-- A word of a JSON text. -/
inductive Token where
  | openArray
  | closeArray
  | openObject
  | closeObject
  | comma
  | colon
  | null
  | bool (b : Bool)
  | number (value : Option Nat)
  | string (text : Option String)

/-- Blanks between tokens. -/
def isSpace (c : Char) : Bool := c == ' ' || c == '\t' || c == '\n' || c == '\r'

/-- Skips blanks. -/
def skip (cs : List Char) : List Char := cs.dropWhile isSpace

/-! ## Strings -/

/-- The sixteen-bit unit written by four hexadecimal digits. -/
def unit? (a b c d : Char) : Option Nat := do
  some (4096 * (← Text.hexDigit? a) + 256 * (← Text.hexDigit? b) + 16 * (← Text.hexDigit? c) +
    (← Text.hexDigit? d))

/-- The character behind a backslash, other than `u`. -/
def escaped? : Char → Option Char
  | '"' => some '"'
  | '\\' => some '\\'
  | '/' => some '/'
  | 'b' => some '\x08'
  | 'f' => some '\x0c'
  | 'n' => some '\n'
  | 'r' => some '\r'
  | 't' => some '\t'
  | _ => none

/-- The sixteen-bit units of a string behind its opening quote, up to the closing one, with
plain characters as themselves; control characters must be escaped. -/
def stringUnits : List Char → List (Char ⊕ Nat) → Option (List (Char ⊕ Nat) × List Char)
  | [], _ => none
  | '"' :: rest, acc => some (acc.reverse, rest)
  | '\\' :: 'u' :: a :: b :: c :: d :: rest, acc =>
    match unit? a b c d with
    | none => none
    | some n => stringUnits rest (.inr n :: acc)
  | '\\' :: c :: rest, acc =>
    match escaped? c with
    | none => none
    | some c => stringUnits rest (.inl c :: acc)
  | c :: rest, acc => if c.toNat < 32 || c == '\\' then none else stringUnits rest (.inl c :: acc)

/-- The text of a sequence of units behind `acc`, which is reversed, unless half of a surrogate
pair stands alone. -/
def unitsText? : List (Char ⊕ Nat) → (acc : List Char) → Option (List Char)
  | [], acc => some acc.reverse
  | .inl c :: rest, acc => unitsText? rest (c :: acc)
  | .inr n :: rest, acc =>
    if 0xDC00 ≤ n ∧ n < 0xE000 then none
    else if 0xD800 ≤ n ∧ n < 0xDC00 then
      match rest with
      | .inr m :: rest =>
        if 0xDC00 ≤ m ∧ m < 0xE000 then
          unitsText? rest (Char.ofNat (0x10000 + (n - 0xD800) * 0x400 + (m - 0xDC00)) :: acc)
        else none
      | _ => none
    else unitsText? rest (Char.ofNat n :: acc)

/-- Reads a string behind its opening quote. -/
def readString (cs : List Char) : Option (Token × List Char) :=
  (stringUnits cs []).map fun (units, rest) =>
    (.string ((unitsText? units []).map String.ofList), rest)

/-! ## Numbers and words -/

/-- Reads one digit or more. -/
def digits? (cs : List Char) : Option (List Char × List Char) :=
  match cs.takeWhile Char.isDigit with
  | [] => none
  | ds => some (ds, cs.dropWhile Char.isDigit)

/-- Reads the integer part of a number: no leading zero unless it is the only digit. -/
def integer? : List Char → Option (List Char × List Char)
  | '0' :: rest => if (rest.head?.elim false Char.isDigit) then none else some (['0'], rest)
  | cs => digits? cs

/-- Reads what may follow the integer part; the flag says that there was something. -/
def fraction? (cs : List Char) : Option (Bool × List Char) := do
  let (decimals, cs) ← match cs with
    | '.' :: rest => (digits? rest).map fun (_, rest) => (true, rest)
    | _ => some (false, cs)
  let exponent (rest : List Char) : Option (Bool × List Char) :=
    match rest with
    | '+' :: rest | '-' :: rest => (digits? rest).map fun (_, rest) => (true, rest)
    | rest => (digits? rest).map fun (_, rest) => (true, rest)
  match cs with
  | 'e' :: rest | 'E' :: rest => exponent rest
  | _ => some (decimals, cs)

/-- The value of decimal digits, if there are at most twenty. -/
def decimal? (ds : List Char) : Option Nat :=
  if (ds.drop 20).isEmpty then some (ds.foldl (fun n c => 10 * n + (c.toNat - 48)) 0) else none

/-- Reads a number. -/
def readNumber (cs : List Char) : Option (Token × List Char) := do
  let (negative, cs) := match cs with
    | '-' :: rest => (true, rest)
    | _ => (false, cs)
  let (ds, cs) ← integer? cs
  let (fractional, cs) ← fraction? cs
  some (.number (if negative || fractional then none else decimal? ds), cs)

/-- Reads a word such as `true`. -/
def readWord (word : String) (token : Token) (cs : List Char) : Option (Token × List Char) :=
  if cs.take word.length = word.toList then some (token, cs.drop word.length) else none

/-! ## Whole texts -/

namespace Token

/-- Reads the token that starts with the given character. -/
def read? (c : Char) (rest : List Char) : Option (Token × List Char) :=
  match c with
  | '[' => some (.openArray, rest)
  | ']' => some (.closeArray, rest)
  | '{' => some (.openObject, rest)
  | '}' => some (.closeObject, rest)
  | ',' => some (.comma, rest)
  | ':' => some (.colon, rest)
  | '"' => readString rest
  | 'n' => readWord "null" .null (c :: rest)
  | 't' => readWord "true" (.bool true) (c :: rest)
  | 'f' => readWord "false" (.bool false) (c :: rest)
  | _ => readNumber (c :: rest)

/-- Reads at most `limit` tokens up to the end of the text, behind `acc`, which is reversed. -/
def scanUpTo : (limit : Nat) → List Char → (acc : List Token) → Option (List Token)
  | 0, cs, acc => if (skip cs).isEmpty then some acc.reverse else none
  | limit + 1, cs, acc =>
    match skip cs with
    | [] => some acc.reverse
    | c :: rest =>
      match read? c rest with
      | none => none
      | some (token, rest) => scanUpTo limit rest (token :: acc)

/-- The tokens of a text, each of which has a character or more. -/
def scan (text : String) : Option (List Token) := scanUpTo text.length text.toList []

end Token

end SandboxVm.Json
