/-
SandboxVm.Json — the data format of configuration files.

A value is built from the tokens of its text one by one, while the arrays and objects that
are still open wait on a stack. Objects keep their fields in order and with repetitions,
since repeated fields are judged by whoever uses them.
-/
import SandboxVm.Json.Token

namespace SandboxVm

/-- A JSON value. -/
inductive Json where
  | null
  | bool (b : Bool)
  /-- A number, with its value if it is written as a natural number. -/
  | number (value : Option Nat)
  | string (text : Option String)
  | array (items : List Json)
  | object (fields : List (Option String × Json))

namespace Json

/-- An array or object that is not closed yet, its parts in reverse order. -/
inductive Opened where
  | array (items : List Json)
  /-- An object; `key` belongs to the field that comes next. -/
  | object (fields : List (Option String × Json)) (key : Option String)

/-- What must come next. -/
inductive Expected where
  | value
  /-- A value, or the end of the array. -/
  | valueOrEnd
  | key
  /-- A key, or the end of the object. -/
  | keyOrEnd
  | colon
  /-- A comma, or the end of the innermost array or object. -/
  | commaOrEnd
  /-- Nothing: the text is complete. -/
  | nothing (result : Json)

/-- A value in the making. -/
structure Builder where
  /-- What is open, innermost first. -/
  opened : List Opened
  expected : Expected

namespace Builder

/-- The start of a text. -/
def start : Builder := ⟨[], .value⟩

/-- Puts a finished value where it belongs. -/
def finish (v : Json) : List Opened → Builder
  | [] => ⟨[], .nothing v⟩
  | .array items :: rest => ⟨.array (v :: items) :: rest, .commaOrEnd⟩
  | .object fields key :: rest => ⟨.object ((key, v) :: fields) none :: rest, .commaOrEnd⟩

/-- Closes the innermost array or object. -/
def close : Token → List Opened → Option Builder
  | .closeArray, .array items :: rest => some (finish (.array items.reverse) rest)
  | .closeObject, .object fields _ :: rest => some (finish (.object fields.reverse) rest)
  | _, _ => none

/-- Starts a value with a token. -/
def value : Token → List Opened → Option Builder
  | .null, opened => some (finish .null opened)
  | .bool b, opened => some (finish (.bool b) opened)
  | .number v, opened => some (finish (.number v) opened)
  | .string s, opened => some (finish (.string s) opened)
  | .openArray, opened => some ⟨.array [] :: opened, .valueOrEnd⟩
  | .openObject, opened => some ⟨.object [] none :: opened, .keyOrEnd⟩
  | _, _ => none

/-- Reads the key of a field. -/
def key : Token → List Opened → Option Builder
  | .string s, .object fields _ :: rest => some ⟨.object fields s :: rest, .colon⟩
  | _, _ => none

/-- Goes on behind a comma. -/
def comma : List Opened → Option Builder
  | .array items :: rest => some ⟨.array items :: rest, .value⟩
  | .object fields key :: rest => some ⟨.object fields key :: rest, .key⟩
  | [] => none

/-- Goes on with one token. -/
def step : Builder → Token → Option Builder
  | ⟨opened, .value⟩, token => value token opened
  | ⟨opened, .valueOrEnd⟩, token => close token opened <|> value token opened
  | ⟨opened, .key⟩, token => key token opened
  | ⟨opened, .keyOrEnd⟩, token => close token opened <|> key token opened
  | ⟨opened, .colon⟩, .colon => some ⟨opened, .value⟩
  | ⟨opened, .commaOrEnd⟩, .comma => comma opened
  | ⟨opened, .commaOrEnd⟩, token => close token opened
  | _, _ => none

/-- The value that was built, if it is complete. -/
def result? : Builder → Option Json
  | ⟨_, .nothing v⟩ => some v
  | _ => none

end Builder

/-- The value with the given tokens. -/
def ofTokens? (tokens : List Token) : Option Json :=
  (tokens.foldlM Builder.step Builder.start).bind Builder.result?

/-- Reads a whole text. -/
def parse (text : String) : Option Json := (Token.scan text).bind ofTokens?

end Json

end SandboxVm
