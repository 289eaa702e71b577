/-
SandboxVm.Config — how modules are to be run, and the file that says so.

A configuration is an object with up to five known fields, or an array of their values in
order; what is missing has its default. Unknown fields are ignored, known ones must not be
repeated. A kind is its name, or an object whose only field has that name and the value
null.
-/
import SandboxVm.Json

namespace SandboxVm

/-- How bytecode is executed. -/
inductive Mode where
  /-- One instruction at a time. -/
  | interpreted
  /-- From code prepared at load time. -/
  | compiled
  deriving DecidableEq

/-- The name of a mode. -/
def Mode.name : Mode → String
  | .interpreted => "interpreted"
  | .compiled => "compiled"

/-- How a module is run. -/
inductive Kind where
  /-- As code of the host. -/
  | native
  | interpreted
  | compiled
  deriving DecidableEq

namespace Kind

/-- The name of a kind. -/
def name : Kind → String
  | .native => "native"
  | .interpreted => "interpreted"
  | .compiled => "compiled"

/-- The kind with the given name. -/
def ofName? : String → Option Kind
  | "native" => some .native
  | "interpreted" => some .interpreted
  | "compiled" => some .compiled
  | _ => none

/-- The kind of a bytecode module that is executed in the given mode. -/
def ofMode : Mode → Kind
  | .interpreted => .interpreted
  | .compiled => .compiled

/-- How bytecode of this kind is executed; a native module that is not found runs compiled. -/
def mode : Kind → Mode
  | .interpreted => .interpreted
  | .native | .compiled => .compiled

/-- Reads a kind. -/
def ofJson? : Json → Option Kind
  | .string (some s) => ofName? s
  | .object [(some s, .null)] => ofName? s
  | _ => none

end Kind

/-- The settings of a manager. -/
structure Config where
  defaultKind : Kind
  /-- Kinds of single modules, each name once. -/
  modules : List (String × Kind)
  debugLevel : Nat
  profile : Bool
  /-- How many modules may be loaded at a time. -/
  maxInstances : Nat

namespace Config

/-- The settings without a file. -/
def default : Config := ⟨.compiled, [], 0, false, 3⟩

/-- The kind of the module with the given name. -/
def kindFor (c : Config) (name : String) : Kind := (c.modules.lookup name).getD c.defaultKind

/-- Symbols are needed for readable faults and for profiling. -/
def wantsSymbols (c : Config) : Bool := 0 < c.debugLevel || c.profile

/-! ## Reading -/

/-- A natural number below a limit. -/
def natBelow? (limit : Nat) : Json → Option Nat
  | .number (some n) => if n < limit then some n else none
  | _ => none

/-- Adds the kind of a single module, in place of an earlier one. -/
def addModule? (modules : List (String × Kind)) :
    Option String × Json → Option (List (String × Kind))
  | (none, _) => none
  | (some name, value) =>
    (Kind.ofJson? value).map fun kind => (name, kind) :: modules.filter (·.1 ≠ name)

/-- The kinds of single modules; of repeated names the last one counts. -/
def modulesOf? (fields : List (Option String × Json)) : Option (List (String × Kind)) :=
  fields.foldlM addModule? []

/-- The names of the known fields, in order. -/
def fieldNames : List String :=
  ["default_kind", "modules", "debug_level", "profile", "max_instances"]

/-- Sets a known field, given by its position, from its value. -/
def setField? (c : Config) : Nat → Json → Option Config
  | 0, value => (Kind.ofJson? value).map fun kind => { c with defaultKind := kind }
  | 1, .object fields => (modulesOf? fields).map fun modules => { c with modules := modules }
  | 2, value => (natBelow? UInt32.size value).map fun n => { c with debugLevel := n }
  | 3, .bool b => some { c with profile := b }
  | 4, value => (natBelow? UInt64.size value).map fun n => { c with maxInstances := n }
  | _, _ => none

/-- Sets fields from values in order; there must not be more values than fields. -/
def ofItems? : (position : Nat) → List Json → Config → Option Config
  | _, [], c => some c
  | i, value :: rest, c => (c.setField? i value).bind (ofItems? (i + 1) rest)

/-- Sets fields by name; `seen` are the positions of the fields that were set before. -/
def ofFields? : (seen : List Nat) → List (Option String × Json) → Config → Option Config
  | _, [], c => some c
  | _, (none, _) :: _, _ => none
  | seen, (some name, value) :: rest, c =>
    match fieldNames.idxOf? name with
    | none => ofFields? seen rest c
    | some i =>
      if seen.contains i then none
      else (c.setField? i value).bind (ofFields? (i :: seen) rest)

/-- Reads a configuration. -/
def ofJson? : Json → Option Config
  | .object fields => ofFields? [] fields default
  | .array items => ofItems? 0 items default
  | _ => none

/-- Reads the text of a configuration file. -/
def parse? (text : String) : Option Config := (Json.parse text).bind ofJson?

end Config

end SandboxVm
