/-
SandboxVm.Cli.Options — command lines: their grammar and their help texts.

A command has options and positional arguments in any order. An option has a long name and
perhaps a letter; letters without values can stand together behind one dash. A value
follows its option, or is attached to it by an equals sign (to a letter also directly).
Two dashes end the options. An option must not be repeated unless it collects values.
-/
import SandboxVm.Text

namespace SandboxVm.Cli

/-- The values that an option takes. -/
inductive Arity where
  | none
  | one
  /-- Up to `n` values at a time, which may be negative numbers; the option can be repeated. -/
  | upTo (n : Nat)
  deriving DecidableEq

/-- One option of a command. -/
structure OptionSpec where
  letter : Option Char
  long : String
  arity : Arity
  /-- Which values are accepted. -/
  accepts : String → Bool
  help : String
  /-- The value shown in the help text for a missing option. -/
  preset : Option String

/-- The positional arguments of a command: one, or any number. -/
structure PositionalSpec where
  name : String
  many : Bool
  help : String

/-- A command. -/
structure CommandSpec where
  name : String
  summary : String
  description : String
  positional : PositionalSpec
  options : List OptionSpec

/-- A command line taken apart. -/
structure Parsed where
  positionals : List String
  /-- The options in the order in which they were completed, with their values. -/
  given : List (String × List String)
  /-- The option that is still collecting values. -/
  pending : Option (OptionSpec × List String)

/-- Why a command is not carried out. -/
inductive Stop where
  /-- The command line is not well formed. -/
  | usage
  /-- Help was asked for, in short or at length. -/
  | help (long : Bool)

namespace Parsed

/-- Nothing yet. -/
def empty : Parsed := ⟨[], [], none⟩

/-- Records an option with its values. -/
def give (p : Parsed) (o : OptionSpec) (values : List String) : Except Stop Parsed :=
  let fits : Bool := match o.arity with
    | .none => values.isEmpty
    | .one => values.length = 1
    | .upTo n => values.length ≤ n
  let repeated : Bool := match o.arity with
    | .upTo _ => false
    | _ => p.given.any (·.1 = o.long)
  if !fits || repeated || !values.all o.accepts then .error .usage
  else .ok { p with given := p.given ++ [(o.long, values)], pending := none }

/-- Completes the option that is collecting values. -/
def close (p : Parsed) : Except Stop Parsed :=
  match p.pending with
  | none => .ok p
  | some (o, values) => p.give o values

/-- Starts an option: one that takes values begins to collect them. -/
def start (p : Parsed) (o : OptionSpec) : Except Stop Parsed := do
  let p ← p.close
  match o.arity with
  | .none => p.give o []
  | _ => .ok { p with pending := some (o, []) }

/-- Records an option with the value attached to it. -/
def attach (p : Parsed) (o : OptionSpec) (value : String) : Except Stop Parsed := do
  let p ← p.close
  match o.arity with
  | .none => .error .usage
  | _ => p.give o [value]

/-- Adds a positional argument. -/
def position (p : Parsed) (spec : PositionalSpec) (value : String) : Except Stop Parsed := do
  let p ← p.close
  if value = "" || (!spec.many && !p.positionals.isEmpty) then .error .usage
  else .ok { p with positionals := p.positionals ++ [value] }

/-- Adds a word that is no option: a value of the option that collects some, or a positional
argument. -/
def word (p : Parsed) (spec : PositionalSpec) (value : String) : Except Stop Parsed :=
  match p.pending with
  | none => p.position spec value
  | some (o, values) =>
    let values := values ++ [value]
    let full : Bool := match o.arity with
      | .upTo n => values.length = n
      | _ => true
    if full then p.give o values else .ok { p with pending := some (o, values) }

/-- Whether an option that takes negative numbers is collecting values. -/
def takesNegatives (p : Parsed) : Bool :=
  match p.pending with
  | some (⟨_, _, .upTo _, _, _, _⟩, _) => true
  | _ => false

end Parsed

namespace CommandSpec

/-- Reads the letters behind one dash. -/
def letters (c : CommandSpec) : List Char → Parsed → Except Stop Parsed
  | [], p => .ok p
  | ch :: rest, p =>
    if ch = 'h' then do
      let _ ← p.close
      .error (.help false)
    else
      match c.options.find? (fun o => o.letter = some ch) with
      | none => .error .usage
      | some o =>
        match o.arity, rest with
        | .none, rest => do letters c rest (← p.start o)
        | _, [] => p.start o
        | _, '=' :: value => p.attach o (String.ofList value)
        | _, value => p.attach o (String.ofList value)

/-- Reads an option by its long name, with the value attached to it if there is one. -/
def longOption (c : CommandSpec) (name : String) (value : Option String) (p : Parsed) :
    Except Stop Parsed :=
  if name = "help" then do
    let _ ← p.close
    .error (if value.isSome then .usage else .help true)
  else
    match c.options.find? (fun o => o.long = name), value with
    | none, _ => .error .usage
    | some o, none => p.start o
    | some o, some value => p.attach o value

/-- Reads the words of a command line. -/
def readWords (c : CommandSpec) : List String → Parsed → Except Stop Parsed
  | [], p => p.close
  | text :: rest, p =>
    match text.toList with
    | ['-', '-'] => do
      let p ← rest.foldlM (fun p value => p.position c.positional value) p
      p.close
    | '-' :: '-' :: long => do
      let name := long.takeWhile (· ≠ '=')
      let value := match long.drop name.length with
        | [] => none
        | _ :: value => some (String.ofList value)
      readWords c rest (← c.longOption (String.ofList name) value p)
    | '-' :: ch :: more => do
      if p.takesNegatives && (ch :: more).all Char.isDigit then
        readWords c rest (← p.word c.positional text)
      else readWords c rest (← c.letters (ch :: more) p)
    | _ => do readWords c rest (← p.word c.positional text)

/-- Takes a command line apart; a single positional argument must be there. -/
def parse (c : CommandSpec) (args : List String) : Except Stop Parsed := do
  let p ← c.readWords args Parsed.empty
  if p.positionals.isEmpty && !c.positional.many then .error .usage else .ok p

end CommandSpec

namespace Parsed

/-- Whether an option was given. -/
def has (p : Parsed) (long : String) : Bool := p.given.any (·.1 = long)

/-- The value of an option. -/
def value? (p : Parsed) (long : String) : Option String :=
  (p.given.lookup long).bind List.head?

/-- All values of an option, over all its occurrences. -/
def values (p : Parsed) (long : String) : List String :=
  (p.given.filter (·.1 = long)).flatMap (·.2)

end Parsed

/-! ## Help -/

namespace OptionSpec

/-- Letter, long name and placeholder of the value. -/
def title (o : OptionSpec) : String :=
  let letter := o.letter.elim "    " fun c => "-" ++ c.toString ++ ", "
  let name := "<" ++ o.long.map (fun c => if c = '-' then '_' else c.toUpper) ++ ">"
  let value := match o.arity with
    | .none => ""
    | .one => " " ++ name
    | .upTo _ => " [" ++ name ++ "...]"
  letter ++ "--" ++ o.long ++ value

end OptionSpec

namespace CommandSpec

/-- The placeholder of the positional arguments. -/
def positionalTitle (c : CommandSpec) : String :=
  if c.positional.many then "[" ++ c.positional.name ++ "]..." else "<" ++ c.positional.name ++ ">"

/-- The option that asks for help. -/
def helpOption (long : Bool) : OptionSpec :=
  ⟨some 'h', "help", .none, fun _ => false,
    if long then "Print help (see a summary with '-h')" else "Print help (see more with '--help')",
    none⟩

/-- Titles and explanations in two columns. -/
def columns (rows : List (String × String)) : String :=
  let width := (rows.map (·.1.length)).foldl max 0
  String.join (rows.map fun (title, help) => "  " ++ Text.left width title ++ "  " ++ help ++ "\n")

/-- Titles with their explanations below them, an empty line in between. -/
def stacked (rows : List (String × List String)) : String :=
  "\n".intercalate (rows.map fun (title, help) =>
    "  " ++ title ++ "\n" ++ String.join (help.map fun line => "          " ++ line ++ "\n"))

/-- The help text in short, or at length. -/
def helpText (c : CommandSpec) (long : Bool) : String :=
  let usage := "Usage: " ++ c.name ++ " [OPTIONS] " ++ c.positionalTitle ++ "\n\n"
  let options := c.options ++ [helpOption long]
  let preset (o : OptionSpec) := o.preset.map fun v => "[default: " ++ v ++ "]"
  if long then
    c.description ++ "\n\n" ++ usage ++
      "Arguments:\n" ++ stacked [(c.positionalTitle, [c.positional.help])] ++
      "\nOptions:\n" ++ stacked (options.map fun o =>
        (o.title, o.help :: ((preset o).elim [] fun text => ["", text])))
  else
    c.summary ++ "\n\n" ++ usage ++
      "Arguments:\n" ++ columns [(c.positionalTitle, c.positional.help)] ++
      "\nOptions:\n" ++ columns (options.map fun o =>
        (o.title, o.help ++ ((preset o).elim "" fun text => " " ++ text)))

end CommandSpec

/-! ## Numbers -/

/-- A decimal number with an optional sign that fits a signed word. -/
def int32? (text : String) : Option Int32 :=
  let (negative, digits) := match text.toList with
    | '-' :: ds => (true, ds)
    | '+' :: ds => (false, ds)
    | ds => (false, ds)
  if digits.isEmpty || !digits.all Char.isDigit then none
  else
    let n : Int := digits.foldl (fun n c => 10 * n + (c.toNat - 48 : Nat)) 0
    let n := if negative then -n else n
    if -2147483648 ≤ n ∧ n ≤ 2147483647 then some (Int32.ofInt n) else none

end SandboxVm.Cli
