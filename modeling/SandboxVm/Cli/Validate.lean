/-
SandboxVm.Cli.Validate — a tool that checks whether images can be loaded.

Every image goes through the whole loader; nothing is executed.
-/
import SandboxVm.Cli.Inspect

namespace SandboxVm.Cli.Validate

/-- The command line. -/
def spec : CommandSpec where
  name := "qvm-validate"
  summary := "Check that QVM images load"
  description := "qvm-validate - load-time validation of bytecode modules

Each image goes through the full loader: header and segment bounds,
instruction decoding, static branch targets and the jump table. Nothing is
executed.

Examples:
  # Validate a single module
  qvm-validate vm/game.qvm

  # Validate several, quietly
  qvm-validate vm/*.qvm --quiet
"
  positional := ⟨"IMAGES", true, "Path(s) to .qvm images"⟩
  options := [
    ⟨some 'v', "verbose", .none, fun _ => false, "Show header details", none⟩,
    ⟨some 'q', "quiet", .none, fun _ => false, "Only show errors", none⟩]

/-- The details of an accepted image. -/
def details (inst : Instance) : String :=
  let h := inst.header
  let table := inst.jumpTable.elim "" fun t =>
    "  Jump targets: " ++ Text.nat t.declared ++ " declared, " ++ Text.nat t.count ++ " allowed\n"
  "  Format: " ++ formatName h.format ++ "\n" ++
    "  Instructions: " ++ Text.signed h.instructionCount ++ "\n" ++
    "  Code: " ++ Text.signed h.codeLength ++ " bytes\n" ++
    "  Data: " ++ Text.signed h.dataLength ++ " + " ++ Text.signed h.litLength ++ " lit + " ++
      Text.signed h.bssLength ++ " bss -> " ++ Text.nat (Instance.dataSize h).toNat ++ " bytes\n" ++
    table

/-- What is printed about one image, and what is wrong with it if anything is. -/
def check (files : Files) (verbose quiet : Bool) (path : String) : String × Option String :=
  if !(files path).isPresent then ("", some ("ERROR: " ++ path ++ " - File not found"))
  else
    let say (text : String) : String := if verbose then text else ""
    let title := say ("Validating: " ++ path ++ "\n")
    match readImage files path with
    | .error text => (title, some text)
    | .ok bytes =>
      let title := title ++ say ("  Size: " ++ Text.nat bytes.length ++ " bytes\n")
      match Instance.load (moduleName path) bytes ⟨.interpreted, none, false⟩ with
      | .error e => (title, some ("INVALID: " ++ path ++ " - " ++ e.message))
      | .ok inst =>
        let verdict := if quiet then "" else "VALID: " ++ path ++ "\n"
        (title ++ say (details inst) ++ verdict, none)

/-- The counts shown below several images. -/
def totals (total bad : Nat) : String :=
  let share (n : Nat) : String := Text.nat n ++ "/" ++ Text.nat total ++ "\n"
  "\nSummary:\n  Valid: " ++ share (total - bad) ++
    (if 0 < bad then "  Invalid: " ++ share bad else "")

/-- Carries out a command line. -/
def perform (files : Files) (p : Parsed) : Output :=
  if p.positionals.isEmpty then
    ⟨1, "", "Error: No images specified\nUsage: qvm-validate <IMAGES>...\n"⟩
  else
    let quiet := p.has "quiet"
    let results := p.positionals.map (check files (p.has "verbose") quiet)
    let errors := results.filterMap (·.2)
    let stderr :=
      if errors.isEmpty then ""
      else "\nValidation errors:\n" ++ String.join (errors.map (· ++ "\n"))
    let summary :=
      if 1 < results.length && !quiet then totals results.length errors.length else ""
    ⟨if errors.isEmpty then 0 else 1, String.join (results.map (·.1)) ++ summary, stderr⟩

/-- The tool. -/
def run (files : Files) (args : List String) : Output :=
  match spec.parse args with
  | .error stop => .stopped spec stop
  | .ok p => perform files p

end SandboxVm.Cli.Validate
