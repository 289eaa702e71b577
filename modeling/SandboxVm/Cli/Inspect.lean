/-
SandboxVm.Cli.Inspect — a tool that shows the layout and the code of an image.
-/
import SandboxVm.Cli.Output
import SandboxVm.Instance

namespace SandboxVm.Cli

/-- The name of a format in reports. -/
def formatName : Format → String
  | .legacy => "Legacy"
  | .extended => "Extended"

namespace Inspect

/-- The command line. -/
def spec : CommandSpec where
  name := "qvm-inspect"
  summary := "Inspect QVM images"
  description := "qvm-inspect - show the layout and code of a bytecode module

Examples:
  # Header and segment summary
  qvm-inspect game.qvm

  # Add a full listing, with symbols from game.map when present
  qvm-inspect game.qvm --disassemble

  # Only the symbol table
  qvm-inspect game.qvm --symbols-only
"
  positional := ⟨"IMAGE", false, "Path to the .qvm image"⟩
  options := [
    ⟨some 'd', "disassemble", .none, fun _ => false, "Print every instruction", none⟩,
    ⟨none, "symbols-only", .none, fun _ => false, "Show only the symbols", none⟩]

/-- A number in a column of eight. -/
def column (w : Int32) : String := Text.right 8 (Text.signed w)

/-- Header and segments. -/
def summary (path : String) (size : Nat) (inst : Instance) : String :=
  let h := inst.header
  let table := inst.jumpTable.elim "" fun t =>
    "  jump table " ++ Text.nat t.declared ++ " entries, " ++ Text.nat t.count ++
      " indirect targets allowed\n"
  "Module: " ++ path ++ "\n" ++
    "Size: " ++ Text.nat size ++ " bytes\n" ++
    "Format: " ++ formatName h.format ++ " (magic 0x" ++ Text.hexPadded 8 h.format.magic.toNat ++
      ")\n\n" ++
    "Segments:\n" ++
    "  code      offset " ++ column h.codeOffset ++ "  length " ++ column h.codeLength ++ "  (" ++
      Text.signed h.instructionCount ++ " instructions)\n" ++
    "  data      offset " ++ column h.dataOffset ++ "  length " ++ column h.dataLength ++ "\n" ++
    "  lit                        length " ++ column h.litLength ++ "\n" ++
    "  bss                        length " ++ column h.bssLength ++ "\n" ++
    "  sandbox   " ++ Text.nat (Instance.dataSize h).toNat ++ " bytes, stack bottom " ++
      Text.signed inst.stackBottom ++ "\n" ++
    table ++ "\n"

/-- The symbols with their offsets. -/
def symbolList (t : SymbolTable) : String :=
  let line := fun (s : Symbol) => "  " ++ Text.hexPadded 8 s.offset.toNat ++ "  " ++ s.name ++ "\n"
  "Symbols:\n" ++ String.join (t.symbols.map line) ++ "\n"

/-- Carries out a command line. -/
def perform (files : Files) (p : Parsed) : Output :=
  let path := p.positionals.headD ""
  match readImage files path with
  | .error text => .complaint text
  | .ok bytes =>
    match Instance.load (moduleName path) bytes ⟨.interpreted, none, false⟩ with
    | .error e => .complaint ("Failed to load " ++ path ++ ": " ++ e.message)
    | .ok inst =>
      let inst := (readMap? files path).elim inst inst.attachSymbols
      let head := if p.has "symbols-only" then "" else summary path bytes.length inst
      let symbols := inst.symbols.elim "" symbolList
      let code :=
        if p.has "disassemble" && !p.has "symbols-only" then "Code:\n" ++ inst.listing else ""
      .success (head ++ symbols ++ code)

/-- The tool. -/
def run (files : Files) (args : List String) : Output :=
  match spec.parse args with
  | .error stop => .stopped spec stop
  | .ok p => perform files p

end Inspect

end SandboxVm.Cli
