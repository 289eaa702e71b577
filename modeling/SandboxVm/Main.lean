/-
SandboxVm.Main — the entry point of the program.

The first argument names the tool, the others are its arguments. Files are read before the
tool runs and texts are printed afterwards; everything in between is pure.
-/
import SandboxVm.Cli

namespace SandboxVm.Cli

/-- The number of a system error, which some operations report negated. -/
def errorNumber (code : UInt32) : UInt32 := if code < 0x80000000 then code else -code

/-- What is found at a path of the file system. -/
def readFound (path : String) : IO Found := do
  try
    let bytes ← IO.FS.readBinFile path
    return .file bytes.data.toList
  catch
    | .inappropriateType _ code _ =>
      return if errorNumber code = 20 then .notFolder else .folder
    | .invalidArgument _ code _ =>
      return if errorNumber code = 36 then .nameTooLong else .missing
    | _ => return .missing

/-- Runs a tool with the files that it may read, and prints what it leaves behind. -/
def Tool.runWithFiles (tool : Tool) (args : List String) : IO UInt32 := do
  let found ← (tool.paths args).mapM fun path => do return (path, ← readFound path)
  let files : Files := fun path => (found.lookup path).getD .missing
  let out := tool.execute files args
  IO.print out.stdout
  IO.eprint out.stderr
  return UInt32.ofNat out.code

end SandboxVm.Cli

/-- Runs the tool that the first argument names. -/
def main (args : List String) : IO UInt32 := do
  match args.head?.bind SandboxVm.Cli.Tool.ofName? with
  | some tool => tool.runWithFiles args.tail
  | none =>
    IO.eprintln "Usage: <qvm-run|qvm-inspect|qvm-validate|qvm-example-host> [ARGS]..."
    return 2
