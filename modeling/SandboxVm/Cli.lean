/-
SandboxVm.Cli — the command-line tools.

A tool is a function from its arguments and the files around it to an exit code and two
texts. The paths that a tool may read are known from its arguments alone.
-/
import SandboxVm.Cli.Demo
import SandboxVm.Cli.Run
import SandboxVm.Cli.Validate

namespace SandboxVm.Cli

/-- The tools. -/
inductive Tool where
  /-- Calls a module. -/
  | run
  /-- Shows an image. -/
  | inspect
  /-- Checks images. -/
  | validate
  /-- Plays a demonstration. -/
  | demo

namespace Tool

/-- The tool with the given name. -/
def ofName? : String → Option Tool
  | "qvm-run" => some .run
  | "qvm-inspect" => some .inspect
  | "qvm-validate" => some .validate
  | "qvm-example-host" => some .demo
  | _ => none

/-- The paths that a tool may read. -/
def paths (tool : Tool) (args : List String) : List String :=
  let read (spec : CommandSpec) : List String :=
    match spec.parse args with
    | .ok p => p.positionals ++ p.positionals.map mapPath ++ p.values "config"
    | .error _ => []
  match tool with
  | .run => read Run.spec
  | .inspect => read Inspect.spec
  | .validate => read Validate.spec
  | .demo => []

/-- Carries out a tool. -/
def execute (tool : Tool) (files : Files) (args : List String) : Output :=
  match tool with
  | .run => Run.run files args
  | .inspect => Inspect.run files args
  | .validate => Validate.run files args
  | .demo => Demo.run

end Tool

end SandboxVm.Cli
