/-
SandboxVm.Cli.Output — what a tool leaves behind, and what the tools share.
-/
import SandboxVm.Folder
import SandboxVm.Cli.Options
import SandboxVm.Error.Message
import SandboxVm.Text.Utf8

namespace SandboxVm.Cli

/-- The exit code of a tool and what it printed. -/
structure Output where
  code : Nat
  stdout : String
  stderr : String

namespace Output

/-- Success with some output. -/
def success (stdout : String) : Output := ⟨0, stdout, ""⟩

/-- A failure of this library, after some output. -/
def failure (e : Error) (stdout : String) : Output :=
  match e with
  | .config => ⟨1, stdout, "Error: Config"⟩
  | e => ⟨1, stdout, "Error: " ++ e.inspect ++ "\n"⟩

/-- A failure described by a sentence. -/
def complaint (text : String) : Output := ⟨1, "", "Error: " ++ Text.quoted text ++ "\n"⟩

/-- A command line that was not carried out. -/
def stopped (c : CommandSpec) : Stop → Output
  | .usage => ⟨2, "", "error: invalid command line\n\nUsage: " ++ c.name ++ " [OPTIONS] " ++
      c.positionalTitle ++ "\n\nFor more information, try '--help'.\n"⟩
  | .help long => success (c.helpText long)

end Output

/-- Reads an image. -/
def readImage (files : Files) (path : String) : Except String Bytes :=
  match (files path).contents with
  | .ok bytes => .ok bytes
  | .error reason => .error ("Failed to read " ++ path ++ ": " ++ reason)

/-- The path of the symbol file that belongs to an image. -/
def mapPath (path : String) : String := Path.withExtension path "map"

/-- Reads the symbol file that belongs to an image, if there is one. -/
def readMap? (files : Files) (path : String) : Option String :=
  match files (mapPath path) with
  | .file bytes => Text.ofUtf8? bytes
  | _ => none

/-- The name of a module that is loaded from a path. -/
def moduleName (path : String) : String := (Path.stem? path).getD "vm"

/-- The number of steps that a tool allows a module. -/
def stepLimit : Nat := 4611686018427387904

end SandboxVm.Cli
