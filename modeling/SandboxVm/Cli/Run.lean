/-
SandboxVm.Cli.Run — a tool that loads an image and calls its entry point.

The module sees a console host: service 1 prints a string, the shared services work, and
every other service returns zero.
-/
import SandboxVm.Cli.Output
import SandboxVm.Execution
import SandboxVm.SharedCalls

namespace SandboxVm.Cli.Run

/-- The mode with the given name. -/
def mode? : String → Option Mode
  | "interpreted" => some .interpreted
  | "compiled" => some .compiled
  | _ => none

/-- The command line. -/
def spec : CommandSpec where
  name := "qvm-run"
  summary := "Load a QVM image and call its entry point"
  description := "qvm-run - load a bytecode module and perform one call into it

The module sees a console host: system call 1 prints a string, the shared
math and memory traps (100-113) work, every other call returns 0.

Examples:
  # Call command 0 with no arguments
  qvm-run game.qvm

  # Call command 3 with two arguments, interpreted
  qvm-run game.qvm --command 3 --args 10 20 --mode interpreted

  # Print a profile after the call (needs game.map next to the image)
  qvm-run game.qvm --profile
"
  positional := ⟨"IMAGE", false, "Path to the .qvm image"⟩
  options := [
    ⟨some 'c', "command", .one, fun s => (int32? s).isSome,
      "Command number passed as the first entry argument", some "0"⟩,
    ⟨some 'a', "args", .upTo 3, fun s => (int32? s).isSome,
      "Up to three more integer arguments", none⟩,
    ⟨some 'm', "mode", .one, fun s => (mode? s).isSome, "Execution strategy", none⟩,
    ⟨none, "config", .one, fun s => s ≠ "", "JSON configuration file", none⟩,
    ⟨some 'p', "profile", .none, fun _ => false,
      "Count function calls and print a report", none⟩,
    ⟨some 'd', "debug", .none, fun _ => false, "Enable debug logging", none⟩]

/-- The console host, whose state is what was printed so far. -/
def host : Host Interface.empty String := fun printed args =>
  SharedCalls.answer printed args <|
    if args.number = 1 then
      .view fun v => .done (printed ++ (v.string? (args.int 1)).getD "") (.ok 0)
    else .done printed (.ok 0)

/-- Reads the configuration file, if one was named. -/
def readConfig (files : Files) : Option String → Option Config
  | none => some Config.default
  | some path =>
    match files path with
    | .file bytes => (Text.ofUtf8? bytes).bind Config.parse?
    | _ => none

/-- What is printed when a call has ended well. -/
def summarize (profile : Bool) (inst : Instance) (printed : String) (r : Int32) : Output :=
  let rows := if profile then inst.profileReport.1 else []
  let breaks := if 0 < inst.breakCount then Text.nat inst.breakCount ++ " breakpoints hit\n" else ""
  let report := String.join (rows.map fun row => row.text ++ "\n")
  ⟨0, printed ++ Text.signed r ++ "\n" ++ report, breaks⟩

/-- Loads an image and calls it. -/
def execute (name : String) (bytes : Bytes) (opts : LoadOptions) (command : Int32)
    (args : List Int32) : Output :=
  match Instance.load name bytes opts with
  | .error e => .failure (.load e) ""
  | .ok inst =>
    match Instance.call World.empty host stepLimit command args inst ⟨"", Tracker.empty, ()⟩ with
    | none => ⟨1, "", "Error: step limit exceeded\n"⟩
    | some out =>
      match out.reply with
      | .error e => .failure e out.context.host
      | .ok r => summarize opts.profile out.module out.context.host r

/-- Carries out a command line. -/
def perform (files : Files) (p : Parsed) : Output :=
  let image := p.positionals.headD ""
  match readConfig files (p.value? "config") with
  | none => .failure .config ""
  | some config =>
    match readImage files image with
    | .error text => .complaint text
    | .ok bytes =>
      let name := moduleName image
      let profile := p.has "profile" || config.profile
      let opts : LoadOptions :=
        { mode := ((p.value? "mode").bind mode?).getD (config.kindFor name).mode
          map := if profile || config.wantsSymbols then readMap? files image else none
          profile := profile }
      execute name bytes opts (((p.value? "command").bind int32?).getD 0)
        ((p.values "args").filterMap int32?)

/-- The tool. -/
def run (files : Files) (args : List String) : Output :=
  match spec.parse args with
  | .error stop => .stopped spec stop
  | .ok p => perform files p

end SandboxVm.Cli.Run
