/-
SandboxVm.Cli.Demo — a small host and a module made for it.

The module prints a greeting, adds two numbers with the help of the host, and adds them
once more through a nested call that the host makes.
-/
import SandboxVm.Assembly
import SandboxVm.Cli.Output
import SandboxVm.Manager
import SandboxVm.SharedCalls

namespace SandboxVm.Cli.Demo

/-- The frame of the module's entry point. -/
def frame : Int32 := 24

/-- Where the greeting stands in the data region. -/
def greetingPtr : Nat := 4

/-- The code of the module: command 0 greets, 1 adds, 2 adds by a nested call and adds one. -/
def assembly : Assembly :=
  let dispatch (a : Assembly) (command : Int32) (label : String) : Assembly :=
    ((a.param frame 0).const command).opLabel (.branch .eq) label
  let pass (a : Assembly) : Assembly :=
    ((((a.param frame 1).opImm .arg 8).param frame 2).opImm .arg 12)
  let a := Assembly.empty.opImm .enter frame
  let a := dispatch (dispatch (dispatch a 0 "print") 1 "add") 2 "nested"
  let a := (a.const (-1)).opImm .leave frame
  let a := a.place "print"
  let a := (((a.const (Int32.ofNat greetingPtr)).opImm .arg 8).syscall 1).opImm .leave frame
  let a := a.place "add"
  let a := ((pass a).syscall 2).opImm .leave frame
  let a := a.place "nested"
  ((((pass a).syscall 3).const 1).op (.binary .add)).opImm .leave frame

/-- The image of the module. -/
def image : Except AssemblyError Bytes := do
  let code ← assembly.finish
  let data := List.replicate greetingPtr 0 ++ Text.toUtf8 "hello from bytecode\n" ++ [0]
  .ok (Layout.build ⟨.extended, code, data, [], 64⟩)

/-- The state of the host: how many services it was asked for, and what was printed. -/
structure HostState where
  calls : Nat
  printed : String

/-- Prints a text. -/
def HostState.print (s : HostState) (text : String) : HostState :=
  { s with printed := s.printed ++ text }

/-- The host. -/
def host : Host Manager.interface HostState := fun s args =>
  let s := { s with calls := s.calls + 1 }
  let a := args.int 1
  let b := args.int 2
  SharedCalls.answer s args <|
    match args.number.toInt with
    | 1 => .view fun v => .done (s.print ("  [Host Print] " ++ (v.string? a).getD "")) (.ok 0)
    | 2 =>
      let line := "  [Host Add] " ++ Text.signed a ++ " + " ++ Text.signed b ++ " = " ++
        Text.signed (a + b) ++ "\n"
      .done (s.print line) (.ok (a + b))
    | 3 => .view fun v =>
      let line := "  [Host] calling back into " ++ v.name ++ " at level " ++
        Text.nat v.callLevel ++ "\n"
      .enter (s.print line) 1 [a, b] fun s reply => .done s reply
    | _ => .done s (.ok 0)

/-- What the demo is doing: the state of the host, the tracker and the manager. -/
abbrev Stage := Context HostState Manager

/-- Makes a request of the manager. -/
def ask (ctx : Stage) (q : Manager.Request) : Except Error (Manager.Answer q × Stage) :=
  match Manager.perform host stepLimit q ctx with
  | none => .error (.unavailable (.custom "step limit exceeded"))
  | some answer => .ok answer

/-- Calls the module and prints what it returned behind a title. -/
def callAndPrint (title : String) (command : Int32) (args : List Int32) (ctx : Stage) :
    Except Error Stage := do
  let (reply, ctx) ← ask ctx (.call "demo" command args)
  let r ← (reply : Reply)
  .ok { ctx with host := ctx.host.print (title ++ " -> " ++ Text.signed r ++ "\n") }

/-- The whole demo. -/
def play (ctx : Stage) : Except Error Stage := do
  let (created, ctx) ← ask ctx (.create "demo")
  let _ ← (created : Except Error Handle)
  let ctx ← callAndPrint "print" 0 [] ctx
  let ctx ← callAndPrint "add(3, 4)" 1 [3, 4] ctx
  let ctx ← callAndPrint "nested(3, 4)" 2 [3, 4] ctx
  let (restarted, ctx) ← ask ctx (.restart "demo")
  (restarted : Except Error Unit)
  let ctx ← callAndPrint "after restart, add(20, 22)" 1 [20, 22] ctx
  let host := (ctx.host.print ctx.world.report).print
    ("Total system calls: " ++ Text.nat ctx.host.calls ++ "\n")
  .ok { ctx with host := host.print ("Last vm: " ++ ctx.tracker.last.getD "none" ++ "\n") }

/-- The tool. -/
def run : Output :=
  match image with
  | .error e => .complaint e.message
  | .ok bytes =>
    let source := (MemorySource.empty.insert "demo" bytes).toSource
    let manager := Manager.start Config.default source fun _ => none
    match play ⟨⟨0, ""⟩, Tracker.empty, manager⟩ with
    | .error e => .failure e ""
    | .ok ctx => .success ctx.host.printed

end SandboxVm.Cli.Demo
