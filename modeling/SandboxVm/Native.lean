/-
SandboxVm.Native — modules that are part of the host.

A native module answers a call by a task: it can look at itself, make system calls of the
host directly, and call itself again. It has no data region, so pointers mean nothing to
the host services that it calls.
-/
import SandboxVm.Service

namespace SandboxVm

/-- The answer of a native module to one call, in the making. -/
inductive Task where
  | done (reply : Reply)
  /-- Looks at the module itself. -/
  | view (k : View → Task)
  /-- Calls a host service. -/
  | system (args : SyscallArgs) (k : Reply → Task)
  /-- Calls the module itself. -/
  | enter (command : Int32) (args : List Int32) (k : Reply → Task)

/-- The entry point of a native module. -/
abbrev NativeModule := CallArgs → Task

/-- A native module in use. -/
structure NativeInstance where
  name : String
  module : NativeModule
  /-- The number of active calls. -/
  callLevel : Nat

namespace NativeInstance

variable {I : Interface} {σ ω : Type}

/-- A native module without active calls. -/
def load (name : String) (module : NativeModule) : NativeInstance := ⟨name, module, 0⟩

/-- The summary of a native module, which has no code or data to measure. -/
def info (n : NativeInstance) : Info := ⟨n.name, .native, .ready, 0, 0, 0, 0⟩

instance : Hosted NativeInstance where
  view n := ⟨n.name, n.callLevel, none⟩
  edit _ n := n

/-- Carries out a task, given how nested calls and system calls are carried out. -/
def perform (enter : Entry NativeInstance σ ω)
    (system : SyscallArgs → NativeInstance → Context σ ω → Option (Outcome NativeInstance σ ω)) :
    Task → NativeInstance → Context σ ω → Option (Outcome NativeInstance σ ω)
  | .done reply, n, ctx => some ⟨reply, n, ctx⟩
  | .view k, n, ctx => perform enter system (k (Hosted.view n)) n ctx
  | .system args k, n, ctx =>
    match system args n ctx with
    | none => none
    | some out => perform enter system (k out.reply) out.module out.context
  | .enter command args k, n, ctx =>
    match enter command args n ctx with
    | none => none
    | some out => perform enter system (k out.reply) out.module out.context

/-- Calls a native module; `fuel` bounds the depth of nested calls. -/
def call (world : World I σ ω) (host : Host I σ) : (fuel : Nat) → Entry NativeInstance σ ω
  | 0, _, _, _, _ => none
  | fuel + 1, command, args, n, ctx =>
    match CallArgs.pack command args with
    | .error e => some ⟨.error (.bridge e), n, ctx⟩
    | .ok args =>
      let enter := call world host fuel
      let system := fun args n (ctx : Context σ ω) => (host ctx.host args).run world enter n ctx
      match perform enter system (n.module args) { n with callLevel := n.callLevel + 1 }
          { ctx with tracker := ctx.tracker.enter n.name } with
      | none => none
      | some out =>
        some { out with
          module := { out.module with callLevel := out.module.callLevel - 1 }
          context := { out.context with tracker := out.context.tracker.leave } }

end NativeInstance

end SandboxVm
