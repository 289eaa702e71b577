/-
SandboxVm.Execution — calls into a bytecode module.

`run` executes steps until the outermost frame is left, a fault is recorded or the host
fails, within a given number of steps. A system call hands the instance to the host, which
may call back in; such a nested call is `call` again, with the steps that are left.
-/
import SandboxVm.Machine
import SandboxVm.Service

namespace SandboxVm

namespace Machine

variable {σ ω : Type}

/-- Ends a call with a fault at the current instruction. -/
def fail (m : Machine) (cause : FaultCause) (ctx : Context σ ω) : Outcome Instance σ ω :=
  let (fault, inst) := m.inst.recordFault cause m.cur
  ⟨.error (.fault fault), inst, ctx⟩

/-- Ends a call whose outermost frame was left. The result is the single operand that must
be on the operand stack. -/
def finish (m : Machine) (ctx : Context σ ω) : Outcome Instance σ ω :=
  match m.stack.operands with
  | [w] => ⟨.ok w.toInt32, m.inst, ctx⟩
  | _ => m.fail .opStackCorrupted ctx

/-- The failure of a call whose instance faulted while a host was running. -/
def nestedFault (inst : Instance) : Error :=
  match inst.lastFault with
  | some fault => .fault fault
  | none => .unavailable .faulted

end Machine

namespace Instance

variable {I : Interface} {σ ω : Type}

/-- Whether a call is accepted, with its packed arguments. -/
def accept (inst : Instance) (command : Int32) (args : List Int32) : Except Error CallArgs :=
  match inst.state with
  | .faulted => .error (.unavailable .faulted)
  | .unloaded => .error (.unavailable .unloaded)
  | .loaded | .ready | .running =>
    match CallArgs.pack command args with
    | .ok args => .ok args
    | .error e => .error (.bridge e)

/-- The instance while a call is active. -/
def activate (inst : Instance) : Instance :=
  { inst with state := .running, callLevel := inst.callLevel + 1 }

/-- The instance when a call has ended; `stack` is the stack pointer before the call. -/
def deactivate (inst : Instance) (stack : Int32) : Instance :=
  let level := inst.callLevel - 1
  { inst with
    callLevel := level
    programStack := stack
    state := if inst.state = .running ∧ level = 0 then .ready else inst.state }

/-- Carries out a call, given how the machine is run. -/
def callWith (run : Step → Context σ ω → Option (Outcome Instance σ ω)) : Entry Instance σ ω :=
  fun command args inst ctx =>
    match inst.accept command args with
    | .error e => some ⟨.error e, inst, ctx⟩
    | .ok args =>
      let stack := inst.programStack
      let ctx := { ctx with tracker := ctx.tracker.enter inst.name }
      match run (Machine.begin inst.activate args) ctx with
      | none => none
      | some out =>
        some { out with
          module := out.module.deactivate stack
          context := { out.context with tracker := out.context.tracker.leave } }

/-- Runs the machine from a step on, for at most `fuel` further steps. -/
def run (world : World I σ ω) (host : Host I σ) :
    (fuel : Nat) → Step → Context σ ω → Option (Outcome Instance σ ω)
  | 0, _, _ => none
  | fuel + 1, step, ctx =>
    match step with
    | .next m => run world host fuel m.step ctx
    | .done m => some (m.finish ctx)
    | .fault m cause => some (m.fail cause ctx)
    | .system ⟨inst, stack, pc, cur, ps⟩ saved =>
      match (host ctx.host (Machine.syscallArgs inst.memory ps)).run world
          (callWith (run world host fuel)) (Machine.suspend inst ps) ctx with
      | none => none
      | some ⟨reply, inst, ctx⟩ =>
        let inst := { inst with programStack := ps }
        match reply with
        | .error e => some ⟨.error e, inst, ctx⟩
        | .ok r =>
          if inst.state = .faulted then some ⟨.error (Machine.nestedFault inst), inst, ctx⟩
          else run world host fuel (Machine.resume ⟨inst, stack, pc, cur, ps⟩ saved r) ctx

/-- Calls the entry point of an instance with a command and up to three arguments. -/
def call (world : World I σ ω) (host : Host I σ) (fuel : Nat) : Entry Instance σ ω :=
  callWith (run world host fuel)

end Instance

end SandboxVm
