/-
SandboxVm.Manager — several modules under one roof.

A manager loads modules by name, up to a limit, and hands out handles to them. Every
module lives in a slot; while a call into it is active the module is lent out of its slot,
and whoever asks for it meanwhile finds it busy. Hosts can make requests of the manager in
the middle of a call, so the requests are an interface, and `perform` answers them.
-/
import SandboxVm.Execution
import SandboxVm.Native
import SandboxVm.Source

namespace SandboxVm

/-- A module loaded under some name. -/
inductive Loaded where
  | bytecode (inst : Instance)
  | native (n : NativeInstance)

namespace Loaded

/-- The name that the module was loaded under. -/
def name : Loaded → String
  | .bytecode inst => inst.name
  | .native n => n.name

/-- The summary of the module. -/
def info : Loaded → Info
  | .bytecode inst => inst.info
  | .native n => n.info

/-- How the module is run. -/
def kind (m : Loaded) : Kind := m.info.kind

/-- The instance of a bytecode module. -/
def bytecode? : Loaded → Option Instance
  | .bytecode inst => some inst
  | .native _ => none

variable {I : Interface} {σ ω : Type}

/-- Calls a module. -/
def call (world : World I σ ω) (host : Host I σ) (fuel : Nat) : Entry Loaded σ ω :=
  fun command args m ctx =>
    match m with
    | .bytecode inst =>
      (Instance.call world host fuel command args inst ctx).map
        fun out => ⟨out.reply, .bytecode out.module, out.context⟩
    | .native n =>
      (NativeInstance.call world host fuel command args n ctx).map
        fun out => ⟨out.reply, .native out.module, out.context⟩

end Loaded

/-- The number of a slot; a handle stays valid when the module is no longer registered. -/
abbrev Handle := Nat

/-- The loaded modules and how new ones are loaded. -/
structure Manager where
  config : Config
  source : ImageSource
  /-- The native modules that the host offers. -/
  natives : String → Option NativeModule
  /-- The registered names and their handles, in the order of registration. -/
  registry : List (String × Handle)
  /-- The modules; an empty slot means that a call into its module is active. -/
  slots : Array (Option Loaded)

namespace Manager

/-- A manager without modules. -/
def start (config : Config) (source : ImageSource) (natives : String → Option NativeModule) :
    Manager :=
  ⟨config, source, natives, [], #[]⟩

/-- The handle registered under a name. -/
def find? (m : Manager) (name : String) : Option Handle := m.registry.lookup name

/-- The module with the given handle, unless a call into it is active. -/
def module? (m : Manager) (h : Handle) : Option Loaded := m.slots[h]?.join

/-- Puts a module into a slot. -/
def setModule (m : Manager) (h : Handle) (module : Option Loaded) : Manager :=
  { m with slots := m.slots.setIfInBounds h module }

/-- The symbol file for a module, when symbols are wanted at all. -/
def mapFor (m : Manager) (name : String) : Option String :=
  if m.config.wantsSymbols then m.source.symbolMap name else none

/-! ## Loading -/

/-- Loads the first image that is accepted; the failure is that of the last image. -/
def loadFirst (name : String) (opts : LoadOptions) :
    (last : LoadError) → List Bytes → Except LoadError Instance
  | last, [] => .error last
  | _, bytes :: rest =>
    match Instance.load name bytes opts with
    | .ok inst => .ok inst
    | .error e => loadFirst name opts e rest

/-- Loads a module for a name: a native one where the configuration asks for it and there is
one, and bytecode otherwise. -/
def loadModule (m : Manager) (name : String) : Except LoadError Loaded :=
  let kind := m.config.kindFor name
  let bytecode := do
    let opts : LoadOptions := ⟨kind.mode, m.mapFor name, m.config.profile⟩
    let inst ← loadFirst name opts .moduleNotFound (m.source.images name)
    .ok (.bytecode inst)
  match kind with
  | .native =>
    match m.natives name with
    | some module => .ok (.native (NativeInstance.load name module))
    | none => bytecode
  | .interpreted | .compiled => bytecode

/-- The handle of the module with the given name, which is loaded first if needed. -/
def create (m : Manager) (name : String) : Except Error (Handle × Manager) :=
  match m.find? name with
  | some h => .ok (h, m)
  | none =>
    if m.registry.length ≥ m.config.maxInstances then .error (.load .tooManyModules)
    else
      match m.loadModule name with
      | .error e => .error (.load e)
      | .ok module =>
        let h := m.slots.size
        .ok (h, { m with
          registry := m.registry ++ [(name, h)]
          slots := m.slots.push (some module) })

/-! ## Restarting and unloading -/

/-- Reloads an instance in place from the first image that can be loaded; any other failure ends
the search. -/
def reloadFirstInPlace (map : Option String) :
    (last : LoadError) → List Bytes → EStateM Error Instance Unit
  | last, [] => throw (.load last)
  | _, bytes :: rest =>
    try Instance.reloadInPlace bytes map
    catch
      | .load e => reloadFirstInPlace map e rest
      | e => throw e

/-- The instance after a search that succeeds. -/
def reloadFirst (inst : Instance) (map : Option String) (last : LoadError)
    (images : List Bytes) : Except Error Instance :=
  match (reloadFirstInPlace map last images).run inst with
  | .ok _ inst => .ok inst
  | .error e _ => .error e

/-- The registered module with the given name, when no call into it is active. -/
def idle (m : Manager) (name : String) : Except Error (Handle × Loaded) :=
  match m.find? name with
  | none => .error (.unavailable .unknownModule)
  | some h =>
    match m.module? h with
    | none => .error (.unavailable .busy)
    | some module => .ok (h, module)

/-- Restarts a module: bytecode is reloaded in place, a native module is made anew. An instance
that fails to be reloaded stays in its slot as the failure leaves it. -/
def restartInPlace (name : String) : EStateM Error Manager Unit := do
  let m ← get
  match m.idle name with
  | .error e => throw e
  | .ok (h, .bytecode inst) =>
    match (reloadFirstInPlace (m.mapFor name) .moduleNotFound (m.source.images name)).run inst with
    | .ok _ inst => modify (·.setModule h (some (.bytecode inst)))
    | .error e inst =>
      modify (·.setModule h (some (.bytecode inst)))
      throw e
  | .ok (h, .native _) =>
    match m.natives name with
    | some module => modify (·.setModule h (some (.native (NativeInstance.load name module))))
    | none => throw (.reload .restartFailed)

/-- The manager after a restart that succeeds. -/
def restart (m : Manager) (name : String) : Except Error Manager :=
  match (restartInPlace name).run m with
  | .ok _ m => .ok m
  | .error e _ => .error e

/-- Unloads a module and then takes its name off the registry. An instance that fails to be unloaded
stays in its slot as the failure leaves it. -/
def unloadInPlace (name : String) : EStateM Error (Manager × Tracker) Unit := do
  let (m, tracker) ← get
  match m.idle name with
  | .error e => throw e
  | .ok (h, .bytecode inst) =>
    match Instance.unloadInPlace.run (inst, tracker) with
    | .ok _ (inst, tracker) => set (m.setModule h (some (.bytecode inst)), tracker)
    | .error e (inst, tracker) =>
      set (m.setModule h (some (.bytecode inst)), tracker)
      throw e
  | .ok (_, .native n) => set (m, tracker.forget n.name)
  modify fun (m, tracker) => ({ m with registry := m.registry.filter (·.1 ≠ name) }, tracker)

/-- The manager and the tracker after an unload that succeeds. -/
def unload (m : Manager) (tracker : Tracker) (name : String) : Except Error (Manager × Tracker) :=
  match (unloadInPlace name).run (m, tracker) with
  | .ok _ state => .ok state
  | .error e _ => .error e

/-- Unloads every module into which no call is active. Whether an unload fails does not matter. -/
def clear (m : Manager) (tracker : Tracker) : Manager × Tracker :=
  (m.registry.map (·.1)).foldl
    (fun state name =>
      match (unloadInPlace name).run state with
      | .ok _ state => state
      | .error _ state => state)
    (m, tracker)

/-! ## Summaries -/

/-- The summaries of all registered modules into which no call is active. -/
def info (m : Manager) : List Info :=
  m.registry.filterMap fun (_, h) => (m.module? h).map Loaded.info

/-- A listing of all registered modules, one block each. -/
def report (m : Manager) : String :=
  let block := fun (name, h) =>
    match m.module? h with
    | some module => module.info.text ++ "\n"
    | none => name ++ " : busy\n"
  "Registered virtual machines:\n" ++ String.join (m.registry.map block)

/-! ## Requests -/

/-- What can be asked of a manager. -/
inductive Request where
  | create (name : String)
  | call (name : String) (command : Int32) (args : List Int32)
  | restart (name : String)
  | unload (name : String)
  | clear
  /-- Calls the module of a handle directly. -/
  | callHandle (h : Handle) (command : Int32) (args : List Int32)
  /-- Carries out an operation on the instance of a handle directly. -/
  | operate (h : Handle) (op : Instance.Operation)
  /-- Looks at the manager and at the active calls. -/
  | look
  /-- Changes where images come from. -/
  | setSource (source : ImageSource)
  /-- Changes which native modules there are. -/
  | setNatives (natives : String → Option NativeModule)

/-- What each request is answered with. -/
def Answer : Request → Type
  | .create _ => Except Error Handle
  | .call _ _ _ => Reply
  | .restart _ => Except Error Unit
  | .unload _ => Except Error Unit
  | .clear => Unit
  | .callHandle _ _ _ => Option Reply
  | .operate _ op => Option op.Answer
  | .look => Manager × Tracker
  | .setSource _ => Unit
  | .setNatives _ => Unit

/-- The requests that hosts can make of a manager. -/
def interface : Interface := ⟨Request, Answer⟩

variable {σ : Type}

/-- Calls the module of a handle, which is lent out of its slot meanwhile; `none` as reply
means that a call into it is active already. -/
def callSlot (entry : Entry Loaded σ Manager) (h : Handle) (command : Int32) (args : List Int32)
    (ctx : Context σ Manager) : Option (Option Reply × Context σ Manager) :=
  match ctx.world.module? h with
  | none => some (none, ctx)
  | some module =>
    match entry command args module { ctx with world := ctx.world.setModule h none } with
    | none => none
    | some out =>
      some (some out.reply,
        { out.context with world := out.context.world.setModule h (some out.module) })

/-- Carries out an operation on the instance of a handle; `none` as answer means that there is
none, or that a call into it is active. -/
def operateSlot (h : Handle) (op : Instance.Operation) (ctx : Context σ Manager) :
    Option op.Answer × Context σ Manager :=
  match ctx.world.module? h with
  | some (.bytecode inst) =>
    let (answer, inst, tracker) := inst.operate ctx.tracker op
    (some answer,
      { ctx with world := ctx.world.setModule h (some (.bytecode inst)), tracker := tracker })
  | _ => (none, ctx)

/-- Answers a request; `fuel` bounds the work of the calls that it leads to. -/
def perform (host : Host interface σ) : (fuel : Nat) → World interface σ Manager
  | 0, _, _ => none
  | fuel + 1, q, ctx =>
    let entry := Loaded.call (perform host fuel) host fuel
    match q with
    | .create name =>
      match ctx.world.create name with
      | .ok (h, m) => some (.ok h, { ctx with world := m })
      | .error e => some (.error e, ctx)
    | .call name command args =>
      match ctx.world.find? name with
      | none => some (.error (.unavailable .unknownModule), ctx)
      | some h =>
        match callSlot entry h command args ctx with
        | none => none
        | some (reply, ctx) => some (reply.getD (.error (.unavailable .busy)), ctx)
    | .restart name =>
      match (restartInPlace name).run ctx.world with
      | .ok _ m => some (.ok (), { ctx with world := m })
      | .error e m => some (.error e, { ctx with world := m })
    | .unload name =>
      match (unloadInPlace name).run (ctx.world, ctx.tracker) with
      | .ok _ (m, tracker) => some (.ok (), { ctx with world := m, tracker := tracker })
      | .error e (m, tracker) => some (.error e, { ctx with world := m, tracker := tracker })
    | .clear =>
      let (m, tracker) := ctx.world.clear ctx.tracker
      some ((), { ctx with world := m, tracker := tracker })
    | .callHandle h command args => callSlot entry h command args ctx
    | .operate h op => some (operateSlot h op ctx)
    | .look => some ((ctx.world, ctx.tracker), ctx)
    | .setSource source => some ((), { ctx with world := { ctx.world with source := source } })
    | .setNatives natives => some ((), { ctx with world := { ctx.world with natives := natives } })

end Manager

end SandboxVm
