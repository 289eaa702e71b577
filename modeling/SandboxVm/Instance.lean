/-
SandboxVm.Instance — a loaded bytecode module.

Loading parses an image, decodes its code, builds the jump table and the data region, and
prepares the code for execution. Reloading does the same in place and changes nothing
unless the new image is accepted and has a data region and a jump table of the same size.
An instance that faulted accepts no calls until it is reloaded; one that was unloaded
accepts nothing any more.
-/
import SandboxVm.Error.Message
import SandboxVm.Image
import SandboxVm.Listing
import SandboxVm.Sandbox
import SandboxVm.Strategy
import SandboxVm.Tracker

namespace SandboxVm

/-- The stages in the life of an instance. -/
inductive State where
  /-- Segments are in place, code is not prepared. -/
  | loaded
  | ready
  /-- At least one call is active. -/
  | running
  /-- A fault was recorded. -/
  | faulted
  | unloaded
  deriving DecidableEq

namespace State

/-- The name of a state. -/
def name : State → String
  | .loaded => "loaded"
  | .ready => "ready"
  | .running => "running"
  | .faulted => "faulted"
  | .unloaded => "unloaded"

end State

/-- Settings of a single load. -/
structure LoadOptions where
  mode : Mode
  /-- Contents of the symbol file, if diagnostics are wanted. -/
  map : Option String
  profile : Bool

/-- A loaded bytecode module. -/
structure Instance where
  name : String
  header : Header
  memory : Sandbox
  /-- Present for extended images only. -/
  jumpTable : Option JumpTable
  program : Program
  strategy : Strategy
  /-- The mode asked for, which the strategy may not implement. -/
  requested : Mode
  /-- Where the next call builds its frame. -/
  programStack : Int32
  /-- The lowest permitted value of the stack pointer. -/
  stackBottom : Int32
  state : State
  /-- The number of active calls. -/
  callLevel : Nat
  map : Option String
  symbols : Option SymbolTable
  profiling : Bool
  breakCount : Nat
  lastFault : Option Fault

namespace Instance

/-- The size of the region reserved for the module's own stack. -/
def programStackSize : Int32 := 0x10000

/-- What loading derives from an image before any state is set up. -/
structure Parsed where
  image : Image
  program : Program
  jumpTable : Option JumpTable

/-- Parses an image, decodes its code and builds its jump table. -/
def parse (bytes : Bytes) : Except LoadError Parsed := do
  let image ← Image.parse bytes
  let program ← Program.decode image.code image.header.instructionCount.toNatClampNeg
  match image.header.format with
  | .legacy => .ok ⟨image, program, none⟩
  | .extended =>
    let table ← JumpTable.build image.jumpTargets program
    .ok ⟨image, program, some table⟩

/-- The size of the data region that a header asks for. -/
def dataSize (h : Header) : UInt32 := UInt32.ofNat (Sandbox.roundUp h.dataTotal)

/-- Prepares code, stack and symbols for the current program. -/
def prepare (inst : Instance) : Instance :=
  let size := Int32.ofNat inst.memory.size
  { inst with
    strategy := Strategy.prepare inst.requested inst.program inst.jumpTable
    programStack := size
    stackBottom := size - programStackSize
    symbols := inst.map.map fun text => SymbolTable.parse text inst.program
    state := .ready }

/-- Loads an image under a name. -/
def load (name : String) (bytes : Bytes) (opts : LoadOptions) : Except LoadError Instance := do
  let parsed ← parse bytes
  let inst : Instance :=
    { name := name
      header := parsed.image.header
      memory := Sandbox.ofData (dataSize parsed.image.header) parsed.image.data
      jumpTable := parsed.jumpTable
      program := parsed.program
      strategy := .interpreted
      requested := opts.mode
      programStack := 0
      stackBottom := 0
      state := .loaded
      callLevel := 0
      map := opts.map
      symbols := none
      profiling := opts.profile
      breakCount := 0
      lastFault := none }
  .ok inst.prepare

/-- Checks that a parsed image can take the place of the current one. -/
def checkReload (inst : Instance) (parsed : Parsed) : Except ReloadError Unit :=
  if (dataSize parsed.image.header).toNat ≠ inst.memory.size then .error .dataSizeMismatch
  else if inst.jumpTable.map (·.declared) ≠ parsed.jumpTable.map (·.declared) then
    .error .jumpTableMismatch
  else .ok ()

/-- Puts a parsed image in the place of the current one; the data region is used again. -/
def replace (inst : Instance) (parsed : Parsed) (map : Option String) : Instance :=
  prepare
    { inst with
      header := parsed.image.header
      memory := inst.memory.reset parsed.image.data
      jumpTable := parsed.jumpTable
      program := parsed.program
      map := map <|> inst.map
      breakCount := 0
      lastFault := none
      state := .loaded }

/-- Reloads from a new image; a symbol file replaces the previous one when given. The instance
is changed in place, so a failure behind a change would leave the change behind. -/
def reloadInPlace (bytes : Bytes) (map : Option String) : EStateM Error Instance Unit := do
  let inst ← get
  if inst.state = .unloaded then throw (.unavailable .unloaded)
  else if 0 < inst.callLevel then throw (.reload .callActive)
  else
    match parse bytes with
    | .error e => throw (.load e)
    | .ok parsed =>
      match inst.checkReload parsed with
      | .error e => throw (.reload e)
      | .ok () => modify fun inst => inst.replace parsed map

/-- The instance after a reload that succeeds. -/
def reload (inst : Instance) (bytes : Bytes) (map : Option String) : Except Error Instance :=
  match (reloadInPlace bytes map).run inst with
  | .ok _ inst => .ok inst
  | .error e _ => .error e

/-- An instance without anything that a module occupies. -/
def released (inst : Instance) : Instance :=
  { inst with
    memory := Sandbox.zeroed 4
    jumpTable := none
    program := Program.empty
    strategy := .interpreted
    symbols := none
    map := none
    state := .unloaded }

/-- Releases everything that the module occupied, and makes the tracker forget its name. Both are
changed in place. -/
def unloadInPlace : EStateM Error (Instance × Tracker) Unit := do
  let (inst, _) ← get
  if 0 < inst.callLevel then throw (.unavailable .busy)
  else modify fun (inst, tracker) => (inst.released, tracker.forget inst.name)

/-- The instance and the tracker after an unload that succeeds. -/
def unload (inst : Instance) (tracker : Tracker) : Except Error (Instance × Tracker) :=
  match unloadInPlace.run (inst, tracker) with
  | .ok _ state => .ok state
  | .error e _ => .error e

theorem run_unloadInPlace (inst : Instance) (tracker : Tracker) :
    unloadInPlace.run (inst, tracker) =
      if 0 < inst.callLevel then .error (.unavailable .busy) (inst, tracker)
      else .ok () (inst.released, tracker.forget inst.name) := by
  by_cases h : 0 < inst.callLevel
  · rw [if_pos h]
    exact congrFun (if_pos h) _
  · rw [if_neg h]
    exact congrFun (if_neg h) _

theorem unload_eq (inst : Instance) (tracker : Tracker) :
    inst.unload tracker =
      if 0 < inst.callLevel then .error (.unavailable .busy)
      else .ok (inst.released, tracker.forget inst.name) := by
  rw [unload, run_unloadInPlace]
  by_cases h : 0 < inst.callLevel
  · simp only [if_pos h]
  · simp only [if_neg h]

/-- Loads symbols later. -/
def attachSymbols (inst : Instance) (map : String) : Instance :=
  { inst with symbols := some (SymbolTable.parse map inst.program), map := some map }

/-- Switches the counting of function entries. -/
def setProfiling (inst : Instance) (on : Bool) : Instance := { inst with profiling := on }

/-- The profile since the last report; empty without symbols. -/
def profileReport (inst : Instance) : List ProfileRow × Instance :=
  match inst.symbols with
  | none => ([], inst)
  | some t => (t.report.1, { inst with symbols := some t.report.2 })

/-- The symbol at or before an offset. -/
def lookupSymbol? (inst : Instance) (offset : UInt32) : Option String :=
  inst.symbols.bind fun t => t.lookup? offset

/-- The data region; none once unloaded. -/
def region? (inst : Instance) : Option Sandbox :=
  if inst.state = .unloaded then none else some inst.memory

/-- Changes the data region; nothing happens once unloaded. -/
def edit (inst : Instance) (e : Sandbox.Edit) : Instance :=
  if inst.state = .unloaded then inst else { inst with memory := inst.memory.edit e }

/-- Records a fault at an instruction. -/
def recordFault (inst : Instance) (cause : FaultCause) (instruction : Nat) : Fault × Instance :=
  let offset := inst.program.offsetOf instruction
  let fault : Fault :=
    { cause := cause
      module := inst.name
      offset := offset
      instruction := UInt32.ofNat instruction
      symbol := inst.lookupSymbol? offset }
  (fault, { inst with state := .faulted, lastFault := some fault })

/-- What a host can do with an instance that it holds, apart from calling it. -/
inductive Operation where
  | reload (bytes : Bytes) (map : Option String)
  | unload
  | attachSymbols (map : String)
  | setProfiling (on : Bool)
  | profileReport
  | edit (e : Sandbox.Edit)

/-- What each operation is answered with; an edit says whether it was possible. -/
def Operation.Answer : Operation → Type
  | .reload _ _ => Except Error Unit
  | .unload => Except Error Unit
  | .attachSymbols _ => Unit
  | .setProfiling _ => Unit
  | .profileReport => List ProfileRow
  | .edit _ => Bool

/-- Carries out an operation. -/
def operate (inst : Instance) (tracker : Tracker) :
    (op : Operation) → op.Answer × Instance × Tracker
  | .reload bytes map =>
    match (reloadInPlace bytes map).run inst with
    | .ok _ inst => (.ok (), inst, tracker)
    | .error e inst => (.error e, inst, tracker)
  | .unload =>
    match unloadInPlace.run (inst, tracker) with
    | .ok _ (inst, tracker) => (.ok (), inst, tracker)
    | .error e (inst, tracker) => (.error e, inst, tracker)
  | .attachSymbols map => ((), inst.attachSymbols map, tracker)
  | .setProfiling on => ((), inst.setProfiling on, tracker)
  | .profileReport => (inst.profileReport.1, inst.profileReport.2, tracker)
  | .edit e => (inst.region?.elim false fun s => s.accepts e, inst.edit e, tracker)

/-- An unload that fails changes nothing. -/
theorem operate_unload (inst : Instance) (tracker : Tracker) :
    inst.operate tracker .unload =
      match inst.unload tracker with
      | .ok (inst, tracker) => (.ok (), inst, tracker)
      | .error e => (.error e, inst, tracker) := by
  rw [operate, unload_eq, run_unloadInPlace]
  by_cases h : 0 < inst.callLevel
  · simp only [if_pos h]
  · simp only [if_neg h]

/-- The listing of the current program. -/
def listing (inst : Instance) : String :=
  Listing.render inst.program inst.symbols inst.jumpTable

end Instance

/-! ## Summaries -/

/-- What a status listing shows of a module. -/
structure Info where
  name : String
  kind : Kind
  state : State
  instructions : Nat
  codeLength : Nat
  jumpTargets : Nat
  dataLength : Nat
  deriving DecidableEq

/-- The summary of a module as text; a native module has no lengths to show. -/
def Info.text (i : Info) : String :=
  let title := i.name ++ " : " ++ i.kind.name ++ " (" ++ i.state.name ++ ")\n"
  if i.kind = .native then title
  else
    title ++ "    code length : " ++ Text.right 7 (Text.nat i.codeLength) ++
      "\n    table length: " ++ Text.right 7 (Text.nat (4 * i.jumpTargets)) ++
      "\n    data length : " ++ Text.right 7 (Text.nat i.dataLength)

/-- The summary of an instance. -/
def Instance.info (inst : Instance) : Info where
  name := inst.name
  kind := Kind.ofMode inst.strategy.mode
  state := inst.state
  instructions := inst.program.size
  codeLength := inst.program.codeLength.toNat
  jumpTargets := inst.jumpTable.elim 0 (·.declared)
  dataLength := inst.memory.size

/-- One-line description for diagnostics. -/
def Instance.inspect (inst : Instance) : String :=
  "Instance \x7b name: " ++ Text.quoted inst.name ++ ", state: " ++ inst.state.name.capitalize ++
    ", mode: " ++ inst.strategy.mode.name.capitalize ++ ", memory: " ++ inst.memory.inspect ++
    " \x7d"

end SandboxVm
