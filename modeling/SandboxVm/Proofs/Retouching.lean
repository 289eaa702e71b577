/-
SandboxVm.Proofs.Retouching — changes of an instance that a call does not notice.

Much of an instance is not looked at while instructions are executed: how they are prepared, what
they are called in a symbol file, which fault was the last one. A change to such fields can be made
before an instruction or after it, with the same result. This is proved once, for any change that
leaves alone what a call looks at and does not mind what a call writes. Two instructions need a
second look, because they do look further: a function entry is counted with the symbols, and a
jump asks the jump table. For these the change has to be known better, and says so itself.

  §1  `Instance.Unnoticed`: the changes, and what calls do with a changed instance;
  §2  `Machine.execute_mapInst`: instructions;
  §3  `Moment.next_mapInst`: moments in the course of a call, for changes that leave faults alone.
-/
import SandboxVm.Proofs.Steps

namespace SandboxVm

/-! ## §1 Instances -/

/-- A change of an instance that leaves alone what a call looks at, jumps and function entries
apart, and that can be made before or after what a call writes, faults apart. -/
structure Instance.Unnoticed (φ : Instance → Instance) : Prop where
  name : ∀ i, (φ i).name = i.name
  memory : ∀ i, (φ i).memory = i.memory
  program : ∀ i, (φ i).program = i.program
  programStack : ∀ i, (φ i).programStack = i.programStack
  stackBottom : ∀ i, (φ i).stackBottom = i.stackBottom
  state : ∀ i, (φ i).state = i.state
  callLevel : ∀ i, (φ i).callLevel = i.callLevel
  breakCount : ∀ i, (φ i).breakCount = i.breakCount
  puts : ∀ i memory breakCount state callLevel programStack,
    φ { i with
      memory := memory, breakCount := breakCount, state := state, callLevel := callLevel
      programStack := programStack } =
    { φ i with
      memory := memory, breakCount := breakCount, state := state, callLevel := callLevel
      programStack := programStack }

namespace Instance.Unnoticed

variable {φ : Instance → Instance} (hφ : Unnoticed φ) (i : Instance)

include hφ

theorem withMemory (s : Sandbox) : { φ i with memory := s } = φ { i with memory := s } := by
  refine Eq.trans ?_ (hφ.puts i s i.breakCount i.state i.callLevel i.programStack).symm
  simp only [hφ.breakCount, hφ.state, hφ.callLevel, hφ.programStack]

theorem withBreakCount (n : Nat) :
    { φ i with breakCount := n } = φ { i with breakCount := n } := by
  refine Eq.trans ?_ (hφ.puts i i.memory n i.state i.callLevel i.programStack).symm
  simp only [hφ.memory, hφ.state, hφ.callLevel, hφ.programStack]

theorem withStack (ps : Int32) :
    { φ i with programStack := ps } = φ { i with programStack := ps } := by
  refine Eq.trans ?_ (hφ.puts i i.memory i.breakCount i.state i.callLevel ps).symm
  simp only [hφ.memory, hφ.breakCount, hφ.state, hφ.callLevel]

theorem suspend (ps : Int32) : Machine.suspend (φ i) ps = φ (Machine.suspend i ps) :=
  hφ.withStack i (ps - 4)

theorem accept (command : Int32) (args : List Int32) :
    (φ i).accept command args = i.accept command args := by
  rw [Instance.accept, hφ.state, Instance.accept]

theorem activate : (φ i).activate = φ i.activate := by
  refine Eq.trans ?_ (hφ.puts i i.memory i.breakCount .running _ i.programStack).symm
  simp only [Instance.activate, hφ.memory, hφ.breakCount, hφ.callLevel, hφ.programStack]

theorem deactivate (stack : Int32) : (φ i).deactivate stack = φ (i.deactivate stack) := by
  refine Eq.trans ?_ (hφ.puts i i.memory i.breakCount _ _ stack).symm
  simp only [Instance.deactivate, hφ.memory, hφ.breakCount, hφ.state, hφ.callLevel]

theorem edit (e : Sandbox.Edit) : (φ i).edit e = φ (i.edit e) := by
  have hmemory : { φ i with memory := (φ i).memory.edit e } =
      φ { i with memory := i.memory.edit e } := by
    rw [hφ.memory]
    exact hφ.withMemory i _
  unfold Instance.edit
  rw [apply_ite φ, ← hmemory]
  simp only [hφ.state]

theorem view : (Hosted.view (φ i)) = Hosted.view i := by
  simp only [Hosted.view, Instance.region?, hφ.name, hφ.callLevel, hφ.state, hφ.memory]

end Instance.Unnoticed

/-! ## §2 Instructions -/

/-- The machine of a changed instance. -/
def Machine.mapInst (φ : Instance → Instance) (m : Machine) : Machine := { m with inst := φ m.inst }

/-- The step of a changed instance. -/
def Step.mapInst (φ : Instance → Instance) : Step → Step
  | .next m => .next (m.mapInst φ)
  | .done m => .done (m.mapInst φ)
  | .system m saved => .system (m.mapInst φ) saved
  | .fault m cause => .fault (m.mapInst φ) cause

namespace Machine

open Instance (Unnoticed)

variable {φ : Instance → Instance} {m : Machine}

theorem push_mapInst (φ : Instance → Instance) (m : Machine) (w : UInt32) :
    (m.mapInst φ).push w = (m.push w).mapInst φ := by
  unfold push
  rw [apply_ite (Step.mapInst φ)]
  rfl

theorem pop_mapInst {f : UInt32 → Machine → Step}
    (h : ∀ a (m : Machine), f a (m.mapInst φ) = (f a m).mapInst φ) :
    (m.mapInst φ).pop f = (m.pop f).mapInst φ := by
  obtain ⟨inst, stack, pc, cur, ps⟩ := m
  simp only [mapInst, pop]
  cases stack.pop? with
  | none => rfl
  | some top => exact h top.1 ⟨inst, top.2, pc, cur, ps⟩

theorem popTwo_mapInst {f : UInt32 → UInt32 → Machine → Step}
    (h : ∀ a b (m : Machine), f a b (m.mapInst φ) = (f a b m).mapInst φ) :
    (m.mapInst φ).popTwo f = (m.popTwo f).mapInst φ := by
  obtain ⟨inst, stack, pc, cur, ps⟩ := m
  simp only [mapInst, popTwo]
  cases stack.popTwo? with
  | none => rfl
  | some top => exact h top.1 top.2.1 ⟨inst, top.2.2, pc, cur, ps⟩

section

variable (hφ : Unnoticed φ) (m)

include hφ

theorem mapMemory_mapInst (f : Sandbox → Sandbox) :
    (m.mapInst φ).mapMemory f = (m.mapMemory f).mapInst φ := by
  unfold mapMemory mapInst
  simp only [hφ.memory, hφ.withMemory]

theorem store_mapInst (addr v : UInt32) :
    (m.mapInst φ).store addr v = (m.store addr v).mapInst φ :=
  m.mapMemory_mapInst hφ _

theorem load_mapInst (addr : UInt32) : (m.mapInst φ).load addr = m.load addr :=
  congrArg (Sandbox.load32 · addr) (hφ.memory m.inst)

theorem leave_mapInst (frame : Int32) :
    (m.mapInst φ).leave frame = (m.leave frame).mapInst φ := by
  unfold leave
  rw [apply_ite (Step.mapInst φ), apply_ite (Step.mapInst φ)]
  simp only [mapInst, load, hφ.memory, hφ.program]
  rfl

theorem callTo_mapInst (target : Int32) :
    (m.mapInst φ).callTo target = (m.callTo target).mapInst φ := by
  have hret : (m.mapInst φ).withReturn = m.withReturn.mapInst φ := m.store_mapInst hφ _ _
  have hprogram : (m.mapInst φ).inst.program = m.inst.program := hφ.program m.inst
  by_cases h : target < 0
  · rw [callTo_of_neg h, callTo_of_neg h, hret, load_mapInst _ hφ, store_mapInst _ hφ]
    rfl
  · by_cases hi : m.inst.program.isInstruction target = true
    · rw [callTo_of_instruction h hi, callTo_of_instruction h (hprogram ▸ hi), hret]
      rfl
    · rw [callTo_of_not_instruction h hi, callTo_of_not_instruction h (hprogram ▸ hi), hret]
      rfl

theorem blockCopy_mapInst (dest src n : UInt32) :
    (m.mapInst φ).blockCopy dest src n = (m.blockCopy dest src n).mapInst φ := by
  unfold blockCopy
  rw [apply_ite (Step.mapInst φ), Step.mapInst, ← mapMemory_mapInst _ hφ]
  simp only [mapInst, hφ.memory]
  rfl

/-- Executing an instruction commutes with an unnoticed change, if function entries and jumps
do. -/
theorem execute_mapInst (ins : Instruction)
    (henter : ins.op = .enter →
      (m.mapInst φ).enter ins.operand = (m.enter ins.operand).mapInst φ)
    (hjump : ins.op = .jump →
      (m.mapInst φ).pop (fun target m => m.jumpTo target.toInt32) =
        (m.pop fun target m => m.jumpTo target.toInt32).mapInst φ) :
    (m.mapInst φ).execute ins = (m.execute ins).mapInst φ := by
  unfold execute
  cases hop : ins.op with
  | undef => rfl
  | ignore => rfl
  | breakpoint =>
    simp only [mapInst, Step.mapInst, hφ.breakCount, hφ.withBreakCount]
  | enter => exact henter hop
  | leave => exact m.leave_mapInst hφ _
  | push => exact m.push_mapInst φ _
  | const => exact m.push_mapInst φ _
  | frame => exact m.push_mapInst φ _
  | call => exact pop_mapInst fun a m => m.callTo_mapInst hφ _
  | pop => exact pop_mapInst fun a m => rfl
  | jump => exact hjump hop
  | branch c =>
    refine popTwo_mapInst fun a b m => ?_
    cases c.holds a b <;> rfl
  | load w =>
    refine pop_mapInst fun a m => ?_
    simp only [yield, mapInst, Step.mapInst, hφ.memory]
  | store w =>
    exact popTwo_mapInst fun a b m => congrArg Step.next (m.mapMemory_mapInst hφ _)
  | arg => exact pop_mapInst fun v m => congrArg Step.next (m.store_mapInst hφ _ v)
  | blockCopy => exact popTwo_mapInst fun a b m => m.blockCopy_mapInst hφ _ _ _
  | unary op => exact pop_mapInst fun a m => rfl
  | binary op => exact popTwo_mapInst fun a b m => rfl
  | divide op =>
    refine popTwo_mapInst fun a b m => ?_
    cases op.result? a b <;> rfl

theorem resume_mapInst (saved : UInt32) (r : Int32) :
    (m.mapInst φ).resume saved r = (m.resume saved r).mapInst φ := by
  unfold resume
  rw [← push_mapInst, ← store_mapInst _ hφ]
  rfl

theorem begin_mapInst (inst : Instance) (args : CallArgs) :
    begin (φ inst) args = (begin inst args).mapInst φ := by
  have hframe : framePointer? (φ inst) = framePointer? inst := by
    simp only [framePointer?, hφ.programStack, hφ.stackBottom]
  unfold begin
  rw [hframe]
  cases framePointer? inst with
  | none =>
    simp only [start, Step.mapInst, mapInst, hφ.programStack]
  | some ps =>
    -- each store is moved out by name: comparing all six at once is slow
    have hbase : (⟨φ inst, .empty, 0, 0, ps⟩ : Machine) =
        Machine.mapInst φ ⟨inst, .empty, 0, 0, ps⟩ := rfl
    simp only
    rw [hbase, store_mapInst _ hφ, store_mapInst _ hφ, store_mapInst _ hφ, store_mapInst _ hφ,
      store_mapInst _ hφ, store_mapInst _ hφ, Step.mapInst]

theorem executePrepared_mapInst (op : PreparedOp)
    (hsingle : ∀ ins, op = .single ins → (m.mapInst φ).execute ins = (m.execute ins).mapInst φ) :
    (m.mapInst φ).executePrepared op = (m.executePrepared op).mapInst φ := by
  have hfused {f : Machine → Step}
      (h : f (m.fetched.mapInst φ) = (f m.fetched).mapInst φ) :
      (m.mapInst φ).fused f = (m.fused f).mapInst φ := by
    rw [fused_eq, fused_eq, apply_ite (Step.mapInst φ), ← h]
    rfl
  unfold executePrepared
  cases op with
  | single ins => exact hsingle ins rfl
  | jumpTo target => exact hfused rfl
  | jumpIllegal => exact hfused rfl
  | callTo target => exact hfused (m.fetched.callTo_mapInst hφ target)
  | loadFrame offset =>
    apply hfused
    rw [load_mapInst _ hφ]
    exact m.fetched.push_mapInst φ _

end

end Machine

/-! ## §3 Moments -/

/-- An unnoticed change that leaves faults alone, those recorded before and those to come. -/
structure Instance.Unrecorded (φ : Instance → Instance) : Prop extends Unnoticed φ where
  lastFault : ∀ i, (φ i).lastFault = i.lastFault
  recordFault : ∀ i cause n,
    (φ i).recordFault cause n = ((i.recordFault cause n).1, φ (i.recordFault cause n).2)

/-- The phase of a changed instance. -/
def Phase.mapInst {I : Interface} {σ : Type} (φ : Instance → Instance) : Phase I σ → Phase I σ
  | .step s => .step (s.mapInst φ)
  | .service sv w inst => .service sv w (φ inst)
  | .ended reply inst => .ended reply (φ inst)

/-- The moment of a changed instance. -/
def Moment.mapInst {I : Interface} {σ ω : Type} (φ : Instance → Instance) (c : Moment I σ ω) :
    Moment I σ ω :=
  { c with phase := c.phase.mapInst φ }

namespace Moment

open Instance (Unnoticed Unrecorded)

variable {I : Interface} {σ ω : Type} {φ : Instance → Instance}

theorem start_mapInst (hφ : Unnoticed φ) (inst : Instance) (args : CallArgs)
    (callers : List (Caller I σ)) (ctx : Context σ ω) :
    start (φ inst) args callers ctx = (start inst args callers ctx).mapInst φ := by
  simp only [start, mapInst, Phase.mapInst, hφ.activate, Machine.begin_mapInst hφ, hφ.programStack,
    hφ.name]

theorem answered_mapInst (hφ : Unrecorded φ) (w : Waiting) (inst : Instance) (reply : Reply) :
    (answered w (φ inst) reply : Phase I σ) = (answered w inst reply).mapInst φ := by
  have hmachine : w.machine (φ inst) = (w.machine inst).mapInst φ :=
    congrArg (Machine.mk · w.stack w.pc w.cur w.ps) (hφ.withStack inst w.ps)
  cases reply with
  | error e =>
    simp only [answered, hmachine]
    rfl
  | ok r =>
    have hfault : Machine.nestedFault (φ inst) = Machine.nestedFault inst := by
      rw [Machine.nestedFault, hφ.lastFault, Machine.nestedFault]
    simp only [answered, apply_ite (Phase.mapInst φ), hmachine, hφ.state, hfault,
      Machine.resume_mapInst _ hφ.toUnnoticed]
    rfl

theorem finish_mapInst (hφ : Unrecorded φ) (m : Machine) (ctx : Context σ ω) :
    ((m.mapInst φ).finish ctx).reply = (m.finish ctx).reply ∧
      ((m.mapInst φ).finish ctx).module = φ (m.finish ctx).module := by
  unfold Machine.finish
  split <;> simp_all [Machine.mapInst, Machine.fail, hφ.recordFault]

/-- What follows a moment follows the changed moment, if this holds of single steps. -/
theorem next_mapInst (hφ : Unrecorded φ) (world : World I σ ω) (host : Host I σ)
    (c : Moment I σ ω)
    (hstep : ∀ m, c.phase.running? = some m → (m.mapInst φ).step = m.step.mapInst φ) :
    (c.mapInst φ).next world host = (c.next world host).map (Moment.mapInst φ) := by
  obtain ⟨phase, stack, callers, ctx⟩ := c
  cases phase with
  | step s =>
    cases s with
    | next m =>
      simp only [mapInst, Phase.mapInst, Step.mapInst, next, hstep m rfl, Option.map_some]
    | done m =>
      obtain ⟨hreply, hmodule⟩ := finish_mapInst hφ m ctx
      simp only [mapInst, Phase.mapInst, Step.mapInst, next, hreply, hmodule, Option.map_some]
    | fault m cause =>
      simp only [mapInst, Phase.mapInst, Step.mapInst, Machine.mapInst, next, Machine.fail,
        hφ.recordFault, Option.map_some]
    | system m saved =>
      simp only [mapInst, Phase.mapInst, Step.mapInst, Machine.mapInst, next, hφ.memory, hφ.suspend,
        Option.map_some]
  | service sv w inst =>
    cases sv with
    | done s reply =>
      simp only [mapInst, Phase.mapInst, next, serve, answered_mapInst hφ, Option.map_some]
    | view k => simp only [mapInst, Phase.mapInst, next, serve, hφ.view, Option.map_some]
    | edit e k =>
      have hedit : Hosted.edit e (φ inst) = φ (Hosted.edit e inst) := hφ.edit inst e
      simp only [mapInst, Phase.mapInst, next, serve, hedit, Option.map_some]
    | enter s command args k =>
      simp only [mapInst, Phase.mapInst, next, serve, hφ.accept]
      cases inst.accept command args with
      | error e => rfl
      | ok packed =>
        simp only [start_mapInst hφ.toUnnoticed, Option.map_some, mapInst]
    | ask s q k =>
      simp only [mapInst, Phase.mapInst, next, serve]
      cases world q { ctx with host := s } with
      | none => rfl
      | some answer => rfl
  | ended reply inst =>
    cases callers with
    | nil => rfl
    | cons caller callers =>
      simp only [mapInst, Phase.mapInst, next, return?, hφ.deactivate, Option.map_some]

theorem request?_mapInst (hφ : Unnoticed φ) (c : Moment I σ ω) :
    (c.mapInst φ).request? = c.request? := by
  obtain ⟨phase, stack, callers, ctx⟩ := c
  cases phase with
  | step s =>
    cases s with
    | system m saved =>
      simp only [mapInst, Phase.mapInst, Step.mapInst, Machine.mapInst, request?, hφ.memory]
    | next | done | fault => rfl
  | service | ended => rfl

theorem outcome?_mapInst (hφ : Unnoticed φ) (c : Moment I σ ω) :
    (c.mapInst φ).outcome? =
      c.outcome?.map fun out => { out with module := φ out.module } := by
  obtain ⟨phase, stack, callers, ctx⟩ := c
  cases phase with
  | step s => rfl
  | service sv w inst => rfl
  | ended reply inst =>
    cases callers with
    | nil => simp only [mapInst, Phase.mapInst, outcome?, hφ.deactivate, Option.map_some]
    | cons caller callers => rfl

end Moment

end SandboxVm
