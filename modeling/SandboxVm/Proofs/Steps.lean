/-
SandboxVm.Proofs.Steps — what one step can change.

Executing an instruction reaches the data region, the breakpoint counter and the symbol
counters of an instance, and nothing else of it (`step_executed`). A recorded fault adds
the state and the last fault. Everything else about an instance along the course of a
call is derived from this, so that no later proof goes through the instructions again for
a field that they cannot touch: `next_sameModule` carries the loaded module itself from one
moment to the next. The region keeps its size as long as no host service replaces it
(`Visits.size`).

What a host does with an instance between calls is said by `operate_cases`: it puts an image
in place, unloads the module, or leaves it where it is.

Operands are taken off in two ways only. `pop_cases` and `popTwo_cases` say what each can
lead to; every proof that does look at single instructions starts from them.
-/
import SandboxVm.Proofs.Moments
import SandboxVm.Proofs.Reload

namespace SandboxVm

/-! ## Instances before and after -/

namespace Instance

/-- What neither instructions nor edits change. -/
structure Rewritten (a b : Instance) : Prop where
  rest : b = { a with memory := b.memory, breakCount := b.breakCount, symbols := b.symbols }

/-- What executing instructions leaves alone, with the region keeping its size. -/
structure Executed (a b : Instance) : Prop extends Rewritten a b where
  size : b.memory.size = a.memory.size

theorem Executed.refl (a : Instance) : Executed a a := ⟨⟨rfl⟩, rfl⟩

theorem Executed.trans {a b c : Instance} (h₁ : Executed a b) (h₂ : Executed b c) :
    Executed a c := by
  refine ⟨⟨?_⟩, h₂.size.trans h₁.size⟩
  rw [h₂.rest, h₁.rest]

/-- Only the contents of the region differ. -/
theorem Executed.ofMemory (a : Instance) {s : Sandbox} (h : s.size = a.memory.size) :
    Executed a { a with memory := s } :=
  ⟨⟨rfl⟩, h⟩

/-- Two states of one loaded module: no call changes any of this. -/
structure SameModule (a b : Instance) : Prop where
  name : b.name = a.name
  header : b.header = a.header
  jumpTable : b.jumpTable = a.jumpTable
  program : b.program = a.program
  strategy : b.strategy = a.strategy
  requested : b.requested = a.requested
  stackBottom : b.stackBottom = a.stackBottom
  map : b.map = a.map
  profiling : b.profiling = a.profiling

theorem SameModule.refl (a : Instance) : SameModule a a :=
  ⟨rfl, rfl, rfl, rfl, rfl, rfl, rfl, rfl, rfl⟩

theorem SameModule.trans {a b c : Instance} (h₁ : SameModule a b) (h₂ : SameModule b c) :
    SameModule a c where
  name := h₂.name.trans h₁.name
  header := h₂.header.trans h₁.header
  jumpTable := h₂.jumpTable.trans h₁.jumpTable
  program := h₂.program.trans h₁.program
  strategy := h₂.strategy.trans h₁.strategy
  requested := h₂.requested.trans h₁.requested
  stackBottom := h₂.stackBottom.trans h₁.stackBottom
  map := h₂.map.trans h₁.map
  profiling := h₂.profiling.trans h₁.profiling

theorem Rewritten.sameModule {a b : Instance} (h : Rewritten a b) : SameModule a b := by
  rw [h.rest]
  exact ⟨rfl, rfl, rfl, rfl, rfl, rfl, rfl, rfl, rfl⟩

theorem Rewritten.state {a b : Instance} (h : Rewritten a b) : b.state = a.state := by rw [h.rest]

theorem Rewritten.lastFault {a b : Instance} (h : Rewritten a b) : b.lastFault = a.lastFault := by
  rw [h.rest]

theorem Rewritten.callLevel {a b : Instance} (h : Rewritten a b) : b.callLevel = a.callLevel := by
  rw [h.rest]

theorem SameModule.activate (a : Instance) : SameModule a a.activate :=
  ⟨rfl, rfl, rfl, rfl, rfl, rfl, rfl, rfl, rfl⟩

theorem SameModule.deactivate (a : Instance) (stack : Int32) :
    SameModule a (a.deactivate stack) :=
  ⟨rfl, rfl, rfl, rfl, rfl, rfl, rfl, rfl, rfl⟩

theorem SameModule.recordFault (a : Instance) (cause : FaultCause) (n : Nat) :
    SameModule a (a.recordFault cause n).2 :=
  ⟨rfl, rfl, rfl, rfl, rfl, rfl, rfl, rfl, rfl⟩

theorem SameModule.withStack (a : Instance) (stack : Int32) :
    SameModule a { a with programStack := stack } :=
  ⟨rfl, rfl, rfl, rfl, rfl, rfl, rfl, rfl, rfl⟩

/-- The end of a call neither makes an instance faulted nor hides that it is. -/
theorem deactivate_state_eq_faulted (a : Instance) (stack : Int32) :
    (a.deactivate stack).state = .faulted ↔ a.state = .faulted := by
  simp only [Instance.deactivate]
  split
  · rename_i h
    simp [h.1]
  · rfl

theorem rewritten_edit (a : Instance) (e : Sandbox.Edit) : Rewritten a (a.edit e) := by
  unfold Instance.edit
  split <;> exact ⟨rfl⟩

theorem size_edit (a : Instance) {e : Sandbox.Edit} (he : e.InPlace) :
    (a.edit e).memory.size = a.memory.size := by
  unfold Instance.edit
  split
  · rfl
  · exact a.memory.size_edit he

/-- What the lesser operations of a host leave alone. -/
structure Operated (a b : Instance) : Prop where
  rest : b = { a with
    memory := b.memory, symbols := b.symbols, map := b.map, profiling := b.profiling }

theorem Operated.state {a b : Instance} (h : Operated a b) : b.state = a.state := by rw [h.rest]

theorem Operated.lastFault {a b : Instance} (h : Operated a b) : b.lastFault = a.lastFault := by
  rw [h.rest]

theorem unload_of_ok {a b : Instance} {t t' : Tracker} (h : a.unload t = .ok (b, t')) :
    b.state = .unloaded ∧ b.lastFault = a.lastFault := by
  rw [unload_eq] at h
  split at h
  · cases h
  · cases h
    exact ⟨rfl, rfl⟩

/-- An operation puts an image in place, unloads the module, or leaves it where it is, in a region
of the same size unless it is replaced. -/
theorem operate_cases (a : Instance) (t : Tracker) (op : Operation) :
    (∃ bytes map, op = .reload bytes map ∧
      a.reload bytes map = .ok (a.operate t op).2.1) ∨
    (op = .unload ∧ ∃ t', a.unload t = .ok ((a.operate t op).2.1, t')) ∨
    (a.Operated (a.operate t op).2.1 ∧
      (op.Within Sandbox.Edit.InPlace → (a.operate t op).2.1.memory.size = a.memory.size)) := by
  cases op with
  | reload bytes map =>
    simp only [operate]
    cases hr : (reloadInPlace bytes map).run a with
    | ok u b => exact .inl ⟨bytes, map, rfl, reload_eq_ok_iff.2 hr⟩
    | error e b =>
      obtain rfl := eq_of_reloadInPlace_error hr
      exact .inr (.inr ⟨⟨rfl⟩, fun _ => rfl⟩)
  | unload =>
    rw [operate_unload]
    cases hu : a.unload t with
    | ok b => exact .inr (.inl ⟨rfl, b.2, rfl⟩)
    | error e => exact .inr (.inr ⟨⟨rfl⟩, fun _ => rfl⟩)
  | attachSymbols map => exact .inr (.inr ⟨⟨rfl⟩, fun _ => rfl⟩)
  | setProfiling on => exact .inr (.inr ⟨⟨rfl⟩, fun _ => rfl⟩)
  | profileReport =>
    simp only [operate, profileReport]
    split <;> exact .inr (.inr ⟨⟨rfl⟩, fun _ => rfl⟩)
  | edit e =>
    refine .inr (.inr ⟨⟨?_⟩, fun he => a.size_edit he⟩)
    simp only [operate, edit]
    split <;> rfl

end Instance

/-! ## Taking operands off -/

namespace Machine

open Instance (Executed)

/-- Taking an operand off faults on an empty stack and otherwise goes on with the topmost one. -/
theorem pop_cases (m : Machine) (f : UInt32 → Machine → Step) :
    m.pop f = .fault m .opStackUnderflow ∨
      ∃ a s, m.stack = s.push a ∧ m.pop f = f a { m with stack := s } := by
  obtain ⟨inst, stack, pc, cur, ps⟩ := m
  cases h : stack.pop? with
  | none => exact .inl (by simp [pop, h])
  | some top =>
    obtain ⟨a, s⟩ := top
    exact .inr ⟨a, s, OperandStack.pop?_eq_some_iff.1 h, by simp [pop, h]⟩

/-- Taking two operands off faults on a stack with fewer and otherwise goes on with them. -/
theorem popTwo_cases (m : Machine) (f : UInt32 → UInt32 → Machine → Step) :
    m.popTwo f = .fault m .opStackUnderflow ∨
      ∃ a b s, m.stack = (s.push a).push b ∧ m.popTwo f = f a b { m with stack := s } := by
  obtain ⟨inst, stack, pc, cur, ps⟩ := m
  cases h : stack.popTwo? with
  | none => exact .inl (by simp [popTwo, h])
  | some top =>
    obtain ⟨a, b, s⟩ := top
    exact .inr ⟨a, b, s, OperandStack.popTwo?_eq_some_iff.1 h, by simp [popTwo, h]⟩

/-! ## Transfers of control -/

/-- A machine that has put the address of its next instruction where a return finds it. -/
def withReturn (m : Machine) : Machine := m.store m.ps.toUInt32 (UInt32.ofNat m.pc)

section Transfers

variable {m : Machine} {target : Int32}

theorem callTo_of_neg (h : target < 0) :
    m.callTo target = .system (m.withReturn.store (m.ps.toUInt32 + 4) (-1 - target).toUInt32)
      (m.withReturn.load (m.ps.toUInt32 + 4)) :=
  if_pos h

theorem callTo_of_instruction (h : ¬ target < 0)
    (hi : m.inst.program.isInstruction target = true) :
    m.callTo target = .next { m.withReturn with pc := target.toNatClampNeg } :=
  (if_neg h).trans (if_pos hi)

theorem callTo_of_not_instruction (h : ¬ target < 0)
    (hi : ¬ m.inst.program.isInstruction target = true) :
    m.callTo target = .fault m.withReturn .pcOutOfRangeInCall :=
  (if_neg h).trans (if_neg hi)

theorem jumpTo_of_mayJump (h : Strategy.mayJump m.inst.program m.inst.jumpTable target = true) :
    m.jumpTo target = .next { m with pc := target.toNatClampNeg } :=
  if_pos h

theorem jumpTo_of_not_mayJump
    (h : ¬ Strategy.mayJump m.inst.program m.inst.jumpTable target = true) :
    m.jumpTo target = .fault m .illegalJump :=
  if_neg h

end Transfers

theorem push_of_hasRoom {m : Machine} (h : m.stack.hasRoom = true) (w : UInt32) :
    m.push w = m.yield w :=
  if_pos h

theorem push_of_not_hasRoom {m : Machine} (h : ¬ m.stack.hasRoom = true) (w : UInt32) :
    m.push w = .fault m .opStackOverflow :=
  if_neg h

/-! ## Steps -/

theorem pop_executed {m : Machine} {f : UInt32 → Machine → Step}
    (h : ∀ a s, m.inst.Executed (f a { m with stack := s }).inst) :
    m.inst.Executed (m.pop f).inst := by
  obtain hp | ⟨a, s, -, hp⟩ := m.pop_cases f
  · rw [hp]
    exact .refl m.inst
  · rw [hp]
    exact h a s

theorem popTwo_executed {m : Machine} {f : UInt32 → UInt32 → Machine → Step}
    (h : ∀ a b s, m.inst.Executed (f a b { m with stack := s }).inst) :
    m.inst.Executed (m.popTwo f).inst := by
  obtain hp | ⟨a, b, s, -, hp⟩ := m.popTwo_cases f
  · rw [hp]
    exact .refl m.inst
  · rw [hp]
    exact h a b s

theorem store_executed (m : Machine) (addr v : UInt32) :
    m.inst.Executed (m.store addr v).inst :=
  .ofMemory m.inst (m.inst.memory.size_store32 addr v)

theorem push_executed (m : Machine) (w : UInt32) : m.inst.Executed (m.push w).inst := by
  unfold push
  split <;> exact .refl m.inst

theorem enter_executed (m : Machine) (frame : Int32) : m.inst.Executed (m.enter frame).inst := by
  simp only [enter, countEntry]
  split
  · exact .refl m.inst
  · split
    · exact ⟨⟨rfl⟩, rfl⟩
    · exact .refl m.inst

theorem leave_executed (m : Machine) (frame : Int32) : m.inst.Executed (m.leave frame).inst := by
  simp only [leave]
  split
  · exact .refl m.inst
  · split <;> exact .refl m.inst

theorem jumpTo_executed (m : Machine) (target : Int32) :
    m.inst.Executed (m.jumpTo target).inst := by
  unfold jumpTo
  split <;> exact .refl m.inst

theorem callTo_executed (m : Machine) (target : Int32) :
    m.inst.Executed (m.callTo target).inst := by
  have h := m.store_executed m.ps.toUInt32 (UInt32.ofNat m.pc)
  simp only [callTo]
  split
  · exact h.trans (store_executed _ _ _)
  · split <;> exact h

theorem blockCopy_executed (m : Machine) (dest src n : UInt32) :
    m.inst.Executed (m.blockCopy dest src n).inst := by
  unfold blockCopy
  split
  · exact .ofMemory m.inst (m.inst.memory.size_edit trivial)
  · exact .refl m.inst

/-- An instruction changes memory, breakpoints and symbol counters only. -/
theorem execute_executed (m : Machine) (ins : Instruction) :
    m.inst.Executed (m.execute ins).inst := by
  unfold execute
  cases ins.op with
  | undef => exact .refl m.inst
  | ignore => exact .refl m.inst
  | breakpoint => exact ⟨⟨rfl⟩, rfl⟩
  | enter => exact m.enter_executed _
  | leave => exact m.leave_executed _
  | push => exact m.push_executed _
  | const => exact m.push_executed _
  | frame => exact m.push_executed _
  | call => exact pop_executed fun a s => callTo_executed { m with stack := s } _
  | pop => exact pop_executed fun a s => .refl m.inst
  | jump => exact pop_executed fun a s => jumpTo_executed { m with stack := s } _
  | branch c =>
    refine popTwo_executed fun a b s => ?_
    cases c.holds a b <;> exact .refl m.inst
  | load w => exact pop_executed fun a s => .refl m.inst
  | store w =>
    exact popTwo_executed fun a b s => .ofMemory m.inst (m.inst.memory.size_store w a b)
  | arg => exact pop_executed fun a s => store_executed { m with stack := s } _ _
  | blockCopy => exact popTwo_executed fun a b s => blockCopy_executed { m with stack := s } _ _ _
  | unary op => exact pop_executed fun a s => .refl m.inst
  | binary op => exact popTwo_executed fun a b s => .refl m.inst
  | divide op =>
    refine popTwo_executed fun a b s => ?_
    cases op.result? a b <;> exact .refl m.inst

/-- A machine whose next instruction is being executed. -/
def fetched (m : Machine) : Machine := { m with cur := m.pc, pc := m.pc + 1 }

theorem step_interpreted {m : Machine} (h : m.inst.strategy = .interpreted) :
    m.step = match m.inst.program.code[m.pc]? with
      | some ins => m.fetched.execute ins
      | none => .fault { m with cur := m.pc } .pcOutOfRange := by
  unfold step
  rw [h]
  rfl

theorem step_compiled {m : Machine} {code : Array PreparedOp}
    (h : m.inst.strategy = .compiled code) :
    m.step = match code[m.pc]? with
      | some op => m.fetched.executePrepared op
      | none => .fault { m with cur := m.pc } .pcOutOfRange := by
  unfold step
  rw [h]
  rfl

theorem fused_eq (m : Machine) (f : Machine → Step) :
    m.fused f = if m.stack.hasRoom then f m.fetched else .fault m .opStackOverflow := rfl

/-- A prepared operation changes memory, breakpoints and symbol counters only. -/
theorem executePrepared_executed (m : Machine) (op : PreparedOp) :
    m.inst.Executed (m.executePrepared op).inst := by
  have fused {f : Machine → Step} (h : m.fetched.inst.Executed (f m.fetched).inst) :
      m.inst.Executed (m.fused f).inst := by
    rw [fused_eq]
    split
    · exact h
    · exact .refl m.inst
  unfold executePrepared
  cases op with
  | single ins => exact m.execute_executed ins
  | jumpTo target =>
    apply fused
    exact .refl m.inst
  | jumpIllegal =>
    apply fused
    exact .refl m.inst
  | callTo target =>
    apply fused
    exact m.fetched.callTo_executed target
  | loadFrame offset =>
    apply fused
    exact m.fetched.push_executed _

/-- A step changes memory, breakpoints and symbol counters only. -/
theorem step_executed (m : Machine) : m.inst.Executed m.step.inst := by
  cases h : m.inst.strategy with
  | interpreted =>
    rw [step_interpreted h]
    split
    · exact m.fetched.execute_executed _
    · exact .refl m.inst
  | compiled code =>
    rw [step_compiled h]
    split
    · exact m.fetched.executePrepared_executed _
    · exact .refl m.inst

/-- Building the entry frame changes memory only. -/
theorem begin_executed (inst : Instance) (args : CallArgs) :
    inst.Executed (begin inst args).inst := by
  unfold begin
  split
  · exact .refl inst
  · refine Executed.trans ?_ (store_executed _ _ _)
    refine Executed.trans ?_ (store_executed _ _ _)
    refine Executed.trans ?_ (store_executed _ _ _)
    refine Executed.trans ?_ (store_executed _ _ _)
    refine Executed.trans ?_ (store_executed _ _ _)
    exact store_executed ⟨inst, .empty, 0, 0, _⟩ _ _

/-- Going on after a host service changes memory only. -/
theorem resume_executed (m : Machine) (saved : UInt32) (r : Int32) :
    m.inst.Executed (m.resume saved r).inst :=
  (m.store_executed _ saved).trans (push_executed _ _)

/-- Finishing a call leaves the instance alone or records that the operand stack is wrong. -/
theorem finish_cases {σ ω : Type} (m : Machine) (ctx : Context σ ω) :
    (∃ w : UInt32, m.finish ctx = ⟨.ok w.toInt32, m.inst, ctx⟩) ∨
      m.finish ctx = m.fail .opStackCorrupted ctx := by
  unfold finish
  split
  · exact .inl ⟨_, rfl⟩
  · exact .inr rfl

end Machine

/-! ## Moments -/

namespace Moment

open Instance (SameModule)

variable {I : Interface} {σ ω : Type} {world : World I σ ω} {host : Host I σ}
  {c d : Moment I σ ω}

/-- A reply gives a machine its program stack back and changes memory only. -/
theorem answered_executed (w : Waiting) (inst : Instance) (reply : Reply) :
    (w.machine inst).inst.Executed (answered w inst reply : Phase I σ).inst := by
  cases reply with
  | error e => exact .refl _
  | ok r =>
    simp only [answered]
    split
    · exact .refl _
    · exact (w.machine inst).resume_executed w.saved r

/-- The first moment of a call is one of the same module. -/
theorem start_sameModule (i : Instance) (args : CallArgs) (callers : List (Caller I σ))
    (ctx : Context σ ω) : SameModule i (start i args callers ctx).inst :=
  (SameModule.activate i).trans (Machine.begin_executed _ args).sameModule

/-- The first moment of a call finds the instance running. -/
theorem state_start (i : Instance) (args : CallArgs) (callers : List (Caller I σ))
    (ctx : Context σ ω) : (start i args callers ctx).inst.state = .running :=
  (Machine.begin_executed i.activate args).state

/-- From one moment to the next the loaded module stays the same. -/
theorem next_sameModule (h : c.next world host = some d) : SameModule c.inst d.inst := by
  cases follows_of_next h with
  | execute m => exact m.step_executed.sameModule
  | finish m stack callers ctx =>
    obtain ⟨w, hw⟩ | hw := m.finish_cases ctx
    · simp only [inst, Phase.inst, Step.inst, hw]
      exact .refl m.inst
    · simp only [inst, Phase.inst, Step.inst, hw]
      exact .recordFault m.inst _ _
  | fail m cause => exact .recordFault m.inst _ _
  | system m saved => exact .withStack m.inst _
  | reply s reply w i =>
    exact (SameModule.withStack i w.ps).trans (answered_executed w i reply).sameModule
  | view k w i => exact .refl i
  | edit e k w i => exact (i.rewritten_edit e).sameModule
  | refuse s command args k e w i => exact .refl i
  | nest s command args k packed w i => exact start_sameModule i packed _ _
  | ask s q k a w i => exact .refl i
  | «return» reply i caller stack => exact .deactivate i stack

/-- A service that edits in place keeps the size of the region, and so does everything else. -/
theorem size_next {asks : I.Request → Prop} (hc : c.Within Sandbox.Edit.InPlace asks)
    (h : c.next world host = some d) : d.inst.memory.size = c.inst.memory.size := by
  have hservice := hc.service
  cases follows_of_next h with
  | execute m => exact m.step_executed.size
  | finish m stack callers ctx =>
    obtain ⟨w, hw⟩ | hw := m.finish_cases ctx <;>
      simp [inst, Phase.inst, Step.inst, hw, Machine.fail, Instance.recordFault]
  | fail m cause => rfl
  | system m saved => rfl
  | reply s reply w i =>
    have hreply := answered_executed (I := I) (σ := σ) w i reply
    exact hreply.size
  | view k w i => rfl
  | edit e k w i =>
    obtain ⟨he, -⟩ := hservice _ rfl
    exact i.size_edit he
  | refuse s command args k e w i => rfl
  | nest s command args k packed w i =>
    have hbegin := Machine.begin_executed i.activate packed
    exact hbegin.size
  | ask s q k a w i => rfl
  | «return» reply i caller stack => rfl

/-- Along a course the loaded module stays the same. -/
theorem Reaches.sameModule (h : c.Reaches world host d) : SameModule c.inst d.inst :=
  h.preserves (P := fun e => SameModule c.inst e.inst)
    (fun hnext hc => hc.trans (next_sameModule hnext)) (.refl c.inst)

end Moment

/-! ## Calls whose hosts edit in place -/

namespace Instance

variable {I : Interface} {σ ω : Type} {world : World I σ ω} {host : Host I σ} {command : Int32}
  {args : List Int32} {inst : Instance} {ctx : Context σ ω} {c : Moment I σ ω}
  {out : Outcome Instance σ ω} {fuel : Nat}

/-- The region keeps its size along a call. -/
theorem Visits.size (hhost : host.InPlace) (hc : Visits world host command args inst ctx c) :
    c.inst.memory.size = inst.memory.size := by
  have hall : c.Within Sandbox.Edit.InPlace (fun _ => True) ∧
      c.inst.memory.size = inst.memory.size := by
    refine hc.preserves (P := fun c => c.Within Sandbox.Edit.InPlace (fun _ => True) ∧
      c.inst.memory.size = inst.memory.size) ?_ ?_
    · intro packed _
      have hbegin := Machine.begin_executed inst.activate packed
      exact ⟨Moment.within_start inst packed ctx, hbegin.size⟩
    · intro c d hnext ⟨hwithin, hsize⟩
      exact ⟨hwithin.next hhost hnext, (Moment.size_next hwithin hnext).trans hsize⟩
  exact hall.2

/-- A call that returns leaves the region with the size that it had. -/
theorem size_of_call (hhost : host.InPlace)
    (h : call world host fuel command args inst ctx = some out) :
    out.module.memory.size = inst.memory.size := by
  rcases call_cases h with ⟨e, -, rfl⟩ | ⟨d, hd, hout⟩
  · rfl
  · obtain ⟨-, -, hmodule, -⟩ := Moment.ended_of_outcome? hout
    rw [hmodule]
    exact hd.size hhost

end Instance

end SandboxVm
