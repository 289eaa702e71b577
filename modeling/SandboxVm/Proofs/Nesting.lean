/-
SandboxVm.Proofs.Nesting — how the calls of one instance are nested.

A call raises the call level of its module and moves the program stack. Calls nest without
bound and end in several ways, so nothing in the code says at one place that all of this is
undone. `Moment.Nested` says what holds in between, whatever the host and the world do: the
level counts the calls that are active, and the outermost one remembers the program stack.
`restored_of_call` is what a call that returns makes of it. The size of the region is not part of
it: `moving` is a host that changes it.
-/
import SandboxVm.Proofs.Steps

namespace SandboxVm

variable {I : Interface} {σ ω : Type}

/-! ## Moments -/

namespace Moment

/-- The program stack before the outermost call, given the one before the innermost call. -/
def outermostStack : Int32 → List (Caller I σ) → Int32
  | stack, [] => stack
  | _, caller :: callers => outermostStack caller.entryStack callers

/-- The level counts the active calls: those in the course of a call of `i`. -/
structure Nested (i : Instance) (c : Moment I σ ω) : Prop where
  same : i.SameModule c.inst
  level : c.inst.callLevel = i.callLevel + c.callers.length + 1
  stack : outermostStack c.entryStack c.callers = i.programStack
  state : c.inst.state = .running ∨ c.inst.state = .faulted

variable {world : World I σ ω} {host : Host I σ} {c d : Moment I σ ω} {i : Instance}

/-- What keeps the call level, and the state unless it faults, keeps the count. -/
theorem Nested.within {phase phase' : Phase I σ} {stack : Int32} {callers : List (Caller I σ)}
    {ctx ctx' : Context σ ω} (hc : Nested i ⟨phase, stack, callers, ctx⟩)
    (hsame : phase.inst.SameModule phase'.inst)
    (hlevel : phase'.inst.callLevel = phase.inst.callLevel)
    (hstate : phase'.inst.state = phase.inst.state ∨ phase'.inst.state = .faulted) :
    Nested i ⟨phase', stack, callers, ctx'⟩ where
  same := hc.same.trans hsame
  level := hlevel.trans hc.level
  stack := hc.stack
  state := by
    rcases hstate with hs | hs
    · have hstate := hc.state
      simp only [inst] at hstate ⊢
      rwa [hs]
    · exact .inr hs

theorem nested_start (i : Instance) (args : CallArgs) (ctx : Context σ ω) :
    Nested i (start i args [] ctx : Moment I σ ω) where
  same := start_sameModule i args [] ctx
  level := (Machine.begin_executed i.activate args).callLevel
  stack := rfl
  state := .inl (Machine.begin_executed i.activate args).state

/-- A nested call begins: one more call is active. -/
theorem Nested.nest {sv : Service I σ} {w : Waiting} {j : Instance} {stack : Int32}
    {callers : List (Caller I σ)} {ctx : Context σ ω}
    (hc : Nested i ⟨.service sv w j, stack, callers, ctx⟩) (args : CallArgs)
    (k : σ → Reply → Service I σ) (s : σ) :
    Nested i (start j args (⟨w, k, stack⟩ :: callers) { ctx with host := s }) where
  same := hc.same.trans (start_sameModule j args _ _)
  level := by
    have hlevel : j.callLevel = i.callLevel + callers.length + 1 := hc.level
    have hbegin := (Machine.begin_executed j.activate args).callLevel
    simp only [inst, Phase.inst, start, List.length_cons]
    rw [hbegin]
    simp only [Instance.activate, hlevel]
    omega
  stack := hc.stack
  state := .inl (Machine.begin_executed j.activate args).state

/-- A nested call has ended: one call fewer is active. -/
theorem Nested.return {reply : Reply} {j : Instance} {stack : Int32} {caller : Caller I σ}
    {callers : List (Caller I σ)} {ctx ctx' : Context σ ω}
    (hc : Nested i ⟨.ended reply j, stack, caller :: callers, ctx⟩) (sv : Service I σ) :
    Nested i ⟨.service sv caller.waiting (j.deactivate stack), caller.entryStack, callers,
      ctx'⟩ := by
  have hlevel : j.callLevel = i.callLevel + (callers.length + 1) + 1 := hc.level
  have hstate : j.state = .running ∨ j.state = .faulted := hc.state
  refine ⟨hc.same.trans (.deactivate j stack), ?_, hc.stack, ?_⟩
  · simp only [inst, Phase.inst, Instance.deactivate, hlevel]
    omega
  · -- the calls around the one that ended are still active, so the instance is not ready yet
    have hbusy : ¬ (j.state = .running ∧ j.callLevel - 1 = 0) := by omega
    simp only [inst, Phase.inst, Instance.deactivate, if_neg hbusy]
    exact hstate

theorem Nested.next (h : c.next world host = some d) (hc : Nested i c) : Nested i d := by
  have hsame := next_sameModule h
  cases follows_of_next h with
  | execute m => exact hc.within hsame m.step_executed.callLevel (.inl m.step_executed.state)
  | finish m stack callers ctx =>
    obtain ⟨w, hw⟩ | hw := m.finish_cases ctx
    · refine hc.within hsame ?_ (.inl ?_) <;> simp [Phase.inst, Step.inst, hw]
    · refine hc.within hsame ?_ (.inr ?_) <;>
        simp [Phase.inst, Step.inst, hw, Machine.fail, Instance.recordFault]
  | fail m cause => exact hc.within hsame rfl (.inr rfl)
  | system m saved => exact hc.within hsame rfl (.inl rfl)
  | reply s reply w j =>
    have hreply := answered_executed (I := I) (σ := σ) w j reply
    exact hc.within hsame hreply.callLevel (.inl hreply.state)
  | view k w j => exact hc.within hsame rfl (.inl rfl)
  | edit e k w j =>
    have hedit := j.rewritten_edit e
    exact hc.within hsame hedit.callLevel (.inl hedit.state)
  | refuse s command args k e w j => exact hc.within hsame rfl (.inl rfl)
  | nest s command args k packed w j => exact hc.nest packed k s
  | ask s q k a w j => exact hc.within hsame rfl (.inl rfl)
  | «return» reply j caller stack callers ctx => exact hc.return _

end Moment

/-! ## Calls -/

namespace Instance

/-- Between calls an instance is ready; between the calls of a host it is running. -/
def Settled (inst : Instance) : Prop :=
  (inst.state = .ready ∧ inst.callLevel = 0) ∨ (inst.state = .running ∧ 0 < inst.callLevel)

/-- What a call restores; its state is the one before or faulted. -/
structure Restored (a b : Instance) : Prop extends SameModule a b where
  callLevel : b.callLevel = a.callLevel
  programStack : b.programStack = a.programStack
  state : b.state = a.state ∨ b.state = .faulted

theorem Restored.refl (a : Instance) : Restored a a where
  toSameModule := .refl a
  callLevel := rfl
  programStack := rfl
  state := .inl rfl

variable {world : World I σ ω} {host : Host I σ} {command : Int32} {args : List Int32}
  {inst : Instance} {ctx : Context σ ω} {c : Moment I σ ω} {out : Outcome Instance σ ω}
  {fuel : Nat}

theorem Visits.nested (hc : Visits world host command args inst ctx c) : c.Nested inst :=
  hc.preserves (P := Moment.Nested inst)
    (fun packed _ => Moment.nested_start inst packed ctx) Moment.Nested.next

theorem restored_of_call (hs : inst.Settled)
    (h : call world host fuel command args inst ctx = some out) : Restored inst out.module := by
  rcases call_cases h with ⟨e, -, rfl⟩ | ⟨d, hd, hout⟩
  · exact .refl inst
  · have hnested := hd.nested
    obtain ⟨-, hcallers, hmodule, -⟩ := Moment.ended_of_outcome? hout
    have hlevel := hnested.level
    have hstack := hnested.stack
    rw [hcallers] at hlevel hstack
    rw [hmodule]
    refine ⟨hnested.same.trans (.deactivate d.inst _), ?_, hstack, ?_⟩
    · simp [deactivate, hlevel]
    · rcases hnested.state with hd | hd
      · -- the state goes back to what the call level before the call says
        simp only [deactivate, hd, hlevel, List.length_nil]
        rcases hs with ⟨hstate, hzero⟩ | ⟨hstate, hpos⟩
        · simp [hstate, hzero]
        · have hne : inst.callLevel ≠ 0 := by omega
          simp [hstate, hne]
      · exact .inr ((d.inst.deactivate_state_eq_faulted _).2 hd)

end Instance

/-- The image of a module that asks for service 0 and returns what it is answered. -/
def obliging : Bytes :=
  let code : Code :=
    { bytes := [⟨.enter, 8⟩, ⟨.const, -1⟩, ⟨.call, 0⟩, ⟨.leave, 8⟩].flatMap Instruction.encode
      instructionCount := 4
      jumpTargets := [] }
  Layout.build ⟨.legacy, code, [], [], 64⟩

/-- A host that moves the module which calls it to a region of twice the size, with the bytes that
it had. -/
def moving : Host I Unit := fun s _ => .view fun v =>
  match v.memory with
  | some old =>
    .edit (.replace (.ofData (UInt32.ofNat (2 * old.size)) old.bytes.data.toList)) (.done s (.ok 0))
  | none => .done s (.ok 0)

end SandboxVm
