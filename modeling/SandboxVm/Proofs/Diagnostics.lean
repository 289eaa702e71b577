/-
SandboxVm.Proofs.Diagnostics — symbols and profiling do not influence what a call does.

The symbol table is consulted in the middle of a call: a function entry is counted under a symbol,
and a fault names the symbol where it happened. A host can get hold of such a fault and pass it on.
Two courses of a call, on instances that differ in their diagnostics only, are therefore laid side
by side, with a host that may be answered by different faults but treats them alike.

  §1  `bare`: faults, replies and instances without their diagnostics; instructions do not notice;
  §2  `Service.Alike`, `Indifferent`: hosts and worlds that do not depend on symbols of faults;
  §3  `Moment.Alike.next`: two courses stay alike, moment by moment;
  §4  counters: `next_symbols` says which moments change them, `EndsEntering.totalCalls` by how much
      a whole call does.

`call_independent_of_diagnostics` is the result.
-/
import Mathlib.Data.List.Forall2
import SandboxVm.Proofs.Instructions
import SandboxVm.Proofs.Retouching
import SandboxVm.Proofs.SymbolTables

namespace SandboxVm

/-! ## §1 Without diagnostics -/

/-- The fault without the symbol where it happened. -/
def Fault.bare (f : Fault) : Fault := { f with symbol := none }

/-- The failure without the symbol of a fault. -/
def Error.bare : Error → Error
  | .fault f => .fault f.bare
  | e => e

/-- The reply without the symbol of a fault. -/
def Reply.bare (reply : Reply) : Reply := reply.mapError Error.bare

/-- The instance without symbols, and with the last fault as it would be without them. -/
def Instance.bare (inst : Instance) : Instance :=
  { inst with
    map := none, symbols := none, profiling := false, lastFault := inst.lastFault.map Fault.bare }

theorem Instance.unnoticed_bare : Unnoticed bare :=
  ⟨fun _ => rfl, fun _ => rfl, fun _ => rfl, fun _ => rfl, fun _ => rfl, fun _ => rfl, fun _ => rfl,
    fun _ => rfl, fun _ _ _ _ _ _ => rfl⟩

theorem Machine.nestedFault_bare (inst : Instance) :
    nestedFault inst.bare = (nestedFault inst).bare := by
  unfold nestedFault Instance.bare
  cases inst.lastFault <;> rfl

namespace Machine

open Instance (unnoticed_bare)

theorem enter_bare (m : Machine) (frame : Int32) :
    (m.mapInst .bare).enter frame = (m.enter frame).mapInst .bare := by
  have hcount (n : Machine) : n.countEntry.mapInst .bare = n.mapInst .bare := by
    unfold countEntry
    split <;> rfl
  unfold enter
  rw [apply_ite (Step.mapInst .bare), Step.mapInst, Step.mapInst, hcount]
  rfl

theorem jumpTo_bare (m : Machine) (target : Int32) :
    (m.mapInst .bare).jumpTo target = (m.jumpTo target).mapInst .bare := by
  unfold jumpTo
  rw [apply_ite (Step.mapInst .bare)]
  rfl

theorem execute_bare (m : Machine) (ins : Instruction) :
    (m.mapInst .bare).execute ins = (m.execute ins).mapInst .bare :=
  m.execute_mapInst unnoticed_bare ins (fun _ => m.enter_bare _)
    fun _ => pop_mapInst fun _ m => m.jumpTo_bare _

/-- A step does not notice diagnostics. -/
theorem step_bare (m : Machine) : (m.mapInst .bare).step = m.step.mapInst .bare := by
  cases h : m.inst.strategy with
  | interpreted =>
    have h' : (m.mapInst .bare).inst.strategy = .interpreted := h
    rw [step_interpreted h, step_interpreted h']
    have hcode : (m.mapInst .bare).inst.program.code[(m.mapInst .bare).pc]? =
        m.inst.program.code[m.pc]? := rfl
    rw [hcode]
    split
    · exact m.fetched.execute_bare _
    · rfl
  | compiled code =>
    have h' : (m.mapInst .bare).inst.strategy = .compiled code := h
    rw [step_compiled h, step_compiled h']
    have hcode : code[(m.mapInst .bare).pc]? = code[m.pc]? := rfl
    rw [hcode]
    split
    · exact m.fetched.executePrepared_mapInst unnoticed_bare _
        fun ins _ => m.fetched.execute_bare ins
    · rfl

end Machine

/-! ## §2 Hosts that do not look -/

section Alike

variable {I : Interface} {σ ω : Type}

/-- Two services that do the same with states, replies and answers that count as the same. Replies
count as the same if they differ in symbols of faults only. -/
inductive Service.Alike (R : σ → σ → Prop) (A : (q : I.Request) → I.Answer q → I.Answer q → Prop) :
    Service I σ → Service I σ → Prop where
  | done {s s' : σ} {reply reply' : Reply} (hs : R s s')
      (hreply : Reply.bare reply = Reply.bare reply') :
    Alike R A (.done s reply) (.done s' reply')
  | view {k k' : View → Service I σ} (hk : ∀ v, Alike R A (k v) (k' v)) :
    Alike R A (.view k) (.view k')
  | edit {k k' : Service I σ} (e : Sandbox.Edit) (hk : Alike R A k k') :
    Alike R A (.edit e k) (.edit e k')
  | enter {s s' : σ} {k k' : σ → Reply → Service I σ} (command : Int32) (args : List Int32)
      (hs : R s s')
      (hk : ∀ t t' r r', R t t' → Reply.bare r = Reply.bare r' → Alike R A (k t r) (k' t' r')) :
    Alike R A (.enter s command args k) (.enter s' command args k')
  | ask {s s' : σ} (q : I.Request) {k k' : σ → I.Answer q → Service I σ} (hs : R s s')
      (hk : ∀ t t' a a', R t t' → A q a a' → Alike R A (k t a) (k' t' a')) :
    Alike R A (.ask s q k) (.ask s' q k')

/-- Two contexts that count as the same. -/
structure Context.Alike (R : σ → σ → Prop) (W : ω → ω → Prop) (a b : Context σ ω) : Prop where
  host : R a.host b.host
  tracker : a.tracker = b.tracker
  world : W a.world b.world

/-- Two outcomes that count as the same: they differ in diagnostics only. -/
structure Outcome.Alike (R : σ → σ → Prop) (W : ω → ω → Prop) (a b : Outcome Instance σ ω) :
    Prop where
  reply : Reply.bare a.reply = Reply.bare b.reply
  module : a.module.bare = b.module.bare
  context : a.context.Alike R W b.context

/-- Neither the host nor the world depends on symbols of faults. What they may hand on, and may
thus be different, is given by relations: between states of the host, states of the world, and
answers of the world. -/
structure Indifferent (R : σ → σ → Prop) (W : ω → ω → Prop)
    (A : (q : I.Request) → I.Answer q → I.Answer q → Prop) (world : World I σ ω)
    (host : Host I σ) : Prop where
  host : ∀ {s s'} args, R s s' → (host s args).Alike R A (host s' args)
  world : ∀ q {a b}, Context.Alike R W a b →
    Option.Rel (fun x y => A q x.1 y.1 ∧ x.2.Alike R W y.2) (world q a) (world q b)

end Alike

/-! ## §3 Courses side by side -/

section Courses

variable {I : Interface} {σ ω : Type} {R : σ → σ → Prop} {W : ω → ω → Prop}
  {A : (q : I.Request) → I.Answer q → I.Answer q → Prop} {world : World I σ ω} {host : Host I σ}

/-- Two phases of calls on instances that differ in diagnostics only. -/
inductive Phase.Alike (R : σ → σ → Prop) (A : (q : I.Request) → I.Answer q → I.Answer q → Prop) :
    Phase I σ → Phase I σ → Prop where
  | step {s s' : Step} (h : s.mapInst .bare = s'.mapInst .bare) : Alike R A (.step s) (.step s')
  | service {sv sv' : Service I σ} {i i' : Instance} (w : Waiting) (hsv : sv.Alike R A sv')
      (hi : i.bare = i'.bare) : Alike R A (.service sv w i) (.service sv' w i')
  | ended {reply reply' : Reply} {i i' : Instance}
      (hreply : Reply.bare reply = Reply.bare reply') (hi : i.bare = i'.bare) :
    Alike R A (.ended reply i) (.ended reply' i')

/-- Two callers that go on alike. -/
structure Caller.Alike (R : σ → σ → Prop)
    (A : (q : I.Request) → I.Answer q → I.Answer q → Prop) (a b : Caller I σ) : Prop where
  waiting : a.waiting = b.waiting
  rest : ∀ s s' r r', R s s' → Reply.bare r = Reply.bare r' →
    (a.rest s r).Alike R A (b.rest s' r')
  entryStack : a.entryStack = b.entryStack

/-- Two moments of calls on instances that differ in diagnostics only. -/
structure Moment.Alike (R : σ → σ → Prop) (W : ω → ω → Prop)
    (A : (q : I.Request) → I.Answer q → I.Answer q → Prop) (c d : Moment I σ ω) : Prop where
  phase : c.phase.Alike R A d.phase
  entryStack : c.entryStack = d.entryStack
  callers : List.Forall₂ (Caller.Alike R A) c.callers d.callers
  context : c.context.Alike R W d.context

open Instance (unnoticed_bare)

theorem Machine.fail_bare (m : Machine) (cause : FaultCause) (ctx ctx' : Context σ ω) :
    ((m.mapInst .bare).fail cause ctx').reply = Reply.bare (m.fail cause ctx).reply ∧
      ((m.mapInst .bare).fail cause ctx').module = (m.fail cause ctx).module.bare :=
  ⟨rfl, rfl⟩

theorem Machine.finish_bare (m : Machine) (ctx ctx' : Context σ ω) :
    ((m.mapInst .bare).finish ctx').reply = Reply.bare (m.finish ctx).reply ∧
      ((m.mapInst .bare).finish ctx').module = (m.finish ctx).module.bare := by
  have hstack : (m.mapInst .bare).stack = m.stack := rfl
  unfold Machine.finish
  rw [hstack]
  split
  · exact ⟨rfl, rfl⟩
  · exact m.fail_bare .opStackCorrupted ctx ctx'

/-- Machines go on alike with replies that count as the same. -/
theorem Moment.answered_alike {i i' : Instance} {reply reply' : Reply} (w : Waiting)
    (hi : i.bare = i'.bare) (hreply : Reply.bare reply = Reply.bare reply') :
    (answered w i reply : Phase I σ).Alike R A (answered w i' reply') := by
  have hmachine (i : Instance) : (w.machine i).mapInst .bare = w.machine i.bare := rfl
  have hend : (w.machine i).inst.bare = (w.machine i').inst.bare :=
    congrArg (fun i => (w.machine i).inst) hi
  cases reply with
  | error e =>
    cases reply' with
    | error e' => exact .ended hreply hend
    | ok r' => cases hreply
  | ok r =>
    cases reply' with
    | error e' => cases hreply
    | ok r' =>
      cases hreply
      have hstate : i.state = i'.state := by
        rw [← unnoticed_bare.state i, hi, unnoticed_bare.state]
      simp only [answered]
      by_cases hfaulted : i.state = .faulted
      · rw [if_pos hfaulted, if_pos (hstate ▸ hfaulted)]
        refine .ended (congrArg Except.error ?_) hend
        rw [← Machine.nestedFault_bare, hi, Machine.nestedFault_bare]
      · rw [if_neg hfaulted, if_neg (hstate ▸ hfaulted)]
        refine .step ?_
        rw [← Machine.resume_mapInst _ unnoticed_bare, hmachine, hi, ← hmachine,
          Machine.resume_mapInst _ unnoticed_bare]

/-- Calls begin alike on instances that differ in diagnostics only. -/
theorem Moment.start_alike {i i' : Instance} {callers callers' : List (Caller I σ)}
    {ctx ctx' : Context σ ω} (args : CallArgs) (hi : i.bare = i'.bare)
    (hcallers : List.Forall₂ (Caller.Alike R A) callers callers') (hctx : ctx.Alike R W ctx') :
    (start i args callers ctx).Alike R W A (start i' args callers' ctx') where
  phase := by
    refine .step ?_
    rw [← Machine.begin_mapInst unnoticed_bare, ← unnoticed_bare.activate, hi,
      unnoticed_bare.activate, Machine.begin_mapInst unnoticed_bare]
  entryStack := by
    show i.programStack = i'.programStack
    rw [← unnoticed_bare.programStack i, hi, unnoticed_bare.programStack]
  callers := hcallers
  context := by
    have hname : i.name = i'.name := by rw [← unnoticed_bare.name i, hi, unnoticed_bare.name]
    refine ⟨hctx.host, ?_, hctx.world⟩
    show ctx.tracker.enter i.name = ctx'.tracker.enter i'.name
    rw [hctx.tracker, hname]

/-- Services that are alike go on alike, on instances that differ in diagnostics only. -/
theorem Moment.serve_alike (h : Indifferent R W A world host) {sv sv' : Service I σ}
    {i i' : Instance} {stack : Int32} {callers callers' : List (Caller I σ)}
    {ctx ctx' : Context σ ω} (w : Waiting) (hsv : sv.Alike R A sv') (hi : i.bare = i'.bare)
    (hcallers : List.Forall₂ (Caller.Alike R A) callers callers') (hctx : ctx.Alike R W ctx') :
    Option.Rel (Moment.Alike R W A)
      (serve world ⟨.service sv w i, stack, callers, ctx⟩ sv w i)
      (serve world ⟨.service sv' w i', stack, callers', ctx'⟩ sv' w i') := by
  cases hsv with
  | done hs hreply =>
    exact .some ⟨answered_alike w hi hreply, rfl, hcallers, ⟨hs, hctx.tracker, hctx.world⟩⟩
  | view hk =>
    have hview : Hosted.view i = Hosted.view i' := by
      rw [← unnoticed_bare.view i, hi, unnoticed_bare.view]
    refine .some ⟨.service w ?_ hi, rfl, hcallers, hctx⟩
    rw [hview]
    exact hk _
  | edit e hk =>
    have hedit : (i.edit e).bare = (i'.edit e).bare := by
      rw [← unnoticed_bare.edit, hi, unnoticed_bare.edit]
    exact .some ⟨.service w hk hedit, rfl, hcallers, hctx⟩
  | @enter s s' k k' command args hs hk =>
    have hhost : { ctx with host := s }.Alike R W { ctx' with host := s' } :=
      ⟨hs, hctx.tracker, hctx.world⟩
    have haccept : i.accept command args = i'.accept command args := by
      rw [← unnoticed_bare.accept i, hi, unnoticed_bare.accept]
    simp only [serve, haccept]
    cases i'.accept command args with
    | error e => exact .some ⟨.service w (hk _ _ _ _ hs rfl) hi, rfl, hcallers, hhost⟩
    | ok packed =>
      have hcaller : Caller.Alike R A ⟨w, k, stack⟩ ⟨w, k', stack⟩ := ⟨rfl, hk, rfl⟩
      exact .some (start_alike packed hi (.cons hcaller hcallers) hhost)
  | @ask s s' q k k' hs hk =>
    have hhost : { ctx with host := s }.Alike R W { ctx' with host := s' } :=
      ⟨hs, hctx.tracker, hctx.world⟩
    have hanswer := h.world q hhost
    simp only [serve]
    generalize world q { ctx with host := s } = x, world q { ctx' with host := s' } = y at hanswer
    cases hanswer with
    | none => exact .none
    | some hanswer =>
      obtain ⟨ha, hafter⟩ := hanswer
      exact .some ⟨.service w (hk _ _ _ _ hafter.host ha) hi, rfl, hcallers, hafter⟩

/-- What follows two moments that are alike is alike again. -/
theorem Moment.Alike.next {c d : Moment I σ ω} (h : Indifferent R W A world host)
    (hcd : c.Alike R W A d) :
    Option.Rel (Moment.Alike R W A) (c.next world host) (d.next world host) := by
  obtain ⟨phase, stack, callers, ctx⟩ := c
  obtain ⟨phase', stack', callers', ctx'⟩ := d
  obtain ⟨hphase, rfl, hcallers, hctx⟩ := hcd
  cases hphase with
  | step hs =>
    rename_i s s'
    cases s with
    | next m =>
      cases s' with
      | next n =>
        have hstep : m.step.mapInst .bare = n.step.mapInst .bare := by
          rw [← Machine.step_bare, Step.next.inj hs, Machine.step_bare]
        exact .some ⟨.step hstep, rfl, hcallers, hctx⟩
      | done | system | fault => cases hs
    | done m =>
      cases s' with
      | done n =>
        obtain ⟨hreply, hmodule⟩ := m.finish_bare ctx ctx
        obtain ⟨hreply', hmodule'⟩ := n.finish_bare ctx' ctx
        rw [Step.done.inj hs] at hreply hmodule
        exact .some ⟨.ended (hreply.symm.trans hreply') (hmodule.symm.trans hmodule'), rfl,
          hcallers, hctx⟩
      | next | system | fault => cases hs
    | fault m cause =>
      cases s' with
      | fault n cause' =>
        obtain ⟨hmachine, rfl⟩ := Step.fault.inj hs
        obtain ⟨hreply, hmodule⟩ := m.fail_bare cause ctx ctx
        obtain ⟨hreply', hmodule'⟩ := n.fail_bare cause ctx' ctx
        rw [hmachine] at hreply hmodule
        exact .some ⟨.ended (hreply.symm.trans hreply') (hmodule.symm.trans hmodule'), rfl,
          hcallers, hctx⟩
      | next | done | system => cases hs
    | system m saved =>
      cases s' with
      | system n saved' =>
        obtain ⟨hmachine, rfl⟩ := Step.system.inj hs
        obtain ⟨i, stack, pc, cur, ps⟩ := m
        obtain ⟨i', stack', pc', cur', ps'⟩ := n
        obtain ⟨hi, rfl, rfl, rfl, rfl⟩ := Machine.mk.inj hmachine
        have hmemory : i.memory = i'.memory := by
          rw [← unnoticed_bare.memory i, hi, unnoticed_bare.memory]
        have hsuspend : (Machine.suspend i ps).bare = (Machine.suspend i' ps).bare := by
          rw [← unnoticed_bare.suspend, hi, unnoticed_bare.suspend]
        refine .some ⟨.service _ ?_ hsuspend, rfl, hcallers, hctx⟩
        rw [hmemory]
        exact h.host _ hctx.host
      | next | done | fault => cases hs
  | service w hsv hi => exact serve_alike h w hsv hi hcallers hctx
  | ended hreply hi =>
    cases hcallers with
    | nil => exact .none
    | cons hcaller hcallers =>
      rename_i i i' caller caller' _ _
      have hdeactivate : (i.deactivate stack).bare = (i'.deactivate stack).bare := by
        rw [← unnoticed_bare.deactivate, hi, unnoticed_bare.deactivate]
      obtain ⟨w, rest, entryStack⟩ := caller
      obtain ⟨w', rest', entryStack'⟩ := caller'
      obtain ⟨rfl, hrest, rfl⟩ := hcaller
      refine .some ⟨.service w (hrest _ _ _ _ hctx.host hreply) hdeactivate, rfl, hcallers,
        hctx.host, ?_, hctx.world⟩
      exact congrArg Tracker.leave hctx.tracker

namespace Moment.Alike

variable {c d : Moment I σ ω}

theorem request? (hcd : c.Alike R W A d) : c.request? = d.request? := by
  obtain ⟨phase, stack, callers, ctx⟩ := c
  obtain ⟨phase', stack', callers', ctx'⟩ := d
  obtain ⟨hphase, -, -, -⟩ := hcd
  cases hphase with
  | @step s s' hs =>
    have hbare (s : Step) : (⟨.step s, stack, callers, ctx⟩ : Moment I σ ω).request? =
        (⟨.step (s.mapInst .bare), stack', callers', ctx'⟩ : Moment I σ ω).request? := by
      cases s <;> rfl
    rw [hbare s, hs, ← hbare s']
    rfl
  | service => rfl
  | ended => rfl

/-- Two courses that are alike make the same system calls. -/
theorem requests (h : Indifferent R W A world host) (hcd : c.Alike R W A d) (n : Nat) :
    c.requests world host n = d.requests world host n := by
  induction n generalizing c d with
  | zero => rfl
  | succ n ih =>
    have hnext := hcd.next h
    simp only [Moment.requests, hcd.request?]
    generalize c.next world host = x, d.next world host = y at hnext
    cases hnext with
    | none => rfl
    | some hnext => exact congrArg _ (ih hnext)

theorem outcome? (hcd : c.Alike R W A d) :
    Option.Rel (Outcome.Alike R W) c.outcome? d.outcome? := by
  obtain ⟨phase, stack, callers, ctx⟩ := c
  obtain ⟨phase', stack', callers', ctx'⟩ := d
  obtain ⟨hphase, rfl, hcallers, hctx⟩ := hcd
  cases hphase with
  | step => exact .none
  | service => exact .none
  | @ended reply reply' i i' hreply hi =>
    cases hcallers with
    | cons => exact .none
    | nil =>
      have hdeactivate : (i.deactivate stack).bare = (i'.deactivate stack).bare := by
        rw [← unnoticed_bare.deactivate, hi, unnoticed_bare.deactivate]
      exact .some ⟨hreply, hdeactivate, hctx.host, congrArg Tracker.leave hctx.tracker, hctx.world⟩

/-- Two courses that are alike end together, with outcomes that are alike. -/
theorem outcome?_after (h : Indifferent R W A world host) (hcd : c.Alike R W A d) (n : Nat) :
    Option.Rel (Outcome.Alike R W)
      ((Course.after (Moment.next world host) n c).bind Moment.outcome?)
      ((Course.after (Moment.next world host) n d).bind Moment.outcome?) := by
  have hafter := Course.after_rel (n := n) (fun hcd => hcd.next h) hcd
  generalize Course.after (Moment.next world host) n c = x,
    Course.after (Moment.next world host) n d = y at hafter
  cases hafter with
  | none => exact .none
  | some hcd => exact hcd.outcome?

end Moment.Alike

namespace Instance

variable {a b : Instance} {ctx ctx' : Context σ ω}

theorem ends_of_accept {command : Int32} {args : List Int32} {inst : Instance}
    {packed : CallArgs} {out : Outcome Instance σ ω} {log : List SyscallArgs}
    (h : inst.accept command args = .ok packed) :
    Ends world host command args inst ctx out log ↔
      ∃ n, (Course.after (Moment.next world host) n (Moment.start inst packed [] ctx)).bind
          Moment.outcome? = some out ∧
        (Moment.start inst packed [] ctx).requests world host n = log := by
  unfold Ends
  rw [h]
  simp only [Option.bind_eq_some_iff]
  constructor
  · rintro ⟨n, d, hd, hout, hlog⟩
    exact ⟨n, ⟨d, hd, hout⟩, hlog⟩
  · rintro ⟨n, ⟨d, hd, hout⟩, hlog⟩
    exact ⟨n, d, hd, hout, hlog⟩

/-- A call ends on one of two instances that differ in diagnostics only exactly if it ends on the
other, alike and after the same system calls. -/
theorem ends_alike (h : Indifferent R W A world host) (hab : a.bare = b.bare)
    (hctx : ctx.Alike R W ctx') (command : Int32) (args : List Int32) (log : List SyscallArgs) :
    (∀ out, Ends world host command args a ctx out log →
      ∃ out', Ends world host command args b ctx' out' log ∧ out.Alike R W out') ∧
    ∀ out', Ends world host command args b ctx' out' log →
      ∃ out, Ends world host command args a ctx out log ∧ out.Alike R W out' := by
  have haccept : b.accept command args = a.accept command args := by
    rw [← unnoticed_bare.accept b, ← hab, unnoticed_bare.accept]
  cases ha : a.accept command args with
  | error e =>
    unfold Ends
    rw [haccept, ha]
    constructor
    · rintro _ ⟨rfl, hlog⟩
      exact ⟨_, ⟨rfl, hlog⟩, rfl, hab, hctx⟩
    · rintro _ ⟨rfl, hlog⟩
      exact ⟨_, ⟨rfl, hlog⟩, rfl, hab, hctx⟩
  | ok packed =>
    have hstart : (Moment.start a packed [] ctx).Alike R W A (Moment.start b packed [] ctx') :=
      Moment.start_alike packed hab .nil hctx
    simp only [ends_of_accept ha, ends_of_accept (haccept.trans ha)]
    constructor
    · rintro out ⟨n, hout, rfl⟩
      have hrel := hstart.outcome?_after h n
      rw [hout] at hrel
      generalize hout' : (Course.after _ n (Moment.start b packed [] ctx')).bind _ = x at hrel
      cases hrel with
      | some hrel => exact ⟨_, ⟨n, hout', (hstart.requests h n).symm⟩, hrel⟩
    · rintro out' ⟨n, hout', rfl⟩
      have hrel := hstart.outcome?_after h n
      rw [hout'] at hrel
      generalize hout : (Course.after _ n (Moment.start a packed [] ctx)).bind _ = x at hrel
      cases hrel with
      | some hrel => exact ⟨_, ⟨n, hout, hstart.requests h n⟩, hrel⟩

end Instance

end Courses

/-! ## §4 Counters -/

/-- The symbols of the instance after function entries at the given offsets. -/
def Instance.symbolsAfter (inst : Instance) (entries : List UInt32) : Option SymbolTable :=
  if inst.profiling then inst.symbols.map fun t => entries.foldl SymbolTable.recordCall t
  else inst.symbols

@[simp] theorem Instance.symbolsAfter_nil (inst : Instance) :
    inst.symbolsAfter [] = inst.symbols := by
  unfold symbolsAfter
  split <;> simp

theorem Instance.symbolsAfter_append {a b : Instance} {entries : List UInt32}
    (hsymbols : b.symbols = a.symbolsAfter entries) (hprofiling : b.profiling = a.profiling)
    (more : List UInt32) : b.symbolsAfter more = a.symbolsAfter (entries ++ more) := by
  unfold symbolsAfter at hsymbols ⊢
  rw [hprofiling, hsymbols]
  split
  · rw [Option.map_map]
    simp [Function.comp_def]
  · rfl

theorem Instance.unnoticed_withSymbols (symbols : Option SymbolTable) :
    Unnoticed fun i => { i with symbols := symbols } :=
  ⟨fun _ => rfl, fun _ => rfl, fun _ => rfl, fun _ => rfl, fun _ => rfl, fun _ => rfl, fun _ => rfl,
    fun _ => rfl, fun _ _ _ _ _ _ => rfl⟩

/-- Writing symbols over those of a step shows which ones it has. -/
theorem Step.symbols_eq {s : Step} {symbols : Option SymbolTable}
    (h : s = s.mapInst fun i => { i with symbols := symbols }) : s.inst.symbols = symbols := by
  rw [h]
  cases s <;> rfl

namespace Machine

open Instance (unnoticed_withSymbols)

variable {m n : Machine}

/-- The code offset of a function that is about to be entered: its frame fits on the program
stack. -/
def entering? (m : Machine) : Option UInt32 :=
  match m.inst.program.code[m.pc]? with
  | some ⟨.enter, frame⟩ =>
    if m.ps - frame < m.inst.stackBottom then none else some (m.inst.program.offsetOf m.pc)
  | _ => none

/-- No instruction but a function entry changes the counters. -/
theorem symbols_execute {ins : Instruction} (h : ins.op ≠ .enter) :
    (m.execute ins).inst.symbols = m.inst.symbols := by
  let φ : Instance → Instance := fun i => { i with symbols := m.inst.symbols }
  have hjump (m : Machine) (target : Int32) :
      (m.mapInst φ).jumpTo target = (m.jumpTo target).mapInst φ := by
    unfold jumpTo
    rw [apply_ite (Step.mapInst φ)]
    rfl
  apply Step.symbols_eq
  exact m.execute_mapInst (unnoticed_withSymbols m.inst.symbols) ins (fun he => absurd he h)
    fun _ => pop_mapInst fun _ m => hjump m _

theorem symbols_begin (inst : Instance) (args : CallArgs) :
    (begin inst args).inst.symbols = inst.symbols :=
  Step.symbols_eq (begin_mapInst (unnoticed_withSymbols inst.symbols) inst args)

theorem symbols_resume (m : Machine) (saved : UInt32) (r : Int32) :
    (m.resume saved r).inst.symbols = m.inst.symbols :=
  Step.symbols_eq (m.resume_mapInst (unnoticed_withSymbols m.inst.symbols) saved r)

theorem symbols_enter (m : Machine) (frame : Int32) :
    (m.enter frame).inst.symbols =
      if m.ps - frame < m.inst.stackBottom then m.inst.symbols
      else m.inst.symbolsAfter [m.inst.program.offsetOf m.cur] := by
  unfold enter
  rw [apply_ite Step.inst, apply_ite Instance.symbols]
  simp only [Step.inst, countEntry, Instance.symbolsAfter]
  split
  · rfl
  · split <;> rfl

/-- An instruction counts the function that it enters. -/
theorem symbols_executeOne (m : Machine) :
    m.executeOne.inst.symbols = m.inst.symbolsAfter m.entering?.toList := by
  unfold executeOne entering?
  cases hins : m.inst.program.code[m.pc]? with
  | none => simp [Step.inst]
  | some ins =>
    obtain ⟨op, frame⟩ := ins
    by_cases hop : op = .enter
    · subst hop
      have henter := m.fetched.symbols_enter frame
      simp only at henter ⊢
      refine Eq.trans henter ?_
      show (if m.ps - frame < m.inst.stackBottom then m.inst.symbols else _) = _
      split
      · simp
      · rfl
    · have hnone : (match some (⟨op, frame⟩ : Instruction) with
          | some ⟨.enter, frame⟩ =>
            if m.ps - frame < m.inst.stackBottom then none
            else some (m.inst.program.offsetOf m.pc)
          | _ => none) = none := by
        split
        next heq => exact absurd (congrArg Instruction.op (Option.some.inj heq)) hop
        next => rfl
      rw [hnone]
      exact (symbols_execute hop).trans (m.inst.symbolsAfter_nil).symm

theorem EndsPair.entering? (h : n.EndsPair) : n.entering? = none := by
  obtain ⟨next, hcode, hends⟩ := h
  unfold Machine.entering?
  rw [hcode]
  split
  next heq =>
    cases heq
    cases hends
  next => rfl

/-- So does a step in either mode: a function entry is never part of a pair. -/
theorem symbols_step (m : Machine)
    (hs : Strategy.Suits m.inst.program m.inst.jumpTable m.inst.strategy) :
    m.step.inst.symbols = m.inst.symbolsAfter m.entering?.toList := by
  obtain ⟨n, hn, hstep⟩ := m.exists_executes hs
  cases hn with
  | first => rw [hstep, symbols_executeOne]
  | second hpair hnext _ =>
    have hfirst := m.symbols_executeOne
    rw [hnext] at hfirst
    rw [hstep, symbols_executeOne, hpair.entering?]
    exact (n.inst.symbolsAfter_nil).trans hfirst

end Machine

namespace Moment

variable {I : Interface} {σ ω : Type} {world : World I σ ω} {host : Host I σ}
  {c d : Moment I σ ω}

/-- The code offset of a function that is entered at a moment. -/
def entry? (c : Moment I σ ω) : Option UInt32 := c.phase.running?.bind Machine.entering?

/-- The instance is prepared for some mode. -/
def Prepared (c : Moment I σ ω) : Prop :=
  Strategy.Suits c.inst.program c.inst.jumpTable c.inst.strategy

/-- From one moment to the next the counters change by the function that is entered. -/
theorem next_symbols (h : c.next world host = some d) (hc : c.Prepared) :
    d.inst.symbols = c.inst.symbolsAfter c.entry?.toList := by
  cases follows_of_next h with
  | execute m => exact m.symbols_step hc
  | finish m stack callers ctx =>
    obtain ⟨w, hw⟩ | hw := m.finish_cases ctx
    · simp [inst, Phase.inst, Step.inst, entry?, Phase.running?, hw]
    · simp [inst, Phase.inst, Step.inst, entry?, Phase.running?, hw, Machine.fail,
        Instance.recordFault]
  | fail m cause =>
    simp [inst, Phase.inst, Step.inst, entry?, Phase.running?, Machine.fail, Instance.recordFault]
  | system m saved =>
    simp [inst, Phase.inst, Step.inst, entry?, Phase.running?, Machine.suspend]
  | reply s reply w i =>
    refine Eq.trans ?_ i.symbolsAfter_nil.symm
    cases reply with
    | error e => rfl
    | ok r =>
      simp only [inst, answered]
      split
      · rfl
      · exact (w.machine i).symbols_resume w.saved r
  | view k w i => simp [inst, Phase.inst, entry?, Phase.running?]
  | edit e k w i =>
    refine Eq.trans ?_ i.symbolsAfter_nil.symm
    simp only [inst, Phase.inst, Instance.edit]
    split <;> rfl
  | refuse s command args k e w i => simp [inst, Phase.inst, entry?, Phase.running?]
  | nest s command args k packed w i =>
    refine Eq.trans ?_ i.symbolsAfter_nil.symm
    exact Machine.symbols_begin i.activate packed
  | ask s q k a w i => simp [inst, Phase.inst, entry?, Phase.running?]
  | «return» reply i caller stack =>
    simp [inst, Phase.inst, entry?, Phase.running?, Instance.deactivate]

theorem Prepared.next (h : c.next world host = some d) (hc : c.Prepared) : d.Prepared := by
  have hsame := next_sameModule h
  unfold Prepared
  rw [hsame.program, hsame.jumpTable, hsame.strategy]
  exact hc

/-- The code offsets of the functions that are entered during `n` moments, in order. -/
def entries (world : World I σ ω) (host : Host I σ) (n : Nat) (c : Moment I σ ω) : List UInt32 :=
  Course.collect (next world host) entry? n c

/-- Along a course the counters change by the functions that are entered. -/
theorem after_symbols {n : Nat} (h : Course.after (next world host) n c = some d)
    (hc : c.Prepared) : d.inst.symbols = c.inst.symbolsAfter (c.entries world host n) := by
  induction n generalizing c with
  | zero =>
    cases h
    exact (Instance.symbolsAfter_nil _).symm
  | succ n ih =>
    cases hnext : c.next world host with
    | none => simp [Course.after, hnext] at h
    | some c' =>
      rw [Course.after_succ hnext] at h
      rw [entries, Course.collect_succ hnext, ih h (hc.next hnext)]
      exact Instance.symbolsAfter_append (next_symbols hnext hc) (next_sameModule hnext).profiling _

theorem Prepared.start {inst : Instance}
    (hs : Strategy.Suits inst.program inst.jumpTable inst.strategy) (packed : CallArgs)
    (ctx : Context σ ω) : (start inst packed [] ctx : Moment I σ ω).Prepared := by
  have hsame := start_sameModule (I := I) inst packed [] ctx
  unfold Prepared
  rw [hsame.program, hsame.jumpTable, hsame.strategy]
  exact hs

end Moment

namespace Instance

variable {I : Interface} {σ ω : Type}

/-- A call ends with the given outcome, and functions at the given code offsets are entered until
then. A call that is refused enters none. -/
def EndsEntering (world : World I σ ω) (host : Host I σ) (command : Int32) (args : List Int32)
    (inst : Instance) (ctx : Context σ ω) (out : Outcome Instance σ ω) (entries : List UInt32) :
    Prop :=
  match inst.accept command args with
  | .error e => out = ⟨.error e, inst, ctx⟩ ∧ entries = []
  | .ok packed =>
    ∃ n d, Course.after (Moment.next world host) n (Moment.start inst packed [] ctx) = some d ∧
      d.outcome? = some out ∧ (Moment.start inst packed [] ctx).entries world host n = entries

section Counters

variable {world : World I σ ω} {host : Host I σ} {command : Int32} {args : List Int32}
  {inst : Instance} {ctx : Context σ ω} {out : Outcome Instance σ ω} {entries : List UInt32}

theorem exists_endsEntering {fuel : Nat}
    (h : call world host fuel command args inst ctx = some out) :
    ∃ entries, EndsEntering world host command args inst ctx out entries := by
  obtain ⟨log, hends⟩ := exists_call_iff.1 ⟨fuel, h⟩
  unfold Ends at hends
  unfold EndsEntering
  cases ha : inst.accept command args with
  | error e =>
    rw [ha] at hends
    exact ⟨[], hends.1, rfl⟩
  | ok packed =>
    rw [ha] at hends
    obtain ⟨n, d, hd, hout, -⟩ := hends
    exact ⟨_, n, d, hd, hout, rfl⟩

/-- A call changes the counters by the functions that are entered. -/
theorem EndsEntering.symbols (h : EndsEntering world host command args inst ctx out entries)
    (hs : Strategy.Suits inst.program inst.jumpTable inst.strategy) :
    out.module.symbols = inst.symbolsAfter entries := by
  unfold EndsEntering at h
  split at h
  next e _ =>
    obtain ⟨rfl, rfl⟩ := h
    exact inst.symbolsAfter_nil.symm
  next packed _ =>
    obtain ⟨n, d, hd, hout, rfl⟩ := h
    have hsame := Moment.start_sameModule (I := I) inst packed [] ctx
    have hsymbols : (Moment.start inst packed [] ctx : Moment I σ ω).inst.symbols = inst.symbols :=
      Machine.symbols_begin inst.activate packed
    have hafter := Moment.after_symbols hd (.start hs packed ctx)
    rw [(Moment.ended_of_outcome? hout).2.2.1]
    refine Eq.trans hafter ?_
    unfold symbolsAfter
    rw [hsymbols, hsame.profiling]

/-- The total of the counters grows by the functions that are entered at an offset that is not
before the first symbol, if they are counted at all. -/
theorem EndsEntering.totalCalls (h : EndsEntering world host command args inst ctx out entries)
    (hs : Strategy.Suits inst.program inst.jumpTable inst.strategy) :
    (inst.profiling = false → out.module.symbols = inst.symbols) ∧
    (inst.profiling = true → out.module.symbols.map SymbolTable.totalCalls =
      inst.symbols.map fun t => t.totalCalls + entries.countP t.covers) := by
  rw [h.symbols hs]
  unfold symbolsAfter
  constructor
  · intro hprofiling
    rw [hprofiling]
    rfl
  · intro hprofiling
    rw [if_pos hprofiling, Option.map_map]
    exact congrArg (Option.map · inst.symbols) (funext (SymbolTable.totalCalls_foldl entries))

end Counters

/-- Diagnostics do not influence a call. Of two instances that differ in symbols, symbol map and
profiling only, a call ends on one exactly if it ends on the other, with outcomes that are the same
up to symbols, and after the same system calls. What the call does to the counters is what the
profiling flag says: nothing, or to count the functions that are entered. -/
theorem call_independent_of_diagnostics {R : σ → σ → Prop} {W : ω → ω → Prop}
    {A : (q : I.Request) → I.Answer q → I.Answer q → Prop} {world : World I σ ω}
    {host : Host I σ} (h : Indifferent R W A world host) {a b : Instance}
    (hab : { a with map := b.map, symbols := b.symbols, profiling := b.profiling } = b)
    {mode : Mode} (hmode : a.strategy = Strategy.prepare mode a.program a.jumpTable)
    (command : Int32) (args : List Int32) {ctx ctx' : Context σ ω} (hctx : ctx.Alike R W ctx') :
    ((∃ fuel out, call world host fuel command args a ctx = some out) ↔
      ∃ fuel out, call world host fuel command args b ctx' = some out) ∧
    (∀ fuel fuel' out out', call world host fuel command args a ctx = some out →
      call world host fuel' command args b ctx' = some out' →
      out.Alike R W out' ∧ ∃ log, Ends world host command args a ctx out log ∧
        Ends world host command args b ctx' out' log) ∧
    ∀ fuel out, call world host fuel command args a ctx = some out →
      out.module.map = a.map ∧ out.module.profiling = a.profiling ∧
      ∃ entries, EndsEntering world host command args a ctx out entries ∧
        (a.profiling = false → out.module.symbols = a.symbols) ∧
        (a.profiling = true → out.module.symbols.map SymbolTable.totalCalls =
          a.symbols.map fun t => t.totalCalls + entries.countP t.covers) := by
  have hbare : a.bare = b.bare := by
    rw [← hab]
    rfl
  have halike := ends_alike h hbare hctx command args
  refine ⟨⟨?_, ?_⟩, ?_, ?_⟩
  · rintro ⟨fuel, out, hout⟩
    obtain ⟨log, hends⟩ := exists_call_iff.1 ⟨fuel, hout⟩
    obtain ⟨out', hends', -⟩ := (halike log).1 out hends
    obtain ⟨fuel', hout'⟩ := exists_call_iff.2 ⟨log, hends'⟩
    exact ⟨fuel', out', hout'⟩
  · rintro ⟨fuel', out', hout'⟩
    obtain ⟨log, hends'⟩ := exists_call_iff.1 ⟨fuel', hout'⟩
    obtain ⟨out, hends, -⟩ := (halike log).2 out' hends'
    obtain ⟨fuel, hout⟩ := exists_call_iff.2 ⟨log, hends⟩
    exact ⟨fuel, out, hout⟩
  · intro fuel fuel' out out' hout hout'
    obtain ⟨log, hends⟩ := exists_call_iff.1 ⟨fuel, hout⟩
    obtain ⟨log', hends'⟩ := exists_call_iff.1 ⟨fuel', hout'⟩
    obtain ⟨out₁, hends₁, hrel⟩ := (halike log).1 out hends
    obtain ⟨rfl, rfl⟩ := hends₁.unique hends'
    exact ⟨hrel, log, hends, hends'⟩
  · intro fuel out hout
    have hsame := sameModule_of_call hout
    have hs : Strategy.Suits a.program a.jumpTable a.strategy :=
      hmode ▸ Strategy.suits_prepare mode a.program a.jumpTable
    obtain ⟨entries, hentries⟩ := exists_endsEntering hout
    exact ⟨hsame.map, hsame.profiling, entries, hentries, hentries.totalCalls hs⟩

/-- The image of a module that enters a function, asks for service 0 and then stumbles over an
undefined instruction. -/
def plunging : Bytes :=
  let code : Code :=
    { bytes := [⟨.enter, 8⟩, ⟨.const, -1⟩, ⟨.call, 0⟩, ⟨.undef, 0⟩].flatMap Instruction.encode
      instructionCount := 4
      jumpTargets := [] }
  Layout.build ⟨.legacy, code, [], [], 4⟩

/-- A host that calls back in when it is asked first, and passes on how that call ends. -/
def forwarding : Host Interface.empty Nat := fun n _ =>
  if n = 0 then .enter 1 0 [] fun s reply => .done s reply else .done (n + 1) (.ok 0)

theorem indifferent_forwarding :
    Indifferent Eq Eq (fun _ => Eq) (World.empty : World Interface.empty Nat Unit) forwarding where
  host := by
    rintro n _ args rfl
    unfold forwarding
    split
    · refine .enter 0 [] rfl ?_
      rintro s _ reply reply' rfl hreply
      exact .done rfl hreply
    · exact .done rfl rfl
  world := fun q => q.elim

/-- The host passes on a fault whose symbol depends on the diagnostics. Otherwise the calls end
alike, and with profiling on the outer and the nested function entry are counted. -/
theorem call_independent_of_diagnostics_plunging :
    ∃ (a b : Instance) (out out' : Outcome Instance Nat Unit) (entries : List UInt32),
      load "m" plunging ⟨.compiled, some "0 0 main", true⟩ = .ok a ∧
      b = { a with map := none, symbols := none, profiling := false } ∧
      call World.empty forwarding 9 0 [] a ⟨0, .empty, ()⟩ = some out ∧
      call World.empty forwarding 9 0 [] b ⟨0, .empty, ()⟩ = some out' ∧
      out.Alike Eq Eq out' ∧
      out.module.lastFault.map (·.symbol) = some (some "main+11") ∧
      out'.module.lastFault.map (·.symbol) = some none ∧
      EndsEntering World.empty forwarding 0 [] a ⟨0, .empty, ()⟩ out entries ∧
      out.module.symbols.map SymbolTable.totalCalls =
        a.symbols.map (fun t => t.totalCalls + entries.countP t.covers) ∧
      out.module.symbols.map SymbolTable.totalCalls = some 2 := by
  let ctx : Context Nat Unit := ⟨0, .empty, ()⟩
  let opts : LoadOptions := ⟨.compiled, some "0 0 main", true⟩
  have hparse : (parse plunging).toOption.isSome = true := by decide +kernel
  have hcalls : ((load "m" plunging opts).toOption.bind fun a =>
      (call World.empty forwarding 9 0 [] a ctx).bind fun out =>
        (call World.empty forwarding 9 0 []
            { a with map := none, symbols := none, profiling := false } ctx).map fun out' =>
          (a.profiling, out.module.lastFault.map (·.symbol), out'.module.lastFault.map (·.symbol),
            out.module.symbols.map SymbolTable.totalCalls)) =
      some (true, some (some "main+11"), some none, some 2) := by decide +kernel
  obtain ⟨parsed, hparsed⟩ := Option.isSome_iff_exists.1 hparse
  obtain ⟨a, hload, ha⟩ := load_of_parse (eq_ok_of_toOption hparsed) "m" opts
  rw [hload, Except.toOption, Option.bind_some] at hcalls
  obtain ⟨out, hout, hcalls⟩ := Option.bind_eq_some_iff.1 hcalls
  obtain ⟨out', hout', hseen⟩ := Option.map_eq_some_iff.1 hcalls
  obtain ⟨hprofiling, hseen⟩ := Prod.mk.inj hseen
  obtain ⟨hsymbol, hseen⟩ := Prod.mk.inj hseen
  obtain ⟨hnone, htotal⟩ := Prod.mk.inj hseen
  let b : Instance := { a with map := none, symbols := none, profiling := false }
  have hab : { a with map := b.map, symbols := b.symbols, profiling := b.profiling } = b := rfl
  have hctx : ctx.Alike Eq Eq ctx := ⟨rfl, rfl, rfl⟩
  obtain ⟨-, halike, hcount⟩ :=
    call_independent_of_diagnostics indifferent_forwarding hab ha.strategy 0 [] hctx
  obtain ⟨-, -, entries, hentries, -, hgrows⟩ := hcount 9 out hout
  exact ⟨a, b, out, out', entries, hload, rfl, hout, hout', (halike 9 9 out out' hout hout').1,
    hsymbol, hnone, hentries, hgrows hprofiling, htotal⟩

end Instance

end SandboxVm
