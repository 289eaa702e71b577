/-
SandboxVm.Proofs.Moments — the course of a call, moment by moment.

`Instance.call` gives the outcome of a call but says nothing about what happens on the way:
which instructions run, what a host sees while it is working, how deep the calls are
nested. Here the same course is cut into moments. A moment holds the machine of the
innermost call, or the host service that it waits for, and the calls that wait for it, and
`Moment.next` is the moment after it.

  §1  moments and the one that follows another; `Within`, for calls whose host services make
      certain edits and requests only;
  §2  `Reaches`, `request?` and `requests`: what happens on the way;
  §3  `run_reaches` and `run_lasts`: a run that ends within its fuel passes to its last
      moment, and one that does not goes on for at least as many moments;
  §4  `exists_call_iff`: some fuel gives an outcome exactly when the course of the call ends
      with it. Statements about every moment of a course are thus statements about `call`;
  §5  `History`: one call after another, with other operations in between.
-/
import SandboxVm.Execution
import SandboxVm.Proofs.Courses

namespace SandboxVm

variable {I : Interface} {σ ω : Type}

/-! ## §1 Moments -/

/-- The service makes edits and requests of the given kinds only, whatever it is answered. -/
def Service.Within (edits : Sandbox.Edit → Prop) (asks : I.Request → Prop) : Service I σ → Prop
  | .done _ _ => True
  | .view k => ∀ v, (k v).Within edits asks
  | .edit e k => edits e ∧ k.Within edits asks
  | .enter _ _ _ k => ∀ s reply, (k s reply).Within edits asks
  | .ask _ q k => asks q ∧ ∀ s a, (k s a).Within edits asks

/-- Every service of the host makes edits and requests of the given kinds only. -/
def Host.Within (edits : Sandbox.Edit → Prop) (asks : I.Request → Prop) (host : Host I σ) : Prop :=
  ∀ s args, (host s args).Within edits asks

/-- The host never puts another region in the place of the one that a module has. -/
abbrev Host.InPlace (host : Host I σ) : Prop := host.Within Sandbox.Edit.InPlace fun _ => True

section Within

variable {edits edits' : Sandbox.Edit → Prop} {asks asks' : I.Request → Prop}

theorem Service.Within.mono {sv : Service I σ} (h : sv.Within edits asks)
    (hedits : ∀ e, edits e → edits' e) (hasks : ∀ q, asks q → asks' q) :
    sv.Within edits' asks' := by
  induction sv with
  | done s reply => trivial
  | view k ih => exact fun v => ih v (h v)
  | edit e k ih => exact ⟨hedits e h.1, ih h.2⟩
  | enter s command args k ih => exact fun s reply => ih s reply (h s reply)
  | ask s q k ih => exact ⟨hasks q h.1, fun s a => ih s a (h.2 s a)⟩

theorem Host.Within.mono {host : Host I σ} (h : host.Within edits asks)
    (hedits : ∀ e, edits e → edits' e) (hasks : ∀ q, asks q → asks' q) :
    host.Within edits' asks' :=
  fun s args => (h s args).mono hedits hasks

/-- Without a restriction every host will do. -/
theorem Host.within_true (host : Host I σ) : host.Within (fun _ => True) fun _ => True := by
  intro s args
  generalize host s args = sv
  induction sv with
  | done s reply => trivial
  | view k ih => exact ih
  | edit e k ih => exact ⟨trivial, ih⟩
  | enter s command args k ih => exact ih
  | ask s q k ih => exact ⟨trivial, ih⟩

/-- Several edits of the given kind, before what is within bounds itself. -/
theorem Service.within_edits {es : List Sandbox.Edit} {k : Service I σ}
    (hes : ∀ e ∈ es, edits e) (hk : k.Within edits asks) :
    (Service.edits es k).Within edits asks := by
  induction es with
  | nil => exact hk
  | cons e es ih =>
    exact ⟨hes e List.mem_cons_self, ih fun x hx => hes x (List.mem_cons_of_mem _ hx)⟩

end Within

/-- The instance that a step was made on. -/
def Step.inst : Step → Instance
  | .next m => m.inst
  | .done m => m.inst
  | .system m _ => m.inst
  | .fault m _ => m.inst

/-- What is kept of a machine while a host service runs. -/
structure Waiting where
  stack : OperandStack
  pc : Nat
  cur : Nat
  ps : Int32
  /-- The word that the number of the service replaced. -/
  saved : UInt32

/-- The machine that goes on after a host service, which left the instance as given. -/
def Waiting.machine (w : Waiting) (inst : Instance) : Machine :=
  ⟨{ inst with programStack := w.ps }, w.stack, w.pc, w.cur, w.ps⟩

/-- A call whose host service has called back in. -/
structure Caller (I : Interface) (σ : Type) where
  waiting : Waiting
  /-- How the service goes on with the reply. -/
  rest : σ → Reply → Service I σ
  /-- The program stack before the call. -/
  entryStack : Int32

/-- What the innermost call is doing. -/
inductive Phase (I : Interface) (σ : Type) where
  /-- The machine has made a step. -/
  | step (s : Step)
  /-- A host service is at work. -/
  | service (sv : Service I σ) (w : Waiting) (inst : Instance)
  /-- The call has ended; the instance still counts it. -/
  | ended (reply : Reply) (inst : Instance)

/-- One moment in the course of a call. -/
structure Moment (I : Interface) (σ ω : Type) where
  phase : Phase I σ
  /-- The program stack before the innermost call. -/
  entryStack : Int32
  /-- The calls around the innermost one, which is not among them; the nearest first. -/
  callers : List (Caller I σ)
  context : Context σ ω

namespace Phase

/-- The instance as it is in a phase. -/
def inst : Phase I σ → Instance
  | .step s => s.inst
  | .service _ _ inst => inst
  | .ended _ inst => inst

/-- The machine that is about to execute an instruction. -/
def running? : Phase I σ → Option Machine
  | .step (.next m) => some m
  | _ => none

/-- The machine that has come to a fault, and the cause. -/
def fault? : Phase I σ → Option (Machine × FaultCause)
  | .step (.fault m cause) => some (m, cause)
  | _ => none

/-- The service that is at work. -/
def service? : Phase I σ → Option (Service I σ)
  | .service sv _ _ => some sv
  | _ => none

theorem running?_eq_some_iff {p : Phase I σ} {m : Machine} :
    p.running? = some m ↔ p = .step (.next m) := by
  cases p with
  | step s => cases s <;> simp [running?]
  | service | ended => simp [running?]

theorem fault?_eq_some_iff {p : Phase I σ} {m : Machine} {cause : FaultCause} :
    p.fault? = some (m, cause) ↔ p = .step (.fault m cause) := by
  cases p with
  | step s => cases s <;> simp [fault?]
  | service | ended => simp [fault?]

theorem service?_eq_some_iff {p : Phase I σ} {sv : Service I σ} :
    p.service? = some sv ↔ ∃ w inst, p = .service sv w inst := by
  cases p <;> simp [service?]

end Phase

namespace Moment

/-- The instance as it is at a moment. -/
def inst (c : Moment I σ ω) : Instance := c.phase.inst

/-- The first moment of a call that was accepted with the given arguments. -/
def start (inst : Instance) (args : CallArgs) (callers : List (Caller I σ))
    (ctx : Context σ ω) : Moment I σ ω where
  phase := .step (Machine.begin inst.activate args)
  entryStack := inst.programStack
  callers := callers
  context := { ctx with tracker := ctx.tracker.enter inst.name }

/-- What a machine does with the reply of a host service. -/
def answered (w : Waiting) (inst : Instance) : Reply → Phase I σ
  | .error e => .ended (.error e) (w.machine inst).inst
  | .ok r =>
    if inst.state = .faulted then .ended (.error (Machine.nestedFault inst)) (w.machine inst).inst
    else .step ((w.machine inst).resume w.saved r)

/-- The moment after one at which a host service is at work; `none` when the world outside
does not answer. -/
def serve (world : World I σ ω) (c : Moment I σ ω) (sv : Service I σ) (w : Waiting)
    (inst : Instance) : Option (Moment I σ ω) :=
  match sv with
  | .done s reply =>
    some { c with phase := answered w inst reply, context := { c.context with host := s } }
  | .view k => some { c with phase := .service (k (Hosted.view inst)) w inst }
  | .edit e k => some { c with phase := .service k w (Hosted.edit e inst) }
  | .enter s command args k =>
    let ctx := { c.context with host := s }
    match inst.accept command args with
    | .error e => some { c with phase := .service (k s (.error e)) w inst, context := ctx }
    | .ok args => some (start inst args (⟨w, k, c.entryStack⟩ :: c.callers) ctx)
  | .ask s q k =>
    match world q { c.context with host := s } with
    | none => none
    | some (answer, ctx) =>
      some { c with phase := .service (k ctx.host answer) w inst, context := ctx }

/-- The moment after one at which the innermost call has ended; `none` for the outermost
call. -/
def return? (c : Moment I σ ω) (reply : Reply) (inst : Instance) : Option (Moment I σ ω) :=
  match c.callers with
  | [] => none
  | caller :: callers =>
    some
      { phase := .service (caller.rest c.context.host reply) caller.waiting
          (inst.deactivate c.entryStack)
        entryStack := caller.entryStack
        callers := callers
        context := { c.context with tracker := c.context.tracker.leave } }

/-- The moment after another one. There is none when the outermost call has ended, or when
the world outside does not answer. -/
def next (world : World I σ ω) (host : Host I σ) (c : Moment I σ ω) : Option (Moment I σ ω) :=
  match c.phase with
  | .step (.next m) => some { c with phase := .step m.step }
  | .step (.done m) =>
    some { c with phase := .ended (m.finish c.context).reply (m.finish c.context).module }
  | .step (.fault m cause) =>
    some { c with phase := .ended (m.fail cause c.context).reply (m.fail cause c.context).module }
  | .step (.system m saved) =>
    some { c with
      phase := .service (host c.context.host (Machine.syscallArgs m.inst.memory m.ps))
        ⟨m.stack, m.pc, m.cur, m.ps, saved⟩ (Machine.suspend m.inst m.ps) }
  | .service sv w inst => c.serve world sv w inst
  | .ended reply inst => c.return? reply inst

/-- The ways in which one moment follows another, one for each thing that can happen. -/
inductive Follows (world : World I σ ω) (host : Host I σ) :
    Moment I σ ω → Moment I σ ω → Prop where
  /-- The machine executes an operation. -/
  | execute (m : Machine) (stack callers ctx) :
    Follows world host ⟨.step (.next m), stack, callers, ctx⟩ ⟨.step m.step, stack, callers, ctx⟩
  /-- The outermost frame was left. -/
  | finish (m : Machine) (stack callers ctx) :
    Follows world host ⟨.step (.done m), stack, callers, ctx⟩
      ⟨.ended (m.finish ctx).reply (m.finish ctx).module, stack, callers, ctx⟩
  /-- A fault is recorded. -/
  | fail (m : Machine) (cause : FaultCause) (stack callers ctx) :
    Follows world host ⟨.step (.fault m cause), stack, callers, ctx⟩
      ⟨.ended (m.fail cause ctx).reply (m.fail cause ctx).module, stack, callers, ctx⟩
  /-- The host is asked for a service. -/
  | system (m : Machine) (saved : UInt32) (stack callers ctx) :
    Follows world host ⟨.step (.system m saved), stack, callers, ctx⟩
      ⟨.service (host ctx.host (Machine.syscallArgs m.inst.memory m.ps))
        ⟨m.stack, m.pc, m.cur, m.ps, saved⟩ (Machine.suspend m.inst m.ps), stack, callers, ctx⟩
  /-- The service is done. -/
  | reply (s : σ) (reply : Reply) (w : Waiting) (inst : Instance) (stack callers ctx) :
    Follows world host ⟨.service (.done s reply) w inst, stack, callers, ctx⟩
      ⟨answered w inst reply, stack, callers, { ctx with host := s }⟩
  /-- The service looks at the module. -/
  | view (k : View → Service I σ) (w : Waiting) (inst : Instance) (stack callers ctx) :
    Follows world host ⟨.service (.view k) w inst, stack, callers, ctx⟩
      ⟨.service (k (Hosted.view inst)) w inst, stack, callers, ctx⟩
  /-- The service edits memory. -/
  | edit (e : Sandbox.Edit) (k : Service I σ) (w : Waiting) (inst : Instance) (stack callers ctx) :
    Follows world host ⟨.service (.edit e k) w inst, stack, callers, ctx⟩
      ⟨.service k w (inst.edit e), stack, callers, ctx⟩
  /-- A nested call is refused. -/
  | refuse (s : σ) (command : Int32) (args : List Int32) (k : σ → Reply → Service I σ)
      (e : Error) (w : Waiting) (inst : Instance) (stack callers ctx)
      (h : inst.accept command args = .error e) :
    Follows world host ⟨.service (.enter s command args k) w inst, stack, callers, ctx⟩
      ⟨.service (k s (.error e)) w inst, stack, callers, { ctx with host := s }⟩
  /-- A nested call begins. -/
  | nest (s : σ) (command : Int32) (args : List Int32) (k : σ → Reply → Service I σ)
      (packed : CallArgs) (w : Waiting) (inst : Instance) (stack callers ctx)
      (h : inst.accept command args = .ok packed) :
    Follows world host ⟨.service (.enter s command args k) w inst, stack, callers, ctx⟩
      (start inst packed (⟨w, k, stack⟩ :: callers) { ctx with host := s })
  /-- The world outside answers. -/
  | ask (s : σ) (q : I.Request) (k : σ → I.Answer q → Service I σ) (a : I.Answer q)
      (w : Waiting) (inst : Instance) (stack callers ctx ctx')
      (h : world q { ctx with host := s } = some (a, ctx')) :
    Follows world host ⟨.service (.ask s q k) w inst, stack, callers, ctx⟩
      ⟨.service (k ctx'.host a) w inst, stack, callers, ctx'⟩
  /-- A nested call has ended. -/
  | return (reply : Reply) (inst : Instance) (caller : Caller I σ) (stack callers ctx) :
    Follows world host ⟨.ended reply inst, stack, caller :: callers, ctx⟩
      ⟨.service (caller.rest ctx.host reply) caller.waiting (inst.deactivate stack),
        caller.entryStack, callers, { ctx with tracker := ctx.tracker.leave }⟩

theorem follows_of_next {world : World I σ ω} {host : Host I σ} {c d : Moment I σ ω}
    (h : c.next world host = some d) : Follows world host c d := by
  obtain ⟨phase, stack, callers, ctx⟩ := c
  cases phase with
  | step s =>
    cases s with
    | next m => cases h; exact .execute m stack callers ctx
    | done m => cases h; exact .finish m stack callers ctx
    | fault m cause => cases h; exact .fail m cause stack callers ctx
    | system m saved => cases h; exact .system m saved stack callers ctx
  | service sv w inst =>
    cases sv with
    | done s reply => cases h; exact .reply s reply w inst stack callers ctx
    | view k => cases h; exact .view k w inst stack callers ctx
    | edit e k => cases h; exact .edit e k w inst stack callers ctx
    | enter s command args k =>
      cases ha : inst.accept command args with
      | error e =>
        simp only [next, serve, ha] at h
        cases h
        exact .refuse s command args k e w inst stack callers ctx ha
      | ok packed =>
        simp only [next, serve, ha] at h
        cases h
        exact .nest s command args k packed w inst stack callers ctx ha
    | ask s q k =>
      cases hq : world q { ctx with host := s } with
      | none => simp [next, serve, hq] at h
      | some answer =>
        simp only [next, serve, hq] at h
        cases h
        exact .ask s q k answer.1 w inst stack callers ctx answer.2 hq
  | ended reply inst =>
    cases callers with
    | nil => cases h
    | cons caller callers => cases h; exact .return reply inst caller stack callers ctx

section Within

variable {edits : Sandbox.Edit → Prop} {asks : I.Request → Prop} {world : World I σ ω}
  {host : Host I σ} {c d : Moment I σ ω}

/-- The service that is at work and those that wait for calls of theirs make edits and requests of
the given kinds only. -/
structure Within (edits : Sandbox.Edit → Prop) (asks : I.Request → Prop)
    (c : Moment I σ ω) : Prop where
  service : ∀ sv, c.phase.service? = some sv → sv.Within edits asks
  callers : ∀ caller ∈ c.callers, ∀ s reply, (caller.rest s reply).Within edits asks

theorem within_start (inst : Instance) (args : CallArgs) (ctx : Context σ ω) :
    Within edits asks (start inst args [] ctx : Moment I σ ω) where
  service := by
    intro sv hsv
    cases hsv
  callers := nofun

theorem service?_answered (w : Waiting) (inst : Instance) (reply : Reply) :
    (answered w inst reply : Phase I σ).service? = none := by
  cases reply with
  | error e => rfl
  | ok r =>
    simp only [answered]
    split <;> rfl

theorem Within.next (hhost : host.Within edits asks) (h : c.next world host = some d)
    (hc : c.Within edits asks) : d.Within edits asks := by
  obtain ⟨hservice, hcallers⟩ := hc
  cases follows_of_next h with
  | execute m => exact ⟨nofun, hcallers⟩
  | finish m => exact ⟨nofun, hcallers⟩
  | fail m cause => exact ⟨nofun, hcallers⟩
  | system m saved =>
    refine ⟨?_, hcallers⟩
    rintro sv ⟨⟩
    exact hhost _ _
  | reply s reply w i =>
    refine ⟨?_, hcallers⟩
    intro sv hsv
    rw [service?_answered] at hsv
    cases hsv
  | view k w i =>
    refine ⟨?_, hcallers⟩
    rintro sv ⟨⟩
    exact hservice _ rfl _
  | edit e k w i =>
    obtain ⟨-, hk⟩ := hservice _ rfl
    refine ⟨?_, hcallers⟩
    rintro sv ⟨⟩
    exact hk
  | refuse s command args k e w i =>
    refine ⟨?_, hcallers⟩
    rintro sv ⟨⟩
    exact hservice _ rfl _ _
  | nest s command args k packed w i =>
    refine ⟨nofun, ?_⟩
    intro caller hcaller
    rcases List.mem_cons.1 hcaller with rfl | hcaller
    · exact hservice _ rfl
    · exact hcallers caller hcaller
  | ask s q k a w i =>
    obtain ⟨-, hk⟩ := hservice _ rfl
    refine ⟨?_, hcallers⟩
    rintro sv ⟨⟩
    exact hk _ _
  | «return» reply i caller =>
    refine ⟨?_, fun x hx => hcallers x (List.mem_cons_of_mem _ hx)⟩
    rintro sv ⟨⟩
    exact hcallers caller List.mem_cons_self _ _

end Within

/-- The outcome of the outermost call, at the moment when it has ended. -/
def outcome? (c : Moment I σ ω) : Option (Outcome Instance σ ω) :=
  match c.phase, c.callers with
  | .ended reply inst, [] =>
    some ⟨reply, inst.deactivate c.entryStack,
      { c.context with tracker := c.context.tracker.leave }⟩
  | _, _ => none

/-! ## §2 Courses -/

open Course (after after_succ after_add after_eq_none eq_of_last)

section Courses

variable (world : World I σ ω) (host : Host I σ)

/-- The course passes from one moment to another. -/
abbrev Reaches (c d : Moment I σ ω) : Prop := Course.Reaches (next world host) c d

/-- The course ends at a moment without an outcome, because the world did not answer. -/
def Stuck (c : Moment I σ ω) : Prop := c.next world host = none ∧ c.outcome? = none

/-- The arguments of the system call that is made at a moment. -/
def request? (c : Moment I σ ω) : Option SyscallArgs :=
  match c.phase with
  | .step (.system m _) => some (Machine.syscallArgs m.inst.memory m.ps)
  | _ => none

/-- The arguments of the system calls made during `n` moments, first one first. -/
def requests : (n : Nat) → Moment I σ ω → List SyscallArgs
  | 0, _ => []
  | n + 1, c =>
    c.request?.toList ++
      match c.next world host with
      | none => []
      | some d => requests n d

end Courses

variable {world : World I σ ω} {host : Host I σ} {c d e : Moment I σ ω} {n k : Nat}

theorem requests_succ (h : c.next world host = some d) :
    c.requests world host (n + 1) = c.request?.toList ++ d.requests world host n := by
  simp [requests, h]

/-- An outcome is that of an outermost call that has ended. -/
theorem ended_of_outcome? {out : Outcome Instance σ ω} (h : c.outcome? = some out) :
    c.phase = .ended out.reply c.inst ∧ c.callers = [] ∧
      out.module = c.inst.deactivate c.entryStack ∧
      out.context = { c.context with tracker := c.context.tracker.leave } := by
  obtain ⟨phase, stack, callers, ctx⟩ := c
  cases phase with
  | ended reply inst =>
    cases callers with
    | nil =>
      cases h
      exact ⟨rfl, rfl, rfl, rfl⟩
    | cons caller callers => simp [outcome?] at h
  | step s => simp [outcome?] at h
  | service sv w inst => simp [outcome?] at h

/-- A moment with an outcome is the last one. -/
theorem next_eq_none_of_outcome? {out : Outcome Instance σ ω} (h : c.outcome? = some out) :
    c.next world host = none := by
  obtain ⟨hphase, hcallers, -⟩ := ended_of_outcome? h
  simp [next, return?, hphase, hcallers]

/-! ## §3 Courses and fuel -/

section Fuel

variable {run : Step → Context σ ω → Option (Outcome Instance σ ω)}

/-- A service that is carried out passes from its first moment to the reply, provided that
the nested calls it makes pass to their ends. -/
theorem service_reaches
    (hrun : ∀ {s ctx out} (stack : Int32) (callers : List (Caller I σ)), run s ctx = some out →
      Reaches world host ⟨.step s, stack, callers, ctx⟩
        ⟨.ended out.reply out.module, stack, callers, out.context⟩)
    (sv : Service I σ) {w : Waiting} {inst : Instance} {ctx : Context σ ω}
    {out : Outcome Instance σ ω} (stack : Int32) (callers : List (Caller I σ))
    (h : sv.run world (Instance.callWith run) inst ctx = some out) :
    Reaches world host ⟨.service sv w inst, stack, callers, ctx⟩
      ⟨answered w out.module out.reply, stack, callers, out.context⟩ := by
  induction sv generalizing inst ctx with
  | done s reply =>
    cases h
    exact Course.Reaches.head rfl (Course.Reaches.refl _)
  | view k ih => exact Course.Reaches.head rfl (ih _ h)
  | edit e k ih => exact Course.Reaches.head rfl (ih h)
  | enter s command args k ih =>
    simp only [Service.run, Instance.callWith] at h
    cases ha : inst.accept command args with
    | error e =>
      simp only [ha] at h
      refine Course.Reaches.head ?_ (ih _ _ h)
      simp [next, serve, ha]
    | ok packed =>
      simp only [ha] at h
      cases hr : run (Machine.begin inst.activate packed)
          { ctx with host := s, tracker := ctx.tracker.enter inst.name } with
      | none => simp [hr] at h
      | some nested =>
        simp only [hr] at h
        have hbegin : next world host
              ⟨.service (.enter s command args k) w inst, stack, callers, ctx⟩
            = some (start inst packed (⟨w, k, stack⟩ :: callers) { ctx with host := s }) := by
          simp [next, serve, ha]
        exact Course.Reaches.head hbegin ((hrun _ _ hr).trans (Course.Reaches.head rfl (ih _ _ h)))
  | ask s q k ih =>
    simp only [Service.run] at h
    cases hq : world q { ctx with host := s } with
    | none => simp [hq] at h
    | some answer =>
      simp only [hq] at h
      refine Course.Reaches.head ?_ (ih _ _ h)
      simp [next, serve, hq]

/-- A run that ends within its fuel passes from its first moment to its last one. -/
theorem run_reaches {fuel : Nat} {s : Step} {ctx : Context σ ω} {out : Outcome Instance σ ω}
    (stack : Int32) (callers : List (Caller I σ))
    (h : Instance.run world host fuel s ctx = some out) :
    Reaches world host ⟨.step s, stack, callers, ctx⟩
      ⟨.ended out.reply out.module, stack, callers, out.context⟩ := by
  induction fuel generalizing s ctx out stack callers with
  | zero => simp [Instance.run] at h
  | succ fuel ih =>
    cases s with
    | next m => exact Course.Reaches.head rfl (ih stack callers h)
    | done m =>
      cases h
      have hctx : (m.finish ctx).context = ctx := by
        unfold Machine.finish
        split <;> rfl
      rw [hctx]
      exact Course.Reaches.head rfl (Course.Reaches.refl _)
    | fault m cause =>
      cases h
      exact Course.Reaches.head rfl (Course.Reaches.refl _)
    | system m saved =>
      obtain ⟨inst, operands, pc, cur, ps⟩ := m
      simp only [Instance.run] at h
      cases hs : (host ctx.host (Machine.syscallArgs inst.memory ps)).run world
          (Instance.callWith (Instance.run world host fuel)) (Machine.suspend inst ps) ctx with
      | none => simp [hs] at h
      | some reply =>
        obtain ⟨reply, inst', ctx'⟩ := reply
        simp only [hs] at h
        have hserved := service_reaches (fun stack callers => ih stack callers) _
          (w := ⟨operands, pc, cur, ps, saved⟩) stack callers hs
        refine Course.Reaches.head rfl (hserved.trans ?_)
        cases reply with
        | error e =>
          cases h
          exact Course.Reaches.refl _
        | ok r =>
          simp only at h
          by_cases hf : inst'.state = .faulted
          · rw [if_pos hf] at h
            cases h
            simp only [answered, if_pos hf]
            exact Course.Reaches.refl _
          · rw [if_neg hf] at h
            simp only [answered, if_neg hf]
            exact ih stack callers h

/-- The course goes on for at least `n` moments, or comes to one at which the world does not
answer. -/
def Lasts (world : World I σ ω) (host : Host I σ) (n : Nat) (c : Moment I σ ω) : Prop :=
  (∃ k d, n ≤ k ∧ after (next world host) k c = some d) ∨
    ∃ d, c.Reaches world host d ∧ d.Stuck world host

theorem Lasts.head (h : c.next world host = some d) (hd : Lasts world host n d) :
    Lasts world host (n + 1) c := by
  obtain ⟨k, e, hk, he⟩ | ⟨e, he, hstuck⟩ := hd
  · exact .inl ⟨k + 1, e, by omega, by rw [after_succ h, he]⟩
  · exact .inr ⟨e, Course.Reaches.head h he, hstuck⟩

theorem Lasts.of_reaches (h : c.Reaches world host d) (hd : Lasts world host n d) :
    Lasts world host n c := by
  obtain ⟨i, hi⟩ := h
  obtain ⟨k, e, hk, he⟩ | ⟨e, he, hstuck⟩ := hd
  · exact .inl ⟨i + k, e, by omega, by rw [after_add hi, he]⟩
  · exact .inr ⟨e, Course.Reaches.trans ⟨i, hi⟩ he, hstuck⟩

/-- A service that is not carried out lasts as long as the nested call that is not. -/
theorem service_lasts
    (hrun : ∀ {s ctx out} (stack : Int32) (callers : List (Caller I σ)), run s ctx = some out →
      Reaches world host ⟨.step s, stack, callers, ctx⟩
        ⟨.ended out.reply out.module, stack, callers, out.context⟩)
    (hnone : ∀ {s ctx} (stack : Int32) (callers : List (Caller I σ)), run s ctx = none →
      Lasts world host n ⟨.step s, stack, callers, ctx⟩)
    (sv : Service I σ) {w : Waiting} {inst : Instance} {ctx : Context σ ω} (stack : Int32)
    (callers : List (Caller I σ))
    (h : sv.run world (Instance.callWith run) inst ctx = none) :
    Lasts world host n ⟨.service sv w inst, stack, callers, ctx⟩ := by
  induction sv generalizing inst ctx with
  | done s reply => simp [Service.run] at h
  | view k ih => exact .of_reaches (Course.Reaches.head rfl (Course.Reaches.refl _)) (ih _ h)
  | edit e k ih => exact .of_reaches (Course.Reaches.head rfl (Course.Reaches.refl _)) (ih h)
  | enter s command args k ih =>
    simp only [Service.run, Instance.callWith] at h
    cases ha : inst.accept command args with
    | error e =>
      simp only [ha] at h
      refine .of_reaches (Course.Reaches.head ?_ (Course.Reaches.refl _)) (ih _ _ h)
      simp [next, serve, ha]
    | ok packed =>
      simp only [ha] at h
      have hbegin : next world host ⟨.service (.enter s command args k) w inst, stack, callers, ctx⟩
          = some (start inst packed (⟨w, k, stack⟩ :: callers) { ctx with host := s }) := by
        simp [next, serve, ha]
      refine .of_reaches (Course.Reaches.head hbegin (Course.Reaches.refl _)) ?_
      cases hr : run (Machine.begin inst.activate packed)
          { ctx with host := s, tracker := ctx.tracker.enter inst.name } with
      | none => exact hnone _ _ hr
      | some nested =>
        simp only [hr] at h
        refine .of_reaches ((hrun _ _ hr).trans ?_) (ih _ _ h)
        exact Course.Reaches.head rfl (Course.Reaches.refl _)
  | ask s q k ih =>
    simp only [Service.run] at h
    cases hq : world q { ctx with host := s } with
    | none =>
      refine .inr ⟨_, Course.Reaches.refl _, ?_, rfl⟩
      simp [next, serve, hq]
    | some answer =>
      simp only [hq] at h
      refine .of_reaches (Course.Reaches.head ?_ (Course.Reaches.refl _)) (ih _ _ h)
      simp [next, serve, hq]

/-- A run that does not end within its fuel lasts for at least as many moments. -/
theorem run_lasts {fuel : Nat} {s : Step} {ctx : Context σ ω} (stack : Int32)
    (callers : List (Caller I σ)) (h : Instance.run world host fuel s ctx = none) :
    Lasts world host fuel ⟨.step s, stack, callers, ctx⟩ := by
  induction fuel generalizing s ctx stack callers with
  | zero => exact .inl ⟨0, _, Nat.le_refl 0, rfl⟩
  | succ fuel ih =>
    cases s with
    | next m => exact .head rfl (ih stack callers h)
    | done m => simp [Instance.run] at h
    | fault m cause => simp [Instance.run] at h
    | system m saved =>
      obtain ⟨inst, operands, pc, cur, ps⟩ := m
      simp only [Instance.run] at h
      refine .head rfl ?_
      cases hs : (host ctx.host (Machine.syscallArgs inst.memory ps)).run world
          (Instance.callWith (Instance.run world host fuel)) (Machine.suspend inst ps) ctx with
      | none =>
        exact service_lasts (fun stack callers => run_reaches stack callers)
          (fun stack callers => ih stack callers) _ stack callers hs
      | some reply =>
        obtain ⟨reply, inst', ctx'⟩ := reply
        simp only [hs] at h
        refine .of_reaches (service_reaches (fun stack callers => run_reaches stack callers) _
          stack callers hs) ?_
        cases reply with
        | error e => simp at h
        | ok r =>
          simp only at h
          by_cases hf : inst'.state = .faulted
          · simp [hf] at h
          · rw [if_neg hf] at h
            simp only [answered, if_neg hf]
            exact ih stack callers h

end Fuel

/-- A course that ends with an outcome is that of a run with enough fuel. -/
theorem exists_run_of_reaches {s : Step} {stack : Int32} {ctx : Context σ ω}
    {out : Outcome Instance σ ω} (hd : d.outcome? = some out)
    (h : Reaches world host ⟨.step s, stack, [], ctx⟩ d) :
    ∃ fuel ran, Instance.run world host fuel s ctx = some ran ∧
      out = { ran with
        module := ran.module.deactivate stack
        context := { ran.context with tracker := ran.context.tracker.leave } } := by
  obtain ⟨n, hn⟩ := h
  have hlast : d.next world host = none := next_eq_none_of_outcome? hd
  cases hr : Instance.run world host (n + 1) s ctx with
  | none =>
    -- the course would have to go on behind its last moment, or to stop at another one
    exfalso
    obtain ⟨k, e, hk, he⟩ | ⟨e, ⟨k, hk⟩, hstuck⟩ := run_lasts stack [] hr
    · simp [after_eq_none hlast hn (show n < k by omega)] at he
    · obtain ⟨-, rfl⟩ := eq_of_last hlast hstuck.1 hn hk
      simp [hstuck.2] at hd
  | some ran =>
    refine ⟨n + 1, ran, hr, ?_⟩
    obtain ⟨k, hk⟩ := run_reaches stack [] hr
    obtain ⟨-, rfl⟩ := eq_of_last hlast rfl hn hk
    cases hd
    rfl

end Moment

/-! ## §4 Calls -/

namespace Instance

/-- A call ends with the given outcome after the given system calls. A call that is refused
ends at once. -/
def Ends (world : World I σ ω) (host : Host I σ) (command : Int32) (args : List Int32)
    (inst : Instance) (ctx : Context σ ω) (out : Outcome Instance σ ω)
    (log : List SyscallArgs) : Prop :=
  match inst.accept command args with
  | .error e => out = ⟨.error e, inst, ctx⟩ ∧ log = []
  | .ok args =>
    ∃ n d, Course.after (Moment.next world host) n (Moment.start inst args [] ctx) = some d ∧
      d.outcome? = some out ∧ (Moment.start inst args [] ctx).requests world host n = log

variable {world : World I σ ω} {host : Host I σ} {command : Int32} {args : List Int32}
  {inst : Instance} {ctx : Context σ ω} {out : Outcome Instance σ ω}

/-- Some fuel gives an outcome exactly when the course of the call ends with it. -/
theorem exists_call_iff :
    (∃ fuel, call world host fuel command args inst ctx = some out) ↔
      ∃ log, Ends world host command args inst ctx out log := by
  cases ha : inst.accept command args with
  | error e =>
    simp only [call, callWith, Ends, ha]
    constructor
    · rintro ⟨-, h⟩
      exact ⟨[], (Option.some.inj h).symm, rfl⟩
    · rintro ⟨log, rfl, -⟩
      exact ⟨0, rfl⟩
  | ok packed =>
    simp only [call, callWith, Ends, ha]
    constructor
    · rintro ⟨fuel, h⟩
      cases hr : run world host fuel (Machine.begin inst.activate packed)
          { ctx with tracker := ctx.tracker.enter inst.name } with
      | none => simp [hr] at h
      | some ran =>
        simp only [hr] at h
        obtain ⟨n, hn⟩ := Moment.run_reaches inst.programStack [] hr
        exact ⟨_, n, _, hn, by simpa [Moment.outcome?] using h, rfl⟩
    · rintro ⟨log, n, d, hn, hd, -⟩
      obtain ⟨fuel, ran, hr, rfl⟩ := Moment.exists_run_of_reaches hd ⟨n, hn⟩
      exact ⟨fuel, by simp [hr]⟩

/-- A call ends in one way only. -/
theorem Ends.unique {out' : Outcome Instance σ ω} {log log' : List SyscallArgs}
    (h : Ends world host command args inst ctx out log)
    (h' : Ends world host command args inst ctx out' log') : out = out' ∧ log = log' := by
  unfold Ends at h h'
  cases ha : inst.accept command args with
  | error e =>
    rw [ha] at h h'
    obtain ⟨rfl, rfl⟩ := h
    obtain ⟨rfl, rfl⟩ := h'
    exact ⟨rfl, rfl⟩
  | ok packed =>
    rw [ha] at h h'
    obtain ⟨n, d, hd, hout, rfl⟩ := h
    obtain ⟨k, e, he, hout', rfl⟩ := h'
    obtain ⟨rfl, rfl⟩ := Course.eq_of_last (Moment.next_eq_none_of_outcome? hout)
      (Moment.next_eq_none_of_outcome? hout') hd he
    exact ⟨Option.some.inj (hout.symm.trans hout'), rfl⟩

/-- The course of a call comes to a moment. -/
def Visits (world : World I σ ω) (host : Host I σ) (command : Int32) (args : List Int32)
    (inst : Instance) (ctx : Context σ ω) (c : Moment I σ ω) : Prop :=
  ∃ packed, inst.accept command args = .ok packed ∧
    (Moment.start inst packed [] ctx).Reaches world host c

/-- A call that returns was refused, or its course has come to a last moment. -/
theorem call_cases {fuel : Nat} (h : call world host fuel command args inst ctx = some out) :
    (∃ e, inst.accept command args = .error e ∧ out = ⟨.error e, inst, ctx⟩) ∨
      ∃ d, Visits world host command args inst ctx d ∧ d.outcome? = some out := by
  obtain ⟨log, hends⟩ := exists_call_iff.1 ⟨fuel, h⟩
  unfold Ends at hends
  split at hends
  · rename_i e ha
    exact .inl ⟨e, ha, hends.1⟩
  · rename_i packed ha
    obtain ⟨n, d, hd, hout, -⟩ := hends
    exact .inr ⟨d, ⟨packed, ha, n, hd⟩, hout⟩

/-- The last moment of a course gives the outcome of the call. -/
theorem Visits.exists_call {d : Moment I σ ω} (hd : Visits world host command args inst ctx d)
    (hout : d.outcome? = some out) :
    ∃ fuel, call world host fuel command args inst ctx = some out := by
  obtain ⟨packed, ha, n, hn⟩ := hd
  refine exists_call_iff.2 ⟨(Moment.start inst packed [] ctx).requests world host n, ?_⟩
  unfold Ends
  rw [ha]
  exact ⟨n, d, hn, hout, rfl⟩

theorem Visits.tail {c d : Moment I σ ω} (hc : Visits world host command args inst ctx c)
    (h : c.Reaches world host d) : Visits world host command args inst ctx d := by
  obtain ⟨packed, ha, hr⟩ := hc
  exact ⟨packed, ha, hr.trans h⟩

/-- Every moment of a course leads to the last one. -/
theorem Visits.reaches_last {c d : Moment I σ ω}
    (hc : Visits world host command args inst ctx c)
    (hd : Visits world host command args inst ctx d) (hlast : d.next world host = none) :
    c.Reaches world host d := by
  obtain ⟨packed, ha, hc⟩ := hc
  obtain ⟨packed', ha', hd⟩ := hd
  obtain rfl : packed = packed' := Except.ok.inj (ha.symm.trans ha')
  exact hd.to_last hlast hc

/-- What holds at the first moment of a call and is handed on holds at every moment. -/
theorem Visits.preserves {P : Moment I σ ω → Prop} {c : Moment I σ ω}
    (hc : Visits world host command args inst ctx c)
    (hstart : ∀ packed, inst.accept command args = .ok packed →
      P (Moment.start inst packed [] ctx))
    (hstep : ∀ {c d : Moment I σ ω}, c.next world host = some d → P c → P d) : P c := by
  obtain ⟨packed, ha, hr⟩ := hc
  exact hr.preserves hstep (hstart packed ha)

/-- A result that is there is not an error. -/
theorem eq_ok_of_toOption {ε α : Type} {x : Except ε α} {a : α} (h : x.toOption = some a) :
    x = .ok a := by
  cases x with
  | error e => cases h
  | ok b =>
    cases h
    rfl

/-- The operation is not an edit, or one of the given kind. -/
def Operation.Within (edits : Sandbox.Edit → Prop) : Operation → Prop
  | .edit e => edits e
  | .reload .. | .unload | .attachSymbols _ | .setProfiling _ | .profileReport => True

theorem Operation.Within.mono {edits edits' : Sandbox.Edit → Prop} {op : Operation}
    (h : op.Within edits) (hedits : ∀ e, edits e → edits' e) : op.Within edits' := by
  cases op with
  | edit e => exact hedits e h
  | _ => trivial

/-- What a host makes of an instance that it holds, by calls of every kind and by operations
that are `allowed`. All edits on the way, those by services in the middle of calls included, are
of the given kind. -/
inductive History (edits : Sandbox.Edit → Prop) (allowed : Instance → Operation → Prop)
    (a : Instance) : Instance → Prop where
  | start : History edits allowed a a
  | call {I : Interface} {σ ω : Type} {b : Instance} (world : World I σ ω) (host : Host I σ)
      (fuel : Nat) (command : Int32) (args : List Int32) (ctx : Context σ ω)
      (out : Outcome Instance σ ω) (hb : History edits allowed a b)
      (hhost : host.Within edits fun _ => True)
      (h : Instance.call world host fuel command args b ctx = some out) :
    History edits allowed a out.module
  | operate {b : Instance} (op : Operation) (tracker : Tracker) (hb : History edits allowed a b)
      (h : allowed b op) (hop : op.Within edits) :
    History edits allowed a (b.operate tracker op).2.1

end Instance

end SandboxVm
