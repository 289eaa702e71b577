/-
SandboxVm.Proofs.NativeMoments — the course of a call into a native module.

The counterpart of `Moment` for native modules. A native call carries out a task; the task
may ask for a host service, and both the task and the service may call the module again. A
moment holds what the innermost call is doing and, for each call around it, how that call
goes on. There is no machine and no memory, so a moment is little more than the two
continuations.

`call_cases` is the link with `NativeInstance.call`: a call that returns was refused, or its
course has come to a last moment with the outcome of the call.
-/
import SandboxVm.Native
import SandboxVm.Proofs.Courses

namespace SandboxVm

variable {I : Interface} {σ ω : Type}

/-! ## Moments -/

/-- What the innermost call of a native module is doing. -/
inductive NativePhase (I : Interface) (σ : Type) where
  | task (t : Task)
  /-- A host service is at work; the task goes on with its reply. -/
  | service (sv : Service I σ) (k : Reply → Task)
  /-- The call has ended; the module still counts it. -/
  | ended (reply : Reply)

/-- A call around the innermost one, with how it goes on. -/
inductive NativeCaller (I : Interface) (σ : Type) where
  /-- The task called the module. -/
  | task (k : Reply → Task)
  /-- A host service of the task called the module. -/
  | service (f : σ → Reply → Service I σ) (k : Reply → Task)

/-- One moment in the course of a call into a native module. -/
structure NativeMoment (I : Interface) (σ ω : Type) where
  phase : NativePhase I σ
  inst : NativeInstance
  /-- The calls around the innermost one; the nearest first. -/
  callers : List (NativeCaller I σ)
  context : Context σ ω

/-- How a caller goes on with the reply of the call that it made. -/
def NativeCaller.resume (caller : NativeCaller I σ) (s : σ) (reply : Reply) : NativePhase I σ :=
  match caller with
  | .task k => .task (k reply)
  | .service f k => .service (f s reply) k

namespace NativeMoment

/-- The first moment of a call that was accepted with the given arguments. -/
def start (n : NativeInstance) (args : CallArgs) (callers : List (NativeCaller I σ))
    (ctx : Context σ ω) : NativeMoment I σ ω where
  phase := .task (n.module args)
  inst := { n with callLevel := n.callLevel + 1 }
  callers := callers
  context := { ctx with tracker := ctx.tracker.enter n.name }

/-- The moment after the module is called again by `caller`. -/
def nest (c : NativeMoment I σ ω) (caller : NativeCaller I σ) (s : σ) (command : Int32)
    (args : List Int32) : NativeMoment I σ ω :=
  let ctx := { c.context with host := s }
  match CallArgs.pack command args with
  | .error e => { c with phase := caller.resume s (.error (.bridge e)), context := ctx }
  | .ok packed => start c.inst packed (caller :: c.callers) ctx

/-- The moment after another one. There is none when the outermost call has ended, or when
the world outside does not answer. -/
def next (world : World I σ ω) (host : Host I σ) (c : NativeMoment I σ ω) :
    Option (NativeMoment I σ ω) :=
  match c.phase with
  | .task (.done reply) => some { c with phase := .ended reply }
  | .task (.view k) => some { c with phase := .task (k (Hosted.view c.inst)) }
  | .task (.system args k) => some { c with phase := .service (host c.context.host args) k }
  | .task (.enter command args k) => some (c.nest (.task k) c.context.host command args)
  | .service (.done s reply) k =>
    some { c with phase := .task (k reply), context := { c.context with host := s } }
  | .service (.view f) k => some { c with phase := .service (f (Hosted.view c.inst)) k }
  | .service (.edit _ sv) k => some { c with phase := .service sv k }
  | .service (.enter s command args f) k => some (c.nest (.service f k) s command args)
  | .service (.ask s q f) k =>
    match world q { c.context with host := s } with
    | none => none
    | some (answer, ctx) =>
      some { c with phase := .service (f ctx.host answer) k, context := ctx }
  | .ended reply =>
    match c.callers with
    | [] => none
    | caller :: callers =>
      some
        { phase := caller.resume c.context.host reply
          inst := { c.inst with callLevel := c.inst.callLevel - 1 }
          callers := callers
          context := { c.context with tracker := c.context.tracker.leave } }

/-- The outcome of the outermost call, at the moment when it has ended. -/
def outcome? (c : NativeMoment I σ ω) : Option (Outcome NativeInstance σ ω) :=
  match c.phase, c.callers with
  | .ended reply, [] =>
    some ⟨reply, { c.inst with callLevel := c.inst.callLevel - 1 },
      { c.context with tracker := c.context.tracker.leave }⟩
  | _, _ => none

/-- The course passes from one moment to another. -/
abbrev Reaches (world : World I σ ω) (host : Host I σ) (c d : NativeMoment I σ ω) : Prop :=
  Course.Reaches (next world host) c d

theorem ended_of_outcome? {c : NativeMoment I σ ω} {out : Outcome NativeInstance σ ω}
    (h : c.outcome? = some out) :
    c.callers = [] ∧ out.module = { c.inst with callLevel := c.inst.callLevel - 1 } ∧
      out.context = { c.context with tracker := c.context.tracker.leave } := by
  obtain ⟨phase, inst, callers, ctx⟩ := c
  cases phase with
  | ended reply =>
    cases callers with
    | nil =>
      cases h
      exact ⟨rfl, rfl, rfl⟩
    | cons caller callers => simp [outcome?] at h
  | task t => simp [outcome?] at h
  | service sv k => simp [outcome?] at h

/-! ## The link with calls -/

variable {world : World I σ ω} {host : Host I σ}

/-- A call with the given outcome was refused, or its course comes to an end within any calls
around it. -/
def Ran (world : World I σ ω) (host : Host I σ) (command : Int32) (args : List Int32)
    (n : NativeInstance) (ctx : Context σ ω) (out : Outcome NativeInstance σ ω) : Prop :=
  match CallArgs.pack command args with
  | .error e => out = ⟨.error (.bridge e), n, ctx⟩
  | .ok packed =>
    ∃ n' ctx', out.module = { n' with callLevel := n'.callLevel - 1 } ∧
      out.context = { ctx' with tracker := ctx'.tracker.leave } ∧
      ∀ callers, Reaches world host (start n packed callers ctx)
        ⟨.ended out.reply, n', callers, ctx'⟩

/-- A nested call passes from the moment at which it is made to its caller's next one. -/
theorem Ran.reaches {command : Int32} {args : List Int32} {n : NativeInstance}
    {ctx : Context σ ω} {out : Outcome NativeInstance σ ω} {s : σ} {phase : NativePhase I σ}
    (h : Ran world host command args n { ctx with host := s } out) (caller : NativeCaller I σ)
    (callers : List (NativeCaller I σ))
    (hnext : next world host ⟨phase, n, callers, ctx⟩ =
      some (nest ⟨phase, n, callers, ctx⟩ caller s command args)) :
    Reaches world host ⟨phase, n, callers, ctx⟩
      ⟨caller.resume out.context.host out.reply, out.module, callers, out.context⟩ := by
  refine Course.Reaches.head hnext ?_
  unfold Ran at h
  unfold nest
  split at h
  · rename_i e he
    subst h
    exact Course.Reaches.refl _
  · rename_i packed hpacked
    obtain ⟨reply, module, context⟩ := out
    obtain ⟨n', ctx', rfl, rfl, hr⟩ := h
    exact (hr (caller :: callers)).trans (Course.Reaches.head rfl (Course.Reaches.refl _))

section

variable {enter : Entry NativeInstance σ ω}
  (henter : ∀ {command args n ctx out}, enter command args n ctx = some out →
    Ran world host command args n ctx out)
include henter

/-- A service that is carried out passes to the task that asked for it. -/
theorem service_reaches (sv : Service I σ) {n : NativeInstance} {ctx : Context σ ω}
    {out : Outcome NativeInstance σ ω} (h : sv.run world enter n ctx = some out)
    (k : Reply → Task) (callers : List (NativeCaller I σ)) :
    Reaches world host ⟨.service sv k, n, callers, ctx⟩
      ⟨.task (k out.reply), out.module, callers, out.context⟩ := by
  induction sv generalizing n ctx with
  | done s reply =>
    cases h
    exact Course.Reaches.head rfl (Course.Reaches.refl _)
  | view f ih => exact Course.Reaches.head rfl (ih _ h)
  | edit e sv ih => exact Course.Reaches.head rfl (ih h)
  | enter s command args f ih =>
    simp only [Service.run] at h
    cases he : enter command args n { ctx with host := s } with
    | none => simp [he] at h
    | some nested =>
      simp only [he] at h
      exact ((henter he).reaches (.service f k) callers rfl).trans (ih _ _ h)
  | ask s q f ih =>
    simp only [Service.run] at h
    cases hq : world q { ctx with host := s } with
    | none => simp [hq] at h
    | some answer =>
      simp only [hq] at h
      refine Course.Reaches.head ?_ (ih _ _ h)
      simp [next, hq]

/-- A task that is carried out passes to the end of its call. -/
theorem task_reaches (t : Task) {n : NativeInstance} {ctx : Context σ ω}
    {out : Outcome NativeInstance σ ω}
    (h : NativeInstance.perform enter
      (fun args n ctx => (host ctx.host args).run world enter n ctx) t n ctx = some out)
    (callers : List (NativeCaller I σ)) :
    Reaches world host ⟨.task t, n, callers, ctx⟩
      ⟨.ended out.reply, out.module, callers, out.context⟩ := by
  induction t generalizing n ctx with
  | done reply =>
    cases h
    exact Course.Reaches.head rfl (Course.Reaches.refl _)
  | view k ih => exact Course.Reaches.head rfl (ih _ h)
  | system args k ih =>
    simp only [NativeInstance.perform] at h
    cases hs : (host ctx.host args).run world enter n ctx with
    | none => simp [hs] at h
    | some served =>
      simp only [hs] at h
      have hserved := service_reaches henter _ hs k callers
      exact Course.Reaches.head rfl (hserved.trans (ih _ h))
  | enter command args k ih =>
    simp only [NativeInstance.perform] at h
    cases he : enter command args n ctx with
    | none => simp [he] at h
    | some nested =>
      simp only [he] at h
      exact ((henter he).reaches (.task k) callers rfl).trans (ih _ h)

end

theorem ran_of_call {fuel : Nat} {command : Int32} {args : List Int32} {n : NativeInstance}
    {ctx : Context σ ω} {out : Outcome NativeInstance σ ω}
    (h : NativeInstance.call world host fuel command args n ctx = some out) :
    Ran world host command args n ctx out := by
  induction fuel generalizing command args n ctx out with
  | zero => simp [NativeInstance.call] at h
  | succ fuel ih =>
    unfold Ran
    cases hp : CallArgs.pack command args with
    | error e =>
      simp only [NativeInstance.call, hp] at h
      exact (Option.some.inj h).symm
    | ok packed =>
      simp only [NativeInstance.call, hp] at h
      split at h
      · cases h
      · rename_i ran hran
        cases h
        exact ⟨ran.module, ran.context, rfl, rfl, task_reaches ih _ hran⟩

end NativeMoment

namespace NativeInstance

variable {world : World I σ ω} {host : Host I σ} {command : Int32} {args : List Int32}
  {n : NativeInstance} {ctx : Context σ ω}

/-- The course of a call comes to a moment. -/
def Visits (world : World I σ ω) (host : Host I σ) (command : Int32) (args : List Int32)
    (n : NativeInstance) (ctx : Context σ ω) (c : NativeMoment I σ ω) : Prop :=
  ∃ packed, CallArgs.pack command args = .ok packed ∧
    (NativeMoment.start n packed [] ctx).Reaches world host c

/-- A call that returns was refused, or its course has come to a last moment. -/
theorem call_cases {fuel : Nat} {out : Outcome NativeInstance σ ω}
    (h : call world host fuel command args n ctx = some out) :
    (∃ e, out = ⟨.error (.bridge e), n, ctx⟩) ∨
      ∃ d, Visits world host command args n ctx d ∧ d.outcome? = some out := by
  have hran := NativeMoment.ran_of_call h
  unfold NativeMoment.Ran at hran
  split at hran
  · rename_i e he
    exact .inl ⟨e, hran⟩
  · rename_i packed hpacked
    obtain ⟨reply, module, context⟩ := out
    obtain ⟨n', ctx', rfl, rfl, hr⟩ := hran
    exact .inr ⟨_, ⟨packed, hpacked, hr []⟩, rfl⟩

/-- What holds at the first moment of a call and is handed on holds at every moment. -/
theorem Visits.preserves {P : NativeMoment I σ ω → Prop} {c : NativeMoment I σ ω}
    (hc : Visits world host command args n ctx c)
    (hstart : ∀ packed, P (NativeMoment.start n packed [] ctx))
    (hstep : ∀ {c d : NativeMoment I σ ω}, c.next world host = some d → P c → P d) : P c := by
  obtain ⟨packed, -, hr⟩ := hc
  exact Course.Reaches.preserves hstep hr (hstart packed)

end NativeInstance

end SandboxVm
