/-
SandboxVm.Proofs.Faults — a fault stops an instance at every depth.

A fault may be recorded in a nested call, which the machines of the calls around it do not
see, and each host service on the way out may swallow the failure, replace it, or call in
again. What protects the instance is the check of its state when a service is done. Here
this is followed through the whole course of a call.

  §1  `recorded?` is the fault recorded at a moment, `Halted` a moment after one;
  §2  `Unwinds` lists what can still happen then, and `Halted.unwinds` proves the list
      complete: no instruction is among it;
  §3  `Halted.ends`: unwinding comes to an end whatever the services do;
  §4  a halted moment is the only way to be faulted in the course of a call;
  §5  `History.stopped`: afterwards, nothing but a reload lets a call in again.

`fault_halts_instance` puts them together.
-/
import SandboxVm.Proofs.Steps

namespace SandboxVm

variable {I : Interface} {σ ω : Type}

namespace Moment

/-! ## §1 Faults and halted moments -/

/-- The fault that is recorded at a moment: the one that stopped the machine, or that of an
outermost frame left with a wrong number of operands. -/
def recorded? (c : Moment I σ ω) : Option Fault :=
  match c.phase with
  | .step (.fault m cause) => some (m.inst.recordFault cause m.cur).1
  | .step (.done m) =>
    match m.stack.operands with
    | [_] => none
    | _ => some (m.inst.recordFault .opStackCorrupted m.cur).1
  | _ => none

/-- The edit that a host service makes at a moment. -/
def written? (c : Moment I σ ω) : Option Sandbox.Edit :=
  match c.phase with
  | .service (.edit e _) _ _ => some e
  | _ => none

/-- A moment after a fault was recorded: a service is at work, or a call has failed. -/
structure Halted (f : Fault) (c : Moment I σ ω) : Prop where
  state : c.inst.state = .faulted
  lastFault : c.inst.lastFault = some f
  idle : (∃ sv w i, c.phase = .service sv w i) ∨ ∃ e i, c.phase = .ended (.error e) i

variable {world : World I σ ω} {host : Host I σ} {c d : Moment I σ ω} {f : Fault}

theorem Halted.ne_step (hc : c.Halted f) (s : Step) : c.phase ≠ .step s := by
  intro h
  rcases hc.idle with ⟨sv, w, i, hi⟩ | ⟨e, i, hi⟩
  · simp [h] at hi
  · simp [h] at hi

theorem Halted.recorded? (hc : c.Halted f) : c.recorded? = none := by
  rcases hc.idle with ⟨sv, w, i, hi⟩ | ⟨e, i, hi⟩
  · simp [Moment.recorded?, hi]
  · simp [Moment.recorded?, hi]

/-- The call in which a fault is recorded fails with it. -/
theorem next_of_recorded? (world : World I σ ω) (host : Host I σ) (h : c.recorded? = some f) :
    ∃ d, c.next world host = some d ∧ d.Halted f ∧ d.phase = .ended (.error (.fault f)) d.inst := by
  obtain ⟨phase, stack, callers, ctx⟩ := c
  -- the moment behind a recorded fault, for the two places that record one
  have hfail (m : Machine) (cause : FaultCause) (hf : (m.inst.recordFault cause m.cur).1 = f) :
      (⟨.ended (m.fail cause ctx).reply (m.fail cause ctx).module, stack, callers, ctx⟩ :
        Moment I σ ω).Halted f := by
    refine ⟨rfl, ?_, .inr ⟨_, _, rfl⟩⟩
    rw [← hf]
    rfl
  cases phase with
  | step s =>
    cases s with
    | fault m cause =>
      have hf : (m.inst.recordFault cause m.cur).1 = f := Option.some.inj h
      refine ⟨_, rfl, hfail m cause hf, ?_⟩
      rw [← hf]
      rfl
    | done m =>
      have hcorrupt : m.finish ctx = m.fail .opStackCorrupted ctx := by
        simp only [recorded?] at h
        unfold Machine.finish
        split
        · rename_i w hw
          simp [hw] at h
        · rfl
      have hf : (m.inst.recordFault .opStackCorrupted m.cur).1 = f := by
        simp only [recorded?] at h
        split at h
        · cases h
        · exact Option.some.inj h
      refine ⟨⟨.ended (m.finish ctx).reply (m.finish ctx).module, stack, callers, ctx⟩, rfl, ?_, ?_⟩
      · rw [hcorrupt]
        exact hfail m _ hf
      · simp only [hcorrupt, Phase.inst, inst]
        rw [← hf]
        rfl
    | next m => simp [recorded?] at h
    | system m saved => simp [recorded?] at h
  | service sv w i => simp [recorded?] at h
  | ended reply i => simp [recorded?] at h

/-- Only a recorded fault makes an instance faulted. -/
theorem state_next (h : c.next world host = some d) (hc : c.inst.state ≠ .faulted)
    (hr : c.recorded? = none) : d.inst.state ≠ .faulted := by
  cases follows_of_next h with
  | execute m => exact fun hd => hc (m.step_executed.state ▸ hd)
  | finish m stack callers ctx =>
    obtain ⟨w, hw⟩ | hw := m.finish_cases ctx
    · simp only [inst, Phase.inst, hw]
      exact hc
    · simp only [recorded?] at hr
      split at hr
      · rename_i w hops
        simp only [inst, Phase.inst, Machine.finish, hops]
        exact hc
      · cases hr
  | fail m cause => simp [recorded?] at hr
  | system m saved => exact hc
  | reply s reply w i => exact fun hd => hc ((answered_executed w i reply).state ▸ hd)
  | view k w i => exact hc
  | edit e k w i => exact fun hd => hc ((i.rewritten_edit e).state ▸ hd)
  | refuse s command args k e w i => exact hc
  | nest s command args k packed w i stack callers ctx ha =>
    rw [state_start]
    decide
  | ask s q k a w i => exact hc
  | «return» reply i caller stack =>
    exact fun hd => hc ((i.deactivate_state_eq_faulted stack).1 hd)

/-! ## §2 Unwinding -/

/-- What can still happen once the fault `f` was recorded. -/
inductive Unwinds (world : World I σ ω) (f : Fault) : Moment I σ ω → Moment I σ ω → Prop where
  /-- The service answers as if nothing had happened; its caller fails with the fault. -/
  | swallowed (s : σ) (r : Int32) (w : Waiting) (inst : Instance) (stack callers ctx) :
    Unwinds world f ⟨.service (.done s (.ok r)) w inst, stack, callers, ctx⟩
      ⟨.ended (.error (.fault f)) { inst with programStack := w.ps }, stack, callers,
        { ctx with host := s }⟩
  /-- The service fails; its caller fails likewise. -/
  | failed (s : σ) (e : Error) (w : Waiting) (inst : Instance) (stack callers ctx) :
    Unwinds world f ⟨.service (.done s (.error e)) w inst, stack, callers, ctx⟩
      ⟨.ended (.error e) { inst with programStack := w.ps }, stack, callers,
        { ctx with host := s }⟩
  | view (k : View → Service I σ) (w : Waiting) (inst : Instance) (stack callers ctx) :
    Unwinds world f ⟨.service (.view k) w inst, stack, callers, ctx⟩
      ⟨.service (k (Hosted.view inst)) w inst, stack, callers, ctx⟩
  | edit (e : Sandbox.Edit) (k : Service I σ) (w : Waiting) (inst : Instance)
      (stack callers ctx) :
    Unwinds world f ⟨.service (.edit e k) w inst, stack, callers, ctx⟩
      ⟨.service k w { inst with memory := inst.memory.edit e }, stack, callers, ctx⟩
  /-- The service calls in again and is told that the instance has faulted. -/
  | refused (s : σ) (command : Int32) (args : List Int32) (k : σ → Reply → Service I σ)
      (w : Waiting) (inst : Instance) (stack callers ctx) :
    Unwinds world f ⟨.service (.enter s command args k) w inst, stack, callers, ctx⟩
      ⟨.service (k s (.error (.unavailable .faulted))) w inst, stack, callers,
        { ctx with host := s }⟩
  | ask (s : σ) (q : I.Request) (k : σ → I.Answer q → Service I σ) (a : I.Answer q)
      (w : Waiting) (inst : Instance) (stack callers ctx ctx')
      (h : world q { ctx with host := s } = some (a, ctx')) :
    Unwinds world f ⟨.service (.ask s q k) w inst, stack, callers, ctx⟩
      ⟨.service (k ctx'.host a) w inst, stack, callers, ctx'⟩
  /-- A nested call has failed; the service that made it is told the error. -/
  | return (e : Error) (inst : Instance) (caller : Caller I σ) (stack callers ctx) :
    Unwinds world f ⟨.ended (.error e) inst, stack, caller :: callers, ctx⟩
      ⟨.service (caller.rest ctx.host (.error e)) caller.waiting (inst.deactivate stack),
        caller.entryStack, callers, { ctx with tracker := ctx.tracker.leave }⟩

/-- An instance that faulted accepts no call. -/
theorem accept_of_faulted {i : Instance} (h : i.state = .faulted) (command : Int32)
    (args : List Int32) : i.accept command args = .error (.unavailable .faulted) := by
  simp [Instance.accept, h]

/-- A halted moment is followed by a halted one, in one of the ways that `Unwinds` lists. -/
theorem Halted.unwinds (hc : c.Halted f) (h : c.next world host = some d) :
    Unwinds world f c d ∧ d.Halted f := by
  have hne := hc.ne_step
  have hstate := hc.state
  have hlast := hc.lastFault
  cases follows_of_next h with
  | execute m => exact absurd rfl (hne _)
  | finish m => exact absurd rfl (hne _)
  | fail m cause => exact absurd rfl (hne _)
  | system m saved => exact absurd rfl (hne _)
  | reply s reply w i stack callers ctx =>
    cases reply with
    | error e =>
      exact ⟨.failed s e w i stack callers ctx, hstate, hlast, .inr ⟨_, _, rfl⟩⟩
    | ok r =>
      have hi : i.state = .faulted := hstate
      have hf : i.lastFault = some f := hlast
      have hnested : Machine.nestedFault i = .fault f := by simp [Machine.nestedFault, hf]
      have hans : (answered w i (.ok r) : Phase I σ) =
          .ended (.error (.fault f)) { i with programStack := w.ps } := by
        simp only [answered, if_pos hi, hnested]
        rfl
      rw [hans]
      exact ⟨.swallowed s r w i stack callers ctx, hstate, hlast, .inr ⟨_, _, rfl⟩⟩
  | view k w i stack callers ctx =>
    exact ⟨.view k w i stack callers ctx, hstate, hlast, .inl ⟨_, _, _, rfl⟩⟩
  | edit e k w i stack callers ctx =>
    have hedit : i.edit e = { i with memory := i.memory.edit e } := by
      have hi : i.state = .faulted := hstate
      simp [Instance.edit, hi]
    rw [hedit]
    exact ⟨.edit e k w i stack callers ctx, hstate, hlast, .inl ⟨_, _, _, rfl⟩⟩
  | refuse s command args k e w i stack callers ctx ha =>
    obtain rfl : Error.unavailable .faulted = e :=
      Except.error.inj ((accept_of_faulted hstate command args).symm.trans ha)
    exact ⟨.refused s command args k w i stack callers ctx, hstate, hlast,
      .inl ⟨_, _, _, rfl⟩⟩
  | nest s command args k packed w i stack callers ctx ha =>
    have hi : i.state = .faulted := hstate
    simp [accept_of_faulted hi] at ha
  | ask s q k a w i stack callers ctx ctx' hq =>
    exact ⟨.ask s q k a w i stack callers ctx ctx' hq, hstate, hlast, .inl ⟨_, _, _, rfl⟩⟩
  | «return» reply i caller stack callers ctx =>
    obtain ⟨sv, w, j, hj⟩ | ⟨e, j, hj⟩ := hc.idle
    · cases hj
    · cases hj
      have hd := (i.deactivate_state_eq_faulted stack).2 hstate
      exact ⟨.return e i caller stack callers ctx, hd, hlast, .inl ⟨_, _, _, rfl⟩⟩

/-- While a course unwinds, memory changes by the edits of the services and not otherwise. -/
theorem Unwinds.memory (h : Unwinds world f c d) :
    d.inst.memory = c.written?.elim c.inst.memory c.inst.memory.edit := by
  cases h <;> rfl

theorem Reaches.halted (h : c.Reaches world host d) (hc : c.Halted f) : d.Halted f :=
  h.preserves (P := Halted f) (fun hnext hc => (hc.unwinds hnext).2) hc

/-! ## §3 Unwinding ends -/

/-- The course ends: with an outcome, or because the world does not answer. -/
def Finishes (world : World I σ ω) (host : Host I σ) (c : Moment I σ ω) : Prop :=
  ∃ d, c.Reaches world host d ∧ ((∃ out, d.outcome? = some out) ∨ d.Stuck world host)

theorem Finishes.head (h : c.next world host = some d) (hd : d.Finishes world host) :
    c.Finishes world host := by
  obtain ⟨e, he, hout⟩ := hd
  exact ⟨e, Course.Reaches.head h he, hout⟩

/-- A service of a faulted instance finishes when a failure of its caller does. -/
theorem finishes_service {stack : Int32} {callers : List (Caller I σ)}
    (hended : ∀ (e : Error) (i : Instance) (ctx : Context σ ω), i.state = .faulted →
      Finishes world host ⟨.ended (.error e) i, stack, callers, ctx⟩)
    (sv : Service I σ) (w : Waiting) (i : Instance) (ctx : Context σ ω)
    (hi : i.state = .faulted) : Finishes world host ⟨.service sv w i, stack, callers, ctx⟩ := by
  induction sv generalizing i ctx with
  | done s reply =>
    refine .head rfl ?_
    cases reply with
    | error e => exact hended _ _ _ hi
    | ok r =>
      simp only [answered, if_pos hi]
      exact hended _ _ _ hi
  | view k ih => exact .head rfl (ih _ i ctx hi)
  | edit e k ih => exact .head rfl (ih _ ctx ((i.rewritten_edit e).state.trans hi))
  | enter s command args k ih =>
    refine .head ?_ (ih s (.error (.unavailable .faulted)) i { ctx with host := s } hi)
    simp [next, serve, accept_of_faulted hi]
  | ask s q k ih =>
    cases hq : world q { ctx with host := s } with
    | none =>
      refine ⟨_, Course.Reaches.refl _, .inr ⟨?_, rfl⟩⟩
      simp [next, serve, hq]
    | some answer =>
      refine .head ?_ (ih answer.2.host answer.1 i answer.2 hi)
      simp [next, serve, hq]

theorem finishes_ended (callers : List (Caller I σ)) (stack : Int32) (e : Error) (i : Instance)
    (ctx : Context σ ω) (hi : i.state = .faulted) :
    Finishes world host ⟨.ended (.error e) i, stack, callers, ctx⟩ := by
  induction callers generalizing stack e i ctx with
  | nil => exact ⟨_, Course.Reaches.refl _, .inl ⟨_, rfl⟩⟩
  | cons caller callers ih =>
    have hd := (i.deactivate_state_eq_faulted stack).2 hi
    exact .head rfl (finishes_service (fun e i ctx => ih caller.entryStack e i ctx) _ _ _ _ hd)

/-- From a halted moment on, every call around it comes to its end. -/
theorem Halted.finishes (hc : c.Halted f) : c.Finishes world host := by
  obtain ⟨phase, stack, callers, ctx⟩ := c
  have hstate := hc.state
  rcases hc.idle with ⟨sv, w, i, rfl⟩ | ⟨e, i, rfl⟩
  · exact finishes_service (fun e i ctx => finishes_ended callers stack e i ctx) sv w i ctx hstate
  · exact finishes_ended callers stack e i ctx hstate

/-! ## §4 The course of a call -/

/-- A faulted instance is at a halted moment. -/
def Sound (c : Moment I σ ω) : Prop := c.inst.state = .faulted → ∃ f, c.Halted f

theorem Sound.next (h : c.next world host = some d) (hc : c.Sound) : d.Sound := by
  intro hd
  by_cases hf : c.inst.state = .faulted
  · obtain ⟨f, hhalt⟩ := hc hf
    exact ⟨f, (hhalt.unwinds h).2⟩
  · cases hr : c.recorded? with
    | none => exact absurd hd (state_next h hf hr)
    | some f =>
      obtain ⟨d', hd', hhalt, -⟩ := next_of_recorded? world host hr
      obtain rfl : d = d' := Option.some.inj (h.symm.trans hd')
      exact ⟨f, hhalt⟩

/-- The outcome of a course at whose last moment the instance is faulted. -/
theorem Halted.outcome? {out : Outcome Instance σ ω} (hc : c.Halted f)
    (hout : c.outcome? = some out) :
    (∃ e, out.reply = .error e) ∧ out.module.state = .faulted ∧ out.module.lastFault = some f ∧
      out.module.memory = c.inst.memory := by
  obtain ⟨hphase, -, hmodule, -⟩ := ended_of_outcome? hout
  rw [hmodule]
  refine ⟨?_, (c.inst.deactivate_state_eq_faulted _).2 hc.state, hc.lastFault, rfl⟩
  rcases hc.idle with ⟨sv, w, j, hj⟩ | ⟨e, j, hj⟩
  · simp [hphase] at hj
  · simp only [hphase, Phase.ended.injEq] at hj
    exact ⟨e, hj.1⟩

end Moment

namespace Instance

variable {world : World I σ ω} {host : Host I σ} {command : Int32} {args : List Int32}
  {inst : Instance} {ctx : Context σ ω} {c d : Moment I σ ω} {f : Fault}

theorem Visits.sound (hc : Visits world host command args inst ctx c) : c.Sound := by
  refine hc.preserves (P := Moment.Sound) ?_ Moment.Sound.next
  intro packed ha hf
  rw [Moment.state_start] at hf
  cases hf

/-- A call that comes to a halted moment fails, and leaves the fault behind. -/
theorem outcome_of_halted {fuel : Nat} {out : Outcome Instance σ ω}
    (h : call world host fuel command args inst ctx = some out)
    (hc : Visits world host command args inst ctx c) (hhalt : c.Halted f) :
    (∃ e, out.reply = .error e) ∧ out.module.state = .faulted ∧
      out.module.lastFault = some f := by
  rcases call_cases h with ⟨e, ha, -⟩ | ⟨d, hd, hout⟩
  · obtain ⟨packed, ha', -⟩ := hc
    simp [ha] at ha'
  · have hreach := hc.reaches_last hd (Moment.next_eq_none_of_outcome? hout)
    obtain ⟨hreply, hstate, hlast, -⟩ := (hreach.halted hhalt).outcome? hout
    exact ⟨hreply, hstate, hlast⟩

/-- A call that succeeds does not come to a moment at which the instance is faulted. -/
theorem state_of_ok {fuel : Nat} {out : Outcome Instance σ ω} {r : Int32}
    (h : call world host fuel command args inst ctx = some out) (hok : out.reply = .ok r)
    (hc : Visits world host command args inst ctx c) : c.inst.state ≠ .faulted := by
  intro hf
  obtain ⟨f, hhalt⟩ := hc.sound hf
  obtain ⟨⟨e, he⟩, -⟩ := outcome_of_halted h hc hhalt
  simp [hok] at he

/-! ## §5 After the call -/

/-- Stopped by a fault: the instance takes no calls. -/
def Stopped (f : Fault) (inst : Instance) : Prop :=
  (inst.state = .faulted ∨ inst.state = .unloaded) ∧ inst.lastFault = some f

/-- Whether an operation puts a new image in place. -/
def Operation.Reloads (inst : Instance) : Operation → Prop
  | .reload bytes map => ∃ b, inst.reload bytes map = .ok b
  | _ => False

/-- A stopped instance refuses a call and is left as it was. -/
theorem Stopped.call (h : Stopped f inst) (world : World I σ ω) (host : Host I σ) (fuel : Nat)
    (command : Int32) (args : List Int32) (ctx : Context σ ω) :
    ∃ reason, Instance.call world host fuel command args inst ctx =
      some ⟨.error (.unavailable reason), inst, ctx⟩ := by
  rcases h.1 with hs | hs
  · exact ⟨.faulted, by simp [Instance.call, callWith, accept, hs]⟩
  · exact ⟨.unloaded, by simp [Instance.call, callWith, accept, hs]⟩

theorem Stopped.operate (h : Stopped f inst) (op : Operation) (tracker : Tracker)
    (hop : ¬ op.Reloads inst) : Stopped f (inst.operate tracker op).2.1 := by
  rcases inst.operate_cases tracker op with ⟨bytes, map, rfl, hr⟩ | ⟨-, t, hu⟩ | ⟨hop, -⟩
  · exact absurd ⟨_, hr⟩ hop
  · obtain ⟨hstate, hlast⟩ := unload_of_ok hu
    exact ⟨.inr hstate, hlast.trans h.2⟩
  · unfold Stopped
    rw [hop.state, hop.lastFault]
    exact h

/-- Without a reload a stopped instance stays stopped, whatever is done with it. -/
theorem History.stopped {edits : Sandbox.Edit → Prop} {a b : Instance}
    (h : History edits (fun b op => ¬ op.Reloads b) a b) (ha : Stopped f a) : Stopped f b := by
  induction h with
  | start => exact ha
  | @call _ _ _ b world host fuel command args ctx out hb hhost hcall ih =>
    obtain ⟨reason, hrefused⟩ := ih.call world host fuel command args ctx
    rw [hrefused] at hcall
    cases hcall
    exact ih
  | operate op tracker hb hop hedits ih => exact ih.operate op tracker hop

/-- A fault stops an instance. From the moment at which one is recorded the course of the call
executes no instruction and records no other fault. The instance stays faulted, with that
fault as the last one. What happens next is listed by `Unwinds`: services go on, nested calls
are refused, and every call around the fault fails. Memory changes by edits of the services
only, and the course comes to its end. The call then fails, and the instance takes no call
before a reload. A call that succeeds has recorded no fault. -/
theorem fault_halts_instance (world : World I σ ω) (host : Host I σ) (command : Int32)
    (args : List Int32) (inst : Instance) (ctx : Context σ ω) :
    (∀ (c : Moment I σ ω) (f : Fault), Visits world host command args inst ctx c →
      c.recorded? = some f →
      ∃ d, c.next world host = some d ∧ d.phase = .ended (.error (.fault f)) d.inst ∧
        d.Finishes world host ∧
        ∀ e, d.Reaches world host e →
          (∀ s, e.phase ≠ .step s) ∧ e.recorded? = none ∧ e.Halted f ∧
          (∀ e', e.next world host = some e' → e.Unwinds world f e' ∧
            e'.inst.memory = e.written?.elim e.inst.memory e.inst.memory.edit) ∧
          ∀ out, e.outcome? = some out →
            ∃ fuel, call world host fuel command args inst ctx = some out) ∧
    ∀ (fuel : Nat) (out : Outcome Instance σ ω),
      call world host fuel command args inst ctx = some out →
      (∀ (c : Moment I σ ω) (f : Fault), Visits world host command args inst ctx c →
        c.recorded? = some f →
        (∃ e, out.reply = .error e) ∧ out.module.state = .faulted ∧
        out.module.lastFault = some f ∧
        ∀ b, History (fun _ => True) (fun b op => ¬ op.Reloads b) out.module b → Stopped f b ∧
          ∀ {J : Interface} {τ υ : Type} (world : World J τ υ) (host : Host J τ) (fuel : Nat)
            (command : Int32) (args : List Int32) (ctx : Context τ υ),
            ∃ reason, call world host fuel command args b ctx =
              some ⟨.error (.unavailable reason), b, ctx⟩) ∧
      ∀ r, out.reply = .ok r → out.module.state ≠ .faulted ∧
        ∀ c, Visits world host command args inst ctx c →
          c.recorded? = none ∧ c.inst.state ≠ .faulted := by
  refine ⟨?_, ?_⟩
  · intro c f hc hf
    obtain ⟨d, hd, hhalt, hphase⟩ := Moment.next_of_recorded? world host hf
    refine ⟨d, hd, hphase, hhalt.finishes, ?_⟩
    intro e he
    have hehalt := he.halted hhalt
    refine ⟨hehalt.ne_step, hehalt.recorded?, hehalt, ?_, ?_⟩
    · intro e' he'
      have hunwinds := (hehalt.unwinds he').1
      exact ⟨hunwinds, hunwinds.memory⟩
    · intro out hout
      exact (hc.tail (Course.Reaches.head hd he)).exists_call hout
  · intro fuel out hcall
    have hfault : ∀ (c : Moment I σ ω) (f : Fault), Visits world host command args inst ctx c →
        c.recorded? = some f → (∃ e, out.reply = .error e) ∧ out.module.state = .faulted ∧
          out.module.lastFault = some f := by
      intro c f hc hf
      obtain ⟨d, hd, hhalt, -⟩ := Moment.next_of_recorded? world host hf
      exact outcome_of_halted hcall (hc.tail (Course.Reaches.head hd (.refl d))) hhalt
    refine ⟨?_, ?_⟩
    · intro c f hc hf
      obtain ⟨hreply, hstate, hlast⟩ := hfault c f hc hf
      refine ⟨hreply, hstate, hlast, ?_⟩
      intro b hb
      have hstopped := hb.stopped ⟨.inl hstate, hlast⟩
      exact ⟨hstopped, hstopped.call⟩
    · intro r hr
      refine ⟨?_, ?_⟩
      · rcases call_cases hcall with ⟨e, -, rfl⟩ | ⟨d, hd, hout⟩
        · cases hr
        · have hd' := state_of_ok hcall hr hd
          obtain ⟨-, -, hmodule, -⟩ := Moment.ended_of_outcome? hout
          rw [hmodule, ne_eq, deactivate_state_eq_faulted]
          exact hd'
      · intro c hc
        refine ⟨?_, state_of_ok hcall hr hc⟩
        cases hf : c.recorded? with
        | none => rfl
        | some f =>
          obtain ⟨⟨e, he⟩, -⟩ := hfault c f hc hf
          simp [hr] at he

/-- The image of a module that asks for service 0 and then stumbles over an undefined
instruction. -/
def stumbling : Bytes :=
  let code : Code :=
    { bytes := [⟨.const, -1⟩, ⟨.call, 0⟩, ⟨.undef, 0⟩].flatMap Instruction.encode
      instructionCount := 3
      jumpTargets := [] }
  Layout.build ⟨.legacy, code, [], [], 4⟩

/-- A host that calls back in when it is asked first, and ignores how that call ends. -/
def careless : Host Interface.empty Nat := fun n _ =>
  if n = 0 then .enter 1 0 [] fun s _ => .done s (.ok 7) else .done (n + 1) (.ok 0)

/-- The nested call records a fault, the host swallows it, and the outer call fails with it. -/
theorem fault_halts_instance_stumbling :
    ∃ (inst : Instance) (c d : Moment Interface.empty Nat Unit) (f : Fault) (fuel : Nat)
      (out : Outcome Instance Nat Unit),
      load "m" stumbling ⟨.compiled, none, false⟩ = .ok inst ∧
      Visits World.empty careless 0 [] inst ⟨0, .empty, ()⟩ c ∧ c.callers.length = 1 ∧
      c.recorded? = some f ∧ c.next World.empty careless = some d ∧
      (∀ e, d.Reaches World.empty careless e → (∀ s, e.phase ≠ .step s) ∧ e.Halted f) ∧
      call World.empty careless fuel 0 [] inst ⟨0, .empty, ()⟩ = some out ∧
      (∃ e, out.reply = .error e) ∧ out.module.lastFault = some f := by
  let ctx : Context Nat Unit := ⟨0, .empty, ()⟩
  let loaded := (load "m" stumbling ⟨.compiled, none, false⟩).toOption
  have hload : loaded.isSome = true := by decide +kernel
  have hcourse : (loaded.bind fun i => (i.accept 0 []).toOption.bind fun packed =>
      (Course.after (Moment.next World.empty careless) 7
        (Moment.start i packed [] ctx)).bind fun c =>
          c.recorded?.map fun f => (c.callers.length, f)) =
      some (1, ⟨.badInstruction, "m", 6, 2, none⟩) := by decide +kernel
  have hcall : (loaded.bind fun i => call World.empty careless 9 0 [] i ctx).isSome = true := by
    decide +kernel
  obtain ⟨inst, hinst⟩ := Option.isSome_iff_exists.1 hload
  rw [hinst, Option.bind_some] at hcourse hcall
  obtain ⟨packed, hpacked, hcourse⟩ := Option.bind_eq_some_iff.1 hcourse
  obtain ⟨c, hc, hrec⟩ := Option.bind_eq_some_iff.1 hcourse
  obtain ⟨f, hf, hpair⟩ := Option.map_eq_some_iff.1 hrec
  obtain ⟨out, hout⟩ := Option.isSome_iff_exists.1 hcall
  have hvisits : Visits World.empty careless 0 [] inst ctx c :=
    ⟨packed, eq_ok_of_toOption hpacked, 7, hc⟩
  obtain ⟨hhalts, hends⟩ := fault_halts_instance World.empty careless 0 [] inst ctx
  obtain ⟨d, hd, -, -, hall⟩ := hhalts c f hvisits hf
  obtain ⟨hfails, -⟩ := hends 9 out hout
  obtain ⟨hreply, -, hlast, -⟩ := hfails c f hvisits hf
  refine ⟨inst, c, d, f, 9, out, eq_ok_of_toOption hinst, hvisits,
    (Prod.mk.inj hpair).1, hf, hd, ?_, hout, hreply, hlast⟩
  intro e he
  obtain ⟨hne, -, hhalted, -⟩ := hall e he
  exact ⟨hne, hhalted⟩

end Instance

end SandboxVm
