/-
SandboxVm.Proofs.ManagerCourses — what managers keep while hosts use them in the middle of calls.

A host service may ask the manager for anything while the call that it serves is active, and
the modules that it calls may have services of their own that do the same. A property of a
manager and its tracker holds at all those moments when single requests keep it, and the
beginning and the end of calls do.

  §1  services that make certain requests only;
  §2  courses of calls, of bytecode and of native modules: `Kept.next`;
  §3  the same for modules of either kind, and for calls that return;
  §4  `perform_orderly`: requests by name keep a manager in order, whatever they lead to;
  §5  `Observed`: every moment that a host can observe, at any depth. `registry_invariant`.
-/
import SandboxVm.Proofs.CallDiscipline
import SandboxVm.Proofs.Registry

namespace SandboxVm

variable {I : Interface} {σ ω : Type}

/-! ## §1 Confined services -/

/-- The service makes requests of the given kind only, whatever it is answered. -/
abbrev Service.Confined (ok : I.Request → Prop) (sv : Service I σ) : Prop :=
  sv.Within (fun _ => True) ok

/-- Every service of the host makes requests of the given kind only. -/
abbrev Host.Confined (ok : I.Request → Prop) (host : Host I σ) : Prop :=
  host.Within (fun _ => True) ok

theorem Host.Within.confined {edits : Sandbox.Edit → Prop} {ok : I.Request → Prop}
    {host : Host I σ} (h : host.Within edits ok) : host.Confined ok :=
  h.mono (fun _ _ => trivial) fun _ hq => hq

/-- Answers to requests of the given kind keep a property of the world and the tracker. -/
def World.Keeps (world : World I σ ω) (ok : I.Request → Prop) (P : ω → Tracker → Prop) : Prop :=
  ∀ {q : I.Request} {ctx ctx' : Context σ ω} {a : I.Answer q}, ok q →
    world q ctx = some (a, ctx') → P ctx.world ctx.tracker → P ctx'.world ctx'.tracker

/-- Calls of a module begin and end without disturbing a property of the world and the tracker. -/
structure Tolerates (P : ω → Tracker → Prop) (name : String) : Prop where
  enter : ∀ {w t}, P w t → P w (t.enter name)
  leave : ∀ {w t}, P w t → P w t.leave

/-! ## §2 Courses -/

namespace Moment

/-- The property holds at the moment, and the services of the call are confined. -/
structure Kept (ok : I.Request → Prop) (P : ω → Tracker → Prop) (name : String)
    (c : Moment I σ ω) : Prop extends Within (fun _ => True) ok c where
  name : c.inst.name = name
  holds : P c.context.world c.context.tracker

variable {ok : I.Request → Prop} {P : ω → Tracker → Prop} {name : String}
  {world : World I σ ω} {host : Host I σ} {c d : Moment I σ ω}

theorem kept_start {inst : Instance} {ctx : Context σ ω} (hp : Tolerates P inst.name)
    (args : CallArgs) (hctx : P ctx.world ctx.tracker) :
    Kept ok P inst.name (start inst args [] ctx : Moment I σ ω) where
  toWithin := within_start inst args ctx
  name := (start_sameModule inst args [] ctx).name
  holds := hp.enter hctx

/-- One moment hands the property on to the next. -/
theorem Kept.next (hhost : host.Confined ok) (hworld : world.Keeps ok P) (hp : Tolerates P name)
    (h : c.next world host = some d) (hc : c.Kept ok P name) : d.Kept ok P name where
  toWithin := hc.toWithin.next hhost h
  name := (next_sameModule h).name.trans hc.name
  holds := by
    obtain ⟨⟨hservice, -⟩, hinst, hholds⟩ := hc
    cases follows_of_next h with
    | nest s command args k packed w i =>
      obtain rfl : i.name = name := hinst
      exact hp.enter hholds
    | ask s q k a w i stack callers ctx ctx' hq =>
      obtain ⟨hok, -⟩ := hservice _ rfl
      exact hworld hok hq hholds
    | «return» => exact hp.leave hholds
    | _ => exact hholds

end Moment

/-- The service that is at work. -/
def NativePhase.service? : NativePhase I σ → Option (Service I σ)
  | .service sv _ => some sv
  | _ => none

/-- However the caller was answered, its services are confined. -/
def NativeCaller.Confined (ok : I.Request → Prop) : NativeCaller I σ → Prop
  | .task _ => True
  | .service f _ => ∀ s reply, (f s reply).Confined ok

theorem NativeCaller.Confined.resume {ok : I.Request → Prop} {caller : NativeCaller I σ}
    (h : caller.Confined ok) (s : σ) (reply : Reply) :
    ∀ sv, (caller.resume s reply).service? = some sv → sv.Confined ok := by
  cases caller with
  | task k => nofun
  | service f k =>
    rintro sv ⟨⟩
    exact h s reply

namespace NativeMoment

/-- The property holds at the moment, and the services of the call are confined. -/
structure Kept (ok : I.Request → Prop) (P : ω → Tracker → Prop) (name : String)
    (c : NativeMoment I σ ω) : Prop where
  name : c.inst.name = name
  holds : P c.context.world c.context.tracker
  service : ∀ sv, c.phase.service? = some sv → sv.Confined ok
  callers : ∀ caller ∈ c.callers, caller.Confined ok

variable {ok : I.Request → Prop} {P : ω → Tracker → Prop} {name : String}
  {world : World I σ ω} {host : Host I σ} {c d : NativeMoment I σ ω}

theorem kept_start {n : NativeInstance} {ctx : Context σ ω} (hp : Tolerates P n.name)
    (args : CallArgs) (hctx : P ctx.world ctx.tracker) :
    Kept ok P n.name (start n args [] ctx : NativeMoment I σ ω) where
  name := rfl
  holds := hp.enter hctx
  service := nofun
  callers := nofun

/-- The module is called again, by its task or by a service of it. -/
theorem Kept.nest (hp : Tolerates P name) (hc : c.Kept ok P name) {caller : NativeCaller I σ}
    (hcaller : caller.Confined ok) (s : σ) (command : Int32) (args : List Int32) :
    (c.nest caller s command args).Kept ok P name := by
  unfold NativeMoment.nest
  split
  next => exact ⟨hc.name, hc.holds, hcaller.resume s _, hc.callers⟩
  next =>
    obtain rfl := hc.name
    refine ⟨rfl, hp.enter hc.holds, nofun, ?_⟩
    intro x hx
    rcases List.mem_cons.1 hx with rfl | hx
    · exact hcaller
    · exact hc.callers x hx

/-- One moment hands the property on to the next. -/
theorem Kept.next (hhost : host.Confined ok) (hworld : world.Keeps ok P) (hp : Tolerates P name)
    (h : c.next world host = some d) (hc : c.Kept ok P name) : d.Kept ok P name := by
  obtain ⟨phase, inst, callers, ctx⟩ := c
  have hservice := hc.service
  cases phase with
  | task t =>
    cases t with
    | done reply =>
      cases h
      exact ⟨hc.name, hc.holds, nofun, hc.callers⟩
    | view k =>
      cases h
      exact ⟨hc.name, hc.holds, nofun, hc.callers⟩
    | system args k =>
      cases h
      refine ⟨hc.name, hc.holds, ?_, hc.callers⟩
      rintro sv ⟨⟩
      exact hhost _ _
    | enter command args k =>
      cases h
      have htask : (NativeCaller.task k : NativeCaller I σ).Confined ok := trivial
      exact hc.nest hp htask _ _ _
  | service sv k =>
    have hsv : sv.Confined ok := hservice sv rfl
    cases sv with
    | done s reply =>
      cases h
      exact ⟨hc.name, hc.holds, nofun, hc.callers⟩
    | view f =>
      cases h
      refine ⟨hc.name, hc.holds, ?_, hc.callers⟩
      rintro sv ⟨⟩
      exact hsv _
    | edit e sv =>
      cases h
      refine ⟨hc.name, hc.holds, ?_, hc.callers⟩
      rintro sv ⟨⟩
      exact hsv.2
    | enter s command args f =>
      cases h
      have hcaller : (NativeCaller.service f k).Confined ok := hsv
      exact hc.nest hp hcaller _ _ _
    | ask s q f =>
      obtain ⟨hok, hf⟩ := hsv
      simp only [NativeMoment.next] at h
      split at h
      next => cases h
      next answer ctx' hq =>
        cases h
        refine ⟨hc.name, hworld hok hq hc.holds, ?_, hc.callers⟩
        rintro sv ⟨⟩
        exact hf _ _
  | ended reply =>
    cases callers with
    | nil => cases h
    | cons caller callers =>
      cases h
      refine ⟨hc.name, hp.leave hc.holds, ?_, ?_⟩
      · exact (hc.callers caller List.mem_cons_self).resume _ _
      · intro x hx
        exact hc.callers x (List.mem_cons_of_mem _ hx)

end NativeMoment

/-! ## §3 Modules of either kind -/

namespace Loaded

/-- In the course of a call comes a moment at which the module is `m'` and the context is
`ctx'`, and at which the given service is at work, if any is. -/
def Visits (world : World I σ ω) (host : Host I σ) (command : Int32) (args : List Int32)
    (m : Loaded) (ctx : Context σ ω) (m' : Loaded) (sv : Option (Service I σ))
    (ctx' : Context σ ω) : Prop :=
  match m with
  | .bytecode inst => ∃ c, inst.Visits world host command args ctx c ∧
      m' = .bytecode c.inst ∧ sv = c.phase.service? ∧ ctx' = c.context
  | .native n => ∃ c, n.Visits world host command args ctx c ∧
      m' = .native c.inst ∧ sv = c.phase.service? ∧ ctx' = c.context

/-- A bytecode module that was not unloaded; native modules never are. -/
def Available : Loaded → Prop
  | .bytecode inst => inst.state ≠ .unloaded
  | .native _ => True

theorem Idle.available {m : Loaded} (h : m.Idle) : m.Available := by
  cases m with
  | bytecode inst => exact h.2
  | native n => trivial

variable {ok : I.Request → Prop} {P : ω → Tracker → Prop} {world : World I σ ω}
  {host : Host I σ} {command : Int32} {args : List Int32} {m m' : Loaded}
  {ctx ctx' : Context σ ω}

/-- A property that requests and calls keep holds at every moment of a call. -/
theorem Visits.kept {sv : Option (Service I σ)} (hhost : host.Confined ok)
    (hworld : world.Keeps ok P) (hp : Tolerates P m.name) (hctx : P ctx.world ctx.tracker)
    (h : m.Visits world host command args ctx m' sv ctx') :
    m'.name = m.name ∧ m'.Available ∧ P ctx'.world ctx'.tracker := by
  cases m with
  | bytecode inst =>
    obtain ⟨c, hc, rfl, rfl, rfl⟩ := h
    have hkept := hc.preserves (P := Moment.Kept ok P inst.name)
      (fun packed _ => Moment.kept_start hp packed hctx) (Moment.Kept.next hhost hworld hp)
    have havailable : c.inst.state ≠ .unloaded := by
      rcases hc.nested.state with hs | hs <;> simp [hs]
    exact ⟨hkept.name, havailable, hkept.holds⟩
  | native n =>
    obtain ⟨c, hc, rfl, rfl, rfl⟩ := h
    have hkept := hc.preserves (P := NativeMoment.Kept ok P n.name)
      (fun packed => NativeMoment.kept_start hp packed hctx)
      (NativeMoment.Kept.next hhost hworld hp)
    exact ⟨hkept.name, trivial, hkept.holds⟩

/-- A call leaves an instance idle that was idle before. -/
theorem idle_of_instance_call {fuel : Nat} {b : Instance} {out : Outcome Instance σ ω}
    (hb : (bytecode b).Idle) (h : Instance.call world host fuel command args b ctx = some out) :
    (bytecode out.module).Idle := by
  refine ⟨hb.1.call h, ?_⟩
  rcases Instance.call_cases h with ⟨e, -, rfl⟩ | ⟨d, hd, -⟩
  · exact hb.2
  · have hready := hb.1.ready_of_visits hd
    rcases (Instance.restored_of_call (.inl ⟨hready, hb.1.level⟩) h).state with hs | hs
    · rw [hs]
      exact hb.2
    · simp [hs]

/-- A property that requests and calls keep holds when a call has returned, and the module is
what it was before. -/
theorem kept_of_call {fuel : Nat} {out : Outcome Loaded σ ω} (hhost : host.Confined ok)
    (hworld : world.Keeps ok P) (hp : Tolerates P m.name) (hctx : P ctx.world ctx.tracker)
    (h : call world host fuel command args m ctx = some out) :
    P out.context.world out.context.tracker ∧ out.module.name = m.name ∧
      (m.Idle → out.module.Idle) := by
  cases m with
  | bytecode inst =>
    obtain ⟨ran, hran, rfl⟩ := Option.map_eq_some_iff.1 h
    have hidle (hi : (bytecode inst).Idle) := idle_of_instance_call hi hran
    rcases Instance.call_cases hran with ⟨e, -, rfl⟩ | ⟨d, hd, hout⟩
    · exact ⟨hctx, rfl, hidle⟩
    · have hvisits : (bytecode inst).Visits world host command args ctx (.bytecode d.inst)
          d.phase.service? d.context := ⟨d, hd, rfl, rfl, rfl⟩
      obtain ⟨hname, -, hholds⟩ := hvisits.kept hhost hworld hp hctx
      obtain ⟨-, -, hmodule, hcontext⟩ := Moment.ended_of_outcome? hout
      refine ⟨?_, ?_, hidle⟩
      · rw [hcontext]
        exact hp.leave hholds
      · rw [hmodule]
        exact hname
  | native n =>
    obtain ⟨ran, hran, rfl⟩ := Option.map_eq_some_iff.1 h
    rcases NativeInstance.call_cases hran with ⟨e, rfl⟩ | ⟨d, hd, hout⟩
    · exact ⟨hctx, rfl, id⟩
    · have hvisits : (native n).Visits world host command args ctx (.native d.inst)
          d.phase.service? d.context := ⟨d, hd, rfl, rfl, rfl⟩
      obtain ⟨hname, -, hholds⟩ := hvisits.kept hhost hworld hp hctx
      obtain ⟨-, hmodule, hcontext⟩ := NativeMoment.ended_of_outcome? hout
      refine ⟨?_, ?_, fun _ => trivial⟩
      · rw [hcontext]
        exact hp.leave hholds
      · rw [hmodule]
        exact hname

end Loaded

/-! ## §4 Requests -/

namespace Manager

/-- The request goes by names and not by handles. -/
def Request.ByName : Request → Prop
  | .callHandle _ _ _ | .operate _ _ => False
  | _ => True

variable {cfg : Config} {lent : List (Handle × String)} {host : Host interface σ}
  {ctx ctx' : Context σ Manager} {fuel : Nat} {name : String} {h : Handle} {m m' : Loaded}
  {command : Int32} {args : List Int32}

/-- A module that is lent into a call is called in an orderly manager. -/
theorem tolerates_orderly (cfg : Config) (h : Handle) (name : String)
    (lent : List (Handle × String)) : Tolerates (Orderly cfg ((h, name) :: lent)) name where
  enter := fun ho => ho.enter List.mem_cons_self
  leave := fun ho => ho.leave

theorem orderly_of_callSlot {reply : Option Reply} (hhost : host.Confined Request.ByName)
    (hworld : ∀ lent, (perform host fuel).Keeps Request.ByName (Orderly cfg lent))
    (ho : Orderly cfg lent ctx.world ctx.tracker) (hfind : ctx.world.find? name = some h)
    (hcall : callSlot (Loaded.call (perform host fuel) host fuel) h command args ctx =
      some (reply, ctx')) :
    Orderly cfg lent ctx'.world ctx'.tracker := by
  unfold callSlot at hcall
  split at hcall
  next =>
    cases hcall
    exact ho
  next module hmodule =>
    split at hcall
    next => cases hcall
    next out hout =>
      cases hcall
      have hreg := mem_registry_of_find? hfind
      obtain ⟨rfl, hidle⟩ := ho.idle_of_module? hreg hmodule
      obtain ⟨hafter, hname, hback⟩ := Loaded.kept_of_call hhost
        (hworld ((h, module.name) :: lent)) (tolerates_orderly cfg h module.name lent)
        (ho.lend hreg hmodule) hout
      exact hafter.return hname (hback hidle)

/-- Requests by name keep a manager in order, calls with everything that hosts do in them
included. -/
theorem perform_orderly (hhost : host.Confined Request.ByName) (fuel : Nat)
    (lent : List (Handle × String)) :
    (perform host fuel).Keeps Request.ByName (Orderly cfg lent) := by
  induction fuel generalizing lent with
  | zero =>
    intro q ctx ctx' a _ h
    cases h
  | succ fuel ih =>
    intro q ctx ctx' a hq h ho
    cases q with
    | create name =>
      simp only [perform] at h
      split at h
      next hcreate =>
        cases h
        exact ho.create hcreate
      next =>
        cases h
        exact ho
    | call name command args =>
      simp only [perform] at h
      split at h
      next =>
        cases h
        exact ho
      next hfind =>
        split at h
        next => cases h
        next hslot =>
          cases h
          exact orderly_of_callSlot hhost ih ho hfind hslot
    | restart name =>
      simp only [perform_restart] at h
      split at h
      next hrestart =>
        cases h
        exact ho.restart hrestart
      next =>
        cases h
        exact ho
    | unload name =>
      simp only [perform_unload] at h
      split at h
      next hunload =>
        cases h
        exact ho.unload hunload
      next =>
        cases h
        exact ho
    | clear =>
      cases h
      exact ho.clear.1
    | callHandle handle command args => exact hq.elim
    | operate handle op => exact hq.elim
    | look =>
      cases h
      exact ho
    | setSource source =>
      cases h
      exact ⟨ho.config, ho.names, ho.handles, ho.limit, ho.bound, ho.present, ho.away,
        ho.distinct, ho.last⟩
    | setNatives natives =>
      cases h
      exact ⟨ho.config, ho.names, ho.handles, ho.limit, ho.bound, ho.present, ho.away,
        ho.distinct, ho.last⟩

/-! ## §5 What can be observed -/

/-- Managers that come about by requests by name, one after the other, from a new one. Every
request comes with a host of its own, whose services make requests by name as well. -/
inductive History (cfg : Config) (source : ImageSource)
    (natives : String → Option NativeModule) : Manager → Tracker → Prop where
  | start : History cfg source natives (Manager.start cfg source natives) .empty
  | perform {σ : Type} {m : Manager} {t : Tracker} {q : Request} {a : Answer q}
      {ctx : Context σ Manager} (host : Host interface σ) (s : σ) (fuel : Nat)
      (hm : History cfg source natives m t) (hq : q.ByName)
      (hhost : host.Confined Request.ByName)
      (h : Manager.perform host fuel q ⟨s, t, m⟩ = some (a, ctx)) :
    History cfg source natives ctx.world ctx.tracker

/-- What can be observed while requests are made in the context `ctx₀`: the modules that are
lent out of their slots, as they are at present and the innermost call first, the service that
is at work if any is, and the context. -/
inductive Observed (host : Host interface σ) (ctx₀ : Context σ Manager) :
    (fuel : Nat) → List (Handle × Loaded) → Option (Service interface σ) →
      Context σ Manager → Prop where
  /-- No call is active. -/
  | between (fuel : Nat) : Observed host ctx₀ fuel [] none ctx₀
  /-- A call that was asked for from outside is active. -/
  | outermost {fuel : Nat} {name : String} {command : Int32} {args : List Int32} {h : Handle}
      {m m' : Loaded} {sv : Option (Service interface σ)} {ctx : Context σ Manager}
      (hfind : ctx₀.world.find? name = some h) (hmodule : ctx₀.world.module? h = some m)
      (hv : m.Visits (perform host fuel) host command args
        { ctx₀ with world := ctx₀.world.setModule h none } m' sv ctx) :
    Observed host ctx₀ fuel [(h, m')] sv ctx
  /-- A call that a service asked for is active. -/
  | nested {fuel : Nat} {lent : List (Handle × Loaded)} {s : σ} {name : String}
      {command : Int32} {args : List Int32}
      {k : σ → Answer (.call name command args) → Service interface σ} {h : Handle}
      {m m' : Loaded} {sv : Option (Service interface σ)} {ctx ctx' : Context σ Manager}
      (ho : Observed host ctx₀ (fuel + 1) lent
        (some (.ask s (Request.call name command args) k)) ctx)
      (hfind : ctx.world.find? name = some h) (hmodule : ctx.world.module? h = some m)
      (hv : m.Visits (perform host fuel) host command args
        { ctx with host := s, world := ctx.world.setModule h none } m' sv ctx') :
    Observed host ctx₀ fuel ((h, m') :: lent) sv ctx'

/-- The module with a handle, in its slot or lent out of it. -/
def Holds (m : Manager) (lent : List (Handle × Loaded)) (h : Handle) (module : Loaded) : Prop :=
  m.module? h = some module ∨ m.module? h = none ∧ (h, module) ∈ lent

theorem History.orderly {source : ImageSource} {natives : String → Option NativeModule}
    {m : Manager} {t : Tracker} (hm : History cfg source natives m t) : Orderly cfg [] m t := by
  induction hm with
  | start => exact .start source natives
  | perform host s fuel _ hq hhost h ih => exact perform_orderly hhost fuel [] hq h ih

/-- In the course of a call of a module that is lent the manager stays in order. -/
theorem orderly_of_visits {s : σ} {sv : Option (Service interface σ)}
    (hhost : host.Confined Request.ByName) (ho : Orderly cfg lent ctx.world ctx.tracker)
    (hfind : ctx.world.find? name = some h) (hmodule : ctx.world.module? h = some m)
    (hv : m.Visits (perform host fuel) host command args
      { ctx with host := s, world := ctx.world.setModule h none } m' sv ctx') :
    Orderly cfg ((h, m'.name) :: lent) ctx'.world ctx'.tracker ∧ m'.Available := by
  have hreg := mem_registry_of_find? hfind
  obtain ⟨rfl, -⟩ := ho.idle_of_module? hreg hmodule
  obtain ⟨hname, havailable, hafter⟩ := hv.kept hhost
    (perform_orderly hhost fuel ((h, m.name) :: lent)) (tolerates_orderly cfg h m.name lent)
    (ho.lend hreg hmodule)
  exact ⟨hname ▸ hafter, havailable⟩

/-- Whatever can be observed is in order. -/
theorem Observed.orderly {ctx₀ : Context σ Manager} {lent : List (Handle × Loaded)}
    {sv : Option (Service interface σ)} (hhost : host.Confined Request.ByName)
    (h₀ : Orderly cfg [] ctx₀.world ctx₀.tracker) (h : Observed host ctx₀ fuel lent sv ctx) :
    Orderly cfg (lent.map fun l => (l.1, l.2.name)) ctx.world ctx.tracker ∧
      ∀ l ∈ lent, l.2.Available := by
  induction h with
  | between fuel => exact ⟨h₀, by simp⟩
  | outermost hfind hmodule hv =>
    obtain ⟨hafter, havailable⟩ := orderly_of_visits hhost h₀ hfind hmodule hv
    refine ⟨hafter, ?_⟩
    intro l hl
    rw [List.mem_singleton.1 hl]
    exact havailable
  | nested _ hfind hmodule hv ih =>
    obtain ⟨hbefore, hlent⟩ := ih
    obtain ⟨hafter, havailable⟩ := orderly_of_visits hhost hbefore hfind hmodule hv
    refine ⟨hafter, ?_⟩
    intro l hl
    rcases List.mem_cons.1 hl with rfl | hl
    · exact havailable
    · exact hlent l hl

/-- The module of a registered name is there, under that name, and takes calls. -/
theorem Orderly.holds {m : Manager} {t : Tracker} {lent : List (Handle × Loaded)}
    (ho : Orderly cfg (lent.map fun l => (l.1, l.2.name)) m t)
    (hlent : ∀ l ∈ lent, l.2.Available) (hreg : (name, h) ∈ m.registry) :
    ∃ module, m.Holds lent h module ∧ module.name = name ∧ module.Available := by
  by_cases hmem : h ∈ (lent.map fun l => (l.1, l.2.name)).map (·.1)
  · obtain ⟨l, hl, rfl⟩ := List.mem_map.1 hmem
    obtain ⟨⟨h', module⟩, hlent', rfl⟩ := List.mem_map.1 hl
    obtain ⟨hreg', hempty⟩ := ho.away _ hl
    exact ⟨module, .inr ⟨hempty, hlent'⟩, ho.name_eq hreg' hreg, hlent _ hlent'⟩
  · obtain ⟨module, hmodule, hname, hidle⟩ := ho.present _ hreg hmem
    exact ⟨module, .inl hmodule, hname, hidle.available⟩

/-- The registry of a manager is in order at every moment that a host can observe, whatever
hosts ask of the manager between calls and in the middle of them, at any depth. Names are
distinct, and each is the name of the module with its handle, which has not been unloaded. Their
number is within the limit. The module that was entered last is registered, if it is known. A
restart at any of these moments changes no entry and no module's kind, and clearing the manager
keeps exactly the entries of modules with an active call, in their order. -/
theorem registry_invariant {source : ImageSource} {natives : String → Option NativeModule}
    {m₀ : Manager} {t₀ : Tracker} (hm : History cfg source natives m₀ t₀)
    (hhost : host.Confined Request.ByName) {s : σ} {lent : List (Handle × Loaded)}
    {sv : Option (Service interface σ)} (h : Observed host ⟨s, t₀, m₀⟩ fuel lent sv ctx) :
    (ctx.world.registry.map (·.1)).Nodup ∧
    (∀ name h, (name, h) ∈ ctx.world.registry →
      ∃ module, ctx.world.Holds lent h module ∧ module.name = name ∧ module.Available) ∧
    ctx.world.registry.length ≤ cfg.maxInstances ∧
    (∀ name, ctx.tracker.last = some name → name ∈ ctx.world.registry.map (·.1)) ∧
    (∀ name m, ctx.world.restart name = .ok m → m.registry = ctx.world.registry ∧
      ∀ h, Option.Rel Loaded.SameKind (ctx.world.module? h) (m.module? h)) ∧
    (ctx.world.clear ctx.tracker).1.registry =
      ctx.world.registry.filter (fun e => e.2 ∈ lent.map (·.1)) := by
  obtain ⟨ho, hlent⟩ := h.orderly hhost hm.orderly
  refine ⟨ho.names, fun name h hreg => ho.holds hlent hreg, ho.limit, ho.last,
    fun name m hr => sameKind_of_restart hr, ?_⟩
  rw [ho.clear.2, List.map_map]
  rfl

/-- A source that offers the same module under two names. -/
def twins : ImageSource :=
  ((MemorySource.empty.insert "m" obliging).insert "n" obliging).toSource

/-- A host that clears the manager in the middle of every call. -/
def clearing : Host interface Unit := fun s _ =>
  .ask s Request.clear fun s _ => .done s (.ok 5)

/-- Two modules are loaded and one of them is called. Clearing the manager in the middle of the
call leaves it the module that is called, and that one only. -/
theorem registry_invariant_clearing :
    ∃ (m : Manager) (called : Loaded) (sv : Service interface Unit) (ctx : Context Unit Manager),
      History .default twins (fun _ => none) m .empty ∧
      Observed clearing ⟨(), .empty, m⟩ 1 [(0, called)] (some sv) ctx ∧
      ctx.world.registry = [("m", 0), ("n", 1)] ∧
      (ctx.world.clear ctx.tracker).1.registry = [("m", 0)] := by
  let created (name : String) (ctx : Context Unit Manager) : Option (Context Unit Manager) :=
    (perform clearing 1 (Request.create name) ctx).map (·.2)
  let ctx₀ : Context Unit Manager := ⟨(), .empty, Manager.start .default twins fun _ => none⟩
  have hcourse : ((created "m" ctx₀).bind fun ctx₁ => (created "n" ctx₁).bind fun ctx₂ =>
      ((ctx₂.world.module? 0).bind Loaded.bytecode?).bind fun i =>
      (i.accept 0 []).toOption.bind fun packed =>
      (Course.after (Moment.next (perform clearing 1) clearing) 3 (Moment.start i packed []
        { ctx₂ with world := ctx₂.world.setModule 0 none })).map fun c =>
          (ctx₂.tracker, ctx₂.world.find? "m", c.phase.service?.isSome, c.context.world.registry)) =
      some (.empty, some 0, true, [("m", 0), ("n", 1)]) := by
    decide +kernel
  obtain ⟨ctx₁, h₁, hcourse⟩ := Option.bind_eq_some_iff.1 hcourse
  obtain ⟨ctx₂, h₂, hcourse⟩ := Option.bind_eq_some_iff.1 hcourse
  obtain ⟨inst, hinst, hcourse⟩ := Option.bind_eq_some_iff.1 hcourse
  obtain ⟨packed, hpacked, hcourse⟩ := Option.bind_eq_some_iff.1 hcourse
  obtain ⟨c, hc, hfacts⟩ := Option.map_eq_some_iff.1 hcourse
  obtain ⟨⟨_, _⟩, hp₁, rfl⟩ := Option.map_eq_some_iff.1 h₁
  obtain ⟨⟨_, s, t, m⟩, hp₂, rfl⟩ := Option.map_eq_some_iff.1 h₂
  simp only [Prod.mk.injEq] at hfacts
  obtain ⟨rfl, hfind, hservice, hregistry⟩ := hfacts
  have hmodule : m.module? 0 = some (.bytecode inst) := module?_of_bytecode? hinst
  obtain ⟨sv, hsv⟩ := Option.isSome_iff_exists.1 hservice
  have hhost : clearing.Confined Request.ByName := fun _ _ => ⟨trivial, fun _ _ => trivial⟩
  have hm : (Request.create "m").ByName := trivial
  have hn : (Request.create "n").ByName := trivial
  have hhistory : History .default twins (fun _ => none) m .empty :=
    .perform clearing () 1 (.perform clearing () 1 .start hm hhost hp₁) hn hhost hp₂
  have hobserved : Observed clearing ⟨(), .empty, m⟩ 1 [(0, .bytecode c.inst)] (some sv)
      c.context :=
    .outermost hfind hmodule
      ⟨c, ⟨packed, Instance.eq_ok_of_toOption hpacked, 3, hc⟩, rfl, hsv.symm, rfl⟩
  obtain ⟨-, -, -, -, -, hcleared⟩ := registry_invariant hhistory hhost hobserved
  refine ⟨m, .bytecode c.inst, sv, c.context, hhistory, hobserved, hregistry, ?_⟩
  rw [hcleared, hregistry]
  rfl

end Manager

end SandboxVm
