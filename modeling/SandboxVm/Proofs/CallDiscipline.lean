/-
SandboxVm.Proofs.CallDiscipline — calls are counted, and leave no trace of having been made.

A call raises the call level of its module, moves the program stack and puts the module's
name on the tracker. What becomes of the level and of the program stack is settled by
`Moment.Nested`. The tracker is shared with the calls of other modules, and nothing in the
code says at one place that what is put on it is taken off again.

  §1  worlds that leave the active calls alone;
  §2  `Moment.Counted`: at every moment of a bytecode call the call level and the tracker
      count the calls that are active;
  §3  the same for native modules;
  §4  both kinds together, and `Manager.perform_balanced`: managers leave the active calls
      alone;
  §5  `Manager.Begins`: calls that hosts make in the middle of other modules' calls.

`Manager.call_discipline` is the result. The size of the region is restored when the host edits it
in place, and the active calls when the host reaches the tracker by a manager only;
`Instance.traces_of_call` has a call for either case that leaves a trace.
-/
import SandboxVm.Proofs.NativeMoments
import SandboxVm.Proofs.Nesting
import SandboxVm.Proofs.Refusals

namespace SandboxVm

variable {I : Interface} {σ ω : Type}

/-! ## §1 Balanced worlds -/

/-- A world whose answers leave the active calls as they were. -/
def World.Balanced (world : World I σ ω) : Prop :=
  ∀ {q : I.Request} {ctx ctx' : Context σ ω} {a : I.Answer q},
    world q ctx = some (a, ctx') → ctx'.tracker.active = ctx.tracker.active

/-! ## §2 Bytecode modules -/

namespace Moment

/-- The active calls are counted: those in the course of a call of `i` that began with `ctx`. -/
structure Counted (i : Instance) (ctx : Context σ ω) (c : Moment I σ ω) : Prop
    extends Nested i c where
  active : c.context.tracker.active =
    List.replicate (c.callers.length + 1) i.name ++ ctx.tracker.active

variable {world : World I σ ω} {host : Host I σ} {c d : Moment I σ ω} {i : Instance}
  {ctx₀ : Context σ ω}

theorem counted_start (i : Instance) (args : CallArgs) (ctx : Context σ ω) :
    Counted i ctx (start i args [] ctx : Moment I σ ω) where
  toNested := nested_start i args ctx
  active := rfl

theorem Counted.next (hw : world.Balanced) (h : c.next world host = some d)
    (hc : Counted i ctx₀ c) : Counted i ctx₀ d where
  toNested := hc.toNested.next h
  active := by
    have hactive := hc.active
    have hsame := hc.same
    cases follows_of_next h with
    | nest s command args k packed w j =>
      have hname : j.name = i.name := hsame.name
      simp only at hactive
      simp only [start, Tracker.enter, hactive, hname, List.length_cons, List.replicate_succ,
        List.cons_append]
    | ask s q k a w j stack callers ctx ctx' hq => exact (hw hq).trans hactive
    | «return» reply j caller stack callers ctx =>
      simp only [List.length_cons, List.replicate_succ, List.cons_append] at hactive ⊢
      simp only [Tracker.leave, hactive, List.tail_cons]
    | _ => exact hactive

end Moment

namespace Instance

variable {world : World I σ ω} {host : Host I σ} {command : Int32} {args : List Int32}
  {inst : Instance} {ctx : Context σ ω} {c : Moment I σ ω} {out : Outcome Instance σ ω}
  {fuel : Nat}

theorem Visits.counted (hw : world.Balanced) (hc : Visits world host command args inst ctx c) :
    c.Counted inst ctx :=
  hc.preserves (P := Moment.Counted inst ctx)
    (fun packed _ => Moment.counted_start inst packed ctx) (Moment.Counted.next hw)

/-- A call leaves the active calls as they were. -/
theorem active_of_call (hw : world.Balanced)
    (h : call world host fuel command args inst ctx = some out) :
    out.context.tracker.active = ctx.tracker.active := by
  rcases call_cases h with ⟨e, -, rfl⟩ | ⟨d, hd, hout⟩
  · rfl
  · have hcounted := hd.counted hw
    obtain ⟨-, hcallers, -, hcontext⟩ := Moment.ended_of_outcome? hout
    have hactive := hcounted.active
    simp only [hcallers, List.length_nil] at hactive
    simp [hcontext, Tracker.leave, hactive]

end Instance

/-! ## §3 Native modules -/

namespace NativeMoment

/-- The active calls are counted: those in the course of a call of `n` that began with `ctx`. The
module counts them in any world. -/
structure Counted (world : World I σ ω) (n : NativeInstance) (ctx : Context σ ω)
    (c : NativeMoment I σ ω) : Prop where
  inst : c.inst = { n with callLevel := n.callLevel + c.callers.length + 1 }
  active : world.Balanced → c.context.tracker.active =
    List.replicate (c.callers.length + 1) n.name ++ ctx.tracker.active

variable {world : World I σ ω} {host : Host I σ} {c d : NativeMoment I σ ω} {n : NativeInstance}
  {ctx₀ : Context σ ω}

theorem counted_start (n : NativeInstance) (args : CallArgs) (ctx : Context σ ω) :
    Counted world n ctx (start n args [] ctx : NativeMoment I σ ω) :=
  ⟨rfl, fun _ => rfl⟩

theorem Counted.nest (hc : Counted world n ctx₀ c) (caller : NativeCaller I σ) (s : σ)
    (command : Int32) (args : List Int32) :
    Counted world n ctx₀ (c.nest caller s command args) := by
  unfold NativeMoment.nest
  split
  · exact ⟨hc.inst, hc.active⟩
  · refine ⟨?_, ?_⟩
    · simp [start, hc.inst, Nat.add_assoc]
    · intro hw
      simp [start, Tracker.enter, hc.inst, hc.active hw, List.replicate_succ]

theorem Counted.next (h : c.next world host = some d) (hc : Counted world n ctx₀ c) :
    Counted world n ctx₀ d := by
  obtain ⟨phase, inst, callers, ctx⟩ := c
  cases phase with
  | task t =>
    cases t with
    | done reply => cases h; exact ⟨hc.inst, hc.active⟩
    | view k => cases h; exact ⟨hc.inst, hc.active⟩
    | system args k => cases h; exact ⟨hc.inst, hc.active⟩
    | enter command args k => cases h; exact hc.nest _ _ _ _
  | service sv k =>
    cases sv with
    | done s reply => cases h; exact ⟨hc.inst, hc.active⟩
    | view f => cases h; exact ⟨hc.inst, hc.active⟩
    | edit e sv => cases h; exact ⟨hc.inst, hc.active⟩
    | enter s command args f => cases h; exact hc.nest _ _ _ _
    | ask s q f =>
      simp only [NativeMoment.next] at h
      split at h
      · cases h
      · rename_i answer ctx' hq
        cases h
        exact ⟨hc.inst, fun hw => (hw hq).trans (hc.active hw)⟩
  | ended reply =>
    cases callers with
    | nil => cases h
    | cons caller callers =>
      cases h
      have hinst : inst = _ := hc.inst
      refine ⟨?_, ?_⟩
      · simp [hinst, Nat.add_assoc]
      · intro hw
        have hactive : ctx.tracker.active = _ := hc.active hw
        simp [Tracker.leave, hactive, List.replicate_succ]

end NativeMoment

namespace NativeInstance

variable {world : World I σ ω} {host : Host I σ} {command : Int32} {args : List Int32}
  {n : NativeInstance} {ctx : Context σ ω} {c : NativeMoment I σ ω}
  {out : Outcome NativeInstance σ ω} {fuel : Nat}

theorem Visits.counted (hc : Visits world host command args n ctx c) : c.Counted world n ctx :=
  hc.preserves (P := NativeMoment.Counted world n ctx)
    (fun packed => NativeMoment.counted_start n packed ctx) NativeMoment.Counted.next

/-- A call leaves a native module as it was. -/
theorem eq_of_call (h : call world host fuel command args n ctx = some out) : out.module = n := by
  rcases call_cases h with ⟨e, rfl⟩ | ⟨d, hd, hout⟩
  · rfl
  · obtain ⟨hcallers, hmodule, -⟩ := NativeMoment.ended_of_outcome? hout
    have hinst := hd.counted.inst
    simp only [hcallers, List.length_nil] at hinst
    simp [hmodule, hinst]

/-- It leaves the active calls as they were, if the requests of its hosts do. -/
theorem active_of_call (hw : world.Balanced)
    (h : call world host fuel command args n ctx = some out) :
    out.context.tracker.active = ctx.tracker.active := by
  rcases call_cases h with ⟨e, rfl⟩ | ⟨d, hd, hout⟩
  · rfl
  · obtain ⟨hcallers, -, hcontext⟩ := NativeMoment.ended_of_outcome? hout
    have hactive := hd.counted.active hw
    simp only [hcallers, List.length_nil] at hactive
    simp [hcontext, Tracker.leave, hactive]

end NativeInstance

/-! ## §4 Modules and managers -/

namespace Loaded

/-- Bytecode that is between calls; native modules always are. -/
def Settled : Loaded → Prop
  | .bytecode inst => inst.Settled
  | .native _ => True

/-- The size of the region of a bytecode module. -/
def regionSize? : Loaded → Option Nat
  | .bytecode inst => some inst.memory.size
  | .native _ => none

/-- What a call restores: of bytecode all but memory, counters and faults, of a native module
everything. -/
def Restored : Loaded → Loaded → Prop
  | .bytecode a, .bytecode b => a.Restored b
  | .native a, .native b => b = a
  | _, _ => False

/-- In the course of a call a host service is at work while `calls` calls are active. -/
def Serves (world : World I σ ω) (host : Host I σ) (command : Int32) (args : List Int32)
    (m : Loaded) (ctx : Context σ ω) (calls : Nat) (sv : Service I σ) (ctx' : Context σ ω) :
    Prop :=
  match m with
  | .bytecode inst => ∃ c w i, inst.Visits world host command args ctx c ∧
      c.phase = .service sv w i ∧ c.callers.length + 1 = calls ∧ c.context = ctx'
  | .native n => ∃ c k, n.Visits world host command args ctx c ∧
      c.phase = .service sv k ∧ c.callers.length + 1 = calls ∧ c.context = ctx'

variable {world : World I σ ω} {host : Host I σ} {command : Int32} {args : List Int32}
  {m : Loaded} {ctx : Context σ ω} {out : Outcome Loaded σ ω} {fuel : Nat}

theorem active_of_call (hw : world.Balanced)
    (h : call world host fuel command args m ctx = some out) :
    out.context.tracker.active = ctx.tracker.active := by
  cases m with
  | bytecode inst =>
    obtain ⟨ran, hran, rfl⟩ := Option.map_eq_some_iff.1 h
    exact Instance.active_of_call hw hran
  | native n =>
    obtain ⟨ran, hran, rfl⟩ := Option.map_eq_some_iff.1 h
    exact NativeInstance.active_of_call hw hran

theorem restored_of_call (hm : m.Settled)
    (h : call world host fuel command args m ctx = some out) : m.Restored out.module := by
  cases m with
  | bytecode inst =>
    obtain ⟨ran, hran, rfl⟩ := Option.map_eq_some_iff.1 h
    exact Instance.restored_of_call hm hran
  | native n =>
    obtain ⟨ran, hran, rfl⟩ := Option.map_eq_some_iff.1 h
    exact NativeInstance.eq_of_call hran

theorem regionSize?_of_call (hhost : host.InPlace)
    (h : call world host fuel command args m ctx = some out) :
    out.module.regionSize? = m.regionSize? := by
  cases m with
  | bytecode inst =>
    obtain ⟨ran, hran, rfl⟩ := Option.map_eq_some_iff.1 h
    exact congrArg some (Instance.size_of_call hhost hran)
  | native n =>
    obtain ⟨ran, -, rfl⟩ := Option.map_eq_some_iff.1 h
    rfl

/-- While a host service is at work the tracker shows the module that asked for it, and counts
the calls that have begun since. -/
theorem Serves.active {calls : Nat} {sv : Service I σ} {ctx' : Context σ ω}
    (hw : world.Balanced) (h : m.Serves world host command args ctx calls sv ctx') :
    0 < calls ∧ ctx'.tracker.active = List.replicate calls m.name ++ ctx.tracker.active := by
  cases m with
  | bytecode inst =>
    obtain ⟨c, w, i, hc, -, rfl, rfl⟩ := h
    exact ⟨Nat.succ_pos _, (hc.counted hw).active⟩
  | native n =>
    obtain ⟨c, k, hc, -, rfl, rfl⟩ := h
    exact ⟨Nat.succ_pos _, hc.counted.active hw⟩

end Loaded

@[simp] theorem Tracker.active_forget (t : Tracker) (name : String) :
    (t.forget name).active = t.active := by
  unfold Tracker.forget
  split <;> rfl

namespace Instance

theorem active_of_unload {inst inst' : Instance} {t t' : Tracker}
    (h : inst.unload t = .ok (inst', t')) : t'.active = t.active := by
  rw [unload_eq] at h
  split at h
  · cases h
  · cases h
    exact t.active_forget _

theorem active_operate (inst : Instance) (t : Tracker) (op : Operation) :
    (inst.operate t op).2.2.active = t.active := by
  cases op with
  | reload bytes map =>
    simp only [operate]
    split <;> rfl
  | unload =>
    rw [operate_unload]
    split
    · rename_i h
      exact active_of_unload h
    · rfl
  | attachSymbols map => rfl
  | setProfiling on => rfl
  | profileReport => rfl
  | edit e => rfl

end Instance

namespace Manager

theorem active_of_unload {m m' : Manager} {t t' : Tracker} {name : String}
    (h : m.unload t name = .ok (m', t')) : t'.active = t.active := by
  rw [unload_eq] at h
  cases hidle : m.idle name with
  | error e => simp [hidle, bind, Except.bind] at h
  | ok found =>
    obtain ⟨handle, module⟩ := found
    cases module with
    | bytecode inst =>
      cases hunload : inst.unload t with
      | error e => simp [hidle, hunload, bind, Except.bind] at h
      | ok unloaded =>
        simp only [hidle, hunload, bind, Except.bind] at h
        cases h
        exact Instance.active_of_unload hunload
    | native n =>
      simp only [hidle, bind, Except.bind] at h
      cases h
      exact t.active_forget _

theorem active_clear (m : Manager) (t : Tracker) : (m.clear t).2.active = t.active := by
  rw [clear_eq]
  generalize m.registry.map (·.1) = names
  induction names generalizing m t with
  | nil => rfl
  | cons name names ih =>
    simp only [List.foldl_cons]
    split
    · rename_i state hunload
      exact (ih state.1 state.2).trans (active_of_unload hunload)
    · exact ih m t

variable {host : Host interface σ} {ctx ctx' : Context σ Manager}

theorem active_of_callSlot {entry : Entry Loaded σ Manager} {h : Handle} {command : Int32}
    {args : List Int32} {reply : Option Reply}
    (hentry : ∀ {m ctx out}, entry command args m ctx = some out →
      out.context.tracker.active = ctx.tracker.active)
    (hcall : callSlot entry h command args ctx = some (reply, ctx')) :
    ctx'.tracker.active = ctx.tracker.active := by
  unfold callSlot at hcall
  split at hcall
  · cases hcall
    rfl
  · split at hcall
    · cases hcall
    · rename_i hout
      cases hcall
      have hactive := hentry hout
      exact hactive

theorem active_operateSlot (h : Handle) (op : Instance.Operation) (ctx : Context σ Manager) :
    (operateSlot h op ctx).2.tracker.active = ctx.tracker.active := by
  unfold operateSlot
  split
  · exact Instance.active_operate _ _ op
  · rfl

/-- Requests of a manager leave the active calls as they were, calls into other modules
included. -/
theorem perform_balanced (host : Host interface σ) (fuel : Nat) :
    (perform host fuel).Balanced := by
  induction fuel with
  | zero =>
    intro q ctx ctx' a h
    cases h
  | succ fuel ih =>
    intro q ctx ctx' a h
    have hentry {command args m} {ctx : Context σ Manager} {out}
        (hcall : Loaded.call (perform host fuel) host fuel command args m ctx = some out) :
        out.context.tracker.active = ctx.tracker.active := Loaded.active_of_call ih hcall
    cases q with
    | create name =>
      simp only [perform] at h
      split at h <;> cases h <;> rfl
    | call name command args =>
      simp only [perform] at h
      split at h
      · cases h
        rfl
      · split at h
        · cases h
        · rename_i hslot
          cases h
          exact active_of_callSlot hentry hslot
    | restart name =>
      simp only [perform_restart] at h
      split at h <;> cases h <;> rfl
    | unload name =>
      simp only [perform_unload] at h
      split at h
      · rename_i hunload
        cases h
        exact active_of_unload hunload
      · cases h
        rfl
    | clear =>
      cases h
      exact active_clear _ _
    | callHandle handle command args => exact active_of_callSlot hentry h
    | operate handle op =>
      have hctx : ctx' = (operateSlot handle op ctx).2 :=
        (congrArg Prod.snd (Option.some.inj h)).symm
      rw [hctx]
      exact active_operateSlot handle op ctx
    | look =>
      cases h
      rfl
    | setSource source =>
      cases h
      rfl
    | setNatives natives =>
      cases h
      rfl

/-! ## §5 Calls within calls of other modules -/

/-- The module that a request calls, with command and arguments. -/
def Request.target? (m : Manager) : Request → Option (Handle × Int32 × List Int32)
  | .call name command args => (m.find? name).map fun h => (h, command, args)
  | .callHandle h command args => some (h, command, args)
  | _ => none

/-- A call begins while `calls` calls are active: either none is and the context is `ctx₀`, or a
host service that is at work in the course of another call asks the manager for it. The course
of the call is that in the world `perform host fuel`. -/
inductive Begins (host : Host interface σ) (ctx₀ : Context σ Manager) :
    (fuel calls : Nat) → Int32 → List Int32 → Loaded → Context σ Manager → Prop where
  | outermost (fuel : Nat) (command : Int32) (args : List Int32) (m : Loaded) :
    Begins host ctx₀ fuel 0 command args m ctx₀
  | nested {fuel calls more : Nat} {command command' : Int32} {args args' : List Int32}
      {m m' : Loaded} {ctx ctx' : Context σ Manager} {s : σ} {q : Request}
      {k : σ → Answer q → Service interface σ} {h : Handle}
      (hb : Begins host ctx₀ (fuel + 1) calls command args m ctx)
      (hs : m.Serves (perform host (fuel + 1)) host command args ctx more (.ask s q k) ctx')
      (hq : q.target? ctx'.world = some (h, command', args'))
      (hm : ctx'.world.module? h = some m') :
    Begins host ctx₀ fuel (calls + more) command' args' m'
      { ctx' with host := s, world := ctx'.world.setModule h none }

/-- When a call begins the tracker counts the calls that are active already. -/
theorem Begins.depth {ctx₀ : Context σ Manager} {fuel calls : Nat} {command : Int32}
    {args : List Int32} {m : Loaded} (h : Begins host ctx₀ fuel calls command args m ctx) :
    ctx.tracker.depth = ctx₀.tracker.depth + calls := by
  induction h with
  | outermost => rfl
  | nested hb hs hq hm ih =>
    have hactive := (hs.active (perform_balanced host _)).2
    simp only [Tracker.depth] at ih ⊢
    rw [hactive, List.length_append, List.length_replicate, ih]
    omega

end Manager

/-- Calls that are refused at once: of a module that faulted or is gone, or with too many
arguments. -/
def Loaded.Refuses (args : List Int32) : Loaded → Prop
  | .bytecode inst => inst.state = .faulted ∨ inst.state = .unloaded ∨ 4 ≤ args.length
  | .native _ => 4 ≤ args.length

theorem CallArgs.pack_of_four_le (command : Int32) {args : List Int32} (h : 4 ≤ args.length) :
    CallArgs.pack command args = .error .tooManyArguments :=
  if_neg (Nat.not_lt.2 h)

/-- A refused call fails, with the module and the context as they were. -/
theorem Loaded.Refuses.call {m : Loaded} {args : List Int32} (h : m.Refuses args)
    (world : World I σ ω) (host : Host I σ) (fuel : Nat) (command : Int32) (ctx : Context σ ω) :
    ∃ e, Loaded.call world host (fuel + 1) command args m ctx = some ⟨.error e, m, ctx⟩ := by
  cases m with
  | bytecode inst =>
    have hrefused : ∃ e, inst.accept command args = .error e := by
      rcases h with hs | hs | hargs
      · exact ⟨.unavailable .faulted, by simp [Instance.accept, hs]⟩
      · exact ⟨.unavailable .unloaded, by simp [Instance.accept, hs]⟩
      · unfold Instance.accept
        rw [CallArgs.pack_of_four_le command hargs]
        split <;> exact ⟨_, rfl⟩
    obtain ⟨e, he⟩ := hrefused
    exact ⟨e, by simp [Loaded.call, Instance.call, Instance.callWith, he]⟩
  | native n =>
    have hpack := CallArgs.pack_of_four_le command h
    exact ⟨.bridge .tooManyArguments, by simp [Loaded.call, NativeInstance.call, hpack]⟩

/-- Calls are disciplined. A call of a module that is between calls restores the module, except for
memory, counters and a recorded fault, whatever hosts do and however the call ends. The region has
the size that it had, unless a host has put another one in its place. A refused call changes
nothing. Hosts that have a manager at hand can ask of it what they like: a call leaves the active
calls on the tracker as they were, and while a host service is at work, at any depth and within
calls of any modules, the tracker shows the module that asked for it as the one executing, and its
depth is the number of active calls. -/
theorem Manager.call_discipline (fuel : Nat) (command : Int32) (args : List Int32) (m : Loaded) :
    (∀ {I : Interface} {σ ω : Type} (world : World I σ ω) (host : Host I σ) (ctx : Context σ ω),
      (m.Settled → ∀ out, Loaded.call world host fuel command args m ctx = some out →
        m.Restored out.module ∧ (host.InPlace → out.module.regionSize? = m.regionSize?)) ∧
      (m.Refuses args → ∃ e,
        Loaded.call world host (fuel + 1) command args m ctx = some ⟨.error e, m, ctx⟩)) ∧
    ∀ {σ : Type} (host : Host Manager.interface σ) (n : Nat) (ctx : Context σ Manager),
      (∀ out, Loaded.call (perform host n) host fuel command args m ctx = some out →
        out.context.tracker.active = ctx.tracker.active) ∧
      ∀ (ctx₀ ctx' : Context σ Manager) (calls more : Nat) (sv : Service Manager.interface σ),
        Begins host ctx₀ n calls command args m ctx →
        m.Serves (perform host n) host command args ctx more sv ctx' →
          ctx'.tracker.current = some m.name ∧
          ctx'.tracker.depth = ctx₀.tracker.depth + (calls + more) := by
  refine ⟨?_, ?_⟩
  · intro I σ ω world host ctx
    refine ⟨?_, fun hrefuses => hrefuses.call world host fuel command ctx⟩
    intro hm out hcall
    exact ⟨Loaded.restored_of_call hm hcall, fun hhost => Loaded.regionSize?_of_call hhost hcall⟩
  · intro σ host n ctx
    have hw : (perform host n).Balanced := perform_balanced host n
    refine ⟨fun out hcall => Loaded.active_of_call hw hcall, ?_⟩
    intro ctx₀ ctx' calls more sv hbegins hserves
    have hdepth := hbegins.depth
    obtain ⟨hpos, hactive⟩ := hserves.active hw
    obtain ⟨more, rfl⟩ : ∃ k, more = k + 1 := ⟨more - 1, by omega⟩
    simp only [Tracker.depth] at hdepth
    refine ⟨?_, ?_⟩
    · simp [Tracker.current, hactive, List.replicate_succ]
    · simp only [Tracker.depth, hactive, List.length_append, List.length_replicate, hdepth]
      omega

/-- A host that calls back in when it is asked first, and answers with what it gets. -/
def reentering : Host Manager.interface Nat := fun n _ =>
  if n = 0 then .enter 1 0 [] fun s reply => .done s reply else .done (n + 1) (.ok 5)

theorem inPlace_reentering : reentering.InPlace := by
  intro n args
  unfold reentering
  split
  · exact fun _ _ => trivial
  · trivial

/-- The module is entered twice; the second service finds both calls on the tracker, and
afterwards they are gone. A call with four arguments is refused. -/
theorem Manager.call_discipline_obliging :
    ∃ (inst : Instance) (out : Outcome Loaded Nat Manager) (ctx ctx' : Context Nat Manager)
      (sv : Service Manager.interface Nat),
      Instance.load "m" obliging ⟨.compiled, none, false⟩ = .ok inst ∧
      (Loaded.bytecode inst).Settled ∧
      Loaded.call (perform reentering 1) reentering 20 0 [] (.bytecode inst) ctx = some out ∧
      (Loaded.bytecode inst).Restored out.module ∧
      out.context.tracker.active = ctx.tracker.active ∧
      out.module.regionSize? = some inst.memory.size ∧
      (Loaded.bytecode inst).Serves (perform reentering 1) reentering 0 [] ctx 2 sv ctx' ∧
      ctx'.tracker.current = some inst.name ∧ ctx'.tracker.depth = ctx.tracker.depth + 2 ∧
      ∃ e, Loaded.call (perform reentering 1) reentering 1 0 [1, 2, 3, 4] (.bytecode inst) ctx =
        some ⟨.error e, .bytecode inst, ctx⟩ := by
  let ctx : Context Nat Manager :=
    ⟨0, .empty, Manager.start .default MemorySource.empty.toSource fun _ => none⟩
  let loaded := (Instance.load "m" obliging ⟨.compiled, none, false⟩).toOption
  have hload : (loaded.map fun i => (i.state, i.callLevel)) = some (.ready, 0) := by
    decide +kernel
  have hcall : (loaded.bind fun i =>
      Loaded.call (perform reentering 1) reentering 20 0 [] (.bytecode i) ctx).isSome = true := by
    decide +kernel
  have hcourse : (loaded.bind fun i => (i.accept 0 []).toOption.bind fun packed =>
      (Course.after (Moment.next (perform reentering 1) reentering) 7
        (Moment.start i packed [] ctx)).map fun c =>
          (c.phase.service?.isSome, c.callers.length)) = some (true, 1) := by
    decide +kernel
  obtain ⟨inst, hinst, hpair⟩ := Option.map_eq_some_iff.1 hload
  have hsettled : (Loaded.bytecode inst).Settled := .inl (Prod.mk.inj hpair)
  rw [hinst, Option.bind_some] at hcall hcourse
  obtain ⟨out, hout⟩ := Option.isSome_iff_exists.1 hcall
  obtain ⟨packed, hpacked, hcourse⟩ := Option.bind_eq_some_iff.1 hcourse
  obtain ⟨c, hc, hcpair⟩ := Option.map_eq_some_iff.1 hcourse
  obtain ⟨hphase, hcallers⟩ := Prod.mk.inj hcpair
  have hvisits : inst.Visits (perform reentering 1) reentering 0 [] ctx c :=
    ⟨packed, Instance.eq_ok_of_toOption hpacked, 7, hc⟩
  obtain ⟨sv, hphase⟩ := Option.isSome_iff_exists.1 hphase
  obtain ⟨w, i, hsv⟩ := Phase.service?_eq_some_iff.1 hphase
  have hserves : (Loaded.bytecode inst).Serves (perform reentering 1) reentering 0 [] ctx 2 sv
      c.context := ⟨c, w, i, hvisits, hsv, by rw [hcallers], rfl⟩
  obtain ⟨hany, hmanager⟩ := call_discipline 20 0 [] (.bytecode inst)
  obtain ⟨hrestored, hsize⟩ := (hany (perform reentering 1) reentering ctx).1 hsettled out hout
  obtain ⟨hactive, hserving⟩ := hmanager reentering 1 ctx
  obtain ⟨hcurrent, hdepth⟩ := hserving ctx c.context 0 2 sv (.outermost 1 0 [] _) hserves
  have hrefused := ((call_discipline 0 0 [1, 2, 3, 4] (.bytecode inst)).1 (perform reentering 1)
    reentering ctx).2 (.inr (.inr (by decide)))
  exact ⟨inst, out, ctx, c.context, sv, Instance.eq_ok_of_toOption hinst, hsettled, hout,
    hrestored, hactive out hout, hsize inPlace_reentering, hserves, hcurrent, hdepth, hrefused⟩

/-- The requests of a host that has the tracker at hand: names to be put on it. -/
def Interface.tracking : Interface := ⟨String, fun _ => Unit⟩

/-- The world in which these requests are granted. The names stay on the tracker. -/
def World.tracking : World Interface.tracking σ ω := fun name ctx =>
  some ((), { ctx with tracker := ctx.tracker.enter name })

/-- Hosts that do more than look at regions, write to them and call leave traces of a call: a region
of another size, if they replace the one that there is, and a name too many on the tracker, if they
put one there. -/
theorem Instance.traces_of_call :
    ∃ (inst : Instance) (moved : Outcome Instance Unit Unit)
      (entered : Outcome Instance Unit Unit),
      load "m" obliging ⟨.compiled, none, false⟩ = .ok inst ∧ inst.Settled ∧
      call World.empty moving 20 0 [] inst ⟨(), .empty, ()⟩ = some moved ∧
      inst.memory.size = 64 ∧ moved.module.memory.size = 128 ∧
      call World.tracking (fun s _ => .ask s "n" fun s _ => .done s (.ok 0)) 20 0 [] inst
        ⟨(), .empty, ()⟩ = some entered ∧
      entered.context.tracker.active = ["m"] := by
  let loaded := (load "m" obliging ⟨.compiled, none, false⟩).toOption
  have hfacts : (loaded.bind fun i =>
      (call World.empty moving 20 0 [] i ⟨(), .empty, ()⟩).bind fun moved =>
      (call World.tracking (fun s _ => .ask s "n" fun s _ => .done s (.ok 0)) 20 0 [] i
        ⟨(), .empty, ()⟩).map fun entered =>
          decide (i.state = .ready ∧ i.callLevel = 0 ∧ i.memory.size = 64 ∧
            moved.module.memory.size = 128 ∧ entered.context.tracker.active = ["m"])) =
      some true := by
    decide +kernel
  obtain ⟨inst, hinst, hfacts⟩ := Option.bind_eq_some_iff.1 hfacts
  obtain ⟨moved, hmoved, hfacts⟩ := Option.bind_eq_some_iff.1 hfacts
  obtain ⟨entered, hentered, hfacts⟩ := Option.map_eq_some_iff.1 hfacts
  obtain ⟨hready, hlevel, hbefore, hafter, hactive⟩ := of_decide_eq_true hfacts
  exact ⟨inst, moved, entered, eq_ok_of_toOption hinst, .inl ⟨hready, hlevel⟩, hmoved, hbefore,
    hafter, hentered, hactive⟩

end SandboxVm
