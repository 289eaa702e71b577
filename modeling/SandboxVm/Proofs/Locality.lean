/-
SandboxVm.Proofs.Locality — requests for a name leave other names alone.

A request to create, restart or unload a module goes by its name. If it fails, nothing at all has
changed, and if it succeeds, nothing has changed for the modules of other names. The second needs
that no two names share a slot, which is true of every manager that comes about by requests.

  §1  `Separate`: each entry of the registry has a slot of its own;
  §2  `KeepsOthers`: what a request that succeeds leaves alone;
  §3  `atomic_and_local`: what the three requests are answered, and what is there then.
-/
import SandboxVm.Proofs.Restarts

namespace SandboxVm.Manager

variable {m m' : Manager} {t t' : Tracker} {name : String} {h : Handle} {module : Loaded}

/-! ## §1 Slots of their own -/

/-- Each entry of the registry has a slot, and no other entry has the same. -/
structure Separate (m : Manager) : Prop where
  handles : (m.registry.map (·.2)).Nodup
  bounded : m.Bounded

theorem Separate.ne_of_ne {e : String × Handle} (hm : m.Separate) (he : e ∈ m.registry)
    (hname : (name, h) ∈ m.registry) (hne : e.1 ≠ name) : e.2 ≠ h := by
  intro heq
  have hentry : e = (name, h) := List.inj_on_of_nodup_map hm.handles he hname heq
  exact hne (congrArg Prod.fst hentry)

theorem Separate.setModule (hm : m.Separate) (h : Handle) (x : Option Loaded) :
    (m.setModule h x).Separate := by
  refine ⟨hm.handles, ?_⟩
  intro e he
  rw [size_setModule]
  exact hm.bounded e he

theorem stable_separate : Stable (fun _ => True) (fun _ => True) fun (_ : Unit) => Separate := by
  constructor
  case create =>
    intro _ m m' name h hm hc
    refine ⟨?_, stable_bounded.create (i := ()) hm.bounded hc⟩
    rcases create_eq_ok hc with ⟨rfl, -⟩ | ⟨-, -, rfl, module, -, rfl⟩
    · exact hm.handles
    · have hfresh : ∀ e ∈ m.registry, e.2 ≠ m.slots.size :=
        fun e he => Nat.ne_of_lt (hm.bounded e he)
      simpa [List.nodup_append, hm.handles] using fun a x he => hfresh (x, a) he
  case restart =>
    intro _ m m' name hm hr
    obtain ⟨h, module, module', -, -, rfl, -⟩ := restart_eq_ok hr
    exact hm.setModule _ _
  case unload =>
    intro _ m m' t t' name hm hu
    refine ⟨?_, stable_bounded.unload (i := ()) hm.bounded hu⟩
    obtain ⟨h, -, hunloads⟩ := unload_eq_ok hu
    rw [hunloads.registry]
    exact hm.handles.sublist (List.filter_sublist.map _)
  case operate => exact fun _ hm _ => hm.setModule _ _
  case setSource => exact fun _ hm => ⟨hm.handles, hm.bounded⟩
  case setNatives => exact fun _ hm => ⟨hm.handles, hm.bounded⟩
  case lend =>
    exact fun hm _ => ⟨(), hm.setModule _ _, fun _ _ hafter => hafter.setModule _ _⟩

/-! ## §2 Other names -/

/-- The entries of other names are as they were: they have the same handles and stand in the same
order, and their modules are in their slots, in the same state, or lent out of them as before. So
is what modules are loaded from. -/
structure KeepsOthers (name : String) (m m' : Manager) : Prop where
  registry : m'.registry.filter (·.1 ≠ name) = m.registry.filter (·.1 ≠ name)
  modules : ∀ e ∈ m.registry, e.1 ≠ name → m'.module? e.2 = m.module? e.2
  config : m'.config = m.config
  source : m'.source = m.source
  natives : m'.natives = m.natives

theorem KeepsOthers.refl (name : String) (m : Manager) : KeepsOthers name m m :=
  ⟨rfl, fun _ _ _ => rfl, rfl, rfl, rfl⟩

theorem keepsOthers_of_create (hm : m.Separate) (hc : m.create name = .ok (h, m')) :
    KeepsOthers name m m' ∧ m'.find? name = some h := by
  rcases create_eq_ok hc with ⟨rfl, hfind⟩ | ⟨hnew, -, rfl, module, -, rfl⟩
  · exact ⟨.refl name _, hfind⟩
  · refine ⟨⟨by simp, ?_, rfl, rfl, rfl⟩, ?_⟩
    · intro e he _
      have hlt := hm.bounded e he
      rw [module?, module?, Array.getElem?_push_lt hlt, Array.getElem?_eq_getElem hlt]
    · simp only [find?] at hnew ⊢
      rw [List.lookup_append, hnew]
      simp

theorem keepsOthers_of_restart (hm : m.Separate) (hr : m.restart name = .ok m') :
    KeepsOthers name m m' ∧ m'.registry = m.registry := by
  obtain ⟨h, module, module', hfind, -, rfl, -⟩ := restart_eq_ok hr
  refine ⟨⟨rfl, ?_, rfl, rfl, rfl⟩, rfl⟩
  intro e he hne
  exact module?_setModule_of_ne (hm.ne_of_ne he (mem_registry_of_find? hfind) hne)

theorem keepsOthers_of_unload (hm : m.Separate) (hu : m.unload t name = .ok (m', t')) :
    KeepsOthers name m m' ∧ m'.find? name = none := by
  obtain ⟨h, hfind, hunloads⟩ := unload_eq_ok hu
  obtain ⟨hsource, hnatives⟩ := source_of_unload hu
  refine ⟨⟨?_, ?_, hunloads.config, hsource, hnatives⟩, ?_⟩
  · rw [hunloads.registry, List.filter_filter]
    simp
  · intro e he hne
    exact hunloads.others _ (hm.ne_of_ne he (mem_registry_of_find? hfind) hne)
  · rw [find?, hunloads.registry, List.lookup_eq_none_iff]
    intro e he
    have hne : e.1 ≠ name := by simpa using (List.mem_filter.1 he).2
    simpa using hne.symm

/-! ## §3 Requests -/

variable {σ α : Type}

/-- The answer to a request for a name, and the context afterwards. A failure leaves the context as
it was: the registry, every module in its slot, the tracker. A success keeps the other names and
brings about what was asked for. -/
inductive Settled (name : String) (ctx : Context σ Manager) (done : α → Manager → Prop) :
    Except Error α → Context σ Manager → Prop where
  | failed (e : Error) : Settled name ctx done (.error e) ctx
  | succeeded {a : α} {ctx' : Context σ Manager} (others : KeepsOthers name ctx.world ctx'.world)
      (h : done a ctx'.world) : Settled name ctx done (.ok a) ctx'

/-- Creating, restarting and unloading in a manager that has come about by requests of any kind,
between calls or in the middle of them. Each is answered, whatever images and native modules there
are. If it fails, nothing is changed, however many images were tried and however far. If it
succeeds, the entries of other names are as they were. Creating a name that is registered gives its
handle and changes nothing, whatever the state of the module and the number of entries. -/
theorem atomic_and_local {cfg : Config} {source : ImageSource}
    {natives : String → Option NativeModule}
    (hm : Later (fun _ => True) (fun _ => True) 0 (Manager.start cfg source natives) .empty m t)
    (host : Host interface σ) (s : σ) (fuel : Nat) (name : String) :
    (∃ a ctx, perform host (fuel + 1) (Request.create name) ⟨s, t, m⟩ = some (a, ctx) ∧
      Settled name ⟨s, t, m⟩ (fun h m' => m'.find? name = some h) a ctx) ∧
    (∃ a ctx, perform host (fuel + 1) (Request.restart name) ⟨s, t, m⟩ = some (a, ctx) ∧
      Settled name ⟨s, t, m⟩ (fun _ m' => m'.registry = m.registry) a ctx) ∧
    (∃ a ctx, perform host (fuel + 1) (Request.unload name) ⟨s, t, m⟩ = some (a, ctx) ∧
      Settled name ⟨s, t, m⟩ (fun _ m' => m'.find? name = none) a ctx) ∧
    ∀ h, m.find? name = some h →
      perform host (fuel + 1) (Request.create name) ⟨s, t, m⟩ = some (.ok h, ⟨s, t, m⟩) := by
  have hstart : (Manager.start cfg source natives).Separate :=
    ⟨List.nodup_nil, fun e he => absurd he List.not_mem_nil⟩
  obtain ⟨-, hseparate⟩ := hm.stable (i := ()) stable_separate
    (fun module _ hm => hm.setModule _ _) hstart
  refine ⟨?_, ?_, ?_, ?_⟩
  · cases hc : m.create name with
    | ok created =>
      obtain ⟨hothers, hfind⟩ := keepsOthers_of_create hseparate hc
      exact ⟨.ok created.1, ⟨s, t, created.2⟩, by simp only [perform, hc],
        .succeeded hothers hfind⟩
    | error e => exact ⟨.error e, ⟨s, t, m⟩, by simp only [perform, hc], .failed e⟩
  · cases hr : m.restart name with
    | ok m' =>
      obtain ⟨hothers, hregistry⟩ := keepsOthers_of_restart hseparate hr
      exact ⟨.ok (), ⟨s, t, m'⟩, by rw [perform_restart, hr], .succeeded hothers hregistry⟩
    | error e => exact ⟨.error e, ⟨s, t, m⟩, by rw [perform_restart, hr], .failed e⟩
  · cases hu : m.unload t name with
    | ok state =>
      obtain ⟨hothers, hfind⟩ := keepsOthers_of_unload hseparate hu
      exact ⟨.ok (), ⟨s, state.2, state.1⟩, by rw [perform_unload, hu],
        .succeeded hothers hfind⟩
    | error e => exact ⟨.error e, ⟨s, t, m⟩, by rw [perform_unload, hu], .failed e⟩
  · intro h hfind
    have hc : m.create name = .ok (h, m) := by
      simp only [create, hfind]
    simp only [perform, hc]

/-- Two modules are loaded, and then the source offers an image that is too short and one with
another jump table for the first of them. A restart tries both and leaves it as it is. Unloading the
second one does not touch it either. -/
theorem atomic_and_local_twins :
    ∃ (m : Manager) (ctx : Context Unit Manager),
      Later (fun _ => True) (fun _ => True) 0 (Manager.start .default twins fun _ => none) .empty m
        .empty ∧
      m.registry = [("m", 0), ("n", 1)] ∧ m.source.images "m" = [[], Instance.wearing] ∧
      perform aloof 1 (Request.restart "m") ⟨(), .empty, m⟩ =
        some (.error (.reload .jumpTableMismatch), ⟨(), .empty, m⟩) ∧
      perform aloof 1 (Request.create "m") ⟨(), .empty, m⟩ = some (.ok 0, ⟨(), .empty, m⟩) ∧
      perform aloof 1 (Request.unload "n") ⟨(), .empty, m⟩ = some (.ok (), ctx) ∧
      ctx.world.find? "m" = some 0 ∧ ctx.world.module? 0 = m.module? 0 := by
  let failure (a : Except Error Unit) : Option Error :=
    match a with
    | .ok _ => none
    | .error e => some e
  let ctx₀ : Context Unit Manager := ⟨(), .empty, Manager.start .default twins fun _ => none⟩
  have hcourse : ((perform aloof 1 (Request.create "m") ctx₀).bind fun first =>
      (perform aloof 1 (Request.create "n") first.2).bind fun second =>
      (perform aloof 1 (Request.setSource mended) second.2).bind fun moved =>
      (perform aloof 1 (Request.restart "m") moved.2).bind fun restarted =>
      (perform aloof 1 (Request.unload "n") moved.2).map fun unloaded =>
        decide (moved.2.tracker = .empty ∧ moved.2.world.registry = [("m", 0), ("n", 1)] ∧
          moved.2.world.source.images "m" = [[], Instance.wearing] ∧
          failure restarted.1 = some (.reload .jumpTableMismatch) ∧ failure unloaded.1 = none ∧
          unloaded.2.world.find? "m" = some 0)) = some true := by
    decide +kernel
  obtain ⟨⟨_, ctx₁⟩, h₁, hcourse⟩ := Option.bind_eq_some_iff.1 hcourse
  obtain ⟨⟨_, ctx₂⟩, h₂, hcourse⟩ := Option.bind_eq_some_iff.1 hcourse
  obtain ⟨⟨_, ⟨⟨⟩, t, m⟩⟩, h₃, hcourse⟩ := Option.bind_eq_some_iff.1 hcourse
  obtain ⟨⟨restarted, ctx₄⟩, hrestart, hcourse⟩ := Option.bind_eq_some_iff.1 hcourse
  obtain ⟨⟨unloaded, ctx₅⟩, hunload, hfacts⟩ := Option.map_eq_some_iff.1 hcourse
  obtain ⟨htracker, hregistry, himages, hfailed, hdone, hfind⟩ := of_decide_eq_true hfacts
  obtain rfl : t = .empty := htracker
  have hhost : aloof.Within (fun _ => True) fun _ => True := fun _ _ => trivial
  have hlater : Later (fun _ => True) (fun _ => True) 0
      (Manager.start .default twins fun _ => none) .empty m .empty :=
    .perform aloof () 1 (.perform aloof () 1 (.perform aloof () 1 .refl trivial hhost h₁) trivial
      hhost h₂) trivial hhost h₃
  obtain ⟨-, hrestarted, -, hcreated⟩ := atomic_and_local hlater aloof () 0 "m"
  obtain ⟨-, -, hunloaded, -⟩ := atomic_and_local hlater aloof () 0 "n"
  have hregistry : m.registry = [("m", 0), ("n", 1)] := hregistry
  have hm : m.find? "m" = some 0 := by
    rw [find?, hregistry]
    rfl
  have hsame : perform aloof 1 (Request.restart "m") ⟨(), .empty, m⟩ =
      some (.error (.reload .jumpTableMismatch), ⟨(), .empty, m⟩) := by
    obtain ⟨a, ctx, hrun, hsettled⟩ := hrestarted
    obtain ⟨rfl, rfl⟩ := Prod.mk.inj (Option.some.inj (hrestart.symm.trans hrun))
    rw [hrun]
    cases hsettled with
    | failed e => rw [Option.some.inj hfailed]
    | succeeded => cases hfailed
  have hgone : perform aloof 1 (Request.unload "n") ⟨(), .empty, m⟩ = some (.ok (), ctx₅) ∧
      ctx₅.world.module? 0 = m.module? 0 := by
    obtain ⟨a, ctx, hrun, hsettled⟩ := hunloaded
    obtain ⟨rfl, rfl⟩ := Prod.mk.inj (Option.some.inj (hunload.symm.trans hrun))
    rw [hrun]
    cases hsettled with
    | failed e => cases hdone
    | succeeded others => exact ⟨rfl, others.modules ("m", 0) (by simp [hregistry]) (by decide)⟩
  exact ⟨m, ctx₅, hlater, hregistry, himages, hsame, hcreated 0 hm, hgone.1, hfind, hgone.2⟩

end SandboxVm.Manager
