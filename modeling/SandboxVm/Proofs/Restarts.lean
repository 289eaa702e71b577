/-
SandboxVm.Proofs.Restarts — a restart gives back the module that was created.

Creating a module and restarting it search the same list of images, each in a loop of its own.
The loops pass over different failures, and a restart has an old instance to fill in for a symbol
file that is missing. They settle on the same image because what a restart compares with, and what
it takes over, is not changed by a call, however it ends, unless its host puts another region in
place or changes the settings of an instance through its handle.

  §1  `loadFirst` gives the first image that is accepted, or the last failure;
  §2  `Instance.Resettable`: instances that a reload turns back into a given one;
  §3  `Stable`: what is kept of a manager by single requests is kept by everything that they lead
      to, and `Later`: managers that come about in this way;
  §4  `Guards`: the modules of a name stay resettable. `restart_restores_created`, and
      `restart_differs_after_call` for the hosts that it leaves out.
-/
import SandboxVm.Proofs.ManagerCourses

namespace SandboxVm

/-! ## §1 The first image that is accepted -/

namespace Manager

variable {m m' : Manager} {t t' : Tracker} {name : String} {h : Handle} {inst : Instance}

/-- An image is found exactly if one is accepted, and then all before it were rejected. -/
theorem loadFirst_eq_ok_iff {opts : LoadOptions} {last : LoadError} {images : List Bytes} :
    loadFirst name opts last images = .ok inst ↔
      ∃ before bytes after, images = before ++ bytes :: after ∧
        (∀ b ∈ before, ∃ e, Instance.load name b opts = .error e) ∧
        Instance.load name bytes opts = .ok inst := by
  induction images generalizing last with
  | nil => simp [loadFirst]
  | cons bytes images ih =>
    cases hload : Instance.load name bytes opts with
    | ok a =>
      simp only [loadFirst, hload]
      constructor
      · rintro ⟨⟩
        exact ⟨[], bytes, images, rfl, by simp, hload⟩
      · rintro ⟨before, bytes', after, heq, hbefore, hok⟩
        cases before with
        | nil =>
          cases heq
          exact hload.symm.trans hok
        | cons b before =>
          cases heq
          obtain ⟨e, he⟩ := hbefore bytes List.mem_cons_self
          cases hload.symm.trans he
    | error e =>
      simp only [loadFirst, hload, ih]
      constructor
      · rintro ⟨before, bytes', after, rfl, hbefore, hok⟩
        refine ⟨bytes :: before, bytes', after, rfl, ?_, hok⟩
        intro b hb
        rcases List.mem_cons.1 hb with rfl | hb
        · exact ⟨e, hload⟩
        · exact hbefore b hb
      · rintro ⟨before, bytes', after, heq, hbefore, hok⟩
        cases before with
        | nil =>
          cases heq
          cases hload.symm.trans hok
        | cons b before =>
          cases heq
          exact ⟨before, bytes', after, rfl, fun b hb => hbefore b (List.mem_cons_of_mem _ hb), hok⟩

/-- The settings with which modules of a name are loaded. -/
def loadOptions (m : Manager) (name : String) : LoadOptions :=
  ⟨(m.config.kindFor name).mode, m.mapFor name, m.config.profile⟩

/-- No native module is used for the name. -/
def UsesBytecode (m : Manager) (name : String) : Prop :=
  m.config.kindFor name = .native → m.natives name = none

theorem UsesBytecode.loadModule_eq (hm : m.UsesBytecode name) :
    m.loadModule name =
      (loadFirst name (m.loadOptions name) .moduleNotFound (m.source.images name)).map
        Loaded.bytecode := by
  have hmap (x : Except LoadError Instance) :
      (do let inst ← x; .ok (Loaded.bytecode inst)) = x.map Loaded.bytecode := by
    cases x <;> rfl
  cases hkind : m.config.kindFor name with
  | native => simp only [loadModule, loadOptions, hkind, hm hkind, hmap]
  | interpreted => simp only [loadModule, loadOptions, hkind, hmap]
  | compiled => simp only [loadModule, loadOptions, hkind, hmap]

end Manager

/-! ## §2 Instances that a reload turns back -/

namespace Instance

variable {a b c : Instance} {bytes : Bytes} {map : Option String}

/-- An instance between calls that takes in the image of another one, with the same settings. -/
structure Resettable (a b : Instance) : Prop where
  name : b.name = a.name
  requested : b.requested = a.requested
  map : b.map = a.map
  profiling : b.profiling = a.profiling
  size : b.memory.size = a.memory.size
  declared : b.jumpTable.map (·.declared) = a.jumpTable.map (·.declared)
  idle : (Loaded.bytecode b).Idle

/-- What loading takes over from its settings and from the image. -/
theorem load_eq_ok {name : String} {opts : LoadOptions} (h : load name bytes opts = .ok a) :
    a.name = name ∧ opts = ⟨a.requested, a.map, a.profiling⟩ ∧
      (dataSize a.header).toNat = a.memory.size := by
  obtain ⟨parsed, hparsed, hsize, -⟩ := fits_of_load h
  unfold load at h
  simp only [hparsed, bind, Except.bind] at h
  cases h
  refine ⟨rfl, rfl, ?_⟩
  have htotal := (Image.length_data_le_of_parse (image_of_parse hparsed)).2
  have hle := Sandbox.roundUp_le_maxDataSize htotal
  rw [hsize]
  exact UInt32.toNat_ofNat_of_lt' (Nat.lt_of_le_of_lt hle (by decide))

theorem Resettable.of_load {name : String} {opts : LoadOptions}
    (h : load name bytes opts = .ok a) : Resettable a a :=
  ⟨rfl, rfl, rfl, rfl, rfl, rfl, (idle_of_load h).2⟩

/-- A call leaves an instance resettable, however it ends, if the host leaves the region in
place. -/
theorem Resettable.call {I : Interface} {σ ω : Type} {world : World I σ ω} {host : Host I σ}
    {fuel : Nat} {command : Int32} {args : List Int32} {ctx : Context σ ω}
    {out : Outcome Instance σ ω} (hb : Resettable a b) (hhost : host.InPlace)
    (h : Instance.call world host fuel command args b ctx = some out) :
    Resettable a out.module := by
  have hidle := Loaded.idle_of_instance_call hb.idle h
  have hsame := sameModule_of_call h
  have hsize := size_of_call hhost h
  exact ⟨hsame.name.trans hb.name, hsame.requested.trans hb.requested, hsame.map.trans hb.map,
    hsame.profiling.trans hb.profiling, hsize.trans hb.size,
    (congrArg _ hsame.jumpTable).trans hb.declared, hidle⟩

/-- So does a reload, unless it brings a symbol file of its own. -/
theorem Resettable.reload (hb : Resettable a b) (hmap : map = none ∨ map = a.map)
    (h : b.reload bytes map = .ok c) : Resettable a c := by
  obtain ⟨hname, hrequested, hidle⟩ := idle_of_reload h
  obtain ⟨-, hsize⟩ := fits_of_reload h
  obtain ⟨parsed, -, hcheck, rfl⟩ := reload_eq_ok h
  have hdeclared : b.jumpTable.map (·.declared) = parsed.jumpTable.map (·.declared) := by
    unfold checkReload at hcheck
    split at hcheck
    next => cases hcheck
    next =>
      split at hcheck
      next => cases hcheck
      next hdeclared => exact Decidable.not_not.1 hdeclared
  have hkept : (map <|> b.map) = a.map := by
    rcases hmap with rfl | rfl
    · exact hb.map
    · rw [hb.map]
      cases a.map <;> rfl
  exact ⟨hname.trans hb.name, hrequested.trans hb.requested, hkept, hb.profiling,
    hsize.trans hb.size, hdeclared.symm.trans hb.declared, hidle hb.idle⟩

/-- The operations that leave symbols and profiling alone, do not unload and leave the region in
place. -/
def Operation.Spares : Operation → Prop
  | .reload _ map => map = none
  | .profileReport => True
  | .edit e => e.InPlace
  | .unload | .attachSymbols _ | .setProfiling _ => False

theorem Resettable.operate {op : Operation} (hb : Resettable a b) (hop : op.Spares)
    (t : Tracker) : Resettable a (b.operate t op).2.1 := by
  have hrest (c : Instance) (hc : b.Operated c) (hsize : c.memory.size = b.memory.size)
      (hmap : c.map = b.map) (hprofiling : c.profiling = b.profiling) : Resettable a c := by
    have hidle : (Loaded.bytecode c).Idle :=
      ⟨hb.idle.1.operated hc, by rw [hc.state]; exact hb.idle.2⟩
    refine ⟨?_, ?_, hmap.trans hb.map, hprofiling.trans hb.profiling, hsize.trans hb.size, ?_,
      hidle⟩
    · rw [hc.rest]
      exact hb.name
    · rw [hc.rest]
      exact hb.requested
    · rw [hc.rest]
      exact hb.declared
  cases op with
  | reload bytes map =>
    simp only [Instance.operate]
    cases hr : (reloadInPlace bytes map).run b with
    | ok u c => exact hb.reload (.inl hop) (reload_eq_ok_iff.2 hr)
    | error e c =>
      obtain rfl := eq_of_reloadInPlace_error hr
      exact hb
  | unload => exact hop.elim
  | attachSymbols map => exact hop.elim
  | setProfiling on => exact hop.elim
  | profileReport =>
    simp only [Instance.operate, profileReport]
    split
    · exact hb
    · exact hrest _ ⟨rfl⟩ rfl rfl rfl
  | edit e =>
    simp only [Instance.operate, Instance.edit]
    split
    · exact hb
    · exact hrest _ ⟨rfl⟩ (b.memory.size_edit hop) rfl rfl

/-- The settings of a reload are those of the load. -/
theorem Resettable.reloadOptions_eq (hb : Resettable a b) :
    b.reloadOptions a.map = ⟨a.requested, a.map, a.profiling⟩ := by
  rw [reloadOptions, hb.requested, hb.map, hb.profiling]
  cases a.map <;> rfl

/-- A search for an image that gave an instance gives it again as a reload. -/
theorem Resettable.reloadFirst_of_loadFirst {name : String} {opts : LoadOptions}
    {images : List Bytes} {last last' : LoadError} (hb : Resettable a b)
    (h : Manager.loadFirst name opts last images = .ok a) :
    Manager.reloadFirst b opts.map last' images = .ok a := by
  obtain ⟨before, bytes, after, rfl, hbefore, hload⟩ := Manager.loadFirst_eq_ok_iff.1 h
  obtain ⟨rfl, rfl, hsize⟩ := load_eq_ok hload
  clear h
  have hrun (bytes : Bytes) := run_reloadInPlace_eq_load hb.idle.1.level hb.idle.2 bytes a.map
  simp only [hb.name, hb.reloadOptions_eq] at hrun
  induction before generalizing last' with
  | nil =>
    have hreload : b.reload bytes a.map = .ok a := by
      rw [reload_eq_ok_iff, hrun, hload]
      simp only [hsize, hb.size, hb.declared, ne_eq, not_true, if_false]
    simp only [List.nil_append, Manager.reloadFirst_cons, hreload]
  | cons x before ih =>
    obtain ⟨e, he⟩ := hbefore x List.mem_cons_self
    have hreload : b.reload x a.map = .error (.load e) := by
      rw [Instance.reload, hrun, he]
    simp only [List.cons_append, Manager.reloadFirst_cons, hreload]
    exact ih fun y hy => hbefore y (List.mem_cons_of_mem _ hy)

theorem Resettable.reloadFirst {images : List Bytes} {last : LoadError} (hb : Resettable a b)
    (h : Manager.reloadFirst b a.map last images = .ok c) : Resettable a c := by
  induction images generalizing last with
  | nil => cases h
  | cons bytes images ih =>
    rw [Manager.reloadFirst_cons] at h
    split at h
    next hreload =>
      cases h
      exact hb.reload (.inr rfl) hreload
    next => exact ih h
    next => cases h

end Instance

/-! ## §3 Managers that come about by requests -/

namespace Manager

/-- Single requests of the given kind keep a property of managers, which may depend on the modules
that are lent: a module is lent under one form of the property and comes back under another, after a
call with a host that makes edits and requests of the given kinds. -/
structure Stable {ι : Type} (edits : Sandbox.Edit → Prop) (ok : Request → Prop)
    (P : ι → Manager → Prop) : Prop where
  create : ∀ {i m m' name h}, P i m → m.create name = .ok (h, m') → P i m'
  restart : ∀ {i m m' name}, P i m → m.restart name = .ok m' → P i m'
  unload : ∀ {i m m' t t' name}, P i m → m.unload t name = .ok (m', t') → P i m'
  operate : ∀ {i m t h op b}, ok (.operate h op) → P i m → m.module? h = some (.bytecode b) →
    P i (m.setModule h (some (.bytecode (b.operate t op).2.1)))
  setSource : ∀ {i m source}, ok (.setSource source) → P i m → P i { m with source := source }
  setNatives : ∀ {i m natives}, ok (.setNatives natives) → P i m →
    P i { m with natives := natives }
  lend : ∀ {i m h module}, P i m → m.module? h = some module →
    ∃ j, P j (m.setModule h none) ∧
      ∀ {σ : Type} {world : World interface σ Manager} {host : Host interface σ} {fuel : Nat}
        {command : Int32} {args : List Int32} {ctx : Context σ Manager}
        {out : Outcome Loaded σ Manager}, host.Within edits ok →
        Loaded.call world host fuel command args module ctx = some out →
        P j out.context.world → P i (out.context.world.setModule h (some out.module))

variable {ι σ : Type} {edits : Sandbox.Edit → Prop} {ok : Request → Prop} {P : ι → Manager → Prop}
  {i : ι} {m : Manager} {t : Tracker}

/-- A property of the world alone does not mind the beginning and the end of calls. -/
theorem tolerates_world (P : Manager → Prop) (name : String) :
    Tolerates (fun m _ => P m) name where
  enter := id
  leave := id

namespace Stable

theorem clear (hP : Stable edits ok P) (hm : P i m) (t : Tracker) : P i (m.clear t).1 := by
  rw [clear_eq_foldl]
  generalize m.registry.map (·.1) = names
  induction names generalizing m t with
  | nil => exact hm
  | cons name names ih =>
    rw [List.foldl_cons]
    cases hu : m.unload t name with
    | ok state =>
      have hone : unloadIdle (m, t) name = state := by simp [unloadIdle, hu]
      rw [hone]
      exact ih (hP.unload hm hu) state.2
    | error e =>
      have hone : unloadIdle (m, t) name = (m, t) := by simp [unloadIdle, hu]
      rw [hone]
      exact ih hm t

variable {host : Host interface σ}

theorem callSlot (hP : Stable edits ok P) (hhost : host.Within edits ok) {fuel : Nat}
    (hworld : ∀ i, (perform host fuel).Keeps ok fun m _ => P i m) {h : Handle}
    {command : Int32} {args : List Int32} {ctx ctx' : Context σ Manager} {reply : Option Reply}
    (hctx : P i ctx.world)
    (hcall : Manager.callSlot (Loaded.call (perform host fuel) host fuel) h command args ctx =
      some (reply, ctx')) : P i ctx'.world := by
  unfold Manager.callSlot at hcall
  split at hcall
  next =>
    cases hcall
    exact hctx
  next module hmodule =>
    split at hcall
    next => cases hcall
    next out hout =>
      cases hcall
      obtain ⟨j, hlent, hreturned⟩ := hP.lend hctx hmodule
      obtain ⟨hafter, -⟩ := Loaded.kept_of_call hhost.confined (hworld j)
        (tolerates_world (P j) module.name) hlent hout
      exact hreturned hhost hout hafter

/-- What single requests keep is kept by requests with everything that hosts do in them. -/
theorem perform (hP : Stable edits ok P) (hhost : host.Within edits ok) (fuel : Nat) (i : ι) :
    (Manager.perform host fuel).Keeps ok fun m _ => P i m := by
  induction fuel generalizing i with
  | zero =>
    intro q ctx ctx' a _ h
    cases h
  | succ fuel ih =>
    intro q ctx ctx' a hq h hctx
    cases q with
    | create name =>
      simp only [Manager.perform] at h
      split at h
      next hcreate =>
        cases h
        exact hP.create hctx hcreate
      next =>
        cases h
        exact hctx
    | call name command args =>
      simp only [Manager.perform] at h
      split at h
      next =>
        cases h
        exact hctx
      next =>
        split at h
        next => cases h
        next hslot =>
          cases h
          exact hP.callSlot hhost ih hctx hslot
    | restart name =>
      simp only [perform_restart] at h
      split at h
      next hrestart =>
        cases h
        exact hP.restart hctx hrestart
      next =>
        cases h
        exact hctx
    | unload name =>
      simp only [perform_unload] at h
      split at h
      next hunload =>
        cases h
        exact hP.unload hctx hunload
      next =>
        cases h
        exact hctx
    | clear =>
      cases h
      exact hP.clear hctx _
    | callHandle handle command args => exact hP.callSlot hhost ih hctx h
    | operate handle op =>
      have hctx' : ctx' = (operateSlot handle op ctx).2 :=
        (congrArg Prod.snd (Option.some.inj h)).symm
      rw [hctx', operateSlot]
      split
      next b hb => exact hP.operate hq hctx hb
      next => exact hctx
    | look =>
      cases h
      exact hctx
    | setSource source =>
      cases h
      exact hP.setSource hq hctx
    | setNatives natives =>
      cases h
      exact hP.setNatives hq hctx

end Stable

/-- Managers that come about from `m₀` by requests of the given kind, between calls and in the
middle of them. Every request comes with a host of its own, which makes edits and requests of the
given kinds. Calls that were active from the start may return at any time; their modules have
handles below `older`. -/
inductive Later (edits : Sandbox.Edit → Prop) (ok : Request → Prop) (older : Handle)
    (m₀ : Manager) (t₀ : Tracker) : Manager → Tracker → Prop where
  | refl : Later edits ok older m₀ t₀ m₀ t₀
  /-- A request is answered. -/
  | perform {σ : Type} {m : Manager} {t : Tracker} {q : Request} {a : Answer q}
      {ctx : Context σ Manager} (host : Host interface σ) (s : σ) (fuel : Nat)
      (hm : Later edits ok older m₀ t₀ m t) (hq : ok q) (hhost : host.Within edits ok)
      (h : Manager.perform host fuel q ⟨s, t, m⟩ = some (a, ctx)) :
    Later edits ok older m₀ t₀ ctx.world ctx.tracker
  /-- A call of some module has begun and not ended yet. -/
  | within {σ : Type} {m : Manager} {t : Tracker} {h : Handle} {module module' : Loaded}
      {command : Int32} {args : List Int32} {sv : Option (Service interface σ)}
      {ctx : Context σ Manager} (host : Host interface σ) (s : σ) (fuel : Nat)
      (hm : Later edits ok older m₀ t₀ m t) (hhost : host.Within edits ok)
      (hmodule : m.module? h = some module)
      (hv : module.Visits (Manager.perform host fuel) host command args
        ⟨s, t, m.setModule h none⟩ module' sv ctx) :
    Later edits ok older m₀ t₀ ctx.world ctx.tracker
  /-- A call that was active from the start returns. -/
  | «return» {m : Manager} {t : Tracker} {h : Handle} (hm : Later edits ok older m₀ t₀ m t)
      (hlt : h < older) (module : Loaded) :
    Later edits ok older m₀ t₀ (m.setModule h (some module)) t.leave

/-- What single requests keep holds later on, in the form that goes with the modules that are
lent then. -/
theorem Later.stable {older : Handle} {m₀ : Manager} {t₀ : Tracker}
    (hP : Stable edits ok P) (hreturn : ∀ {i m h} module, h < older → P i m →
      P i (m.setModule h (some module)))
    (h₀ : P i m₀) (h : Later edits ok older m₀ t₀ m t) : ∃ j, P j m := by
  induction h with
  | refl => exact ⟨i, h₀⟩
  | perform host s fuel _ hq hhost h ih =>
    obtain ⟨j, hj⟩ := ih
    exact ⟨j, hP.perform hhost fuel j hq h hj⟩
  | within host s fuel _ hhost hmodule hv ih =>
    obtain ⟨j, hj⟩ := ih
    obtain ⟨k, hlent, -⟩ := hP.lend hj hmodule
    have hkept := hv.kept hhost.confined (hP.perform hhost fuel k) (tolerates_world (P k) _) hlent
    exact ⟨k, hkept.2.2⟩
  | «return» _ hlt module ih =>
    obtain ⟨j, hj⟩ := ih
    exact ⟨j, hreturn module hlt hj⟩

theorem source_of_unload {m' : Manager} {t' : Tracker} {name : String}
    (h : m.unload t name = .ok (m', t')) : m'.source = m.source ∧ m'.natives = m.natives := by
  rw [unload_eq] at h
  cases hidle : m.idle name with
  | error e => simp [hidle, bind, Except.bind] at h
  | ok found =>
    obtain ⟨handle, module⟩ := found
    simp only [hidle, bind, Except.bind] at h
    cases module with
    | bytecode inst =>
      cases hunload : inst.unload t with
      | error e => simp [hunload] at h
      | ok unloaded =>
        simp only [hunload] at h
        cases h
        exact ⟨rfl, rfl⟩
    | native n =>
      cases h
      exact ⟨rfl, rfl⟩

/-- Every handle that is registered is the number of a slot. -/
def Bounded (m : Manager) : Prop := ∀ e ∈ m.registry, e.2 < m.slots.size

theorem stable_bounded : Stable (fun _ => True) (fun _ => True) fun (_ : Unit) => Bounded := by
  have hput {m : Manager} (hm : m.Bounded) (h : Handle) (x : Option Loaded) :
      (m.setModule h x).Bounded := by
    intro e he
    rw [size_setModule]
    exact hm e he
  constructor
  case create =>
    intro _ m m' name h hm hcreate
    rcases create_eq_ok hcreate with ⟨rfl, -⟩ | ⟨-, -, rfl, module, -, rfl⟩
    · exact hm
    · intro e he
      rw [Array.size_push]
      rcases List.mem_append.1 he with he | he
      · exact Nat.lt_succ_of_lt (hm e he)
      · rw [List.mem_singleton.1 he]
        exact Nat.lt_succ_self _
  case restart =>
    intro _ m m' name hm hrestart
    obtain ⟨h, module, module', -, -, rfl, -⟩ := restart_eq_ok hrestart
    exact hput hm _ _
  case unload =>
    intro _ m m' t t' name hm hunload
    obtain ⟨h, -, hunloads⟩ := unload_eq_ok hunload
    intro e he
    rw [hunloads.registry] at he
    rw [hunloads.size]
    exact hm e (List.mem_of_mem_filter he)
  case operate => exact fun _ hm _ => hput hm _ _
  case setSource => exact fun _ hm => hm
  case setNatives => exact fun _ hm => hm
  case lend => exact fun hm _ => ⟨(), hput hm _ _, fun _ _ hafter => hput hafter _ _⟩

/-! ## §4 Modules of a name -/

/-- The request leaves alone what modules of the name are loaded from, and the settings and regions
of all instances. -/
def Request.Spares (m₀ : Manager) (name : String) : Request → Prop
  | .setSource source => source.images name = m₀.source.images name ∧
      source.symbolMap name = m₀.source.symbolMap name
  | .setNatives natives => { m₀ with natives := natives }.UsesBytecode name
  | .operate _ op => op.Spares
  | _ => True

/-- The modules that are registered under the name can be reset to `inst`, which is what the
manager `m₀` loads for it. They are newer than the modules of `m₀`, and no module with a handle
among the strangers is one of them. -/
structure Guards (m₀ : Manager) (name : String) (inst : Instance) (strangers : List Handle)
    (m : Manager) : Prop where
  config : m.config = m₀.config
  images : m.source.images name = m₀.source.images name
  symbolMap : m.source.symbolMap name = m₀.source.symbolMap name
  bytecode : m.UsesBytecode name
  bounded : m.Bounded
  owner : ∀ {other h}, (other, h) ∈ m.registry → (name, h) ∈ m.registry → other = name
  own : ∀ {h module}, (name, h) ∈ m.registry → m.module? h = some module →
    ∃ b, module = .bytecode b ∧ inst.Resettable b
  grown : m₀.slots.size ≤ m.slots.size
  newer : ∀ {h}, (name, h) ∈ m.registry → m₀.slots.size ≤ h
  strangers : ∀ h ∈ strangers, h < m.slots.size ∧ (name, h) ∉ m.registry

namespace Guards

variable {m₀ m m' : Manager} {name other : String} {inst : Instance} {strangers : List Handle}
  {t t' : Tracker} {h : Handle} {module : Loaded}

theorem mapFor_eq (hm : Guards m₀ name inst strangers m) : m.mapFor name = m₀.mapFor name := by
  rw [mapFor, hm.config, hm.symbolMap, mapFor]

theorem loadOptions_eq (hm : Guards m₀ name inst strangers m) :
    m.loadOptions name = m₀.loadOptions name := by
  rw [loadOptions, hm.config, hm.mapFor_eq, loadOptions]

/-- Something is put into a slot, which is a resettable module if the slot is one of the name. -/
theorem put (hm : Guards m₀ name inst strangers m) {x : Option Loaded}
    (hx : (name, h) ∈ m.registry → ∀ module, x = some module →
      ∃ b, module = .bytecode b ∧ inst.Resettable b) :
    Guards m₀ name inst strangers (m.setModule h x) := by
  refine { hm with bounded := ?_, own := ?_, grown := ?_, strangers := ?_ }
  · intro e he
    rw [size_setModule]
    exact hm.bounded e he
  · intro h' module hreg hmodule
    by_cases heq : h' = h
    · rw [heq] at hreg hmodule
      rw [module?_setModule_self (hm.bounded _ hreg)] at hmodule
      exact hx hreg module hmodule
    · rw [module?_setModule_of_ne heq] at hmodule
      exact hm.own hreg hmodule
  · rw [size_setModule]
    exact hm.grown
  · intro h' hmem
    rw [size_setModule]
    exact hm.strangers h' hmem

theorem create (hfirst : loadFirst name (m₀.loadOptions name) .moduleNotFound
      (m₀.source.images name) = .ok inst)
    (hm : Guards m₀ name inst strangers m) (hc : m.create other = .ok (h, m')) :
    Guards m₀ name inst strangers m' := by
  rcases create_eq_ok hc with ⟨rfl, -⟩ | ⟨-, -, rfl, module, hload, rfl⟩
  · exact hm
  have hsize : ∀ {x}, (x, m.slots.size) ∉ m.registry := fun hreg =>
    Nat.lt_irrefl _ (hm.bounded _ hreg)
  refine ⟨hm.config, hm.images, hm.symbolMap, hm.bytecode, ?_, ?_, ?_, ?_, ?_, ?_⟩
  · exact stable_bounded.create (i := ()) hm.bounded hc
  · intro x h hreg hname
    simp only [List.mem_append, List.mem_singleton, Prod.mk.injEq] at hreg hname
    rcases hreg with hreg | ⟨rfl, hnew⟩
    · rcases hname with hname | ⟨rfl, rfl⟩
      · exact hm.owner hreg hname
      · exact absurd hreg hsize
    · rcases hname with hname | ⟨rfl, -⟩
      · rw [hnew] at hname
        exact absurd hname hsize
      · rfl
  · intro h module' hreg hmodule
    simp only [List.mem_append, List.mem_singleton, Prod.mk.injEq] at hreg
    rcases hreg with hreg | ⟨rfl, rfl⟩
    · rw [module?, Array.getElem?_push_lt (hm.bounded _ hreg)] at hmodule
      refine hm.own hreg ?_
      rw [module?, Array.getElem?_eq_getElem (hm.bounded _ hreg)]
      exact hmodule
    · -- the search is the one that gave the first instance
      rw [hm.bytecode.loadModule_eq, hm.loadOptions_eq, hm.images, hfirst] at hload
      cases hload
      obtain ⟨-, bytes, -, -, -, hbytes⟩ := loadFirst_eq_ok_iff.1 hfirst
      simp only [module?, Array.getElem?_push_size, Option.join_some, Option.some.injEq] at hmodule
      exact ⟨inst, hmodule.symm, .of_load hbytes⟩
  · rw [Array.size_push]
    exact Nat.le_succ_of_le hm.grown
  · intro h hreg
    simp only [List.mem_append, List.mem_singleton, Prod.mk.injEq] at hreg
    rcases hreg with hreg | ⟨-, rfl⟩
    · exact hm.newer hreg
    · exact hm.grown
  · intro h hmem
    obtain ⟨hlt, hnot⟩ := hm.strangers h hmem
    refine ⟨by rw [Array.size_push]; exact Nat.lt_succ_of_lt hlt, ?_⟩
    simp only [List.mem_append, List.mem_singleton, Prod.mk.injEq, not_or]
    exact ⟨hnot, fun heq => Nat.ne_of_lt hlt heq.2⟩

theorem restart (hmap : inst.map = m₀.mapFor name) (hm : Guards m₀ name inst strangers m)
    (hr : m.restart other = .ok m') : Guards m₀ name inst strangers m' := by
  rw [restart_eq] at hr
  cases hidle : m.idle other with
  | error e => simp [hidle, bind, Except.bind] at hr
  | ok found =>
    obtain ⟨h, module⟩ := found
    obtain ⟨hfind, hmodule⟩ := idle_eq_ok hidle
    have hreg := mem_registry_of_find? hfind
    simp only [hidle, bind, Except.bind] at hr
    cases module with
    | bytecode b =>
      cases hreload : reloadFirst b (m.mapFor other) .moduleNotFound (m.source.images other) with
      | error e => simp [hreload] at hr
      | ok b' =>
        simp only [hreload] at hr
        cases hr
        refine hm.put ?_
        rintro hname _ ⟨⟩
        obtain rfl := hm.owner hreg hname
        obtain ⟨_, ⟨⟩, hb⟩ := hm.own hname hmodule
        rw [hm.mapFor_eq, ← hmap] at hreload
        exact ⟨b', rfl, hb.reloadFirst hreload⟩
    | native n =>
      have hout : (name, h) ∉ m.registry := fun hname => by
        obtain ⟨b, hb, -⟩ := hm.own hname hmodule
        cases hb
      simp only at hr
      split at hr
      next =>
        cases hr
        exact hm.put fun hname => absurd hname hout
      next => cases hr

theorem unload (hm : Guards m₀ name inst strangers m)
    (hu : m.unload t other = .ok (m', t')) : Guards m₀ name inst strangers m' := by
  obtain ⟨h, hfind, hunloads⟩ := unload_eq_ok hu
  obtain ⟨hsource, hnatives⟩ := source_of_unload hu
  have hmem {e : String × Handle} : e ∈ m'.registry ↔ e ∈ m.registry ∧ e.1 ≠ other := by
    rw [hunloads.registry, List.mem_filter, decide_eq_true_eq]
  have hother : (name, h) ∉ m'.registry := fun hname => by
    obtain ⟨hname, hne⟩ := hmem.1 hname
    exact hne (hm.owner (mem_registry_of_find? hfind) hname).symm
  refine ⟨hunloads.config.trans hm.config, ?_, ?_, ?_, ?_, ?_, ?_, ?_, ?_, ?_⟩
  · rw [hsource]
    exact hm.images
  · rw [hsource]
    exact hm.symbolMap
  · unfold UsesBytecode
    rw [hunloads.config, hnatives]
    exact hm.bytecode
  · exact stable_bounded.unload (i := ()) hm.bounded hu
  · exact fun hreg hname => hm.owner (hmem.1 hreg).1 (hmem.1 hname).1
  · intro h' module hname hmodule
    have hne : h' ≠ h := fun heq => hother (heq ▸ hname)
    rw [hunloads.others h' hne] at hmodule
    exact hm.own (hmem.1 hname).1 hmodule
  · rw [hunloads.size]
    exact hm.grown
  · exact fun hname => hm.newer (hmem.1 hname).1
  · intro h' hh'
    obtain ⟨hlt, hnot⟩ := hm.strangers h' hh'
    rw [hunloads.size]
    exact ⟨hlt, fun hname => hnot (hmem.1 hname).1⟩

/-- A module is lent and comes back. It counts as a stranger meanwhile, unless it is one of the
name: then what comes back is resettable again, if the host has left the region in place. -/
theorem lend {ok : Request → Prop} (hm : Guards m₀ name inst strangers m)
    (hmodule : m.module? h = some module) :
    ∃ strangers', Guards m₀ name inst strangers' (m.setModule h none) ∧
      ∀ {σ : Type} {world : World interface σ Manager} {host : Host interface σ} {fuel : Nat}
        {command : Int32} {args : List Int32} {ctx : Context σ Manager}
        {out : Outcome Loaded σ Manager}, host.Within Sandbox.Edit.InPlace ok →
        Loaded.call world host fuel command args module ctx = some out →
        Guards m₀ name inst strangers' out.context.world →
        Guards m₀ name inst strangers (out.context.world.setModule h (some out.module)) := by
  have hempty : Guards m₀ name inst strangers (m.setModule h none) := by
    refine hm.put ?_
    rintro - module' ⟨⟩
  by_cases hname : (name, h) ∈ m.registry
  · obtain ⟨b, rfl, hb⟩ := hm.own hname hmodule
    refine ⟨strangers, hempty, ?_⟩
    intro σ world host fuel command args ctx out hhost hcall hafter
    obtain ⟨ran, hran, rfl⟩ := Option.map_eq_some_iff.1 hcall
    refine hafter.put ?_
    rintro - _ ⟨⟩
    exact ⟨ran.module, rfl, hb.call (hhost.mono (fun _ he => he) fun _ _ => trivial) hran⟩
  · refine ⟨h :: strangers, { hempty with strangers := ?_ }, ?_⟩
    · intro h' hh'
      rcases List.mem_cons.1 hh' with rfl | hh'
      · rw [size_setModule]
        exact ⟨lt_size_of_module? hmodule, hname⟩
      · exact hempty.strangers h' hh'
    · intro σ world host fuel command args ctx out _ hcall hafter
      have hout := (hafter.strangers h List.mem_cons_self).2
      have hreturned := hafter.put (x := some out.module) fun hname => absurd hname hout
      exact { hreturned with
        strangers := fun h' hh' => hreturned.strangers h' (List.mem_cons_of_mem _ hh') }

end Guards

variable {m₀ : Manager} {name : String} {inst : Instance}

/-- A module that is registered under the name and in its slot is reset by a restart. -/
theorem Guards.restart_eq_ok {m : Manager} {strangers : List Handle} {h : Handle}
    (hfirst : loadFirst name (m₀.loadOptions name) .moduleNotFound (m₀.source.images name) =
      .ok inst)
    (hm : Guards m₀ name inst strangers m) (hfind : m.find? name = some h)
    (hidle : m.module? h ≠ none) :
    m.restart name = .ok (m.setModule h (some (.bytecode inst))) := by
  obtain ⟨module, hmodule⟩ := Option.ne_none_iff_exists'.1 hidle
  obtain ⟨b, rfl, hb⟩ := hm.own (mem_registry_of_find? hfind) hmodule
  have hfound : m.idle name = .ok (h, .bytecode b) := by
    simp [idle, hfind, hmodule]
  have hreload : reloadFirst b (m.mapFor name) .moduleNotFound (m.source.images name) =
      .ok inst := by
    rw [hm.mapFor_eq, hm.images]
    exact hb.reloadFirst_of_loadFirst hfirst
  simp only [restart_eq, hfound, bind, Except.bind, hreload]

/-- A source whose first image is too short to be one. -/
def mended : ImageSource :=
  ((MemorySource.empty.insert "m" []).insert "m" Instance.wearing).toSource

/-- A host that answers every service with zero and asks for nothing. -/
def aloof : Host interface Unit := fun s _ => .done s (.ok 0)

end Manager

end SandboxVm
