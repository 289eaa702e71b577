/-
SandboxVm.Proofs.Registry — the registry of a manager and the modules behind it.

A registry lists names and handles, and the slot of a handle holds the module, or is empty
while a call into the module is active. `Manager.Orderly` says how the three go together when
given modules are lent out of their slots. Names, handles and the limit are settled by
inspection of each operation; that a module in a slot is fit for all of them is what
`Instance.Resting` gives.

  §1  slots;
  §2  modules that are loaded and reloaded: their names and kinds;
  §3  what each operation does to a manager, if it succeeds;
  §4  `Orderly`, and that every operation keeps it, including lending and returning modules;
  §5  `clear` removes the modules that are in their slots, and no others.
-/
import Mathlib.Data.List.Nodup
import SandboxVm.Proofs.Lifecycle
import SandboxVm.Proofs.Refusals

namespace SandboxVm

/-! ## §1 Slots -/

theorem Tracker.last_of_forget {t : Tracker} {name x : String}
    (h : (t.forget name).last = some x) : t.last = some x ∧ x ≠ name := by
  unfold Tracker.forget at h
  split at h
  next => cases h
  next hne =>
    refine ⟨h, ?_⟩
    rintro rfl
    exact hne h

namespace Manager

variable {m m' : Manager} {h h' : Handle} {module module' : Loaded} {x : Option Loaded}
  {name : String}

theorem lt_size_of_module? (hm : m.module? h = some module) : h < m.slots.size := by
  unfold module? at hm
  cases hs : m.slots[h]? with
  | none => simp [hs] at hm
  | some x => exact (Array.getElem?_eq_some_iff.1 hs).1

@[simp]
theorem size_setModule (m : Manager) (h : Handle) (x : Option Loaded) :
    (m.setModule h x).slots.size = m.slots.size := by
  simp [setModule]

theorem module?_setModule_self (hlt : h < m.slots.size) : (m.setModule h x).module? h = x := by
  simp [module?, setModule, hlt]

theorem module?_setModule_of_ne (hne : h' ≠ h) :
    (m.setModule h x).module? h' = m.module? h' := by
  simp [module?, setModule, Array.getElem?_setIfInBounds_ne hne.symm]

@[simp]
theorem setModule_setModule (m : Manager) (h : Handle) (x y : Option Loaded) :
    (m.setModule h x).setModule h y = m.setModule h y := by
  simp [setModule]

theorem module?_of_bytecode? {inst : Instance}
    (hm : (m.module? h).bind Loaded.bytecode? = some inst) :
    m.module? h = some (.bytecode inst) := by
  obtain ⟨module, hmodule, hbytecode⟩ := Option.bind_eq_some_iff.1 hm
  cases module with
  | bytecode i => rwa [← Option.some.inj hbytecode]
  | native n => cases hbytecode

theorem mem_registry_of_find? (hf : m.find? name = some h) : (name, h) ∈ m.registry := by
  obtain ⟨before, after, heq, -⟩ := List.lookup_eq_some_iff.1 hf
  simp [heq]

end Manager

/-! ## §2 Modules -/

namespace Loaded

/-- A module that takes calls, between two of them. -/
def Idle : Loaded → Prop
  | .bytecode inst => inst.Resting ∧ inst.state ≠ .unloaded
  | .native _ => True

/-- Both are native, or both are bytecode that was asked for in one mode. -/
def SameKind : Loaded → Loaded → Prop
  | .bytecode a, .bytecode b => b.requested = a.requested
  | .native _, .native _ => True
  | _, _ => False

theorem SameKind.refl (m : Loaded) : m.SameKind m := by
  cases m with
  | bytecode inst => rfl
  | native n => trivial

end Loaded

namespace Instance

theorem idle_of_load {name : String} {bytes : Bytes} {opts : LoadOptions} {inst : Instance}
    (h : load name bytes opts = .ok inst) :
    inst.name = name ∧ (Loaded.bytecode inst).Idle := by
  have hresting := resting_of_load h
  unfold load at h
  cases hparsed : parse bytes with
  | error e => simp [hparsed, bind, Except.bind] at h
  | ok parsed =>
    simp only [hparsed, bind, Except.bind] at h
    cases h
    exact ⟨rfl, hresting, nofun⟩

theorem idle_of_reload {a b : Instance} {bytes : Bytes} {map : Option String}
    (h : a.reload bytes map = .ok b) :
    b.name = a.name ∧ b.requested = a.requested ∧
      ((Loaded.bytecode a).Idle → (Loaded.bytecode b).Idle) := by
  have hresting (ha : (Loaded.bytecode a).Idle) : b.Resting := resting_of_reload ha.1.level h
  obtain ⟨parsed, -, -, rfl⟩ := reload_eq_ok h
  exact ⟨rfl, rfl, fun ha => ⟨hresting ha, nofun⟩⟩

end Instance

namespace Manager

theorem idle_of_loadFirst {name : String} {opts : LoadOptions} {last : LoadError}
    {images : List Bytes} {inst : Instance} (h : loadFirst name opts last images = .ok inst) :
    inst.name = name ∧ (Loaded.bytecode inst).Idle := by
  induction images generalizing last with
  | nil => cases h
  | cons bytes images ih =>
    simp only [loadFirst] at h
    split at h
    next hload =>
      cases h
      exact Instance.idle_of_load hload
    next => exact ih h

/-- A module that was loaded for a name has that name. -/
theorem idle_of_loadModule {m : Manager} {name : String} {module : Loaded}
    (h : m.loadModule name = .ok module) : module.name = name ∧ module.Idle := by
  have hbytecode {opts : LoadOptions}
      (h : (do
        let inst ← loadFirst name opts .moduleNotFound (m.source.images name)
        .ok (Loaded.bytecode inst)) = .ok module) : module.name = name ∧ module.Idle := by
    cases hfirst : loadFirst name opts .moduleNotFound (m.source.images name) with
    | error e => simp [hfirst, bind, Except.bind] at h
    | ok inst =>
      simp only [hfirst, bind, Except.bind] at h
      cases h
      exact idle_of_loadFirst hfirst
  simp only [loadModule] at h
  split at h
  · split at h
    · cases h
      exact ⟨rfl, trivial⟩
    · exact hbytecode h
  · exact hbytecode h
  · exact hbytecode h

theorem idle_of_reloadFirst {a b : Instance} {map : Option String} {last : LoadError}
    {images : List Bytes} (h : reloadFirst a map last images = .ok b) :
    b.name = a.name ∧ b.requested = a.requested ∧
      ((Loaded.bytecode a).Idle → (Loaded.bytecode b).Idle) := by
  induction images generalizing last with
  | nil => cases h
  | cons bytes images ih =>
    rw [reloadFirst_cons] at h
    split at h
    next hreload =>
      cases h
      exact Instance.idle_of_reload hreload
    next => exact ih h
    next => cases h

/-! ## §3 Operations that succeed -/

variable {m m' : Manager} {t t' : Tracker} {name : String} {h h' : Handle} {module : Loaded}

/-- Creating finds a module, or registers a new one behind the others. -/
theorem create_eq_ok (hc : m.create name = .ok (h, m')) :
    (m' = m ∧ m.find? name = some h) ∨
      m.find? name = none ∧ m.registry.length < m.config.maxInstances ∧ h = m.slots.size ∧
      ∃ module, m.loadModule name = .ok module ∧
        m' = { m with
          registry := m.registry ++ [(name, h)]
          slots := m.slots.push (some module) } := by
  unfold create at hc
  split at hc
  next hfind =>
    cases hc
    exact .inl ⟨rfl, hfind⟩
  next hfind =>
    split at hc
    next => cases hc
    next hlimit =>
      split at hc
      next => cases hc
      next module hload =>
        cases hc
        exact .inr ⟨hfind, Nat.lt_of_not_ge hlimit, rfl, module, hload, rfl⟩

/-- A restart puts a module of the same kind into the slot. -/
theorem restart_eq_ok (hr : m.restart name = .ok m') :
    ∃ h module module', m.find? name = some h ∧ m.module? h = some module ∧
      m' = m.setModule h (some module') ∧ module.SameKind module' ∧
      (module.name = name → module.Idle → module'.name = name ∧ module'.Idle) := by
  rw [restart_eq] at hr
  cases hidle : m.idle name with
  | error e => simp [hidle, bind, Except.bind] at hr
  | ok found =>
    obtain ⟨h, module⟩ := found
    obtain ⟨hfind, hmodule⟩ := idle_eq_ok hidle
    simp only [hidle, bind, Except.bind] at hr
    cases module with
    | bytecode inst =>
      cases hreload : reloadFirst inst (m.mapFor name) .moduleNotFound (m.source.images name) with
      | error e => simp [hreload] at hr
      | ok inst' =>
        simp only [hreload] at hr
        cases hr
        obtain ⟨hname, hrequested, hidle⟩ := idle_of_reloadFirst hreload
        exact ⟨h, _, _, hfind, hmodule, rfl, hrequested,
          fun hn hi => ⟨hname.trans hn, hidle hi⟩⟩
    | native n =>
      simp only at hr
      split at hr
      next native hnative =>
        cases hr
        exact ⟨h, _, _, hfind, hmodule, rfl, trivial, fun _ _ => ⟨rfl, trivial⟩⟩
      next => cases hr

/-- A restart leaves the registry and the kinds of all modules alone. -/
theorem sameKind_of_restart (hr : m.restart name = .ok m') :
    m'.registry = m.registry ∧
      ∀ h, Option.Rel Loaded.SameKind (m.module? h) (m'.module? h) := by
  obtain ⟨h, module, module', -, hmodule, rfl, hkind, -⟩ := restart_eq_ok hr
  refine ⟨rfl, ?_⟩
  intro h'
  by_cases heq : h' = h
  · rw [heq, hmodule, module?_setModule_self (lt_size_of_module? hmodule)]
    exact .some hkind
  · rw [module?_setModule_of_ne heq]
    cases m.module? h' with
    | none => exact .none
    | some other => exact .some (.refl other)

/-- What unloading the module with a name and a handle does: the name is taken off the registry,
the tracker forgets it, and the slot stays occupied. -/
structure Unloads (m : Manager) (t : Tracker) (name : String) (h : Handle) (m' : Manager)
    (t' : Tracker) : Prop where
  config : m'.config = m.config
  registry : m'.registry = m.registry.filter (·.1 ≠ name)
  size : m'.slots.size = m.slots.size
  others : ∀ h', h' ≠ h → m'.module? h' = m.module? h'
  occupied : (m'.module? h).isSome = true
  tracker : ∃ module, m.module? h = some module ∧ t' = t.forget module.name

theorem unload_eq_ok (hu : m.unload t name = .ok (m', t')) :
    ∃ h, m.find? name = some h ∧ m.Unloads t name h m' t' := by
  rw [unload_eq] at hu
  cases hidle : m.idle name with
  | error e => simp [hidle, bind, Except.bind] at hu
  | ok found =>
    obtain ⟨h, module⟩ := found
    obtain ⟨hfind, hmodule⟩ := idle_eq_ok hidle
    simp only [hidle, bind, Except.bind] at hu
    cases module with
    | bytecode inst =>
      cases hunload : inst.unload t with
      | error e => simp [hunload] at hu
      | ok unloaded =>
        simp only [hunload] at hu
        cases hu
        have hslot : (m.setModule h (some (.bytecode unloaded.1))).module? h = _ :=
          module?_setModule_self (lt_size_of_module? hmodule)
        have htracker : unloaded.2 = t.forget inst.name := by
          rw [Instance.unload_eq] at hunload
          split at hunload <;> cases hunload
          rfl
        exact ⟨h, hfind, rfl, rfl, size_setModule .., fun h' hne => module?_setModule_of_ne hne,
          congrArg Option.isSome hslot, _, hmodule, htracker⟩
    | native n =>
      cases hu
      exact ⟨h, hfind, rfl, rfl, rfl, fun _ _ => rfl, congrArg Option.isSome hmodule, _, hmodule,
        rfl⟩

/-- A module in its slot can be unloaded. -/
theorem exists_unload (t : Tracker) (hfind : m.find? name = some h)
    (hmodule : m.module? h = some module) (hidle : module.Idle) :
    ∃ m' t', m.unload t name = .ok (m', t') := by
  have hfound : m.idle name = .ok (h, module) := by
    simp [idle, hfind, hmodule]
  cases module with
  | bytecode inst =>
    have hlevel : ¬ 0 < inst.callLevel := by
      rw [hidle.1.level]
      exact Nat.lt_irrefl 0
    have hunload : inst.unload t = .ok _ := (inst.unload_eq t).trans (if_neg hlevel)
    exact ⟨_, _, by simp only [unload_eq, hfound, bind, Except.bind, hunload]; rfl⟩
  | native n => exact ⟨_, _, by simp only [unload_eq, hfound, bind, Except.bind]; rfl⟩

/-! ## §4 Order -/

/-- A manager is in order while the modules with the given handles and names are lent out of
their slots, each into the call that is active. -/
structure Orderly (cfg : Config) (lent : List (Handle × String)) (m : Manager) (t : Tracker) :
    Prop where
  config : m.config = cfg
  names : (m.registry.map (·.1)).Nodup
  handles : (m.registry.map (·.2)).Nodup
  limit : m.registry.length ≤ cfg.maxInstances
  bound : ∀ e ∈ m.registry, e.2 < m.slots.size
  /-- What is not lent is in its slot, under its own name. -/
  present : ∀ e ∈ m.registry, e.2 ∉ lent.map (·.1) →
    ∃ module, m.module? e.2 = some module ∧ module.name = e.1 ∧ module.Idle
  /-- What is lent is registered, and its slot is empty. -/
  away : ∀ l ∈ lent, (l.2, l.1) ∈ m.registry ∧ m.module? l.1 = none
  distinct : (lent.map (·.1)).Nodup
  /-- The module that was entered last is registered, if it is known at all. -/
  last : ∀ name, t.last = some name → name ∈ m.registry.map (·.1)

namespace Orderly

variable {cfg : Config} {lent : List (Handle × String)}

theorem start (source : ImageSource) (natives : String → Option NativeModule) :
    Orderly cfg [] (Manager.start cfg source natives) .empty where
  config := rfl
  names := List.nodup_nil
  handles := List.nodup_nil
  limit := Nat.zero_le _
  bound := nofun
  present := nofun
  away := nofun
  distinct := List.nodup_nil
  last := nofun

/-- A name has one handle. -/
theorem handle_eq (ho : Orderly cfg lent m t) (hm : (name, h) ∈ m.registry)
    (hm' : (name, h') ∈ m.registry) : h = h' :=
  congrArg Prod.snd (List.inj_on_of_nodup_map ho.names hm hm' rfl)

/-- A handle has one name. -/
theorem name_eq {name' : String} (ho : Orderly cfg lent m t) (hm : (name, h) ∈ m.registry)
    (hm' : (name', h) ∈ m.registry) : name = name' :=
  congrArg Prod.fst (List.inj_on_of_nodup_map ho.handles hm hm' rfl)

theorem find?_of_mem (ho : Orderly cfg lent m t) (hm : (name, h) ∈ m.registry) :
    m.find? name = some h := by
  cases hf : m.find? name with
  | none =>
    have hne := List.lookup_eq_none_iff.1 hf (name, h) hm
    simp at hne
  | some h' => rw [ho.handle_eq hm (mem_registry_of_find? hf)]

/-- A module in its slot is not lent. -/
theorem not_mem_lent (ho : Orderly cfg lent m t) (hmodule : m.module? h = some module) :
    h ∉ lent.map (·.1) := by
  intro hmem
  obtain ⟨l, hl, rfl⟩ := List.mem_map.1 hmem
  simp [(ho.away l hl).2] at hmodule

theorem idle_of_module? (ho : Orderly cfg lent m t) (hm : (name, h) ∈ m.registry)
    (hmodule : m.module? h = some module) : module.name = name ∧ module.Idle := by
  obtain ⟨module', hmodule', hname, hidle⟩ := ho.present _ hm (ho.not_mem_lent hmodule)
  obtain rfl : module = module' := Option.some.inj (hmodule.symm.trans hmodule')
  exact ⟨hname, hidle⟩

/-- A module is lent out of its slot. -/
theorem lend (ho : Orderly cfg lent m t) (hm : (name, h) ∈ m.registry)
    (hmodule : m.module? h = some module) :
    Orderly cfg ((h, name) :: lent) (m.setModule h none) t where
  config := ho.config
  names := ho.names
  handles := ho.handles
  limit := ho.limit
  bound := by
    intro e he
    rw [size_setModule]
    exact ho.bound e he
  present := by
    intro e he hout
    rw [List.map_cons, List.mem_cons, not_or] at hout
    rw [module?_setModule_of_ne hout.1]
    exact ho.present e he hout.2
  away := by
    intro l hl
    rcases List.mem_cons.1 hl with rfl | hl
    · exact ⟨hm, module?_setModule_self (lt_size_of_module? hmodule)⟩
    · have hne : l.1 ≠ h := fun heq =>
        ho.not_mem_lent hmodule (heq ▸ List.mem_map_of_mem (f := (·.1)) hl)
      obtain ⟨hreg, hempty⟩ := ho.away l hl
      exact ⟨hreg, (module?_setModule_of_ne hne).trans hempty⟩
  distinct := List.nodup_cons.2 ⟨ho.not_mem_lent hmodule, ho.distinct⟩
  last := ho.last

/-- A module comes back into its slot. -/
theorem «return» (ho : Orderly cfg ((h, name) :: lent) m t) (hname : module.name = name)
    (hidle : module.Idle) : Orderly cfg lent (m.setModule h (some module)) t := by
  obtain ⟨hreg, hempty⟩ := ho.away (h, name) List.mem_cons_self
  obtain ⟨hnot, hdistinct⟩ := List.nodup_cons.1 ho.distinct
  constructor
  case config => exact ho.config
  case names => exact ho.names
  case handles => exact ho.handles
  case limit => exact ho.limit
  case bound =>
    intro e he
    rw [size_setModule]
    exact ho.bound e he
  case present =>
    intro e he hout
    by_cases heq : e.2 = h
    · have hslot : (m.setModule h (some module)).module? h = some module :=
        module?_setModule_self (ho.bound _ hreg)
      have hfst : e.1 = name := ho.name_eq (h := h) (heq ▸ he) hreg
      exact ⟨module, heq ▸ hslot, hname.trans hfst.symm, hidle⟩
    · rw [module?_setModule_of_ne heq]
      refine ho.present e he ?_
      rw [List.map_cons, List.mem_cons, not_or]
      exact ⟨heq, hout⟩
  case away =>
    intro l hl
    have hne : l.1 ≠ h := fun heq => hnot (heq ▸ List.mem_map_of_mem (f := (·.1)) hl)
    obtain ⟨hreg, hempty⟩ := ho.away l (List.mem_cons_of_mem _ hl)
    exact ⟨hreg, (module?_setModule_of_ne hne).trans hempty⟩
  case distinct => exact hdistinct
  case last => exact ho.last

/-- A module is put in the place of another one of its name. -/
theorem put (ho : Orderly cfg lent m t) (hm : (name, h) ∈ m.registry)
    (hold : (m.module? h).isSome = true) (hname : module.name = name) (hidle : module.Idle) :
    Orderly cfg lent (m.setModule h (some module)) t := by
  obtain ⟨old, hold⟩ := Option.isSome_iff_exists.1 hold
  have hreturned := (ho.lend hm hold).return hname hidle
  rwa [setModule_setModule] at hreturned

/-- A call of a module that is lent begins. -/
theorem enter (ho : Orderly cfg lent m t) (hl : (h, name) ∈ lent) :
    Orderly cfg lent m (t.enter name) := by
  refine { ho with last := ?_ }
  rintro _ ⟨⟩
  exact List.mem_map_of_mem (f := (·.1)) (ho.away _ hl).1

/-- A call ends. -/
theorem leave (ho : Orderly cfg lent m t) : Orderly cfg lent m t.leave :=
  { ho with last := ho.last }

theorem create (ho : Orderly cfg lent m t) (hc : m.create name = .ok (h, m')) :
    Orderly cfg lent m' t := by
  rcases create_eq_ok hc with ⟨rfl, -⟩ | ⟨hnew, hlimit, rfl, module, hload, rfl⟩
  · exact ho
  · obtain ⟨hname, hidle⟩ := idle_of_loadModule hload
    have hold {h : Handle} (hlt : h < m.slots.size) :
        (m.slots.push (some module))[h]?.join = m.module? h := by
      rw [Array.getElem?_push_lt hlt, module?, Array.getElem?_eq_getElem hlt]
    constructor
    case config => exact ho.config
    case names =>
      have hfresh : ∀ e ∈ m.registry, e.1 ≠ name := by
        rintro e he rfl
        have hne := List.lookup_eq_none_iff.1 hnew e he
        simp at hne
      simpa [List.nodup_append, ho.names] using fun a x he => hfresh (a, x) he
    case handles =>
      have hfresh : ∀ e ∈ m.registry, e.2 ≠ m.slots.size :=
        fun e he => Nat.ne_of_lt (ho.bound e he)
      simpa [List.nodup_append, ho.handles] using fun a x he => hfresh (x, a) he
    case limit =>
      rw [List.length_append, ← ho.config]
      exact hlimit
    case bound =>
      intro e he
      rw [Array.size_push]
      rcases List.mem_append.1 he with he | he
      · exact Nat.lt_succ_of_lt (ho.bound e he)
      · rw [List.mem_singleton.1 he]
        exact Nat.lt_succ_self _
    case present =>
      intro e he hout
      rcases List.mem_append.1 he with he | he
      · obtain ⟨old, hold', hrest⟩ := ho.present e he hout
        exact ⟨old, (hold (ho.bound e he)).trans hold', hrest⟩
      · rw [List.mem_singleton.1 he]
        exact ⟨module, by simp [module?], hname, hidle⟩
    case away =>
      intro l hl
      obtain ⟨hreg, hempty⟩ := ho.away l hl
      exact ⟨List.mem_append_left _ hreg, (hold (ho.bound _ hreg)).trans hempty⟩
    case distinct => exact ho.distinct
    case last =>
      intro name hlast
      rw [List.map_append]
      exact List.mem_append_left _ (ho.last name hlast)

theorem restart (ho : Orderly cfg lent m t) (hr : m.restart name = .ok m') :
    Orderly cfg lent m' t := by
  obtain ⟨h, module, module', hfind, hmodule, rfl, -, hkeeps⟩ := restart_eq_ok hr
  have hm := mem_registry_of_find? hfind
  obtain ⟨hname, hidle⟩ := ho.idle_of_module? hm hmodule
  obtain ⟨hname', hidle'⟩ := hkeeps hname hidle
  exact ho.put hm (by simp [hmodule]) hname' hidle'

theorem unload (ho : Orderly cfg lent m t) (hu : m.unload t name = .ok (m', t')) :
    Orderly cfg lent m' t' := by
  obtain ⟨h, hfind, hunloads⟩ := unload_eq_ok hu
  obtain ⟨module, hmodule, rfl⟩ := hunloads.tracker
  have hm := mem_registry_of_find? hfind
  obtain ⟨rfl, -⟩ := ho.idle_of_module? hm hmodule
  have hsub : m'.registry.Sublist m.registry := by
    rw [hunloads.registry]
    exact List.filter_sublist
  have hmem {e : String × Handle} : e ∈ m'.registry ↔ e ∈ m.registry ∧ e.1 ≠ module.name := by
    rw [hunloads.registry, List.mem_filter, decide_eq_true_eq]
  constructor
  case config => exact hunloads.config.trans ho.config
  case names => exact ho.names.sublist (hsub.map _)
  case handles => exact ho.handles.sublist (hsub.map _)
  case limit => exact Nat.le_trans hsub.length_le ho.limit
  case bound =>
    intro e he
    rw [hunloads.size]
    exact ho.bound e (hmem.1 he).1
  case present =>
    intro e he hout
    obtain ⟨hreg, hne⟩ := hmem.1 he
    have hother : e.2 ≠ h := fun heq => hne (ho.name_eq (h := h) (heq ▸ hreg) hm)
    rw [hunloads.others e.2 hother]
    exact ho.present e hreg hout
  case away =>
    intro l hl
    obtain ⟨hreg, hempty⟩ := ho.away l hl
    have hother : l.1 ≠ h := by
      rintro rfl
      simp [hmodule] at hempty
    have hne : l.2 ≠ module.name := fun heq => hother (ho.handle_eq (heq ▸ hreg) hm)
    exact ⟨hmem.2 ⟨hreg, hne⟩, (hunloads.others l.1 hother).trans hempty⟩
  case distinct => exact ho.distinct
  case last =>
    intro name hlast
    obtain ⟨hlast, hne⟩ := Tracker.last_of_forget hlast
    obtain ⟨e, he, rfl⟩ := List.mem_map.1 (ho.last name hlast)
    exact List.mem_map_of_mem (f := (·.1)) (hmem.2 ⟨he, hne⟩)

end Orderly

/-! ## §5 Clearing -/

/-- Unloads a module if no call into it is active. -/
def unloadIdle (state : Manager × Tracker) (name : String) : Manager × Tracker :=
  match state.1.unload state.2 name with
  | .ok state' => state'
  | .error _ => state

theorem clear_eq_foldl (m : Manager) (t : Tracker) :
    m.clear t = (m.registry.map (·.1)).foldl unloadIdle (m, t) :=
  clear_eq m t

namespace Orderly

variable {cfg : Config} {lent : List (Handle × String)}

/-- One name of several that are cleared: the module is gone if it was in its slot. -/
theorem unloadIdle (ho : Orderly cfg lent m t) (name : String) :
    Orderly cfg lent (Manager.unloadIdle (m, t) name).1 (Manager.unloadIdle (m, t) name).2 ∧
      (Manager.unloadIdle (m, t) name).1.registry =
        m.registry.filter (fun e => e.1 ≠ name ∨ m.module? e.2 = none) ∧
      ∀ h, (Manager.unloadIdle (m, t) name).1.module? h = none ↔ m.module? h = none := by
  unfold Manager.unloadIdle
  cases hu : m.unload t name with
  | ok state =>
    obtain ⟨m', t'⟩ := state
    obtain ⟨h, hfind, hunloads⟩ := unload_eq_ok hu
    obtain ⟨module, hmodule, -⟩ := hunloads.tracker
    have hm := mem_registry_of_find? hfind
    refine ⟨ho.unload hu, ?_, ?_⟩
    · rw [hunloads.registry]
      apply List.filter_congr
      intro e he
      have hslot : e.1 = name → m.module? e.2 ≠ none := by
        rintro rfl
        rw [ho.handle_eq he hm, hmodule]
        exact nofun
      simp only [decide_eq_decide]
      tauto
    · intro h'
      by_cases heq : h' = h
      · have hoccupied := hunloads.occupied
        rw [heq, hmodule]
        simp only [reduceCtorEq, iff_false]
        intro hnone
        simp [hnone] at hoccupied
      · rw [hunloads.others h' heq]
  | error e =>
    refine ⟨ho, ?_, fun h => Iff.rfl⟩
    symm
    apply List.filter_eq_self.2
    intro e he
    rw [decide_eq_true_eq]
    by_contra hnot
    obtain ⟨hname, hslot⟩ := not_or.1 hnot
    obtain ⟨module, hmodule⟩ := Option.ne_none_iff_exists'.1 hslot
    obtain rfl : e.1 = name := not_not.1 hname
    have hidle := (ho.idle_of_module? he hmodule).2
    obtain ⟨m', t', hok⟩ := exists_unload t (ho.find?_of_mem he) hmodule hidle
    simp [hu] at hok

theorem foldl_unloadIdle (names : List String) (ho : Orderly cfg lent m t) :
    Orderly cfg lent (names.foldl Manager.unloadIdle (m, t)).1
        (names.foldl Manager.unloadIdle (m, t)).2 ∧
      (names.foldl Manager.unloadIdle (m, t)).1.registry =
        m.registry.filter (fun e => e.1 ∉ names ∨ m.module? e.2 = none) := by
  induction names generalizing m t with
  | nil => exact ⟨ho, by simp⟩
  | cons name names ih =>
    obtain ⟨hone, hregistry, hslots⟩ := ho.unloadIdle name
    obtain ⟨hall, hrest⟩ := ih hone
    refine ⟨hall, ?_⟩
    rw [List.foldl_cons, hrest, hregistry, List.filter_filter]
    apply List.filter_congr
    intro e he
    simp only [hslots, List.mem_cons, ← Bool.decide_and, decide_eq_decide]
    tauto

/-- Clearing keeps the modules that are lent, in their order, and removes all others. -/
theorem clear (ho : Orderly cfg lent m t) :
    Orderly cfg lent (m.clear t).1 (m.clear t).2 ∧
      (m.clear t).1.registry = m.registry.filter (fun e => e.2 ∈ lent.map (·.1)) := by
  rw [clear_eq_foldl]
  obtain ⟨hclear, hregistry⟩ := ho.foldl_unloadIdle (m.registry.map (·.1))
  refine ⟨hclear, ?_⟩
  rw [hregistry]
  apply List.filter_congr
  intro e he
  rw [decide_eq_decide]
  constructor
  · rintro (hnew | hempty)
    · exact absurd (List.mem_map_of_mem (f := (·.1)) he) hnew
    · by_contra hout
      obtain ⟨module, hmodule, -⟩ := ho.present e he hout
      simp [hmodule] at hempty
  · intro hlent
    obtain ⟨l, hl, heq⟩ := List.mem_map.1 hlent
    exact .inr (heq ▸ (ho.away l hl).2)

end Orderly

end Manager

end SandboxVm
