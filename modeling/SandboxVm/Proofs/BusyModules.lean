/-
SandboxVm.Proofs.BusyModules — a module into which a call is active is left alone by its manager.

Two things remember which calls are active. A module is lent out of its slot while a call into it
runs, and finding the slot empty is what makes the manager refuse; the tracker keeps a stack of
names, which hosts can look at. Nothing ties the two together in the code. Here they are shown to
agree at every moment that a host can observe, however calls of bytecode and native modules are
nested and however they end.

  §1  `Visits.active`: a call puts the name of its module on the tracker, as often as the module
      is entered, and nothing else;
  §2  `RefusesBusy` and `Admits`: what a manager does with requests for a module that is lent, and
      for one that is in its slot;
  §3  `Tracked`: slots and tracker agree, and what follows for requests, summaries and reports;
  §4  `Observed.mem_active_iff`: the names on the tracker are those of the modules that are lent.
      `busy_exclusion` is the result.
-/
import SandboxVm.Proofs.ManagerCourses

namespace SandboxVm

/-! ## §1 Names on the tracker -/

/-- In the course of a call the name of its module is on the tracker, once or several times, above
what was there before. -/
theorem Loaded.Visits.active {I : Interface} {σ ω : Type} {world : World I σ ω} {host : Host I σ}
    {command : Int32} {args : List Int32} {m m' : Loaded} {ctx ctx' : Context σ ω}
    {sv : Option (Service I σ)} (hw : world.Balanced)
    (h : m.Visits world host command args ctx m' sv ctx') :
    m'.name = m.name ∧
      ∃ k, ctx'.tracker.active = List.replicate (k + 1) m.name ++ ctx.tracker.active := by
  cases m with
  | bytecode inst =>
    obtain ⟨c, hc, rfl, -, rfl⟩ := h
    have hcounted := hc.counted hw
    exact ⟨hcounted.same.name, _, hcounted.active⟩
  | native n =>
    obtain ⟨c, hc, rfl, -, rfl⟩ := h
    have hcounted := hc.counted
    have hname : c.inst.name = n.name := by rw [hcounted.inst]
    exact ⟨hname, _, hcounted.active hw⟩

/-! ## §2 Refusals -/

theorem Loaded.name_info (m : Loaded) : m.info.name = m.name := by
  cases m with
  | bytecode inst => rfl
  | native n => rfl

theorem Instance.reload_ne_busy (inst : Instance) (bytes : Bytes) (map : Option String) :
    inst.reload bytes map ≠ .error (.unavailable .busy) := by
  rw [Instance.reload, Instance.run_reloadInPlace]
  split
  next => rintro ⟨⟩
  next he =>
    rintro ⟨⟩
    split at he
    · cases he
    · split at he
      · cases he
      · split at he
        · cases he
        · split at he <;> cases he

namespace Manager

variable {σ : Type} {m : Manager} {t : Tracker} {name : String} {h : Handle} {module : Loaded}

/-- Requests for the module with the name are refused on the spot, because it is busy: with any
host and however little can be executed, and nothing is changed. -/
structure RefusesBusy (m : Manager) (t : Tracker) (name : String) : Prop where
  call : ∀ {σ : Type} (host : Host interface σ) (s : σ) (fuel : Nat) (command : Int32)
    (args : List Int32), perform host (fuel + 1) (Request.call name command args) ⟨s, t, m⟩ =
      some (.error (.unavailable .busy), ⟨s, t, m⟩)
  restart : ∀ {σ : Type} (host : Host interface σ) (s : σ) (fuel : Nat),
    perform host (fuel + 1) (Request.restart name) ⟨s, t, m⟩ =
      some (.error (.unavailable .busy), ⟨s, t, m⟩)
  unload : ∀ {σ : Type} (host : Host interface σ) (s : σ) (fuel : Nat),
    perform host (fuel + 1) (Request.unload name) ⟨s, t, m⟩ =
      some (.error (.unavailable .busy), ⟨s, t, m⟩)

/-- Requests for the module with the name and the handle are not refused as busy: a call enters
the module, which is lent out of its slot meanwhile, a restart may fail for other reasons only, and
an unload succeeds. -/
structure Admits (m : Manager) (t : Tracker) (name : String) (h : Handle) : Prop where
  call : ∃ module, m.module? h = some module ∧ ∀ {σ : Type} (host : Host interface σ) (s : σ)
    (fuel : Nat) (command : Int32) (args : List Int32),
    perform host (fuel + 1) (Request.call name command args) ⟨s, t, m⟩ =
      (Loaded.call (perform host fuel) host fuel command args module
        ⟨s, t, m.setModule h none⟩).map fun out =>
          (out.reply,
            { out.context with world := out.context.world.setModule h (some out.module) })
  restart : m.restart name ≠ .error (.unavailable .busy)
  unload : ∃ m' t', m.unload t name = .ok (m', t')

theorem refusesBusy_of_module? (t : Tracker) (hfind : m.find? name = some h)
    (hmodule : m.module? h = none) : m.RefusesBusy t name := by
  have hidle : m.idle name = .error (.unavailable .busy) := by
    simp [idle, hfind, hmodule]
  refine ⟨?_, ?_, ?_⟩
  · intro σ host s fuel command args
    simp only [perform, hfind, callSlot, hmodule]
    rfl
  · intro σ host s fuel
    have hrestart : m.restart name = .error (.unavailable .busy) := by
      simp [restart_eq, hidle, bind, Except.bind]
    rw [perform_restart, hrestart]
  · intro σ host s fuel
    have hunload : m.unload t name = .error (.unavailable .busy) := by
      simp [unload_eq, hidle, bind, Except.bind]
    rw [perform_unload, hunload]

theorem reloadFirst_ne_busy (inst : Instance) (map : Option String) (last : LoadError)
    (images : List Bytes) : reloadFirst inst map last images ≠ .error (.unavailable .busy) := by
  induction images generalizing last with
  | nil => rintro ⟨⟩
  | cons bytes images ih =>
    rw [reloadFirst_cons]
    split
    next => rintro ⟨⟩
    next e _ => exact ih e
    next he =>
      rintro ⟨⟩
      exact inst.reload_ne_busy bytes map he

/-- A registered module in its slot is admitted. -/
theorem admits_of_module? (t : Tracker) (hfind : m.find? name = some h)
    (hmodule : m.module? h = some module) (hidle : module.Idle) : m.Admits t name h := by
  have hfound : m.idle name = .ok (h, module) := by
    simp [idle, hfind, hmodule]
  refine ⟨⟨module, hmodule, ?_⟩, ?_, exists_unload t hfind hmodule hidle⟩
  · intro σ host s fuel command args
    simp only [perform, hfind, callSlot, hmodule]
    cases Loaded.call (perform host fuel) host fuel command args module
        ⟨s, t, m.setModule h none⟩ with
    | none => rfl
    | some out => rfl
  · simp only [restart_eq, hfound, bind, Except.bind]
    cases module with
    | bytecode inst =>
      have hreload := reloadFirst_ne_busy inst (m.mapFor name) .moduleNotFound
        (m.source.images name)
      simp only
      split
      next e he =>
        rintro ⟨⟩
        exact hreload he
      next => rintro ⟨⟩
    | native n =>
      simp only
      split <;> rintro ⟨⟩

/-! ## §3 Slots and tracker -/

/-- A slot is empty exactly if the tracker knows of a call into its module. -/
def Tracked (m : Manager) (t : Tracker) : Prop :=
  ∀ e ∈ m.registry, m.module? e.2 = none ↔ e.1 ∈ t.active

variable {cfg : Config} {lent : List (Handle × String)}

/-- The tracker tells which slots are empty if its names are those of the modules that are lent. -/
theorem Orderly.tracked (ho : Orderly cfg lent m t)
    (hactive : ∀ x, x ∈ t.active ↔ x ∈ lent.map (·.2)) : m.Tracked t := by
  rintro ⟨name, h⟩ hreg
  rw [hactive]
  constructor
  · intro hempty
    have hlent : h ∈ lent.map (·.1) := by
      by_contra hout
      obtain ⟨module, hmodule, -⟩ := ho.present _ hreg hout
      simp [hmodule] at hempty
    obtain ⟨⟨h', name'⟩, hl, rfl⟩ := List.mem_map.1 hlent
    rw [ho.name_eq hreg (ho.away _ hl).1]
    exact List.mem_map_of_mem (f := (·.2)) hl
  · intro hmem
    obtain ⟨⟨h', name'⟩, hl, rfl⟩ := List.mem_map.1 hmem
    obtain ⟨hreg', hempty⟩ := ho.away _ hl
    rwa [ho.handle_eq hreg hreg']

namespace Tracked

theorem refusesBusy (ht : m.Tracked t) (ho : Orderly cfg lent m t)
    (hreg : (name, h) ∈ m.registry) (hmem : name ∈ t.active) : m.RefusesBusy t name :=
  refusesBusy_of_module? t (ho.find?_of_mem hreg) ((ht _ hreg).2 hmem)

theorem admits (ht : m.Tracked t) (ho : Orderly cfg lent m t)
    (hreg : (name, h) ∈ m.registry) (hmem : name ∉ t.active) : m.Admits t name h := by
  obtain ⟨module, hmodule⟩ := Option.ne_none_iff_exists'.1 (mt (ht _ hreg).1 hmem)
  exact admits_of_module? t (ho.find?_of_mem hreg) hmodule (ho.idle_of_module? hreg hmodule).2

theorem refusesBusy_iff (ht : m.Tracked t) (ho : Orderly cfg lent m t)
    (hreg : (name, h) ∈ m.registry) : m.RefusesBusy t name ↔ name ∈ t.active := by
  refine ⟨fun hrefuses => ?_, ht.refusesBusy ho hreg⟩
  by_contra hmem
  obtain ⟨m', t', hunload⟩ := (ht.admits ho hreg hmem).unload
  have hrefused := hrefuses.unload (fun _ _ => .done () (.ok 0)) () 0
  simp only [perform_unload, hunload, Option.some.injEq] at hrefused
  cases congrArg Prod.fst hrefused

theorem admits_iff (ht : m.Tracked t) (ho : Orderly cfg lent m t)
    (hreg : (name, h) ∈ m.registry) : m.Admits t name h ↔ name ∉ t.active := by
  refine ⟨fun hadmits hmem => ?_, ht.admits ho hreg⟩
  obtain ⟨module, hmodule, -⟩ := hadmits.call
  simp [(ht _ hreg).2 hmem] at hmodule

/-- What a manager shows of a registered module: nothing at all while the module is busy, its name
and its summary otherwise. -/
theorem shown (ht : m.Tracked t) (ho : Orderly cfg lent m t) (hreg : (name, h) ∈ m.registry) :
    name ∈ t.active ∧ m.module? h = none ∨
      name ∉ t.active ∧ ∃ module, m.module? h = some module ∧ module.info.name = name := by
  cases hmodule : m.module? h with
  | none => exact .inl ⟨(ht _ hreg).1 hmodule, rfl⟩
  | some module =>
    refine .inr ⟨fun hmem => by simp [(ht _ hreg).2 hmem] at hmodule, module, rfl, ?_⟩
    rw [Loaded.name_info]
    exact (ho.idle_of_module? hreg hmodule).1

/-- Summaries are given of the modules that are not busy. -/
theorem map_name_info (ht : m.Tracked t) (ho : Orderly cfg lent m t) :
    m.info.map (·.name) = (m.registry.map (·.1)).filter (· ∉ t.active) := by
  have hentry : ∀ e ∈ m.registry, ((m.module? e.2).map Loaded.info).map (·.name) =
      if e.1 ∉ t.active then some e.1 else none := by
    rintro ⟨name, h⟩ hreg
    obtain ⟨hmem, hmodule⟩ | ⟨hmem, module, hmodule, hname⟩ := ht.shown ho hreg
    · simp [hmem, hmodule]
    · simp [hmem, hmodule, hname]
  rw [info, List.map_filterMap, List.filterMap_congr hentry]
  induction m.registry with
  | nil => rfl
  | cons e registry ih =>
    by_cases hmem : e.1 ∈ t.active <;> simpa [List.filterMap_cons, hmem] using ih

/-- A report lists the registered modules in their order, the busy ones as such. -/
theorem report_eq (ht : m.Tracked t) (ho : Orderly cfg lent m t) :
    m.report = "Registered virtual machines:\n" ++
      String.join (m.registry.map fun e =>
        if e.1 ∈ t.active then e.1 ++ " : busy\n"
        else (m.module? e.2).elim "" fun module => module.info.text ++ "\n") := by
  unfold report
  refine congrArg (fun blocks => _ ++ String.join blocks) (List.map_congr_left ?_)
  rintro ⟨name, h⟩ hreg
  obtain ⟨hmem, hmodule⟩ | ⟨hmem, module, hmodule, -⟩ := ht.shown ho hreg
  · simp [hmem, hmodule]
  · simp [hmem, hmodule]

end Tracked

/-! ## §4 Active calls -/

section Calls

variable {host : Host interface σ} {ctx ctx₀ : Context σ Manager} {fuel : Nat}

/-- A call keeps the name of its module on the registry. -/
theorem Admits.mem_registry {s : σ} {command : Int32} {args : List Int32} {reply : Reply}
    (hadmits : m.Admits t name h) (ho : Orderly cfg lent m t) (hreg : (name, h) ∈ m.registry)
    (hhost : host.Confined Request.ByName)
    (hcall : perform host fuel (Request.call name command args) ⟨s, t, m⟩ = some (reply, ctx)) :
    (name, h) ∈ ctx.world.registry := by
  cases fuel with
  | zero => cases hcall
  | succ fuel =>
    obtain ⟨module, hmodule, hperform⟩ := hadmits.call
    rw [hperform host s fuel command args] at hcall
    obtain ⟨out, hout, hpair⟩ := Option.map_eq_some_iff.1 hcall
    cases hpair
    obtain ⟨rfl, -⟩ := ho.idle_of_module? hreg hmodule
    -- the module is lent all through the call, and nothing that is lent loses its name
    obtain ⟨hafter, -⟩ := Loaded.kept_of_call hhost (perform_orderly hhost fuel _)
      (tolerates_orderly cfg h module.name lent) (ho.lend hreg hmodule) hout
    exact (hafter.away (h, module.name) List.mem_cons_self).1

/-- Between requests no call is active. -/
theorem History.active_eq_nil {source : ImageSource} {natives : String → Option NativeModule}
    (hm : History cfg source natives m t) : t.active = [] := by
  induction hm with
  | start => rfl
  | perform host s fuel _ _ _ h ih => exact (perform_balanced host fuel h).trans ih

/-- The names on the tracker are those of the modules that are lent, apart from names that were
there at the beginning. -/
theorem Observed.mem_active_iff {lent : List (Handle × Loaded)}
    {sv : Option (Service interface σ)} (h : Observed host ctx₀ fuel lent sv ctx) (x : String) :
    x ∈ ctx.tracker.active ↔ x ∈ lent.map (·.2.name) ∨ x ∈ ctx₀.tracker.active := by
  induction h with
  | between fuel => simp
  | outermost hfind hmodule hv =>
    obtain ⟨hname, k, hactive⟩ := hv.active (perform_balanced host _)
    rw [hactive, List.mem_append, List.mem_replicate]
    simp [hname]
  | nested ho hfind hmodule hv ih =>
    obtain ⟨hname, k, hactive⟩ := hv.active (perform_balanced host _)
    rw [hactive, List.mem_append, List.mem_replicate, ih]
    simp [hname, or_assoc]

end Calls

/-- A module into which a call is active is left alone, at every moment that a host can observe:
whatever hosts ask of the manager by name, between calls and in the middle of them, at any depth.

A registered module is refused as busy on the spot, when it is to be called, restarted or
unloaded, exactly if its name is among the active calls; otherwise it is admitted. The names of
the active calls are those of the modules that are lent out of their slots, each of them once:
the manager enters no module twice. Whatever request is answered at the moment, by whatever host,
they stay registered, their slots stay empty, and the active calls are the same afterwards.
Summaries leave them out, and a report shows them as busy. When the outermost call of a module
returns, whatever it is answered with, the module is registered as before and admitted again. -/
theorem busy_exclusion {source : ImageSource} {natives : String → Option NativeModule}
    {m₀ : Manager} {t₀ : Tracker} (hm : History cfg source natives m₀ t₀)
    {host : Host interface σ} (hhost : host.Confined Request.ByName) {s : σ} {fuel : Nat}
    {lent : List (Handle × Loaded)} {sv : Option (Service interface σ)}
    {ctx : Context σ Manager} (h : Observed host ⟨s, t₀, m₀⟩ fuel lent sv ctx) :
    (∀ name handle, (name, handle) ∈ ctx.world.registry →
      (ctx.world.RefusesBusy ctx.tracker name ↔ name ∈ ctx.tracker.active) ∧
      (ctx.world.Admits ctx.tracker name handle ↔ name ∉ ctx.tracker.active)) ∧
    (lent.map (·.1)).Nodup ∧
    (∀ name, name ∈ ctx.tracker.active ↔ name ∈ lent.map (·.2.name)) ∧
    (∀ l ∈ lent, (l.2.name, l.1) ∈ ctx.world.registry ∧ ctx.world.module? l.1 = none) ∧
    (∀ {σ' : Type} (host' : Host interface σ') (s' : σ') (fuel' : Nat) (q : Request)
      (a : Answer q) (ctx' : Context σ' Manager), host'.Confined Request.ByName → q.ByName →
      perform host' fuel' q ⟨s', ctx.tracker, ctx.world⟩ = some (a, ctx') →
        ctx'.tracker.active = ctx.tracker.active ∧
        ∀ l ∈ lent, (l.2.name, l.1) ∈ ctx'.world.registry ∧ ctx'.world.module? l.1 = none) ∧
    ctx.world.info.map (·.name) =
      (ctx.world.registry.map (·.1)).filter (· ∉ ctx.tracker.active) ∧
    ctx.world.report = "Registered virtual machines:\n" ++
      String.join (ctx.world.registry.map fun e =>
        if e.1 ∈ ctx.tracker.active then e.1 ++ " : busy\n"
        else (ctx.world.module? e.2).elim "" fun module => module.info.text ++ "\n") ∧
    (∀ name handle, (name, handle) ∈ ctx.world.registry → name ∉ ctx.tracker.active →
      ∀ {σ' : Type} (host' : Host interface σ') (s' : σ') (fuel' : Nat) (command : Int32)
        (args : List Int32) (reply : Reply) (ctx' : Context σ' Manager),
        host'.Confined Request.ByName →
        perform host' fuel' (Request.call name command args) ⟨s', ctx.tracker, ctx.world⟩ =
          some (reply, ctx') →
        (name, handle) ∈ ctx'.world.registry ∧ ctx'.world.Admits ctx'.tracker name handle) := by
  obtain ⟨ho, -⟩ := h.orderly hhost hm.orderly
  have hactive (x : String) : x ∈ ctx.tracker.active ↔ x ∈ lent.map (·.2.name) := by
    rw [h.mem_active_iff, hm.active_eq_nil]
    simp
  have htracked {m : Manager} {t : Tracker} (ht : t.active = ctx.tracker.active)
      (ho : Orderly cfg (lent.map fun l => (l.1, l.2.name)) m t) : m.Tracked t :=
    ho.tracked fun x => by rw [ht, hactive, List.map_map]; rfl
  have hnow : ctx.world.Tracked ctx.tracker := htracked rfl ho
  have haway {m : Manager} {t : Tracker}
      (ho : Orderly cfg (lent.map fun l => (l.1, l.2.name)) m t) :
      ∀ l ∈ lent, (l.2.name, l.1) ∈ m.registry ∧ m.module? l.1 = none :=
    fun l hl => ho.away _ (List.mem_map_of_mem (f := fun l => (l.1, l.2.name)) hl)
  refine ⟨?_, ?_, hactive, haway ho, ?_, hnow.map_name_info ho, hnow.report_eq ho, ?_⟩
  · intro name handle hreg
    exact ⟨hnow.refusesBusy_iff ho hreg, hnow.admits_iff ho hreg⟩
  · have hdistinct := ho.distinct
    rwa [List.map_map] at hdistinct
  · intro σ' host' s' fuel' q a ctx' hhost' hq hperform
    exact ⟨perform_balanced host' fuel' hperform,
      haway (perform_orderly hhost' fuel' _ hq hperform ho)⟩
  · intro name handle hreg hmem σ' host' s' fuel' command args reply ctx' hhost' hperform
    have hactive' : ctx'.tracker.active = ctx.tracker.active :=
      perform_balanced host' fuel' hperform
    have hq : (Request.call name command args).ByName := trivial
    have ho' := perform_orderly hhost' fuel' _ hq hperform ho
    have hreg' := (hnow.admits ho hreg hmem).mem_registry ho hreg hhost' hperform
    refine ⟨hreg', (htracked hactive' ho').admits ho' hreg' ?_⟩
    rwa [hactive']

/-- A source that offers the same module under three names. -/
def triplets : ImageSource :=
  (((MemorySource.empty.insert "a" obliging).insert "b" obliging).insert "c" obliging).toSource

/-- A host that has the second module called when it is asked first. -/
def relaying : Host interface Nat := fun n _ =>
  if n = 0 then .ask 1 (Request.call "b" 0 []) fun s reply => .done s reply
  else .done (n + 1) (.ok 5)

/-- The call of a module that a service asks for next. -/
def asked? : Service interface Nat → Option (Nat × String × Int32 × List Int32)
  | .ask s (Request.call name command args) _ => some (s, name, command, args)
  | _ => none

theorem asked?_eq_some {sv : Service interface Nat} {s : Nat} {name : String} {command : Int32}
    {args : List Int32} (h : asked? sv = some (s, name, command, args)) :
    ∃ k, sv = .ask s (Request.call name command args) k := by
  unfold asked? at h
  split at h
  next k =>
    cases h
    exact ⟨k, rfl⟩
  next => cases h

/-- The bytecode module with the handle, three moments into a call of it. -/
def served? (fuel : Nat) (h : Handle) (ctx : Context Nat Manager) :
    Option (Moment interface Nat Manager) :=
  ((ctx.world.module? h).bind Loaded.bytecode?).bind fun i =>
    (i.accept 0 []).toOption.bind fun packed =>
      Course.after (Moment.next (perform relaying fuel) relaying) 3
        (Moment.start i packed [] { ctx with world := ctx.world.setModule h none })

theorem served?_eq_some {fuel : Nat} {ctx : Context Nat Manager}
    {c : Moment interface Nat Manager} (hc : served? fuel h ctx = some c) :
    ∃ module, ctx.world.module? h = some module ∧
      module.Visits (perform relaying fuel) relaying 0 []
        { ctx with world := ctx.world.setModule h none } (.bytecode c.inst) c.phase.service?
        c.context := by
  obtain ⟨inst, hinst, hc⟩ := Option.bind_eq_some_iff.1 hc
  obtain ⟨packed, hpacked, hc⟩ := Option.bind_eq_some_iff.1 hc
  exact ⟨_, module?_of_bytecode? hinst, c, ⟨packed, Instance.eq_ok_of_toOption hpacked, 3, hc⟩,
    rfl, rfl, rfl⟩

/-- The first of three modules is called, and its host has the second one called. While the host
answers the second one, two modules are busy; the third one can be called, and again afterwards. -/
theorem busy_exclusion_relaying :
    ∃ (m : Manager) (a b : Loaded) (sv : Service interface Nat) (ctx ctx' : Context Nat Manager),
      History .default triplets (fun _ => none) m .empty ∧
      Observed relaying ⟨0, .empty, m⟩ 20 [(1, b), (0, a)] (some sv) ctx ∧
      ctx.tracker.active = ["b", "a"] ∧
      ctx.world.RefusesBusy ctx.tracker "a" ∧ ctx.world.RefusesBusy ctx.tracker "b" ∧
      ctx.world.info.map (·.name) = ["c"] ∧
      ctx.world.Admits ctx.tracker "c" 2 ∧
      perform relaying 20 (Request.call "c" 0 []) ⟨1, ctx.tracker, ctx.world⟩ =
        some (.ok 5, ctx') ∧
      ctx'.tracker.active = ["b", "a"] ∧ ctx'.world.module? 0 = none ∧
      ctx'.world.Admits ctx'.tracker "c" 2 := by
  let created (name : String) (ctx : Context Nat Manager) : Option (Context Nat Manager) :=
    (perform relaying 1 (Request.create name) ctx).map (·.2)
  let ctx₀ : Context Nat Manager := ⟨0, .empty, Manager.start .default triplets fun _ => none⟩
  have hcourse : ((created "a" ctx₀).bind fun ctx₁ => (created "b" ctx₁).bind fun ctx₂ =>
      (created "c" ctx₂).bind fun ctx₃ => (served? 21 0 ctx₃).bind fun c =>
      (served? 20 1 { c.context with host := 1 }).bind fun d =>
      (perform relaying 20 (Request.call "c" 0 []) ⟨1, d.context.tracker, d.context.world⟩).map
        fun called => decide (
          ctx₃.tracker = .empty ∧ ctx₃.host = 0 ∧ ctx₃.world.find? "a" = some 0 ∧
          c.phase.service?.bind asked? = some (1, "b", 0, []) ∧
          c.context.world.find? "b" = some 1 ∧ d.phase.service?.isSome = true ∧
          d.context.tracker.active = ["b", "a"] ∧
          d.context.world.registry = [("a", 0), ("b", 1), ("c", 2)] ∧
          called.1.toOption = some 5)) = some true := by
    decide +kernel
  obtain ⟨ctx₁, h₁, hcourse⟩ := Option.bind_eq_some_iff.1 hcourse
  obtain ⟨ctx₂, h₂, hcourse⟩ := Option.bind_eq_some_iff.1 hcourse
  obtain ⟨ctx₃, h₃, hcourse⟩ := Option.bind_eq_some_iff.1 hcourse
  obtain ⟨c, hc, hcourse⟩ := Option.bind_eq_some_iff.1 hcourse
  obtain ⟨d, hd, hcourse⟩ := Option.bind_eq_some_iff.1 hcourse
  obtain ⟨⟨reply, ctx'⟩, hcall, hfacts⟩ := Option.map_eq_some_iff.1 hcourse
  obtain ⟨⟨_, _⟩, hp₁, rfl⟩ := Option.map_eq_some_iff.1 h₁
  obtain ⟨⟨_, _⟩, hp₂, rfl⟩ := Option.map_eq_some_iff.1 h₂
  obtain ⟨⟨_, s, t, m⟩, hp₃, rfl⟩ := Option.map_eq_some_iff.1 h₃
  obtain ⟨rfl, rfl, hfind, hasked, hfind', hserving, hactive, hregistry, hreply⟩ :=
    of_decide_eq_true hfacts
  obtain ⟨sv, hsv, hasked⟩ := Option.bind_eq_some_iff.1 hasked
  obtain ⟨k, rfl⟩ := asked?_eq_some hasked
  obtain ⟨sv, hserving⟩ := Option.isSome_iff_exists.1 hserving
  obtain rfl : reply = .ok 5 := Instance.eq_ok_of_toOption hreply
  obtain ⟨a, ha, hvisits⟩ := served?_eq_some hc
  obtain ⟨b, hb, hvisits'⟩ := served?_eq_some hd
  have hhost : relaying.Confined Request.ByName := by
    intro n args
    unfold relaying
    split
    · exact ⟨trivial, fun _ _ => trivial⟩
    · trivial
  have hcreate (name : String) : (Request.create name).ByName := trivial
  have hcalled : (Request.call "c" 0 []).ByName := trivial
  have hhistory : History .default triplets (fun _ => none) m .empty :=
    .perform relaying _ 1 (.perform relaying _ 1 (.perform relaying 0 1 .start (hcreate "a") hhost
      hp₁) (hcreate "b") hhost hp₂) (hcreate "c") hhost hp₃
  have hobserved : Observed relaying ⟨0, .empty, m⟩ 20
      [(1, .bytecode d.inst), (0, .bytecode c.inst)] (some sv) d.context :=
    .nested (.outermost hfind ha (hsv ▸ hvisits)) hfind' hb (hserving ▸ hvisits')
  obtain ⟨hbusy, -, -, -, hkept, hinfo, -, hreleased⟩ := busy_exclusion hhistory hhost hobserved
  have hregistered : ∀ e ∈ [("a", 0), ("b", 1), ("c", 2)], e ∈ d.context.world.registry :=
    fun e he => hregistry ▸ he
  have hfree : "c" ∉ d.context.tracker.active := by
    rw [hactive]
    decide
  obtain ⟨hactive', haway⟩ := hkept relaying 1 20 (Request.call "c" 0 []) _ ctx' hhost hcalled hcall
  obtain ⟨-, hempty⟩ := haway (0, .bytecode c.inst) (by simp)
  obtain ⟨-, hadmits⟩ :=
    hreleased "c" 2 (hregistered _ (by simp)) hfree relaying 1 20 0 [] _ ctx' hhost hcall
  refine ⟨m, _, _, sv, d.context, ctx', hhistory, hobserved, hactive, ?_, ?_, ?_, ?_, hcall,
    hactive'.trans hactive, hempty, hadmits⟩
  · exact (hbusy "a" 0 (hregistered _ (by simp))).1.2 (by simp [hactive])
  · exact (hbusy "b" 1 (hregistered _ (by simp))).1.2 (by simp [hactive])
  · rw [hinfo, hregistry, hactive]
    decide
  · exact (hbusy "c" 2 (hregistered _ (by simp))).2.2 hfree

end Manager

end SandboxVm
