/-
SandboxVm.Proofs.Refusals — what is refused leaves nothing behind.

A restart works on an instance in its slot and goes from image to image until one is accepted. An
unload works on the instance and on the tracker before it comes to the registry. Whatever either of
them has changed when it fails would stay changed. Nothing has, because all refusals come before
the first change, and an instance that is put back into its slot is then the one that was there.
What restarts and unloads come to can therefore be said by `restart` and `unload`, which give a new
state or none, and requests are answered in these terms.

  §1  `run_reloadFirstInPlace`: images that are rejected do not touch the instance;
  §2  `run_restartInPlace`, `run_unloadInPlace`: failures do not touch the manager;
  §3  `perform_restart`, `perform_unload` and `clear_eq`: the same for requests.
-/
import SandboxVm.Manager
import SandboxVm.Proofs.Reload

namespace SandboxVm.Manager

/-! ## §1 Rejected images -/

variable {inst b : Instance} {map : Option String} {last : LoadError} {bytes : Bytes}
  {images : List Bytes}

/-- What has been done when a failure is caught stays done. -/
theorem run_tryCatch {ε τ α : Type} (x : EStateM ε τ α) (handler : ε → EStateM ε τ α) (s : τ) :
    (tryCatch x handler).run s =
      match x.run s with
      | .ok a s => .ok a s
      | .error e s => (handler e).run s := by
  change EStateM.tryCatch x handler s = _
  delta EStateM.tryCatch EStateM.run
  cases x s <;> rfl

theorem run_get_bind {ε τ α : Type} (f : τ → EStateM ε τ α) (s : τ) :
    (get >>= f).run s = (f s).run s := rfl

/-- A failure of one kind hands the instance to the next image, as it is by then. -/
theorem run_reloadFirstInPlace_cons (inst : Instance) (map : Option String) (last : LoadError)
    (bytes : Bytes) (images : List Bytes) :
    (reloadFirstInPlace map last (bytes :: images)).run inst =
      match (Instance.reloadInPlace bytes map).run inst with
      | .ok u b => .ok u b
      | .error (.load e) b => (reloadFirstInPlace map e images).run b
      | .error e b => .error e b := by
  rw [reloadFirstInPlace, run_tryCatch]
  cases (Instance.reloadInPlace bytes map).run inst with
  | ok u b => rfl
  | error e b => cases e <;> rfl

/-- However many images are rejected, the instance is what it was before the first. -/
theorem eq_of_reloadFirstInPlace_error {e : Error}
    (h : (reloadFirstInPlace map last images).run inst = .error e b) : b = inst := by
  induction images generalizing last with
  | nil =>
    cases h
    rfl
  | cons bytes images ih =>
    rw [run_reloadFirstInPlace_cons] at h
    cases hreload : (Instance.reloadInPlace bytes map).run inst with
    | ok u c =>
      rw [hreload] at h
      cases h
    | error e' c =>
      obtain rfl := Instance.eq_of_reloadInPlace_error hreload
      rw [hreload] at h
      cases e' with
      | load e' => exact ih h
      | _ =>
        cases h
        rfl

theorem run_reloadFirstInPlace (inst : Instance) (map : Option String) (last : LoadError)
    (images : List Bytes) :
    (reloadFirstInPlace map last images).run inst =
      match reloadFirst inst map last images with
      | .ok b => .ok () b
      | .error e => .error e inst := by
  unfold reloadFirst
  cases h : (reloadFirstInPlace map last images).run inst with
  | ok u b => rfl
  | error e b => rw [eq_of_reloadFirstInPlace_error h]

theorem reloadFirst_cons (inst : Instance) (map : Option String) (last : LoadError)
    (bytes : Bytes) (images : List Bytes) :
    reloadFirst inst map last (bytes :: images) =
      match inst.reload bytes map with
      | .ok b => .ok b
      | .error (.load e) => reloadFirst inst map e images
      | .error e => .error e := by
  rw [reloadFirst, run_reloadFirstInPlace_cons, Instance.reload]
  cases hreload : (Instance.reloadInPlace bytes map).run inst with
  | ok u b => rfl
  | error e b =>
    obtain rfl := Instance.eq_of_reloadInPlace_error hreload
    cases e <;> rfl

/-! ## §2 Restarts and unloads -/

variable {m m' : Manager} {t t' : Tracker} {name : String} {h : Handle} {module : Loaded}

theorem idle_eq_ok (hidle : m.idle name = .ok (h, module)) :
    m.find? name = some h ∧ m.module? h = some module := by
  unfold idle at hidle
  split at hidle
  next => cases hidle
  next hfind =>
    split at hidle
    next => cases hidle
    next hmodule =>
      cases hidle
      exact ⟨hfind, hmodule⟩

/-- A module that is put into its own slot again changes nothing. -/
theorem setModule_eq_self (hmodule : m.module? h = some module) :
    m.setModule h (some module) = m := by
  have hslot : m.slots[h]? = some (some module) := Option.join_eq_some_iff.1 hmodule
  obtain ⟨hlt, hget⟩ := Array.getElem?_eq_some_iff.1 hslot
  rw [setModule, Array.setIfInBounds_def, dif_pos hlt, ← hget, Array.set_getElem_self]

/-- What a restart does to a manager, one step after the other. -/
theorem run_restartInPlace_steps (m : Manager) (name : String) :
    (restartInPlace name).run m =
      match m.idle name with
      | .error e => .error e m
      | .ok (h, .bytecode inst) =>
        match (reloadFirstInPlace (m.mapFor name) .moduleNotFound
          (m.source.images name)).run inst with
        | .ok _ inst => .ok () (m.setModule h (some (.bytecode inst)))
        | .error e inst => .error e (m.setModule h (some (.bytecode inst)))
      | .ok (h, .native _) =>
        match m.natives name with
        | some module => .ok () (m.setModule h (some (.native (NativeInstance.load name module))))
        | none => .error (.reload .restartFailed) m := by
  rw [restartInPlace, run_get_bind]
  cases m.idle name with
  | error e => rfl
  | ok found =>
    obtain ⟨h, module⟩ := found
    cases module with
    | bytecode inst =>
      dsimp only
      cases (reloadFirstInPlace (m.mapFor name) .moduleNotFound (m.source.images name)).run inst <;>
        rfl
    | native n =>
      dsimp only
      cases m.natives name <;> rfl

/-- A restart that fails leaves the manager as it was. -/
theorem eq_of_restartInPlace_error {e : Error}
    (hr : (restartInPlace name).run m = .error e m') : m' = m := by
  rw [run_restartInPlace_steps] at hr
  cases hidle : m.idle name with
  | error e =>
    rw [hidle] at hr
    cases hr
    rfl
  | ok found =>
    obtain ⟨h, module⟩ := found
    rw [hidle] at hr
    cases module with
    | bytecode inst =>
      simp only at hr
      split at hr
      next => cases hr
      next hreload =>
        cases hr
        obtain rfl := eq_of_reloadFirstInPlace_error hreload
        exact setModule_eq_self (idle_eq_ok hidle).2
    | native n =>
      simp only at hr
      split at hr
      next => cases hr
      next =>
        cases hr
        rfl

theorem run_restartInPlace (m : Manager) (name : String) :
    (restartInPlace name).run m =
      match m.restart name with
      | .ok m' => .ok () m'
      | .error e => .error e m := by
  unfold restart
  cases h : (restartInPlace name).run m with
  | ok u m' => rfl
  | error e m' => rw [eq_of_restartInPlace_error h]

theorem restart_eq (m : Manager) (name : String) :
    m.restart name = (do
      let (h, module) ← m.idle name
      match module with
      | .bytecode inst =>
        let inst ← reloadFirst inst (m.mapFor name) .moduleNotFound (m.source.images name)
        .ok (m.setModule h (some (.bytecode inst)))
      | .native _ =>
        match m.natives name with
        | some module => .ok (m.setModule h (some (.native (NativeInstance.load name module))))
        | none => .error (.reload .restartFailed)) := by
  rw [restart, run_restartInPlace_steps]
  cases m.idle name with
  | error e => rfl
  | ok found =>
    obtain ⟨h, module⟩ := found
    cases module with
    | bytecode inst =>
      simp only [bind, Except.bind, run_reloadFirstInPlace]
      cases reloadFirst inst (m.mapFor name) .moduleNotFound (m.source.images name) <;> rfl
    | native n =>
      simp only [bind, Except.bind]
      cases m.natives name <;> rfl

/-- What an unload does to a manager and a tracker, one step after the other. -/
theorem run_unloadInPlace_steps (m : Manager) (t : Tracker) (name : String) :
    (unloadInPlace name).run (m, t) =
      match m.idle name with
      | .error e => .error e (m, t)
      | .ok (h, .bytecode inst) =>
        match Instance.unloadInPlace.run (inst, t) with
        | .ok _ (inst, t) =>
          .ok () ({ m.setModule h (some (.bytecode inst)) with
            registry := m.registry.filter (·.1 ≠ name) }, t)
        | .error e (inst, t) => .error e (m.setModule h (some (.bytecode inst)), t)
      | .ok (_, .native n) =>
        .ok () ({ m with registry := m.registry.filter (·.1 ≠ name) }, t.forget n.name) := by
  rw [unloadInPlace, run_get_bind]
  dsimp only
  cases m.idle name with
  | error e => rfl
  | ok found =>
    obtain ⟨h, module⟩ := found
    cases module with
    | bytecode inst =>
      dsimp only
      cases Instance.unloadInPlace.run (inst, t) <;> rfl
    | native n => rfl

/-- An unload that fails leaves the manager and the tracker as they were. -/
theorem eq_of_unloadInPlace_error {e : Error}
    (hu : (unloadInPlace name).run (m, t) = .error e (m', t')) : m' = m ∧ t' = t := by
  rw [run_unloadInPlace_steps] at hu
  cases hidle : m.idle name with
  | error e =>
    rw [hidle] at hu
    cases hu
    exact ⟨rfl, rfl⟩
  | ok found =>
    obtain ⟨h, module⟩ := found
    rw [hidle] at hu
    cases module with
    | bytecode inst =>
      simp only [Instance.run_unloadInPlace] at hu
      by_cases hlevel : 0 < inst.callLevel
      · rw [if_pos hlevel] at hu
        cases hu
        exact ⟨setModule_eq_self (idle_eq_ok hidle).2, rfl⟩
      · rw [if_neg hlevel] at hu
        cases hu
    | native n => cases hu

theorem run_unloadInPlace (m : Manager) (t : Tracker) (name : String) :
    (unloadInPlace name).run (m, t) =
      match m.unload t name with
      | .ok state => .ok () state
      | .error e => .error e (m, t) := by
  unfold unload
  cases h : (unloadInPlace name).run (m, t) with
  | ok u state => rfl
  | error e state =>
    obtain ⟨rfl, rfl⟩ := eq_of_unloadInPlace_error h
    rfl

theorem unload_eq (m : Manager) (t : Tracker) (name : String) :
    m.unload t name = (do
      let (h, module) ← m.idle name
      let registry := m.registry.filter (·.1 ≠ name)
      match module with
      | .bytecode inst =>
        let (inst, t) ← inst.unload t
        .ok ({ m.setModule h (some (.bytecode inst)) with registry := registry }, t)
      | .native n => .ok ({ m with registry := registry }, t.forget n.name)) := by
  rw [unload, run_unloadInPlace_steps]
  cases m.idle name with
  | error e => rfl
  | ok found =>
    obtain ⟨h, module⟩ := found
    cases module with
    | bytecode inst =>
      simp only [bind, Except.bind, Instance.unload]
      cases Instance.unloadInPlace.run (inst, t) <;> rfl
    | native n => rfl

/-! ## §3 Requests -/

theorem clear_eq (m : Manager) (t : Tracker) :
    m.clear t = (m.registry.map (·.1)).foldl
      (fun (m, t) name =>
        match m.unload t name with
        | .ok state => state
        | .error _ => (m, t))
      (m, t) := by
  rw [clear]
  congr 1
  funext ⟨m, t⟩ name
  simp only [run_unloadInPlace]
  cases m.unload t name <;> rfl

variable {σ : Type}

theorem perform_restart (host : Host interface σ) (fuel : Nat) (name : String)
    (ctx : Context σ Manager) :
    perform host (fuel + 1) (Request.restart name) ctx =
      match ctx.world.restart name with
      | .ok m => some (.ok (), { ctx with world := m })
      | .error e => some (.error e, ctx) := by
  simp only [perform, run_restartInPlace]
  cases ctx.world.restart name <;> rfl

theorem perform_unload (host : Host interface σ) (fuel : Nat) (name : String)
    (ctx : Context σ Manager) :
    perform host (fuel + 1) (Request.unload name) ctx =
      match ctx.world.unload ctx.tracker name with
      | .ok (m, t) => some (.ok (), { ctx with world := m, tracker := t })
      | .error e => some (.error e, ctx) := by
  simp only [perform, run_unloadInPlace]
  cases ctx.world.unload ctx.tracker name <;> rfl

end SandboxVm.Manager
