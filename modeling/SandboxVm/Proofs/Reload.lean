/-
SandboxVm.Proofs.Reload — a reload is a fresh load, or it is nothing.

Loading builds an instance from nothing. Reloading works on an instance that may have been
called, written to and stopped by a fault, keeps its data region, and changes it in place.
Both must end in the same state, and a reload that is refused must not have begun.

  §1  `Sandbox.reset_eq_ofData`: a region that is used again is one made anew;
  §2  `run_reloadInPlace`: all refusals come before the first change;
  §3  `run_reloadInPlace_eq_load`: a reload in terms of a load, refusals included.

`reload_equals_load` states the result.
-/
import SandboxVm.Proofs.Moments

namespace SandboxVm

/-! ## §1 Regions -/

namespace Region

/-- A region filled with zeros is one made of zeros. -/
theorem fill_zero_eq_zeros (b : ByteArray) : fill 0 b.size b 0 = zeros b.size := by
  have hlist : (fill 0 b.size b 0).data.toList = (zeros b.size).data.toList := by
    have hdrop : b.data.toList.drop b.size = [] :=
      List.drop_eq_nil_of_le (by rw [Array.length_toList]; exact Nat.le_refl _)
    rw [fill_eq_overwrite, toList_overwrite _ _ _ (by simp), toList_zeros, List.length_replicate,
      Nat.zero_add, hdrop]
    simp
  exact ByteArray.ext (Array.ext' hlist)

end Region

/-- A region that is reset holds what a new region of its size would hold. -/
theorem Sandbox.reset_eq_ofData (s : Sandbox) {size : UInt32} (h : size.toNat = s.size)
    (data : Bytes) : s.reset data = ofData size data := by
  have hbytes : (s.fillFrom 0 s.size 0).bytes = (zeroed size).bytes := by
    have hround : roundUp size.toNat = s.bytes.size := by
      rw [h]
      exact roundUp_eq_self s.power s.four_le
    calc Region.fill 0 s.bytes.size s.bytes 0
        = Region.zeros s.bytes.size := Region.fill_zero_eq_zeros s.bytes
      _ = Region.zeros (roundUp size.toNat) := by rw [hround]
  rw [reset, ofData, Sandbox.ext hbytes]

/-! ## §2 Refusals -/

namespace Instance

variable {inst b : Instance} {bytes : Bytes} {map : Option String}

/-- What a reload does to an instance, one refusal after the other. -/
theorem run_reloadInPlace (inst : Instance) (bytes : Bytes) (map : Option String) :
    (reloadInPlace bytes map).run inst =
      if inst.state = .unloaded then .error (.unavailable .unloaded) inst
      else if 0 < inst.callLevel then .error (.reload .callActive) inst
      else
        match parse bytes with
        | .error e => .error (.load e) inst
        | .ok parsed =>
          match inst.checkReload parsed with
          | .error e => .error (.reload e) inst
          | .ok () => .ok () (inst.replace parsed map) := by
  have hrun (p : Prop) [Decidable p] (x y : EStateM Error Instance Unit) :
      (if p then x else y).run inst = if p then x.run inst else y.run inst := by
    split <;> rfl
  refine (hrun _ _ _).trans (congrArg _ ((hrun _ _ _).trans (congrArg _ ?_)))
  cases parse bytes with
  | error e => rfl
  | ok parsed =>
    simp only
    cases inst.checkReload parsed with
    | error e => rfl
    | ok u => rfl

@[simp] theorem run_reloadInPlace_of_unloaded (h : inst.state = .unloaded) :
    (reloadInPlace bytes map).run inst = .error (.unavailable .unloaded) inst := by
  rw [run_reloadInPlace, if_pos h]

/-- A reload that fails leaves the instance as it was. -/
theorem eq_of_reloadInPlace_error {e : Error}
    (h : (reloadInPlace bytes map).run inst = .error e b) : b = inst := by
  rw [run_reloadInPlace] at h
  split at h
  · cases h; rfl
  · split at h
    · cases h; rfl
    · split at h
      · cases h; rfl
      · split at h
        · cases h; rfl
        · cases h

theorem reload_eq_ok_iff :
    inst.reload bytes map = .ok b ↔ (reloadInPlace bytes map).run inst = .ok () b := by
  unfold reload
  cases (reloadInPlace bytes map).run inst with
  | ok u a => simp
  | error e a => simp

/-- A reload that succeeds puts in place an image that was parsed and fits. -/
theorem reload_eq_ok {bytes : Bytes} (h : inst.reload bytes map = .ok b) :
    ∃ parsed, parse bytes = .ok parsed ∧ inst.checkReload parsed = .ok () ∧
      b = inst.replace parsed map := by
  rw [reload_eq_ok_iff, run_reloadInPlace] at h
  split at h
  · cases h
  · split at h
    · cases h
    · split at h
      · cases h
      · rename_i parsed hparsed
        split at h
        · cases h
        · rename_i hcheck
          cases h
          exact ⟨parsed, hparsed, hcheck, rfl⟩

/-! ## §3 Reloads and loads -/

/-- The settings of a load that does the same as a reload of an instance. -/
def reloadOptions (inst : Instance) (map : Option String) : LoadOptions :=
  ⟨inst.requested, map <|> inst.map, inst.profiling⟩

theorem load_of_parse_error {e : LoadError} (h : parse bytes = .error e) (name : String)
    (opts : LoadOptions) : load name bytes opts = .error e := by
  unfold load
  rw [h]
  rfl

/-- The instance holds the code of a parsed image, prepared for the mode that was asked for. -/
structure Prepared (parsed : Parsed) (inst : Instance) : Prop where
  header : inst.header = parsed.image.header
  jumpTable : inst.jumpTable = parsed.jumpTable
  program : inst.program = parsed.program
  strategy : inst.strategy = Strategy.prepare inst.requested inst.program inst.jumpTable

theorem load_of_parse {parsed : Parsed} (h : parse bytes = .ok parsed) (name : String)
    (opts : LoadOptions) : ∃ a, load name bytes opts = .ok a ∧ a.Prepared parsed := by
  unfold load
  rw [h]
  exact ⟨_, rfl, rfl, rfl, rfl, rfl⟩

theorem prepared_replace (inst : Instance) (parsed : Parsed) (map : Option String) :
    (inst.replace parsed map).Prepared parsed :=
  ⟨rfl, rfl, rfl, rfl⟩

/-- An instance whose image is replaced is one that was loaded with the image. -/
theorem load_eq_replace {parsed : Parsed} (hparsed : parse bytes = .ok parsed)
    (hlevel : inst.callLevel = 0)
    (hsize : (dataSize parsed.image.header).toNat = inst.memory.size) :
    load inst.name bytes (inst.reloadOptions map) = .ok (inst.replace parsed map) := by
  unfold load replace
  rw [hparsed, inst.memory.reset_eq_ofData hsize parsed.image.data]
  simp only [bind, Except.bind, reloadOptions, prepare, hlevel]

/-- A reload of an instance that is between calls, in terms of a load. -/
theorem run_reloadInPlace_eq_load (hlevel : inst.callLevel = 0) (hstate : inst.state ≠ .unloaded)
    (bytes : Bytes) (map : Option String) :
    (reloadInPlace bytes map).run inst =
      match load inst.name bytes (inst.reloadOptions map) with
      | .error e => .error (.load e) inst
      | .ok a =>
        if (dataSize a.header).toNat ≠ inst.memory.size then
          .error (.reload .dataSizeMismatch) inst
        else if inst.jumpTable.map (·.declared) ≠ a.jumpTable.map (·.declared) then
          .error (.reload .jumpTableMismatch) inst
        else .ok () a := by
  rw [run_reloadInPlace, if_neg hstate, if_neg (by omega)]
  cases hparsed : parse bytes with
  | error e => rw [load_of_parse_error hparsed]
  | ok parsed =>
    obtain ⟨a, hload, ha⟩ := load_of_parse hparsed inst.name (inst.reloadOptions map)
    simp only [hload, ha.header, ha.jumpTable, checkReload]
    by_cases hsize : (dataSize parsed.image.header).toNat = inst.memory.size
    · rw [if_neg (not_not_intro hsize), if_neg (not_not_intro hsize)]
      obtain rfl : a = inst.replace parsed map :=
        Except.ok.inj (hload.symm.trans (load_eq_replace hparsed hlevel hsize))
      by_cases htable : inst.jumpTable.map (·.declared) = parsed.jumpTable.map (·.declared)
      · rw [if_neg (not_not_intro htable), if_neg (not_not_intro htable)]
      · rw [if_pos htable, if_pos htable]
    · rw [if_pos hsize, if_pos hsize]

/-- A reload succeeds with what a load gives, when that is as large as what is in place. -/
theorem run_reloadInPlace_eq_ok_iff (hlevel : inst.callLevel = 0)
    (hstate : inst.state ≠ .unloaded) :
    (reloadInPlace bytes map).run inst = .ok () b ↔
      load inst.name bytes (inst.reloadOptions map) = .ok b ∧
        (dataSize b.header).toNat = inst.memory.size ∧
        b.jumpTable.map (·.declared) = inst.jumpTable.map (·.declared) := by
  rw [run_reloadInPlace_eq_load hlevel hstate]
  constructor
  · intro h
    split at h
    · cases h
    · rename_i a hload
      split at h
      · cases h
      · rename_i hsize
        split at h
        · cases h
        · rename_i htable
          cases h
          exact ⟨hload, Decidable.not_not.1 hsize, (Decidable.not_not.1 htable).symm⟩
  · rintro ⟨hload, hsize, htable⟩
    simp only [hload]
    rw [if_neg (not_not_intro hsize), if_neg (not_not_intro htable.symm)]

/-- Reloading is atomic and ends where a load would. Between calls, an instance that was not
unloaded takes an image in exactly when a load accepts it and its data region and its jump
table are as large as those in place. It then is the instance that a load under its name gives,
with its own mode and profiling and the new symbol file, or else the one it has. Whatever
refuses the image, the instance is unchanged, and a failure to load is that of the load. The
tracker is left alone either way. -/
theorem reload_equals_load (inst : Instance) (hlevel : inst.callLevel = 0)
    (hstate : inst.state ≠ .unloaded) (bytes : Bytes) (map : Option String) (tracker : Tracker) :
    ((∃ b, (reloadInPlace bytes map).run inst = .ok () b) ↔
      ∃ a, load inst.name bytes (inst.reloadOptions map) = .ok a ∧
        (dataSize a.header).toNat = inst.memory.size ∧
        a.jumpTable.map (·.declared) = inst.jumpTable.map (·.declared)) ∧
    (∀ b, (reloadInPlace bytes map).run inst = .ok () b →
      load inst.name bytes (inst.reloadOptions map) = .ok b ∧
      inst.reload bytes map = .ok b ∧
      inst.operate tracker (.reload bytes map) = (.ok (), b, tracker)) ∧
    (∀ e b, (reloadInPlace bytes map).run inst = .error e b →
      b = inst ∧ inst.reload bytes map = .error e ∧
      inst.operate tracker (.reload bytes map) = (.error e, inst, tracker)) ∧
    ∀ e, load inst.name bytes (inst.reloadOptions map) = .error e →
      (reloadInPlace bytes map).run inst = .error (.load e) inst := by
  refine ⟨?_, ?_, ?_, ?_⟩
  · exact exists_congr fun b => run_reloadInPlace_eq_ok_iff hlevel hstate
  · intro b hb
    refine ⟨((run_reloadInPlace_eq_ok_iff hlevel hstate).1 hb).1, reload_eq_ok_iff.2 hb, ?_⟩
    rw [operate, hb]
  · intro e b hb
    obtain rfl := eq_of_reloadInPlace_error hb
    refine ⟨rfl, ?_, ?_⟩
    · rw [reload, hb]
    · rw [operate, hb]
  · intro e he
    rw [run_reloadInPlace_eq_load hlevel hstate, he]

/-- The image of a module that writes to its data and then stumbles over an undefined
instruction. -/
def wearing : Bytes :=
  let code : Code :=
    { bytes := [⟨.const, 4⟩, ⟨.const, 7⟩, ⟨.store .word, 0⟩, ⟨.breakpoint, 0⟩,
        ⟨.undef, 0⟩].flatMap Instruction.encode
      instructionCount := 5
      jumpTargets := [4] }
  Layout.build ⟨.extended, code, [1, 2, 3], [], 61⟩

/-- A host that answers every service with zero. -/
def silent : Host Interface.empty Unit := fun _ _ => .done () (.ok 0)

/-- An instance that a call has written to and stopped takes the image in again and is as
loaded at first, symbol file apart. An image without a header changes nothing. -/
theorem reload_equals_load_wearing :
    ∃ (inst worn b : Instance) (f : Fault),
      load "m" wearing ⟨.compiled, none, true⟩ = .ok inst ∧
      worn.memory.load32 4 = 7 ∧ worn.breakCount = 1 ∧ worn.lastFault = some f ∧
      worn.callLevel = 0 ∧ worn.state = .faulted ∧
      (reloadInPlace wearing (some "0 4 undefined")).run worn = .ok () b ∧
      load "m" wearing ⟨.compiled, some "0 4 undefined", true⟩ = .ok b ∧
      (reloadInPlace [] none).run worn = .error (.load .imageTruncated) worn := by
  let symbols := some "0 4 undefined"
  let loaded := (load "m" wearing ⟨.compiled, none, true⟩).toOption
  let worn := loaded.bind fun i =>
    (call World.empty silent 10 0 [] i ⟨(), .empty, ()⟩).map (·.module)
  have hload : loaded.isSome = true := by decide +kernel
  have hworn : (worn.map fun i => (i.memory.load32 4, i.breakCount, i.lastFault.isSome,
      i.callLevel, i.state)) = some (7, 1, true, 0, .faulted) := by decide +kernel
  have hsame : (worn.map fun i => (i.name, i.requested, i.profiling)) =
      some ("m", .compiled, true) := by decide +kernel
  have hreload : (worn.map fun i => (reloadInPlace wearing symbols).run i matches .ok ..) =
      some true := by decide +kernel
  obtain ⟨inst, hinst⟩ := Option.isSome_iff_exists.1 hload
  obtain ⟨i, hi, hfacts⟩ := Option.map_eq_some_iff.1 hworn
  simp only [Prod.mk.injEq] at hfacts
  obtain ⟨hmem, hbreaks, hfault, hlevel, hstate⟩ := hfacts
  obtain ⟨f, hf⟩ := Option.isSome_iff_exists.1 hfault
  rw [hi, Option.map_some, Option.some.injEq] at hsame hreload
  simp only [Prod.mk.injEq] at hsame
  obtain ⟨hname, hmode, hprofile⟩ := hsame
  have hopts : i.reloadOptions symbols = ⟨.compiled, symbols, true⟩ := by
    simp [reloadOptions, symbols, hmode, hprofile]
  have hloaded : i.state ≠ .unloaded := by simp [hstate]
  cases hb : (reloadInPlace wearing symbols).run i with
  | ok u b =>
    obtain ⟨-, hok, -, -⟩ := reload_equals_load i hlevel hloaded wearing symbols .empty
    obtain ⟨-, -, -, herror⟩ := reload_equals_load i hlevel hloaded [] none .empty
    refine ⟨inst, i, b, f, eq_ok_of_toOption hinst, hmem, hbreaks, hf, hlevel, hstate, hb, ?_, ?_⟩
    · rw [← hname, ← hopts]
      exact (hok b hb).1
    · exact herror _ (load_of_parse_error rfl _ _)
  | error e b => simp [hb] at hreload

end Instance

end SandboxVm
