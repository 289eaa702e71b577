/-
SandboxVm.Proofs.Lifecycle — what holds of an instance between the operations of its owner.

An owner calls an instance, reloads and unloads it, attaches symbols, and writes to its memory,
in any order. Each operation leaves the instance in a state in which all of them make sense
again: no call is counted, the program stack is where loading put it, and a fault is on record
exactly when the instance is faulted. That the program stack begins at the upper end of the region
is true as long as the region is the one of the load.

  §1  `Located`: faults are recorded at an instruction of the program, or at its end;
  §2  `Diagnosed`: in the course of a call, an instance is faulted exactly when a fault is on
      record, and that one is located;
  §3  `Resting`, what holds between operations; one lemma for each kind of operation says that
      it is kept; `Seated`, the program stack at the upper end of the region;
  §4  `lifecycle_invariant`, for every history of a loaded instance, and `programStack_of_moved`,
      a history with a host that puts a larger region in place.
-/
import SandboxVm.Proofs.Containment
import SandboxVm.Proofs.ControlFlow
import SandboxVm.Proofs.Nesting

namespace SandboxVm

variable {I : Interface} {σ ω : Type}

/-! ## §1 Places of faults -/

namespace Instance

/-- The fault names the module and an instruction of it, or the end of its program, and gives
the place of that instruction in the code. -/
structure Located (inst : Instance) (f : Fault) : Prop where
  module : f.module = inst.name
  instruction : f.instruction.toNat ≤ inst.program.size
  offset : f.offset = inst.program.offsetOf f.instruction.toNat

theorem Located.congr {a b : Instance} {f : Fault} (h : a.Located f) (hname : b.name = a.name)
    (hprogram : b.program = a.program) : b.Located f where
  module := h.module.trans hname.symm
  instruction := hprogram ▸ h.instruction
  offset := hprogram ▸ h.offset

/-- A fault that is recorded at an instruction of the program is located. -/
theorem located_recordFault {bytes : Bytes} {parsed : Parsed} {inst : Instance} {n : Nat}
    (hparsed : parse bytes = .ok parsed) (hinst : inst.Prepared parsed)
    (hn : n ≤ parsed.program.size) (cause : FaultCause) :
    (inst.recordFault cause n).2.Located (inst.recordFault cause n).1 := by
  have hsize := size_lt_of_parse hparsed
  have hnumber : (inst.recordFault cause n).1.instruction.toNat = n :=
    UInt32.toNat_ofNat_of_lt' (by simp only [UInt32.size]; omega)
  refine ⟨rfl, ?_, ?_⟩
  · rw [hnumber]
    exact hinst.program ▸ hn
  · rw [hnumber]
    rfl

/-! ## §2 Courses -/

/-- A fault is on record exactly when the instance is faulted, and it is located. -/
structure Diagnosed (inst : Instance) : Prop where
  healthy : inst.state ≠ .faulted → inst.lastFault = none
  faulted : inst.state = .faulted → ∃ f, inst.lastFault = some f ∧ inst.Located f

/-- What changes neither the program nor whether it is faulted keeps the diagnosis. -/
theorem Diagnosed.congr {a b : Instance} (ha : a.Diagnosed) (hname : b.name = a.name)
    (hprogram : b.program = a.program) (hstate : b.state = .faulted ↔ a.state = .faulted)
    (hlast : b.lastFault = a.lastFault) : b.Diagnosed where
  healthy hb := by
    rw [hlast]
    exact ha.healthy fun h => hb (hstate.2 h)
  faulted hb := by
    obtain ⟨f, hf, hlocated⟩ := ha.faulted (hstate.1 hb)
    exact ⟨f, hlast.trans hf, hlocated.congr hname hprogram⟩

theorem Rewritten.diagnosed {a b : Instance} (h : Rewritten a b) (ha : a.Diagnosed) : b.Diagnosed :=
  ha.congr h.sameModule.name h.sameModule.program (by rw [h.state]) h.lastFault

theorem diagnosed_recordFault {bytes : Bytes} {parsed : Parsed} {inst : Instance} {n : Nat}
    (hparsed : parse bytes = .ok parsed) (hinst : inst.Prepared parsed)
    (hn : n ≤ parsed.program.size) (cause : FaultCause) :
    (inst.recordFault cause n).2.Diagnosed where
  healthy h := absurd rfl h
  faulted _ := ⟨_, rfl, located_recordFault hparsed hinst hn cause⟩

end Instance

namespace Moment

open Instance (Parsed SameModule)

variable {world : World I σ ω} {host : Host I σ} {c d : Moment I σ ω} {bytes : Bytes}
  {parsed : Parsed}

/-- From one moment to the next the diagnosis is kept: faults are recorded where control is. -/
theorem diagnosed_next (hparsed : Instance.parse bytes = .ok parsed)
    (h : c.next world host = some d) (hplaced : c.Placed parsed) (hc : c.inst.Diagnosed) :
    d.inst.Diagnosed := by
  obtain ⟨hprepared, hin, -⟩ := hplaced
  have hsame := next_sameModule h
  cases follows_of_next h with
  | execute m => exact m.step_executed.diagnosed hc
  | finish m stack callers ctx =>
    obtain ⟨w, hw⟩ | hw := m.finish_cases ctx
    · simp only [inst, Phase.inst, hw]
      exact hc
    · simp only [inst, Phase.inst, hw]
      exact Instance.diagnosed_recordFault hparsed hprepared (Nat.le_of_lt hin) _
  | fail m cause => exact Instance.diagnosed_recordFault hparsed hprepared hin cause
  | system m saved => exact hc.congr rfl rfl Iff.rfl rfl
  | reply s reply w i =>
    have hback : (w.machine i).inst.Diagnosed := hc.congr rfl rfl Iff.rfl rfl
    exact (answered_executed w i reply).diagnosed hback
  | view k w i => exact hc
  | edit e k w i => exact (i.rewritten_edit e).diagnosed hc
  | refuse s command args k e w i => exact hc
  | nest s command args k packed w i stack callers ctx ha =>
    -- a call is accepted by an instance that is not faulted, and finds it running
    have hstart := Machine.begin_executed i.activate packed
    have hi : i.state ≠ .faulted := by
      intro hf
      simp [accept_of_faulted hf] at ha
    refine hc.congr hsame.name hsame.program ?_ hstart.lastFault
    rw [state_start]
    exact iff_of_false (by simp) hi
  | ask s q k a w i => exact hc
  | «return» reply i caller stack =>
    exact hc.congr rfl rfl (i.deactivate_state_eq_faulted stack) rfl

end Moment

namespace Instance

variable {world : World I σ ω} {host : Host I σ} {command : Int32} {args : List Int32}
  {b : Instance} {ctx : Context σ ω} {c : Moment I σ ω} {bytes : Bytes} {parsed : Parsed}

/-- An instance that is ready without a fault on record keeps its diagnosis in a call. -/
theorem Visits.diagnosed (hparsed : parse bytes = .ok parsed) (hb : b.Prepared parsed)
    (hlast : b.lastFault = none) (hc : Visits world host command args b ctx c) :
    c.inst.Diagnosed := by
  have hall : c.Placed parsed ∧ c.inst.Diagnosed := by
    refine hc.preserves (P := fun c => c.Placed parsed ∧ c.inst.Diagnosed) ?_ ?_
    · intro packed _
      have hstart := Machine.begin_executed b.activate packed
      refine ⟨Moment.placed_start hb packed ctx, ?_, ?_⟩
      · intro _
        exact hstart.lastFault.trans hlast
      · intro hf
        rw [Moment.state_start] at hf
        cases hf
    · intro c d hnext hc
      exact ⟨hc.1.next hparsed hnext, Moment.diagnosed_next hparsed hnext hc.1 hc.2⟩
  exact hall.2

/-! ## §3 Between operations -/

/-- What loading sets up and calls restore: the code of an image, and a program stack with its
bottom. -/
structure Furnished (inst : Instance) : Prop where
  image : ∃ bytes parsed, parse bytes = .ok parsed ∧ inst.Prepared parsed
  bottom : inst.stackBottom.toInt = inst.programStack.toInt - 0x10000

/-- The program stack is empty and begins at the upper end of the region. -/
def Seated (inst : Instance) : Prop :=
  inst.state ≠ .unloaded → inst.programStack.toInt = inst.memory.size

/-- An instance between operations. -/
structure Resting (inst : Instance) : Prop where
  level : inst.callLevel = 0
  state : inst.state = .ready ∨ inst.state = .faulted ∨ inst.state = .unloaded
  diagnosed : inst.state ≠ .unloaded → inst.Diagnosed
  furnished : inst.state ≠ .unloaded → inst.Furnished

/-- The table is there in the extended format, and names instructions only. -/
theorem Furnished.jumpTable {inst : Instance} (h : inst.Furnished) :
    (inst.jumpTable.isSome = true ↔ inst.header.format = .extended) ∧
      ∀ table t, inst.jumpTable = some table → table.allows t = true →
        inst.program.isInstruction t = true := by
  obtain ⟨bytes, parsed, hparsed, hinst⟩ := h.image
  obtain ⟨-, htable⟩ := parse_eq_ok hparsed
  rw [hinst.header, hinst.jumpTable, hinst.program]
  cases hf : parsed.image.header.format with
  | legacy =>
    rw [hf] at htable
    simp [htable]
  | extended =>
    rw [hf] at htable
    obtain ⟨table, htable, hbuild⟩ := htable
    refine ⟨by simp [htable], ?_⟩
    intro table' t htable' hallows
    obtain rfl : table = table' := Option.some.inj (htable.symm.trans htable')
    exact ((JumpTable.allows_build_iff hbuild).1 hallows).1

theorem Fits.size_le {inst : Instance} (h : inst.Fits bytes) :
    inst.memory.size ≤ Header.maxDataSize := by
  obtain ⟨parsed, hparsed, hsize, -⟩ := h
  rw [hsize]
  exact Sandbox.roundUp_le_maxDataSize (Image.length_data_le_of_parse (image_of_parse hparsed)).2

theorem Fits.toInt_size {inst : Instance} (h : inst.Fits bytes) :
    (Int32.ofNat inst.memory.size).toInt = inst.memory.size := by
  have hsize := h.size_le
  simp only [Header.maxDataSize] at hsize
  exact Int32.toInt_ofNat_of_lt (by omega)

/-- Where a new image puts the program stack. -/
theorem furnished_of_prepared {inst : Instance} (hparsed : parse bytes = .ok parsed)
    (hinst : inst.Prepared parsed) (hfits : inst.Fits bytes)
    (hstack : inst.programStack = Int32.ofNat inst.memory.size)
    (hbottom : inst.stackBottom = Int32.ofNat inst.memory.size - programStackSize) :
    inst.Furnished := by
  have hsize := hfits.size_le
  simp only [Header.maxDataSize] at hsize
  have htop := hfits.toInt_size
  have hreserved : programStackSize.toInt = 0x10000 := by decide
  refine ⟨⟨bytes, parsed, hparsed, hinst⟩, ?_⟩
  rw [hstack, hbottom, toInt_sub_of_le (by omega) (by omega), hreserved]

theorem resting_of_load {name : String} {opts : LoadOptions} {inst : Instance}
    (h : load name bytes opts = .ok inst) : inst.Resting := by
  have hfits := fits_of_load h
  unfold load at h
  cases hparsed : parse bytes with
  | error e => simp [hparsed, bind, Except.bind] at h
  | ok parsed =>
    simp only [hparsed, bind, Except.bind] at h
    cases h
    refine ⟨rfl, .inl rfl, ?_, ?_⟩
    · intro _
      exact ⟨fun _ => rfl, nofun⟩
    · intro _
      exact furnished_of_prepared hparsed ⟨rfl, rfl, rfl, rfl⟩ hfits rfl rfl

/-- A reload brings an instance to rest again, whatever its state was. -/
theorem resting_of_reload {inst : Instance} {map : Option String} (hlevel : inst.callLevel = 0)
    (h : inst.reload bytes map = .ok b) : b.Resting := by
  have hfits := (fits_of_reload h).1
  obtain ⟨parsed, hparsed, -, rfl⟩ := reload_eq_ok h
  refine ⟨hlevel, .inl rfl, ?_, ?_⟩
  · intro _
    exact ⟨fun _ => rfl, nofun⟩
  · intro _
    exact furnished_of_prepared hparsed (prepared_replace inst parsed map) hfits rfl rfl

theorem Resting.unload {inst : Instance} {t t' : Tracker} (h : inst.Resting)
    (hu : inst.unload t = .ok (b, t')) : b.Resting := by
  have hstate := (unload_of_ok hu).1
  refine ⟨?_, .inr (.inr hstate), absurd hstate, absurd hstate⟩
  rw [unload_eq] at hu
  split at hu
  · cases hu
  · cases hu
    exact h.level

theorem Resting.operated {inst : Instance} (h : inst.Resting) (hop : inst.Operated b) :
    b.Resting := by
  have hrest := hop.rest
  refine ⟨by rw [hrest]; exact h.level, by rw [hop.state]; exact h.state, ?_, ?_⟩
  · intro hs
    rw [hop.state] at hs
    exact (h.diagnosed hs).congr (by rw [hrest]) (by rw [hrest]) (by rw [hop.state])
      hop.lastFault
  · intro hs
    rw [hop.state] at hs
    obtain ⟨⟨bytes, parsed, hparsed, hprepared⟩, hbottom⟩ := h.furnished hs
    refine ⟨⟨bytes, parsed, hparsed, hprepared.of_operated hop⟩, ?_⟩
    rw [hrest]
    exact hbottom

theorem Resting.operate {inst : Instance} (h : inst.Resting) (tracker : Tracker)
    (op : Operation) : (inst.operate tracker op).2.1.Resting := by
  rcases inst.operate_cases tracker op with ⟨bytes, map, -, hr⟩ | ⟨-, t, hu⟩ | ⟨hop, -⟩
  · exact resting_of_reload h.level hr
  · exact h.unload hu
  · exact h.operated hop

/-- A call is accepted by an instance that is ready. -/
theorem Resting.ready_of_visits (h : b.Resting) (hc : Visits world host command args b ctx c) :
    b.state = .ready := by
  rcases h.state with hs | hs | hs
  · exact hs
  · obtain ⟨packed, ha, -⟩ := hc
    simp [Moment.accept_of_faulted hs] at ha
  · exact absurd hs hc.ne_unloaded

/-- A call that returns brings an instance to rest again, however it ends. -/
theorem Resting.call (h : b.Resting) {fuel : Nat} {out : Outcome Instance σ ω}
    (hcall : Instance.call world host fuel command args b ctx = some out) :
    out.module.Resting := by
  rcases call_cases hcall with ⟨e, -, rfl⟩ | ⟨d, hd, hout⟩
  · exact h
  · have hready := h.ready_of_visits hd
    have hloaded : b.state ≠ .unloaded := by simp [hready]
    have hrestored := restored_of_call (.inl ⟨hready, h.level⟩) hcall
    obtain ⟨⟨bytes, parsed, hparsed, hprepared⟩, hbottom⟩ := h.furnished hloaded
    have hlast := (h.diagnosed hloaded).healthy (by simp [hready])
    have hdiagnosed := hd.diagnosed hparsed hprepared hlast
    refine ⟨hrestored.callLevel.trans h.level, ?_, ?_, ?_⟩
    · rcases hrestored.state with hs | hs
      · exact .inl (hs.trans hready)
      · exact .inr (.inl hs)
    · intro _
      obtain ⟨-, -, hmodule, -⟩ := Moment.ended_of_outcome? hout
      rw [hmodule]
      exact hdiagnosed.congr rfl rfl (d.inst.deactivate_state_eq_faulted _) rfl
    · intro _
      refine ⟨⟨bytes, parsed, hparsed, hprepared.of_sameModule hrestored.toSameModule⟩, ?_⟩
      rw [hrestored.stackBottom, hrestored.programStack, hbottom]

theorem seated_of_load {name : String} {opts : LoadOptions} {inst : Instance}
    (h : load name bytes opts = .ok inst) : inst.Seated := by
  intro _
  rw [← (fits_of_load h).toInt_size]
  obtain ⟨parsed, hparsed, -⟩ := fits_of_load h
  unfold load at h
  simp only [hparsed, bind, Except.bind] at h
  cases h
  rfl

theorem seated_of_reload {inst : Instance} {map : Option String}
    (h : inst.reload bytes map = .ok b) : b.Seated := by
  intro _
  rw [← (fits_of_reload h).1.toInt_size]
  obtain ⟨parsed, -, -, rfl⟩ := reload_eq_ok h
  rfl

/-- A call returns the program stack to the upper end of a region that the host left in place. -/
theorem Seated.call (hb : b.Seated) (hresting : b.Resting) (hhost : host.InPlace) {fuel : Nat}
    {out : Outcome Instance σ ω}
    (hcall : Instance.call world host fuel command args b ctx = some out) :
    out.module.Seated := by
  rcases call_cases hcall with ⟨e, -, rfl⟩ | ⟨d, hd, -⟩
  · exact hb
  · have hready := hresting.ready_of_visits hd
    have hrestored := restored_of_call (.inl ⟨hready, hresting.level⟩) hcall
    intro _
    rw [hrestored.programStack, size_of_call hhost hcall]
    exact hb (by simp [hready])

theorem Seated.operate {inst : Instance} (h : inst.Seated) (tracker : Tracker) {op : Operation}
    (hop : op.Within Sandbox.Edit.InPlace) : (inst.operate tracker op).2.1.Seated := by
  rcases inst.operate_cases tracker op with ⟨bytes, map, -, hr⟩ | ⟨-, t, hu⟩ | ⟨hoperated, hsize⟩
  · exact seated_of_reload hr
  · exact fun hs => absurd (unload_of_ok hu).1 hs
  · intro hs
    rw [hoperated.state] at hs
    rw [hsize hop, ← h hs, hoperated.rest]

section Histories

variable {edits : Sandbox.Edit → Prop} {allowed : Instance → Operation → Prop} {a : Instance}

theorem History.resting (h : History edits allowed a b) (ha : a.Resting) : b.Resting := by
  induction h with
  | start => exact ha
  | call world host fuel command args ctx out hb hhost hcall ih => exact ih.call hcall
  | operate op tracker hb hop hwithin ih => exact ih.operate tracker op

/-- The program stack stays where loading put it as long as the region is left in place. -/
theorem History.seated (hedits : ∀ e, edits e → e.InPlace) (h : History edits allowed a b)
    (hresting : a.Resting) (ha : a.Seated) : b.Seated := by
  induction h with
  | start => exact ha
  | call world host fuel command args ctx out hb hhost hcall ih =>
    exact ih.call (hb.resting hresting) (hhost.mono hedits fun _ h => h) hcall
  | operate op tracker hb hop hwithin ih => exact ih.operate tracker (hwithin.mono hedits)

end Histories

/-! ## §4 Histories -/

/-- Only a reload or an unload ends a fault. -/
theorem reloads_or_unload_of_faulted {inst : Instance} {tracker : Tracker} {op : Operation}
    (hs : inst.state = .faulted) (h : (inst.operate tracker op).2.1.state ≠ .faulted) :
    op.Reloads inst ∨ op = .unload := by
  rcases inst.operate_cases tracker op with ⟨bytes, map, rfl, hr⟩ | ⟨hop, -⟩ | ⟨hop, -⟩
  · exact .inl ⟨_, hr⟩
  · exact .inr hop
  · rw [hop.state] at h
    exact absurd hs h

/-- No operation brings an unloaded instance back. -/
theorem operate_of_unloaded {inst : Instance} (hs : inst.state = .unloaded) (tracker : Tracker)
    (op : Operation) : (inst.operate tracker op).2.1.state = .unloaded := by
  rcases inst.operate_cases tracker op with ⟨bytes, map, -, hr⟩ | ⟨-, t, hu⟩ | ⟨hop, -⟩
  · simp [reload, hs] at hr
  · exact (unload_of_ok hu).1
  · exact hop.state.trans hs

/-- A host whose caller has faulted meanwhile finds the fault on record. -/
theorem nestedFault_of_visits (hc : Visits world host command args b ctx c)
    (hf : c.inst.state = .faulted) :
    ∃ f, c.inst.lastFault = some f ∧ Machine.nestedFault c.inst = .fault f := by
  obtain ⟨f, hhalted⟩ := hc.sound hf
  refine ⟨f, hhalted.lastFault, ?_⟩
  simp [Machine.nestedFault, hhalted.lastFault]

/-- The lifecycle of a loaded instance. Whatever its owner does with it, between two operations
no call is counted and the instance is ready, faulted or unloaded; when ready it has no fault on
record, when faulted it has one that is located. Until it is unloaded the program stack has room
down to its bottom, and the jump table is there in the extended format and names instructions
only. The program stack begins at the upper end of the region as long as nobody has put another
region in its place. A faulted instance stays faulted until a reload succeeds or it is unloaded, an
unloaded one stays unloaded, and neither takes a call. In a call, a faulted instance has its fault
on record, so that there always is one to fail with. -/
theorem lifecycle_invariant {name : String} {opts : LoadOptions} {inst : Instance}
    {edits : Sandbox.Edit → Prop} (hload : load name bytes opts = .ok inst)
    (hb : History edits (fun _ _ => True) inst b) :
    b.callLevel = 0 ∧
    (b.state = .ready ∨ b.state = .faulted ∨ b.state = .unloaded) ∧
    (b.state = .ready → b.lastFault = none) ∧
    (b.state = .faulted → ∃ f, b.lastFault = some f ∧ b.Located f) ∧
    (b.state ≠ .unloaded →
      b.stackBottom.toInt = b.programStack.toInt - 0x10000 ∧
      ((∀ e, edits e → e.InPlace) →
        b.programStack.toInt = b.memory.size ∧ b.stackBottom.toInt = b.memory.size - 0x10000) ∧
      (b.jumpTable.isSome = true ↔ b.header.format = .extended) ∧
      ∀ table t, b.jumpTable = some table → table.allows t = true →
        b.program.isInstruction t = true) ∧
    (∀ tracker op,
      (b.state = .faulted → (b.operate tracker op).2.1.state ≠ .faulted →
        op.Reloads b ∨ op = .unload) ∧
      (b.state = .unloaded → (b.operate tracker op).2.1.state = .unloaded)) ∧
    ∀ {I : Interface} {σ ω : Type} (world : World I σ ω) (host : Host I σ) (command : Int32)
      (args : List Int32) (ctx : Context σ ω),
      (b.state = .faulted ∨ b.state = .unloaded → ∀ fuel, ∃ reason,
        call world host fuel command args b ctx = some ⟨.error (.unavailable reason), b, ctx⟩) ∧
      ∀ c, Visits world host command args b ctx c → c.inst.state = .faulted →
        ∃ f, c.inst.lastFault = some f ∧ Machine.nestedFault c.inst = .fault f := by
  have hresting := hb.resting (resting_of_load hload)
  refine ⟨hresting.level, hresting.state, ?_, ?_, ?_, ?_, ?_⟩
  · intro hs
    exact (hresting.diagnosed (by simp [hs])).healthy (by simp [hs])
  · intro hs
    exact (hresting.diagnosed (by simp [hs])).faulted hs
  · intro hs
    have hfurnished := hresting.furnished hs
    refine ⟨hfurnished.bottom, ?_, hfurnished.jumpTable⟩
    intro hedits
    have hstack := hb.seated hedits (resting_of_load hload) (seated_of_load hload) hs
    exact ⟨hstack, by rw [← hstack, hfurnished.bottom]⟩
  · intro tracker op
    exact ⟨reloads_or_unload_of_faulted, fun hs => operate_of_unloaded hs tracker op⟩
  · intro I σ ω world host command args ctx
    refine ⟨?_, fun c hc hf => nestedFault_of_visits hc hf⟩
    intro hs fuel
    rcases hs with hs | hs
    · exact ⟨.faulted, by simp [call, callWith, accept, hs]⟩
    · exact ⟨.unloaded, by simp [call, callWith, accept, hs]⟩

/-- A call stops the instance at instruction 4, a reload without an image is refused, and the
instance rests as a faulted one. -/
theorem lifecycle_invariant_wearing :
    ∃ (inst b : Instance) (f : Fault), load "m" wearing ⟨.compiled, none, true⟩ = .ok inst ∧
      History Sandbox.Edit.InPlace (fun _ _ => True) inst b ∧ b.state = .faulted ∧ b.callLevel = 0 ∧
      b.lastFault = some f ∧ f.instruction = 4 ∧ b.Located f ∧ b.memory.size = 64 ∧
      b.programStack.toInt = 64 ∧ b.stackBottom.toInt = 64 - 0x10000 := by
  let ctx : Context Unit Unit := ⟨(), .empty, ()⟩
  let loaded := (load "m" wearing ⟨.compiled, none, true⟩).toOption
  let refused (out : Outcome Instance Unit Unit) : Instance :=
    (out.module.operate out.context.tracker (.reload [] none)).2.1
  have hload : loaded.isSome = true := by decide +kernel
  have hcourse : (loaded.bind fun i => (call World.empty silent 10 0 [] i ctx).map fun out =>
      ((refused out).state, (refused out).memory.size,
        (refused out).lastFault.map (·.instruction))) = some (.faulted, 64, some 4) := by
    decide +kernel
  obtain ⟨inst, hinst⟩ := Option.isSome_iff_exists.1 hload
  rw [hinst, Option.bind_some] at hcourse
  obtain ⟨out, hcall, hfacts⟩ := Option.map_eq_some_iff.1 hcourse
  simp only [Prod.mk.injEq] at hfacts
  obtain ⟨hstate, hsize, hnumber⟩ := hfacts
  have hb : History Sandbox.Edit.InPlace (fun _ _ => True) inst (refused out) :=
    .operate _ _ (.call World.empty silent 10 0 [] ctx out .start (fun _ _ => trivial) hcall)
      trivial trivial
  obtain ⟨hlevel, -, -, hfault, hloaded, -⟩ :=
    lifecycle_invariant (eq_ok_of_toOption hinst) hb
  obtain ⟨f, hf, hlocated⟩ := hfault hstate
  obtain ⟨-, hseated, -⟩ := hloaded (by simp [hstate])
  obtain ⟨hstack, hbottom⟩ := hseated fun _ he => he
  rw [hsize] at hstack hbottom
  refine ⟨inst, refused out, f, eq_ok_of_toOption hinst, hb, hstate, hlevel, hf, ?_, hlocated,
    hsize, hstack, hbottom⟩
  rw [hf] at hnumber
  exact Option.some.inj hnumber

/-- A host that moves the module to a larger region takes the upper end of the region away from the
program stack: after the call the module is ready, and the stack begins where it did before. -/
theorem programStack_of_moved :
    ∃ inst b : Instance, load "m" obliging ⟨.compiled, none, false⟩ = .ok inst ∧
      History (fun _ => True) (fun _ _ => True) inst b ∧ b.state = .ready ∧
      b.programStack.toInt = 64 ∧ b.stackBottom.toInt = 64 - 0x10000 ∧ b.memory.size = 128 := by
  let loaded := (load "m" obliging ⟨.compiled, none, false⟩).toOption
  have hfacts : (loaded.bind fun i =>
      (call World.empty moving 20 0 [] i ⟨(), .empty, ()⟩).map fun out =>
        decide (out.module.state = .ready ∧ out.module.programStack.toInt = 64 ∧
          out.module.stackBottom.toInt = 64 - 0x10000 ∧ out.module.memory.size = 128)) =
      some true := by
    decide +kernel
  obtain ⟨inst, hinst, hfacts⟩ := Option.bind_eq_some_iff.1 hfacts
  obtain ⟨out, hout, hfacts⟩ := Option.map_eq_some_iff.1 hfacts
  exact ⟨inst, out.module, eq_ok_of_toOption hinst,
    .call World.empty moving 20 0 [] _ out .start (Host.within_true moving) hout,
    of_decide_eq_true hfacts⟩

end Instance

end SandboxVm
