/-
SandboxVm.Proofs.Containment — nothing outside its region is within a module's reach.

The region is made when a module is loaded. From then on, whatever is called and whatever
the host does, no access to it or to the operand stack needs a bound that it does not have. The
accesses are those of `Checked`, which fail outside the arrays. The region keeps its size as long
as hosts use it by its own methods; one that puts another region in its place makes that the
region of the module.

  §1  images: the data of an accepted image fits the region that its header asks for;
  §2  histories: `History.kept`, the size from load to unload;
  §3  operand stacks: `next_shallow`, no stack is ever too deep, also while a call waits;
  §4  shared services: the region accepts each of their edits;
  §5  `sandbox_containment`, which puts these together for every moment of every call.
-/
import SandboxVm.Proofs.Checked
import SandboxVm.SharedCalls

namespace SandboxVm

/-! ## §1 Images -/

namespace Sandbox

theorem roundUp_le_maxDataSize {n : Nat} (h : n ≤ Header.maxDataSize) :
    roundUp n ≤ Header.maxDataSize := by
  have hlog : (max 4 n - 1).log2 < 30 := by
    simp only [Header.maxDataSize] at h
    exact (Nat.log2_lt (by omega)).2 (by omega)
  rw [roundUp, Nat.one_shiftLeft]
  exact Nat.pow_le_pow_right (by omega) hlog

@[simp]
theorem size_ofData (size : UInt32) (data : Bytes) : (ofData size data).size = roundUp size.toNat :=
  (Region.size_overwrite ..).trans (Region.size_zeros _)

end Sandbox

theorem Header.dataTotal_le_of_parse {bytes : Bytes} {h : Header}
    (hp : Header.parse bytes = .ok h) : h.dataTotal ≤ Header.maxDataSize := by
  unfold Header.parse at hp
  -- the size is the last of five checks
  iterate 4
    split at hp
    · cases hp
  split at hp
  · cases hp
  · rename_i hle
    cases hp
    omega

/-- The data of an accepted image is no longer than its header says. -/
theorem Image.length_data_le_of_parse {bytes : Bytes} {image : Image}
    (hp : Image.parse bytes = .ok image) :
    image.data.length ≤ image.header.dataTotal ∧ image.header.dataTotal ≤ Header.maxDataSize := by
  unfold Image.parse at hp
  cases hh : Header.parse bytes with
  | error e => simp [hh, bind, Except.bind] at hp
  | ok header =>
    simp only [hh, bind, Except.bind] at hp
    split at hp
    · rename_i code data targets hcode hdata htargets
      cases hp
      refine ⟨?_, Header.dataTotal_le_of_parse hh⟩
      unfold Bytes.slice? at hdata
      split at hdata
      · cases hdata
        simp only [List.length_take, Header.dataTotal]
        omega
      · cases hdata
    · cases hp

namespace Instance

open Checked (Memory)

/-- An image is put into a region of zeros, which has room for its data. -/
def Fits (bytes : Bytes) (inst : Instance) : Prop :=
  ∃ parsed, parse bytes = .ok parsed ∧
    inst.memory.size = Sandbox.roundUp parsed.image.header.dataTotal ∧
    (Memory.of (Sandbox.zeroed (dataSize parsed.image.header))).put? 0 parsed.image.data =
      some (.of inst.memory)

/-- The image of whatever is parsed. -/
theorem image_of_parse {bytes : Bytes} {parsed : Parsed} (hp : parse bytes = .ok parsed) :
    Image.parse bytes = .ok parsed.image := by
  unfold parse at hp
  cases hi : Image.parse bytes with
  | error e => simp [hi, bind, Except.bind] at hp
  | ok image =>
    cases hd : Program.decode image.code image.header.instructionCount.toNatClampNeg with
    | error e => simp [hi, hd, bind, Except.bind] at hp
    | ok program =>
      simp only [hi, hd, bind, Except.bind] at hp
      split at hp
      · cases hp
        rfl
      · split at hp
        · cases hp
        · cases hp
          rfl

theorem fits_of_parse {bytes : Bytes} {parsed : Parsed} {inst : Instance}
    (hp : parse bytes = .ok parsed)
    (hmem : inst.memory = Sandbox.ofData (dataSize parsed.image.header) parsed.image.data) :
    inst.Fits bytes := by
  obtain ⟨hdata, htotal⟩ := Image.length_data_le_of_parse (image_of_parse hp)
  have hup := Sandbox.le_roundUp parsed.image.header.dataTotal
  have hle := Sandbox.roundUp_le_maxDataSize htotal
  have hsize : (dataSize parsed.image.header).toNat =
      Sandbox.roundUp parsed.image.header.dataTotal :=
    UInt32.toNat_ofNat_of_lt' (Nat.lt_of_le_of_lt hle (by decide))
  have hround : Sandbox.roundUp (dataSize parsed.image.header).toNat =
      Sandbox.roundUp parsed.image.header.dataTotal := by
    rw [hsize]
    exact Sandbox.roundUp_eq_self (Sandbox.isPowerOfTwo_roundUp _) (by omega)
  refine ⟨parsed, hp, ?_, ?_⟩
  · rw [hmem, Sandbox.size_ofData, hround]
  · have hroom : 0 + parsed.image.data.length ≤
        (Memory.of (Sandbox.zeroed (dataSize parsed.image.header))).bytes.size := by
      have hzeroed := Sandbox.size_zeroed (dataSize parsed.image.header)
      rw [hround] at hzeroed
      have hbytes : (Memory.of (Sandbox.zeroed (dataSize parsed.image.header))).bytes.size = _ :=
        hzeroed
      omega
    rw [Memory.put?, if_pos hroom, hmem]
    rfl

theorem fits_of_load {name : String} {bytes : Bytes} {opts : LoadOptions} {inst : Instance}
    (h : load name bytes opts = .ok inst) : inst.Fits bytes := by
  unfold load at h
  cases hp : parse bytes with
  | error e => simp [hp, bind, Except.bind] at h
  | ok parsed =>
    simp only [hp, bind, Except.bind] at h
    cases h
    exact fits_of_parse hp rfl

/-- A reload puts an image of the same size in place. -/
theorem fits_of_reload {inst b : Instance} {bytes : Bytes} {map : Option String}
    (h : inst.reload bytes map = .ok b) : b.Fits bytes ∧ b.memory.size = inst.memory.size := by
  obtain ⟨parsed, hp, hcheck, rfl⟩ := reload_eq_ok h
  have hsize : (dataSize parsed.image.header).toNat = inst.memory.size := by
    unfold checkReload at hcheck
    split at hcheck
    · cases hcheck
    · rename_i hsize
      exact Decidable.not_not.1 hsize
  have hmem : (inst.replace parsed map).memory =
      Sandbox.ofData (dataSize parsed.image.header) parsed.image.data :=
    inst.memory.reset_eq_ofData hsize parsed.image.data
  refine ⟨fits_of_parse hp hmem, ?_⟩
  rw [hmem, Sandbox.size_ofData, hsize]
  exact Sandbox.roundUp_eq_self inst.memory.power inst.memory.four_le

/-! ## §2 Histories -/

/-- The region has a size until the module is unloaded. -/
def Kept (n : Nat) (inst : Instance) : Prop := inst.state = .unloaded ∨ inst.memory.size = n

/-- A call returns the region with the size that it had. -/
theorem Kept.call {I : Interface} {σ ω : Type} {b : Instance} {n : Nat} (hb : b.Kept n)
    {world : World I σ ω} {host : Host I σ} (hhost : host.InPlace) {fuel : Nat} {command : Int32}
    {args : List Int32} {ctx : Context σ ω} {out : Outcome Instance σ ω}
    (h : Instance.call world host fuel command args b ctx = some out) : out.module.Kept n := by
  rcases hb with hs | hsize
  · have hrefused : b.accept command args = .error (.unavailable .unloaded) := by
      simp [accept, hs]
    rcases call_cases h with ⟨e, -, rfl⟩ | ⟨d, ⟨packed, ha, -⟩, -⟩
    · exact .inl hs
    · cases ha.symm.trans hrefused
  · exact .inr ((size_of_call hhost h).trans hsize)

/-- An operation keeps the size of the region or releases the region. -/
theorem Kept.operate {b : Instance} {n : Nat} (hb : b.Kept n) (tracker : Tracker)
    {op : Operation} (hop : op.Within Sandbox.Edit.InPlace) :
    (b.operate tracker op).2.1.Kept n := by
  rcases b.operate_cases tracker op with ⟨bytes, map, -, hr⟩ | ⟨-, t, hu⟩ | ⟨hoperated, hsize⟩
  · rcases hb with hs | hsize
    · simp [reload, hs] at hr
    · exact .inr ((fits_of_reload hr).2.trans hsize)
  · exact .inl (unload_of_ok hu).1
  · unfold Kept
    rw [hoperated.state, hsize hop]
    exact hb

/-- The size of a region outlasts every history in which no other one is put in its place. -/
theorem History.kept {edits : Sandbox.Edit → Prop} {allowed : Instance → Operation → Prop}
    {a b : Instance} (hedits : ∀ e, edits e → e.InPlace) (h : History edits allowed a b) :
    b.Kept a.memory.size := by
  induction h with
  | start => exact .inr rfl
  | call world host fuel command args ctx out hb hhost hcall ih =>
    exact ih.call (hhost.mono hedits fun _ h => h) hcall
  | operate op tracker hb hop hwithin ih => exact ih.operate tracker (hwithin.mono hedits)

end Instance

namespace Moment

variable {I : Interface} {σ ω : Type} {world : World I σ ω} {host : Host I σ}
  {c d : Moment I σ ω}

/-- A module is not unloaded while it is called. -/
theorem next_loaded (h : c.next world host = some d) (hc : c.inst.state ≠ .unloaded) :
    d.inst.state ≠ .unloaded := by
  cases follows_of_next h with
  | execute m => exact fun hd => hc (m.step_executed.state ▸ hd)
  | finish m stack callers ctx =>
    obtain ⟨w, hw⟩ | hw := m.finish_cases ctx
    · simp only [inst, Phase.inst, hw]
      exact hc
    · simp [inst, Phase.inst, hw, Machine.fail, Instance.recordFault]
  | fail m cause => simp [inst, Phase.inst, Machine.fail, Instance.recordFault]
  | system m saved => exact hc
  | reply s reply w i => exact fun hd => hc ((answered_executed w i reply).state ▸ hd)
  | view k w i => exact hc
  | edit e k w i => exact fun hd => hc ((i.rewritten_edit e).state ▸ hd)
  | refuse s command args k e w i => exact hc
  | nest s command args k packed w i =>
    rw [state_start]
    decide
  | ask s q k a w i => exact hc
  | «return» reply i caller stack =>
    simp only [inst, Phase.inst, Instance.deactivate]
    split
    · decide
    · exact hc

/-- Along a call the region is there. -/
theorem region?_of_visits {command : Int32} {args : List Int32} {b : Instance}
    {ctx : Context σ ω} (hc : Instance.Visits world host command args b ctx c) :
    c.inst.region? = some c.inst.memory := by
  have hloaded : c.inst.state ≠ .unloaded := by
    refine hc.preserves ?_ next_loaded
    intro packed _
    rw [state_start]
    decide
  exact if_neg hloaded

end Moment

/-! ## §3 Operand stacks -/

/-- The operand stack of the machine that made a step. -/
def Step.stack : Step → OperandStack
  | .next m => m.stack
  | .done m => m.stack
  | .system m _ => m.stack
  | .fault m _ => m.stack

namespace Checked

theorem Machine.Represents.depth_le {r : Machine} {m : SandboxVm.Machine} (h : r.Represents m) :
    m.stack.depth ≤ OperandStack.limit := by
  obtain ⟨s, t, -, hst, rfl⟩ := h
  exact hst.depth_le

theorem Machine.exists_represents {m : SandboxVm.Machine}
    (h : m.stack.depth ≤ OperandStack.limit) : ∃ r : Machine, r.Represents m := by
  obtain ⟨stack, hstack⟩ := Stack.exists_represents h
  exact ⟨⟨m.inst, .of m.inst.memory, stack, m.pc, m.cur, m.ps⟩, m.inst.memory, m.stack, rfl,
    hstack, rfl⟩

/-- What can be done on arrays does not exceed them. -/
theorem Does.depth_le {x : Option Step} {s : SandboxVm.Step} (h : Does x s) :
    s.stack.depth ≤ OperandStack.limit := by
  obtain ⟨t, -, ht⟩ := h
  cases t with
  | next r =>
    cases s with
    | next m => exact Machine.Represents.depth_le ht
    | _ => cases ht
  | done r =>
    cases s with
    | done m => exact Machine.Represents.depth_le ht
    | _ => cases ht
  | system r saved =>
    cases s with
    | system m saved' => exact Machine.Represents.depth_le ht.1
    | _ => cases ht
  | fault r cause =>
    cases s with
    | fault m cause' =>
      obtain ⟨⟨s, -, -, -, hdepth⟩, -⟩ := ht
      exact hdepth
    | _ => cases ht

end Checked

namespace Machine

variable {m : Machine}

theorem step_depth_le (h : m.stack.depth ≤ OperandStack.limit) :
    m.step.stack.depth ≤ OperandStack.limit := by
  obtain ⟨r, hr⟩ := Checked.Machine.exists_represents h
  exact hr.step?.depth_le

theorem begin_depth_le (inst : Instance) (args : CallArgs) :
    (begin inst args).stack.depth ≤ OperandStack.limit := by
  obtain ⟨stack, hstack⟩ := Checked.Stack.exists_represents (t := .empty) (Nat.zero_le _)
  exact (Checked.Machine.begin?_represents inst hstack args).depth_le

theorem resume_depth_le (h : m.stack.depth ≤ OperandStack.limit) (saved : UInt32) (v : Int32) :
    (m.resume saved v).stack.depth ≤ OperandStack.limit := by
  obtain ⟨r, hr⟩ := Checked.Machine.exists_represents h
  exact (hr.resume? saved v).depth_le

end Machine

/-- The operand stack of the innermost call, unless that has ended. -/
def Phase.stack? {I : Interface} {σ : Type} : Phase I σ → Option OperandStack
  | .step s => some s.stack
  | .service _ w _ => some w.stack
  | .ended _ _ => none

namespace Moment

variable {I : Interface} {σ ω : Type} {world : World I σ ω} {host : Host I σ}
  {c d : Moment I σ ω}

/-- No operand stack is too deep, neither that of the innermost call nor one that waits. -/
structure Shallow (c : Moment I σ ω) : Prop where
  innermost : ∀ t, c.phase.stack? = some t → t.depth ≤ OperandStack.limit
  waiting : ∀ caller ∈ c.callers, caller.waiting.stack.depth ≤ OperandStack.limit

theorem shallow_of_step {s : Step} {stack : Int32} {callers : List (Caller I σ)}
    {ctx : Context σ ω} (hs : s.stack.depth ≤ OperandStack.limit)
    (hcallers : ∀ caller ∈ callers, caller.waiting.stack.depth ≤ OperandStack.limit) :
    Shallow (⟨.step s, stack, callers, ctx⟩ : Moment I σ ω) where
  innermost := by
    rintro t ⟨⟩
    exact hs
  waiting := hcallers

theorem answered_shallow {w : Waiting} (h : w.stack.depth ≤ OperandStack.limit) (inst : Instance)
    (reply : Reply) (t : OperandStack)
    (ht : (answered w inst reply : Phase I σ).stack? = some t) : t.depth ≤ OperandStack.limit := by
  cases reply with
  | error e => cases ht
  | ok v =>
    simp only [answered] at ht
    split at ht
    · cases ht
    · cases ht
      exact Machine.resume_depth_le (m := w.machine inst) h w.saved v

/-- From one moment to the next, operand stacks stay within the limit. -/
theorem next_shallow (h : c.next world host = some d) (hc : c.Shallow) : d.Shallow := by
  obtain ⟨hin, hwait⟩ := hc
  cases follows_of_next h with
  | execute m => exact shallow_of_step (Machine.step_depth_le (hin _ rfl)) hwait
  | finish m => exact ⟨nofun, hwait⟩
  | fail m cause => exact ⟨nofun, hwait⟩
  | system m saved => exact ⟨hin, hwait⟩
  | reply s reply w i => exact ⟨answered_shallow (hin _ rfl) i reply, hwait⟩
  | view k w i => exact ⟨hin, hwait⟩
  | edit e k w i => exact ⟨hin, hwait⟩
  | refuse s command args k e w i => exact ⟨hin, hwait⟩
  | nest s command args k packed w i =>
    refine shallow_of_step (Machine.begin_depth_le _ packed) ?_
    intro caller hcaller
    rcases List.mem_cons.1 hcaller with rfl | hcaller
    · exact hin _ rfl
    · exact hwait caller hcaller
  | ask s q k a w i => exact ⟨hin, hwait⟩
  | «return» reply i caller =>
    refine ⟨?_, fun x hx => hwait x (List.mem_cons_of_mem _ hx)⟩
    rintro t ⟨⟩
    exact hwait caller List.mem_cons_self

/-- Along a call, operand stacks stay within the limit. -/
theorem shallow_of_visits {command : Int32} {args : List Int32} {inst : Instance}
    {ctx : Context σ ω} (hc : Instance.Visits world host command args inst ctx c) : c.Shallow :=
  hc.preserves (fun packed _ => shallow_of_step (Machine.begin_depth_le _ packed) nofun)
    next_shallow

end Moment

/-! ## §4 Shared services -/

namespace Sandbox

/-- A region accepts each of several edits, as the edits before leave it, and none of them puts
another region in its place. -/
def AcceptsAll (s : Sandbox) : List Edit → Prop
  | [] => True
  | e :: es => (e.InPlace ∧ s.accepts e = true) ∧ (s.edit e).AcceptsAll es

theorem AcceptsAll.inPlace {s : Sandbox} {es : List Edit} (h : s.AcceptsAll es) :
    ∀ e ∈ es, e.InPlace := by
  induction es generalizing s with
  | nil => nofun
  | cons e es ih =>
    intro x hx
    rcases List.mem_cons.1 hx with rfl | hx
    · exact h.1.1
    · exact ih h.2 x hx

/-- Which ranges lie inside a region depends on its size only. -/
theorem range?_congr {s t : Sandbox} (h : s.size = t.size) (ptr : UInt32) (n : Nat) :
    s.range? ptr n = t.range? ptr n := by
  simp only [range?, resolve?, wrap, mask_congr h, h]

/-- What lies inside a region still does when it is shorter. -/
theorem isSome_range?_of_le {s : Sandbox} {ptr : UInt32} {m n : Nat} (hle : m ≤ n)
    (h : (s.range? ptr n).isSome = true) : (s.range? ptr m).isSome = true := by
  unfold range? at h ⊢
  cases hr : s.resolve? ptr with
  | none => simp [hr] at h
  | some i =>
    simp only [hr] at h ⊢
    split at h
    · rw [if_pos (by omega)]
      rfl
    · cases h

theorem acceptsAll_of_forall {es : List Edit}
    (h : ∀ e ∈ es, e.InPlace ∧ ∀ s : Sandbox, s.accepts e = true) (s : Sandbox) :
    s.AcceptsAll es := by
  induction es generalizing s with
  | nil => trivial
  | cons e es ih =>
    obtain ⟨hplace, haccepts⟩ := h e List.mem_cons_self
    exact ⟨⟨hplace, haccepts s⟩, ih (fun x hx => h x (List.mem_cons_of_mem _ hx)) (s.edit e)⟩

end Sandbox

namespace SharedCalls

theorem fill_accepted (s : Sandbox) (dest : UInt32) (value : UInt8) (count : Int32) :
    s.AcceptsAll (fill s dest value count).1 := by
  cases hr : s.range? dest count.toNatClampNeg with
  | none =>
    simp only [fill, hr]
    trivial
  | some i =>
    simp only [fill, hr]
    exact ⟨⟨trivial, by simp [Sandbox.accepts, hr]⟩, trivial⟩

theorem copy_accepted (s : Sandbox) (dest src : UInt32) (count : Int32) :
    s.AcceptsAll (copy s dest src count).1 := by
  unfold copy
  split
  · rename_i h
    exact ⟨⟨trivial, h.2.2.2⟩, trivial⟩
  · trivial

theorem copyString_accepted (s : Sandbox) (dest src : UInt32) (count : Int32) :
    s.AcceptsAll (copyString s dest src count).1 := by
  cases hc : s.cString? src with
  | none =>
    simp only [copyString, hc]
    trivial
  | some text =>
    cases hr : s.range? dest count.toNatClampNeg with
    | none =>
      simp only [copyString, hc, hr]
      trivial
    | some i =>
      simp only [copyString, hc, hr]
      have hsome : (s.range? dest count.toNatClampNeg).isSome = true := by rw [hr]; rfl
      refine ⟨⟨trivial, hsome⟩, ⟨trivial, ?_⟩, trivial⟩
      -- the text is cut to the length of what was filled
      have hcut : (text.take count.toNatClampNeg).length ≤ count.toNatClampNeg := by
        rw [List.length_take]
        exact Nat.min_le_left _ _
      have hsize : (s.edit (.fill dest count.toNatClampNeg 0)).size = s.size := s.size_edit trivial
      have hin := Sandbox.isSome_range?_of_le hcut hsome
      rwa [← Sandbox.range?_congr hsize] at hin

/-- Components are stored, and a store is never refused. -/
theorem accepts_of_mem_write {v : Vec3} {ptr : UInt32} {e : Sandbox.Edit} (he : e ∈ v.write ptr) :
    e.InPlace ∧ ∀ s : Sandbox, s.accepts e = true := by
  unfold Vec3.write at he
  split at he
  · cases he
  · simp only [List.mem_cons, List.not_mem_nil, or_false] at he
    rcases he with rfl | rfl | rfl <;> exact ⟨trivial, fun _ => rfl⟩

theorem matrixMultiply_accepted (s : Sandbox) (a b out : UInt32) :
    s.AcceptsAll (matrixMultiply s a b out).1 := by
  unfold matrixMultiply
  split
  · trivial
  · refine Sandbox.acceptsAll_of_forall ?_ s
    intro e he
    simp only [List.mem_append] at he
    rcases he with (he | he) | he <;> exact accepts_of_mem_write he

theorem angleVectors_accepted (s : Sandbox) (angles forward right up : UInt32) :
    s.AcceptsAll (angleVectors s angles forward right up).1 := by
  unfold angleVectors
  split
  · trivial
  · refine Sandbox.acceptsAll_of_forall ?_ s
    intro e he
    simp only [List.mem_append] at he
    rcases he with (he | he) | he <;> exact accepts_of_mem_write he

theorem perpendicular_accepted (s : Sandbox) (dst src : UInt32) :
    s.AcceptsAll (perpendicular s dst src).1 := by
  unfold perpendicular
  split
  · trivial
  · exact Sandbox.acceptsAll_of_forall (fun e he => accepts_of_mem_write he) s

/-- The calling module accepts every edit that a shared service makes. -/
theorem effect?_accepted {v : View} {s : Sandbox} (hv : v.memory = some s) {args : SyscallArgs}
    {effect : Effect} (h : effect? v args = some effect) : s.AcceptsAll effect.1 := by
  have hmem {f : Sandbox → Effect} (hf : s.AcceptsAll (f s).1) :
      s.AcceptsAll (onMemory v f).1 := by
    simpa [onMemory, hv] using hf
  unfold effect? at h
  split at h <;> cases h
  · exact hmem (fill_accepted s _ _ _)
  · exact hmem (copy_accepted s _ _ _)
  · exact hmem (copyString_accepted s _ _ _)
  · trivial
  · trivial
  · trivial
  · trivial
  · exact hmem (matrixMultiply_accepted s _ _ _)
  · exact hmem (angleVectors_accepted s _ _ _ _)
  · exact hmem (perpendicular_accepted s _ _)
  · trivial
  · trivial
  · trivial
  · trivial

/-- No shared service puts another region in the place of the one that there is. -/
theorem inPlace_of_effect? {v : View} {args : SyscallArgs} {effect : Effect}
    (h : effect? v args = some effect) : ∀ e ∈ effect.1, e.InPlace := by
  cases hv : v.memory with
  | some s => exact (effect?_accepted hv h).inPlace
  | none =>
    have hnone (f : Sandbox → Effect) : (onMemory v f).1 = [] := by
      rw [onMemory, hv]
      rfl
    unfold effect? at h
    split at h <;> cases h <;> simp [hnone, float, returning]

theorem answer_within {I : Interface} {σ : Type} {asks : I.Request → Prop} {s : σ}
    {args : SyscallArgs} {other : Service I σ} (h : other.Within Sandbox.Edit.InPlace asks) :
    (answer s args other).Within Sandbox.Edit.InPlace asks := by
  intro v
  dsimp only
  split
  · rename_i heffect
    exact Service.within_edits (inPlace_of_effect? heffect) trivial
  · exact h

end SharedCalls

/-! ## §5 Containment -/

open Checked (Memory Does)

/-- A region of `n` bytes. Addresses of all kinds lead into it, and whatever a module or a host
does with it can be done on the array of its bytes. -/
structure Sandbox.Contained (n : Nat) (s : Sandbox) : Prop where
  size : s.bytes.size = n
  mask : s.mask.toNat + 1 = n
  power : n.isPowerOfTwo
  four_le : 4 ≤ n
  index : ∀ w addr, (Memory.of s).index w addr + w.bytes ≤ n
  load : ∀ w addr, (Memory.of s).load? w addr = some (s.load w addr)
  edit : ∀ e, (Memory.of s).edit? e = some (.of (s.edit e))
  slice : ∀ ptr len, (Memory.of s).slice? ptr len = some (s.slice? ptr len)
  cString : ∀ ptr, (Memory.of s).cString? ptr = some (s.cString? ptr)

theorem Sandbox.contained (s : Sandbox) : s.Contained s.size where
  size := rfl
  mask := s.size_eq.symm
  power := s.power
  four_le := s.four_le
  index w addr := by
    rw [Memory.index_of]
    exact s.cell_add_bytes_le w addr
  load := Memory.load?_of s
  edit := Memory.edit?_of s
  slice := Memory.slice?_of s
  cString := Memory.cString?_of s

/-- The operands fit the slots, and no slot is numbered beyond the mask. -/
structure OperandStack.Contained (t : OperandStack) : Prop where
  depth_le : t.depth ≤ OperandStack.limit
  slots : ∃ s : Checked.Stack, s.Represents t
  top : ∀ i < t.depth, i &&& Checked.Stack.mask = i
  next : t.hasRoom = true → t.depth &&& Checked.Stack.mask = t.depth

theorem OperandStack.contained {t : OperandStack} (h : t.depth ≤ OperandStack.limit) :
    t.Contained where
  depth_le := h
  slots := Checked.Stack.exists_represents h
  top _ hi := Checked.Stack.and_mask (Nat.lt_of_lt_of_le hi h)
  next hroom := Checked.Stack.and_mask (hasRoom_iff.1 hroom)

/-- Arrays can stand for a machine, and all that do have a property. -/
def Machine.OnArrays (m : Machine) (P : Checked.Machine → Prop) : Prop :=
  (∃ r : Checked.Machine, r.Represents m) ∧ ∀ r : Checked.Machine, r.Represents m → P r

theorem Machine.onArrays {m : Machine} {P : Checked.Machine → Prop}
    (hm : m.stack.depth ≤ OperandStack.limit)
    (hP : ∀ r : Checked.Machine, r.Represents m → P r) : m.OnArrays P :=
  ⟨Checked.Machine.exists_represents hm, hP⟩

/-- The entry frame of a call can be built on arrays. -/
def Instance.Enterable (inst : Instance) : Prop :=
  ∀ (args : CallArgs) (stack : Checked.Stack), stack.Represents .empty →
    Does (Checked.Machine.begin? inst (.of inst.memory) stack args) (Machine.begin inst args)

theorem Instance.enterable (inst : Instance) : inst.Enterable :=
  fun args _ hstack => Checked.Machine.begin?_represents inst hstack args

namespace Moment

variable {I : Interface} {σ ω : Type} {world : World I σ ω} {host : Host I σ}
  {c : Moment I σ ω}

/-- What happens next can be done on arrays: the checks made there do not fail, and the result
is the same. -/
def Unfailing (c : Moment I σ ω) : Prop :=
  match c.phase with
  | .step (.next m) => m.OnArrays fun r => Does r.step? m.step
  | .step (.done m) => m.OnArrays fun r => ∃ w?, r.finish? = some w? ∧
      m.finish c.context =
        w?.elim (m.fail .opStackCorrupted c.context) fun w => ⟨.ok w.toInt32, m.inst, c.context⟩
  | .step (.system m _) =>
    Checked.Machine.syscallArgs? (.of m.inst.memory) m.ps =
      some (Machine.syscallArgs m.inst.memory m.ps)
  | .service (.done _ (.ok v)) w inst =>
    (w.machine inst).OnArrays fun r =>
      Does (r.resume? w.saved v) ((w.machine inst).resume w.saved v)
  | .service (.edit e _) _ inst =>
    (Memory.of inst.memory).edit? e = some (.of (inst.edit e).memory)
  | .service (.enter ..) _ inst => inst.activate.Enterable
  | _ => True

/-- A module is contained in a region of `n` bytes and in its operand stacks. -/
structure Contained (n : Nat) (c : Moment I σ ω) : Prop where
  region : c.inst.region? = some c.inst.memory
  memory : c.inst.memory.Contained n
  innermost : ∀ t, c.phase.stack? = some t → t.Contained
  waiting : ∀ caller ∈ c.callers, caller.waiting.stack.Contained
  unfailing : c.Unfailing
  shared : ∀ args effect, SharedCalls.effect? (Hosted.view c.inst) args = some effect →
    c.inst.memory.AcceptsAll effect.1

theorem unfailing_of_shallow (hc : c.Shallow) (hregion : c.inst.region? = some c.inst.memory) :
    c.Unfailing := by
  obtain ⟨hin, -⟩ := hc
  obtain ⟨phase, stack, callers, ctx⟩ := c
  cases phase with
  | step s =>
    cases s with
    | next m => exact Machine.onArrays (hin _ rfl) fun r hr => hr.step?
    | done m => exact Machine.onArrays (hin _ rfl) fun r hr => hr.finish? ctx
    | fault m cause => trivial
    | system m saved => exact Checked.Machine.syscallArgs?_of m.inst.memory m.ps
  | service sv w i =>
    cases sv with
    | done s reply =>
      cases reply with
      | error e => trivial
      | ok v =>
        exact Machine.onArrays (m := w.machine i) (hin _ rfl) fun r hr => hr.resume? w.saved v
    | view k => trivial
    | edit e k =>
      have hloaded : i.state ≠ .unloaded := by
        intro hs
        simp [inst, Phase.inst, Instance.region?, hs] at hregion
      simp only [Unfailing, Instance.edit, if_neg hloaded]
      exact Memory.edit?_of i.memory e
    | enter s command args k => exact i.activate.enterable
    | ask s q k => trivial
  | ended reply i => trivial

/-- A module is contained at every moment of a call, in the region that it has then. -/
theorem contained_of_visits {command : Int32} {args : List Int32} {b : Instance}
    {ctx : Context σ ω} (hc : Instance.Visits world host command args b ctx c) :
    c.Contained c.inst.memory.size := by
  have hregion := region?_of_visits hc
  have hshallow := shallow_of_visits hc
  refine ⟨hregion, c.inst.memory.contained, ?_, ?_, unfailing_of_shallow hshallow hregion, ?_⟩
  · exact fun t ht => OperandStack.contained (hshallow.innermost t ht)
  · exact fun caller hcaller => OperandStack.contained (hshallow.waiting caller hcaller)
  · exact fun args effect heffect => SharedCalls.effect?_accepted hregion heffect

end Moment

namespace Instance

/-- A module is contained from load to unload. Its image fits the region, and so does every
image that takes its place. At every moment of every call, at any depth, addresses lead into the
region that the module has then, operands fit their slots without the mask, and what happens next
can be done on plain arrays without a failing check. The region accepts whatever the shared
services do. Hosts that use a region by its own methods keep its size: whatever was called and done
before, it is the one that the region was given at first, a power of two, with the mask that goes
with it. -/
theorem sandbox_containment {name : String} {bytes : Bytes} {opts : LoadOptions}
    {inst b : Instance} {edits : Sandbox.Edit → Prop} (hload : load name bytes opts = .ok inst)
    (hb : History edits (fun _ _ => True) inst b) :
    inst.Fits bytes ∧
    (∀ bytes' map b', b.reload bytes' map = .ok b' →
      b'.Fits bytes' ∧ b'.memory.size = b.memory.size) ∧
    (b.state ≠ .unloaded → b.memory.Contained b.memory.size ∧ b.activate.Enterable) ∧
    (∀ {I : Interface} {σ ω : Type} (world : World I σ ω) (host : Host I σ) (command : Int32)
      (args : List Int32) (ctx : Context σ ω) (c : Moment I σ ω),
      Visits world host command args b ctx c → c.Contained c.inst.memory.size) ∧
    ((∀ e, edits e → e.InPlace) →
      (∀ bytes' map b', b.reload bytes' map = .ok b' → b'.memory.size = inst.memory.size) ∧
      (b.state ≠ .unloaded → b.memory.Contained inst.memory.size) ∧
      ∀ {I : Interface} {σ ω : Type} (world : World I σ ω) (host : Host I σ) (command : Int32)
        (args : List Int32) (ctx : Context σ ω) (c : Moment I σ ω), host.InPlace →
        Visits world host command args b ctx c → c.Contained inst.memory.size) := by
  refine ⟨fits_of_load hload, fun bytes' map b' => fits_of_reload,
    fun _ => ⟨b.memory.contained, b.activate.enterable⟩,
    fun world host command args ctx c hc => Moment.contained_of_visits hc, ?_⟩
  intro hedits
  have hsize (hs : b.state ≠ .unloaded) : b.memory.size = inst.memory.size :=
    (hb.kept hedits).resolve_left hs
  refine ⟨?_, ?_, ?_⟩
  · intro bytes' map b' hreload
    refine (fits_of_reload hreload).2.trans (hsize ?_)
    intro hs
    simp [reload, hs] at hreload
  · intro hs
    rw [← hsize hs]
    exact b.memory.contained
  · intro I σ ω world host command args ctx c hhost hc
    have hs : b.state ≠ .unloaded := by
      intro hs
      obtain ⟨packed, ha, -⟩ := hc
      simp [accept, hs] at ha
    rw [← hsize hs, ← hc.size hhost]
    exact Moment.contained_of_visits hc

/-- The image of a module that stores a word behind the end of its region and then asks the
host to fill memory. -/
def straying : Bytes :=
  let code : Code :=
    { bytes := [⟨.enter, 8⟩, ⟨.const, -1⟩, ⟨.const, 7⟩, ⟨.store .word, 0⟩, ⟨.const, -101⟩,
        ⟨.call, 0⟩, ⟨.leave, 8⟩].flatMap Instruction.encode
      instructionCount := 7
      jumpTargets := [] }
  Layout.build ⟨.legacy, code, [1, 2, 3], [], 57⟩

/-- A host that offers the shared services. -/
def sharing : Host Interface.empty Nat := fun n args =>
  SharedCalls.answer (n + 1) args (.done n (.ok 0))

theorem inPlace_sharing : sharing.InPlace := fun _ _ => SharedCalls.answer_within trivial

/-- The store of a second call, about to be executed with two operands, stays in the 64 bytes. -/
theorem sandbox_containment_straying :
    ∃ (inst b : Instance) (c : Moment Interface.empty Nat Unit),
      load "m" straying ⟨.interpreted, none, false⟩ = .ok inst ∧ inst.memory.size = 64 ∧
      inst.Fits straying ∧ History Sandbox.Edit.InPlace (fun _ _ => True) inst b ∧
      Visits World.empty sharing 0 [] b ⟨0, .empty, ()⟩ c ∧
      c.phase.stack?.map OperandStack.depth = some 2 ∧ c.Contained 64 := by
  let ctx : Context Nat Unit := ⟨0, .empty, ()⟩
  let loaded := (load "m" straying ⟨.interpreted, none, false⟩).toOption
  have hload : (loaded.map fun i => i.memory.size) = some 64 := by decide +kernel
  have hcourse : (loaded.bind fun i => (call World.empty sharing 10 0 [] i ctx).bind fun out =>
      (out.module.accept 0 []).toOption.bind fun packed =>
        (Course.after (Moment.next World.empty sharing) 3
          (Moment.start out.module packed [] ctx)).bind fun c =>
            c.phase.stack?.map OperandStack.depth) = some 2 := by decide +kernel
  obtain ⟨inst, hinst, hsize⟩ := Option.map_eq_some_iff.1 hload
  rw [hinst, Option.bind_some] at hcourse
  obtain ⟨out, hcall, hcourse⟩ := Option.bind_eq_some_iff.1 hcourse
  obtain ⟨packed, hpacked, hcourse⟩ := Option.bind_eq_some_iff.1 hcourse
  obtain ⟨c, hc, hdepth⟩ := Option.bind_eq_some_iff.1 hcourse
  have hhistory : History Sandbox.Edit.InPlace (fun _ _ => True) inst out.module :=
    .call World.empty sharing 10 0 [] ctx out .start inPlace_sharing hcall
  have hvisits : Visits World.empty sharing 0 [] out.module ctx c :=
    ⟨packed, eq_ok_of_toOption hpacked, 3, hc⟩
  obtain ⟨hfits, -, -, -, hinPlace⟩ := sandbox_containment (eq_ok_of_toOption hinst) hhistory
  obtain ⟨-, -, hcontained⟩ := hinPlace fun _ he => he
  refine ⟨inst, out.module, c, eq_ok_of_toOption hinst, hsize, hfits, hhistory, hvisits, hdepth, ?_⟩
  rw [← hsize]
  exact hcontained World.empty sharing 0 [] ctx c inPlace_sharing hvisits

end Instance

end SandboxVm
