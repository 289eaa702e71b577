/-
SandboxVm.Proofs.ControlFlow — control goes where an image allows it to go, and nowhere else.

What an image allows is fixed when it is loaded: the operands of its branches are checked, its
declared jump targets are checked and joined by the targets of jumps to a constant. What a
running module does about it is decided at other places, and in prepared code in part at
once for two instructions. Return addresses lie in memory that the module can write to, so
nothing is known about them.

  §1  `Parsed.Permits`, the jump targets that an image allows in terms of the image itself,
      and `mayJump_iff_permits`: these are the ones that the jump table lets through;
  §2  branches name instructions, and there are fewer of these than words can number;
  §3  `Machine.Obeys`: the instructions that are executed go where the image allows;
  §4  `Moment.Placed`: at every moment of a call, control is inside the program or right
      behind it, also in the calls that wait.

`control_flow_integrity` is the result.
-/
import Mathlib.Algebra.Group.Nat.Defs
import SandboxVm.Proofs.Instructions

namespace SandboxVm

/-! ## §1 Jump targets -/

namespace Program

theorem isInstruction_iff {p : Program} {n : Int32} :
    p.isInstruction n = true ↔ 0 ≤ n ∧ n.toNatClampNeg < p.size := by
  simp [isInstruction, size]

/-- A constant stands right before a jump. -/
def JumpsTo (p : Program) (n : Int32) : Prop :=
  ∃ i y, p.code[i]? = some ⟨.const, n⟩ ∧ p.code[i + 1]? = some ⟨.jump, y⟩

theorem directTarget?_eq_some_iff {p : Program} {i : Nat} {u : UInt32} :
    p.directTarget? i = some u ↔
      ∃ n y, p.code[i]? = some ⟨.const, n⟩ ∧ p.code[i + 1]? = some ⟨.jump, y⟩ ∧
        p.isInstruction n = true ∧ u = n.toUInt32 := by
  constructor
  · intro h
    unfold directTarget? at h
    split at h
    · rename_i n y hi hnext
      split at h
      · rename_i hin
        cases h
        exact ⟨n, y, hi, hnext, hin, rfl⟩
      · cases h
    · cases h
  · rintro ⟨n, y, hi, hnext, hin, rfl⟩
    simp [directTarget?, hi, hnext, hin]

/-- The direct targets are the instructions that constants before a jump name. -/
theorem mem_directTargets {p : Program} {u : UInt32} :
    u ∈ p.directTargets ↔ ∃ n, p.JumpsTo n ∧ p.isInstruction n = true ∧ u = n.toUInt32 := by
  simp only [directTargets, List.mem_filterMap, List.mem_range, directTarget?_eq_some_iff]
  constructor
  · rintro ⟨i, -, n, y, hi, hnext, hin, rfl⟩
    exact ⟨n, ⟨i, y, hi, hnext⟩, hin, rfl⟩
  · rintro ⟨n, ⟨i, y, hi, hnext⟩, hin, rfl⟩
    have hlt : i < p.code.size := (Array.getElem?_eq_some_iff.1 hi).1
    exact ⟨i, hlt, n, y, hi, hnext, hin, rfl⟩

end Program

namespace JumpTable

/-- The flag of an instruction that a list of them was marked in. -/
theorem getElem?_mark (flags : Array Bool) (targets : List Nat) (n : Nat) :
    (mark flags targets)[n]? = flags[n]?.map fun b => b || targets.contains n := by
  unfold mark
  induction targets generalizing flags with
  | nil => simp
  | cons t targets ih =>
    rw [List.foldl_cons, ih, Array.getElem?_setIfInBounds]
    by_cases htn : t = n
    · subst htn
      by_cases hlt : t < flags.size
      · simp [hlt]
      · simp [hlt]
    · have hnt : n ≠ t := Ne.symm htn
      simp [htn, hnt]

/-- Numbers of instructions can be compared as natural numbers. -/
theorem toNatClampNeg_inj {a b : Int32} (ha : 0 ≤ a) (hb : 0 ≤ b)
    (h : a.toNatClampNeg = b.toNatClampNeg) : a = b := by
  rw [Int32.le_iff_toInt_le] at ha hb
  rw [← Int32.toNat_toInt, ← Int32.toNat_toInt] at h
  rw [← Int32.toInt_inj]
  simp only [Int32.toInt_zero] at ha hb
  omega

theorem mem_map_toNatClampNeg {entries : List Int32} {t : Int32} (ht : 0 ≤ t)
    (h : ∀ e ∈ entries, 0 ≤ e) :
    t.toNatClampNeg ∈ entries.map Int32.toNatClampNeg ↔ t ∈ entries := by
  rw [List.mem_map]
  constructor
  · rintro ⟨e, he, heq⟩
    obtain rfl := toNatClampNeg_inj (h e he) ht heq
    exact he
  · intro hmem
    exact ⟨t, hmem, rfl⟩

theorem mem_map_directTargets {p : Program} {t : Int32} (ht : p.isInstruction t = true) :
    t.toNatClampNeg ∈ p.directTargets.map UInt32.toNat ↔ p.JumpsTo t := by
  have hpos := (Program.isInstruction_iff.1 ht).1
  rw [List.mem_map]
  constructor
  · rintro ⟨u, hu, heq⟩
    obtain ⟨n, hn, hin, rfl⟩ := Program.mem_directTargets.1 hu
    have hn0 := (Program.isInstruction_iff.1 hin).1
    rw [Int32.toNat_toUInt32_of_le hn0] at heq
    obtain rfl := toNatClampNeg_inj hn0 hpos heq
    exact hn
  · intro hjumps
    refine ⟨t.toUInt32, Program.mem_directTargets.2 ⟨t, hjumps, ht, rfl⟩, ?_⟩
    exact Int32.toNat_toUInt32_of_le hpos

/-- A table lets through the declared entries and the direct targets. -/
theorem allows_build_iff {entries : List Int32} {p : Program} {table : JumpTable} {t : Int32}
    (h : build entries p = .ok table) :
    table.allows t = true ↔ p.isInstruction t = true ∧ (t ∈ entries ∨ p.JumpsTo t) := by
  unfold build at h
  split at h
  · rename_i hall
    cases h
    by_cases hin : p.isInstruction t = true
    · obtain ⟨hpos, hlt⟩ := Program.isInstruction_iff.1 hin
      have hentries : ∀ e ∈ entries, 0 ≤ e := by
        intro e he
        exact (Program.isInstruction_iff.1 (List.all_eq_true.1 hall e he)).1
      have hdeclared := mem_map_toNatClampNeg hpos hentries
      have hdirect := mem_map_directTargets hin
      simp only [allows, getElem?_mark, Array.getElem?_replicate, if_pos hlt]
      simp [hin, hpos, hdeclared, hdirect]
    · -- the flags behind the last instruction are missing, so nothing there is let through
      simp only [hin, Bool.false_eq_true, false_and, iff_false]
      rw [Program.isInstruction_iff] at hin
      simp only [allows, getElem?_mark, Array.getElem?_replicate]
      by_cases hpos : 0 ≤ t
      · have hge : ¬ t.toNatClampNeg < p.size := fun hlt => hin ⟨hpos, hlt⟩
        simp [hge]
      · simp [hpos]
  · cases h

end JumpTable

namespace Instance

/-- Parsing an image decodes its code and, in the extended format, builds a jump table. -/
theorem parse_eq_ok {bytes : Bytes} {parsed : Parsed} (h : parse bytes = .ok parsed) :
    Program.decode parsed.image.code parsed.image.header.instructionCount.toNatClampNeg =
        .ok parsed.program ∧
      match parsed.image.header.format with
      | .legacy => parsed.jumpTable = none
      | .extended => ∃ table, parsed.jumpTable = some table ∧
          JumpTable.build parsed.image.jumpTargets parsed.program = .ok table := by
  unfold parse at h
  cases hi : Image.parse bytes with
  | error e => simp [hi, bind, Except.bind] at h
  | ok image =>
    cases hd : Program.decode image.code image.header.instructionCount.toNatClampNeg with
    | error e => simp [hi, hd, bind, Except.bind] at h
    | ok program =>
      simp only [hi, hd, bind, Except.bind] at h
      cases hf : image.header.format with
      | legacy =>
        simp only [hf] at h
        cases h
        exact ⟨hd, by simp [hf]⟩
      | extended =>
        simp only [hf] at h
        cases ht : JumpTable.build image.jumpTargets program with
        | error e => simp [ht] at h
        | ok table =>
          simp only [ht] at h
          cases h
          exact ⟨hd, by simp [hf, ht]⟩

/-- The jumps that an image allows: to any instruction in the legacy format, and in the
extended one to the instructions that are declared or that a constant before a jump names. -/
def Parsed.Permits (parsed : Parsed) (t : Int32) : Prop :=
  parsed.program.isInstruction t = true ∧
    match parsed.image.header.format with
    | .legacy => True
    | .extended => t ∈ parsed.image.jumpTargets ∨ parsed.program.JumpsTo t

/-- What a running module lets through is what its image allows. -/
theorem mayJump_iff_permits {bytes : Bytes} {parsed : Parsed} (h : parse bytes = .ok parsed)
    (t : Int32) :
    Strategy.mayJump parsed.program parsed.jumpTable t = true ↔ parsed.Permits t := by
  obtain ⟨-, htable⟩ := parse_eq_ok h
  unfold Parsed.Permits
  cases hf : parsed.image.header.format with
  | legacy =>
    rw [hf] at htable
    simp [Strategy.mayJump, htable]
  | extended =>
    rw [hf] at htable
    obtain ⟨table, htable, hbuild⟩ := htable
    simp only [Strategy.mayJump, htable]
    exact JumpTable.allows_build_iff hbuild

end Instance

/-! ## §2 Programs -/

namespace Program

theorem size_of_readMany {count offset : Nat} {bytes : Bytes} {code : Array Instruction}
    {offsets : Array UInt32} {r : Array Instruction × Array UInt32}
    (h : readMany count offset bytes code offsets = .ok r) : r.1.size = code.size + count := by
  induction count generalizing offset bytes code offsets with
  | zero =>
    cases h
    rfl
  | succ count ih =>
    simp only [readMany] at h
    split at h
    · cases h
    · rw [ih h, Array.size_push]
      omega

/-- A decoded program has as many instructions as were asked for. -/
theorem size_of_decode {bytes : Bytes} {count : Nat} {p : Program}
    (h : decode bytes count = .ok p) : p.size = count := by
  unfold decode at h
  split at h
  · cases h
  · rename_i code offsets hread
    have hsize := size_of_readMany hread
    simp only at h
    split at h
    · cases h
      simpa [size] using hsize
    · cases h

/-- The branches of a decoded program name instructions. -/
theorem isInstruction_of_decode {bytes : Bytes} {count n : Nat} {p : Program} {ins : Instruction}
    (h : decode bytes count = .ok p) (hins : p.code[n]? = some ins)
    (hop : ins.op.isBranch = true) : p.isInstruction ins.operand = true := by
  unfold decode at h
  split at h
  · cases h
  · simp only at h
    split at h
    · rename_i hresolve
      cases h
      have hmem := Array.mem_of_getElem? hins
      have hall := Array.all_eq_true'.1 hresolve ins hmem
      simpa [hop] using hall
    · cases h

end Program

theorem Instance.size_lt_of_parse {bytes : Bytes} {parsed : Parsed}
    (h : parse bytes = .ok parsed) : parsed.program.size < 2 ^ 31 := by
  rw [Program.size_of_decode (parse_eq_ok h).1]
  exact Int32.toNatClampNeg_lt _

/-! ## §3 Instructions -/

/-- The instruction with the given number is a call. -/
def Program.CallsAt (p : Program) (n : Nat) : Prop :=
  ∃ ins, p.code[n]? = some ins ∧ ins.op = .call

theorem Program.CallsAt.lt_size {p : Program} {n : Nat} (h : p.CallsAt n) : n < p.size := by
  obtain ⟨ins, hins, -⟩ := h
  exact (Array.getElem?_eq_some_iff.1 hins).1

/-- Where control can be after a step: inside the program, or right behind it. -/
def Step.Placed (p : Program) : Step → Prop
  | .next m => m.pc ≤ p.size
  | .done m => m.cur < p.size
  | .system m _ => p.CallsAt m.cur ∧ m.pc = m.cur + 1
  | .fault m _ => m.cur ≤ p.size

/-- Where a call waits for a host service: at the instruction that asked for it. -/
def Waiting.Placed (p : Program) (w : Waiting) : Prop := p.CallsAt w.cur ∧ w.pc = w.cur + 1

namespace Machine

open Instance (Parsed)

variable {bytes : Bytes} {parsed : Parsed} {m n : Machine}

/-- What the image asks of a machine that executes an instruction: the instruction is one of
the program and goes where the image allows, or control has run past the last one, which is a
fault there. -/
inductive Obeys (parsed : Parsed) (n : Machine) : Prop where
  | inside {ins : Instruction} (hins : parsed.program.code[n.pc]? = some ins)
      (hbranch : ins.op.isBranch = true → parsed.program.isInstruction ins.operand = true)
      (hmoves : Moves parsed.program parsed.Permits n ins n.executeOne)
  | behind (hpc : n.pc = parsed.program.size)
      (hfault : n.executeOne = .fault { n with cur := n.pc } .pcOutOfRange)

theorem obeys (hparsed : Instance.parse bytes = .ok parsed) (hn : n.inst.Prepared parsed)
    (hpc : n.pc ≤ parsed.program.size) : n.Obeys parsed := by
  cases hins : parsed.program.code[n.pc]? with
  | none =>
    have hge : parsed.program.size ≤ n.pc := Array.getElem?_eq_none_iff.1 hins
    refine .behind (Nat.le_antisymm hpc hge) ?_
    simp [executeOne, hn.program, hins]
  | some ins =>
    refine .inside hins (Program.isInstruction_of_decode (Instance.parse_eq_ok hparsed).1 hins) ?_
    have hmoves := moves_execute n ins parsed.Permits ?_
    · rw [← hn.program] at hins ⊢
      rwa [executeOne_of_getElem? hins]
    · intro t
      rw [hn.program, hn.jumpTable]
      exact (Instance.mayJump_iff_permits hparsed t).symm

/-- An instruction that obeys leaves control inside the program or right behind it. -/
theorem Obeys.placed (h : n.Obeys parsed) : n.executeOne.Placed parsed.program := by
  cases h with
  | behind hpc hfault =>
    rw [hfault]
    exact Nat.le_of_eq hpc
  | @inside ins hins hbranch hmoves =>
    have hlt : n.pc < parsed.program.size := (Array.getElem?_eq_some_iff.1 hins).1
    have hle : n.pc ≤ parsed.program.size := Nat.le_of_lt hlt
    have hin {t : Int32} (ht : parsed.program.isInstruction t = true) :
        t.toNatClampNeg ≤ parsed.program.size :=
      Nat.le_of_lt (Program.isInstruction_iff.1 ht).2
    generalize n.executeOne = s at hmoves
    cases hmoves with
    | following hop h =>
      rw [Step.Placed, h.pc]
      exact hlt
    | failed hop ht h =>
      rw [Step.Placed, h.cur]
      exact hle
    | branch hop h =>
      rw [Step.Placed, h.pc]
      exact hin (hbranch (by simp [hop, Opcode.isBranch]))
    | enter hop hps h =>
      rw [Step.Placed, h.pc]
      exact hlt
    | overflow hop hps h =>
      rw [Step.Placed, h.cur]
      exact hle
    | jump hop ht hmay h =>
      rw [Step.Placed, h.pc]
      exact hin hmay.1
    | illegalJump hop ht hmay h =>
      rw [Step.Placed, h.cur]
      exact hle
    | service hop ht hneg h =>
      rw [Step.Placed, h.pc, h.cur]
      exact ⟨⟨ins, hins, hop⟩, rfl⟩
    | call hop ht hcall h =>
      rw [Step.Placed, h.pc]
      exact hin hcall
    | illegalCall hop ht hneg hcall h =>
      rw [Step.Placed, h.cur]
      exact hle
    | done hop ht h =>
      rw [Step.Placed, h.cur]
      exact hlt
    | leave hop ht hne hleave h =>
      rw [Step.Placed, h.pc]
      exact hin hleave
    | illegalLeave hop ht hne hleave h =>
      rw [Step.Placed, h.cur]
      exact hle

/-- Every instruction of a step obeys, when the first one is inside the program or behind it. -/
theorem Executes.obeys (h : m.Executes n) (hparsed : Instance.parse bytes = .ok parsed)
    (hm : m.inst.Prepared parsed) (hpc : m.pc ≤ parsed.program.size) : n.Obeys parsed := by
  have hfirst := Machine.obeys hparsed hm hpc
  cases h with
  | first => exact hfirst
  | second hpair hnext hstep =>
    have hsame := m.executeOne_executed.sameModule
    have hplaced := hfirst.placed
    rw [hnext] at hsame hplaced
    exact Machine.obeys hparsed (hm.of_sameModule hsame) hplaced

theorem step_placed (hparsed : Instance.parse bytes = .ok parsed) (hm : m.inst.Prepared parsed)
    (hpc : m.pc ≤ parsed.program.size) : m.step.Placed parsed.program := by
  refine step_preserves hm.suits ?_ hpc
  intro n hn _
  exact (hn.obeys hparsed hm hpc).placed

theorem begin_at {inst : Instance} {args : CallArgs} (h : begin inst args = .next m) :
    m.pc = 0 := by
  unfold begin at h
  split at h
  · cases h
  · cases h
    rfl

theorem begin_placed (inst : Instance) (args : CallArgs) (p : Program) :
    (begin inst args).Placed p := by
  unfold begin
  split <;> exact Nat.zero_le _

theorem resume_placed {w : Waiting} {p : Program} (h : w.Placed p) (inst : Instance) (r : Int32) :
    ((w.machine inst).resume w.saved r).Placed p := by
  have hlt := h.1.lt_size
  have hstays := (w.machine inst).resume_stays w.saved r
  generalize (w.machine inst).resume w.saved r = s at hstays
  cases hstays with
  | @next n hat =>
    rw [Step.Placed, show n.pc = w.cur + 1 from hat.pc.trans h.2]
    exact hlt
  | @fault n cause hat =>
    rw [Step.Placed, show n.cur = w.cur from hat.cur]
    exact Nat.le_of_lt hlt

end Machine

/-! ## §4 Moments -/

variable {I : Interface} {σ ω : Type}

namespace Moment

open Instance (Parsed)

variable {world : World I σ ω} {host : Host I σ} {c d : Moment I σ ω} {bytes : Bytes}
  {parsed : Parsed}

/-- Control is inside the program of the image or right behind it, in the innermost call and in
those that wait. -/
structure Placed (parsed : Parsed) (c : Moment I σ ω) : Prop where
  prepared : c.inst.Prepared parsed
  control : c.Throughout (Step.Placed parsed.program) (Waiting.Placed parsed.program)

/-- A call begins at the first instruction. -/
theorem placed_start {b : Instance} (hb : b.Prepared parsed) (args : CallArgs)
    (ctx : Context σ ω) : (start b args [] ctx : Moment I σ ω).Placed parsed where
  prepared := hb.of_sameModule (start_sameModule b args [] ctx)
  control := ⟨Machine.begin_placed _ _ _, nofun⟩

theorem Placed.next (hparsed : Instance.parse bytes = .ok parsed)
    (h : c.next world host = some d) (hc : c.Placed parsed) : d.Placed parsed where
  prepared := hc.prepared.of_sameModule (next_sameModule h)
  control := by
    have hprepared := hc.prepared
    have hin := hc.control.innermost
    refine hc.control.next h ?_ ?_ ?_ ?_
    · intro m hm
      rw [inst, hm] at hprepared
      rw [hm] at hin
      exact Machine.step_placed hparsed hprepared hin
    · intro m saved hsystem
      exact hsystem
    · intro w i r hw
      exact Machine.resume_placed hw i r
    · intro args
      exact Machine.begin_placed _ _ _

/-- When a service is done control goes on where its machine waits; when it calls back in
control starts at the first instruction. -/
theorem pc_of_service {sv : Service I σ} {w : Waiting} {i : Instance} {m : Machine}
    (hphase : c.phase = .service sv w i) (h : c.next world host = some d)
    (hd : d.phase = .step (.next m)) :
    (d.callers = c.callers ∧ m.pc = w.pc) ∨
      (d.callers.length = c.callers.length + 1 ∧ m.pc = 0) := by
  cases follows_of_next h with
  | reply s reply w i =>
    cases hphase
    left
    refine ⟨rfl, ?_⟩
    cases reply with
    | error e => cases hd
    | ok r =>
      simp only [answered] at hd
      split at hd
      · cases hd
      · have hstays := (w.machine i).resume_stays w.saved r
        rw [Phase.step.inj hd] at hstays
        cases hstays with
        | next hat => exact hat.pc
  | nest s command args k packed w i =>
    right
    exact ⟨rfl, Machine.begin_at (Phase.step.inj hd)⟩
  | execute m => cases hphase
  | finish m => cases hphase
  | fail m cause => cases hphase
  | system m saved => cases hphase
  | view k w i => cases hd
  | edit e k w i => cases hd
  | refuse s command args k e w i => cases hd
  | ask s q k a w i => cases hd
  | «return» reply i caller => cases hphase

/-- What one moment of a call shows of where control goes. -/
structure KeepsControl (parsed : Parsed) (world : World I σ ω) (host : Host I σ)
    (c : Moment I σ ω) : Prop where
  /-- Every instruction that is executed goes where the image allows, and the last one of them
  leads to the next moment. -/
  executes : ∀ m, c.phase = .step (.next m) → (∀ n, m.Executes n → n.Obeys parsed) ∧
    ∃ n d, m.Executes n ∧ c.next world host = some d ∧ d.phase = .step n.executeOne
  /-- Host services are asked for by calls, and control goes on behind the call when they are
  done. When they call back in, it starts at the first instruction. -/
  serves : ∀ sv w i, c.phase = .service sv w i → parsed.program.CallsAt w.cur ∧
    ∀ d m, c.next world host = some d → d.phase = .step (.next m) →
      (d.callers = c.callers ∧ m.pc = w.cur + 1) ∨
        (d.callers.length = c.callers.length + 1 ∧ m.pc = 0)
  /-- Leaving the outermost frame ends the call. -/
  returns : ∀ m, c.phase = .step (.done m) →
    ∃ d reply, c.next world host = some d ∧ d.phase = .ended reply d.inst
  /-- A fault ends the call, with the number of the instruction that was being executed, and
  nothing is executed behind it. -/
  faults : ∀ m cause, c.phase = .step (.fault m cause) → m.cur ≤ parsed.program.size ∧
    ∃ d f, c.next world host = some d ∧ f.cause = cause ∧ f.instruction.toNat = m.cur ∧
      d.phase = .ended (.error (.fault f)) d.inst ∧ d.inst.state = .faulted ∧
      d.inst.lastFault = some f ∧ ∀ e, d.Reaches world host e → ∀ s, e.phase ≠ .step s

theorem Placed.keepsControl (hparsed : Instance.parse bytes = .ok parsed)
    (hc : c.Placed parsed) : c.KeepsControl parsed world host := by
  obtain ⟨hprepared, hin, -⟩ := hc
  refine ⟨?_, ?_, ?_, ?_⟩
  · intro m hm
    rw [inst, hm] at hprepared
    rw [hm] at hin
    refine ⟨fun n hn => hn.obeys hparsed hprepared hin, ?_⟩
    obtain ⟨n, hn, hstep⟩ := m.exists_executes hprepared.suits
    exact ⟨n, _, hn, by rw [Moment.next, hm], congrArg Phase.step hstep⟩
  · intro sv w i hphase
    rw [hphase] at hin
    refine ⟨hin.1, ?_⟩
    intro d m hd hm
    rw [← hin.2]
    exact pc_of_service hphase hd hm
  · intro m hm
    refine ⟨_, _, by rw [Moment.next, hm], rfl⟩
  · intro m cause hm
    rw [hm] at hin
    have hlt : m.cur < UInt32.size := by
      have hsize := Instance.size_lt_of_parse hparsed
      have hle : m.cur ≤ parsed.program.size := hin
      simp only [UInt32.size]
      omega
    have hrecorded : c.recorded? = some (m.inst.recordFault cause m.cur).1 := by
      simp [recorded?, hm]
    obtain ⟨d, hd, hhalted, hphase⟩ := next_of_recorded? world host hrecorded
    refine ⟨hin, d, _, hd, rfl, UInt32.toNat_ofNat_of_lt' hlt, hphase, hhalted.state,
      hhalted.lastFault, ?_⟩
    intro e he
    exact (he.halted hhalted).ne_step

end Moment

theorem Instance.Visits.placed {world : World I σ ω} {host : Host I σ} {command : Int32}
    {args : List Int32} {b : Instance} {ctx : Context σ ω} {c : Moment I σ ω} {bytes : Bytes}
    {parsed : Parsed} (hparsed : parse bytes = .ok parsed) (hb : b.Prepared parsed)
    (hc : Visits world host command args b ctx c) : c.Placed parsed :=
  hc.preserves (fun packed _ => Moment.placed_start hb packed ctx) (Moment.Placed.next hparsed)

namespace Instance

/-- Control flow integrity. At every moment of a call of an instance that carries an image, the
calls that its services make included, control stays inside the program and goes where the
image allows. Taken branches go to their operand; jumps to what `Parsed.Permits`; calls and
returns to an instruction; calls of negative numbers to the host and back behind themselves;
and a return to the sentinel out of the call. Any other transfer, and running past the last
instruction, is a fault with the number of the instruction, which ends the call. -/
theorem control_flow_integrity {bytes : Bytes} {parsed : Parsed} {b : Instance}
    (hparsed : parse bytes = .ok parsed) (hb : b.Carries bytes) (world : World I σ ω)
    (host : Host I σ) (command : Int32) (args : List Int32) (ctx : Context σ ω)
    (c : Moment I σ ω) (hc : Visits world host command args b ctx c) :
    c.KeepsControl parsed world host := by
  have hprepared := hb.prepared hparsed hc.ne_unloaded
  exact (hc.placed hparsed hprepared).keepsControl hparsed

/-- The image of a module that jumps to a constant, asks for service 0 and jumps to the
answer. -/
def wandering : Bytes :=
  let code : Code :=
    { bytes := [⟨.enter, 16⟩, ⟨.const, 4⟩, ⟨.jump, 0⟩, ⟨.undef, 0⟩, ⟨.const, -1⟩, ⟨.call, 0⟩,
        ⟨.jump, 0⟩].flatMap Instruction.encode
      instructionCount := 7
      jumpTargets := [1] }
  Layout.build ⟨.extended, code, [], [], 64⟩

/-- A host that answers every service with an instruction that no jump may go to. -/
def misleading : Host Interface.empty Unit := fun _ _ => .done () (.ok 3)

/-- The constant jump is let through, the one to the answer stops the call at instruction 6. -/
theorem control_flow_integrity_wandering :
    ∃ (parsed : Parsed) (inst : Instance) (c d : Moment Interface.empty Unit Unit) (m : Machine)
      (f : Fault),
      parse wandering = .ok parsed ∧ parsed.Permits 4 ∧ ¬ parsed.Permits 3 ∧
      load "m" wandering ⟨.compiled, none, false⟩ = .ok inst ∧
      Visits World.empty misleading 0 [] inst ⟨(), .empty, ()⟩ c ∧
      c.phase = .step (.fault m .illegalJump) ∧ c.next World.empty misleading = some d ∧
      f.instruction.toNat = 6 ∧ d.phase = .ended (.error (.fault f)) d.inst ∧
      ∀ e, d.Reaches World.empty misleading e → ∀ s, e.phase ≠ .step s := by
  let ctx : Context Unit Unit := ⟨(), .empty, ()⟩
  let loaded := (load "m" wandering ⟨.compiled, none, false⟩).toOption
  have hparse : ((parse wandering).toOption.map fun p =>
      (Strategy.mayJump p.program p.jumpTable 4, Strategy.mayJump p.program p.jumpTable 3)) =
      some (true, false) := by decide +kernel
  have hload : loaded.isSome = true := by decide +kernel
  have hcourse : (loaded.bind fun i => (i.accept 0 []).toOption.bind fun packed =>
      (Course.after (Moment.next World.empty misleading) 6
        (Moment.start i packed [] ctx)).bind fun c =>
          c.phase.fault?.map fun (m, cause) => (m.cur, cause)) = some (6, .illegalJump) := by
    decide +kernel
  obtain ⟨parsed, hparsed, hjumps⟩ := Option.map_eq_some_iff.1 hparse
  obtain ⟨hfour, hthree⟩ := Prod.mk.inj hjumps
  have hparsed := eq_ok_of_toOption hparsed
  obtain ⟨inst, hinst⟩ := Option.isSome_iff_exists.1 hload
  rw [hinst, Option.bind_some] at hcourse
  obtain ⟨packed, hpacked, hcourse⟩ := Option.bind_eq_some_iff.1 hcourse
  obtain ⟨c, hc, hcourse⟩ := Option.bind_eq_some_iff.1 hcourse
  obtain ⟨⟨m, cause⟩, hfault, hpair⟩ := Option.map_eq_some_iff.1 hcourse
  obtain ⟨hcur, rfl⟩ := Prod.mk.inj hpair
  have hm := Phase.fault?_eq_some_iff.1 hfault
  have hvisits : Visits World.empty misleading 0 [] inst ctx c :=
    ⟨packed, eq_ok_of_toOption hpacked, 6, hc⟩
  have hcarries : inst.Carries wandering :=
    ⟨inst, .inl ⟨"m", _, eq_ok_of_toOption hinst⟩, .start⟩
  obtain ⟨-, d, f, hd, -, hnumber, hended, -, -, hsilent⟩ :=
    (control_flow_integrity hparsed hcarries World.empty misleading 0 [] ctx c
      hvisits).faults m _ hm
  refine ⟨parsed, inst, c, d, m, f, hparsed, (mayJump_iff_permits hparsed 4).1 hfour, ?_,
    eq_ok_of_toOption hinst, hvisits, hm, hd, hnumber.trans hcur, hended, hsilent⟩
  rw [← mayJump_iff_permits hparsed, hthree]
  decide

end Instance

end SandboxVm
