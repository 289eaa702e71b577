/-
SandboxVm.Proofs.StackBound — how far down the program stack goes.

Frames grow downward, and the stack bottom is where they have to stop. Two of the three places
that move the program stack pointer look at the bottom: the entry frame of a call, and the
instruction that opens a frame. The one that closes a frame does not. Its operand is a word of
the image, which may be negative, and the sum may wrap.

  §1  one instruction: opening a frame below the bottom is a fault, and nothing but closing one
      can take the pointer below (`Machine.Dips`);
  §2  moments: the bound holds in the innermost call and in those that wait, until some
      instruction dips;
  §3  `stack_bound_until_dip`, and a module that dips and goes on
      (`stack_pointer_below_bottom`).
-/
import SandboxVm.Proofs.Instructions

namespace SandboxVm

/-! ## §1 Instructions -/

/-- The program stack pointer is not below the bottom, unless the step is a fault. -/
def Step.Bounded (bottom : Int32) : Step → Prop
  | .next m => bottom ≤ m.ps
  | .done m => bottom ≤ m.ps
  | .system m _ => bottom ≤ m.ps
  | .fault _ _ => True

namespace Machine

variable {m n : Machine} {ins : Instruction}

/-- The machine is about to close a frame, which takes the program stack pointer below the
bottom. -/
def Dips (n : Machine) : Prop :=
  ∃ ins, n.inst.program.code[n.pc]? = some ins ∧ ins.op = .leave ∧
    n.ps + ins.operand < n.inst.stackBottom

/-- An instruction keeps the program stack pointer above the bottom, unless it dips. -/
theorem executeOne_bounded (hn : ¬ n.Dips) (h : n.inst.stackBottom ≤ n.ps) :
    n.executeOne.Bounded n.inst.stackBottom := by
  cases hins : n.inst.program.code[n.pc]? with
  | none => simp [executeOne, hins, Step.Bounded]
  | some ins =>
    have hmoves := moves_execute n ins _ fun t => Iff.rfl
    rw [← executeOne_of_getElem? hins] at hmoves
    generalize n.executeOne = s at hmoves
    have hleave (hop : ins.op = .leave) : n.inst.stackBottom ≤ n.ps + ins.operand :=
      Int32.not_lt.1 fun hlt => hn ⟨ins, hins, hop, hlt⟩
    cases hmoves with
    | following hop hat =>
      rw [Step.Bounded, hat.ps]
      exact h
    | branch hop hat =>
      rw [Step.Bounded, hat.ps]
      exact h
    | enter hop hps hat =>
      rw [Step.Bounded, hat.ps]
      exact Int32.not_lt.1 hps
    | jump hop ht hmay hat =>
      rw [Step.Bounded, hat.ps]
      exact h
    | service hop ht hneg hat =>
      rw [Step.Bounded, hat.ps]
      exact h
    | call hop ht hin hat =>
      rw [Step.Bounded, hat.ps]
      exact h
    | done hop ht hat =>
      rw [Step.Bounded, hat.ps]
      exact hleave hop
    | leave hop ht hne hin hat =>
      rw [Step.Bounded, hat.ps]
      exact hleave hop
    | failed => trivial
    | overflow => trivial
    | illegalJump => trivial
    | illegalCall => trivial
    | illegalLeave => trivial

/-- Fused pairs close no frames. -/
theorem EndsPair.not_dips (h : n.EndsPair) : ¬ n.Dips := by
  rintro ⟨ins, hins, hop, -⟩
  obtain ⟨next, hnext, hends⟩ := h
  obtain rfl : ins = next := Option.some.inj (hins.symm.trans hnext)
  simp [hop, Opcode.endsPair] at hends

/-- A step keeps the program stack pointer above the bottom, unless it dips. -/
theorem step_bounded (hs : Strategy.Suits m.inst.program m.inst.jumpTable m.inst.strategy)
    (hm : ¬ m.Dips) (h : m.inst.stackBottom ≤ m.ps) : m.step.Bounded m.inst.stackBottom := by
  refine step_preserves hs ?_ h
  intro n hn hps
  have hbottom : n.inst.stackBottom = m.inst.stackBottom := by
    cases hn with
    | first => rfl
    | second hpair hnext hstep =>
      have hsame := m.executeOne_executed.sameModule.stackBottom
      rwa [hnext] at hsame
  have hdips : ¬ n.Dips := by
    cases hn with
    | first => exact hm
    | second hpair hnext hstep => exact hpair.not_dips
  rw [← hbottom]
  exact executeOne_bounded hdips (hbottom ▸ hps)

/-- Opening a frame that would lie below the bottom is a fault. -/
theorem step_of_overflow (hs : Strategy.Suits m.inst.program m.inst.jumpTable m.inst.strategy)
    (hins : m.inst.program.code[m.pc]? = some ins) (hop : ins.op = .enter)
    (hlt : m.ps - ins.operand < m.inst.stackBottom) :
    ∃ n, m.step = .fault n .stackOverflow := by
  have hfault : m.executeOne =
      .fault { m.fetched with ps := m.ps - ins.operand } .stackOverflow := by
    rw [executeOne_of_getElem? hins, execute, hop]
    exact if_pos hlt
  obtain ⟨n, hn, hstep⟩ := m.exists_executes hs
  cases hn with
  | first => exact ⟨_, hstep.trans hfault⟩
  | second hpair hnext _ => simp [hfault] at hnext

/-- The entry frame of a call lies above the bottom. -/
theorem begin_bounded (inst : Instance) (args : CallArgs) :
    (begin inst args).Bounded inst.stackBottom := by
  unfold begin
  cases hp : framePointer? inst with
  | none => trivial
  | some ps =>
    simp only [framePointer?] at hp
    split at hp
    · split at hp
      · rename_i hle
        cases hp
        exact hle
      · cases hp
    · cases hp

end Machine

/-! ## §2 Moments -/

variable {I : Interface} {σ ω : Type}

namespace Moment

open Instance (Parsed)

variable {world : World I σ ω} {host : Host I σ} {c d : Moment I σ ω} {parsed : Parsed}
  {bottom : Int32}

/-- No program stack pointer is below the bottom, neither that of the innermost call nor one
that waits. -/
def Bounded (bottom : Int32) : Moment I σ ω → Prop :=
  Throughout (Step.Bounded bottom) fun w => bottom ≤ w.ps

/-- The instruction to be executed at a moment dips. -/
def Dips (c : Moment I σ ω) : Prop := ∃ m, c.phase = .step (.next m) ∧ m.Dips

/-- From one moment to the next the bound is kept, unless an instruction dips. -/
theorem Bounded.next (h : c.next world host = some d) (hprepared : c.inst.Prepared parsed)
    (hbottom : c.inst.stackBottom = bottom) (hdips : ¬ c.Dips) (hc : c.Bounded bottom) :
    d.Bounded bottom := by
  have hin := hc.innermost
  subst hbottom
  refine Throughout.next h hc ?_ ?_ ?_ ?_
  · intro m hm
    have hm' : ¬ m.Dips := fun hm' => hdips ⟨m, hm, hm'⟩
    rw [inst, hm] at hprepared hin ⊢
    exact Machine.step_bounded hprepared.suits hm' hin
  · intro m saved hsystem
    exact hsystem
  · intro w i r hw
    have hstays := (w.machine i).resume_stays w.saved r
    generalize (w.machine i).resume w.saved r = s at hstays
    cases hstays with
    | @next n hat =>
      rw [Step.Bounded, show n.ps = w.ps from hat.ps]
      exact hw
    | fault hat => trivial
  · intro args
    exact Machine.begin_bounded c.inst.activate args

/-- The bound holds at every moment of a course before which nothing dips. -/
theorem bounded_after {b : Instance} (hb : b.Prepared parsed) {packed : CallArgs}
    {ctx : Context σ ω} {n : Nat}
    (hc : Course.after (next world host) n (start b packed [] ctx) = some c)
    (hdips : ∀ k e, k < n → Course.after (next world host) k (start b packed [] ctx) = some e →
      ¬ e.Dips) : c.Bounded b.stackBottom := by
  have hstart := start_sameModule (I := I) b packed [] ctx
  have hall : c.inst.Prepared parsed ∧ c.inst.stackBottom = b.stackBottom ∧
      c.Bounded b.stackBottom := by
    refine Course.after_preserves (P := fun c => c.inst.Prepared parsed ∧
      c.inst.stackBottom = b.stackBottom ∧ c.Bounded b.stackBottom) ?_ hc hdips ?_
    · rintro c d hnext hsteady ⟨hprepared, hbottom, hbounded⟩
      have hsame := next_sameModule hnext
      exact ⟨hprepared.of_sameModule hsame, hsame.stackBottom.trans hbottom,
        hbounded.next hnext hprepared hbottom hsteady⟩
    · exact ⟨hb.of_sameModule hstart, hstart.stackBottom, Machine.begin_bounded _ _, nofun⟩
  exact hall.2.2

end Moment

/-! ## §3 Calls -/

namespace Instance

/-- How far the program stack is bounded. In the course of a call of an instance that carries an
image, opening a frame below the bottom is a fault, and an instruction that closes no frame
keeps the program stack pointer above the bottom. So the bound holds at every moment, in the
calls that wait too, as long as no instruction has dipped. -/
theorem stack_bound_until_dip {bytes : Bytes} {b : Instance} (hb : b.Carries bytes)
    (world : World I σ ω) (host : Host I σ) (command : Int32) (args : List Int32)
    (packed : CallArgs) (ctx : Context σ ω) (n : Nat) (c : Moment I σ ω)
    (ha : b.accept command args = .ok packed)
    (hc : Course.after (Moment.next world host) n (Moment.start b packed [] ctx) = some c) :
    (∀ m ins, c.phase = .step (.next m) → b.program.code[m.pc]? = some ins →
      (ins.op = .enter → m.ps - ins.operand < b.stackBottom →
        ∃ m', m.step = .fault m' .stackOverflow) ∧
      (ins.op ≠ .leave → b.stackBottom ≤ m.ps → m.step.Bounded b.stackBottom)) ∧
    ((∀ k e, k < n →
      Course.after (Moment.next world host) k (Moment.start b packed [] ctx) = some e →
      ¬ e.Dips) → c.Bounded b.stackBottom) := by
  have hvisits : Visits world host command args b ctx c := ⟨packed, ha, n, hc⟩
  obtain ⟨parsed, hparsed⟩ := hb.exists_parse
  have hprepared := hb.prepared hparsed hvisits.ne_unloaded
  have hsame := hvisits.sameModule
  refine ⟨?_, Moment.bounded_after hprepared hc⟩
  intro m ins hm hins
  have hsuits := (hprepared.of_sameModule hsame).suits
  rw [Moment.inst, hm] at hsame hsuits
  rw [← hsame.stackBottom]
  rw [← hsame.program] at hins
  refine ⟨Machine.step_of_overflow hsuits hins, ?_⟩
  intro hop hps
  refine Machine.step_bounded hsuits ?_ hps
  rintro ⟨ins', hins', hleave, -⟩
  obtain rfl : ins = ins' := Option.some.inj (hins.symm.trans hins')
  exact hop hleave

/-- The image of a module that opens a frame, closes one far below it, returns to the instruction
that its data names, and comes back up. -/
def sinking : Bytes :=
  let code : Code :=
    { bytes := [⟨.enter, 8⟩, ⟨.leave, -100000⟩, ⟨.frame, 0⟩, ⟨.leave, 100008⟩].flatMap
        Instruction.encode
      instructionCount := 4
      jumpTargets := [] }
  Layout.build ⟨.legacy, code, [2, 0, 0, 0], [], 60⟩

/-- The bound holds when the frame is open and the next instruction is the one that dips. -/
theorem stack_bound_until_dip_sinking :
    ∃ (inst : Instance) (packed : CallArgs) (c : Moment Interface.empty Unit Unit),
      load "m" sinking ⟨.compiled, none, false⟩ = .ok inst ∧ inst.accept 0 [] = .ok packed ∧
      Course.after (Moment.next World.empty silent) 1
        (Moment.start inst packed [] ⟨(), .empty, ()⟩) = some c ∧
      inst.stackBottom = -65472 ∧ c.Bounded inst.stackBottom := by
  let ctx : Context Unit Unit := ⟨(), .empty, ()⟩
  let loaded := (load "m" sinking ⟨.compiled, none, false⟩).toOption
  have hload : (loaded.map fun i => i.stackBottom) = some (-65472) := by decide +kernel
  have hcourse : (loaded.bind fun i => (i.accept 0 []).toOption.bind fun packed =>
      (Course.after (Moment.next World.empty silent) 1 (Moment.start i packed [] ctx)).map fun _ =>
        (Moment.start i packed [] ctx : Moment Interface.empty Unit Unit).phase.running?.bind
          fun m => m.inst.program.code[m.pc]?.map (·.op)) = some (some .enter) := by
    decide +kernel
  obtain ⟨inst, hinst, hbottom⟩ := Option.map_eq_some_iff.1 hload
  rw [hinst, Option.bind_some] at hcourse
  obtain ⟨packed, hpacked, hcourse⟩ := Option.bind_eq_some_iff.1 hcourse
  obtain ⟨c, hc, hfirst⟩ := Option.map_eq_some_iff.1 hcourse
  have hload := eq_ok_of_toOption hinst
  have haccept := eq_ok_of_toOption hpacked
  have hcarries : inst.Carries sinking := ⟨inst, .inl ⟨"m", _, hload⟩, .start⟩
  obtain ⟨-, hbounded⟩ :=
    stack_bound_until_dip hcarries World.empty silent 0 [] packed ctx 1 c haccept hc
  refine ⟨inst, packed, c, hload, haccept, hc, hbottom, hbounded ?_⟩
  -- the only moment before is the first one, at which a frame is opened
  intro k e hk he
  obtain rfl : k = 0 := by omega
  cases he
  rintro ⟨m, hm, ins, hins, hop, -⟩
  simp [Phase.running?_eq_some_iff.2 hm, hins, hop] at hfirst

/-- The bound does not hold throughout: the module above closes a frame below the bottom, goes on
there, and its call succeeds with the address of that place. -/
theorem stack_pointer_below_bottom :
    ∃ (inst : Instance) (packed : CallArgs) (c : Moment Interface.empty Unit Unit)
      (out : Outcome Instance Unit Unit),
      load "m" sinking ⟨.compiled, none, false⟩ = .ok inst ∧ inst.accept 0 [] = .ok packed ∧
      Course.after (Moment.next World.empty silent) 2
        (Moment.start inst packed [] ⟨(), .empty, ()⟩) = some c ∧
      ¬ c.Bounded inst.stackBottom ∧
      call World.empty silent 5 0 [] inst ⟨(), .empty, ()⟩ = some out ∧
      out.reply = .ok (-99968) := by
  let ctx : Context Unit Unit := ⟨(), .empty, ()⟩
  let loaded := (load "m" sinking ⟨.compiled, none, false⟩).toOption
  have hload : (loaded.map fun i => i.stackBottom) = some (-65472) := by decide +kernel
  have hcourse : (loaded.bind fun i => (i.accept 0 []).toOption.bind fun packed =>
      (Course.after (Moment.next World.empty silent) 2 (Moment.start i packed [] ctx)).bind fun c =>
        c.phase.running?.map (·.ps)) = some (-99968) := by decide +kernel
  have hcall : (loaded.bind fun i => (call World.empty silent 5 0 [] i ctx).map fun out =>
      out.reply.toOption) = some (some (-99968)) := by decide +kernel
  obtain ⟨inst, hinst, hbottom⟩ := Option.map_eq_some_iff.1 hload
  rw [hinst, Option.bind_some] at hcourse hcall
  obtain ⟨packed, hpacked, hcourse⟩ := Option.bind_eq_some_iff.1 hcourse
  obtain ⟨c, hc, hcourse⟩ := Option.bind_eq_some_iff.1 hcourse
  obtain ⟨m, hm, hps⟩ := Option.map_eq_some_iff.1 hcourse
  obtain ⟨out, hout, hreply⟩ := Option.map_eq_some_iff.1 hcall
  refine ⟨inst, packed, c, out, eq_ok_of_toOption hinst, eq_ok_of_toOption hpacked, hc, ?_, hout,
    eq_ok_of_toOption hreply⟩
  intro hbounded
  have hin := hbounded.innermost
  rw [Phase.running?_eq_some_iff.1 hm, hbottom] at hin
  have hle : (-65472 : Int32) ≤ m.ps := hin
  rw [hps] at hle
  exact absurd hle (by decide)

end Instance

end SandboxVm
