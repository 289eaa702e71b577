/-
SandboxVm.Proofs.ModeIndependence — the outcome of a call does not depend on the mode.

Prepared code executes some pairs of instructions in one operation. Here the course of a
call on prepared code is laid beside the course of the same call when every instruction is
interpreted: each moment of the first is matched by one or two of the second
(`next_withStrategy`), and a matched pair of moments differs in nothing but the strategy and
the requested mode. Two matters need care.

* Control may arrive at the second instruction of a pair. It has an operation of its own, so
  this is the unfused case; only entering at the first instruction takes both.
* The operand that the first instruction of a pair would push is never pushed, yet a full
  operand stack must fault there, at the first instruction. `Machine.fused` asks for room.

`ends_inMode_iff` turns the match into a statement about calls, and
`call_independent_of_mode` compares any two modes.
-/
import SandboxVm.Proofs.Retouching

namespace SandboxVm

/-! ## §1 The same state under another strategy -/

/-- The instance with another strategy. -/
def Instance.withStrategy (st : Strategy) (mode : Mode) (inst : Instance) : Instance :=
  { inst with strategy := st, requested := mode }

/-- The instance as it is when prepared for a mode. -/
def Instance.inMode (mode : Mode) (inst : Instance) : Instance :=
  inst.withStrategy (Strategy.prepare mode inst.program inst.jumpTable) mode

/-- The machine of an instance with another strategy. -/
def Machine.withStrategy (st : Strategy) (mode : Mode) (m : Machine) : Machine :=
  { m with inst := m.inst.withStrategy st mode }

/-- A step of an instance with another strategy. -/
def Step.withStrategy (st : Strategy) (mode : Mode) : Step → Step
  | .next m => .next (m.withStrategy st mode)
  | .done m => .done (m.withStrategy st mode)
  | .system m saved => .system (m.withStrategy st mode) saved
  | .fault m cause => .fault (m.withStrategy st mode) cause

/-- A phase of an instance with another strategy. -/
def Phase.withStrategy {I : Interface} {σ : Type} (st : Strategy) (mode : Mode) :
    Phase I σ → Phase I σ
  | .step s => .step (s.withStrategy st mode)
  | .service sv w inst => .service sv w (inst.withStrategy st mode)
  | .ended reply inst => .ended reply (inst.withStrategy st mode)

/-- A moment of an instance with another strategy. -/
def Moment.withStrategy {I : Interface} {σ ω : Type} (st : Strategy) (mode : Mode)
    (c : Moment I σ ω) : Moment I σ ω :=
  { c with phase := c.phase.withStrategy st mode }

/-- The outcome of a call, with the module prepared for a mode. -/
def Outcome.inMode {σ ω : Type} (mode : Mode) (out : Outcome Instance σ ω) :
    Outcome Instance σ ω :=
  { out with module := out.module.inMode mode }

/-! ## §2 Instructions do not look at the strategy -/

theorem Instance.unrecorded_withStrategy (st : Strategy) (mode : Mode) :
    Unrecorded (withStrategy st mode) where
  name _ := rfl
  memory _ := rfl
  program _ := rfl
  programStack _ := rfl
  stackBottom _ := rfl
  state _ := rfl
  callLevel _ := rfl
  breakCount _ := rfl
  puts _ _ _ _ _ _ := rfl
  lastFault _ := rfl
  recordFault _ _ _ := rfl

namespace Machine

open Instance (unrecorded_withStrategy)

variable {st : Strategy} {mode : Mode} (m : Machine)

@[simp] theorem pc_withStrategy : (m.withStrategy st mode).pc = m.pc := rfl
@[simp] theorem program_withStrategy :
    (m.withStrategy st mode).inst.program = m.inst.program := rfl
@[simp] theorem strategy_withStrategy : (m.withStrategy st mode).inst.strategy = st := rfl

theorem enter_withStrategy (frame : Int32) :
    (m.withStrategy st mode).enter frame = (m.enter frame).withStrategy st mode := by
  have hcount (n : Machine) :
      (n.withStrategy st mode).countEntry = n.countEntry.withStrategy st mode := by
    refine Eq.trans ?_ (apply_ite (Machine.withStrategy st mode) _ _ _).symm
    rfl
  refine Eq.trans ?_ (apply_ite (Step.withStrategy st mode) _ _ _).symm
  rw [Step.withStrategy, Step.withStrategy, ← hcount]
  rfl

theorem jumpTo_withStrategy (target : Int32) :
    (m.withStrategy st mode).jumpTo target = (m.jumpTo target).withStrategy st mode := by
  refine Eq.trans ?_ (apply_ite (Step.withStrategy st mode) _ _ _).symm
  rfl

theorem callTo_withStrategy (target : Int32) :
    (m.withStrategy st mode).callTo target = (m.callTo target).withStrategy st mode :=
  m.callTo_mapInst (unrecorded_withStrategy st mode).toUnnoticed target

/-- Executing an instruction commutes with a change of strategy. -/
theorem execute_withStrategy (ins : Instruction) :
    (m.withStrategy st mode).execute ins = (m.execute ins).withStrategy st mode :=
  m.execute_mapInst (unrecorded_withStrategy st mode).toUnnoticed ins
    (fun _ => m.enter_withStrategy ins.operand)
    fun _ => pop_mapInst fun target m => m.jumpTo_withStrategy target.toInt32

end Machine

/-! ## §3 Operations and instructions -/

/-- The operations that a fused pair can end with. -/
def Opcode.endsPair : Opcode → Bool
  | jump | call | load .word => true
  | _ => false

namespace Strategy

/-- A strategy that a program may be prepared for. -/
def Suits (p : Program) (table : Option JumpTable) (st : Strategy) : Prop :=
  st = .interpreted ∨ st = .compiled (prepareCode p table)

theorem suits_prepare (mode : Mode) (p : Program) (table : Option JumpTable) :
    Suits p table (prepare mode p table) := by
  cases mode with
  | interpreted => exact .inl rfl
  | compiled =>
    simp only [prepare]
    split
    · exact .inr rfl
    · exact .inl rfl

theorem getElem?_prepareCode (p : Program) (table : Option JumpTable) (n : Nat) :
    (prepareCode p table)[n]? = p.code[n]?.map fun ins => prepareOp p table ins p.code[n + 1]? :=
  Array.getElem?_mapIdx

/-- An instruction keeps an operation of its own, or begins one of three fused pairs. -/
theorem prepareOp_cases (p : Program) (table : Option JumpTable) (ins : Instruction)
    (next : Option Instruction) :
    prepareOp p table ins next = .single ins ∨
      (∃ x y, ins = ⟨.const, x⟩ ∧ next = some ⟨.jump, y⟩ ∧ prepareOp p table ins next =
        if mayJump p table x then .jumpTo x.toNatClampNeg else .jumpIllegal) ∨
      (∃ x y, ins = ⟨.const, x⟩ ∧ next = some ⟨.call, y⟩ ∧
        prepareOp p table ins next = .callTo x) ∨
      ∃ x y, ins = ⟨.frame, x⟩ ∧ next = some ⟨.load .word, y⟩ ∧
        prepareOp p table ins next = .loadFrame x := by
  obtain ⟨op, x⟩ := ins
  cases next with
  | none => exact .inl rfl
  | some next =>
    obtain ⟨op', y⟩ := next
    simp only [prepareOp]
    split
    · exact .inr (.inl ⟨x, y, by simp_all, by simp_all, rfl⟩)
    · exact .inr (.inr (.inl ⟨x, y, by simp_all, by simp_all, rfl⟩))
    · exact .inr (.inr (.inr ⟨x, y, by simp_all, by simp_all, rfl⟩))
    · exact .inl rfl

end Strategy

namespace Machine

variable {st : Strategy} {mode : Mode} {m : Machine}

/-- The machine after the first instruction of a pair, which pushed `w`. -/
def half (m : Machine) (w : UInt32) : Machine := ⟨m.inst, m.stack.push w, m.pc + 1, m.pc, m.ps⟩

/-- The machine is about to execute an instruction that a fused pair can end with. -/
def EndsPair (n : Machine) : Prop :=
  ∃ next, n.inst.program.code[n.pc]? = some next ∧ next.op.endsPair = true

/-- The first instruction of a pair pushes a word, if there is room for it. -/
theorem step_eq_half {ins : Instruction} {w : UInt32} (hst : m.inst.strategy = .interpreted)
    (hins : m.inst.program.code[m.pc]? = some ins)
    (hpush : m.fetched.execute ins = m.fetched.push w) (hroom : m.stack.hasRoom = true) :
    m.step = .next (m.half w) := by
  rw [step_interpreted hst, hins]
  exact hpush.trans (push_of_hasRoom (m := m.fetched) hroom w)

/-- Prepared code executes what was prepared for an instruction and the one behind it. -/
theorem step_prepared {ins next : Instruction}
    (hst : m.inst.strategy = .compiled (Strategy.prepareCode m.inst.program m.inst.jumpTable))
    (hins : m.inst.program.code[m.pc]? = some ins)
    (hnext : m.inst.program.code[m.pc + 1]? = some next) :
    m.step = m.fetched.executePrepared
      (Strategy.prepareOp m.inst.program m.inst.jumpTable ins (some next)) := by
  rw [step_compiled hst, Strategy.getElem?_prepareCode, hins, hnext, Option.map_some]

/-- Behind an instruction that pushes a word, a step executes the instruction behind it. -/
theorem step_half {next : Instruction} (w : UInt32) (hst : m.inst.strategy = .interpreted)
    (hnext : m.inst.program.code[m.pc + 1]? = some next) :
    (m.half w).step = (m.half w).fetched.execute next := by
  have hcode : (m.half w).inst.program.code[(m.half w).pc]? = some next := hnext
  rw [step_interpreted (m := m.half w) hst, hcode]

/-- A fused pair does in one step what its instructions do in two. The first one pushes `w`,
and the second one is to take it off and go on as `f`. -/
theorem fused_withStrategy {ins next : Instruction} {w : UInt32} {f : Machine → Step}
    (hst : m.inst.strategy = .interpreted) (hins : m.inst.program.code[m.pc]? = some ins)
    (hnext : m.inst.program.code[m.pc + 1]? = some next) (hends : next.op.endsPair = true)
    (hpush : m.fetched.execute ins = m.fetched.push w)
    (htake : m.stack.hasRoom = true → ((m.half w).fetched.execute next).withStrategy st mode =
      f (m.fetched.fetched.withStrategy st mode)) :
    (m.fetched.withStrategy st mode).fused f = m.step.withStrategy st mode ∨
      ∃ n, m.step = .next n ∧ n.EndsPair ∧
        (m.fetched.withStrategy st mode).fused f = n.step.withStrategy st mode := by
  rw [fused_eq]
  by_cases hroom : m.stack.hasRoom = true
  · right
    refine ⟨m.half w, step_eq_half hst hins hpush hroom, ⟨next, hnext, hends⟩, ?_⟩
    rw [step_half w hst hnext, htake hroom]
    exact if_pos hroom
  · left
    rw [step_interpreted hst, hins]
    simp only [hpush, push_of_not_hasRoom (m := m.fetched) hroom w]
    exact if_neg hroom

/-- The operation prepared for an instruction is a step of the interpreter, or two of them. -/
theorem executePrepared_withStrategy {ins : Instruction} (hst : m.inst.strategy = .interpreted)
    (hins : m.inst.program.code[m.pc]? = some ins) :
    let op := Strategy.prepareOp m.inst.program m.inst.jumpTable ins
      m.inst.program.code[m.pc + 1]?
    (m.fetched.withStrategy st mode).executePrepared op = m.step.withStrategy st mode ∨
      ∃ n, m.step = .next n ∧ n.EndsPair ∧
        (m.fetched.withStrategy st mode).executePrepared op = n.step.withStrategy st mode := by
  intro op
  obtain h | ⟨x, y, rfl, hn, h⟩ | ⟨x, y, rfl, hn, h⟩ | ⟨x, y, rfl, hn, h⟩ :=
    Strategy.prepareOp_cases m.inst.program m.inst.jumpTable ins m.inst.program.code[m.pc + 1]?
  · left
    rw [show op = .single ins from h, step_interpreted hst, hins]
    exact m.fetched.execute_withStrategy ins
  · by_cases hj : Strategy.mayJump m.inst.program m.inst.jumpTable x = true
    · rw [show op = .jumpTo x.toNatClampNeg from h.trans (if_pos hj)]
      refine fused_withStrategy (w := x.toUInt32)
        (f := fun m => .next { m with pc := x.toNatClampNeg }) hst hins hn rfl rfl fun _ => ?_
      exact congrArg _ (jumpTo_of_mayJump (m := m.fetched.fetched) hj)
    · rw [show op = .jumpIllegal from h.trans (if_neg hj)]
      refine fused_withStrategy (w := x.toUInt32) (f := fun m => .fault m .illegalJump)
        hst hins hn rfl rfl fun _ => ?_
      exact congrArg _ (jumpTo_of_not_mayJump (m := m.fetched.fetched) hj)
  · rw [show op = .callTo x from h]
    refine fused_withStrategy (w := x.toUInt32) (f := fun m => m.callTo x)
      hst hins hn rfl rfl fun _ => ?_
    exact (m.fetched.fetched.callTo_withStrategy x).symm
  · rw [show op = .loadFrame x from h]
    refine fused_withStrategy (w := (m.ps + x).toUInt32)
      (f := fun m => m.push (m.load (m.ps + x).toUInt32)) hst hins hn rfl rfl fun hroom => ?_
    exact (push_of_hasRoom (m := m.fetched.fetched.withStrategy st mode) hroom _).symm

/-- One step of prepared code is a step of the interpreter, or two of them. -/
theorem step_withStrategy (m : Machine) (mode : Mode) (hst : m.inst.strategy = .interpreted)
    (hs : Strategy.Suits m.inst.program m.inst.jumpTable st) :
    (m.withStrategy st mode).step = m.step.withStrategy st mode ∨
      ∃ n, m.step = .next n ∧ n.EndsPair ∧
        (m.withStrategy st mode).step = n.step.withStrategy st mode := by
  obtain rfl | rfl := hs
  · left
    rw [step_interpreted hst, step_interpreted rfl]
    simp only [program_withStrategy, pc_withStrategy]
    cases m.inst.program.code[m.pc]? with
    | none => rfl
    | some ins => exact m.fetched.execute_withStrategy ins
  · rw [step_compiled (m.strategy_withStrategy)]
    simp only [pc_withStrategy, Strategy.getElem?_prepareCode]
    cases hins : m.inst.program.code[m.pc]? with
    | none =>
      left
      rw [step_interpreted hst, hins]
      rfl
    | some ins => exact executePrepared_withStrategy hst hins

end Machine

/-! ## §4 Courses side by side -/

namespace Moment

open Course (after after_succ)
open Instance (unrecorded_withStrategy)

variable {I : Interface} {σ ω : Type} {world : World I σ ω} {host : Host I σ}
  {c d : Moment I σ ω} {st : Strategy} {mode : Mode} {n : Nat}

theorem start_withStrategy (inst : Instance) (args : CallArgs) (callers : List (Caller I σ))
    (ctx : Context σ ω) :
    start (inst.withStrategy st mode) args callers ctx =
      (start inst args callers ctx).withStrategy st mode :=
  start_mapInst (unrecorded_withStrategy st mode).toUnnoticed inst args callers ctx

/-- An interpreted course that can be laid beside one under the strategy. -/
def Suits (st : Strategy) (c : Moment I σ ω) : Prop :=
  c.inst.strategy = .interpreted ∧ Strategy.Suits c.inst.program c.inst.jumpTable st

theorem Suits.next (h : c.next world host = some d) (hc : Suits st c) : Suits st d := by
  have same := next_sameModule h
  unfold Suits
  rw [same.strategy, same.program, same.jumpTable]
  exact hc

/-- A moment under the strategy is followed by what follows the interpreted moment, or by what
follows that. -/
theorem next_withStrategy (world : World I σ ω) (host : Host I σ) (mode : Mode)
    (hc : Suits st c) :
    (c.withStrategy st mode).next world host =
        (c.next world host).map (Moment.withStrategy st mode) ∨
      ∃ d e, c.next world host = some d ∧ d.next world host = some e ∧
        c.request? = none ∧ d.request? = none ∧
        (c.withStrategy st mode).next world host = some (e.withStrategy st mode) := by
  cases hrunning : c.phase.running? with
  | none =>
    left
    refine next_mapInst (unrecorded_withStrategy st mode) world host c fun m hm => ?_
    simp [hrunning] at hm
  | some m =>
    obtain ⟨phase, stack, callers, ctx⟩ := c
    obtain rfl := Phase.running?_eq_some_iff.1 hrunning
    obtain h | ⟨n, hn, -, h⟩ := m.step_withStrategy mode hc.1 hc.2
    · left
      simp only [withStrategy, Phase.withStrategy, Step.withStrategy, next, h, Option.map_some]
    · right
      refine ⟨⟨.step (.next n), stack, callers, ctx⟩, ⟨.step n.step, stack, callers, ctx⟩,
        by simp only [next, hn], rfl, rfl, rfl, ?_⟩
      simp only [withStrategy, Phase.withStrategy, Step.withStrategy, next, h]

theorem request?_withStrategy (c : Moment I σ ω) :
    (c.withStrategy st mode).request? = c.request? :=
  request?_mapInst (unrecorded_withStrategy st mode).toUnnoticed c

theorem outcome?_withStrategy (c : Moment I σ ω) :
    (c.withStrategy st mode).outcome? =
      c.outcome?.map fun out => { out with module := out.module.withStrategy st mode } :=
  outcome?_mapInst (unrecorded_withStrategy st mode).toUnnoticed c

/-- A course under the strategy is matched by an interpreted one with the same system
calls. -/
theorem exists_after_of_withStrategy {e : Moment I σ ω} (hc : Suits st c)
    (h : after (next world host) n (c.withStrategy st mode) = some e) :
    ∃ k d, after (next world host) k c = some d ∧ e = d.withStrategy st mode ∧
      c.requests world host k = (c.withStrategy st mode).requests world host n := by
  induction n generalizing c with
  | zero =>
    cases h
    exact ⟨0, c, rfl, rfl, rfl⟩
  | succ n ih =>
    cases hw : (c.withStrategy st mode).next world host with
    | none => simp [after, hw] at h
    | some c' =>
      rw [after_succ hw] at h
      obtain hone | ⟨d, d', hd, hd', hcr, hdr, htwo⟩ := next_withStrategy world host mode hc
      · rw [hone, Option.map_eq_some_iff] at hw
        obtain ⟨d, hd, rfl⟩ := hw
        obtain ⟨k, f, hf, he, hreq⟩ := ih (hc.next hd) h
        refine ⟨k + 1, f, by rw [after_succ hd, hf], he, ?_⟩
        rw [requests_succ hd, requests_succ (hone.trans (congrArg _ hd)), hreq,
          request?_withStrategy]
      · obtain rfl : c' = d'.withStrategy st mode := Option.some.inj (hw.symm.trans htwo)
        obtain ⟨k, f, hf, he, hreq⟩ := ih ((hc.next hd).next hd') h
        refine ⟨k + 2, f, by rw [after_succ hd, after_succ hd', hf], he, ?_⟩
        rw [requests_succ hd, requests_succ hd', requests_succ hw, hreq, request?_withStrategy,
          hcr, hdr]
        rfl

/-- An interpreted course that ends is matched by one under the strategy with the same system
calls. -/
theorem exists_after_withStrategy (mode : Mode) (hc : Suits st c)
    (hlast : d.next world host = none) (h : after (next world host) n c = some d) :
    ∃ k, after (next world host) k (c.withStrategy st mode) = some (d.withStrategy st mode) ∧
      (c.withStrategy st mode).requests world host k = c.requests world host n := by
  -- one moment under the strategy may use up two, so the length is not taken off one by one
  induction n using Nat.strongRecOn generalizing c with
  | ind n ih =>
    cases n with
    | zero =>
      cases h
      exact ⟨0, rfl, rfl⟩
    | succ n =>
      obtain hone | ⟨c', e, hc', he, hcr, her, htwo⟩ := next_withStrategy world host mode hc
      · cases hc' : c.next world host with
        | none => simp [after, hc'] at h
        | some c' =>
          rw [after_succ hc'] at h
          obtain ⟨k, hk, hreq⟩ := ih n (Nat.lt_succ_self n) (hc.next hc') h
          have hw := hone.trans (congrArg _ hc')
          refine ⟨k + 1, by rw [after_succ hw]; exact hk, ?_⟩
          rw [requests_succ hw, requests_succ hc', request?_withStrategy]
          exact congrArg _ hreq
      · rw [after_succ hc'] at h
        cases n with
        | zero =>
          -- the course does not end between the two instructions of a pair
          cases h
          simp [he] at hlast
        | succ n =>
          rw [after_succ he] at h
          obtain ⟨k, hk, hreq⟩ := ih n (by omega) ((hc.next hc').next he) h
          refine ⟨k + 1, by rw [after_succ htwo, hk], ?_⟩
          rw [requests_succ htwo, requests_succ hc', requests_succ he, hreq,
            request?_withStrategy, hcr, her]
          rfl

theorem suits_start {inst : Instance} (hst : inst.strategy = .interpreted)
    (hs : Strategy.Suits inst.program inst.jumpTable st) (args : CallArgs)
    (callers : List (Caller I σ)) (ctx : Context σ ω) : Suits st (start inst args callers ctx) := by
  have same := start_sameModule inst args callers ctx
  unfold Suits
  rw [same.strategy, same.program, same.jumpTable]
  exact ⟨hst, hs⟩

/-- The outcome of a course that began with `inst`, once for the strategy and once for the
mode that it belongs to. -/
theorem outcome?_inMode {inst : Instance} (h : Instance.SameModule inst d.inst) (mode : Mode) :
    (d.withStrategy (Strategy.prepare mode inst.program inst.jumpTable) mode).outcome? =
      d.outcome?.map (Outcome.inMode mode) := by
  rw [outcome?_withStrategy]
  obtain ⟨phase, stack, callers, ctx⟩ := d
  cases phase with
  | step s => rfl
  | service sv w inst => rfl
  | ended reply i =>
    cases callers with
    | nil =>
      have hp : i.program = inst.program := h.program
      have hj : i.jumpTable = inst.jumpTable := h.jumpTable
      simp only [outcome?, Option.map_some, Outcome.inMode, Instance.inMode, Instance.deactivate,
        hp, hj]
    | cons caller callers => rfl

end Moment

/-! ## §5 Calls -/

namespace Instance

variable {I : Interface} {σ ω : Type}

/-- A call in a mode ends as it does when interpreted, with the module in that mode. -/
theorem ends_inMode_iff {world : World I σ ω} {host : Host I σ} {command : Int32}
    {args : List Int32} {inst : Instance} {ctx : Context σ ω} (mode : Mode)
    {out : Outcome Instance σ ω} {log : List SyscallArgs} :
    Ends world host command args (inst.inMode mode) ctx out log ↔
      ∃ base, Ends world host command args (inst.inMode .interpreted) ctx base log ∧
        out = base.inMode mode := by
  have hacc (mode : Mode) : (inst.inMode mode).accept command args = inst.accept command args :=
    rfl
  unfold Ends
  rw [hacc, hacc]
  cases inst.accept command args with
  | error e =>
    constructor
    · rintro ⟨rfl, rfl⟩
      exact ⟨_, ⟨rfl, rfl⟩, rfl⟩
    · rintro ⟨base, ⟨rfl, rfl⟩, rfl⟩
      exact ⟨rfl, rfl⟩
  | ok packed =>
    -- the interpreted course, and the one in the mode as that course under a strategy
    let i := inst.inMode .interpreted
    let st := Strategy.prepare mode i.program i.jumpTable
    have hstart : Moment.start (inst.inMode mode) packed [] ctx =
        (Moment.start i packed [] ctx : Moment I σ ω).withStrategy st mode :=
      Moment.start_withStrategy i packed [] ctx
    have hsuits : Moment.Suits st (Moment.start i packed [] ctx : Moment I σ ω) :=
      Moment.suits_start rfl (Strategy.suits_prepare mode _ _) packed [] ctx
    have hsame {n : Nat} {d : Moment I σ ω}
        (hd : Course.after (Moment.next world host) n (Moment.start i packed [] ctx) = some d) :
        SameModule i d.inst :=
      (Moment.start_sameModule i packed [] ctx).trans (Moment.Reaches.sameModule ⟨n, hd⟩)
    simp only [hstart]
    constructor
    · rintro ⟨n, e, he, hout, rfl⟩
      obtain ⟨k, d, hd, rfl, hreq⟩ := Moment.exists_after_of_withStrategy hsuits he
      rw [Moment.outcome?_inMode (hsame hd), Option.map_eq_some_iff] at hout
      obtain ⟨base, hbase, rfl⟩ := hout
      exact ⟨base, ⟨k, d, hd, hbase, hreq⟩, rfl⟩
    · rintro ⟨base, ⟨n, d, hd, hbase, rfl⟩, rfl⟩
      obtain ⟨k, hk, hreq⟩ := Moment.exists_after_withStrategy mode hsuits
        (Moment.next_eq_none_of_outcome? hbase) hd
      refine ⟨k, _, hk, ?_, hreq⟩
      rw [Moment.outcome?_inMode (hsame hd), hbase]
      rfl

/-- An image loaded for one mode is the one loaded for another, prepared for that mode. -/
theorem load_inMode (name : String) (bytes : Bytes) (opts : LoadOptions) (m m' : Mode) :
    load name bytes { opts with mode := m } =
      (load name bytes { opts with mode := m' }).map (inMode m) := by
  unfold load
  cases parse bytes with
  | error e => rfl
  | ok parsed => rfl

theorem Ends.inMode {world : World I σ ω} {host : Host I σ} {command : Int32}
    {args : List Int32} {inst : Instance} {ctx : Context σ ω} {out : Outcome Instance σ ω}
    {log : List SyscallArgs} (m m' : Mode)
    (h : Ends world host command args (inst.inMode m) ctx (out.inMode m) log) :
    Ends world host command args (inst.inMode m') ctx (out.inMode m') log := by
  obtain ⟨base, hbase, heq⟩ := (ends_inMode_iff m).1 h
  refine (ends_inMode_iff m').2 ⟨base, hbase, ?_⟩
  calc out.inMode m'
      = (out.inMode m).inMode m' := rfl
    _ = (base.inMode m).inMode m' := by rw [heq]
    _ = base.inMode m' := rfl

/-- A call has the same outcome in every mode, after the same system calls: the images loaded
for two modes differ in nothing else, a call leaves the module in its mode, some fuel gives an
outcome in one mode exactly when some fuel gives it in the other, and the courses of the two
calls end together and with the same list of system calls. -/
theorem call_independent_of_mode (world : World I σ ω) (host : Host I σ) (command : Int32)
    (args : List Int32) (inst : Instance) (ctx : Context σ ω) (m m' : Mode) :
    (∀ (name : String) (bytes : Bytes) (opts : LoadOptions),
      load name bytes { opts with mode := m } =
        (load name bytes { opts with mode := m' }).map (inMode m)) ∧
    (∀ fuel, call world host fuel command args (inst.inMode m) ctx =
      (call world host fuel command args (inst.inMode m) ctx).map (Outcome.inMode m)) ∧
    (∀ out : Outcome Instance σ ω,
      (∃ fuel, call world host fuel command args (inst.inMode m) ctx = some (out.inMode m)) ↔
      ∃ fuel, call world host fuel command args (inst.inMode m') ctx = some (out.inMode m')) ∧
    ∀ (out : Outcome Instance σ ω) (log : List SyscallArgs),
      Ends world host command args (inst.inMode m) ctx (out.inMode m) log ↔
      Ends world host command args (inst.inMode m') ctx (out.inMode m') log := by
  refine ⟨fun name bytes opts => load_inMode name bytes opts m m', ?_, ?_, ?_⟩
  · intro fuel
    cases hcall : call world host fuel command args (inst.inMode m) ctx with
    | none => rfl
    | some out =>
      obtain ⟨log, hlog⟩ := exists_call_iff.1 ⟨fuel, hcall⟩
      obtain ⟨base, -, rfl⟩ := (ends_inMode_iff m).1 hlog
      rfl
  · intro out
    simp only [exists_call_iff]
    constructor
    · rintro ⟨log, h⟩
      exact ⟨log, h.inMode m m'⟩
    · rintro ⟨log, h⟩
      exact ⟨log, h.inMode m' m⟩
  · intro out log
    exact ⟨Ends.inMode m m', Ends.inMode m' m⟩

end Instance

end SandboxVm
