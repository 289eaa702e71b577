/-
SandboxVm.Proofs.Instructions — one instruction at a time.

Where control goes and where the program stack ends up is decided by a few instructions, and
the mode decides how many of them a step executes. Both questions are answered here once.

  §1  `Machine.Moves` lists what an instruction can do to the registers of a machine, and
      `moves_execute` proves the list complete;
  §2  `Machine.Executes` cuts a step into instructions, whatever the mode: a step is one
      instruction, or the two of a fused pair;
  §3  `Moment.Throughout`: what holds of all machines of a moment, and what has to be shown
      for it to hold at the next one;
  §4  `Instance.Carries`: the instances that hold the code of an image, from a load or a
      reload up to the next reload.
-/
import SandboxVm.Proofs.Faults
import SandboxVm.Proofs.ModeIndependence

namespace SandboxVm

/-! ## §1 Registers -/

/-- The difference of two numbers is exact unless it leaves the range. -/
theorem toInt_sub_of_le {a b : Int32} (hlow : -2147483648 ≤ a.toInt - b.toInt)
    (hhigh : a.toInt - b.toInt < 2147483648) : (a - b).toInt = a.toInt - b.toInt := by
  rw [Int32.toInt_sub]
  exact Int.bmod_eq_of_le (show -(2 ^ 32 / 2) ≤ a.toInt - b.toInt by omega)
    (show a.toInt - b.toInt < (2 ^ 32 + 1) / 2 by omega)

/-- Whether an operation always goes on behind itself and leaves the program stack alone. -/
def Opcode.isPlain : Opcode → Bool
  | enter | leave | call | jump | branch _ => false
  | _ => true

namespace Machine

/-- The registers of a machine: the instruction being executed, the next one, and the program
stack pointer. -/
structure At (m : Machine) (cur pc : Nat) (ps : Int32) : Prop where
  cur : m.cur = cur
  pc : m.pc = pc
  ps : m.ps = ps

/-- The number that a transfer of control goes by: jumps and calls find it on the operand
stack, returns in the frame below the one that they close. -/
def target? (n : Machine) (ins : Instruction) : Option Int32 :=
  match ins.op with
  | .jump | .call => n.stack.operands.head?.map UInt32.toInt32
  | .leave => some (n.load (n.ps + ins.operand).toUInt32).toInt32
  | _ => none

/-- What the instruction that `n` is about to execute can do to the registers, in a program
with jumps to the numbers that are permitted. -/
inductive Moves (p : Program) (permits : Int32 → Prop) (n : Machine) (ins : Instruction) :
    Step → Prop where
  /-- Execution goes on with the following instruction. -/
  | following {m : Machine} (hop : ins.op.isPlain = true ∨ ins.op.isBranch = true)
      (h : m.At n.pc (n.pc + 1) n.ps) : Moves p permits n ins (.next m)
  /-- The instruction faults before it comes to a transfer. -/
  | failed {m : Machine} {cause : FaultCause} (hop : ins.op ≠ .enter)
      (ht : n.target? ins = none) (h : m.At n.pc (n.pc + 1) n.ps) :
    Moves p permits n ins (.fault m cause)
  /-- A conditional branch is taken. -/
  | branch {m : Machine} {c : Condition} (hop : ins.op = .branch c)
      (h : m.At n.pc ins.operand.toNatClampNeg n.ps) : Moves p permits n ins (.next m)
  | enter {m : Machine} (hop : ins.op = .enter)
      (hps : ¬ n.ps - ins.operand < n.inst.stackBottom)
      (h : m.At n.pc (n.pc + 1) (n.ps - ins.operand)) : Moves p permits n ins (.next m)
  | overflow {m : Machine} (hop : ins.op = .enter)
      (hps : n.ps - ins.operand < n.inst.stackBottom)
      (h : m.At n.pc (n.pc + 1) (n.ps - ins.operand)) :
    Moves p permits n ins (.fault m .stackOverflow)
  | jump {m : Machine} {t : Int32} (hop : ins.op = .jump) (ht : n.target? ins = some t)
      (hmay : permits t) (h : m.At n.pc t.toNatClampNeg n.ps) : Moves p permits n ins (.next m)
  | illegalJump {m : Machine} {t : Int32} (hop : ins.op = .jump) (ht : n.target? ins = some t)
      (hmay : ¬ permits t) (h : m.At n.pc (n.pc + 1) n.ps) :
    Moves p permits n ins (.fault m .illegalJump)
  /-- A call of a negative number is one of a host service. -/
  | service {m : Machine} {saved : UInt32} {t : Int32} (hop : ins.op = .call)
      (ht : n.target? ins = some t) (hneg : t < 0) (h : m.At n.pc (n.pc + 1) n.ps) :
    Moves p permits n ins (.system m saved)
  | call {m : Machine} {t : Int32} (hop : ins.op = .call) (ht : n.target? ins = some t)
      (hin : p.isInstruction t = true) (h : m.At n.pc t.toNatClampNeg n.ps) :
    Moves p permits n ins (.next m)
  | illegalCall {m : Machine} {t : Int32} (hop : ins.op = .call) (ht : n.target? ins = some t)
      (hneg : ¬ t < 0) (hin : ¬ p.isInstruction t = true) (h : m.At n.pc (n.pc + 1) n.ps) :
    Moves p permits n ins (.fault m .pcOutOfRangeInCall)
  /-- The outermost frame is left. -/
  | done {m : Machine} (hop : ins.op = .leave) (ht : n.target? ins = some returnSentinel)
      (h : m.At n.pc (n.pc + 1) (n.ps + ins.operand)) : Moves p permits n ins (.done m)
  | leave {m : Machine} {t : Int32} (hop : ins.op = .leave) (ht : n.target? ins = some t)
      (hne : t ≠ returnSentinel) (hin : p.isInstruction t = true)
      (h : m.At n.pc t.toNatClampNeg (n.ps + ins.operand)) : Moves p permits n ins (.next m)
  | illegalLeave {m : Machine} {t : Int32} (hop : ins.op = .leave)
      (ht : n.target? ins = some t) (hne : t ≠ returnSentinel)
      (hin : ¬ p.isInstruction t = true) (h : m.At n.pc (n.pc + 1) (n.ps + ins.operand)) :
    Moves p permits n ins (.fault m .pcOutOfRangeInLeave)

theorem At.refl (m : Machine) : m.At m.cur m.pc m.ps := ⟨rfl, rfl, rfl⟩

theorem At.trans {m n : Machine} {cur pc : Nat} {ps : Int32} (hm : m.At n.cur n.pc n.ps)
    (hn : n.At cur pc ps) : m.At cur pc ps :=
  ⟨hm.cur.trans hn.cur, hm.pc.trans hn.pc, hm.ps.trans hn.ps⟩

theorem target?_of_isPlain (n : Machine) {ins : Instruction} (h : ins.op.isPlain = true) :
    n.target? ins = none := by
  unfold target?
  split
  · rename_i hop
    simp [hop, Opcode.isPlain] at h
  · rename_i hop
    simp [hop, Opcode.isPlain] at h
  · rename_i hop
    simp [hop, Opcode.isPlain] at h
  · rfl

/-- A step that leaves the registers of `m` alone. -/
inductive Stays (m : Machine) : Step → Prop where
  | next {n : Machine} (h : n.At m.cur m.pc m.ps) : Stays m (.next n)
  | fault {n : Machine} {cause : FaultCause} (h : n.At m.cur m.pc m.ps) :
    Stays m (.fault n cause)

variable {m n : Machine}

/-- Only the registers matter for staying at them. -/
theorem Stays.of_at {s : Step} (hs : n.Stays s) (hn : n.At m.cur m.pc m.ps) : m.Stays s := by
  cases hs with
  | next h => exact .next (h.trans hn)
  | fault h => exact .fault (h.trans hn)

theorem pop_stays {f : UInt32 → Machine → Step} (h : ∀ a s, m.Stays (f a { m with stack := s })) :
    m.Stays (m.pop f) := by
  obtain hp | ⟨a, s, -, hp⟩ := m.pop_cases f
  · rw [hp]
    exact .fault (.refl m)
  · rw [hp]
    exact h a s

theorem popTwo_stays {f : UInt32 → UInt32 → Machine → Step}
    (h : ∀ a b s, m.Stays (f a b { m with stack := s })) : m.Stays (m.popTwo f) := by
  obtain hp | ⟨a, b, s, -, hp⟩ := m.popTwo_cases f
  · rw [hp]
    exact .fault (.refl m)
  · rw [hp]
    exact h a b s

theorem push_stays (w : UInt32) : m.Stays (m.push w) := by
  unfold push
  split
  · exact .next ⟨rfl, rfl, rfl⟩
  · exact .fault (.refl m)

/-- A machine goes on where it waited for a service. -/
theorem resume_stays (m : Machine) (saved : UInt32) (r : Int32) : m.Stays (m.resume saved r) :=
  (push_stays (m := m.store (m.ps.toUInt32 + 4) saved) r.toUInt32).of_at ⟨rfl, rfl, rfl⟩

theorem blockCopy_stays (dest src n : UInt32) : m.Stays (m.blockCopy dest src n) := by
  unfold blockCopy
  split
  · exact .next ⟨rfl, rfl, rfl⟩
  · exact .fault (.refl m)

theorem execute_stays {ins : Instruction} (h : ins.op.isPlain = true) :
    m.Stays (m.execute ins) := by
  unfold execute
  cases hop : ins.op with
  | undef => exact .fault (.refl m)
  | ignore => exact .next (.refl m)
  | breakpoint => exact .next ⟨rfl, rfl, rfl⟩
  | push => exact push_stays _
  | const => exact push_stays _
  | frame => exact push_stays _
  | pop => exact pop_stays fun a s => .next ⟨rfl, rfl, rfl⟩
  | load w => exact pop_stays fun a s => .next ⟨rfl, rfl, rfl⟩
  | store w => exact popTwo_stays fun a b s => .next ⟨rfl, rfl, rfl⟩
  | arg => exact pop_stays fun a s => .next ⟨rfl, rfl, rfl⟩
  | blockCopy =>
    refine popTwo_stays fun a b s => ?_
    exact (blockCopy_stays (m := { m with stack := s }) _ _ _).of_at ⟨rfl, rfl, rfl⟩
  | unary op => exact pop_stays fun a s => .next ⟨rfl, rfl, rfl⟩
  | binary op => exact popTwo_stays fun a b s => .next ⟨rfl, rfl, rfl⟩
  | divide op =>
    refine popTwo_stays fun a b s => ?_
    cases op.result? a b with
    | some r => exact .next ⟨rfl, rfl, rfl⟩
    | none => exact .fault ⟨rfl, rfl, rfl⟩
  | enter => simp [hop, Opcode.isPlain] at h
  | leave => simp [hop, Opcode.isPlain] at h
  | call => simp [hop, Opcode.isPlain] at h
  | jump => simp [hop, Opcode.isPlain] at h
  | branch c => simp [hop, Opcode.isPlain] at h

section Complete

variable {p : Program} {permits : Int32 → Prop} {ins : Instruction}

theorem moves_of_stays {s : Step} (hop : ins.op.isPlain = true) (h : n.fetched.Stays s) :
    Moves p permits n ins s := by
  cases h with
  | next h => exact .following (.inl hop) h
  | fault h =>
    refine .failed ?_ (n.target?_of_isPlain hop) h
    intro henter
    simp [henter, Opcode.isPlain] at hop

theorem moves_enter (hop : ins.op = .enter) :
    Moves p permits n ins (n.fetched.enter ins.operand) := by
  have hcount (m : Machine) : m.countEntry.At m.cur m.pc m.ps := by
    unfold countEntry
    split <;> exact ⟨rfl, rfl, rfl⟩
  simp only [Machine.enter]
  split
  · rename_i hlt
    exact .overflow hop hlt ⟨rfl, rfl, rfl⟩
  · rename_i hge
    exact .enter hop hge (hcount _)

theorem moves_leave (hop : ins.op = .leave) :
    Moves n.inst.program permits n ins (n.fetched.leave ins.operand) := by
  have ht : n.target? ins = some (n.load (n.ps + ins.operand).toUInt32).toInt32 := by
    simp [target?, hop]
  simp only [Machine.leave]
  split
  · rename_i hdone
    exact .done hop (ht.trans (congrArg some hdone)) ⟨rfl, rfl, rfl⟩
  · rename_i hne
    split
    · rename_i hin
      exact .leave hop ht hne hin ⟨rfl, rfl, rfl⟩
    · rename_i hin
      exact .illegalLeave hop ht hne hin ⟨rfl, rfl, rfl⟩

/-- Jumps and calls go by the topmost operand; without one they fault. -/
theorem moves_pop {f : UInt32 → Machine → Step} (hop : ins.op = .jump ∨ ins.op = .call)
    (h : ∀ a s, n.target? ins = some a.toInt32 →
      Moves p permits n ins (f a { n.fetched with stack := s })) :
    Moves p permits n ins (n.fetched.pop f) := by
  have ht : n.target? ins = n.stack.operands.head?.map UInt32.toInt32 := by
    rcases hop with hop | hop <;> simp [target?, hop]
  cases hs : n.stack.pop? with
  | none =>
    have hpop : n.fetched.pop f = .fault n.fetched .opStackUnderflow := by
      simp [fetched, pop, hs]
    rw [hpop]
    refine .failed ?_ ?_ ⟨rfl, rfl, rfl⟩
    · rcases hop with hop | hop <;> simp [hop]
    · rw [ht, OperandStack.pop?_eq_none_iff.1 hs]
      rfl
  | some top =>
    have hpop : n.fetched.pop f = f top.1 { n.fetched with stack := top.2 } := by
      simp [fetched, pop, hs]
    rw [hpop]
    refine h top.1 top.2 ?_
    rw [ht, OperandStack.pop?_eq_some_iff.1 hs]
    rfl

theorem moves_callTo (hop : ins.op = .call) {t : Int32} (ht : n.target? ins = some t)
    (s : OperandStack) :
    Moves n.inst.program permits n ins (callTo { n.fetched with stack := s } t) := by
  by_cases hneg : t < 0
  · rw [callTo_of_neg hneg]
    exact .service hop ht hneg ⟨rfl, rfl, rfl⟩
  · by_cases hin : n.inst.program.isInstruction t = true
    · rw [callTo_of_instruction (m := { n.fetched with stack := s }) hneg hin]
      exact .call hop ht hin ⟨rfl, rfl, rfl⟩
    · rw [callTo_of_not_instruction (m := { n.fetched with stack := s }) hneg hin]
      exact .illegalCall hop ht hneg hin ⟨rfl, rfl, rfl⟩

theorem moves_jumpTo (hop : ins.op = .jump) {t : Int32} (ht : n.target? ins = some t)
    (hp : ∀ t, permits t ↔ Strategy.mayJump n.inst.program n.inst.jumpTable t = true)
    (s : OperandStack) : Moves p permits n ins (jumpTo { n.fetched with stack := s } t) := by
  by_cases hmay : Strategy.mayJump n.inst.program n.inst.jumpTable t = true
  · rw [jumpTo_of_mayJump (m := { n.fetched with stack := s }) hmay]
    exact .jump hop ht ((hp t).2 hmay) ⟨rfl, rfl, rfl⟩
  · rw [jumpTo_of_not_mayJump (m := { n.fetched with stack := s }) hmay]
    exact .illegalJump hop ht (fun h => hmay ((hp t).1 h)) ⟨rfl, rfl, rfl⟩

theorem moves_branch {c : Condition} (hop : ins.op = .branch c) :
    Moves p permits n ins (n.fetched.popTwo fun a b m =>
      .next (if c.holds a b then { m with pc := ins.operand.toNatClampNeg } else m)) := by
  obtain hp | ⟨a, b, s, -, hp⟩ := n.fetched.popTwo_cases fun a b m =>
      .next (if c.holds a b then { m with pc := ins.operand.toNatClampNeg } else m)
  · rw [hp]
    exact .failed (by simp [hop]) (by simp [target?, hop]) ⟨rfl, rfl, rfl⟩
  · rw [hp]
    split
    · exact .branch hop ⟨rfl, rfl, rfl⟩
    · exact .following (.inr (by simp [hop, Opcode.isBranch])) ⟨rfl, rfl, rfl⟩

/-- Executing an instruction moves the registers as `Moves` says. -/
theorem moves_execute (n : Machine) (ins : Instruction) (permits : Int32 → Prop)
    (hp : ∀ t, permits t ↔ Strategy.mayJump n.inst.program n.inst.jumpTable t = true) :
    Moves n.inst.program permits n ins (n.fetched.execute ins) := by
  by_cases hplain : ins.op.isPlain = true
  · exact moves_of_stays hplain (execute_stays hplain)
  · unfold execute
    cases hop : ins.op with
    | enter => exact moves_enter hop
    | leave => exact moves_leave hop
    | call => exact moves_pop (.inr hop) fun a s ht => moves_callTo hop ht s
    | jump => exact moves_pop (.inl hop) fun a s ht => moves_jumpTo hop ht hp s
    | branch c => exact moves_branch hop
    | _ => simp [hop, Opcode.isPlain] at hplain

end Complete

/-! ## §2 Steps and instructions -/

/-- Executes the next instruction, whatever the strategy. -/
def executeOne (m : Machine) : Step :=
  match m.inst.program.code[m.pc]? with
  | some ins => m.fetched.execute ins
  | none => .fault { m with cur := m.pc } .pcOutOfRange

theorem executeOne_of_getElem? {ins : Instruction}
    (hins : m.inst.program.code[m.pc]? = some ins) : m.executeOne = m.fetched.execute ins := by
  simp [executeOne, hins]

theorem executeOne_executed (m : Machine) : m.inst.Executed m.executeOne.inst := by
  unfold executeOne
  split
  · exact m.fetched.execute_executed _
  · exact .refl m.inst

theorem executeOne_withStrategy (m : Machine) (st : Strategy) (mode : Mode) :
    (m.withStrategy st mode).executeOne = m.executeOne.withStrategy st mode := by
  simp only [executeOne, program_withStrategy, pc_withStrategy]
  split
  · exact m.fetched.execute_withStrategy _
  · rfl

/-- The machine `n` executes an instruction in a step of `m`: the first one, or in prepared code
the second one of a pair. -/
inductive Executes (m : Machine) : Machine → Prop where
  | first : Executes m m
  | second {n : Machine} (hpair : n.EndsPair) (hnext : m.executeOne = .next n)
      (hstep : m.step = n.executeOne) : Executes m n

/-- A step of code that was prepared for any mode is made of instructions. -/
theorem exists_executes (m : Machine)
    (hs : Strategy.Suits m.inst.program m.inst.jumpTable m.inst.strategy) :
    ∃ n, m.Executes n ∧ m.step = n.executeOne := by
  -- the interpreted machine, which differs from this one in its strategy only
  let i := m.withStrategy .interpreted m.inst.requested
  have hi : i.withStrategy m.inst.strategy m.inst.requested = m := rfl
  have hone : i.executeOne.withStrategy m.inst.strategy m.inst.requested = m.executeOne := by
    rw [← executeOne_withStrategy, hi]
  have hinterp {n : Machine} (hn : n.inst.strategy = .interpreted) : n.step = n.executeOne :=
    step_interpreted hn
  obtain h | ⟨n, hn, hpair, h⟩ := i.step_withStrategy m.inst.requested rfl hs
  · rw [hi, hinterp (n := i) rfl, hone] at h
    exact ⟨m, .first, h⟩
  · rw [hinterp (n := i) rfl] at hn
    have hst : n.inst.strategy = .interpreted := by
      have hsame := i.executeOne_executed.sameModule.strategy
      rw [hn] at hsame
      exact hsame
    have hnext : m.executeOne = .next (n.withStrategy m.inst.strategy m.inst.requested) := by
      rw [← hone, hn]
      rfl
    rw [hi, hinterp hst, ← executeOne_withStrategy] at h
    have hends : (n.withStrategy m.inst.strategy m.inst.requested).EndsPair := hpair
    exact ⟨_, .second hends hnext h, h⟩

/-- An instruction that cannot begin a pair is a step by itself. -/
theorem step_of_single {ins : Instruction}
    (hs : Strategy.Suits m.inst.program m.inst.jumpTable m.inst.strategy)
    (hins : m.inst.program.code[m.pc]? = some ins) (hconst : ins.op ≠ .const)
    (hframe : ins.op ≠ .frame) : m.step = m.fetched.execute ins := by
  rcases hs with hst | hst
  · rw [step_interpreted hst, hins]
  · have hop : (Strategy.prepareCode m.inst.program m.inst.jumpTable)[m.pc]? =
        some (.single ins) := by
      rw [Strategy.getElem?_prepareCode, hins, Option.map_some]
      obtain h | ⟨x, y, rfl, -⟩ | ⟨x, y, rfl, -⟩ | ⟨x, y, rfl, -⟩ :=
        Strategy.prepareOp_cases m.inst.program m.inst.jumpTable ins
          m.inst.program.code[m.pc + 1]?
      · rw [h]
      · exact absurd rfl hconst
      · exact absurd rfl hconst
      · exact absurd rfl hframe
    rw [step_compiled hst, hop]
    rfl

/-- What every instruction of a step hands on is handed on by the step. -/
theorem step_preserves {Q : Step → Prop}
    (hs : Strategy.Suits m.inst.program m.inst.jumpTable m.inst.strategy)
    (h : ∀ n, m.Executes n → Q (.next n) → Q n.executeOne) (hq : Q (.next m)) : Q m.step := by
  obtain ⟨n, hn, hstep⟩ := m.exists_executes hs
  rw [hstep]
  apply h n hn
  cases hn with
  | first => exact hq
  | second hpair hnext hstep =>
    have hfirst := h m .first hq
    rwa [hnext] at hfirst

end Machine

/-! ## §3 Machines of a moment -/

/-- What holds of the step that the innermost call has made, or of the machine that waits for a
service. -/
def Phase.Holds {I : Interface} {σ : Type} (S : Step → Prop) (W : Waiting → Prop) :
    Phase I σ → Prop
  | .step s => S s
  | .service _ w _ => W w
  | .ended _ _ => True

namespace Moment

variable {I : Interface} {σ ω : Type} {world : World I σ ω} {host : Host I σ}
  {c d : Moment I σ ω} {S : Step → Prop} {W : Waiting → Prop}

/-- What holds of the innermost call and of every call that waits. -/
structure Throughout (S : Step → Prop) (W : Waiting → Prop) (c : Moment I σ ω) : Prop where
  innermost : c.phase.Holds S W
  waiting : ∀ caller ∈ c.callers, W caller.waiting

theorem answered_holds {w : Waiting} (i : Instance) (reply : Reply)
    (h : ∀ r, S ((w.machine i).resume w.saved r)) :
    (answered w i reply : Phase I σ).Holds S W := by
  cases reply with
  | error e => trivial
  | ok r =>
    simp only [answered]
    split
    · trivial
    · exact h r

/-- What the machines hand on holds at the next moment: instructions, system calls with the
machine that waits for them, replies, and calls that begin. -/
theorem Throughout.next (h : c.next world host = some d) (hc : c.Throughout S W)
    (hexecute : ∀ m, c.phase = .step (.next m) → S m.step)
    (hsystem : ∀ m saved, S (.system m saved) → W ⟨m.stack, m.pc, m.cur, m.ps, saved⟩)
    (hresume : ∀ w i r, W w → S ((w.machine i).resume w.saved r))
    (hbegin : ∀ args, S (Machine.begin c.inst.activate args)) : d.Throughout S W := by
  obtain ⟨hin, hwait⟩ := hc
  cases follows_of_next h with
  | execute m => exact ⟨hexecute m rfl, hwait⟩
  | finish m => exact ⟨trivial, hwait⟩
  | fail m cause => exact ⟨trivial, hwait⟩
  | system m saved => exact ⟨hsystem m saved hin, hwait⟩
  | reply s reply w i => exact ⟨answered_holds i reply fun r => hresume w i r hin, hwait⟩
  | view k w i => exact ⟨hin, hwait⟩
  | edit e k w i => exact ⟨hin, hwait⟩
  | refuse s command args k e w i => exact ⟨hin, hwait⟩
  | nest s command args k packed w i =>
    refine ⟨hbegin packed, ?_⟩
    intro caller hcaller
    rcases List.mem_cons.1 hcaller with rfl | hcaller
    · exact hin
    · exact hwait caller hcaller
  | ask s q k a w i => exact ⟨hin, hwait⟩
  | «return» reply i caller =>
    refine ⟨hwait caller List.mem_cons_self, ?_⟩
    intro x hx
    exact hwait x (List.mem_cons_of_mem _ hx)

end Moment

/-! ## §4 Instances that carry an image -/

namespace Instance

theorem Prepared.of_sameModule {parsed : Parsed} {a b : Instance} (ha : a.Prepared parsed)
    (h : SameModule a b) : b.Prepared parsed where
  header := h.header.trans ha.header
  jumpTable := h.jumpTable.trans ha.jumpTable
  program := h.program.trans ha.program
  strategy := by
    rw [h.strategy, ha.strategy, h.requested, h.program, h.jumpTable]

theorem Prepared.of_operated {parsed : Parsed} {a b : Instance} (ha : a.Prepared parsed)
    (h : Operated a b) : b.Prepared parsed := by
  rw [h.rest]
  exact ⟨ha.header, ha.jumpTable, ha.program, ha.strategy⟩

theorem Prepared.suits {parsed : Parsed} {a : Instance} (ha : a.Prepared parsed) :
    Strategy.Suits a.program a.jumpTable a.strategy := by
  rw [ha.strategy]
  exact Strategy.suits_prepare _ _ _

section Calls

variable {I : Interface} {σ ω : Type} {world : World I σ ω} {host : Host I σ} {fuel : Nat}
  {command : Int32} {args : List Int32} {b : Instance} {ctx : Context σ ω}

theorem Visits.sameModule {c : Moment I σ ω} (hc : Visits world host command args b ctx c) :
    SameModule b c.inst := by
  obtain ⟨packed, -, hr⟩ := hc
  exact (Moment.start_sameModule b packed [] ctx).trans (Moment.Reaches.sameModule hr)

theorem Visits.ne_unloaded {c : Moment I σ ω} (hc : Visits world host command args b ctx c) :
    b.state ≠ .unloaded := by
  intro hs
  obtain ⟨packed, ha, -⟩ := hc
  simp [accept, hs] at ha

/-- A call that returns leaves alone what only loading sets. -/
theorem sameModule_of_call {out : Outcome Instance σ ω}
    (h : call world host fuel command args b ctx = some out) : SameModule b out.module := by
  rcases call_cases h with ⟨e, -, rfl⟩ | ⟨d, hd, hout⟩
  · exact .refl b
  · obtain ⟨-, -, hmodule, -⟩ := Moment.ended_of_outcome? hout
    rw [hmodule]
    exact hd.sameModule.trans (.deactivate d.inst _)

/-- A call that returns leaves a loaded module as it was, and an unloaded one alone. -/
theorem prepared_of_call {parsed : Parsed} {out : Outcome Instance σ ω}
    (h : call world host fuel command args b ctx = some out)
    (hb : b.state = .unloaded ∨ b.Prepared parsed) :
    out.module.state = .unloaded ∨ out.module.Prepared parsed := by
  rcases call_cases h with ⟨e, -, rfl⟩ | ⟨d, hd, hout⟩
  · exact hb
  · obtain ⟨-, -, hmodule, -⟩ := Moment.ended_of_outcome? hout
    rw [hmodule]
    have hprepared := hb.resolve_left hd.ne_unloaded
    exact .inr (hprepared.of_sameModule (hd.sameModule.trans (.deactivate d.inst _)))

end Calls

/-- Until the next reload a history keeps the code that it began with, or unloads it. -/
theorem History.prepared {parsed : Parsed} {edits : Sandbox.Edit → Prop} {a b : Instance}
    (h : History edits (fun b op => ¬ op.Reloads b) a b) (ha : a.Prepared parsed) :
    b.state = .unloaded ∨ b.Prepared parsed := by
  induction h with
  | start => exact .inr ha
  | call world host fuel command args ctx out hb hhost hcall ih => exact prepared_of_call hcall ih
  | @operate b op tracker hb hop hedits ih =>
    rcases b.operate_cases tracker op with ⟨bytes, map, rfl, hr⟩ | ⟨-, t, hu⟩ | ⟨hop, -⟩
    · exact absurd ⟨_, hr⟩ hop
    · exact .inl (unload_of_ok hu).1
    · rcases ih with hs | hprepared
      · exact .inl (hop.state.trans hs)
      · exact .inr (hprepared.of_operated hop)

/-- The instance was loaded or reloaded with the image, and not reloaded since. -/
def Carries (bytes : Bytes) (b : Instance) : Prop :=
  ∃ a, ((∃ name opts, load name bytes opts = .ok a) ∨ ∃ i map, reload i bytes map = .ok a) ∧
    History (fun _ => True) (fun b op => ¬ op.Reloads b) a b

/-- An image that is carried was accepted. -/
theorem Carries.exists_parse {bytes : Bytes} {b : Instance} (hb : b.Carries bytes) :
    ∃ parsed, parse bytes = .ok parsed := by
  obtain ⟨a, ⟨name, opts, hload⟩ | ⟨i, map, hreload⟩, -⟩ := hb
  · cases hparsed : parse bytes with
    | ok parsed => exact ⟨parsed, rfl⟩
    | error e => simp [load_of_parse_error hparsed] at hload
  · obtain ⟨parsed, hparsed, -⟩ := reload_eq_ok hreload
    exact ⟨parsed, hparsed⟩

/-- An instance that carries an image holds its code until it is unloaded. -/
theorem Carries.prepared {bytes : Bytes} {parsed : Parsed} {b : Instance} (hb : b.Carries bytes)
    (hparsed : parse bytes = .ok parsed) (hs : b.state ≠ .unloaded) : b.Prepared parsed := by
  obtain ⟨a, hput, hhistory⟩ := hb
  refine (hhistory.prepared ?_).resolve_left hs
  rcases hput with ⟨name, opts, hload⟩ | ⟨i, map, hreload⟩
  · obtain ⟨a', hload', ha'⟩ := load_of_parse hparsed name opts
    obtain rfl : a = a' := Except.ok.inj (hload.symm.trans hload')
    exact ha'
  · obtain ⟨parsed', hparsed', -, rfl⟩ := reload_eq_ok hreload
    obtain rfl : parsed = parsed' := Except.ok.inj (hparsed.symm.trans hparsed')
    exact prepared_replace i parsed map

end Instance

end SandboxVm
