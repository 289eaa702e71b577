/-
SandboxVm.Proofs.SystemCalls — how a system call hands its words over and goes on.

A call of a negative number writes the return address to the word at `ps` and the number of the
service over the word behind it. The nineteen words behind that one are the arguments. The word
below the number is put back when the service has answered, and the answer takes the place of
the target. All these words are found by masking addresses that may have wrapped, so that they
could get into each other's way: a region of 128 bytes is large enough that they do not.

  §1  addresses of the words of a frame;
  §2  `Machine.CallsService`: a CALL with a negative target is next, or a constant that is one and
      a CALL behind it. In one step or two it comes to the system call (`Asks`), in either mode;
  §3  what the service gets (`Delivers`) and where execution goes on (`Continues`).
-/
import SandboxVm.Proofs.Cells
import SandboxVm.Proofs.Instructions

namespace SandboxVm

/-! ## §1 Words of a frame -/

/-- The address of the word with number `k` in the frame at `ps`. -/
def frameWord (ps : Int32) (k : Nat) : UInt32 := ps.toUInt32 + UInt32.ofNat (4 * k)

theorem toUInt32_eq_frameWord (ps : Int32) : ps.toUInt32 = frameWord ps 0 := by
  simp [frameWord]

theorem add_four_eq_frameWord (ps : Int32) : ps.toUInt32 + 4 = frameWord ps 1 := rfl

theorem add_argument_eq_frameWord (ps : Int32) (i : Nat) :
    ps.toUInt32 + 4 + UInt32.ofNat (4 * i) = frameWord ps (i + 1) := by
  rw [frameWord, UInt32.add_assoc]
  congr 1
  apply UInt32.toNat_inj.1
  simp
  omega

theorem add_operand_eq_frameWord (ps : Int32) (i : Nat) :
    (ps + Int32.ofNat (4 + 4 * i)).toUInt32 = frameWord ps (i + 1) := by
  rw [frameWord, Nat.mul_succ, Nat.add_comm (4 * i)]
  rfl

/-- Twenty-one words of a frame have cells of their own in a region of 128 bytes. -/
theorem cell_frameWord_ne {s : Sandbox} (hsize : 128 ≤ s.size) (ps : Int32) {i k : Nat}
    (hlt : i < k) (hk : k ≤ 20) :
    s.cell .word (frameWord ps i) ≠ s.cell .word (frameWord ps k) :=
  s.cell_word_add_ne ps.toUInt32 hlt (by omega)

namespace Machine

/-! ## §2 Calls of a service -/

/-- A call of `t` is next in `m`, with the operands below the target and the machine in front of
the CALL. -/
inductive AtCall (m : Machine) : OperandStack → Int32 → Machine → Prop where
  /-- The CALL finds its target on top of the operands. -/
  | plain {s : OperandStack} {t y : Int32}
      (hcall : m.inst.program.code[m.pc]? = some ⟨.call, y⟩)
      (hstack : m.stack = s.push t.toUInt32) : AtCall m s t m
  /-- The constant right before the CALL pushes the target, and there is room for it. -/
  | constant {t y : Int32} (hconst : m.inst.program.code[m.pc]? = some ⟨.const, t⟩)
      (hcall : m.inst.program.code[m.pc + 1]? = some ⟨.call, y⟩)
      (hroom : m.stack.hasRoom = true) : AtCall m m.stack t (m.half t.toUInt32)

/-- A call of the service with the negative target `t` is next in `m`, which is prepared for
either mode. That the strategy suits the program and that the stack keeps its limit is so for every
machine in the course of a call of a loaded instance (`Prepared.suits`, `shallow_of_visits`). -/
structure CallsService (m n : Machine) (s : OperandStack) (t : Int32) : Prop where
  suits : Strategy.Suits m.inst.program m.inst.jumpTable m.inst.strategy
  call : m.AtCall s t n
  depth_le : m.stack.depth ≤ OperandStack.limit
  negative : t < 0

/-- The region while a service is called: the return address and the number are in place. -/
def calling (n : Machine) (t : Int32) : Sandbox :=
  (n.inst.memory.store32 n.ps.toUInt32 (UInt32.ofNat (n.pc + 1))).store32 (n.ps.toUInt32 + 4)
    (-1 - t).toUInt32

/-- The machine that waits for a service. -/
def waitingFor (n : Machine) (s : OperandStack) (t : Int32) : Machine :=
  ⟨{ n.inst with memory := n.calling t }, s, n.pc + 1, n.pc, n.ps⟩

/-- The word that the number of a service replaces. -/
def replaced (n : Machine) : UInt32 :=
  (n.inst.memory.store32 n.ps.toUInt32 (UInt32.ofNat (n.pc + 1))).load32 (n.ps.toUInt32 + 4)

variable {m n : Machine} {s : OperandStack} {t : Int32}

/-- The number of steps in which a machine comes to a system call. -/
inductive Asks (asked : Machine) (saved : UInt32) : Nat → Machine → Prop where
  | now {m : Machine} (h : m.step = .system asked saved) : Asks asked saved 1 m
  | later {m n : Machine} {k : Nat} (hnext : m.step = .next n) (h : Asks asked saved k n) :
    Asks asked saved (k + 1) m

theorem AtCall.inst_eq (h : m.AtCall s t n) : n.inst = m.inst := by
  cases h with
  | plain => rfl
  | constant => rfl

/-- There is room for one more operand below the target, where the answer will be. -/
theorem CallsService.hasRoom (h : m.CallsService n s t) : s.hasRoom = true := by
  cases h.call with
  | plain _ hstack =>
    have hdepth := h.depth_le
    rw [hstack] at hdepth
    exact OperandStack.hasRoom_iff.2 hdepth
  | constant _ _ hroom => exact hroom

/-- Calling a negative number that stands on top of the operands. -/
theorem call_eq_system (hstack : n.stack = s.push t.toUInt32) (hneg : t < 0) (y : Int32) :
    n.fetched.execute ⟨.call, y⟩ = .system (n.waitingFor s t) n.replaced := by
  obtain ⟨inst, stack, pc, cur, ps⟩ := n
  cases hstack
  exact callTo_of_neg hneg

/-- A CALL is a step by itself, unless it was fused with the constant before it. Then the two are
one step, which asks for the same service as the CALL alone would behind the constant. -/
theorem CallsService.asks (h : m.CallsService n s t) :
    ∃ k, k ≤ 2 ∧ Asks (n.waitingFor s t) n.replaced k m := by
  cases h.call with
  | @plain _ _ y hcall hstack =>
    have hstep : m.step = .system (m.waitingFor s t) m.replaced := by
      rw [step_of_single h.suits hcall nofun nofun]
      exact call_eq_system hstack h.negative y
    exact ⟨1, by decide, .now hstep⟩
  | @constant _ y hconst hcall hroom =>
    rcases h.suits with hst | hst
    · have hfirst : m.step = .next (m.half t.toUInt32) := step_eq_half hst hconst rfl hroom
      have hsecond : (m.half t.toUInt32).step =
          .system ((m.half t.toUInt32).waitingFor m.stack t) (m.half t.toUInt32).replaced := by
        rw [step_half _ hst hcall]
        exact call_eq_system rfl h.negative y
      exact ⟨2, Nat.le_refl 2, .later hfirst (.now hsecond)⟩
    · have hfused : m.step = m.fetched.executePrepared (.callTo t) :=
        step_prepared hst hconst hcall
      have hstep : m.step =
          .system ((m.half t.toUInt32).waitingFor m.stack t) (m.half t.toUInt32).replaced := by
        rw [hfused]
        exact (if_pos hroom).trans (callTo_of_neg h.negative)
      exact ⟨1, by decide, .now hstep⟩

section Runs

variable {I : Interface} {σ ω : Type} {world : World I σ ω} {host : Host I σ}

/-- A run comes to the system call in as many steps. -/
theorem Asks.run_eq {asked : Machine} {saved : UInt32} {k : Nat} (h : Asks asked saved k m)
    (fuel : Nat) (ctx : Context σ ω) :
    Instance.run world host (fuel + k) (.next m) ctx =
      Instance.run world host fuel (.system asked saved) ctx := by
  induction h with
  | now h => rw [Instance.run, h]
  | later hnext h ih => rw [← Nat.add_assoc, Instance.run, hnext, ih]

end Runs

/-! ## §3 Words handed over, and the answer -/

/-- What a service gets when `n` calls the negative number `t`: its own number, and the words
behind it as they are before the call. -/
structure Delivers (n : Machine) (t : Int32) (args : SyscallArgs) : Prop where
  number : args.number.toInt = -1 - t.toInt
  number_nonneg : 0 ≤ args.number.toInt
  word : ∀ i, 1 ≤ i → i ≤ 19 →
    args.word i = n.load (n.ps.toUInt32 + 4 + UInt32.ofNat (4 * i))

/-- Where execution goes on when a service called by `n` has answered `r` and left the instance
as given: behind the CALL, with the answer on top of the operands `s`, and with the word back
that the number had replaced. -/
structure Continues (n : Machine) (s : OperandStack) (r : Int32) (left : Instance)
    (m : Machine) : Prop where
  pc : m.pc = n.pc + 1
  stack : m.stack = s.push r.toUInt32
  ps : m.ps = n.ps
  inst : m.inst = { left with
    programStack := n.ps
    memory := left.memory.store32 (n.ps.toUInt32 + 4) (n.load (n.ps.toUInt32 + 4)) }

theorem word_syscallArgs (memory : Sandbox) (ps : Int32) {i : Nat} (hi : i < 20) :
    (syscallArgs memory ps).word i = memory.load32 (frameWord ps (i + 1)) := by
  rw [← add_argument_eq_frameWord]
  simp [SyscallArgs.word, SyscallArgs.int, syscallArgs, hi]

theorem replaced_eq (hsize : 128 ≤ n.inst.memory.size) :
    n.replaced = n.load (n.ps.toUInt32 + 4) := by
  have hreturn : n.inst.memory.cell .word (frameWord n.ps 0) ≠
      n.inst.memory.cell .word (frameWord n.ps 1) :=
    cell_frameWord_ne hsize n.ps (by omega) (by omega)
  rw [replaced, add_four_eq_frameWord, toUInt32_eq_frameWord n.ps,
    Sandbox.load32_store32_of_ne hreturn, load]

/-- The arguments of a service are not touched by calling it. -/
theorem load32_calling (hsize : 128 ≤ n.inst.memory.size) {i : Nat} (hi : 1 ≤ i) (hle : i ≤ 19) :
    (n.calling t).load32 (frameWord n.ps (i + 1)) = n.load (frameWord n.ps (i + 1)) := by
  have hnumber : n.inst.memory.cell .word (frameWord n.ps 1) ≠
      n.inst.memory.cell .word (frameWord n.ps (i + 1)) :=
    cell_frameWord_ne hsize n.ps (by omega) (by omega)
  have hreturn : n.inst.memory.cell .word (frameWord n.ps 0) ≠
      n.inst.memory.cell .word (frameWord n.ps (i + 1)) :=
    cell_frameWord_ne hsize n.ps (by omega) (by omega)
  rw [calling, add_four_eq_frameWord, toUInt32_eq_frameWord n.ps,
    Sandbox.load32_store32_of_ne (s := n.inst.memory.store32 _ _) hnumber,
    Sandbox.load32_store32_of_ne hreturn, load]

/-- The number of a service does not wrap. -/
theorem toInt_number {t : Int32} (h : t < 0) : (-1 - t).toInt = -1 - t.toInt := by
  have hlt : t.toInt < 0 := Int32.lt_iff_toInt_lt.1 h
  have hle : -2 ^ 31 ≤ t.toInt := t.le_toInt
  have hone : (-1 : Int32).toInt = -1 := by decide
  rw [toInt_sub_of_le (by omega) (by omega), hone]

theorem delivers_syscallArgs (hsize : 128 ≤ n.inst.memory.size) (hneg : t < 0) :
    n.Delivers t (syscallArgs (n.calling t) n.ps) := by
  have hnumber : (syscallArgs (n.calling t) n.ps).number = -1 - t := by
    have hzero (args : SyscallArgs) : args.number = (args.word 0).toInt32 := by
      simp [SyscallArgs.word, SyscallArgs.int, SyscallArgs.number]
    rw [hzero, word_syscallArgs _ _ (by omega), calling, add_four_eq_frameWord,
      Sandbox.load32_store32_self, Int32.toInt32_toUInt32]
  have hlt : t.toInt < 0 := Int32.lt_iff_toInt_lt.1 hneg
  constructor
  case number => rw [hnumber, toInt_number hneg]
  case number_nonneg =>
    rw [hnumber, toInt_number hneg]
    omega
  case word =>
    intro i hi hle
    rw [word_syscallArgs _ _ (by omega), load32_calling hsize hi hle, add_argument_eq_frameWord]

/-- A service that changes no memory leaves the return address behind, and nothing else. -/
theorem store32_calling :
    (n.calling t).store32 (n.ps.toUInt32 + 4) n.replaced =
      n.inst.memory.store32 n.ps.toUInt32 (UInt32.ofNat (n.pc + 1)) := by
  rw [calling, Sandbox.store32_store32, replaced, Sandbox.store32_load32]

/-- The word that an ARG instruction stores is found there until something else is written to
it. -/
theorem load_of_arg {a a' : Machine} {rest : OperandStack} {v : UInt32} {i : Nat}
    {es : List Sandbox.Edit} (hstack : a.stack = rest.push v)
    (harg : a.execute ⟨.arg, Int32.ofNat (4 + 4 * i)⟩ = .next a')
    (hspares : a'.inst.memory.SparesAll (frameWord a.ps (i + 1)) es) :
    (a'.inst.memory.editAll es).load32 (frameWord a.ps (i + 1)) = v := by
  obtain ⟨inst, stack, pc, cur, ps⟩ := a
  cases hstack
  cases harg
  rw [Sandbox.load32_editAll hspares]
  simp only [store, mapMemory, add_operand_eq_frameWord]
  exact Sandbox.load32_store32_self

variable {I : Interface} {σ ω : Type}

/-- Marshalling of system calls, whether the CALL is executed on its own or together with the
constant that is its target. The service gets its number and the nineteen words behind it as they
were; a word that was stored by ARG, and not written since, is among them. When the service answers
and the instance has not faulted, execution goes on behind the CALL. -/
theorem system_call_marshalling (world : World I σ ω) (host : Host I σ)
    (h : m.CallsService n s t) (hsize : 128 ≤ m.inst.memory.size) :
    ∃ asked saved k, k ≤ 2 ∧ Asks asked saved k m ∧
      n.Delivers t (syscallArgs asked.inst.memory asked.ps) ∧
      (∀ i, 1 ≤ i → i ≤ 19 → ∀ (a a' : Machine) (rest : OperandStack) (v : UInt32)
        (es : List Sandbox.Edit), a.ps = n.ps → a.stack = rest.push v →
        a.execute ⟨.arg, Int32.ofNat (4 + 4 * i)⟩ = .next a' →
        a'.inst.memory.SparesAll (n.ps.toUInt32 + 4 + UInt32.ofNat (4 * i)) es →
        n.inst.memory = a'.inst.memory.editAll es →
        (syscallArgs asked.inst.memory asked.ps).word i = v) ∧
      ∀ (fuel : Nat) (ctx ctx' : Context σ ω) (r : Int32) (left : Instance),
        (host ctx.host (syscallArgs asked.inst.memory asked.ps)).run world
          (Instance.call world host fuel) (suspend asked.inst asked.ps) ctx =
            some ⟨.ok r, left, ctx'⟩ →
        left.state ≠ .faulted →
        ∃ m', Instance.run world host (fuel + 1 + k) (.next m) ctx =
            Instance.run world host fuel (.next m') ctx' ∧
          n.Continues s r left m' ∧
          (left.memory = asked.inst.memory →
            m'.inst.memory =
              n.inst.memory.store32 n.ps.toUInt32 (UInt32.ofNat (n.pc + 1))) := by
  rw [← h.call.inst_eq] at hsize
  obtain ⟨k, hk, hasks⟩ := h.asks
  have hdelivers := delivers_syscallArgs hsize h.negative
  refine ⟨n.waitingFor s t, n.replaced, k, hk, hasks, hdelivers, ?_, ?_⟩
  · intro i hi hle a a' rest v es hps hstack harg hspares hmem
    rw [add_argument_eq_frameWord, ← hps] at hspares
    have hload := load_of_arg hstack harg hspares
    rw [← hmem, hps, ← add_argument_eq_frameWord] at hload
    exact (hdelivers.word i hi hle).trans hload
  · intro fuel ctx ctx' r left hanswer hstate
    let m' : Machine :=
      ⟨{ left with
          programStack := n.ps
          memory := left.memory.store32 (n.ps.toUInt32 + 4) n.replaced },
        s.push r.toUInt32, n.pc + 1, n.pc, n.ps⟩
    refine ⟨m', ?_, ⟨rfl, rfl, rfl, ?_⟩, ?_⟩
    · have hresume : resume ⟨{ left with programStack := n.ps }, s, n.pc + 1, n.pc, n.ps⟩
          n.replaced r = .next m' :=
        push_of_hasRoom (m := ⟨_, s, _, _, _⟩) h.hasRoom _
      have hcall : (host ctx.host (syscallArgs (n.calling t) n.ps)).run world
          (Instance.callWith (Instance.run world host fuel))
          (suspend { n.inst with memory := n.calling t } n.ps) ctx = some ⟨.ok r, left, ctx'⟩ :=
        hanswer
      rw [hasks.run_eq, waitingFor, Instance.run, hcall]
      simp only [hstate, if_false, hresume]
    · rw [← replaced_eq hsize]
    · intro hmem
      have hstore : m'.inst.memory = left.memory.store32 (n.ps.toUInt32 + 4) n.replaced := rfl
      rw [hstore, hmem]
      exact store32_calling

/-- A machine in front of a constant and a call of it, prepared as one operation, with a
program stack pointer that has wrapped. -/
def pushing (memory : Sandbox) : Machine where
  inst :=
    { name := "m"
      header := ⟨.legacy, 2, 32, 6, 38, 0, 0, 128, 0⟩
      memory := memory
      jumpTable := none
      program := ⟨#[⟨.const, -4⟩, ⟨.call, 0⟩], #[0, 5], 6⟩
      strategy := .compiled #[.callTo (-4), .single ⟨.call, 0⟩]
      requested := .compiled
      programStack := -18
      stackBottom := -65408
      state := .running
      callLevel := 1
      map := none
      symbols := none
      profiling := false
      breakCount := 0
      lastFault := none }
  stack := .empty
  pc := 0
  cur := 0
  ps := -18

theorem callsService_pushing (memory : Sandbox) :
    (pushing memory).CallsService ((pushing memory).half (Int32.toUInt32 (-4))) .empty (-4) where
  suits := by
    have hcode : #[.callTo (-4), .single ⟨.call, 0⟩] = Strategy.prepareCode
        ⟨#[⟨.const, -4⟩, ⟨.call, 0⟩], #[0, 5], 6⟩ none := by decide +kernel
    exact .inr (congrArg Strategy.compiled hcode)
  call := .constant (y := 0) rfl rfl rfl
  depth_le := Nat.le_of_ble_eq_true rfl
  negative := by decide

theorem system_call_marshalling_fused :
    128 ≤ (Sandbox.zeroed 128).size ∧
      ∃ asked saved m', (pushing (.zeroed 128)).step = .system asked saved ∧
        (syscallArgs asked.inst.memory asked.ps).number.toInt = 3 ∧
        Instance.run World.empty (fun s _ => .done s (.ok 7)) 3 (.next (pushing (.zeroed 128)))
            ⟨(), .empty, ()⟩ =
          Instance.run World.empty (fun s _ => .done s (.ok 7)) 1 (.next m') ⟨(), .empty, ()⟩ ∧
        Continues ((pushing (.zeroed 128)).half (Int32.toUInt32 (-4))) .empty 7
          (suspend asked.inst asked.ps) m' := by
  have hsize : 128 ≤ (Sandbox.zeroed 128).size := by
    rw [Sandbox.size_zeroed]
    exact Nat.le_trans (Nat.le_max_right 4 _) (Sandbox.le_roundUp _)
  generalize Sandbox.zeroed 128 = memory at hsize ⊢
  obtain ⟨asked, saved, k, -, hasks, hdelivers, -, hanswer⟩ :=
    system_call_marshalling World.empty (fun s _ => .done s (.ok 7))
      (callsService_pushing memory) hsize
  cases hasks with
  | later hnext _ => cases hnext
  | now hstep =>
    have hstate : (suspend asked.inst asked.ps).state ≠ .faulted := by
      cases hstep
      exact nofun
    obtain ⟨m', hrun, hcontinues, -⟩ :=
      hanswer 1 ⟨(), .empty, ()⟩ ⟨(), .empty, ()⟩ 7 (suspend asked.inst asked.ps) rfl hstate
    exact ⟨hsize, asked, saved, m', hstep, hdelivers.number, hrun, hcontinues⟩

end Machine

end SandboxVm
