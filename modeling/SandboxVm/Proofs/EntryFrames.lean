/-
SandboxVm.Proofs.EntryFrames — the frame that a call begins with.

A call from outside puts a frame of six words below the program stack: a return address that
ends the call, a word that is not used, the command and three arguments. Addresses are masked
and aligned down, whatever the program stack is, so that these words could get into each other's
way, and into that of a machine that waits for the call. A region of 32 bytes is large enough
for the one, and four bytes between the frames for the other.

  §1  `Sandbox.storeWords`: stores into several words of a frame;
  §2  `Machine.OpensFrame`: what a call begins with, unless there is no room for its frame;
  §3  `Machine.LoadsLocal`: how an argument is read, in either mode;
  §4  `Moment.Nests`: calls of a host that is at work leave the frame of the caller alone.
-/
import Mathlib.Algebra.Group.Int.Defs
import SandboxVm.Proofs.Nesting
import SandboxVm.Proofs.SystemCalls

namespace SandboxVm

/-! ## §1 Several words -/

namespace Sandbox

/-- Stores numbered words of the frame at `ps`, first one first. -/
def storeWords (s : Sandbox) (ps : Int32) (ws : List (Nat × UInt32)) : Sandbox :=
  ws.foldl (fun s w => s.store32 (frameWord ps w.1) w.2) s

variable {s : Sandbox} {ps : Int32} {ws : List (Nat × UInt32)}

theorem storeWords_cons (w : Nat × UInt32) :
    s.storeWords ps (w :: ws) = (s.store32 (frameWord ps w.1) w.2).storeWords ps ws := rfl

@[simp]
theorem size_storeWords : (s.storeWords ps ws).size = s.size := by
  induction ws generalizing s with
  | nil => rfl
  | cons w ws ih => rw [storeWords_cons, ih, size_store32]

/-- Bytes outside all the words that are stored keep their value. -/
theorem byte_storeWords_of_outside {j : Nat}
    (h : ∀ w ∈ ws, j < s.cell .word (frameWord ps w.1) ∨ s.cell .word (frameWord ps w.1) + 4 ≤ j) :
    (s.storeWords ps ws).byte j = s.byte j := by
  induction ws generalizing s with
  | nil => rfl
  | cons w ws ih =>
    obtain ⟨hw, hws⟩ := List.forall_mem_cons.1 h
    rw [storeWords_cons, ih (s := s.store32 _ _) hws, byte_store32_of_outside hw]

theorem load32_storeWords_of_ne {q : UInt32}
    (h : ∀ w ∈ ws, s.cell .word (frameWord ps w.1) ≠ s.cell .word q) :
    (s.storeWords ps ws).load32 q = s.load32 q := by
  induction ws generalizing s with
  | nil => rfl
  | cons w ws ih =>
    obtain ⟨hw, hws⟩ := List.forall_mem_cons.1 h
    rw [storeWords_cons, ih (s := s.store32 _ _) hws, load32_store32_of_ne hw]

/-- Words that do not get into each other's way are all there afterwards. -/
theorem load32_storeWords
    (hapart : ws.Pairwise fun v w =>
      s.cell .word (frameWord ps v.1) ≠ s.cell .word (frameWord ps w.1))
    {w : Nat × UInt32} (hw : w ∈ ws) : (s.storeWords ps ws).load32 (frameWord ps w.1) = w.2 := by
  induction ws generalizing s with
  | nil => cases hw
  | cons v ws ih =>
    obtain ⟨hv, hws⟩ := List.pairwise_cons.1 hapart
    rw [storeWords_cons]
    rcases List.mem_cons.1 hw with rfl | hw
    · rw [load32_storeWords_of_ne (s := s.store32 _ _) fun x hx => (hv x hx).symm,
        load32_store32_self]
    · exact ih (s := s.store32 _ _) hws hw

end Sandbox

/-! ## §2 Entry frames -/

/-- There is no room for an entry frame. -/
def Instance.FrameOverflows (inst : Instance) : Prop :=
  inst.programStack.toInt - 24 < -2 ^ 31 ∨
    inst.programStack.toInt - 24 < inst.stackBottom.toInt

instance (inst : Instance) : Decidable inst.FrameOverflows := inferInstanceAs (Decidable (_ ∨ _))

namespace Machine

/-- The words of an entry frame: the return address that ends the call, a word for the number of
a service, the command and its arguments. -/
def entryWords (args : CallArgs) : List Int32 :=
  [-1, 0, args.command, args.arg 0, args.arg 1, args.arg 2]

/-- The machine starts at the first instruction with nothing on its operand stack, below a frame
in which the words of the call stand, and with no other byte changed. -/
structure OpensFrame (inst : Instance) (args : CallArgs) (m : Machine) : Prop where
  ps : m.ps.toInt = inst.programStack.toInt - 24
  rest : m = ⟨{ inst with memory := m.inst.memory }, .empty, 0, 0, m.ps⟩
  size : m.inst.memory.size = inst.memory.size
  word : ∀ (k : Nat) (w : Int32), (entryWords args)[k]? = some w →
    (m.load (frameWord m.ps k)).toInt32 = w
  apart : ∀ i k, i < k → k < 6 → inst.memory.cell .word (frameWord m.ps i) ≠
    inst.memory.cell .word (frameWord m.ps k)
  outside : ∀ j : Nat, (∀ k < 6, j < inst.memory.cell .word (frameWord m.ps k) ∨
      inst.memory.cell .word (frameWord m.ps k) + 4 ≤ j) →
    m.inst.memory.byte j = inst.memory.byte j

variable {inst : Instance} {args : CallArgs}

/-- What is stored into the words of the frame, in the order in which it is stored. -/
def entryStores (args : CallArgs) : List (Nat × UInt32) :=
  [(2, args.command.toUInt32), (3, (args.arg 0).toUInt32), (4, (args.arg 1).toUInt32),
    (5, (args.arg 2).toUInt32), (1, 0), (0, returnSentinel.toUInt32)]

theorem toInt_sub_entryFrame {inst : Instance} (h : -2 ^ 31 ≤ inst.programStack.toInt - 24) :
    (inst.programStack - entryFrame).toInt = inst.programStack.toInt - 24 := by
  have hframe : entryFrame.toInt = 24 := by decide
  have hlt : inst.programStack.toInt < 2 ^ 31 := inst.programStack.toInt_lt
  rw [toInt_sub_of_le (by omega) (by omega), hframe]

/-- Where the frame begins: the difference does not wrap unless there is no room. -/
theorem framePointer?_eq (inst : Instance) :
    framePointer? inst =
      if inst.FrameOverflows then none else some (inst.programStack - entryFrame) := by
  have hframe : entryFrame.toInt = 24 := by decide
  have hmin : Int32.minValue.toInt = -2 ^ 31 := by decide
  unfold framePointer?
  by_cases hlow : Int32.minValue.toInt + entryFrame.toInt ≤ inst.programStack.toInt
  · have hsub : (inst.programStack - entryFrame).toInt = inst.programStack.toInt - 24 :=
      toInt_sub_entryFrame (by omega)
    have hroom : inst.stackBottom ≤ inst.programStack - entryFrame ↔ ¬ inst.FrameOverflows := by
      rw [Int32.le_iff_toInt_le, hsub]
      unfold Instance.FrameOverflows
      omega
    simp only [if_pos hlow, hroom, ite_not]
  · have hover : inst.FrameOverflows := .inl (by omega)
    rw [if_neg hlow, if_pos hover]

theorem begin_of_overflows (h : inst.FrameOverflows) :
    begin inst args = .fault (start inst) .stackOverflow := by
  rw [begin, framePointer?_eq, if_pos h]

/-- The machine in front of the first instruction, below its entry frame. -/
def opened (inst : Instance) (args : CallArgs) : Machine :=
  let ps := inst.programStack - entryFrame
  ⟨{ inst with memory := inst.memory.storeWords ps (entryStores args) }, .empty, 0, 0, ps⟩

theorem begin_of_not_overflows (h : ¬ inst.FrameOverflows) :
    begin inst args = .next (opened inst args) := by
  have haddress (ps : Int32) : ps.toUInt32 + 8 = frameWord ps 2 ∧
      ps.toUInt32 + 12 = frameWord ps 3 ∧ ps.toUInt32 + 16 = frameWord ps 4 ∧
      ps.toUInt32 + 20 = frameWord ps 5 ∧ ps.toUInt32 + 4 = frameWord ps 1 ∧
      ps.toUInt32 = frameWord ps 0 :=
    ⟨rfl, rfl, rfl, rfl, rfl, toUInt32_eq_frameWord ps⟩
  obtain ⟨h2, h3, h4, h5, h1, h0⟩ := haddress (inst.programStack - entryFrame)
  rw [begin, framePointer?_eq, if_neg h]
  simp only [h2, h3, h4, h5, h1]
  simp only [h0, opened, store, mapMemory, Sandbox.storeWords, entryStores, List.foldl_cons,
    List.foldl_nil]

theorem lt_of_mem_entryStores {w : Nat × UInt32} (h : w ∈ entryStores args) : w.1 < 6 := by
  simp only [entryStores, List.mem_cons, List.not_mem_nil, or_false] at h
  rcases h with rfl | rfl | rfl | rfl | rfl | rfl <;> simp

/-- The words that are stored are those of the frame. -/
theorem mem_entryStores {k : Nat} {w : Int32} (h : (entryWords args)[k]? = some w) :
    (k, w.toUInt32) ∈ entryStores args := by
  match k, h with
  | 0, h | 2, h | 3, h | 4, h | 5, h =>
    cases h
    simp [entryStores, returnSentinel]
  | 1, h =>
    cases h
    have hzero : (0 : Int32).toUInt32 = 0 := rfl
    simp [entryStores, hzero]

theorem opensFrame_opened (args : CallArgs) (hsize : 32 ≤ inst.memory.size)
    (h : ¬ inst.FrameOverflows) : (opened inst args).OpensFrame inst args := by
  have hapart (i k : Nat) (hlt : i < k) (hk : k < 6) :
      inst.memory.cell .word (frameWord (inst.programStack - entryFrame) i) ≠
        inst.memory.cell .word (frameWord (inst.programStack - entryFrame) k) :=
    inst.memory.cell_word_add_ne _ hlt (by omega)
  constructor
  case ps =>
    have hlow : -2 ^ 31 ≤ inst.programStack.toInt - 24 := by
      unfold Instance.FrameOverflows at h
      omega
    exact toInt_sub_entryFrame hlow
  case rest => rfl
  case size => exact Sandbox.size_storeWords
  case word =>
    intro k w hw
    have hnumbers : (entryStores args).Pairwise fun v w => v.1 ≠ w.1 := by simp [entryStores]
    have hcells := hnumbers.imp_of_mem (S := fun v w =>
        inst.memory.cell .word (frameWord (inst.programStack - entryFrame) v.1) ≠
          inst.memory.cell .word (frameWord (inst.programStack - entryFrame) w.1)) ?_
    · have hload := Sandbox.load32_storeWords hcells (mem_entryStores hw)
      simp only [load, opened, hload, Int32.toInt32_toUInt32]
    · intro v w hv hw hne
      rcases Nat.lt_or_gt_of_ne hne with hlt | hlt
      · exact hapart _ _ hlt (lt_of_mem_entryStores hw)
      · exact (hapart _ _ hlt (lt_of_mem_entryStores hv)).symm
  case apart => exact hapart
  case outside =>
    intro j hj
    exact Sandbox.byte_storeWords_of_outside fun w hw => hj w.1 (lt_of_mem_entryStores hw)

/-! ## §3 Reading arguments -/

/-- The machine after a step that goes on. -/
def following? (m : Machine) : Option Machine :=
  match m.step with
  | .next n => some n
  | _ => none

/-- The code in front of `m` reads the word at an offset from the stack pointer: the address of
a local and a load of it, prepared for either mode. -/
structure LoadsLocal (m : Machine) (offset : Int32) : Prop where
  suits : Strategy.Suits m.inst.program m.inst.jumpTable m.inst.strategy
  frame : m.inst.program.code[m.pc]? = some ⟨.frame, offset⟩
  load : ∃ operand, m.inst.program.code[m.pc + 1]? = some ⟨.load .word, operand⟩
  hasRoom : m.stack.hasRoom = true

/-- The machine behind a pair of instructions that leave a word on the operand stack. -/
def behindPair (m : Machine) (w : UInt32) : Machine :=
  ⟨m.inst, m.stack.push w, m.pc + 2, m.pc + 1, m.ps⟩

variable {m : Machine} {f offset : Int32}

/-- The word is loaded in two steps, or in one that does the work of both. -/
theorem LoadsLocal.reaches (h : m.LoadsLocal offset) :
    Course.Reaches following? m (m.behindPair (m.load (m.ps + offset).toUInt32)) := by
  obtain ⟨operand, hload⟩ := h.load
  rcases h.suits with hst | hst
  · have hfirst : m.step = .next (m.half (m.ps + offset).toUInt32) :=
      step_eq_half hst h.frame rfl h.hasRoom
    have hsecond : (m.half (m.ps + offset).toUInt32).step =
        .next (m.behindPair (m.load (m.ps + offset).toUInt32)) := by
      rw [step_half _ hst hload]
      rfl
    refine .head (b := m.half (m.ps + offset).toUInt32) ?_ (.head ?_ (.refl _))
    · rw [following?, hfirst]
    · rw [following?, hsecond]
  · have hfused : m.step = m.fetched.executePrepared (.loadFrame offset) :=
      step_prepared hst h.frame hload
    have hstep : m.step = .next (m.behindPair (m.load (m.ps + offset).toUInt32)) := by
      rw [hfused]
      exact (if_pos h.hasRoom).trans (push_of_hasRoom (m := m.fetched.fetched) h.hasRoom _)
    exact .head (by rw [following?, hstep]) (.refl _)

/-- Opening a frame moves the stack pointer and leaves memory alone. -/
theorem eq_of_enter_eq_next {n : Machine} (h : m.enter f = .next n) :
    n.ps = m.ps - f ∧ n.inst.memory = m.inst.memory := by
  have hcount (m : Machine) : m.countEntry.ps = m.ps ∧
      m.countEntry.inst.memory = m.inst.memory := by
    unfold countEntry
    split <;> exact ⟨rfl, rfl⟩
  unfold enter at h
  dsimp only at h
  split at h
  · cases h
  · cases h
    exact hcount _

/-- A module that opens a frame of any size finds the words of the call above it: the frame and
eight bytes more behind its stack pointer, as long as it does not write to them. -/
def Passes (args : CallArgs) (m : Machine) : Prop :=
  ∀ (f : Int32) (entered : Machine),
    Strategy.Suits m.inst.program m.inst.jumpTable m.inst.strategy →
    m.inst.program.code[m.pc]? = some ⟨.enter, f⟩ → m.step = .next entered →
    ∀ (n : Fin 4) (a : Machine) (es : List Sandbox.Edit), a.ps = entered.ps →
      entered.inst.memory.SparesAll (frameWord m.ps (n + 2)) es →
      a.inst.memory = entered.inst.memory.editAll es →
      a.LoadsLocal (f + 8 + Int32.ofNat (4 * n)) →
      Course.Reaches following? a (a.behindPair args.words[n].toUInt32)

/-- The offset is relative to the stack pointer of the module, which has left the frame behind. -/
theorem sub_add_eq_frameWord (ps f : Int32) (n : Nat) :
    (ps - f + (f + 8 + Int32.ofNat (4 * n))).toUInt32 = frameWord ps (n + 2) := by
  have height : (8 : Int32) + Int32.ofNat (4 * n) = Int32.ofNat (4 * (n + 2)) := by
    rw [Nat.mul_add, Nat.add_comm, Int32.ofNat_add]
    rfl
  rw [Int32.add_assoc f, height, ← Int32.add_assoc, Int32.sub_add_cancel]
  rfl

theorem getElem?_entryWords (args : CallArgs) (n : Fin 4) :
    (entryWords args)[n.val + 2]? = some args.words[n] := by
  match n with
  | 0 | 1 | 2 | 3 => rfl

theorem OpensFrame.passes (h : m.OpensFrame inst args) : m.Passes args := by
  intro f entered hsuits henter hstep n a es hps hspares hmemory hloads
  rw [step_of_single hsuits henter nofun nofun] at hstep
  obtain ⟨hentered, hkept⟩ := eq_of_enter_eq_next hstep
  have hword := h.word _ _ (getElem?_entryWords args n)
  have hload : a.load (a.ps + (f + 8 + Int32.ofNat (4 * n))).toUInt32 =
      args.words[n].toUInt32 := by
    have hps : a.ps = m.ps - f := hps.trans hentered
    rw [hps, sub_add_eq_frameWord, load, hmemory, Sandbox.load32_editAll hspares, hkept, ← hword,
      UInt32.toUInt32_toInt32]
    rfl
  rw [← hload]
  exact hloads.reaches

/-! ## §4 Nested calls -/

/-- The frame of a call that begins four bytes below another one does not reach up to it. -/
theorem byte_begin_of_caller (inst : Instance) {caller : Int32}
    (hstack : inst.programStack = caller - 4) (hlow : 28 ≤ caller.toInt) {j : Nat}
    (hj : caller.toInt - 4 ≤ j) :
    (begin inst args).inst.memory.byte j = inst.memory.byte j := by
  by_cases h : inst.FrameOverflows
  · rw [begin_of_overflows h]
    rfl
  · rw [begin_of_not_overflows h]
    apply Sandbox.byte_storeWords_of_outside
    intro w hw
    have hnumber := lt_of_mem_entryStores hw
    have hprogram : inst.programStack.toInt = caller.toInt - 4 := by
      have hlt : caller.toInt < 2 ^ 31 := caller.toInt_lt
      have hfour : (4 : Int32).toInt = 4 := by decide
      rw [hstack, toInt_sub_of_le (by omega) (by omega), hfour]
    have hps : (inst.programStack - entryFrame).toInt = caller.toInt - 28 := by
      rw [toInt_sub_entryFrame (by omega)]
      omega
    have hnonneg : 0 ≤ inst.programStack - entryFrame := by
      rw [Int32.le_iff_toInt_le, hps, Int32.toInt_zero]
      omega
    have haddress : ((inst.programStack - entryFrame).toUInt32.toNat : Int) =
        caller.toInt - 28 := by
      rw [Int32.toNat_toUInt32_of_le hnonneg, Int32.toNatClampNeg, hps]
      omega
    -- masking can only lower the index
    have hle := Nat.mod_le ((inst.programStack - entryFrame).toUInt32.toNat / 4 + w.1)
      (inst.memory.size / 4)
    rw [frameWord, Sandbox.cell_word_add]
    omega

end Machine

variable {I : Interface} {σ ω : Type}

/-- While a host is at work, calls begin four bytes below the stack pointer of the machine that
waits for it. -/
def Phase.Suspends : Phase I σ → Prop
  | .service _ w inst => inst.programStack = w.ps - 4
  | .step _ | .ended _ _ => True

namespace Moment

/-- Each call of a host began four bytes below the stack pointer of the machine that waits. -/
def Stacked : Int32 → List (Caller I σ) → Prop
  | _, [] => True
  | stack, caller :: callers =>
    stack = caller.waiting.ps - 4 ∧ Stacked caller.entryStack callers

/-- This goes for the host that is at work and for those that wait for calls of theirs. -/
structure Suspended (c : Moment I σ ω) : Prop where
  phase : c.phase.Suspends
  callers : Stacked c.entryStack c.callers

variable {world : World I σ ω} {host : Host I σ} {c d : Moment I σ ω} {w : Waiting}

theorem suspended_start (inst : Instance) (args : CallArgs) (ctx : Context σ ω) :
    Suspended (start inst args [] ctx : Moment I σ ω) :=
  ⟨trivial, trivial⟩

/-- A machine that is answered does not wait any more. -/
theorem suspends_answered (w : Waiting) (inst : Instance) (reply : Reply) :
    (answered w inst reply : Phase I σ).Suspends := by
  cases reply with
  | error e => trivial
  | ok r =>
    unfold answered
    dsimp only
    split <;> trivial

theorem Suspended.next (h : c.next world host = some d) (hc : c.Suspended) : d.Suspended := by
  obtain ⟨hphase, hcallers⟩ := hc
  cases follows_of_next h with
  | execute m => exact ⟨trivial, hcallers⟩
  | finish m => exact ⟨trivial, hcallers⟩
  | fail m cause => exact ⟨trivial, hcallers⟩
  | system m saved => exact ⟨rfl, hcallers⟩
  | reply s reply w i => exact ⟨suspends_answered w i reply, hcallers⟩
  | view k w i => exact ⟨hphase, hcallers⟩
  | edit e k w i =>
    have hstack : (i.edit e).programStack = i.programStack := by
      unfold Instance.edit
      split <;> rfl
    exact ⟨hstack.trans hphase, hcallers⟩
  | refuse s command args k e w i => exact ⟨hphase, hcallers⟩
  | nest s command args k packed w i => exact ⟨trivial, hphase, hcallers⟩
  | ask s q k a w i => exact ⟨hphase, hcallers⟩
  | «return» reply i caller => exact ⟨hcallers.1, hcallers.2⟩

/-- At moment `c` a host that the machine `w` waits for calls the module, which accepts the call;
at moment `d` the frame of this call is there, if there is room for it. -/
structure Nests (world : World I σ ω) (host : Host I σ) (c d : Moment I σ ω) (w : Waiting) :
    Prop where
  next : c.next world host = some d
  call : ∃ s command args k inst packed,
    c.phase = .service (.enter s command args k) w inst ∧ inst.accept command args = .ok packed

/-- Nothing stands in the way of a call that is accepted. -/
theorem exists_nests {s : σ} {command : Int32} {args : List Int32} {k : σ → Reply → Service I σ}
    {inst : Instance} {packed : CallArgs}
    (hphase : c.phase = .service (.enter s command args k) w inst)
    (h : inst.accept command args = .ok packed) : ∃ d, c.Nests world host d w := by
  refine ⟨start inst packed (⟨w, k, c.entryStack⟩ :: c.callers) { c.context with host := s },
    ?_, s, command, args, k, inst, packed, hphase, h⟩
  simp only [Moment.next, hphase, serve, h]

/-- A call of a host leaves alone what belongs to the machine that waits: its frame, and the
four bytes below. -/
theorem Nests.byte_eq (h : Nests world host c d w) (hc : c.Suspended) (hlow : 28 ≤ w.ps.toInt)
    {j : Nat} (hj : w.ps.toInt - 4 ≤ j) : d.inst.memory.byte j = c.inst.memory.byte j := by
  obtain ⟨hnext, s, command, args, k, inst, packed, hphase, haccept⟩ := h
  obtain ⟨phase, stack, callers, ctx⟩ := c
  cases hphase
  simp only [Moment.next, serve, haccept] at hnext
  cases hnext
  exact Machine.byte_begin_of_caller inst.activate hc.phase hlow hj

end Moment

theorem Instance.Visits.suspended {world : World I σ ω} {host : Host I σ} {command : Int32}
    {args : List Int32} {inst : Instance} {ctx : Context σ ω} {c : Moment I σ ω}
    (hc : Visits world host command args inst ctx c) : c.Suspended :=
  hc.preserves (P := Moment.Suspended) (fun packed _ => Moment.suspended_start inst packed ctx)
    Moment.Suspended.next

/-- Words that are not given are zero. -/
theorem CallArgs.words_of_pack {command : Int32} {xs : List Int32} {args : CallArgs}
    (h : pack command xs = .ok args) :
    args.command = command ∧ ∀ i, args.arg i = xs[i]?.getD 0 := by
  unfold pack at h
  split at h
  · cases h
    refine ⟨by simp [CallArgs.command], fun i => ?_⟩
    simp only [arg, Vector.getElem?_ofFn]
    split
    · rfl
    · have hnone : xs[i]? = none := List.getElem?_eq_none (by omega)
      rw [hnone]
  · cases h

namespace Machine

/-- A call begins with a frame below the program stack, or with a fault if there is no room for
it and then nothing is written. The frame holds the command and the arguments, zero where none
are given; from there the module reads them, however large the frame is that it opens itself.
A frame that is built while a machine waits does not reach up to what that machine uses. -/
theorem entry_frames (world : World I σ ω) (host : Host I σ) (inst : Instance)
    (hsize : 32 ≤ inst.memory.size) (args : CallArgs) :
    (begin inst args = .fault (start inst) .stackOverflow ↔ inst.FrameOverflows) ∧
      (¬ inst.FrameOverflows →
        ∃ m, begin inst args = .next m ∧ m.OpensFrame inst args ∧ m.Passes args) ∧
      (∀ command xs, CallArgs.pack command xs = .ok args →
        args.command = command ∧ ∀ i, args.arg i = xs[i]?.getD 0) ∧
      (∀ caller : Int32, inst.programStack = caller - 4 → 28 ≤ caller.toInt →
        ∀ j : Nat, caller.toInt - 4 ≤ j →
          (begin inst args).inst.memory.byte j = inst.memory.byte j) ∧
      ∀ (command : Int32) (xs : List Int32) (b : Instance) (ctx : Context σ ω)
        (c d : Moment I σ ω) (w : Waiting), Instance.Visits world host command xs b ctx c →
        c.Nests world host d w → 28 ≤ w.ps.toInt →
        ∀ j : Nat, w.ps.toInt - 4 ≤ j → d.inst.memory.byte j = c.inst.memory.byte j := by
  refine ⟨⟨fun h => ?_, begin_of_overflows⟩, fun h => ?_, fun command xs => ?_,
    fun caller hstack hlow j => byte_begin_of_caller inst hstack hlow,
    fun command xs b ctx c d w hc h hlow j => h.byte_eq hc.suspended hlow⟩
  · refine Decidable.byContradiction fun hroom => ?_
    rw [begin_of_not_overflows hroom] at h
    cases h
  · have hopens := opensFrame_opened args hsize h
    exact ⟨opened inst args, begin_of_not_overflows h, hopens, hopens.passes⟩
  · exact CallArgs.words_of_pack

/-- A module with a program stack that is not aligned, which calls a service. -/
def crooked : Instance where
  name := "m"
  header := ⟨.legacy, 2, 32, 6, 38, 0, 0, 64, 0⟩
  memory := .zeroed 64
  jumpTable := none
  program := ⟨#[⟨.const, -1⟩, ⟨.call, 0⟩], #[0, 5], 6⟩
  strategy := .interpreted
  requested := .interpreted
  programStack := 58
  stackBottom := -65472
  state := .ready
  callLevel := 0
  map := none
  symbols := none
  profiling := false
  breakCount := 0
  lastFault := none

/-- A host that calls the module which asks for a service. -/
def reentering : Host Interface.empty Unit := fun s _ => .enter s 7 [-1] fun s reply => .done s reply

/-- The stack pointer of a machine whose host is about to make a call that is accepted. -/
def reentered? (c : Moment Interface.empty Unit Unit) : Option Int32 :=
  match c.phase with
  | .service (.enter _ command args _) w inst =>
    match inst.accept command args with
    | .ok _ => some w.ps
    | .error _ => none
  | _ => none

theorem nests_of_reentered? {c : Moment Interface.empty Unit Unit} {ps : Int32}
    (h : reentered? c = some ps) : ∃ d w, c.Nests World.empty reentering d w ∧ w.ps = ps := by
  unfold reentered? at h
  split at h
  · rename_i w inst hphase
    split at h
    · rename_i packed haccept
      cases h
      obtain ⟨d, hd⟩ := Moment.exists_nests hphase haccept
      exact ⟨d, w, hd, rfl⟩
    · cases h
  · cases h

theorem entry_frames_crooked :
    32 ≤ crooked.memory.size ∧
      (∃ m, begin crooked ⟨#v[7, -1, 0, 0]⟩ = .next m ∧ m.ps.toInt = 34 ∧
        (m.load (frameWord m.ps 2)).toInt32 = 7 ∧
        (m.load (frameWord m.ps 3)).toInt32 = -1) ∧
      ∃ c d w, Instance.Visits World.empty reentering 0 [] crooked ⟨(), .empty, ()⟩ c ∧
        c.Nests World.empty reentering d w ∧ w.ps.toInt = 34 ∧
        ∀ j : Nat, 30 ≤ j → d.inst.memory.byte j = c.inst.memory.byte j := by
  have hsize : 32 ≤ crooked.memory.size := by
    have hup := Sandbox.le_roundUp (64 : UInt32).toNat
    rw [crooked, Sandbox.size_zeroed]
    exact Nat.le_trans (by decide) hup
  obtain ⟨-, hopens, -, -, hnested⟩ := entry_frames
    (World.empty : World Interface.empty Unit Unit) reentering crooked hsize ⟨#v[7, -1, 0, 0]⟩
  obtain ⟨m, hbegin, hm, -⟩ := hopens (by decide)
  have hcourse : (Course.after (Moment.next World.empty reentering) 3
      (Moment.start crooked ⟨#v[0, 0, 0, 0]⟩ [] ⟨(), .empty, ()⟩)).bind reentered? = some 34 := by
    decide +kernel
  obtain ⟨c, hc, hreentered⟩ := Option.bind_eq_some_iff.1 hcourse
  obtain ⟨d, w, hnests, hps⟩ := nests_of_reentered? hreentered
  have hvisits : Instance.Visits World.empty reentering 0 [] crooked ⟨(), .empty, ()⟩ c :=
    ⟨_, rfl, 3, hc⟩
  have hint : w.ps.toInt = 34 := by
    rw [hps]
    decide
  refine ⟨hsize, ⟨m, hbegin, hm.ps, hm.word 2 7 rfl, hm.word 3 (-1) rfl⟩,
    c, d, w, hvisits, hnests, hint, ?_⟩
  intro j hj
  exact hnested _ _ _ _ c d w hvisits hnests (by omega) j (by omega)

end Machine

end SandboxVm
