/-
SandboxVm.Proofs.JumpTables — a jump table only restricts.

Two instances of a program may differ in their jump tables. Where a jump is prepared together with
the constant before it, the answer of the table is part of the prepared code; any other jump asks
the table when it is executed. If one table lets through all that the other one does, the two
instances part at an illegal jump of the stricter one, in whatever nested call that happens, and
nowhere else.

  §1  `Strategy.Widens`: a table that lets more jumps through, and code prepared for it;
  §2  `Machine.step_withTable`: a step under the wider table is the same step, or an illegal jump
      under the stricter one;
  §3  `Ends.withTable`: a call without illegal jumps ends in the same way under the wider table;
  §4  `Machine.lands_of_build`: no table refuses the jump to a constant right before it.

`jump_table_only_restricts` is the result.
-/
import SandboxVm.Proofs.ControlFlow
import SandboxVm.Proofs.Faults
import SandboxVm.Proofs.Retouching

namespace SandboxVm

/-! ## §1 Wider tables -/

namespace Strategy

/-- Every jump that one table lets through is let through by the other. -/
def Widens (p : Program) (table wider : Option JumpTable) : Prop :=
  ∀ t, mayJump p table t = true → mayJump p wider t = true

/-- A table that was built is widened by one that allows more, and by having none. -/
theorem widens_of_build {entries : List Int32} {p : Program} {table : JumpTable}
    {wider : Option JumpTable} (h : JumpTable.build entries p = .ok table)
    (hwider : ∀ t, wider = some t → ∀ n, table.allows n = true → t.allows n = true) :
    Widens p (some table) wider := by
  intro n hn
  cases wider with
  | none => exact ((JumpTable.allows_build_iff h).1 hn).1
  | some t => exact hwider t rfl n hn

/-- For a wider table the same operation is prepared, or a jump in place of an illegal one. -/
theorem prepareOp_of_widens {p : Program} {table wider : Option JumpTable}
    (h : Widens p table wider) (ins : Instruction) (next : Option Instruction) :
    prepareOp p wider ins next = prepareOp p table ins next ∨
      prepareOp p table ins next = .jumpIllegal ∧
        ∃ n, prepareOp p wider ins next = .jumpTo n := by
  cases next with
  | none => exact .inl rfl
  | some next =>
    simp only [prepareOp]
    split
    · by_cases htable : mayJump p table ins.operand = true
      · rw [if_pos htable, if_pos (h _ htable)]
        exact .inl rfl
      · rw [if_neg htable]
        split
        · exact .inr ⟨rfl, _, rfl⟩
        · exact .inl rfl
    all_goals exact .inl rfl

/-- Whether code is prepared depends on the mode and on the size of the program. -/
theorem prepare_cases (mode : Mode) (p : Program) :
    (∀ table, prepare mode p table = .interpreted) ∨
      ∀ table, prepare mode p table = .compiled (prepareCode p table) := by
  cases mode with
  | interpreted => exact .inl fun _ => rfl
  | compiled =>
    by_cases hsize : p.size ≤ maxPrepared
    · exact .inr fun _ => if_pos hsize
    · exact .inl fun _ => if_neg hsize

end Strategy

/-! ## §2 Steps -/

/-- The instance with another jump table, prepared for it. -/
def Instance.withTable (table : Option JumpTable) (mode : Mode) (inst : Instance) : Instance :=
  { inst with jumpTable := table, strategy := Strategy.prepare mode inst.program table }

/-- The outcome of a call, with another jump table. -/
def Outcome.withTable {σ ω : Type} (table : Option JumpTable) (mode : Mode)
    (out : Outcome Instance σ ω) : Outcome Instance σ ω :=
  { out with module := out.module.withTable table mode }

theorem Instance.unrecorded_withTable (table : Option JumpTable) (mode : Mode) :
    Unrecorded (withTable table mode) where
  name _ := rfl
  memory _ := rfl
  program _ := rfl
  programStack _ := rfl
  stackBottom _ := rfl
  state _ := rfl
  callLevel _ := rfl
  breakCount _ := rfl
  puts _ _ _ _ _ _ := rfl
  lastFault _ := rfl
  recordFault _ _ _ := rfl

/-- The instance is prepared for the mode. -/
def Instance.PreparedFor (mode : Mode) (inst : Instance) : Prop :=
  inst.strategy = Strategy.prepare mode inst.program inst.jumpTable

namespace Machine

open Instance (unrecorded_withTable withTable)
open Strategy (Widens)

variable {table : Option JumpTable} {mode : Mode} {m : Machine}

theorem enter_withTable (m : Machine) (frame : Int32) :
    (m.mapInst (withTable table mode)).enter frame =
      (m.enter frame).mapInst (withTable table mode) := by
  have hcount (n : Machine) : (n.mapInst (withTable table mode)).countEntry =
      n.countEntry.mapInst (withTable table mode) := by
    unfold countEntry
    rw [apply_ite (Machine.mapInst _)]
    rfl
  unfold enter
  rw [apply_ite (Step.mapInst _), Step.mapInst, Step.mapInst, ← hcount]
  rfl

theorem jumpTo_withTable (h : Widens m.inst.program m.inst.jumpTable table) (mode : Mode)
    (target : Int32) :
    (m.mapInst (withTable table mode)).jumpTo target =
        (m.jumpTo target).mapInst (withTable table mode) ∨
      m.jumpTo target = .fault m .illegalJump := by
  by_cases hmay : Strategy.mayJump m.inst.program m.inst.jumpTable target = true
  · have hwider : Strategy.mayJump (m.mapInst (withTable table mode)).inst.program
        (m.mapInst (withTable table mode)).inst.jumpTable target = true := h target hmay
    rw [jumpTo_of_mayJump hmay, jumpTo_of_mayJump hwider]
    exact .inl rfl
  · exact .inr (jumpTo_of_not_mayJump hmay)

theorem execute_withTable (h : Widens m.inst.program m.inst.jumpTable table)
    (ins : Instruction) :
    (m.mapInst (withTable table mode)).execute ins =
        (m.execute ins).mapInst (withTable table mode) ∨
      ∃ n, m.execute ins = .fault n .illegalJump := by
  have hexecute := m.execute_mapInst (unrecorded_withTable table mode).toUnnoticed ins
    fun _ => m.enter_withTable ins.operand
  by_cases hop : ins.op = .jump
  · obtain ⟨inst, stack, pc, cur, ps⟩ := m
    cases hpop : stack.pop? with
    | none =>
      refine .inl (hexecute fun _ => ?_)
      simp only [pop, mapInst, hpop]
      rfl
    | some top =>
      obtain hsame | hillegal := jumpTo_withTable
        (m := ⟨inst, top.2, pc, cur, ps⟩) h mode top.1.toInt32
      · refine .inl (hexecute fun _ => ?_)
        simp only [pop, mapInst, hpop]
        exact hsame
      · refine .inr ⟨⟨inst, top.2, pc, cur, ps⟩, ?_⟩
        simp only [execute, hop, pop, hpop]
        exact hillegal
  · exact .inl (hexecute fun hjump => absurd hjump hop)

theorem executePrepared_withTable (h : Widens m.inst.program m.inst.jumpTable table)
    (ins : Instruction) (next : Option Instruction) :
    (m.mapInst (withTable table mode)).executePrepared
          (Strategy.prepareOp m.inst.program table ins next) =
        (m.executePrepared (Strategy.prepareOp m.inst.program m.inst.jumpTable ins next)).mapInst
          (withTable table mode) ∨
      ∃ n, m.executePrepared (Strategy.prepareOp m.inst.program m.inst.jumpTable ins next) =
        .fault n .illegalJump := by
  obtain hop | ⟨hop, n, hwider⟩ := Strategy.prepareOp_of_widens h ins next
  · rw [hop]
    have hprepared := m.executePrepared_mapInst (unrecorded_withTable table mode).toUnnoticed
      (Strategy.prepareOp m.inst.program m.inst.jumpTable ins next)
    by_cases hsingle : ∃ i, Strategy.prepareOp m.inst.program m.inst.jumpTable ins next = .single i
    · obtain ⟨i, hi⟩ := hsingle
      rw [hi]
      exact execute_withTable h i
    · exact .inl (hprepared fun i hi => absurd ⟨i, hi⟩ hsingle)
  · rw [hop, hwider]
    simp only [executePrepared, fused_eq]
    by_cases hroom : m.stack.hasRoom = true
    · exact .inr ⟨_, if_pos hroom⟩
    · refine .inl ?_
      rw [if_neg hroom]
      exact if_neg hroom

/-- Under a wider table a step is the same one, unless the stricter table refuses a jump. -/
theorem step_withTable (hm : m.inst.PreparedFor mode)
    (h : Widens m.inst.program m.inst.jumpTable table) :
    (m.mapInst (withTable table mode)).step = m.step.mapInst (withTable table mode) ∨
      ∃ n, m.step = .fault n .illegalJump := by
  have hpc : (m.mapInst (withTable table mode)).pc = m.pc := rfl
  have hprogram : (m.mapInst (withTable table mode)).inst.program = m.inst.program := rfl
  obtain hprepare | hprepare := Strategy.prepare_cases mode m.inst.program
  · have hst : m.inst.strategy = .interpreted := hm.trans (hprepare _)
    have hst' : (m.mapInst (withTable table mode)).inst.strategy = .interpreted := hprepare table
    rw [step_interpreted hst, step_interpreted hst', hpc, hprogram]
    cases m.inst.program.code[m.pc]? with
    | none => exact .inl rfl
    | some ins => exact m.fetched.execute_withTable h ins
  · have hst := hm.trans (hprepare m.inst.jumpTable)
    have hst' : (m.mapInst (withTable table mode)).inst.strategy = _ := hprepare table
    rw [step_compiled hst, step_compiled hst', hpc, Strategy.getElem?_prepareCode,
      Strategy.getElem?_prepareCode]
    cases m.inst.program.code[m.pc]? with
    | none => exact .inl rfl
    | some ins => exact m.fetched.executePrepared_withTable h ins _

end Machine

/-! ## §3 Courses -/

section Courses

open Instance (unrecorded_withTable withTable)

variable {I : Interface} {σ ω : Type} {world : World I σ ω} {host : Host I σ}
  {table : Option JumpTable} {mode : Mode}

namespace Moment

variable {c d : Moment I σ ω} {n : Nat}

/-- An illegal jump is recorded at the moment. -/
def RecordsIllegalJump (c : Moment I σ ω) : Prop :=
  ∃ f, c.recorded? = some f ∧ f.cause = .illegalJump

/-- The instance can be prepared for the wider table. -/
structure Widenable (table : Option JumpTable) (mode : Mode) (c : Moment I σ ω) : Prop where
  prepared : c.inst.PreparedFor mode
  table : Strategy.Widens c.inst.program c.inst.jumpTable table

theorem Widenable.of_sameModule {inst : Instance} (hprepared : inst.PreparedFor mode)
    (htable : Strategy.Widens inst.program inst.jumpTable table) (h : inst.SameModule c.inst) :
    c.Widenable table mode := by
  constructor
  · unfold Instance.PreparedFor
    rw [h.strategy, h.program, h.jumpTable]
    exact hprepared
  · rw [h.program, h.jumpTable]
    exact htable

/-- Under a wider table the same moment follows, unless it records an illegal jump. -/
theorem next_withTable (hc : c.Widenable table mode) (h : c.next world host = some d)
    (hd : ¬ d.RecordsIllegalJump) :
    (c.mapInst (withTable table mode)).next world host =
      some (d.mapInst (withTable table mode)) := by
  have hnext := next_mapInst (unrecorded_withTable table mode) world host c
  rw [h] at hnext
  refine hnext fun m hm => ?_
  obtain ⟨phase, stack, callers, ctx⟩ := c
  obtain rfl := Phase.running?_eq_some_iff.1 hm
  obtain hsame | ⟨n, hillegal⟩ := Machine.step_withTable hc.prepared hc.table
  · exact hsame
  · cases h
    refine absurd ⟨(n.inst.recordFault .illegalJump n.cur).1, ?_, rfl⟩ hd
    simp only [recorded?, hillegal]

/-- Under a wider table a course without illegal jumps is the same one, with the same system
calls. -/
theorem after_withTable (hc : c.Widenable table mode)
    (h : Course.after (next world host) n c = some d)
    (hlegal : ∀ e, c.Reaches world host e → ¬ e.RecordsIllegalJump) :
    Course.after (next world host) n (c.mapInst (withTable table mode)) =
        some (d.mapInst (withTable table mode)) ∧
      (c.mapInst (withTable table mode)).requests world host n = c.requests world host n := by
  induction n generalizing c with
  | zero =>
    cases h
    exact ⟨rfl, rfl⟩
  | succ n ih =>
    cases hnext : c.next world host with
    | none => simp [Course.after, hnext] at h
    | some c' =>
      have hreaches : c.Reaches world host c' := .head hnext (.refl c')
      have hwide := next_withTable hc hnext (hlegal c' hreaches)
      rw [Course.after_succ hnext] at h
      obtain ⟨hafter, hrequests⟩ := ih
        (.of_sameModule hc.prepared hc.table (next_sameModule hnext)) h
        fun e he => hlegal e (.head hnext he)
      rw [Course.after_succ hwide, requests_succ hwide, requests_succ hnext, hrequests,
        request?_mapInst (unrecorded_withTable table mode).toUnnoticed]
      exact ⟨hafter, rfl⟩

end Moment

/-- A call without illegal jumps ends in the same way under a wider table. -/
theorem Instance.Ends.withTable {command : Int32} {args : List Int32} {inst : Instance}
    {ctx : Context σ ω} {out : Outcome Instance σ ω} {log : List SyscallArgs}
    (h : Ends world host command args inst ctx out log) (hprepared : inst.PreparedFor mode)
    (htable : Strategy.Widens inst.program inst.jumpTable table)
    (hlegal : ∀ c, Visits world host command args inst ctx c → ¬ c.RecordsIllegalJump) :
    Ends world host command args (inst.withTable table mode) ctx (out.withTable table mode)
      log := by
  have hφ := (unrecorded_withTable table mode).toUnnoticed
  unfold Ends at h ⊢
  rw [hφ.accept]
  cases ha : inst.accept command args with
  | error e =>
    rw [ha] at h
    obtain ⟨rfl, rfl⟩ := h
    exact ⟨rfl, rfl⟩
  | ok packed =>
    rw [ha] at h
    obtain ⟨n, d, hd, hout, rfl⟩ := h
    have hstart := Moment.start_sameModule (I := I) inst packed [] ctx
    obtain ⟨hafter, hrequests⟩ := Moment.after_withTable
      (.of_sameModule hprepared htable hstart) hd fun e he => hlegal e ⟨packed, ha, he⟩
    refine ⟨n, d.mapInst (Instance.withTable table mode), ?_, ?_, ?_⟩
    · rw [Moment.start_mapInst hφ, hafter]
    · rw [Moment.outcome?_mapInst hφ, hout]
      rfl
    · rw [Moment.start_mapInst hφ, hrequests]

end Courses

/-! ## §4 Jumps to a constant -/

namespace Machine

variable {m : Machine} {n : Int32}

/-- The machine is about to push a constant, right before a jump to it. -/
def AtConstantJump (m : Machine) (n : Int32) : Prop :=
  ∃ y, m.inst.program.code[m.pc]? = some ⟨.const, n⟩ ∧
    m.inst.program.code[m.pc + 1]? = some ⟨.jump, y⟩

/-- The machine behind a jump that stands right behind the current instruction. -/
def landed (m : Machine) (n : Int32) : Machine :=
  { m with pc := n.toNatClampNeg, cur := m.pc + 1 }

/-- What the machine does with a constant and a jump to it: it comes to the instruction in one step
or in two. Without room for the constant it faults at once. -/
def Lands (m : Machine) (n : Int32) : Prop :=
  if m.stack.hasRoom then
    m.step = .next (m.landed n) ∨ ∃ k, m.step = .next k ∧ k.step = .next (m.landed n)
  else m.step = .fault m.fetched .opStackOverflow

/-- A jump to a constant lands where the table lets jumps land. -/
theorem lands_of_mayJump (hs : Strategy.Suits m.inst.program m.inst.jumpTable m.inst.strategy)
    (hm : m.AtConstantJump n)
    (hn : Strategy.mayJump m.inst.program m.inst.jumpTable n = true) : m.Lands n := by
  obtain ⟨y, hconst, hjump⟩ := hm
  unfold Lands
  obtain hst | hst := hs
  · by_cases hroom : m.stack.hasRoom = true
    · rw [if_pos hroom]
      refine .inr ⟨m.half n.toUInt32, step_eq_half hst hconst rfl hroom, ?_⟩
      rw [step_half n.toUInt32 hst hjump]
      exact jumpTo_of_mayJump (m := m.fetched.fetched) hn
    · rw [if_neg hroom, step_interpreted hst, hconst]
      exact push_of_not_hasRoom (m := m.fetched) hroom _
  · have hfused : m.step = m.fetched.executePrepared (.jumpTo n.toNatClampNeg) :=
      (step_prepared hst hconst hjump).trans (congrArg _ (if_pos hn))
    rw [hfused]
    by_cases hroom : m.stack.hasRoom = true
    · rw [if_pos hroom]
      exact .inl (if_pos hroom)
    · rw [if_neg hroom]
      exact if_neg hroom

/-- No table that was built for the program refuses a jump to a constant right before it. -/
theorem lands_of_build {entries : List Int32} {table : JumpTable}
    (hs : Strategy.Suits m.inst.program m.inst.jumpTable m.inst.strategy)
    (hbuild : JumpTable.build entries m.inst.program = .ok table)
    (htable : m.inst.jumpTable = some table) (hm : m.AtConstantJump n)
    (hn : m.inst.program.isInstruction n = true) : m.Lands n := by
  refine lands_of_mayJump hs hm ?_
  obtain ⟨y, hconst, hjump⟩ := hm
  rw [htable]
  exact (JumpTable.allows_build_iff hbuild).2 ⟨hn, .inr ⟨m.pc, y, hconst, hjump⟩⟩

end Machine

namespace Instance

variable {I : Interface} {σ ω : Type}

/-- A jump table only restricts. Let an instance be prepared with a table that was built for its
program, and let another table allow all that this one allows, or let there be no other table. If a
call comes to its end and no illegal jump is recorded on the way, then it does the same on the
instance that is prepared with the other table: it makes the same system calls and has the same
outcome, up to the table itself. A jump to a constant right before it is never illegal under a table
that was built. -/
theorem jump_table_only_restricts {a : Instance} {entries : List Int32} {table : JumpTable}
    {mode : Mode} (hbuild : JumpTable.build entries a.program = .ok table)
    (htable : a.jumpTable = some table)
    (hmode : a.strategy = Strategy.prepare mode a.program a.jumpTable) (world : World I σ ω)
    (host : Host I σ) (command : Int32) (args : List Int32) (ctx : Context σ ω) :
    (∀ wider : Option JumpTable,
      (∀ t, wider = some t → ∀ n, table.allows n = true → t.allows n = true) →
      ∀ fuel out, call world host fuel command args a ctx = some out →
      (∀ c, Visits world host command args a ctx c → ¬ c.RecordsIllegalJump) →
      (∃ fuel', call world host fuel' command args (a.withTable wider mode) ctx =
        some (out.withTable wider mode)) ∧
      (∀ fuel' out', call world host fuel' command args (a.withTable wider mode) ctx = some out' →
        out' = out.withTable wider mode) ∧
      ∃ log, Ends world host command args a ctx out log ∧
        Ends world host command args (a.withTable wider mode) ctx (out.withTable wider mode) log) ∧
    ∀ c m n, Visits world host command args a ctx c → c.phase = .step (.next m) →
      m.AtConstantJump n → a.program.isInstruction n = true → m.Lands n := by
  constructor
  · intro wider hwider fuel out hcall hlegal
    obtain ⟨log, hends⟩ := exists_call_iff.1 ⟨fuel, hcall⟩
    have hwidens : Strategy.Widens a.program a.jumpTable wider :=
      htable ▸ Strategy.widens_of_build hbuild hwider
    have hends' := hends.withTable hmode hwidens hlegal
    refine ⟨exists_call_iff.2 ⟨log, hends'⟩, ?_, log, hends, hends'⟩
    intro fuel' out' hcall'
    obtain ⟨log', hlog'⟩ := exists_call_iff.1 ⟨fuel', hcall'⟩
    exact (hlog'.unique hends').1
  · intro c m n hc hphase hm hn
    have hsame : a.SameModule m.inst := by
      have hinst : c.inst = m.inst := by rw [Moment.inst, hphase]; rfl
      exact hinst ▸ hc.sameModule
    have hs : Strategy.Suits m.inst.program m.inst.jumpTable m.inst.strategy := by
      rw [hsame.program, hsame.jumpTable, hsame.strategy, hmode]
      exact Strategy.suits_prepare mode _ _
    rw [← hsame.program] at hbuild hn
    exact Machine.lands_of_build hs hbuild (hsame.jumpTable.trans htable) hm hn

/-- An illegal jump that was recorded in the course of a call is the last fault afterwards. -/
theorem not_recordsIllegalJump {world : World I σ ω} {host : Host I σ} {fuel : Nat}
    {command : Int32} {args : List Int32} {inst : Instance} {ctx : Context σ ω}
    {out : Outcome Instance σ ω} (h : call world host fuel command args inst ctx = some out)
    (hlast : ∀ f, out.module.lastFault = some f → f.cause ≠ .illegalJump) (c : Moment I σ ω)
    (hc : Visits world host command args inst ctx c) : ¬ c.RecordsIllegalJump := by
  rintro ⟨f, hf, hcause⟩
  obtain ⟨d, hd, hhalted, -⟩ := Moment.next_of_recorded? world host hf
  have hvisits := hc.tail (Course.Reaches.head hd (.refl d))
  exact hlast f (outcome_of_halted h hvisits hhalted).2.2 hcause

/-- The image of a module that jumps to a constant, asks for service 0, jumps to the answer and
returns 5. The answer it expects is the only jump target that it declares. -/
def steered : Bytes :=
  let code : Code :=
    { bytes := [⟨.enter, 16⟩, ⟨.const, 4⟩, ⟨.jump, 0⟩, ⟨.undef, 0⟩, ⟨.const, -1⟩, ⟨.call, 0⟩,
        ⟨.jump, 0⟩, ⟨.const, 5⟩, ⟨.leave, 16⟩].flatMap Instruction.encode
      instructionCount := 9
      jumpTargets := [7] }
  Layout.build ⟨.extended, code, [], [], 64⟩

/-- A host that calls back in when it is asked first, and always answers with the declared jump
target. -/
def steering : Host Interface.empty Nat := fun n _ =>
  if n = 0 then .enter 1 0 [] fun s _ => .done s (.ok 7) else .done (n + 1) (.ok 7)

/-- Both calls jump to the answer, and the outcome is the same when no table is consulted. -/
theorem jump_table_only_restricts_steered :
    ∃ (a : Instance) (table : JumpTable) (fuel : Nat) (out : Outcome Instance Nat Unit)
      (log : List SyscallArgs) (c : Moment Interface.empty Nat Unit) (m : Machine),
      load "m" steered ⟨.compiled, none, false⟩ = .ok a ∧ a.jumpTable = some table ∧
      JumpTable.build [7] a.program = .ok table ∧ table.allows 8 = false ∧
      call World.empty steering 20 0 [] a ⟨0, .empty, ()⟩ = some out ∧ out.reply = .ok 5 ∧
      call World.empty steering fuel 0 [] (a.withTable none .compiled) ⟨0, .empty, ()⟩ =
        some (out.withTable none .compiled) ∧
      Ends World.empty steering 0 [] a ⟨0, .empty, ()⟩ out log ∧
      Ends World.empty steering 0 [] (a.withTable none .compiled) ⟨0, .empty, ()⟩
        (out.withTable none .compiled) log ∧
      Visits World.empty steering 0 [] a ⟨0, .empty, ()⟩ c ∧ c.phase = .step (.next m) ∧
      m.AtConstantJump 4 ∧ m.Lands 4 := by
  let ctx : Context Nat Unit := ⟨0, .empty, ()⟩
  let opts : LoadOptions := ⟨.compiled, none, false⟩
  let loaded := (load "m" steered opts).toOption
  have hparse : (parse steered).toOption.isSome = true := by decide +kernel
  have htable : (loaded.bind fun a => (JumpTable.build [7] a.program).toOption.map fun table =>
      decide (a.jumpTable = some table ∧ table.allows 8 = false ∧ a.requested = .compiled ∧
        a.program.isInstruction 4 = true)) = some true := by decide +kernel
  have hcall : (loaded.bind fun a => (call World.empty steering 20 0 [] a ctx).map fun out =>
      decide (out.reply.toOption = some 5 ∧ out.module.lastFault = none)) = some true := by
    decide +kernel
  have hcourse : (loaded.bind fun a => (a.accept 0 []).toOption.bind fun packed =>
      (Course.after (Moment.next World.empty steering) 1 (Moment.start a packed [] ctx)).bind
        fun c => c.phase.running?.map fun m =>
          decide (m.inst.program.code[m.pc]? = some ⟨.const, 4⟩ ∧
            m.inst.program.code[m.pc + 1]? = some ⟨.jump, 0⟩)) = some true := by decide +kernel
  obtain ⟨parsed, hparsed⟩ := Option.isSome_iff_exists.1 hparse
  obtain ⟨a, hload, ha⟩ := load_of_parse (eq_ok_of_toOption hparsed) "m" opts
  have hloaded : loaded = some a := congrArg Except.toOption hload
  rw [hloaded, Option.bind_some] at htable hcall hcourse
  obtain ⟨table, hbuild, htable⟩ := Option.map_eq_some_iff.1 htable
  obtain ⟨htable, hallows, hrequested, hin⟩ := of_decide_eq_true htable
  obtain ⟨out, hout, hreply⟩ := Option.map_eq_some_iff.1 hcall
  obtain ⟨hreply, hlast⟩ := of_decide_eq_true hreply
  obtain ⟨packed, hpacked, hcourse⟩ := Option.bind_eq_some_iff.1 hcourse
  obtain ⟨c, hc, hcourse⟩ := Option.bind_eq_some_iff.1 hcourse
  obtain ⟨m, hm, hpair⟩ := Option.map_eq_some_iff.1 hcourse
  have hphase := Phase.running?_eq_some_iff.1 hm
  have hatJump : m.AtConstantJump 4 := ⟨0, of_decide_eq_true hpair⟩
  have hvisits : Visits World.empty steering 0 [] a ctx c :=
    ⟨packed, eq_ok_of_toOption hpacked, 1, hc⟩
  have hbuild := eq_ok_of_toOption hbuild
  have hmode : a.strategy = Strategy.prepare .compiled a.program a.jumpTable :=
    hrequested ▸ ha.strategy
  obtain ⟨hsame, hlands⟩ :=
    jump_table_only_restricts hbuild htable hmode World.empty steering 0 [] ctx
  have hlegal := not_recordsIllegalJump hout fun f hf => by simp [hlast] at hf
  obtain ⟨⟨fuel, hout'⟩, -, log, hends, hends'⟩ :=
    hsame none (fun t ht => nomatch ht) 20 out hout hlegal
  exact ⟨a, table, fuel, out, log, c, m, hload, htable, hbuild, hallows, hout,
    eq_ok_of_toOption hreply, hout', hends, hends', hvisits, hphase, hatJump,
    hlands c m 4 hvisits hphase hatJump hin⟩

end Instance

end SandboxVm
