/-
SandboxVm.Machine — executing one instruction.

The machine is an instance together with the state of one call: an operand stack, the
next instruction, the instruction being executed and the program stack pointer. `step`
executes one operation of the prepared strategy. It knows nothing of hosts: a call of a
negative number stops at `Step.system` with the arguments in place, and `resume` goes on
with the host's answer.

Frames grow downward from the program stack pointer `ps`. The word at `ps` is the return
address, the word at `ps + 4` holds the number of a host service while it is called, and
outgoing arguments follow.
-/
import SandboxVm.Arguments
import SandboxVm.Arithmetic
import SandboxVm.Instance
import SandboxVm.OperandStack

namespace SandboxVm

/-- The state of one call into an instance. -/
structure Machine where
  inst : Instance
  stack : OperandStack
  /-- The instruction to execute next. -/
  pc : Nat
  /-- The instruction being executed, for diagnostics. -/
  cur : Nat
  /-- The program stack pointer. -/
  ps : Int32

/-- What executing one operation leads to. -/
inductive Step where
  /-- Execution goes on. -/
  | next (m : Machine)
  /-- The outermost frame was left. -/
  | done (m : Machine)
  /-- A host service is called; `saved` is the word that its number replaced. -/
  | system (m : Machine) (saved : UInt32)
  /-- The module broke its containment. -/
  | fault (m : Machine) (cause : FaultCause)

namespace Machine

/-- The bytes of the frame that a host call builds: return address, service number, command
and three arguments. -/
def entryFrame : Int32 := 24

/-- The return address that ends the outermost call. -/
def returnSentinel : Int32 := -1

/-- The machine at the start of a call. -/
def start (inst : Instance) : Machine := ⟨inst, .empty, 0, 0, inst.programStack⟩

/-! ## Memory -/

/-- The word at an address. -/
@[inline]
def load (m : Machine) (addr : UInt32) : UInt32 := m.inst.memory.load32 addr

/-- Changes the data region. -/
@[inline]
def mapMemory (m : Machine) (f : Sandbox → Sandbox) : Machine :=
  { m with inst := { m.inst with memory := f m.inst.memory } }

/-- Stores a word. -/
@[inline]
def store (m : Machine) (addr v : UInt32) : Machine := m.mapMemory fun s => s.store32 addr v

/-! ## Entry frame -/

/-- The stack pointer below the entry frame, unless that is below the stack bottom. -/
def framePointer? (inst : Instance) : Option Int32 :=
  if Int32.minValue.toInt + entryFrame.toInt ≤ inst.programStack.toInt then
    let ps := inst.programStack - entryFrame
    if inst.stackBottom ≤ ps then some ps else none
  else none

/-- Builds the entry frame of a call and starts at the first instruction. -/
def begin (inst : Instance) (args : CallArgs) : Step :=
  match framePointer? inst with
  | none => .fault (start inst) .stackOverflow
  | some ps =>
    let base := ps.toUInt32
    let m : Machine := ⟨inst, .empty, 0, 0, ps⟩
    let m := m.store (base + 8) args.command.toUInt32
    let m := m.store (base + 12) (args.arg 0).toUInt32
    let m := m.store (base + 16) (args.arg 1).toUInt32
    let m := m.store (base + 20) (args.arg 2).toUInt32
    let m := m.store (base + 4) 0
    .next (m.store base returnSentinel.toUInt32)

/-! ## Single operations -/

/-- Goes on with a result in place of the operands that were taken off for it. -/
@[inline]
def yield (m : Machine) (w : UInt32) : Step := .next { m with stack := m.stack.push w }

/-- Pushes an operand. -/
@[inline]
def push (m : Machine) (w : UInt32) : Step :=
  if m.stack.hasRoom then m.yield w else .fault m .opStackOverflow

/-- Takes the topmost operand off and goes on with it. -/
@[inline]
def pop (m : Machine) (next : UInt32 → Machine → Step) : Step :=
  match m with
  | ⟨inst, stack, pc, cur, ps⟩ =>
    match stack.pop? with
    | some (a, stack) => next a ⟨inst, stack, pc, cur, ps⟩
    | none => .fault ⟨inst, stack, pc, cur, ps⟩ .opStackUnderflow

/-- Takes the two topmost operands off and goes on with them, the lower one first. -/
@[inline]
def popTwo (m : Machine) (next : UInt32 → UInt32 → Machine → Step) : Step :=
  match m with
  | ⟨inst, stack, pc, cur, ps⟩ =>
    match stack.popTwo? with
    | some (a, b, stack) => next a b ⟨inst, stack, pc, cur, ps⟩
    | none => .fault ⟨inst, stack, pc, cur, ps⟩ .opStackUnderflow

/-- Counts a function entry when profiling. -/
def countEntry (m : Machine) : Machine :=
  if m.inst.profiling then
    { m with inst := { m.inst with
      symbols := m.inst.symbols.map fun t => t.recordCall (m.inst.program.offsetOf m.cur) } }
  else m

/-- Opens a frame. -/
def enter (m : Machine) (frame : Int32) : Step :=
  let m := { m with ps := m.ps - frame }
  if m.ps < m.inst.stackBottom then .fault m .stackOverflow else .next m.countEntry

/-- Closes a frame and returns to the saved instruction. -/
def leave (m : Machine) (frame : Int32) : Step :=
  let m := { m with ps := m.ps + frame }
  let target := (m.load m.ps.toUInt32).toInt32
  if target = returnSentinel then .done m
  else if m.inst.program.isInstruction target then
    .next { m with pc := target.toNatClampNeg }
  else .fault m .pcOutOfRangeInLeave

/-- Saves the return address and calls an instruction, or a host service when the target is
negative; service `n` has the target `-1 - n`. -/
def callTo (m : Machine) (target : Int32) : Step :=
  let m := m.store m.ps.toUInt32 (UInt32.ofNat m.pc)
  if target < 0 then
    let slot := m.ps.toUInt32 + 4
    let saved := m.load slot
    .system (m.store slot (-1 - target).toUInt32) saved
  else if m.inst.program.isInstruction target then
    .next { m with pc := target.toNatClampNeg }
  else .fault m .pcOutOfRangeInCall

/-- Jumps to a permitted instruction. -/
def jumpTo (m : Machine) (target : Int32) : Step :=
  if Strategy.mayJump m.inst.program m.inst.jumpTable target then
    .next { m with pc := target.toNatClampNeg }
  else .fault m .illegalJump

/-- Copies a block of `n` bytes. -/
def blockCopy (m : Machine) (dest src n : UInt32) : Step :=
  if m.inst.memory.canCopy dest src n then .next (m.mapMemory fun s => s.edit (.copy dest src n))
  else .fault m .blockCopyOutOfRange

/-- Executes one instruction; `cur` and `pc` already point at it and behind it. -/
def execute (m : Machine) (ins : Instruction) : Step :=
  match ins.op with
  | .undef => .fault m .badInstruction
  | .ignore => .next m
  | .breakpoint => .next { m with inst := { m.inst with breakCount := m.inst.breakCount + 1 } }
  | .enter => m.enter ins.operand
  | .leave => m.leave ins.operand
  | .push => m.push 0
  | .const => m.push ins.operand.toUInt32
  | .frame => m.push (m.ps + ins.operand).toUInt32
  | .call => m.pop fun target m => m.callTo target.toInt32
  | .pop => m.pop fun _ m => .next m
  | .jump => m.pop fun target m => m.jumpTo target.toInt32
  | .branch c => m.popTwo fun a b m =>
    .next (if c.holds a b then { m with pc := ins.operand.toNatClampNeg } else m)
  | .load w => m.pop fun addr m => m.yield (m.inst.memory.load w addr)
  | .store w => m.popTwo fun addr v m => .next (m.mapMemory fun s => s.store w addr v)
  | .arg => m.pop fun v m => .next (m.store (m.ps + ins.operand).toUInt32 v)
  | .blockCopy => m.popTwo fun dest src m => m.blockCopy dest src ins.operand.toUInt32
  | .unary op => m.pop fun a m => m.yield (op.apply a)
  | .binary op => m.popTwo fun a b m => m.yield (op.apply a b)
  | .divide op => m.popTwo fun a b m =>
    match op.result? a b with
    | some r => m.yield r
    | none => .fault m .divideByZero

/-- Executes a fused pair, which needs room for the operand that its first instruction
would push; afterwards the second instruction counts as the one being executed. -/
@[inline]
def fused (m : Machine) (second : Machine → Step) : Step :=
  if m.stack.hasRoom then second { m with cur := m.pc, pc := m.pc + 1 }
  else .fault m .opStackOverflow

/-- Executes one operation of prepared code; `cur` and `pc` point at its first instruction
and behind it. -/
def executePrepared (m : Machine) (op : PreparedOp) : Step :=
  match op with
  | .single ins => m.execute ins
  | .jumpTo target => m.fused fun m => .next { m with pc := target }
  | .jumpIllegal => m.fused fun m => .fault m .illegalJump
  | .callTo target => m.fused fun m => m.callTo target
  | .loadFrame offset => m.fused fun m => m.push (m.load (m.ps + offset).toUInt32)

/-- Executes the next operation. -/
def step (m : Machine) : Step :=
  match m.inst.strategy with
  | .interpreted =>
    match m.inst.program.code[m.pc]? with
    | some ins => { m with cur := m.pc, pc := m.pc + 1 }.execute ins
    | none => .fault { m with cur := m.pc } .pcOutOfRange
  | .compiled code =>
    match code[m.pc]? with
    | some op => { m with cur := m.pc, pc := m.pc + 1 }.executePrepared op
    | none => .fault { m with cur := m.pc } .pcOutOfRange

/-! ## Host services -/

/-- The arguments of a host service: the words from its number on. -/
def syscallArgs (memory : Sandbox) (ps : Int32) : SyscallArgs :=
  ⟨Vector.ofFn fun i =>
    (memory.load32 (ps.toUInt32 + 4 + UInt32.ofNat (4 * i.val))).toInt32⟩

/-- An instance as a host sees it: nested calls build their frames below the current one. -/
def suspend (inst : Instance) (ps : Int32) : Instance := { inst with programStack := ps - 4 }

/-- Goes on after a host service that returned `r`, with the instance as the host left it:
the word that the service number replaced comes back, and the result is pushed. -/
def resume (m : Machine) (saved : UInt32) (r : Int32) : Step :=
  (m.store (m.ps.toUInt32 + 4) saved).push r.toUInt32

end Machine

end SandboxVm
