/-
SandboxVm.Proofs.Checked — the machine over plain arrays, with every access checked.

The type of a `Sandbox` promises its shape, and an operand stack is a list, so that no access
of the machine can fail, by construction. Here the same machine works on what lies beneath: a
byte array with a mask and no promise about either, and an array of slots with a counter.
Ranges and slots are looked up with a check, and a failed check is `none`. Indices are
computed as they are on a processor, by clearing bits.

  §1  the region: whatever the address, checked accesses to the bytes of a `Sandbox` succeed
      and agree with its operations;
  §2  the slots: they succeed as long as the depth is at most `OperandStack.limit`;
  §3  the machine: `Represents.step?`, one case for each kind of instruction, and likewise for
      entry frames, the arguments of host services, and results.

So a failed check is never reached from a state that represents a machine.
-/
import SandboxVm.Machine
import SandboxVm.Proofs.Steps

namespace SandboxVm.Checked

/-! ## §1 The region -/

/-- Clearing the low bits of an index rounds it down to a multiple of the width. -/
theorem and_size_sub {x : Nat} (hx : x < UInt64.size) (w : Width) :
    x &&& (UInt64.size - w.bytes) = x / w.bytes * w.bytes := by
  obtain ⟨k, hk, hle⟩ : ∃ k, w.bytes = 2 ^ k ∧ k ≤ 2 := by
    cases w with
    | byte => exact ⟨0, rfl, by omega⟩
    | half => exact ⟨1, rfl, by omega⟩
    | word => exact ⟨2, rfl, by omega⟩
  have hpos : 2 ^ k - 1 + 1 = 2 ^ k := Nat.sub_add_cancel (Nat.two_pow_pos k)
  have hlt : 2 ^ k ≤ 2 ^ 64 := Nat.pow_le_pow_right (by omega) (by omega)
  have hsize : UInt64.size = 2 ^ 64 := rfl
  rw [hsize] at hx ⊢
  rw [hk]
  apply Nat.eq_of_testBit_eq
  intro i
  have hmask : (2 ^ 64 - 2 ^ k).testBit i = (decide (i < 64) && !decide (i < k)) := by
    rw [← hpos, Nat.testBit_two_pow_sub_succ (by omega), Nat.testBit_two_pow_sub_one]
  rw [Nat.testBit_and, hmask, Nat.mul_comm, Nat.testBit_two_pow_mul, Nat.testBit_div_two_pow]
  by_cases hi : i < k
  · have hik : ¬ k ≤ i := by omega
    simp [hi, hik]
  · rw [Nat.sub_add_cancel (by omega)]
    by_cases hn : i < 64
    · have hik : k ≤ i := by omega
      simp [hi, hn, hik]
    · have hbit : x.testBit i = false := Nat.testBit_lt_two_pow
        (Nat.lt_of_lt_of_le hx (Nat.pow_le_pow_right (by omega) (by omega)))
      simp [hbit]

/-- A byte array and a mask, with nothing known about either. -/
structure Memory where
  bytes : ByteArray
  mask : UInt32

namespace Memory

/-- What lies beneath a region. -/
def of (s : Sandbox) : Memory := ⟨s.bytes, s.mask⟩

/-- The bytes from index `i` up to index `j`. -/
def range? (m : Memory) (i j : Nat) : Option Bytes :=
  if i ≤ j ∧ j ≤ m.bytes.size then some (m.bytes.extract i j).data.toList else none

/-- Puts bytes into the range from index `i` on. -/
def put? (m : Memory) (i : Nat) (data : Bytes) : Option Memory :=
  if i + data.length ≤ m.bytes.size then
    some { m with bytes := Region.overwrite m.bytes i data }
  else none

/-- Moves the `n` bytes from index `src` on to index `dest`. -/
def move? (m : Memory) (dest src n : Nat) : Option Memory :=
  if src + n ≤ m.bytes.size ∧ dest + n ≤ m.bytes.size then
    some { m with bytes := Region.copyWithin m.bytes dest src n }
  else none

/-- Masks an address. -/
def wrap (m : Memory) (addr : UInt32) : Nat := (addr &&& m.mask).toNat

/-- The index of a cell: the masked address with its low bits cleared, as a word of 64 bits. -/
def index (m : Memory) (w : Width) (addr : UInt32) : Nat := m.wrap addr &&& (UInt64.size - w.bytes)

/-- The number in the bytes of a cell, least significant first. -/
def decode? : Width → Bytes → Option UInt32
  | .byte, [a] => some a.toUInt32
  | .half, [a, b] => some (a.toUInt16 ||| (b.toUInt16 <<< 8)).toUInt32
  | .word, [a, b, c, d] => some (Bytes.toWord a b c d)
  | _, _ => none

/-- The bytes of a cell that holds the low bytes of a word. -/
def encode : Width → UInt32 → Bytes
  | .byte, v => [v.toUInt8]
  | .half, v => [v.toUInt16.toUInt8, (v.toUInt16 >>> 8).toUInt8]
  | .word, v => Bytes.ofWord v

def load? (m : Memory) (w : Width) (addr : UInt32) : Option UInt32 :=
  (m.range? (m.index w addr) (m.index w addr + w.bytes)).bind (decode? w)

def store? (m : Memory) (w : Width) (addr v : UInt32) : Option Memory :=
  m.put? (m.index w addr) (encode w v)

theorem index_of (s : Sandbox) (w : Width) (addr : UInt32) :
    (of s).index w addr = s.cell w addr := by
  have hlt : s.wrap addr < UInt64.size :=
    Nat.lt_trans (addr &&& s.mask).toNat_lt (by decide)
  have hround : (of s).index w addr = s.wrap addr / w.bytes * w.bytes := and_size_sub hlt w
  rw [hround, Sandbox.cell_eq]

/-- The bytes of a range are the first `n` ones behind its start. -/
theorem toList_extract_eq (b : ByteArray) (i n : Nat) :
    (b.extract i (i + n)).data.toList = (b.data.toList.drop i).take n := by
  rw [ByteArray.data_extract, Array.toList_extract, List.extract_eq_take_drop,
    Nat.add_sub_cancel_left]

/-- The bytes of a range, one after another. -/
theorem toList_extract (b : ByteArray) {i n : Nat} (h : i + (n + 1) ≤ b.size) :
    (b.extract i (i + (n + 1))).data.toList =
      b.get i (by omega) :: (b.extract (i + 1) (i + 1 + n)).data.toList := by
  have hi : i < b.data.toList.length := by
    rw [Array.length_toList]
    exact Nat.lt_of_lt_of_le (by omega) h
  rw [toList_extract_eq, toList_extract_eq, List.drop_eq_getElem_cons hi, List.take_succ_cons]
  rfl

/-- Loads of a region never fail. -/
theorem load?_of (s : Sandbox) (w : Width) (addr : UInt32) :
    (of s).load? w addr = some (s.load w addr) := by
  have hcell := s.cell_add_bytes_le w addr
  have hin : s.cell w addr ≤ s.cell w addr + w.bytes ∧
      s.cell w addr + w.bytes ≤ (of s).bytes.size := ⟨Nat.le_add_right _ _, hcell⟩
  rw [load?, index_of, range?, if_pos hin]
  have hnone (i : Nat) : (s.bytes.extract i (i + 0)).data.toList = [] := by
    simp
  cases w with
  | byte =>
    simp only [Width.bytes] at hcell ⊢
    rw [show (of s).bytes = s.bytes from rfl, toList_extract s.bytes hcell, hnone]
    rfl
  | half =>
    simp only [Width.bytes] at hcell ⊢
    rw [show (of s).bytes = s.bytes from rfl, toList_extract s.bytes hcell,
      toList_extract s.bytes (by omega), hnone]
    rfl
  | word =>
    simp only [Width.bytes] at hcell ⊢
    rw [show (of s).bytes = s.bytes from rfl, toList_extract s.bytes hcell,
      toList_extract s.bytes (by omega), toList_extract s.bytes (by omega),
      toList_extract s.bytes (by omega), hnone]
    rfl

/-- Stores into a region never fail. -/
theorem store?_of (s : Sandbox) (w : Width) (addr v : UInt32) :
    (of s).store? w addr v = some (of (s.store w addr v)) := by
  have hcell := s.cell_add_bytes_le w addr
  have hlen : (encode w v).length = w.bytes := by cases w <;> rfl
  have hin : s.cell w addr + (encode w v).length ≤ (of s).bytes.size := by
    rw [hlen]
    exact hcell
  rw [store?, index_of, put?, if_pos hin]
  cases w with
  | byte =>
    simp only [Width.bytes] at hcell
    have h₀ : s.cell .byte addr < s.bytes.size := by omega
    simp [of, encode, Region.overwrite, Sandbox.store, Sandbox.store8, h₀]
  | half =>
    simp only [Width.bytes] at hcell
    have h₀ : s.cell .half addr < s.bytes.size := by omega
    have h₁ : s.cell .half addr + 1 < s.bytes.size := by omega
    simp [of, encode, Region.overwrite, Sandbox.store, Sandbox.store16, h₀, h₁]
  | word =>
    simp only [Width.bytes] at hcell
    have h₀ : s.cell .word addr < s.bytes.size := by omega
    have h₁ : s.cell .word addr + 1 < s.bytes.size := by omega
    have h₂ : s.cell .word addr + 1 + 1 < s.bytes.size := by omega
    have h₃ : s.cell .word addr + 1 + 1 + 1 < s.bytes.size := by omega
    simp [of, encode, Bytes.ofWord, Region.overwrite, Sandbox.store, Sandbox.store32, h₀, h₁, h₂,
      h₃]

/-- Whether a block can be copied: nothing is masked here. -/
def canCopy (m : Memory) (dest src n : UInt32) : Bool :=
  match Sandbox.endAddress? dest n, Sandbox.endAddress? src n with
  | some destEnd, some srcEnd =>
    [dest, src, destEnd, srcEnd].all fun addr => addr &&& m.mask = addr
  | _, _ => false

/-- Whether a pointer refers to `n` bytes inside the region. -/
def reaches (m : Memory) (ptr : UInt32) (n : Nat) : Bool :=
  ptr ≠ 0 && m.wrap ptr + n ≤ m.bytes.size

/-- Carries out an edit; one that is refused changes nothing. -/
def edit? (m : Memory) : Sandbox.Edit → Option Memory
  | .store w addr v => m.store? w addr v
  | .write ptr data => if m.reaches ptr data.length then m.put? (m.wrap ptr) data else some m
  | .fill ptr n v => if m.reaches ptr n then m.put? (m.wrap ptr) (List.replicate n v) else some m
  | .copy dest src n =>
    if m.canCopy dest src n then m.move? dest.toNat src.toNat n.toNat else some m
  | .replace other => some (of other)

/-- The `n` bytes at a pointer, when it refers to as many. -/
def slice? (m : Memory) (ptr : UInt32) (n : Nat) : Option (Option Bytes) :=
  if m.reaches ptr n then (m.range? (m.wrap ptr) (m.wrap ptr + n)).map some else some none

/-- The bytes from a pointer to the first zero byte, or to the end of the region. -/
def cString? (m : Memory) (ptr : UInt32) : Option (Option Bytes) :=
  if ptr = 0 then some none
  else (m.range? (m.wrap ptr) m.bytes.size).map fun rest => some (rest.takeWhile (· ≠ 0))

theorem canCopy_of (s : Sandbox) (dest src n : UInt32) :
    (of s).canCopy dest src n = s.canCopy dest src n := by
  unfold canCopy Sandbox.canCopy
  cases Sandbox.endAddress? dest n with
  | none => rfl
  | some destEnd =>
    cases Sandbox.endAddress? src n with
    | none => rfl
    | some srcEnd =>
      simp only [Sandbox.contains, List.all_cons, List.all_nil, Bool.and_true, Bool.and_assoc]
      rfl

theorem range?_eq (s : Sandbox) (ptr : UInt32) (n : Nat) :
    s.range? ptr n = if (of s).reaches ptr n then some (s.wrap ptr) else none := by
  unfold Sandbox.range? Sandbox.resolve?
  by_cases hp : ptr = 0
  · simp [reaches, hp]
  · have hreaches : (of s).reaches ptr n = decide (s.wrap ptr + n ≤ s.size) := by
      simp [reaches, hp]
      rfl
    by_cases hin : s.wrap ptr + n ≤ s.size
    · simp [hp, hreaches, hin]
    · simp [hp, hreaches, hin]

theorem le_size_of_reaches {m : Memory} {ptr : UInt32} {n : Nat} (h : m.reaches ptr n = true) :
    m.wrap ptr + n ≤ m.bytes.size := by
  simp only [reaches, Bool.and_eq_true, decide_eq_true_eq] at h
  exact h.2

/-- Edits of a region never fail. -/
theorem edit?_of (s : Sandbox) (e : Sandbox.Edit) : (of s).edit? e = some (of (s.edit e)) := by
  cases e with
  | store w addr v => exact store?_of s w addr v
  | write ptr data =>
    simp only [edit?, Sandbox.edit, range?_eq]
    by_cases h : (of s).reaches ptr data.length = true
    · simp only [h, if_true]
      rw [put?, if_pos (le_size_of_reaches h)]
      rfl
    · simp [h]
  | fill ptr n v =>
    simp only [edit?, Sandbox.edit, range?_eq]
    by_cases h : (of s).reaches ptr n = true
    · simp only [h, if_true]
      have hin : (of s).wrap ptr + (List.replicate n v).length ≤ (of s).bytes.size := by
        rw [List.length_replicate]
        exact le_size_of_reaches h
      rw [put?, if_pos hin, ← Region.fill_eq_overwrite]
      rfl
    · simp [h]
  | copy dest src n =>
    simp only [edit?, Sandbox.edit, canCopy_of]
    by_cases h : s.canCopy dest src n = true
    · have hb := Sandbox.add_lt_size_of_canCopy h
      have hin : src.toNat + n.toNat ≤ (of s).bytes.size ∧
          dest.toNat + n.toNat ≤ (of s).bytes.size :=
        ⟨Nat.le_of_lt hb.2, Nat.le_of_lt hb.1⟩
      rw [if_pos h, dif_pos h, move?, if_pos hin]
      rfl
    · rw [if_neg h, dif_neg h]
  | replace other => rfl

/-- Ranges of a region are read without failing. -/
theorem slice?_of (s : Sandbox) (ptr : UInt32) (n : Nat) :
    (of s).slice? ptr n = some (s.slice? ptr n) := by
  simp only [slice?, Sandbox.slice?, range?_eq]
  by_cases h : (of s).reaches ptr n = true
  · have hin : (of s).wrap ptr ≤ (of s).wrap ptr + n ∧
        (of s).wrap ptr + n ≤ (of s).bytes.size := ⟨Nat.le_add_right _ _, le_size_of_reaches h⟩
    rw [if_pos h, if_pos h, range?, if_pos hin]
    rfl
  · rw [if_neg h, if_neg h]
    rfl

/-- Strings of a region are found without failing. -/
theorem cString?_of (s : Sandbox) (ptr : UInt32) :
    (of s).cString? ptr = some (s.cString? ptr) := by
  unfold cString? Sandbox.cString? Sandbox.resolve?
  by_cases hp : ptr = 0
  · simp [hp]
  · have hlt := s.wrap_lt_size ptr
    have hin : (of s).wrap ptr ≤ (of s).bytes.size ∧ (of s).bytes.size ≤ (of s).bytes.size :=
      ⟨Nat.le_of_lt hlt, Nat.le_refl _⟩
    rw [if_neg hp, if_neg hp, range?, if_pos hin]
    simp only [Option.map_some, Region.terminated_eq s.bytes _ (Nat.le_of_lt hlt)]
    simp [of, wrap, Sandbox.wrap, List.take_of_length_le]

end Memory

/-! ## §2 The slots -/

/-- Slots for operands, and the number of those in use. -/
structure Stack where
  slots : Array UInt32
  top : Nat

namespace Stack

/-- The mask of a slot number. -/
def mask : Nat := OperandStack.limit - 1

/-- Fills the next slot. -/
def push? (s : Stack) (w : UInt32) : Option Stack :=
  if s.top &&& mask < s.slots.size then
    some ⟨s.slots.setIfInBounds (s.top &&& mask) w, s.top + 1⟩
  else none

/-- Takes the word out of the last slot in use. -/
def pop? (s : Stack) : Option (UInt32 × Stack) :=
  s.slots[(s.top - 1) &&& mask]?.map fun w => (w, ⟨s.slots, s.top - 1⟩)

/-- The slots in use hold the operands, topmost last. -/
structure Represents (s : Stack) (t : OperandStack) : Prop where
  size : s.slots.size = OperandStack.limit
  top : s.top = t.depth
  operands : s.slots.toList.take s.top = t.operands.reverse

/-- The mask does not alter the number of a slot. -/
theorem and_mask {i : Nat} (h : i < OperandStack.limit) : i &&& mask = i :=
  Nat.and_two_pow_sub_one_of_lt_two_pow (n := 10) h

variable {s : Stack} {t : OperandStack}

theorem Represents.top_le (h : s.Represents t) : s.top ≤ OperandStack.limit := by
  have hlen := congrArg List.length h.operands
  rw [List.length_take, Array.length_toList, List.length_reverse, h.size, ← t.depth_eq,
    ← h.top] at hlen
  omega

theorem Represents.depth_le (h : s.Represents t) : t.depth ≤ OperandStack.limit :=
  h.top ▸ h.top_le

/-- Every stack within the limit has a representation. -/
theorem exists_represents (h : t.depth ≤ OperandStack.limit) : ∃ s : Stack, s.Represents t := by
  have hlen : t.operands.length = t.depth := t.depth_eq.symm
  refine ⟨⟨(t.operands.reverse ++
    List.replicate (OperandStack.limit - t.depth) 0).toArray, t.depth⟩, ?_, rfl, ?_⟩
  · simp [hlen]
    omega
  · exact List.take_left' (by rw [List.length_reverse, hlen])

theorem Represents.push? (h : s.Represents t) (hroom : t.hasRoom = true) (w : UInt32) :
    ∃ s', s.push? w = some s' ∧ s'.Represents (t.push w) := by
  have hlt : s.top < OperandStack.limit := by
    rw [h.top]
    exact OperandStack.hasRoom_iff.1 hroom
  have hin : s.top < s.slots.size := h.size ▸ hlt
  refine ⟨⟨s.slots.setIfInBounds s.top w, s.top + 1⟩, ?_, ?_, ?_, ?_⟩
  · rw [Stack.push?, and_mask hlt, if_pos hin]
  · rw [Array.size_setIfInBounds, h.size]
  · exact congrArg (· + 1) h.top
  · have hlen : s.top < s.slots.toList.length := by rwa [Array.length_toList]
    simp only [Array.toList_setIfInBounds, OperandStack.operands_push, List.reverse_cons]
    rw [List.take_add_one, List.take_set_of_le (Nat.le_refl _), h.operands,
      List.getElem?_set_self hlen]
    rfl

theorem Represents.pop? {a : UInt32} (h : s.Represents (t.push a)) :
    ∃ s', s.pop? = some (a, s') ∧ s'.Represents t := by
  have htop : s.top = t.depth + 1 := h.top
  have hle := h.top_le
  have hlast : s.top - 1 = t.depth := by omega
  have hlt : t.depth < OperandStack.limit := by omega
  have hoperands := h.operands
  simp only [OperandStack.operands_push, List.reverse_cons] at hoperands
  have hlen : t.operands.reverse.length = t.depth := by
    rw [List.length_reverse, t.depth_eq]
  -- the last slot in use holds the topmost operand
  have hslot : s.slots[t.depth]? = some a := by
    have hget := congrArg (·[t.depth]?) hoperands
    simp only [List.getElem?_take, htop, Nat.lt_succ_self, if_true, Array.getElem?_toList] at hget
    rw [hget, List.getElem?_append_right (by omega), hlen, Nat.sub_self]
    rfl
  refine ⟨⟨s.slots, s.top - 1⟩, ?_, h.size, hlast, ?_⟩
  · rw [Stack.pop?, hlast, and_mask hlt, hslot]
    rfl
  · have htake := congrArg (List.take t.depth) hoperands
    rw [List.take_take, htop, Nat.min_eq_left (Nat.le_succ _), ← hlen, List.take_left'] at htake
    · rw [hlast, ← hlen]
      exact htake
    · rfl

end Stack

/-! ## §3 The machine -/

/-- The state of one call over plain arrays. The region of `inst` is not used. -/
structure Machine where
  inst : Instance
  memory : Memory
  stack : Stack
  pc : Nat
  cur : Nat
  ps : Int32

/-- What executing one operation leads to. -/
inductive Step where
  | next (r : Machine)
  | done (r : Machine)
  | system (r : Machine) (saved : UInt32)
  | fault (r : Machine) (cause : FaultCause)

namespace Machine

open SandboxVm.Machine (framePointer? returnSentinel)

/-- Goes on with the number in a cell. -/
def load? (r : Machine) (w : Width) (addr : UInt32) (k : UInt32 → Option Step) : Option Step :=
  (r.memory.load? w addr).bind k

/-- Goes on after a store into a cell. -/
def store? (r : Machine) (w : Width) (addr v : UInt32) (k : Machine → Option Step) :
    Option Step :=
  (r.memory.store? w addr v).bind fun memory => k { r with memory := memory }

/-- Pushes an operand. -/
def push? (r : Machine) (w : UInt32) : Option Step :=
  if r.stack.top < OperandStack.limit then
    (r.stack.push? w).map fun stack => .next { r with stack := stack }
  else some (.fault r .opStackOverflow)

/-- Goes on with the topmost operand. -/
def pop? (r : Machine) (k : UInt32 → Machine → Option Step) : Option Step :=
  if r.stack.top = 0 then some (.fault r .opStackUnderflow)
  else r.stack.pop?.bind fun (a, stack) => k a { r with stack := stack }

/-- Goes on with the two topmost operands, the lower one first. -/
def popTwo? (r : Machine) (k : UInt32 → UInt32 → Machine → Option Step) : Option Step :=
  r.pop? fun b r => r.pop? fun a r => k a b r

/-- Counts a function entry when profiling. -/
def countEntry (r : Machine) : Machine :=
  if r.inst.profiling then
    { r with inst := { r.inst with
      symbols := r.inst.symbols.map fun t => t.recordCall (r.inst.program.offsetOf r.cur) } }
  else r

def enter? (r : Machine) (frame : Int32) : Option Step :=
  let r := { r with ps := r.ps - frame }
  if r.ps < r.inst.stackBottom then some (.fault r .stackOverflow) else some (.next r.countEntry)

def leave? (r : Machine) (frame : Int32) : Option Step :=
  let r := { r with ps := r.ps + frame }
  r.load? .word r.ps.toUInt32 fun target =>
    if target.toInt32 = returnSentinel then some (.done r)
    else if r.inst.program.isInstruction target.toInt32 then
      some (.next { r with pc := target.toInt32.toNatClampNeg })
    else some (.fault r .pcOutOfRangeInLeave)

def callTo? (r : Machine) (target : Int32) : Option Step :=
  r.store? .word r.ps.toUInt32 (UInt32.ofNat r.pc) fun r =>
    if target < 0 then
      r.load? .word (r.ps.toUInt32 + 4) fun saved =>
        r.store? .word (r.ps.toUInt32 + 4) (-1 - target).toUInt32 fun r => some (.system r saved)
    else if r.inst.program.isInstruction target then
      some (.next { r with pc := target.toNatClampNeg })
    else some (.fault r .pcOutOfRangeInCall)

def jumpTo? (r : Machine) (target : Int32) : Option Step :=
  if Strategy.mayJump r.inst.program r.inst.jumpTable target then
    some (.next { r with pc := target.toNatClampNeg })
  else some (.fault r .illegalJump)

def blockCopy? (r : Machine) (dest src n : UInt32) : Option Step :=
  if r.memory.canCopy dest src n then
    (r.memory.edit? (.copy dest src n)).map fun memory => .next { r with memory := memory }
  else some (.fault r .blockCopyOutOfRange)

/-- Executes one instruction; `cur` and `pc` already point at it and behind it. -/
def execute? (r : Machine) (ins : Instruction) : Option Step :=
  match ins.op with
  | .undef => some (.fault r .badInstruction)
  | .ignore => some (.next r)
  | .breakpoint =>
    some (.next { r with inst := { r.inst with breakCount := r.inst.breakCount + 1 } })
  | .enter => r.enter? ins.operand
  | .leave => r.leave? ins.operand
  | .push => r.push? 0
  | .const => r.push? ins.operand.toUInt32
  | .frame => r.push? (r.ps + ins.operand).toUInt32
  | .call => r.pop? fun target r => r.callTo? target.toInt32
  | .pop => r.pop? fun _ r => some (.next r)
  | .jump => r.pop? fun target r => r.jumpTo? target.toInt32
  | .branch c => r.popTwo? fun a b r =>
    some (.next (if c.holds a b then { r with pc := ins.operand.toNatClampNeg } else r))
  | .load w => r.pop? fun addr r => r.load? w addr fun v => r.push? v
  | .store w => r.popTwo? fun addr v r => r.store? w addr v fun r => some (.next r)
  | .arg => r.pop? fun v r =>
    r.store? .word (r.ps + ins.operand).toUInt32 v fun r => some (.next r)
  | .blockCopy => r.popTwo? fun dest src r => r.blockCopy? dest src ins.operand.toUInt32
  | .unary op => r.pop? fun a r => r.push? (op.apply a)
  | .binary op => r.popTwo? fun a b r => r.push? (op.apply a b)
  | .divide op => r.popTwo? fun a b r =>
    match op.result? a b with
    | some v => r.push? v
    | none => some (.fault r .divideByZero)

/-- Executes a fused pair. -/
def fused? (r : Machine) (second : Machine → Option Step) : Option Step :=
  if r.stack.top < OperandStack.limit then second { r with cur := r.pc, pc := r.pc + 1 }
  else some (.fault r .opStackOverflow)

def executePrepared? (r : Machine) (op : PreparedOp) : Option Step :=
  match op with
  | .single ins => r.execute? ins
  | .jumpTo target => r.fused? fun r => some (.next { r with pc := target })
  | .jumpIllegal => r.fused? fun r => some (.fault r .illegalJump)
  | .callTo target => r.fused? fun r => r.callTo? target
  | .loadFrame offset => r.fused? fun r =>
    r.load? .word (r.ps + offset).toUInt32 fun v => r.push? v

/-- Executes the next operation. -/
def step? (r : Machine) : Option Step :=
  match r.inst.strategy with
  | .interpreted =>
    match r.inst.program.code[r.pc]? with
    | some ins => { r with cur := r.pc, pc := r.pc + 1 }.execute? ins
    | none => some (.fault { r with cur := r.pc } .pcOutOfRange)
  | .compiled code =>
    match code[r.pc]? with
    | some op => { r with cur := r.pc, pc := r.pc + 1 }.executePrepared? op
    | none => some (.fault { r with cur := r.pc } .pcOutOfRange)

/-- Builds the entry frame of a call. -/
def begin? (inst : Instance) (memory : Memory) (stack : Stack) (args : CallArgs) : Option Step :=
  match framePointer? inst with
  | none => some (.fault ⟨inst, memory, stack, 0, 0, inst.programStack⟩ .stackOverflow)
  | some ps =>
    let base := ps.toUInt32
    let r : Machine := ⟨inst, memory, stack, 0, 0, ps⟩
    r.store? .word (base + 8) args.command.toUInt32 fun r =>
    r.store? .word (base + 12) (args.arg 0).toUInt32 fun r =>
    r.store? .word (base + 16) (args.arg 1).toUInt32 fun r =>
    r.store? .word (base + 20) (args.arg 2).toUInt32 fun r =>
    r.store? .word (base + 4) 0 fun r =>
    r.store? .word base returnSentinel.toUInt32 fun r => some (.next r)

/-- The arguments of a host service. -/
def syscallArgs? (memory : Memory) (ps : Int32) : Option SyscallArgs :=
  (Vector.ofFnM fun i : Fin 20 =>
    (memory.load? .word (ps.toUInt32 + 4 + UInt32.ofNat (4 * i.val))).map UInt32.toInt32).map
      SyscallArgs.mk

/-- Goes on after a host service that returned `v`. -/
def resume? (r : Machine) (saved : UInt32) (v : Int32) : Option Step :=
  r.store? .word (r.ps.toUInt32 + 4) saved fun r => r.push? v.toUInt32

/-- The result of a call whose outermost frame was left: the only operand. -/
def finish? (r : Machine) : Option (Option UInt32) :=
  if r.stack.top = 1 then r.stack.pop?.map fun top => some top.1 else some none

/-- The machine that is represented, with its region and its operand stack. -/
def view (r : Machine) (s : Sandbox) (t : OperandStack) : SandboxVm.Machine :=
  ⟨{ r.inst with memory := s }, t, r.pc, r.cur, r.ps⟩

/-- The arrays hold the region and the operands of a machine, and all else is equal. -/
def Represents (r : Machine) (m : SandboxVm.Machine) : Prop :=
  ∃ s t, r.memory = .of s ∧ r.stack.Represents t ∧ m = r.view s t

/-- As far as a fault is concerned, a machine is represented: what its operands are does not
matter, only that there are not too many. -/
def Locates (r : Machine) (m : SandboxVm.Machine) : Prop :=
  ∃ s, r.memory = .of s ∧ m.inst = { r.inst with memory := s } ∧ m.cur = r.cur ∧
    m.stack.depth ≤ OperandStack.limit

end Machine

/-- Two steps of the same kind, with the second machine represented by the first. -/
def Step.Represents : Step → SandboxVm.Step → Prop
  | .next r, .next m => r.Represents m
  | .done r, .done m => r.Represents m
  | .system r saved, .system m saved' => r.Represents m ∧ saved = saved'
  | .fault r cause, .fault m cause' => r.Locates m ∧ cause = cause'
  | _, _ => False

/-- No check fails, and the result represents a step. -/
def Does (x : Option Step) (step : SandboxVm.Step) : Prop := ∃ t, x = some t ∧ t.Represents step

/-- Steps that decide alike. -/
theorem Does.ite {c : Prop} [Decidable c] {x y : Option Step} {a b : SandboxVm.Step}
    (hx : c → Does x a) (hy : ¬ c → Does y b) :
    Does (if c then x else y) (if c then a else b) := by
  by_cases h : c
  · rw [if_pos h, if_pos h]
    exact hx h
  · rw [if_neg h, if_neg h]
    exact hy h

namespace Machine

open SandboxVm.Machine (returnSentinel)

variable {r : Machine} {m : SandboxVm.Machine}

theorem Represents.fault (h : r.Represents m) (cause : FaultCause) :
    Does (some (.fault r cause)) (.fault m cause) := by
  obtain ⟨s, t, hmem, hst, rfl⟩ := h
  exact ⟨_, rfl, ⟨s, hmem, rfl, rfl, hst.depth_le⟩, rfl⟩

theorem Represents.next (h : r.Represents m) : Does (some (.next r)) (.next m) := ⟨_, rfl, h⟩

/-- A load goes on with the number that the region holds. -/
theorem load?_eq {s : Sandbox} (hmem : r.memory = .of s) (w : Width) (addr : UInt32)
    (k : UInt32 → Option Step) : r.load? w addr k = k (s.load w addr) := by
  rw [load?, hmem, Memory.load?_of, Option.bind_some]

/-- A store goes on with the region after it. -/
theorem store?_eq {s : Sandbox} (hmem : r.memory = .of s) (w : Width) (addr v : UInt32)
    (k : Machine → Option Step) :
    r.store? w addr v k = k { r with memory := .of (s.store w addr v) } := by
  rw [store?, hmem, Memory.store?_of, Option.bind_some]

theorem Represents.push? (h : r.Represents m) (w : UInt32) : Does (r.push? w) (m.push w) := by
  obtain ⟨s, t, hmem, hst, rfl⟩ := h
  by_cases hroom : t.hasRoom = true
  · obtain ⟨st, hpush, hst'⟩ := hst.push? hroom w
    have hlt : r.stack.top < OperandStack.limit := by
      rw [hst.top]
      exact OperandStack.hasRoom_iff.1 hroom
    rw [Machine.push?, if_pos hlt, hpush, SandboxVm.Machine.push_of_hasRoom hroom]
    exact ⟨_, rfl, s, _, hmem, hst', rfl⟩
  · have hfull : ¬ r.stack.top < OperandStack.limit := by
      rw [hst.top]
      exact mt OperandStack.hasRoom_iff.2 hroom
    rw [Machine.push?, if_neg hfull, SandboxVm.Machine.push_of_not_hasRoom hroom]
    exact Represents.fault ⟨s, t, hmem, hst, rfl⟩ _

/-- A result takes the place of operands that were taken off before. -/
theorem Represents.yield (h : r.Represents m) (hroom : m.stack.hasRoom = true) (w : UInt32) :
    Does (r.push? w) (m.yield w) := by
  have hpush := h.push? w
  rwa [SandboxVm.Machine.push_of_hasRoom hroom] at hpush

theorem Represents.pop? (h : r.Represents m) {k : UInt32 → Machine → Option Step}
    {f : UInt32 → SandboxVm.Machine → SandboxVm.Step}
    (hk : ∀ a r' m', r'.Represents m' → m'.stack.hasRoom = true → Does (k a r') (f a m')) :
    Does (r.pop? k) (m.pop f) := by
  obtain ⟨s, t, hmem, hst, rfl⟩ := h
  cases hp : t.pop? with
  | none =>
    obtain rfl := OperandStack.pop?_eq_none_iff.1 hp
    have hzero : r.stack.top = 0 := hst.top
    rw [Machine.pop?, if_pos hzero]
    exact Represents.fault ⟨s, _, hmem, hst, rfl⟩ _
  | some top =>
    obtain ⟨a, t'⟩ := top
    obtain rfl := OperandStack.pop?_eq_some_iff.1 hp
    obtain ⟨st, hpop, hst'⟩ := hst.pop?
    have htop : r.stack.top = t'.depth + 1 := hst.top
    have hne : r.stack.top ≠ 0 := by omega
    have hroom : t'.hasRoom = true := by
      have hle := hst.top_le
      exact OperandStack.hasRoom_iff.2 (show t'.depth < OperandStack.limit by omega)
    rw [Machine.pop?, if_neg hne, hpop]
    exact hk a _ _ ⟨s, t', hmem, hst', rfl⟩ hroom

theorem Represents.popTwo? (h : r.Represents m) {k : UInt32 → UInt32 → Machine → Option Step}
    {f : UInt32 → UInt32 → SandboxVm.Machine → SandboxVm.Step}
    (hk : ∀ a b r' m', r'.Represents m' → m'.stack.hasRoom = true → Does (k a b r') (f a b m')) :
    Does (r.popTwo? k) (m.popTwo f) := by
  -- both ways of taking two operands off differ in one case only: with a single operand, one
  -- takes it off before the fault and the other does not
  have hpair : m.popTwo f = m.pop (fun b m => m.pop fun a m => f a b m) ∨
      ∃ b, m.stack = OperandStack.empty.push b ∧ m.popTwo f = .fault m .opStackUnderflow := by
    obtain ⟨inst, ⟨operands, depth, hdepth⟩, pc, cur, ps⟩ := m
    match operands with
    | [] => exact .inl rfl
    | [b] => exact .inr ⟨b, OperandStack.ext rfl, rfl⟩
    | _ :: _ :: _ => exact .inl rfl
  obtain hpair | ⟨b, hstack, hfault⟩ := hpair
  · rw [hpair]
    exact h.pop? fun b r' m' h' _ => h'.pop? fun a r'' m'' h'' hroom => hk a b r'' m'' h'' hroom
  · rw [hfault]
    obtain ⟨s, t, hmem, hst, rfl⟩ := h
    obtain rfl : t = OperandStack.empty.push b := hstack
    obtain ⟨st, hpop, hst'⟩ := hst.pop?
    have hone : r.stack.top ≠ 0 := by
      rw [hst.top]
      exact Nat.succ_ne_zero _
    have hzero : st.top = 0 := hst'.top
    rw [Machine.popTwo?, Machine.pop?, if_neg hone, hpop]
    exact ⟨_, if_pos hzero, ⟨s, hmem, rfl, rfl, hst.depth_le⟩, rfl⟩

theorem Represents.countEntry (h : r.Represents m) : r.countEntry.Represents m.countEntry := by
  obtain ⟨s, t, hmem, hst, rfl⟩ := h
  unfold Machine.countEntry
  by_cases hp : r.inst.profiling = true
  · rw [if_pos hp, show (r.view s t).countEntry = _ from if_pos hp]
    exact ⟨s, t, hmem, hst, rfl⟩
  · rw [if_neg hp, show (r.view s t).countEntry = _ from if_neg hp]
    exact ⟨s, t, hmem, hst, rfl⟩

theorem Represents.enter? (h : r.Represents m) (frame : Int32) :
    Does (r.enter? frame) (m.enter frame) := by
  obtain ⟨s, t, hmem, hst, rfl⟩ := h
  have hrep : { r with ps := r.ps - frame }.Represents
      ({ r with ps := r.ps - frame }.view s t) := ⟨s, t, hmem, hst, rfl⟩
  exact Does.ite (fun _ => hrep.fault _) (fun _ => hrep.countEntry.next)

theorem Represents.leave? (h : r.Represents m) (frame : Int32) :
    Does (r.leave? frame) (m.leave frame) := by
  obtain ⟨s, t, hmem, hst, rfl⟩ := h
  have hrep : { r with ps := r.ps + frame }.Represents
      ({ r with ps := r.ps + frame }.view s t) := ⟨s, t, hmem, hst, rfl⟩
  rw [show r.leave? frame = _ from load?_eq (r := { r with ps := r.ps + frame }) hmem _ _ _]
  refine Does.ite (fun _ => ⟨_, rfl, hrep⟩) fun _ => ?_
  exact Does.ite (fun _ => ⟨_, rfl, s, t, hmem, hst, rfl⟩) (fun _ => hrep.fault _)

theorem Represents.callTo? (h : r.Represents m) (target : Int32) :
    Does (r.callTo? target) (m.callTo target) := by
  obtain ⟨s, t, hmem, hst, rfl⟩ := h
  unfold Machine.callTo?
  rw [store?_eq hmem]
  refine Does.ite (fun _ => ?_) fun _ => ?_
  · rw [load?_eq rfl, store?_eq rfl]
    exact ⟨_, rfl, ⟨_, t, rfl, hst, rfl⟩, rfl⟩
  · exact Does.ite (fun _ => ⟨_, rfl, _, t, rfl, hst, rfl⟩)
      (fun _ => ⟨_, rfl, ⟨_, rfl, rfl, rfl, hst.depth_le⟩, rfl⟩)

theorem Represents.jumpTo? (h : r.Represents m) (target : Int32) :
    Does (r.jumpTo? target) (m.jumpTo target) := by
  obtain ⟨s, t, hmem, hst, rfl⟩ := h
  exact Does.ite (fun _ => ⟨_, rfl, s, t, hmem, hst, rfl⟩)
    (fun _ => Represents.fault ⟨s, t, hmem, hst, rfl⟩ _)

theorem Represents.blockCopy? (h : r.Represents m) (dest src n : UInt32) :
    Does (r.blockCopy? dest src n) (m.blockCopy dest src n) := by
  obtain ⟨s, t, hmem, hst, rfl⟩ := h
  unfold Machine.blockCopy?
  rw [hmem, Memory.canCopy_of, Memory.edit?_of]
  exact Does.ite (fun _ => ⟨_, rfl, _, t, rfl, hst, rfl⟩)
    (fun _ => Represents.fault ⟨s, t, hmem, hst, rfl⟩ _)

/-- Executing an instruction fails no check. -/
theorem Represents.execute? (h : r.Represents m) (ins : Instruction) :
    Does (r.execute? ins) (m.execute ins) := by
  have hps : r.ps = m.ps := by
    obtain ⟨s, t, hmem, hst, rfl⟩ := h
    rfl
  unfold Machine.execute? SandboxVm.Machine.execute
  cases ins.op with
  | undef => exact h.fault _
  | ignore => exact h.next
  | breakpoint =>
    obtain ⟨s, t, hmem, hst, rfl⟩ := h
    exact ⟨_, rfl, s, t, hmem, hst, rfl⟩
  | enter => exact h.enter? _
  | leave => exact h.leave? _
  | push => exact h.push? _
  | const => exact h.push? _
  | frame =>
    rw [hps]
    exact h.push? _
  | call => exact h.pop? fun target r m h _ => h.callTo? _
  | pop => exact h.pop? fun a r m h _ => h.next
  | jump => exact h.pop? fun target r m h _ => h.jumpTo? _
  | branch c =>
    refine h.popTwo? fun a b r m h _ => ?_
    cases c.holds a b with
    | false => exact h.next
    | true =>
      obtain ⟨s, t, hmem, hst, rfl⟩ := h
      exact ⟨_, rfl, s, t, hmem, hst, rfl⟩
  | load w =>
    refine h.pop? fun addr r m h hroom => ?_
    have hyield := h.yield hroom (m.inst.memory.load w addr)
    obtain ⟨s, t, hmem, hst, rfl⟩ := h
    rw [load?_eq hmem]
    exact hyield
  | store w =>
    refine h.popTwo? fun addr v r m h _ => ?_
    obtain ⟨s, t, hmem, hst, rfl⟩ := h
    rw [store?_eq hmem]
    exact ⟨_, rfl, _, t, rfl, hst, rfl⟩
  | arg =>
    refine h.pop? fun v r m h _ => ?_
    obtain ⟨s, t, hmem, hst, rfl⟩ := h
    rw [store?_eq hmem]
    exact ⟨_, rfl, _, t, rfl, hst, rfl⟩
  | blockCopy => exact h.popTwo? fun dest src r m h _ => h.blockCopy? _ _ _
  | unary op => exact h.pop? fun a r m h hroom => h.yield hroom _
  | binary op => exact h.popTwo? fun a b r m h hroom => h.yield hroom _
  | divide op =>
    refine h.popTwo? fun a b r m h hroom => ?_
    cases op.result? a b with
    | none => exact h.fault _
    | some v => exact h.yield hroom v

theorem Represents.fused? (h : r.Represents m) {k : Machine → Option Step}
    {f : SandboxVm.Machine → SandboxVm.Step}
    (hk : ∀ r' m', r'.Represents m' → m'.stack.hasRoom = true → Does (k r') (f m')) :
    Does (r.fused? k) (m.fused f) := by
  obtain ⟨s, t, hmem, hst, rfl⟩ := h
  have hiff : (r.stack.top < OperandStack.limit) = (t.hasRoom = true) := by
    rw [hst.top, OperandStack.hasRoom_iff]
  unfold Machine.fused? SandboxVm.Machine.fused
  simp only [hiff]
  exact Does.ite (fun hroom => hk _ _ ⟨s, t, hmem, hst, rfl⟩ hroom)
    (fun _ => Represents.fault ⟨s, t, hmem, hst, rfl⟩ _)

theorem Represents.executePrepared? (h : r.Represents m) (op : PreparedOp) :
    Does (r.executePrepared? op) (m.executePrepared op) := by
  unfold Machine.executePrepared? SandboxVm.Machine.executePrepared
  cases op with
  | single ins => exact h.execute? ins
  | jumpTo target =>
    refine h.fused? fun r m h _ => ?_
    obtain ⟨s, t, hmem, hst, rfl⟩ := h
    exact ⟨_, rfl, s, t, hmem, hst, rfl⟩
  | jumpIllegal => exact h.fused? fun r m h _ => h.fault _
  | callTo target => exact h.fused? fun r m h _ => h.callTo? target
  | loadFrame offset =>
    refine h.fused? fun r m h _ => ?_
    have hpush := h.push? (m.load (m.ps + offset).toUInt32)
    obtain ⟨s, t, hmem, hst, rfl⟩ := h
    rw [load?_eq hmem]
    exact hpush

/-- A step of a represented machine fails no check, and the result represents the step. -/
theorem Represents.step? (h : r.Represents m) : Does r.step? m.step := by
  obtain ⟨s, t, hmem, hst, rfl⟩ := h
  have hfetched : { r with cur := r.pc, pc := r.pc + 1 }.Represents (r.view s t).fetched :=
    ⟨s, t, hmem, hst, rfl⟩
  have hlost : Does (some (.fault { r with cur := r.pc } .pcOutOfRange))
      (.fault { r.view s t with cur := r.pc } .pcOutOfRange) :=
    ⟨_, rfl, ⟨s, hmem, rfl, rfl, hst.depth_le⟩, rfl⟩
  cases hstrat : r.inst.strategy with
  | interpreted =>
    rw [SandboxVm.Machine.step_interpreted (m := r.view s t) hstrat]
    simp only [Machine.step?, hstrat]
    change Does _ (match r.inst.program.code[r.pc]? with | some ins => _ | none => _)
    cases r.inst.program.code[r.pc]? with
    | none => exact hlost
    | some ins => exact hfetched.execute? ins
  | compiled code =>
    rw [SandboxVm.Machine.step_compiled (m := r.view s t) hstrat]
    simp only [Machine.step?, hstrat]
    change Does _ (match code[r.pc]? with | some op => _ | none => _)
    cases code[r.pc]? with
    | none => exact hlost
    | some op => exact hfetched.executePrepared? op

/-- A store into a word goes on with a machine that represents the one after it. -/
theorem Represents.store (h : r.Represents m) (addr v : UInt32) :
    ∃ r', (∀ k, r.store? .word addr v k = k r') ∧ r'.Represents (m.store addr v) := by
  obtain ⟨s, t, hmem, hst, rfl⟩ := h
  exact ⟨_, store?_eq hmem .word addr v, s.store32 addr v, t, rfl, hst, rfl⟩

/-- Building the entry frame fails no check, whatever the program stack. -/
theorem begin?_represents (inst : Instance) {stack : Stack} (hst : stack.Represents .empty)
    (args : CallArgs) :
    Does (begin? inst (.of inst.memory) stack args) (SandboxVm.Machine.begin inst args) := by
  unfold begin? SandboxVm.Machine.begin
  cases SandboxVm.Machine.framePointer? inst with
  | none => exact ⟨_, rfl, ⟨inst.memory, rfl, rfl, rfl, Nat.zero_le _⟩, rfl⟩
  | some ps =>
    have hrep : Represents ⟨inst, .of inst.memory, stack, 0, 0, ps⟩ ⟨inst, .empty, 0, 0, ps⟩ :=
      ⟨inst.memory, .empty, rfl, hst, rfl⟩
    obtain ⟨r₁, h₁, hrep⟩ := hrep.store (ps.toUInt32 + 8) args.command.toUInt32
    obtain ⟨r₂, h₂, hrep⟩ := hrep.store (ps.toUInt32 + 12) (args.arg 0).toUInt32
    obtain ⟨r₃, h₃, hrep⟩ := hrep.store (ps.toUInt32 + 16) (args.arg 1).toUInt32
    obtain ⟨r₄, h₄, hrep⟩ := hrep.store (ps.toUInt32 + 20) (args.arg 2).toUInt32
    obtain ⟨r₅, h₅, hrep⟩ := hrep.store (ps.toUInt32 + 4) 0
    obtain ⟨r₆, h₆, hrep⟩ := hrep.store ps.toUInt32 returnSentinel.toUInt32
    simp only [h₁, h₂, h₃, h₄, h₅, h₆]
    exact hrep.next

/-- Reading the arguments of a host service fails no check. -/
theorem syscallArgs?_of (s : Sandbox) (ps : Int32) :
    syscallArgs? (.of s) ps = some (SandboxVm.Machine.syscallArgs s ps) := by
  have hload (i : Fin 20) :
      ((Memory.of s).load? .word (ps.toUInt32 + 4 + UInt32.ofNat (4 * i.val))).map
        UInt32.toInt32 =
      pure (s.load32 (ps.toUInt32 + 4 + UInt32.ofNat (4 * i.val))).toInt32 := by
    rw [Memory.load?_of]
    rfl
  unfold syscallArgs?
  simp only [hload, Vector.ofFnM_pure]
  rfl

theorem Represents.resume? (h : r.Represents m) (saved : UInt32) (v : Int32) :
    Does (r.resume? saved v) (m.resume saved v) := by
  have hps : r.ps = m.ps := by
    obtain ⟨s, t, hmem, hst, rfl⟩ := h
    rfl
  obtain ⟨r', hstore, hrep⟩ := h.store (m.ps.toUInt32 + 4) saved
  rw [Machine.resume?, hps, hstore]
  exact hrep.push? _

/-- Taking the result of a call fails no check, and finds it where there is one. -/
theorem Represents.finish? (h : r.Represents m) {σ ω : Type} (ctx : Context σ ω) :
    ∃ w?, r.finish? = some w? ∧
      m.finish ctx =
        w?.elim (m.fail .opStackCorrupted ctx) fun w => ⟨.ok w.toInt32, m.inst, ctx⟩ := by
  obtain ⟨s, t, hmem, hst, rfl⟩ := h
  by_cases hone : r.stack.top = 1
  · have hlen : t.operands.length = 1 := by rw [← t.depth_eq, ← hst.top, hone]
    obtain ⟨w, hw⟩ := List.length_eq_one_iff.1 hlen
    obtain rfl : t = OperandStack.empty.push w := OperandStack.ext hw
    obtain ⟨st, hpop, -⟩ := hst.pop?
    refine ⟨some w, ?_, rfl⟩
    rw [Machine.finish?, if_pos hone, hpop]
    rfl
  · refine ⟨none, if_neg hone, ?_⟩
    have hlen : t.operands.length ≠ 1 := by rwa [← t.depth_eq, ← hst.top]
    simp only [SandboxVm.Machine.finish]
    split
    · rename_i w hw
      exact absurd (congrArg List.length hw) hlen
    · rfl

end Machine

end SandboxVm.Checked
