/-
SandboxVm.OperandStack — the operands of one call.

The stack is a list of words that knows its depth, so that asking whether there is room for
another operand costs nothing however deep it is. Two stacks with the same operands are
equal (`ext`), and what each operation does to the operands is said beside it.
-/

namespace SandboxVm

/-- A stack of words together with its depth. -/
structure OperandStack where
  /-- The operands, topmost first. -/
  operands : List UInt32
  depth : Nat
  depth_eq : depth = operands.length

namespace OperandStack

/-- The largest depth. -/
def limit : Nat := 1024

/-- The stack without operands. -/
def empty : OperandStack := ⟨[], 0, rfl⟩

/-- Whether another operand fits. -/
@[inline]
def hasRoom (s : OperandStack) : Bool := s.depth < limit

/-- Puts an operand on top. -/
@[inline]
def push (s : OperandStack) (w : UInt32) : OperandStack :=
  ⟨w :: s.operands, s.depth + 1, by rw [List.length_cons, s.depth_eq]⟩

/-- Takes the topmost operand off. -/
@[inline]
def pop? : OperandStack → Option (UInt32 × OperandStack)
  | ⟨w :: rest, depth, h⟩ => some (w, ⟨rest, depth - 1, by rw [h]; rfl⟩)
  | ⟨[], _, _⟩ => none

/-- Takes the two topmost operands off, the lower one first. -/
@[inline]
def popTwo? : OperandStack → Option (UInt32 × UInt32 × OperandStack)
  | ⟨b :: a :: rest, depth, h⟩ => some (a, b, ⟨rest, depth - 2, by rw [h]; rfl⟩)
  | ⟨[_], _, _⟩ | ⟨[], _, _⟩ => none

theorem ext {s t : OperandStack} (h : s.operands = t.operands) : s = t := by
  obtain ⟨_, _, rfl⟩ := s
  obtain ⟨_, _, rfl⟩ := t
  cases h
  rfl

theorem hasRoom_iff {s : OperandStack} : s.hasRoom = true ↔ s.depth < limit := decide_eq_true_iff

@[simp]
theorem operands_push (s : OperandStack) (w : UInt32) :
    (s.push w).operands = w :: s.operands := rfl

@[simp]
theorem pop?_push (s : OperandStack) (w : UInt32) : (s.push w).pop? = some (w, s) := rfl

theorem pop?_eq_some_iff {s t : OperandStack} {w : UInt32} :
    s.pop? = some (w, t) ↔ s = t.push w := by
  constructor
  · intro h
    match s, h with
    | ⟨_ :: _, _, _⟩, h =>
      cases h
      exact ext rfl
  · rintro rfl
    rfl

theorem pop?_eq_none_iff {s : OperandStack} : s.pop? = none ↔ s = empty := by
  constructor
  · intro h
    match s, h with
    | ⟨[], _, _⟩, _ => exact ext rfl
  · rintro rfl
    rfl

theorem popTwo?_eq_some_iff {s t : OperandStack} {a b : UInt32} :
    s.popTwo? = some (a, b, t) ↔ s = (t.push a).push b := by
  constructor
  · intro h
    match s, h with
    | ⟨_ :: _ :: _, _, _⟩, h =>
      cases h
      exact ext rfl
  · rintro rfl
    rfl

end OperandStack

end SandboxVm
