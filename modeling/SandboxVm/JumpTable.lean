/-
SandboxVm.JumpTable — where an indirect jump may land.

An extended image declares jump targets. Together with the targets of jumps whose number
is pushed right before them, they are the only instructions that a jump may reach.
-/
import SandboxVm.Program

namespace SandboxVm

/-- The permitted targets of indirect jumps, one flag for each instruction. -/
structure JumpTable where
  allowed : Array Bool
  /-- The number of entries that the image declared. -/
  declared : Nat
  deriving DecidableEq

namespace JumpTable

/-- Sets the flags of the given instructions. -/
def mark (flags : Array Bool) (targets : List Nat) : Array Bool :=
  targets.foldl (fun flags n => flags.setIfInBounds n true) flags

/-- Builds the table from the declared entries, each of which must be an instruction. -/
def build (entries : List Int32) (p : Program) : Except LoadError JumpTable :=
  if entries.all p.isInstruction then
    let declared := mark (Array.replicate p.size false) (entries.map Int32.toNatClampNeg)
    .ok ⟨mark declared (p.directTargets.map UInt32.toNat), entries.length⟩
  else .error .badJumpTableEntry

/-- Whether a jump may land on the instruction with the given number. -/
@[inline]
def allows (t : JumpTable) (target : Int32) : Bool :=
  0 ≤ target && t.allowed[target.toNatClampNeg]?.getD false

/-- The number of permitted targets. -/
def count (t : JumpTable) : Nat := t.allowed.toList.countP id

end JumpTable

end SandboxVm
