/-
SandboxVm.Tracker — which module is executing.

Modules that share a tracker push their name when a call into them begins and pop it when
the call ends, so nested calls restore the module that was executing before.
-/

namespace SandboxVm

/-- The active calls, innermost first, and the module entered last. -/
structure Tracker where
  active : List String
  last : Option String
  deriving DecidableEq

namespace Tracker

/-- No call has been made. -/
def empty : Tracker := ⟨[], none⟩

/-- A call into a module begins. -/
def enter (t : Tracker) (name : String) : Tracker := ⟨name :: t.active, some name⟩

/-- The innermost call ends. -/
def leave (t : Tracker) : Tracker := { t with active := t.active.tail }

/-- A module is gone: it is no longer the one entered last. -/
def forget (t : Tracker) (name : String) : Tracker :=
  if t.last = some name then { t with last := none } else t

/-- The module executing right now. -/
def current (t : Tracker) : Option String := t.active.head?

/-- The number of active calls. -/
def depth (t : Tracker) : Nat := t.active.length

end Tracker

end SandboxVm
