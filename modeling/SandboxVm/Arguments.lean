/-
SandboxVm.Arguments — the words that cross the bridge between host and module.

A host passes a command and up to three arguments; missing ones are zero. A module passes
the number of a host service and nineteen more words, used or not.
-/
import SandboxVm.Error

namespace SandboxVm

/-- A command and its three arguments. -/
structure CallArgs where
  words : Vector Int32 4
  deriving DecidableEq

namespace CallArgs

/-- Packs a command with up to three arguments; more are refused. -/
def pack (command : Int32) (args : List Int32) : Except BridgeError CallArgs :=
  if args.length < 4 then .ok ⟨Vector.ofFn fun i => (command :: args)[i.val]?.getD 0⟩
  else .error .tooManyArguments

/-- The command. -/
def command (a : CallArgs) : Int32 := a.words[0]

/-- The `i`-th argument behind the command, zero when there is none. -/
def arg (a : CallArgs) (i : Nat) : Int32 := a.words[i + 1]?.getD 0

end CallArgs

/-- The number of a host service and its arguments. -/
structure SyscallArgs where
  words : Vector Int32 20
  deriving DecidableEq

namespace SyscallArgs

/-- Packs a service number with its arguments; those past the nineteenth are dropped. -/
def pack (number : Int32) (args : List Int32) : SyscallArgs :=
  ⟨Vector.ofFn fun i => (number :: args)[i.val]?.getD 0⟩

/-- The number of the host service. -/
def number (a : SyscallArgs) : Int32 := a.words[0]

/-- The `i`-th word, zero when there is none. -/
def int (a : SyscallArgs) (i : Nat) : Int32 := a.words[i]?.getD 0

/-- The `i`-th word as a pointer into the sandbox, or as the bits of a float. -/
def word (a : SyscallArgs) (i : Nat) : UInt32 := (a.int i).toUInt32

end SyscallArgs

end SandboxVm
