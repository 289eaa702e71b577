/-
SandboxVm.Error — what can go wrong, and how each failure is worded.

A failure is one of six kinds: an image that cannot be loaded, a reload that does not
fit the running module, a fault of the module itself, a misuse of the call bridge, a
module that cannot be used at the moment, and a configuration that cannot be read. Each
kind lists its causes; the wording of a cause stands in one place, its `message`.
A host can fail with words of its own, which is what the `custom` causes are for.
-/

namespace SandboxVm

/-- Why an image was not accepted, or no image was found. -/
inductive LoadError where
  | imageTruncated
  | badMagic
  | badHeader
  | dataTooLarge
  | segmentOutOfImage
  | codeOverrun
  | badOpcode
  | badBranchTarget
  | badJumpTableEntry
  | moduleNotFound
  | tooManyModules
  | custom (text : String)
  deriving DecidableEq

/-- The wording of a load failure. -/
def LoadError.message : LoadError → String
  | .imageTruncated => "image shorter than its header"
  | .badMagic => "does not have a recognisable magic number in its header"
  | .badHeader => "bad header"
  | .dataTooLarge => "data segment too large"
  | .segmentOutOfImage => "segment lies outside the image"
  | .codeOverrun => "instruction stream runs past the code segment"
  | .badOpcode => "illegal opcode"
  | .badBranchTarget => "jump to invalid instruction number"
  | .badJumpTableEntry => "jump table entry is not an instruction"
  | .moduleNotFound => "couldn't open vm file"
  | .tooManyModules => "too many vms loaded"
  | .custom text => text

/-- Why a loaded module was not replaced by a new image. -/
inductive ReloadError where
  | dataSizeMismatch
  | jumpTableMismatch
  | callActive
  | restartFailed
  | custom (text : String)
  deriving DecidableEq

/-- The wording of a reload failure. -/
def ReloadError.message : ReloadError → String
  | .dataSizeMismatch => "data region size not matching after restart"
  | .jumpTableMismatch => "jump table size not matching after restart"
  | .callActive => "restart requested while a call is active"
  | .restartFailed => "restart failed"
  | .custom text => text

/-- The ways a running module can break its containment. -/
inductive FaultCause where
  | badInstruction
  | blockCopyOutOfRange
  | divideByZero
  | illegalJump
  | opStackCorrupted
  | opStackOverflow
  | opStackUnderflow
  | pcOutOfRange
  | pcOutOfRangeInCall
  | pcOutOfRangeInLeave
  | stackOverflow
  deriving DecidableEq

/-- The wording of a fault. -/
def FaultCause.message : FaultCause → String
  | .badInstruction => "bad vm instruction"
  | .blockCopyOutOfRange => "OP_BLOCK_COPY out of range"
  | .divideByZero => "integer divide by zero"
  | .illegalJump => "indirect jump to an illegal target"
  | .opStackCorrupted => "operand stack corrupted"
  | .opStackOverflow => "operand stack overflow"
  | .opStackUnderflow => "operand stack underflow"
  | .pcOutOfRange => "program counter out of range"
  | .pcOutOfRangeInCall => "program counter out of range in OP_CALL"
  | .pcOutOfRangeInLeave => "program counter out of range in OP_LEAVE"
  | .stackOverflow => "programStack overflow"

/-- Why the bridge between host and module refused a call. -/
inductive BridgeError where
  | tooManyArguments
  | custom (text : String)
  deriving DecidableEq

/-- The wording of a bridge failure. -/
def BridgeError.message : BridgeError → String
  | .tooManyArguments => "too many arguments for vmMain"
  | .custom text => text

/-- Why a module cannot be used at the moment. -/
inductive Unavailable where
  | faulted
  | unloaded
  | busy
  | unknownModule
  | custom (text : String)
  deriving DecidableEq

/-- The wording of a refusal. -/
def Unavailable.message : Unavailable → String
  | .faulted => "vm faulted and must be restarted"
  | .unloaded => "vm has been unloaded"
  | .busy => "vm is in use"
  | .unknownModule => "no vm loaded under that name"
  | .custom text => text

/-- A containment violation, with the place where it happened. -/
structure Fault where
  cause : FaultCause
  /-- Name of the module that faulted. -/
  module : String
  /-- Byte offset of the faulting instruction inside the code segment. -/
  offset : UInt32
  /-- Number of the faulting instruction. -/
  instruction : UInt32
  /-- The symbol that covers the offset, when symbols are loaded. -/
  symbol : Option String
  deriving DecidableEq

/-- Everything that an operation of this library can fail with. -/
inductive Error where
  | load (e : LoadError)
  | reload (e : ReloadError)
  | fault (f : Fault)
  | bridge (e : BridgeError)
  | unavailable (e : Unavailable)
  | config
  deriving DecidableEq

end SandboxVm
