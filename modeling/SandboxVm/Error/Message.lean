/-
SandboxVm.Error.Message — failures as text.

`message` is the sentence for a user. `inspect` names the kind of failure and its parts,
which is what a tool shows when it ends with a failure.
-/
import SandboxVm.Error
import SandboxVm.Text.Quoted

namespace SandboxVm

/-- Module, cause and place of a fault. -/
def Fault.message (f : Fault) : String :=
  let place := "offset 0x" ++ Text.hex f.offset.toNat
  match f.symbol with
  | some s => f.module ++ ": " ++ f.cause.message ++ " at " ++ s ++ " (" ++ place ++ ")"
  | none => f.module ++ ": " ++ f.cause.message ++ " at " ++ place

/-- The parts of a fault. -/
def Fault.inspect (f : Fault) : String :=
  "Fault \x7b message: " ++ Text.quoted f.cause.message ++ ", module: " ++ Text.quoted f.module ++
    ", offset: " ++ Text.nat f.offset.toNat ++ ", instruction: " ++ Text.nat f.instruction.toNat ++
    ", symbol: " ++ Text.quotedOption f.symbol ++ " \x7d"

/-- The sentence for a user. -/
def Error.message : Error → String
  | .load e => e.message
  | .reload e => e.message
  | .fault f => f.message
  | .bridge e => e.message
  | .unavailable e => e.message
  | .config => "Config"

/-- The kind of a failure and its parts. -/
def Error.inspect : Error → String
  | .load e => "Load(" ++ Text.quoted e.message ++ ")"
  | .reload e => "ReloadMismatch(" ++ Text.quoted e.message ++ ")"
  | .fault f => "Fault(" ++ f.inspect ++ ")"
  | .bridge e => "Bridge(" ++ Text.quoted e.message ++ ")"
  | .unavailable e => "Unavailable(" ++ Text.quoted e.message ++ ")"
  | .config => "Config"

end SandboxVm
