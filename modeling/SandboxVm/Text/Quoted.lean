/-
SandboxVm.Text.Quoted — a text between double quotes, as diagnostics show it.

Quotes and backslashes are escaped, so are the usual control characters by a letter and
all other hidden characters by their code point.
-/
import SandboxVm.Text
import SandboxVm.Text.Visible

namespace SandboxVm.Text

/-- A character inside quotes. -/
def escape (c : Char) : String :=
  if c = '\x00' then "\\0"
  else if c = '\t' then "\\t"
  else if c = '\r' then "\\r"
  else if c = '\n' then "\\n"
  else if c = '"' then "\\\""
  else if c = '\\' then "\\\\"
  else if isHidden c then "\\u\x7b" ++ hex c.toNat ++ "\x7d"
  else c.toString

/-- A text between double quotes. -/
def quoted (s : String) : String := "\"" ++ String.join (s.toList.map escape) ++ "\""

/-- A text that may be absent. -/
def quotedOption : Option String → String
  | none => "None"
  | some s => "Some(" ++ quoted s ++ ")"

end SandboxVm.Text
