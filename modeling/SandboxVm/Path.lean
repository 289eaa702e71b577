/-
SandboxVm.Path — paths as texts: their parts, and the name of the file at their end.
-/
namespace SandboxVm.Path

/-- The parts of a path between slashes. -/
def parts (path : String) : List String :=
  (path.splitOn "/").filter fun part => part ≠ ""

/-- The parts to go through one after the other. A slash at the end asks for a folder, as a
last part `.` would. -/
def steps (path : String) : List String :=
  if path.endsWith "/" then parts path ++ ["."] else parts path

/-- The last part, if it names something. -/
def fileName? (path : String) : Option String :=
  match (parts path).reverse.dropWhile (· = ".") with
  | [] => none
  | last :: _ => if last = ".." then none else some last

/-- Splits a file name at its last point into a stem and an extension. A name whose only
point comes first is all stem. -/
def splitName (name : String) : String × Option String :=
  let chars := name.toList.reverse
  let ending := chars.takeWhile (· ≠ '.')
  let stem := (chars.drop (ending.length + 1)).reverse
  if stem.isEmpty then (name, none)
  else (String.ofList stem, some (String.ofList ending.reverse))

/-- The file name without its extension. -/
def stem? (path : String) : Option String := (fileName? path).map fun name => (splitName name).1

/-- What follows the last point of the file name. -/
def extension? (path : String) : Option String :=
  (fileName? path).bind fun name => (splitName name).2

/-- Puts an extension after the stem of the file name; a path without one stays as it is. -/
def addExtension (path extension : String) : String :=
  match fileName? path, stem? path with
  | some name, some stem =>
    let body := path.toList.reverse.dropWhile (· = '/')
    String.ofList (body.drop name.length).reverse ++ stem ++ "." ++ extension
  | _, _ => path

/-- The path with another extension. The old extension goes first, and what is left takes
the new one if it still names a file. -/
def withExtension (path extension : String) : String :=
  let old := ((extension? path).map String.length).getD 0
  addExtension (String.ofList (path.toList.take (path.length - old))) extension

end SandboxVm.Path
