/-
SandboxVm.Folder — what is found at a path.

The tools and the search for images do not read files themselves. They are given what is
found at each path, which keeps them pure. A `Folder` describes a folder with all that is
below it, and `Folder.find` walks down a path through it part by part.
-/
import SandboxVm.Bytes
import SandboxVm.Path

namespace SandboxVm

/-- What is found at a path. -/
inductive Found where
  | file (bytes : Bytes)
  | folder
  | missing
  /-- Part of the path is a file and not a folder. -/
  | notFolder
  /-- The path or one of its parts is longer than a name can be. -/
  | nameTooLong

namespace Found

/-- The contents of a file, or why there are none. -/
def contents : Found → Except String Bytes
  | .file bytes => .ok bytes
  | .folder => .error "Is a directory (os error 21)"
  | .missing => .error "No such file or directory (os error 2)"
  | .notFolder => .error "Not a directory (os error 20)"
  | .nameTooLong => .error "File name too long (os error 36)"

/-- Whether there is something at the path. -/
def isPresent : Found → Bool
  | .file _ | .folder => true
  | .missing | .notFolder | .nameTooLong => false

end Found

/-- What is found at every path. -/
abbrev Files := String → Found

/-- A place below a folder: the names on the way down to it. -/
abbrev Place := List String

/-- What stands at a place. -/
inductive Node where
  | file (bytes : Bytes)
  | folder

/-- A folder with all that is below it. Of two nodes at one place the first counts. -/
structure Folder where
  nodes : List (Place × Node)

namespace Folder

/-- The folder without anything in it. -/
def empty : Folder := ⟨[([], .folder)]⟩

/-- What stands at a place. -/
def node? (f : Folder) (place : Place) : Option Node := f.nodes.lookup place

/-- Puts a node at a place. -/
def put (f : Folder) (place : Place) (node : Node) : Folder := ⟨(place, node) :: f.nodes⟩

/-- Makes sure that there is something at a place: what was there, or else a new folder. -/
def ensure (f : Folder) (place : Place) : Folder :=
  match f.node? place with
  | some _ => f
  | none => f.put place .folder

/-- Goes down the parts of a path from the place `here`, makes the folders that are missing on
the way, and puts a file at the end. -/
def place (f : Folder) (here : Place) (bytes : Bytes) : List String → Folder
  | [] => f
  | [name] => f.put (here ++ [name]) (.file bytes)
  | part :: rest =>
    if part = "." then f.place here bytes rest
    else if part = ".." then f.place here.dropLast bytes rest
    else (f.ensure (here ++ [part])).place (here ++ [part]) bytes rest

/-- Adds a file under a path, in place of an earlier one. -/
def insert (f : Folder) (path : String) (bytes : Bytes) : Folder :=
  f.place [] bytes (Path.parts path)

/-- The folder that holds the given files; of files with one path the last counts. -/
def ofList (files : List (String × Bytes)) : Folder :=
  files.foldl (fun f (path, bytes) => f.insert path bytes) empty

/-- The longest name of a file or folder, in bytes of UTF-8. -/
def maxName : Nat := 255

/-- The longest path, in bytes of UTF-8. -/
def maxPath : Nat := 4095

/-- What is found outside a folder: the folders around it, and nothing else. -/
def outside : List String → Found
  | [] => .folder
  | part :: rest =>
    if part = "." ∨ part = ".." then outside rest
    else if maxName < part.utf8ByteSize then .nameTooLong
    else .missing

/-- Goes through the parts of a path from the place `here`. -/
def walk (f : Folder) (here : Place) : List String → Found
  | [] =>
    match f.node? here with
    | some (.file bytes) => .file bytes
    | some .folder => .folder
    | none => .missing
  | part :: rest =>
    match f.node? here with
    | none => .missing
    | some (.file _) => .notFolder
    | some .folder =>
      if part = "." then f.walk here rest
      else if part = ".." then (if here = [] then outside rest else f.walk here.dropLast rest)
      else if maxName < part.utf8ByteSize then .nameTooLong
      else f.walk (here ++ [part]) rest

/-- What is found at a path that starts in the folder. -/
def find (f : Folder) : Files := fun path =>
  if path = "" then .missing
  else if maxPath < path.utf8ByteSize then .nameTooLong
  else if path.startsWith "/" then outside (Path.steps path)
  else f.walk [] (Path.steps path)

/-- The bytes of the file at a path. -/
def read? (f : Folder) (path : String) : Option Bytes := (f.find path).contents.toOption

end Folder

end SandboxVm
