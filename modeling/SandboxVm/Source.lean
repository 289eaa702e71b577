/-
SandboxVm.Source — where a manager finds images and symbol files.

A source offers any number of images under a name, best first, and at most one symbol
file. Images can be registered in memory, or searched in a list of folders.
-/
import SandboxVm.Folder
import SandboxVm.Text.Utf8

namespace SandboxVm

/-- What is available under each name. -/
structure ImageSource where
  images : String → List Bytes
  symbolMap : String → Option String

/-- Images and symbol files registered by the host. -/
structure MemorySource where
  /-- The images, in the order of their registration. -/
  images : List (String × Bytes)
  /-- The symbol files, latest first. -/
  maps : List (String × String)

namespace MemorySource

/-- Nothing registered. -/
def empty : MemorySource := ⟨[], []⟩

/-- Registers an image; it is tried after those registered before under the same name. -/
def insert (m : MemorySource) (name : String) (image : Bytes) : MemorySource :=
  { m with images := m.images ++ [(name, image)] }

/-- Registers a symbol file in place of an earlier one. -/
def insertMap (m : MemorySource) (name text : String) : MemorySource :=
  { m with maps := (name, text) :: m.maps }

/-- Drops everything registered under a name. -/
def remove (m : MemorySource) (name : String) : MemorySource :=
  ⟨m.images.filter (·.1 ≠ name), m.maps.filter (·.1 ≠ name)⟩

/-- The source of what is registered. -/
def toSource (m : MemorySource) : ImageSource where
  images name := (m.images.filter (·.1 = name)).map (·.2)
  symbolMap name := m.maps.lookup name

end MemorySource

/-- Where a search root keeps the file of a module: in its `vm` folder, unless the name starts
outside. -/
def modulePath (name extension : String) : String :=
  let file := name ++ "." ++ extension
  if file.startsWith "/" then file else "vm/" ++ file

/-- Searches folders in order: every image file with the right name, and the first symbol
file that is a text. -/
def ImageSource.ofFolders (roots : List Folder) : ImageSource where
  images name := roots.filterMap fun root => root.read? (modulePath name "qvm")
  symbolMap name :=
    roots.findSome? fun root => (root.read? (modulePath name "map")).bind Text.ofUtf8?

end SandboxVm
