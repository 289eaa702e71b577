/-
SandboxVm.SharedCalls — host services that every module gets.

Services 100 to 113 fill and copy memory and compute with floats. A service is given the
calling module as it is and answers with a list of edits and a result; a memory service
that is refused makes no edit and returns zero. Hosts offer these services by asking
`effect?` first.
-/
import SandboxVm.Arithmetic
import SandboxVm.Service

namespace SandboxVm.SharedCalls

open Sandbox (Edit)

/-- Whether a number belongs to a shared service. -/
def isShared (number : Int32) : Bool := 100 ≤ number && number ≤ 113

/-- The edits of a service and its result. -/
abbrev Effect := List Edit × Int32

/-- A service without effect on memory. -/
def returning (r : Int32) : Effect := ([], r)

/-! ## Memory -/

/-- Fills `count` bytes at `dest` and returns `dest`. -/
def fill (s : Sandbox) (dest : UInt32) (value : UInt8) (count : Int32) : Effect :=
  let n := count.toNatClampNeg
  match s.range? dest n with
  | none => returning 0
  | some _ => ([.fill dest n value], dest.toInt32)

/-- Copies `count` bytes from `src` to `dest` and returns `dest`. The ranges are not masked. -/
def copy (s : Sandbox) (dest src : UInt32) (count : Int32) : Effect :=
  if 0 ≤ count ∧ dest ≠ 0 ∧ src ≠ 0 ∧ s.canCopy dest src count.toUInt32 then
    ([.copy dest src count.toUInt32], dest.toInt32)
  else returning 0

/-- Copies the zero-terminated string at `src`, cut or filled with zeros to `count` bytes, and
returns `dest`. -/
def copyString (s : Sandbox) (dest src : UInt32) (count : Int32) : Effect :=
  let n := count.toNatClampNeg
  match s.cString? src, s.range? dest n with
  | some text, some _ => ([.fill dest n 0, .write dest (text.take n)], dest.toInt32)
  | _, _ => returning 0

/-! ## Vectors -/

/-- Three floats. -/
structure Vec3 where
  x : Float32
  y : Float32
  z : Float32

/-- The vector at an address. -/
def Vec3.read (s : Sandbox) (addr : UInt32) : Vec3 :=
  ⟨.ofBits (s.load32 addr), .ofBits (s.load32 (addr + 4)), .ofBits (s.load32 (addr + 8))⟩

/-- The edits that store a vector; nothing is stored at the null pointer. -/
def Vec3.write (v : Vec3) (ptr : UInt32) : List Edit :=
  if ptr = 0 then []
  else [.store .word ptr v.x.toBits, .store .word (ptr + 4) v.y.toBits,
    .store .word (ptr + 8) v.z.toBits]

/-- Sum of the products of the components. -/
def Vec3.dot (a b : Vec3) : Float32 := a.x * b.x + a.y * b.y + a.z * b.z

/-- Three vectors, the rows of a matrix. -/
structure Mat3 where
  a : Vec3
  b : Vec3
  c : Vec3

/-- The matrix at an address. -/
def Mat3.read (s : Sandbox) (addr : UInt32) : Mat3 :=
  ⟨Vec3.read s addr, Vec3.read s (addr + 12), Vec3.read s (addr + 24)⟩

/-- A row vector times a matrix. -/
def Mat3.applyRow (m : Mat3) (r : Vec3) : Vec3 :=
  ⟨r.x * m.a.x + r.y * m.b.x + r.z * m.c.x,
    r.x * m.a.y + r.y * m.b.y + r.z * m.c.y,
    r.x * m.a.z + r.y * m.b.z + r.z * m.c.z⟩

/-- Stores the product of two matrices at `out`; with a null pointer nothing happens. -/
def matrixMultiply (s : Sandbox) (a b out : UInt32) : Effect :=
  if a = 0 ∨ b = 0 ∨ out = 0 then returning 0
  else
    let rows := Mat3.read s a
    let m := Mat3.read s b
    ((m.applyRow rows.a).write out ++ (m.applyRow rows.b).write (out + 12) ++
      (m.applyRow rows.c).write (out + 24), 0)

/-- The number of radians in a degree. -/
def radiansPerDegree : Float32 := Float32.ofBits 0x40490FDB / 180.0

/-- Stores the axes of a coordinate system turned by pitch, yaw and roll in degrees. Outputs
at the null pointer are left out. -/
def angleVectors (s : Sandbox) (angles forward right up : UInt32) : Effect :=
  if angles = 0 then returning 0
  else
    let v := Vec3.read s angles
    let pitch := v.x * radiansPerDegree
    let yaw := v.y * radiansPerDegree
    let roll := v.z * radiansPerDegree
    let sp := pitch.sin
    let cp := pitch.cos
    let sy := yaw.sin
    let cy := yaw.cos
    let sr := roll.sin
    let cr := roll.cos
    let f : Vec3 := ⟨cp * cy, cp * sy, -sp⟩
    let r : Vec3 := ⟨-sr * sp * cy + cr * sy, -sr * sp * sy - cr * cy, -sr * cp⟩
    let u : Vec3 := ⟨cr * sp * cy + sr * sy, cr * sp * sy - sr * cy, cr * cp⟩
    (f.write forward ++ r.write right ++ u.write up, 0)

/-- The bits of a float without its sign, which order floats by magnitude. -/
def magnitude (x : Float32) : UInt32 := x.toBits &&& 0x7FFFFFFF

/-- The axis that a vector is least aligned with, the first one if several are. -/
def leastAxis (v : Vec3) : Vec3 :=
  let x := magnitude v.x
  let y := magnitude v.y
  let z := magnitude v.z
  if x ≤ y ∧ x ≤ z then ⟨1, 0, 0⟩ else if y ≤ z then ⟨0, 1, 0⟩ else ⟨0, 0, 1⟩

/-- Stores a unit vector at right angles to the unit vector at `src`. -/
def perpendicular (s : Sandbox) (dst src : UInt32) : Effect :=
  if src = 0 then returning 0
  else
    let v := Vec3.read s src
    let t := leastAxis v
    let d := t.dot v
    let p : Vec3 := ⟨t.x - d * v.x, t.y - d * v.y, t.z - d * v.z⟩
    let len := (p.dot p).sqrt
    let p : Vec3 := if 0 < len then ⟨p.x / len, p.y / len, p.z / len⟩ else p
    (p.write dst, 0)

/-! ## Dispatch -/

/-- A service that computes one float. -/
def float (x : Float32) : Effect := returning x.toBits.toInt32

/-- A service that needs the data region; without one it returns zero. -/
def onMemory (v : View) (f : Sandbox → Effect) : Effect := v.memory.elim (returning 0) f

/-- The effect of a shared service on the module that calls it; `none` for numbers outside the
shared range. -/
def effect? (v : View) (args : SyscallArgs) : Option Effect :=
  let x := Float32.ofBits (args.word 1)
  match args.number.toInt with
  | 100 => some <| onMemory v fun s => fill s (args.word 1) (args.word 2).toUInt8 (args.int 3)
  | 101 => some <| onMemory v fun s => copy s (args.word 1) (args.word 2) (args.int 3)
  | 102 => some <| onMemory v fun s => copyString s (args.word 1) (args.word 2) (args.int 3)
  | 103 => some (float x.sin)
  | 104 => some (float x.cos)
  | 105 => some (float (x.atan2 (Float32.ofBits (args.word 2))))
  | 106 => some (float x.sqrt)
  | 107 => some <| onMemory v fun s => matrixMultiply s (args.word 1) (args.word 2) (args.word 3)
  | 108 => some <| onMemory v fun s =>
      angleVectors s (args.word 1) (args.word 2) (args.word 3) (args.word 4)
  | 109 => some <| onMemory v fun s => perpendicular s (args.word 1) (args.word 2)
  | 110 => some (float x.floor)
  | 111 => some (float x.ceil)
  | 112 | 113 => some (returning 0)
  | _ => none

/-- Answers a shared service; other numbers are left to `other`. -/
def answer {I : Interface} {σ : Type} (s : σ) (args : SyscallArgs) (other : Service I σ) :
    Service I σ :=
  .view fun v =>
    match effect? v args with
    | some (edits, r) => .edits edits (.done s (.ok r))
    | none => other

end SandboxVm.SharedCalls
