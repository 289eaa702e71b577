/-
SandboxVm.Service — what a host does when a module calls it.

A host answers a system call by a service: a computation that looks at the calling module,
edits its memory, calls back into it, makes requests of the world outside, and ends with
the host's new state and an answer. Between two such actions a service can compute
anything. Among the edits there is one that puts another region in the place of the one that
there is, so that a host can leave any region behind; the other edits are `Sandbox.Edit.InPlace`.
Which requests can be made, and what they are answered with, is given by an interface. What a
host has at hand besides the module, such as the tracker itself, is reached by requests of a
world that grants them.

So services describe every deterministic host that answers. Left out are hosts that stop the
program or never come to an end.

`Service.run` carries a service out on the calling module, given how a nested call of that
module and a request of the world are carried out.
-/
import SandboxVm.Arguments
import SandboxVm.Instance

namespace SandboxVm

/-- The outcome of a call: a word or a failure. -/
abbrev Reply := Except Error Int32

/-- The requests that can be made of the world outside a module, and their answers. -/
structure Interface where
  Request : Type
  Answer : Request → Type

/-- The interface without requests. -/
def Interface.empty : Interface := ⟨Empty, fun q => nomatch q⟩

/-- What a host sees of the module that called it. -/
structure View where
  name : String
  /-- The number of active calls of the module. -/
  callLevel : Nat
  /-- The data region; native modules have none. -/
  memory : Option Sandbox

namespace View

/-- The index in the data region that a pointer refers to. -/
def index? (v : View) (ptr : Int32) : Option Nat := v.memory.bind fun s => s.resolve? ptr.toUInt32

/-- The zero-terminated string at a pointer. -/
def string? (v : View) (ptr : Int32) : Option String :=
  v.memory.bind fun s => s.string? ptr.toUInt32

end View

/-- The answer to one system call, in the making. -/
inductive Service (I : Interface) (σ : Type) where
  /-- Ends with the host's new state and the answer. -/
  | done (s : σ) (reply : Reply)
  /-- Looks at the calling module. -/
  | view (k : View → Service I σ)
  /-- Changes the memory of the calling module; without memory nothing happens. -/
  | edit (e : Sandbox.Edit) (k : Service I σ)
  /-- Calls back into the calling module. -/
  | enter (s : σ) (command : Int32) (args : List Int32) (k : σ → Reply → Service I σ)
  /-- Makes a request of the world outside. -/
  | ask (s : σ) (q : I.Request) (k : σ → I.Answer q → Service I σ)

/-- A host: how each system call is answered, depending on the host's own state. -/
abbrev Host (I : Interface) (σ : Type) := σ → SyscallArgs → Service I σ

/-- What is threaded through a call besides the module itself. -/
structure Context (σ ω : Type) where
  /-- The state of the host. -/
  host : σ
  /-- Which modules are executing. -/
  tracker : Tracker
  /-- The state of the world outside. -/
  world : ω

/-- A module, the outcome of a call into it, and what the call left behind. -/
structure Outcome (τ σ ω : Type) where
  reply : Reply
  module : τ
  context : Context σ ω

/-- How a call into a module is carried out; `none` means that it did not end within the
given number of steps. -/
abbrev Entry (τ σ ω : Type) :=
  (command : Int32) → (args : List Int32) → τ → Context σ ω → Option (Outcome τ σ ω)

/-- How a request of the world is carried out; `none` as for a call. -/
abbrev World (I : Interface) (σ ω : Type) :=
  (q : I.Request) → Context σ ω → Option (I.Answer q × Context σ ω)

/-- The world without requests. -/
def World.empty {σ ω : Type} : World Interface.empty σ ω := fun q => nomatch q

/-- Modules that a host can look at and whose memory it can edit. -/
class Hosted (τ : Type) where
  view : τ → View
  edit : Sandbox.Edit → τ → τ

instance : Hosted Instance where
  view inst := ⟨inst.name, inst.callLevel, inst.region?⟩
  edit e inst := inst.edit e

namespace Service

variable {I : Interface} {σ ω τ : Type}

/-- Makes several edits, first one first. -/
def edits (es : List Sandbox.Edit) (k : Service I σ) : Service I σ := es.foldr .edit k

/-- Carries out a service on the module that called it. -/
def run [Hosted τ] (world : World I σ ω) (enter : Entry τ σ ω) :
    Service I σ → τ → Context σ ω → Option (Outcome τ σ ω)
  | .done s reply, m, ctx => some ⟨reply, m, { ctx with host := s }⟩
  | .view k, m, ctx => run world enter (k (Hosted.view m)) m ctx
  | .edit e k, m, ctx => run world enter k (Hosted.edit e m) ctx
  | .enter s command args k, m, ctx =>
    match enter command args m { ctx with host := s } with
    | none => none
    | some out => run world enter (k out.context.host out.reply) out.module out.context
  | .ask s q k, m, ctx =>
    match world q { ctx with host := s } with
    | none => none
    | some (answer, ctx) => run world enter (k ctx.host answer) m ctx

end Service

end SandboxVm
