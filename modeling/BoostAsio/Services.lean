import BoostAsio.Lib.Threads
import Mathlib.Data.String.Basic

/-!
# The services of an execution context

`service_registry` and the functions of `service_registry_helpers.hpp`, called
by any number of threads. `services_` is an ordered map from the strings that
`key()` returns; a service type is its key, and a service object an index into
`instances`.

A critical section under `mutex_` is one step, and so are the start and the end
of a constructor. The code of a caller runs outside the registry or in the
constructor of a service, which may call it again: a thread is a stack of the
objects it is constructing.
-/

namespace BoostAsio

/-- Who is to delete a service object: the `new` expression or the `unique_ptr` of
a thread's call, the registry, or nobody any more. -/
inductive Fate (ι : Type)
  | held (i : ι)
  | registered
  | gone
  deriving DecidableEq

structure Instance (ι : Type) where
  key : String
  constructed : Bool := false
  fate : Fate ι
  deletes : Nat := 0

structure Services (ι : Type) where
  services : Std.TreeMap String Nat := ∅
  impl : Option Nat := none
  instances : List (Instance ι) := []
  /-- History: the key and the object of every call that has returned one. -/
  returned : List (String × Nat) := []
  /-- History: a constructor, and the key and the object it has got from
  `use_service`. -/
  obtained : List (Nat × String × Nat) := []

/-- The call that makes an object; `make_service` and the callers of `add_service`
are one. -/
inductive Maker
  | useService
  | addService
  deriving DecidableEq

/-- An object under construction, or constructed and not yet given up. -/
structure Making where
  key : String
  self : Nat
  maker : Maker
  built : Bool := false

structure Caller where
  stack : List Making := []

inductive ServiceAction
  | useService (key : String) (ioc : Bool)
  | hasService (key : String)
  | newService (key : String)
  | constructed
  | throws
  /-- the second critical section of `use_service`, or that of `add_service` -/
  | finish

/-- `typeid(scheduler).name()` and `typeid(epoll_reactor).name()` -/
def schedulerKey : String := "N5boost4asio6detail9schedulerE"
def reactorKey : String := "N5boost4asio6detail13epoll_reactorE"

variable {ι : Type}

namespace Caller

/-- Code of the caller runs: outside the registry, or in a constructor. -/
def inUserCode (t : Caller) : Bool := t.stack.head?.all fun f => !f.built

end Caller

namespace Services

def setFate (s : Services ι) (i : Nat) (fate : Fate ι) : Services ι :=
  { s with instances := s.instances.modify i fun x => { x with fate } }

def insert (s : Services ι) (key : String) (i : Nat) : Services ι :=
  { s.setFate i .registered with services := s.services.insert key i }

def delete (s : Services ι) (i : Nat) : Services ι :=
  { s with instances := s.instances.modify i fun x =>
      { x with fate := .gone, deletes := x.deletes + 1 } }

/-- A call returns `i` to the code that made it; the constructor that runs
there, if any, has obtained it. -/
def deliver (s : Services ι) (t : Caller) (key : String) (i : Nat) : Services ι × Caller :=
  ({ s with
      returned := s.returned ++ [(key, i)]
      obtained := s.obtained ++ (t.stack.head?.map fun f => (f.self, key, i)).toList }, t)

def startNew (s : Services ι) (t : Caller) (i : ι) (key : String) (maker : Maker) :
    Services ι × Caller :=
  ({ s with instances := s.instances ++ [{ key, fate := .held i }] },
    ⟨{ key, self := s.instances.length, maker } :: t.stack⟩)

/-- `use_service<Service>()` up to the return, or to the unlocking before the
object is constructed. -/
def useService (s : Services ι) (t : Caller) (i : ι) (key : String) : Services ι × Caller :=
  match s.services[key]? with
  | some found => s.deliver t key found
  | none => s.startNew t i key .useService

/-- The overload for an `io_context&`, which is specialised for `scheduler`;
`none` for a context of another class. -/
def useServiceIoContext (s : Services ι) (t : Caller) (i : ι) (key : String) :
    Option (Services ι × Caller) :=
  s.impl.map fun impl =>
    if key = schedulerKey then s.deliver t key impl else s.useService t i key

def step (i : ι) (a : ServiceAction) (s : Services ι) (t : Caller) :
    Option (Services ι × Caller) :=
  match a with
  | .useService key false => if t.inUserCode then some (s.useService t i key) else none
  | .useService key true => if t.inUserCode then s.useServiceIoContext t i key else none
  | .hasService _ => if t.inUserCode then some (s, t) else none
  | .newService key => if t.inUserCode then some (s.startNew t i key .addService) else none
  | .constructed =>
    match t.stack with
    | ⟨key, self, maker, false⟩ :: stack =>
      some ({ s with instances := s.instances.modify self fun x => { x with constructed := true } },
        ⟨⟨key, self, maker, true⟩ :: stack⟩)
    | _ => none
  | .throws =>
    match t.stack with
    | ⟨_, self, _, false⟩ :: stack => some (s.setFate self .gone, ⟨stack⟩)
    | _ => none
  | .finish =>
    match t.stack with
    | ⟨key, self, .useService, true⟩ :: stack =>
      match s.services[key]? with
      | some found => some ((s.delete self).deliver ⟨stack⟩ key found)
      | none => some ((s.insert key self).deliver ⟨stack⟩ key self)
    | ⟨key, self, .addService, true⟩ :: stack =>
      let s := s.insert key self
      some ({ s with returned := s.returned ++ [(key, self)] }, ⟨stack⟩)
    | _ => none

end Services

-- ---------------------------------------------------------------------------
-- The system
-- ---------------------------------------------------------------------------

inductive ContextKind
  | executionContext
  | ioContext
  deriving DecidableEq

def Services.addImpl (s : Services ι) (impl : Nat) : Services ι :=
  { s.insert schedulerKey impl with impl := some impl }

/-- A context that was just constructed; the constructor of `io_context` gives
a new scheduler to `add_impl`. -/
def Services.new : ContextKind → Services ι
  | .executionContext => {}
  | .ioContext =>
    let impl : Instance ι := { key := schedulerKey, constructed := true, fate := .registered }
    addImpl { instances := [impl] } 0

abbrev Contexts (ι : Type) := Threads ι (Services ι) Caller

namespace Contexts

variable [DecidableEq ι]

def new (kind : ContextKind) : Contexts ι := ⟨.new kind, fun _ => {}⟩

def next : Contexts ι → ι × ServiceAction → Option (Contexts ι) := Threads.next Services.step

end Contexts

end BoostAsio
