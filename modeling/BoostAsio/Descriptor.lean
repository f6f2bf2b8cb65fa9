import BoostAsio.OpQueue
import Mathlib.Logic.Function.Basic

/-!
# Descriptor states of the epoll reactor

`descriptor_state` and the members of `epoll_reactor` that work on one of them
under its mutex. A function takes the state it finds, what `perform()` will do
with each operation and what `epoll_ctl` answers, and returns the state it
leaves and the operations it hands to the scheduler; how the scheduler takes
them is not its business.

An operation is its number and its `ec_`. Its `bytes_transferred_` is written
by `perform_func_` alone and read by nothing here, so it is left out, and so is
the locking flag that the constructor of `descriptor_state` ignores.
-/

namespace BoostAsio

abbrev Events := BitVec 32

def epollIn : Events := 0x001
def epollPri : Events := 0x002
def epollOut : Events := 0x004
def epollErr : Events := 0x008
def epollHup : Events := 0x010
def epollEt : Events := 0x80000000

/-- The value of a `std::error_code` or of `errno`; 0 is no error. -/
abbrev ErrorCode := Nat

def badFileDescriptor : ErrorCode := 9
def notSupported : ErrorCode := 95
def eperm : ErrorCode := 1

inductive Status
  | notDone
  | done
  | doneAndExhausted
  deriving DecidableEq, Repr

structure ReactorOp where
  id : Nat
  ec : ErrorCode := 0
  deriving DecidableEq, Repr

/-- What `perform_func_` does with an operation: the status it returns and the
`ec_` it leaves behind. -/
abbrev PerformFunc := ReactorOp → Status × ErrorCode

/-- `perform()`: the operation after the call, and the status returned. -/
def ReactorOp.perform (f : PerformFunc) (op : ReactorOp) : ReactorOp × Status :=
  ({ op with ec := (f op).2 }, (f op).1)

/-- `epoll_reactor::op_types`; `connect_op` is `write_op`. -/
inductive OpType
  | readOp
  | writeOp
  | exceptOp
  deriving DecidableEq, Repr

/-- `flag[j]` of `perform_io` -/
def OpType.flag : OpType → Events
  | .readOp => epollIn
  | .writeOp => epollOut
  | .exceptOp => epollPri

structure DescriptorState where
  descriptor : Int
  registeredEvents : Events
  opQueue : OpType → OpQueue ReactorOp
  trySpeculative : OpType → Bool
  shutdown : Bool
  taskResult : Events
  /-- Not a member: the mask the kernel accepted last for this descriptor, 0
  where it watches none. -/
  kernelEvents : Events

namespace DescriptorState

def setReadyEvents (d : DescriptorState) (events : Events) : DescriptorState :=
  { d with taskResult := events }

def addReadyEvents (d : DescriptorState) (events : Events) : DescriptorState :=
  { d with taskResult := d.taskResult ||| events }

def setQueue (d : DescriptorState) (ty : OpType) (q : OpQueue ReactorOp) : DescriptorState :=
  { d with opQueue := Function.update d.opQueue ty q }

def setSpeculative (d : DescriptorState) (ty : OpType) (b : Bool) : DescriptorState :=
  { d with trySpeculative := Function.update d.trySpeculative ty b }

/-- The operations pending on a descriptor, in the order in which `cancel_ops`
takes them. -/
def pending (d : DescriptorState) : List ReactorOp :=
  d.opQueue .readOp ++ d.opQueue .writeOp ++ d.opQueue .exceptOp

-- ---------------------------------------------------------------------------
-- Registration
-- ---------------------------------------------------------------------------

def initialEvents : Events := epollIn ||| epollErr ||| epollHup ||| epollPri ||| epollEt

/-- `register_descriptor`, where `ctl` is 0 if `epoll_ctl` succeeds and its
`errno` if not: the new state and the value returned. -/
def register (descriptor : Int) (ctl : ErrorCode) : DescriptorState × ErrorCode :=
  let d : DescriptorState :=
    { descriptor, registeredEvents := initialEvents, opQueue := fun _ => []
      trySpeculative := fun _ => true, shutdown := false, taskResult := 0, kernelEvents := 0 }
  if ctl = 0 then ({ d with kernelEvents := initialEvents }, 0)
  else if ctl = eperm then ({ d with registeredEvents := 0 }, 0)
  else (d, ctl)

/-- `register_internal_descriptor`, which queues `op` at once. -/
def registerInternal (ty : OpType) (descriptor : Int) (op : ReactorOp) (ctl : ErrorCode) :
    DescriptorState × ErrorCode :=
  let d : DescriptorState :=
    { descriptor, registeredEvents := initialEvents
      opQueue := Function.update (fun _ => []) ty [op]
      trySpeculative := fun _ => true, shutdown := false, taskResult := 0, kernelEvents := 0 }
  if ctl = 0 then ({ d with kernelEvents := initialEvents }, 0)
  else (d, ctl)

-- ---------------------------------------------------------------------------
-- start_op
-- ---------------------------------------------------------------------------

/-- How `start_op` leaves: `op` goes to `post_immediate_completion`, or it is
at the back of its queue and `work_started` is called. -/
inductive Exit
  | posted (op : ReactorOp)
  | queued

structure StartOp where
  data : DescriptorState
  exit : Exit
  /-- The calls of `perform()` made on the way, with what they returned. -/
  calls : List (Nat × Status) := []

def enqueue (d : DescriptorState) (ty : OpType) (op : ReactorOp) (calls : List (Nat × Status)) :
    StartOp :=
  ⟨d.setQueue ty (d.opQueue ty ++ [op]), .queued, calls⟩

/-- The speculative path below the call of `perform()`. -/
def arm (d : DescriptorState) (ty : OpType) (op : ReactorOp) (ctl : ErrorCode)
    (calls : List (Nat × Status)) : StartOp :=
  if d.registeredEvents = 0 then ⟨d, .posted { op with ec := notSupported }, calls⟩
  else if ty = .writeOp ∧ d.registeredEvents &&& epollOut = 0 then
    let events := d.registeredEvents ||| epollOut
    if ctl = 0 then
      ({ d with registeredEvents := d.registeredEvents ||| events,
                kernelEvents := events }).enqueue ty op calls
    else ⟨d, .posted { op with ec := ctl }, calls⟩
  else d.enqueue ty op calls

def speculate (d : DescriptorState) (ty : OpType) (op : ReactorOp) (f : PerformFunc)
    (ctl : ErrorCode) : StartOp :=
  if d.trySpeculative ty then
    let (op', status) := op.perform f
    match status with
    | .notDone => d.arm ty op' ctl [(op.id, .notDone)]
    | .done => ⟨d, .posted op', [(op.id, .done)]⟩
    | .doneAndExhausted =>
      ⟨if d.registeredEvents ≠ 0 then d.setSpeculative ty false else d, .posted op',
        [(op.id, .doneAndExhausted)]⟩
  else d.arm ty op ctl []

/-- The last branch of `start_op`: `registered_events_ &= EPOLLOUT` for a
write, then an `epoll_ctl` whose result is not looked at. -/
def rearm (d : DescriptorState) (ty : OpType) (ctl : ErrorCode) : DescriptorState :=
  let registered :=
    if ty = .writeOp then d.registeredEvents &&& epollOut else d.registeredEvents
  { d with registeredEvents := registered,
           kernelEvents := if ctl = 0 then registered ||| epollOut else d.kernelEvents }

/-- `allow_speculative && (op_type != read_op || op_queue_[except_op].empty())` -/
def speculates (d : DescriptorState) (ty : OpType) (allowSpeculative : Bool) : Bool :=
  allowSpeculative && (ty != .readOp || (d.opQueue .exceptOp).isEmpty)

/-- `start_op` on a `descriptor_data` that is not null. -/
def startOp (d : DescriptorState) (ty : OpType) (op : ReactorOp) (allowSpeculative : Bool)
    (f : PerformFunc) (ctl : ErrorCode) : StartOp :=
  if d.shutdown then ⟨d, .posted op, []⟩
  else if (d.opQueue ty).isEmpty then
    if d.speculates ty allowSpeculative then d.speculate ty op f ctl
    else if d.registeredEvents = 0 then ⟨d, .posted { op with ec := notSupported }, []⟩
    else (d.rearm ty ctl).enqueue ty op []
  else d.enqueue ty op []

-- ---------------------------------------------------------------------------
-- cancel_ops, deregister_descriptor, deregister_internal_descriptor
-- ---------------------------------------------------------------------------

/-- The loops that move every pending operation to `ops`, its `ec_` set to
`std::error_code()`. -/
def drain (d : DescriptorState) : DescriptorState × List ReactorOp :=
  ({ d with opQueue := fun _ => [] }, d.pending.map fun op => { op with ec := 0 })

def cancelOps (d : DescriptorState) : DescriptorState × List ReactorOp := d.drain

/-- `deregister_descriptor`: the state, and the operations given to
`post_deferred_completions`. Where the descriptor was shut down already that
function is not called, and the caller's pointer is set to null. -/
def deregister (d : DescriptorState) (closing : Bool) :
    DescriptorState × Option (List ReactorOp) :=
  if d.shutdown then (d, none)
  else
    let d' := if !closing && d.registeredEvents != 0 then { d with kernelEvents := 0 } else d
    let (d', ops) := d'.drain
    ({ d' with descriptor := -1, shutdown := true }, some ops)

/-- `deregister_internal_descriptor`, or `none` where one of the transfers of
its queues does not return. -/
def deregisterInternal (d : DescriptorState) :
    Option (DescriptorState × Option (List ReactorOp)) :=
  if d.shutdown then some (d, none)
  else do
    let ops : List ReactorOp ← OpQueue.pushDerived [] (d.opQueue .readOp)
    let ops ← OpQueue.pushDerived ops (d.opQueue .writeOp)
    let ops ← OpQueue.pushDerived ops (d.opQueue .exceptOp)
    some ({ d with kernelEvents := 0, descriptor := -1, shutdown := true }, some ops)

-- ---------------------------------------------------------------------------
-- perform_io
-- ---------------------------------------------------------------------------

structure QueuePerformed where
  completed : List ReactorOp
  left : List ReactorOp
  trySpeculative : Bool
  calls : List (Nat × Status)

/-- The `while` loop of `perform_io` on one queue. -/
def performQueue (f : PerformFunc) : OpQueue ReactorOp → QueuePerformed
  | [] => ⟨[], [], true, []⟩
  | op :: rest =>
    let (op', status) := op.perform f
    match status with
    | .notDone => ⟨[], op' :: rest, true, [(op.id, .notDone)]⟩
    | .done =>
      let r := performQueue f rest
      ⟨op' :: r.completed, r.left, r.trySpeculative, (op.id, .done) :: r.calls⟩
    | .doneAndExhausted => ⟨[op'], rest, false, [(op.id, .doneAndExhausted)]⟩

structure PerformIo where
  data : DescriptorState
  ops : List ReactorOp := []
  calls : List (Nat × Status) := []

/-- One turn of the `for` loop of `perform_io`. -/
def performType (events : Events) (f : PerformFunc) (r : PerformIo) (ty : OpType) : PerformIo :=
  if events &&& (ty.flag ||| epollErr ||| epollHup) ≠ 0 then
    let q := performQueue f (r.data.opQueue ty)
    ⟨(r.data.setSpeculative ty q.trySpeculative).setQueue ty q.left, r.ops ++ q.completed,
      r.calls ++ q.calls⟩
  else r

/-- `perform_io` up to `first_op_`, the front of `ops`; the destructor of
`perform_io_cleanup_on_block_exit` posts what is behind it. -/
def performIo (d : DescriptorState) (events : Events) (f : PerformFunc) : PerformIo :=
  [OpType.exceptOp, .writeOp, .readOp].foldl (performType events f) ⟨d, [], []⟩

end DescriptorState

end BoostAsio
