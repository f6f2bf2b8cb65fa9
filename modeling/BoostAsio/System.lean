import BoostAsio.Lib.Threads
import BoostAsio.Scheduler

/-!
# The scheduler, its reactor and any number of threads

`step` is what one thread can do next: a call that the code of a caller makes,
the critical section or the notification that a call has left to do, or the
next piece of `run()`. A piece of code under `mutex_` or under the mutex of a
descriptor is one step, and so is an access to an atomic. What the code does
not decide (the results of `perform()` and `epoll_ctl`, the events of a batch,
wakeups) is in the action.

`Shared` has a history beside the memory: nothing the code does depends on it.
-/

namespace BoostAsio

structure Shared (ι : Type) extends Scheduler ι where
  outstandingWork : Nat
  /-- The descriptor states allocated so far; a pointer to one is its index. -/
  descriptors : List DescriptorState
  /-- History: the operations made so far, each with a number of its own, those
  that the scheduler has taken over, and those whose handler has ended; the units
  of work that callers hold. -/
  created : List Nat := []
  handed : List Nat := []
  executed : List Nat := []
  externalWork : Nat := 0
  /-- History: for each descriptor, the bits that `epoll_wait` has reported and
  no call of `perform_io` has been given since. -/
  due : Nat → Events := fun _ => 0
  /-- The descriptor states whose `mutex_` is held by a
  `deregister_internal_descriptor` that does not return. -/
  held : List Nat := []

/-- A call that the code of a caller makes, with what the kernel and `perform()`
answer. -/
inductive UserAction
  | onWorkStarted
  | onWorkFinished
  | doDispatch (id : Nat)
  | postImmediateCompletion (id : Nat) (isContinuation : Bool)
  | postDeferredCompletion (id : Nat)
  | postDeferredCompletions (ids : List Nat)
  | stop
  | restart
  | initTask
  | run
  | registerDescriptor (descriptor : Int) (ctl : ErrorCode)
  | registerInternalDescriptor (ty : OpType) (descriptor : Int) (op : ReactorOp) (ctl : ErrorCode)
  | startOp (d : Option Nat) (ty : OpType) (op : ReactorOp) (isContinuation allowSpeculative : Bool)
      (f : PerformFunc) (ctl : ErrorCode)
  | cancelOps (d : Option Nat)
  | deregisterDescriptor (d : Option Nat) (closing : Bool)
  | deregisterInternalDescriptor (d : Option Nat)
  | handlerEnd (thrown : Bool)

/-- What a thread does next: a call of its code, the critical section or the
`notify_one` of the call it is in, a piece of `run()`, or the return from a wait. -/
inductive Action (ι : Type)
  | user (u : UserAction)
  | call
  | notify (j : ι)
  | next
  | wake
  | epollWait (evs : List EpollEvent)
  | performIo (f : PerformFunc)

variable {ι : Type} [DecidableEq ι]

/-- `outstanding_work_ += n`, of 64 bits: the value it leaves. -/
def increment (work n : Nat) : Nat := (work + n) % 2 ^ 64

def decrement (work : Nat) : Nat := if work = 0 then 2 ^ 64 - 1 else work - 1

namespace Shared

def fresh (s : Shared ι) (ids : List Nat) : Bool :=
  decide ids.Nodup && ids.all fun id => !s.created.contains id

def setDescriptor (s : Shared ι) (d : Nat) (x : DescriptorState) : Shared ι :=
  { s with descriptors := s.descriptors.set d x }

/-- `lock(descriptor_data->mutex_)`: no step while the mutex is held for ever. -/
def lockDescriptor (s : Shared ι) (d : Nat) : Option DescriptorState :=
  if d ∈ s.held then none else s.descriptors[d]?

end Shared

-- ---------------------------------------------------------------------------
-- The functions that submit
-- ---------------------------------------------------------------------------

section Submit

variable (hint : Int)

/-- `post_immediate_completion`. Code of a caller runs inside a `run()` of this
scheduler exactly if `thread_call_stack::contains(this)` finds the innermost. -/
def postImmediateCompletion (id : Nat) (isContinuation : Bool) (s : Shared ι) (t : Thread) :
    Shared ι × Thread :=
  match if oneThread hint || isContinuation then t.top else none with
  | some f =>
    let info : ThreadInfo :=
      { privateOpQueue := f.info.privateOpQueue ++ [.handler id]
        privateOutstandingWork := f.info.privateOutstandingWork + 1 }
    ({ s with handed := s.handed ++ [id] }, t.setTop { f with info })
  | none =>
    ({ s with outstandingWork := increment s.outstandingWork 1 },
      { t with call := some (.push [.handler id]) })

def postDeferredCompletion (id : Nat) (s : Shared ι) (t : Thread) : Shared ι × Thread :=
  match if oneThread hint then t.top else none with
  | some f =>
    ({ s with handed := s.handed ++ [id] }, t.setTop { f with
      info.privateOpQueue := f.info.privateOpQueue ++ [.handler id] })
  | none => (s, { t with call := some (.push [.handler id]) })

/-- `post_deferred_completions(ops)`: the caller's queue after it, the memory
and the thread. With `one_thread_` the private queue is pushed onto `ops`. -/
def postDeferredCompletions (ids : List Nat) (s : Shared ι) (t : Thread) :
    OpQueue Operation × Shared ι × Thread :=
  let ops : OpQueue Operation := ids.map .handler
  match if oneThread hint then t.top else none with
  | some f =>
    let (ops, privateOpQueue) := OpQueue.splice ops f.info.privateOpQueue
    (ops, { s with handed := s.handed ++ ids },
      t.setTop { f with info := { f.info with privateOpQueue } })
  | none => ([], s, { t with call := some (.push ops) })

end Submit

-- ---------------------------------------------------------------------------
-- Calls made by the code of a caller
-- ---------------------------------------------------------------------------

def userStep (hint : Int) (s : Shared ι) (t : Thread) :
    UserAction → Option (Shared ι × Thread)
  | .onWorkStarted =>
    some ({ s with
      outstandingWork := increment s.outstandingWork 1, externalWork := s.externalWork + 1 }, t)
  | .onWorkFinished =>
    if s.externalWork = 0 then none
    else
      let work := decrement s.outstandingWork
      some ({ s with outstandingWork := work, externalWork := s.externalWork - 1 },
        if work = 0 then { t with call := some .stop } else t)
  | .doDispatch id =>
    if s.fresh [id] then
      some ({ s with
          outstandingWork := increment s.outstandingWork 1, created := s.created ++ [id] },
        { t with call := some (.push [.handler id]) })
    else none
  | .postImmediateCompletion id isContinuation =>
    if s.fresh [id] then
      some (postImmediateCompletion hint id isContinuation
        { s with created := s.created ++ [id] } t)
    else none
  | .postDeferredCompletion id =>
    if s.fresh [id] then
      some (postDeferredCompletion hint id { s with created := s.created ++ [id] } t)
    else none
  | .postDeferredCompletions ids =>
    if s.fresh ids then
      some (postDeferredCompletions hint ids { s with created := s.created ++ ids } t).2
    else none
  | .stop => some (s, { t with call := some .stop })
  | .restart =>
    if s.mutex.isNone then some ({ s with toScheduler := s.toScheduler.restart }, t) else none
  | .initTask =>
    if s.mutex.isNone then
      let (sch, call) := s.toScheduler.initTask
      some ({ s with toScheduler := sch }, { t with call })
    else none
  | .run =>
    -- `run` stops the scheduler and returns 0 where there is no work
    if s.outstandingWork = 0 then some (s, { t with call := some .stop })
    else match t.top with
      | some ⟨info, _, .complete id, n⟩ =>
        some (s, { t with top := some {}, stack := ⟨info, id, n⟩ :: t.stack })
      | _ => some (s, { t with top := some {} })
  | .registerDescriptor descriptor ctl =>
    some ({ s with
      descriptors := s.descriptors ++ [(DescriptorState.register descriptor ctl).1] }, t)
  | .registerInternalDescriptor ty descriptor op ctl =>
    if s.fresh [op.id] then
      some ({ s with
        created := s.created ++ [op.id]
        descriptors :=
          s.descriptors ++ [(DescriptorState.registerInternal ty descriptor op ctl).1] }, t)
    else none
  | .startOp none _ op isContinuation _ _ _ =>
    -- `ec_` is set to `bad_file_descriptor`
    if s.fresh [op.id] then
      some (postImmediateCompletion hint op.id isContinuation
        { s with created := s.created ++ [op.id] } t)
    else none
  | .startOp (some d) ty op isContinuation allowSpeculative f ctl =>
    if s.fresh [op.id] then
      (s.lockDescriptor d).map fun x =>
        let r := x.startOp ty op allowSpeculative f ctl
        let s := { s with created := s.created ++ [op.id] }.setDescriptor d r.data
        match r.exit with
        | .posted op => postImmediateCompletion hint op.id isContinuation s t
        | .queued => ({ s with outstandingWork := increment s.outstandingWork 1 }, t)
    else none
  | .cancelOps none => some (s, t)
  | .cancelOps (some d) =>
    (s.lockDescriptor d).map fun x =>
      let (x, ops) := x.cancelOps
      (postDeferredCompletions hint (ops.map ReactorOp.id) (s.setDescriptor d x) t).2
  | .deregisterDescriptor none _ => some (s, t)
  | .deregisterDescriptor (some d) closing =>
    (s.lockDescriptor d).map fun x =>
      match x.deregister closing with
      | (x, some ops) =>
        (postDeferredCompletions hint (ops.map ReactorOp.id) (s.setDescriptor d x) t).2
      | (_, none) => (s, t)
  | .deregisterInternalDescriptor none => some (s, t)
  | .deregisterInternalDescriptor (some d) =>
    (s.lockDescriptor d).map fun x =>
      match x.deregisterInternal with
      | some (x, some ops) =>
        (postDeferredCompletions hint (ops.map ReactorOp.id) (s.setDescriptor d x) t).2
      | some (_, none) => (s, t)
      -- an operation is pending, and pushed to `ops` again and again
      | none => ({ s with held := d :: s.held }, { t with call := some .transfer })
  | .handlerEnd thrown =>
    match t.top with
    | some ⟨info, owns, .complete id, n⟩ =>
      some ({ s with executed := s.executed ++ [id] },
        t.setTop ⟨info, owns, .workCleanup thrown, n⟩)
    | _ => none

-- ---------------------------------------------------------------------------
-- run and do_run_one
-- ---------------------------------------------------------------------------

/-- A `std::unique_lock` is misused: `std::system_error` leaves `run()`, whose
lock is released on the way if it owns the mutex. -/
def misuse (s : Shared ι) (f : Run) (t : Thread) : Shared ι × Thread :=
  ({ s with
      lockErrors := s.lockErrors + 1
      exceptions := s.exceptions + 1
      mutex := if f.owns then none else s.mutex }, t.leave)

/-- `lock.lock()` and the code behind it: an exception if the lock is owned
already, and nothing yet while another thread holds the mutex. -/
def locked (s : Shared ι) (f : Run) (t : Thread) (r : Shared ι × Thread) :
    Option (Shared ι × Thread) :=
  if f.owns then some (misuse s f t) else if s.mutex.isSome then none else some r

/-- The body of `while (!stopped_)` in `do_run_one`, up to the release of the
lock, or the return of `do_run_one` and `run`. -/
def loopStep (hint : Int) (i : ι) (s : Shared ι) (f : Run) (t : Thread) : Shared ι × Thread :=
  if s.stopped then ({ s with mutex := if f.owns then none else s.mutex }, t.leave)
  else if !f.owns then misuse s f t
  else match s.opQueue with
    | [] =>
      ({ s with toScheduler := s.toScheduler.clearAndWait i },
        t.setTop { f with owns := false, pc := .wait })
    | o :: rest =>
      let (sch, call) := s.toScheduler.popFront hint o rest
      let pc := if o = .taskOperation then .runTask rest.isEmpty else .popped o
      ({ s with toScheduler := sch }, { t with top := some { f with owns := false, pc }, call })

def storeEvent (s : Shared ι) (f : Run) : EpollEvent → Shared ι × ThreadInfo
  | .interrupter => (s, f.info)
  | .descriptor d events =>
    match s.descriptors[d]? with
    | none => (s, f.info)
    | some x =>
      if .descriptorState d ∈ f.info.privateOpQueue then
        (s.setDescriptor d (x.addReadyEvents events), f.info)
      else (s.setDescriptor d (x.setReadyEvents events),
        { f.info with privateOpQueue := f.info.privateOpQueue ++ [.descriptorState d] })

def mergeWork (s : Shared ι) (f : Run) : Shared ι × ThreadInfo :=
  ({ s with outstandingWork := increment s.outstandingWork f.info.privateOutstandingWork },
    { f.info with privateOutstandingWork := 0 })

/-- The end of `~work_cleanup`, and what follows it: `do_run_one` returns 1 and
`run` goes on to lock again, or the exception of the handler leaves `run()`. -/
def endOfWork (s : Shared ι) (f : Run) (t : Thread) (thrown : Bool) : Shared ι × Thread :=
  if thrown then
    ({ s with exceptions := s.exceptions + 1, mutex := if f.owns then none else s.mutex }, t.leave)
  else (s, t.setTop { f with pc := .lock, n := if f.n = 2 ^ 64 - 1 then f.n else f.n + 1 })

/-- The pieces of `run()` that nothing outside the memory decides. -/
def runStep (hint : Int) (i : ι) (s : Shared ι) (f : Run) (t : Thread) :
    Option (Shared ι × Thread) :=
  match f.pc with
  | .lock =>
    locked s f t ({ s with mutex := some i }, t.setTop { f with owns := true, pc := .loop })
  | .loop => some (loopStep hint i s f t)
  | .events [] => some (s, t.setTop { f with pc := .taskCleanup })
  | .events (ev :: evs) =>
    let (s, info) := storeEvent s f ev
    some (s, t.setTop { f with info, pc := .events evs })
  | .taskCleanup =>
    let (s, info) := mergeWork s f
    some (s, t.setTop { f with info, pc := .taskCleanupLock })
  | .taskCleanupLock =>
    locked s f t ({ s with toScheduler := s.toScheduler.taskCleanup i f.info.privateOpQueue },
      t.setTop { f with info.privateOpQueue := [], owns := true, pc := .loop })
  | .popped o =>
    match o with
    | .handler id => some (s, t.setTop { f with pc := .complete id })
    | .descriptorState d =>
      s.descriptors[d]?.map fun x => (s, t.setTop { f with pc := .performIo d x.taskResult })
    -- `complete` of an operation without a function does nothing
    | .taskOperation => some (s, t.setTop { f with pc := .workCleanup false })
  | .workCleanup thrown =>
    let (s, info) := mergeWork s f
    some (s, t.setTop { f with info, pc := .workFinished thrown })
  | .workFinished thrown =>
    let work := decrement s.outstandingWork
    let t := t.setTop { f with pc := .workCleanupLock thrown }
    some ({ s with outstandingWork := work }, if work = 0 then { t with call := some .stop } else t)
  | .workCleanupLock thrown =>
    if f.info.privateOpQueue.isEmpty then some (endOfWork s f t thrown)
    else
      let s' := { s with toScheduler := s.toScheduler.workCleanup i f.info.privateOpQueue }
      locked s f t (endOfWork s' { f with info.privateOpQueue := [], owns := true } t thrown)
  | .wait | .runTask _ | .performIo _ _ | .complete _ => none

def wakeStep (i : ι) (s : Shared ι) (f : Run) (t : Thread) : Option (Shared ι × Thread) :=
  if f.pc = .wait ∧ s.mutex.isNone then
    let e := s.wakeupEvent.leaveWait i
    if e.signalled then
      some ({ s with wakeupEvent := e, mutex := some i },
        t.setTop { f with owns := true, pc := .loop })
    else some ({ s with wakeupEvent := e.enterWait i }, t)
  else none

/-- `epoll_wait` returns at most 128 events of descriptors that exist. -/
def epollWaitStep (s : Shared ι) (f : Run) (t : Thread) (evs : List EpollEvent) :
    Option (Shared ι × Thread) :=
  match f.pc with
  | .runTask _ =>
    let known : EpollEvent → Bool
      | .interrupter => true
      | .descriptor d _ => d < s.descriptors.length
    if evs.length ≤ 128 ∧ evs.all known then
      let report (due : Nat → Events) : EpollEvent → Nat → Events
        | .interrupter => due
        | .descriptor d events => Function.update due d (due d ||| events)
      some ({ s with
        interruptPending := s.interruptPending && !evs.contains .interrupter
        due := evs.foldl report s.due }, t.setTop { f with pc := .events evs })
    else none
  | _ => none

/-- `perform_io` of a descriptor state and the destructor of its cleanup
object; `do_complete` then runs the first operation itself. -/
def performIoStep (hint : Int) (s : Shared ι) (f : Run) (t : Thread) (perform : PerformFunc) :
    Option (Shared ι × Thread) :=
  match f.pc with
  | .performIo d events =>
    (s.lockDescriptor d).map fun x =>
      let r := x.performIo events perform
      let s := { s with due := Function.update s.due d (s.due d &&& ~~~events) }.setDescriptor d
        r.data
      match r.ops with
      | [] =>
        -- `compensating_work_started`
        (s, t.setTop { f with
          info.privateOutstandingWork := f.info.privateOutstandingWork + 1
          pc := .workCleanup false })
      | first :: rest =>
        let s := { s with handed := s.handed ++ [first.id] }
        let t := t.setTop { f with pc := .complete first.id }
        if rest.isEmpty then (s, t)
        else (postDeferredCompletions hint (rest.map ReactorOp.id) s t).2
  | _ => none

def callStep (s : Shared ι) (t : Thread) : Option (Shared ι × Thread) :=
  match t.call with
  | some (.push ops) =>
    if s.mutex.isNone then
      let (sch, call) := s.toScheduler.push ops
      some ({ s with toScheduler := sch, handed := s.handed ++ OpQueue.handlers ops },
        { t with call })
    else none
  | some .stop =>
    if s.mutex.isNone then
      some ({ s with toScheduler := s.toScheduler.stopAllThreads }, { t with call := none })
    else none
  | some .transfer => some (s, t)
  | some .notifyOne | none => none

def notifyStep (s : Shared ι) (t : Thread) (j : ι) : Option (Shared ι × Thread) :=
  match t.call with
  | some .notifyOne =>
    if s.wakeupEvent.blocked = ∅ ∨ j ∈ s.wakeupEvent.blocked then
      some ({ s with wakeupEvent := s.wakeupEvent.notifyOne j }, { t with call := none })
    else none
  | _ => none

def step (hint : Int) (i : ι) (a : Action ι) (s : Shared ι) (t : Thread) :
    Option (Shared ι × Thread) :=
  match a with
  | .user u => if t.inUserCode then userStep hint s t u else none
  | .call => callStep s t
  | .notify j => notifyStep s t j
  | .next => if t.call.isNone then t.top.bind fun f => runStep hint i s f t else none
  | .wake => if t.call.isNone then t.top.bind fun f => wakeStep i s f t else none
  | .epollWait evs => if t.call.isNone then t.top.bind fun f => epollWaitStep s f t evs else none
  | .performIo perform =>
    if t.call.isNone then t.top.bind fun f => performIoStep hint s f t perform else none

-- ---------------------------------------------------------------------------
-- The system
-- ---------------------------------------------------------------------------

/-- The members that neither the constructor of `scheduler` nor a member
initialiser sets: they are what the memory held. -/
structure Uninitialised where
  task : Bool := false
  taskInterrupted : Bool := false
  stopped : Bool := false
  shutdown : Bool := false
  outstandingWork : Nat := 0

def Shared.new (m : Uninitialised) : Shared ι where
  mutex := none
  wakeupEvent := {}
  task := m.task
  taskInterrupted := m.taskInterrupted
  opQueue := []
  stopped := m.stopped
  shutdown := m.shutdown
  interruptPending := false
  outstandingWork := m.outstandingWork
  descriptors := []

abbrev System (ι : Type) := Threads ι (Shared ι) Thread

def System.new (m : Uninitialised) : System ι := ⟨.new m, fun _ => {}⟩

def System.first : Fin 3 := 0
def System.second : Fin 3 := 1
def System.third : Fin 3 := 2

def System.next (hint : Int) : System ι → ι × Action ι → Option (System ι) :=
  Threads.next (step hint)

end BoostAsio
