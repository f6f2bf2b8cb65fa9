import BoostAsio.System

/-!
# A scheduler used by one thread

One thread makes a list of requests of a scheduler, and every operation that it
executes makes a list of its own, `run()` again among them. `turn` is the next
thing that the thread does: a request, one round of `do_run_one`, or the end of
an operation. What there is to see of it is in the `Log`.

No descriptor is registered: the reactor reports the interrupter and nothing
else. Nobody can wake a thread that waits, so where it waits it is `blocked`.
-/

namespace BoostAsio

inductive Request
  | initTask
  | doDispatch (id : Nat)
  | postImmediateCompletion (id : Nat) (isContinuation : Bool)
  | workStarted
  | workFinished
  | run
  | stop
  | stopped
  | restart
  | shutdown
  deriving DecidableEq

/-- What an operation does when it is executed, or has yet to do. -/
structure Body where
  requests : List Request := []
  throws : Bool := false
  deriving DecidableEq

inductive Result
  | stopped (b : Bool)
  | returned (n : Nat)
  /-- `run()` ended by an exception, which its caller has caught. -/
  | threw
  deriving DecidableEq

/-- Why nothing more happens. -/
inductive Halt
  | finished
  | blocked
  /-- A pointer that was never set was followed. -/
  | undefined
  deriving DecidableEq

structure Log where
  results : List Result := []
  executed : List Nat := []
  destroyed : List Nat := []
  halt : Option Halt := none
  deriving DecidableEq

structure SoloRun where
  privateOpQueue : List Nat := []
  privateOutstandingWork : Nat := 0
  n : Nat := 0
  /-- The operation being executed; none in the loop of `do_run_one`. -/
  handler : Option Body := none
  deriving DecidableEq

structure Solo where
  scheduler : Scheduler Unit
  outstandingWork : BitVec 64
  /-- `task_` holds what the memory held, and that is not null. -/
  wild : Bool
  requests : List Request
  runs : List SoloRun := []
  log : Log := {}

namespace Solo

def start (m : Uninitialised) (requests : List Request) : Solo where
  scheduler := (Shared.new m).toScheduler
  outstandingWork := BitVec.ofNat 64 m.outstandingWork
  wild := m.task
  requests := requests

def halt (s : Solo) (h : Halt) : Solo := { s with log.halt := some h }

def result (s : Solo) (r : Result) : Solo := { s with log.results := s.log.results ++ [r] }

-- ---------------------------------------------------------------------------
-- Requests
-- ---------------------------------------------------------------------------

def stop (s : Solo) : Solo :=
  if s.wild && !s.scheduler.taskInterrupted && s.scheduler.task then s.halt .undefined
  else { s with scheduler := s.scheduler.stopAllThreads }

def workStarted (s : Solo) : Solo := { s with outstandingWork := s.outstandingWork + 1 }

def workFinished (s : Solo) : Solo :=
  let work := s.outstandingWork - 1
  let s := { s with outstandingWork := work }
  if work = 0 then s.stop else s

def doDispatch (s : Solo) (id : Nat) : Solo :=
  let s := s.workStarted
  if s.wild && s.scheduler.interrupts then s.halt .undefined
  else { s with scheduler := (s.scheduler.push [.handler id]).1 }

/-- Off the fast path the code is that of `do_dispatch`. -/
def postImmediateCompletion (hint : Int) (s : Solo) (id : Nat) (isContinuation : Bool) : Solo :=
  match if oneThread hint || isContinuation then s.runs else [] with
  | f :: fs =>
    { s with runs := { f with
        privateOutstandingWork := f.privateOutstandingWork + 1
        privateOpQueue := f.privateOpQueue ++ [id] } :: fs }
  | [] => s.doDispatch id

/-- `run()` up to its loop. -/
def run (s : Solo) : Solo :=
  if s.outstandingWork = 0 then s.stop.result (.returned 0)
  else { s with scheduler.mutex := some (), runs := {} :: s.runs }

def shutdown (s : Solo) : Solo :=
  let (scheduler, destroyed) := s.scheduler.doShutdown
  { s with scheduler, wild := false
           log.destroyed := s.log.destroyed ++ OpQueue.handlers destroyed }

def request (hint : Int) (s : Solo) : Request → Solo
  | .initTask => { s with scheduler := s.scheduler.initTask.1 }
  | .doDispatch id => s.doDispatch id
  | .postImmediateCompletion id isContinuation => s.postImmediateCompletion hint id isContinuation
  | .workStarted => s.workStarted
  | .workFinished => s.workFinished
  | .run => s.run
  | .stop => s.stop
  | .stopped => s.result (.stopped s.scheduler.stopped)
  | .restart => { s with scheduler := s.scheduler.restart }
  | .shutdown => s.shutdown

-- ---------------------------------------------------------------------------
-- run and do_run_one
-- ---------------------------------------------------------------------------

/-- `task_->run` and `~task_cleanup`. -/
def poll (hint : Int) (s : Solo) (f : SoloRun) (fs : List SoloRun) (rest : OpQueue Operation) :
    Solo :=
  let scheduler := (s.scheduler.popFront hint .taskOperation rest).1
  let scheduler := { scheduler with interruptPending := false }
  { s with
    outstandingWork := s.outstandingWork + BitVec.ofNat 64 f.privateOutstandingWork
    scheduler := scheduler.taskCleanup () (f.privateOpQueue.map .handler)
    runs := { f with privateOutstandingWork := 0, privateOpQueue := [] } :: fs }

/-- One round of `while (!stopped_)`, up to the start of an operation. -/
def loopTurn (hint : Int) (body : Nat → Body) (s : Solo) (f : SoloRun) (fs : List SoloRun) : Solo :=
  if s.scheduler.stopped then
    { s with scheduler := s.scheduler.unlock, runs := fs }.result (.returned f.n)
  else match s.scheduler.opQueue with
    | [] => s.halt .blocked
    | .taskOperation :: rest =>
      -- without a timeout `epoll_wait` returns for the interrupter only
      if rest.isEmpty && !s.scheduler.interruptPending then s.halt .blocked
      else s.poll hint f fs rest
    | .handler id :: rest =>
      { s with
        scheduler := (s.scheduler.popFront hint (.handler id) rest).1
        runs := { f with handler := some (body id) } :: fs
        log.executed := s.log.executed ++ [id] }
    -- no request registers a descriptor
    | .descriptorState _ :: _ => s.halt .undefined

def mergeWork (s : Solo) (f : SoloRun) : Solo :=
  { s with outstandingWork := s.outstandingWork + BitVec.ofNat 64 f.privateOutstandingWork }

/-- The end of `~work_cleanup`, and the lock that `run` takes behind it.
`~work_cleanup` owns the lock where it has moved the private queue, and locking
it again throws. -/
def endOfWork (s : Solo) (f : SoloRun) (fs : List SoloRun) (throws : Bool) : Solo :=
  let owns := !f.privateOpQueue.isEmpty
  let s :=
    if owns then
      { s with scheduler := s.scheduler.workCleanup () (f.privateOpQueue.map .handler) }
    else s
  if throws || owns then { s with scheduler := s.scheduler.unlock, runs := fs }.result .threw
  else
    let n := if f.n = 2 ^ 64 - 1 then f.n else f.n + 1
    { s with scheduler.mutex := some ()
             runs := { f with privateOutstandingWork := 0, handler := none, n } :: fs }

/-- An operation returns or throws, and `~work_cleanup` runs. -/
def cleanupTurn (s : Solo) (f : SoloRun) (fs : List SoloRun) (throws : Bool) : Solo :=
  (s.mergeWork f).workFinished.endOfWork f fs throws

def turn (hint : Int) (body : Nat → Body) (s : Solo) : Option Solo :=
  if s.log.halt.isSome then none
  else some <| match s.runs with
    | [] => match s.requests with
      | [] => s.halt .finished
      | r :: requests => { s with requests }.request hint r
    | f :: fs => match f.handler with
      | none => s.loopTurn hint body f fs
      | some ⟨[], throws⟩ => s.cleanupTurn f fs throws
      | some ⟨r :: requests, throws⟩ =>
        { s with runs := { f with handler := some ⟨requests, throws⟩ } :: fs }.request hint r

end Solo

end BoostAsio
