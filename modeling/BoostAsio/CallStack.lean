import BoostAsio.Lib.KeyedStack
import BoostAsio.System

/-!
# The call stacks of threads

A handler may call `run()`, on its own scheduler or on another. The contexts of
the calls that a thread is in are one stack, whatever their schedulers
(`call_stack::top_`), and a scheduler finds the innermost that has its address
as key. Here any number of threads calls into a family `κ` of schedulers. A step
of a thread is a step of one scheduler, taken on what that scheduler sees of the
thread (`CallStack.view`).
-/

namespace BoostAsio

open KeyedStack

/-- A `call_stack::context` with the `run()` that made it. -/
structure RunContext (κ : Type) where
  key : κ
  run : Run := {}
  /-- History: the units that were counted in `private_outstanding_work`. -/
  counted : Nat := 0
  /-- History: the units that its cleanup objects added to `outstanding_work_`. -/
  added : Nat := 0

structure CallStack (κ : Type) where
  contexts : List (RunContext κ) := []
  /-- The rest of a function of this scheduler that the thread has begun. -/
  call : Option (κ × Call) := none
  /-- History: the contexts destroyed so far, each as it was then. -/
  destroyed : List (RunContext κ) := []

/-- In `~task_cleanup` or `~work_cleanup`, before the private work is merged. -/
def Pc.merges : Pc → Bool
  | .taskCleanup | .workCleanup _ => true
  | .lock | .loop | .wait | .runTask _ | .events _ | .taskCleanupLock | .popped _ | .performIo _ _
  | .complete _ | .workFinished _ | .workCleanupLock _ => false

/-- `~work_cleanup` from the test of the private queue on: the memory and the
`run()` that it leaves to the code behind it. -/
def endOfCleanup {ι : Type} (i : ι) (s : Shared ι) (f : Run) : Shared ι × Run :=
  if f.info.privateOpQueue.isEmpty then (s, f)
  else ({ s with toScheduler := s.toScheduler.workCleanup i f.info.privateOpQueue },
    { f with info.privateOpQueue := [], owns := true })

namespace RunContext

variable {κ ι : Type}

/-- The context after a step of its scheduler, from the memory `s` to `s'`. Units
that leave the private work are added if `outstanding_work_` goes up by them. -/
def after (f : RunContext κ) (s s' : Shared ι) (run : Run) : RunContext κ :=
  let units := f.run.info.privateOutstandingWork - run.info.privateOutstandingWork
  { f with
    run
    counted :=
      f.counted + (run.info.privateOutstandingWork - f.run.info.privateOutstandingWork)
    added := f.added +
      if f.run.pc.merges ∧ s'.outstandingWork = increment s.outstandingWork units then units
      else 0 }

/-- The context when it is destroyed in a step from the memory `s`: what
`~work_cleanup` does comes before. -/
def last (i : ι) (s : Shared ι) (f : RunContext κ) : RunContext κ :=
  match f.run.pc with
  | .workCleanupLock _ => { f with run := (endOfCleanup i s f.run).2 }
  | _ => f

end RunContext

namespace CallStack

variable {κ ι : Type} [DecidableEq κ] [DecidableEq ι]

def contains (t : CallStack κ) (k : κ) : Option (RunContext κ) :=
  innermost RunContext.key k t.contexts

/-- What the scheduler `k` sees of a thread. -/
def view (t : CallStack κ) (k : κ) : Thread where
  top := (t.contains k).map RunContext.run
  call := t.call.bind fun c => if c.1 = k then some c.2 else none

def inUserCode (t : CallStack κ) : Bool :=
  t.call.isNone && Thread.inUserCode { top := t.contexts.head?.map RunContext.run }

/-- Whether an action on the scheduler `k` is of the code that the thread is in:
code of a caller may call any scheduler, a handler and a `run()` are of the
innermost context, and a call goes on where it was begun. -/
def executes (t : CallStack κ) (k : κ) : Action ι → Bool
  | .user (.handlerEnd _) | .next | .wake | .epollWait _ | .performIo _ =>
    t.call.isNone && t.contexts.head?.any fun f => f.key = k
  | .user _ => t.inUserCode
  | .call | .notify _ => t.call.any fun c => c.1 = k

/-- The thread after a step of the scheduler `k` on what it sees of the thread. -/
def after (t : CallStack κ) (k : κ) (i : ι) (s s' : Shared ι) (v : Thread) : CallStack κ :=
  let t := { t with call := v.call.map fun c => (k, c) }
  match v.top, t.contains k with
  | some run, _ =>
    { t with contexts := change RunContext.key k (fun f => f.after s s' run) t.contexts }
  | none, some f =>
    -- `~context`
    { t with contexts := t.contexts.tail, destroyed := t.destroyed ++ [f.last i s] }
  | none, none => t

def step (hint : κ → Int) (i : ι) (l : κ × Action ι) (m : κ → Shared ι) (t : CallStack κ) :
    Option ((κ → Shared ι) × CallStack κ) :=
  if t.executes l.1 l.2 then
    match l.2 with
    | .user .run =>
      if (m l.1).outstandingWork = 0 then some (m, { t with call := some (l.1, .stop) })
      else some (m, { t with contexts := { key := l.1 } :: t.contexts })
    | a => (BoostAsio.step (hint l.1) i a (m l.1) (t.view l.1)).map fun r =>
      (Function.update m l.1 r.1, t.after l.1 i (m l.1) r.1 r.2)
  else none

end CallStack

/-- Schedulers, each with its reactor, and threads that call into them. -/
abbrev Schedulers (κ ι : Type) := Threads ι (κ → Shared ι) (CallStack κ)

namespace Schedulers

variable {κ ι : Type} [DecidableEq κ] [DecidableEq ι]

def new (m : κ → Uninitialised) : Schedulers κ ι := ⟨fun k => .new (m k), fun _ => {}⟩

def next (hint : κ → Int) : Schedulers κ ι → ι × κ × Action ι → Option (Schedulers κ ι) :=
  Threads.next (CallStack.step hint)

end Schedulers

end BoostAsio
