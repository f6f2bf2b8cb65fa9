import BoostAsio.Event
import BoostAsio.Descriptor
import BoostAsio.Lib.Loops

/-!
# The scheduler and its threads

The members of `scheduler`, what a thread inside `scheduler::run` is doing, and
the critical sections of `scheduler.cc`, each one function. `ι` is the type of
the threads that may call into the scheduler.

A thread is at most in one call that it has begun and not finished (`Call`),
and in a stack of `run()` calls: a handler that calls `run()` is suspended
below the new one. `lock.owns_lock()` of the `std::unique_lock` of a `run()` is
a field of its own, so that locking it twice is something that can happen.

`private_outstanding_work`, a `long`, is a natural number: overflow of a signed
counter is undefined. `std::cout` is left out.
-/

namespace BoostAsio

inductive EpollEvent
  | interrupter
  | descriptor (d : Nat) (events : Events)
  deriving DecidableEq, Repr

structure ThreadInfo where
  privateOpQueue : OpQueue Operation := []
  privateOutstandingWork : Nat := 0

/-- Where a `run()` is. At `lock` it constructs its lock or goes round its `for`
loop, at `loop` it is before `while (!stopped_)` of `do_run_one`. -/
inductive Pc
  | lock
  | loop
  | wait
  /-- in `task_->run` up to the return of `epoll_wait`, which has no timeout if `block` -/
  | runTask (block : Bool)
  | events (evs : List EpollEvent)
  /-- in `~task_cleanup`, before and after the private work is merged -/
  | taskCleanup
  | taskCleanupLock
  /-- `o` is popped and the mutex released; its `task_result_` is not read yet -/
  | popped (o : Operation)
  | performIo (d : Nat) (events : Events)
  | complete (id : Nat)
  /-- in `~work_cleanup`: before the private work is merged, before
  `work_finished`, and before the private queue is looked at; `thrown` if the
  handler ended by an exception -/
  | workCleanup (thrown : Bool)
  | workFinished (thrown : Bool)
  | workCleanupLock (thrown : Bool)
  deriving DecidableEq

structure Run where
  info : ThreadInfo := {}
  owns : Bool := false
  pc : Pc := .lock
  n : Nat := 0

/-- A `run()` whose handler has called `run()` again. -/
structure Suspended where
  info : ThreadInfo
  handler : Nat
  n : Nat

def Suspended.resume (p : Suspended) : Run := ⟨p.info, false, .complete p.handler, p.n⟩

/-- The rest of a scheduler function that a thread has begun: a critical
section, or the `notify_one` after one. -/
inductive Call
  /-- lock, `op_queue_.push(ops)`, `wake_one_thread_and_unlock` -/
  | push (ops : OpQueue Operation)
  | stop
  | notifyOne
  /-- the transfer in `deregister_internal_descriptor`, which does not end -/
  | transfer

structure Thread where
  top : Option Run := none
  stack : List Suspended := []
  call : Option Call := none

structure Scheduler (ι : Type) where
  mutex : Option ι
  wakeupEvent : Event ι
  task : Bool
  taskInterrupted : Bool
  opQueue : OpQueue Operation
  stopped : Bool
  shutdown : Bool
  /-- Not a member: `task_->interrupt()` was called and the event it causes
  has not been reported. -/
  interruptPending : Bool
  /-- Not members either: how often a `std::unique_lock` was locked while it
  owned the mutex or unlocked while it did not, how many `run()` calls ended by
  an exception, and how often `stop` and `restart` were called. -/
  lockErrors : Nat := 0
  exceptions : Nat := 0
  stops : Nat := 0
  restarts : Nat := 0

def oneThread (concurrencyHint : Int) : Bool := concurrencyHint == 1

namespace Scheduler

variable {ι : Type}

def unlock (s : Scheduler ι) : Scheduler ι := { s with mutex := none }

/-- `wakeup_event_.unlock_and_signal_one(lock)`, and the call left to make. -/
def unlockAndSignalOne (s : Scheduler ι) : Scheduler ι × Option Call :=
  let (e, haveWaiters) := s.wakeupEvent.signalOne
  ({ s with wakeupEvent := e }.unlock, if haveWaiters then some .notifyOne else none)

def interrupt (s : Scheduler ι) : Scheduler ι :=
  { s with taskInterrupted := true, interruptPending := true }

/-- `wake_one_thread_and_unlock`. Its condition takes the address of
`task_interrupted_`, so only `task_` is tested. -/
def wakeOneThreadAndUnlock (s : Scheduler ι) : Scheduler ι × Option Call :=
  let (e, haveWaiters) := s.wakeupEvent.signalOne
  let s := { s with wakeupEvent := e }
  if haveWaiters then (s.unlock, some .notifyOne)
  else ((if s.task then s.interrupt else s).unlock, none)

def push (s : Scheduler ι) (ops : OpQueue Operation) : Scheduler ι × Option Call :=
  { s with opQueue := s.opQueue ++ ops }.wakeOneThreadAndUnlock

def stopAllThreads (s : Scheduler ι) : Scheduler ι :=
  let s := { s with stopped := true, wakeupEvent := s.wakeupEvent.signalAll,
                    stops := s.stops + 1 }
  if !s.taskInterrupted && s.task then s.interrupt else s

/-- `init_task`. The reactor that `use_service` finds or constructs has called
`interrupter_.interrupt()` in its constructor. -/
def initTask (s : Scheduler ι) : Scheduler ι × Option Call :=
  if !s.shutdown && !s.task then
    { s with task := true, interruptPending := true,
             opQueue := s.opQueue ++ [Operation.taskOperation] }.wakeOneThreadAndUnlock
  else (s, none)

def restart (s : Scheduler ι) : Scheduler ι :=
  { s with stopped := false, restarts := s.restarts + 1 }

/-- `do_run_one` from `op_queue_.pop()` to the release of the lock. -/
def popFront (s : Scheduler ι) (concurrencyHint : Int) (o : Operation)
    (rest : OpQueue Operation) : Scheduler ι × Option Call :=
  let moreHandlers := !rest.isEmpty
  let s := { s with opQueue := rest }
  let s := if o = .taskOperation then { s with taskInterrupted := moreHandlers } else s
  if moreHandlers && !oneThread concurrencyHint then s.unlockAndSignalOne else (s.unlock, none)

/-- The critical section of `~task_cleanup`; thread `i` keeps the lock, as it does
in that of `~work_cleanup`. -/
def taskCleanup (s : Scheduler ι) (i : ι) (privateOpQueue : OpQueue Operation) : Scheduler ι :=
  { s with mutex := some i, opQueue := s.opQueue ++ privateOpQueue ++ [Operation.taskOperation],
           taskInterrupted := true }

def workCleanup (s : Scheduler ι) (i : ι) (privateOpQueue : OpQueue Operation) : Scheduler ι :=
  { s with mutex := some i, opQueue := s.opQueue ++ privateOpQueue }

def clearAndWait [DecidableEq ι] (s : Scheduler ι) (i : ι) : Scheduler ι :=
  { s with wakeupEvent := s.wakeupEvent.clear.enterWait i }.unlock

/-- One turn of the `while` loop of `shutdown`: `op_queue_`, and the operations
whose `destroy()` was called. -/
def shutdownTurn (r : OpQueue Operation × List Operation) :
    Option (OpQueue Operation × List Operation) :=
  match r.1 with
  | [] => none
  | o :: rest => some (rest, if o ≠ .taskOperation then r.2 ++ [o] else r.2)

/-- `shutdown()`, and the operations it calls `destroy()` on, which submit none. -/
def doShutdown (s : Scheduler ι) : Scheduler ι × List Operation :=
  ({ s with shutdown := true, opQueue := [], task := false },
    s.opQueue.filter fun o => o ≠ .taskOperation)

theorem filterMap_doShutdown {α : Type} {f : Operation → Option α}
    (hf : f .taskOperation = none) (s : Scheduler ι) :
    s.doShutdown.2.filterMap f = s.opQueue.filterMap f := by
  rw [doShutdown, List.filterMap_filter]
  refine List.filterMap_congr fun o _ => ?_
  by_cases ho : o = .taskOperation
  · simp [ho, hf]
  · simp [ho]

theorem ends_shutdownTurn (q : OpQueue Operation) (destroyed : List Operation) :
    Loops.Ends shutdownTurn (q, destroyed)
      ([], destroyed ++ q.filter fun o => o ≠ .taskOperation) := by
  induction q generalizing destroyed with
  | nil =>
    rw [List.filter_nil, List.append_nil]
    exact .done rfl
  | cons o q ih =>
    refine .turn rfl ?_
    by_cases ho : o = .taskOperation
    · simpa [ho] using ih destroyed
    · simpa [ho] using ih (destroyed ++ [o])

-- ---------------------------------------------------------------------------
-- What the critical sections change
-- ---------------------------------------------------------------------------

variable (s : Scheduler ι)

theorem unlockAndSignalOne_fst : s.unlockAndSignalOne.1 =
    { s with mutex := none, wakeupEvent := s.wakeupEvent.signalOne.1 } := rfl

theorem unlockAndSignalOne_snd : s.unlockAndSignalOne.2 =
    if 0 < s.wakeupEvent.waiters then some .notifyOne else none := by
  simp [unlockAndSignalOne]

def interrupts : Bool := s.task && s.wakeupEvent.waiters == 0

theorem wakeOneThreadAndUnlock_fst : s.wakeOneThreadAndUnlock.1 =
    { s with
      mutex := none
      wakeupEvent := s.wakeupEvent.signalOne.1
      taskInterrupted := s.taskInterrupted || s.interrupts
      interruptPending := s.interruptPending || s.interrupts } := by
  simp only [wakeOneThreadAndUnlock, interrupts, Event.signalOne_haveWaiters]
  by_cases hw : 0 < s.wakeupEvent.waiters
  · simp [hw, unlock, Nat.ne_of_gt hw]
  · cases ht : s.task <;> simp [unlock, interrupt, Nat.eq_zero_of_not_pos hw]

theorem wakeOneThreadAndUnlock_snd : s.wakeOneThreadAndUnlock.2 =
    if 0 < s.wakeupEvent.waiters then some .notifyOne else none := by
  simp only [wakeOneThreadAndUnlock, Event.signalOne_haveWaiters, decide_eq_true_eq]
  split <;> rfl

theorem push_fst (ops : OpQueue Operation) : (s.push ops).1 =
    { s with
      mutex := none
      wakeupEvent := s.wakeupEvent.signalOne.1
      opQueue := s.opQueue ++ ops
      taskInterrupted := s.taskInterrupted || s.interrupts
      interruptPending := s.interruptPending || s.interrupts } :=
  wakeOneThreadAndUnlock_fst _

theorem push_snd (ops : OpQueue Operation) : (s.push ops).2 =
    if 0 < s.wakeupEvent.waiters then some .notifyOne else none :=
  wakeOneThreadAndUnlock_snd _

theorem initTask_cases : s.initTask = (s, none) ∨
    s.task = false ∧
      s.initTask.1 = { s with
        mutex := none
        wakeupEvent := s.wakeupEvent.signalOne.1
        task := true
        taskInterrupted := s.taskInterrupted || s.wakeupEvent.waiters == 0
        opQueue := s.opQueue ++ [Operation.taskOperation]
        interruptPending := true } ∧
      s.initTask.2 = if 0 < s.wakeupEvent.waiters then some .notifyOne else none := by
  simp only [initTask]
  split
  · rename_i h
    simp only [Bool.and_eq_true, Bool.not_eq_true'] at h
    exact .inr ⟨h.2, by simp [wakeOneThreadAndUnlock_fst, interrupts], wakeOneThreadAndUnlock_snd _⟩
  · exact .inl rfl

theorem stopAllThreads_eq : s.stopAllThreads =
    { s with
      stopped := true
      wakeupEvent := s.wakeupEvent.signalAll
      stops := s.stops + 1
      taskInterrupted := s.taskInterrupted || s.task
      interruptPending := s.interruptPending || (!s.taskInterrupted && s.task) } := by
  simp only [stopAllThreads]
  cases hi : s.taskInterrupted <;> cases ht : s.task <;> simp [interrupt]

def signals (concurrencyHint : Int) (rest : OpQueue Operation) : Bool :=
  !rest.isEmpty && !oneThread concurrencyHint

theorem popFront_fst (hint : Int) (o : Operation) (rest : OpQueue Operation) :
    (s.popFront hint o rest).1 =
      { s with
        mutex := none
        opQueue := rest
        taskInterrupted := if o = .taskOperation then !rest.isEmpty else s.taskInterrupted
        wakeupEvent :=
          if signals hint rest then s.wakeupEvent.signalOne.1 else s.wakeupEvent } := by
  simp only [popFront, signals]
  by_cases ho : o = .taskOperation <;> by_cases hs : (!rest.isEmpty && !oneThread hint) = true <;>
    simp only [ho, hs, if_true, if_false, Bool.false_eq_true, unlock, unlockAndSignalOne_fst]

theorem popFront_snd (hint : Int) (o : Operation) (rest : OpQueue Operation) :
    (s.popFront hint o rest).2 =
      if signals hint rest ∧ 0 < s.wakeupEvent.waiters then some .notifyOne else none := by
  simp only [popFront, signals]
  by_cases ho : o = .taskOperation <;> by_cases hs : (!rest.isEmpty && !oneThread hint) = true <;>
    simp only [ho, hs, if_true, if_false, Bool.false_eq_true, unlockAndSignalOne_snd, true_and,
      false_and]

end Scheduler

namespace Thread

/-- Code of the caller runs: outside `run()`, or in a handler. -/
def inUserCode (t : Thread) : Bool :=
  t.call.isNone && match t.top with
  | none => true
  | some f => match f.pc with
    | .complete _ => true
    | _ => false

def setTop (t : Thread) (f : Run) : Thread := { t with top := some f }

/-- The innermost `run()` ends; the handler that called it, if any, goes on. -/
def leave (t : Thread) : Thread :=
  match t.stack with
  | [] => { t with top := none }
  | p :: stack => { t with top := some p.resume, stack }

end Thread

end BoostAsio
