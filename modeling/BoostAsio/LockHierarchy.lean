import BoostAsio.Lib.LockOrder

/-!
# No deadlock between the mutexes

Which mutexes each function takes and releases, on each way through it, and that
the functions nest them in one order: the mutex of a descriptor state, then that
of the scheduler, then that of the service registry. `start_op` posts while it
holds the first, and `init_task` looks the reactor up while it holds the second.
The handlers that `run()` calls are code of this kind again, and run while
nothing is held.

Some ways through the functions do not keep to this (`Code.orderly`).
`deregister_internal_descriptor` and `epoll_reactor::shutdown` go round for ever
where an operation is pending, the first with the mutex held. `use_service`
destroys the service it has constructed under the mutex of the registry, where
another thread has registered one meanwhile, so a destructor that takes a mutex
comes too late in the order.

Threads that run any other code of this kind never block each other for good
(`no_deadlock`), also where `run()` is left by an exception. A wait for the
event is a release of the mutex that is taken again: whether it is notified is
not the question here.
-/

namespace BoostAsio

open Runs LockOrder

inductive Mutex
  | descriptor (d : Nat)
  | reactor
  | scheduler
  | registry
  deriving DecidableEq, Repr

def Mutex.rank : Mutex → Nat
  | .descriptor _ | .reactor => 0
  | .scheduler => 1
  | .registry => 2

abbrev LockOps := List (Op Mutex)

-- ---------------------------------------------------------------------------
-- The functions that call no code of a caller
-- ---------------------------------------------------------------------------

namespace LockOps

def critical (m : Mutex) : LockOps := [.acquire m, .release m]

/-- The functions that submit. With `one_thread_`, or as a continuation, an
operation may go to the private queue of the thread, under no lock. -/
def post (toPrivate : Bool) : LockOps := if toPrivate then [] else critical .scheduler

end LockOps

inductive UseServiceExit
  | found
  | threw
  | registered
  /-- another thread has registered one meanwhile -/
  | lost
  deriving DecidableEq, Repr

namespace LockOps

/-- `use_service` constructs the service under no lock, and destroys it under
the lock where it is not needed. -/
def useService (construct destroy : LockOps) : UseServiceExit → LockOps
  | .found => critical .registry
  | .threw => critical .registry ++ construct
  | .registered => critical .registry ++ (construct ++ critical .registry)
  | .lost => critical .registry ++
      (construct ++ .acquire .registry :: (destroy ++ [.release .registry]))

/-- The constructor of `epoll_reactor`, which uses the scheduler. The constructor
of `scheduler` and both destructors take no mutex. -/
def constructReactor : UseServiceExit → LockOps := useService [] []

def initTask (starts : Bool) (reactor scheduler : UseServiceExit) : LockOps :=
  .acquire .scheduler ::
    ((if starts then useService (constructReactor scheduler) [] reactor else []) ++
      [.release .scheduler])

end LockOps

inductive StartOpExit
  | null (toPrivate : Bool)
  /-- The descriptor is shut down, or cannot be polled, or `epoll_ctl` failed:
  the operation is posted under the lock. -/
  | rejected (toPrivate : Bool)
  /-- `perform()` has completed it, and the lock is released first. -/
  | performed (toPrivate : Bool)
  | queued
  deriving DecidableEq, Repr

inductive DeregisterExit
  | shut
  | submits (toPrivate : Bool)
  /-- an operation is pending -/
  | loops
  deriving DecidableEq, Repr

namespace LockOps

def startOp (d : Nat) : StartOpExit → LockOps
  | .null toPrivate => post toPrivate
  | .rejected toPrivate =>
    .acquire (.descriptor d) :: (post toPrivate ++ [.release (.descriptor d)])
  | .performed toPrivate => critical (.descriptor d) ++ post toPrivate
  | .queued => critical (.descriptor d)

/-- A critical section of a descriptor state, and a submission behind it if
there is one. -/
def criticalThenPost (d : Nat) (submits : Option Bool) : LockOps :=
  critical (.descriptor d) ++ submits.elim [] post

def cancelOps (d : Nat) (toPrivate : Bool) : LockOps := criticalThenPost d (some toPrivate)

/-- `deregister_descriptor`, which submits nothing where the descriptor is shut
down already. -/
def deregisterDescriptor (d : Nat) (submits : Option Bool) : LockOps := criticalThenPost d submits

def deregisterInternalDescriptor (d : Nat) : DeregisterExit → LockOps
  | .shut => criticalThenPost d none
  | .submits toPrivate => criticalThenPost d (some toPrivate)
  | .loops => [.acquire (.descriptor d), .loop]

/-- `epoll_reactor::shutdown`, where an operation may be `pending` on a registered
descriptor. -/
def shutdownReactor (pending : Bool) : LockOps :=
  critical .reactor ++ if pending then [.loop] else []

def performIo (d : Nat) (submits : Option Bool) : LockOps := criticalThenPost d submits

/-- A piece of work between the release of the lock and the end of
`~work_cleanup`, which calls `stop` when it finishes the last unit of work. -/
def work (io : Option (Nat × Option Bool)) (handler : LockOps) (stops : Bool) : LockOps :=
  io.elim [] (fun r => performIo r.1 r.2) ++
    (handler ++ if stops then critical .scheduler else [])

end LockOps

-- ---------------------------------------------------------------------------
-- Code of callers, and run()
-- ---------------------------------------------------------------------------

mutual

/-- A call that the code of a caller makes, by the way it goes. -/
inductive Code
  | post (toPrivate : Bool)
  /-- `stop`, also as `run` calls it where there is no work, `stopped`, `restart`
  and `scheduler::shutdown`; what that destroys is code behind it -/
  | scheduler
  | initTask (starts : Bool) (reactor scheduler : UseServiceExit)
  | useService (construct destroy : Codes) (exit : UseServiceExit)
  | registry
  | shutdownReactor (pending : Bool)
  | register (d : Nat)
  | startOp (d : Nat) (exit : StartOpExit)
  | cancelOps (d : Nat) (toPrivate : Bool)
  | deregisterDescriptor (d : Nat) (submits : Option Bool)
  | deregisterInternalDescriptor (d : Nat) (exit : DeregisterExit)
  | run (turns : Turns)

/-- What `do_run_one` does, from where it holds the lock, until `run` ends. -/
inductive Turns
  | stopped
  | wait (turns : Turns)
  | task (turns : Turns)
  | work (io : Option (Nat × Option Bool)) (handler : Codes) (stops : Bool) (turns : Turns)
  /-- `~work_cleanup` has locked to splice the private queue, and an exception
  leaves `run`: that of the handler, or that of the second `lock()`. -/
  | spliced (io : Option (Nat × Option Bool)) (handler : Codes) (stops : Bool)
  /-- the handler throws, and nothing is in the private queue -/
  | threw (io : Option (Nat × Option Bool)) (handler : Codes) (stops : Bool)

inductive Codes
  | nil
  | cons (code : Code) (codes : Codes)

end

mutual

def Code.locks : Code → LockOps
  | .post toPrivate => LockOps.post toPrivate
  | .scheduler => LockOps.critical .scheduler
  | .initTask starts reactor scheduler => LockOps.initTask starts reactor scheduler
  | .useService construct destroy exit => LockOps.useService construct.locks destroy.locks exit
  | .registry => LockOps.critical .registry
  | .shutdownReactor pending => LockOps.shutdownReactor pending
  | .register d => LockOps.critical (.descriptor d)
  | .startOp d exit => LockOps.startOp d exit
  | .cancelOps d toPrivate => LockOps.cancelOps d toPrivate
  | .deregisterDescriptor d submits => LockOps.deregisterDescriptor d submits
  | .deregisterInternalDescriptor d exit => LockOps.deregisterInternalDescriptor d exit
  | .run turns => .acquire .scheduler :: turns.locks

def Turns.locks : Turns → LockOps
  | .stopped => [.release .scheduler]
  | .wait turns | .task turns => .release .scheduler :: .acquire .scheduler :: turns.locks
  | .work io handler stops turns =>
    .release .scheduler :: (LockOps.work io handler.locks stops ++
      .acquire .scheduler :: turns.locks)
  | .spliced io handler stops =>
    .release .scheduler :: (LockOps.work io handler.locks stops ++ LockOps.critical .scheduler)
  | .threw io handler stops => .release .scheduler :: LockOps.work io handler.locks stops

def Codes.locks : Codes → LockOps
  | .nil => []
  | .cons code codes => code.locks ++ codes.locks

end

mutual

/-- No call of `deregister_internal_descriptor` or `epoll_reactor::shutdown` finds
an operation pending, and no service that `use_service` has constructed in vain
takes a mutex in its destructor. -/
def Code.orderly : Code → Bool
  | .useService construct destroy exit =>
    construct.orderly && (exit != .lost || destroy.locks.isEmpty)
  | .deregisterInternalDescriptor _ exit => exit != .loops
  | .shutdownReactor pending => !pending
  | .run turns => turns.orderly
  | .post _ | .scheduler | .initTask _ _ _ | .registry | .register _ | .startOp _ _ | .cancelOps _ _
  | .deregisterDescriptor _ _ => true

def Turns.orderly : Turns → Bool
  | .stopped => true
  | .wait turns | .task turns => turns.orderly
  | .work _ handler _ turns => handler.orderly && turns.orderly
  | .spliced _ handler _ | .threw _ handler _ => handler.orderly

def Codes.orderly : Codes → Bool
  | .nil => true
  | .cons code codes => code.orderly && codes.orderly

end

-- ---------------------------------------------------------------------------
-- The order
-- ---------------------------------------------------------------------------

abbrev InOrder (locks : LockOps) : Prop := Ordered Mutex.rank [] locks

namespace InOrder

theorem critical (m : Mutex) : InOrder (LockOps.critical m) :=
  .section (by simp) .done

theorem post (toPrivate : Bool) : InOrder (LockOps.post toPrivate) := by
  cases toPrivate with
  | true => exact .done
  | false => exact critical .scheduler

theorem useService {construct destroy : LockOps} (h : InOrder construct)
    {exit : UseServiceExit} (hlost : exit = .lost → destroy = []) :
    InOrder (LockOps.useService construct destroy exit) := by
  cases exit with
  | found => exact critical .registry
  | threw => exact (critical .registry).append h
  | registered => exact (critical .registry).append (h.append (critical .registry))
  | lost =>
    rw [hlost rfl]
    exact (critical .registry).append (h.append (critical .registry))

theorem initTask (starts : Bool) (reactor scheduler : UseServiceExit) :
    InOrder (LockOps.initTask starts reactor scheduler) := by
  have hinside : InOrder (if starts then LockOps.useService (LockOps.constructReactor scheduler) []
      reactor else []) := by
    cases starts with
    | true => exact useService (useService .done fun _ => rfl) fun _ => rfl
    | false => exact .done
  have habove : ∀ m, .acquire m ∈ (if starts then
      LockOps.useService (LockOps.constructReactor scheduler) [] reactor else []) →
      ∀ e ∈ [Mutex.scheduler], e.rank < m.rank := by
    cases starts <;> cases reactor <;> cases scheduler <;>
      simp [LockOps.useService, LockOps.constructReactor, LockOps.critical, Mutex.rank]
  exact .acquire (by simp) (hinside.frame habove (.release_head .done))

theorem startOp (d : Nat) (exit : StartOpExit) : InOrder (LockOps.startOp d exit) := by
  cases exit with
  | null toPrivate => exact post toPrivate
  | rejected toPrivate =>
    have habove : ∀ m, .acquire m ∈ LockOps.post toPrivate →
        ∀ e ∈ [Mutex.descriptor d], e.rank < m.rank := by
      cases toPrivate <;> simp [LockOps.post, LockOps.critical, Mutex.rank]
    exact .acquire (by simp) ((post toPrivate).frame habove (.release_head .done))
  | performed toPrivate => exact (critical _).append (post toPrivate)
  | queued => exact critical _

theorem criticalThenPost (d : Nat) (submits : Option Bool) :
    InOrder (LockOps.criticalThenPost d submits) := by
  refine (critical _).append ?_
  cases submits with
  | none => exact .done
  | some toPrivate => exact post toPrivate

theorem work (io : Option (Nat × Option Bool)) {handler : LockOps} (h : InOrder handler)
    (stops : Bool) : InOrder (LockOps.work io handler stops) := by
  have hio : InOrder (io.elim [] fun r => LockOps.performIo r.1 r.2) := by
    cases io with
    | none => exact .done
    | some r => exact criticalThenPost r.1 r.2
  refine hio.append (h.append ?_)
  cases stops with
  | true => exact critical .scheduler
  | false => exact .done

end InOrder

mutual

theorem Code.inOrder : (code : Code) → code.orderly = true → InOrder code.locks
  | .post toPrivate, _ => .post toPrivate
  | .scheduler, _ => .critical .scheduler
  | .initTask starts reactor scheduler, _ => .initTask starts reactor scheduler
  | .useService construct destroy exit, h => by
    simp only [Code.orderly, Bool.and_eq_true, Bool.or_eq_true, bne_iff_ne, List.isEmpty_iff] at h
    exact .useService (construct.inOrder h.1) fun hlost => h.2.resolve_left (absurd hlost)
  | .registry, _ => .critical .registry
  | .shutdownReactor pending, h => by
    cases pending with
    | false => exact (InOrder.critical .reactor).append .done
    | true => cases h
  | .register d, _ => .critical (.descriptor d)
  | .startOp d exit, _ => .startOp d exit
  | .cancelOps d toPrivate, _ => .criticalThenPost d (some toPrivate)
  | .deregisterDescriptor d submits, _ => .criticalThenPost d submits
  | .deregisterInternalDescriptor d exit, h => by
    cases exit with
    | shut => exact .criticalThenPost d none
    | submits toPrivate => exact .criticalThenPost d (some toPrivate)
    | loops => cases h
  | .run turns, h => .acquire (by simp) (turns.inOrder h)

theorem Turns.inOrder : (turns : Turns) → turns.orderly = true →
    Ordered Mutex.rank [.scheduler] turns.locks
  | .stopped, _ => .release_head .done
  | .wait turns, h | .task turns, h => .release_head (.acquire (by simp) (turns.inOrder h))
  | .work io handler stops turns, h => by
    simp only [Turns.orderly, Bool.and_eq_true] at h
    exact .release_head ((InOrder.work io (handler.inOrder h.1) stops).append
      (.acquire (by simp) (turns.inOrder h.2)))
  | .spliced io handler stops, h =>
    .release_head ((InOrder.work io (handler.inOrder h) stops).append
      (InOrder.critical .scheduler))
  | .threw io handler stops, h => .release_head (InOrder.work io (handler.inOrder h) stops)

theorem Codes.inOrder : (codes : Codes) → codes.orderly = true → InOrder codes.locks
  | .nil, _ => .done
  | .cons code codes, h => by
    simp only [Codes.orderly, Bool.and_eq_true] at h
    exact (code.inOrder h.1).append (codes.inOrder h.2)

end

-- ---------------------------------------------------------------------------
-- Every run
-- ---------------------------------------------------------------------------

/-- However threads interleave that run code of this kind, in every state that
they reach one of them can go on, unless all have ended; and all of them can be
brought to their end. None may call `deregister_internal_descriptor` or
`epoll_reactor::shutdown` with an operation pending, or destroy a service that
`use_service` has constructed in vain and whose destructor takes a mutex. -/
theorem no_deadlock {ι : Type} [DecidableEq ι] [Fintype ι] (code : ι → Codes)
    (hcode : ∀ i, (code i).orderly = true) (c : LockOrder.State ι Mutex)
    (h : Reach LockOrder.next (fun _ _ => True) (LockOrder.start fun i => (code i).locks) c) :
    ((∃ i, (c.thread i).rest ≠ []) → ∃ l c', LockOrder.next c l = some c') ∧
      ∃ ls c', exec LockOrder.next c ls = some c' ∧ (∀ i, (c'.thread i).rest = []) ∧
        ls.length ≤ LockOrder.left c := by
  have hsafe : Safe Mutex.rank c :=
    Reach.invariant h (.start fun i => (code i).inOrder (hcode i))
      fun _ _ _ _ hi _ hn => hi.next hn
  exact ⟨fun ⟨_, hi⟩ => hsafe.exists_next hi, hsafe.completes⟩

/-- The first thread posts under the mutex of a descriptor, and finds that of
the scheduler taken by the second, which calls `init_task`. -/
def meet : Fin 2 → Codes
  | 0 => .cons (.startOp 0 (.rejected false)) .nil
  | 1 => .cons (.initTask true .registered .found) .nil

theorem no_deadlock_meet :
    ∃ c : LockOrder.State (Fin 2) Mutex,
      exec LockOrder.next (LockOrder.start fun i => (meet i).locks) [(0, ()), (1, ())] = some c ∧
      LockOrder.next c (0, ()) = none ∧ ∃ l c', LockOrder.next c l = some c' :=
  ⟨_, rfl, rfl, (no_deadlock meet (by decide) _
    (.of_exec [(0, ()), (1, ())] (allSteps_trivial _ _) rfl)).1 ⟨0, by decide⟩⟩

/-- The first thread destroys a service under the mutex of the registry, and the
destructor stops the scheduler, while the second calls `init_task`. -/
def destroyInVain : Fin 2 → Codes
  | 0 => .cons (.useService .nil (.cons .scheduler .nil) .lost) .nil
  | 1 => .cons (.initTask true .found .found) .nil

/-- They wait for each other. -/
example : ∃ c : LockOrder.State (Fin 2) Mutex,
    exec LockOrder.next (LockOrder.start fun i => (destroyInVain i).locks)
      [(0, ()), (0, ()), (0, ()), (1, ())] = some c ∧
    ∀ i, (LockOrder.next c (i, ())).isNone = true :=
  ⟨_, rfl, by decide⟩

end BoostAsio
