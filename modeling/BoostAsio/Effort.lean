import BoostAsio.StopEnds
import BoostAsio.ThreadPool

/-!
# No thread spins in run()

How many more steps a system can take on its own (`System.effort`): what is
queued, pending or being executed, the interrupt that is pending, the waiters
that have been notified, and the places of the threads. Every step takes
something off, unless it comes from outside (a call of a caller, events of
descriptors, a spurious wakeup, an `epoll_wait` that returns without the
interrupter) or is a turn of the loop that `deregister_internal_descriptor` does
not leave (`effort_next`). So the length of a run is bounded by what comes from
outside and by those turns (`steps_bounded`).

The task goes round through `op_queue_` for ever. Another turn of it that does
not block is paid for by the operation that was in front of it, and one that
blocks by the interrupt that ends it (`frontEffort`).
-/

namespace BoostAsio

open Runs OpQueue

-- ---------------------------------------------------------------------------
-- What each place has to do
-- ---------------------------------------------------------------------------

/-- From the return of `epoll_wait` with 128 events to the loop of `do_run_one`. -/
def reapEffort : Nat := 133

/-- One turn of the task, with the `notify_one` when it is popped. -/
def taskEffort : Nat := reapEffort + 3

/-- `stop`, where `n` threads may wait: each of them wakes and leaves its loop. -/
def stopEffort (n : Nat) : Nat := 2 * n + reapEffort + 1

/-- The critical section of a submission, which may interrupt the reactor. -/
def pushEffort : Nat := reapEffort + 1

/-- An operation that is queued: it is popped and executed, and perhaps the task
is in front then. -/
def opEffort (n : Nat) : Nat := stopEffort n + pushEffort + 8 + taskEffort + 3

def EpollEvent.isDescriptor : EpollEvent → Bool
  | .interrupter => false
  | .descriptor _ _ => true

/-- The rest of a piece of work, or of a turn of the task. A waiter that was
notified counts with the event. -/
def Pc.effort (n : Nat) : Pc → Nat
  | .wait | .runTask true => 0
  | .loop => 1
  | .lock | .taskCleanupLock => 2
  | .taskCleanup | .workCleanupLock _ => 3
  | .events evs => evs.length + opEffort n * evs.countP EpollEvent.isDescriptor + 4
  | .runTask false => reapEffort
  | .workFinished _ => stopEffort n + 4
  | .workCleanup _ => stopEffort n + 5
  | .complete _ => stopEffort n + 6
  | .performIo _ _ => stopEffort n + pushEffort + 7
  | .popped _ => stopEffort n + pushEffort + 8

namespace OpQueue

def size (q : OpQueue Operation) : Nat := (handlers q).length + (descriptors q).length

@[simp] theorem size_nil : size [] = 0 := rfl
@[simp] theorem size_append (q r : OpQueue Operation) : size (q ++ r) = size q + size r := by
  simp only [size, handlers_append, descriptors_append, List.length_append]
  omega
@[simp] theorem size_handlers (ids : List Nat) : size (ids.map .handler) = ids.length := by
  have hnone : descriptors (ids.map .handler) = [] := (HandlersOnly.map ids).descriptors
  simp [size, hnone]
@[simp] theorem size_task (q : OpQueue Operation) : size (.taskOperation :: q) = size q := by
  simp [size]
@[simp] theorem size_handler (id : Nat) (q : OpQueue Operation) :
    size (.handler id :: q) = size q + 1 := by
  simp [size]
  omega
@[simp] theorem size_descriptorState (d : Nat) (q : OpQueue Operation) :
    size (.descriptorState d :: q) = size q + 1 := by
  simp [size]
  omega

/-- The next turn of the task, unless an operation is in front of it. -/
def frontEffort : OpQueue Operation → Nat
  | [] | .taskOperation :: _ => taskEffort
  | .handler _ :: _ | .descriptorState _ :: _ => 0

theorem frontEffort_le (q : OpQueue Operation) : frontEffort q ≤ taskEffort := by
  unfold frontEffort
  split <;> simp

theorem frontEffort_append (q r : OpQueue Operation) : frontEffort (q ++ r) ≤ frontEffort q := by
  cases q with
  | nil => exact frontEffort_le r
  | cons o q => cases o <;> exact Nat.le_refl _

/-- The task in front, where there is one task: with others behind it, its turn
does not block. -/
theorem frontEffort_task {rest : OpQueue Operation} (h : .taskOperation ∉ rest) :
    rest.isEmpty = true ∨ rest.isEmpty = false ∧ frontEffort rest = 0 := by
  cases rest with
  | nil => exact .inl rfl
  | cons o rest => cases o <;> simp_all [frontEffort]

end OpQueue

namespace Event

variable {ι : Type} (e : Event ι)

def woken : Nat := e.waiters - e.blocked.card

@[simp] theorem woken_signalOne : e.signalOne.1.woken = e.woken := by simp [woken]
@[simp] theorem woken_clear : e.clear.woken = e.woken := by simp [woken]
@[simp] theorem woken_signalAll : e.signalAll.woken = e.waiters := by simp [woken]

variable [DecidableEq ι] {i : ι}

theorem woken_enterWait (h : i ∉ e.blocked) : (e.enterWait i).woken = e.woken := by
  simp only [woken, enterWait_waiters, enterWait_blocked, Finset.card_insert_of_notMem h]
  omega

theorem woken_notifyOne (j : ι) : (e.notifyOne j).woken ≤ e.woken + 1 := by
  have := Finset.pred_card_le_card_erase (s := e.blocked) (a := j)
  simp only [woken, notifyOne_waiters, notifyOne_blocked]
  omega

theorem woken_leaveWait (h : i ∉ e.blocked) (hlt : e.blocked.card < e.waiters) :
    (e.leaveWait i).woken + 1 = e.woken := by
  simp only [woken, leaveWait_waiters, leaveWait_blocked, Finset.erase_eq_of_notMem h]
  omega

theorem woken_leaveWait_of_blocked (h : i ∈ e.blocked) : (e.leaveWait i).woken ≤ e.woken := by
  have := Finset.card_erase_of_mem h
  simp only [woken, leaveWait_waiters, leaveWait_blocked]
  omega

end Event

-- ---------------------------------------------------------------------------
-- What a thread and the memory have to do
-- ---------------------------------------------------------------------------

def Call.effort (n : Nat) : Call → Nat
  | .push ops => pushEffort + opEffort n * size ops
  | .stop => stopEffort n
  | .notifyOne => 3
  | .transfer => 0

def Run.effort (n : Nat) (f : Run) : Nat := f.pc.effort n + opEffort n * size f.info.privateOpQueue

def Thread.effort (n : Nat) (t : Thread) : Nat :=
  t.tally (Run.effort n) + t.call.elim 0 (Call.effort n)

variable {ι : Type} {hint : Int} {i : ι} {s s' : Shared ι} {t t' : Thread} {n : Nat}

def Shared.effort (n : Nat) (s : Shared ι) : Nat :=
  opEffort n * (size s.opQueue + s.pending fun _ => 1) + frontEffort s.opQueue +
    (if s.interruptPending then reapEffort else 0) + 2 * s.wakeupEvent.woken

theorem Thread.effort_setTop {f : Run} (ht : t.top = some f) (g : Run) :
    (t.setTop g).effort n + f.effort n = t.effort n + g.effort n := by
  have htally := tally_setTop (g := Run.effort n) ht g
  have hcall : (t.setTop g).call = t.call := rfl
  simp only [effort, hcall]
  omega

theorem Thread.effort_setTop_withCall {f : Run} (ht : t.top = some f) (hc : t.call = none)
    (g : Run) (call : Option Call) :
    effort n { t with top := some g, call } + f.effort n =
      t.effort n + g.effort n + call.elim 0 (Call.effort n) := by
  have hset := effort_setTop (n := n) ht g
  have hcall : (t.setTop g).call = none := hc
  have htally : tally (Run.effort n) { t with top := some g, call } =
      (t.setTop g).tally (Run.effort n) := rfl
  simp only [effort, hcall, hc, htally, Option.elim_none] at hset ⊢
  omega

theorem Thread.effort_leave {f : Run} (ht : t.top = some f) :
    t.leave.effort n + f.effort n = t.effort n := by
  have htally := tally_leave (g := Run.effort n) ht
  have hcall := t.leave_call
  simp only [effort, hcall]
  omega

theorem Thread.effort_withCall (hc : t.call = none) (call : Option Call) :
    effort n { t with call } = t.effort n + call.elim 0 (Call.effort n) := by
  simp [effort, hc, tally]

theorem Thread.effort_setInfo {f : Run} (ht : t.top = some f) (info : ThreadInfo) :
    (t.setTop { f with info }).effort n + opEffort n * size f.info.privateOpQueue =
      t.effort n + opEffort n * size info.privateOpQueue := by
  have := effort_setTop (n := n) ht { f with info }
  simp only [Run.effort] at this
  omega

theorem Shared.effort_congr (h : s'.toScheduler = s.toScheduler)
    (hd : s'.descriptors = s.descriptors) : s'.effort n = s.effort n := by
  rw [effort, effort, pending, pending, h, hd]

/-- The same queue, interrupt and waiters; what is pending on one descriptor
changes. -/
theorem Shared.effort_setDescriptor {d : Nat} {x : DescriptorState} (x' : DescriptorState)
    (hd : s.descriptors[d]? = some x) :
    (s.setDescriptor d x').effort n + opEffort n * x.pendingIds.length =
      s.effort n + opEffort n * x'.pendingIds.length := by
  have hp : (s.setDescriptor d x').pending (fun _ => 1) + weigh (fun _ => 1) x.pendingIds =
      s.pending (fun _ => 1) + weigh (fun _ => 1) x'.pendingIds := Threads.sum_map_set _ x' hd
  have hmul := congrArg (opEffort n * ·) hp
  have hsched : (s.setDescriptor d x').toScheduler = s.toScheduler := rfl
  simp only [weigh_one, Nat.mul_add] at hmul
  rw [effort, effort, hsched, Nat.mul_add, Nat.mul_add]
  omega

/-- Operations are pushed onto `op_queue_`, and perhaps the reactor is
interrupted. -/
theorem Shared.effort_push {q : OpQueue Operation} {b : Bool} (hq : s'.opQueue = s.opQueue ++ q)
    (hi : s'.interruptPending = (s.interruptPending || b))
    (hw : s'.wakeupEvent.woken = s.wakeupEvent.woken) (hd : s'.descriptors = s.descriptors) :
    s'.effort n ≤ s.effort n + opEffort n * size q + if b then reapEffort else 0 := by
  have hfront := frontEffort_append s.opQueue q
  have hp : (if s.interruptPending || b then reapEffort else 0) ≤
      (if s.interruptPending then reapEffort else 0) + if b then reapEffort else 0 := by
    cases s.interruptPending <;> cases b <;> simp
  simp only [effort, pending, hq, hi, hw, hd, size_append, Nat.mul_add]
  omega

theorem Shared.effort_handed {q : OpQueue Operation} (hq : s'.opQueue = s.opQueue ++ q)
    (hi : s'.interruptPending = s.interruptPending)
    (hw : s'.wakeupEvent.woken = s.wakeupEvent.woken) (hd : s'.descriptors = s.descriptors) :
    s'.effort n ≤ s.effort n + opEffort n * size q :=
  effort_push (b := false) hq (by rw [hi, Bool.or_false]) hw hd

theorem Shared.effort_append (x : DescriptorState) :
    Shared.effort n { s with descriptors := s.descriptors ++ [x] } =
      s.effort n + opEffort n * x.pendingIds.length := by
  simp only [effort, pending, List.map_append, List.sum_append, List.map_cons, List.map_nil,
    List.sum_singleton, weigh_one, Nat.mul_add]
  omega

-- ---------------------------------------------------------------------------
-- Calls of a caller
-- ---------------------------------------------------------------------------

/-- A function that submits `k` operations adds what they cost, and one critical
section. -/
structure Submits (n k : Nat) (s : Shared ι) (t : Thread) (r : Shared ι × Thread) : Prop where
  shared : r.1.effort n = s.effort n
  thread : r.2.effort n ≤ t.effort n + opEffort n * k + pushEffort

section Submit

variable (hc : t.call = none)
include hc

theorem submits_push (ids : List Nat) (hs : s'.toScheduler = s.toScheduler)
    (hd : s'.descriptors = s.descriptors) :
    Submits n ids.length s t (s', { t with call := some (.push (ids.map .handler)) }) where
  shared := Shared.effort_congr hs hd
  thread := by
    have hcall := Thread.effort_withCall (n := n) hc (some (.push (ids.map .handler)))
    simp only [Option.elim_some, Call.effort, size_handlers] at hcall
    dsimp only
    omega

omit hc in
theorem submits_private {f : Run} {k : Nat} {info : ThreadInfo} (ht : t.top = some f)
    (hs : s'.toScheduler = s.toScheduler) (hd : s'.descriptors = s.descriptors)
    (hq : size info.privateOpQueue ≤ size f.info.privateOpQueue + k) :
    Submits n k s t (s', t.setTop { f with info }) where
  shared := Shared.effort_congr hs hd
  thread := by
    have hinfo := Thread.effort_setInfo (n := n) ht info
    have := Nat.mul_le_mul_left (opEffort n) hq
    rw [Nat.mul_add] at this
    dsimp only
    omega

theorem postImmediateCompletion_effort {id : Nat} {cont : Bool} {r : Shared ι × Thread}
    (h : postImmediateCompletion hint id cont s t = r) : Submits n 1 s t r := by
  subst h
  unfold postImmediateCompletion
  split
  · rename_i f hf
    exact submits_private (top_of_guard hf) rfl rfl (by simp)
  · exact submits_push hc [id] rfl rfl

theorem postDeferredCompletion_effort {id : Nat} {r : Shared ι × Thread}
    (h : postDeferredCompletion hint id s t = r) : Submits n 1 s t r := by
  subst h
  unfold postDeferredCompletion
  split
  · rename_i f hf
    exact submits_private (top_of_guard hf) rfl rfl (by simp)
  · exact submits_push hc [id] rfl rfl

theorem postDeferredCompletions_effort {ids : List Nat} {r : Shared ι × Thread}
    (h : (postDeferredCompletions hint ids s t).2 = r) : Submits n ids.length s t r := by
  subst h
  unfold postDeferredCompletions
  split
  · rename_i f hf
    exact submits_private (top_of_guard hf) rfl rfl (by simp [OpQueue.splice])
  · exact submits_push hc ids rfl rfl

end Submit

/-- A call of a caller: the operations it makes, and at most one `stop`. The end
of a handler is none. -/
def UserAction.cost (n : Nat) : UserAction → Nat
  | .handlerEnd _ => 0
  | u => opEffort n * u.makes.length + stopEffort n + 3

theorem UserAction.cost_eq {u : UserAction} (h : ∀ thrown, u ≠ .handlerEnd thrown) :
    u.cost n = opEffort n * u.makes.length + stopEffort n + 3 := by
  cases u <;> first | rfl | exact absurd rfl (h _)

theorem Scheduler.initTask_effort (s : Shared ι) {s₁ : Shared ι}
    (hs₁ : s₁ = { s with toScheduler := s.toScheduler.initTask.1 }) :
    s₁.effort n ≤ s.effort n + reapEffort ∧
      s.toScheduler.initTask.2.elim 0 (Call.effort n) ≤ 3 := by
  rcases s.toScheduler.initTask_cases with he | ⟨-, he, hcall⟩
  · rw [hs₁, he]
    exact ⟨Nat.le_add_right _ _, Nat.zero_le _⟩
  · rw [he] at hs₁
    rw [hcall]
    constructor
    · have hpush : s₁.effort n ≤ s.effort n + opEffort n * size [.taskOperation] + reapEffort :=
        Shared.effort_push (b := true) (by rw [hs₁]) (by rw [hs₁]; simp) (by rw [hs₁]; simp)
          (by rw [hs₁])
      simpa using hpush
    · split <;> simp [Call.effort]

/-- `start_op` posts its operation, or leaves it pending. -/
theorem startOp_effort {d : Nat} {x : DescriptorState} (hd : s.descriptors[d]? = some x)
    (ty : OpType) (op : ReactorOp) (spec : Bool) (f : PerformFunc) (ctl : ErrorCode) :
    match (x.startOp ty op spec f ctl).exit with
    | .posted _ => (s.setDescriptor d (x.startOp ty op spec f ctl).data).effort n = s.effort n
    | .queued => (s.setDescriptor d (x.startOp ty op spec f ctl).data).effort n =
        s.effort n + opEffort n := by
  have hset := Shared.effort_setDescriptor (n := n) (x.startOp ty op spec f ctl).data hd
  have hp := x.startOp_pending ty op spec f ctl
  split <;> rename_i he <;> rw [he] at hp
  · rw [hp.2] at hset
    exact Nat.add_right_cancel hset
  · have hlen := weigh_eq_of_count (w := fun _ => 1) hp
    rw [weigh_one, weigh_one, List.length_cons] at hlen
    rw [hlen, Nat.mul_add] at hset
    omega

theorem userStep_effort (hu : t.inUserCode = true) {u : UserAction}
    (h : userStep hint s t u = some (s', t')) :
    s'.effort n + t'.effort n + 1 ≤ s.effort n + t.effort n + u.cost n := by
  have hc := (Thread.inUserCode_works hu).1
  have hpush : pushEffort ≤ stopEffort n := by simp [pushEffort, stopEffort]
  -- what the call makes of the memory, of the queues, and of the calls
  have posts {k : Nat} {s₁ : Shared ι} {r : Shared ι × Thread} (he : r = (s', t'))
      (hr : Submits n k s₁ t r) (hu : ∀ thrown, u ≠ .handlerEnd thrown)
      (hs₁ : s₁.effort n + opEffort n * k ≤ s.effort n + opEffort n * u.makes.length) :
      s'.effort n + t'.effort n + 1 ≤ s.effort n + t.effort n + u.cost n := by
    subst he
    rw [UserAction.cost_eq hu]
    have hshared : s'.effort n = s₁.effort n := hr.shared
    have hthread : t'.effort n ≤ t.effort n + opEffort n * k + pushEffort := hr.thread
    omega
  have quiet (hu : ∀ thrown, u ≠ .handlerEnd thrown)
      (hs' : s'.effort n ≤ s.effort n + opEffort n * u.makes.length)
      (ht' : t'.effort n ≤ t.effort n + stopEffort n) :
      s'.effort n + t'.effort n + 1 ≤ s.effort n + t.effort n + u.cost n := by
    rw [UserAction.cost_eq hu]
    omega
  have stops : Thread.effort n { t with call := some .stop } ≤ t.effort n + stopEffort n :=
    (Thread.effort_withCall hc _).le
  have same : t.effort n ≤ t.effort n + stopEffort n := Nat.le_add_right _ _
  have cancels {d : Nat} {x x' : DescriptorState} {ids : List Nat}
      (he : (postDeferredCompletions hint ids (s.setDescriptor d x') t).2 = (s', t'))
      (hd : s.descriptors[d]? = some x) (hx' : x'.pendingIds = []) (hids : ids = x.pendingIds)
      (hu : ∀ thrown, u ≠ .handlerEnd thrown) :
      s'.effort n + t'.effort n + 1 ≤ s.effort n + t.effort n + u.cost n := by
    refine posts he (postDeferredCompletions_effort hc rfl) hu ?_
    have hset := Shared.effort_setDescriptor (n := n) x' hd
    rw [hx', List.length_nil, Nat.mul_zero, Nat.add_zero, ← hids] at hset
    omega
  cases userStep_piece hu h with
  | onWorkStarted | restart | cancelOpsNull | deregisterNull | deregisterShut
  | deregisterInternalNull | deregisterInternalShut =>
    exact quiet (by simp) (Nat.le_add_right _ _) same
  | deregisterInternalLoops =>
    exact quiet (by simp) (Nat.le_add_right _ _)
      ((Thread.effort_withCall hc _).le.trans (Nat.add_le_add_left (Nat.zero_le _) _))
  | onWorkFinished =>
    refine quiet (by simp) (Nat.le_add_right _ _) ?_
    split
    · exact stops
    · exact same
  | @doDispatch id => exact posts rfl (submits_push hc [id] rfl rfl) (by simp) le_rfl
  | postImmediate _ h => exact posts h (postImmediateCompletion_effort hc rfl) (by simp) le_rfl
  | postDeferred _ h => exact posts h (postDeferredCompletion_effort hc rfl) (by simp) le_rfl
  | postAllDeferred _ h => exact posts h (postDeferredCompletions_effort hc rfl) (by simp) le_rfl
  | stop | runWithoutWork => exact quiet (by simp) (Nat.le_add_right _ _) stops
  | initTask =>
    obtain ⟨hs, hcall⟩ := Scheduler.initTask_effort (n := n) s rfl
    have hthread := Thread.effort_withCall (n := n) hc s.toScheduler.initTask.2
    rw [UserAction.cost_eq (by simp), stopEffort]
    omega
  | run ht =>
    refine quiet (by simp) (Nat.le_add_right _ _) ?_
    have hrun : Thread.effort n { t with top := some {} } = t.effort n + 2 := by
      simp [Thread.effort, Thread.tally, ht, Run.effort, Pc.effort]
      omega
    rw [hrun, stopEffort, reapEffort]
    omega
  | @nest f id ht hpc =>
    refine quiet (by simp) (Nat.le_add_right _ _) ?_
    have hrun : Thread.effort n { t with
        top := some {}, stack := ⟨f.info, id, f.n⟩ :: t.stack } = t.effort n + 2 := by
      simp [Thread.effort, Thread.tally, ht, hpc, Run.effort, Pc.effort, Suspended.resume]
      omega
    rw [hrun, stopEffort, reapEffort]
    omega
  | @registerDescriptor fd ctl =>
    refine quiet (by simp) ?_ same
    have happ := Shared.effort_append (n := n) (s := s) (DescriptorState.register fd ctl).1
    rw [DescriptorState.register_pending] at happ
    exact happ.le
  | @registerInternal ty fd op ctl =>
    refine quiet (by simp) ?_ same
    have happ := Shared.effort_append (n := n) (s := s)
      (DescriptorState.registerInternal ty fd op ctl).1
    rw [DescriptorState.registerInternal_pending] at happ
    exact happ.le
  | startOpNull _ h => exact posts h (postImmediateCompletion_effort hc rfl) (by simp) le_rfl
  | @startOp d x ty op cont spec f ctl _ _ _ hd h =>
    have hset := startOp_effort (n := n) (s := { s with created := s.created ++ [op.id] }) hd
      ty op spec f ctl
    split at h <;> rename_i he <;> rw [he] at hset
    · exact posts h (postImmediateCompletion_effort hc rfl) (by simp)
        (Nat.add_le_add_right hset.le _)
    · cases h
      exact quiet (by simp) (hset.le.trans (Nat.add_le_add_left (Nat.mul_one _).ge _)) same
  | @cancelOps d x _ _ hd h =>
    exact cancels h hd x.cancelOps_pending.1 x.cancelOps_pending.2 (by simp)
  | deregister hd he h =>
    obtain ⟨hx, hids⟩ := DescriptorState.deregister_pending he
    exact cancels h hd hx hids (by simp)
  | deregisterInternal hd hr h =>
    obtain ⟨hx, hempty, rfl⟩ := DescriptorState.deregisterInternal_pending hr
    exact cancels h hd (hx.trans hempty) hempty.symm (by simp)
  | @handlerEnd f id thrown ht hpc =>
    have hgo := Thread.effort_setTop (n := n) ht { f with pc := .workCleanup thrown }
    simp only [Run.effort, hpc, Pc.effort] at hgo
    have hs' : Shared.effort n { s with executed := s.executed ++ [id] } = s.effort n := rfl
    rw [hs', UserAction.cost]
    omega

-- ---------------------------------------------------------------------------
-- run and do_run_one
-- ---------------------------------------------------------------------------

section RunStep

variable {f : Run} (ht : t.top = some f)
include ht

/-- A `run()` goes on, with as much in its private queue. -/
theorem Thread.effort_goOn (g : Run)
    (hq : size g.info.privateOpQueue = size f.info.privateOpQueue)
    (h : g.pc.effort n + 1 ≤ f.pc.effort n) : (t.setTop g).effort n + 1 ≤ t.effort n := by
  have hset := effort_setTop (n := n) ht g
  simp only [Run.effort, hq] at hset
  omega

/-- The same, and its private queue has been emptied. -/
theorem Thread.effort_emptied (g : Run) (hq : g.info.privateOpQueue = [])
    (h : g.pc.effort n + 1 ≤ f.pc.effort n) :
    (t.setTop g).effort n + opEffort n * size f.info.privateOpQueue + 1 ≤ t.effort n := by
  have hset := effort_setTop (n := n) ht g
  simp only [Run.effort, hq, size_nil, Nat.mul_zero] at hset
  omega

theorem endOfWork_effort {thrown : Bool} (hpc : f.pc = .workCleanupLock thrown) (s₁ : Shared ι)
    {f₁ : Run} (hempty : f₁.info.privateOpQueue = []) :
    (endOfWork s₁ f₁ t thrown).1.effort n = s₁.effort n ∧
      (endOfWork s₁ f₁ t thrown).2.effort n + opEffort n * size f.info.privateOpQueue + 1 ≤
        t.effort n := by
  cases thrown with
  | true =>
    have hleave := Thread.effort_leave (n := n) ht
    simp only [Run.effort, hpc, Pc.effort] at hleave
    refine ⟨rfl, ?_⟩
    simp only [endOfWork, if_true]
    omega
  | false =>
    refine ⟨rfl, Thread.effort_emptied ht _ hempty ?_⟩
    rw [hpc]
    exact le_rfl

omit ht in
/-- An event of a descriptor may push the descriptor state onto the private
queue. -/
theorem storeEvent_size (s : Shared ι) (f : Run) (ev : EpollEvent) :
    (storeEvent s f ev).1.effort n = s.effort n ∧
      size (storeEvent s f ev).2.privateOpQueue ≤
        size f.info.privateOpQueue + if ev.isDescriptor then 1 else 0 := by
  have same {d : Nat} {x x' : DescriptorState} (hd : s.descriptors[d]? = some x)
      (hx : x'.pendingIds = x.pendingIds) : (s.setDescriptor d x').effort n = s.effort n := by
    have hdesc := Shared.effort_setDescriptor (n := n) x' hd
    rw [hx] at hdesc
    exact Nat.add_right_cancel hdesc
  cases ev with
  | interrupter => exact ⟨rfl, Nat.le_add_right _ _⟩
  | descriptor d events =>
    simp only [storeEvent]
    split
    · exact ⟨rfl, Nat.le_add_right _ _⟩
    · rename_i x hd
      split
      · exact ⟨same hd rfl, Nat.le_add_right _ _⟩
      · exact ⟨same hd rfl, by simp [EpollEvent.isDescriptor]⟩

theorem storeEvent_effort {ev : EpollEvent} {evs : List EpollEvent}
    (hpc : f.pc = .events (ev :: evs)) :
    (t.setTop { f with info := (storeEvent s f ev).2, pc := .events evs }).effort n + 1 ≤
      t.effort n := by
  have hset := Thread.effort_setTop (n := n) ht
    { f with info := (storeEvent s f ev).2, pc := .events evs }
  have hsize := Nat.mul_le_mul_left (opEffort n) (storeEvent_size (n := n) s f ev).2
  simp only [Run.effort, hpc, Pc.effort, List.length_cons, List.countP_cons, Nat.mul_add] at hset
  rw [Nat.mul_add] at hsize
  omega

end RunStep

/-- The operation in front is popped, or the task, which is there once. -/
theorem popFront_effort {o : Operation} {rest : OpQueue Operation} (hq : s.opQueue = o :: rest)
    (hone : s.opQueue.count .taskOperation ≤ 1) {s₁ : Shared ι}
    (hs₁ : s₁ = { s with toScheduler := (s.toScheduler.popFront hint o rest).1 }) :
    s₁.effort n + Pc.effort n (if o = .taskOperation then .runTask rest.isEmpty else .popped o) +
      (s.toScheduler.popFront hint o rest).2.elim 0 (Call.effort n) ≤ s.effort n := by
  have hcall : (s.toScheduler.popFront hint o rest).2.elim 0 (Call.effort n) ≤
      if rest.isEmpty then 0 else 3 := by
    rw [Scheduler.popFront_snd]
    cases hrest : rest.isEmpty <;> simp [Scheduler.signals, hrest]
    split <;> simp [Call.effort]
  have hwoken : s₁.wakeupEvent.woken = s.wakeupEvent.woken := by
    rw [hs₁, Scheduler.popFront_fst]
    dsimp only
    split <;> simp
  have hs : s₁.effort n + frontEffort s.opQueue + opEffort n * size s.opQueue =
      s.effort n + frontEffort rest + opEffort n * size rest := by
    simp only [Shared.effort, Shared.pending, hwoken, Nat.mul_add]
    rw [hs₁, Scheduler.popFront_fst]
    dsimp only
    omega
  have hle := frontEffort_le rest
  by_cases ho : o = .taskOperation
  · subst ho
    have hmem : .taskOperation ∉ rest := by
      rw [hq, List.count_cons_self] at hone
      exact List.count_eq_zero.mp (by omega)
    have hfront : frontEffort s.opQueue = taskEffort := by rw [hq, frontEffort]
    have hsize : size s.opQueue = size rest := by rw [hq, size_task]
    rw [hfront, hsize] at hs
    -- alone, the task blocks; else its turn is paid for by what is behind it
    rcases frontEffort_task hmem with he | ⟨he, hzero⟩
    · simp only [he, if_true, Pc.effort] at hcall ⊢
      omega
    · simp only [he, hzero, if_true, if_false, Bool.false_eq_true, Pc.effort, taskEffort]
        at hcall hs ⊢
      omega
  · have hsize : size s.opQueue = size rest + 1 := by
      rw [hq]
      cases o <;> simp_all
    have hthree : (if rest.isEmpty then 0 else 3) ≤ 3 := by split <;> decide
    rw [hsize, Nat.mul_add, Nat.mul_one] at hs
    simp only [ho, if_false, Pc.effort]
    simp only [opEffort] at hs ⊢
    omega

section RunStep

variable {f : Run} (ht : t.top = some f)
include ht

theorem runStep_effort [DecidableEq ι] (hl : t.LockState) (hc : t.call = none)
    (hblocked : i ∈ s.wakeupEvent.blocked → t.waits = true)
    (hone : s.opQueue.count .taskOperation ≤ 1) (h : runStep hint i s f t = some (s', t')) :
    s'.effort n + t'.effort n + 1 ≤ s.effort n + t.effort n := by
  have moves (hs : s'.effort n = s.effort n) (ht' : t'.effort n + 1 ≤ t.effort n) :
      s'.effort n + t'.effort n + 1 ≤ s.effort n + t.effort n := by omega
  have leaves {s₁ : Shared ι} (hs : s₁.effort n = s.effort n) (hpos : 1 ≤ f.pc.effort n) :
      s₁.effort n + t.leave.effort n + 1 ≤ s.effort n + t.effort n := by
    have hleave := Thread.effort_leave (n := n) ht
    rw [Run.effort] at hleave
    omega
  have hands {s₁ : Shared ι} {t₁ : Thread}
      (hs₁ : s₁.effort n ≤ s.effort n + opEffort n * size f.info.privateOpQueue)
      (ht₁ : t₁.effort n + opEffort n * size f.info.privateOpQueue + 1 ≤ t.effort n) :
      s₁.effort n + t₁.effort n + 1 ≤ s.effort n + t.effort n := by omega
  have pops {o : Operation} {rest : OpQueue Operation} {s₁ : Shared ι} {t₁ : Thread}
      (hpc : f.pc = .loop) (hq : s.opQueue = o :: rest)
      (hs₁ : s₁ = { s with toScheduler := (s.toScheduler.popFront hint o rest).1 })
      (ht₁ : t₁ = { t with
        top := some { f with
          owns := false
          pc := if o = .taskOperation then .runTask rest.isEmpty else .popped o }
        call := (s.toScheduler.popFront hint o rest).2 }) :
      s₁.effort n + t₁.effort n + 1 ≤ s.effort n + t.effort n := by
    have hpop := popFront_effort (n := n) hq hone hs₁
    have hgo := Thread.effort_setTop_withCall (n := n) ht hc { f with
      owns := false
      pc := if o = .taskOperation then .runTask rest.isEmpty else .popped o }
      (s.toScheduler.popFront hint o rest).2
    have hloop : Pc.loop.effort n = 1 := rfl
    rw [← ht₁, Run.effort, Run.effort, hpc, hloop] at hgo
    dsimp only at hgo
    omega
  cases runStep_piece h with
  | lock hpc | batchEnd hpc | taskMerge hpc | performIo hpc | workMerge hpc =>
    exact moves rfl (Thread.effort_goOn ht _ rfl (by simp [hpc, Pc.effort]))
  | complete hpc | taskCompleted hpc =>
    refine moves rfl (Thread.effort_goOn ht _ rfl ?_)
    simp only [hpc, Pc.effort]
    omega
  | misuse ho =>
    have hpc : f.pc = .lock := (hl.misuse_at_lock ht ho).1
    exact leaves rfl (by simp [hpc, Pc.effort])
  | returns hpc => exact leaves rfl (by simp [hpc, Pc.effort])
  | wait hpc =>
    have hi : i ∉ s.wakeupEvent.blocked := fun hi => by
      have hw := hblocked hi
      simp [Thread.waits, Thread.phase_of_top ht, hpc] at hw
    have hwoken : (s.toScheduler.clearAndWait i).wakeupEvent.woken = s.wakeupEvent.woken := by
      simpa [Scheduler.clearAndWait, Scheduler.unlock] using
        s.wakeupEvent.clear.woken_enterWait (i := i) (by simpa using hi)
    refine moves ?_ (Thread.effort_goOn ht _ rfl (by simp [hpc, Pc.effort]))
    simp only [Shared.effort, Shared.pending, hwoken]
    rfl
  | pop hpc ho hs hq => exact pops hpc hq rfl rfl
  | @store ev evs hpc => exact moves (storeEvent_size s f ev).1 (storeEvent_effort ht hpc)
  | taskCleanup hpc =>
    refine hands ?_ (Thread.effort_emptied ht _ rfl (by simp [hpc, Pc.effort]))
    have hsize : size (f.info.privateOpQueue ++ [.taskOperation]) = size f.info.privateOpQueue := by
      simp
    rw [← hsize]
    exact Shared.effort_handed (List.append_assoc _ _ _) rfl rfl rfl
  | @workFinished thrown t₁ hpc ht₁ =>
    have hgo := Thread.effort_setTop (n := n) ht { f with pc := .workCleanupLock thrown }
    rw [← ht₁] at hgo
    simp only [Run.effort, hpc, Pc.effort] at hgo
    refine moves rfl ?_
    split
    · have hcall := Thread.effort_withCall (n := n) (t := t₁) (by rw [ht₁]; exact hc) (some .stop)
      simp only [Option.elim_some, Call.effort] at hcall
      omega
    · omega
  | finished hpc hq =>
    obtain ⟨hs, ht'⟩ := endOfWork_effort (n := n) ht hpc s hq
    exact moves hs (by omega)
  | @spliced thrown s₁ f₁ hpc _ _ _ hs₁ hf₁ =>
    have hempty : f₁.info.privateOpQueue = [] := by rw [hf₁]
    obtain ⟨hs, ht'⟩ := endOfWork_effort (n := n) ht hpc s₁ hempty
    refine hands (hs.le.trans ?_) ht'
    subst hs₁
    exact Shared.effort_handed rfl rfl rfl rfl

/-- What comes from outside with the events of a batch: the events of
descriptors, and the return of a blocked `epoll_wait` unless it is the pending
interrupt that ends it. -/
def batchCost (n : Nat) (interrupted polls : Bool) (evs : List EpollEvent) : Nat :=
  opEffort n * evs.countP EpollEvent.isDescriptor +
    if polls && !(interrupted && evs.contains .interrupter) then reapEffort else 0

theorem epollWaitStep_effort {evs : List EpollEvent}
    (h : epollWaitStep s f t evs = some (s', t')) :
    s'.effort n + t'.effort n + 1 ≤
      s.effort n + t.effort n + batchCost n s.interruptPending t.polls evs := by
  simp only [epollWaitStep] at h
  split at h
  · rename_i block hpc
    simp only [Option.ite_none_right_eq_some] at h
    obtain ⟨⟨hlen, -⟩, h⟩ := h
    cases h
    have hgo := Thread.effort_setTop (n := n) ht { f with pc := .events evs }
    have hpolls : t.polls = block := by
      cases block <;> simp [Thread.polls, Thread.phase_of_top ht, hpc]
    have hevents : (Pc.events evs).effort n =
        evs.length + opEffort n * evs.countP EpollEvent.isDescriptor + 4 := rfl
    have hpays : Pc.effort n (.runTask block) + (if s.interruptPending then reapEffort else 0) +
        (if block && !(s.interruptPending && evs.contains .interrupter) then reapEffort else 0) ≥
        (if s.interruptPending && !evs.contains .interrupter then reapEffort else 0) +
          reapEffort := by
      cases block <;> cases s.interruptPending <;> cases evs.contains .interrupter <;>
        simp [Pc.effort]
    rw [Run.effort, Run.effort, hpc, hevents] at hgo
    simp only [Shared.effort, Shared.pending, batchCost, hpolls]
    have hreap : reapEffort = 133 := rfl
    dsimp only at hgo
    omega
  · cases h

theorem performIoStep_effort {perform : PerformFunc} (hc : t.call = none)
    (h : performIoStep hint s f t perform = some (s', t')) :
    s'.effort n + t'.effort n + 1 ≤ s.effort n + t.effort n := by
  simp only [performIoStep] at h
  split at h
  · rename_i d events hpc
    obtain ⟨x, hlock, h⟩ := Option.map_eq_some_iff.mp h
    have hd := (Shared.lockDescriptor_eq_some.mp hlock).2
    have hround := x.performIo_round events perform
    have hlen : (x.performIo events perform).data.pendingIds.length +
        (x.performIo events perform).ops.length = x.pendingIds.length := by
      have hcount (a : Nat) : ((x.performIo events perform).data.pendingIds ++
          (x.performIo events perform).ops.map ReactorOp.id).count a = x.pendingIds.count a := by
        rw [List.count_append, hround.count a]
      have hw := weigh_eq_of_count (w := fun _ => 1) hcount
      rwa [weigh_append, weigh_one, weigh_one, weigh_one, List.length_map] at hw
    have hset : (Shared.setDescriptor
        { s with due := Function.update s.due d (s.due d &&& ~~~events) } d
          (x.performIo events perform).data).effort n +
        opEffort n * (x.performIo events perform).ops.length = s.effort n := by
      have hdesc := Shared.effort_setDescriptor (n := n)
        (s := { s with due := Function.update s.due d (s.due d &&& ~~~events) })
        (x.performIo events perform).data hd
      rw [← hlen, Nat.mul_add] at hdesc
      have hdue : Shared.effort n
          { s with due := Function.update s.due d (s.due d &&& ~~~events) } = s.effort n := rfl
      omega
    generalize Shared.setDescriptor
      { s with due := Function.update s.due d (s.due d &&& ~~~events) } d
        (x.performIo events perform).data = s₁ at h hset
    generalize (x.performIo events perform).ops = ops at h hset
    cases ops with
    | nil =>
      cases h
      have hgo : Pc.effort n (.workCleanup false) + 1 ≤ f.pc.effort n := by
        simp only [hpc, Pc.effort]
        omega
      rw [Nat.add_assoc]
      exact Nat.add_le_add hset.le (Thread.effort_goOn ht _ rfl hgo)
    | cons first rest =>
      have hgo := Thread.effort_setTop (n := n) ht { f with pc := .complete first.id }
      simp only [Run.effort, hpc, Pc.effort] at hgo
      rw [List.length_cons, Nat.mul_add] at hset
      cases rest with
      | nil =>
        cases h
        have hs₁ : Shared.effort n { s₁ with handed := s₁.handed ++ [first.id] } =
          s₁.effort n := rfl
        omega
      | cons second rest =>
        have hsub : Submits n ((second :: rest).map ReactorOp.id).length
            { s₁ with handed := s₁.handed ++ [first.id] }
            (t.setTop { f with pc := .complete first.id }) (s', t') :=
          postDeferredCompletions_effort (by exact hc) h
        have hshared : s'.effort n = s₁.effort n := hsub.shared
        have hthread := hsub.thread
        rw [List.length_map] at hthread
        dsimp only at hthread
        omega
  · cases h

end RunStep

-- ---------------------------------------------------------------------------
-- Every step
-- ---------------------------------------------------------------------------

def outside [DecidableEq ι] (n : Nat) (i : ι) (s : Shared ι) (t : Thread) : Action ι → Nat
  | .user u => u.cost n
  | .wake => if i ∈ s.wakeupEvent.blocked then 2 else 0
  | .epollWait evs => batchCost n s.interruptPending t.polls evs
  | .call | .notify _ | .next | .performIo _ => 0

/-- A turn of the loop in a `deregister_internal_descriptor` that does not
return: all that its thread ever does again. -/
def Thread.turns (t : Thread) : Nat :=
  match t.call with
  | some .transfer => 1
  | _ => 0

theorem Thread.turns_eq_zero : t.turns = 0 ↔ t.call ≠ some .transfer := by
  unfold turns
  split
  · rename_i hcall
    simp [hcall]
  · rename_i hcall
    simpa using hcall

/-- What a step needs to know of the threads that wait, of which there are `n`
at most. -/
structure WaitersKnown (n : Nat) (i : ι) (s : Shared ι) (t : Thread) : Prop where
  blocked : i ∈ s.wakeupEvent.blocked → t.waits = true
  woken : t.waits = true → i ∉ s.wakeupEvent.blocked →
    s.wakeupEvent.blocked.card < s.wakeupEvent.waiters
  waiters_le : s.wakeupEvent.waiters ≤ n

theorem callStep_effort {s₁ : Shared ι} {call' : Option Call} {call : Call}
    (hcall : t.call = some call)
    (h : s₁.effort n + call'.elim 0 (Call.effort n) + 1 ≤ s.effort n + call.effort n) :
    s₁.effort n + Thread.effort n { t with call := call' } + 1 ≤ s.effort n + t.effort n := by
  have htally : Thread.tally (Run.effort n) { t with call := call' } =
    t.tally (Run.effort n) := rfl
  simp only [Thread.effort, htally, hcall, Option.elim_some]
  omega

theorem push_effort {ops : OpQueue Operation} {s₁ : Shared ι}
    (hs₁ : s₁ = { s with
      toScheduler := (s.toScheduler.push ops).1, handed := s.handed ++ handlers ops }) :
    s₁.effort n + (s.toScheduler.push ops).2.elim 0 (Call.effort n) + 1 ≤
      s.effort n + Call.effort n (.push ops) := by
  have hpush : s₁.effort n ≤
      s.effort n + opEffort n * size ops + if s.toScheduler.interrupts then reapEffort else 0 :=
    Shared.effort_push (by rw [hs₁, Scheduler.push_fst]) (by rw [hs₁, Scheduler.push_fst])
      (by rw [hs₁, Scheduler.push_fst]; simp) (by rw [hs₁])
  rw [Scheduler.push_snd]
  simp only [Call.effort, pushEffort]
  -- a waiter is notified, or else the reactor is interrupted
  by_cases hpos : 0 < s.wakeupEvent.waiters
  · have hnone : s.toScheduler.interrupts = false := by
      simp [Scheduler.interrupts, Nat.ne_of_gt hpos]
    rw [hnone] at hpush
    simp only [hpos, if_true, Option.elim_some, Call.effort, reapEffort]
    simp only [Bool.false_eq_true, if_false] at hpush
    omega
  · have hle : (if s.toScheduler.interrupts then reapEffort else 0) ≤ reapEffort := by
      split <;> simp
    simp only [hpos, if_false, Option.elim_none]
    omega

theorem stop_effort {s₁ : Shared ι} (hs₁ : s₁ = { s with toScheduler := s.stopAllThreads })
    (hn : s.wakeupEvent.waiters ≤ n) : s₁.effort n + 1 ≤ s.effort n + stopEffort n := by
  have hwoken : s₁.wakeupEvent.woken = s.wakeupEvent.waiters := by
    rw [hs₁, Scheduler.stopAllThreads_eq]
    exact Event.woken_signalAll _
  have hq : s₁.opQueue = s.opQueue := by rw [hs₁, Scheduler.stopAllThreads_eq]
  have hd : s₁.descriptors = s.descriptors := by rw [hs₁]
  have hle : (if s₁.interruptPending then reapEffort else 0) ≤ reapEffort := by split <;> simp
  simp only [Shared.effort, Shared.pending, hq, hd, hwoken, stopEffort]
  omega

/-- A waiter goes on, that was notified or wakes for no reason. -/
theorem wake_effort [DecidableEq ι] (hw : WaitersKnown n i s t) (hwaits : t.waits = true)
    (s₁ : Shared ι) (he : s₁.wakeupEvent.woken = (s.wakeupEvent.leaveWait i).woken)
    (hq : s₁.opQueue = s.opQueue) (hi : s₁.interruptPending = s.interruptPending)
    (hd : s₁.descriptors = s.descriptors) :
    s₁.effort n + 2 ≤ s.effort n + if i ∈ s.wakeupEvent.blocked then 2 else 0 := by
  simp only [Shared.effort, Shared.pending, hq, hi, hd, he]
  by_cases hb : i ∈ s.wakeupEvent.blocked <;> simp only [hb, if_true, if_false]
  · have hle := s.wakeupEvent.woken_leaveWait_of_blocked hb
    omega
  · have hlt := s.wakeupEvent.woken_leaveWait hb (hw.woken hwaits hb)
    omega

theorem step_effort [DecidableEq ι] (hl : t.LockState)
    (hone : s.opQueue.count .taskOperation ≤ 1) (hw : WaitersKnown n i s t) {a : Action ι}
    (h : step hint i a s t = some (s', t')) :
    s'.effort n + t'.effort n + 1 ≤ s.effort n + t.effort n + outside n i s t a + t.turns := by
  have waits {f : Run} (ht : t.top = some f) (hpc : f.pc = .wait) : t.waits = true := by
    simp [Thread.waits, Thread.phase_of_top ht, hpc]
  have paid (hle : s'.effort n + t'.effort n + 1 ≤ s.effort n + t.effort n + outside n i s t a) :
      s'.effort n + t'.effort n + 1 ≤ s.effort n + t.effort n + outside n i s t a + t.turns :=
    hle.trans (Nat.le_add_right _ _)
  cases step_piece h with
  | user hu h => exact paid (userStep_effort hu h)
  | @push ops hcall =>
    refine paid (callStep_effort hcall ?_)
    exact push_effort rfl
  | stop hcall =>
    refine paid (callStep_effort hcall ?_)
    exact stop_effort rfl hw.waiters_le
  | @notify j hcall =>
    refine paid (callStep_effort hcall ?_)
    have hwoken := s.wakeupEvent.woken_notifyOne j
    simp only [Shared.effort, Shared.pending, Call.effort, Option.elim_none]
    omega
  | transfer hcall =>
    have hturn : t.turns = 1 := by simp [Thread.turns, hcall]
    simp only [outside, hturn]
    omega
  | run hc ht h => exact paid (runStep_effort ht hl hc hw.blocked hone h)
  | @wake f hc ht hpc =>
    have hwake := wake_effort (n := n) hw (waits ht hpc)
      { s with wakeupEvent := s.wakeupEvent.leaveWait i, mutex := some i } rfl rfl rfl rfl
    have hgo := Thread.effort_setTop (n := n) ht { f with owns := true, pc := .loop }
    simp only [Run.effort, hpc, Pc.effort] at hgo
    refine paid ?_
    simp only [outside]
    omega
  | waitAgain hc ht hpc =>
    have hwoken : ((s.wakeupEvent.leaveWait i).enterWait i).woken =
        (s.wakeupEvent.leaveWait i).woken :=
      Event.woken_enterWait _ (by simp)
    have hwake := wake_effort (n := n) hw (waits ht hpc)
      { s with wakeupEvent := (s.wakeupEvent.leaveWait i).enterWait i } hwoken rfl rfl rfl
    refine paid ?_
    simp only [outside]
    omega
  | epollWait _ ht h => exact paid (epollWaitStep_effort ht h)
  | performIo hc ht h => exact paid (performIoStep_effort ht hc h)

-- ---------------------------------------------------------------------------
-- Every run
-- ---------------------------------------------------------------------------

namespace System

variable [DecidableEq ι] [Fintype ι] {c c' : System ι} {l : ι × Action ι} {m : Uninitialised}

/-- How many steps are left where nothing comes from outside, at most. -/
def effort (c : System ι) : Nat :=
  Threads.total (Shared.effort (Fintype.card ι)) (Thread.effort (Fintype.card ι)) c

def costs (c : System ι) (l : ι × Action ι) : Nat :=
  outside (Fintype.card ι) l.1 c.shared (c.thread l.1) l.2

omit [DecidableEq ι] in
theorem StopInvariant.waitersKnown (h : StopInvariant c) (i : ι) :
    WaitersKnown (Fintype.card ι) i c.shared (c.thread i) := by
  have hcard : c.shared.wakeupEvent.waiters =
      (Finset.univ.filter fun j => (c.thread j).waits = true).card := by
    rw [h.waiters, Finset.card_filter]
    exact Finset.sum_congr rfl fun j _ => by cases (c.thread j).waits <;> rfl
  refine ⟨h.blocked i, fun hwaits hb => ?_, ?_⟩
  · rw [hcard]
    refine Finset.card_lt_card (Finset.ssubset_iff_of_subset ?_ |>.mpr ⟨i, ?_, hb⟩)
    · exact fun j hj => Finset.mem_filter.mpr ⟨Finset.mem_univ j, h.blocked j hj⟩
    · exact Finset.mem_filter.mpr ⟨Finset.mem_univ i, hwaits⟩
  · rw [hcard]
    exact Finset.card_le_univ _

theorem effort_next (h : StopInvariant c) (hn : System.next hint c l = some c') :
    c'.effort + 1 ≤ c.effort + (c.costs l + (c.thread l.1).turns) := by
  obtain ⟨s, t, hs, rfl⟩ := Threads.next_eq_some.mp hn
  have hone : c.shared.opQueue.count .taskOperation ≤ 1 := by
    have htasks := h.tasks_le
    have htask : c.shared.task.toNat ≤ 1 := Bool.toNat_le _
    simp only [System.tasks, Threads.total] at htasks
    omega
  have hstep := step_effort (h.locks l.1).state hone (h.waitersKnown l.1) hs
  have hsum := Threads.sum_update (Thread.effort (Fintype.card ι)) c.thread l.1 t
  simp only [effort, costs, Threads.total, Threads.set]
  omega

/-- A run from a reachable state is no longer than the effort of the state, what
its steps take from outside, and the turns of threads in a
`deregister_internal_descriptor` that does not return. So no thread goes round
without work in `run()`: the task is run again at once only if an operation was
waiting behind it. -/
theorem steps_bounded (hint : Int) (m : Uninitialised) (c : System ι) (h : Reachable hint m c)
    (ls : List (ι × Action ι)) (c' : System ι) (he : exec (System.next hint) c ls = some c') :
    ls.length + c'.effort ≤
      c.effort +
        (trace (System.next hint) (fun c l => [c.costs l + (c.thread l.1).turns]) c ls).sum :=
  Threads.length_le_of_costs (I := StopInvariant)
    (fun _ _ _ hi hn => ⟨hi.next hn, effort_next hi hn⟩) h.unhindered.toStopInvariant he

theorem steps_bounded_runOne :
    ∃ c : System (Fin 3), exec (System.next 0) (System.new {}) runOne = some c ∧
      runOne.length + c.effort ≤ (System.new {} : System (Fin 3)).effort +
        (trace (System.next 0) (fun c l => [costs c l + (c.thread l.1).turns]) (System.new {})
          runOne).sum :=
  ⟨_, rfl, steps_bounded 0 {} _ .start runOne _ rfl⟩

omit [DecidableEq ι] [Fintype ι] in
/-- A step that is due is no call of a caller. -/
theorem returns_of_due (h : Due c l) : c.shared.Returns l.2 := fun d x ha => by
  simp only [Due, ha] at h

/-- Where a step is due, one is due that takes nothing from outside: `epoll_wait`
may report the pending interrupt and nothing else. -/
theorem exists_due_of_not_resting (h : ¬ Resting hint c) :
    ∃ l c', Due c l ∧ c.costs l = 0 ∧ System.next hint c l = some c' := by
  simp only [Resting, not_forall, ← ne_eq, Option.ne_none_iff_exists'] at h
  obtain ⟨⟨i, a⟩, hd, c', hn⟩ := h
  cases a with
  | user => exact hd.elim
  | call | notify | next | performIo => exact ⟨_, c', hd, rfl, hn⟩
  | wake => exact ⟨_, c', hd, if_neg hd, hn⟩
  | epollWait evs =>
    obtain ⟨s, t, hs, -⟩ := Threads.next_eq_some.mp hn
    cases step_piece hs with
    | @epollWait _ f _ _ hc ht h =>
      simp only [epollWaitStep] at h
      split at h
      · rename_i block hpc
        have hreport : ∃ c', System.next hint c (i, .epollWait [.interrupter]) = some c' := by
          simp [System.next, Threads.next, step, hc, ht, epollWaitStep, hpc]
        obtain ⟨c₁, hn₁⟩ := hreport
        refine ⟨(i, .epollWait [.interrupter]), c₁, hd, ?_, hn₁⟩
        have hev : EpollEvent.interrupter.isDescriptor = false := rfl
        cases hp : (c.thread i).polls with
        | false => simp [costs, outside, batchCost, hp, hev]
        | true =>
          have hi := hd hp
          simp [costs, outside, batchCost, hi, hev]
      · cases h

/-- From every reachable state the threads come to rest by steps that are due
and take nothing from outside, in as many as the effort of the state is, unless
one is in a `deregister_internal_descriptor` that does not return. -/
theorem comes_to_rest (hint : Int) (m : Uninitialised) (c : System ι) (h : Reachable hint m c)
    (hret : CallsReturn c) :
    ∃ ls c', exec (System.next hint) c ls = some c' ∧
      AllSteps (System.next hint) (fun c l => Due c l ∧ c.costs l = 0) c ls ∧ Resting hint c' ∧
      ls.length ≤ c.effort := by
  have hrun : ∃ ls c', exec (System.next hint) c ls = some c' ∧
      AllSteps (System.next hint) (fun c l => Due c l ∧ c.costs l = 0) c ls ∧
      Resting hint c' ∧ ls.length + c'.effort ≤ c.effort := by
    refine exists_exec_of_measure (I := fun c => StopInvariant c ∧ CallsReturn c)
      (fun c hi hr => ?_) ⟨h.unhindered.toStopInvariant, hret⟩
    obtain ⟨l, c', hd, hcost, hn⟩ := exists_due_of_not_resting hr
    have hle := effort_next hi.1 hn
    have hturns : (c.thread l.1).turns = 0 := Thread.turns_eq_zero.mpr (hi.2 l.1)
    rw [hcost, hturns] at hle
    exact ⟨l, c', ⟨hd, hcost⟩, hn, ⟨hi.1.next hn, hi.2.next (returns_of_due hd) hn⟩, hle⟩
  obtain ⟨ls, c', he, hok, hrest, hlen⟩ := hrun
  exact ⟨ls, c', he, hok, hrest, by omega⟩

theorem comes_to_rest_runOne :
    ∃ c : System (Fin 3), exec (System.next 0) (System.new {}) (runOne.take 6) = some c ∧
      ∃ ls c', exec (System.next 0) c ls = some c' ∧
        AllSteps (System.next 0) (fun c l => Due c l ∧ costs c l = 0) c ls ∧ Resting 0 c' ∧
        ls.length ≤ c.effort := by
  have hsubmitted : ∃ c : System (Fin 3),
      exec (System.next 0) (System.new {}) (runOne.take 6) = some c ∧
        ∀ i, (c.thread i).turns = 0 := ⟨_, rfl, by decide⟩
  obtain ⟨c, he, hturns⟩ := hsubmitted
  exact ⟨c, he, comes_to_rest 0 {} c (.of_exec (runOne.take 6) (allSteps_trivial _ _) he)
    fun i => Thread.turns_eq_zero.mp (hturns i)⟩

end System

end BoostAsio
