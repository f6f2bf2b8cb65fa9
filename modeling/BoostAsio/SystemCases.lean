import BoostAsio.System

/-!
# What one step of a thread can do

`step_cases` lists the steps by what they do to the scheduler and to the
control of the thread. The many that only move a thread on inside a handler or
inside a reactor batch are one case, `quiet`: they leave the members of the
scheduler alone and hand nothing but handlers to it. Invariants of the
scheduler are proved from these cases. Those that count the work, the handlers
or the events need more, and are proved from `step_piece`, `userStep_piece` and
`runStep_piece`, one case for each way out of a function. The functions of
`BoostAsio.System` are unfolded here and not there.
-/

namespace BoostAsio

variable {ι : Type} {hint : Int} {i : ι} {t : Thread}

/-- What a place in `run()` means for the scheduler. -/
inductive Phase
  | starting
  | looping
  | waiting
  /-- it has the task and is blocked in `epoll_wait`, if `block` -/
  | polling (block : Bool)
  /-- it has the task, and events in hand -/
  | reaping
  | working
  deriving DecidableEq

def Pc.phase : Pc → Phase
  | .lock => .starting
  | .loop => .looping
  | .wait => .waiting
  | .runTask block => .polling block
  | .events _ | .taskCleanup | .taskCleanupLock => .reaping
  | .popped _ | .performIo _ _ | .complete _ | .workCleanup _ | .workFinished _
  | .workCleanupLock _ => .working

@[simp] theorem Pc.phase_of_lock : Pc.lock.phase = .starting := rfl
@[simp] theorem Pc.phase_of_loop : Pc.loop.phase = .looping := rfl
@[simp] theorem Pc.phase_of_wait : Pc.wait.phase = .waiting := rfl
@[simp] theorem Pc.phase_runTask (block : Bool) : (Pc.runTask block).phase = .polling block := rfl
@[simp] theorem Pc.phase_events (evs : List EpollEvent) : (Pc.events evs).phase = .reaping := rfl
@[simp] theorem Pc.phase_taskCleanup : Pc.taskCleanup.phase = .reaping := rfl
@[simp] theorem Pc.phase_taskCleanupLock : Pc.taskCleanupLock.phase = .reaping := rfl
@[simp] theorem Pc.phase_popped (o : Operation) : (Pc.popped o).phase = .working := rfl
@[simp] theorem Pc.phase_performIo (d : Nat) (events : Events) :
    (Pc.performIo d events).phase = .working := rfl
@[simp] theorem Pc.phase_complete (id : Nat) : (Pc.complete id).phase = .working := rfl
@[simp] theorem Pc.phase_workCleanup (b : Bool) : (Pc.workCleanup b).phase = .working := rfl
@[simp] theorem Pc.phase_workFinished (b : Bool) : (Pc.workFinished b).phase = .working := rfl
@[simp] theorem Pc.phase_workCleanupLock (b : Bool) : (Pc.workCleanupLock b).phase = .working := rfl

theorem Pc.phase_looping {pc : Pc} : pc.phase = .looping ↔ pc = .loop := by
  cases pc <;> simp [Pc.phase]

theorem Pc.phase_starting {pc : Pc} : pc.phase = .starting ↔ pc = .lock := by
  cases pc <;> simp [Pc.phase]

def Thread.phase (t : Thread) : Option Phase := t.top.map fun f => f.pc.phase

@[simp] theorem Thread.phase_mk {f : Run} {stack : List Suspended} {call : Option Call} :
    phase ⟨some f, stack, call⟩ = some f.pc.phase := rfl

@[simp] theorem Thread.phase_setTop {f : Run} : (t.setTop f).phase = some f.pc.phase := rfl

theorem Thread.phase_of_top {f : Run} (h : t.top = some f) : t.phase = some f.pc.phase := by
  simp [phase, h]

theorem Thread.leave_top {f : Run} (h : t.leave.top = some f) :
    ∃ p ∈ t.stack, f = p.resume := by
  simp only [leave] at h
  split at h
  · cases h
  · rename_i p stack hs
    cases h
    exact ⟨p, by simp [hs], rfl⟩

theorem Thread.leave_call (t : Thread) : t.leave.call = t.call := by
  cases hs : t.stack <;> simp [leave, hs]

theorem Thread.mem_of_leave_stack {p : Suspended} (h : p ∈ t.leave.stack) : p ∈ t.stack := by
  simp only [leave] at h
  split at h
  · exact h
  · rename_i hs
    simp [hs, h]

/-- The `run()` that goes on is in the handler that made the call. -/
theorem Thread.leave_phase (t : Thread) : t.leave.phase = none ∨ t.leave.phase = some .working := by
  cases h : t.leave.top with
  | none => exact .inl (by simp [phase, h])
  | some f =>
    obtain ⟨p, -, rfl⟩ := leave_top h
    exact .inr (by rw [phase_of_top h]; rfl)

/-- The private queue of a handler is emptied, or handlers are pushed. -/
def Posts (q q' : OpQueue Operation) : Prop :=
  q' = [] ∨ ∃ ids : List Nat, q' = q ++ ids.map .handler

theorem Posts.refl (q : OpQueue Operation) : Posts q q := .inr ⟨[], by simp⟩

inductive QuietTop : Option Run → Option Run → Prop
  | outside : QuietTop none none
  | working {f f' : Run} : f.pc.phase = .working → f'.pc.phase = .working → f'.owns = f.owns →
      Posts f.info.privateOpQueue f'.info.privateOpQueue → QuietTop (some f) (some f')
  | reaping {f f' : Run} : f.pc.phase = .reaping → f'.pc.phase = .reaping → f'.owns = f.owns →
      f'.info.privateOpQueue = f.info.privateOpQueue → QuietTop (some f) (some f')

theorem QuietTop.phase {t' : Thread} (h : QuietTop t.top t'.top) : t'.phase = t.phase := by
  cases hx : t.top <;> cases hy : t'.top <;> rw [hx, hy] at h <;> cases h <;>
    simp_all [Thread.phase]

def QuietCall (c : Option Call) : Prop :=
  c = none ∨ c = some .stop ∨ c = some .transfer ∨
    ∃ ids : List Nat, c = some (.push (ids.map .handler))

inductive Step [DecidableEq ι] (hint : Int) (i : ι) (s : Scheduler ι) (t : Thread) :
    Action ι → Scheduler ι → Thread → Prop
  | quiet {t' : Thread} : t.call = none → t'.stack = t.stack → QuietTop t.top t'.top →
      QuietCall t'.call → Step hint i s t a s t'
  | stored {f : Run} : t.call = none → t.top = some f → f.pc.phase = .reaping →
      Pc.phase pc = .reaping → Operation.descriptorState d ∉ f.info.privateOpQueue →
      ThreadInfo.privateOpQueue info = f.info.privateOpQueue ++ [.descriptorState d] →
      Step hint i s t a s (t.setTop { f with info, pc })
  | restart : t.call = none → Step hint i s t (.user .restart) s.restart t
  | initTask : t.call = none → s.mutex = none →
      Step hint i s t a s.initTask.1 { t with call := s.initTask.2 }
  | enter : t.call = none → t.top = none →
      Step hint i s t (.user .run) s { t with top := some {} }
  | nest {f : Run} {id : Nat} : t.call = none → t.top = some f → f.pc = .complete id →
      Step hint i s t (.user .run) s
        { t with top := some {}, stack := ⟨f.info, id, f.n⟩ :: t.stack }
  | push : t.call = some (.push ops) → s.mutex = none →
      Step hint i s t a (s.push ops).1 { t with call := (s.push ops).2 }
  | stop : t.call = some .stop → s.mutex = none →
      Step hint i s t a s.stopAllThreads { t with call := none }
  | notify : t.call = some .notifyOne → s.wakeupEvent.blocked = ∅ ∨ j ∈ s.wakeupEvent.blocked →
      Step hint i s t a { s with wakeupEvent := s.wakeupEvent.notifyOne j } { t with call := none }
  | transfer : t.call = some .transfer → Step hint i s t .call s t
  | lock {f : Run} : t.call = none → t.top = some f → f.pc = .lock → f.owns = false →
      s.mutex = none →
      Step hint i s t a { s with mutex := some i } (t.setTop { f with owns := true, pc := .loop })
  | misuse {f : Run} : t.call = none → t.top = some f → f.owns = decide (f.pc ≠ .loop) →
      Step hint i s t a { s with
        lockErrors := s.lockErrors + 1
        exceptions := s.exceptions + 1
        mutex := if f.owns then none else s.mutex } t.leave
  | returns {f : Run} : t.call = none → t.top = some f → f.pc = .loop → s.stopped = true →
      Step hint i s t a { s with mutex := if f.owns then none else s.mutex } t.leave
  | wait {f : Run} : t.call = none → t.top = some f → f.pc = .loop → f.owns = true →
      s.stopped = false → s.opQueue = [] →
      Step hint i s t a (s.clearAndWait i) (t.setTop { f with owns := false, pc := .wait })
  | pop {f : Run} : t.call = none → t.top = some f → f.pc = .loop → f.owns = true →
      s.stopped = false → s.opQueue = o :: rest →
      Step hint i s t a (s.popFront hint o rest).1 { t with
        top := some { f with
          owns := false
          pc := if o = .taskOperation then .runTask (List.isEmpty rest) else .popped o }
        call := (s.popFront hint o rest).2 }
  | taskCleanup {f : Run} : t.call = none → t.top = some f → f.pc = .taskCleanupLock →
      f.owns = false → s.mutex = none →
      Step hint i s t a (s.taskCleanup i f.info.privateOpQueue)
        (t.setTop { f with info.privateOpQueue := [], owns := true, pc := .loop })
  | finished {f : Run} : t.call = none → t.top = some f → f.pc = .workCleanupLock false →
      f.info.privateOpQueue = [] → Step hint i s t a s (t.setTop { f with pc := .lock, n })
  | threw {f : Run} : t.call = none → t.top = some f → f.pc = .workCleanupLock true →
      f.info.privateOpQueue = [] →
      Step hint i s t a { s with
        exceptions := s.exceptions + 1, mutex := if f.owns then none else s.mutex } t.leave
  | spliced {f : Run} : t.call = none → t.top = some f → f.pc = .workCleanupLock false →
      f.info.privateOpQueue ≠ [] → f.owns = false → s.mutex = none →
      Step hint i s t .next (s.workCleanup i f.info.privateOpQueue)
        (t.setTop { f with info.privateOpQueue := [], owns := true, pc := .lock, n })
  | splicedThrew {f : Run} : t.call = none → t.top = some f → f.pc = .workCleanupLock true →
      f.owns = false → s.mutex = none →
      Step hint i s t a { s with
        opQueue := s.opQueue ++ f.info.privateOpQueue, exceptions := s.exceptions + 1 } t.leave
  | wake {f : Run} : t.call = none → t.top = some f → f.pc = .wait → s.mutex = none →
      (s.wakeupEvent.leaveWait i).signalled = true →
      Step hint i s t a { s with wakeupEvent := s.wakeupEvent.leaveWait i, mutex := some i }
        (t.setTop { f with owns := true, pc := .loop })
  | waitAgain {f : Run} : t.call = none → t.top = some f → f.pc = .wait → s.mutex = none →
      (s.wakeupEvent.leaveWait i).signalled = false →
      Step hint i s t a { s with wakeupEvent := (s.wakeupEvent.leaveWait i).enterWait i } t
  | epollWait {f : Run} : t.call = none → t.top = some f → f.pc = .runTask block →
      (pending = true → s.interruptPending = true) →
      Step hint i s t a { s with interruptPending := pending }
        (t.setTop { f with pc := .events evs })

/-- The thread is outside `run()` or in a piece of work of one. -/
def Works (t : Thread) : Prop := ∀ f, t.top = some f → f.pc.phase = .working

theorem Works.quietTop (h : Works t) : QuietTop t.top t.top := by
  cases ht : t.top with
  | none => exact .outside
  | some f => exact .working (h f ht) (h f ht) rfl (.refl _)

/-- Work may have moved on to the place `pc` before. -/
theorem QuietTop.from_pc {f : Run} {pc : Pc} {top : Option Run}
    (h : QuietTop (some { f with pc }) top) (hf : f.pc.phase = .working)
    (hpc : pc.phase = .working) : QuietTop (some f) top := by
  cases h with
  | working _ hg ho hq => exact .working hf hg ho hq
  | reaping hr => rw [hpc] at hr; cases hr

theorem QuietCall.stop : QuietCall (some .stop) := .inr (.inl rfl)

theorem QuietCall.push (ids : List Nat) : QuietCall (some (.push (ids.map .handler))) :=
  .inr (.inr (.inr ⟨ids, rfl⟩))

theorem QuietCall.transfer : QuietCall (some .transfer) := .inr (.inr (.inl rfl))

/-- The private queue is used only inside `run()`. -/
theorem top_of_guard {b : Bool} {top : Option Run} {f : Run}
    (h : (if b then top else none) = some f) : top = some f := by
  cases b with
  | true => exact h
  | false => cases h

-- ---------------------------------------------------------------------------
-- Which piece of code a step is
-- ---------------------------------------------------------------------------

inductive Piece [DecidableEq ι] (hint : Int) (i : ι) (s : Shared ι) (t : Thread) :
    Action ι → Shared ι → Thread → Prop
  | user {s' t'} : t.inUserCode = true → userStep hint s t u = some (s', t') →
      Piece hint i s t (.user u) s' t'
  | push : t.call = some (.push ops) → s.mutex = none →
      Piece hint i s t .call { s with
          toScheduler := (s.toScheduler.push ops).1
          handed := s.handed ++ OpQueue.handlers ops }
        { t with call := (s.toScheduler.push ops).2 }
  | stop : t.call = some .stop → s.mutex = none →
      Piece hint i s t .call { s with toScheduler := s.toScheduler.stopAllThreads }
        { t with call := none }
  | notify : t.call = some .notifyOne → s.wakeupEvent.blocked = ∅ ∨ j ∈ s.wakeupEvent.blocked →
      Piece hint i s t (.notify j) { s with wakeupEvent := s.wakeupEvent.notifyOne j }
        { t with call := none }
  | transfer : t.call = some .transfer → Piece hint i s t .call s t
  | run {f s' t'} : t.call = none → t.top = some f → runStep hint i s f t = some (s', t') →
      Piece hint i s t .next s' t'
  | wake {f : Run} : t.call = none → t.top = some f → f.pc = .wait → s.mutex = none →
      (s.wakeupEvent.leaveWait i).signalled = true →
      Piece hint i s t .wake
        { s with wakeupEvent := s.wakeupEvent.leaveWait i, mutex := some i }
        (t.setTop { f with owns := true, pc := .loop })
  | waitAgain {f : Run} : t.call = none → t.top = some f → f.pc = .wait → s.mutex = none →
      (s.wakeupEvent.leaveWait i).signalled = false →
      Piece hint i s t .wake
        { s with wakeupEvent := (s.wakeupEvent.leaveWait i).enterWait i } t
  | epollWait {f s' t'} : t.call = none → t.top = some f →
      epollWaitStep s f t evs = some (s', t') → Piece hint i s t (.epollWait evs) s' t'
  | performIo {f s' t'} : t.call = none → t.top = some f →
      performIoStep hint s f t perform = some (s', t') →
      Piece hint i s t (.performIo perform) s' t'

variable [DecidableEq ι] {s s' : Shared ι} {t' : Thread}

theorem step_piece {a : Action ι} (h : step hint i a s t = some (s', t')) :
    Piece hint i s t a s' t' := by
  cases a with
  | user u =>
    simp only [step, Option.ite_none_right_eq_some] at h
    exact .user h.1 h.2
  | call =>
    simp only [step, callStep, Option.isNone_iff_eq_none] at h
    split at h
    · rename_i ops hc
      simp only [Option.ite_none_right_eq_some] at h
      cases h.2
      exact .push hc h.1
    · rename_i hc
      simp only [Option.ite_none_right_eq_some] at h
      cases h.2
      exact .stop hc h.1
    · rename_i hc
      cases h
      exact .transfer hc
    · cases h
    · cases h
  | notify j =>
    simp only [step, notifyStep] at h
    split at h
    · rename_i hc
      simp only [Option.ite_none_right_eq_some] at h
      cases h.2
      exact .notify hc h.1
    · cases h
  | next =>
    simp only [step, Option.ite_none_right_eq_some, Option.isNone_iff_eq_none,
      Option.bind_eq_some_iff] at h
    obtain ⟨hc, f, ht, h⟩ := h
    exact .run hc ht h
  | wake =>
    simp only [step, wakeStep, Option.ite_none_right_eq_some, Option.isNone_iff_eq_none,
      Option.bind_eq_some_iff] at h
    obtain ⟨hc, f, ht, ⟨hpc, hm⟩, h⟩ := h
    split at h
    · rename_i hs
      cases h
      exact .wake hc ht hpc hm hs
    · rename_i hs
      cases h
      exact .waitAgain hc ht hpc hm (by simpa using hs)
  | epollWait evs =>
    simp only [step, Option.ite_none_right_eq_some, Option.isNone_iff_eq_none,
      Option.bind_eq_some_iff] at h
    obtain ⟨hc, f, ht, h⟩ := h
    exact .epollWait hc ht h
  | performIo perform =>
    simp only [step, Option.ite_none_right_eq_some, Option.isNone_iff_eq_none,
      Option.bind_eq_some_iff] at h
    obtain ⟨hc, f, ht, h⟩ := h
    exact .performIo hc ht h

-- ---------------------------------------------------------------------------
-- Which piece of code a call of a caller is
-- ---------------------------------------------------------------------------

omit [DecidableEq ι] in
theorem Shared.lockDescriptor_eq_some {d : Nat} {x : DescriptorState} :
    s.lockDescriptor d = some x ↔ d ∉ s.held ∧ s.descriptors[d]? = some x := by
  simp [lockDescriptor]

theorem Thread.inUserCode_works (h : t.inUserCode = true) : t.call = none ∧ Works t := by
  simp only [inUserCode, Bool.and_eq_true, Option.isNone_iff_eq_none] at h
  refine ⟨h.1, fun f hf => ?_⟩
  have h2 := h.2
  simp only [hf] at h2
  cases hpc : f.pc <;> simp [hpc] at h2
  rfl

theorem Thread.inUserCode_top (hu : t.inUserCode = true) {f : Run} (ht : t.top = some f) :
    ∃ id, f.pc = .complete id := by
  simp only [inUserCode, ht, Bool.and_eq_true] at hu
  cases hpc : f.pc <;> simp [hpc] at hu
  exact ⟨_, rfl⟩

/-- The pieces of code behind the calls of a caller, one for each way out of a
function. -/
inductive UserPiece (hint : Int) (s : Shared ι) (t : Thread) :
    UserAction → Shared ι → Thread → Prop
  | onWorkStarted : UserPiece hint s t .onWorkStarted
      { s with
        outstandingWork := increment s.outstandingWork 1, externalWork := s.externalWork + 1 } t
  | onWorkFinished : s.externalWork ≠ 0 → UserPiece hint s t .onWorkFinished
      { s with
        outstandingWork := decrement s.outstandingWork, externalWork := s.externalWork - 1 }
      (if decrement s.outstandingWork = 0 then { t with call := some .stop } else t)
  | doDispatch {id : Nat} : s.fresh [id] = true → UserPiece hint s t (.doDispatch id)
      { s with outstandingWork := increment s.outstandingWork 1, created := s.created ++ [id] }
      { t with call := some (.push [.handler id]) }
  | postImmediate {id : Nat} {cont : Bool} {s' t'} : s.fresh [id] = true →
      postImmediateCompletion hint id cont { s with created := s.created ++ [id] } t = (s', t') →
      UserPiece hint s t (.postImmediateCompletion id cont) s' t'
  | postDeferred {id : Nat} {s' t'} : s.fresh [id] = true →
      postDeferredCompletion hint id { s with created := s.created ++ [id] } t = (s', t') →
      UserPiece hint s t (.postDeferredCompletion id) s' t'
  | postAllDeferred {ids : List Nat} {s' t'} : s.fresh ids = true →
      (postDeferredCompletions hint ids { s with created := s.created ++ ids } t).2 = (s', t') →
      UserPiece hint s t (.postDeferredCompletions ids) s' t'
  | stop : UserPiece hint s t .stop s { t with call := some .stop }
  | restart : s.mutex = none →
      UserPiece hint s t .restart { s with toScheduler := s.toScheduler.restart } t
  | initTask : s.mutex = none → UserPiece hint s t .initTask
      { s with toScheduler := s.toScheduler.initTask.1 } { t with call := s.toScheduler.initTask.2 }
  | runWithoutWork : s.outstandingWork = 0 →
      UserPiece hint s t .run s { t with call := some .stop }
  | run : t.top = none → UserPiece hint s t .run s { t with top := some {} }
  | nest {f : Run} {id : Nat} : t.top = some f → f.pc = .complete id →
      UserPiece hint s t .run s { t with top := some {}, stack := ⟨f.info, id, f.n⟩ :: t.stack }
  | registerDescriptor {fd : Int} {ctl : ErrorCode} :
      UserPiece hint s t (.registerDescriptor fd ctl)
        { s with descriptors := s.descriptors ++ [(DescriptorState.register fd ctl).1] } t
  | registerInternal {ty : OpType} {fd : Int} {op : ReactorOp} {ctl : ErrorCode} :
      s.fresh [op.id] = true → UserPiece hint s t (.registerInternalDescriptor ty fd op ctl)
        { s with
          created := s.created ++ [op.id]
          descriptors := s.descriptors ++ [(DescriptorState.registerInternal ty fd op ctl).1] } t
  | startOpNull {ty : OpType} {op : ReactorOp} {cont spec : Bool} {f : PerformFunc}
      {ctl : ErrorCode} {s' t'} : s.fresh [op.id] = true →
      postImmediateCompletion hint op.id cont { s with created := s.created ++ [op.id] } t =
        (s', t') → UserPiece hint s t (.startOp none ty op cont spec f ctl) s' t'
  | startOp {d : Nat} {x : DescriptorState} {ty : OpType} {op : ReactorOp} {cont spec : Bool}
      {f : PerformFunc} {ctl : ErrorCode} {s' t'} : s.fresh [op.id] = true →
      s.descriptors[d]? = some x →
      (match (x.startOp ty op spec f ctl).exit with
        | .posted op' => postImmediateCompletion hint op'.id cont
            ({ s with created := s.created ++ [op.id] }.setDescriptor d
              (x.startOp ty op spec f ctl).data) t
        | .queued =>
          ({ { s with created := s.created ++ [op.id] }.setDescriptor d
              (x.startOp ty op spec f ctl).data with
            outstandingWork := increment s.outstandingWork 1 }, t)) = (s', t') →
      UserPiece hint s t (.startOp (some d) ty op cont spec f ctl) s' t'
  | cancelOpsNull : UserPiece hint s t (.cancelOps none) s t
  | cancelOps {d : Nat} {x : DescriptorState} {s' t'} : s.descriptors[d]? = some x →
      (postDeferredCompletions hint (x.cancelOps.2.map ReactorOp.id)
        (s.setDescriptor d x.cancelOps.1) t).2 = (s', t') →
      UserPiece hint s t (.cancelOps (some d)) s' t'
  | deregisterNull {closing : Bool} :
      UserPiece hint s t (.deregisterDescriptor none closing) s t
  | deregisterShut {d : Nat} {x x' : DescriptorState} {closing : Bool} :
      s.descriptors[d]? = some x → x.deregister closing = (x', none) →
      UserPiece hint s t (.deregisterDescriptor (some d) closing) s t
  | deregister {d : Nat} {x x' : DescriptorState} {closing : Bool} {ops : List ReactorOp}
      {s' t'} : s.descriptors[d]? = some x → x.deregister closing = (x', some ops) →
      (postDeferredCompletions hint (ops.map ReactorOp.id) (s.setDescriptor d x') t).2 = (s', t') →
      UserPiece hint s t (.deregisterDescriptor (some d) closing) s' t'
  | deregisterInternalNull : UserPiece hint s t (.deregisterInternalDescriptor none) s t
  | deregisterInternalShut {d : Nat} {x x' : DescriptorState} : s.descriptors[d]? = some x →
      x.deregisterInternal = some (x', none) →
      UserPiece hint s t (.deregisterInternalDescriptor (some d)) s t
  | deregisterInternal {d : Nat} {x x' : DescriptorState} {ops : List ReactorOp} {s' t'} :
      s.descriptors[d]? = some x → x.deregisterInternal = some (x', some ops) →
      (postDeferredCompletions hint (ops.map ReactorOp.id) (s.setDescriptor d x') t).2 = (s', t') →
      UserPiece hint s t (.deregisterInternalDescriptor (some d)) s' t'
  | deregisterInternalLoops {d : Nat} {x : DescriptorState} : s.descriptors[d]? = some x →
      x.deregisterInternal = none → UserPiece hint s t (.deregisterInternalDescriptor (some d))
        { s with held := d :: s.held } { t with call := some .transfer }
  | handlerEnd {f : Run} {id : Nat} {thrown : Bool} : t.top = some f → f.pc = .complete id →
      UserPiece hint s t (.handlerEnd thrown) { s with executed := s.executed ++ [id] }
        (t.setTop { f with pc := .workCleanup thrown })

omit [DecidableEq ι] in
theorem userStep_piece (hu : t.inUserCode = true) {u : UserAction}
    (h : userStep hint s t u = some (s', t')) : UserPiece hint s t u s' t' := by
  cases u with
  | onWorkStarted =>
    cases h
    exact .onWorkStarted
  | onWorkFinished =>
    simp only [userStep, Option.ite_none_left_eq_some] at h
    cases h.2
    exact .onWorkFinished h.1
  | doDispatch id =>
    simp only [userStep, Option.ite_none_right_eq_some] at h
    cases h.2
    exact .doDispatch h.1
  | postImmediateCompletion id cont =>
    simp only [userStep, Option.ite_none_right_eq_some] at h
    exact .postImmediate h.1 (Option.some.inj h.2)
  | postDeferredCompletion id =>
    simp only [userStep, Option.ite_none_right_eq_some] at h
    exact .postDeferred h.1 (Option.some.inj h.2)
  | postDeferredCompletions ids =>
    simp only [userStep, Option.ite_none_right_eq_some] at h
    exact .postAllDeferred h.1 (Option.some.inj h.2)
  | stop =>
    cases h
    exact .stop
  | restart =>
    simp only [userStep, Option.ite_none_right_eq_some, Option.isNone_iff_eq_none] at h
    cases h.2
    exact .restart h.1
  | initTask =>
    simp only [userStep, Option.ite_none_right_eq_some, Option.isNone_iff_eq_none] at h
    cases h.2
    exact .initTask h.1
  | run =>
    simp only [userStep] at h
    split at h
    · rename_i hwork
      cases h
      exact .runWithoutWork hwork
    · cases ht : t.top with
      | none =>
        simp only [ht] at h
        cases h
        exact .run ht
      | some f =>
        obtain ⟨id, hpc⟩ := Thread.inUserCode_top hu ht
        obtain ⟨info, owns, pc, n⟩ := f
        cases hpc
        simp only [ht] at h
        cases h
        exact .nest ht rfl
  | registerDescriptor fd ctl =>
    cases h
    exact .registerDescriptor
  | registerInternalDescriptor ty fd op ctl =>
    simp only [userStep, Option.ite_none_right_eq_some] at h
    cases h.2
    exact .registerInternal h.1
  | startOp d ty op cont spec f ctl =>
    cases d with
    | none =>
      simp only [userStep, Option.ite_none_right_eq_some] at h
      exact .startOpNull h.1 (Option.some.inj h.2)
    | some d =>
      simp only [userStep, Option.ite_none_right_eq_some, Option.map_eq_some_iff] at h
      obtain ⟨hfresh, x, hd, h⟩ := h
      exact .startOp hfresh (Shared.lockDescriptor_eq_some.mp hd).2 h
  | cancelOps d =>
    cases d with
    | none =>
      cases h
      exact .cancelOpsNull
    | some d =>
      obtain ⟨x, hd, h⟩ := Option.map_eq_some_iff.mp h
      exact .cancelOps (Shared.lockDescriptor_eq_some.mp hd).2 h
  | deregisterDescriptor d closing =>
    cases d with
    | none =>
      cases h
      exact .deregisterNull
    | some d =>
      obtain ⟨x, hlock, h⟩ := Option.map_eq_some_iff.mp h
      have hd := (Shared.lockDescriptor_eq_some.mp hlock).2
      split at h
      · rename_i he
        exact .deregister hd he h
      · rename_i he
        cases h
        exact .deregisterShut hd he
  | deregisterInternalDescriptor d =>
    cases d with
    | none =>
      cases h
      exact .deregisterInternalNull
    | some d =>
      obtain ⟨x, hlock, h⟩ := Option.map_eq_some_iff.mp h
      have hd := (Shared.lockDescriptor_eq_some.mp hlock).2
      split at h
      · rename_i hr
        exact .deregisterInternal hd hr h
      · rename_i hr
        cases h
        exact .deregisterInternalShut hd hr
      · rename_i hr
        cases h
        exact .deregisterInternalLoops hd hr
  | handlerEnd thrown =>
    simp only [userStep] at h
    split at h
    · rename_i ht
      cases h
      exact .handlerEnd ht rfl
    · cases h

-- ---------------------------------------------------------------------------
-- The functions that submit
-- ---------------------------------------------------------------------------

/-- What a function that submits may make of a thread. -/
structure Submitted (s : Scheduler ι) (t : Thread) (r : Shared ι × Thread) : Prop where
  scheduler : r.1.toScheduler = s
  stack : r.2.stack = t.stack
  top : QuietTop t.top r.2.top
  call : QuietCall r.2.call

section Submitted

omit [DecidableEq ι]

variable {s : Shared ι} {sch : Scheduler ι} (hs : s.toScheduler = sch)
include hs

theorem Submitted.setQueue (hc : t.call = none) {f : Run} (ht : t.top = some f)
    (hf : f.pc.phase = .working) {info : ThreadInfo}
    (hq : Posts f.info.privateOpQueue info.privateOpQueue) :
    Submitted sch t (s, t.setTop { f with info }) :=
  ⟨hs, rfl, ht ▸ .working hf hf rfl hq, .inl hc⟩

theorem Works.withCall (h : Works t) {c : Option Call} (hc : QuietCall c) :
    Submitted sch t (s, { t with call := c }) := ⟨hs, rfl, h.quietTop, hc⟩

theorem Works.same (h : Works t) (hc : t.call = none) : Submitted sch t (s, t) :=
  ⟨hs, rfl, h.quietTop, .inl hc⟩

theorem postImmediateCompletion_submitted (h : Works t) (hc : t.call = none) (id : Nat)
    (cont : Bool) : Submitted sch t (postImmediateCompletion hint id cont s t) := by
  unfold postImmediateCompletion
  split
  · rename_i f hf
    have ht : t.top = some f := top_of_guard hf
    exact .setQueue (by exact hs) hc ht (h f ht) (.inr ⟨[id], by rfl⟩)
  · exact h.withCall (by exact hs) (.push [id])

theorem postDeferredCompletion_submitted (h : Works t) (hc : t.call = none) (id : Nat) :
    Submitted sch t (postDeferredCompletion hint id s t) := by
  unfold postDeferredCompletion
  split
  · rename_i f hf
    have ht : t.top = some f := top_of_guard hf
    exact .setQueue (by exact hs) hc ht (h f ht) (.inr ⟨[id], by rfl⟩)
  · exact h.withCall (by exact hs) (.push [id])

theorem postDeferredCompletions_submitted (h : Works t) (hc : t.call = none) (ids : List Nat) :
    Submitted sch t (postDeferredCompletions hint ids s t).2 := by
  unfold postDeferredCompletions
  split
  · rename_i f hf
    have ht : t.top = some f := top_of_guard hf
    exact .setQueue (by exact hs) hc ht (h f ht) (.inl (by rfl))
  · exact h.withCall (by exact hs) (.push ids)

theorem postDeferredCompletions_after_pc (hc : t.call = none) {f : Run} (ht : t.top = some f)
    {pc : Pc} (hf : f.pc.phase = .working) (hpc : pc.phase = .working) (ids : List Nat) :
    Submitted sch t (postDeferredCompletions hint ids s (t.setTop { f with pc })).2 := by
  have hw : Works (t.setTop { f with pc }) := by
    rintro g ⟨⟩
    exact hpc
  have h : Submitted sch (t.setTop { f with pc })
      (postDeferredCompletions hint ids s (t.setTop { f with pc })).2 :=
    postDeferredCompletions_submitted hs hw hc ids
  exact ⟨h.scheduler, h.stack, ht ▸ h.top.from_pc hf hpc, h.call⟩

end Submitted

theorem Submitted.step {s : Scheduler ι} (h : Submitted s t (s', t')) (hc : t.call = none)
    (a : Action ι) : Step hint i s t a s'.toScheduler t' := by
  rw [h.scheduler]
  exact .quiet hc h.stack h.top h.call

theorem userStep_cases (hu : t.inUserCode = true) {u : UserAction}
    (h : userStep hint s t u = some (s', t')) :
    Step hint i s.toScheduler t (.user u) s'.toScheduler t' := by
  obtain ⟨hc, hw⟩ := Thread.inUserCode_works hu
  have submitted {r : Shared ι × Thread} (he : r = (s', t')) (hr : Submitted s.toScheduler t r) :
      Step hint i s.toScheduler t (.user u) s'.toScheduler t' := by
    subst he
    exact hr.step hc _
  cases userStep_piece hu h with
  | onWorkStarted | registerDescriptor | registerInternal =>
    exact submitted rfl (hw.same (by rfl) hc)
  | onWorkFinished =>
    refine submitted rfl ?_
    split
    · exact hw.withCall (by rfl) .stop
    · exact hw.same (by rfl) hc
  | @doDispatch id => exact submitted rfl (hw.withCall (by rfl) (.push [id]))
  | postImmediate _ h => exact submitted h (postImmediateCompletion_submitted (by rfl) hw hc _ _)
  | postDeferred _ h => exact submitted h (postDeferredCompletion_submitted (by rfl) hw hc _)
  | postAllDeferred _ h => exact submitted h (postDeferredCompletions_submitted (by rfl) hw hc _)
  | stop | runWithoutWork => exact submitted rfl (hw.withCall (by rfl) .stop)
  | restart => exact .restart hc
  | initTask hm => exact .initTask hc hm
  | run ht => exact .enter hc ht
  | nest ht hpc => exact .nest hc ht hpc
  | startOpNull _ h => exact submitted h (postImmediateCompletion_submitted (by rfl) hw hc _ _)
  | startOp _ _ h =>
    refine submitted h ?_
    split
    · exact postImmediateCompletion_submitted (by rfl) hw hc _ _
    · exact hw.same (by rfl) hc
  | cancelOpsNull | deregisterNull | deregisterShut | deregisterInternalNull
  | deregisterInternalShut => exact submitted rfl (hw.same (by rfl) hc)
  | cancelOps _ h => exact submitted h (postDeferredCompletions_submitted (by rfl) hw hc _)
  | deregister _ _ h => exact submitted h (postDeferredCompletions_submitted (by rfl) hw hc _)
  | deregisterInternal _ _ h =>
    exact submitted h (postDeferredCompletions_submitted (by rfl) hw hc _)
  | deregisterInternalLoops => exact submitted rfl (hw.withCall (by rfl) .transfer)
  | handlerEnd ht hpc =>
    exact .quiet hc rfl (ht ▸ .working (by rw [hpc]; rfl) rfl rfl (.refl _)) (.inl hc)

omit [DecidableEq ι] in
/-- Only `restart` and `init_task` change the scheduler before their caller goes
on. -/
theorem userStep_toScheduler (hu : t.inUserCode = true) {u : UserAction} (hr : u ≠ .restart)
    (hi : u ≠ .initTask) (h : userStep hint s t u = some (s', t')) :
    s'.toScheduler = s.toScheduler := by
  obtain ⟨hc, hw⟩ := Thread.inUserCode_works hu
  have submitted {r : Shared ι × Thread} (he : r = (s', t')) (hr : Submitted s.toScheduler t r) :
      s'.toScheduler = s.toScheduler := by
    subst he
    exact hr.scheduler
  cases userStep_piece hu h with
  | restart => exact absurd rfl hr
  | initTask => exact absurd rfl hi
  | postImmediate _ h => exact submitted h (postImmediateCompletion_submitted (by rfl) hw hc _ _)
  | postDeferred _ h => exact submitted h (postDeferredCompletion_submitted (by rfl) hw hc _)
  | postAllDeferred _ h => exact submitted h (postDeferredCompletions_submitted (by rfl) hw hc _)
  | startOpNull _ h => exact submitted h (postImmediateCompletion_submitted (by rfl) hw hc _ _)
  | startOp _ _ h =>
    refine submitted h ?_
    split
    · exact postImmediateCompletion_submitted (by rfl) hw hc _ _
    · exact hw.same (by rfl) hc
  | cancelOps _ h => exact submitted h (postDeferredCompletions_submitted (by rfl) hw hc _)
  | deregister _ _ h => exact submitted h (postDeferredCompletions_submitted (by rfl) hw hc _)
  | deregisterInternal _ _ h =>
    exact submitted h (postDeferredCompletions_submitted (by rfl) hw hc _)
  | _ => rfl

-- ---------------------------------------------------------------------------
-- Which piece of code a step of run is
-- ---------------------------------------------------------------------------

/-- The pieces of code of `run`, one for each way out of `runStep`. -/
inductive RunPiece [DecidableEq ι] (hint : Int) (i : ι) (s : Shared ι) (f : Run) (t : Thread) :
    Shared ι → Thread → Prop
  | lock : f.pc = .lock → f.owns = false → s.mutex = none →
      RunPiece hint i s f t { s with mutex := some i }
        (t.setTop { f with owns := true, pc := .loop })
  | misuse : f.owns = decide (f.pc ≠ .loop) →
      RunPiece hint i s f t (misuse s f t).1 (misuse s f t).2
  | returns : f.pc = .loop → s.stopped = true →
      RunPiece hint i s f t { s with mutex := if f.owns then none else s.mutex } t.leave
  | wait : f.pc = .loop → f.owns = true → s.stopped = false → s.opQueue = [] →
      RunPiece hint i s f t { s with toScheduler := s.toScheduler.clearAndWait i }
        (t.setTop { f with owns := false, pc := .wait })
  | pop {o : Operation} {rest : OpQueue Operation} : f.pc = .loop → f.owns = true →
      s.stopped = false → s.opQueue = o :: rest →
      RunPiece hint i s f t { s with toScheduler := (s.toScheduler.popFront hint o rest).1 }
        { t with
          top := some { f with
            owns := false
            pc := if o = .taskOperation then .runTask rest.isEmpty else .popped o }
          call := (s.toScheduler.popFront hint o rest).2 }
  | batchEnd : f.pc = .events [] → RunPiece hint i s f t s (t.setTop { f with pc := .taskCleanup })
  | store {ev : EpollEvent} {evs : List EpollEvent} : f.pc = .events (ev :: evs) →
      RunPiece hint i s f t (storeEvent s f ev).1
        (t.setTop { f with info := (storeEvent s f ev).2, pc := .events evs })
  | taskMerge : f.pc = .taskCleanup → RunPiece hint i s f t (mergeWork s f).1
      (t.setTop { f with info := (mergeWork s f).2, pc := .taskCleanupLock })
  | taskCleanup : f.pc = .taskCleanupLock → f.owns = false → s.mutex = none →
      RunPiece hint i s f t
        { s with toScheduler := s.toScheduler.taskCleanup i f.info.privateOpQueue }
        (t.setTop { f with info.privateOpQueue := [], owns := true, pc := .loop })
  | complete {id : Nat} : f.pc = .popped (.handler id) →
      RunPiece hint i s f t s (t.setTop { f with pc := .complete id })
  | performIo {d : Nat} {x : DescriptorState} : f.pc = .popped (.descriptorState d) →
      s.descriptors[d]? = some x →
      RunPiece hint i s f t s (t.setTop { f with pc := .performIo d x.taskResult })
  | taskCompleted : f.pc = .popped .taskOperation →
      RunPiece hint i s f t s (t.setTop { f with pc := .workCleanup false })
  | workMerge {thrown : Bool} : f.pc = .workCleanup thrown →
      RunPiece hint i s f t (mergeWork s f).1
        (t.setTop { f with info := (mergeWork s f).2, pc := .workFinished thrown })
  | workFinished {thrown : Bool} {t' : Thread} : f.pc = .workFinished thrown →
      t' = t.setTop { f with pc := .workCleanupLock thrown } →
      RunPiece hint i s f t { s with outstandingWork := decrement s.outstandingWork }
        (if decrement s.outstandingWork = 0 then { t' with call := some .stop } else t')
  | finished {thrown : Bool} : f.pc = .workCleanupLock thrown → f.info.privateOpQueue = [] →
      RunPiece hint i s f t (endOfWork s f t thrown).1 (endOfWork s f t thrown).2
  | spliced {thrown : Bool} {s₁ : Shared ι} {f₁ : Run} : f.pc = .workCleanupLock thrown →
      f.info.privateOpQueue ≠ [] → f.owns = false → s.mutex = none →
      s₁ = { s with toScheduler := s.toScheduler.workCleanup i f.info.privateOpQueue } →
      f₁ = { f with info.privateOpQueue := [], owns := true } →
      RunPiece hint i s f t (endOfWork s₁ f₁ t thrown).1 (endOfWork s₁ f₁ t thrown).2

section RunPiece

variable {f : Run}

theorem locked_piece (hpc : f.pc ≠ .loop) {r : Shared ι × Thread}
    (h : locked s f t r = some (s', t'))
    (free : f.owns = false → s.mutex = none → RunPiece hint i s f t r.1 r.2) :
    RunPiece hint i s f t s' t' := by
  simp only [locked] at h
  split at h
  · rename_i ho
    cases h
    exact .misuse (by simp [ho, hpc])
  · rename_i ho
    split at h
    · cases h
    · rename_i hm
      cases h
      exact free (by simpa using ho) (by simpa using hm)

theorem loopStep_piece (hpc : f.pc = .loop) (h : loopStep hint i s f t = (s', t')) :
    RunPiece hint i s f t s' t' := by
  simp only [loopStep] at h
  split at h
  · rename_i hs
    cases h
    exact .returns hpc hs
  · rename_i hs
    rw [Bool.not_eq_true] at hs
    split at h
    · rename_i ho
      cases h
      exact .misuse (by simpa [hpc] using ho)
    · rename_i ho
      have ho : f.owns = true := by simpa using ho
      split at h
      · rename_i hq
        cases h
        exact .wait hpc ho hs hq
      · rename_i o rest hq
        cases h
        exact .pop hpc ho hs hq

theorem runStep_piece (h : runStep hint i s f t = some (s', t')) :
    RunPiece hint i s f t s' t' := by
  cases hpc : f.pc with
  | lock =>
    simp only [runStep, hpc] at h
    exact locked_piece (by simp [hpc]) h fun ho hm => .lock hpc ho hm
  | loop =>
    simp only [runStep, hpc] at h
    exact loopStep_piece hpc (Option.some.inj h)
  | events evs =>
    simp only [runStep, hpc] at h
    cases evs with
    | nil =>
      cases h
      exact .batchEnd hpc
    | cons ev evs =>
      cases h
      exact .store hpc
  | taskCleanup =>
    simp only [runStep, hpc] at h
    cases h
    exact .taskMerge hpc
  | taskCleanupLock =>
    simp only [runStep, hpc] at h
    exact locked_piece (by simp [hpc]) h fun ho hm => .taskCleanup hpc ho hm
  | popped o =>
    simp only [runStep, hpc] at h
    cases o with
    | taskOperation =>
      cases h
      exact .taskCompleted hpc
    | descriptorState d =>
      obtain ⟨x, hx, h⟩ := Option.map_eq_some_iff.mp h
      cases h
      exact .performIo hpc hx
    | handler id =>
      cases h
      exact .complete hpc
  | workCleanup thrown =>
    simp only [runStep, hpc] at h
    cases h
    exact .workMerge hpc
  | workFinished thrown =>
    simp only [runStep, hpc] at h
    cases h
    exact .workFinished hpc rfl
  | workCleanupLock thrown =>
    simp only [runStep, hpc] at h
    split at h
    · rename_i hq
      have hend : RunPiece hint i s f t (s', t').1 (s', t').2 :=
        Option.some.inj h ▸ .finished hpc (List.isEmpty_iff.mp hq)
      exact hend
    · rename_i hq
      rw [List.isEmpty_iff] at hq
      exact locked_piece (by simp [hpc]) h fun ho hm =>
        .spliced hpc hq ho hm rfl (by simp [hpc])
  | wait | runTask | performIo | complete => simp [runStep, hpc] at h

end RunPiece

-- ---------------------------------------------------------------------------
-- run and do_run_one
-- ---------------------------------------------------------------------------

section RunStep

variable {f : Run} (hc : t.call = none) (ht : t.top = some f)
include hc ht

omit [DecidableEq ι] hc ht in
/-- Of the memory, an event of the batch changes a descriptor only. -/
theorem storeEvent_shared (s : Shared ι) (f : Run) (ev : EpollEvent) :
    (storeEvent s f ev).1 = { s with descriptors := (storeEvent s f ev).1.descriptors } := by
  cases ev with
  | interrupter => rfl
  | descriptor d events =>
    simp only [storeEvent]
    split
    · rfl
    · split <;> rfl

omit [DecidableEq ι] hc ht in
theorem storeEvent_toScheduler (s : Shared ι) (f : Run) (ev : EpollEvent) :
    (storeEvent s f ev).1.toScheduler = s.toScheduler := by
  rw [storeEvent_shared]

theorem storeEvent_cases {pc : Pc} (hr : f.pc.phase = .reaping) (hr' : pc.phase = .reaping)
    (ev : EpollEvent) (a : Action ι) :
    Step hint i s.toScheduler t a (storeEvent s f ev).1.toScheduler
      (t.setTop { f with info := (storeEvent s f ev).2, pc }) := by
  have same : QuietTop t.top (t.setTop { f with pc }).top := ht ▸ .reaping hr hr' rfl rfl
  cases ev with
  | interrupter => exact .quiet hc rfl same (.inl hc)
  | descriptor d events =>
    simp only [storeEvent]
    split
    · exact .quiet hc rfl same (.inl hc)
    · split
      · exact .quiet hc rfl same (.inl hc)
      · rename_i hd
        exact .stored hc ht hr hr' hd rfl

theorem runStep_cases (h : runStep hint i s f t = some (s', t')) :
    Step hint i s.toScheduler t .next s'.toScheduler t' := by
  have working {g : Run} (hf : f.pc.phase = .working) (hg : g.pc.phase = .working)
      (ho : g.owns = f.owns) (hq : g.info.privateOpQueue = f.info.privateOpQueue) :
      QuietTop t.top (some g) := ht ▸ .working hf hg ho (hq ▸ .refl _)
  have reaping {g : Run} (hf : f.pc.phase = .reaping) (hg : g.pc.phase = .reaping)
      (ho : g.owns = f.owns) (hq : g.info.privateOpQueue = f.info.privateOpQueue) :
      QuietTop t.top (some g) := ht ▸ .reaping hf hg ho hq
  cases runStep_piece h with
  | lock hpc ho hm => exact .lock hc ht hpc ho hm
  | misuse ho => exact .misuse hc ht ho
  | returns hpc hs => exact .returns hc ht hpc hs
  | wait hpc ho hs hq => exact .wait hc ht hpc ho hs hq
  | pop hpc ho hs hq => exact .pop hc ht hpc ho hs hq
  | batchEnd hpc | taskMerge hpc =>
    exact .quiet hc rfl (reaping (by rw [hpc]; rfl) rfl rfl rfl) (.inl hc)
  | store hpc => exact storeEvent_cases hc ht (by rw [hpc]; rfl) rfl _ _
  | taskCleanup hpc ho hm => exact .taskCleanup hc ht hpc ho hm
  | complete hpc | performIo hpc | taskCompleted hpc | workMerge hpc =>
    exact .quiet hc rfl (working (by rw [hpc]; rfl) rfl rfl rfl) (.inl hc)
  | workFinished hpc ht' =>
    subst ht'
    split
    · exact .quiet hc rfl (working (by rw [hpc]; rfl) rfl rfl rfl) .stop
    · exact .quiet hc rfl (working (by rw [hpc]; rfl) rfl rfl rfl) (.inl hc)
  | @finished thrown hpc hq =>
    cases thrown with
    | false => exact .finished hc ht hpc hq
    | true => exact .threw hc ht hpc hq
  | @spliced thrown _ _ hpc hq ho hm hs₁ hf₁ =>
    subst hs₁ hf₁
    cases thrown with
    | false => exact .spliced hc ht hpc hq ho hm
    | true =>
      have hmut : s.toScheduler.mutex = none := hm
      have hstep : Step hint i s.toScheduler t .next _ _ := .splicedThrew hc ht hpc ho hm
      simpa [endOfWork, Scheduler.workCleanup, ← hmut] using hstep

theorem epollWaitStep_cases {evs : List EpollEvent}
    (h : epollWaitStep s f t evs = some (s', t')) (a : Action ι) :
    Step hint i s.toScheduler t a s'.toScheduler t' := by
  simp only [epollWaitStep] at h
  split at h
  · rename_i block hpc
    simp only [Option.ite_none_right_eq_some] at h
    cases h.2
    exact .epollWait hc ht hpc (by simp +contextual)
  · cases h

omit [DecidableEq ι] in
theorem performIoStep_toScheduler {perform : PerformFunc}
    (h : performIoStep hint s f t perform = some (s', t')) : s'.toScheduler = s.toScheduler := by
  simp only [performIoStep] at h
  split at h
  · rename_i d events hpc
    obtain ⟨x, -, h⟩ := Option.map_eq_some_iff.mp h
    split at h
    · cases h
      rfl
    · split at h
      · cases h
        rfl
      · have hf : f.pc.phase = .working := by rw [hpc]; rfl
        have hr : Submitted s.toScheduler t (s', t') :=
          h ▸ postDeferredCompletions_after_pc (by rfl) hc ht hf rfl _
        exact hr.scheduler
  · cases h

theorem performIoStep_cases {perform : PerformFunc}
    (h : performIoStep hint s f t perform = some (s', t')) (a : Action ι) :
    Step hint i s.toScheduler t a s'.toScheduler t' := by
  simp only [performIoStep] at h
  split at h
  · rename_i d events hpc
    obtain ⟨x, -, h⟩ := Option.map_eq_some_iff.mp h
    have hf : f.pc.phase = .working := by rw [hpc]; rfl
    split at h
    · cases h
      exact .quiet hc rfl (ht ▸ .working hf rfl rfl (.refl _)) (.inl hc)
    · split at h
      · cases h
        exact .quiet hc rfl (ht ▸ .working hf rfl rfl (.refl _)) (.inl hc)
      · have hr : Submitted s.toScheduler t (s', t') :=
          h ▸ postDeferredCompletions_after_pc (by rfl) hc ht hf rfl _
        exact hr.step hc _
  · cases h

end RunStep

theorem step_cases {a : Action ι} (h : step hint i a s t = some (s', t')) :
    Step hint i s.toScheduler t a s'.toScheduler t' := by
  cases step_piece h with
  | user hu h => exact userStep_cases hu h
  | push hc hm => exact .push hc hm
  | stop hc hm => exact .stop hc hm
  | notify hc hb => exact .notify hc hb
  | transfer hc => exact .transfer hc
  | run hc ht h => exact runStep_cases hc ht h
  | wake hc ht hpc hm hs => exact .wake hc ht hpc hm hs
  | waitAgain hc ht hpc hm hs => exact .waitAgain hc ht hpc hm hs
  | epollWait hc ht h => exact epollWaitStep_cases hc ht h _
  | performIo hc ht h => exact performIoStep_cases hc ht h _

end BoostAsio
