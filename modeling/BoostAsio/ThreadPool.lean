import BoostAsio.Lib.Executor
import BoostAsio.Conservation

/-!
# The scheduler is an executor

Seen from outside, a scheduler with its reactor and the threads inside `run()`
does what an executor does: operations are submitted, handlers start and end.
`System.executor` forgets everything else (the queues, the mutex, the event,
the reactor, the calls that threads are in), and `observes` are the events that
a step shows. Every run of the system shows a run of the executor
(`runs_executor`), whatever the interleaving, and whatever is thrown, stopped
or dropped on the way.
-/

namespace BoostAsio

open Runs

variable {ι : Type} {hint : Int} {i : ι} {s s' : Shared ι} {t t' : Thread}

def Pc.handling : Pc → List Nat
  | .complete id => [id]
  | _ => []

/-- The handlers that a thread is in, the innermost first. -/
def Thread.handling (t : Thread) : List Nat :=
  t.top.elim [] (fun f => f.pc.handling) ++ t.stack.map Suspended.handler

def UserAction.makes : UserAction → List Nat
  | .doDispatch id | .postImmediateCompletion id _ | .postDeferredCompletion id => [id]
  | .postDeferredCompletions ids => ids
  | .registerInternalDescriptor _ _ op _ | .startOp _ _ op _ _ _ _ => [op.id]
  | _ => []

/-- What a step shows. `do_complete` of a descriptor state starts the first of
the operations that `perform_io` has completed. -/
def observes (i : ι) (s : Shared ι) (t : Thread) : Action ι → List (Executor.Event ι Nat)
  | .user (.handlerEnd _) => (t.handling.take 1).map (.finish i)
  | .user u => u.makes.map .submit
  | .next =>
    match t.top with
    | some ⟨_, _, .popped (.handler id), _⟩ => [.start i id]
    | _ => []
  | .performIo perform =>
    match t.top with
    | some ⟨_, _, .performIo d events, _⟩ =>
      match s.descriptors[d]? with
      | some x => ((x.performIo events perform).ops.take 1).map fun op => .start i op.id
      | none => []
    | _ => []
  | _ => []

-- ---------------------------------------------------------------------------
-- What one step does to the handlers
-- ---------------------------------------------------------------------------

@[simp] theorem Thread.handling_setTop (t : Thread) (f : Run) :
    (t.setTop f).handling = f.pc.handling ++ t.stack.map Suspended.handler := rfl

theorem Thread.handling_of_top {f : Run} (ht : t.top = some f) :
    t.handling = f.pc.handling ++ t.stack.map Suspended.handler := by
  simp [handling, ht]

theorem Thread.handling_leave {f : Run} (ht : t.top = some f) (hf : f.pc.handling = []) :
    t.leave.handling = t.handling := by
  rw [handling_of_top ht, hf]
  cases hs : t.stack with
  | nil => simp [handling, leave, hs]
  | cons p stack => simp [handling, leave, hs, Suspended.resume, Pc.handling]

/-- Where a `run()` is, and what it has counted. -/
def Run.place (f : Run) : Pc × Nat := (f.pc, f.n)

/-- What a function that submits leaves as it is. -/
structure Untouched (s : Shared ι) (t : Thread) (r : Shared ι × Thread) : Prop where
  created : r.1.created = s.created
  executed : r.1.executed = s.executed
  stack : r.2.stack = t.stack
  place : r.2.top.map Run.place = t.top.map Run.place

/-- The same, of a function that does not go to the reactor either. -/
structure OnlySubmits (s : Shared ι) (t : Thread) (r : Shared ι × Thread) : Prop
    extends Untouched s t r where
  descriptors : r.1.descriptors = s.descriptors

theorem OnlySubmits.setInfo {f : Run} {info : ThreadInfo} (hf : t.top = some f)
    (hc : s'.created = s.created) (he : s'.executed = s.executed)
    (hd : s'.descriptors = s.descriptors) : OnlySubmits s t (s', t.setTop { f with info }) where
  created := hc
  executed := he
  stack := rfl
  place := by rw [hf]; rfl
  descriptors := hd

theorem postImmediateCompletion_onlySubmits {id : Nat} {cont : Bool} {r : Shared ι × Thread}
    (h : postImmediateCompletion hint id cont s t = r) : OnlySubmits s t r := by
  subst h
  unfold postImmediateCompletion
  split
  · rename_i f hf
    exact .setInfo (top_of_guard hf) rfl rfl rfl
  · exact ⟨⟨rfl, rfl, rfl, rfl⟩, rfl⟩

theorem postDeferredCompletion_onlySubmits {id : Nat} {r : Shared ι × Thread}
    (h : postDeferredCompletion hint id s t = r) : OnlySubmits s t r := by
  subst h
  unfold postDeferredCompletion
  split
  · rename_i f hf
    exact .setInfo (top_of_guard hf) rfl rfl rfl
  · exact ⟨⟨rfl, rfl, rfl, rfl⟩, rfl⟩

theorem postDeferredCompletions_onlySubmits {ids : List Nat} {r : Shared ι × Thread}
    (h : (postDeferredCompletions hint ids s t).2 = r) : OnlySubmits s t r := by
  subst h
  unfold postDeferredCompletions
  split
  · rename_i f hf
    exact .setInfo (top_of_guard hf) rfl rfl rfl
  · exact ⟨⟨rfl, rfl, rfl, rfl⟩, rfl⟩

theorem OnlySubmits.of_setDescriptor {d : Nat} {x : DescriptorState} {r : Shared ι × Thread}
    (h : OnlySubmits (s.setDescriptor d x) t r) : Untouched s t r :=
  ⟨h.created, h.executed, h.stack, h.place⟩

/-- A call of a caller makes operations; only `run` and the end of a handler do
more to those made before and to the handlers the thread is in. -/
theorem userStep_untouched (hu : t.inUserCode = true) {u : UserAction} (hrun : u ≠ .run)
    (hend : ∀ thrown, u ≠ .handlerEnd thrown) (h : userStep hint s t u = some (s', t')) :
    s.fresh u.makes = true ∧ Untouched { s with created := s.created ++ u.makes } t (s', t') := by
  have hnone : s.fresh [] = true := by simp [Shared.fresh]
  have quiet {r : Shared ι × Thread} (hk : Untouched s t r) :
      Untouched { s with created := s.created ++ [] } t r := by
    rw [List.append_nil]
    exact hk
  cases userStep_piece hu h with
  | onWorkStarted | stop | restart | initTask | registerDescriptor
  | cancelOpsNull | deregisterNull | deregisterShut | deregisterInternalNull
  | deregisterInternalShut | deregisterInternalLoops => exact ⟨hnone, quiet ⟨rfl, rfl, rfl, rfl⟩⟩
  | onWorkFinished =>
    refine ⟨hnone, quiet ?_⟩
    split <;> exact ⟨rfl, rfl, rfl, rfl⟩
  | doDispatch hfresh | registerInternal hfresh => exact ⟨hfresh, ⟨rfl, rfl, rfl, rfl⟩⟩
  | postImmediate hfresh h | startOpNull hfresh h =>
    exact ⟨hfresh, (postImmediateCompletion_onlySubmits h).toUntouched⟩
  | postDeferred hfresh h => exact ⟨hfresh, (postDeferredCompletion_onlySubmits h).toUntouched⟩
  | postAllDeferred hfresh h => exact ⟨hfresh, (postDeferredCompletions_onlySubmits h).toUntouched⟩
  | startOp hfresh hd h =>
    refine ⟨hfresh, ?_⟩
    split at h
    · exact (postImmediateCompletion_onlySubmits h).of_setDescriptor
    · cases h
      exact ⟨rfl, rfl, rfl, rfl⟩
  | cancelOps hd h | deregister hd he h | deregisterInternal hd hr h =>
    exact ⟨hnone, quiet (postDeferredCompletions_onlySubmits h).of_setDescriptor⟩
  | runWithoutWork | run | nest => exact absurd rfl hrun
  | handlerEnd => exact absurd rfl (hend _)

theorem Untouched.handling {r : Shared ι × Thread} (h : Untouched s t r) :
    r.2.handling = t.handling := by
  have hplace := h.place
  rw [Thread.handling, Thread.handling, h.stack]
  cases hr : r.2.top <;> cases ht : t.top <;> simp [hr, ht, Run.place] at hplace ⊢
  rw [hplace.1]

/-- A step that those who submit work do not see. -/
structure Unobserved (s : Shared ι) (t : Thread) (r : Shared ι × Thread) : Prop where
  created : r.1.created = s.created
  executed : r.1.executed = s.executed
  handling : r.2.handling = t.handling

/-- What a step does to the operations made, to the handlers that the thread is
in, and to those that have ended. -/
inductive Seen (i : ι) (s : Shared ι) (t : Thread) (s' : Shared ι) (t' : Thread) :
    List (Executor.Event ι Nat) → Prop
  | quiet : Unobserved s t (s', t') → Seen i s t s' t' []
  | submits {ids : List Nat} : s.fresh ids = true → s'.created = s.created ++ ids →
      s'.executed = s.executed → t'.handling = t.handling → Seen i s t s' t' (ids.map .submit)
  | starts {id : Nat} : s'.created = s.created → s'.executed = s.executed →
      t'.handling = id :: t.handling → Seen i s t s' t' [.start i id]
  | finishes {id : Nat} : s'.created = s.created → s'.executed = s.executed ++ [id] →
      t.handling = id :: t'.handling → Seen i s t s' t' [.finish i id]

theorem Seen.created_subset {es : List (Executor.Event ι Nat)} (h : Seen i s t s' t' es) :
    s.created ⊆ s'.created := by
  cases h with
  | quiet h => exact h.created ▸ List.Subset.refl _
  | submits _ hc => exact hc ▸ List.subset_append_left _ _
  | starts hc | finishes hc => exact hc ▸ List.Subset.refl _

theorem userStep_seen (hu : t.inUserCode = true) {u : UserAction}
    (h : userStep hint s t u = some (s', t')) :
    Seen i s t s' t' (observes i s t (.user u)) := by
  cases u with
  | run =>
    cases userStep_piece hu h with
    | runWithoutWork => exact .quiet ⟨rfl, rfl, rfl⟩
    | run ht => exact .quiet ⟨rfl, rfl, by simp [Thread.handling, ht, Pc.handling]⟩
    | nest ht hpc => exact .quiet ⟨rfl, rfl, by simp [Thread.handling, ht, hpc, Pc.handling]⟩
  | handlerEnd thrown =>
    cases userStep_piece hu h with
    | @handlerEnd f id _ ht hpc =>
      have hh : t.handling = id :: t.stack.map Suspended.handler := by
        simp [Thread.handling_of_top ht, hpc, Pc.handling]
      have hev : observes i s t (.user (.handlerEnd thrown)) = [.finish i id] := by
        simp [observes, hh]
      rw [hev]
      exact .finishes rfl rfl hh
  | _ =>
    obtain ⟨hfresh, hk⟩ := userStep_untouched hu (by simp) (by simp) h
    exact .submits hfresh hk.created hk.executed hk.handling

variable [DecidableEq ι]

section RunStep

variable {f : Run} (ht : t.top = some f)
include ht

omit [DecidableEq ι] in
/-- A `run()` goes on outside a handler. -/
theorem unobserved_setTop {f' : Run} {call : Option Call} (hc : s'.created = s.created)
    (he : s'.executed = s.executed) (hf : f'.pc.handling = f.pc.handling) :
    Unobserved s t (s', { t with top := some f', call }) := by
  refine ⟨hc, he, ?_⟩
  rw [Thread.handling_of_top ht, ← hf]
  rfl

omit [DecidableEq ι] in
theorem endOfWork_unobserved {s₁ : Shared ι} {f₁ : Run} (hf : f.pc.handling = [])
    (hc : s₁.created = s.created) (he : s₁.executed = s.executed) (thrown : Bool) :
    Unobserved s t (endOfWork s₁ f₁ t thrown) := by
  cases thrown with
  | true => exact ⟨hc, he, Thread.handling_leave ht hf⟩
  | false => exact unobserved_setTop ht hc he (by rw [hf]; rfl)

omit [DecidableEq ι] ht in
theorem storeEvent_untouched (s : Shared ι) (f : Run) (ev : EpollEvent) :
    (storeEvent s f ev).1.created = s.created ∧ (storeEvent s f ev).1.executed = s.executed := by
  rw [storeEvent_shared]
  exact ⟨rfl, rfl⟩

omit [DecidableEq ι] in
theorem observes_next (h : ∀ id, f.pc ≠ .popped (.handler id)) : observes i s t .next = [] := by
  obtain ⟨info, owns, pc, n⟩ := f
  simp only [observes, ht]
  split
  · rename_i heq
    cases heq
    exact absurd rfl (h _)
  · rfl

theorem runStep_seen (hl : t.LockState) (h : runStep hint i s f t = some (s', t')) :
    Seen i s t s' t' (observes i s t .next) := by
  have quiet (hpc : ∀ id, f.pc ≠ .popped (.handler id)) (hr : Unobserved s t (s', t')) :
      Seen i s t s' t' (observes i s t .next) := by
    rw [observes_next ht hpc]
    exact .quiet hr
  cases runStep_piece h with
  | lock hpc | wait hpc | batchEnd hpc | taskMerge hpc | taskCleanup hpc | performIo hpc
  | taskCompleted hpc | workMerge hpc =>
    exact quiet (by simp [hpc]) (unobserved_setTop ht rfl rfl (by rw [hpc]; rfl))
  | misuse ho =>
    have hpc : f.pc = .lock := (hl.misuse_at_lock ht ho).1
    exact quiet (by simp [hpc]) ⟨rfl, rfl, Thread.handling_leave ht (by rw [hpc]; rfl)⟩
  | returns hpc =>
    exact quiet (by simp [hpc]) ⟨rfl, rfl, Thread.handling_leave ht (by rw [hpc]; rfl)⟩
  | @pop o rest hpc =>
    refine quiet (by simp [hpc]) (unobserved_setTop ht rfl rfl ?_)
    rw [hpc]
    by_cases ho : o = .taskOperation <;> simp [ho, Pc.handling]
  | store hpc =>
    obtain ⟨hc, he⟩ := storeEvent_untouched s f _
    exact quiet (by simp [hpc]) (unobserved_setTop ht hc he (by rw [hpc]; rfl))
  | @complete id hpc =>
    obtain ⟨info, owns, pc, n⟩ := f
    cases hpc
    have hev : observes i s t .next = [.start i id] := by simp [observes, ht]
    rw [hev]
    refine .starts rfl rfl ?_
    rw [Thread.handling_of_top ht]
    rfl
  | workFinished hpc ht' =>
    subst ht'
    refine quiet (by simp [hpc]) ?_
    split
    · exact unobserved_setTop ht rfl rfl (by rw [hpc]; rfl)
    · exact unobserved_setTop ht rfl rfl (by rw [hpc]; rfl)
  | finished hpc =>
    exact quiet (by simp [hpc]) (endOfWork_unobserved ht (by rw [hpc]; rfl) rfl rfl _)
  | spliced hpc _ _ _ hs₁ =>
    exact quiet (by simp [hpc])
      (endOfWork_unobserved ht (by rw [hpc]; rfl) (by rw [hs₁]) (by rw [hs₁]) _)

omit [DecidableEq ι] in
theorem performIoStep_seen {perform : PerformFunc}
    (h : performIoStep hint s f t perform = some (s', t')) :
    Seen i s t s' t' (observes i s t (.performIo perform)) := by
  obtain ⟨info, owns, pc, n⟩ := f
  cases pc with
  | performIo d events =>
    obtain ⟨x, hlock, h⟩ := Option.map_eq_some_iff.mp h
    have hd := (Shared.lockDescriptor_eq_some.mp hlock).2
    have hin : t.handling = t.stack.map Suspended.handler := by
      rw [Thread.handling_of_top ht]
      rfl
    simp only [observes, ht, hd]
    cases hops : (x.performIo events perform).ops with
    | nil =>
      simp only [hops] at h
      cases h
      exact .quiet (unobserved_setTop ht rfl rfl rfl)
    | cons first rest =>
      simp only [hops] at h
      cases rest with
      | nil =>
        cases h
        exact .starts rfl rfl (by rw [hin]; rfl)
      | cons second rest =>
        have hk := postDeferredCompletions_onlySubmits h
        exact .starts hk.created hk.executed (by rw [hk.handling, hin]; rfl)
  | _ => cases h

omit [DecidableEq ι] in
theorem epollWaitStep_unobserved {evs : List EpollEvent}
    (h : epollWaitStep s f t evs = some (s', t')) : Unobserved s t (s', t') := by
  simp only [epollWaitStep] at h
  split at h
  · rename_i block hpc
    simp only [Option.ite_none_right_eq_some] at h
    cases h.2
    exact unobserved_setTop ht rfl rfl (by rw [hpc]; rfl)
  · cases h

end RunStep

theorem step_seen (hl : t.LockState) {a : Action ι} (h : step hint i a s t = some (s', t')) :
    Seen i s t s' t' (observes i s t a) := by
  cases step_piece h with
  | user hu h => exact userStep_seen hu h
  | push | stop | notify | transfer | waitAgain => exact .quiet ⟨rfl, rfl, rfl⟩
  | run _ ht h => exact runStep_seen ht hl h
  | wake _ ht hpc => exact .quiet (unobserved_setTop ht rfl rfl (by rw [hpc]; rfl))
  | epollWait _ ht h => exact .quiet (epollWaitStep_unobserved ht h)
  | performIo _ ht h => exact performIoStep_seen ht h

-- ---------------------------------------------------------------------------
-- Every run
-- ---------------------------------------------------------------------------

omit [DecidableEq ι] in
theorem Thread.handling_le_has (t : Thread) (id : Nat) : t.handling.count id ≤ t.has id := by
  have hstack : (t.stack.map Suspended.handler).count id ≤
      (t.stack.map fun p => (OpQueue.handlers p.resume.info.privateOpQueue).count id +
        p.resume.pc.executing.count id).sum := by
    induction t.stack with
    | nil => simp
    | cons p stack ih =>
      have hp : p.resume.pc.executing = [p.handler] := rfl
      simp only [List.map_cons, List.sum_cons, List.count_cons, hp, List.count_nil]
      omega
  have htop : (t.top.elim [] fun f => f.pc.handling).count id ≤
      t.top.elim 0 fun f => (OpQueue.handlers f.info.privateOpQueue).count id +
        f.pc.executing.count id := by
    cases t.top with
    | none => simp
    | some f => cases hpc : f.pc <;> simp [hpc, Pc.handling, Pc.executing]
  simp only [handling, has, tally, List.count_append]
  exact Nat.add_le_add htop hstack

namespace System

variable {c c' : System ι} {l : ι × Action ι} {m : Uninitialised}

/-- What a state is for those who submit work. -/
def executor (c : System ι) : Executor.State ι Nat where
  submitted := c.shared.created
  running i := (c.thread i).handling
  finished := c.shared.executed

theorem executor_set (i : ι) (s : Shared ι) (t : Thread) : executor (c.set i s t) =
    ⟨s.created, Function.update c.executor.running i t.handling, s.executed⟩ := by
  have hrunning : (executor (c.set i s t)).running =
      Function.update c.executor.running i t.handling := by
    funext j
    by_cases hj : j = i
    · subst hj
      simp [executor]
    · simp [executor, Threads.set_thread_ne c hj, hj]
  rw [← hrunning]
  rfl

variable [Fintype ι]

/-- A handler that a thread is in is in no other place. -/
theorem Covered.handling_once (h : Covered c) {i : ι} {id : Nat} {rest : List Nat}
    (hi : (c.thread i).handling = id :: rest) : id ∈ c.shared.created ∧
      id ∉ c.shared.executed ∧ id ∉ rest ∧ ∀ j, j ≠ i → id ∉ (c.thread j).handling := by
  have hle := h.le_handed id
  have hone := h.handed_le id
  have hmine := (c.thread i).handling_le_has id
  have hsum := Finset.add_sum_erase _ (fun j => (c.thread j).has id) (Finset.mem_univ i)
  simp only [hi, List.count_cons_self] at hmine
  refine ⟨?_, ?_, ?_, fun j hj => ?_⟩
  · have hk := h.known fun x => if x = id then 1 else 0
    simp only [System.known, Threads.total, weigh_count] at hk
    apply List.count_pos_iff.mp
    omega
  · apply List.count_eq_zero.mp
    omega
  · apply List.count_eq_zero.mp
    omega
  · have hother := (c.thread j).handling_le_has id
    have hj' := Finset.single_le_sum (f := fun j => (c.thread j).has id) (fun _ _ => Nat.zero_le _)
      (Finset.mem_erase.mpr ⟨hj, Finset.mem_univ j⟩)
    apply List.count_eq_zero.mp
    omega

theorem Covered.executor_next (h : Covered c) (hn : System.next hint c l = some c') :
    exec Executor.next c.executor (observes l.1 c.shared (c.thread l.1) l.2) =
      some c'.executor := by
  have hc' : Covered c' := h.next hn
  obtain ⟨s, t, hs, rfl⟩ := Threads.next_eq_some.mp hn
  have hshow := step_seen (h.locks l.1).state hs
  generalize observes l.1 c.shared (c.thread l.1) l.2 = es at hshow
  rw [executor_set]
  cases hshow with
  | quiet hsame =>
    obtain ⟨hc, he, hh⟩ := hsame
    have hrun : Function.update c.executor.running l.1 t.handling = c.executor.running := by
      rw [hh]
      exact Function.update_eq_self l.1 _
    rw [hrun, hc, he]
    rfl
  | submits hfresh hc he hh =>
    have hrun : Function.update c.executor.running l.1 t.handling = c.executor.running := by
      rw [hh]
      exact Function.update_eq_self l.1 _
    simp only [Shared.fresh, Bool.and_eq_true, decide_eq_true_eq, List.all_eq_true,
      Bool.not_eq_true', List.contains_eq_mem, decide_eq_false_iff_not] at hfresh
    rw [hrun, hc, he]
    exact Executor.exec_submit hfresh.2 hfresh.1
  | @starts id hc he hh =>
    obtain ⟨hcreated, hfinished, hrest, hothers⟩ :=
      hc'.handling_once (i := l.1) (by rw [Threads.set_thread_self, hh])
    simp only [Threads.set_shared, hc, he] at hcreated hfinished
    have hguard : id ∈ c.executor.submitted ∧ id ∉ c.executor.finished ∧
        ∀ j, id ∉ c.executor.running j := by
      refine ⟨hcreated, hfinished, fun j => ?_⟩
      by_cases hj : j = l.1
      · subst hj
        exact hrest
      · have hother := hothers j hj
        rwa [Threads.set_thread_ne c hj] at hother
    simp only [exec, Executor.next, if_pos hguard, Option.bind_some]
    rw [hc, he, hh]
    rfl
  | @finishes id hc he hh =>
    have hrun : c.executor.running l.1 = id :: t.handling := hh
    simp only [exec, Executor.next, hrun, if_true, Option.bind_some]
    rw [hc, he]
    rfl

def shows (hint : Int) (c : System ι) (ls : List (ι × Action ι)) : List (Executor.Event ι Nat) :=
  trace (System.next hint) (fun c l => observes l.1 c.shared (c.thread l.1) l.2) c ls

/-- What a run shows is a run of the executor, to the state that is left of the
state reached. So an operation is submitted, started and finished in that order,
once at most, and finished by the thread that started it. -/
theorem runs_executor (hint : Int) (m : Uninitialised) (c : System ι) (ls : List (ι × Action ι))
    (he : exec (System.next hint) (System.new m) ls = some c) :
    exec Executor.next {} (shows hint (System.new m) ls) = some c.executor ∧
      ∀ id, Executor.Stage c.executor id
        (Executor.history id (shows hint (System.new m) ls)) := by
  have hrun : exec Executor.next (executor (System.new m : System ι))
      (shows hint (System.new m) ls) = some c.executor :=
    exec_trace (I := Covered) (fun _ _ _ hi hn => ⟨hi.next hn, hi.executor_next hn⟩) (.new m) he
  exact ⟨hrun, Executor.stage_of_exec hrun⟩

/-- A thread runs a handler that calls `run()` again, and another handler inside
the first one, which ends. -/
def runInside : List (Fin 3 × Action (Fin 3)) :=
  [(second, .user (.doDispatch 0)), (second, .call), (second, .user (.doDispatch 1)),
    (second, .call), (first, .user .run), (first, .next), (first, .next), (first, .next),
    (first, .user .run), (first, .next), (first, .next), (first, .next),
    (first, .user (.handlerEnd false)), (first, .next)]

theorem runs_executor_runInside :
    ∃ c : System (Fin 3), exec (System.next 0) (System.new {}) runInside = some c ∧
      exec Executor.next {} [.submit 0, .submit 1, .start 0 0, .start 0 1, .finish 0 1] =
        some c.executor :=
  ⟨_, rfl, (runs_executor 0 {} _ runInside rfl).1⟩

end System

end BoostAsio
