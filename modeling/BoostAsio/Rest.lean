import BoostAsio.Conservation
import BoostAsio.NestedRuns
import BoostAsio.Readiness
import BoostAsio.Wakeup

/-!
# A scheduler at rest

A system rests where nothing is left to do but what the code of a caller does.
`resting_iff` says where that is: every thread is in such code or blocked for
good. No thread is left there on a mutex, in a submission that it has begun, or
over a descriptor state that does not exist. With a thread in a
`deregister_internal_descriptor` that finds an operation pending no system
rests: that call goes round for ever, and others may wait for the mutex that it
holds.

A system at rest with a thread inside `run()` and no handler in progress has
done all its work: every operation made was executed once, or waits on a
descriptor (`resting_done`).
-/

namespace BoostAsio

open Runs OpQueue

variable {ι : Type} [DecidableEq ι] {hint : Int} {i : ι} {t t' : Thread} {d : Nat}

-- ---------------------------------------------------------------------------
-- The owner of the mutex goes on
-- ---------------------------------------------------------------------------

/-- A thread that owns the mutex is in no other call. -/
def Thread.OwnsFree (t : Thread) : Prop := t.Owns → t.call = none

theorem Thread.OwnsFree.of_not_owns (h : ¬ t.Owns) : t.OwnsFree := fun ho => absurd ho h

theorem QuietTop.not_owns (h : QuietTop t.top t'.top) (hl : t.LockState) : ¬ t.Owns := by
  rintro ⟨f, ht, hf⟩
  rw [ht] at h
  cases hg : t'.top <;> rw [hg] at h <;> cases h
  · rename_i hp _ _ _
    simp [hl.not_owns ht (by simp [hp]) (by simp [hp])] at hf
  · rename_i hp _ _ _
    simp [hl.not_owns ht (by simp [hp]) (by simp [hp])] at hf

theorem Step.ownsFree {s s' : Scheduler ι} {a : Action ι} (h : Step hint i s t a s' t')
    (hl : Locks i s t) (ho : t.OwnsFree) : t'.OwnsFree := by
  cases h with
  | quiet hc hstack htop =>
    exact .of_not_owns fun h => htop.not_owns hl.state (htop.owns.mp h)
  | stored hc | lock hc | wait hc | taskCleanup hc | finished hc | spliced hc | wake hc
  | epollWait hc | restart hc | waitAgain hc => exact fun _ => hc
  | transfer => exact ho
  | initTask hc hm => exact .of_not_owns fun h => by simp [hl.owner.mpr h] at hm
  | push hc => exact .of_not_owns fun h => by simp [ho h] at hc
  | stop | notify => exact fun _ => rfl
  | enter | nest | pop => exact .of_not_owns (by simp)
  | misuse | returns | threw | splicedThrew => exact .of_not_owns (Thread.leave_owns _)

-- ---------------------------------------------------------------------------
-- Descriptor states that are looked up exist
-- ---------------------------------------------------------------------------

/-- The `run()` will look up this descriptor state. -/
def Run.Refers (f : Run) (d : Nat) : Prop :=
  .descriptorState d ∈ f.info.privateOpQueue ∨ f.pc = .popped (.descriptorState d) ∨
    ∃ events, f.pc = .performIo d events

def Thread.Refers (t : Thread) (d : Nat) : Prop := ∃ f, t.top = some f ∧ f.Refers d

theorem Thread.refers_of_mem {f : Run} (ht : t.top = some f)
    (hm : .descriptorState d ∈ f.info.privateOpQueue) : t.Refers d := ⟨f, ht, .inl hm⟩

/-- A `run()` that is not the runner has no descriptor states but the one it
works on. -/
theorem Thread.QueueState.not_refers (hq : t.QueueState)
    (h : ∀ f, t.top = some f → f.pc.phase ≠ .reaping ∧ (∀ d, f.pc ≠ .popped (.descriptorState d)) ∧
      ∀ d events, f.pc ≠ .performIo d events) : ¬ t.Refers d := by
  rintro ⟨f, ht, hm | hp | ⟨events, hp⟩⟩
  · exact (h f ht).1 (hq.reaping_of_mem ht hm)
  · exact (h f ht).2.1 d hp
  · exact (h f ht).2.2 d events hp

theorem Thread.QueueState.leave_not_refers (hq : t.leave.QueueState) : ¬ t.leave.Refers d := by
  refine hq.not_refers fun f hf => ?_
  obtain ⟨p, -, rfl⟩ := leave_top hf
  simp [Suspended.resume]

variable {s s' : Shared ι}

omit [DecidableEq ι] in
/-- Code of a caller runs again, or a new `run()`. -/
theorem Thread.QueueState.userStep_not_refers (hq : t'.QueueState) (hu : t.inUserCode = true)
    {u : UserAction} (h : userStep hint s t u = some (s', t')) : ¬ t'.Refers d := by
  refine hq.not_refers fun g hg => ?_
  by_cases hs : u ≠ .run ∧ ∀ thrown, u ≠ .handlerEnd thrown
  · have htop := userStep_submits hu hs.1 hs.2 h
    cases ht : t.top with
    | none =>
      simp only [Submits, ht, hg] at htop
      cases htop
    | some f =>
      obtain ⟨g', hg', hsub⟩ := htop.top ht
      obtain ⟨id, hpc⟩ := inUserCode_top hu ht
      rw [hg] at hg'
      cases hg'
      simp [hsub.pc, hpc]
  · cases userStep_piece hu h with
    | runWithoutWork =>
      obtain ⟨id, hpc⟩ := inUserCode_top hu hg
      simp [hpc]
    | run | nest | handlerEnd =>
      cases hg
      simp
    | _ => exact absurd ⟨nofun, nofun⟩ hs

omit [DecidableEq ι] in
theorem storeEvent_refers {f : Run} (ev : EpollEvent)
    (hm : .descriptorState d ∈ (storeEvent s f ev).2.privateOpQueue) :
    .descriptorState d ∈ f.info.privateOpQueue ∨ d < s.descriptors.length := by
  cases ev with
  | interrupter => exact .inl hm
  | descriptor d' events =>
    simp only [storeEvent] at hm
    split at hm
    · exact .inl hm
    · rename_i x hx
      split at hm
      · exact .inl hm
      · simp only [List.mem_append, List.mem_singleton, Operation.descriptorState.injEq] at hm
        refine hm.imp_right ?_
        rintro rfl
        exact (List.getElem?_eq_some_iff.mp hx).1

theorem runStep_refers {f : Run} (ht : t.top = some f) (hq : t'.QueueState)
    (h : runStep hint i s f t = some (s', t')) (hd : t'.Refers d) :
    t.Refers d ∨ .descriptorState d ∈ s.opQueue ∨ d < s.descriptors.length := by
  cases runStep_piece h with
  | misuse | returns => exact absurd hd hq.leave_not_refers
  | lock | wait | taskCleanup | complete | taskCompleted | workMerge =>
    refine absurd hd (hq.not_refers ?_)
    rintro g ⟨⟩
    simp
  | @pop o rest hpc _ _ hqueue =>
    obtain ⟨g, ⟨⟩, hm | hp | ⟨events, hp⟩⟩ := hd
    · exact .inl (Thread.refers_of_mem ht hm)
    · cases o <;> simp at hp
      exact .inr (.inl (by simp [hqueue, hp]))
    · cases o <;> simp at hp
  | batchEnd | taskMerge =>
    obtain ⟨g, ⟨⟩, hm | hp | ⟨events, hp⟩⟩ := hd
    · exact .inl (Thread.refers_of_mem ht hm)
    · cases hp
    · cases hp
  | @store ev =>
    obtain ⟨g, ⟨⟩, hm | hp | ⟨events, hp⟩⟩ := hd
    · exact (storeEvent_refers ev hm).imp (Thread.refers_of_mem ht) .inr
    · cases hp
    · cases hp
  | performIo hpc hx =>
    obtain ⟨g, ⟨⟩, hm | hp | ⟨events, hp⟩⟩ := hd
    · exact .inl (Thread.refers_of_mem ht hm)
    · cases hp
    · cases hp
      exact .inr (.inr (List.getElem?_eq_some_iff.mp hx).1)
  | workFinished _ ht' =>
    refine absurd hd (hq.not_refers ?_)
    subst ht'
    split <;> (rintro g ⟨⟩; simp)
  | @finished thrown | @spliced thrown =>
    cases thrown with
    | true => exact absurd hd hq.leave_not_refers
    | false =>
      refine absurd hd (hq.not_refers ?_)
      rintro g ⟨⟩
      simp

omit [DecidableEq ι] in
theorem performIoStep_not_refers {f : Run} {perform : PerformFunc} (hq : t'.QueueState)
    (h : performIoStep hint s f t perform = some (s', t')) : ¬ t'.Refers d := by
  simp only [performIoStep] at h
  split at h
  · obtain ⟨x, -, h⟩ := Option.map_eq_some_iff.mp h
    refine hq.not_refers fun g hg => ?_
    split at h
    · cases h
      cases hg
      simp
    · split at h
      · cases h
        cases hg
        simp
      · obtain ⟨g', hg', hsub⟩ := (postDeferredCompletions_submits h).top rfl
        rw [hg] at hg'
        cases hg'
        simp [hsub.pc]
  · cases h

theorem step_refers {a : Action ι} (hq : t'.QueueState) (h : step hint i a s t = some (s', t'))
    (hd : t'.Refers d) : t.Refers d ∨ .descriptorState d ∈ s.opQueue ∨
      d < s.descriptors.length := by
  cases step_piece h with
  | user hu h => exact absurd hd (hq.userStep_not_refers hu h)
  | push | stop | notify | transfer | waitAgain => exact .inl hd
  | run _ ht h => exact runStep_refers ht hq h hd
  | wake =>
    refine absurd hd (hq.not_refers ?_)
    rintro g ⟨⟩
    simp
  | epollWait _ ht h =>
    simp only [epollWaitStep] at h
    split at h
    · simp only [Option.ite_none_right_eq_some] at h
      cases h.2
      obtain ⟨g, ⟨⟩, hm | hp | ⟨events, hp⟩⟩ := hd
      · exact .inl (Thread.refers_of_mem ht hm)
      · cases hp
      · cases hp
    · cases h
  | performIo _ _ h => exact absurd hd (performIoStep_not_refers hq h)

/-- What comes into `op_queue_` comes from the private queue of the runner. -/
theorem Step.descriptor_queued {s s' : Scheduler ι} {a : Action ι} (h : Step hint i s t a s' t')
    (hq : t.QueueState) (hm : .descriptorState d ∈ s'.opQueue) :
    .descriptorState d ∈ s.opQueue ∨ t.Refers d := by
  cases h with
  | initTask =>
    rcases s.initTask_cases with he | ⟨-, he, -⟩ <;> rw [he] at hm
    · exact .inl hm
    · exact .inl (by simpa using hm)
  | push hc =>
    simp only [Scheduler.push_fst, List.mem_append] at hm
    exact .inl (hm.resolve_right ((hq.call _ hc).not_mem (by simp)))
  | stop => exact .inl (by simpa [Scheduler.stopAllThreads_eq] using hm)
  | pop _ _ _ _ _ hqueue =>
    rw [Scheduler.popFront_fst] at hm
    exact .inl (by simp [hqueue, show _ ∈ _ from hm])
  | taskCleanup _ ht =>
    simp only [Scheduler.taskCleanup, List.mem_append, List.mem_singleton, reduceCtorEq,
      or_false] at hm
    exact hm.imp_right (Thread.refers_of_mem ht)
  | spliced _ ht | splicedThrew _ ht =>
    simp only [Scheduler.workCleanup, List.mem_append] at hm
    exact hm.imp_right (Thread.refers_of_mem ht)
  | _ => exact .inl hm

-- ---------------------------------------------------------------------------
-- Calls that return
-- ---------------------------------------------------------------------------

/-- The action begins no `deregister_internal_descriptor` that goes round for
ever. -/
def Shared.Returns (s : Shared ι) (a : Action ι) : Prop :=
  ∀ d x, a = .user (.deregisterInternalDescriptor (some d)) → s.descriptors[d]? = some x →
    x.shutdown = true ∨ x.pendingIds = []

/-- What comes after a piece of code that holds no mutex for ever. -/
structure Continues (s : Shared ι) (r : Shared ι × Thread) : Prop where
  held : r.1.held = s.held
  call : r.2.call ≠ some .transfer

section Continues

omit [DecidableEq ι]

variable (hc : t.call = none)
include hc

theorem postImmediateCompletion_continues {id : Nat} {cont : Bool} {r : Shared ι × Thread}
    (h : postImmediateCompletion hint id cont s t = r) : Continues s r := by
  subst h
  unfold postImmediateCompletion
  split
  · exact ⟨rfl, by simp [Thread.setTop, hc]⟩
  · exact ⟨rfl, by simp⟩

theorem postDeferredCompletion_continues {id : Nat} {r : Shared ι × Thread}
    (h : postDeferredCompletion hint id s t = r) : Continues s r := by
  subst h
  unfold postDeferredCompletion
  split
  · exact ⟨rfl, by simp [Thread.setTop, hc]⟩
  · exact ⟨rfl, by simp⟩

theorem postDeferredCompletions_continues {ids : List Nat} {r : Shared ι × Thread}
    (h : (postDeferredCompletions hint ids s t).2 = r) : Continues s r := by
  subst h
  unfold postDeferredCompletions
  split
  · exact ⟨rfl, by simp [Thread.setTop, hc]⟩
  · exact ⟨rfl, by simp⟩

omit hc in
theorem userStep_continues (hu : t.inUserCode = true) {u : UserAction}
    (h : userStep hint s t u = some (s', t')) :
    Continues s (s', t') ∨ t'.call = some .transfer ∧ ¬ s.Returns (.user u) := by
  have hc := (Thread.inUserCode_works hu).1
  cases userStep_piece hu h with
  | postImmediate _ h | startOpNull _ h =>
    obtain ⟨hs, hcall⟩ := postImmediateCompletion_continues hc h
    exact .inl ⟨hs, hcall⟩
  | postDeferred _ h =>
    obtain ⟨hs, hcall⟩ := postDeferredCompletion_continues hc h
    exact .inl ⟨hs, hcall⟩
  | postAllDeferred _ h | cancelOps _ h | deregister _ _ h | deregisterInternal _ _ h =>
    obtain ⟨hs, hcall⟩ := postDeferredCompletions_continues hc h
    exact .inl ⟨hs, hcall⟩
  | startOp _ _ h =>
    split at h
    · obtain ⟨hs, hcall⟩ := postImmediateCompletion_continues hc h
      exact .inl ⟨hs, hcall⟩
    · cases h
      exact .inl ⟨rfl, by simp [hc]⟩
  | onWorkFinished =>
    refine .inl ⟨rfl, ?_⟩
    dsimp only
    split <;> simp [hc]
  | initTask =>
    refine .inl ⟨rfl, ?_⟩
    rcases s.toScheduler.initTask_cases with he | ⟨-, -, he⟩ <;> simp only [he]
    · simp
    · split <;> simp
  | deregisterInternalLoops hd hx =>
    refine .inr ⟨rfl, fun hret => ?_⟩
    obtain ⟨hlive, hpending⟩ := DescriptorState.deregisterInternal_eq_none.mp hx
    rcases hret _ _ rfl hd with hshut | hempty
    · simp [hlive] at hshut
    · exact hpending hempty
  | _ => exact .inl ⟨rfl, by simp [Thread.setTop, hc]⟩

theorem endOfWork_continues (s : Shared ι) (f : Run) (thrown : Bool) :
    Continues s (endOfWork s f t thrown) := by
  cases thrown with
  | true => exact ⟨rfl, by simp [endOfWork, Thread.leave_call, hc]⟩
  | false => exact ⟨rfl, by simp [endOfWork, Thread.setTop, hc]⟩

end Continues

theorem runStep_continues {f : Run} (hc : t.call = none)
    (h : runStep hint i s f t = some (s', t')) : Continues s (s', t') := by
  cases runStep_piece h with
  | store =>
    exact ⟨by rw [storeEvent_shared], by simp [Thread.setTop, hc]⟩
  | finished =>
    obtain ⟨hs, hcall⟩ := endOfWork_continues hc s f _
    exact ⟨hs, hcall⟩
  | spliced _ _ _ _ hs₁ =>
    obtain ⟨hs, hcall⟩ := endOfWork_continues hc _ _ _
    exact ⟨hs.trans (by rw [hs₁]), hcall⟩
  | misuse | returns => exact ⟨rfl, by simp [misuse, Thread.leave_call, hc]⟩
  | pop =>
    refine ⟨rfl, ?_⟩
    dsimp only
    rw [Scheduler.popFront_snd]
    split <;> simp
  | workFinished _ ht' =>
    subst ht'
    refine ⟨rfl, ?_⟩
    dsimp only
    split <;> simp [Thread.setTop, hc]
  | _ => exact ⟨rfl, by simp [Thread.setTop, hc]⟩

omit [DecidableEq ι] in
theorem performIoStep_continues {f : Run} (hc : t.call = none) {perform : PerformFunc}
    (h : performIoStep hint s f t perform = some (s', t')) : Continues s (s', t') := by
  simp only [performIoStep] at h
  split at h
  · obtain ⟨x, -, h⟩ := Option.map_eq_some_iff.mp h
    split at h
    · cases h
      exact ⟨rfl, by simp [Thread.setTop, hc]⟩
    · split at h
      · cases h
        exact ⟨rfl, by simp [Thread.setTop, hc]⟩
      · obtain ⟨hs, hcall⟩ := postDeferredCompletions_continues (by exact hc) h
        exact ⟨hs, hcall⟩
  · cases h

/-- A mutex is held for ever from where its thread begins to go round, and the
thread goes round for ever. -/
theorem step_held {a : Action ι} (h : step hint i a s t = some (s', t')) :
    s'.held = s.held ∧ (t'.call = some .transfer ↔ t.call = some .transfer) ∨
      t'.call = some .transfer ∧ ¬ s.Returns a := by
  have continues {call : Option Call} (hcall : t.call = call) (hne : call ≠ some .transfer)
      (hcont : Continues s (s', t')) :
      s'.held = s.held ∧ (t'.call = some .transfer ↔ t.call = some .transfer) ∨
        t'.call = some .transfer ∧ ¬ s.Returns a :=
    .inl ⟨hcont.held, iff_of_false hcont.call (hcall ▸ hne)⟩
  cases step_piece h with
  | user hu h =>
    have hc := (Thread.inUserCode_works hu).1
    rcases userStep_continues hu h with hcont | hloops
    · exact continues hc nofun hcont
    · exact .inr hloops
  | push hcall =>
    refine continues hcall (by simp) ⟨rfl, ?_⟩
    dsimp only
    rw [Scheduler.push_snd]
    split <;> simp
  | stop hcall | notify hcall => exact continues hcall (by simp) ⟨rfl, by simp⟩
  | transfer | waitAgain => exact .inl ⟨rfl, Iff.rfl⟩
  | wake => exact .inl ⟨rfl, Iff.rfl⟩
  | run hc _ h => exact continues hc nofun (runStep_continues hc h)
  | epollWait _ _ h =>
    simp only [epollWaitStep] at h
    split at h
    · simp only [Option.ite_none_right_eq_some] at h
      cases h.2
      exact .inl ⟨rfl, Iff.rfl⟩
    · cases h
  | performIo hc _ h => exact continues hc nofun (performIoStep_continues hc h)

-- ---------------------------------------------------------------------------
-- What is enabled
-- ---------------------------------------------------------------------------

/-- The places that wait for something outside the memory. -/
def Pc.waitsForOutside : Pc → Bool
  | .wait | .runTask _ | .performIo _ _ | .complete _ => true
  | .lock | .loop | .events _ | .taskCleanup | .taskCleanupLock | .popped _ | .workCleanup _
  | .workFinished _ | .workCleanupLock _ => false

omit [DecidableEq ι] in
theorem locked_isSome {f : Run} {r : Shared ι × Thread} (hm : s.mutex = none) :
    (locked s f t r).isSome = true := by
  simp only [locked, hm]
  split <;> rfl

/-- `run()` goes on where the mutex is free. -/
theorem runStep_isSome {f : Run} (hm : s.mutex = none) (hf : f.pc.waitsForOutside = false)
    (hd : ∀ d, f.pc = .popped (.descriptorState d) → d < s.descriptors.length) :
    (runStep hint i s f t).isSome = true := by
  cases hpc : f.pc with
  | lock | taskCleanupLock =>
    simp only [runStep, hpc]
    exact locked_isSome hm
  | loop | taskCleanup | workCleanup | workFinished => simp [runStep, hpc]
  | events evs => cases evs <;> simp [runStep, hpc]
  | popped o =>
    cases o with
    | handler | taskOperation => simp [runStep, hpc]
    | descriptorState d => simp [runStep, hpc, List.getElem?_eq_getElem (hd d hpc)]
  | workCleanupLock =>
    simp only [runStep, hpc]
    split
    · rfl
    · exact locked_isSome hm
  | wait | runTask | performIo | complete => simp [hpc, Pc.waitsForOutside] at hf

/-- A `run()` that owns its lock goes on, whoever waits for the mutex. -/
theorem Thread.LockState.runStep_isSome {f : Run} (hl : t.LockState) (ht : t.top = some f)
    (ho : f.owns = true) : (runStep hint i s f t).isSome = true := by
  rcases (hl f ht).2 ho with hpc | hpc <;> simp [runStep, hpc, locked, ho]

-- ---------------------------------------------------------------------------
-- Every run
-- ---------------------------------------------------------------------------

namespace System

variable {c c' : System ι} {l : ι × Action ι} {m : Uninitialised}

/-- The step needs no call of a caller, no spurious wakeup, and no event for an
`epoll_wait` that blocks. -/
def Due (c : System ι) (l : ι × Action ι) : Prop :=
  match l.2 with
  | .user _ => False
  | .wake => l.1 ∉ c.shared.wakeupEvent.blocked
  | .epollWait _ => (c.thread l.1).polls = true → c.shared.interruptPending = true
  | .call | .notify _ | .next | .performIo _ => True

/-- Nothing happens until a caller does something or an event comes. -/
def Resting (hint : Int) (c : System ι) : Prop := ∀ l, Due c l → System.next hint c l = none

/-- The thread runs code of a caller, or is blocked for good. -/
def Idle (c : System ι) (i : ι) : Prop :=
  (c.thread i).inUserCode = true ∨ (c.thread i).call = none ∧ BlockedForGood c i

variable [Fintype ι]

/-- What holds in every state of what a thread needs to go on. -/
structure Unhindered (c : System ι) : Prop extends StopInvariant c where
  ownsFree : ∀ j, (c.thread j).OwnsFree
  queued : ∀ d, .descriptorState d ∈ c.shared.opQueue → d < c.shared.descriptors.length
  referred : ∀ j d, (c.thread j).Refers d → d < c.shared.descriptors.length
  held : c.shared.held ≠ [] → ∃ j, (c.thread j).call = some .transfer

omit [DecidableEq ι] in
theorem Unhindered.new (m : Uninitialised) : Unhindered (System.new m : System ι) where
  toStopInvariant := .new m
  ownsFree _ _ := rfl
  queued _ h := by cases h
  referred _ _ h := by simp [System.new, Thread.Refers] at h
  held h := absurd rfl h

theorem Unhindered.next (h : Unhindered c) (hn : System.next hint c l = some c') :
    Unhindered c' := by
  have h' := h.toStopInvariant.next hn
  obtain ⟨s, t, hs, rfl⟩ := Threads.next_eq_some.mp hn
  have hlen := (step_reports hs).length
  refine ⟨h', fun j => ?_, fun d hd => ?_, fun j d hd => ?_, fun hheld => ?_⟩
  · exact Threads.forall_next (I := fun _ _ t => t.OwnsFree) hn
      (fun s t hs => (step_cases hs).ownsFree (h.locks l.1) (h.ownsFree l.1))
      (fun _ _ _ j _ => h.ownsFree j) j
  · rcases (step_cases hs).descriptor_queued (h.queues l.1) hd with hd | hd
    · exact (h.queued d hd).trans_le hlen
    · exact (h.referred l.1 d hd).trans_le hlen
  · by_cases hj : j = l.1
    · subst hj
      rw [Threads.set_thread_self] at hd
      have hq : t.QueueState := by simpa using h'.queues l.1
      rcases step_refers hq hs hd with hd | hd | hd
      · exact (h.referred l.1 d hd).trans_le hlen
      · exact (h.queued d hd).trans_le hlen
      · exact hd.trans_le hlen
    · rw [Threads.set_thread_ne c hj] at hd
      exact (h.referred j d hd).trans_le hlen
  · rcases step_held hs with ⟨hsame, hcall⟩ | ⟨hcall, -⟩
    · obtain ⟨j, hj⟩ := h.held (hsame ▸ hheld)
      by_cases he : j = l.1
      · subst he
        exact ⟨l.1, by simpa using hcall.mpr hj⟩
      · exact ⟨j, by rwa [Threads.set_thread_ne c he]⟩
    · exact ⟨l.1, by simpa using hcall⟩

theorem Reachable.unhindered (h : Reachable hint m c) : Unhindered c :=
  Reach.invariant h (.new m) fun _ _ _ _ hi _ hn => hi.next hn

/-- No thread is in a `deregister_internal_descriptor` that goes round for ever. -/
def CallsReturn (c : System ι) : Prop := ∀ j, (c.thread j).call ≠ some .transfer

omit [Fintype ι] in
theorem CallsReturn.next (h : CallsReturn c) (hret : c.shared.Returns l.2)
    (hn : System.next hint c l = some c') : CallsReturn c' := fun j => by
  obtain ⟨s, t, hs, rfl⟩ := Threads.next_eq_some.mp hn
  by_cases hj : j = l.1
  · subst hj
    rw [Threads.set_thread_self]
    rcases step_held hs with ⟨-, hcall⟩ | ⟨-, hloops⟩
    · exact fun ht => h l.1 (hcall.mp ht)
    · exact absurd hret hloops
  · rw [Threads.set_thread_ne c hj]
    exact h j

omit [Fintype ι] in
theorem Resting.step_eq_none (h : Resting hint c) {i : ι} {a : Action ι} (hd : Due c (i, a)) :
    step hint i a c.shared (c.thread i) = none := by
  have hn := h (i, a) hd
  simpa [System.next, Threads.next] using hn

theorem Unhindered.mutex_free (h : Unhindered c) (hr : Resting hint c) : c.shared.mutex = none := by
  cases hm : c.shared.mutex with
  | none => rfl
  | some j =>
    obtain ⟨f, ht, ho⟩ := (h.locks j).owner.mp hm
    have hc := h.ownsFree j ⟨f, ht, ho⟩
    have hnone := hr.step_eq_none (i := j) (a := .next) trivial
    have hsome : (runStep hint j c.shared f (c.thread j)).isSome :=
      (h.locks j).state.runStep_isSome ht ho
    simp only [step, hc, Option.isNone_none, if_true, ht, Option.bind_some] at hnone
    simp [hnone] at hsome

omit [Fintype ι] in
theorem Resting.call_eq_none (hr : Resting hint c) (hm : c.shared.mutex = none) (i : ι) :
    (c.thread i).call = none := by
  cases hc : (c.thread i).call with
  | none => rfl
  | some call =>
    cases call with
    | push | stop | transfer =>
      have := hr.step_eq_none (i := i) (a := .call) trivial
      simp [step, callStep, hc, hm] at this
    | notifyOne =>
      obtain ⟨j, hj⟩ : ∃ j, c.shared.wakeupEvent.blocked = ∅ ∨
          j ∈ c.shared.wakeupEvent.blocked := by
        rcases c.shared.wakeupEvent.blocked.eq_empty_or_nonempty with he | ⟨j, hj⟩
        · exact ⟨i, .inl he⟩
        · exact ⟨j, .inr hj⟩
      have := hr.step_eq_none (i := i) (a := .notify j) trivial
      simp [step, notifyStep, hc, hj] at this

theorem Unhindered.idle (h : Unhindered c) (hr : Resting hint c) (i : ι) : Idle c i := by
  have hm := h.mutex_free hr
  have hcalls := hr.call_eq_none hm
  have hc := hcalls i
  have hquiet : ¬ NotifyDue c := fun ⟨j, hj⟩ => by simp [hcalls j] at hj
  have hheld : c.shared.held = [] := by
    by_contra hne
    obtain ⟨j, hj⟩ := h.held hne
    simp [hcalls j] at hj
  cases ht : (c.thread i).top with
  | none => exact .inl (by simp [Thread.inUserCode, hc, ht])
  | some f =>
    have hphase := Thread.phase_of_top ht
    cases hpc : f.pc with
    | complete id => exact .inl (by simp [Thread.inUserCode, hc, ht, hpc])
    | wait =>
      refine .inr ⟨hc, .inl ⟨by simp [Thread.waits, hphase, hpc], ?_, hquiet⟩⟩
      by_contra hb
      have := hr.step_eq_none (i := i) (a := .wake) hb
      simp only [step, hc, ht, Option.isNone_none, if_true, Option.bind_some, wakeStep, hpc, hm,
        and_self] at this
      split at this <;> cases this
    | runTask block =>
      have hstep : step hint i (.epollWait []) c.shared (c.thread i) ≠ none := by
        simp [step, hc, ht, epollWaitStep, hpc]
      have hdue : ¬ Due c (i, .epollWait []) := fun hd => hstep (hr.step_eq_none hd)
      simp only [Due, Classical.not_imp, Bool.not_eq_true] at hdue
      exact .inr ⟨hc, .inr hdue⟩
    | performIo d events =>
      have hd := h.referred i d ⟨f, ht, .inr (.inr ⟨events, hpc⟩)⟩
      have := hr.step_eq_none (i := i) (a := .performIo fun _ => (.notDone, 0)) trivial
      simp [step, hc, ht, performIoStep, hpc, Shared.lockDescriptor, hheld,
        List.getElem?_eq_getElem hd] at this
    | _ =>
      have hsome : (runStep hint i c.shared f (c.thread i)).isSome :=
        runStep_isSome hm (by simp [hpc, Pc.waitsForOutside])
          fun d hd => h.referred i d ⟨f, ht, .inr (.inl hd)⟩
      have hnone := hr.step_eq_none (i := i) (a := .next) trivial
      simp only [step, hc, Option.isNone_none, if_true, ht, Option.bind_some] at hnone
      simp [hnone] at hsome

omit [Fintype ι] in
/-- A thread in code of a caller has no step that is due. -/
theorem Idle.step_eq_none {i : ι} {a : Action ι} (h : Idle c i) (hd : Due c (i, a)) :
    step hint i a c.shared (c.thread i) = none := by
  rw [← Option.not_isSome_iff_eq_none]
  intro hs
  obtain ⟨⟨s, t⟩, hs⟩ := Option.isSome_iff_exists.mp hs
  have hcall : (c.thread i).call = none := by
    rcases h with hu | ⟨hc, -⟩
    · exact (Thread.inUserCode_works hu).1
    · exact hc
  have place {f : Run} (ht : (c.thread i).top = some f) :
      (∃ id, f.pc = .complete id) ∨ (f.pc = .wait ∧ i ∈ c.shared.wakeupEvent.blocked) ∨
        f.pc = .runTask true ∧ c.shared.interruptPending = false := by
    rcases h with hu | ⟨-, ⟨hw, hb, -⟩ | ⟨hp, hi⟩⟩
    · exact .inl (Thread.inUserCode_top hu ht)
    · simp only [Thread.waits, Thread.phase_of_top ht, beq_iff_eq, Option.some.injEq] at hw
      cases hpc : f.pc <;> simp [hpc] at hw
      exact .inr (.inl ⟨rfl, hb⟩)
    · simp only [Thread.polls, Thread.phase_of_top ht, beq_iff_eq, Option.some.injEq] at hp
      cases hpc : f.pc <;> simp [hpc] at hp
      exact .inr (.inr ⟨by rw [hp], hi⟩)
  cases step_piece hs with
  | user => exact hd
  | push hc | stop hc | notify hc | transfer hc => simp [hcall] at hc
  | run _ ht h =>
    rcases place ht with ⟨id, hpc⟩ | ⟨hpc, -⟩ | ⟨hpc, -⟩ <;> simp [runStep, hpc] at h
  | wake _ ht hpc | waitAgain _ ht hpc =>
    rcases place ht with ⟨id, hpc'⟩ | ⟨-, hb⟩ | ⟨hpc', -⟩
    · simp [hpc] at hpc'
    · exact hd hb
    · simp [hpc] at hpc'
  | epollWait _ ht h =>
    rcases place ht with ⟨id, hpc⟩ | ⟨hpc, -⟩ | ⟨hpc, hi⟩
    · simp [epollWaitStep, hpc] at h
    · simp [epollWaitStep, hpc] at h
    · have hpending := hd (by simp [Thread.polls, Thread.phase_of_top ht, hpc])
      simp [hi] at hpending
  | performIo _ ht h =>
    rcases place ht with ⟨id, hpc⟩ | ⟨hpc, -⟩ | ⟨hpc, -⟩ <;> simp [performIoStep, hpc] at h

omit [Fintype ι] in
theorem resting_of_idle (h : ∀ i, Idle c i) : Resting hint c := fun l hd => by
  have hnone : step hint l.1 l.2 c.shared (c.thread l.1) = none := (h l.1).step_eq_none hd
  simp [System.next, Threads.next, hnone]

/-- A reachable state rests if and only if every thread runs code of a caller or
is blocked for good. A thread that goes round in `deregister_internal_descriptor`
is neither, and always has a step. -/
theorem resting_iff (hint : Int) (m : Uninitialised) (c : System ι) (h : Reachable hint m c) :
    Resting hint c ↔ ∀ i, Idle c i :=
  ⟨h.unhindered.idle, resting_of_idle⟩

/-- A thread waits in `run()` and executes the one operation that another
submits. -/
def runOne : List (Fin 3 × Action (Fin 3)) :=
  [(first, .user .onWorkStarted), (first, .user .run), (first, .next), (first, .next),
    (second, .user (.doDispatch 0)), (second, .call), (second, .notify first), (first, .wake),
    (first, .next), (first, .next), (first, .user (.handlerEnd false)), (first, .next),
    (first, .next), (first, .next), (first, .next), (first, .next)]

theorem runOne_state :
    ∃ c : System (Fin 3), exec (System.next 0) (System.new {}) runOne = some c ∧
      ((c.thread 0).waits = true ∧ 0 ∈ c.shared.wakeupEvent.blocked) ∧
      (∀ i, i ≠ 0 → (c.thread i).inUserCode = true) ∧ (∀ i, (c.thread i).call.isNone = true) ∧
      (∀ i, (c.thread i).stack.isEmpty = true) ∧ (∀ i, i ≠ 0 → (c.thread i).top.isNone = true) ∧
      c.shared.exceptions = 0 :=
  ⟨_, rfl, by decide, by decide, by decide, by decide, by decide, by decide⟩

theorem idle_of_waits {c : System (Fin 3)}
    (hw : (c.thread 0).waits = true ∧ 0 ∈ c.shared.wakeupEvent.blocked)
    (hu : ∀ i, i ≠ 0 → (c.thread i).inUserCode = true)
    (hc : ∀ i, (c.thread i).call.isNone = true) (i : Fin 3) : Idle c i := by
  simp only [Option.isNone_iff_eq_none] at hc
  by_cases hi : i = 0
  · subst hi
    refine .inr ⟨hc 0, .inl ⟨hw.1, hw.2, fun ⟨j, hj⟩ => ?_⟩⟩
    rw [hc j] at hj
    cases hj
  · exact .inl (hu i hi)

theorem resting_iff_runOne :
    ∃ c : System (Fin 3), exec (System.next 0) (System.new {}) runOne = some c ∧
      (Resting 0 c ↔ ∀ i, Idle c i) ∧ ∀ i, Idle c i := by
  obtain ⟨c, he, hw, hu, hc, -⟩ := runOne_state
  exact ⟨c, he, resting_iff 0 {} c (.of_exec runOne (allSteps_trivial _ _) he),
    idle_of_waits hw hu hc⟩

-- ---------------------------------------------------------------------------
-- What was done
-- ---------------------------------------------------------------------------

/-- A handler is in progress, in the innermost `run()` or below it. -/
def InHandler (c : System ι) (i : ι) : Prop :=
  (c.thread i).stack ≠ [] ∨ ∃ f id, (c.thread i).top = some f ∧ f.pc = .complete id

omit [DecidableEq ι] [Fintype ι] in
/-- A thread that is blocked, or outside `run()`, has no operation. -/
theorem Idle.has_eq_zero {i : ι} (h : Idle c i) (hq : (c.thread i).QueueState)
    (hno : ¬ InHandler c i) (id : Nat) : (c.thread i).has id = 0 := by
  simp only [InHandler, not_or, ne_eq, not_not, not_exists, not_and] at hno
  obtain ⟨hstack, hno⟩ := hno
  cases ht : (c.thread i).top with
  | none => simp [Thread.has, Thread.tally, ht, hstack]
  | some f =>
    have hpc : f.pc = .wait ∨ f.pc = .runTask true := by
      rcases h with hu | ⟨-, ⟨hw, -⟩ | ⟨hp, -⟩⟩
      · obtain ⟨id', hid⟩ := Thread.inUserCode_top hu ht
        exact absurd hid (hno f id' ht)
      · simp only [Thread.waits, Thread.phase_of_top ht, beq_iff_eq, Option.some.injEq] at hw
        cases hpc : f.pc <;> simp [hpc] at hw
        exact .inl rfl
      · simp only [Thread.polls, Thread.phase_of_top ht, beq_iff_eq, Option.some.injEq] at hp
        cases hpc : f.pc <;> simp [hpc] at hp
        exact .inr (by rw [hp])
    have hempty : f.info.privateOpQueue = [] := by
      have hallows := hq.top f ht
      rcases hpc with hpc | hpc <;> simpa [hpc] using hallows
    rcases hpc with hpc | hpc <;>
      simp [Thread.has, Thread.tally, ht, hstack, hempty, hpc, Pc.executing]

omit [DecidableEq ι] in
theorem conserved_new (m : Uninitialised) : Conserved (System.new m : System ι) := fun id => by
  simp [System.new, Shared.new, Thread.has, Thread.tally]

omit [DecidableEq ι] [Fintype ι] in
/-- Without `one_thread_` nothing is dropped. -/
theorem nothingDropped_of_hint (h : oneThread hint = false) (c : System ι) (l : ι × Action ι) :
    NothingDropped hint c l := by
  unfold NothingDropped dropped
  split
  · simp [droppedBy, h]
  · rfl

/-- With one runner and nothing dropped: at rest with a thread inside `run()`
and no handler in progress, the operations made are those executed and those
pending on descriptors. -/
theorem resting_done (hint : Int) (m : Uninitialised) (c : System ι)
    (h : Reach (System.next hint) (fun c l => OneRunner hint c l ∧ NothingDropped hint c l)
      (System.new m) c)
    (hx : c.shared.exceptions = 0) (hr : Resting hint c)
    (hin : ∃ i, (c.thread i).phase.isSome = true) (hno : ∀ i, ¬ InHandler c i) :
    c.shared.opQueue = [] ∧
      (c.shared.executed ++ c.shared.descriptors.flatMap DescriptorState.pendingIds).Perm
        c.shared.created := by
  have hwake : WakeInvariant hint c :=
    (h.mono fun _ _ hok => hok.1).invariant (.new m) fun _ _ _ _ hi hl hn => hi.next hl hn
  have hacc : Account c ∧ Conserved c :=
    Reach.invariant (I := fun c => Account c ∧ Conserved c) (h.mono fun _ _ hok => hok.2)
      ⟨.new m, conserved_new m⟩
      fun _ _ _ _ hi hl hn => ⟨hi.1.next hn, (hi.2.next_iff hi.1 hn).mpr hl⟩
  have hidle : ∀ i, Idle c i :=
    Unhindered.idle (Reachable.unhindered (h.mono fun _ _ _ => trivial)) hr
  have hcalls (i : ι) : (c.thread i).call = none := by
    rcases hidle i with hu | ⟨hc, -⟩
    · exact (Thread.inUserCode_works hu).1
    · exact hc
  have hq : c.shared.opQueue = [] := by
    by_contra hq
    obtain ⟨i, hi, hblocked⟩ := hwake.awake hx hq hin
    rcases hidle i with hu | ⟨-, hb⟩
    · obtain ⟨f, ht⟩ := Option.isSome_iff_exists.mp (by simpa [Thread.phase] using hi)
      obtain ⟨id, hpc⟩ := Thread.inUserCode_top hu ht
      exact hno i (.inr ⟨f, id, ht, hpc⟩)
    · exact hblocked hb
  refine ⟨hq, List.perm_iff_count.mpr fun id => ?_⟩
  have hexec : c.shared.executed.count id = c.shared.handed.count id := by
    have hcons := hacc.2 id
    have hle := hacc.1.handed_le id
    simp only [hq, handlers_nil, List.count_nil, Nat.zero_add,
      Finset.sum_eq_zero fun i _ => (hidle i).has_eq_zero (hacc.1.queues i) (hno i) id] at hcons
    rw [hcons]
    split
    · rename_i hm
      have := List.count_pos_iff.mpr hm
      omega
    · rename_i hm
      exact (List.count_eq_zero.mpr hm).symm
  have hknown := hacc.1.known fun x => if x = id then 1 else 0
  have htransit (i : ι) : weigh (fun x => if x = id then 1 else 0) (c.thread i).transit = 0 := by
    simp [Thread.transit_none (hcalls i)]
  simp only [known, Threads.total, htransit, Finset.sum_const_zero, Nat.add_zero, weigh_count,
    Shared.pending] at hknown
  rw [List.count_append, List.count_flatMap, hexec, ← hknown]
  rfl

theorem resting_done_runOne :
    ∃ c : System (Fin 3), exec (System.next 0) (System.new {}) runOne = some c ∧
      c.shared.opQueue = [] ∧
      (c.shared.executed ++ c.shared.descriptors.flatMap DescriptorState.pendingIds).Perm
        c.shared.created := by
  obtain ⟨c, he, hw, hu, hc, hstack, htop, hx⟩ := runOne_state
  have hrun : Reach (System.next 0) (fun c l => OneRunner 0 c l ∧ NothingDropped 0 c l)
      (System.new {}) c :=
    (Reach.of_exec runOne (allSteps_trivial _ _) he).mono fun c l _ =>
      ⟨fun h => absurd h (by decide), nothingDropped_of_hint rfl c l⟩
  refine ⟨c, he, resting_done 0 {} c hrun hx (resting_of_idle (idle_of_waits hw hu hc))
    ⟨0, ?_⟩ ?_⟩
  · simp only [Thread.waits, beq_iff_eq] at hw
    simp [hw]
  · rintro i (hs | ⟨f, id, ht, hpc⟩)
    · exact hs (List.isEmpty_iff.mp (hstack i))
    · by_cases hi : i = 0
      · subst hi
        simp [Thread.waits, Thread.phase_of_top ht, hpc] at hw
      · have := htop i hi
        simp [ht] at this

end System

end BoostAsio
