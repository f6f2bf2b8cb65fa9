import BoostAsio.Rest
import BoostAsio.WorkCount

/-!
# How long run() lasts

A caller that holds a unit of work keeps `run()` going: `outstanding_work_`
does not come to 0, no `stop` is called but by callers, and a `run()` ends by an
exception or not at all (`work_keeps_running`).

Whoever takes `outstanding_work_` to 0 calls `stop`. A system at rest without
work therefore has no thread left inside `run()`, unless in a handler
(`no_work_ends`).
-/

namespace BoostAsio

open Runs

variable {ι : Type} {hint : Int} {i : ι} {s s' : Shared ι} {t t' : Thread}

-- ---------------------------------------------------------------------------
-- Where a call of stop comes from
-- ---------------------------------------------------------------------------

/-- What a submitting function does not do: take a unit from a caller, or stop. -/
structure KeepsWork (s : Shared ι) (r : Shared ι × Thread) : Prop where
  external : s.externalWork ≤ r.1.externalWork
  call : r.2.call ≠ some .stop

section Submit

variable (hc : t.call = none)
include hc

theorem postImmediateCompletion_keepsWork {id : Nat} {cont : Bool} {r : Shared ι × Thread}
    (h : postImmediateCompletion hint id cont s t = r) : KeepsWork s r := by
  subst h
  unfold postImmediateCompletion
  split
  · exact ⟨Nat.le_refl _, by simp [Thread.setTop, hc]⟩
  · exact ⟨Nat.le_refl _, by simp⟩

theorem postDeferredCompletion_keepsWork {id : Nat} {r : Shared ι × Thread}
    (h : postDeferredCompletion hint id s t = r) : KeepsWork s r := by
  subst h
  unfold postDeferredCompletion
  split
  · exact ⟨Nat.le_refl _, by simp [Thread.setTop, hc]⟩
  · exact ⟨Nat.le_refl _, by simp⟩

theorem postDeferredCompletions_keepsWork {ids : List Nat} {r : Shared ι × Thread}
    (h : (postDeferredCompletions hint ids s t).2 = r) : KeepsWork s r := by
  subst h
  unfold postDeferredCompletions
  split
  · exact ⟨Nat.le_refl _, by simp [Thread.setTop, hc]⟩
  · exact ⟨Nat.le_refl _, by simp⟩

end Submit

/-- What a step may do to the work, and to the call of its thread: it calls
`stop` if it finishes the last unit, or if the caller says so, or for a `run()`
without work. -/
structure StopsLast (s : Shared ι) (t : Thread) (a : Action ι) (s' : Shared ι) (t' : Thread) :
    Prop where
  call : t'.call = some .stop → a = .user .stop ∨ (a = .user .run ∧ s.outstandingWork = 0) ∨
    s'.outstandingWork = 0
  external : a ≠ .user .onWorkFinished → s.externalWork ≤ s'.externalWork

theorem KeepsWork.stopsLast {s₁ : Shared ι} (h : KeepsWork s₁ (s', t'))
    (hx : s₁.externalWork = s.externalWork) (a : Action ι) : StopsLast s t a s' t' where
  call hc := absurd hc h.call
  external _ := hx ▸ h.external

theorem userStep_stopsLast (hu : t.inUserCode = true) {u : UserAction}
    (h : userStep hint s t u = some (s', t')) : StopsLast s t (.user u) s' t' := by
  have hc := (Thread.inUserCode_works hu).1
  have same {r : Shared ι × Thread} (he : r = (s', t'))
      (hx : s.externalWork ≤ r.1.externalWork)
      (hr : r.2.call ≠ some .stop) :
      StopsLast s t (.user u) s' t' := by
    subst he
    exact KeepsWork.stopsLast ⟨hx, hr⟩ rfl _
  cases userStep_piece hu h with
  | onWorkStarted => exact same rfl (Nat.le_succ _) (by simp [hc])
  | doDispatch => exact same rfl (Nat.le_refl _) (by simp)
  | onWorkFinished =>
    refine ⟨fun h => ?_, fun h => absurd rfl h⟩
    split at h
    · rename_i hz
      exact .inr (.inr hz)
    · simp [hc] at h
  | stop => exact ⟨fun _ => .inl rfl, fun _ => Nat.le_refl _⟩
  | runWithoutWork hz => exact ⟨fun _ => .inr (.inl ⟨rfl, hz⟩), fun _ => Nat.le_refl _⟩
  | deregisterInternalLoops => exact same rfl (Nat.le_refl _) (by simp)
  | initTask =>
    refine same rfl (Nat.le_refl _) ?_
    rcases s.toScheduler.initTask_cases with he | ⟨-, -, he⟩ <;> rw [he]
    · simp
    · split <;> simp
  | postImmediate _ h =>
    exact (postImmediateCompletion_keepsWork hc h).stopsLast (by rfl) _
  | postDeferred _ h => exact (postDeferredCompletion_keepsWork hc h).stopsLast (by rfl) _
  | postAllDeferred _ h =>
    exact (postDeferredCompletions_keepsWork hc h).stopsLast (by rfl) _
  | startOpNull _ h => exact (postImmediateCompletion_keepsWork hc h).stopsLast (by rfl) _
  | startOp _ _ h =>
    split at h
    · exact (postImmediateCompletion_keepsWork hc h).stopsLast (by rfl) _
    · cases h
      exact same rfl (Nat.le_refl _) (by simp [hc])
  | cancelOps _ h => exact (postDeferredCompletions_keepsWork hc h).stopsLast (by rfl) _
  | deregister _ _ h => exact (postDeferredCompletions_keepsWork hc h).stopsLast (by rfl) _
  | deregisterInternal _ _ h =>
    exact (postDeferredCompletions_keepsWork hc h).stopsLast (by rfl) _
  | restart | run | nest | registerDescriptor | registerInternal | cancelOpsNull
  | deregisterNull | deregisterShut | deregisterInternalNull | deregisterInternalShut
  | handlerEnd =>
    refine same rfl (Nat.le_refl _) ?_
    simp [Thread.setTop, hc]

section RunStep

variable [DecidableEq ι] {f : Run}

omit [DecidableEq ι] in
theorem endOfWork_keepsWork (hc : t.call = none) (thrown : Bool) :
    KeepsWork s (endOfWork s f t thrown) := by
  cases thrown with
  | true => exact ⟨Nat.le_refl _, by simp [endOfWork, Thread.leave_call, hc]⟩
  | false => exact ⟨Nat.le_refl _, by simp [endOfWork, Thread.setTop, hc]⟩

theorem runStep_stopsLast (hc : t.call = none) (h : runStep hint i s f t = some (s', t')) :
    StopsLast s t .next s' t' := by
  have same {r : Shared ι × Thread} (he : r = (s', t'))
      (hx : s.externalWork ≤ r.1.externalWork)
      (hr : r.2.call ≠ some .stop) :
      StopsLast s t .next s' t' := by
    subst he
    exact KeepsWork.stopsLast ⟨hx, hr⟩ rfl _
  cases runStep_piece h with
  | lock | wait | batchEnd | taskCleanup | complete | performIo | taskCompleted =>
    exact same rfl (Nat.le_refl _) (by simp [Thread.setTop, hc])
  | store =>
    exact same rfl (by rw [storeEvent_shared]) (by simp [Thread.setTop, hc])
  | taskMerge | workMerge =>
    exact same rfl (Nat.le_refl _) (by simp [Thread.setTop, hc])
  | misuse | returns =>
    exact same rfl (Nat.le_refl _) (by simp [misuse, Thread.leave_call, hc])
  | pop =>
    refine same rfl (Nat.le_refl _) ?_
    rw [Scheduler.popFront_snd]
    split <;> simp
  | workFinished _ ht' =>
    refine ⟨fun h => ?_, fun _ => Nat.le_refl _⟩
    split at h
    · rename_i hz
      exact .inr (.inr hz)
    · simp [ht', Thread.setTop, hc] at h
  | finished => exact (endOfWork_keepsWork hc _).stopsLast (by rfl) _
  | spliced _ _ _ _ hs₁ => exact (endOfWork_keepsWork hc _).stopsLast (by rw [hs₁]) _

theorem step_stopsLast {a : Action ι} (h : step hint i a s t = some (s', t')) :
    StopsLast s t a s' t' := by
  have same {r : Shared ι × Thread} (he : r = (s', t'))
      (hx : s.externalWork ≤ r.1.externalWork)
      (hr : r.2.call ≠ some .stop) :
      StopsLast s t a s' t' := by
    subst he
    exact KeepsWork.stopsLast ⟨hx, hr⟩ rfl _
  cases step_piece h with
  | user hu h => exact userStep_stopsLast hu h
  | push =>
    refine same rfl (Nat.le_refl _) ?_
    rw [Scheduler.push_snd]
    split <;> simp
  | stop | notify => exact same rfl (Nat.le_refl _) (by simp)
  | transfer hcall => exact same rfl (Nat.le_refl _) (by simp [hcall])
  | run hc ht h => exact runStep_stopsLast hc h
  | wake hc | waitAgain hc =>
    exact same rfl (Nat.le_refl _) (by simp [Thread.setTop, hc])
  | epollWait hc ht h =>
    simp only [epollWaitStep] at h
    split at h
    · simp only [Option.ite_none_right_eq_some] at h
      cases h.2
      exact same rfl (Nat.le_refl _) (by simp [Thread.setTop, hc])
    · cases h
  | performIo hc ht h =>
    simp only [performIoStep] at h
    split at h
    · obtain ⟨x, -, h⟩ := Option.map_eq_some_iff.mp h
      split at h
      · cases h
        exact same rfl (Nat.le_refl _) (by simp [Thread.setTop, hc])
      · split at h
        · cases h
          exact same rfl (Nat.le_refl _) (by simp [Thread.setTop, hc])
        · exact (postDeferredCompletions_keepsWork (by exact hc) h).stopsLast (by rfl) _
    · cases h

end RunStep

-- ---------------------------------------------------------------------------
-- The run() calls of a thread
-- ---------------------------------------------------------------------------

def Thread.depth (t : Thread) : Nat := t.stack.length + t.top.isSome.toNat

theorem Thread.depth_leave {f : Run} (ht : t.top = some f) : t.leave.depth + 1 = t.depth := by
  cases hs : t.stack <;> simp [depth, leave, ht, hs]

section Step

variable [DecidableEq ι] {s s' : Scheduler ι} {a : Action ι}

/-- Unless the scheduler is stopped a `run()` ends by an exception only. -/
theorem Step.depth (h : Step hint i s t a s' t') (hs : s.stopped = false) :
    t.depth + s.exceptions ≤ t'.depth + s'.exceptions := by
  have same {f : Run} (ht : t.top = some f) (g : Run) (call : Option Call) :
      t.depth = Thread.depth ⟨some g, t.stack, call⟩ := by
    simp [Thread.depth, ht]
  have thrown {f : Run} (ht : t.top = some f) :
      t.depth + s.exceptions ≤ t.leave.depth + (s.exceptions + 1) := by
    have := Thread.depth_leave ht
    omega
  cases h with
  | quiet hc hstack htop =>
    have hsome : t'.top.isSome = t.top.isSome := by
      have := congrArg Option.isSome htop.phase
      simpa [Thread.phase] using this
    rw [Thread.depth, Thread.depth, hstack, hsome]
  | stored _ ht | lock _ ht | wait _ ht | taskCleanup _ ht | finished _ ht | spliced _ ht
  | wake _ ht | epollWait _ ht => exact Nat.add_le_add_right (same ht _ _).le _
  | restart | notify | transfer | waitAgain => exact Nat.le_refl _
  | stop => rw [Scheduler.stopAllThreads_eq]; exact Nat.le_refl _
  | initTask => rcases s.initTask_cases with he | ⟨-, he, -⟩ <;> rw [he] <;> exact Nat.le_refl _
  | enter _ ht => simp [Thread.depth, ht]
  | nest _ ht => simp [Thread.depth, ht]
  | push => rw [Scheduler.push_fst]; exact Nat.le_refl _
  | misuse _ ht | threw _ ht | splicedThrew _ ht => exact thrown ht
  | returns _ _ _ hstop => simp [hs] at hstop
  | pop _ ht => rw [Scheduler.popFront_fst]; exact Nat.add_le_add_right (same ht _ _).le _

theorem Step.stopped (h : Step hint i s t a s' t') (hs : s'.stopped = true) :
    s.stopped = true ∨ t.call = some .stop := by
  cases h with
  | stop hc => exact .inr hc
  | initTask => rcases s.initTask_cases with he | ⟨-, he, -⟩ <;> rw [he] at hs <;> exact .inl hs
  | push => rw [Scheduler.push_fst] at hs; exact .inl hs
  | pop => rw [Scheduler.popFront_fst] at hs; exact .inl hs
  | restart => cases hs
  | _ => exact .inl hs

/-- A thread that has begun to call `stop` calls it. -/
theorem Step.stops (h : Step hint i s t a s' t') (hc : t.call = some .stop) :
    s'.stopped = true := by
  cases h with
  | stop => rw [Scheduler.stopAllThreads_eq]
  | push hc' | notify hc' => rw [hc] at hc'; cases hc'
  | _ hc' => rw [hc] at hc'; cases hc'

end Step

namespace System

variable [DecidableEq ι] {c c' : System ι} {l : ι × Action ι} {m : Uninitialised}

-- ---------------------------------------------------------------------------
-- With work
-- ---------------------------------------------------------------------------

/-- The step keeps the balance of the work, and leaves a caller with a unit; it
does not stop the scheduler either. -/
def Guarded (hint : Int) (c : System ι) (l : ι × Action ι) : Prop :=
  (CountsItsOwn l.2 ∧ KeepsCount hint c l) ∧ l.2 ≠ .user .stop ∧
    (l.2 = .user .onWorkFinished → 1 < c.shared.externalWork)

variable [Fintype ι]

omit [DecidableEq ι] in
/-- A unit that a caller holds is counted. -/
theorem Counted.externalWork_le (h : Counted c) :
    c.shared.externalWork ≤ c.shared.outstandingWork := by
  have hb := h.balanced
  have hle : ∑ i, (c.thread i).privateWork ≤ ∑ i, (c.thread i).unfinished :=
    Finset.sum_le_sum fun i _ => (h.backed i).le
  rw [Balanced] at hb
  omega

omit [DecidableEq ι] in
theorem counted_new (hm : m.outstandingWork = 0) : Counted (System.new m : System ι) where
  account := .new m
  backed _ := ⟨by simp [System.new], by simp [System.new]⟩
  work_lt := by simp [System.new, Shared.new, hm]
  balanced := by
    simp [Balanced, System.new, Shared.new, Thread.privateWork, Thread.unfinished, Thread.tally,
      Thread.transit, hm]

/-- No `run()` has returned since `c₀`: those that ended did so by one exception
each, of a handler or of a lock that is misused. -/
structure KeptRunning (c₀ c : System ι) : Prop where
  stopped : c.shared.stopped = false
  work : 0 < c.shared.outstandingWork
  running : ∀ i, (c₀.thread i).depth + c₀.shared.exceptions ≤
    (c.thread i).depth + c.shared.exceptions

structure Alive (c₀ c : System ι) : Prop where
  counted : Counted c
  external : 0 < c.shared.externalWork
  stopped : c.shared.stopped = false
  calls : ∀ i, (c.thread i).call ≠ some .stop
  running : ∀ i, (c₀.thread i).depth + c₀.shared.exceptions ≤
    (c.thread i).depth + c.shared.exceptions

omit [DecidableEq ι] in
theorem Alive.keptRunning {c₀ : System ι} (h : Alive c₀ c) : KeptRunning c₀ c where
  stopped := h.stopped
  work := h.external.trans_le h.counted.externalWork_le
  running := h.running

theorem Alive.next {c₀ : System ι} (h : Alive c₀ c) (hok : Guarded hint c l)
    (hn : System.next hint c l = some c') : Alive c₀ c' := by
  have hcounted := h.counted.next hok.1.1 hok.1.2 hn
  have hle := hcounted.externalWork_le
  obtain ⟨s, t, hs, rfl⟩ := Threads.next_eq_some.mp hn
  have hlast := step_stopsLast hs
  have hstep := step_cases hs
  have hext : 0 < s.externalWork := by
    by_cases ha : l.2 = .user .onWorkFinished
    · have hheld := hok.2.2 ha
      rw [ha] at hs
      simp only [step, userStep, Option.ite_none_right_eq_some,
        Option.ite_none_left_eq_some, Option.some.injEq, Prod.mk.injEq] at hs
      rw [← hs.2.2.1]
      exact Nat.sub_pos_of_lt hheld
    · exact h.external.trans_le (hlast.external ha)
  refine ⟨hcounted, hext, ?_, fun j => ?_, fun j => ?_⟩
  · rw [← Bool.not_eq_true]
    intro hstop
    rcases hstep.stopped hstop with hstop | hcall
    · simp [h.stopped] at hstop
    · exact h.calls _ hcall
  · by_cases hj : j = l.1
    · subst hj
      rw [Threads.set_thread_self]
      intro hcall
      have hwork : 0 < s.outstandingWork := hext.trans_le hle
      rcases hlast.call hcall with ha | ⟨-, hz⟩ | hz
      · exact hok.2.1 ha
      · have := h.external.trans_le h.counted.externalWork_le
        omega
      · omega
    · rw [Threads.set_thread_ne c hj]
      exact h.calls j
  · have hrun := h.running j
    have hx : c.shared.exceptions ≤ s.exceptions := hstep.exceptions_le
    by_cases hj : j = l.1
    · subst hj
      rw [Threads.set_thread_self]
      exact hrun.trans (hstep.depth h.stopped)
    · rw [Threads.set_thread_ne c hj]
      exact hrun.trans (Nat.add_le_add_left hx _)

/-- With a counter that starts at 0 and is kept: while a caller holds a unit of
work and none calls `stop`, the scheduler is not stopped, `outstanding_work_` is
not 0, and no `run()` returns. One ends by an exception, of a handler or of a
lock that is misused. -/
theorem work_keeps_running (hint : Int) (m : Uninitialised) (hm : m.outstandingWork = 0)
    (c : System ι)
    (h : Reach (System.next hint) (fun c l => CountsItsOwn l.2 ∧ KeepsCount hint c l)
      (System.new m) c)
    (hw : 0 < c.shared.externalWork) (hs : c.shared.stopped = false)
    (hcalls : ∀ i, (c.thread i).call ≠ some .stop) (ls : List (ι × Action ι))
    (hls : AllSteps (System.next hint) (Guarded hint) c ls) :
    AllStates (System.next hint) (KeptRunning c) c ls := by
  have hcounted : Counted c :=
    h.invariant (counted_new hm) fun _ _ _ _ hi hl hn => hi.next hl.1 hl.2 hn
  exact AllSteps.allStates (I := Alive c) (fun _ h => h.keptRunning)
    (fun _ _ _ hi hl hn => hi.next hl hn) ⟨hcounted, hw, hs, hcalls, fun _ => Nat.le_refl _⟩ hls

/-- The first thread holds a unit; the second runs the one handler there is and
goes on to wait. -/
def guardedRun : List (Fin 3 × Action (Fin 3)) :=
  [(third, .user (.doDispatch 0)), (third, .call), (second, .user .run), (second, .next),
    (second, .next), (second, .next), (second, .user (.handlerEnd false)), (second, .next),
    (second, .next), (second, .next), (second, .next), (second, .next)]

theorem work_keeps_running_guardedRun :
    ∃ c : System (Fin 3),
      exec (System.next 0) (System.new {}) [(first, .user .onWorkStarted)] = some c ∧
        AllStates (System.next 0) (KeptRunning c) c guardedRun := by
  have hroom (c : System (Fin 3))
      (h : exec (System.next 0) (System.new {}) [(first, .user .onWorkStarted)] = some c) :
      AllSteps (System.next 0) (HasRoom 0) c guardedRun := by
    cases h
    decide +kernel
  refine ⟨_, rfl, work_keeps_running 0 {} rfl _
    (.of_exec [(first, .user .onWorkStarted)] ⟨⟨trivial, rfl, rfl, by decide⟩, trivial⟩ rfl)
    (by decide) rfl (fun i hcall => ?_) guardedRun ((hroom _ rfl).of_labels ?_)⟩
  · by_cases hi : i = first <;> simp [hi, Threads.set, System.new] at hcall
  · intro l hl c hroom
    have hcounts : CountsItsOwn l.2 ∧ uncounted l.2 = 0 ∧ l.2 ≠ .user .stop ∧
        l.2 ≠ .user .onWorkFinished := by
      simp only [guardedRun, List.mem_cons, List.not_mem_nil, or_false] at hl
      rcases hl with rfl | rfl | rfl | rfl | rfl | rfl | rfl | rfl | rfl | rfl | rfl | rfl <;>
        simp [CountsItsOwn, uncounted]
    exact ⟨⟨hcounts.1, hcounts.2.1, nothingDropped_of_hint rfl c l, hroom⟩, hcounts.2.2.1,
      fun ha => absurd ha hcounts.2.2.2⟩

-- ---------------------------------------------------------------------------
-- Without work
-- ---------------------------------------------------------------------------

/-- `restart` is called only while no thread is inside `run()`. -/
def RestartsOutside (c : System ι) (l : ι × Action ι) : Prop :=
  l.2 = .user .restart → ∀ j, (c.thread j).phase.isSome = false

omit [Fintype ι] in
/-- `run()` does not begin without work. -/
theorem run_without_work {i : ι} {s s' : Shared ι} {t t' : Thread}
    (h : step hint i (.user .run) s t = some (s', t')) (hw : s.outstandingWork = 0) :
    t'.call = some .stop := by
  simp only [step, userStep, hw, if_true, Option.ite_none_right_eq_some] at h
  cases h.2
  rfl

/-- Where there is no work, the scheduler is stopped or about to be, unless no
thread is inside `run()`. -/
def StopsWithoutWork (c : System ι) : Prop :=
  c.shared.outstandingWork = 0 → c.shared.stopped = true ∨
    (∃ i, (c.thread i).call = some .stop) ∨ ∀ i, (c.thread i).phase.isSome = false

omit [Fintype ι] in
theorem StopsWithoutWork.next (h : StopsWithoutWork c) (hlocks : ∀ i, (c.thread i).LockState)
    (hok : RestartsOutside c l) (hroom : HasRoom hint c l)
    (hn : System.next hint c l = some c') : StopsWithoutWork c' := by
  obtain ⟨s, t, hs, rfl⟩ := Threads.next_eq_some.mp hn
  have hstep := step_cases hs
  have outside (ha : l.2 ≠ .user .run) (hout : ∀ j, (c.thread j).phase.isSome = false) (j : ι) :
      ((c.set l.1 s t).thread j).phase.isSome = false := by
    by_cases hj : j = l.1
    · subst hj
      rw [Threads.set_thread_self, ← Bool.not_eq_true]
      intro hi
      simpa [hout l.1] using hstep.inside ha hi
    · rw [Threads.set_thread_ne c hj]
      exact hout j
  intro hz
  have hlast : c.shared.outstandingWork = 0 ∨ t.call = some .stop := by
    rcases step_work (hroom.trans_le' (Nat.le_add_right _ _)) (hlocks l.1) hs with
      hw | ⟨-, -, hcall⟩
    · rw [increment, Nat.mod_eq_of_lt hroom] at hw
      have hz : s.outstandingWork = 0 := hz
      exact .inl (by omega)
    · exact .inr (hcall hz)
  rcases hlast with hw | hcall
  · by_cases hr : l.2 = .user .restart
    · exact .inr (.inr (outside (by simp [hr]) (hok hr)))
    · rcases h hw with hstop | ⟨j, hj⟩ | hout
      · exact .inl (hstep.stays_stopped hstop hr).1
      · by_cases he : j = l.1
        · subst he
          exact .inl (hstep.stops hj)
        · exact .inr (.inl ⟨j, by rwa [Threads.set_thread_ne c he]⟩)
      · by_cases ha : l.2 = .user .run
        · rw [ha] at hs
          exact .inr (.inl ⟨l.1, by simpa using run_without_work hs hw⟩)
        · exact .inr (.inr (outside ha hout))
  · exact .inr (.inl ⟨l.1, by simpa using hcall⟩)

/-- At rest without work every thread runs code of a caller, outside `run()` or
in a handler, where no addition to `outstanding_work_` has made it wrap: a 0 that
comes from an addition stops nothing. -/
theorem no_work_ends (hint : Int) (m : Uninitialised) (c : System ι)
    (h : Reach (System.next hint) (fun c l => RestartsOutside c l ∧ HasRoom hint c l)
      (System.new m) c)
    (hr : Resting hint c) (hw : c.shared.outstandingWork = 0) (i : ι) :
    (c.thread i).inUserCode = true := by
  have hi : Unhindered c := Reachable.unhindered (h.mono fun _ _ _ => trivial)
  have hstops : StopsWithoutWork c :=
    h.invariant (I := StopsWithoutWork) (fun _ => .inr (.inr fun _ => rfl))
      fun _ _ _ hreach hi hl hn =>
        have hlocks := (Reachable.unhindered (hreach.mono fun _ _ _ => trivial)).locks
        hi.next (fun i => (hlocks i).state) hl.1 hl.2 hn
  rcases hi.idle hr i with hu | ⟨-, hb⟩
  · exact hu
  · exfalso
    rcases hstops hw with hs | ⟨j, hj⟩ | hout
    · have hreleased : Released c := hi.toStopInvariant.allReleased hs
      rcases hb with ⟨hwait, hb, -⟩ | ⟨hp, hpending⟩
      · exact (hreleased.waiting i hwait).1 hb
      · simp [hreleased.polling i hp] at hpending
    · simp [hr.call_eq_none (hi.mutex_free hr) j] at hj
    · have hin : (c.thread i).phase.isSome = true := by
        rcases hb with ⟨hwait, -⟩ | ⟨hp, -⟩
        · rw [Thread.waits, beq_iff_eq] at hwait
          simp [hwait]
        · rw [Thread.polls, beq_iff_eq] at hp
          simp [hp]
      simp [hout i] at hin

/-- The only handler runs; the thread that finishes the last work stops the
scheduler and returns. -/
def runToEnd : List (Fin 3 × Action (Fin 3)) :=
  [(third, .user (.doDispatch 0)), (third, .call), (second, .user .run), (second, .next),
    (second, .next), (second, .next), (second, .user (.handlerEnd false)), (second, .next),
    (second, .next), (second, .call), (second, .next), (second, .next), (second, .next)]

theorem no_work_ends_runToEnd :
    ∃ c : System (Fin 3), exec (System.next 0) (System.new {}) runToEnd = some c ∧
      (c.thread 1).inUserCode = true := by
  have hrun : ∃ c : System (Fin 3), exec (System.next 0) (System.new {}) runToEnd = some c ∧
      c.shared.outstandingWork = 0 ∧ ∀ i, (c.thread i).inUserCode = true :=
    ⟨_, rfl, rfl, by decide⟩
  obtain ⟨c, he, hw, hu⟩ := hrun
  refine ⟨c, he, no_work_ends 0 {} c (.of_exec runToEnd ?_ he)
    (resting_of_idle fun i => .inl (hu i)) hw 1⟩
  have hroom : AllSteps (System.next 0) (HasRoom 0) (System.new {}) runToEnd := by decide +kernel
  refine hroom.of_labels fun l hl c hroom => ⟨fun ha => ?_, hroom⟩
  simp only [runToEnd, List.mem_cons, List.not_mem_nil, or_false] at hl
  rcases hl with rfl | rfl | rfl | rfl | rfl | rfl | rfl | rfl | rfl | rfl | rfl | rfl | rfl <;>
    cases ha

end System

end BoostAsio
