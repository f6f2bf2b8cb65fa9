import BoostAsio.SystemCases

/-!
# The lock of a run()

`run` locks at the head of its `for` loop and expects `do_run_one` to have left
the lock released; `do_run_one` expects to be entered with the lock held. What
every run of the system keeps is weaker (`Locks`): `~work_cleanup` may return
with the lock held, and the next `lock.lock()` then throws. The discipline
holds along a run if and only if no handler that returns leaves an operation in
the private queue (`lockDiscipline_iff`).
-/

namespace BoostAsio

open Runs

variable {ι : Type} [DecidableEq ι] {hint : Int} {i : ι}

/-- Between its lock operations, `run()` owns the lock in the loop of
`do_run_one`, and elsewhere at most where it is about to lock. -/
def Thread.LockState (t : Thread) : Prop :=
  ∀ f, t.top = some f →
    (f.pc = .loop → f.owns = true) ∧ (f.owns = true → f.pc = .loop ∨ f.pc = .lock)

/-- The thread owns the mutex, by the lock of its innermost `run()`. -/
def Thread.Owns (t : Thread) : Prop := ∃ f, t.top = some f ∧ f.owns = true

structure Locks (i : ι) (s : Scheduler ι) (t : Thread) : Prop where
  state : t.LockState
  owner : s.mutex = some i ↔ t.Owns

@[simp] theorem Thread.owns_mk {f : Run} {stack : List Suspended} {call : Option Call} :
    Owns ⟨some f, stack, call⟩ ↔ f.owns = true := by simp [Owns]

@[simp] theorem Thread.owns_setTop {t : Thread} {f : Run} : (t.setTop f).Owns ↔ f.owns = true :=
  owns_mk

theorem Thread.owns_of_top {t : Thread} {f : Run} (h : t.top = some f) :
    t.Owns ↔ f.owns = true := by simp [Owns, h]

theorem Thread.leave_lockState (t : Thread) : t.leave.LockState := by
  intro f hf
  obtain ⟨p, -, rfl⟩ := leave_top hf
  simp [Suspended.resume]

@[simp] theorem Thread.leave_owns (t : Thread) : ¬ t.leave.Owns := by
  rintro ⟨f, hf, ho⟩
  obtain ⟨p, -, rfl⟩ := leave_top hf
  simp [Suspended.resume] at ho

@[simp] theorem Thread.lockState_mk {f : Run} {stack : List Suspended} {call : Option Call} :
    LockState ⟨some f, stack, call⟩ ↔
      (f.pc = .loop → f.owns = true) ∧ (f.owns = true → f.pc = .loop ∨ f.pc = .lock) := by
  simp [LockState]

@[simp] theorem Thread.lockState_setTop {t : Thread} {f : Run} : (t.setTop f).LockState ↔
    (f.pc = .loop → f.owns = true) ∧ (f.owns = true → f.pc = .loop ∨ f.pc = .lock) :=
  lockState_mk

theorem Thread.LockState.not_owns {t : Thread} (h : t.LockState) {f : Run} (ht : t.top = some f)
    (hl : f.pc.phase ≠ .looping) (hr : f.pc.phase ≠ .starting) : f.owns = false := by
  cases ho : f.owns with
  | false => rfl
  | true =>
    rcases (h f ht).2 ho with hpc | hpc
    · exact absurd (Pc.phase_looping.mpr hpc) hl
    · exact absurd (Pc.phase_starting.mpr hpc) hr

/-- The only lock operation that can fail is the one of the `for` loop of `run`. -/
theorem Thread.LockState.misuse_at_lock {t : Thread} (h : t.LockState) {f : Run}
    (ht : t.top = some f) (ho : f.owns = decide (f.pc ≠ .loop)) : f.pc = .lock ∧ f.owns = true := by
  by_cases hpc : f.pc = .loop
  · simp [hpc, (h f ht).1 hpc] at ho
  · have ho : f.owns = true := by simpa [hpc] using ho
    exact ⟨((h f ht).2 ho).resolve_left hpc, ho⟩

theorem QuietTop.owns {t t' : Thread} (h : QuietTop t.top t'.top) : t'.Owns ↔ t.Owns := by
  cases hx : t.top <;> cases hy : t'.top <;> rw [hx, hy] at h <;> cases h <;>
    simp_all [Thread.Owns]

theorem QuietTop.lockState {t t' : Thread} (h : QuietTop t.top t'.top) (hl : t.LockState) :
    t'.LockState := by
  intro g hg
  rw [hg] at h
  cases ht : t.top with
  | none => rw [ht] at h; cases h
  | some f =>
    rw [ht] at h
    cases h with
    | working hf hg ho _ =>
      have := hl.not_owns ht (by simp [hf]) (by simp [hf])
      exact ⟨fun hp => by simp [hp, Pc.phase] at hg, fun ho' => by simp [ho, this] at ho'⟩
    | reaping hf hg ho _ =>
      have := hl.not_owns ht (by simp [hf]) (by simp [hf])
      exact ⟨fun hp => by simp [hp, Pc.phase] at hg, fun ho' => by simp [ho, this] at ho'⟩

variable {s s' : Scheduler ι} {t t' : Thread} {a : Action ι}

theorem Step.lockState (h : Step hint i s t a s' t') (hl : t.LockState) : t'.LockState := by
  cases h with
  | quiet _ _ hq _ => exact hq.lockState hl
  | stored _ ht hr hr' =>
    have := hl.not_owns ht (by simp [hr]) (by simp [hr])
    simp only [Thread.lockState_setTop, this, Bool.false_eq_true, false_imp_iff, and_true]
    exact fun hp => by simp [hp, Pc.phase] at hr'
  | restart => exact hl
  | initTask => exact hl
  | enter => simp
  | nest => simp
  | push => exact hl
  | stop => exact hl
  | notify => exact hl
  | lock => simp
  | misuse => exact Thread.leave_lockState _
  | returns => exact Thread.leave_lockState _
  | wait => simp
  | @pop o => cases o <;> simp
  | taskCleanup => simp
  | finished => simp
  | threw => exact Thread.leave_lockState _
  | spliced => simp
  | splicedThrew => exact Thread.leave_lockState _
  | wake => simp
  | transfer | waitAgain => exact hl
  | epollWait _ ht hpc _ =>
    have := hl.not_owns ht (by simp [hpc, Pc.phase]) (by simp [hpc, Pc.phase])
    simp [this]

theorem Step.mutex_cases (h : Step hint i s t a s' t') (hl : Locks i s t) :
    (s'.mutex = s.mutex ∧ (t'.Owns ↔ t.Owns)) ∨ (s.mutex = none ∧ s'.mutex = some i ∧ t'.Owns) ∨
      ((s.mutex = none ∨ s.mutex = some i) ∧ s'.mutex = none ∧ ¬ t'.Owns) := by
  have held {f : Run} (ht : t.top = some f) (ho : f.owns = true) : s.mutex = some i :=
    hl.owner.mpr ⟨f, ht, ho⟩
  have released {f : Run} (ht : t.top = some f) :
      ((if f.owns then none else s.mutex) = s.mutex ∧ (t.leave.Owns ↔ t.Owns)) ∨
        (s.mutex = none ∧ (if f.owns then none else s.mutex) = some i ∧ t.leave.Owns) ∨
        ((s.mutex = none ∨ s.mutex = some i) ∧ (if f.owns then none else s.mutex) = none ∧
          ¬ t.leave.Owns) := by
    cases ho : f.owns with
    | false => exact .inl ⟨rfl, by simp [t.owns_of_top ht, ho]⟩
    | true => exact .inr (.inr ⟨.inr (held ht ho), rfl, by simp⟩)
  cases h with
  | quiet _ _ hq _ => exact .inl ⟨rfl, hq.owns⟩
  | stored _ ht _ _ _ _ => exact .inl ⟨rfl, by simp [t.owns_of_top ht]⟩
  | restart => exact .inl ⟨rfl, .rfl⟩
  | initTask _ hm =>
    rcases s.initTask_cases with he | ⟨-, he, -⟩
    · exact .inl ⟨by rw [he], .rfl⟩
    · exact .inl ⟨by rw [he, hm], .rfl⟩
  | enter _ ht => exact .inl ⟨rfl, by simp [Thread.Owns, ht]⟩
  | nest _ ht hpc =>
    have := hl.state.not_owns ht (by simp [hpc, Pc.phase]) (by simp [hpc, Pc.phase])
    exact .inl ⟨rfl, by simp [t.owns_of_top ht, this]⟩
  | push _ hm => exact .inl ⟨by rw [Scheduler.push_fst, hm], .rfl⟩
  | stop => exact .inl ⟨by rw [Scheduler.stopAllThreads_eq], .rfl⟩
  | notify => exact .inl ⟨rfl, .rfl⟩
  | lock _ _ _ _ hm => exact .inr (.inl ⟨hm, rfl, by simp⟩)
  | misuse _ ht _ => exact released ht
  | returns _ ht => exact released ht
  | wait _ ht _ ho => exact .inr (.inr ⟨.inr (held ht ho), rfl, by simp⟩)
  | pop _ ht _ ho _ _ =>
    exact .inr (.inr ⟨.inr (held ht ho), by rw [Scheduler.popFront_fst], by simp⟩)
  | taskCleanup _ _ _ _ hm => exact .inr (.inl ⟨hm, rfl, by simp⟩)
  | finished _ ht hpc _ => exact .inl ⟨rfl, by simp [t.owns_of_top ht]⟩
  | threw _ ht => exact released ht
  | spliced _ _ _ _ _ hm => exact .inr (.inl ⟨hm, rfl, by simp⟩)
  | splicedThrew _ ht _ ho hm => exact .inl ⟨rfl, by simp [t.owns_of_top ht, ho]⟩
  | wake _ _ _ hm _ => exact .inr (.inl ⟨hm, rfl, by simp⟩)
  | transfer | waitAgain => exact .inl ⟨rfl, .rfl⟩
  | epollWait _ ht hpc _ => exact .inl ⟨rfl, by simp [t.owns_of_top ht]⟩

theorem Step.locks (h : Step hint i s t a s' t') (hl : Locks i s t) : Locks i s' t' := by
  refine ⟨h.lockState hl.state, ?_⟩
  rcases h.mutex_cases hl with ⟨hm, ho⟩ | ⟨-, hm, ho⟩ | ⟨-, hm, ho⟩
  · rw [hm, ho, hl.owner]
  · simp [hm, ho]
  · simp [hm, ho]

theorem Step.mutex_frame (h : Step hint i s t a s' t') (hl : Locks i s t) {j : ι} (hj : j ≠ i) :
    s'.mutex = some j ↔ s.mutex = some j := by
  rcases h.mutex_cases hl with ⟨hm, -⟩ | ⟨hs, hm, -⟩ | ⟨hs | hs, hm, -⟩
  · rw [hm]
  · simp [hm, hs, hj.symm]
  · simp [hm, hs]
  · simp [hm, hs, hj.symm]

namespace System

variable {c c' : System ι} {l : ι × Action ι} {ok : System ι → ι × Action ι → Prop}
  {m : Uninitialised}

/-- `Step.locks` for every thread. -/
def Locks (c : System ι) : Prop := ∀ j, BoostAsio.Locks j c.shared.toScheduler (c.thread j)

omit [DecidableEq ι] in
theorem locks_new (m : Uninitialised) : Locks (System.new m : System ι) := fun _ =>
  ⟨by simp [System.new, Thread.LockState], by simp [System.new, Shared.new, Thread.Owns]⟩

theorem locks_next (hn : System.next hint c l = some c') (hl : c.Locks) : c'.Locks :=
  fun j => Threads.forall_next (I := fun j s t => BoostAsio.Locks j s.toScheduler t) hn
    (fun _ _ hs => (step_cases hs).locks (hl l.1))
    (fun _ _ hs j hj =>
      ⟨(hl j).state, ((step_cases hs).mutex_frame (hl l.1) hj).trans (hl j).owner⟩) j

-- ---------------------------------------------------------------------------
-- The discipline
-- ---------------------------------------------------------------------------

/-- No lock has been locked while it owned the mutex or unlocked while it did
not, and every `run()` owns its lock in the loop of `do_run_one` and nowhere
else: the next lock operation of each will be in order too. -/
def LockDiscipline (c : System ι) : Prop :=
  c.shared.lockErrors = 0 ∧
    ∀ i f, (c.thread i).top = some f → (f.owns = true ↔ f.pc = .loop)

/-- Unless the step is the end of `~work_cleanup` after a handler that
returned, with something in the private queue. -/
def LeavesNothing (c : System ι) (l : ι × Action ι) : Prop :=
  ∀ f, l.2 = .next → (c.thread l.1).top = some f → f.pc = .workCleanupLock false →
    f.info.privateOpQueue = []

end System

/-- `run()` comes to its `lock.lock()` without the lock. -/
def Thread.LocksFree (t : Thread) : Prop := ∀ f, t.top = some f → f.pc = .lock → f.owns = false

theorem Thread.lockState_and_free {t : Thread} :
    (∀ f, t.top = some f → (f.owns = true ↔ f.pc = .loop)) ↔ t.LockState ∧ t.LocksFree := by
  constructor
  · intro h
    refine ⟨fun f hf => ⟨(h f hf).mpr, fun ho => .inl ((h f hf).mp ho)⟩, fun f hf hpc => ?_⟩
    rw [← Bool.not_eq_true, h f hf, hpc]
    exact nofun
  · rintro ⟨hl, hf⟩ f ht
    refine ⟨fun ho => ((hl f ht).2 ho).resolve_right fun hpc => ?_, (hl f ht).1⟩
    rw [hf f ht hpc] at ho
    cases ho

theorem Step.lockErrors (h : Step hint i s t a s' t') (hl : t.LockState) (hf : t.LocksFree) :
    s'.lockErrors = s.lockErrors := by
  cases h with
  | misuse _ ht ho =>
    obtain ⟨hpc, ho⟩ := hl.misuse_at_lock ht ho
    simp [hf _ ht hpc] at ho
  | initTask => rcases s.initTask_cases with he | ⟨-, he, -⟩ <;> rw [he]
  | push => rw [Scheduler.push_fst]
  | stop => rw [Scheduler.stopAllThreads_eq]
  | pop => rw [Scheduler.popFront_fst]
  | _ => rfl

theorem Step.locksFree (h : Step hint i s t a s' t') (hl : t.LockState) (hf : t.LocksFree)
    (hok : a = .next → ∀ f, t.top = some f → f.pc = .workCleanupLock false →
      f.info.privateOpQueue = []) : t'.LocksFree := by
  have leaves : t.leave.LocksFree := by
    intro g hg _
    obtain ⟨p, -, rfl⟩ := Thread.leave_top hg
    rfl
  cases h with
  | quiet _ _ hq _ =>
    intro g hg hpc
    rw [hg] at hq
    cases ht : t.top <;> rw [ht] at hq <;> cases hq <;> simp_all [Pc.phase]
  | stored _ ht hr hr' => rintro g ⟨⟩ hpc; simp_all [Pc.phase]
  | finished _ ht hpc =>
    have ho := hl.not_owns ht (by simp [hpc, Pc.phase]) (by simp [hpc, Pc.phase])
    rintro g ⟨⟩ -
    exact ho
  | spliced _ ht hpc hq => exact absurd (hok rfl _ ht hpc) hq
  | enter | nest => rintro g ⟨⟩ -; rfl
  | lock | wait | taskCleanup | wake | epollWait => rintro g ⟨⟩ hpc; cases hpc
  | @pop o => rintro g ⟨⟩ hpc; cases o <;> cases hpc
  | misuse | returns | threw | splicedThrew => exact leaves
  | restart | initTask | push | stop | notify | transfer | waitAgain => exact hf

/-- The end of `~work_cleanup` with something in the private queue: `run` goes on
to lock a lock that it owns. -/
theorem step_splices {s s' : Shared ι} {f : Run} (h : step hint i .next s t = some (s', t'))
    (ht : t.top = some f) (hpc : f.pc = .workCleanupLock false)
    (hq : f.info.privateOpQueue ≠ []) (ho : f.owns = false) :
    t'.top = some { f with
      info.privateOpQueue := []
      owns := true
      pc := .lock
      n := if f.n = 2 ^ 64 - 1 then f.n else f.n + 1 } := by
  simp only [step, ht, Option.bind_some, runStep, hpc, locked, ho, endOfWork,
    Option.ite_none_right_eq_some, List.isEmpty_iff, hq, if_false, Bool.false_eq_true,
    Option.ite_none_left_eq_some] at h
  cases h.2.2
  rfl

namespace System

variable {c c' : System ι} {l : ι × Action ι}

theorem lockDiscipline_iff (m : Uninitialised) (hint : Int) (ls : List (ι × Action ι)) :
    AllStates (System.next hint) LockDiscipline (System.new m) ls ↔
      AllSteps (System.next hint) LeavesNothing (System.new m) ls := by
  refine allStates_iff_allSteps (I := fun c => Locks c ∧ LockDiscipline c) (fun _ h => h.2)
    ?_ ?_ ⟨locks_new m, rfl, by simp [System.new]⟩
  · rintro c l c' ⟨hl, he, hd⟩ - hok hn
    have hfree (j : ι) : (c.thread j).LockState ∧ (c.thread j).LocksFree :=
      Thread.lockState_and_free.mp (hd j)
    obtain ⟨s, t, hs, hc⟩ := Threads.next_eq_some.mp hn
    have hstep := step_cases hs
    refine ⟨locks_next hn hl, ?_, fun j => ?_⟩
    · rw [hc]
      exact (hstep.lockErrors (hfree l.1).1 (hfree l.1).2).trans he
    · rw [Thread.lockState_and_free]
      refine Threads.forall_next (I := fun _ _ t => t.LockState ∧ t.LocksFree) hn
        (fun s t hs => ?_) (fun _ _ _ j _ => hfree j) j
      exact ⟨(step_cases hs).lockState (hfree l.1).1,
        (step_cases hs).locksFree (hfree l.1).1 (hfree l.1).2 fun ha f => hok f ha⟩
  · rintro c l c' ⟨hl, -, hd⟩ - hok hn hd'
    obtain ⟨f, ha, ht, hpc, hq⟩ : ∃ f, l.2 = .next ∧ (c.thread l.1).top = some f ∧
        f.pc = .workCleanupLock false ∧ f.info.privateOpQueue ≠ [] := by
      simpa [LeavesNothing] using hok
    obtain ⟨s, t, hs, rfl⟩ := Threads.next_eq_some.mp hn
    have hlock := step_splices (ha ▸ hs) ht hpc hq ((hl l.1).state.not_owns ht
      (by simp [hpc, Pc.phase]) (by simp [hpc, Pc.phase]))
    have hg := (hd'.2 l.1 _ (by rw [Threads.set_thread_self, hlock])).mp rfl
    cases hg

/-- One handler, which posts one operation to its own scheduler with
`concurrency_hint` 1 and returns. -/
def postFromHandler : List (Fin 3 × Action (Fin 3)) :=
  [(first, .user (.doDispatch 0)), (first, .call), (first, .user .run), (first, .next),
    (first, .next), (first, .next), (first, .user (.postImmediateCompletion 1 false)),
    (first, .user (.handlerEnd false)), (first, .next), (first, .next), (first, .next),
    (first, .next)]

theorem postFromHandler_locks_twice :
    ¬ AllStates (System.next 1) LockDiscipline (System.new {}) postFromHandler ∧
      (exec (System.next 1) (System.new {}) postFromHandler).map
        (fun c => (c.shared.lockErrors, c.shared.exceptions, c.shared.opQueue)) =
          some (1, 1, [.handler 1]) := by
  refine ⟨fun h => ?_, rfl⟩
  have hlast := h.of_exec rfl
  exact absurd hlast.1 (by decide)

end System

end BoostAsio
