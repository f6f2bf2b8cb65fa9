import BoostAsio.Lib.Runs
import BoostAsio.SystemCases

/-!
# Interrupts of the reactor

`task_interrupted_` says that the reactor is idle, or will return at once: an
interrupt is of use only where it is false. `stop_all_threads` tests it, and
`wake_one_thread_and_unlock` tests its address.

A run is counted: beside the system there is the number of calls of
`task_->interrupt()` since `task_->run` was last started, in the step in which
`do_run_one` takes the task and releases the lock.
-/

namespace BoostAsio

open Runs

namespace Scheduler

variable {ι : Type} (s : Scheduler ι)

/-- What `task_interrupted_` is where `wake_one_thread_and_unlock` calls
`task_->interrupt()`, if it does. -/
def wakeInterrupt : Option Bool :=
  if s.wakeupEvent.signalOne.2 then none else if s.task then some s.taskInterrupted else none

def stopInterrupt : Option Bool :=
  if !s.taskInterrupted && s.task then some s.taskInterrupted else none

def initInterrupt : Option Bool :=
  if !s.shutdown && !s.task then { s with task := true }.wakeInterrupt else none

end Scheduler

variable {ι : Type}

/-- What `task_interrupted_` is where a step calls `task_->interrupt()`. -/
def interrupt (s : Shared ι) (t : Thread) : Action ι → Option Bool
  | .call =>
    match t.call with
    | some (.push _) => s.wakeInterrupt
    | some .stop => s.stopInterrupt
    | _ => none
  | .user .initTask => s.initInterrupt
  | _ => none

structure Counted (ι : Type) where
  system : System ι
  /-- The interrupts since the last start of `task_->run`, if there was one. -/
  interrupts : Option Nat := none

namespace Counted

def new (m : Uninitialised) : Counted ι := { system := .new m }

def starts (t t' : Thread) : Bool :=
  t.phase == some .looping &&
    (t'.phase == some (.polling true) || t'.phase == some (.polling false))

def next [DecidableEq ι] (hint : Int) (c : Counted ι) (l : ι × Action ι) : Option (Counted ι) :=
  (System.next hint c.system l).map fun system =>
    { system
      interrupts :=
        if starts (c.system.thread l.1) (system.thread l.1) then some 0
        else c.interrupts.map fun n =>
          n + if (interrupt c.system.shared (c.system.thread l.1) l.2).isSome then 1 else 0 }

/-- The reactor is interrupted only where `task_interrupted_` is false. -/
def InterruptsIdle (c : Counted ι) (l : ι × Action ι) : Prop :=
  ∀ b, interrupt c.system.shared (c.system.thread l.1) l.2 = some b → b = false

def AtMostOne (c : Counted ι) : Prop := ∀ n, c.interrupts = some n → n ≤ 1

/-- The step calls `wake_one_thread_and_unlock` while `task_` is set. -/
def Wakes (c : Counted ι) (l : ι × Action ι) : Prop :=
  (∃ ops, l.2 = .call ∧ (c.system.thread l.1).call = some (.push ops)) ∧
      c.system.shared.task = true ∨
    l.2 = .user .initTask ∧ c.system.shared.shutdown = false ∧ c.system.shared.task = false

/-- `wake_one_thread_and_unlock` finds a thread to wake, or `task_interrupted_`
false. -/
def WakesOrIdle (c : Counted ι) (l : ι × Action ι) : Prop :=
  c.Wakes l → 0 < c.system.shared.wakeupEvent.waiters ∨ c.system.shared.taskInterrupted = false

-- ---------------------------------------------------------------------------
-- One step
-- ---------------------------------------------------------------------------

theorem wakeInterrupt_eq (s : Scheduler ι) : s.wakeInterrupt =
    if s.wakeupEvent.waiters = 0 ∧ s.task = true then some s.taskInterrupted else none := by
  unfold Scheduler.wakeInterrupt
  by_cases hw : s.wakeupEvent.waiters = 0
  · simp [hw]
  · simp [hw, Nat.pos_of_ne_zero hw]

/-- The reactor is interrupted by `wake_one_thread_and_unlock` where no thread
waits, and by `stop_all_threads` where `task_interrupted_` is false. -/
theorem interrupt_eq_some {c : Counted ι} {l : ι × Action ι} {b : Bool} :
    interrupt c.system.shared (c.system.thread l.1) l.2 = some b ↔
      b = c.system.shared.taskInterrupted ∧
        (c.Wakes l ∧ c.system.shared.wakeupEvent.waiters = 0 ∨
          l.2 = .call ∧ (c.system.thread l.1).call = some .stop ∧
            c.system.shared.task = true ∧ c.system.shared.taskInterrupted = false) := by
  obtain ⟨i, a⟩ := l
  cases a with
  | call =>
    cases hcall : (c.system.thread i).call with
    | none => simp [interrupt, Wakes, hcall]
    | some k =>
      cases k with
      | push ops =>
        simp only [interrupt, hcall, wakeInterrupt_eq, Option.ite_none_right_eq_some]
        constructor
        · rintro ⟨⟨hw, ht⟩, hb⟩
          exact ⟨(Option.some.inj hb).symm, .inl ⟨.inl ⟨⟨ops, rfl, hcall⟩, ht⟩, hw⟩⟩
        · rintro ⟨rfl, ⟨⟨-, ht⟩ | ⟨ha, -⟩, hw⟩ | ⟨-, hstop, -⟩⟩
          · exact ⟨⟨hw, ht⟩, rfl⟩
          · cases ha
          · cases hstop
      | stop =>
        simp only [interrupt, hcall, Scheduler.stopInterrupt, Option.ite_none_right_eq_some,
          Bool.and_eq_true, Bool.not_eq_true']
        constructor
        · rintro ⟨⟨hidle, ht⟩, hb⟩
          exact ⟨(Option.some.inj hb).symm, .inr ⟨trivial, trivial, ht, hidle⟩⟩
        · rintro ⟨rfl, ⟨⟨⟨ops, -, hpush⟩, -⟩ | ⟨ha, -⟩, -⟩ | ⟨-, -, ht, hidle⟩⟩
          · cases hcall.symm.trans hpush
          · cases ha
          · exact ⟨⟨hidle, ht⟩, rfl⟩
      | notifyOne | transfer => simp [interrupt, Wakes, hcall]
  | user u =>
    cases u with
    | initTask =>
      simp only [interrupt, Scheduler.initInterrupt, wakeInterrupt_eq, and_true,
        Option.ite_none_right_eq_some, Bool.and_eq_true, Bool.not_eq_true']
      constructor
      · rintro ⟨hinit, hw, hb⟩
        exact ⟨(Option.some.inj hb).symm, .inl ⟨.inr ⟨rfl, hinit⟩, hw⟩⟩
      · rintro ⟨rfl, ⟨⟨⟨ops, ha, -⟩, -⟩ | ⟨-, hinit⟩, hw⟩ | ⟨ha, -⟩⟩
        · cases ha
        · exact ⟨hinit, hw, rfl⟩
        · cases ha
    | _ => simp [interrupt, Wakes]
  | _ => simp [interrupt, Wakes]

theorem interruptsIdle_iff (c : Counted ι) (l : ι × Action ι) :
    c.InterruptsIdle l ↔ c.WakesOrIdle l := by
  constructor
  · intro h hwakes
    by_cases hw : c.system.shared.wakeupEvent.waiters = 0
    · exact .inr (h _ (interrupt_eq_some.mpr ⟨rfl, .inl ⟨hwakes, hw⟩⟩))
    · exact .inl (Nat.pos_of_ne_zero hw)
  · intro h b hb
    obtain ⟨rfl, ⟨hwakes, hw⟩ | ⟨-, -, -, hidle⟩⟩ := interrupt_eq_some.mp hb
    · exact (h hwakes).resolve_left (by omega)
    · exact hidle

section Step

variable [DecidableEq ι] {hint : Int} {c c' : Counted ι} {l : ι × Action ι}

/-- Only a start of `task_->run` makes `task_interrupted_` false again. -/
theorem taskInterrupted_of_step {i : ι} {a : Action ι} {s s' : Scheduler ι} {t t' : Thread}
    (h : Step hint i s t a s' t') (hstart : starts t t' = false)
    (ht : s.taskInterrupted = true) : s'.taskInterrupted = true := by
  cases h with
  | push => simp [Scheduler.push_fst, ht]
  | stop => simp [Scheduler.stopAllThreads_eq, ht]
  | initTask =>
    rcases s.initTask_cases with heq | ⟨-, heq, -⟩
    · rw [heq]
      exact ht
    · rw [heq]
      simp [ht]
  | taskCleanup => rfl
  | @pop o rest _ f _ htop hpc =>
    rw [Scheduler.popFront_fst]
    by_cases ho : o = .taskOperation
    · have hstarts : starts t { t with
          top := some { f with
            owns := false
            pc := if o = .taskOperation then .runTask (List.isEmpty rest) else .popped o }
          call := (s.popFront hint o rest).2 } = true := by
        rw [starts, Thread.phase_of_top htop, hpc, Thread.phase_mk, if_pos ho]
        cases rest <;> rfl
      rw [hstarts] at hstart
      cases hstart
    · simpa [ho] using ht
  | _ => exact ht

theorem taskInterrupted_of_interrupt {i : ι} {a : Action ι} {s s' : Shared ι} {t t' : Thread}
    (hs : step hint i a s t = some (s', t')) {b : Bool} (hb : interrupt s t a = some b) :
    s'.taskInterrupted = true := by
  cases a with
  | call =>
    simp only [step, callStep] at hs
    cases hcall : t.call with
    | none => simp [hcall] at hs
    | some k =>
      cases k with
      | push ops =>
        simp only [hcall, Option.ite_none_right_eq_some] at hs
        simp only [interrupt, hcall, wakeInterrupt_eq, Option.ite_none_right_eq_some] at hb
        cases hs.2
        simp [Scheduler.push_fst, Scheduler.interrupts, hb.1]
      | stop =>
        simp only [hcall, Option.ite_none_right_eq_some] at hs
        simp only [interrupt, hcall, Scheduler.stopInterrupt, Option.ite_none_right_eq_some,
          Bool.and_eq_true] at hb
        cases hs.2
        simp [Scheduler.stopAllThreads_eq, hb.1.2]
      | notifyOne | transfer => simp [interrupt, hcall] at hb
  | user u =>
    cases u with
    | initTask =>
      simp only [interrupt, Scheduler.initInterrupt, wakeInterrupt_eq, and_true,
        Option.ite_none_right_eq_some, Bool.and_eq_true, Bool.not_eq_true'] at hb
      simp only [step, userStep, Option.ite_none_right_eq_some] at hs
      obtain ⟨-, -, hs⟩ := hs
      cases hs
      rcases s.toScheduler.initTask_cases with heq | ⟨-, heq, -⟩
      · -- `task_` was null, so the call was not without effect
        have htask := congrArg (fun r => r.1.task) heq
        simp [Scheduler.initTask, hb.1, Scheduler.wakeOneThreadAndUnlock_fst] at htask
      · simp [heq, hb.2.1]
    | _ => cases hb
  | _ => cases hb

/-- An interrupt since the last start has left `task_interrupted_` true. -/
def OnceInterrupted (c : Counted ι) : Prop :=
  ∀ n, c.interrupts = some n → n = 0 ∨ n = 1 ∧ c.system.shared.taskInterrupted = true

theorem OnceInterrupted.next (h : c.OnceInterrupted) (hok : c.InterruptsIdle l)
    (hn : c.next hint l = some c') : c'.OnceInterrupted := by
  simp only [Counted.next, Option.map_eq_some_iff] at hn
  obtain ⟨system, hn, rfl⟩ := hn
  obtain ⟨s, t, hs, rfl⟩ := Threads.next_eq_some.mp hn
  simp only [OnceInterrupted, Threads.set_shared, Threads.set_thread_self]
  intro n hc
  cases hstart : starts (c.system.thread l.1) t with
  | true =>
    simp only [hstart, if_true, Option.some.injEq] at hc
    exact .inl hc.symm
  | false =>
    simp only [hstart, Bool.false_eq_true, if_false, Option.map_eq_some_iff] at hc
    obtain ⟨k, hk, rfl⟩ := hc
    cases hb : interrupt c.system.shared (c.system.thread l.1) l.2 with
    | none =>
      simp only [Option.isSome_none, Bool.false_eq_true, if_false, Nat.add_zero]
      rcases h k hk with rfl | ⟨rfl, ht⟩
      · exact .inl rfl
      · exact .inr ⟨rfl, taskInterrupted_of_step (step_cases hs) hstart ht⟩
    | some b =>
      -- the interrupt found `task_interrupted_` false, so it is the first one
      have hidle : c.system.shared.taskInterrupted = false :=
        (interrupt_eq_some.mp hb).1 ▸ hok b hb
      rcases h k hk with rfl | ⟨-, ht⟩
      · exact .inr ⟨rfl, taskInterrupted_of_interrupt hs hb⟩
      · rw [hidle] at ht
        cases ht

end Step

/-- Along every run the reactor is interrupted only when that is needed, and
once at most between two starts, if and only if `wake_one_thread_and_unlock`
never finds it interrupted. -/
theorem interruptsIdle_allSteps_iff [DecidableEq ι] (hint : Int) (m : Uninitialised)
    (ls : List (ι × Action ι)) :
    AllSteps (next hint) InterruptsIdle (new m) ls ∧ AllStates (next hint) AtMostOne (new m) ls ↔
      AllSteps (next hint) WakesOrIdle (new m) ls := by
  rw [← allSteps_congr interruptsIdle_iff]
  refine and_iff_left_of_imp fun h => ?_
  refine h.allStates (I := OnceInterrupted) ?_ (fun _ _ _ hc hok hn => hc.next hok hn) ?_
  · intro c hc n hn
    rcases hc n hn with rfl | ⟨rfl, -⟩
    · exact Nat.zero_le 1
    · exact Nat.le_refl 1
  · intro n hn
    cases hn

open BoostAsio.System in
/-- Two operations are posted while the first thread is in `task_->run`. -/
def postTwice : List (Fin 3 × Action (Fin 3)) :=
  [(first, .user .initTask), (first, .user .onWorkStarted), (first, .user .run), (first, .next),
    (first, .next), (second, .user (.doDispatch 0)), (second, .call),
    (second, .user (.doDispatch 1)), (second, .call)]

theorem postTwice_interrupts_twice :
    ¬ (AllSteps (next 0) InterruptsIdle (new {}) postTwice ∧
      AllStates (next 0) AtMostOne (new {}) postTwice) := by
  rintro ⟨-, h⟩
  have hlast : AtMostOne _ := h.of_exec rfl
  have htwo := hlast 2 (by decide)
  omega

end Counted

end BoostAsio
