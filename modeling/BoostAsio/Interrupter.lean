import BoostAsio.Interrupts
import BoostAsio.Lib.EdgeTriggered
import BoostAsio.Rest

/-!
# The interrupter

`interruptPending` of the model is no member of the code. What stands for it is
an event descriptor that `interrupter_` writes to once, when the reactor is
constructed, and never reads from: `interrupt` only changes its registration,
which makes the kernel report it once more. Here the system has that kernel
beside it: a step makes the calls that the code makes, and `epoll_wait` reports
the interrupter only where the kernel has it to report.

The kernel may be any that keeps what is documented of edge-triggered events
(`Source.Lawful`), and accepts the calls, whose results the code does not look
at. The reactor may be constructed by `init_task` or before it, by a service
that uses it.
-/

namespace BoostAsio

open Runs EdgeTriggered

-- ---------------------------------------------------------------------------
-- The calls of the kernel
-- ---------------------------------------------------------------------------

def SelectInterrupter.interrupt : List EdgeTriggered.Call := [.write]

/-- The constructor of `epoll_reactor`, when `interrupter_` has been constructed. -/
def EpollReactor.construct : List EdgeTriggered.Call := .add :: SelectInterrupter.interrupt

def EpollReactor.interrupt : List EdgeTriggered.Call := [.modify]

variable {ι : Type}

/-- The step is an `init_task` that sets `task_`. -/
def Shared.setsTask (s : Shared ι) : Action ι → Bool
  | .user .initTask => !s.shutdown && !s.task
  | _ => false

/-- The step is a return from `epoll_wait` with the interrupter. -/
def Action.reports : Action ι → Bool
  | .epollWait evs => evs.contains .interrupter
  | _ => false

/-- The calls of one step, where `reactor` says that there is a reactor. -/
def kernelCalls (reactor : Bool) (s : Shared ι) (t : Thread) (a : Action ι) :
    List EdgeTriggered.Call :=
  (if s.setsTask a && !reactor then EpollReactor.construct else []) ++
    ((if (interrupt s t a).isSome then EpollReactor.interrupt else []) ++
      if a.reports then [.report] else [])

-- ---------------------------------------------------------------------------
-- The system and its kernel
-- ---------------------------------------------------------------------------

structure OnKernel (ι : Type) (κ : Type) where
  system : System ι
  kernel : κ
  reactor : Bool := false

namespace OnKernel

inductive Label (ι : Type)
  /-- `use_service<epoll_reactor>`, by another service -/
  | useService
  | step (l : ι × Action ι)

variable [DecidableEq ι] {κ : Type}

def next (K : Source κ) (hint : Int) (c : OnKernel ι κ) : Label ι → Option (OnKernel ι κ)
  | .useService =>
    some { c with
      kernel := if c.reactor then c.kernel else K.exec EpollReactor.construct c.kernel
      reactor := true }
  | .step l =>
    if l.2.reports && !K.due c.kernel then none
    else (System.next hint c.system l).map fun system =>
      { system
        kernel := K.exec
          (kernelCalls c.reactor c.system.shared (c.system.thread l.1) l.2) c.kernel
        reactor := c.reactor || c.system.shared.setsTask l.2 }

def new (m : Uninitialised) (k : κ) : OnKernel ι κ := { system := .new m, kernel := k }

end OnKernel

-- ---------------------------------------------------------------------------
-- What one step does to the bit
-- ---------------------------------------------------------------------------

variable {hint : Int} {i : ι} {s s' : Shared ι} {t t' : Thread}

/-- What a step does to `task_` and to the interrupt that is pending. -/
structure Interrupts (s : Shared ι) (t : Thread) (a : Action ι) (s' : Scheduler ι) : Prop where
  task : s'.task = (s.task || s.setsTask a)
  pending : s'.interruptPending =
    ((s.interruptPending || s.setsTask a || (interrupt s t a).isSome) && !a.reports)

theorem Interrupts.quiet {a : Action ι} (hset : s.setsTask a = false)
    (hint : interrupt s t a = none) (hrep : a.reports = false) {s' : Scheduler ι}
    (htask : s'.task = s.task) (hp : s'.interruptPending = s.interruptPending) :
    Interrupts s t a s' where
  task := by rw [htask, hset, Bool.or_false]
  pending := by simp [hp, hset, hint, hrep]

theorem userStep_interrupts (hu : t.inUserCode = true) {u : UserAction}
    (h : userStep hint s t u = some (s', t')) : Interrupts s t (.user u) s'.toScheduler := by
  cases u with
  | initTask =>
    cases userStep_piece hu h with
    | initTask =>
      by_cases hset : (!s.shutdown && !s.task) = true
      · constructor
        · simp [Scheduler.initTask, Shared.setsTask, hset, Scheduler.wakeOneThreadAndUnlock_fst]
        · simp [Scheduler.initTask, Shared.setsTask, hset, Scheduler.wakeOneThreadAndUnlock_fst,
            Action.reports]
      · have hsame : s.toScheduler.initTask = (s.toScheduler, none) := if_neg hset
        have hnone : interrupt s t (.user .initTask) = none := if_neg hset
        exact .quiet (by simpa [Shared.setsTask] using hset) hnone rfl (by rw [hsame])
          (by rw [hsame])
  | restart =>
    cases userStep_piece hu h with
    | restart => exact .quiet rfl rfl rfl rfl rfl
  | _ =>
    have hs : s'.toScheduler = s.toScheduler := userStep_toScheduler hu (by simp) (by simp) h
    exact .quiet rfl rfl rfl (by rw [hs]) (by rw [hs])

variable [DecidableEq ι]

theorem runStep_interrupts {f : Run} (h : runStep hint i s f t = some (s', t')) :
    s'.task = s.task ∧ s'.interruptPending = s.interruptPending := by
  cases runStep_piece h with
  | pop =>
    rw [Scheduler.popFront_fst]
    exact ⟨rfl, rfl⟩
  | store =>
    rw [storeEvent_toScheduler]
    exact ⟨rfl, rfl⟩
  | @finished thrown => cases thrown <;> exact ⟨rfl, rfl⟩
  | @spliced thrown _ _ _ _ _ _ hs₁ =>
    subst hs₁
    cases thrown <;> exact ⟨rfl, rfl⟩
  | _ => exact ⟨rfl, rfl⟩

theorem step_interrupts {a : Action ι} (h : step hint i a s t = some (s', t')) :
    Interrupts s t a s'.toScheduler := by
  cases step_piece h with
  | user hu h => exact userStep_interrupts hu h
  | @push ops hcall =>
    have hwake : (interrupt s t .call).isSome = s.toScheduler.interrupts := by
      simp only [interrupt, hcall, Counted.wakeInterrupt_eq, Scheduler.interrupts]
      cases s.task <;> by_cases hw : s.wakeupEvent.waiters = 0 <;> simp [hw]
    constructor
    · simp [Scheduler.push_fst, Shared.setsTask]
    · simp [Scheduler.push_fst, Shared.setsTask, Action.reports, hwake]
  | stop hcall =>
    have hstop : (interrupt s t .call).isSome = (!s.taskInterrupted && s.task) := by
      simp only [interrupt, hcall, Scheduler.stopInterrupt]
      cases s.taskInterrupted <;> cases s.task <;> rfl
    constructor
    · simp [Scheduler.stopAllThreads_eq, Shared.setsTask]
    · simp [Scheduler.stopAllThreads_eq, Shared.setsTask, Action.reports, hstop]
  | notify | wake | waitAgain => exact .quiet rfl rfl rfl rfl rfl
  | transfer hcall => exact .quiet rfl (by simp [interrupt, hcall]) rfl rfl rfl
  | run hc ht h =>
    obtain ⟨htask, hp⟩ := runStep_interrupts h
    exact .quiet rfl rfl rfl htask hp
  | epollWait hc ht h =>
    simp only [epollWaitStep] at h
    split at h
    · simp only [Option.ite_none_right_eq_some] at h
      cases h.2
      exact ⟨by simp [Shared.setsTask], by simp [Shared.setsTask, interrupt, Action.reports]⟩
    · cases h
  | performIo hc ht h =>
    have hs : s'.toScheduler = s.toScheduler := performIoStep_toScheduler hc ht h
    exact .quiet rfl rfl rfl (by rw [hs]) (by rw [hs])

omit [DecidableEq ι] in
theorem task_of_interrupt {a : Action ι} (h : (interrupt s t a).isSome = true) :
    s.task = true ∨ s.setsTask a = true := by
  cases a with
  | call =>
    cases hcall : t.call with
    | none => simp [interrupt, hcall] at h
    | some call =>
      cases call with
      | push =>
        simp only [interrupt, hcall, Counted.wakeInterrupt_eq] at h
        split at h
        · rename_i hw
          exact .inl hw.2
        · cases h
      | stop =>
        simp only [interrupt, hcall, Scheduler.stopInterrupt] at h
        split at h
        · rename_i hidle
          exact .inl (Bool.and_eq_true_iff.mp hidle).2
        · cases h
      | notifyOne | transfer => simp [interrupt, hcall] at h
  | user u =>
    cases u with
    | initTask =>
      simp only [interrupt, Scheduler.initInterrupt] at h
      split at h
      · rename_i hset
        exact .inr hset
      · cases h
    | _ => cases h
  | _ => cases h

omit [DecidableEq ι] in
theorem setsTask_iff {a : Action ι} : s.setsTask a = true ↔
    a = .user .initTask ∧ s.shutdown = false ∧ s.task = false := by
  cases a with
  | user u => cases u <;> simp [Shared.setsTask]
  | _ => simp [Shared.setsTask]

/-- The calls of a reactor that is in use work on its interrupter as on a latch. -/
theorem due_calls {κ : Type} {K : Source κ} (hK : K.Lawful) {k : κ} (h : K.Armed k)
    (interrupts reports : Bool) :
    K.due (K.exec ((if interrupts then EpollReactor.interrupt else []) ++
        if reports then [.report] else []) k) = ((K.due k || interrupts) && !reports) := by
  rw [hK.due_exec h]
  · cases interrupts <;> cases reports <;> simp [EpollReactor.interrupt, latch]
  · cases interrupts <;> cases reports <;> simp [EpollReactor.interrupt]

-- ---------------------------------------------------------------------------
-- Every run
-- ---------------------------------------------------------------------------

namespace OnKernel

variable [Fintype ι] {κ : Type} {K : Source κ} {c c' : OnKernel ι κ} {l : Label ι}

/-- The kernel has the interrupter to report, once it is in use, exactly while
an interrupt is pending; and before, from the construction of the reactor on. -/
structure Latched (K : Source κ) (c : OnKernel ι κ) : Prop where
  system : System.StopInvariant c.system
  reactor : c.system.shared.task = true → c.reactor = true
  idle : c.system.shared.task = false → c.system.shared.interruptPending = false
  fresh : c.reactor = false → K.Fresh c.kernel
  armed : c.reactor = true → K.Armed c.kernel ∧
    K.due c.kernel = (c.system.shared.interruptPending || !c.system.shared.task)

omit [DecidableEq ι] in
theorem Latched.new {m : Uninitialised} (hm : m.task = false) {k : κ} (hk : K.Fresh k) :
    Latched K (OnKernel.new m k : OnKernel ι κ) where
  system := .new m
  reactor h := by simp [OnKernel.new, System.new, Shared.new, hm] at h
  idle _ := rfl
  fresh _ := hk
  armed h := by cases h

omit [DecidableEq ι] in
theorem Latched.task_eq_false (h : Latched K c) (hr : c.reactor = false) :
    c.system.shared.task = false := by
  cases ht : c.system.shared.task with
  | false => rfl
  | true =>
    rw [h.reactor ht] at hr
    cases hr

theorem Latched.useService (hK : K.Lawful) (h : Latched K c)
    (hn : next K hint c .useService = some c') : Latched K c' := by
  cases hn
  refine ⟨h.system, fun _ => rfl, h.idle, fun hr => (by cases hr), fun _ => ?_⟩
  cases hr : c.reactor with
  | true => simpa using h.armed hr
  | false =>
    obtain ⟨harmed, hdue⟩ := hK.arm (h.fresh hr)
    refine ⟨harmed, ?_⟩
    dsimp only
    rw [h.task_eq_false hr, Bool.not_false, Bool.or_true]
    exact hdue

/-- Only a thread that has the task returns from `epoll_wait`. -/
theorem Latched.task_of_reports (h : Latched K c) {l : ι × Action ι} {system : System ι}
    (hn : System.next hint c.system l = some system) (hl : l.2.reports = true) :
    c.system.shared.task = true := by
  obtain ⟨i, a⟩ := l
  obtain ⟨s, t, hs, -⟩ := Threads.next_eq_some.mp hn
  cases step_piece hs with
  | epollWait hc ht h' =>
    simp only [epollWaitStep] at h'
    split at h'
    · rename_i block hpc
      refine h.system.task_of_runs (i := i) ?_
      simp [Thread.runs, Thread.phase_of_top ht, hpc, Phase.hasTask]
    · cases h'
  | _ => cases hl

omit [DecidableEq ι] [Fintype ι] in
/-- The reactor is constructed first, where `init_task` constructs it. -/
theorem exec_kernelCalls {s : Shared ι} {t : Thread} {a : Action ι} {k k' : κ} {reactor due : Bool}
    (hK : K.Lawful)
    (hk : K.exec (if s.setsTask a && !reactor then EpollReactor.construct else []) k = k')
    (harmed : K.Armed k') (hdue : K.due k' = due) :
    K.Armed (K.exec (kernelCalls reactor s t a) k) ∧
      K.due (K.exec (kernelCalls reactor s t a) k) =
        ((due || (interrupt s t a).isSome) && !a.reports) := by
  subst hk hdue
  rw [kernelCalls, Source.exec_append]
  exact ⟨hK.armed_exec harmed _, due_calls hK harmed _ _⟩

theorem Latched.step (hK : K.Lawful) (h : Latched K c) {l : ι × Action ι}
    (hn : next K hint c (.step l) = some c') : Latched K c' := by
  simp only [next, Option.ite_none_left_eq_some, Option.map_eq_some_iff] at hn
  obtain ⟨-, system, hn, rfl⟩ := hn
  have hsystem := h.system.next hn
  have hreports := h.task_of_reports hn
  obtain ⟨s, t, hs, rfl⟩ := Threads.next_eq_some.mp hn
  obtain ⟨htask, hp⟩ := step_interrupts hs
  cases hset : c.system.shared.setsTask l.2 with
  | true =>
    obtain ⟨ha, -, hidle⟩ := setsTask_iff.mp hset
    have hrep : l.2.reports = false := by rw [ha]; rfl
    have hstart : K.Armed (K.exec (if !c.reactor then EpollReactor.construct else []) c.kernel) ∧
        K.due (K.exec (if !c.reactor then EpollReactor.construct else []) c.kernel) = true := by
      cases hr : c.reactor with
      | false => exact hK.arm (h.fresh hr)
      | true =>
        obtain ⟨harmed, hdue⟩ := h.armed hr
        rw [hidle, Bool.not_false, Bool.or_true] at hdue
        exact ⟨harmed, hdue⟩
    obtain ⟨harmed, hdue⟩ := exec_kernelCalls (t := c.system.thread l.1) hK
      (by rw [hset, Bool.true_and]) hstart.1 hstart.2
    simp only [hset, hrep, Bool.or_true, Bool.true_or, Bool.not_false, Bool.and_true] at htask hp
    refine ⟨hsystem, fun _ => by simp, fun hf => ?_, fun hr => by simp at hr, fun _ => ?_⟩
    · rw [Threads.set_shared, htask] at hf
      cases hf
    · refine ⟨harmed, ?_⟩
      rw [hdue, hrep, Threads.set_shared, htask, hp]
      rfl
  | false =>
    have hsame : K.exec (if c.system.shared.setsTask l.2 && !c.reactor then
        EpollReactor.construct else []) c.kernel = c.kernel := by
      rw [hset]
      rfl
    simp only [hset, Bool.or_false] at htask hp
    have hquiet (ht : c.system.shared.task = false) :
        (interrupt c.system.shared (c.system.thread l.1) l.2).isSome = false ∧
          l.2.reports = false := by
      constructor
      · refine eq_false_of_ne_true fun hi => ?_
        rcases task_of_interrupt hi with htask | hset'
        · simp [ht] at htask
        · simp [hset] at hset'
      · refine eq_false_of_ne_true fun hr => ?_
        rw [hreports hr] at ht
        cases ht
    refine ⟨hsystem, fun ht => ?_, fun ht => ?_, fun hr => ?_, fun hr => ?_⟩
    · rw [Threads.set_shared, htask] at ht
      rw [h.reactor ht, Bool.true_or]
    · rw [Threads.set_shared, htask] at ht
      obtain ⟨hi, hrep⟩ := hquiet ht
      rw [Threads.set_shared, hp, hi, hrep, h.idle ht]
      rfl
    · rw [Bool.or_false] at hr
      obtain ⟨hi, hrep⟩ := hquiet (h.task_eq_false hr)
      have hnone : kernelCalls c.reactor c.system.shared (c.system.thread l.1) l.2 = [] := by
        simp [kernelCalls, hset, hi, hrep]
      rw [hnone]
      exact h.fresh hr
    · rw [Bool.or_false] at hr
      obtain ⟨harmed, hdue⟩ := h.armed hr
      obtain ⟨harmed, hdue⟩ := exec_kernelCalls (t := c.system.thread l.1) hK hsame harmed hdue
      refine ⟨harmed, ?_⟩
      rw [hdue, Threads.set_shared, htask, hp]
      cases ht : c.system.shared.task with
      | true => simp
      | false =>
        obtain ⟨hi, hrep⟩ := hquiet ht
        simp [hi, hrep]

theorem Latched.next (hK : K.Lawful) (h : Latched K c) (hn : next K hint c l = some c') :
    Latched K c' := by
  cases l with
  | useService => exact h.useService hK hn
  | step l => exact h.step hK hn

omit [Fintype ι] in
theorem reachable_system {m : Uninitialised} {k : κ}
    (h : Reach (next K hint) (fun _ _ => True) (OnKernel.new m k) c) :
    System.Reachable hint m c.system := by
  induction h with
  | start => exact .start
  | @step c l c' _ _ hn ih =>
    cases l with
    | useService =>
      cases hn
      exact ih
    | step l =>
      simp only [OnKernel.next, Option.ite_none_left_eq_some, Option.map_eq_some_iff] at hn
      obtain ⟨-, system, hn, rfl⟩ := hn
      exact .step ih trivial hn

/-- No interrupt is lost or made up by the way it is delivered. A system starts
on its kernel with `task_` null; wherever `task_` is set, the kernel has the
interrupter to report exactly while an interrupt is pending. So the kernel
allows the steps of the system, but for those that report the interrupter where
none is pending. -/
theorem interrupt_delivered (K : Source κ) (hK : K.Lawful) (k : κ) (hk : K.Fresh k) (hint : Int)
    (m : Uninitialised) (hm : m.task = false) (c : OnKernel ι κ)
    (h : Reach (OnKernel.next K hint) (fun _ _ => True) (OnKernel.new m k) c) :
    System.Reachable hint m c.system ∧
      (c.system.shared.task = true → K.due c.kernel = c.system.shared.interruptPending) ∧
      ∀ l, (OnKernel.next K hint c (.step l)).isSome = true ↔
        (System.next hint c.system l).isSome = true ∧
          (l.2.reports = true → c.system.shared.interruptPending = true) := by
  have hi : Latched K c := Reach.invariant h (.new hm hk) fun _ _ _ _ hi _ hn => hi.next hK hn
  have hdue (ht : c.system.shared.task = true) :
      K.due c.kernel = c.system.shared.interruptPending := by
    rw [(hi.armed (hi.reactor ht)).2, ht, Bool.not_true, Bool.or_false]
  refine ⟨reachable_system h, hdue, fun l => ?_⟩
  cases hn : System.next hint c.system l with
  | none => simp [OnKernel.next, hn]
  | some system =>
    cases hr : l.2.reports with
    | false => simp [OnKernel.next, hn, hr]
    | true => simp [OnKernel.next, hn, hr, hdue (hi.task_of_reports hn hr)]

open BoostAsio.System in
/-- A service uses the reactor first. A thread is in `epoll_wait` when another
submits an operation, the second time that the interrupter is reported. -/
def reportTwice : List (Label (Fin 3)) :=
  .useService :: [(first, .user .initTask), (first, .user .onWorkStarted), (first, .user .run),
    (first, .next), (first, .next), (first, .epollWait [.interrupter]), (first, .next),
    (first, .next), (first, .next), (first, .next), (first, .next),
    (second, .user (.doDispatch 0)), (second, .call)].map .step

theorem interrupt_delivered_reportTwice :
    ∃ c : OnKernel (Fin 3) Counter,
      exec (OnKernel.next Counter.source 0) (OnKernel.new {} {}) reportTwice = some c ∧
      Counter.source.due c.kernel = c.system.shared.interruptPending ∧
      c.system.shared.interruptPending = true :=
  ⟨_, rfl, (interrupt_delivered Counter.source Counter.lawful {} ⟨rfl, rfl⟩ 0 {} rfl _
    (.of_exec reportTwice (allSteps_trivial _ _) rfl)).2.1 rfl, rfl⟩

end OnKernel

end BoostAsio
