import BoostAsio.SingleRunner

/-!
# Waiting threads, and stop

`event::state_` counts the threads in `wakeup_event_.wait`, and the condition
variable holds no others (`WaitInvariant`). A `true` `task_interrupted_` says
of a thread in `epoll_wait` without a timeout that an interrupt is due
(`Interruptible`): the flag is also set while the task is in the queue or its
runner has something to do, but never by them while another thread polls, since
there is one runner.

`stop` therefore releases every thread, and until `restart` no thread begins to
wait and no operation leaves `op_queue_` (`stop_releases`).
-/

namespace BoostAsio

open Runs

variable {ι : Type} [DecidableEq ι] {hint : Int} {i : ι} {s s' : Scheduler ι} {t t' : Thread}
  {a : Action ι}

def Thread.waits (t : Thread) : Bool := t.phase == some .waiting

def Thread.polls (t : Thread) : Bool := t.phase == some (.polling true)

theorem Thread.polls_runs (h : t.polls = true) : t.runs = true := by
  simp only [polls, beq_iff_eq] at h
  simp [runs, h, Phase.hasTask]

@[simp] theorem Thread.waits_mk {f : Run} {stack : List Suspended} {call : Option Call} :
    waits ⟨some f, stack, call⟩ = decide (f.pc.phase = .waiting) := by
  simp [waits, Bool.beq_eq_decide_eq]

@[simp] theorem Thread.waits_setTop {f : Run} :
    (t.setTop f).waits = decide (f.pc.phase = .waiting) := waits_mk

@[simp] theorem Thread.leave_waits : t.leave.waits = false := by
  rcases t.leave_phase with h | h <;> rw [waits, h] <;> rfl

@[simp] theorem Thread.leave_polls : t.leave.polls = false := by
  rcases t.leave_phase with h | h <;> rw [polls, h] <;> rfl

-- ---------------------------------------------------------------------------
-- The waiters
-- ---------------------------------------------------------------------------

/-- `event::state_` counts the threads that wait. -/
theorem Step.waiters (h : Step hint i s t a s' t') (hl : t.LockState)
    (hw : t.waits = true → 0 < s.wakeupEvent.waiters) :
    s'.wakeupEvent.waiters + t.waits.toNat = s.wakeupEvent.waiters + t'.waits.toNat := by
  have idle {f : Run} (ht : t.top = some f) (hf : f.pc.phase ≠ .waiting) : t.waits = false := by
    simp [Thread.waits, Thread.phase_of_top ht, hf]
  cases h with
  | quiet hc hstack htop hcall => rw [Thread.waits, Thread.waits, htop.phase]
  | stored hc ht hr hr' => simp [idle ht (by simp [hr]), hr']
  | restart | transfer => rfl
  | initTask =>
    rcases s.initTask_cases with he | ⟨-, he, -⟩
    · rw [he]
      rfl
    · rw [he]
      simp [Thread.waits, Thread.phase]
  | enter hc ht => simp [Thread.waits, Thread.phase, ht]
  | nest hc ht hpc => simp [idle ht (by simp [hpc])]
  | push =>
    rw [Scheduler.push_fst]
    simp [Thread.waits, Thread.phase]
  | stop =>
    rw [Scheduler.stopAllThreads_eq]
    simp [Thread.waits, Thread.phase]
  | notify => simp [Thread.waits, Thread.phase]
  | lock hc ht hpc => simp [idle ht (by simp [hpc])]
  | misuse hc ht ho => simp [idle ht (by simp [(hl.misuse_at_lock ht ho).1])]
  | returns hc ht hpc => simp [idle ht (by simp [hpc])]
  | wait hc ht hpc => simp [idle ht (by simp [hpc]), Scheduler.clearAndWait, Scheduler.unlock]
  | pop hc ht hpc =>
    rename_i o rest f _ _ _
    rw [Scheduler.popFront_fst]
    cases o <;> simp [idle ht (by simp [hpc])] <;> split <;> simp
  | taskCleanup hc ht hpc => simp [idle ht (by simp [hpc]), Scheduler.taskCleanup]
  | finished hc ht hpc => simp [idle ht (by simp [hpc])]
  | threw hc ht hpc => simp [idle ht (by simp [hpc])]
  | spliced hc ht hpc => simp [idle ht (by simp [hpc]), Scheduler.workCleanup]
  | splicedThrew hc ht hpc => simp [idle ht (by simp [hpc])]
  | wake hc ht hpc =>
    have hwait : t.waits = true := by simp [Thread.waits, Thread.phase_of_top ht, hpc]
    have := hw hwait
    simp [hwait]
    omega
  | waitAgain hc ht hpc =>
    have := hw (by simp [Thread.waits, Thread.phase_of_top ht, hpc])
    simp
    omega
  | epollWait hc ht hpc => simp [idle ht (by simp [hpc])]

theorem Step.blocked (h : Step hint i s t a s' t') (hl : t.LockState)
    (hb : i ∈ s.wakeupEvent.blocked → t.waits = true) :
    (i ∈ s'.wakeupEvent.blocked → t'.waits = true) ∧
      ∀ j, j ≠ i → j ∈ s'.wakeupEvent.blocked → j ∈ s.wakeupEvent.blocked := by
  have idle {f : Run} (ht : t.top = some f) (hf : f.pc.phase ≠ .waiting) :
      i ∉ s.wakeupEvent.blocked := by
    intro hi
    have := hb hi
    simp [Thread.waits, Thread.phase_of_top ht, hf] at this
  have same {e : Event ι} (he : e.blocked = s.wakeupEvent.blocked) (ht : t'.waits = t.waits) :
      (i ∈ e.blocked → t'.waits = true) ∧
        ∀ j, j ≠ i → j ∈ e.blocked → j ∈ s.wakeupEvent.blocked := by
    rw [he, ht]
    exact ⟨hb, fun _ _ h => h⟩
  have left {e : Event ι} (he : e.blocked = s.wakeupEvent.blocked) {f : Run}
      (ht : t.top = some f) (hf : f.pc.phase ≠ .waiting) :
      (i ∈ e.blocked → t'.waits = true) ∧
        ∀ j, j ≠ i → j ∈ e.blocked → j ∈ s.wakeupEvent.blocked := by
    rw [he]
    exact ⟨fun hi => absurd hi (idle ht hf), fun _ _ h => h⟩
  cases h with
  | quiet hc hstack htop hcall => exact same rfl (by rw [Thread.waits, htop.phase, Thread.waits])
  | stored hc ht hr hr' => exact left rfl ht (by simp [hr])
  | restart | transfer => exact same rfl rfl
  | initTask => rcases s.initTask_cases with he | ⟨-, he, -⟩ <;> exact same (by simp [he]) rfl
  | enter hc ht =>
    exact ⟨fun hi => by simpa [Thread.waits, Thread.phase, ht] using hb hi, fun _ _ h => h⟩
  | nest hc ht hpc => exact left rfl ht (by simp [hpc])
  | push => exact same (by simp [Scheduler.push_fst]) rfl
  | stop => simp [Scheduler.stopAllThreads_eq]
  | notify =>
    simp only [Event.notifyOne_blocked, Finset.mem_erase]
    exact ⟨fun hi => hb hi.2, fun _ _ h => h.2⟩
  | lock hc ht hpc => exact left rfl ht (by simp [hpc])
  | misuse hc ht ho => exact left rfl ht (by simp [(hl.misuse_at_lock ht ho).1])
  | returns hc ht hpc => exact left rfl ht (by simp [hpc])
  | wait hc ht hpc =>
    refine ⟨by simp, fun j hj hm => ?_⟩
    simpa [Scheduler.clearAndWait, Scheduler.unlock, hj] using hm
  | pop hc ht hpc =>
    refine left ?_ ht (by simp [hpc])
    rw [Scheduler.popFront_fst]
    dsimp only
    split <;> rfl
  | taskCleanup hc ht hpc => exact left rfl ht (by simp [hpc])
  | finished hc ht hpc => exact left rfl ht (by simp [hpc])
  | threw hc ht hpc => exact left rfl ht (by simp [hpc])
  | spliced hc ht hpc => exact left rfl ht (by simp [hpc])
  | splicedThrew hc ht hpc => exact left rfl ht (by simp [hpc])
  | wake hc ht hpc => simp +contextual
  | waitAgain hc ht hpc =>
    refine ⟨fun _ => by simp [Thread.waits, Thread.phase_of_top ht, hpc], fun j hj hm => ?_⟩
    simpa [hj] using hm
  | epollWait hc ht hpc => exact left rfl ht (by simp [hpc])

-- ---------------------------------------------------------------------------
-- What stop leaves behind
-- ---------------------------------------------------------------------------

/-- A stopped scheduler has notified the threads that wait, and they will leave
`wakeup_event_.wait`. -/
def Scheduler.WaitersReleased (s : Scheduler ι) : Prop :=
  s.stopped = true → s.wakeupEvent.blocked = ∅ ∧
    (s.wakeupEvent.signalled = true ∨ s.wakeupEvent.waiters = 0)

theorem Step.waitersReleased (h : Step hint i s t a s' t') (hr : s.WaitersReleased)
    (hw : t.waits = true → 0 < s.wakeupEvent.waiters) : s'.WaitersReleased := by
  intro hs
  cases h with
  | quiet | stored | enter | nest | transfer | lock | misuse | returns | taskCleanup | finished
  | threw | spliced | splicedThrew | epollWait => exact hr hs
  | restart => cases hs
  | initTask =>
    rcases s.initTask_cases with he | ⟨-, he, -⟩ <;> rw [he] at hs ⊢
    · exact hr hs
    · exact ⟨(hr hs).1, .inl (by simp)⟩
  | push =>
    rw [Scheduler.push_fst] at hs ⊢
    exact ⟨(hr hs).1, .inl (by simp)⟩
  | stop => simp [Scheduler.stopAllThreads_eq]
  | notify => exact ⟨by simp [(hr hs).1], (hr hs).2⟩
  | wait hc ht hpc ho hn =>
    have : s.stopped = true := hs
    simp [hn] at this
  | pop hc ht hpc ho hn =>
    rw [Scheduler.popFront_fst] at hs
    have : s.stopped = true := hs
    simp [hn] at this
  | wake hc ht hpc hm hsig =>
    have : s.stopped = true := hs
    exact ⟨by simp [(hr this).1], .inl hsig⟩
  | waitAgain hc ht hpc hm hsig =>
    have : s.stopped = true := hs
    have hpos := hw (by simp [Thread.waits, Thread.phase_of_top ht, hpc])
    rw [Event.leaveWait_signalled _ _ hpos] at hsig
    have := (hr this).2
    simp [hsig] at this
    omega

/-- An interrupt is due if the flag says so or the scheduler is stopped. -/
def Scheduler.Interrupted (s : Scheduler ι) : Prop :=
  s.stopped = true ∨ s.taskInterrupted = true → s.interruptPending = true

section Interrupted

omit [DecidableEq ι]

theorem Scheduler.Interrupted.push (h : s.Interrupted) (ops : OpQueue Operation) :
    (s.push ops).1.Interrupted := by
  rw [push_fst]
  cases hi : s.interrupts <;> simp_all [Interrupted]

theorem Scheduler.Interrupted.stopAllThreads (h : s.Interrupted) (ht : s.task = true) :
    s.stopAllThreads.Interrupted := by
  rw [stopAllThreads_eq]
  cases hi : s.taskInterrupted <;> simp_all [Interrupted]

theorem Scheduler.Interrupted.initTask (h : s.Interrupted) : s.initTask.1.Interrupted := by
  rcases s.initTask_cases with he | ⟨-, he, -⟩ <;> rw [he]
  · exact h
  · exact fun _ => rfl

theorem Scheduler.Interrupted.restart (h : s.Interrupted) : s.restart.Interrupted := by
  rintro (hs | hs)
  · cases hs
  · exact h (.inr hs)

end Interrupted

/-- No thread polls without an interrupt where one is due. -/
def Interruptible (s : Scheduler ι) (t : Thread) : Prop := t.polls = true → s.Interrupted

theorem Step.interruptible_other (h : Step hint i s t a s' t') {u : Thread}
    (hu : Interruptible s u) (htask : s.task = true) (hrun : t.runs = false)
    (hq : .taskOperation ∉ s.opQueue) : Interruptible s' u := by
  intro hp
  have hold : s.Interrupted := hu hp
  cases h with
  | quiet | stored | enter | nest | lock | misuse | returns | finished | threw | spliced
  | splicedThrew | notify | transfer | wait | wake | waitAgain => exact hold
  | restart => exact hold.restart
  | initTask => exact hold.initTask
  | push => exact hold.push _
  | stop => exact hold.stopAllThreads htask
  | pop hc ht hpc ho hn hqueue =>
    rename_i o rest f
    have hne : o ≠ .taskOperation := by
      rintro rfl
      exact hq (by simp [hqueue])
    rw [Scheduler.popFront_fst]
    simpa [Scheduler.Interrupted, hne] using hold
  | taskCleanup hc ht hpc => simp [Thread.runs, Thread.phase_of_top ht, hpc, Phase.hasTask] at hrun
  | epollWait hc ht hpc => simp [Thread.runs, Thread.phase_of_top ht, hpc, Phase.hasTask] at hrun

theorem Step.interruptible_self (h : Step hint i s t a s' t') (hi : Interruptible s t)
    (htask : t.polls = true → s.task = true) : Interruptible s' t' := by
  intro hp
  cases h with
  | quiet hc hstack htop =>
    rw [Thread.polls, htop.phase, ← Thread.polls] at hp
    exact hi hp
  | stored hc ht hr hr' => simp [Thread.polls, hr'] at hp
  | restart => exact (hi hp).restart
  | initTask => exact (hi hp).initTask
  | push => exact (hi hp).push _
  | stop => exact (hi hp).stopAllThreads (htask hp)
  | notify | transfer | waitAgain => exact hi hp
  | pop hc ht hpc ho hn hq =>
    rename_i o rest f
    by_cases hne : o = .taskOperation
    · -- the task alone: its flag is cleared, and nothing is stopped
      have he : rest = [] := by simpa [Thread.polls, hne] using hp
      rw [Scheduler.popFront_fst]
      simp [Scheduler.Interrupted, hne, he, hn]
    · simp [Thread.polls, hne] at hp
  | enter | nest | lock | wait | taskCleanup | finished | spliced | wake | epollWait =>
    simp [Thread.polls] at hp
  | misuse | returns | threw | splicedThrew => simp at hp

-- ---------------------------------------------------------------------------
-- Every run
-- ---------------------------------------------------------------------------

namespace System

variable {c c' : System ι} {l : ι × Action ι} {m : Uninitialised} [Fintype ι]

structure StopInvariant (c : System ι) : Prop extends OneTask c where
  waiters : c.shared.wakeupEvent.waiters = ∑ j, (c.thread j).waits.toNat
  blocked : ∀ j, j ∈ c.shared.wakeupEvent.blocked → (c.thread j).waits = true
  released : c.shared.WaitersReleased
  interruptible : ∀ j, Interruptible c.shared.toScheduler (c.thread j)

omit [DecidableEq ι] in
theorem StopInvariant.new (m : Uninitialised) : StopInvariant (System.new m : System ι) where
  toOneTask := .new m
  waiters := by simp [System.new, Shared.new, Thread.waits, Thread.phase, Event.waiters]
  blocked := by simp [System.new, Shared.new]
  released _ := ⟨rfl, .inr (by simp [System.new, Shared.new, Event.waiters])⟩
  interruptible _ h := by simp [System.new, Thread.polls, Thread.phase] at h

section Facts

omit [DecidableEq ι]

theorem StopInvariant.waiters_pos (h : StopInvariant c) {i : ι} (hi : (c.thread i).waits = true) :
    0 < c.shared.wakeupEvent.waiters := by
  rw [h.waiters]
  refine Finset.sum_pos' (fun _ _ => zero_le) ⟨i, Finset.mem_univ i, ?_⟩
  simp [hi]

theorem OneTask.task_of_runs (h : OneTask c) {i : ι}
    (hi : (c.thread i).runs = true) : c.shared.task = true := by
  have ht := h.tasks_le
  have hpos : 0 < ∑ j, (c.thread j).runs.toNat :=
    Finset.sum_pos' (fun _ _ => zero_le) ⟨i, Finset.mem_univ i, by simp [hi]⟩
  simp only [System.tasks, Threads.total] at ht
  cases htask : c.shared.task with
  | true => rfl
  | false => simp only [htask, Bool.toNat_false] at ht; omega

end Facts

theorem StopInvariant.next (h : StopInvariant c) (hn : System.next hint c l = some c') :
    StopInvariant c' := by
  obtain ⟨s, t, hs, rfl⟩ := Threads.next_eq_some.mp hn
  have hstep := step_cases hs
  have hlock := (h.locks l.1).state
  refine ⟨h.toOneTask.next hn, ?_, fun j => ?_, ?_, fun j => ?_⟩
  · have hsum := Threads.total_next (m := fun s => s.wakeupEvent.waiters) (f := fun _ => 0)
      (n := fun _ => 0) (g := fun t => t.waits.toNat) (x := 0) (y := 0) hn fun s t hs => by
        have := (step_cases hs).waiters hlock h.waiters_pos
        simpa using this
    have hw := h.waiters
    simp only [Threads.total, Finset.sum_const_zero] at hsum
    omega
  · exact Threads.forall_next
      (I := fun j s t => j ∈ s.wakeupEvent.blocked → t.waits = true) hn
      (fun s t hs => ((step_cases hs).blocked hlock (h.blocked l.1)).1)
      (fun s t hs j hj hb =>
        h.blocked j (((step_cases hs).blocked hlock (h.blocked l.1)).2 j hj hb)) j
  · exact hstep.waitersReleased h.released h.waiters_pos
  · refine Threads.forall_next (I := fun _ s t => Interruptible s.toScheduler t) hn
      (fun s t hs => (step_cases hs).interruptible_self (h.interruptible l.1) fun hp =>
        h.task_of_runs (Thread.polls_runs hp)) (fun s t hs j hj hp => ?_) j
    have hr := Thread.polls_runs hp
    have hl : (c.thread l.1).runs = false := by
      rw [← Bool.not_eq_true]
      exact fun hr' => hj (h.runs_unique hr hr')
    exact (step_cases hs).interruptible_other (h.interruptible j) (h.task_of_runs hr) hl
      (h.task_not_mem hr) hp

theorem Reachable.stopInvariant (h : Reachable hint m c) :
    StopInvariant c :=
  Reach.invariant h (.new m) fun _ _ _ _ hi _ hn => hi.next hn

/-- No thread inside `run()` is blocked without a wakeup due: those that wait
have been notified and will find the bit set, and `epoll_wait` will return. -/
structure Released (c : System ι) : Prop where
  waiting : ∀ i, (c.thread i).waits = true →
    i ∉ c.shared.wakeupEvent.blocked ∧ c.shared.wakeupEvent.signalled = true
  polling : ∀ i, (c.thread i).polls = true → c.shared.interruptPending = true

omit [DecidableEq ι] in
theorem StopInvariant.allReleased (h : StopInvariant c) (hs : c.shared.stopped = true) :
    Released c where
  waiting i hw := by
    obtain ⟨hb, hsig⟩ := h.released hs
    have hpos := h.waiters_pos hw
    exact ⟨by simp [hb], hsig.resolve_right (by omega)⟩
  polling i hp := h.interruptible i hp (.inl hs)

/-- From `c` to `c'` the scheduler stayed stopped, nothing left `op_queue_`, and
no thread began to wait. -/
structure StayedStopped (c c' : System ι) : Prop where
  stopped : c'.shared.stopped = true
  queue : c.shared.opQueue <+: c'.shared.opQueue
  waits : ∀ i, (c'.thread i).waits = true → (c.thread i).waits = true

end System

theorem Step.stays_stopped (h : Step hint i s t a s' t') (hs : s.stopped = true)
    (ha : a ≠ .user .restart) :
    s'.stopped = true ∧ s.opQueue <+: s'.opQueue ∧ (t'.waits = true → t.waits = true) := by
  cases h with
  | quiet hc hstack htop => exact ⟨hs, List.prefix_rfl, by rw [Thread.waits, htop.phase]; exact id⟩
  | stored hc ht hr hr' => exact ⟨hs, List.prefix_rfl, by simp [hr']⟩
  | restart => exact absurd rfl ha
  | initTask =>
    rcases s.initTask_cases with he | ⟨-, he, -⟩ <;> rw [he]
    · exact ⟨hs, List.prefix_rfl, id⟩
    · exact ⟨hs, List.prefix_append _ _, id⟩
  | push =>
    rw [Scheduler.push_fst]
    exact ⟨hs, List.prefix_append _ _, id⟩
  | stop =>
    rw [Scheduler.stopAllThreads_eq]
    exact ⟨rfl, List.prefix_rfl, id⟩
  | wait hc ht hpc ho hn => simp [hn] at hs
  | pop hc ht hpc ho hn => simp [hn] at hs
  | taskCleanup =>
    refine ⟨hs, ?_, by simp⟩
    simp only [Scheduler.taskCleanup, List.append_assoc]
    exact List.prefix_append _ _
  | spliced | splicedThrew => exact ⟨hs, List.prefix_append _ _, by simp⟩
  | notify | transfer | waitAgain => exact ⟨hs, List.prefix_rfl, id⟩
  | enter | nest | lock | finished | wake | epollWait | misuse | returns | threw =>
    exact ⟨hs, List.prefix_rfl, by simp⟩

namespace System

variable {c c' : System ι} {l : ι × Action ι} {m : Uninitialised} [Fintype ι]

omit [Fintype ι] in
theorem StayedStopped.next {c₀ : System ι} (h : StayedStopped c₀ c)
    (hn : System.next hint c l = some c') (hl : l.2 ≠ .user .restart) :
    StayedStopped c₀ c' := by
  obtain ⟨s, t, hs, rfl⟩ := Threads.next_eq_some.mp hn
  obtain ⟨hstop, hq, hw⟩ := (step_cases hs).stays_stopped h.stopped hl
  refine ⟨hstop, h.queue.trans hq, fun j hj => ?_⟩
  by_cases he : j = l.1
  · subst he
    exact h.waits _ (hw (by simpa using hj))
  · exact h.waits j (by simpa [Threads.set_thread_ne c he] using hj)

theorem stop_releases (hint : Int) (m : Uninitialised) (c : System ι)
    (h : Reachable hint m c) (hs : c.shared.stopped = true) (ls : List (ι × Action ι))
    (hls : ∀ l ∈ ls, l.2 ≠ .user .restart) :
    AllStates (System.next hint) (fun c' => Released c' ∧ StayedStopped c c') c ls := by
  refine allStates_of_invariant (I := fun c' => StopInvariant c' ∧ StayedStopped c c')
    (fun c' h => ⟨h.1.allReleased h.2.stopped, h.2⟩) (fun c' l c'' h hl hn => ?_)
    ⟨h.stopInvariant, hs, List.prefix_rfl, fun _ => id⟩
  exact ⟨h.1.next hn, h.2.next hn (hls l hl)⟩

/-- One thread waits and another polls when a third calls `stop`. -/
def stopBoth : List (Fin 3 × Action (Fin 3)) :=
  [(first, .user .onWorkStarted), (first, .user .initTask), (first, .user .run), (first, .next),
    (first, .next), (second, .user .run), (second, .next), (second, .next),
    (third, .user .stop), (third, .call)]

theorem stop_releases_stopBoth :
    ∃ c : System (Fin 3), exec (System.next 0) (System.new {}) stopBoth = some c ∧
      ((c.thread 0).polls && (c.thread 1).waits) = true ∧
      AllStates (System.next 0) (fun c' => Released c' ∧ StayedStopped c c') c
        [(second, .wake), (second, .next), (first, .epollWait [.interrupter])] :=
  ⟨_, rfl, by decide, stop_releases 0 {} _ (.of_exec stopBoth (allSteps_trivial _ _) rfl)
    rfl _ (by simp)⟩

end System

end BoostAsio
