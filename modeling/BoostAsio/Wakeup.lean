import BoostAsio.StopAll

/-!
# No lost wakeup

While `op_queue_` has something in it, not every thread inside `run()` is
blocked for good. A submission wakes a waiter if `event::state_` counts one and
the reactor otherwise, and a thread that takes an operation and leaves others
wakes a waiter, except where `one_thread_` is set: there the runs considered
have one thread inside `run()`.

An exception that leaves `run()` ends this (`~work_cleanup` then splices the
private queue and nobody is woken for it), so the runs considered have none.
`stop` and `restart` may be called.
-/

namespace BoostAsio

open Runs

variable {ι : Type} [DecidableEq ι] {hint : Int} {i : ι} {s s' : Scheduler ι} {t t' : Thread}
  {a : Action ι}

/-- The thread is inside `run()` and neither waits nor polls. -/
def Thread.active (t : Thread) : Bool := t.phase.isSome && !t.waits && !t.polls

theorem Step.exceptions_le (h : Step hint i s t a s' t') : s.exceptions ≤ s'.exceptions := by
  cases h with
  | initTask => rcases s.initTask_cases with he | ⟨-, he, -⟩ <;> simp [he]
  | push => simp [Scheduler.push_fst]
  | stop => simp [Scheduler.stopAllThreads_eq]
  | pop => simp [Scheduler.popFront_fst]
  | misuse | threw | splicedThrew => exact Nat.le_succ _
  | _ => exact Nat.le_refl _

theorem Step.inside (h : Step hint i s t a s' t') (ha : a ≠ .user .run)
    (hi : t'.phase.isSome = true) : t.phase.isSome = true := by
  cases h with
  | quiet hc hstack htop => rwa [← htop.phase]
  | enter | nest => exact absurd rfl ha
  | restart | initTask | push | stop | notify | transfer | waitAgain => exact hi
  | stored _ ht | lock _ ht | misuse _ ht | returns _ ht | wait _ ht | pop _ ht | taskCleanup _ ht
  | finished _ ht | threw _ ht | spliced _ ht | splicedThrew _ ht | wake _ ht | epollWait _ ht =>
    simp [Thread.phase_of_top ht]

/-- Where operations are queued and the mutex is free, the bit is set for the
threads that wait. -/
def Scheduler.Signalled (s : Scheduler ι) : Prop :=
  s.opQueue ≠ [] → s.mutex = none → s.wakeupEvent.signalled = true ∨ s.wakeupEvent.waiters = 0

theorem Step.signalled (h : Step hint i s t a s' t') (hx : s'.exceptions = 0)
    (hs : s.Signalled) (hr : s'.WaitersReleased) (hw : t.waits = true → 0 < s.wakeupEvent.waiters)
    (hone : oneThread hint = true → t.phase.isSome = true → t.waits = false →
      s.wakeupEvent.waiters = 0) : s'.Signalled := by
  intro hq hm
  cases h with
  | quiet | stored | enter | nest | finished | restart | notify | transfer | epollWait =>
    exact hs hq hm
  | initTask =>
    rcases s.initTask_cases with he | ⟨-, he, -⟩ <;> rw [he] at hq hm ⊢
    · exact hs hq hm
    · exact .inl (by simp)
  | push =>
    rw [Scheduler.push_fst]
    exact .inl (by simp)
  | stop =>
    rw [Scheduler.stopAllThreads_eq]
    exact .inl (by simp)
  | lock | wake | taskCleanup | spliced => cases hm
  | misuse | threw | splicedThrew => cases hx
  | returns hc ht hpc hstop => exact (hr hstop).2
  | wait hc ht hpc ho hn he => exact absurd he hq
  | pop hc ht hpc =>
    rename_i o rest f _ _ _
    rw [Scheduler.popFront_fst] at hq ⊢
    cases hsig : Scheduler.signals hint rest with
    | true => exact .inl (by simp)
    | false =>
      have hrest : rest ≠ [] := hq
      have hwait : t.waits = false := by simp [Thread.waits, Thread.phase_of_top ht, hpc]
      have h1 : oneThread hint = true := by simpa [Scheduler.signals, hrest] using hsig
      exact .inr (by simpa using hone h1 (by simp [Thread.phase_of_top ht]) hwait)
  | waitAgain hc ht hpc hmut hsig =>
    have hpos := hw (by simp [Thread.waits, Thread.phase_of_top ht, hpc])
    rw [Event.leaveWait_signalled _ _ hpos] at hsig
    rcases hs hq hm with h | h
    · simp [hsig] at h
    · omega

namespace System

variable {c c' : System ι} {l : ι × Action ι} {m : Uninitialised}

def NotifyDue (c : System ι) : Prop := ∃ j, (c.thread j).call = some .notifyOne

/-- The thread waits, without a notification delivered or about to be sent, or
polls without a timeout and without an interrupt pending. -/
def BlockedForGood (c : System ι) (i : ι) : Prop :=
  (c.thread i).waits = true ∧ i ∈ c.shared.wakeupEvent.blocked ∧ ¬ NotifyDue c ∨
    (c.thread i).polls = true ∧ c.shared.interruptPending = false

/-- Inside `run()`, and not blocked for good. -/
def Awake (c : System ι) (i : ι) : Prop :=
  (c.thread i).phase.isSome = true ∧ ¬ BlockedForGood c i

theorem awake_self {c : System ι} {k : ι} {s' : Shared ι} (h : t'.active = true) :
    Awake (c.set k s' t') k := by
  simp only [Thread.active, Bool.and_eq_true, Bool.not_eq_true'] at h
  refine ⟨by simpa using h.1.1, ?_⟩
  simp [BlockedForGood, h.1.2, h.2]

theorem phase_set {k : ι} {s' : Shared ι} (h : t'.phase = (c.thread k).phase) (j : ι) :
    ((c.set k s' t').thread j).phase = (c.thread j).phase := by
  by_cases hj : j = k
  · subst hj
    simpa using h
  · rw [Threads.set_thread_ne c hj]

/-- A step that moves no thread takes no wakeup away. -/
theorem Awake.calm {k : ι} {s' : Shared ι} (hi : Awake c i)
    (hphase : t'.phase = (c.thread k).phase)
    (hb : s'.wakeupEvent.blocked ⊆ c.shared.wakeupEvent.blocked)
    (hp : c.shared.interruptPending = true → s'.interruptPending = true)
    (hc : (c.thread k).call = some .notifyOne → t'.call = some .notifyOne) :
    Awake (c.set k s' t') i := by
  have same : ∀ j, ((c.set k s' t').thread j).phase = (c.thread j).phase := phase_set hphase
  have due : NotifyDue c → NotifyDue (c.set k s' t') := by
    rintro ⟨j, hj⟩
    refine ⟨j, ?_⟩
    by_cases hjk : j = k
    · subst hjk
      simpa using hc hj
    · rwa [Threads.set_thread_ne c hjk]
  refine ⟨(congrArg Option.isSome (same i)).trans hi.1, fun hblock => hi.2 ?_⟩
  rcases hblock with ⟨hw, hm, hn⟩ | ⟨hw, hn⟩
  · exact .inl ⟨by rwa [Thread.waits, same, ← Thread.waits] at hw, hb hm, fun h => hn (due h)⟩
  · refine .inr ⟨by rwa [Thread.polls, same, ← Thread.polls] at hw, ?_⟩
    rw [← Bool.not_eq_true]
    exact fun h => by simp [hp h] at hn

/-- A `notify_one` that finds nobody blocked wakes nobody, and nobody needs
it. -/
theorem Awake.unnotified {k : ι} {s' : Shared ι} (hi : Awake c i)
    (hphase : t'.phase = (c.thread k).phase) (hb : s'.wakeupEvent.blocked = ∅)
    (hp : s'.interruptPending = c.shared.interruptPending) : Awake (c.set k s' t') i := by
  obtain ⟨hi, hi'⟩ := hi
  refine ⟨by rwa [phase_set hphase], ?_⟩
  rintro (⟨-, hm, -⟩ | ⟨hpolls, hn⟩)
  · simp [hb] at hm
  · rw [Thread.polls, phase_set hphase, ← Thread.polls] at hpolls
    exact hi' (.inr ⟨hpolls, hp ▸ hn⟩)

variable [Fintype ι]

omit [DecidableEq ι] in
theorem StopInvariant.exists_waits (h : StopInvariant c)
    (hw : 0 < c.shared.wakeupEvent.waiters) : ∃ j, (c.thread j).waits = true := by
  rw [h.waiters] at hw
  obtain ⟨j, -, hj⟩ := Finset.exists_ne_zero_of_sum_ne_zero hw.ne'
  exact ⟨j, by simpa using hj⟩

/-- After `wake_one_thread_and_unlock` by thread `k`, for a reactor that exists
if a thread polls. -/
theorem awake_of_woken {k : ι} {s' : Shared ι} (h : StopInvariant c)
    (hphase : t'.phase = (c.thread k).phase)
    (hcall : t'.call = if 0 < c.shared.wakeupEvent.waiters then some .notifyOne else none)
    (hp : c.shared.wakeupEvent.waiters = 0 → (∃ j, (c.thread j).polls = true) →
      s'.interruptPending = true)
    (hin : ∃ j, (c.thread j).phase.isSome = true) : ∃ i, Awake (c.set k s' t') i := by
  have same : ∀ j, ((c.set k s' t').thread j).phase = (c.thread j).phase := phase_set hphase
  rcases Nat.eq_zero_or_pos c.shared.wakeupEvent.waiters with hz | hpos
  · obtain ⟨j, hj⟩ := hin
    refine ⟨j, by rwa [same], ?_⟩
    rintro (⟨hw, -⟩ | ⟨hw, hn⟩)
    · rw [Thread.waits, same, ← Thread.waits] at hw
      have := h.waiters_pos hw
      omega
    · rw [Thread.polls, same, ← Thread.polls] at hw
      have := hp hz ⟨j, hw⟩
      simp [this] at hn
  · obtain ⟨j, hj⟩ := h.exists_waits hpos
    have hw : ((c.set k s' t').thread j).waits = true := by
      rwa [Thread.waits, same, ← Thread.waits]
    have hdue : NotifyDue (c.set k s' t') := ⟨k, by simp [hcall, hpos]⟩
    simp only [Thread.waits, beq_iff_eq] at hw
    refine ⟨j, by simp [hw], ?_⟩
    rintro (⟨-, -, hn⟩ | ⟨hp, -⟩)
    · exact hn hdue
    · simp [Thread.polls, hw] at hp

/-- After `stop` nobody is blocked for good. -/
theorem awake_of_stopped {k : ι} {s' : Shared ι} (h' : StopInvariant (c.set k s' t'))
    (hs : s'.stopped = true) (hin : ∃ j, ((c.set k s' t').thread j).phase.isSome = true) :
    ∃ i, Awake (c.set k s' t') i := by
  obtain ⟨j, hj⟩ := hin
  have hr : Released (c.set k s' t') := h'.allReleased hs
  refine ⟨j, hj, ?_⟩
  rintro (⟨hw, hm, -⟩ | ⟨hp, hn⟩)
  · exact (hr.waiting j hw).1 hm
  · rw [hr.polling j hp] at hn
    cases hn

/-- A thread that a `notify_one` by thread `k` takes off the list is not blocked
for good. -/
theorem awake_of_notified {k j : ι} {s' : Shared ι} (h : StopInvariant c)
    (hphase : t'.phase = (c.thread k).phase) (hb : j ∈ c.shared.wakeupEvent.blocked)
    (hj : j ∉ s'.wakeupEvent.blocked) : Awake (c.set k s' t') j := by
  have hw : ((c.set k s' t').thread j).waits = true := by
    rw [Thread.waits, phase_set hphase]
    exact h.blocked j hb
  simp only [Thread.waits, beq_iff_eq] at hw
  refine ⟨by simp [hw], ?_⟩
  rintro (⟨-, hm, -⟩ | ⟨hp, -⟩)
  · exact hj hm
  · simp [Thread.polls, hw] at hp

theorem awake_step {k : ι} {s' : Shared ι} {sch : Scheduler ι}
    (hstep : Step hint k c.shared.toScheduler (c.thread k) a sch t') (he : s'.toScheduler = sch)
    (h : StopInvariant c) (h' : StopInvariant (c.set k s' t')) (hsig : c.shared.Signalled)
    (hx : s'.exceptions = 0) (hq : s'.opQueue ≠ [])
    (hold : c.shared.opQueue ≠ [] → (∃ j, (c.thread j).phase.isSome = true) → ∃ i, Awake c i)
    (hin : ∃ j, ((c.set k s' t').thread j).phase.isSome = true) :
    ∃ i, Awake (c.set k s' t') i := by
  have inside (hphase : t'.phase = (c.thread k).phase) :
      ∃ j, (c.thread j).phase.isSome = true := by
    obtain ⟨j, hj⟩ := hin
    exact ⟨j, by rwa [phase_set hphase] at hj⟩
  have calm (hphase : t'.phase = (c.thread k).phase)
      (hb : s'.wakeupEvent.blocked ⊆ c.shared.wakeupEvent.blocked)
      (hp : c.shared.interruptPending = true → s'.interruptPending = true)
      (hc : (c.thread k).call = some .notifyOne → t'.call = some .notifyOne)
      (hqueue : c.shared.opQueue ≠ []) : ∃ i, Awake (c.set k s' t') i := by
    obtain ⟨i, hi⟩ := hold hqueue (inside hphase)
    exact ⟨i, hi.calm hphase hb hp hc⟩
  cases hstep with
  | quiet hc hstack htop =>
    exact calm htop.phase (by rw [he]) (by rw [he]; exact id) (by simp [hc]) (by rwa [he] at hq)
  | restart hc =>
    exact calm rfl (by rw [he]; rfl) (by rw [he]; exact id) (by simp [hc]) (by rwa [he] at hq)
  | transfer hc =>
    exact calm rfl (by rw [he]) (by rw [he]; exact id) (by simp [hc]) (by rwa [he] at hq)
  | initTask hc hm =>
    rcases c.shared.toScheduler.initTask_cases with hi | ⟨-, hi, hi'⟩
    · rw [hi] at he
      exact calm rfl (by rw [he]) (by rw [he]; exact id) (by simp [hc]) (by rwa [he] at hq)
    · exact awake_of_woken h rfl hi' (fun _ _ => by rw [he, hi]) (inside rfl)
  | push hc hm =>
    refine awake_of_woken h rfl (Scheduler.push_snd _ _) (fun hz ⟨j, hj⟩ => ?_) (inside rfl)
    have htask := h.task_of_runs (Thread.polls_runs hj)
    rw [he, Scheduler.push_fst]
    simp [Scheduler.interrupts, htask, hz]
  | stop hc hm => exact awake_of_stopped h' (by rw [he, Scheduler.stopAllThreads_eq]) hin
  | notify hc hb =>
    rename_i j
    rcases hb with hb | hb
    · obtain ⟨i, hi⟩ := hold (by rwa [he] at hq) (inside rfl)
      exact ⟨i, hi.unnotified rfl (by simp [he, hb]) (by simp [he])⟩
    · exact ⟨j, awake_of_notified h rfl hb (by simp [he])⟩
  | returns _ _ _ hs => exact awake_of_stopped h' (by rw [he]; exact hs) hin
  | misuse | threw | splicedThrew => rw [he] at hx; cases hx
  | wait _ _ _ _ _ hn => rw [he] at hq; exact absurd hn hq
  | pop =>
    rename_i o rest f _ _ _ _ _ _
    rw [he, Scheduler.popFront_fst] at hq
    have hrest : rest ≠ [] := hq
    refine ⟨k, awake_self ?_⟩
    by_cases ho : o = .taskOperation <;>
      simp [Thread.active, Thread.waits, Thread.polls, ho, hrest]
  | waitAgain hc ht hpc hm hs =>
    -- the bit is set for a thread that waits while operations are queued
    have hpos := h.waiters_pos (i := k) (by simp [Thread.waits, Thread.phase_of_top ht, hpc])
    rw [Event.leaveWait_signalled _ _ hpos] at hs
    rcases hsig (by rwa [he] at hq) hm with h1 | h0
    · rw [h1] at hs
      cases hs
    · omega
  | stored hc ht hr hr' =>
    exact ⟨k, awake_self (by simp [Thread.active, Thread.waits, Thread.polls, hr'])⟩
  | enter | nest | lock | taskCleanup | finished | spliced | wake | epollWait =>
    exact ⟨k, awake_self rfl⟩

-- ---------------------------------------------------------------------------
-- Every run
-- ---------------------------------------------------------------------------

/-- With `one_thread_`, a thread calls `run()` only if no other is inside. -/
def OneRunner (hint : Int) (c : System ι) (l : ι × Action ι) : Prop :=
  oneThread hint = true → l.2 = .user .run → ∀ j, j ≠ l.1 → (c.thread j).phase.isSome = false

structure WakeInvariant (hint : Int) (c : System ι) : Prop extends StopInvariant c where
  alone : oneThread hint = true → ∀ i j, (c.thread i).phase.isSome = true →
    (c.thread j).phase.isSome = true → i = j
  signalled : c.shared.exceptions = 0 → c.shared.Signalled
  awake : c.shared.exceptions = 0 → c.shared.opQueue ≠ [] →
    (∃ j, (c.thread j).phase.isSome = true) → ∃ i, Awake c i

omit [DecidableEq ι] in
theorem WakeInvariant.new (m : Uninitialised) :
    WakeInvariant hint (System.new m : System ι) where
  toStopInvariant := .new m
  alone _ i _ hi := by simp [System.new, Thread.phase] at hi
  signalled _ h := absurd rfl h
  awake _ h := absurd rfl h

theorem WakeInvariant.next (h : WakeInvariant hint c) (hok : OneRunner hint c l)
    (hn : System.next hint c l = some c') : WakeInvariant hint c' := by
  have h' := h.toStopInvariant.next hn
  obtain ⟨s, t, hs, rfl⟩ := Threads.next_eq_some.mp hn
  have hstep := step_cases hs
  have clean : s.exceptions = 0 → c.shared.exceptions = 0 := fun hx =>
    Nat.eq_zero_of_le_zero (hx ▸ hstep.exceptions_le)
  refine ⟨h', fun h1 i j hi hj => ?_, fun hx => ?_, fun hx hq hin => ?_⟩
  · have inside (k : ι) (hk : ((c.set l.1 s t).thread k).phase.isSome = true) :
        (c.thread k).phase.isSome = true ∨ l.2 = .user .run ∧ k = l.1 := by
      by_cases he : k = l.1
      · subst he
        by_cases ha : l.2 = .user .run
        · exact .inr ⟨ha, rfl⟩
        · exact .inl (hstep.inside ha (by simpa using hk))
      · exact .inl (by simpa [Threads.set_thread_ne c he] using hk)
    have alone (k : ι) (ha : l.2 = .user .run) (hk : (c.thread k).phase.isSome = true) :
        k = l.1 := by
      by_contra he
      simp [hok h1 ha k he] at hk
    rcases inside i hi with hi | ⟨ha, rfl⟩ <;> rcases inside j hj with hj | ⟨ha', rfl⟩
    · exact h.alone h1 i j hi hj
    · exact alone i ha' hi
    · exact (alone j ha hj).symm
    · rfl
  · refine hstep.signalled hx (h.signalled (clean hx)) h'.released h.waiters_pos ?_
    intro h1 hin hw
    by_contra hpos
    obtain ⟨j, hj⟩ := h.exists_waits (Nat.pos_of_ne_zero hpos)
    have hjin : (c.thread j).phase.isSome = true := by
      rw [Thread.waits, beq_iff_eq] at hj
      simp [hj]
    have he := h.alone h1 j l.1 hjin hin
    rw [he, hw] at hj
    cases hj
  · exact awake_step hstep rfl h.toStopInvariant h' (h.signalled (clean hx)) hx hq
      (h.awake (clean hx)) hin

theorem no_lost_wakeup (hint : Int) (m : Uninitialised) (c : System ι)
    (h : Reach (System.next hint) (OneRunner hint) (System.new m) c)
    (hx : c.shared.exceptions = 0) (hq : c.shared.opQueue ≠ [])
    (hin : ∃ i, (c.thread i).phase.isSome = true) :
    ∃ i, (c.thread i).phase.isSome = true ∧ ¬ BlockedForGood c i := by
  have hi : WakeInvariant hint c :=
    h.invariant (.new m) fun _ _ _ _ hi hl hn => hi.next hl hn
  exact hi.awake hx hq hin

/-- One thread waits and another polls when a third submits an operation; it
has not made its notification. -/
def dispatchToWaiter : List (Fin 3 × Action (Fin 3)) :=
  [(first, .user .onWorkStarted), (first, .user .initTask), (first, .user .run), (first, .next),
    (first, .next), (second, .user .run), (second, .next), (second, .next),
    (third, .user (.doDispatch 0)), (third, .call)]

theorem no_lost_wakeup_dispatchToWaiter :
    ∃ c : System (Fin 3), exec (System.next 0) (System.new {}) dispatchToWaiter = some c ∧
      ∃ i, (c.thread i).phase.isSome = true ∧ ¬ BlockedForGood c i := by
  refine ⟨_, rfl, no_lost_wakeup 0 {} _ ?_ rfl (by decide) ⟨0, rfl⟩⟩
  exact (Reach.of_exec dispatchToWaiter (allSteps_trivial _ _) rfl).mono
    fun _ _ _ h => absurd h (by decide)

end System

end BoostAsio
