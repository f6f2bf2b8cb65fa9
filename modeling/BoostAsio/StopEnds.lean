import BoostAsio.Rest

/-!
# stop ends every run()

How much is ahead of a thread (`Thread.ahead`): the pieces of `run()` up to the
place where it looks at `stopped_` again, for the innermost `run()` and those
below it, and the call that it has begun. In a stopped scheduler every step
takes something off, and a call of a caller adds at most two pieces: `run()`
neither waits again nor turns in its loop. So the scheduler comes to rest, and
where handlers are left to end only, all threads are outside `run()`
(`stop_ends`).
-/

namespace BoostAsio

open Runs

variable {ι : Type} {hint : Int} {i : ι} {t t' : Thread}

/-- A call that the code of a caller makes. The end of a handler is none. -/
def Action.isCall : Action ι → Bool
  | .user (.handlerEnd _) => false
  | .user _ => true
  | .call | .notify _ | .next | .wake | .epollWait _ | .performIo _ => false

-- ---------------------------------------------------------------------------
-- What is ahead of a thread
-- ---------------------------------------------------------------------------

/-- The pieces of code between a place in `run()` and the end of it, where the
scheduler is stopped. `epoll_wait` reports 128 events at most. -/
def Pc.ahead : Pc → Nat
  | .loop => 1
  | .lock | .wait | .taskCleanupLock => 2
  | .taskCleanup | .workCleanupLock _ => 3
  | .events evs => 4 + evs.length
  | .runTask _ => 133
  | .workFinished _ => 6
  | .workCleanup _ => 7
  | .complete _ => 8
  | .performIo _ _ => 11
  | .popped _ => 12

/-- `notify_one` may follow the critical section of a submission. -/
def Call.ahead : Call → Nat
  | .push _ => 2
  | .stop | .notifyOne => 1
  | .transfer => 0

def Thread.ahead (t : Thread) : Nat :=
  t.tally (fun f => f.pc.ahead) + t.call.elim 0 Call.ahead

theorem Pc.ahead_pos (pc : Pc) : 0 < pc.ahead := by
  cases pc <;> simp [ahead]

theorem Thread.ahead_setTop {f : Run} (ht : t.top = some f) (g : Run) :
    (t.setTop g).ahead + f.pc.ahead = t.ahead + g.pc.ahead := by
  have htally := tally_setTop (g := fun f => f.pc.ahead) ht g
  have hcall : (t.setTop g).call = t.call := rfl
  simp only [ahead, hcall]
  omega

theorem Thread.ahead_leave {f : Run} (ht : t.top = some f) :
    t.leave.ahead + f.pc.ahead = t.ahead := by
  have htally := tally_leave (g := fun f => f.pc.ahead) ht
  have hcall := t.leave_call
  simp only [ahead, hcall]
  omega

theorem Thread.ahead_leave_lt {f : Run} (ht : t.top = some f) : t.leave.ahead + 1 ≤ t.ahead := by
  have := ahead_leave ht
  have := f.pc.ahead_pos
  omega

theorem Thread.ahead_withCall (hc : t.call = none) (call : Option Call) :
    ahead { t with call } = t.ahead + call.elim 0 Call.ahead := by
  simp [ahead, hc, tally]

theorem Thread.ahead_setInfo {f : Run} (ht : t.top = some f) (info : ThreadInfo) :
    (t.setTop { f with info }).ahead = t.ahead := by
  have := ahead_setTop ht { f with info }
  dsimp only at this
  omega

theorem Thread.ahead_goOn {f : Run} (ht : t.top = some f) (g : Run)
    (h : g.pc.ahead + 1 ≤ f.pc.ahead) : (t.setTop g).ahead + 1 ≤ t.ahead := by
  have := ahead_setTop ht g
  omega

-- ---------------------------------------------------------------------------
-- Calls of a caller
-- ---------------------------------------------------------------------------

section Submit

variable {s : Shared ι} (hc : t.call = none)
include hc

theorem postImmediateCompletion_ahead (id : Nat) (cont : Bool) :
    (postImmediateCompletion hint id cont s t).2.ahead ≤ t.ahead + 2 := by
  unfold postImmediateCompletion
  split
  · rename_i f hf
    exact (Thread.ahead_setInfo (top_of_guard hf) _).le.trans (Nat.le_add_right _ _)
  · exact (Thread.ahead_withCall hc _).le

theorem postDeferredCompletion_ahead (id : Nat) :
    (postDeferredCompletion hint id s t).2.ahead ≤ t.ahead + 2 := by
  unfold postDeferredCompletion
  split
  · rename_i f hf
    exact (Thread.ahead_setInfo (top_of_guard hf) _).le.trans (Nat.le_add_right _ _)
  · exact (Thread.ahead_withCall hc _).le

theorem postDeferredCompletions_ahead {ids : List Nat} {r : Shared ι × Thread}
    (h : (postDeferredCompletions hint ids s t).2 = r) : r.2.ahead ≤ t.ahead + 2 := by
  subst h
  unfold postDeferredCompletions
  split
  · rename_i f hf
    exact (Thread.ahead_setInfo (top_of_guard hf) _).le.trans (Nat.le_add_right _ _)
  · exact (Thread.ahead_withCall hc _).le

end Submit

variable {s s' : Shared ι}

/-- The end of a handler takes one piece off, and a call adds two at most. -/
theorem userStep_ahead (hu : t.inUserCode = true) {u : UserAction}
    (h : userStep hint s t u = some (s', t')) :
    t'.ahead + 1 ≤ t.ahead + if (Action.user u : Action ι).isCall then 3 else 0 := by
  have hc := (Thread.inUserCode_works hu).1
  have calls {r : Shared ι × Thread} (he : r = (s', t')) (hle : r.2.ahead ≤ t.ahead + 2)
      (hcall : (Action.user u : Action ι).isCall = true) :
      t'.ahead + 1 ≤ t.ahead + if (Action.user u : Action ι).isCall then 3 else 0 := by
    subst he
    rw [hcall, if_pos rfl]
    exact Nat.succ_le_succ hle
  have same : t.ahead ≤ t.ahead + 2 := Nat.le_add_right _ _
  cases userStep_piece hu h with
  | onWorkStarted | restart | registerDescriptor | registerInternal | cancelOpsNull
  | deregisterNull | deregisterShut | deregisterInternalNull | deregisterInternalShut =>
    exact calls rfl same rfl
  | onWorkFinished =>
    refine calls rfl ?_ rfl
    split
    · exact (Thread.ahead_withCall hc _).le.trans (Nat.add_le_add_left (by decide) _)
    · exact same
  | doDispatch => exact calls rfl (Thread.ahead_withCall hc _).le rfl
  | postImmediate _ h => exact calls h (postImmediateCompletion_ahead hc _ _) rfl
  | postDeferred _ h => exact calls h (postDeferredCompletion_ahead hc _) rfl
  | postAllDeferred _ h => exact calls h (postDeferredCompletions_ahead hc rfl) rfl
  | stop | runWithoutWork =>
    exact calls rfl
      ((Thread.ahead_withCall hc _).le.trans (Nat.add_le_add_left (by decide) _)) rfl
  | initTask =>
    refine calls rfl ?_ rfl
    rcases s.toScheduler.initTask_cases with he | ⟨-, -, he⟩ <;> rw [he]
    · exact (Thread.ahead_withCall hc _).le.trans (Nat.add_le_add_left (Nat.zero_le _) _)
    · refine (Thread.ahead_withCall hc _).le.trans (Nat.add_le_add_left ?_ _)
      split <;> decide
  | run ht =>
    refine calls rfl ?_ rfl
    simp [Thread.ahead, Thread.tally, ht, Pc.ahead]
    omega
  | nest ht hpc =>
    refine calls rfl ?_ rfl
    simp [Thread.ahead, Thread.tally, ht, hpc, Suspended.resume, Pc.ahead]
    omega
  | startOpNull _ h => exact calls h (postImmediateCompletion_ahead hc _ _) rfl
  | startOp _ _ h =>
    refine calls h ?_ rfl
    split
    · exact postImmediateCompletion_ahead hc _ _
    · exact same
  | deregisterInternalLoops =>
    exact calls rfl
      ((Thread.ahead_withCall hc _).le.trans (Nat.add_le_add_left (Nat.zero_le _) _)) rfl
  | cancelOps _ h => exact calls h (postDeferredCompletions_ahead hc rfl) rfl
  | deregister _ _ h => exact calls h (postDeferredCompletions_ahead hc rfl) rfl
  | deregisterInternal _ _ h => exact calls h (postDeferredCompletions_ahead hc rfl) rfl
  | handlerEnd ht hpc =>
    refine (Thread.ahead_goOn ht _ ?_).trans (Nat.le_add_right _ _)
    rw [hpc]
    exact le_rfl

-- ---------------------------------------------------------------------------
-- run and do_run_one
-- ---------------------------------------------------------------------------

section RunStep

variable [DecidableEq ι] {f : Run} (ht : t.top = some f)
include ht

omit [DecidableEq ι] in
theorem endOfWork_ahead {thrown : Bool} (hpc : f.pc = .workCleanupLock thrown) {s₁ : Shared ι}
    {f₁ : Run} : (endOfWork s₁ f₁ t thrown).2.ahead + 1 ≤ t.ahead := by
  cases thrown with
  | true => exact Thread.ahead_leave_lt ht
  | false => exact Thread.ahead_goOn ht _ (by simp [hpc, Pc.ahead])

/-- In a stopped scheduler each piece of `run()` takes something off. -/
theorem runStep_ahead (hs : s.stopped = true) (h : runStep hint i s f t = some (s', t'))
    (hc : t.call = none) : t'.ahead + 1 ≤ t.ahead := by
  cases runStep_piece h with
  | misuse | returns => exact Thread.ahead_leave_lt ht
  | wait _ _ hs' | pop _ _ hs' => simp [hs] at hs'
  | store hpc =>
    refine Thread.ahead_goOn ht _ ?_
    simp only [hpc, Pc.ahead, List.length_cons]
    omega
  | lock hpc | batchEnd hpc | taskMerge hpc | taskCleanup hpc | complete hpc
  | performIo hpc | taskCompleted hpc | workMerge hpc =>
    exact Thread.ahead_goOn ht _ (by simp [hpc, Pc.ahead])
  | @workFinished thrown t₁ hpc ht₁ =>
    have hgo := Thread.ahead_setTop ht { f with pc := .workCleanupLock thrown }
    rw [← ht₁, hpc] at hgo
    simp only [Pc.ahead] at hgo
    split
    · have hcall := Thread.ahead_withCall (t := t₁) (by rw [ht₁]; exact hc) (some .stop)
      simp only [Option.elim_some, Call.ahead] at hcall
      omega
    · omega
  | finished hpc => exact endOfWork_ahead ht hpc
  | spliced hpc => exact endOfWork_ahead ht hpc

omit [DecidableEq ι] in
theorem performIoStep_ahead {perform : PerformFunc}
    (h : performIoStep hint s f t perform = some (s', t')) (hc : t.call = none) :
    t'.ahead + 1 ≤ t.ahead := by
  simp only [performIoStep] at h
  split at h
  · rename_i d events hpc
    obtain ⟨x, -, h⟩ := Option.map_eq_some_iff.mp h
    split at h
    · cases h
      exact Thread.ahead_goOn ht _ (by simp [hpc, Pc.ahead])
    · rename_i first rest _
      have hgo := Thread.ahead_setTop ht { f with pc := .complete first.id }
      simp only [hpc, Pc.ahead] at hgo
      split at h
      · cases h
        omega
      · have hpost := postDeferredCompletions_ahead (by exact hc) h
        dsimp only at hpost
        omega
  · cases h

omit [DecidableEq ι] in
theorem epollWaitStep_ahead {evs : List EpollEvent}
    (h : epollWaitStep s f t evs = some (s', t')) : t'.ahead + 1 ≤ t.ahead := by
  simp only [epollWaitStep] at h
  split at h
  · rename_i block hpc
    simp only [Option.ite_none_right_eq_some] at h
    obtain ⟨⟨hlen, -⟩, h⟩ := h
    cases h
    refine Thread.ahead_goOn ht _ ?_
    simp only [hpc, Pc.ahead]
    omega
  · cases h

end RunStep

/-- What holds of a thread of a stopped scheduler that waits: it will find the
bit set. -/
theorem step_ahead [DecidableEq ι] (hs : s.stopped = true) (hret : t.call ≠ some .transfer)
    (hw : t.waits = true → (s.wakeupEvent.leaveWait i).signalled = true) {a : Action ι}
    (h : step hint i a s t = some (s', t')) :
    t'.ahead + 1 ≤ t.ahead + if a.isCall then 3 else 0 := by
  have own (ha : a.isCall = false) (hle : t'.ahead + 1 ≤ t.ahead) :
      t'.ahead + 1 ≤ t.ahead + if a.isCall then 3 else 0 := by
    rw [ha]
    exact hle
  have calls {call : Call} (ha : a.isCall = false) (hcall : t.call = some call)
      {call' : Option Call} (hle : call'.elim 0 Call.ahead + 1 ≤ call.ahead) :
      Thread.ahead { t with call := call' } + 1 ≤ t.ahead + if a.isCall then 3 else 0 := by
    rw [ha]
    simp only [Thread.ahead, Thread.tally, hcall, Option.elim_some, Bool.false_eq_true, if_false]
    omega
  cases step_piece h with
  | user hu h => exact userStep_ahead hu h
  | push hcall =>
    refine calls rfl hcall ?_
    rw [Scheduler.push_snd]
    split <;> simp [Call.ahead]
  | stop hcall | notify hcall => exact calls rfl hcall le_rfl
  | transfer hcall => exact absurd hcall hret
  | run hc ht h => exact own rfl (runStep_ahead ht hs h hc)
  | wake hc ht hpc => exact own rfl (Thread.ahead_goOn ht _ (by simp [hpc, Pc.ahead]))
  | waitAgain hc ht hpc hm hsig =>
    rw [hw (by simp [Thread.waits, Thread.phase_of_top ht, hpc])] at hsig
    cases hsig
  | epollWait hc ht h => exact own rfl (epollWaitStep_ahead ht h)
  | performIo hc ht h => exact own rfl (performIoStep_ahead ht h hc)

-- ---------------------------------------------------------------------------
-- Every run
-- ---------------------------------------------------------------------------

namespace System

variable [DecidableEq ι] [Fintype ι] {c c' : System ι} {l : ι × Action ι} {m : Uninitialised}

def ahead (c : System ι) : Nat := ∑ i, (c.thread i).ahead

/-- Nothing is left to do without a call, but for handlers that have to end. -/
def Exhausted (hint : Int) (c : System ι) : Prop :=
  Resting hint c ∧ ∀ i thrown, System.next hint c (i, .user (.handlerEnd thrown)) = none

theorem ahead_next (h : StopInvariant c) (hs : c.shared.stopped = true) (hret : CallsReturn c)
    (hn : System.next hint c l = some c') :
    c'.ahead + 1 ≤ c.ahead + if l.2.isCall then 3 else 0 := by
  obtain ⟨s, t, hstep, rfl⟩ := Threads.next_eq_some.mp hn
  have hthread := step_ahead hs (hret l.1) (fun hw => by
    rw [Event.leaveWait_signalled _ _ (h.waiters_pos hw)]
    exact ((h.allReleased hs).waiting _ hw).2) hstep
  have hsum := Threads.sum_update Thread.ahead c.thread l.1 t
  simp only [ahead, Threads.set]
  omega

structure Stopping (c : System ι) : Prop extends Unhindered c where
  stopped : c.shared.stopped = true
  returns : CallsReturn c

/-- The step restarts nothing, and begins no call that does not return. -/
def LetsStop (c : System ι) (l : ι × Action ι) : Prop :=
  l.2 ≠ .user .restart ∧ c.shared.Returns l.2

theorem Stopping.next (h : Stopping c) (hok : LetsStop c l)
    (hn : System.next hint c l = some c') : Stopping c' where
  toUnhindered := h.toUnhindered.next hn
  stopped :=
    have hstay : StayedStopped c c := ⟨h.stopped, List.prefix_rfl, fun _ => id⟩
    (hstay.next hn hok.1).stopped
  returns := h.returns.next hok.2 hn

theorem Stopping.exhausted (h : Stopping c) (he : Exhausted hint c) (i : ι) :
    (c.thread i).top = none ∧ (c.thread i).call = none := by
  have hreleased : Released c := h.allReleased h.stopped
  rcases h.idle he.1 i with hu | ⟨-, ⟨hw, hb, -⟩ | ⟨hp, hi⟩⟩
  · have hc := (Thread.inUserCode_works hu).1
    refine ⟨?_, hc⟩
    cases ht : (c.thread i).top with
    | none => rfl
    | some f =>
      obtain ⟨id, hpc⟩ := Thread.inUserCode_top hu ht
      obtain ⟨info, owns, pc, n⟩ := f
      cases hpc
      have hend := he.2 i false
      simp [System.next, Threads.next, step, hu, userStep, ht] at hend
  · exact absurd hb (hreleased.waiting i hw).1
  · simp [hreleased.polling i hp] at hi

/-- After `stop` a run without `restart` is bounded by what was ahead of the
threads and by the calls that callers make; and where nothing is left to do,
every `run()` has returned. No thread may be in, or begin, a
`deregister_internal_descriptor` of a descriptor with a pending operation: it
never returns, and may keep others from the mutex it holds. -/
theorem stop_ends (hint : Int) (m : Uninitialised) (c : System ι) (h : Reachable hint m c)
    (hs : c.shared.stopped = true) (hret : CallsReturn c) (ls : List (ι × Action ι))
    (hls : AllSteps (System.next hint) LetsStop c ls) (c' : System ι)
    (he : exec (System.next hint) c ls = some c') :
    ls.length + c'.ahead ≤ c.ahead + 3 * ls.countP (fun l => l.2.isCall) ∧
      (Exhausted hint c' → ∀ i, (c'.thread i).top = none ∧ (c'.thread i).call = none) := by
  have hstart : Stopping c := ⟨h.unhindered, hs, hret⟩
  constructor
  · exact length_le_of_measure (I := Stopping) (p := fun l => l.2.isCall)
      (fun c l c' hc hok hn => ⟨hc.next hok hn,
        ahead_next hc.toStopInvariant hc.stopped hc.returns hn⟩) hstart hls he
  · have hend : Stopping c' :=
      (hls.allStates (fun _ h => h) (fun _ _ _ hc hok hn => hc.next hok hn) hstart).of_exec he
    exact hend.exhausted

/-- The third thread has stopped the scheduler; the one that waits and the one
that polls leave. -/
def leaveBoth : List (Fin 3 × Action (Fin 3)) :=
  [(second, .wake), (second, .next), (first, .epollWait [.interrupter]), (first, .next),
    (first, .next), (first, .next), (first, .next), (first, .next)]

theorem stop_ends_leaveBoth :
    ∃ c c' : System (Fin 3), exec (System.next 0) (System.new {}) stopBoth = some c ∧
      exec (System.next 0) c leaveBoth = some c' ∧
      leaveBoth.length + c'.ahead ≤ c.ahead + 3 * leaveBoth.countP (fun l => l.2.isCall) ∧
      ∀ i, (c'.thread i).top.isNone = true := by
  have hstopped : ∃ c c' : System (Fin 3),
      exec (System.next 0) (System.new {}) stopBoth = some c ∧
        exec (System.next 0) c leaveBoth = some c' ∧ c.shared.stopped = true ∧
        (∀ i, (c.thread i).call.isNone = true) ∧ ∀ i, (c'.thread i).top.isNone = true :=
    ⟨_, _, rfl, rfl, rfl, by decide, by decide⟩
  obtain ⟨c, c', hc, he, hs, hcalls, htop⟩ := hstopped
  simp only [Option.isNone_iff_eq_none] at hcalls
  have hlets : ∀ l ∈ leaveBoth, ∀ c : System (Fin 3), LetsStop c l := by
    simp [leaveBoth, LetsStop, Shared.Returns]
  exact ⟨c, c', hc, he, (stop_ends 0 {} c (.of_exec stopBoth (allSteps_trivial _ _) hc) hs
    (fun i => by simp [hcalls i]) leaveBoth (allSteps_of_labels hlets c) c' he).1, htop⟩

end System

end BoostAsio
