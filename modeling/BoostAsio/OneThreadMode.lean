import BoostAsio.Wakeup

/-!
# Contexts that choose the hint themselves

A `system_context` and a default-constructed `io_context` pass no hint of the
user's to their scheduler. The registry makes the scheduler of a
`system_context` with the default argument, 1, whatever the number of threads
it starts; `io_context()` passes `1 + hardware_concurrency()`, which is 1 if
that function returns 0, as it may.

`hc` is what `std::thread::hardware_concurrency()` returns, an `unsigned int`.
A thread is inside `run()` here when it has found work to do there.
-/

namespace BoostAsio

open Runs

inductive DefaultContext
  | systemContext
  | ioContext
  deriving DecidableEq

/-- The thread that constructs the context, those that a `system_context`
starts, and all others. -/
inductive ContextThread (ι : Type)
  | creator
  | worker (k : Nat)
  | user (i : ι)
  deriving DecidableEq

def defaultConcurrencyHint : Int := 1

def UserAction.isRun : UserAction → Bool
  | .run => true
  | _ => false

namespace DefaultContext

variable {ι : Type} [DecidableEq ι]

/-- `concurrency_hint_` of the context's scheduler. `use_service` constructs the
one of a `system_context`, with `new Service(owner_)`. -/
def concurrencyHint (hc : BitVec 32) : DefaultContext → Int
  | systemContext => defaultConcurrencyHint
  | ioContext => (1 + hc).toInt

/-- The number of threads that `create_threads` starts: none if it is negative. -/
def numThreads (hc : BitVec 32) : Int :=
  let num := (hc * 2).toInt
  if num ≠ 0 then num else 2

def start (m : Uninitialised) : DefaultContext → System (ContextThread ι)
  | systemContext =>
    ⟨{ Shared.new m with
      outstandingWork := increment m.outstandingWork 1, externalWork := 1 }, fun _ => {}⟩
  | ioContext => .new m

/-- Which calls a thread makes. The scheduler of a `system_context` is private:
its workers alone call `run`, from their thread function. -/
def calls (hc : BitVec 32) (ctx : DefaultContext) (i : ContextThread ι) (t : Thread)
    (u : UserAction) : Bool :=
  match ctx, i with
  | systemContext, .worker k => if u.isRun then t.top.isNone && k < numThreads hc else t.top.isSome
  | systemContext, .creator | systemContext, .user _ => !u.isRun
  | ioContext, .worker _ => false
  | ioContext, .creator | ioContext, .user _ => true

def next (hc : BitVec 32) (ctx : DefaultContext) (c : System (ContextThread ι))
    (l : ContextThread ι × Action (ContextThread ι)) : Option (System (ContextThread ι)) :=
  match l.2 with
  | .user u =>
    if calls hc ctx l.1 (c.thread l.1) u then System.next (concurrencyHint hc ctx) c l else none
  | _ => System.next (concurrencyHint hc ctx) c l

-- ---------------------------------------------------------------------------
-- Who is inside run()
-- ---------------------------------------------------------------------------

def OneInside (c : System τ) : Prop :=
  ∀ i j, (c.thread i).phase.isSome = true → (c.thread j).phase.isSome = true → i = j

/-- A thread that gets past the test of `outstanding_work_` in `run` finds no
other thread inside. -/
def EntersAlone (c : System τ) (l : τ × Action τ) : Prop :=
  l.2 = .user .run → c.shared.outstandingWork ≠ 0 →
    ∀ j, j ≠ l.1 → (c.thread j).phase.isSome = false

theorem run_phase [DecidableEq τ] {hint : Int} {i : τ} {s s' : Shared τ} {t t' : Thread}
    (h : step hint i (.user .run) s t = some (s', t')) :
    if s.outstandingWork = 0 then t'.phase = t.phase else t'.phase = some .starting := by
  simp only [step, userStep, Option.ite_none_right_eq_some] at h
  obtain ⟨-, h⟩ := h
  split at h
  · rename_i hw
    cases h
    rw [if_pos hw]
    rfl
  · rename_i hw
    rw [if_neg hw]
    split at h <;> cases h <;> rfl

section System

variable {hint : Int} {c c' : System τ} {l : τ × Action τ} [DecidableEq τ]

/-- Who is inside after a step was inside before, or has called `run()` with
work to do. -/
theorem inside_next (hn : System.next hint c l = some c') {k : τ}
    (hk : (c'.thread k).phase.isSome = true) :
    (c.thread k).phase.isSome = true ∨
      l.2 = .user .run ∧ c.shared.outstandingWork ≠ 0 ∧ k = l.1 := by
  obtain ⟨s, t, hs, rfl⟩ := Threads.next_eq_some.mp hn
  by_cases he : k = l.1
  · subst he
    by_cases ha : l.2 = .user .run
    · by_cases hw : c.shared.outstandingWork = 0
      · rw [ha] at hs
        have hphase := run_phase hs
        rw [if_pos hw] at hphase
        exact .inl (by simpa [hphase] using hk)
      · exact .inr ⟨ha, hw, rfl⟩
    · exact .inl ((step_cases hs).inside ha (by simpa using hk))
  · exact .inl (by simpa [Threads.set_thread_ne c he] using hk)

theorem OneInside.next (h : OneInside c) (hok : EntersAlone c l)
    (hn : System.next hint c l = some c') : OneInside c' := by
  intro i j hi hj
  have alone {k : τ} (ha : l.2 = .user .run) (hw : c.shared.outstandingWork ≠ 0)
      (hk : (c.thread k).phase.isSome = true) : k = l.1 := by
    by_contra hne
    simp [hok ha hw k hne] at hk
  rcases inside_next hn hi with hi | ⟨ha, hw, rfl⟩ <;>
    rcases inside_next hn hj with hj | ⟨ha', hw', rfl⟩
  · exact h i j hi hj
  · exact alone ha' hw' hi
  · exact (alone ha hw hj).symm
  · rfl

theorem not_oneInside_next (hok : ¬ EntersAlone c l) (hn : System.next hint c l = some c') :
    ¬ OneInside c' := by
  simp only [EntersAlone, not_forall] at hok
  obtain ⟨ha, hw, j, hj, hin⟩ := hok
  obtain ⟨s, t, hs, rfl⟩ := Threads.next_eq_some.mp hn
  rw [ha] at hs
  have hphase := run_phase hs
  rw [if_neg hw] at hphase
  intro h
  refine hj (h j l.1 ?_ ?_)
  · rw [Threads.set_thread_ne c hj]
    exact eq_true_of_ne_false hin
  · simp [hphase]

end System

-- ---------------------------------------------------------------------------
-- Both contexts
-- ---------------------------------------------------------------------------

variable {ctx : DefaultContext} {hc : BitVec 32} {c c' : System (ContextThread ι)}
  {l : ContextThread ι × Action (ContextThread ι)}

theorem next_system (h : next hc ctx c l = some c') :
    System.next (concurrencyHint hc ctx) c l = some c' := by
  simp only [next] at h
  split at h
  · split at h
    · exact h
    · cases h
  · exact h

theorem oneThread_concurrencyHint (hc : BitVec 32) (ctx : DefaultContext) :
    oneThread (concurrencyHint hc ctx) = true ↔ ¬ (ctx = .ioContext ∧ hc ≠ 0) := by
  cases ctx with
  | systemContext => simp [concurrencyHint, oneThread, defaultConcurrencyHint]
  | ioContext =>
    have hone : (1 + hc).toInt = 1 ↔ hc = 0 := by
      rw [show (1 : Int) = (1 : BitVec 32).toInt from rfl, BitVec.toInt_inj]
      constructor
      · intro h
        bv_omega
      · rintro rfl
        rfl
    simp only [concurrencyHint, oneThread, beq_iff_eq, hone]
    simp

/-- With `one_thread_`, at most one thread is inside `run()`. -/
def OneThreadMode (hc : BitVec 32) (ctx : DefaultContext) (c : System (ContextThread ι)) : Prop :=
  oneThread (concurrencyHint hc ctx) = true → OneInside c

-- ---------------------------------------------------------------------------
-- The workers of a system_context
-- ---------------------------------------------------------------------------

/-- Only threads that the `system_context` has started are inside `run()`. -/
def WorkersInside (hc : BitVec 32) (c : System (ContextThread ι)) : Prop :=
  ∀ j, (c.thread j).phase.isSome = true → ∃ k : Nat, j = .worker k ∧ k < numThreads hc

theorem worker_of_run (h : next hc .systemContext c l = some c') (ha : l.2 = .user .run) :
    ∃ k : Nat, l.1 = .worker k ∧ k < numThreads hc := by
  obtain ⟨j, a⟩ := l
  cases ha
  simp only [next, Option.ite_none_right_eq_some] at h
  have hcalls := h.1
  cases j with
  | worker k =>
    simp only [calls, UserAction.isRun, if_true, Bool.and_eq_true, decide_eq_true_eq] at hcalls
    exact ⟨k, rfl, hcalls.2⟩
  | creator | user i => simp [calls, UserAction.isRun] at hcalls

theorem WorkersInside.next (h : WorkersInside hc c) (hn : next hc .systemContext c l = some c') :
    WorkersInside hc c' := by
  intro j hj
  rcases inside_next (next_system hn) hj with hj | ⟨ha, -, rfl⟩
  · exact h j hj
  · exact worker_of_run hn ha

omit [DecidableEq ι] in
/-- With one worker at most, no two threads are inside `run()`. -/
theorem WorkersInside.oneInside (h : WorkersInside hc c) (hn : numThreads hc < 2) :
    OneInside c := by
  intro i j hi hj
  obtain ⟨k, rfl, hk⟩ := h i hi
  obtain ⟨k', rfl, hk'⟩ := h j hj
  have hsame : k = k' := by omega
  rw [hsame]

theorem worker_enters {k : Nat} (hk : k < numThreads hc) (hw : c.shared.outstandingWork ≠ 0)
    (ht : c.thread (.worker k) = {}) :
    next hc .systemContext c (.worker k, .user .run) =
      some (c.set (.worker k) c.shared { top := some {} }) := by
  have hcall : calls hc .systemContext (.worker k : ContextThread ι) {} .run = true := by
    simp [calls, UserAction.isRun, hk]
  simp [next, hcall, System.next, Threads.next, step, userStep, Thread.inUserCode, ht, hw]

/-- The first two workers of a `system_context` begin their thread functions. -/
def twoWorkers : List (ContextThread ι × Action (ContextThread ι)) :=
  [(.worker 0, .user .run), (.worker 1, .user .run)]

theorem twoWorkers_share (h : 2 ≤ numThreads hc) (hw : c.shared.outstandingWork ≠ 0)
    (ht : ∀ k, c.thread (.worker k) = {}) :
    ¬ AllStates (next hc .systemContext) (OneThreadMode hc .systemContext) c twoWorkers := by
  intro hall
  have h0 : next hc .systemContext c (.worker 0, .user .run) =
      some (c.set (.worker 0) c.shared { top := some {} }) :=
    worker_enters (by omega) hw (ht 0)
  let c1 := c.set (.worker 0) c.shared { top := some {} }
  have ht1 : c1.thread (.worker 1) = {} :=
    (Threads.set_thread_ne c (by simp) _ _).trans (ht 1)
  have h1 : next hc .systemContext c1 (.worker 1, .user .run) =
      some (c1.set (.worker 1) c1.shared { top := some {} }) :=
    worker_enters (by omega) hw ht1
  have hexec : exec (next hc .systemContext) c twoWorkers =
      some (c1.set (.worker 1) c1.shared { top := some {} }) := by
    simp [twoWorkers, exec, h0, h1, c1]
  have hin0 : (c1.set (.worker 1) c1.shared { top := some {} }).thread (.worker 0) =
      { top := some {} } := by
    rw [Threads.set_thread_ne _ (by simp), Threads.set_thread_self]
  have hone := hall.of_exec hexec rfl (.worker 0) (.worker 1)
  simp [hin0] at hone

/-- Wherever a `system_context` starts two threads, they share its one-thread
mode: at once, or after a call of `on_work_started` where the count that the
constructor began with was the greatest of 64 bits. -/
theorem systemContext_shares (hc : BitVec 32) (h : 2 ≤ numThreads hc) (m : Uninitialised) :
    ∃ ls, ¬ AllStates (next hc .systemContext) (OneThreadMode hc .systemContext)
      (start m .systemContext : System (ContextThread ι)) ls := by
  by_cases hw : increment m.outstandingWork 1 = 0
  · refine ⟨(.creator, .user .onWorkStarted) :: twoWorkers, fun hall => ?_⟩
    have hstarted := hall.2
    refine twoWorkers_share h ?_ (fun k => ?_) hstarted
    · change increment (increment m.outstandingWork 1) 1 ≠ 0
      rw [hw]
      decide
    · rfl
  · exact ⟨twoWorkers, twoWorkers_share h hw fun _ => rfl⟩

/-- In every run of a `system_context`, one thread at most uses its one-thread
mode, if and only if `hardware_concurrency()` makes it start fewer than two
threads: none, where its double is negative as an `int`. In a run of a
default-constructed `io_context`, if and only if `hardware_concurrency()` is not
0, or every thread that enters `run()` enters it alone. -/
theorem oneThreadMode_iff (hc : BitVec 32) (m : Uninitialised) :
    ((∀ ls, AllStates (next hc .systemContext) (OneThreadMode hc .systemContext)
        (start m .systemContext : System (ContextThread ι)) ls) ↔ numThreads hc < 2) ∧
      ∀ ls, AllStates (next hc .ioContext) (OneThreadMode hc .ioContext)
        (start m .ioContext : System (ContextThread ι)) ls ↔
          hc ≠ 0 ∨ AllSteps (next hc .ioContext) EntersAlone (start m .ioContext) ls := by
  refine ⟨⟨fun hall => ?_, fun hn ls => ?_⟩, fun ls => ?_⟩
  · by_contra hn
    obtain ⟨ls, hls⟩ := systemContext_shares (ι := ι) hc (by omega) m
    exact hls (hall ls)
  · have hstart : WorkersInside hc (start m .systemContext : System (ContextThread ι)) := by
      rintro j ⟨⟩
    exact allStates_of_invariant (fun c h _ => WorkersInside.oneInside h hn)
      (fun c l c' h _ hn => WorkersInside.next h hn) hstart
  · by_cases hzero : hc = 0
    · have hmode : oneThread (concurrencyHint hc .ioContext) = true :=
        (oneThread_concurrencyHint hc .ioContext).mpr fun h => h.2 hzero
      simp only [hzero, ne_eq, not_true_eq_false, false_or]
      rw [hzero] at hmode
      refine allStates_iff_allSteps (I := OneInside) (fun c h _ => h)
        (fun c l c' h _ hok hn => h.next hok (next_system hn))
        (fun c l c' h _ hok hn h' => not_oneInside_next hok (next_system hn) (h' hmode)) ?_
      rintro i j ⟨⟩
    · have hmode : ¬ oneThread (concurrencyHint hc .ioContext) = true := fun h =>
        (oneThread_concurrencyHint hc .ioContext).mp h ⟨rfl, hzero⟩
      refine iff_of_true (allStates_of_invariant (I := fun _ => True)
        (fun c _ h => absurd h hmode) (fun _ _ _ _ _ _ => trivial) trivial) (.inl hzero)

/-- `hardware_concurrency()` is 4 and the `system_context` starts 8 threads. -/
theorem fourCores_share :
    numThreads 4 = 8 ∧ ¬ ∀ ls, AllStates (next 4 .systemContext) (OneThreadMode 4 .systemContext)
      (start {} .systemContext : System (ContextThread Empty)) ls :=
  ⟨by decide, fun h => (systemContext_shares 4 (by decide) {}).elim fun ls hls => hls (h ls)⟩

end DefaultContext

end BoostAsio
