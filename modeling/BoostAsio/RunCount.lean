import BoostAsio.ThreadPool

/-!
# What run() returns

`run` counts the operations that it completes, in a `std::size_t` that stops at
its maximum, and returns the count. `completes` are the operations that a step
completes, each with the handler that ran, if one did: a descriptor state may
have nothing to run. What all calls of `run()` have returned and those inside
have counted is what was completed, less what exceptions have taken away
(`run_returns_completed`).
-/

namespace BoostAsio

open Runs

variable {ι : Type} {hint : Int} {i : ι} {s s' : Shared ι} {t t' : Thread}

/-- 1 where an operation is completed and not yet counted. -/
def Pc.uncounted : Pc → Nat
  | .workCleanup _ | .workFinished _ | .workCleanupLock _ => 1
  | _ => 0

def Run.completed (f : Run) : Nat := f.n + f.pc.uncounted

def completes (s : Shared ι) (t : Thread) : Action ι → List (Option Nat)
  | .user (.handlerEnd _) => (t.handling.take 1).map some
  | .next =>
    match t.top with
    | some ⟨_, _, .popped .taskOperation, _⟩ => [none]
    | _ => []
  | .performIo perform =>
    match t.top with
    | some ⟨_, _, .performIo d events, _⟩ =>
      match s.descriptors[d]? with
      | some x => if (x.performIo events perform).ops.isEmpty then [none] else []
      | none => []
    | _ => []
  | _ => []

/-- What `run()` returns, if it does. -/
def returns (s : Shared ι) (t : Thread) : Action ι → List Nat
  | .user .run => if s.outstandingWork = 0 then [0] else []
  | .next =>
    match t.top with
    | some ⟨_, _, .loop, n⟩ => if s.stopped then [n] else []
    | _ => []
  | _ => []

/-- The count that is lost where an exception leaves `run()`: of the lock, or of
a handler, whose operation is not counted. -/
def loses (t : Thread) : Action ι → List Nat
  | .next =>
    match t.top with
    | some ⟨_, true, .lock, n⟩ => [n]
    | some ⟨_, _, .workCleanupLock true, n⟩ => [n + 1]
    | _ => []
  | _ => []

/-- No `run()` of the thread has counted as far as it can. -/
def Thread.Unsaturated (t : Thread) : Prop := ∀ f, t.top = some f → f.n ≠ 2 ^ 64 - 1

-- ---------------------------------------------------------------------------
-- What one step counts
-- ---------------------------------------------------------------------------

theorem Untouched.tally_completed {r : Shared ι × Thread} (h : Untouched s t r) :
    r.2.tally Run.completed = t.tally Run.completed := by
  have hplace := h.place
  rw [Thread.tally, Thread.tally, h.stack]
  cases hr : r.2.top <;> cases ht : t.top <;> simp [hr, ht, Run.place] at hplace ⊢
  rw [Run.completed, Run.completed, hplace.1, hplace.2]

structure Counts (s : Shared ι) (t : Thread) (a : Action ι) (s' : Shared ι) (t' : Thread) :
    Prop where
  completed : t.Unsaturated → t'.tally Run.completed + (returns s t a ++ loses t a).sum =
    t.tally Run.completed + ((completes s t a).map fun _ => 1).sum
  executed : s'.executed = s.executed ++ (completes s t a).filterMap id

theorem userStep_counts (hu : t.inUserCode = true) {u : UserAction}
    (h : userStep hint s t u = some (s', t')) :
    Counts s t (.user u) s' t' := by
  cases u with
  | run =>
    have hzero : (returns s t (.user .run)).sum = 0 := by
      simp only [returns]
      split <;> rfl
    cases userStep_piece hu h with
    | runWithoutWork =>
      refine ⟨fun _ => ?_, by simp [completes]⟩
      simpa [loses, completes, Thread.tally] using hzero
    | run ht =>
      refine ⟨fun _ => ?_, by simp [completes]⟩
      simpa [loses, completes, Thread.tally, ht, Run.completed, Pc.uncounted] using hzero
    | nest ht hpc =>
      refine ⟨fun _ => ?_, by simp [completes]⟩
      simpa [loses, completes, Thread.tally, ht, hpc, Run.completed, Pc.uncounted,
        Suspended.resume] using hzero
  | handlerEnd thrown =>
    cases userStep_piece hu h with
    | @handlerEnd f id _ ht hpc =>
      have htally :=
        Thread.tally_setTop (g := Run.completed) ht { f with pc := .workCleanup thrown }
      have hdone : completes s t (.user (.handlerEnd thrown)) = [some id] := by
        simp [completes, Thread.handling_of_top ht, hpc, Pc.handling]
      refine ⟨fun _ => ?_, by rw [hdone]; rfl⟩
      simp only [Run.completed, hpc, Pc.uncounted] at htally
      simp only [hdone, returns, loses, List.append_nil, List.sum_nil, List.map_cons, List.map_nil,
        List.sum_cons]
      omega
  | _ =>
    obtain ⟨-, hk⟩ := userStep_untouched hu (by simp) (by simp) h
    exact ⟨fun _ => by simpa [completes, returns, loses] using hk.tally_completed,
      by simpa [completes] using hk.executed⟩

variable [DecidableEq ι]

section RunStep

variable {f : Run} (ht : t.top = some f)
include ht

omit [DecidableEq ι] in
/-- A `run()` goes on without completing an operation or returning. -/
theorem counts_setTop {a : Action ι} {f' : Run} {call : Option Call}
    (hf : t.Unsaturated → f'.completed = f.completed) (he : s'.executed = s.executed)
    (hd : completes s t a = []) (hr : returns s t a = []) (hl : loses t a = []) :
    Counts s t a s' { t with top := some f', call } := by
  have htally := Thread.tally_setTop (g := Run.completed) ht f'
  have hsame : Thread.tally Run.completed { t with top := some f', call } =
    (t.setTop f').tally Run.completed := rfl
  refine ⟨fun hn => ?_, by simp [he, hd]⟩
  have hf := hf hn
  simp only [hd, hr, hl, List.append_nil, List.sum_nil, List.map_nil]
  omega

omit [DecidableEq ι] in
/-- It ends, and its count is returned or lost. -/
theorem counts_leave {a : Action ι} {n : Nat} (hn : (returns s t a ++ loses t a).sum = n)
    (hf : f.completed = n) (he : s'.executed = s.executed) (hd : completes s t a = []) :
    Counts s t a s' t.leave := by
  have htally := Thread.tally_leave (g := Run.completed) ht
  refine ⟨fun _ => ?_, by simp [he, hd]⟩
  simp only [hd, List.map_nil, List.sum_nil]
  omega

theorem runStep_counts (hl : t.LockState)
    (h : runStep hint i s f t = some (s', t')) :
    Counts s t .next s' t' := by
  obtain ⟨info, owns, pc, n⟩ := f
  have hend (s₁ : Shared ι) (he : s₁.executed = s.executed) (f₁ : Run) (hf₁ : f₁.n = n)
      (thrown : Bool) (hpc : pc = .workCleanupLock thrown) :
      Counts s t .next (endOfWork s₁ f₁ t thrown).1 (endOfWork s₁ f₁ t thrown).2 := by
    subst hpc
    cases thrown with
    | true =>
      have hlost : (returns s t .next ++ loses t (.next : Action ι)).sum = n + 1 := by
        simp [returns, loses, ht]
      exact counts_leave ht hlost rfl he (by simp [completes, ht])
    | false =>
      refine counts_setTop ht (fun hn => ?_) he (by simp [completes, ht]) (by simp [returns, ht])
        (by simp [loses, ht])
      have hsat : n ≠ 2 ^ 64 - 1 := hn _ ht
      change (if f₁.n = 2 ^ 64 - 1 then f₁.n else f₁.n + 1) + 0 = n + 1
      rw [hf₁, if_neg hsat]
  have goOn {f' : Run} {call : Option Call} {s' : Shared ι} (hc : completes s t .next = [])
      (hr : returns s t .next = []) (hx : loses t (.next : Action ι) = [])
      (hf : f'.completed = Run.completed ⟨info, owns, pc, n⟩) (he : s'.executed = s.executed) :
      Counts s t .next s' { t with top := some f', call } :=
    counts_setTop ht (fun _ => hf) he hc hr hx
  cases runStep_piece h with
  | lock hpc ho =>
    cases hpc
    cases ho
    exact goOn (by simp [completes, ht]) (by simp [returns, ht]) (by simp [loses, ht]) rfl rfl
  | misuse ho =>
    obtain ⟨hpc, ho⟩ := hl.misuse_at_lock ht ho
    cases hpc
    cases ho
    have hlost : (returns s t .next ++ loses t (.next : Action ι)).sum = n := by
      simp [returns, loses, ht]
    exact counts_leave ht hlost rfl rfl (by simp [completes, ht])
  | returns hpc hs =>
    cases hpc
    have hreturned : (returns s t .next ++ loses t (.next : Action ι)).sum = n := by
      simp [returns, loses, ht, hs]
    exact counts_leave ht hreturned rfl rfl (by simp [completes, ht])
  | wait hpc _ hs =>
    cases hpc
    exact goOn (by simp [completes, ht]) (by simp [returns, ht, hs]) (by simp [loses, ht]) rfl rfl
  | @pop o rest hpc _ hs =>
    cases hpc
    refine goOn (by simp [completes, ht]) (by simp [returns, ht, hs]) (by simp [loses, ht]) ?_ rfl
    by_cases ho : o = .taskOperation <;> simp [ho, Run.completed, Pc.uncounted]
  | batchEnd hpc | taskMerge hpc | taskCleanup hpc | workMerge hpc | complete hpc
  | performIo hpc =>
    cases hpc
    exact goOn (by simp [completes, ht]) (by simp [returns, ht]) (by simp [loses, ht]) rfl rfl
  | @store ev evs hpc =>
    cases hpc
    exact goOn (by simp [completes, ht]) (by simp [returns, ht]) (by simp [loses, ht]) rfl
      (storeEvent_untouched s _ ev).2
  | taskCompleted hpc =>
    cases hpc
    have hdone : completes s t .next = [none] := by simp [completes, ht]
    have htally := Thread.tally_setTop (g := Run.completed) ht
      ⟨info, owns, .workCleanup false, n⟩
    refine ⟨fun _ => ?_, by simp [hdone]⟩
    simp only [Run.completed, Pc.uncounted] at htally
    simp only [hdone, returns, loses, ht, List.append_nil, List.sum_nil, List.map_cons,
      List.map_nil, List.sum_cons]
    omega
  | workFinished hpc ht' =>
    cases hpc
    subst ht'
    split
    · exact goOn (by simp [completes, ht]) (by simp [returns, ht]) (by simp [loses, ht]) rfl rfl
    · exact goOn (by simp [completes, ht]) (by simp [returns, ht]) (by simp [loses, ht]) rfl rfl
  | finished hpc => exact hend s rfl _ rfl _ hpc
  | spliced hpc _ _ _ hs₁ hf₁ => exact hend _ (by rw [hs₁]) _ (by rw [hf₁]) _ hpc

end RunStep

omit [DecidableEq ι] in
theorem performIoStep_counts {f : Run} (ht : t.top = some f) {perform : PerformFunc}
    (h : performIoStep hint s f t perform = some (s', t')) :
    Counts s t (.performIo perform) s' t' := by
  obtain ⟨info, owns, pc, n⟩ := f
  cases pc with
  | performIo d events =>
    obtain ⟨x, hlock, h⟩ := Option.map_eq_some_iff.mp h
    have hd := (Shared.lockDescriptor_eq_some.mp hlock).2
    cases hops : (x.performIo events perform).ops with
    | nil =>
      simp only [hops] at h
      cases h
      have hdone : completes s t (.performIo perform) = [none] := by
        simp [completes, ht, hd, hops]
      have htally := Thread.tally_setTop (g := Run.completed) ht
        ⟨{ info with privateOutstandingWork := info.privateOutstandingWork + 1 }, owns,
          .workCleanup false, n⟩
      refine ⟨fun _ => ?_, by rw [hdone]; simp [Shared.setDescriptor]⟩
      simp only [Run.completed, Pc.uncounted] at htally
      simp only [hdone, returns, loses, List.append_nil, List.sum_nil, List.map_cons,
        List.map_nil, List.sum_cons]
      omega
    | cons first rest =>
      simp only [hops] at h
      have hdone : completes s t (.performIo perform) = [] := by
        simp [completes, ht, hd, hops]
      have htally := Thread.tally_setTop (g := Run.completed) ht
        ⟨info, owns, .complete first.id, n⟩
      simp only [Run.completed, Pc.uncounted] at htally
      cases rest with
      | nil =>
        cases h
        refine ⟨fun _ => ?_, by rw [hdone]; simp [Shared.setDescriptor]⟩
        simp only [hdone, returns, loses, List.append_nil, List.sum_nil, List.map_nil]
        omega
      | cons second rest =>
        have hk := postDeferredCompletions_onlySubmits h
        refine ⟨fun _ => ?_, by rw [hdone, hk.executed]; simp [Shared.setDescriptor]⟩
        simp only [hdone, returns, loses, List.append_nil, List.sum_nil, List.map_nil,
          hk.tally_completed]
        omega
  | _ => cases h

theorem step_counts (hl : t.LockState) {a : Action ι}
    (h : step hint i a s t = some (s', t')) : Counts s t a s' t' := by
  cases step_piece h with
  | user hu h => exact userStep_counts hu h
  | run _ ht h => exact runStep_counts ht hl h
  | push | stop | notify | transfer | waitAgain =>
    exact ⟨fun _ => by simp [completes, returns, loses, Thread.tally], by simp [completes]⟩
  | wake _ ht hpc =>
    refine counts_setTop ht (fun _ => ?_) rfl rfl rfl rfl
    simp [Run.completed, hpc, Pc.uncounted]
  | epollWait _ ht h =>
    simp only [epollWaitStep] at h
    split at h
    · rename_i block hpc
      simp only [Option.ite_none_right_eq_some] at h
      cases h.2
      refine counts_setTop ht (fun _ => ?_) rfl rfl rfl rfl
      simp [Run.completed, hpc, Pc.uncounted]
    · cases h
  | performIo _ ht h => exact performIoStep_counts ht h

-- ---------------------------------------------------------------------------
-- Every run
-- ---------------------------------------------------------------------------

theorem sum_map_one {α : Type} (l : List α) : (l.map fun _ => 1).sum = l.length := by simp

omit [DecidableEq ι] in
theorem length_completes_le (s : Shared ι) (t : Thread) (a : Action ι) :
    (completes s t a).length ≤ 1 := by
  cases a with
  | user u => cases u <;> simp [completes]
  | next =>
    simp only [completes]
    split <;> simp
  | performIo perform =>
    simp only [completes]
    split
    · split
      · split <;> simp
      · simp
    · simp
  | _ => simp [completes]

namespace System

variable {c c' : System ι} {l : ι × Action ι} {m : Uninitialised} [Fintype ι]

/-- What the calls of `run()` have returned along a run. -/
def returnedCounts (hint : Int) (c : System ι) (ls : List (ι × Action ι)) : List Nat :=
  trace (System.next hint) (fun c l => returns c.shared (c.thread l.1) l.2) c ls

def lostCounts (hint : Int) (c : System ι) (ls : List (ι × Action ι)) : List Nat :=
  trace (System.next hint) (fun c l => loses (c.thread l.1) l.2) c ls

def completions (hint : Int) (c : System ι) (ls : List (ι × Action ι)) : List (Option Nat) :=
  trace (System.next hint) (fun c l => completes c.shared (c.thread l.1) l.2) c ls

/-- What those inside `run()` have counted. -/
def counted : System ι → Nat := Threads.total (fun _ => 0) (Thread.tally Run.completed)

/-- So many more steps leave every count below its maximum. -/
structure Countable (n : Nat) (c : System ι) : Prop where
  locks : c.Locks
  bound : c.counted + n < 2 ^ 64

omit [DecidableEq ι] in
theorem Countable.unsaturated {n : Nat} (h : Countable (n + 1) c) (i : ι) :
    (c.thread i).Unsaturated := by
  intro f hf hn
  have hle := Finset.single_le_sum (f := fun i => (c.thread i).tally Run.completed)
    (fun _ _ => Nat.zero_le _) (Finset.mem_univ i)
  have htop : f.n ≤ (c.thread i).tally Run.completed := by
    simp only [Thread.tally, hf, Option.elim_some, Run.completed]
    omega
  have hb := h.bound
  simp only [counted, Threads.total] at hb
  omega

omit [DecidableEq ι] in
theorem Countable.new {n : Nat} (hn : n < 2 ^ 64) :
    Countable n (System.new m : System ι) where
  locks := locks_new m
  bound := by simpa [counted, Threads.total, System.new, Thread.tally] using hn

theorem Countable.next {n : Nat} (h : Countable (n + 1) c)
    (hn : System.next hint c l = some c')
    (hmove : c'.counted + (returns c.shared (c.thread l.1) l.2 ++ loses (c.thread l.1) l.2).sum =
      c.counted + ((completes c.shared (c.thread l.1) l.2).map fun _ => 1).sum) :
    Countable n c' where
  locks := locks_next hn h.locks
  bound := by
    have hone := length_completes_le c.shared (c.thread l.1) l.2
    have hb := h.bound
    rw [sum_map_one] at hmove
    omega

theorem counted_exec {ls : List (ι × Action ι)} (hlen : ls.length < 2 ^ 64)
    (he : exec (System.next hint) (System.new m) ls = some c) :
    c.counted + (trace (System.next hint) (fun c l =>
          returns c.shared (c.thread l.1) l.2 ++ loses (c.thread l.1) l.2) (System.new m) ls).sum =
      counted (System.new m : System ι) + (trace (System.next hint) (fun c l =>
          (completes c.shared (c.thread l.1) l.2).map fun _ => 1) (System.new m) ls).sum :=
  Threads.total_trace (I := Countable) (fun _ _ _ _ hc hn hmove => hc.next hn hmove)
    (fun _ _ l _ _ hc hs => (step_counts (hc.locks l.1).state hs).completed (hc.unsaturated l.1))
    (Countable.new hlen) he

omit [Fintype ι] in
theorem executed_exec {ls : List (ι × Action ι)}
    (he : exec (System.next hint) (System.new m) ls = some c) :
    (System.new m : System ι).shared.executed ++ trace (System.next hint) (fun c l =>
        (completes c.shared (c.thread l.1) l.2).filterMap id) (System.new m) ls =
      trace (System.next hint) (fun _ _ => []) (System.new m) ls ++ c.shared.executed := by
  refine queue_trace (I := Locks) (q := fun c => c.shared.executed)
    (fun c l c' hc hn => ⟨locks_next hn hc, ?_⟩) (locks_new m) he
  obtain ⟨s, t, hs, rfl⟩ := Threads.next_eq_some.mp hn
  exact (step_counts (hc l.1).state hs).executed.symm

/-- What the calls of `run()` have returned and those that are inside have
counted are the operations completed, without those that were counted by a
`run()` which an exception left; the handlers among them are those executed. -/
theorem run_returns_completed (hint : Int) (m : Uninitialised) (c : System ι)
    (ls : List (ι × Action ι)) (hlen : ls.length < 2 ^ 64)
    (he : exec (System.next hint) (System.new m) ls = some c) :
    (returnedCounts hint (System.new m) ls).sum + ∑ i, (c.thread i).tally Run.completed +
        (lostCounts hint (System.new m) ls).sum = (completions hint (System.new m) ls).length ∧
      (completions hint (System.new m) ls).filterMap id = c.shared.executed := by
  constructor
  · have hsum := counted_exec hlen he
    rw [Threads.sum_trace_append, ← trace_hom (φ := List.map fun _ => 1) rfl
      (fun _ _ => List.map_append), sum_map_one] at hsum
    have hzero : counted (System.new m : System ι) = 0 := by
      simp [counted, Threads.total, System.new, Thread.tally]
    rw [hzero] at hsum
    simp only [counted, Threads.total] at hsum
    simp only [returnedCounts, lostCounts, completions]
    omega
  · have hrun := executed_exec he
    rw [trace_nil, ← trace_hom (φ := List.filterMap id) rfl
      fun _ _ => List.filterMap_append] at hrun
    have hnone : (System.new m : System ι).shared.executed = [] := rfl
    rw [hnone, List.nil_append, List.nil_append] at hrun
    exact hrun

theorem run_returns_completed_runInside :
    ∃ c : System (Fin 3), exec (System.next 0) (System.new {}) runInside = some c ∧
      (returnedCounts 0 (System.new {}) runInside).sum +
          ∑ i, (c.thread i).tally Run.completed +
          (lostCounts 0 (System.new {}) runInside).sum =
        (completions 0 (System.new {}) runInside).length ∧
      (completions 0 (System.new {}) runInside).filterMap id = c.shared.executed :=
  ⟨_, rfl, run_returns_completed 0 {} _ runInside (by decide) rfl⟩

end System

end BoostAsio
