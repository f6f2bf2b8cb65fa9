import BoostAsio.RunLifetime
import BoostAsio.Performs

/-!
# run() ends when everything is done

A call of `stop` that no caller asked for comes from `outstanding_work_` being 0.
At that moment every operation made has been executed: none is queued, pending
on a descriptor, in a private queue or about to be pushed, no handler is running
and no caller holds a unit (`stops_when_done`).

A private queue with as many units as operations would be overlooked by
`outstanding_work_`, so the proof needs that none is left outside a piece of
work (`Run.Unladen`).
-/

namespace BoostAsio

open Runs OpQueue

variable {ι : Type} {hint : Int} {i : ι} {s s' : Shared ι} {t t' : Thread}

-- ---------------------------------------------------------------------------
-- The private queue around a piece of work
-- ---------------------------------------------------------------------------

/-- A piece of work begins with an empty private queue, and leaves it empty if it
has a compensating unit. -/
def Run.Unladen (f : Run) : Prop :=
  match f.pc with
  | .popped _ | .performIo _ _ => f.info.privateOpQueue = []
  | .workCleanup _ => f.info.privateOpQueue = [] ∨
      f.info.privateOutstandingWork ≤ (handlers f.info.privateOpQueue).length
  | _ => True

def Thread.Unladen (t : Thread) : Prop := ∀ f, t.top = some f → f.Unladen

theorem Run.unladen_complete {f : Run} {id : Nat} (hpc : f.pc = .complete id) : f.Unladen := by
  simp [Unladen, hpc]

theorem Thread.unladen_of_top {f : Run} (ht : t.top = some f) (hf : f.Unladen) : t.Unladen := by
  intro g hg
  rw [ht] at hg
  cases hg
  exact hf

theorem Thread.unladen_leave (t : Thread) : t.leave.Unladen := by
  intro f hf
  obtain ⟨p, -, rfl⟩ := Thread.leave_top hf
  exact Run.unladen_complete rfl

theorem userStep_unladen (hb : t.Backed) (hu : t.inUserCode = true) {u : UserAction}
    (h : userStep hint s t u = some (s', t')) (hi : t.Unladen) : t'.Unladen := by
  cases u with
  | run =>
    cases userStep_piece hu h with
    | runWithoutWork => exact hi
    | run | nest => exact Thread.unladen_of_top rfl trivial
  | handlerEnd thrown =>
    cases userStep_piece hu h with
    | handlerEnd ht hpc =>
      have hle := (hb.top _ ht).le
      rw [hpc] at hle
      exact Thread.unladen_of_top rfl (.inr hle)
  | _ =>
    have hplace := (userStep_untouched hu (by simp) (by simp) h).2.place
    intro f' hf'
    rw [hf', Option.map_some, eq_comm, Option.map_eq_some_iff] at hplace
    obtain ⟨f, ht, hplace⟩ := hplace
    obtain ⟨id, hpc⟩ := Thread.inUserCode_top hu ht
    exact Run.unladen_complete ((Prod.mk.inj hplace).1.symm.trans hpc)

section RunStep

variable {f : Run} (ht : t.top = some f)
include ht

theorem runStep_unladen [DecidableEq ι] (hq : t.QueueState) (hi : t.Unladen)
    (h : runStep hint i s f t = some (s', t')) : t'.Unladen := by
  have hf : f.Unladen := hi f ht
  have ended (s₁ : Shared ι) (f₁ : Run) (thrown : Bool) :
      (endOfWork s₁ f₁ t thrown).2.Unladen := by
    cases thrown with
    | true => exact t.unladen_leave
    | false => exact Thread.unladen_of_top rfl trivial
  cases runStep_piece h with
  | lock | wait | batchEnd | store | taskMerge | taskCleanup | complete | workMerge =>
    exact Thread.unladen_of_top rfl trivial
  | misuse | returns => exact t.unladen_leave
  | @pop o rest hpc =>
    have hempty : f.info.privateOpQueue = [] := by simpa [hpc, Pc.phase] using hq.top f ht
    refine Thread.unladen_of_top rfl ?_
    split
    · trivial
    · exact hempty
  | performIo hpc =>
    rw [Run.Unladen, hpc] at hf
    exact Thread.unladen_of_top rfl hf
  | taskCompleted hpc =>
    rw [Run.Unladen, hpc] at hf
    exact Thread.unladen_of_top rfl (.inl hf)
  | workFinished _ ht' =>
    subst ht'
    split <;> exact Thread.unladen_of_top rfl trivial
  | finished => exact ended _ _ _
  | spliced => exact ended _ _ _

theorem performIoStep_unladen {perform : PerformFunc} (hi : t.Unladen)
    (h : performIoStep hint s f t perform = some (s', t')) : t'.Unladen := by
  have hf : f.Unladen := hi f ht
  obtain ⟨info, owns, pc, n⟩ := f
  cases pc with
  | performIo d events =>
    obtain ⟨x, -, h⟩ := Option.map_eq_some_iff.mp h
    cases hops : (x.performIo events perform).ops with
    | nil =>
      simp only [hops] at h
      cases h
      exact Thread.unladen_of_top rfl (.inl hf)
    | cons first rest =>
      simp only [hops] at h
      cases rest with
      | nil =>
        cases h
        exact Thread.unladen_of_top rfl trivial
      | cons second rest =>
        have hplace := (postDeferredCompletions_onlySubmits h).place
        intro g hg
        rw [hg] at hplace
        exact Run.unladen_complete (Prod.mk.inj (Option.some.inj hplace)).1
  | _ => cases h

end RunStep

theorem step_unladen [DecidableEq ι] (hb : t.Backed) (hq : t.QueueState) (hi : t.Unladen)
    {a : Action ι} (h : step hint i a s t = some (s', t')) : t'.Unladen := by
  cases step_piece h with
  | user hu h => exact userStep_unladen hb hu h hi
  | push | stop | notify | transfer | waitAgain => exact hi
  | run _ ht h => exact runStep_unladen ht hq hi h
  | wake => exact Thread.unladen_of_top rfl trivial
  | epollWait _ _ h =>
    simp only [epollWaitStep] at h
    split at h
    · simp only [Option.ite_none_right_eq_some] at h
      cases h.2
      exact Thread.unladen_of_top rfl trivial
    · cases h
  | performIo _ ht h => exact performIoStep_unladen ht hi h

-- ---------------------------------------------------------------------------
-- A thread whose work is all counted by itself
-- ---------------------------------------------------------------------------

/-- The units of a `run()` are as many as it has to finish only if it has
nothing to finish but a descriptor state that completed nothing. -/
theorem Run.Backed.idle {f : Run} (hb : f.Backed) (hi : f.Unladen)
    (hq : f.pc.phase.Allows f.info.privateOpQueue)
    (h : (handlers f.info.privateOpQueue).length + f.pc.executing.length + f.pc.owed ≤
      f.info.privateOutstandingWork) :
    handlers f.info.privateOpQueue = [] ∧ f.pc.executing = [] := by
  have hle := hb.le
  have hnone : f.info.privateOpQueue = [] → f.pc.compensation = f.pc.owed →
      handlers f.info.privateOpQueue = [] ∧ f.pc.executing = [] := by
    intro hempty hc
    rw [hempty, handlers_nil, List.length_nil] at h hle
    exact ⟨by rw [hempty]; rfl, List.length_eq_zero_iff.mp (by omega)⟩
  cases hpc : f.pc with
  | lock | loop | wait | runTask =>
    have hempty : f.info.privateOpQueue = [] := by simpa [hpc, Pc.phase] using hq
    exact hpc ▸ hnone hempty (by rw [hpc]; rfl)
  | events | taskCleanup | taskCleanupLock =>
    have hbatch : Batch f.info.privateOpQueue := by simpa [hpc, Pc.phase] using hq
    exact ⟨hbatch.handlers, rfl⟩
  | popped | performIo =>
    rw [Unladen, hpc] at hi
    exact hpc ▸ hnone hi (by rw [hpc]; rfl)
  | complete =>
    simp only [hpc, Pc.executing, Pc.owed, Pc.compensation, List.length_singleton] at h hle
    omega
  | workCleanup =>
    rw [Unladen, hpc] at hi
    rcases hi with hempty | hi
    · exact hpc ▸ hnone hempty (by rw [hpc]; rfl)
    · simp only [hpc, Pc.executing, Pc.owed, List.length_nil] at h
      omega
  | workFinished | workCleanupLock =>
    have hz := hb.merged (by rw [hpc]; rfl)
    exact ⟨List.length_eq_zero_iff.mp (by omega), rfl⟩

theorem Thread.Backed.idle (hb : t.Backed) (hi : t.Unladen) (hq : t.QueueState)
    (h : t.unfinished ≤ t.privateWork) : t.transit = [] ∧ ∀ id, t.has id = 0 := by
  have hstack : (t.stack.map fun p => p.resume.info.privateOutstandingWork + 1).sum ≤
      (t.stack.map fun p => (handlers p.resume.info.privateOpQueue).length +
        p.resume.pc.executing.length + p.resume.pc.owed).sum := by
    refine List.sum_le_sum fun p hp => ?_
    have hle := (hb.stack p hp).le
    simp only [Suspended.resume, Pc.compensation, Pc.executing, Pc.owed,
      List.length_singleton] at hle ⊢
    omega
  simp only [List.sum_map_add, List.map_const', List.sum_replicate_nat, Nat.mul_one] at hstack
  simp only [unfinished, privateWork, tally, List.sum_map_add] at h
  cases ht : t.top with
  | none =>
    simp only [ht, Option.elim_none] at h
    have hnone : t.stack = [] := List.length_eq_zero_iff.mp (by omega)
    exact ⟨List.length_eq_zero_iff.mp (by omega), fun id => by simp [has, tally, ht, hnone]⟩
  | some f =>
    simp only [ht, Option.elim_some] at h
    have hle := (hb.top f ht).le_unfinished
    have hnone : t.stack = [] := List.length_eq_zero_iff.mp (by omega)
    obtain ⟨hqueue, hpc⟩ := (hb.top f ht).idle (hi f ht) (hq.top f ht) (by omega)
    refine ⟨List.length_eq_zero_iff.mp (by omega), fun id => ?_⟩
    simp [has, tally, ht, hnone, hqueue, hpc]

-- ---------------------------------------------------------------------------
-- Every run
-- ---------------------------------------------------------------------------

namespace System

variable [DecidableEq ι] [Fintype ι] {c c' : System ι} {l : ι × Action ι}

structure AllDone (c : System ι) : Prop where
  external : c.shared.externalWork = 0
  queued : handlers c.shared.opQueue = []
  pending : c.shared.pendingIds = []
  idle : ∀ i id, (c.thread i).has id = 0
  executed : c.shared.created.Perm c.shared.executed

/-- The balance, with nothing dropped and no work outside its count. -/
structure Accounted (c : System ι) : Prop extends Counted c where
  conserved : Conserved c
  unladen : ∀ i, (c.thread i).Unladen

theorem Accounted.next (h : Accounted c) (hl : CountsItsOwn l.2) (hok : KeepsCount hint c l)
    (hn : System.next hint c l = some c') : Accounted c' where
  toCounted := h.toCounted.next hl hok hn
  conserved := (h.conserved.next_iff h.account hn).mpr hok.2.1
  unladen := Threads.forall_next (I := fun _ _ t => t.Unladen) hn
    (fun _ _ hs => step_unladen (h.backed l.1) (h.account.queues l.1) (h.unladen l.1) hs)
    fun _ _ _ j _ => h.unladen j

omit [DecidableEq ι] in
theorem Accounted.all_done (h : Accounted c) (hw : c.shared.outstandingWork = 0) : AllDone c := by
  have hb := h.balanced
  have hle (i : ι) : (c.thread i).privateWork ≤ (c.thread i).unfinished := (h.backed i).le
  have hsum := Finset.sum_le_sum fun i (_ : i ∈ Finset.univ) => hle i
  rw [Balanced] at hb
  have hsame : ∑ i, (c.thread i).privateWork = ∑ i, (c.thread i).unfinished := by omega
  have heq := (Finset.sum_eq_sum_iff_of_le fun i _ => hle i).mp hsame
  have hidle (i : ι) : (c.thread i).transit = [] ∧ ∀ id, (c.thread i).has id = 0 :=
    (h.backed i).idle (h.unladen i) (h.account.queues i) (heq i (Finset.mem_univ i)).ge
  have hqueue : handlers c.shared.opQueue = [] := List.length_eq_zero_iff.mp (by omega)
  have hpending : c.shared.pendingIds = [] := by
    rw [← List.length_eq_zero_iff, Shared.pendingIds, List.length_flatMap]
    omega
  refine ⟨by omega, hqueue, hpending, fun i => (hidle i).2, List.perm_iff_count.mpr fun id => ?_⟩
  have hknown := h.account.count_known id
  have hplace := h.conserved id
  have hone := List.nodup_iff_count.mp h.account.nodup id
  simp only [hpending, fun i => (hidle i).1, List.count_nil, Finset.sum_const_zero] at hknown
  simp only [hqueue, fun i => (hidle i).2 id, List.count_nil, Finset.sum_const_zero] at hplace
  split at hplace
  · rename_i hmem
    have := List.count_pos_iff.mpr hmem
    omega
  · rename_i hmem
    have := List.count_eq_zero.mpr hmem
    omega

omit [DecidableEq ι] in
theorem accounted_new {m : Uninitialised} (hm : m.outstandingWork = 0) :
    Accounted (System.new m : System ι) where
  toCounted := counted_new hm
  conserved id := by simp [System.new, Shared.new, Thread.has, Thread.tally]
  unladen i f hf := by simp [System.new] at hf

/-- In a run that starts with `outstanding_work_` at 0 and keeps the balance, a
thread that calls `stop` without having been asked to leaves nothing undone. -/
theorem stops_when_done (hint : Int) (m : Uninitialised) (hm : m.outstandingWork = 0)
    (c c' : System ι) (l : ι × Action ι)
    (h : Reach (System.next hint) (fun c l => CountsItsOwn l.2 ∧ KeepsCount hint c l)
      (System.new m) c)
    (hl : CountsItsOwn l.2) (hok : KeepsCount hint c l) (hn : System.next hint c l = some c')
    (hasked : l.2 ≠ .user .stop) (hstop : (c'.thread l.1).call = some .stop) : AllDone c' := by
  have hc : Accounted c :=
    h.invariant (accounted_new hm) fun _ _ _ _ hi hl hn => hi.next hl.1 hl.2 hn
  refine (hc.next hl hok hn).all_done ?_
  obtain ⟨s, t, hs, rfl⟩ := Threads.next_eq_some.mp hn
  rw [Threads.set_thread_self] at hstop
  rcases (step_stopsLast hs).call hstop with ha | ⟨ha, hz⟩ | hz
  · exact absurd ha hasked
  · rw [ha] at hs
    simp only [step, userStep, hz, if_true, Option.ite_none_right_eq_some, Option.some.injEq,
      Prod.mk.injEq] at hs
    exact hs.2.1 ▸ hz
  · exact hz

/-- The only handler ends, and its thread is about to finish the last unit. -/
def lastHandler : List (Fin 3 × Action (Fin 3)) :=
  [(third, .user (.doDispatch 0)), (third, .call), (second, .user .run), (second, .next),
    (second, .next), (second, .next), (second, .user (.handlerEnd false)), (second, .next)]

theorem stops_when_done_lastHandler :
    ∃ c : System (Fin 3), exec (System.next 0) (System.new {}) (lastHandler ++ [(second, .next)]) =
      some c ∧ (c.thread second).call = some .stop ∧ AllDone c := by
  have hrun : ∃ c c' : System (Fin 3), exec (System.next 0) (System.new {}) lastHandler = some c ∧
      System.next 0 c (second, .next) = some c' ∧ HasRoom 0 c (second, .next) ∧
      (c'.thread second).call = some .stop :=
    ⟨_, _, rfl, rfl, by decide +kernel, rfl⟩
  obtain ⟨c, c', he, hn, hlast, hstop⟩ := hrun
  have hroom : AllSteps (System.next 0) (HasRoom 0) (System.new {}) lastHandler := by
    decide +kernel
  have counted (l : Fin 3 × Action (Fin 3)) (hl : l ∈ lastHandler ++ [(second, .next)])
      (c : System (Fin 3)) (hroom : HasRoom 0 c l) : CountsItsOwn l.2 ∧ KeepsCount 0 c l := by
    refine ⟨?_, ?_, nothingDropped_of_hint rfl c l, hroom⟩ <;>
    · simp only [lastHandler, List.cons_append, List.nil_append, List.mem_cons, List.not_mem_nil,
        or_false] at hl
      rcases hl with rfl | rfl | rfl | rfl | rfl | rfl | rfl | rfl | rfl <;> trivial
  have hreach := Reach.of_exec lastHandler
    (hroom.of_labels fun l hl => counted l (List.mem_append_left _ hl)) he
  have hkept := counted (second, .next) (by simp) c hlast
  refine ⟨c', ?_, hstop, stops_when_done 0 {} rfl c c' _ hreach hkept.1 hkept.2 hn (by simp) hstop⟩
  rw [exec_append, he]
  simp [exec, hn]

end System

end BoostAsio
