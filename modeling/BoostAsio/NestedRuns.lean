import BoostAsio.CallStack
import BoostAsio.SystemCases

/-!
# Nested calls of run

What a handler submits goes to the innermost context of the scheduler it is
submitted to, which may be that of an outer `run()`. Private queue and private
work are empty wherever a context is not between the start of an operation and
the end of its cleanup object, and in particular when the context is destroyed
(`nothing_dies`).
-/

namespace BoostAsio

open Runs KeyedStack

-- ---------------------------------------------------------------------------
-- What code of a caller does to a context
-- ---------------------------------------------------------------------------

/-- Private units are counted, and none is taken away. -/
structure Run.Submits (f g : Run) : Prop where
  owns : g.owns = f.owns
  pc : g.pc = f.pc
  work : f.info.privateOutstandingWork ≤ g.info.privateOutstandingWork

theorem Run.Submits.refl (f : Run) : f.Submits f := ⟨rfl, rfl, Nat.le_refl _⟩

/-- What a scheduler sees of a thread before and after code of a caller. -/
def Thread.Submits (t t' : Thread) : Prop := Option.Rel Run.Submits t.top t'.top

section Submits

variable {ι : Type} {hint : Int} {s s' : Shared ι} {t t' : Thread}

theorem Thread.Submits.top {f : Run} (h : t.Submits t') (ht : t.top = some f) :
    ∃ g, t'.top = some g ∧ f.Submits g := by
  unfold Submits at h
  rw [ht] at h
  generalize t'.top = top at h
  cases h with
  | some h => exact ⟨_, rfl, h⟩

theorem Thread.Submits.same (h : t'.top = t.top) : t.Submits t' := by
  unfold Submits
  rw [h]
  cases t.top with
  | none => exact .none
  | some f => exact .some (.refl f)

theorem Thread.Submits.setInfo {f : Run} (ht : t.top = some f) {info : ThreadInfo}
    (h : f.info.privateOutstandingWork ≤ info.privateOutstandingWork) :
    t.Submits (t.setTop { f with info }) := by
  unfold Submits
  rw [ht]
  exact .some ⟨rfl, rfl, h⟩

theorem postImmediateCompletion_submits {id : Nat} {cont : Bool} {r : Shared ι × Thread}
    (h : postImmediateCompletion hint id cont s t = r) : t.Submits r.2 := by
  subst h
  unfold postImmediateCompletion
  split
  · rename_i f hf
    exact .setInfo (top_of_guard hf) (Nat.le_succ _)
  · exact .same rfl

theorem postDeferredCompletion_submits {id : Nat} {r : Shared ι × Thread}
    (h : postDeferredCompletion hint id s t = r) : t.Submits r.2 := by
  subst h
  unfold postDeferredCompletion
  split
  · rename_i f hf
    exact .setInfo (top_of_guard hf) (Nat.le_refl _)
  · exact .same rfl

theorem postDeferredCompletions_submits {ids : List Nat} {r : Shared ι × Thread}
    (h : (postDeferredCompletions hint ids s t).2 = r) : t.Submits r.2 := by
  subst h
  unfold postDeferredCompletions
  split
  · rename_i f hf
    exact .setInfo (top_of_guard hf) (Nat.le_refl _)
  · exact .same rfl

theorem userStep_submits (htu : t.inUserCode = true) {u : UserAction} (hu : u ≠ .run)
    (he : ∀ thrown, u ≠ .handlerEnd thrown) (h : userStep hint s t u = some (s', t')) :
    t.Submits t' := by
  cases userStep_piece htu h with
  | postImmediate _ h => exact postImmediateCompletion_submits h
  | postDeferred _ h => exact postDeferredCompletion_submits h
  | postAllDeferred _ h => exact postDeferredCompletions_submits h
  | startOpNull _ h => exact postImmediateCompletion_submits h
  | startOp _ _ h =>
    split at h
    · exact postImmediateCompletion_submits h
    · cases h
      exact .same rfl
  | cancelOps _ h => exact postDeferredCompletions_submits h
  | deregister _ _ h => exact postDeferredCompletions_submits h
  | deregisterInternal _ _ h => exact postDeferredCompletions_submits h
  | onWorkFinished =>
    refine .same ?_
    split <;> rfl
  | runWithoutWork | run | nest => exact absurd rfl hu
  | @handlerEnd _ _ thrown => exact absurd rfl (he thrown)
  | _ => exact .same rfl

end Submits

theorem storeEvent_work {ι : Type} {s : Shared ι} {f : Run} (ev : EpollEvent) :
    f.info.privateOutstandingWork ≤ (storeEvent s f ev).2.privateOutstandingWork := by
  unfold storeEvent
  split
  · exact Nat.le_refl _
  · split
    · exact Nat.le_refl _
    · split <;> exact Nat.le_refl _

theorem Thread.leave_top_of_nil {t : Thread} (h : t.stack = []) : t.leave.top = none := by
  simp only [leave, h]

-- ---------------------------------------------------------------------------
-- What a step makes of a context
-- ---------------------------------------------------------------------------

/-- Not between the start of `task_->run` or `o->complete` and the end of the
cleanup object that matches. -/
def Pc.betweenOperations : Pc → Bool
  | .lock | .loop | .wait | .popped _ => true
  | .runTask _ | .events _ | .taskCleanup | .taskCleanupLock | .performIo _ _ | .complete _
  | .workCleanup _ | .workFinished _ | .workCleanupLock _ => false

/-- In a cleanup object that has merged the private work. -/
def Pc.hasMerged : Pc → Bool
  | .taskCleanupLock | .workFinished _ | .workCleanupLock _ => true
  | .lock | .loop | .wait | .runTask _ | .events _ | .taskCleanup | .popped _ | .performIo _ _
  | .complete _ | .workCleanup _ => false

namespace RunContext

variable {κ ι : Type}

structure Drained (f : RunContext κ) : Prop where
  queue : f.run.info.privateOpQueue = []
  work : f.run.info.privateOutstandingWork = 0

structure Kept (f : RunContext κ) : Prop where
  drained : f.run.pc.betweenOperations = true → f.Drained
  merged : f.run.pc.hasMerged = true → f.run.info.privateOutstandingWork = 0
  unlocked : f.run.owns = true → f.run.pc = .lock ∨ f.run.pc = .loop
  counted : f.counted = f.added + f.run.info.privateOutstandingWork

structure Finished (f : RunContext κ) : Prop where
  drained : f.Drained
  addedOnce : f.added = f.counted

/-- What a step from the memory `s` to `s'` may make of a context: it is alive
after it with this `run()`, or destroyed. -/
inductive Keeps (i : ι) (f : RunContext κ) (s s' : Shared ι) : Option Run → Prop
  | goesOn {run : Run} : (f.after s s' run).Kept → Keeps i f s s' (some run)
  | ends : (f.last i s).Finished → Keeps i f s s' none

variable {f : RunContext κ} {i : ι} {s s' : Shared ι} {run : Run}

theorem Kept.counted_of_le (hf : f.Kept)
    (hle : f.run.info.privateOutstandingWork ≤ run.info.privateOutstandingWork) :
    (f.after s s' run).counted = (f.after s s' run).added + run.info.privateOutstandingWork := by
  have hadded : (f.after s s' run).added = f.added := by
    simp [after, Nat.sub_eq_zero_of_le hle]
  have hcounted := hf.counted
  rw [hadded]
  simp only [after]
  omega

theorem Kept.counted_of_merge (hf : f.Kept) (hm : f.run.pc.merges = true)
    (hs : s'.outstandingWork =
      increment s.outstandingWork f.run.info.privateOutstandingWork)
    (hw : run.info.privateOutstandingWork = 0) :
    (f.after s s' run).counted = (f.after s s' run).added + run.info.privateOutstandingWork := by
  have hcounted := hf.counted
  simp only [after, hm, hs, hw, Nat.sub_zero, and_self, if_true]
  omega

theorem Kept.finished (hf : f.Kept) (hpc : f.run.pc.betweenOperations = true) :
    (f.last i s).Finished := by
  have hlast : f.last i s = f := by
    unfold last
    split
    · rename_i hlock
      rw [hlock] at hpc
      cases hpc
    · rfl
  have hcounted := hf.counted
  have hdrained := hf.drained hpc
  rw [hdrained.work] at hcounted
  rw [hlast]
  exact ⟨hdrained, hcounted.symm⟩

theorem Kept.finished_of_cleanup (hf : f.Kept) {thrown : Bool}
    (hpc : f.run.pc = .workCleanupLock thrown) : (f.last i s).Finished := by
  have hcounted := hf.counted
  have hwork : f.run.info.privateOutstandingWork = 0 := hf.merged (by rw [hpc]; rfl)
  rw [hwork] at hcounted
  simp only [last, hpc, endOfCleanup]
  split
  · rename_i hq
    exact ⟨⟨List.isEmpty_iff.mp hq, hwork⟩, hcounted.symm⟩
  · exact ⟨⟨rfl, hwork⟩, hcounted.symm⟩

theorem Kept.not_owns (hf : f.Kept) (hlock : f.run.pc ≠ .lock) (hloop : f.run.pc ≠ .loop) :
    f.run.owns = false := by
  cases ho : f.run.owns with
  | false => rfl
  | true =>
    obtain h | h := hf.unlocked ho
    · exact absurd h hlock
    · exact absurd h hloop

/-- A `run()` that moves on and leaves its `thread_info` as it was. -/
theorem Kept.moves (hf : f.Kept) (hinfo : run.info = f.run.info)
    (hdrained : run.pc.betweenOperations = true → f.Drained)
    (hmerged : run.pc.hasMerged = true → f.run.info.privateOutstandingWork = 0)
    (ho : run.owns = true → run.pc = .lock ∨ run.pc = .loop) : Keeps i f s s' (some run) := by
  refine .goesOn ⟨fun hpc => ?_, fun hpc => ?_, ho, ?_⟩
  · obtain ⟨hq, hw⟩ := hdrained hpc
    exact ⟨(congrArg ThreadInfo.privateOpQueue hinfo).trans hq,
      (congrArg ThreadInfo.privateOutstandingWork hinfo).trans hw⟩
  · exact (congrArg ThreadInfo.privateOutstandingWork hinfo).trans (hmerged hpc)
  · refine hf.counted_of_le ?_
    rw [hinfo]

theorem Kept.rests (hf : f.Kept) (hdrained : f.Drained) (hinfo : run.info = f.run.info)
    (ho : run.owns = true → run.pc = .lock ∨ run.pc = .loop) : Keeps i f s s' (some run) :=
  hf.moves hinfo (fun _ => hdrained) (fun _ => hdrained.work) ho

theorem Kept.works (hf : f.Kept)
    (hle : f.run.info.privateOutstandingWork ≤ run.info.privateOutstandingWork)
    (hbetween : run.pc.betweenOperations = false) (hmerged : run.pc.hasMerged = false)
    (ho : run.owns = false) : Keeps i f s s' (some run) := by
  refine .goesOn ⟨fun hpc => ?_, fun hpc => ?_, fun hown => ?_, hf.counted_of_le hle⟩
  · exact absurd (hbetween.symm.trans hpc) Bool.false_ne_true
  · exact absurd (hmerged.symm.trans hpc) Bool.false_ne_true
  · exact absurd (ho.symm.trans hown) Bool.false_ne_true

/-- A cleanup object merges the private work. -/
theorem Kept.merges (hf : f.Kept) (hm : f.run.pc.merges = true) {pc : Pc}
    (hbetween : pc.betweenOperations = false) (ho : f.run.owns = false) :
    Keeps i f s (mergeWork s f.run).1
      (some { f.run with info := (mergeWork s f.run).2, pc }) := by
  refine .goesOn ⟨fun hpc => ?_, fun _ => rfl, fun hown => ?_, hf.counted_of_merge hm rfl rfl⟩
  · exact absurd (hbetween.symm.trans hpc) Bool.false_ne_true
  · exact absurd (ho.symm.trans hown) Bool.false_ne_true

/-- A cleanup object moves the private queue to the scheduler. -/
theorem Kept.drains (hf : f.Kept)
    (hwork : f.run.info.privateOutstandingWork = 0) {owns : Bool} {pc : Pc} {n : Nat}
    (hpc : pc = .lock ∨ pc = .loop) :
    Keeps i f s s' (some ⟨{ f.run.info with privateOpQueue := [] }, owns, pc, n⟩) :=
  .goesOn ⟨fun _ => ⟨rfl, hwork⟩, fun _ => hwork, fun _ => hpc,
    hf.counted_of_le (Nat.le_refl _)⟩

theorem Kept.submits (hf : f.Kept) {id : Nat} (hpc : f.run.pc = .complete id)
    (h : f.run.Submits run) : Keeps i f s s' (some run) := by
  have ho : run.owns = false := h.owns.trans (hf.not_owns (by simp [hpc]) (by simp [hpc]))
  have hrun : run.pc = .complete id := h.pc.trans hpc
  exact hf.works h.work (by rw [hrun]; rfl) (by rw [hrun]; rfl) ho

section Pieces

variable {hint : Int} {v v' : Thread}

theorem Kept.epollWait (hf : f.Kept) {evs : List EpollEvent}
    (h : epollWaitStep s f.run v evs = some (s', v')) : Keeps i f s s' v'.top := by
  simp only [epollWaitStep] at h
  split at h
  · rename_i block hpc
    have ho : f.run.owns = false := hf.not_owns (by simp [hpc]) (by simp [hpc])
    simp only [Option.ite_none_right_eq_some] at h
    cases h.2
    exact hf.works (Nat.le_refl _) rfl rfl ho
  · cases h

theorem Kept.performIo (hf : f.Kept) {perform : PerformFunc}
    (h : performIoStep hint s f.run v perform = some (s', v')) : Keeps i f s s' v'.top := by
  simp only [performIoStep] at h
  split at h
  · rename_i d events hpc
    have ho : f.run.owns = false := hf.not_owns (by simp [hpc]) (by simp [hpc])
    obtain ⟨x, -, h⟩ := Option.map_eq_some_iff.mp h
    split at h
    · cases h
      exact hf.works (Nat.le_succ _) rfl rfl ho
    · rename_i first rest hops
      split at h
      · cases h
        exact hf.works (Nat.le_refl _) rfl rfl ho
      · have hsub : (v.setTop { f.run with pc := .complete first.id }).Submits (s', v').2 :=
          postDeferredCompletions_submits h
        obtain ⟨run, hv', hrun⟩ := hsub.top rfl
        rw [hv']
        exact hf.works hrun.work (by rw [hrun.pc]; rfl) (by rw [hrun.pc]; rfl)
          (hrun.owns.trans ho)
  · cases h

theorem Kept.same (hf : f.Kept) : Keeps i f s s' (some f.run) :=
  hf.moves rfl hf.drained hf.merged hf.unlocked

variable [DecidableEq ι]

theorem Kept.runStep (hf : f.Kept) (hstack : v.stack = [])
    (h : BoostAsio.runStep hint i s f.run v = some (s', v')) : Keeps i f s s' v'.top := by
  have hend (hfin : (f.last i s).Finished) : Keeps i f s s' v.leave.top := by
    rw [Thread.leave_top_of_nil hstack]
    exact .ends hfin
  have unlocked {pc : Pc} (hpc : f.run.pc = pc) (hlock : pc ≠ .lock) (hloop : pc ≠ .loop) :
      f.run.owns = false := hf.not_owns (hpc ▸ hlock) (hpc ▸ hloop)
  cases runStep_piece h with
  | misuse ho =>
    by_cases hbetween : f.run.pc = .lock ∨ f.run.pc = .loop
    · exact hend (hf.finished (by rcases hbetween with hpc | hpc <;> rw [hpc] <;> rfl))
    · obtain ⟨hlock, hloop⟩ := not_or.mp hbetween
      rw [hf.not_owns hlock hloop, decide_eq_true hloop] at ho
      exact absurd ho Bool.false_ne_true
  | lock hpc =>
    exact hf.rests (hf.drained (by rw [hpc]; rfl)) rfl fun _ => .inr rfl
  | returns hpc => exact hend (hf.finished (by rw [hpc]; rfl))
  | wait hpc | pop hpc =>
    exact hf.rests (hf.drained (by rw [hpc]; rfl)) rfl fun ho => absurd ho Bool.false_ne_true
  | batchEnd hpc | complete hpc | performIo hpc | taskCompleted hpc =>
    exact hf.works (Nat.le_refl _) rfl rfl (unlocked hpc (by simp) (by simp))
  | store hpc =>
    exact hf.works (storeEvent_work _) rfl rfl
      (unlocked hpc (by simp) (by simp))
  | taskMerge hpc | workMerge hpc =>
    exact hf.merges (by rw [hpc]; rfl) rfl (unlocked hpc (by simp) (by simp))
  | taskCleanup hpc =>
    exact hf.drains (hf.merged (by rw [hpc]; rfl)) (.inr rfl)
  | @workFinished thrown _ hpc hv' =>
    have ho : f.run.owns = false := unlocked hpc (by simp) (by simp)
    have hwork : f.run.info.privateOutstandingWork = 0 := hf.merged (by rw [hpc]; rfl)
    have hkept : Keeps i f s { s with outstandingWork := decrement s.outstandingWork }
        (some { f.run with pc := .workCleanupLock thrown }) :=
      hf.moves rfl (fun hidle => absurd hidle Bool.false_ne_true)
        (fun _ => hwork) fun hown => absurd (ho.symm.trans hown) Bool.false_ne_true
    subst hv'
    split
    · exact hkept
    · exact hkept
  | @finished thrown hpc hq =>
    have hwork : f.run.info.privateOutstandingWork = 0 := hf.merged (by rw [hpc]; rfl)
    cases thrown with
    | true => exact hend (hf.finished_of_cleanup hpc)
    | false => exact hf.rests ⟨hq, hwork⟩ rfl fun _ => .inl rfl
  | @spliced thrown _ _ hpc _ _ _ hs₁ hf₁ =>
    have hwork : f.run.info.privateOutstandingWork = 0 := hf.merged (by rw [hpc]; rfl)
    subst hs₁ hf₁
    cases thrown with
    | true => exact hend (hf.finished_of_cleanup hpc)
    | false => exact hf.drains hwork (.inl rfl)

theorem Kept.step (hf : f.Kept) (hv : v.top = some f.run) (hstack : v.stack = [])
    {a : Action ι} (ha : a ≠ .user .run)
    (h : BoostAsio.step hint i a s v = some (s', v')) : Keeps i f s s' v'.top := by
  cases step_piece h with
  | user hu h =>
    rename_i u _
    obtain ⟨id, hpc⟩ := Thread.inUserCode_top hu hv
    by_cases he : ∃ thrown, u = .handlerEnd thrown
    · obtain ⟨thrown, rfl⟩ := he
      have ho : f.run.owns = false := hf.not_owns (by simp [hpc]) (by simp [hpc])
      cases userStep_piece hu h with
      | handlerEnd ht =>
        cases hv.symm.trans ht
        exact hf.works (Nat.le_refl _) rfl rfl ho
    · have hsub := userStep_submits hu (fun hrun => ha (hrun ▸ rfl)) (fun b hb => he ⟨b, hb⟩) h
      obtain ⟨run, hv', hrun⟩ := hsub.top hv
      rw [hv']
      exact hf.submits hpc hrun
  | push | stop | notify | transfer | waitAgain => exact hv ▸ hf.same
  | run hc ht h =>
    cases hv.symm.trans ht
    exact hf.runStep hstack h
  | wake hc ht hpc hm hs =>
    cases hv.symm.trans ht
    exact hf.rests (hf.drained (by rw [hpc]; rfl)) rfl fun _ => .inr rfl
  | epollWait hc ht h =>
    cases hv.symm.trans ht
    exact hf.epollWait h
  | performIo hc ht h =>
    cases hv.symm.trans ht
    exact hf.performIo h

end Pieces

end RunContext

-- ---------------------------------------------------------------------------
-- The stack of a thread
-- ---------------------------------------------------------------------------

/-- Of the handler or the `run()` that the thread executes, not of a function
that user code calls. -/
def Action.ofInnermost {ι : Type} : Action ι → Bool
  | .user (.handlerEnd _) | .next | .wake | .epollWait _ | .performIo _ => true
  | .user _ | .call | .notify _ => false

namespace CallStack

variable {κ ι : Type} [DecidableEq κ] {k : κ} {t : CallStack κ}

theorem mem_of_contains {f : RunContext κ} (h : t.contains k = some f) : f ∈ t.contexts :=
  mem_of_innermost h

theorem view_top {f : RunContext κ} (h : t.contains k = some f) :
    (t.view k).top = some f.run := by
  simp [view, h]

structure Kept (t : CallStack κ) : Prop where
  contexts : ∀ f ∈ t.contexts, f.Kept
  destroyed : ∀ f ∈ t.destroyed, f.Finished
  /-- Every context but the innermost has called on from a handler. -/
  suspended : ∀ f ∈ t.contexts.tail, ∃ id, f.run.pc = .complete id

section Step

variable {i : ι} {s s' : Shared ι} {v : Thread}

theorem after_cases (t : CallStack κ) (k : κ) (i : ι) (s s' : Shared ι) (v : Thread) :
    (∃ run, v.top = some run ∧ (t.after k i s s' v).destroyed = t.destroyed ∧
      (t.after k i s s' v).contexts =
        change RunContext.key k (fun f => f.after s s' run) t.contexts) ∨
    (∃ f, v.top = none ∧ t.contains k = some f ∧
      (t.after k i s s' v).destroyed = t.destroyed ++ [f.last i s] ∧
      (t.after k i s s' v).contexts = t.contexts.tail) ∨
    ((t.after k i s s' v).destroyed = t.destroyed ∧
      (t.after k i s s' v).contexts = t.contexts) := by
  have hcall : contains { t with call := v.call.map fun c => (k, c) } k = t.contains k := rfl
  unfold after
  cases hv : v.top with
  | some run => exact .inl ⟨run, rfl, rfl, rfl⟩
  | none =>
    cases hk : t.contains k with
    | some f => exact .inr (.inl ⟨f, rfl, rfl, by simp [hcall, hk], by simp [hcall, hk]⟩)
    | none => exact .inr (.inr ⟨by simp [hcall, hk], by simp [hcall, hk]⟩)

theorem Kept.after (ht : t.Kept)
    (hkeeps : ∀ f, t.contains k = some f → f.Keeps i s s' v.top)
    (hpc : ∀ f, t.contains k = some f → (∃ h, t.contexts.head? = some h ∧ h.key = k) ∨
      ∀ run, v.top = some run → run.pc = f.run.pc) : (t.after k i s s' v).Kept := by
  obtain ⟨run, hv, hd, hc⟩ | ⟨f, hv, hf, hd, hc⟩ | ⟨hd, hc⟩ := after_cases t k i s s' v
  · refine ⟨fun x hx => ?_, hd ▸ ht.destroyed, fun x hx => ?_⟩
    · rw [hc] at hx
      obtain hx | ⟨f, hf, rfl⟩ := mem_change hx
      · exact ht.contexts x hx
      · have hkept := hkeeps f hf
        rw [hv] at hkept
        cases hkept with
        | goesOn h => exact h
    · rw [hc] at hx
      obtain hx | ⟨f, hmem, hf, rfl, hne⟩ := mem_tail_change hx
      · exact ht.suspended x hx
      · obtain ⟨h, hhead, hkey⟩ | hsame := hpc f hf
        · exact absurd hkey (hne h hhead)
        · obtain ⟨id, hid⟩ := ht.suspended f hmem
          exact ⟨id, (hsame run hv).trans hid⟩
  · refine ⟨fun x hx => ?_, fun x hx => ?_, fun x hx => ?_⟩
    · rw [hc] at hx
      exact ht.contexts x (List.mem_of_mem_tail hx)
    · rw [hd] at hx
      obtain hx | hx := List.mem_append.mp hx
      · exact ht.destroyed x hx
      · have hend := hkeeps f hf
        rw [hv] at hend
        rw [List.mem_singleton.mp hx]
        cases hend with
        | ends h => exact h
    · rw [hc] at hx
      exact ht.suspended x (List.mem_of_mem_tail hx)
  · exact ⟨hc ▸ ht.contexts, hd ▸ ht.destroyed, hc ▸ ht.suspended⟩

end Step

theorem executes_head {a : Action ι} (h : t.executes k a = true) (ha : a.ofInnermost = true) :
    ∃ f, t.contexts.head? = some f ∧ f.key = k := by
  have hhead : (t.call.isNone && t.contexts.head?.any fun f => f.key = k) = true := by
    cases a with
    | user u =>
      cases u with
      | handlerEnd => exact h
      | _ => cases ha
    | call | notify => cases ha
    | next | wake | epollWait | performIo => exact h
  simp only [Bool.and_eq_true, Option.any_eq_true, decide_eq_true_eq] at hhead
  exact hhead.2

omit [DecidableEq κ] in
/-- While code of a caller runs, every context is in a handler. -/
theorem Kept.inHandlers (ht : t.Kept) (hu : t.inUserCode = true) :
    ∀ f ∈ t.contexts, ∃ id, f.run.pc = .complete id := by
  intro f hf
  cases hc : t.contexts with
  | nil =>
    rw [hc] at hf
    cases hf
  | cons g fs =>
    rw [hc] at hf
    obtain rfl | hf := List.mem_cons.mp hf
    · simp only [inUserCode, hc, Bool.and_eq_true] at hu
      exact Thread.inUserCode_top hu.2 rfl
    · exact ht.suspended f (by rw [hc]; exact hf)

omit [DecidableEq κ] in
theorem Kept.push (ht : t.Kept) (hu : t.inUserCode = true) (k : κ) :
    Kept { t with contexts := { key := k } :: t.contexts } := by
  refine ⟨fun f hf => ?_, ht.destroyed, ht.inHandlers hu⟩
  obtain rfl | hf := List.mem_cons.mp hf
  · exact ⟨fun _ => ⟨rfl, rfl⟩, fun _ => rfl, fun ho => absurd ho Bool.false_ne_true, rfl⟩
  · exact ht.contexts f hf

variable [DecidableEq ι]

/-- A step that is not of the innermost context leaves a `run()` where it is. -/
theorem step_pc {hint : Int} {i : ι} {s s' : Shared ι} {v v' : Thread} {f : Run} {a : Action ι}
    (hv : v.top = some f) (ha : a.ofInnermost = false) (hrun : a ≠ .user .run)
    (h : BoostAsio.step hint i a s v = some (s', v')) : ∀ g, v'.top = some g → g.pc = f.pc := by
  intro g hg
  cases step_piece h with
  | user hu h =>
    rename_i u _
    have hne : ∀ thrown, u ≠ .handlerEnd thrown := by
      rintro thrown rfl
      cases ha
    obtain ⟨g', hg', hsub⟩ := (userStep_submits hu (fun h => hrun (h ▸ rfl)) hne h).top hv
    cases hg'.symm.trans hg
    exact hsub.pc
  | push | stop | notify | transfer =>
    cases hv.symm.trans hg
    rfl
  | run | wake | waitAgain | epollWait | performIo => cases ha

theorem Kept.step (ht : t.Kept) {hint : κ → Int} {i : ι} {l : κ × Action ι}
    {m m' : κ → Shared ι} {t' : CallStack κ}
    (h : CallStack.step hint i l m t = some (m', t')) : t'.Kept := by
  obtain ⟨k, a⟩ := l
  simp only [CallStack.step, Option.ite_none_right_eq_some] at h
  obtain ⟨hex, h⟩ := h
  split at h
  · split at h
    · cases h
      exact ⟨ht.contexts, ht.destroyed, ht.suspended⟩
    · cases h
      exact ht.push hex k
  · rename_i hrun
    obtain ⟨⟨s', v⟩, hstep, h⟩ := Option.map_eq_some_iff.mp h
    cases h
    have hrun : a ≠ .user .run := fun ha => hrun ha
    refine ht.after (fun f hf => ?_) fun f hf => ?_
    · exact (ht.contexts f (mem_of_contains hf)).step (view_top hf) rfl hrun hstep
    · cases ha : a.ofInnermost with
      | true => exact .inl (executes_head hex ha)
      | false => exact .inr (step_pc (view_top hf) ha hrun hstep)

end CallStack

-- ---------------------------------------------------------------------------
-- Runs
-- ---------------------------------------------------------------------------

namespace Schedulers

variable {κ ι : Type} [DecidableEq κ] [DecidableEq ι]

/-- No operation, and no unit of work, is in the `thread_info` of a context
between operations, or of one that is destroyed. -/
structure NothingDies (c : Schedulers κ ι) : Prop where
  between : ∀ (i : ι), ∀ f ∈ (c.thread i).contexts, f.run.pc.betweenOperations = true → f.Drained
  destroyed : ∀ (i : ι), ∀ f ∈ (c.thread i).destroyed, f.Drained
  /-- What was counted in the private work was added to `outstanding_work_`, once. -/
  addedOnce : ∀ (i : ι), ∀ f ∈ (c.thread i).destroyed, f.added = f.counted

theorem kept_next {hint : κ → Int} {c c' : Schedulers κ ι} {l : ι × κ × Action ι}
    (hc : ∀ i, (c.thread i).Kept) (hn : c.next hint l = some c') (i : ι) : (c'.thread i).Kept :=
  Threads.forall_next (I := fun _ _ t => t.Kept) hn
    (fun _ _ hs => (hc l.1).step hs) (fun _ _ _ j _ => hc j) i

theorem nothing_dies (hint : κ → Int) (m : κ → Uninitialised) (ls : List (ι × κ × Action ι)) :
    AllStates (next hint) NothingDies (new m) ls := by
  refine allStates_of_invariant (I := fun c => ∀ i, (c.thread i).Kept) (fun c hc => ?_)
    (fun c l c' hc _ hn => kept_next hc hn) fun i => ?_
  · exact ⟨fun i f hf hpc => ((hc i).contexts f hf).drained hpc,
      fun i f hf => ((hc i).destroyed f hf).drained,
      fun i f hf => ((hc i).destroyed f hf).addedOnce⟩
  · exact ⟨nofun, nofun, nofun⟩

/-- The handler of one scheduler calls `run()` on another, whose handler posts a
continuation to the first: it waits in the private queue of the outer `run()`. -/
def continueOutside : List (Fin 3 × Bool × Action (Fin 3)) :=
  [(false, .user (.postImmediateCompletion 1 false)), (false, .call), (false, .user .run),
    (false, .next), (false, .next), (false, .next),
    (true, .user (.postImmediateCompletion 1 false)), (true, .call), (true, .user .run),
    (true, .next), (true, .next), (true, .next),
    (false, .user (.postImmediateCompletion 2 true)),
    (true, .user (.handlerEnd true)), (true, .next), (true, .next), (true, .call), (true, .next),
    (false, .user (.handlerEnd false)), (false, .next), (false, .next), (false, .next)].map
    fun l => (System.first, l)

example : ((exec (next fun _ : Bool => 0) (new fun _ => {}) continueOutside).map fun c =>
    ((c.shared false).opQueue,
      (c.thread System.first).contexts.map fun f => (f.counted, f.added))) =
    some ([.handler 2], [(1, 1)]) := by decide

end Schedulers

end BoostAsio
