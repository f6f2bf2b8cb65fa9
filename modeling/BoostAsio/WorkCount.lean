import BoostAsio.Conservation

/-!
# The count of outstanding work

`outstanding_work_` and the counters of the threads together count the units
that callers hold and the operations that are not finished. `Units` is what one
piece of code does to this balance, in steps that decrement no zero. Operations
that a function has made or been given and not counted yet are in hand, and so
is what `outstanding_work_` loses where an addition wraps (`carry`).

`post_deferred_completion` and `post_deferred_completions` count nothing: they
are for operations that are counted already, and the runs considered do not
call them with new ones. Two functions break the balance: an operation that
`register_internal_descriptor` queues is never counted, although its completion
will be, and what `post_deferred_completions` drops stays counted. The
constructor does not set `outstanding_work_`. Otherwise, and short of 2^64
units, the balance holds, and no decrement meets a zero (`balanced_iff`).
-/

namespace BoostAsio

open Runs OpQueue

/-- 1 between the end of the handler, or the compensation for a descriptor that
completed nothing, and `work_finished`. -/
def Pc.owed : Pc → Nat
  | .workCleanup _ | .workFinished _ => 1
  | .lock | .loop | .wait | .runTask _ | .events _ | .taskCleanup | .taskCleanupLock
  | .popped _ | .performIo _ _ | .complete _ | .workCleanupLock _ => 0

/-- `private_outstanding_work`, summed over the `run()` calls of a thread. -/
def Thread.privateWork (t : Thread) : Nat := t.tally fun f => f.info.privateOutstandingWork

def Thread.owed (t : Thread) : Nat := t.tally fun f => f.pc.owed

variable {ι : Type} [DecidableEq ι] {hint : Int} {i : ι} {s s' : Shared ι} {t t' : Thread}

/-- What an addition to `outstanding_work_` loses. -/
@[irreducible] def carry (work n : Nat) : Nat := 2 ^ 64 * ((work + n) / 2 ^ 64)

theorem increment_add_carry (work n : Nat) : increment work n + carry work n = work + n := by
  rw [increment, carry, Nat.mod_add_div]

theorem carry_eq_zero {work n : Nat} : carry work n = 0 ↔ work + n < 2 ^ 64 := by
  simp [carry, Nat.div_eq_zero_iff]

theorem carry_zero {work : Nat} (h : work < 2 ^ 64) : carry work 0 = 0 := carry_eq_zero.mpr h

theorem increment_zero {work : Nat} (h : work < 2 ^ 64) : increment work 0 = work :=
  Nat.mod_eq_of_lt h

/-- What a piece of code does to the balance: `k` units are in hand before, and
`k'` after, of operations made and not counted or lost by the counter. -/
def Units (k : Nat) (s : Shared ι) (t : Thread) (k' : Nat) (s' : Shared ι) (t' : Thread) : Prop :=
  s'.outstandingWork + t'.privateWork + s'.executed.length + s.externalWork + s.created.length +
      t.owed + k' =
    s.outstandingWork + t.privateWork + s.executed.length + s'.externalWork + s'.created.length +
      t'.owed + k

section Pieces

omit [DecidableEq ι]

theorem Units.trans {k k' k'' : Nat} {s'' : Shared ι} {t'' : Thread} (a : Units k s t k' s' t')
    (b : Units k' s' t' k'' s'' t'') : Units k s t k'' s'' t'' := by
  unfold Units at *
  omega

theorem Units.same {k : Nat} (hw : s'.outstandingWork = s.outstandingWork)
    (he : s'.executed = s.executed) (hx : s'.externalWork = s.externalWork)
    (hcr : s'.created = s.created) (hp : t'.privateWork = t.privateWork)
    (ho : t'.owed = t.owed) : Units k s t k s' t' := by
  simp only [Units, hw, he, hx, hcr, hp, ho]

theorem Units.created (ids : List Nat) (s : Shared ι) (t : Thread) :
    Units 0 s t ids.length { s with created := s.created ++ ids } t := by
  simp [Units]
  omega

/-- A `run()` goes on, and its units and those of `outstanding_work_` change places. -/
theorem Units.move {f f' : Run} {call : Option Call} {k k' : Nat} (ht : t.top = some f)
    (hw : s'.outstandingWork + f'.info.privateOutstandingWork + f.pc.owed + k' =
      s.outstandingWork + f.info.privateOutstandingWork + f'.pc.owed + k)
    (he : s'.executed = s.executed) (hx : s'.externalWork = s.externalWork)
    (hcr : s'.created = s.created) : Units k s t k' s' { t with top := some f', call } := by
  have hp : Thread.privateWork { t with top := some f', call } + f.info.privateOutstandingWork =
    t.privateWork + f'.info.privateOutstandingWork := Thread.tally_setTop ht f'
  have ho : Thread.owed { t with top := some f', call } + f.pc.owed = t.owed + f'.pc.owed :=
    Thread.tally_setTop ht f'
  simp only [Units, he, hx, hcr]
  omega

theorem Units.leave {f : Run} (ht : t.top = some f) (hf : f.info.privateOutstandingWork = 0)
    (ho : f.pc.owed = 0) (hw : s'.outstandingWork = s.outstandingWork)
    (he : s'.executed = s.executed) (hx : s'.externalWork = s.externalWork)
    (hcr : s'.created = s.created) : Units 0 s t 0 s' t.leave := by
  have hp : t.leave.privateWork + f.info.privateOutstandingWork = t.privateWork :=
    Thread.tally_leave ht
  have ho' : t.leave.owed + f.pc.owed = t.owed := Thread.tally_leave ht
  simp only [Units, hw, he, hx, hcr]
  omega

-- ---------------------------------------------------------------------------
-- The functions that submit
-- ---------------------------------------------------------------------------

/-- What `post_immediate_completion` adds to `outstanding_work_`. -/
def postAdds (hint : Int) (isContinuation : Bool) (t : Thread) : Nat :=
  match if oneThread hint || isContinuation then t.top else none with
  | some _ => 0
  | none => 1

theorem postImmediateCompletion_units (hb : s.outstandingWork < 2 ^ 64) {id : Nat} {cont : Bool}
    {r : Shared ι × Thread} (h : postImmediateCompletion hint id cont s t = r) :
    Units 1 s t (carry s.outstandingWork (postAdds hint cont t)) r.1 r.2 := by
  subst h
  simp only [postImmediateCompletion, postAdds]
  cases hf : if oneThread hint || cont then t.top else none with
  | some f =>
    rw [carry_zero hb]
    exact .move (top_of_guard hf) (by simp; omega) rfl rfl rfl
  | none =>
    have hcarry := increment_add_carry s.outstandingWork 1
    simp only [Units, Thread.privateWork, Thread.owed, Thread.tally]
    omega

theorem postDeferredCompletions_units (k : Nat) {ids : List Nat} {r : Shared ι × Thread}
    (h : (postDeferredCompletions hint ids s t).2 = r) : Units k s t k r.1 r.2 := by
  subst h
  unfold postDeferredCompletions
  split
  · rename_i f hf
    exact .move (top_of_guard hf) (by simp) rfl rfl rfl
  · exact .same rfl rfl rfl rfl rfl rfl

/-- What `start_op` adds: it posts its operation, or counts it as pending. -/
def startAdds (hint : Int) (isContinuation : Bool) (t : Thread) :
    DescriptorState.Exit → Nat
  | .posted _ => postAdds hint isContinuation t
  | .queued => 1

theorem startOp_units (hb : s.outstandingWork < 2 ^ 64) {d : Nat} {x : DescriptorState}
    {ty : OpType} {op : ReactorOp} {cont spec : Bool} {f : PerformFunc} {ctl : ErrorCode}
    (h : (match (x.startOp ty op spec f ctl).exit with
      | .posted op' => postImmediateCompletion hint op'.id cont
          (s.setDescriptor d (x.startOp ty op spec f ctl).data) t
      | .queued =>
        ({ s.setDescriptor d (x.startOp ty op spec f ctl).data with
          outstandingWork := increment s.outstandingWork 1 }, t)) = (s', t')) :
    Units 1 s t (carry s.outstandingWork
      (startAdds hint cont t (x.startOp ty op spec f ctl).exit)) s' t' := by
  split at h <;> rename_i he <;> rw [he]
  · exact postImmediateCompletion_units (by exact hb) h
  · cases h
    have hcarry := increment_add_carry s.outstandingWork 1
    simp only [Units, Shared.setDescriptor, startAdds]
    omega

end Pieces

-- ---------------------------------------------------------------------------
-- The units of a run()
-- ---------------------------------------------------------------------------

/-- A descriptor state that completed nothing has a unit of its own until
`~work_cleanup` merges it. -/
def Pc.compensation : Pc → Nat
  | .workCleanup _ => 1
  | _ => 0

/-- `~work_cleanup` has merged the private work. -/
def Pc.merged : Pc → Bool
  | .workFinished _ | .workCleanupLock _ => true
  | _ => false

/-- The private units of a `run()` are those of operations in its private queue,
or the compensating one. -/
structure Run.Backed (f : Run) : Prop where
  le : f.info.privateOutstandingWork ≤
    (handlers f.info.privateOpQueue).length + f.pc.compensation
  merged : f.pc.merged = true → f.info.privateOutstandingWork = 0
  /-- The task is run, never completed. -/
  task : f.pc ≠ .popped .taskOperation

structure Thread.Backed (t : Thread) : Prop where
  top : ∀ f, t.top = some f → f.Backed
  stack : ∀ p ∈ t.stack, p.resume.Backed

theorem Run.Backed.no_work {f : Run} (h : f.Backed) (hq : f.info.privateOpQueue = [])
    (hp : f.pc.compensation = 0) : f.info.privateOutstandingWork = 0 := by
  have := h.le
  simp only [hq, handlers_nil, List.length_nil, hp] at this
  omega

-- ---------------------------------------------------------------------------
-- Every step
-- ---------------------------------------------------------------------------

/-- The operations that a step makes and never counts. -/
def uncounted : Action ι → Nat
  | .user (.registerInternalDescriptor _ _ _ _) => 1
  | _ => 0

/-- The step is not a call that hands over new operations as counted ones. -/
def CountsItsOwn : Action ι → Prop
  | .user (.postDeferredCompletion _) | .user (.postDeferredCompletions _) => False
  | _ => True

def Finishes (t : Thread) : Action ι → Prop
  | .user .onWorkFinished => True
  | .next => ∃ f thrown, t.top = some f ∧ f.pc = .workFinished thrown
  | _ => False

/-- What a step adds to `outstanding_work_`. -/
def added (hint : Int) (s : Shared ι) (t : Thread) : Action ι → Nat
  | .user .onWorkStarted | .user (.doDispatch _) => 1
  | .user (.postImmediateCompletion _ isContinuation)
  | .user (.startOp none _ _ isContinuation _ _ _) => postAdds hint isContinuation t
  | .user (.startOp (some d) ty op isContinuation allowSpeculative f ctl) =>
    s.descriptors[d]?.elim 0 fun x =>
      startAdds hint isContinuation t (x.startOp ty op allowSpeculative f ctl).exit
  | .next => t.top.elim 0 fun f => match f.pc with
    | .taskCleanup | .workCleanup _ => f.info.privateOutstandingWork
    | _ => 0
  | _ => 0

omit [DecidableEq ι] in
theorem added_next {f : Run} {pc : Pc} (ht : t.top = some f) (hpc : f.pc = pc)
    (h : pc ≠ .taskCleanup ∧ ∀ thrown, pc ≠ .workCleanup thrown) :
    added hint s t (.next : Action ι) = 0 := by
  subst hpc
  simp only [added, ht, Option.elim_some]
  split
  · rename_i hpc
    exact absurd hpc h.1
  · rename_i hpc
    exact absurd hpc (h.2 _)
  · rfl

omit [DecidableEq ι] in
theorem userStep_units (hwork : s.outstandingWork < 2 ^ 64) (hu : t.inUserCode = true)
    {u : UserAction} (h : userStep hint s t u = some (s', t'))
    (hscope : CountsItsOwn (.user u : Action ι))
    (hpos : Finishes t (.user u : Action ι) → s.outstandingWork ≠ 0) :
    Units 0 s t (uncounted (.user u : Action ι) +
      carry s.outstandingWork (added hint s t (.user u))) s' t' := by
  have hc : t.call = none := (Thread.inUserCode_works hu).1
  have adds (ha : added hint s t (.user u) = 0)
      (hunits : Units 0 s t (uncounted (.user u : Action ι)) s' t') :
      Units 0 s t (uncounted (.user u : Action ι) +
        carry s.outstandingWork (added hint s t (.user u))) s' t' := by
    rwa [ha, carry_zero hwork]
  have hcarry := increment_add_carry s.outstandingWork 1
  have deferred {ids : List Nat} {d : Nat} {x : DescriptorState}
      (h : (postDeferredCompletions hint ids (s.setDescriptor d x) t).2 = (s', t')) :
      Units 0 s t 0 s' t' := by
    have hsame : Units 0 s t 0 (s.setDescriptor d x) t := .same rfl rfl rfl rfl rfl rfl
    exact hsame.trans (postDeferredCompletions_units 0 h)
  have posts {id : Nat} {cont : Bool}
      (h : postImmediateCompletion hint id cont { s with created := s.created ++ [id] } t =
        (s', t')) : Units 0 s t (carry s.outstandingWork (postAdds hint cont t)) s' t' := by
    exact (Units.created [id] s t).trans (postImmediateCompletion_units (by exact hwork) h)
  cases userStep_piece hu h with
  | onWorkStarted =>
    simp only [Units, uncounted, added]
    omega
  | onWorkFinished =>
    have hwork : s.outstandingWork ≠ 0 := hpos trivial
    have hp (p : Prop) [Decidable p] :
        (if p then { t with call := some .stop } else t).privateWork = t.privateWork := by
      split <;> rfl
    have ho (p : Prop) [Decidable p] :
        (if p then { t with call := some .stop } else t).owed = t.owed := by
      split <;> rfl
    refine adds rfl ?_
    simp only [Units, uncounted, hp, ho, decrement, if_neg hwork]
    omega
  | doDispatch =>
    simp [Units, uncounted, added, Thread.privateWork, Thread.owed, Thread.tally]
    omega
  | postImmediate _ h | startOpNull _ h =>
    simp only [uncounted, Nat.zero_add]
    exact posts h
  | postDeferred => cases hscope
  | postAllDeferred => cases hscope
  | stop | restart | initTask | runWithoutWork => exact adds rfl (.same rfl rfl rfl rfl rfl rfl)
  | run ht =>
    exact adds rfl (.same rfl rfl rfl rfl (by simp [Thread.privateWork, Thread.tally, ht])
      (by simp [Thread.owed, Thread.tally, ht, Pc.owed]))
  | nest ht hpc =>
    exact adds rfl (.same rfl rfl rfl rfl
      (by simp [Thread.privateWork, Thread.tally, ht, Suspended.resume])
      (by simp [Thread.owed, Thread.tally, ht, hpc, Suspended.resume, Pc.owed]))
  | registerDescriptor => exact adds rfl (.same rfl rfl rfl rfl rfl rfl)
  | @registerInternal _ _ op => exact adds rfl (Units.created [op.id] s t)
  | @startOp _ _ _ op _ _ _ _ _ _ _ hd h =>
    have hstart : Units 1 { s with created := s.created ++ [op.id] } t _ s' t' :=
      startOp_units (by exact hwork) h
    simp only [uncounted, added, hd, Option.elim_some, Nat.zero_add]
    exact (Units.created [op.id] s t).trans hstart
  | cancelOpsNull | deregisterNull | deregisterShut | deregisterInternalNull
  | deregisterInternalShut | deregisterInternalLoops =>
    exact adds rfl (.same rfl rfl rfl rfl rfl rfl)
  | cancelOps _ h => exact adds rfl (deferred h)
  | deregister _ _ h => exact adds rfl (deferred h)
  | deregisterInternal _ _ h => exact adds rfl (deferred h)
  | @handlerEnd f id thrown ht hpc =>
    have hp : (t.setTop { f with pc := .workCleanup thrown }).privateWork + _ =
      t.privateWork + _ := Thread.tally_setTop ht _
    have ho : (t.setTop { f with pc := .workCleanup thrown }).owed + _ = t.owed + _ :=
      Thread.tally_setTop ht _
    refine adds rfl ?_
    simp [Units, uncounted, Pc.owed, hpc] at hp ho ⊢
    omega

section RunStep

variable {f : Run} (ht : t.top = some f)
include ht

omit [DecidableEq ι] in
theorem misuse_units (hl : t.LockState) (hq : t.QueueState) (hb : t.Backed)
    (ho : f.owns = decide (f.pc ≠ .loop)) :
    Units 0 s t 0 (misuse s f t).1 (misuse s f t).2 := by
  have hpc := (hl.misuse_at_lock ht ho).1
  have hempty : f.info.privateOpQueue = [] := by simpa [hpc] using hq.top f ht
  have hwork := (hb.top f ht).no_work hempty (by rw [hpc]; rfl)
  exact .leave ht hwork (by rw [hpc]; rfl) rfl rfl rfl rfl

omit [DecidableEq ι] in
theorem storeEvent_units {pc : Pc} (ev : EpollEvent) (hpc : pc.owed = f.pc.owed) :
    Units 0 s t 0 (storeEvent s f ev).1
      (t.setTop { f with info := (storeEvent s f ev).2, pc }) := by
  cases ev with
  | interrupter => exact .move ht (by simp [storeEvent, hpc]) rfl rfl rfl
  | descriptor d events =>
    simp only [storeEvent]
    split
    · exact .move ht (by simp [hpc]) rfl rfl rfl
    · split
      · exact .move ht (by simp [Shared.setDescriptor, hpc]) rfl rfl rfl
      · exact .move ht (by simp [Shared.setDescriptor, hpc]) rfl rfl rfl

omit [DecidableEq ι] in
theorem endOfWork_units {s₁ : Shared ι} {f₁ : Run}
    (hw : s₁.outstandingWork = s.outstandingWork) (he : s₁.executed = s.executed)
    (hx : s₁.externalWork = s.externalWork) (hcr : s₁.created = s.created)
    (hf : f.info.privateOutstandingWork = 0) (ho : f.pc.owed = 0)
    (hf₁ : f₁.info.privateOutstandingWork = 0) (thrown : Bool) :
    Units 0 s t 0 (endOfWork s₁ f₁ t thrown).1 (endOfWork s₁ f₁ t thrown).2 := by
  cases thrown with
  | true => exact .leave ht hf ho hw he hx hcr
  | false =>
    have hlock : Pc.lock.owed = 0 := rfl
    exact .move ht (by simp [endOfWork, hw, hf, hf₁, ho, hlock]) he hx hcr

theorem runStep_units (hwork : s.outstandingWork < 2 ^ 64) (hl : t.LockState)
    (hq : t.QueueState) (hb : t.Backed) (h : runStep hint i s f t = some (s', t'))
    (hpos : ∀ thrown, f.pc = .workFinished thrown → s.outstandingWork ≠ 0) :
    Units 0 s t (carry s.outstandingWork (added hint s t (.next : Action ι))) s' t' := by
  have adds {pc : Pc} (hpc : f.pc = pc)
      (ha : pc ≠ .taskCleanup ∧ ∀ thrown, pc ≠ .workCleanup thrown) (hunits : Units 0 s t 0 s' t') :
      Units 0 s t (carry s.outstandingWork (added hint s t (.next : Action ι))) s' t' := by
    rwa [added_next ht hpc ha, carry_zero hwork]
  have merges (ha : added hint s t (.next : Action ι) = f.info.privateOutstandingWork) :
      increment s.outstandingWork f.info.privateOutstandingWork +
        carry s.outstandingWork (added hint s t (.next : Action ι)) =
          s.outstandingWork + f.info.privateOutstandingWork := by
    rw [ha]
    exact increment_add_carry _ _
  cases runStep_piece h with
  | misuse ho =>
    exact adds (hl.misuse_at_lock ht ho).1 (by simp) (misuse_units ht hl hq hb ho)
  | returns hpc =>
    have hempty : f.info.privateOpQueue = [] := by simpa [hpc] using hq.top f ht
    have hwork := (hb.top f ht).no_work hempty (by rw [hpc]; rfl)
    exact adds hpc (by simp) (.leave ht hwork (by rw [hpc]; rfl) rfl rfl rfl rfl)
  | @pop o rest hpc =>
    refine adds hpc (by simp) (.move ht ?_ rfl rfl rfl)
    cases o <;> simp [hpc, Pc.owed]
  | store hpc => exact adds hpc (by simp) (storeEvent_units ht _ (by rw [hpc]; rfl))
  | taskCompleted hpc => exact absurd hpc (hb.top f ht).task
  | lock hpc | wait hpc | batchEnd hpc | taskCleanup hpc | complete hpc | performIo hpc =>
    exact adds hpc (by simp) (.move ht (by simp [hpc, Pc.owed]) rfl rfl rfl)
  | taskMerge hpc | workMerge hpc =>
    have hmerge := merges (by simp [added, ht, hpc])
    refine .move ht ?_ rfl rfl rfl
    simp only [mergeWork, hpc, Pc.owed]
    omega
  | workFinished hpc ht' =>
    have hw : decrement s.outstandingWork + 1 = s.outstandingWork := by
      simp only [decrement, if_neg (hpos _ hpc)]
      have := hpos _ hpc
      omega
    subst ht'
    refine adds hpc (by simp) ?_
    split
    · refine .move ht ?_ rfl rfl rfl
      simp only [hpc, Pc.owed]
      omega
    · refine .move ht ?_ rfl rfl rfl
      simp only [hpc, Pc.owed]
      omega
  | finished hpc =>
    have hf := (hb.top f ht).merged (by rw [hpc]; rfl)
    exact adds hpc (by simp) (endOfWork_units ht rfl rfl rfl rfl hf (by rw [hpc]; rfl) hf _)
  | spliced hpc _ _ _ hs₁ hf₁ =>
    have hf := (hb.top f ht).merged (by rw [hpc]; rfl)
    exact adds hpc (by simp) (endOfWork_units ht (by rw [hs₁]) (by rw [hs₁]) (by rw [hs₁])
      (by rw [hs₁]) hf (by rw [hpc]; rfl) (by rw [hf₁]; exact hf) _)

omit [DecidableEq ι] in
theorem performIoStep_units {perform : PerformFunc}
    (h : performIoStep hint s f t perform = some (s', t')) : Units 0 s t 0 s' t' := by
  obtain ⟨info, owns, pc, n⟩ := f
  cases pc with
  | performIo d events =>
    obtain ⟨x, -, h⟩ := Option.map_eq_some_iff.mp h
    cases hops : (x.performIo events perform).ops with
    | nil =>
      simp only [hops] at h
      cases h
      exact .move ht (by simp [Shared.setDescriptor, Pc.owed]; omega) rfl rfl rfl
    | cons first rest =>
      simp only [hops] at h
      have hfirst : ∀ s₁ : Shared ι, s₁.outstandingWork = s.outstandingWork →
          s₁.executed = s.executed → s₁.externalWork = s.externalWork → s₁.created = s.created →
          Units 0 s t 0 s₁ (t.setTop ⟨info, owns, .complete first.id, n⟩) :=
        fun s₁ hw he hx hcr => .move ht (by simp [hw, Pc.owed]) he hx hcr
      cases rest with
      | nil =>
        cases h
        exact hfirst _ rfl rfl rfl rfl
      | cons second rest =>
        exact (hfirst _ rfl rfl rfl rfl).trans (postDeferredCompletions_units 0 h)
  | _ => cases h

omit [DecidableEq ι] in
theorem epollWaitStep_units {evs : List EpollEvent}
    (h : epollWaitStep s f t evs = some (s', t')) : Units 0 s t 0 s' t' := by
  simp only [epollWaitStep] at h
  split at h
  · rename_i block hpc
    simp only [Option.ite_none_right_eq_some] at h
    cases h.2
    exact .move ht (by simp [hpc, Pc.owed]) rfl rfl rfl
  · cases h

end RunStep

theorem step_units (hwork : s.outstandingWork < 2 ^ 64) (hl : t.LockState) (hq : t.QueueState)
    (hb : t.Backed) {a : Action ι} (h : step hint i a s t = some (s', t'))
    (hscope : CountsItsOwn a) (hpos : Finishes t a → s.outstandingWork ≠ 0) :
    Units 0 s t (uncounted a + carry s.outstandingWork (added hint s t a)) s' t' := by
  have adds (ha : added hint s t a = 0) (hu : uncounted a = 0) (hunits : Units 0 s t 0 s' t') :
      Units 0 s t (uncounted a + carry s.outstandingWork (added hint s t a)) s' t' := by
    rwa [hu, ha, carry_zero hwork]
  cases step_piece h with
  | user hu h => exact userStep_units hwork hu h hscope hpos
  | push | stop | notify | transfer | waitAgain =>
    exact adds rfl rfl (.same rfl rfl rfl rfl rfl rfl)
  | run hc ht h =>
    simp only [uncounted, Nat.zero_add]
    exact runStep_units ht hwork hl hq hb h fun thrown hpc => hpos ⟨_, thrown, ht, hpc⟩
  | wake hc ht hpc =>
    exact adds rfl rfl (.move ht (by simp [hpc, Pc.owed]) rfl rfl rfl)
  | epollWait hc ht h => exact adds rfl rfl (epollWaitStep_units ht h)
  | performIo hc ht h => exact adds rfl rfl (performIoStep_units ht h)

-- ---------------------------------------------------------------------------
-- The counter itself
-- ---------------------------------------------------------------------------

section Counter

variable (hwork : s.outstandingWork < 2 ^ 64)

omit [DecidableEq ι] in
include hwork in
theorem postImmediateCompletion_work {id : Nat} {cont : Bool} {r : Shared ι × Thread}
    (h : postImmediateCompletion hint id cont s t = r) :
    r.1.outstandingWork = increment s.outstandingWork (postAdds hint cont t) := by
  subst h
  simp only [postImmediateCompletion, postAdds]
  cases if oneThread hint || cont then t.top else none with
  | some f => exact (increment_zero hwork).symm
  | none => rfl

omit [DecidableEq ι] in
theorem postDeferredCompletion_work {id : Nat} {r : Shared ι × Thread}
    (h : postDeferredCompletion hint id s t = r) : r.1.outstandingWork = s.outstandingWork := by
  subst h
  unfold postDeferredCompletion
  split <;> rfl

omit [DecidableEq ι] in
theorem postDeferredCompletions_work {ids : List Nat} {r : Shared ι × Thread}
    (h : (postDeferredCompletions hint ids s t).2 = r) :
    r.1.outstandingWork = s.outstandingWork := by
  subst h
  unfold postDeferredCompletions
  split <;> rfl

omit [DecidableEq ι] in
theorem endOfWork_work (s : Shared ι) (f : Run) (t : Thread) (thrown : Bool) :
    (endOfWork s f t thrown).1.outstandingWork = s.outstandingWork := by
  cases thrown <;> rfl

/-- `outstanding_work_` after a step: units are added, or one is finished, and
whoever finishes the last one calls `stop`. -/
def WorkStep (hint : Int) (s : Shared ι) (t : Thread) (a : Action ι) (s' : Shared ι) (t' : Thread) :
    Prop :=
  s'.outstandingWork = increment s.outstandingWork (added hint s t a) ∨
    Finishes t a ∧ s'.outstandingWork = decrement s.outstandingWork ∧
      (s'.outstandingWork = 0 → t'.call = some .stop)

include hwork

omit [DecidableEq ι] in
theorem WorkStep.same {a : Action ι} (ha : added hint s t a = 0)
    (hs : s'.outstandingWork = s.outstandingWork) : WorkStep hint s t a s' t' :=
  .inl (by rw [ha, increment_zero hwork, hs])

omit [DecidableEq ι] in
theorem userStep_work (hu : t.inUserCode = true) {u : UserAction}
    (h : userStep hint s t u = some (s', t')) : WorkStep hint s t (.user u) s' t' := by
  cases userStep_piece hu h with
  | onWorkStarted | doDispatch => exact .inl rfl
  | onWorkFinished =>
    refine .inr ⟨trivial, rfl, fun hz => ?_⟩
    rw [if_pos hz]
  | postImmediate _ h | startOpNull _ h => exact .inl (postImmediateCompletion_work (by exact hwork) h)
  | postDeferred _ h => exact .same hwork rfl (postDeferredCompletion_work h)
  | postAllDeferred _ h | cancelOps _ h | deregister _ _ h | deregisterInternal _ _ h =>
    exact .same hwork rfl (postDeferredCompletions_work h)
  | startOp _ hd h =>
    refine .inl ?_
    simp only [added, hd, Option.elim_some]
    split at h <;> rename_i he <;> rw [he]
    · exact postImmediateCompletion_work (by exact hwork) h
    · cases h
      rfl
  | _ => exact .same hwork rfl rfl

theorem runStep_work {f : Run} (ht : t.top = some f) (hl : t.LockState)
    (h : runStep hint i s f t = some (s', t')) : WorkStep hint s t .next s' t' := by
  have same {pc : Pc} (hpc : f.pc = pc)
      (ha : pc ≠ .taskCleanup ∧ ∀ thrown, pc ≠ .workCleanup thrown)
      (hs : s'.outstandingWork = s.outstandingWork) : WorkStep hint s t .next s' t' :=
    .same hwork (added_next ht hpc ha) hs
  cases runStep_piece h with
  | misuse ho => exact same (hl.misuse_at_lock ht ho).1 (by simp) rfl
  | lock hpc | returns hpc | wait hpc | pop hpc | batchEnd hpc | taskCleanup hpc | complete hpc
  | performIo hpc | taskCompleted hpc => exact same hpc (by simp) rfl
  | store hpc => exact same hpc (by simp) (by rw [storeEvent_shared])
  | taskMerge hpc | workMerge hpc =>
    refine .inl ?_
    simp only [mergeWork, added, ht, Option.elim_some, hpc]
  | workFinished hpc =>
    refine .inr ⟨⟨f, _, ht, hpc⟩, rfl, fun hz => ?_⟩
    rw [if_pos hz]
  | finished hpc => exact same hpc (by simp) (endOfWork_work _ _ _ _)
  | spliced hpc _ _ _ hs₁ =>
    exact same hpc (by simp) ((endOfWork_work _ _ _ _).trans (by rw [hs₁]))

theorem step_work (hl : t.LockState) {a : Action ι} (h : step hint i a s t = some (s', t')) :
    WorkStep hint s t a s' t' := by
  cases step_piece h with
  | user hu h => exact userStep_work hwork hu h
  | push | stop | notify | transfer | wake | waitAgain => exact .same hwork rfl rfl
  | run _ ht h => exact runStep_work hwork ht hl h
  | epollWait _ _ h =>
    simp only [epollWaitStep] at h
    split at h
    · simp only [Option.ite_none_right_eq_some] at h
      cases h.2
      exact .same hwork rfl rfl
    · cases h
  | performIo _ _ h =>
    simp only [performIoStep] at h
    split at h
    · obtain ⟨x, -, h⟩ := Option.map_eq_some_iff.mp h
      split at h
      · cases h
        exact .same hwork rfl rfl
      · split at h
        · cases h
          exact .same hwork rfl rfl
        · exact .same hwork rfl (postDeferredCompletions_work h)
    · cases h

theorem step_work_lt (hl : t.LockState) {a : Action ι} (h : step hint i a s t = some (s', t')) :
    s'.outstandingWork < 2 ^ 64 := by
  rcases step_work hwork hl h with hw | ⟨-, hw, -⟩
  · rw [hw]
    exact Nat.mod_lt _ (by simp)
  · rw [hw, decrement]
    split <;> omega

end Counter

-- ---------------------------------------------------------------------------
-- The private units stay backed
-- ---------------------------------------------------------------------------

theorem Batch.handlers {q : OpQueue Operation} (h : Batch q) : handlers q = [] := by
  refine List.filterMap_eq_nil_iff.mpr fun o ho => ?_
  obtain ⟨d, rfl⟩ := h.1 o ho
  rfl

section Backed

omit [DecidableEq ι]

theorem Thread.Backed.setTop (h : t.Backed) {f' : Run} (ht : t'.top = some f')
    (hs : t'.stack = t.stack) (hf : f'.Backed) : t'.Backed := by
  refine ⟨fun g hg => ?_, hs ▸ h.stack⟩
  rw [ht] at hg
  cases hg
  exact hf

theorem Thread.Backed.withCall (h : t.Backed) (call : Option Call) :
    Thread.Backed { t with call } :=
  ⟨h.top, h.stack⟩

theorem Thread.Backed.leave (h : t.Backed) : t.leave.Backed := by
  refine ⟨fun f hf => ?_, fun p hp => h.stack p (Thread.mem_of_leave_stack hp)⟩
  obtain ⟨p, hp, rfl⟩ := Thread.leave_top hf
  exact h.stack p hp

theorem Run.Backed.goOn {f f' : Run} (h : f.Backed) (hi : f'.info = f.info)
    (hc : f.pc.compensation ≤ f'.pc.compensation) (hm : f'.pc.merged = true → f.pc.merged = true)
    (ht : f'.pc ≠ .popped .taskOperation) : f'.Backed := by
  refine ⟨?_, fun h' => ?_, ht⟩
  · have := h.le
    rw [hi]
    omega
  · rw [hi]
    exact h.merged (hm h')

theorem Run.Backed.of_zero {f : Run} (h : f.info.privateOutstandingWork = 0)
    (ht : f.pc ≠ .popped .taskOperation) : f.Backed :=
  ⟨by simp [h], fun _ => h, ht⟩

theorem postImmediateCompletion_backed (hb : t.Backed) (hu : t.inUserCode = true) {id : Nat}
    {cont : Bool} {r : Shared ι × Thread} (h : postImmediateCompletion hint id cont s t = r) :
    r.2.Backed := by
  subst h
  unfold postImmediateCompletion
  split
  · rename_i f hf
    have ht : t.top = some f := top_of_guard hf
    obtain ⟨id', hpc⟩ := Thread.inUserCode_top hu ht
    have hle := (hb.top f ht).le
    refine hb.setTop rfl rfl ?_
    refine ⟨?_, by simp [hpc, Pc.merged], (hb.top f ht).task⟩
    simp
    omega
  · exact hb.withCall _

/-- Unless it drops an operation, `post_deferred_completions` leaves no unit
without one. -/
theorem postDeferredCompletions_backed (hb : t.Backed)
    (hpc : ∀ f, t.top = some f → ∃ id, f.pc = .complete id) {ids : List Nat}
    (hd : droppedBy hint ids t = []) {r : Shared ι × Thread}
    (h : (postDeferredCompletions hint ids s t).2 = r) : r.2.Backed := by
  subst h
  unfold postDeferredCompletions
  unfold droppedBy at hd
  split
  · rename_i f hf
    have ht : t.top = some f := top_of_guard hf
    obtain ⟨id, hpc⟩ := hpc f ht
    simp only [hf, List.append_eq_nil_iff] at hd
    have hle := (hb.top f ht).le
    rw [hd.2, hpc] at hle
    refine hb.setTop rfl rfl ?_
    exact .of_zero (Nat.le_zero.mp hle) (hb.top f ht).task
  · exact hb.withCall _

theorem userStep_backed (hb : t.Backed) (hu : t.inUserCode = true) {u : UserAction}
    (h : userStep hint s t u = some (s', t')) (hscope : CountsItsOwn (.user u : Action ι))
    (hd : dropped hint s t (.user u) = []) : t'.Backed := by
  have htop {f : Run} := Thread.inUserCode_top (f := f) hu
  cases userStep_piece hu h with
  | onWorkStarted | registerDescriptor | restart | registerInternal => exact hb
  | onWorkFinished =>
    split
    · exact hb.withCall _
    · exact hb
  | doDispatch | stop | initTask | runWithoutWork => exact hb.withCall _
  | postImmediate _ h => exact postImmediateCompletion_backed hb hu h
  | postDeferred => cases hscope
  | postAllDeferred => cases hscope
  | run ht => exact hb.setTop rfl rfl (.of_zero rfl (by simp))
  | @nest f id ht hpc =>
    refine ⟨?_, ?_⟩
    · rintro g ⟨⟩
      exact .of_zero rfl (by simp)
    · simp only [List.forall_mem_cons]
      refine ⟨(hb.top f ht).goOn rfl ?_ ?_ ?_, hb.stack⟩
      · rw [hpc]
        exact le_rfl
      · rw [hpc]
        exact fun h => h
      · simp [Suspended.resume]
  | startOpNull _ h => exact postImmediateCompletion_backed hb hu h
  | startOp _ _ h =>
    split at h
    · exact postImmediateCompletion_backed hb hu h
    · cases h
      exact hb
  | cancelOpsNull | deregisterNull | deregisterShut | deregisterInternalNull
  | deregisterInternalShut => exact hb
  | deregisterInternalLoops => exact hb.withCall _
  | cancelOps hx h =>
    simp only [dropped, deferred, hx, Option.map_some] at hd
    exact postDeferredCompletions_backed hb (fun _ => htop) hd h
  | deregister hx he h =>
    simp only [dropped, deferred, hx, Option.bind_some, he, Option.map_some] at hd
    exact postDeferredCompletions_backed hb (fun _ => htop) hd h
  | deregisterInternal hx hr h =>
    simp only [dropped, deferred, hx, Option.bind_some, hr, Option.map_some] at hd
    exact postDeferredCompletions_backed hb (fun _ => htop) hd h
  | handlerEnd ht hpc =>
    refine hb.setTop rfl rfl ((hb.top _ ht).goOn rfl ?_ (by simp [Pc.merged]) (by simp))
    rw [hpc]
    exact Nat.zero_le _

section RunStep

variable {f : Run} (ht : t.top = some f) (hb : t.Backed)
include ht hb

omit ht in
theorem endOfWork_backed {f' : Run} (hf' : f'.info.privateOutstandingWork = 0) (thrown : Bool) :
    (endOfWork s f' t thrown).2.Backed := by
  cases thrown with
  | true => exact hb.leave
  | false => exact hb.setTop rfl rfl (.of_zero hf' (by simp))

theorem storeEvent_backed {evs : List EpollEvent} {ev : EpollEvent}
    (hpc : f.pc = .events (ev :: evs)) :
    (t.setTop { f with info := (storeEvent s f ev).2, pc := .events evs }).Backed := by
  have hle := (hb.top f ht).le
  refine hb.setTop rfl rfl ⟨?_, by simp [Pc.merged], by simp⟩
  cases ev with
  | interrupter => simpa [hpc, storeEvent, Pc.compensation] using hle
  | descriptor d events =>
    simp only [storeEvent]
    split
    · simpa [hpc, Pc.compensation] using hle
    · split <;> simpa [hpc, Pc.compensation] using hle

end RunStep

end Backed

section RunStep

variable {f : Run} (ht : t.top = some f) (hb : t.Backed)
include ht hb

theorem runStep_backed (hq : t.QueueState) (h : runStep hint i s f t = some (s', t')) :
    t'.Backed := by
  have hf := hb.top f ht
  cases runStep_piece h with
  | misuse | returns => exact hb.leave
  | lock hpc | wait hpc | batchEnd hpc | complete hpc | performIo hpc =>
    exact hb.setTop rfl rfl (hf.goOn rfl (by simp [hpc, Pc.compensation]) (by simp [Pc.merged])
      (by simp))
  | @pop o rest hpc =>
    refine hb.setTop rfl rfl (hf.goOn rfl (by simp [hpc, Pc.compensation]) ?_ ?_)
    · cases o <;> simp [Pc.merged]
    · cases o <;> simp
  | store hpc => exact storeEvent_backed ht hb hpc
  | taskMerge | workMerge => exact hb.setTop rfl rfl (.of_zero rfl (by simp))
  | taskCleanup hpc =>
    -- a private queue that holds descriptor states backs no unit
    have hbatch : Batch f.info.privateOpQueue := hq.reaping ht (by rw [hpc]; rfl)
    have hwork : f.info.privateOutstandingWork = 0 := by
      have hle := hf.le
      rw [hbatch.handlers, hpc] at hle
      exact Nat.le_zero.mp hle
    exact hb.setTop rfl rfl (.of_zero hwork (by simp))
  | taskCompleted hpc => exact absurd hpc hf.task
  | workFinished hpc ht' =>
    have hwork := hf.merged (by rw [hpc]; rfl)
    subst ht'
    split
    · exact hb.setTop rfl rfl (.of_zero hwork (by simp))
    · exact hb.setTop rfl rfl (.of_zero hwork (by simp))
  | finished hpc => exact endOfWork_backed hb (hf.merged (by rw [hpc]; rfl)) _
  | spliced hpc _ _ _ hs₁ hf₁ =>
    refine endOfWork_backed hb ?_ _
    rw [hf₁]
    exact hf.merged (by rw [hpc]; rfl)

omit [DecidableEq ι] in
theorem performIoStep_backed {perform : PerformFunc}
    (h : performIoStep hint s f t perform = some (s', t'))
    (hd : dropped hint s t (.performIo perform) = []) : t'.Backed := by
  have hf := hb.top f ht
  obtain ⟨info, owns, pc, n⟩ := f
  cases pc with
  | performIo d events =>
    obtain ⟨x, hlock, h⟩ := Option.map_eq_some_iff.mp h
    have hx := (Shared.lockDescriptor_eq_some.mp hlock).2
    simp only [dropped, deferred, ht, hx, Option.bind_some] at hd
    cases hops : (x.performIo events perform).ops with
    | nil =>
      simp only [hops] at h
      cases h
      have hle := hf.le
      exact hb.setTop rfl rfl ⟨Nat.succ_le_succ hle, by simp [Pc.merged], by simp⟩
    | cons first rest =>
      simp only [hops] at h hd
      have hfirst : (t.setTop ⟨info, owns, .complete first.id, n⟩).Backed :=
        hb.setTop rfl rfl (hf.goOn rfl le_rfl (by simp [Pc.merged]) (by simp))
      cases rest with
      | nil =>
        cases h
        exact hfirst
      | cons second rest =>
        have hdrop : droppedBy hint ((second :: rest).map ReactorOp.id)
            (t.setTop ⟨info, owns, .complete first.id, n⟩) = [] :=
          (droppedBy_setTop ht _).trans hd
        exact postDeferredCompletions_backed hfirst (by rintro g ⟨⟩; exact ⟨_, rfl⟩) hdrop h
  | _ => cases h

omit [DecidableEq ι] in
theorem epollWaitStep_backed {evs : List EpollEvent}
    (h : epollWaitStep s f t evs = some (s', t')) : t'.Backed := by
  simp only [epollWaitStep] at h
  split at h
  · rename_i block hpc
    simp only [Option.ite_none_right_eq_some] at h
    cases h.2
    exact hb.setTop rfl rfl
      ((hb.top f ht).goOn rfl (by simp [hpc, Pc.compensation]) (by simp [Pc.merged]) (by simp))
  · cases h

end RunStep

theorem step_backed (hb : t.Backed) (hq : t.QueueState) {a : Action ι}
    (h : step hint i a s t = some (s', t')) (hscope : CountsItsOwn a)
    (hd : dropped hint s t a = []) : t'.Backed := by
  cases step_piece h with
  | user hu h => exact userStep_backed hb hu h hscope hd
  | push | stop | notify => exact hb.withCall _
  | transfer => exact hb
  | run hc ht h => exact runStep_backed ht hb hq h
  | wake hc ht hpc =>
    exact hb.setTop rfl rfl ((hb.top _ ht).goOn rfl (by simp [hpc, Pc.compensation])
      (by simp [Pc.merged]) (by simp))
  | waitAgain => exact hb
  | epollWait hc ht h => exact epollWaitStep_backed ht hb h
  | performIo hc ht h => exact performIoStep_backed ht hb h hd

-- ---------------------------------------------------------------------------
-- Every run
-- ---------------------------------------------------------------------------

/-- The operations that a thread is about to push, has in a private queue or
has not finished; a descriptor state that completed nothing is one of them
until its `work_finished`. -/
def Thread.unfinished (t : Thread) : Nat :=
  t.transit.length +
    t.tally fun f => (handlers f.info.privateOpQueue).length + f.pc.executing.length + f.pc.owed

theorem Thread.tally_add (g h : Run → Nat) (t : Thread) :
    t.tally (fun f => g f + h f) = t.tally g + t.tally h := by
  cases ht : t.top with
  | none => simp [tally, ht, List.sum_map_add]
  | some f =>
    simp [tally, ht, List.sum_map_add]
    omega

theorem Thread.unfinished_eq (t : Thread) :
    t.unfinished = weigh (fun _ => 1) t.transit + t.tally (Run.load fun _ => 1) + t.owed := by
  have hload : (Run.load fun _ => 1) =
      fun f => (OpQueue.handlers f.info.privateOpQueue).length + f.pc.executing.length := by
    funext f
    simp only [Run.load, weigh_one]
  rw [unfinished, tally_add, owed, hload, weigh_one, Nat.add_assoc]

theorem Run.Backed.le_unfinished {f : Run} (h : f.Backed) : f.info.privateOutstandingWork ≤
    (handlers f.info.privateOpQueue).length + f.pc.executing.length + f.pc.owed := by
  have hle := h.le
  have hc : f.pc.compensation ≤ f.pc.owed := by cases f.pc <;> simp [Pc.compensation, Pc.owed]
  omega

theorem Thread.Backed.le (h : t.Backed) : t.privateWork ≤ t.unfinished := by
  have htop := fun f hf => (h.top f hf).le_unfinished
  have hstack := List.sum_le_sum fun p hp => (h.stack p hp).le_unfinished
  simp only [privateWork, unfinished, tally]
  cases ht : t.top with
  | none =>
    simp only [Option.elim_none]
    omega
  | some f =>
    have := htop f ht
    simp only [Option.elim_some]
    omega

theorem Thread.Backed.lt (h : t.Backed) {f : Run} {thrown : Bool} (ht : t.top = some f)
    (hpc : f.pc = .workFinished thrown) : t.privateWork < t.unfinished := by
  have hmerged := (h.top f ht).merged (by rw [hpc]; rfl)
  have howed : f.pc.owed = 1 := by rw [hpc]; rfl
  have hstack := List.sum_le_sum fun p hp => (h.stack p hp).le_unfinished
  simp only [privateWork, unfinished, tally, ht, Option.elim_some]
  omega

namespace System

variable {c c' : System ι} {l : ι × Action ι} [Fintype ι]

/-- `outstanding_work_` and the counters of the threads: the units held, and the
operations that are not finished. -/
def Balanced (c : System ι) : Prop :=
  c.shared.outstandingWork + ∑ i, (c.thread i).privateWork =
    c.shared.externalWork + (handlers c.shared.opQueue).length +
      (c.shared.descriptors.map fun x => x.pendingIds.length).sum +
      ∑ i, (c.thread i).unfinished

omit [Fintype ι] in
/-- No step from here decrements `outstanding_work_` where it is 0. -/
def NeverWraps (hint : Int) (c : System ι) : Prop :=
  ∀ l c', System.next hint c l = some c' → Finishes (c.thread l.1) l.2 →
    c.shared.outstandingWork ≠ 0

/-- What the step adds to `outstanding_work_` does not make it wrap. -/
def HasRoom (hint : Int) (c : System ι) (l : ι × Action ι) : Prop :=
  c.shared.outstandingWork + added hint c.shared (c.thread l.1) l.2 < 2 ^ 64

instance (c : System ι) (l : ι × Action ι) : Decidable (HasRoom hint c l) :=
  inferInstanceAs (Decidable (_ < _))

omit [Fintype ι] in
/-- The step makes no operation that is never counted, drops none that is, and
adds no unit that the counter has no room for. -/
def KeepsCount (hint : Int) (c : System ι) (l : ι × Action ι) : Prop :=
  uncounted l.2 = 0 ∧ NothingDropped hint c l ∧ HasRoom hint c l

structure Counted (c : System ι) : Prop where
  account : Account c
  backed : ∀ i, (c.thread i).Backed
  work_lt : c.shared.outstandingWork < 2 ^ 64
  balanced : Balanced c

theorem Counted.neverWraps (h : Counted c) : NeverWraps hint c := by
  have hb := h.balanced
  have hle : ∑ i, (c.thread i).privateWork ≤ ∑ i, (c.thread i).unfinished :=
    Finset.sum_le_sum fun i _ => (h.backed i).le
  rintro ⟨i, a⟩ c' hn hf
  obtain ⟨s, t, hs, -⟩ := Threads.next_eq_some.mp hn
  rw [Balanced] at hb
  cases a with
  | user u =>
    cases u with
    | onWorkFinished =>
      simp only [step, userStep, Option.ite_none_right_eq_some,
        Option.ite_none_left_eq_some] at hs
      have := hs.2.1
      omega
    | _ => cases hf
  | next =>
    obtain ⟨f, thrown, ht, hpc⟩ := hf
    have hlt : ∑ i, (c.thread i).privateWork < ∑ i, (c.thread i).unfinished :=
      Finset.sum_lt_sum (fun i _ => (h.backed i).le)
        ⟨i, Finset.mem_univ i, (h.backed i).lt ht hpc⟩
    omega
  | _ => cases hf

/-- What one step does to the two sides of the balance. -/
theorem balance_next (h : Counted c) (hscope : CountsItsOwn l.2)
    (hn : System.next hint c l = some c') :
    Threads.total Shared.outstandingWork Thread.privateWork c' +
        Threads.total (fun s => s.externalWork + (handlers s.opQueue).length + s.pending fun _ => 1)
          Thread.unfinished c + (uncounted l.2 +
            carry c.shared.outstandingWork (added hint c.shared (c.thread l.1) l.2)) =
      Threads.total Shared.outstandingWork Thread.privateWork c +
        Threads.total (fun s => s.externalWork + (handlers s.opQueue).length + s.pending fun _ => 1)
          Thread.unfinished c' + (dropped hint c.shared (c.thread l.1) l.2).length := by
  refine Threads.total_next hn fun s t hs => ?_
  have hl := (h.account.locks l.1).state
  have hunits := step_units h.work_lt hl (h.account.queues l.1) (h.backed l.1) hs hscope
    (h.neverWraps l c' hn)
  have hledger := step_ledger (w := fun _ => 1) hl (h.account.queues l.1) hs
  have hplaces := hledger.places
  have hcreated := hledger.created
  simp only [weigh_one, List.length_nil] at hplaces hcreated
  simp only [Thread.unfinished_eq, weigh_one]
  rw [Units] at hunits
  omega

omit [DecidableEq ι] in
theorem balanced_iff_total : Balanced c ↔
    Threads.total Shared.outstandingWork Thread.privateWork c =
      Threads.total (fun s => s.externalWork + (handlers s.opQueue).length + s.pending fun _ => 1)
        Thread.unfinished c := by
  simp only [Balanced, Threads.total, Shared.pending, weigh_one]

theorem Counted.next (h : Counted c) (hscope : CountsItsOwn l.2) (hok : KeepsCount hint c l)
    (hn : System.next hint c l = some c') : Counted c' where
  account := h.account.next hn
  backed := by
    intro j
    refine Threads.forall_next (I := fun _ _ t => t.Backed) hn (fun s t hs => ?_)
      (fun _ _ _ j _ => h.backed j) j
    exact step_backed (h.backed l.1) (h.account.queues l.1) hs hscope hok.2.1
  work_lt := by
    obtain ⟨s, t, hs, rfl⟩ := Threads.next_eq_some.mp hn
    exact step_work_lt h.work_lt (h.account.locks l.1).state hs
  balanced := by
    obtain ⟨huncounted, hdropped, hroom⟩ := hok
    have hstep := balance_next h hscope hn
    have hb := balanced_iff_total.mp h.balanced
    have hdrop : dropped hint c.shared (c.thread l.1) l.2 = [] := hdropped
    rw [huncounted, hdrop, List.length_nil, carry_eq_zero.mpr hroom] at hstep
    rw [balanced_iff_total]
    omega

omit [DecidableEq ι] [Fintype ι] in
/-- A step that drops operations makes and counts none. -/
theorem added_of_dropped {s : Shared ι} {t : Thread} {a : Action ι}
    (h : dropped hint s t a ≠ []) : uncounted a = 0 ∧ added hint s t a = 0 := by
  cases a with
  | user u =>
    cases u with
    | cancelOps | deregisterDescriptor | deregisterInternalDescriptor | postDeferredCompletions =>
      exact ⟨rfl, rfl⟩
    | _ => exact absurd rfl h
  | performIo => exact ⟨rfl, rfl⟩
  | _ => exact absurd rfl h

/-- The ways to break the balance do not make up for each other. -/
theorem Counted.not_balanced (h : Counted c) (hscope : CountsItsOwn l.2)
    (hok : ¬ KeepsCount hint c l) (hn : System.next hint c l = some c') : ¬ Balanced c' := by
  intro hb'
  have hstep := balance_next h hscope hn
  have hb := balanced_iff_total.mp h.balanced
  have hsame := balanced_iff_total.mp hb'
  by_cases hdrop : dropped hint c.shared (c.thread l.1) l.2 = []
  · rw [hdrop, List.length_nil] at hstep
    have hroom : carry c.shared.outstandingWork (added hint c.shared (c.thread l.1) l.2) = 0 := by
      omega
    exact hok ⟨by omega, hdrop, carry_eq_zero.mp hroom⟩
  · obtain ⟨huncounted, hadded⟩ := added_of_dropped hdrop
    rw [huncounted, hadded, carry_zero h.work_lt] at hstep
    have hpos := List.length_pos_of_ne_nil hdrop
    omega

theorem balanced_iff (hint : Int) (m : Uninitialised) (ls : List (ι × Action ι))
    (hls : ∀ l ∈ ls, CountsItsOwn l.2) :
    AllStates (System.next hint) (fun c => Balanced c ∧ NeverWraps hint c) (System.new m) ls ↔
      m.outstandingWork = 0 ∧ AllSteps (System.next hint) (KeepsCount hint) (System.new m) ls := by
  have hstart : Balanced (System.new m : System ι) ↔ m.outstandingWork = 0 := by
    simp [Balanced, System.new, Shared.new, Thread.privateWork, Thread.unfinished, Thread.tally,
      Thread.transit]
  have hbacked : ∀ i, ((System.new m : System ι).thread i).Backed := fun _ =>
    ⟨by simp [System.new], by simp [System.new]⟩
  have hrun (hm : m.outstandingWork = 0) :
      AllStates (System.next hint) (fun c => Balanced c ∧ NeverWraps hint c) (System.new m) ls ↔
        AllSteps (System.next hint) (KeepsCount hint) (System.new m) ls :=
    allStates_iff_allSteps (I := Counted) (fun _ h => ⟨h.balanced, h.neverWraps⟩)
      (fun c l c' h hl hok hn => h.next (hls l hl) hok hn)
      (fun c l c' h hl hok hn hc' => h.not_balanced (hls l hl) hok hn hc'.1)
      ⟨.new m, hbacked, by simp [System.new, Shared.new, hm], hstart.mpr hm⟩
  constructor
  · intro h
    have hm : m.outstandingWork = 0 := by
      cases ls with
      | nil => exact hstart.mp h.1
      | cons l ls => exact hstart.mp h.1.1
    exact ⟨hm, (hrun hm).mp h⟩
  · exact fun h => (hrun h.1).mpr h.2

/-- A thread starts a read, cancels it and runs its handler. -/
def runCancelled : List (Fin 3 × Action (Fin 3)) :=
  [(first, .user (.registerDescriptor 5 0)),
    (first, .user (.startOp (some 0) .readOp ⟨0, 0⟩ false true (fun _ => (.notDone, 11)) 0)),
    (first, .user (.cancelOps (some 0))), (first, .call), (first, .user .run), (first, .next),
    (first, .next), (first, .next), (first, .user (.handlerEnd false)), (first, .next),
    (first, .next)]

theorem balanced_runCancelled :
    AllStates (System.next 0) (fun c => Balanced c ∧ NeverWraps 0 c) (System.new {})
      runCancelled := by
  refine (balanced_iff 0 {} runCancelled ?_).mpr ⟨rfl, ?_⟩
  · simp [runCancelled, CountsItsOwn]
  · refine ⟨⟨rfl, rfl, ?_⟩, ⟨rfl, rfl, ?_⟩, ⟨rfl, rfl, ?_⟩, ⟨rfl, rfl, ?_⟩, ⟨rfl, rfl, ?_⟩,
      ⟨rfl, rfl, ?_⟩, ⟨rfl, rfl, ?_⟩, ⟨rfl, rfl, ?_⟩, ⟨rfl, rfl, ?_⟩, ⟨rfl, rfl, ?_⟩,
      ⟨rfl, rfl, ?_⟩, trivial⟩ <;> decide

/-- The first thread completes the operation of an internal descriptor while a caller
holds the only unit of work. -/
def completeInternal : List (Fin 3 × Action (Fin 3)) :=
  [(first, .user .onWorkStarted), (first, .user .initTask),
    (first, .user (.registerInternalDescriptor .readOp 5 ⟨0, 0⟩ 0)), (first, .user .run),
    (first, .next), (first, .next), (first, .epollWait [.descriptor 0 1]), (first, .next),
    (first, .next), (first, .next), (first, .next), (first, .next), (first, .next),
    (first, .performIo fun _ => (.done, 0)), (first, .user (.handlerEnd false)), (first, .next),
    (first, .next)]

/-- The unit that the caller gives back is gone, and the counter wraps. -/
theorem completeInternal_wraps : ¬ ∀ ls : List (Fin 3 × Action (Fin 3)),
    (∀ l ∈ ls, CountsItsOwn l.2) →
      AllStates (System.next 0) (fun c => Balanced c ∧ NeverWraps 0 c) (System.new {}) ls := by
  intro h
  have hrun := h completeInternal (by simp [completeInternal, CountsItsOwn])
  have hlast : NeverWraps 0 _ := (hrun.of_exec rfl).2
  exact hlast (second, .user .onWorkFinished) _ rfl trivial rfl

end System

end BoostAsio
