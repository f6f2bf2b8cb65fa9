import BoostAsio.SingleRunner
import BoostAsio.DescriptorCases

/-!
# Operations are not lost

Where the operations are, as an account: the operations made so far have been
handed to the scheduler, or a submitting function holds them, or they are
pending on a descriptor; the operations handed over are in `op_queue_`, in a
private queue, being executed, or executed. `Ledger` is what one piece of code
does to the account, for any weight of the operations: their number, or how
often one of them occurs.

The account is short of what `post_deferred_completions` drops inside a
`run()` with `one_thread_` (`dropped`). It is exact along a run if and only if
nothing is dropped (`conserved_iff`).
-/

namespace BoostAsio

open Runs OpQueue

-- ---------------------------------------------------------------------------
-- Weights
-- ---------------------------------------------------------------------------

def weigh (w : Nat → Nat) (ids : List Nat) : Nat := (ids.map w).sum

section Weigh

variable {w : Nat → Nat}

@[simp] theorem weigh_nil : weigh w [] = 0 := rfl
@[simp] theorem weigh_cons (id : Nat) (ids : List Nat) :
    weigh w (id :: ids) = w id + weigh w ids := by simp [weigh]
@[simp] theorem weigh_append (ids ids' : List Nat) :
    weigh w (ids ++ ids') = weigh w ids + weigh w ids' := by simp [weigh]

theorem weigh_one (ids : List Nat) : weigh (fun _ => 1) ids = ids.length := by
  induction ids with
  | nil => rfl
  | cons id ids ih => simp [ih, Nat.add_comm]

theorem weigh_count (id : Nat) (ids : List Nat) :
    weigh (fun x => if x = id then 1 else 0) ids = ids.count id := by
  induction ids with
  | nil => rfl
  | cons x ids ih => simp [ih, List.count_cons, Nat.add_comm]

/-- Lists with the same members, as often, weigh the same. -/
theorem weigh_eq_of_count {ids ids' : List Nat} (h : ∀ id, ids.count id = ids'.count id) :
    weigh w ids = weigh w ids' :=
  ((List.perm_iff_count.mpr h).map w).sum_eq

end Weigh

-- ---------------------------------------------------------------------------
-- What a thread has in hand
-- ---------------------------------------------------------------------------

/-- The operation that a `run()` executes: it is popped, and its handler has not
ended. -/
def Pc.executing : Pc → List Nat
  | .popped o => o.handler?.toList
  | .complete id => [id]
  | .lock | .loop | .wait | .runTask _ | .events _ | .taskCleanup | .taskCleanupLock
  | .performIo _ _ | .workCleanup _ | .workFinished _ | .workCleanupLock _ => []

/-- A quantity of each `run()` that a thread is in, summed. -/
def Thread.tally (g : Run → Nat) (t : Thread) : Nat :=
  t.top.elim 0 g + (t.stack.map fun p => g p.resume).sum

theorem Thread.tally_setTop {g : Run → Nat} {t : Thread} {f : Run} (ht : t.top = some f)
    (f' : Run) : (t.setTop f').tally g + g f = t.tally g + g f' := by
  simp [tally, setTop, ht]
  omega

theorem Thread.tally_leave {g : Run → Nat} {t : Thread} {f : Run} (ht : t.top = some f) :
    t.leave.tally g + g f = t.tally g := by
  cases hs : t.stack <;> (simp [tally, leave, ht, hs]; try omega)

/-- The weight of what is in the private queue of a `run()`, and of what it
executes. -/
def Run.load (w : Nat → Nat) (f : Run) : Nat :=
  weigh w (handlers f.info.privateOpQueue) + weigh w f.pc.executing

/-- The operations that a submitting function has yet to push. -/
def Thread.transit (t : Thread) : List Nat :=
  match t.call with
  | some (.push ops) => handlers ops
  | some .stop | some .notifyOne | some .transfer | none => []

theorem Thread.transit_of_wake {t : Thread} {p : Prop} [Decidable p]
    (h : t.call = if p then some .notifyOne else none) : t.transit = [] := by
  rw [transit, h]
  by_cases hp : p <;> simp [hp]

variable {ι : Type} [DecidableEq ι] {hint : Int} {i : ι} {s s' : Shared ι} {t t' : Thread}
  {w : Nat → Nat}

namespace Shared

def pendingIds (s : Shared ι) : List Nat := s.descriptors.flatMap DescriptorState.pendingIds

def pending (w : Nat → Nat) (s : Shared ι) : Nat :=
  (s.descriptors.map fun d => weigh w d.pendingIds).sum

end Shared

/-- What a piece of code does to the account: `hand` are the operations that it
holds before, and `hand'` after; `lost` is dropped. -/
structure Ledger (w : Nat → Nat) (hand : List Nat) (s : Shared ι) (t : Thread)
    (hand' : List Nat) (s' : Shared ι) (t' : Thread) (lost : List Nat) : Prop where
  places : weigh w (handlers s'.opQueue) + weigh w s'.executed + t'.tally (Run.load w) +
      weigh w lost + weigh w s.handed =
    weigh w (handlers s.opQueue) + weigh w s.executed + t.tally (Run.load w) + weigh w s'.handed
  created : weigh w s'.handed + weigh w t'.transit + s'.pending w + weigh w hand' +
      weigh w s.created =
    weigh w s.handed + weigh w t.transit + s.pending w + weigh w hand + weigh w s'.created
  /-- New operations have numbers of their own. -/
  nodup : s.created.Nodup → s'.created.Nodup

omit [DecidableEq ι] in
theorem Ledger.trans {h h' h'' lost lost' : List Nat} {s'' : Shared ι} {t'' : Thread}
    (a : Ledger w h s t h' s' t' lost) (b : Ledger w h' s' t' h'' s'' t'' lost') :
    Ledger w h s t h'' s'' t'' (lost ++ lost') := by
  refine ⟨?_, ?_, b.nodup ∘ a.nodup⟩
  · have := a.places
    have := b.places
    rw [weigh_append]
    omega
  · have := a.created
    have := b.created
    omega

omit [DecidableEq ι] in
theorem Ledger.hand {h h' lost : List Nat} (a : Ledger w h s t h' s' t' lost) (ids : List Nat) :
    Ledger w (h ++ ids) s t (h' ++ ids) s' t' lost := by
  refine ⟨a.places, ?_, a.nodup⟩
  have := a.created
  simp only [weigh_append]
  omega

section Pieces

omit [DecidableEq ι]

/-- Operations go from the queues of a descriptor to the hand, or back. -/
theorem setDescriptor_ledger {d : Nat} {x x' : DescriptorState} (hd : s.descriptors[d]? = some x)
    {hand hand' : List Nat}
    (h : weigh w x'.pendingIds + weigh w hand' = weigh w x.pendingIds + weigh w hand) :
    Ledger w hand s t hand' (s.setDescriptor d x') t [] := by
  have hp := Threads.sum_map_set (fun d => weigh w d.pendingIds) x' hd
  refine ⟨by simp [Shared.setDescriptor], ?_, id⟩
  simp only [Shared.pending, Shared.setDescriptor]
  omega

theorem register_ledger {x : DescriptorState} {hand hand' : List Nat}
    (h : weigh w x.pendingIds + weigh w hand' = weigh w hand) :
    Ledger w hand s t hand' { s with descriptors := s.descriptors ++ [x] } t [] := by
  refine ⟨by simp, ?_, id⟩
  simp [Shared.pending]
  omega

theorem Shared.nodup_fresh (hs : s.created.Nodup) {ids : List Nat} (h : s.fresh ids = true) :
    (s.created ++ ids).Nodup := by
  simp only [fresh, Bool.and_eq_true, decide_eq_true_eq, List.all_eq_true, Bool.not_eq_true',
    List.contains_eq_mem, decide_eq_false_iff_not] at h
  exact List.nodup_append.mpr ⟨hs, h.1, fun x hx y hy hxy => h.2 y hy (hxy ▸ hx)⟩

theorem created_ledger {ids : List Nat} (h : s.fresh ids = true) (t : Thread) :
    Ledger w [] s t ids { s with created := s.created ++ ids } t [] := by
  refine ⟨by simp, ?_, fun hs => Shared.nodup_fresh hs h⟩
  simp [Shared.pending]
  omega

theorem push_ledger (hc : t.call = none) (ids : List Nat) (hs : s'.toScheduler = s.toScheduler)
    (he : s'.executed = s.executed) (hh : s'.handed = s.handed) (hcr : s'.created = s.created)
    (hd : s'.descriptors = s.descriptors) :
    Ledger w ids s t [] s' { t with call := some (.push (ids.map .handler)) } [] := by
  refine ⟨by simp [hs, he, hh, Thread.tally], ?_, hcr ▸ id⟩
  simp [hh, hcr, Shared.pending, hd, Thread.transit, hc]
  omega

/-- A handler, or the completion of a descriptor state, puts operations into the
private queue. -/
theorem setTop_ledger {f f' : Run} (ht : t.top = some f) (ids lost : List Nat)
    (h : f'.load w + weigh w lost = f.load w + weigh w ids) :
    Ledger w ids s t [] { s with handed := s.handed ++ ids } (t.setTop f') lost := by
  have := Thread.tally_setTop (g := Run.load w) ht f'
  refine ⟨?_, ?_, id⟩
  · simp
    omega
  · simp [Shared.pending, Thread.transit, Thread.setTop]
    omega

-- ---------------------------------------------------------------------------
-- The functions that submit
-- ---------------------------------------------------------------------------

/-- What `post_deferred_completions` drops: with `one_thread_` inside `run()`,
all that it is given, and what it splices from the private queue. -/
def droppedBy (hint : Int) (ids : List Nat) (t : Thread) : List Nat :=
  match if oneThread hint then t.top else none with
  | some f => ids ++ handlers f.info.privateOpQueue
  | none => []

theorem droppedBy_setTop {ids : List Nat} {f : Run} (ht : t.top = some f) (pc : Pc) :
    droppedBy hint ids (t.setTop { f with pc }) = droppedBy hint ids t := by
  cases h1 : oneThread hint <;> simp [droppedBy, h1, ht, Thread.setTop]

theorem postImmediateCompletion_ledger (hc : t.call = none) (id : Nat) (cont : Bool) :
    Ledger w [id] s t [] (postImmediateCompletion hint id cont s t).1
      (postImmediateCompletion hint id cont s t).2 [] := by
  unfold postImmediateCompletion
  split
  · rename_i f hf
    refine setTop_ledger (top_of_guard hf) [id] [] ?_
    simp [Run.load]
    omega
  · exact push_ledger hc [id] rfl rfl rfl rfl rfl

theorem postDeferredCompletion_ledger (hc : t.call = none) (id : Nat) :
    Ledger w [id] s t [] (postDeferredCompletion hint id s t).1
      (postDeferredCompletion hint id s t).2 [] := by
  unfold postDeferredCompletion
  split
  · rename_i f hf
    refine setTop_ledger (top_of_guard hf) [id] [] ?_
    simp [Run.load]
    omega
  · exact push_ledger hc [id] rfl rfl rfl rfl rfl

theorem postDeferredCompletions_ledger (hc : t.call = none) (ids : List Nat) :
    Ledger w ids s t [] (postDeferredCompletions hint ids s t).2.1
      (postDeferredCompletions hint ids s t).2.2 (droppedBy hint ids t) := by
  unfold postDeferredCompletions droppedBy
  cases hg : if oneThread hint then t.top else none with
  | none => exact push_ledger hc ids rfl rfl rfl rfl rfl
  | some f =>
    refine setTop_ledger (top_of_guard hg) ids _ ?_
    simp [Run.load, OpQueue.splice]
    omega

theorem Ledger.same (hs : handlers s'.opQueue = handlers s.opQueue) (he : s'.executed = s.executed)
    (hh : s'.handed = s.handed) (hcr : s'.created = s.created)
    (hd : s'.descriptors = s.descriptors) (hp : t'.tally (Run.load w) = t.tally (Run.load w))
    (ht : t'.transit = t.transit) : Ledger w [] s t [] s' t' [] :=
  ⟨by simp [hs, he, hh, hp], by simp [hh, hcr, ht, Shared.pending, hd], hcr ▸ id⟩

theorem Thread.transit_none (hc : t.call = none) : t.transit = [] := by simp [transit, hc]

end Pieces

-- ---------------------------------------------------------------------------
-- Calls made by the code of a caller
-- ---------------------------------------------------------------------------

/-- The operations that a step gives to `post_deferred_completions`, if it calls
that function. -/
def deferred (s : Shared ι) (t : Thread) : Action ι → Option (List Nat)
  | .user (.postDeferredCompletions ids) => some ids
  | .user (.cancelOps (some d)) =>
    s.descriptors[d]?.map fun x => x.cancelOps.2.map ReactorOp.id
  | .user (.deregisterDescriptor (some d) closing) =>
    s.descriptors[d]?.bind fun x => (x.deregister closing).2.map (·.map ReactorOp.id)
  | .user (.deregisterInternalDescriptor (some d)) =>
    s.descriptors[d]?.bind fun x => x.deregisterInternal.bind fun r =>
      r.2.map (·.map ReactorOp.id)
  | .performIo perform =>
    match t.top with
    | some ⟨_, _, .performIo d events, _⟩ => s.descriptors[d]?.bind fun x =>
      match (x.performIo events perform).ops with
      | [] | [_] => none
      | _ :: rest => some (rest.map ReactorOp.id)
    | _ => none
  | _ => none

def dropped (hint : Int) (s : Shared ι) (t : Thread) (a : Action ι) : List Nat :=
  match deferred s t a with
  | some ids => droppedBy hint ids t
  | none => []

omit [DecidableEq ι] in
/-- The queues of a descriptor are emptied into `post_deferred_completions`. -/
theorem drain_ledger {d : Nat} {x x' : DescriptorState} (hd : s.descriptors[d]? = some x)
    (hx : x'.pendingIds = []) {ids : List Nat} (hids : ids = x.pendingIds) (hc : t.call = none)
    (h : (postDeferredCompletions hint ids (s.setDescriptor d x') t).2 = (s', t')) :
    Ledger w [] s t [] s' t' (droppedBy hint ids t) := by
  have hset : Ledger w [] s t ids (s.setDescriptor d x') t [] :=
    setDescriptor_ledger hd (by simp [hx, hids])
  have hpost : Ledger w ids (s.setDescriptor d x') t [] (s', t').1 (s', t').2
      (droppedBy hint ids t) := h ▸ postDeferredCompletions_ledger hc ids
  exact hset.trans hpost

omit [DecidableEq ι] in
theorem startOp_ledger {d : Nat} {x : DescriptorState} (hd : s.descriptors[d]? = some x)
    (hc : t.call = none) {ty : OpType} {op : ReactorOp} {cont spec : Bool} {f : PerformFunc}
    {ctl : ErrorCode}
    (h : (match (x.startOp ty op spec f ctl).exit with
      | .posted op' => postImmediateCompletion hint op'.id cont
          (s.setDescriptor d (x.startOp ty op spec f ctl).data) t
      | .queued =>
        ({ s.setDescriptor d (x.startOp ty op spec f ctl).data with
          outstandingWork := increment s.outstandingWork 1 }, t)) = (s', t')) :
    Ledger w [op.id] s t [] s' t' [] := by
  have hp := x.startOp_pending ty op spec f ctl
  split at h
  · rename_i op' he
    rw [he] at hp
    have hset : Ledger w [op.id] s t [op'.id]
        (s.setDescriptor d (x.startOp ty op spec f ctl).data) t [] :=
      setDescriptor_ledger hd (by rw [hp.1, hp.2])
    have hpost : Ledger w [op'.id] (s.setDescriptor d (x.startOp ty op spec f ctl).data) t []
        (s', t').1 (s', t').2 [] := h ▸ postImmediateCompletion_ledger hc op'.id cont
    exact hset.trans hpost
  · rename_i he
    rw [he] at hp
    cases h
    have hset :
        Ledger w [op.id] s t [] (s.setDescriptor d (x.startOp ty op spec f ctl).data) t [] :=
      setDescriptor_ledger hd (by rw [weigh_eq_of_count hp]; simp; omega)
    exact ⟨hset.places, hset.created, hset.nodup⟩

omit [DecidableEq ι] in
theorem userStep_ledger (hu : t.inUserCode = true) {u : UserAction}
    (h : userStep hint s t u = some (s', t')) :
    Ledger w [] s t [] s' t' (dropped hint s t (.user u)) := by
  have hc : t.call = none := (Thread.inUserCode_works hu).1
  have posted {r : Shared ι × Thread} {id : Nat} (hfresh : s.fresh [id] = true) (he : r = (s', t'))
      (hr : Ledger w [id] { s with created := s.created ++ [id] } t [] r.1 r.2 []) :
      Ledger w [] s t [] s' t' [] := by
    subst he
    exact (created_ledger hfresh t).trans hr
  cases userStep_piece hu h with
  | onWorkStarted | restart => exact .same rfl rfl rfl rfl rfl rfl rfl
  | onWorkFinished =>
    refine .same rfl rfl rfl rfl rfl ?_ ?_
    · split <;> rfl
    · split <;> simp [Thread.transit, hc]
  | @doDispatch id hfresh =>
    exact (created_ledger hfresh t).trans (push_ledger hc [id] rfl rfl rfl rfl rfl)
  | postImmediate hfresh h => exact posted hfresh h (postImmediateCompletion_ledger hc _ _)
  | postDeferred hfresh h => exact posted hfresh h (postDeferredCompletion_ledger hc _)
  | @postAllDeferred ids _ _ hfresh h =>
    have hpost : Ledger w ids { s with created := s.created ++ ids } t [] (s', t').1 (s', t').2
        (droppedBy hint ids t) := h ▸ postDeferredCompletions_ledger hc ids
    exact (created_ledger hfresh t).trans hpost
  | stop | runWithoutWork =>
    exact .same rfl rfl rfl rfl rfl rfl (by simp [Thread.transit, hc])
  | initTask =>
    rcases s.toScheduler.initTask_cases with he | ⟨-, he, he'⟩
    · exact .same (by rw [he]) rfl rfl rfl rfl rfl (by simp [Thread.transit, he, hc])
    · refine .same (by rw [he]; simp) rfl rfl rfl rfl rfl ?_
      rw [Thread.transit_of_wake he', Thread.transit_none hc]
  | run ht =>
    exact .same rfl rfl rfl rfl rfl (by simp [Thread.tally, ht, Run.load, Pc.executing]) rfl
  | nest ht hpc =>
    refine .same rfl rfl rfl rfl rfl ?_ rfl
    simp [Thread.tally, ht, hpc, Run.load, Pc.executing, Suspended.resume]
  | registerDescriptor =>
    refine register_ledger ?_
    simp [DescriptorState.register_pending]
  | registerInternal hfresh =>
    refine (created_ledger hfresh t).trans (register_ledger ?_)
    simp [DescriptorState.registerInternal_pending]
  | startOpNull hfresh h => exact posted hfresh h (postImmediateCompletion_ledger hc _ _)
  | @startOp d x _ op _ _ _ _ _ _ hfresh hd h =>
    have hd : { s with created := s.created ++ [op.id] }.descriptors[d]? = some x := hd
    have hstart : Ledger w [op.id] { s with created := s.created ++ [op.id] } t [] s' t' [] :=
      startOp_ledger hd hc h
    exact (created_ledger hfresh t).trans hstart
  | cancelOpsNull | deregisterNull | deregisterInternalNull =>
    exact .same rfl rfl rfl rfl rfl rfl rfl
  | @cancelOps _ x _ _ hd h =>
    simp only [dropped, deferred, hd, Option.map_some]
    exact drain_ledger hd x.cancelOps_pending.1 x.cancelOps_pending.2 hc h
  | deregister hd he h =>
    simp only [dropped, deferred, hd, Option.bind_some, he, Option.map_some]
    obtain ⟨hx, hids⟩ := DescriptorState.deregister_pending he
    exact drain_ledger hd hx hids hc h
  | deregisterShut hd he =>
    simp only [dropped, deferred, hd, Option.bind_some, he, Option.map_none]
    exact .same rfl rfl rfl rfl rfl rfl rfl
  | deregisterInternal hd hr h =>
    simp only [dropped, deferred, hd, Option.bind_some, hr, Option.map_some]
    obtain ⟨hx, hempty, rfl⟩ := DescriptorState.deregisterInternal_pending hr
    exact drain_ledger hd (hx.trans hempty) hempty.symm hc h
  | deregisterInternalShut hd hr =>
    simp only [dropped, deferred, hd, Option.bind_some, hr, Option.map_none]
    exact .same rfl rfl rfl rfl rfl rfl rfl
  | deregisterInternalLoops hd hr =>
    simp only [dropped, deferred, hd, Option.bind_some, hr, Option.bind_none]
    exact .same rfl rfl rfl rfl rfl rfl (by simp [Thread.transit, hc])
  | @handlerEnd f id thrown ht hpc =>
    change Ledger w [] s t [] _ _ []
    have hload := Thread.tally_setTop (g := Run.load w) ht { f with pc := .workCleanup thrown }
    refine ⟨?_, by simp [Shared.pending, Thread.transit, Thread.setTop], fun hs => hs⟩
    simp [Run.load, Pc.executing, hpc] at hload ⊢
    omega

-- ---------------------------------------------------------------------------
-- run and do_run_one
-- ---------------------------------------------------------------------------

section RunStep

variable {f : Run} (hc : t.call = none) (ht : t.top = some f)
include hc ht

omit [DecidableEq ι]

/-- A `run()` goes on; what it has and what is in `op_queue_` may change places. -/
theorem Ledger.move {f' : Run} {call : Option Call} (hcall : Thread.transit { t with call } = [])
    (hq : weigh w (handlers s'.opQueue) + f'.load w = weigh w (handlers s.opQueue) + f.load w)
    (he : s'.executed = s.executed) (hh : s'.handed = s.handed) (hcr : s'.created = s.created)
    (hd : s'.descriptors.map DescriptorState.pendingIds =
      s.descriptors.map DescriptorState.pendingIds) :
    Ledger w [] s t [] s' { t with top := some f', call } [] := by
  have hload := Thread.tally_setTop (g := Run.load w) ht f'
  have htr : Thread.transit { t with top := some f', call } = [] := hcall
  have hpend : s'.pending w = s.pending w := by
    have := congrArg (fun l => (l.map (weigh w)).sum) hd
    simpa [Shared.pending, Function.comp_def] using this
  refine ⟨?_, by rw [htr, Thread.transit_none hc, hpend, hh, hcr], hcr ▸ id⟩
  rw [he, hh, weigh_nil]
  have heq : Thread.tally (Run.load w) { t with top := some f', call } =
    (t.setTop f').tally (Run.load w) := rfl
  omega

theorem Ledger.leave (hq : weigh w (handlers s'.opQueue) = weigh w (handlers s.opQueue) + f.load w)
    (he : s'.executed = s.executed) (hh : s'.handed = s.handed) (hcr : s'.created = s.created)
    (hd : s'.descriptors = s.descriptors) : Ledger w [] s t [] s' t.leave [] := by
  have hload := Thread.tally_leave (g := Run.load w) ht
  have htr : t.leave.transit = [] := Thread.transit_none (by
    rw [Thread.leave]
    split <;> exact hc)
  have hpend : s'.pending w = s.pending w := by simp [Shared.pending, hd]
  refine ⟨?_, by rw [htr, Thread.transit_none hc, hpend, hh, hcr], hcr ▸ id⟩
  rw [he, hh, weigh_nil]
  omega

theorem misuse_ledger (hl : t.LockState) (hq : t.QueueState)
    (ho : f.owns = decide (f.pc ≠ .loop)) :
    Ledger w [] s t [] (misuse s f t).1 (misuse s f t).2 [] := by
  have hpc := (hl.misuse_at_lock ht ho).1
  have hempty : f.info.privateOpQueue = [] := by simpa [hpc] using hq.top f ht
  exact .leave hc ht (by simp [misuse, Run.load, hempty, hpc, Pc.executing]) rfl rfl rfl rfl

end RunStep

variable {f : Run} (hc : t.call = none) (ht : t.top = some f)
include hc ht

omit [DecidableEq ι] in
theorem endOfWork_ledger {s₁ : Shared ι} {f₁ : Run} (hempty : f₁.info.privateOpQueue = [])
    (hq : weigh w (handlers s₁.opQueue) = weigh w (handlers s.opQueue) + f.load w)
    (he : s₁.executed = s.executed) (hh : s₁.handed = s.handed) (hcr : s₁.created = s.created)
    (hd : s₁.descriptors = s.descriptors) (thrown : Bool) :
    Ledger w [] s t [] (endOfWork s₁ f₁ t thrown).1 (endOfWork s₁ f₁ t thrown).2 [] := by
  cases thrown with
  | true => exact .leave hc ht hq he hh hcr hd
  | false =>
    refine .move hc ht (Thread.transit_none hc) ?_ he hh hcr (by rw [endOfWork]; simp [hd])
    simp [endOfWork, Run.load, hempty, Pc.executing, hq]

omit [DecidableEq ι] hc ht in
theorem setDescriptor_pendingIds {d : Nat} {x x' : DescriptorState}
    (hd : s.descriptors[d]? = some x) (hx : x'.pendingIds = x.pendingIds) :
    (s.setDescriptor d x').descriptors.map DescriptorState.pendingIds =
      s.descriptors.map DescriptorState.pendingIds := by
  refine List.ext_getElem? fun n => ?_
  by_cases hn : d = n
  · subst hn
    obtain ⟨hlt, hget⟩ := List.getElem?_eq_some_iff.mp hd
    simp [Shared.setDescriptor, hlt, hget, hx]
  · simp [Shared.setDescriptor, List.getElem?_set_ne hn]

omit [DecidableEq ι] in
theorem storeEvent_ledger {pc : Pc} (ev : EpollEvent) (hpc : pc.executing = f.pc.executing) :
    Ledger w [] s t [] (storeEvent s f ev).1
      (t.setTop { f with info := (storeEvent s f ev).2, pc }) [] := by
  cases ev with
  | interrupter =>
    exact .move hc ht (Thread.transit_none hc) (by simp [storeEvent, Run.load, hpc]) rfl rfl rfl rfl
  | descriptor d events =>
    simp only [storeEvent]
    split
    · exact .move hc ht (Thread.transit_none hc) (by simp [Run.load, hpc]) rfl rfl rfl rfl
    · rename_i x hd
      split
      · exact .move hc ht (Thread.transit_none hc) (by simp [Run.load, hpc, Shared.setDescriptor])
          rfl rfl rfl (setDescriptor_pendingIds hd rfl)
      · exact .move hc ht (Thread.transit_none hc) (by simp [Run.load, hpc, Shared.setDescriptor])
          rfl rfl rfl (setDescriptor_pendingIds hd rfl)

theorem runStep_ledger (hl : t.LockState) (hq : t.QueueState)
    (h : runStep hint i s f t = some (s', t')) : Ledger w [] s t [] s' t' [] := by
  have atLoop (hpc : f.pc = .loop) : f.info.privateOpQueue = [] := by
    simpa [hpc] using hq.top f ht
  cases runStep_piece h with
  | misuse ho => exact misuse_ledger hc ht hl hq ho
  | returns hpc =>
    exact .leave hc ht (by simp [Run.load, atLoop hpc, hpc, Pc.executing]) rfl rfl rfl rfl
  | wait hpc =>
    refine .move hc ht (Thread.transit_none hc) ?_ rfl rfl rfl rfl
    simp [Run.load, atLoop hpc, hpc, Pc.executing, Scheduler.clearAndWait, Scheduler.unlock]
  | @pop o rest hpc _ _ hqueue =>
    refine .move hc ht (Thread.transit_of_wake (Scheduler.popFront_snd _ _ _ _)) ?_ rfl rfl rfl rfl
    rw [Scheduler.popFront_fst, hqueue]
    cases o <;> simp [Run.load, atLoop hpc, hpc, Pc.executing, Nat.add_comm]
  | store hpc => exact storeEvent_ledger hc ht _ (by rw [hpc]; rfl)
  | lock hpc | batchEnd hpc | taskMerge hpc | complete hpc | performIo hpc | taskCompleted hpc
  | workMerge hpc =>
    exact .move hc ht (Thread.transit_none hc) (by simp [mergeWork, Run.load, hpc, Pc.executing])
      rfl rfl rfl rfl
  | taskCleanup hpc =>
    refine .move hc ht (Thread.transit_none hc) ?_ rfl rfl rfl rfl
    simp [Run.load, hpc, Pc.executing, Scheduler.taskCleanup]
  | workFinished hpc ht' =>
    subst ht'
    split
    · exact .move hc ht rfl (by simp [Run.load, hpc, Pc.executing]) rfl rfl rfl rfl
    · exact .move hc ht (Thread.transit_none hc) (by simp [Run.load, hpc, Pc.executing])
        rfl rfl rfl rfl
  | finished hpc he =>
    exact endOfWork_ledger hc ht he (by simp [Run.load, he, hpc, Pc.executing]) rfl rfl rfl rfl _
  | spliced hpc _ _ _ hs₁ hf₁ =>
    have hload : f.load w = weigh w (handlers f.info.privateOpQueue) := by
      simp [Run.load, hpc, Pc.executing]
    exact endOfWork_ledger hc ht (by rw [hf₁]) (by simp [hs₁, Scheduler.workCleanup, hload])
      (by rw [hs₁]) (by rw [hs₁]) (by rw [hs₁]) (by rw [hs₁]) _

omit [DecidableEq ι] hc in
theorem complete_ledger (hf : f.pc.executing = []) (first : Nat) (rest : List Nat) :
    Ledger w (first :: rest) s t rest { s with handed := s.handed ++ [first] }
      (t.setTop { f with pc := .complete first }) [] := by
  have hexec : (Pc.complete first).executing = [first] := rfl
  refine (setTop_ledger ht [first] [] ?_).hand rest
  simp [Run.load, hexec, hf]

omit [DecidableEq ι] in
theorem postRest_ledger (first : Nat) (ids : List Nat) {r : Shared ι × Thread}
    (h : (postDeferredCompletions hint ids s (t.setTop { f with pc := .complete first })).2 = r) :
    Ledger w ids s (t.setTop { f with pc := .complete first }) [] r.1 r.2
      (droppedBy hint ids t) := by
  have hc' : (t.setTop { f with pc := .complete first }).call = none := hc
  rw [← droppedBy_setTop ht (.complete first)]
  exact h ▸ postDeferredCompletions_ledger hc' ids

omit [DecidableEq ι] in
theorem performIoStep_ledger {perform : PerformFunc}
    (h : performIoStep hint s f t perform = some (s', t')) :
    Ledger w [] s t [] s' t' (dropped hint s t (.performIo perform)) := by
  obtain ⟨info, owns, pc, n⟩ := f
  cases pc with
  | performIo d events =>
    obtain ⟨x, hlock, h⟩ := Option.map_eq_some_iff.mp h
    have hd := (Shared.lockDescriptor_eq_some.mp hlock).2
    have hround := x.performIo_round events perform
    have hw : weigh w (x.performIo events perform).data.pendingIds +
        weigh w ((x.performIo events perform).ops.map ReactorOp.id) = weigh w x.pendingIds := by
      rw [← weigh_append]
      exact weigh_eq_of_count fun a => by rw [List.count_append, hround.count a]
    have hset : Ledger w [] s t ((x.performIo events perform).ops.map ReactorOp.id)
        ({ s with due := Function.update s.due d (s.due d &&& ~~~events) }.setDescriptor d
          (x.performIo events perform).data) t [] := by
      have hset : Ledger w [] s t ((x.performIo events perform).ops.map ReactorOp.id)
        (s.setDescriptor d (x.performIo events perform).data) t [] := setDescriptor_ledger hd hw
      exact ⟨hset.places, hset.created, hset.nodup⟩
    simp only [dropped, deferred, ht, hd, Option.bind_some]
    cases hops : (x.performIo events perform).ops with
    | nil =>
      simp only [hops] at h hset
      cases h
      refine hset.trans (.move hc ht (Thread.transit_none hc) ?_ rfl rfl rfl rfl)
      simp [Run.load, Pc.executing]
    | cons first rest =>
      simp only [hops] at h hset
      cases rest with
      | nil =>
        cases h
        exact hset.trans (complete_ledger ht rfl first.id [])
      | cons second rest =>
        exact (hset.trans (complete_ledger ht rfl first.id _)).trans
          (postRest_ledger hc ht first.id _ h)
  | _ => cases h

omit [DecidableEq ι] in
theorem epollWaitStep_ledger {evs : List EpollEvent}
    (h : epollWaitStep s f t evs = some (s', t')) : Ledger w [] s t [] s' t' [] := by
  simp only [epollWaitStep] at h
  split at h
  · rename_i block hpc
    simp only [Option.ite_none_right_eq_some] at h
    cases h.2
    exact .move hc ht (Thread.transit_none hc) (by simp [Run.load, hpc, Pc.executing])
      rfl rfl rfl rfl
  · cases h

omit hc ht

omit [DecidableEq ι] in
theorem push_call_ledger {ops : OpQueue Operation} (hcall : t.call = some (.push ops)) :
    Ledger w [] s t [] { s with
        toScheduler := (s.toScheduler.push ops).1
        handed := s.handed ++ handlers ops }
      { t with call := (s.toScheduler.push ops).2 } [] := by
  have htr : t.transit = handlers ops := by simp [Thread.transit, hcall]
  refine ⟨?_, ?_, id⟩
  · rw [Scheduler.push_fst]
    simp only [handlers_append, weigh_append, weigh_nil]
    have htally : Thread.tally (Run.load w) { t with call := (s.toScheduler.push ops).2 } =
      t.tally (Run.load w) := rfl
    omega
  · rw [Thread.transit_of_wake (Scheduler.push_snd _ _), htr]
    simp [Shared.pending]

theorem step_ledger (hl : t.LockState) (hq : t.QueueState) {a : Action ι}
    (h : step hint i a s t = some (s', t')) : Ledger w [] s t [] s' t' (dropped hint s t a) := by
  cases step_piece h with
  | user hu h => exact userStep_ledger hu h
  | push hcall => exact push_call_ledger hcall
  | stop hcall =>
    refine .same ?_ rfl rfl rfl rfl rfl (by simp [Thread.transit, hcall])
    rw [Scheduler.stopAllThreads_eq]
  | notify hcall => exact .same rfl rfl rfl rfl rfl rfl (by simp [Thread.transit, hcall])
  | transfer => exact .same rfl rfl rfl rfl rfl rfl rfl
  | run hc ht h => exact runStep_ledger hc ht hl hq h
  | wake hc ht hpc =>
    exact .move hc ht (Thread.transit_none hc) (by simp [Run.load, hpc, Pc.executing])
      rfl rfl rfl rfl
  | waitAgain => exact .same rfl rfl rfl rfl rfl rfl rfl
  | epollWait hc ht h => exact epollWaitStep_ledger hc ht h
  | performIo hc ht h => exact performIoStep_ledger hc ht h

-- ---------------------------------------------------------------------------
-- Every run
-- ---------------------------------------------------------------------------

/-- How often an operation is in a private queue of the thread, or executed by
it. -/
def Thread.has (id : Nat) (t : Thread) : Nat :=
  t.tally fun f => (handlers f.info.privateOpQueue).count id + f.pc.executing.count id

theorem Thread.load_eq_has (id : Nat) (t : Thread) :
    t.tally (Run.load fun x => if x = id then 1 else 0) = t.has id := by
  have hload : (Run.load fun x => if x = id then 1 else 0) =
      fun f => (handlers f.info.privateOpQueue).count id + f.pc.executing.count id := by
    funext f
    simp only [Run.load, weigh_count]
  rw [hload, has]

namespace System

variable {c c' : System ι} {l : ι × Action ι} {m : Uninitialised} [Fintype ι]

/-- The weight of what is in a queue, executed, or done. -/
def places (w : Nat → Nat) : System ι → Nat :=
  Threads.total (fun s => weigh w (handlers s.opQueue) + weigh w s.executed)
    (Thread.tally (Run.load w))

/-- The weight of what was handed over, is about to be, or is pending. -/
def known (w : Nat → Nat) : System ι → Nat :=
  Threads.total (fun s => weigh w s.handed + s.pending w) fun t => weigh w t.transit

theorem places_next (hl : c.Locks) (hq : c.Queues) (hn : System.next hint c l = some c') :
    c'.places w + weigh w (dropped hint c.shared (c.thread l.1) l.2) + weigh w c.shared.handed =
      c.places w + weigh w c'.shared.handed := by
  have h := Threads.total_next (m := fun s => weigh w (handlers s.opQueue) + weigh w s.executed)
    (f := Thread.tally (Run.load w)) (n := fun s => weigh w s.handed) (g := fun _ => 0)
    (x := weigh w (dropped hint c.shared (c.thread l.1) l.2)) (y := 0) hn fun s t hs => by
      have := (step_ledger (w := w) (hl l.1).state (hq l.1) hs).places
      omega
  simp only [places, Threads.total, Finset.sum_const_zero] at h ⊢
  omega

/-- Every operation made is known, whatever is dropped. -/
theorem known_next (hl : c.Locks) (hq : c.Queues) (hn : System.next hint c l = some c') :
    c'.known w + weigh w c.shared.created = c.known w + weigh w c'.shared.created := by
  have h := Threads.total_next (m := fun s => weigh w s.handed + s.pending w)
    (f := fun t => weigh w t.transit) (n := fun s => weigh w s.created) (g := fun _ => 0)
    (x := 0) (y := 0) hn fun s t hs => by
      have := (step_ledger (w := w) (hl l.1).state (hq l.1) hs).created
      simp only [weigh_nil] at this
      omega
  simp only [known, Threads.total, Finset.sum_const_zero] at h ⊢
  omega

structure Account (c : System ι) : Prop where
  locks : c.Locks
  queues : c.Queues
  nodup : c.shared.created.Nodup
  known : ∀ w, c.known w = weigh w c.shared.created

omit [DecidableEq ι] in
theorem Account.new (m : Uninitialised) : Account (System.new m : System ι) where
  locks := locks_new m
  queues := queues_new m
  nodup := by simp [System.new, Shared.new]
  known w := by
    simp [System.known, Threads.total, System.new, Shared.new, Shared.pending, Thread.transit]

theorem Account.next (h : Account c) (hn : System.next hint c l = some c') : Account c' where
  locks := locks_next hn h.locks
  queues := queues_next hn h.queues
  nodup := by
    obtain ⟨s, t, hs, rfl⟩ := Threads.next_eq_some.mp hn
    exact (step_ledger (w := fun _ => 0) (h.locks l.1).state (h.queues l.1) hs).nodup h.nodup
  known w := by
    have := known_next (w := w) h.locks h.queues hn
    rw [h.known w] at this
    omega

omit [DecidableEq ι] in
/-- What is pending, handed over or about to be handed over was made, once. -/
theorem Account.count_known (h : Account c) (id : Nat) :
    c.shared.handed.count id + c.shared.pendingIds.count id +
      ∑ i, (c.thread i).transit.count id = c.shared.created.count id := by
  have hk := h.known fun x => if x = id then 1 else 0
  simpa only [System.known, Threads.total, weigh_count, Shared.pending, Shared.pendingIds,
    List.count_flatMap, Function.comp_def] using hk

omit [DecidableEq ι] in
/-- No operation is handed over twice. -/
theorem Account.handed_le (h : Account c) (id : Nat) : c.shared.handed.count id ≤ 1 := by
  have hk := h.count_known id
  have := List.nodup_iff_count.mp h.nodup id
  omega

/-- Every operation handed over is in one place, once. -/
def Conserved (c : System ι) : Prop :=
  ∀ id, (handlers c.shared.opQueue).count id + ∑ i, (c.thread i).has id +
    c.shared.executed.count id = if id ∈ c.shared.handed then 1 else 0

omit [DecidableEq ι] in
theorem conserved_iff_places (h : ∀ id, c.shared.handed.count id ≤ 1) : Conserved c ↔
    ∀ id, c.places (fun x => if x = id then 1 else 0) =
      weigh (fun x => if x = id then 1 else 0) c.shared.handed := by
  refine forall_congr' fun id => ?_
  have hc : (if id ∈ c.shared.handed then 1 else 0) = c.shared.handed.count id := by
    have := h id
    split
    · rename_i hm
      have := List.count_pos_iff.mpr hm
      omega
    · rename_i hm
      exact (List.count_eq_zero.mpr hm).symm
  rw [hc, places, Threads.total]
  simp only [weigh_count, Thread.load_eq_has]
  omega

/-- The step drops nothing in `post_deferred_completions`. -/
def NothingDropped (hint : Int) (c : System ι) (l : ι × Action ι) : Prop :=
  dropped hint c.shared (c.thread l.1) l.2 = []

omit [Fintype ι] in
/-- `post_deferred_completions(ops)` empties `ops` to the end of a queue: of the
private queue, or of `op_queue_` in the critical section that is left to do. -/
def MovesToEnd (hint : Int) (ids : List Nat) (s : Shared ι) (t : Thread) : Prop :=
  (postDeferredCompletions hint ids s t).1 = [] ∧
    (postDeferredCompletions hint ids s t).2.1.opQueue = s.opQueue ∧
    ((∃ f, t.top = some f ∧ (postDeferredCompletions hint ids s t).2.2 = t.setTop { f with
        info.privateOpQueue := f.info.privateOpQueue ++ ids.map .handler }) ∨
      (postDeferredCompletions hint ids s t).2.2 =
          { t with call := some (.push (ids.map .handler)) } ∧
        ∀ sch : Scheduler ι, (sch.push (ids.map .handler)).1.opQueue =
          sch.opQueue ++ ids.map .handler)

/-- The step does so with what it gives to `post_deferred_completions`. -/
def DefersToEnd (hint : Int) (c : System ι) (l : ι × Action ι) : Prop :=
  ∀ ids, deferred c.shared (c.thread l.1) l.2 = some ids →
    MovesToEnd hint ids c.shared (c.thread l.1)

omit [Fintype ι] [DecidableEq ι] in
theorem movesToEnd {ids : List Nat} {s : Shared ι} {t : Thread} (hd : droppedBy hint ids t = [])
    (hq : ∀ f, t.top = some f → HandlersOnly f.info.privateOpQueue) : MovesToEnd hint ids s t := by
  unfold MovesToEnd postDeferredCompletions
  cases hg : if oneThread hint then t.top else none with
  | none => exact ⟨rfl, rfl, .inr ⟨rfl, fun sch => by rw [Scheduler.push_fst]⟩⟩
  | some f =>
    have ht : t.top = some f := top_of_guard hg
    simp only [droppedBy, hg, List.append_eq_nil_iff] at hd
    obtain ⟨rfl, hh⟩ := hd
    have hempty : f.info.privateOpQueue = [] := (hq f ht).eq_nil hh
    exact ⟨by simp [OpQueue.splice, hempty], rfl, .inl ⟨f, ht, by simp [OpQueue.splice, hempty]⟩⟩

omit [Fintype ι] in
/-- `post_deferred_completions` is called outside `run()` or from a piece of
work. -/
theorem deferred_works {s s' : Shared ι} {t t' : Thread} {a : Action ι} {ids : List Nat}
    (h : step hint i a s t = some (s', t')) (hd : deferred s t a = some ids) : Works t := by
  cases a with
  | user u =>
    simp only [step, Option.ite_none_right_eq_some] at h
    exact (Thread.inUserCode_works h.1).2
  | performIo perform =>
    simp only [deferred] at hd
    split at hd
    · rename_i info owns d events n ht
      intro f hf
      rw [ht] at hf
      cases hf
      rfl
    · cases hd
  | _ => cases hd

theorem Conserved.next_iff (h : Account c) (hc : Conserved c)
    (hn : System.next hint c l = some c') : Conserved c' ↔ NothingDropped hint c l := by
  rw [conserved_iff_places h.handed_le] at hc
  rw [conserved_iff_places (h.next hn).handed_le, NothingDropped]
  constructor
  · intro hc'
    refine List.eq_nil_iff_forall_not_mem.mpr fun id hid => ?_
    have hp := places_next (w := fun x => if x = id then 1 else 0) h.locks h.queues hn
    rw [hc id, hc' id, weigh_count id (dropped _ _ _ _)] at hp
    have := List.count_pos_iff.mpr hid
    omega
  · intro hd id
    have hp := places_next (w := fun x => if x = id then 1 else 0) h.locks h.queues hn
    rw [hc id, hd, weigh_nil] at hp
    omega

theorem conserved_iff (hint : Int) (m : Uninitialised) (ls : List (ι × Action ι)) :
    AllStates (System.next hint) Conserved (System.new m) ls ∧
        AllSteps (System.next hint) (DefersToEnd hint) (System.new m) ls ↔
      AllSteps (System.next hint) (NothingDropped hint) (System.new m) ls := by
  have hstart : Conserved (System.new m : System ι) := fun id => by
    simp [System.new, Shared.new, Thread.has, Thread.tally]
  have hrun : AllStates (System.next hint) Conserved (System.new m) ls ↔
      AllSteps (System.next hint) (NothingDropped hint) (System.new m) ls := by
    refine allStates_iff_allSteps (I := fun c => Account c ∧ Conserved c) (fun _ h => h.2)
      (fun c l c' h _ hok hn => ⟨h.1.next hn, (h.2.next_iff h.1 hn).mpr hok⟩)
      (fun c l c' h _ hok hn hc' => hok ((h.2.next_iff h.1 hn).mp hc')) ⟨.new m, hstart⟩
  refine ⟨fun h => hrun.mp h.1, fun h => ⟨hrun.mpr h, ?_⟩⟩
  refine AllSteps.mono (I := fun c => Account c) ?_ (fun _ _ _ h _ hn => h.next hn) (.new m) h
  intro c l c' h hd hn ids hids
  obtain ⟨s, t, hs, -⟩ := Threads.next_eq_some.mp hn
  refine movesToEnd (by simpa [NothingDropped, dropped, hids] using hd) fun f hf => ?_
  exact (h.queues l.1).working hf (deferred_works hs hids f hf)

/-- A handler of a scheduler with `concurrency_hint` 1 gives one operation to
`post_deferred_completions`. -/
def deferFromHandler : List (Fin 3 × Action (Fin 3)) :=
  [(first, .user (.doDispatch 0)), (first, .call), (first, .user .run), (first, .next),
    (first, .next), (first, .next), (first, .user (.postDeferredCompletions [1]))]

theorem deferFromHandler_drops :
    ¬ AllStates (System.next 1) Conserved (System.new {}) deferFromHandler := by
  intro h
  have hlast : Conserved _ := h.of_exec rfl
  exact absurd (hlast 1) (by decide)

/-- The account, short of what was dropped. -/
structure Covered (c : System ι) : Prop extends Account c where
  places : ∀ w, c.places w ≤ weigh w c.shared.handed

omit [DecidableEq ι] in
theorem Covered.new (m : Uninitialised) : Covered (System.new m : System ι) where
  toAccount := .new m
  places w := by simp [System.places, Threads.total, System.new, Shared.new, Thread.tally]

theorem Covered.next (h : Covered c) (hn : System.next hint c l = some c') : Covered c' where
  toAccount := h.toAccount.next hn
  places w := by
    have hnext := places_next (w := w) h.locks h.queues hn
    have := h.places w
    omega

theorem Reachable.covered (h : Reachable hint m c) : Covered c :=
  Reach.invariant h (.new m) fun _ _ _ _ hi _ hn => hi.next hn

omit [DecidableEq ι] in
theorem Covered.le_handed (h : Covered c) (id : Nat) :
    (handlers c.shared.opQueue).count id + ∑ i, (c.thread i).has id +
      c.shared.executed.count id ≤ c.shared.handed.count id := by
  have hle := h.places fun x => if x = id then 1 else 0
  simp only [System.places, Threads.total, weigh_count, Thread.load_eq_has] at hle
  omega

/-- Whatever is dropped, and whatever exceptions end a `run()`, an operation is
pending on a descriptor, queued, about to be pushed by a thread, in its private
queue or executed by it, or was executed, and once at most. -/
theorem executed_at_most_once (hint : Int) (m : Uninitialised) (c : System ι)
    (h : Reachable hint m c) (id : Nat) :
    c.shared.pendingIds.count id + (handlers c.shared.opQueue).count id +
      ∑ i, ((c.thread i).transit.count id + (c.thread i).has id) +
      c.shared.executed.count id ≤ 1 := by
  have hknown := h.covered.count_known id
  have hplaces := h.covered.le_handed id
  have hmade := List.nodup_iff_count.mp h.covered.nodup id
  rw [Finset.sum_add_distrib]
  omega

theorem executed_at_most_once_deferFromHandler :
    ∃ c : System (Fin 3), exec (System.next 1) (System.new {}) deferFromHandler = some c ∧
      c.shared.pendingIds.count 0 + (handlers c.shared.opQueue).count 0 +
        ∑ i, ((c.thread i).transit.count 0 + (c.thread i).has 0) +
        c.shared.executed.count 0 ≤ 1 :=
  ⟨_, rfl, executed_at_most_once 1 {} _ (.of_exec deferFromHandler (allSteps_trivial _ _) rfl) 0⟩

end System

end BoostAsio
