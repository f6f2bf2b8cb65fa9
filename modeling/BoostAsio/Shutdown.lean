import BoostAsio.Context
import BoostAsio.Lib.OrderedMap

/-!
# What a shutdown destroys

`epoll_reactor::shutdown` returns only where no registered descriptor has an
operation pending, and gives nothing to the scheduler; `scheduler::shutdown`
then calls `destroy()` on what is queued, on the descriptor states that the
reactor has deleted among it. So every operation is destroyed once if and only
if nothing is pending and no registered descriptor state is queued
(`destroysEachOnce_iff`).
-/

namespace BoostAsio

open Runs OpQueue

-- ---------------------------------------------------------------------------
-- The loop of epoll_reactor::shutdown
-- ---------------------------------------------------------------------------

theorem DescriptorState.moveQueues_eq {x : DescriptorState} {ops ops' : OpQueue Operation} :
    x.moveQueues ops = some ops' ↔ x.pending = [] ∧ ops' = ops := by
  simp only [moveQueues, Option.bind_eq_bind, Option.bind_eq_some_iff, pushDerived_eq, pending,
    List.append_eq_nil_iff]
  constructor
  · rintro ⟨_, ⟨hr, rfl⟩, _, ⟨hw, rfl⟩, he, rfl⟩
    exact ⟨⟨⟨hr, hw⟩, he⟩, rfl⟩
  · rintro ⟨⟨⟨hr, hw⟩, he⟩, rfl⟩
    exact ⟨_, ⟨hr, rfl⟩, _, ⟨hw, rfl⟩, he, rfl⟩

namespace Context

variable {ι : Type} {c c' : Context ι} {d : Nat} {ds : List Nat}

def NothingPending (c : Context ι) (d : Nat) : Prop :=
  ∃ x, c.descriptors[d]? = some x ∧ x.pending = []

/-- These descriptor states are deleted, and nothing else is touched. -/
structure Deletes (ds : List Nat) (c c' : Context ι) : Prop where
  scheduler : c'.system.shared.toScheduler = c.system.shared.toScheduler
  registered : c'.registeredDescriptors = c.registeredDescriptors
  discarded : c'.discarded = c.discarded
  deleted : c'.deleted = c.deleted ++ ds
  dangling : c'.dangling = c.dangling
  destroyed : c'.destroyed = c.destroyed
  pending : ∀ d ∉ ds, c'.NothingPending d ↔ c.NothingPending d

theorem Deletes.refl (c : Context ι) : Deletes [] c c :=
  ⟨rfl, rfl, rfl, by simp, rfl, rfl, fun _ _ => Iff.rfl⟩

theorem Deletes.trans {c'' : Context ι} (h : Deletes [d] c c') (h' : Deletes ds c' c'') :
    Deletes (d :: ds) c c'' := by
  refine ⟨h'.scheduler.trans h.scheduler, h'.registered.trans h.registered,
    h'.discarded.trans h.discarded, ?_, h'.dangling.trans h.dangling,
    h'.destroyed.trans h.destroyed, fun e he => ?_⟩
  · rw [h'.deleted, h.deleted, List.append_assoc]
    rfl
  · rw [List.mem_cons, not_or] at he
    exact (h'.pending e he.2).trans (h.pending e (by simpa using he.1))

theorem shutdownDescriptor_deletes (hd : d ∉ c.deleted) (h : c.shutdownDescriptor d = some c') :
    Deletes [d] c c' ∧ c.NothingPending d := by
  simp only [shutdownDescriptor, if_neg hd, Option.bind_eq_bind, Option.bind_eq_some_iff,
    DescriptorState.moveQueues_eq, Option.some.injEq] at h
  obtain ⟨x, hx, ops, ⟨hp, rfl⟩, rfl⟩ := h
  refine ⟨⟨rfl, rfl, rfl, rfl, rfl, rfl, fun e he => ?_⟩, x, hx, hp⟩
  have hne : d ≠ e := by
    rintro rfl
    exact he List.mem_cons_self
  simp [NothingPending, descriptors, Shared.setDescriptor, List.getElem?_set_ne hne]

theorem shutdownDescriptor_returns (hd : d ∉ c.deleted) (h : c.NothingPending d) :
    ∃ c', c.shutdownDescriptor d = some c' := by
  obtain ⟨x, hx, hp⟩ := h
  simp [shutdownDescriptor, hd, hx, DescriptorState.moveQueues_eq.mpr ⟨hp, rfl⟩]

/-- Over states that are not deleted yet, the loop returns only where none of
them has anything pending. -/
theorem foldlM_deletes (hds : ds.Nodup) (hlive : ∀ d ∈ ds, d ∉ c.deleted)
    (h : ds.foldlM shutdownDescriptor c = some c') :
    Deletes ds c c' ∧ ∀ d ∈ ds, c.NothingPending d := by
  induction ds generalizing c with
  | nil =>
    obtain rfl : c = c' := Option.some.inj h
    exact ⟨.refl c, by simp⟩
  | cons d ds ih =>
    simp only [List.foldlM_cons, Option.bind_eq_bind, Option.bind_eq_some_iff] at h
    obtain ⟨c₁, hd, h⟩ := h
    obtain ⟨hdel, hp⟩ := shutdownDescriptor_deletes (hlive d List.mem_cons_self) hd
    obtain ⟨hnot, hds⟩ := List.nodup_cons.mp hds
    obtain ⟨hrest, hps⟩ := ih hds (fun e he => by
      rw [hdel.deleted, List.mem_append, List.mem_singleton, not_or]
      exact ⟨hlive e (List.mem_cons_of_mem _ he), fun heq => hnot (heq ▸ he)⟩) h
    refine ⟨hdel.trans hrest, List.forall_mem_cons.mpr ⟨hp, fun e he => ?_⟩⟩
    have hne : e ≠ d := fun heq => hnot (heq ▸ he)
    exact (hdel.pending e (by simpa using hne)).mp (hps e he)

theorem foldlM_returns (hds : ds.Nodup) (hlive : ∀ d ∈ ds, d ∉ c.deleted)
    (h : ∀ d ∈ ds, c.NothingPending d) : ∃ c', ds.foldlM shutdownDescriptor c = some c' := by
  induction ds generalizing c with
  | nil => exact ⟨c, rfl⟩
  | cons d ds ih =>
    obtain ⟨c₁, hd⟩ := shutdownDescriptor_returns (hlive d List.mem_cons_self)
      (h d List.mem_cons_self)
    obtain ⟨hdel, -⟩ := shutdownDescriptor_deletes (hlive d List.mem_cons_self) hd
    obtain ⟨hnot, hds⟩ := List.nodup_cons.mp hds
    have hrest (e : Nat) (he : e ∈ ds) : e ∉ c₁.deleted ∧ c₁.NothingPending e := by
      have hne : e ≠ d := fun heq => hnot (heq ▸ he)
      refine ⟨?_, (hdel.pending e (by simpa using hne)).mpr (h e (List.mem_cons_of_mem _ he))⟩
      rw [hdel.deleted, List.mem_append, List.mem_singleton, not_or]
      exact ⟨hlive e (List.mem_cons_of_mem _ he), hne⟩
    obtain ⟨c', hc'⟩ := ih hds (fun e he => (hrest e he).1) fun e he => (hrest e he).2
    exact ⟨c', by simp [hd, hc']⟩

-- ---------------------------------------------------------------------------
-- The first shutdown
-- ---------------------------------------------------------------------------

/-- The descriptor states in the map, in the order of the numbers. -/
def registeredStates (c : Context ι) : List Nat := c.registeredDescriptors.toList.map Prod.snd

theorem mem_registeredStates :
    d ∈ c.registeredStates ↔ ∃ fd : Int, c.registeredDescriptors[fd]? = some d :=
  OrderedMap.mem_values

theorem Registered.nodup (h : c.Registered) : c.registeredStates.Nodup :=
  OrderedMap.nodup_values h.unique

theorem shutdownReactor_eq (c : Context ι) :
    c.shutdownReactor = c.registeredStates.foldlM shutdownDescriptor c := by
  rw [shutdownReactor, registeredStates, List.foldlM_map]

structure ShutDown (c c' : Context ι) : Prop where
  registered : c'.registeredDescriptors = c.registeredDescriptors
  discarded : c'.discarded = []
  deleted : c'.deleted = c.registeredStates
  dangling : c'.dangling =
    (OpQueue.descriptors c.opQueue).filter fun d => d ∈ c.registeredStates
  destroyed : c'.destroyed = c.opQueue.filter fun o => o ≠ .taskOperation

theorem descriptors_doShutdown (s : Scheduler ι) :
    OpQueue.descriptors s.doShutdown.2 = OpQueue.descriptors s.opQueue :=
  s.filterMap_doShutdown rfl

theorem shutdown_returns (hi : c.Intact) (hr : c.Registered) :
    (∃ c', c.shutdown = some c') ↔ ∀ d ∈ c.registeredStates, c.NothingPending d := by
  have hlive : ∀ d ∈ c.registeredStates, d ∉ c.deleted := by simp [hi.deleted]
  rw [shutdown_eq, shutdownReactor_eq]
  constructor
  · rintro ⟨c', h⟩
    obtain ⟨c₁, h, -⟩ := Option.map_eq_some_iff.mp h
    exact (foldlM_deletes hr.nodup hlive h).2
  · intro h
    obtain ⟨c₁, h⟩ := foldlM_returns hr.nodup hlive h
    exact ⟨c₁.shutdownScheduler, by rw [h, Option.map_some]⟩

theorem shutdown_shutDown (hi : c.Intact) (hr : c.Registered) (h : c.shutdown = some c') :
    ShutDown c c' := by
  have hlive : ∀ d ∈ c.registeredStates, d ∉ c.deleted := by simp [hi.deleted]
  rw [shutdown_eq, shutdownReactor_eq] at h
  obtain ⟨c₁, hfold, rfl⟩ := Option.map_eq_some_iff.mp h
  obtain ⟨hdel, -⟩ := foldlM_deletes hr.nodup hlive hfold
  have hdeleted : c₁.deleted = c.registeredStates := by
    rw [hdel.deleted, hi.deleted, List.nil_append]
  refine ⟨hdel.registered, hdel.discarded.trans hi.discarded, hdeleted, ?_, ?_⟩
  · simp only [shutdownScheduler, descriptors_doShutdown, hdel.scheduler, hdel.dangling,
      hi.dangling, hdeleted, List.nil_append]
    rfl
  · simp only [shutdownScheduler, hdel.scheduler, hdel.destroyed, hi.destroyed, List.nil_append]
    rfl

-- ---------------------------------------------------------------------------
-- Which operations are destroyed
-- ---------------------------------------------------------------------------

/-- The operations that a shutdown is to destroy: those in `op_queue_`, without
`task_operation_`, and those pending on a descriptor. -/
def outstanding (c : Context ι) : List Operation :=
  (c.opQueue.filter fun o => o ≠ .taskOperation) ++
    c.descriptors.flatMap fun x => x.pendingIds.map .handler

/-- `shutdown` returns, has called `destroy()` once on every such operation and
on no other, on no descriptor state that was deleted, and has left none in a
local queue. -/
def DestroysEachOnce (c : Context ι) : Prop :=
  ∃ c', c.shutdown = some c' ∧
    (∀ o, c'.destroyed.count o = if o ∈ c.outstanding then 1 else 0) ∧
    c'.dangling = [] ∧ ∀ o ∈ c.outstanding, o ∉ c'.discarded

/-- No descriptor has an operation pending, and none that is registered is
queued. -/
structure Settled (c : Context ι) : Prop where
  pending : ∀ x ∈ c.descriptors, x.pending = []
  queued : ∀ (fd : Int) (d : Nat), c.registeredDescriptors[fd]? = some d →
    .descriptorState d ∉ c.opQueue

theorem Settled.nothingPending (h : c.Settled) (hr : c.Registered) :
    ∀ d ∈ c.registeredStates, c.NothingPending d := by
  intro d hd
  obtain ⟨fd, hfd⟩ := mem_registeredStates.mp hd
  have hx := List.getElem?_eq_getElem (hr.lt fd d hfd)
  exact ⟨_, hx, h.pending _ (List.mem_of_getElem? hx)⟩

/-- Nothing registered is queued if and only if no state is used after it was
deleted. -/
theorem ShutDown.dangling_eq_nil (h : ShutDown c c') : c'.dangling = [] ↔
    ∀ (fd : Int) (d : Nat), c.registeredDescriptors[fd]? = some d →
      .descriptorState d ∉ c.opQueue := by
  rw [h.dangling, List.filter_eq_nil_iff]
  simp only [mem_descriptors, decide_eq_true_eq, mem_registeredStates]
  constructor
  · intro hno fd d hfd hd
    exact hno d hd ⟨fd, hfd⟩
  · rintro hno d hd ⟨fd, hfd⟩
    exact hno fd d hfd hd

variable [Fintype ι]

theorem DestroysEachOnce.settled (hi : c.Invariant) (h : c.DestroysEachOnce) : c.Settled := by
  obtain ⟨c', hs, hcount, hdangling, -⟩ := h
  have hsd := shutdown_shutDown hi.intact hi.registered hs
  refine ⟨fun x hx => ?_, hsd.dangling_eq_nil.mp hdangling⟩
  by_contra hne
  obtain ⟨op, hop⟩ := List.exists_mem_of_ne_nil _ hne
  have hid : op.id ∈ x.pendingIds := List.mem_map_of_mem hop
  have hmem : .handler op.id ∈ c.outstanding :=
    List.mem_append_right _ (List.mem_flatMap.mpr ⟨x, hx, List.mem_map_of_mem hid⟩)
  -- what is pending is not queued, so nobody destroys it
  have hone : c'.destroyed.count (.handler op.id) = 1 := by rw [hcount, if_pos hmem]
  have hpos : .handler op.id ∈ c'.destroyed := List.count_pos_iff.mp (by omega)
  rw [hsd.destroyed] at hpos
  exact hi.pending_not_queued hx hid (List.mem_of_mem_filter hpos)

theorem Settled.destroysEachOnce (hi : c.Invariant) (h : c.Settled) : c.DestroysEachOnce := by
  obtain ⟨c', hs⟩ := (shutdown_returns hi.intact hi.registered).mpr (h.nothingPending hi.registered)
  have hsd := shutdown_shutDown hi.intact hi.registered hs
  have hout : c.outstanding = c'.destroyed := by
    have hnone : (c.descriptors.flatMap fun x => x.pendingIds.map Operation.handler) = [] := by
      refine List.flatMap_eq_nil_iff.mpr fun x hx => ?_
      simp [DescriptorState.pendingIds, h.pending x hx]
    rw [outstanding, hnone, List.append_nil, hsd.destroyed]
  have hnodup : c'.destroyed.Nodup := hsd.destroyed ▸ hi.nodup_opQueue.filter _
  refine ⟨c', hs, fun o => ?_, hsd.dangling_eq_nil.mpr h.queued, by simp [hsd.discarded]⟩
  rw [hout]
  split
  · rename_i ho
    exact List.count_eq_one_of_mem hnodup ho
  · rename_i ho
    exact List.count_eq_zero.mpr ho

variable [DecidableEq ι]

theorem destroysEachOnce_iff (hint : Int) (m : Uninitialised) (c : Context ι)
    (h : Reach (next hint) (fun _ _ => True) (new m) c) : c.DestroysEachOnce ↔
      (∀ x ∈ c.descriptors, x.pending = []) ∧
        ∀ (fd : Int) (d : Nat), c.registeredDescriptors[fd]? = some d →
          .descriptorState d ∉ c.opQueue := by
  have hi := invariant h
  constructor
  · intro hd
    have hs := hd.settled hi
    exact ⟨hs.pending, hs.queued⟩
  · rintro ⟨hp, hq⟩
    exact Settled.destroysEachOnce hi ⟨hp, hq⟩

def registerAndPost : List (Fin 3 × Action (Fin 3)) :=
  [(System.first, .user (.registerDescriptor 5 0)), (System.first, .user (.doDispatch 7)),
    (System.first, .call)]

theorem destroysEachOnce_registerAndPost :
    ∃ c : Context (Fin 3), exec (next 0) (new {}) registerAndPost = some c ∧
      c.outstanding = [.handler 7] ∧ c.DestroysEachOnce := by
  refine ⟨_, rfl, rfl, (destroysEachOnce_iff 0 {} _
    (.of_exec registerAndPost (allSteps_trivial _ _) rfl)).mpr ⟨by decide, fun fd d _ hq => ?_⟩⟩
  cases hq with
  | tail _ hq => cases hq

def readPending : List (Fin 3 × Action (Fin 3)) :=
  [(System.first, .user (.registerDescriptor 5 0)),
    (System.first, .user (.startOp (some 0) .readOp ⟨7, 0⟩ false false
      (fun op => (.notDone, op.ec)) 0))]

/-- `epoll_reactor::shutdown` does not return from moving it. -/
theorem readPending_never_destroyed :
    ¬ ∀ (ls : List (Fin 3 × Action (Fin 3))) (c : Context (Fin 3)),
      exec (next 0) (new {}) ls = some c → c.DestroysEachOnce := by
  intro h
  obtain ⟨c', hs, -⟩ := h readPending _ rfl
  cases hs

end Context

end BoostAsio
