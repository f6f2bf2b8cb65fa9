import BoostAsio.Completion
import BoostAsio.PerformIo
import BoostAsio.ThreadPool

/-!
# perform() until it is done

`perform()` of an operation is called when the operation is started, or while
it is pending on a descriptor. Along every run it is called until it returns
`done` or `done_and_exhausted`, on whichever threads, and never again after
that; an operation that is pending has not returned either
(`performed_until_done`).
-/

namespace BoostAsio

open Runs OpQueue

-- ---------------------------------------------------------------------------
-- The calls that one function makes
-- ---------------------------------------------------------------------------

namespace DescriptorState

variable {d : DescriptorState} {ty : OpType} {op : ReactorOp} {spec : Bool} {ctl : ErrorCode}

theorem performQueue_calls_sublist (f : PerformFunc) (q : OpQueue ReactorOp) :
    ((performQueue f q).calls.map Prod.fst).Sublist (q.map ReactorOp.id) := by
  induction q with
  | nil => exact .slnil
  | cons op rest ih =>
    cases hst : (f op).1 with
    | notDone => simp [performQueue, ReactorOp.perform, hst]
    | done => simpa [performQueue, ReactorOp.perform, hst] using ih
    | doneAndExhausted => simp [performQueue, ReactorOp.perform, hst]

theorem performed_calls_sublist (events : Events) (f : PerformFunc) (ty : OpType) :
    ((d.performed events f ty).calls.map Prod.fst).Sublist ((d.opQueue ty).map ReactorOp.id) := by
  unfold performed
  split
  · exact performQueue_calls_sublist f _
  · exact List.nil_sublist _

/-- `perform_io` calls `perform()` once at most on each pending operation. -/
theorem count_performIo_calls (events : Events) (f : PerformFunc) (a : Nat) :
    ((d.performIo events f).calls.map Prod.fst).count a ≤ d.pendingIds.count a := by
  have hexcept := (performed_calls_sublist (d := d) events f .exceptOp).count_le a
  have hwrite := (performed_calls_sublist (d := d) events f .writeOp).count_le a
  have hread := (performed_calls_sublist (d := d) events f .readOp).count_le a
  rw [performIo_eq]
  simp only [List.map_append, List.count_append, pendingIds, pending]
  omega

/-- All calls on an operation but the last one found it not done. -/
def UntilDone (calls : List (Nat × Status)) : Prop :=
  calls.Pairwise fun c c' => c.1 = c'.1 → c.2 = .notDone

theorem untilDone_of_nodup {calls : List (Nat × Status)} (h : (calls.map Prod.fst).Nodup) :
    UntilDone calls :=
  (List.pairwise_map.mp h).imp fun hne heq => absurd heq hne

theorem Exits.untilDone {r : StartOp} (h : Exits d ty op spec ctl r) : UntilDone r.calls := by
  have quiet {op' : ReactorOp} {calls : List (Nat × Status)} (hc : NotYetDone op op' calls) :
      UntilDone calls := by
    refine List.pairwise_of_forall_mem_list fun c hm _ _ _ => ?_
    rw [hc.2 c hm]
  cases h with
  | shutdown | rearmed => exact .nil
  | performed => exact List.pairwise_singleton _ _
  | unsupported _ _ hc | refused _ _ hc | armed _ _ _ _ hc | queued _ _ hc => exact quiet hc

end DescriptorState

variable {ι : Type} {hint : Int} {i : ι} {s s' : Shared ι} {t t' : Thread}

/-- The calls of `perform()` that a step makes, with what they return. -/
def performs (s : Shared ι) (t : Thread) : Action ι → List (Nat × Status)
  | .user (.startOp (some d) ty op _ allowSpeculative f ctl) =>
    match s.descriptors[d]? with
    | some x => (x.startOp ty op allowSpeculative f ctl).calls
    | none => []
  | .performIo perform =>
    match t.top with
    | some ⟨_, _, .performIo d events, _⟩ =>
      match s.descriptors[d]? with
      | some x => (x.performIo events perform).calls
      | none => []
    | _ => []
  | _ => []

-- ---------------------------------------------------------------------------
-- What one step calls, and leaves pending
-- ---------------------------------------------------------------------------

/-- `calls` are on operations that were pending or are new, and what is pending
afterwards was pending or is new, and was not found done. -/
structure PerformsOn (s s' : Shared ι) (calls : List (Nat × Status)) : Prop where
  untilDone : DescriptorState.UntilDone calls
  called : ∀ c ∈ calls, c.1 ∈ s.pendingIds ∨ c.1 ∉ s.created ∧ c.1 ∈ s'.created
  pending : ∀ a ∈ s'.pendingIds, (a ∈ s.pendingIds ∨ a ∉ s.created) ∧
    ∀ c ∈ calls, c.1 = a → c.2 = .notDone

theorem PerformsOn.same (h : s'.descriptors = s.descriptors) : PerformsOn s s' [] where
  untilDone := .nil
  called := by simp
  pending a ha := by
    refine ⟨.inl ?_, by simp⟩
    rwa [Shared.pendingIds, h] at ha

theorem Shared.mem_pendingIds {d : Nat} {x : DescriptorState} (hd : s.descriptors[d]? = some x)
    {a : Nat} (ha : a ∈ x.pendingIds) : a ∈ s.pendingIds :=
  List.mem_flatMap.mpr ⟨x, List.mem_of_getElem? hd, ha⟩

theorem Shared.fresh_singleton {a : Nat} : s.fresh [a] = true ↔ a ∉ s.created := by
  simp [fresh]

/-- What is pending once one descriptor has changed. -/
theorem Shared.count_setDescriptor {d : Nat} {x : DescriptorState} (x' : DescriptorState)
    (hd : s.descriptors[d]? = some x) (a : Nat) :
    (s.setDescriptor d x').pendingIds.count a + x.pendingIds.count a =
      s.pendingIds.count a + x'.pendingIds.count a := by
  simp only [pendingIds, setDescriptor, List.count_flatMap]
  exact Threads.sum_map_set _ x' hd

theorem PerformsOn.set {d : Nat} {x : DescriptorState} (x' : DescriptorState)
    (hd : s.descriptors[d]? = some x)
    (hx : ∀ a, x'.pendingIds.count a ≤ x.pendingIds.count a)
    (h : s'.descriptors = (s.setDescriptor d x').descriptors) : PerformsOn s s' [] where
  untilDone := .nil
  called := by simp
  pending a ha := by
    refine ⟨.inl (List.count_pos_iff.mp ?_), by simp⟩
    rw [Shared.pendingIds, h] at ha
    have hpos : 0 < (s.setDescriptor d x').pendingIds.count a := List.count_pos_iff.mpr ha
    have := s.count_setDescriptor x' hd a
    have := hx a
    omega

theorem PerformsOn.append {x : DescriptorState} (hx : ∀ a ∈ x.pendingIds, a ∉ s.created)
    (h : s'.descriptors = s.descriptors ++ [x]) : PerformsOn s s' [] where
  untilDone := .nil
  called := by simp
  pending a ha := by
    refine ⟨?_, by simp⟩
    rw [Shared.pendingIds, h, List.flatMap_append] at ha
    rcases List.mem_append.mp ha with ha | ha
    · exact .inl ha
    · exact .inr (hx a (by simpa using ha))

/-- `start_op` on a descriptor that exists, in a state where what is pending was
made before. -/
theorem startOp_performsOn (hmade : ∀ a ∈ s.pendingIds, a ∈ s.created) {d : Nat}
    {x : DescriptorState} {ty : OpType} {op : ReactorOp} {spec : Bool} {f : PerformFunc}
    {ctl : ErrorCode} (hfresh : op.id ∉ s.created) (hd : s.descriptors[d]? = some x)
    (hc : s'.created = s.created ++ [op.id])
    (h : s'.descriptors = (s.setDescriptor d (x.startOp ty op spec f ctl).data).descriptors) :
    PerformsOn s s' (x.startOp ty op spec f ctl).calls := by
  have hexits := x.startOp_exits ty op spec f ctl
  have hpending := x.startOp_pending ty op spec f ctl
  have hnew : op.id ∉ s.pendingIds := fun hmem => hfresh (hmade op.id hmem)
  have hcount (a : Nat) : (s.setDescriptor d (x.startOp ty op spec f ctl).data).pendingIds.count a ≤
      s.pendingIds.count a + [op.id].count a := by
    have hset := s.count_setDescriptor (x.startOp ty op spec f ctl).data hd a
    split at hpending
    · rw [hpending.2] at hset
      omega
    · have := hpending a
      rw [List.count_cons] at this
      simp only [List.count_cons, List.count_nil]
      omega
  refine ⟨hexits.untilDone, fun c hmem => ?_, fun a ha => ?_⟩
  · rw [Tracked.Exits.called hexits c hmem]
    exact .inr ⟨hfresh, by simp [hc]⟩
  · rw [Shared.pendingIds, h] at ha
    have hpos : 0 < (s.setDescriptor d (x.startOp ty op spec f ctl).data).pendingIds.count a :=
      List.count_pos_iff.mpr ha
    by_cases hop : a = op.id
    · subst hop
      refine ⟨.inr hfresh, ?_⟩
      have hset := s.count_setDescriptor (x.startOp ty op spec f ctl).data hd op.id
      have hnone := List.count_eq_zero.mpr hnew
      have hmem : op.id ∈ (x.startOp ty op spec f ctl).data.pendingIds :=
        List.count_pos_iff.mp (by omega)
      obtain ⟨o, ho, hid⟩ := List.mem_map.mp hmem
      rcases Tracked.Exits.pending hexits o ho with hold | ⟨-, hcalls⟩
      · exact absurd (Shared.mem_pendingIds hd (hid ▸ List.mem_map.mpr ⟨o, hold, rfl⟩)) hnew
      · exact fun c hmem _ => hcalls c hmem
    · have := hcount a
      rw [List.count_singleton, if_neg (by simpa using fun heq => hop heq.symm)] at this
      refine ⟨.inl (List.count_pos_iff.mp (by omega)), fun c hmem hca => ?_⟩
      exact absurd (hca.symm.trans (Tracked.Exits.called hexits c hmem)) hop

/-- A call of `perform_io`, where nothing is pending twice. -/
theorem performIo_performsOn (hnodup : s.pendingIds.Nodup) {d : Nat} {x : DescriptorState}
    {events : Events} {f : PerformFunc} (hd : s.descriptors[d]? = some x)
    (h : s'.descriptors = (s.setDescriptor d (x.performIo events f).data).descriptors) :
    PerformsOn s s' (x.performIo events f).calls := by
  have hround := x.performIo_round events f
  have hle (a : Nat) : s.pendingIds.count a ≤ 1 := List.nodup_iff_count.mp hnodup a
  have hx (a : Nat) : x.pendingIds.count a ≤ s.pendingIds.count a := by
    have hset := s.count_setDescriptor x.drain.1 hd a
    rw [DescriptorState.drain_pendingIds, List.count_nil] at hset
    omega
  refine ⟨?_, fun c hc => .inl (Shared.mem_pendingIds hd (hround.called c hc)), fun a ha => ?_⟩
  · refine DescriptorState.untilDone_of_nodup (List.nodup_iff_count.mpr fun a => ?_)
    exact (x.count_performIo_calls events f a).trans ((hx a).trans (hle a))
  · rw [Shared.pendingIds, h] at ha
    have hpos : 0 < (s.setDescriptor d (x.performIo events f).data).pendingIds.count a :=
      List.count_pos_iff.mpr ha
    have hset := s.count_setDescriptor (x.performIo events f).data hd a
    have hcount := hround.count a
    refine ⟨.inl (List.count_pos_iff.mp (by omega)), fun c hc hca => ?_⟩
    have hmine : 0 < x.pendingIds.count a := List.count_pos_iff.mpr (hca ▸ hround.called c hc)
    have hlex := hx a
    have hlea := hle a
    have hmem : a ∈ (x.performIo events f).data.pendingIds := List.count_pos_iff.mp (by omega)
    obtain ⟨o, ho, hid⟩ := List.mem_map.mp hmem
    refine hround.left (List.nodup_iff_count.mpr fun b => (hx b).trans (hle b)) o ho c hc ?_
    rw [hca, hid]

theorem userStep_performsOn (hmade : ∀ a ∈ s.pendingIds, a ∈ s.created)
    (hu : t.inUserCode = true) {u : UserAction} (h : userStep hint s t u = some (s', t')) :
    PerformsOn s s' (performs s t (.user u)) := by
  cases userStep_piece hu h with
  | onWorkStarted | onWorkFinished | doDispatch | stop | restart | initTask | runWithoutWork
  | run | nest | cancelOpsNull | deregisterNull | deregisterShut | deregisterInternalNull
  | deregisterInternalShut | deregisterInternalLoops | handlerEnd => exact .same rfl
  | postImmediate _ h | startOpNull _ h =>
    exact .same (postImmediateCompletion_onlySubmits h).descriptors
  | postDeferred _ h => exact .same (postDeferredCompletion_onlySubmits h).descriptors
  | postAllDeferred _ h => exact .same (postDeferredCompletions_onlySubmits h).descriptors
  | registerDescriptor =>
    exact .append (by simp [DescriptorState.register_pending]) rfl
  | registerInternal hfresh =>
    refine .append (fun a ha => ?_) rfl
    rw [DescriptorState.registerInternal_pending, List.mem_singleton] at ha
    exact ha ▸ Shared.fresh_singleton.mp hfresh
  | @startOp d x ty op cont spec f ctl _ _ hfresh hd h =>
    have hkept : s'.created = s.created ++ [op.id] ∧ s'.descriptors =
        (s.setDescriptor d (x.startOp ty op spec f ctl).data).descriptors := by
      split at h
      · have hp := postImmediateCompletion_onlySubmits h
        exact ⟨hp.created, hp.descriptors⟩
      · cases h
        exact ⟨rfl, rfl⟩
    simpa [performs, hd] using
      startOp_performsOn hmade (Shared.fresh_singleton.mp hfresh) hd hkept.1 hkept.2
  | @cancelOps d x _ _ hd h =>
    exact .set x.cancelOps.1 hd (by simp [x.cancelOps_pending.1])
      (postDeferredCompletions_onlySubmits h).descriptors
  | @deregister d x x' closing ops _ _ hd he h =>
    exact .set x' hd (by simp [(DescriptorState.deregister_pending he).1])
      (postDeferredCompletions_onlySubmits h).descriptors
  | @deregisterInternal d x x' ops _ _ hd hr h =>
    exact .set x' hd (by simp [(DescriptorState.deregisterInternal_pending hr).1])
      (postDeferredCompletions_onlySubmits h).descriptors

theorem storeEvent_performsOn (f : Run) (ev : EpollEvent) :
    PerformsOn s (storeEvent s f ev).1 [] := by
  cases ev with
  | interrupter => exact .same rfl
  | descriptor d events =>
    simp only [storeEvent]
    split
    · exact .same rfl
    · rename_i x hd
      split
      · exact .set (x.addReadyEvents events) hd (fun _ => Nat.le_refl _) rfl
      · exact .set (x.setReadyEvents events) hd (fun _ => Nat.le_refl _) rfl

theorem endOfWork_descriptors (s : Shared ι) (f : Run) (t : Thread) (thrown : Bool) :
    (endOfWork s f t thrown).1.descriptors = s.descriptors := by
  cases thrown <;> rfl

variable [DecidableEq ι]

theorem step_performsOn (hmade : ∀ a ∈ s.pendingIds, a ∈ s.created)
    (hnodup : s.pendingIds.Nodup) {a : Action ι} (h : step hint i a s t = some (s', t')) :
    PerformsOn s s' (performs s t a) := by
  cases step_piece h with
  | user hu h => exact userStep_performsOn hmade hu h
  | push | stop | notify | transfer | wake | waitAgain => exact .same rfl
  | run _ ht h =>
    cases runStep_piece h with
    | store => exact storeEvent_performsOn _ _
    | finished => exact .same (endOfWork_descriptors _ _ _ _)
    | spliced _ _ _ _ hs₁ => exact .same ((endOfWork_descriptors _ _ _ _).trans (by rw [hs₁]))
    | _ => exact .same rfl
  | epollWait _ ht h =>
    simp only [epollWaitStep] at h
    split at h
    · simp only [Option.ite_none_right_eq_some] at h
      cases h.2
      exact .same rfl
    · cases h
  | @performIo perform f _ _ hc ht h =>
    obtain ⟨info, owns, pc, n⟩ := f
    cases pc with
    | performIo d events =>
      obtain ⟨x, hlock, h⟩ := Option.map_eq_some_iff.mp h
      have hd := (Shared.lockDescriptor_eq_some.mp hlock).2
      have hdesc : s'.descriptors =
          (s.setDescriptor d (x.performIo events perform).data).descriptors := by
        cases hops : (x.performIo events perform).ops with
        | nil =>
          simp only [hops] at h
          cases h
          rfl
        | cons first rest =>
          simp only [hops] at h
          cases rest with
          | nil =>
            cases h
            rfl
          | cons second rest =>
            exact (postDeferredCompletions_onlySubmits h).descriptors
      simpa [performs, ht, hd] using performIo_performsOn hnodup hd hdesc
    | _ => cases h

-- ---------------------------------------------------------------------------
-- Every run
-- ---------------------------------------------------------------------------

namespace System

variable {c c' : System ι} {l : ι × Action ι} {calls : List (Nat × Status)} [Fintype ι]

omit [DecidableEq ι] in
theorem Account.nodup_pendingIds (h : Account c) : c.shared.pendingIds.Nodup := by
  refine List.nodup_iff_count.mpr fun a => ?_
  have := h.count_known a
  have := List.nodup_iff_count.mp h.nodup a
  omega

omit [DecidableEq ι] in
theorem Account.pendingIds_made (h : Account c) :
    ∀ a ∈ c.shared.pendingIds, a ∈ c.shared.created := by
  intro a ha
  have := h.count_known a
  have := List.count_pos_iff.mpr ha
  exact List.count_pos_iff.mp (by omega)

/-- The calls so far: on operations made, each until it was done. -/
structure PerformedSoFar (c : System ι) (calls : List (Nat × Status)) : Prop where
  account : Account c
  untilDone : DescriptorState.UntilDone calls
  made : ∀ p ∈ calls, p.1 ∈ c.shared.created
  pending : ∀ p ∈ calls, p.1 ∈ c.shared.pendingIds → p.2 = .notDone

theorem PerformedSoFar.next (h : PerformedSoFar c calls)
    (hn : System.next hint c l = some c') :
    PerformedSoFar c' (calls ++ performs c.shared (c.thread l.1) l.2) := by
  have haccount := h.account.next hn
  obtain ⟨s, t, hs, rfl⟩ := Threads.next_eq_some.mp hn
  have hon := step_performsOn h.account.pendingIds_made h.account.nodup_pendingIds hs
  have hmono := (step_seen (h.account.locks l.1).state hs).created_subset
  refine ⟨haccount, ?_, fun p hp => ?_, fun p hp hpend => ?_⟩
  · refine List.pairwise_append.mpr ⟨h.untilDone, hon.untilDone, fun p hp q hq heq => ?_⟩
    -- a call on an operation that was called before finds it pending
    rcases hon.called q hq with hpend | ⟨hnew, -⟩
    · exact h.pending p hp (heq ▸ hpend)
    · exact absurd (heq ▸ h.made p hp) hnew
  · rcases List.mem_append.mp hp with hp | hp
    · exact hmono (h.made p hp)
    · rcases hon.called p hp with hpend | ⟨-, hmade⟩
      · exact hmono (h.account.pendingIds_made _ hpend)
      · exact hmade
  · obtain ⟨hold, hfound⟩ := hon.pending p.1 hpend
    rcases List.mem_append.mp hp with hp | hp
    · rcases hold with hold | hnew
      · exact h.pending p hp hold
      · exact absurd (h.made p hp) hnew
    · exact hfound p hp rfl

/-- The calls of `perform()` along a run, with what they return. -/
def performed (hint : Int) (c : System ι) (ls : List (ι × Action ι)) : List (Nat × Status) :=
  trace (System.next hint) (fun c l => performs c.shared (c.thread l.1) l.2) c ls

/-- Along every run `perform()` of an operation is called until it is done and
never again. From then on the operation is not pending: it is handed over, once,
or a thread is about to hand it over. -/
theorem performed_until_done (hint : Int) (m : Uninitialised) (c : System ι)
    (ls : List (ι × Action ι)) (he : exec (System.next hint) (System.new m) ls = some c) :
    DescriptorState.UntilDone (performed hint (System.new m) ls) ∧
      ∀ p ∈ performed hint (System.new m) ls, p.2 ≠ .notDone →
        p.1 ∉ c.shared.pendingIds ∧
          c.shared.handed.count p.1 + ∑ i, (c.thread i).transit.count p.1 = 1 := by
  have hstart : PerformedSoFar (System.new m : System ι) [] := ⟨.new m, .nil, by simp, by simp⟩
  have hrun : PerformedSoFar c (performed hint (System.new m) ls) :=
    trace_invariant (fun _ _ _ _ h hn => h.next hn) hstart he
  refine ⟨hrun.untilDone, fun p hp hdone => ?_⟩
  have hnot : p.1 ∉ c.shared.pendingIds := fun hpend => hdone (hrun.pending p hp hpend)
  refine ⟨hnot, ?_⟩
  have hknown := hrun.account.count_known p.1
  rw [List.count_eq_zero.mpr hnot] at hknown
  have hone := List.nodup_iff_count.mp hrun.account.nodup p.1
  have hmade := List.count_pos_iff.mpr (hrun.made p hp)
  omega

/-- A read is tried when it is started, and by `perform_io` when its event has
come. -/
def readAgain : List (Fin 3 × Action (Fin 3)) :=
  [(first, .user (.registerDescriptor 5 0)),
    (first, .user (.startOp (some 0) .readOp ⟨0, 0⟩ false true (fun _ => (.notDone, 11)) 0)),
    (first, .user .initTask), (first, .user .run), (first, .next), (first, .next),
    (first, .epollWait [.descriptor 0 epollIn]), (first, .next), (first, .next), (first, .next),
    (first, .next), (first, .next), (first, .next), (first, .performIo fun _ => (.done, 0))]

theorem performed_until_done_readAgain :
    ∃ c : System (Fin 3), exec (System.next 0) (System.new {}) readAgain = some c ∧
      DescriptorState.UntilDone [(0, .notDone), (0, .done)] ∧
      0 ∉ c.shared.pendingIds ∧
        c.shared.handed.count 0 + ∑ i, (c.thread i).transit.count 0 = 1 := by
  have hrun := performed_until_done 0 {} _ readAgain rfl
  exact ⟨_, rfl, hrun.1, hrun.2 (0, .done) (by decide) (by decide)⟩

end System

end BoostAsio
