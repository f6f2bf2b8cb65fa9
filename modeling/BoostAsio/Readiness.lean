import BoostAsio.DescriptorCases
import BoostAsio.SingleRunner

/-!
# Readiness is not lost

Descriptors are registered edge-triggered, so a bit that `epoll_wait` reported
has to reach a call of `perform_io`. Until then (`due`) it should be in the
batch of the runner, in the `task_result_` of a descriptor state that is queued
or popped and not read yet, or in the mask that a thread has read (`Kept`).

A thread reads `task_result_` after it has released the mutex. Another thread
can take the task meanwhile, and `set_ready_events` then replaces a mask that
was never read: the descriptor state is in no queue. Without that, nothing is
lost (`readiness_kept`).
-/

namespace BoostAsio

open Runs OpQueue

-- ---------------------------------------------------------------------------
-- task_result_ is written by set_ready_events and add_ready_events alone
-- ---------------------------------------------------------------------------

namespace DescriptorState

variable {d : DescriptorState}

theorem startOp_taskResult (d : DescriptorState) (ty : OpType) (op : ReactorOp) (spec : Bool)
    (f : PerformFunc) (ctl : ErrorCode) :
    (d.startOp ty op spec f ctl).data.taskResult = d.taskResult := by
  cases hr : d.startOp ty op spec f ctl with
  | mk data exit calls =>
    have h := d.startOp_exits ty op spec f ctl
    rw [hr] at h
    cases h with
    | performed _ _ _ hd =>
      rcases hd with rfl | rfl
      · rfl
      · rfl
    | shutdown | unsupported | refused | armed | rearmed | queued => rfl

theorem deregister_taskResult (d : DescriptorState) (closing : Bool) :
    (d.deregister closing).1.taskResult = d.taskResult := by
  cases hs : d.shutdown with
  | true => rw [deregister_shutdown hs]
  | false =>
    simp only [deregister, hs, Bool.false_eq_true, ↓reduceIte, drain]
    split <;> rfl

theorem deregisterInternal_taskResult {r : DescriptorState × Option (List ReactorOp)}
    (h : d.deregisterInternal = some r) : r.1.taskResult = d.taskResult := by
  simp only [deregisterInternal] at h
  split at h
  · cases h
    rfl
  · simp only [Option.bind_eq_bind, Option.bind_eq_some_iff, Option.some.injEq] at h
    obtain ⟨_, _, _, _, _, _, rfl⟩ := h
    rfl

theorem performType_taskResult (events : Events) (f : PerformFunc) (r : PerformIo) (ty : OpType) :
    (performType events f r ty).data.taskResult = r.data.taskResult := by
  unfold performType
  split <;> rfl

theorem performIo_taskResult (d : DescriptorState) (events : Events) (f : PerformFunc) :
    (d.performIo events f).data.taskResult = d.taskResult := by
  simp only [performIo, List.foldl_cons, List.foldl_nil, performType_taskResult]

end DescriptorState

-- ---------------------------------------------------------------------------
-- Where a bit is
-- ---------------------------------------------------------------------------

/-- The event has bit `k` of the descriptor `d`. -/
def EpollEvent.brings (d k : Nat) : EpollEvent → Bool
  | .interrupter => false
  | .descriptor d' events => d' == d && events.getLsbD k

/-- A `run()` is about to store bit `k` of `d`, or to pass it to `perform_io`. -/
def Pc.brings (d k : Nat) : Pc → Bool
  | .events evs => evs.any (·.brings d k)
  | .performIo d' mask => d' == d && mask.getLsbD k
  | _ => false

/-- The descriptor state is in the private queue, or popped and its
`task_result_` not read yet. -/
def Run.unread (d : Nat) (f : Run) : Bool :=
  decide (.descriptorState d ∈ f.info.privateOpQueue) || f.pc == .popped (.descriptorState d)

variable {ι : Type} {hint : Int} {i : ι} {s s' : Shared ι} {t t' : Thread} {d k : Nat}

def Shared.ready (s : Shared ι) (d k : Nat) : Bool :=
  s.descriptors[d]?.any fun x => x.taskResult.getLsbD k

def Thread.keeps (s : Shared ι) (d k : Nat) (t : Thread) : Bool :=
  t.top.any fun f => f.pc.brings d k || s.ready d k && f.unread d

/-- The mask that `set_ready_events` is about to write. -/
def overwrite (t : Thread) : Action ι → Option (Nat × Events)
  | .next => match t.top with
    | some ⟨info, _, .events (.descriptor d events :: _), _⟩ =>
      if .descriptorState d ∈ info.privateOpQueue then none else some (d, events)
    | _ => none
  | _ => none

theorem Thread.keeps_iff : t.keeps s d k = true ↔ ∃ f, t.top = some f ∧
    (f.pc.brings d k = true ∨ s.ready d k = true ∧ f.unread d = true) := by
  simp [keeps, Option.any_eq_true]

-- ---------------------------------------------------------------------------
-- The masks under each step
-- ---------------------------------------------------------------------------

/-- The descriptor states keep their bits. -/
def Masks (s s' : Shared ι) : Prop :=
  s.descriptors.length ≤ s'.descriptors.length ∧ ∀ d k, s.ready d k = true → s'.ready d k = true

theorem Masks.of_eq (h : s'.descriptors = s.descriptors) : Masks s s' := by
  refine ⟨by rw [h], fun d k hr => ?_⟩
  rwa [Shared.ready, h, ← Shared.ready]

theorem Masks.trans {s'' : Shared ι} (h : Masks s s') (h' : Masks s' s'') : Masks s s'' :=
  ⟨h.1.trans h'.1, fun d k hr => h'.2 d k (h.2 d k hr)⟩

theorem ready_setDescriptor_ne {d' : Nat} (h : d' ≠ d) (x : DescriptorState) :
    (s.setDescriptor d' x).ready d k = s.ready d k := by
  simp [Shared.ready, Shared.setDescriptor, List.getElem?_set_ne h]

theorem ready_setDescriptor_self {x : DescriptorState} (hx : s.descriptors[d]? = some x)
    (x' : DescriptorState) : (s.setDescriptor d x').ready d k = x'.taskResult.getLsbD k := by
  obtain ⟨hlt, -⟩ := List.getElem?_eq_some_iff.mp hx
  simp [Shared.ready, Shared.setDescriptor, hlt]

theorem ready_of_getElem? {x : DescriptorState} (hx : s.descriptors[d]? = some x) :
    s.ready d k = x.taskResult.getLsbD k := by
  simp [Shared.ready, hx]

theorem Masks.setDescriptor {x x' : DescriptorState} (hx : s.descriptors[d]? = some x)
    (h : x'.taskResult = x.taskResult) : Masks s (s.setDescriptor d x') := by
  refine ⟨by simp [Shared.setDescriptor], fun d' k hr => ?_⟩
  by_cases hd : d = d'
  · subst hd
    rw [ready_setDescriptor_self hx, h, ← ready_of_getElem? hx]
    exact hr
  · rwa [ready_setDescriptor_ne hd]

theorem Masks.register (x : DescriptorState) :
    Masks s { s with descriptors := s.descriptors ++ [x] } := by
  refine ⟨by simp, fun d k hr => ?_⟩
  simp only [Shared.ready, Option.any_eq_true] at hr ⊢
  obtain ⟨y, hy, hk⟩ := hr
  obtain ⟨hlt, -⟩ := List.getElem?_eq_some_iff.mp hy
  exact ⟨y, by rw [List.getElem?_append_left hlt, hy], hk⟩

/-- A step that is not in a batch leaves the masks and what is due. -/
structure Frame (s s' : Shared ι) : Prop where
  due : s'.due = s.due
  masks : Masks s s'

theorem Frame.of_eq (hd : s'.due = s.due) (h : s'.descriptors = s.descriptors) : Frame s s' :=
  ⟨hd, .of_eq h⟩

theorem Frame.after {s'' : Shared ι} (h' : Frame s' s'') (h : Frame s s') : Frame s s'' :=
  ⟨h'.due.trans h.due, h.masks.trans h'.masks⟩

theorem postImmediateCompletion_frame {id : Nat} {cont : Bool} {r : Shared ι × Thread}
    (h : postImmediateCompletion hint id cont s t = r) : Frame s r.1 := by
  subst h
  unfold postImmediateCompletion
  split <;> exact .of_eq rfl rfl

theorem postDeferredCompletion_frame {id : Nat} {r : Shared ι × Thread}
    (h : postDeferredCompletion hint id s t = r) : Frame s r.1 := by
  subst h
  unfold postDeferredCompletion
  split <;> exact .of_eq rfl rfl

theorem postDeferredCompletions_frame {ids : List Nat} {r : Shared ι × Thread}
    (h : (postDeferredCompletions hint ids s t).2 = r) : Frame s r.1 := by
  subst h
  unfold postDeferredCompletions
  split <;> exact .of_eq rfl rfl

theorem userStep_frame (hu : t.inUserCode = true) {u : UserAction}
    (h : userStep hint s t u = some (s', t')) : Frame s s' := by
  cases userStep_piece hu h with
  | registerDescriptor => exact ⟨rfl, .register _⟩
  | registerInternal => exact ⟨rfl, .register _⟩
  | postImmediate _ h => exact (postImmediateCompletion_frame h).after (.of_eq rfl rfl)
  | postDeferred _ h => exact (postDeferredCompletion_frame h).after (.of_eq rfl rfl)
  | postAllDeferred _ h => exact (postDeferredCompletions_frame h).after (.of_eq rfl rfl)
  | startOpNull _ h => exact (postImmediateCompletion_frame h).after (.of_eq rfl rfl)
  | @startOp d x ty op _ spec f ctl _ _ _ hx h =>
    have hset : Masks s (s.setDescriptor d (x.startOp ty op spec f ctl).data) :=
      .setDescriptor hx (x.startOp_taskResult ty op spec f ctl)
    split at h
    · exact (postImmediateCompletion_frame h).after ⟨rfl, hset⟩
    · cases h
      exact ⟨rfl, hset⟩
  | cancelOps hx h =>
    exact (postDeferredCompletions_frame h).after ⟨rfl, .setDescriptor hx rfl⟩
  | @deregister _ x _ closing _ _ _ hx he h =>
    have hr := x.deregister_taskResult closing
    rw [he] at hr
    exact (postDeferredCompletions_frame h).after ⟨rfl, .setDescriptor hx hr⟩
  | deregisterInternal hx hr h =>
    have hr := DescriptorState.deregisterInternal_taskResult hr
    exact (postDeferredCompletions_frame h).after ⟨rfl, .setDescriptor hx hr⟩
  | _ => exact .of_eq rfl rfl

section StoreEvent

variable {f : Run} {ev : EpollEvent}

theorem storeEvent_due : (storeEvent s f ev).1.due = s.due := by
  rw [storeEvent_shared]

theorem storeEvent_length :
    (storeEvent s f ev).1.descriptors.length = s.descriptors.length := by
  cases ev with
  | interrupter => rfl
  | descriptor d events =>
    simp only [storeEvent]
    split
    · rfl
    · split <;> simp [Shared.setDescriptor]

theorem storeEvent_ready (hr : s.ready d k = true)
    (hno : ∀ events, ev = .descriptor d events → .descriptorState d ∈ f.info.privateOpQueue) :
    (storeEvent s f ev).1.ready d k = true := by
  cases ev with
  | interrupter => exact hr
  | descriptor d' events =>
    simp only [storeEvent]
    split
    · exact hr
    · rename_i x hx
      by_cases hd : d' = d
      · subst hd
        rw [ready_of_getElem? hx] at hr
        rw [if_pos (hno events rfl), ready_setDescriptor_self hx]
        simp [DescriptorState.addReadyEvents, hr]
      · split
        · rwa [ready_setDescriptor_ne hd]
        · rwa [ready_setDescriptor_ne hd]

theorem storeEvent_stores (hb : ev.brings d k = true) (hd : d < s.descriptors.length) :
    (storeEvent s f ev).1.ready d k = true ∧
      .descriptorState d ∈ (storeEvent s f ev).2.privateOpQueue := by
  cases ev with
  | interrupter => cases hb
  | descriptor d' events =>
    simp only [EpollEvent.brings, Bool.and_eq_true, beq_iff_eq] at hb
    obtain ⟨rfl, hk⟩ := hb
    have hx := List.getElem?_eq_getElem hd
    simp only [storeEvent, hx]
    split
    · rename_i hmem
      rw [ready_setDescriptor_self hx]
      exact ⟨by simp [DescriptorState.addReadyEvents, hk], hmem⟩
    · rw [ready_setDescriptor_self hx]
      exact ⟨hk, by simp⟩

theorem storeEvent_mem (hm : .descriptorState d ∈ f.info.privateOpQueue) :
    .descriptorState d ∈ (storeEvent s f ev).2.privateOpQueue := by
  cases ev with
  | interrupter => exact hm
  | descriptor d' events =>
    simp only [storeEvent]
    split
    · exact hm
    · split
      · exact hm
      · simp [hm]

end StoreEvent

theorem misuse_frame (f : Run) (t : Thread) : Frame s (misuse s f t).1 := .of_eq rfl rfl

theorem endOfWork_frame {s₁ : Shared ι} {f : Run} {thrown : Bool} (h : Frame s s₁) :
    Frame s (endOfWork s₁ f t thrown).1 := by
  cases thrown with
  | true => exact ⟨h.due, h.masks.trans (.of_eq rfl)⟩
  | false => exact h

section Steps

variable [DecidableEq ι]

-- ---------------------------------------------------------------------------
-- What is due
-- ---------------------------------------------------------------------------

omit [DecidableEq ι] in
theorem foldl_report {report : (Nat → Events) → EpollEvent → Nat → Events}
    (h : ∀ due ev, (report due ev d).getLsbD k = ((due d).getLsbD k || ev.brings d k))
    (evs : List EpollEvent) (due : Nat → Events) :
    (evs.foldl report due d).getLsbD k =
      ((due d).getLsbD k || evs.any (·.brings d k)) := by
  induction evs generalizing due with
  | nil => simp
  | cons ev evs ih => simp only [List.foldl_cons, ih, h, List.any_cons, Bool.or_assoc]

/-- What one step does to the masks and to what is due. -/
structure Reports (s : Shared ι) (t : Thread) (a : Action ι) (s' : Shared ι) (t' : Thread) :
    Prop where
  length : s.descriptors.length ≤ s'.descriptors.length
  ready : ∀ d k, s.ready d k = true → (∀ events, overwrite t a ≠ some (d, events)) →
    s'.ready d k = true
  due : ∀ d k, (s'.due d).getLsbD k = true → (s.due d).getLsbD k = true ∨
    d < s.descriptors.length ∧ t'.keeps s' d k = true

omit [DecidableEq ι] in
theorem Frame.reports (h : Frame s s') (a : Action ι) : Reports s t a s' t' where
  length := h.masks.1
  ready d k hr _ := h.masks.2 d k hr
  due d k hd := .inl (by rwa [h.due] at hd)

omit [DecidableEq ι] in
theorem storeEvent_reports {f : Run} (ht : t.top = some f) {ev : EpollEvent}
    {evs : List EpollEvent} (hpc : f.pc = .events (ev :: evs)) :
    Reports s t .next (storeEvent s f ev).1 t' where
  length := storeEvent_length.ge
  ready d k hr hno := by
    refine storeEvent_ready hr fun events he => ?_
    obtain ⟨info, owns, pc, n⟩ := f
    subst he
    cases hpc
    by_contra hmem
    exact hno events (by simp only [overwrite, ht]; rw [if_neg hmem])
  due d k hd := .inl (by rwa [storeEvent_due] at hd)

theorem runStep_reports {f : Run} (ht : t.top = some f)
    (h : runStep hint i s f t = some (s', t')) : Reports s t .next s' t' := by
  cases runStep_piece h with
  | misuse => exact (misuse_frame f t).reports _
  | store hpc => exact storeEvent_reports ht hpc
  | @finished thrown =>
    have hend : Frame s (endOfWork s f t thrown).1 := endOfWork_frame (.of_eq rfl rfl)
    exact hend.reports _
  | @spliced thrown s₁ f₁ _ _ _ _ hs₁ =>
    have hend : Frame s (endOfWork s₁ f₁ t thrown).1 := endOfWork_frame (hs₁ ▸ .of_eq rfl rfl)
    exact hend.reports _
  | lock | returns | wait | pop | batchEnd | taskMerge | taskCleanup | complete | performIo
  | taskCompleted | workMerge | workFinished =>
    refine Frame.reports ?_ _
    exact .of_eq rfl rfl

omit [DecidableEq ι] in
theorem epollWaitStep_reports {f : Run} {evs : List EpollEvent}
    (h : epollWaitStep s f t evs = some (s', t')) : Reports s t (.epollWait evs) s' t' := by
  simp only [epollWaitStep] at h
  split at h
  · simp only [Option.ite_none_right_eq_some] at h
    obtain ⟨⟨-, hknown⟩, h⟩ := h
    cases h
    refine ⟨le_rfl, fun d k hr _ => hr, fun d k hd => ?_⟩
    rw [foldl_report, Bool.or_eq_true] at hd
    · refine hd.imp id fun hb => ?_
      obtain ⟨ev, hev, hb'⟩ := List.any_eq_true.mp hb
      have hk := List.all_eq_true.mp hknown ev hev
      cases ev with
      | interrupter => cases hb'
      | descriptor d' events =>
        simp only [EpollEvent.brings, Bool.and_eq_true, beq_iff_eq] at hb'
        obtain ⟨rfl, -⟩ := hb'
        exact ⟨by simpa using hk, Thread.keeps_iff.mpr ⟨_, rfl, .inl hb⟩⟩
    · intro due ev
      cases ev with
      | interrupter => simp [EpollEvent.brings]
      | descriptor d' events =>
        by_cases hd' : d' = d
        · subst hd'
          simp [EpollEvent.brings]
        · simp [EpollEvent.brings, hd', Function.update_of_ne (Ne.symm hd')]
  · cases h

omit [DecidableEq ι] in
theorem performIoStep_reports {f : Run} {perform : PerformFunc}
    (h : performIoStep hint s f t perform = some (s', t')) :
    Masks s s' ∧ ∃ d events, f.pc = .performIo d events ∧
      s'.due = Function.update s.due d (s.due d &&& ~~~events) := by
  simp only [performIoStep] at h
  split at h
  · rename_i d events hpc
    obtain ⟨x, hlock, h⟩ := Option.map_eq_some_iff.mp h
    have hx := (Shared.lockDescriptor_eq_some.mp hlock).2
    let cleared : Shared _ := { s with due := Function.update s.due d (s.due d &&& ~~~events) }
    have hset : Masks s (cleared.setDescriptor d (x.performIo events perform).data) :=
      .setDescriptor hx (x.performIo_taskResult events perform)
    split at h
    · cases h
      exact ⟨hset, d, events, hpc, rfl⟩
    · split at h
      · cases h
        exact ⟨hset, d, events, hpc, rfl⟩
      · have hpost := postDeferredCompletions_frame h
        exact ⟨hset.trans (Masks.trans (.of_eq rfl) hpost.masks), d, events, hpc, hpost.due⟩
  · cases h

theorem step_reports {a : Action ι} (h : step hint i a s t = some (s', t')) :
    Reports s t a s' t' := by
  cases step_piece h with
  | user hu h => exact (userStep_frame hu h).reports _
  | push | stop | notify | transfer | wake | waitAgain =>
    refine Frame.reports ?_ _
    exact .of_eq rfl rfl
  | run hc ht h => exact runStep_reports ht h
  | epollWait hc ht h => exact epollWaitStep_reports h
  | performIo hc ht h =>
    obtain ⟨hm, d', events, -, hd⟩ := performIoStep_reports h
    refine ⟨hm.1, fun d k hr _ => hm.2 d k hr, fun d k hk => .inl ?_⟩
    rw [hd] at hk
    by_cases hne : d = d'
    · subst hne
      simp only [Function.update_self, BitVec.getLsbD_and, Bool.and_eq_true] at hk
      exact hk.1
    · rwa [Function.update_of_ne hne] at hk

-- ---------------------------------------------------------------------------
-- Where the bits go
-- ---------------------------------------------------------------------------

/-- A descriptor state leaves `op_queue_` only when it is popped. -/
theorem Step.popped {s s' : Scheduler ι} {a : Action ι} (h : Step hint i s t a s' t')
    (hm : .descriptorState d ∈ s.opQueue) : .descriptorState d ∈ s'.opQueue ∨
      ∃ f, t'.top = some f ∧ f.pc = .popped (.descriptorState d) := by
  cases h with
  | initTask =>
    rcases s.initTask_cases with he | ⟨-, he, -⟩
    · exact .inl (by rwa [he])
    · exact .inl (by simp [he, hm])
  | push => exact .inl (by simp [Scheduler.push_fst, hm])
  | stop => exact .inl (by rwa [Scheduler.stopAllThreads_eq])
  | pop hc ht hpc ho hs hqueue =>
    rename_i o rest f
    rw [hqueue, List.mem_cons] at hm
    rcases hm with rfl | hm
    · exact .inr ⟨_, rfl, rfl⟩
    · exact .inl (by simp [Scheduler.popFront_fst, hm])
  | taskCleanup => exact .inl (by simp [Scheduler.taskCleanup, hm])
  | spliced => exact .inl (by simp [Scheduler.workCleanup, hm])
  | splicedThrew => exact .inl (by simp [hm])
  | wait =>
    rename_i hqueue
    simp [hqueue] at hm
  | quiet | stored | restart | enter | nest | notify | transfer | lock | misuse | returns | finished
  | threw | wake | waitAgain | epollWait => exact .inl hm

omit [DecidableEq ι] in
/-- The places in `run()` where a thread has bits of a descriptor. -/
theorem Thread.QueueState.keeps (hq : t.QueueState) (h : t.keeps s d k = true) :
    ∃ f, t.top = some f ∧ (f.pc.phase = .reaping ∨
      s.ready d k = true ∧ f.pc = .popped (.descriptorState d) ∨
      ∃ events : Events, f.pc = .performIo d events ∧ events.getLsbD k = true) := by
  obtain ⟨f, ht, hk⟩ := Thread.keeps_iff.mp h
  refine ⟨f, ht, ?_⟩
  rcases hk with hb | ⟨hr, hu⟩
  · cases hpc : f.pc <;> simp [hpc, Pc.brings] at hb
    case events => exact .inl rfl
    case performIo d' events => exact .inr (.inr ⟨events, by rw [hb.1], hb.2⟩)
  · simp only [Run.unread, Bool.or_eq_true, decide_eq_true_eq, beq_iff_eq] at hu
    rcases hu with hm | hp
    · exact .inl (hq.reaping_of_mem ht hm)
    · exact .inr (.inl ⟨hr, hp⟩)

omit [DecidableEq ι] in
theorem Thread.keeps_of_top (hk : t.keeps s d k = true) (ht : t'.top = t.top)
    (hr : s.ready d k = true → s'.ready d k = true) : t'.keeps s' d k = true := by
  obtain ⟨f, hf, hk⟩ := Thread.keeps_iff.mp hk
  exact Thread.keeps_iff.mpr ⟨f, ht.trans hf, hk.imp id fun h => ⟨hr h.1, h.2⟩⟩

/-- The runner stores its batch and hands it over. -/
theorem runStep_reaping {f : Run} (ht : t.top = some f) (hl : t.LockState)
    (hvalid : (s.due d).getLsbD k = true → d < s.descriptors.length)
    (h : runStep hint i s f t = some (s', t')) (hf : f.pc.phase = .reaping)
    (hk : f.pc.brings d k = true ∨ s.ready d k = true ∧ f.unread d = true)
    (hdue : (s'.due d).getLsbD k = true) :
    s'.ready d k = true ∧ .descriptorState d ∈ s'.opQueue ∨ t'.keeps s' d k = true := by
  have hpop : f.pc ≠ .popped (.descriptorState d) := by
    intro hp
    rw [hp] at hf
    cases hf
  have hmem (hu : f.unread d = true) : .descriptorState d ∈ f.info.privateOpQueue := by
    simpa [Run.unread, hpop] using hu
  cases runStep_piece h with
  | batchEnd hpc =>
    right
    rcases hk with hb | ⟨hr, hu⟩
    · simp [hpc, Pc.brings] at hb
    · exact Thread.keeps_iff.mpr ⟨_, rfl, .inr ⟨hr, by simp [Run.unread, hmem hu]⟩⟩
  | store hpc =>
    right
    refine Thread.keeps_iff.mpr ⟨_, rfl, ?_⟩
    rcases hk with hb | ⟨hr', hu⟩
    · simp only [hpc, Pc.brings, List.any_cons, Bool.or_eq_true] at hb
      rcases hb with hb | hb
      · rw [storeEvent_due] at hdue
        obtain ⟨hready, hin⟩ := storeEvent_stores (f := f) hb (hvalid hdue)
        exact .inr ⟨hready, by simp [Run.unread, hin]⟩
      · exact .inl hb
    · refine .inr ⟨storeEvent_ready hr' fun _ _ => hmem hu, ?_⟩
      simp [Run.unread, storeEvent_mem (hmem hu)]
  | taskMerge hpc =>
    right
    rcases hk with hb | ⟨hr, hu⟩
    · simp [hpc, Pc.brings] at hb
    · exact Thread.keeps_iff.mpr ⟨_, rfl, .inr ⟨hr, by simp [mergeWork, Run.unread, hmem hu]⟩⟩
  | taskCleanup hpc =>
    left
    rcases hk with hb | ⟨hr, hu⟩
    · simp [hpc, Pc.brings] at hb
    · exact ⟨hr, by simp [Scheduler.taskCleanup, hmem hu]⟩
  | misuse ho =>
    rw [(hl.misuse_at_lock ht ho).1] at hf
    cases hf
  | lock hpc | returns hpc | wait hpc | pop hpc | complete hpc | performIo hpc | taskCompleted hpc
  | workMerge hpc | workFinished hpc | finished hpc | spliced hpc =>
    rw [hpc] at hf
    cases hf

/-- What a thread has of a descriptor it keeps, or gives to `op_queue_`, or to
`perform_io`. -/
theorem step_keeps (hl : t.LockState) (hq : t.QueueState)
    (hvalid : (s.due d).getLsbD k = true → d < s.descriptors.length) {a : Action ι}
    (h : step hint i a s t = some (s', t')) (hk : t.keeps s d k = true)
    (hdue : (s'.due d).getLsbD k = true) :
    s'.ready d k = true ∧ .descriptorState d ∈ s'.opQueue ∨ t'.keeps s' d k = true := by
  have hready := (step_reports h).ready d k
  obtain ⟨f, ht, hwhere⟩ := hq.keeps hk
  cases step_piece h with
  | user hu h =>
    obtain ⟨id, hpc⟩ := Thread.inUserCode_top hu ht
    simp [hpc] at hwhere
  | push | stop | notify | transfer =>
    exact .inr (Thread.keeps_of_top hk rfl fun hr => hready hr (by simp [overwrite]))
  | run hc hg h =>
    rw [ht] at hg
    cases hg
    rcases hwhere with hf | ⟨hr, hpc⟩ | ⟨events, hpc, -⟩
    · obtain ⟨f', hf', hk'⟩ := Thread.keeps_iff.mp hk
      rw [ht] at hf'
      cases hf'
      exact runStep_reaping ht hl hvalid h hf hk' hdue
    · -- `task_result_` is read
      simp only [runStep, hpc] at h
      obtain ⟨x, hx, h⟩ := Option.map_eq_some_iff.mp h
      cases h
      rw [ready_of_getElem? hx] at hr
      exact .inr (Thread.keeps_iff.mpr ⟨_, rfl, .inl (by simp [Pc.brings, hr])⟩)
    · simp [runStep, hpc] at h
  | wake hc hg hpc | waitAgain hc hg hpc =>
    rw [ht] at hg
    cases hg
    simp [hpc] at hwhere
  | epollWait hc hg h =>
    rw [ht] at hg
    cases hg
    simp only [epollWaitStep] at h
    split at h
    · rename_i block hpc
      simp [hpc] at hwhere
    · cases h
  | performIo hc hg h =>
    -- the bit is in the mask that `perform_io` is given
    rw [ht] at hg
    cases hg
    obtain ⟨-, d', events, hpc, hd⟩ := performIoStep_reports h
    simp only [hpc, Pc.phase_performIo, reduceCtorEq, and_false, false_or,
      Pc.performIo.injEq] at hwhere
    obtain ⟨events', ⟨rfl, rfl⟩, hbit⟩ := hwhere
    rw [hd, Function.update_self] at hdue
    simp [hbit] at hdue

omit [DecidableEq ι] in
theorem overwrite_eq {a : Action ι} {events : Events}
    (h : overwrite t a = some (d, events)) : a = .next ∧ ∃ f evs, t.top = some f ∧
      f.pc = .events (.descriptor d events :: evs) ∧
      .descriptorState d ∉ f.info.privateOpQueue := by
  cases a with
  | next =>
    simp only [overwrite] at h
    split at h
    · rename_i info owns d' events' evs n ht
      split at h
      · cases h
      · rename_i hmem
        cases h
        exact ⟨rfl, _, evs, ht, rfl, hmem⟩
    · cases h
  | _ => cases h

theorem overwrite_ready {a : Action ι} {events : Events} (ho : overwrite t a = some (d, events))
    (h : step hint i a s t = some (s', t')) (hd : d < s.descriptors.length)
    (hk : events.getLsbD k = true) : s'.ready d k = true := by
  obtain ⟨rfl, f, evs, ht, hpc, -⟩ := overwrite_eq ho
  simp only [step, ht, Option.bind_some, runStep, hpc, Option.ite_none_right_eq_some] at h
  cases h.2
  exact (storeEvent_stores (by simp [EpollEvent.brings, hk]) hd).1

end Steps

-- ---------------------------------------------------------------------------
-- Every run
-- ---------------------------------------------------------------------------

namespace System

variable [DecidableEq ι] {c c' : System ι} {l : ι × Action ι}

/-- Every bit that is due is in `task_result_` of a queued descriptor state, or
with a thread. -/
def Kept (c : System ι) : Prop :=
  ∀ d k, (c.shared.due d).getLsbD k = true →
    c.shared.ready d k = true ∧ .descriptorState d ∈ c.shared.opQueue ∨
      ∃ i, (c.thread i).keeps c.shared d k = true

/-- The step does not replace the mask of a descriptor state that a thread has
popped and not read yet, unless by a mask that contains it. -/
def ReadsFirst (c : System ι) (l : ι × Action ι) : Prop :=
  ∀ d events, overwrite (c.thread l.1) l.2 = some (d, events) →
    ∀ j f, (c.thread j).top = some f → f.pc = .popped (.descriptorState d) →
      ∀ k, c.shared.ready d k = true → events.getLsbD k = true

structure KeepsReadiness (c : System ι) [Fintype ι] : Prop extends OneTask c where
  kept : Kept c
  /-- `epoll_wait` reports descriptors that exist. -/
  known : ∀ d k, (c.shared.due d).getLsbD k = true → d < c.shared.descriptors.length

variable [Fintype ι]

omit [DecidableEq ι] in
theorem KeepsReadiness.new (m : Uninitialised) : KeepsReadiness (System.new m : System ι) where
  toOneTask := .new m
  kept d k h := by simp [System.new, Shared.new] at h
  known d k h := by simp [System.new, Shared.new] at h

omit [DecidableEq ι] in
/-- While the runner has a batch, a descriptor state that is not in its private
queue is in no queue. -/
theorem KeepsReadiness.popped_of_overwrite (h : KeepsReadiness c) {d : Nat} {events : Events}
    (ho : overwrite (c.thread l.1) l.2 = some (d, events)) :
    .descriptorState d ∉ c.shared.opQueue ∧ ∀ j f, (c.thread j).top = some f →
      f.unread d = true → f.pc = .popped (.descriptorState d) := by
  obtain ⟨-, f, evs, ht, hpc, hmem⟩ := overwrite_eq ho
  have hruns : (c.thread l.1).runs = true := by
    rw [Thread.runs, Thread.phase_of_top ht, hpc]
    rfl
  constructor
  · rw [← mem_descriptors, h.first.of_not_mem (h.task_not_mem hruns)]
    exact List.not_mem_nil
  · intro j g hg hu
    simp only [Run.unread, Bool.or_eq_true, decide_eq_true_eq, beq_iff_eq] at hu
    refine hu.resolve_left fun hm => ?_
    have hj : (c.thread j).runs = true := by
      rw [Thread.runs, Thread.phase_of_top hg, (h.queues j).reaping_of_mem hg hm]
      rfl
    obtain rfl := h.runs_unique hj hruns
    rw [ht] at hg
    cases hg
    exact hmem hm

theorem KeepsReadiness.next (h : KeepsReadiness c) (hok : ReadsFirst c l)
    (hn : System.next hint c l = some c') : KeepsReadiness c' where
  toOneTask := h.toOneTask.next hn
  known := by
    obtain ⟨s, t, hs, rfl⟩ := Threads.next_eq_some.mp hn
    have hrep := step_reports hs
    intro d k hd
    rcases hrep.due d k hd with hd | ⟨hlt, -⟩
    · exact Nat.lt_of_lt_of_le (h.known d k hd) hrep.length
    · exact Nat.lt_of_lt_of_le hlt hrep.length
  kept := by
    obtain ⟨s, t, hs, rfl⟩ := Threads.next_eq_some.mp hn
    have hrep := step_reports hs
    intro d k hd
    have self (hk : (c.thread l.1).keeps c.shared d k = true) :
        s.ready d k = true ∧ .descriptorState d ∈ s.opQueue ∨
          ∃ i, ((c.set l.1 s t).thread i).keeps s d k = true := by
      refine (step_keeps (h.locks l.1).state (h.queues l.1) (h.known d k) hs hk hd).imp id
        fun hk => ⟨l.1, ?_⟩
      rwa [Threads.set_thread_self]
    rcases hrep.due d k hd with hdue | ⟨-, hk⟩
    · rcases h.kept d k hdue with ⟨hr, hm⟩ | ⟨j, hk⟩
      · have hready : s.ready d k = true := by
          refine hrep.ready d k hr fun events ho => ?_
          exact (h.popped_of_overwrite ho).1 hm
        rcases (step_cases hs).popped hm with hm | ⟨f, hf, hpc⟩
        · exact .inl ⟨hready, hm⟩
        · refine .inr ⟨l.1, ?_⟩
          rw [Threads.set_thread_self]
          exact Thread.keeps_iff.mpr ⟨f, hf, .inr ⟨hready, by simp [Run.unread, hpc]⟩⟩
      · by_cases hj : j = l.1
        · subst hj
          exact self hk
        · by_cases ho : ∃ events, overwrite (c.thread l.1) l.2 = some (d, events)
          · obtain ⟨events, ho⟩ := ho
            obtain ⟨f, hf, hk⟩ := Thread.keeps_iff.mp hk
            refine .inr ⟨j, ?_⟩
            rw [Threads.set_thread_ne c hj]
            refine Thread.keeps_iff.mpr ⟨f, hf, hk.imp id fun ⟨hr, hu⟩ => ⟨?_, hu⟩⟩
            have hpc := (h.popped_of_overwrite ho).2 j f hf hu
            exact overwrite_ready ho hs (h.known d k hdue) (hok d events ho j f hf hpc k hr)
          · refine .inr ⟨j, ?_⟩
            rw [Threads.set_thread_ne c hj]
            exact Thread.keeps_of_top hk rfl fun hr => hrep.ready d k hr fun events he =>
              ho ⟨events, he⟩
    · refine .inr ⟨l.1, ?_⟩
      rwa [Threads.set_thread_self]

theorem readiness_kept (hint : Int) (m : Uninitialised) (c : System ι)
    (h : Reach (System.next hint) ReadsFirst (System.new m) c) : Kept c :=
  (Reach.invariant h (.new m) fun _ _ _ _ hi hok hn => KeepsReadiness.next hi hok hn).kept

/-- A read waits for data. The first thread stores `EPOLLIN` for its descriptor,
pops the descriptor state and has not read the mask. -/
def popUnread : List (Fin 3 × Action (Fin 3)) :=
  [(first, .user (.registerDescriptor 5 0)),
    (first, .user (.startOp (some 0) .readOp ⟨0, 0⟩ false true (fun _ => (.notDone, 11)) 0)),
    (first, .user .initTask), (first, .user .run), (first, .next), (first, .next),
    (first, .epollWait [.descriptor 0 epollIn]), (first, .next), (first, .next), (first, .next),
    (first, .next), (first, .next)]

/-- It reads the mask before the second thread stores the next event. -/
def readThenReport : List (Fin 3 × Action (Fin 3)) :=
  popUnread ++ [(first, .next), (second, .user .run), (second, .next), (second, .next),
    (second, .epollWait [.descriptor 0 epollOut]), (second, .next)]

theorem readiness_kept_readThenReport :
    ∃ c : System (Fin 3), exec (System.next 0) (System.new {}) readThenReport = some c ∧
      c.shared.due 0 = epollIn ||| epollOut ∧ Kept c := by
  refine ⟨_, rfl, by decide, readiness_kept 0 {} _ (.of_exec readThenReport ?_ rfl)⟩
  have other {c : System (Fin 3)} {l} (h : overwrite (c.thread l.1) l.2 = none) :
      ReadsFirst c l := fun _ _ he => by simp [h] at he
  have stores {c : System (Fin 3)} {l}
      (h : ∀ j f, (c.thread j).top = some f → ∀ o, f.pc ≠ .popped o) : ReadsFirst c l :=
    fun _ _ _ j f hf hpc => absurd hpc (h j f hf _)
  refine ⟨other rfl, other rfl, other rfl, other rfl, other rfl, other rfl, other rfl, stores ?_,
    other rfl, other rfl, other rfl, other rfl, other rfl, other rfl, other rfl, other rfl,
    other rfl, stores ?_, trivial⟩
  · intro j
    match j with
    | 0 => rintro _ ⟨⟩ _ ⟨⟩
    | 1 | 2 => rintro _ ⟨⟩
  · intro j
    match j with
    | 0 | 1 => rintro _ ⟨⟩ _ ⟨⟩
    | 2 => rintro _ ⟨⟩

/-- A write that may not be tried at once leaves the kernel with `EPOLLOUT`
alone; the second thread stores that event before the first has read `EPOLLIN`. -/
def reportUnread : List (Fin 3 × Action (Fin 3)) :=
  popUnread ++ [
    (second, .user (.startOp (some 0) .writeOp ⟨1, 0⟩ false false (fun _ => (.notDone, 11)) 0)),
    (second, .user .run), (second, .next), (second, .next),
    (second, .epollWait [.descriptor 0 epollOut]), (second, .next)]

/-- No thread will pass `EPOLLIN` to `perform_io`. -/
theorem reportUnread_loses :
    ¬ ∀ ls : List (Fin 3 × Action (Fin 3)), AllStates (System.next 0) Kept (System.new {}) ls := by
  intro h
  have hlast : Kept _ := (h reportUnread).of_exec rfl
  have hbit := hlast 0 0 (by decide)
  revert hbit
  decide

end System

end BoostAsio
