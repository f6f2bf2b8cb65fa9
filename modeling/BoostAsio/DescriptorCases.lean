import BoostAsio.Descriptor
import Mathlib.Data.List.Perm.Basic
import Mathlib.Data.List.Perm.Subperm

/-!
# What the descriptor functions can do

One lemma for each function of `BoostAsio.Descriptor`: the exits of `start_op`
with the guards that lead to them, and what a round of `perform_io` takes from
each queue. Proofs about runs of a descriptor use these and unfold nothing.
-/

namespace BoostAsio

namespace DescriptorState

variable {d : DescriptorState} {ty : OpType} {op : ReactorOp} {spec : Bool} {f : PerformFunc}
variable {ctl : ErrorCode} {events : Events}

@[simp] theorem setQueue_opQueue (d : DescriptorState) (ty : OpType) (q : OpQueue ReactorOp) :
    (d.setQueue ty q).opQueue = Function.update d.opQueue ty q := rfl
@[simp] theorem setSpeculative_opQueue (d : DescriptorState) (ty : OpType) (b : Bool) :
    (d.setSpeculative ty b).opQueue = d.opQueue := rfl
@[simp] theorem setSpeculative_shutdown (d : DescriptorState) (ty : OpType) (b : Bool) :
    (d.setSpeculative ty b).shutdown = d.shutdown := rfl

-- ---------------------------------------------------------------------------
-- start_op
-- ---------------------------------------------------------------------------

/-- The operation after the call of `perform()` that `start_op` makes, if any,
and the calls made: none of them found the operation done. -/
def NotYetDone (op op' : ReactorOp) (calls : List (Nat × Status)) : Prop :=
  op'.id = op.id ∧ ∀ c ∈ calls, c = (op.id, .notDone)

/-- `start_op` reaches its last branch, where the event mask is rewritten. -/
def Rearms (d : DescriptorState) (ty : OpType) (spec : Bool) : Prop :=
  d.shutdown = false ∧ d.opQueue ty = [] ∧ d.speculates ty spec = false ∧ d.registeredEvents ≠ 0

instance : Decidable (d.Rearms ty spec) := inferInstanceAs (Decidable (_ ∧ _ ∧ _ ∧ _))

inductive Exits (d : DescriptorState) (ty : OpType) (op : ReactorOp) (spec : Bool)
    (ctl : ErrorCode) : StartOp → Prop
  | shutdown : d.shutdown = true → Exits d ty op spec ctl ⟨d, .posted op, []⟩
  | performed {d' op' status} : d.shutdown = false → status ≠ .notDone → op'.id = op.id →
      d' = d ∨ d' = d.setSpeculative ty false →
      Exits d ty op spec ctl ⟨d', .posted op', [(op.id, status)]⟩
  | unsupported {op' calls} : d.shutdown = false → d.registeredEvents = 0 →
      NotYetDone op op' calls →
      Exits d ty op spec ctl ⟨d, .posted { op' with ec := notSupported }, calls⟩
  | refused {op' calls} : d.shutdown = false → ctl ≠ 0 → NotYetDone op op' calls →
      Exits d ty op spec ctl ⟨d, .posted { op' with ec := ctl }, calls⟩
  | armed {op' calls} : d.shutdown = false → ty = .writeOp → ctl = 0 →
      d.registeredEvents ≠ 0 → NotYetDone op op' calls →
      Exits d ty op spec ctl (({ d with
        registeredEvents := d.registeredEvents ||| (d.registeredEvents ||| epollOut),
        kernelEvents := d.registeredEvents ||| epollOut }).enqueue ty op' calls)
  | rearmed : d.Rearms ty spec → Exits d ty op spec ctl ((d.rearm ty ctl).enqueue ty op [])
  | queued {op' calls} : d.shutdown = false →
      d.opQueue ty ≠ [] ∨ (d.registeredEvents ≠ 0 ∧
        (ty = .writeOp → d.registeredEvents &&& epollOut ≠ 0)) →
      NotYetDone op op' calls → Exits d ty op spec ctl (d.enqueue ty op' calls)

theorem arm_exits {op' : ReactorOp} {calls : List (Nat × Status)} (hs : d.shutdown = false)
    (hc : NotYetDone op op' calls) : Exits d ty op spec ctl (d.arm ty op' ctl calls) := by
  unfold arm
  by_cases hr : d.registeredEvents = 0
  · simpa [hr] using .unsupported hs hr hc
  · rw [if_neg hr]
    by_cases hw : ty = .writeOp ∧ d.registeredEvents &&& epollOut = 0
    · rw [if_pos hw]
      by_cases hctl : ctl = 0
      · simp only [hctl, ↓reduceIte]
        exact .armed hs hw.1 rfl hr hc
      · simp only [hctl, ↓reduceIte]
        exact .refused hs hctl hc
    · rw [if_neg hw]
      exact .queued hs (.inr ⟨hr, fun h ho => hw ⟨h, ho⟩⟩) hc

theorem startOp_exits (d : DescriptorState) (ty : OpType) (op : ReactorOp) (spec : Bool)
    (f : PerformFunc) (ctl : ErrorCode) :
    Exits d ty op spec ctl (d.startOp ty op spec f ctl) := by
  unfold startOp
  cases hs : d.shutdown with
  | true => exact .shutdown hs
  | false =>
    simp only [Bool.false_eq_true, ↓reduceIte]
    by_cases hq : d.opQueue ty = []
    · simp only [hq, List.isEmpty_nil, ↓reduceIte]
      cases hsp : d.speculates ty spec with
      | true =>
        simp only [↓reduceIte, speculate]
        split
        · cases hst : (f op).1 with
          | notDone =>
            simp only [ReactorOp.perform, hst]
            exact arm_exits hs ⟨rfl, by simp⟩
          | done =>
            simp only [ReactorOp.perform, hst]
            exact .performed hs (by simp) rfl (.inl rfl)
          | doneAndExhausted =>
            simp only [ReactorOp.perform, hst]
            refine .performed hs (by simp) rfl ?_
            split
            · exact .inr rfl
            · exact .inl rfl
        · exact arm_exits hs ⟨rfl, by simp⟩
      | false =>
        simp only [Bool.false_eq_true, ↓reduceIte]
        by_cases hr : d.registeredEvents = 0
        · simpa [hr] using .unsupported hs hr ⟨rfl, by simp⟩
        · simp only [hr, ↓reduceIte]
          exact .rearmed ⟨hs, hq, hsp, hr⟩
    · simp only [List.isEmpty_iff, hq, ↓reduceIte]
      exact .queued hs (.inl hq) ⟨rfl, by simp⟩

-- ---------------------------------------------------------------------------
-- perform_io
-- ---------------------------------------------------------------------------

/-- What the loop does to one queue: it removes a front part, in order, and
every call it makes is on an operation of the queue. -/
theorem performQueue_ids (f : PerformFunc) (q : OpQueue ReactorOp) :
    ((performQueue f q).completed ++ (performQueue f q).left).map ReactorOp.id =
      q.map ReactorOp.id := by
  induction q with
  | nil => rfl
  | cons op rest ih =>
    simp only [performQueue, ReactorOp.perform]
    split
    · rfl
    · simpa using ih
    · rfl

theorem performQueue_called (f : PerformFunc) (q : OpQueue ReactorOp) :
    ∀ c ∈ (performQueue f q).calls, c.1 ∈ q.map ReactorOp.id := by
  induction q with
  | nil => simp [performQueue]
  | cons op rest ih =>
    cases hst : (f op).1 with
    | notDone => simp [performQueue, ReactorOp.perform, hst]
    | done =>
      simp only [performQueue, ReactorOp.perform, hst, List.forall_mem_cons]
      exact ⟨by simp, fun c hc => List.mem_cons_of_mem _ (ih c hc)⟩
    | doneAndExhausted => simp [performQueue, ReactorOp.perform, hst]

theorem performQueue_completed (f : PerformFunc) (q : OpQueue ReactorOp) :
    ∀ op ∈ (performQueue f q).completed,
      ∃ c ∈ (performQueue f q).calls, c.1 = op.id ∧ c.2 ≠ .notDone := by
  induction q with
  | nil => simp [performQueue]
  | cons op rest ih =>
    cases hst : (f op).1 with
    | notDone => simp [performQueue, ReactorOp.perform, hst]
    | done =>
      simp only [performQueue, ReactorOp.perform, hst, List.forall_mem_cons]
      refine ⟨⟨_, List.mem_cons_self, rfl, by simp⟩, fun o ho => ?_⟩
      obtain ⟨c, hc, h⟩ := ih o ho
      exact ⟨c, List.mem_cons_of_mem _ hc, h⟩
    | doneAndExhausted => simp [performQueue, ReactorOp.perform, hst]

/-- In a queue without duplicates an operation that stays was not found done. -/
theorem performQueue_left (f : PerformFunc) (q : OpQueue ReactorOp)
    (hq : (q.map ReactorOp.id).Nodup) :
    ∀ op ∈ (performQueue f q).left, ∀ c ∈ (performQueue f q).calls, c.1 = op.id →
      c.2 = .notDone := by
  induction q with
  | nil => simp [performQueue]
  | cons op rest ih =>
    obtain ⟨hop, hrest⟩ := List.nodup_cons.mp hq
    cases hst : (f op).1 with
    | notDone => simp [performQueue, ReactorOp.perform, hst]
    | done =>
      simp only [performQueue, ReactorOp.perform, hst, List.forall_mem_cons]
      refine fun o ho => ⟨fun hid => ?_, ih hrest o ho⟩
      have hmem : o.id ∈ rest.map ReactorOp.id := by
        rw [← performQueue_ids f rest]
        exact List.mem_map.mpr ⟨o, List.mem_append_right _ ho, rfl⟩
      exact absurd (hid ▸ hmem) hop
    | doneAndExhausted =>
      simp only [performQueue, ReactorOp.perform, hst, List.mem_singleton, forall_eq]
      exact fun o ho hid => absurd (hid ▸ List.mem_map.mpr ⟨o, ho, rfl⟩) hop

def pendingIds (d : DescriptorState) : List Nat := d.pending.map ReactorOp.id

theorem pendingIds_congr {d d' : DescriptorState} (h : d'.opQueue = d.opQueue) :
    d'.pendingIds = d.pendingIds := by simp [pendingIds, pending, h]

theorem mem_pending {d : DescriptorState} : op ∈ d.pending ↔ ∃ ty, op ∈ d.opQueue ty := by
  simp only [pending, List.mem_append]
  constructor
  · rintro ((h | h) | h)
    · exact ⟨_, h⟩
    · exact ⟨_, h⟩
    · exact ⟨_, h⟩
  · rintro ⟨ty, h⟩
    cases ty <;> simp [h]

theorem pending_eq_nil {d : DescriptorState} : d.pending = [] ↔ ∀ ty, d.opQueue ty = [] := by
  simp only [pending, List.append_eq_nil_iff]
  exact ⟨fun h ty => by cases ty <;> simp [h], fun h => ⟨⟨h _, h _⟩, h _⟩⟩

/-- Replacing one queue exchanges its operations for the new ones. -/
theorem count_setQueue (d : DescriptorState) (ty : OpType) (q : OpQueue ReactorOp) (a : Nat) :
    (d.setQueue ty q).pendingIds.count a + ((d.opQueue ty).map ReactorOp.id).count a =
      d.pendingIds.count a + (q.map ReactorOp.id).count a := by
  cases ty <;> simp [pendingIds, pending] <;> omega

theorem count_enqueue (d : DescriptorState) (ty : OpType) (op : ReactorOp) (a : Nat) :
    (d.setQueue ty (d.opQueue ty ++ [op])).pendingIds.count a =
      d.pendingIds.count a + [op.id].count a := by
  have h := count_setQueue d ty (d.opQueue ty ++ [op]) a
  simp only [List.map_append, List.map_cons, List.map_nil, List.count_append] at h
  omega

/-- What a round of `perform_io` over some of the types preserves, from the
state it starts in: it is the invariant of the `for` loop. -/
structure Round (d : DescriptorState) (r : PerformIo) : Prop where
  count : ∀ a, r.data.pendingIds.count a + (r.ops.map ReactorOp.id).count a =
    d.pendingIds.count a
  called : ∀ c ∈ r.calls, c.1 ∈ d.pendingIds
  completed : ∀ op ∈ r.ops, ∃ c ∈ r.calls, c.1 = op.id ∧ c.2 ≠ .notDone
  left : d.pendingIds.Nodup → ∀ op ∈ r.data.pending, ∀ c ∈ r.calls, c.1 = op.id →
    c.2 = .notDone
  shutdown : r.data.shutdown = d.shutdown
  registeredEvents : r.data.registeredEvents = d.registeredEvents
  kernelEvents : r.data.kernelEvents = d.kernelEvents
  emptied : ∀ ty, d.opQueue ty = [] → r.data.opQueue ty = []

theorem Round.start (d : DescriptorState) : Round d ⟨d, [], []⟩ where
  count := by simp
  called := by simp
  completed := by simp
  left := by simp
  shutdown := rfl
  registeredEvents := rfl
  kernelEvents := rfl
  emptied := fun _ h => h

theorem Round.nodup {r : PerformIo} (h : Round d r) (hd : d.pendingIds.Nodup) :
    r.data.pendingIds.Nodup := by
  rw [List.nodup_iff_count] at hd ⊢
  intro a
  have := h.count a
  have := hd a
  omega

/-- Where no operation is pending twice, the operations of one queue are not
in another. -/
theorem not_mem_other_queue (hd : d.pendingIds.Nodup) {ty ty' : OpType} (hne : ty' ≠ ty)
    (hop : op ∈ d.opQueue ty') : op.id ∉ (d.opQueue ty).map ReactorOp.id := by
  intro hmem
  have hc := count_setQueue d ty [] op.id
  have h1 : 0 < ((d.opQueue ty).map ReactorOp.id).count op.id := List.count_pos_iff.mpr hmem
  have h2 : 0 < (d.setQueue ty []).pendingIds.count op.id := by
    refine List.count_pos_iff.mpr (List.mem_map.mpr ⟨op, mem_pending.mpr ⟨ty', ?_⟩, rfl⟩)
    simpa [Function.update_of_ne hne] using hop
  have h3 := List.nodup_iff_count.mp hd op.id
  simp at hc
  omega

theorem mem_pendingIds_of_queue {d : DescriptorState} {ty : OpType} {a : Nat}
    (ha : a ∈ (d.opQueue ty).map ReactorOp.id) : a ∈ d.pendingIds := by
  obtain ⟨op, hop, rfl⟩ := List.mem_map.mp ha
  exact List.mem_map.mpr ⟨op, mem_pending.mpr ⟨ty, hop⟩, rfl⟩

theorem nodup_queue {d : DescriptorState} (hd : d.pendingIds.Nodup) (ty : OpType) :
    ((d.opQueue ty).map ReactorOp.id).Nodup := by
  rw [List.nodup_iff_count] at hd ⊢
  intro a
  have := count_setQueue d ty [] a
  have := hd a
  simp only [List.map_nil, List.count_nil] at *
  omega

theorem Round.pendingIds_subset {r : PerformIo} (h : Round d r) {a : Nat}
    (ha : a ∈ r.data.pendingIds) : a ∈ d.pendingIds := by
  have := h.count a
  have := List.count_pos_iff.mpr ha
  exact List.count_pos_iff.mp (by omega)

theorem performQueue_count (f : PerformFunc) (q : OpQueue ReactorOp) (a : Nat) :
    ((performQueue f q).completed.map ReactorOp.id).count a +
      ((performQueue f q).left.map ReactorOp.id).count a = (q.map ReactorOp.id).count a := by
  rw [← performQueue_ids f q]
  simp

/-- An operation that is pending behind a turn of the loop was never found
done. -/
theorem Round.performType_left {r : PerformIo} (h : Round d r) (hd : d.pendingIds.Nodup)
    (ty : OpType) {ty' : OpType} {op : ReactorOp} {c : Nat × Status}
    (hop : op ∈ Function.update r.data.opQueue ty (performQueue f (r.data.opQueue ty)).left ty')
    (hc : c ∈ r.calls ++ (performQueue f (r.data.opQueue ty)).calls) (hid : c.1 = op.id) :
    c.2 = .notDone := by
  have hr := h.nodup hd
  by_cases hty : ty' = ty
  · subst hty
    rw [Function.update_self] at hop
    have hmem : op.id ∈ (r.data.opQueue ty').map ReactorOp.id := by
      rw [← performQueue_ids f (r.data.opQueue ty')]
      exact List.mem_map.mpr ⟨op, List.mem_append_right _ hop, rfl⟩
    rcases List.mem_append.mp hc with hc | hc
    · obtain ⟨o, ho, hoid⟩ := List.mem_map.mp hmem
      exact h.left hd o (mem_pending.mpr ⟨_, ho⟩) c hc (hid.trans hoid.symm)
    · exact performQueue_left f _ (nodup_queue hr ty') op hop c hc hid
  · rw [Function.update_of_ne hty] at hop
    rcases List.mem_append.mp hc with hc | hc
    · exact h.left hd op (mem_pending.mpr ⟨ty', hop⟩) c hc hid
    · exact absurd (hid ▸ performQueue_called f _ c hc) (not_mem_other_queue hr hty hop)

theorem Round.performType {r : PerformIo} (h : Round d r) (ty : OpType) :
    Round d (performType events f r ty) := by
  unfold DescriptorState.performType
  split
  swap
  · exact h
  refine ⟨?count, ?called, ?completed, ?left, h.shutdown, h.registeredEvents, h.kernelEvents,
    ?emptied⟩
  case count =>
    intro a
    have := count_setQueue r.data ty (performQueue f (r.data.opQueue ty)).left a
    have := h.count a
    have := performQueue_count f (r.data.opQueue ty) a
    simp only [List.map_append, List.count_append]
    change (r.data.setQueue ty _).pendingIds.count a + _ = _
    omega
  case called =>
    intro c hc
    rcases List.mem_append.mp hc with hc | hc
    · exact h.called c hc
    · exact h.pendingIds_subset (mem_pendingIds_of_queue (performQueue_called f _ c hc))
  case completed =>
    intro op hop
    rcases List.mem_append.mp hop with hop | hop
    · obtain ⟨c, hc, h'⟩ := h.completed op hop
      exact ⟨c, List.mem_append_left _ hc, h'⟩
    · obtain ⟨c, hc, h'⟩ := performQueue_completed f _ op hop
      exact ⟨c, List.mem_append_right _ hc, h'⟩
  case left =>
    intro hd op hop c hc hid
    obtain ⟨ty', hop⟩ := mem_pending.mp hop
    exact h.performType_left hd ty hop hc hid
  case emptied =>
    intro ty' h'
    by_cases hty : ty' = ty
    · subst hty
      simp [h.emptied _ h', performQueue]
    · simp [Function.update_of_ne hty, h.emptied _ h']

theorem performIo_round (d : DescriptorState) (events : Events) (f : PerformFunc) :
    Round d (d.performIo events f) :=
  (((Round.start d).performType _).performType _).performType _

-- ---------------------------------------------------------------------------
-- cancel_ops and deregister_descriptor
-- ---------------------------------------------------------------------------

@[simp] theorem drain_pending (d : DescriptorState) : d.drain.1.pending = [] := rfl
@[simp] theorem drain_pendingIds (d : DescriptorState) : d.drain.1.pendingIds = [] := rfl
@[simp] theorem drain_ids (d : DescriptorState) :
    d.drain.2.map ReactorOp.id = d.pendingIds := by
  simp [drain, pendingIds, Function.comp_def]

theorem deregister_live (hs : d.shutdown = false) (closing : Bool) :
    ∃ d', d.deregister closing = (d', some d.drain.2) ∧ d'.shutdown = true ∧
      d'.pending = [] := by
  simp only [deregister, hs, Bool.false_eq_true, ↓reduceIte]
  split
  · exact ⟨_, rfl, rfl, rfl⟩
  · exact ⟨_, rfl, rfl, rfl⟩

theorem deregister_shutdown (hs : d.shutdown = true) (closing : Bool) :
    d.deregister closing = (d, none) := by simp [deregister, hs]

-- ---------------------------------------------------------------------------
-- What each function does to the pending operations
-- ---------------------------------------------------------------------------

/-- `start_op` posts the operation, and leaves the queues as they are, or adds
it to them. -/
theorem startOp_pending (d : DescriptorState) (ty : OpType) (op : ReactorOp) (spec : Bool)
    (f : PerformFunc) (ctl : ErrorCode) :
    match (d.startOp ty op spec f ctl).exit with
    | .posted op' => op'.id = op.id ∧ (d.startOp ty op spec f ctl).data.pendingIds = d.pendingIds
    | .queued => ∀ a, (d.startOp ty op spec f ctl).data.pendingIds.count a =
        (op.id :: d.pendingIds).count a := by
  have queued {d' : DescriptorState} {op' : ReactorOp} (hd : d'.opQueue = d.opQueue)
      (hid : op'.id = op.id) (a : Nat) :
      (d'.setQueue ty (d'.opQueue ty ++ [op'])).pendingIds.count a =
        (op.id :: d.pendingIds).count a := by
    rw [count_enqueue, pendingIds_congr hd, hid]
    simp [List.count_cons]
  have h := startOp_exits d ty op spec f ctl
  generalize d.startOp ty op spec f ctl = r at h
  cases h with
  | shutdown => exact ⟨rfl, rfl⟩
  | performed _ _ hid hd =>
    refine ⟨hid, ?_⟩
    rcases hd with rfl | rfl <;> rfl
  | unsupported _ _ hc => exact ⟨hc.1, rfl⟩
  | refused _ _ hc => exact ⟨hc.1, rfl⟩
  | armed _ _ _ _ hc => exact queued rfl hc.1
  | rearmed => exact queued rfl rfl
  | queued _ _ hc => exact queued rfl hc.1

theorem register_pending (descriptor : Int) (ctl : ErrorCode) :
    (register descriptor ctl).1.pendingIds = [] := by
  simp only [register]
  split
  · rfl
  · split <;> rfl

theorem registerInternal_pending (ty : OpType) (descriptor : Int) (op : ReactorOp)
    (ctl : ErrorCode) : (registerInternal ty descriptor op ctl).1.pendingIds = [op.id] := by
  simp only [registerInternal]
  split <;> cases ty <;> rfl

theorem cancelOps_pending (d : DescriptorState) :
    d.cancelOps.1.pendingIds = [] ∧ d.cancelOps.2.map ReactorOp.id = d.pendingIds :=
  ⟨drain_pendingIds d, drain_ids d⟩

theorem deregister_pending {d' : DescriptorState} {closing : Bool} {ops : List ReactorOp}
    (h : d.deregister closing = (d', some ops)) :
    d'.pendingIds = [] ∧ ops.map ReactorOp.id = d.pendingIds := by
  cases hs : d.shutdown with
  | true => simp [deregister_shutdown hs] at h
  | false =>
    obtain ⟨x, hx, -, hp⟩ := deregister_live hs closing
    rw [hx] at h
    cases h
    exact ⟨by simp [pendingIds, hp], drain_ids d⟩

/-- It returns only where nothing is pending. -/
theorem deregisterInternal_pending {d' : DescriptorState} {ops : List ReactorOp}
    (h : d.deregisterInternal = some (d', some ops)) :
    d'.pendingIds = d.pendingIds ∧ d.pendingIds = [] ∧ ops = [] := by
  simp only [deregisterInternal] at h
  split at h
  · cases h
  · simp only [Option.bind_eq_bind, Option.bind_eq_some_iff, OpQueue.pushDerived_eq] at h
    obtain ⟨_, ⟨hread, rfl⟩, _, ⟨hwrite, rfl⟩, _, ⟨hexcept, rfl⟩, h⟩ := h
    cases h
    exact ⟨rfl, by simp [pendingIds, pending, hread, hwrite, hexcept], rfl⟩

/-- It goes round for ever where it finds an operation. -/
theorem deregisterInternal_eq_none :
    d.deregisterInternal = none ↔ d.shutdown = false ∧ d.pendingIds ≠ [] := by
  simp only [deregisterInternal, pendingIds, pending]
  cases d.shutdown with
  | true => simp
  | false =>
    cases d.opQueue .readOp <;> cases d.opQueue .writeOp <;> cases d.opQueue .exceptOp <;>
      simp [OpQueue.pushDerived]

end DescriptorState

end BoostAsio
