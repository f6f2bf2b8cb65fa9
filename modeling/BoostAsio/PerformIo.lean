import BoostAsio.DescriptorCases
import BoostAsio.System
import BoostAsio.Lib.Loops

/-!
# What perform_io completes

The loop of `perform_io` on one queue (`performTurn`) is left in what
`performQueue` computes. `PerformedQueue` says what that is: `perform()` is
called on operations from the front, up to the first that does not go on to the
next one. `performIo_spec` puts the three queues together, and what
`perform_io` returns and posts.
-/

namespace BoostAsio.DescriptorState

open Loops

/-- `flag[j] | EPOLLERR | EPOLLHUP` is in the mask. -/
def Triggered (events : Events) (ty : OpType) : Prop :=
  events &&& (ty.flag ||| epollErr ||| epollHup) ≠ 0

-- ---------------------------------------------------------------------------
-- The loop on one queue
-- ---------------------------------------------------------------------------

structure Performing where
  queue : OpQueue ReactorOp
  ops : List ReactorOp
  trySpeculative : Bool
  calls : List (Nat × Status)
  /-- The sizes of `queue` at the calls of `pop()`. -/
  pops : List Nat
  left : Bool := false

/-- `op_queue_[j].pop()` and `io_cleanup.ops_.push(op)` -/
def Performing.complete (s : Performing) (op : ReactorOp) : Performing :=
  { s with queue := s.queue.tail, ops := s.ops ++ [op], pops := s.pops ++ [s.queue.length] }

/-- One turn of `while (reactor_op* op = op_queue_[j].front())`. -/
def performTurn (f : PerformFunc) (s : Performing) : Option Performing :=
  if s.left then none
  else match s.queue with
    | [] => none
    | op :: rest =>
      let (op, status) := op.perform f
      let s := { s with queue := op :: rest, calls := s.calls ++ [(op.id, status)] }
      match status with
      | .notDone => some { s with left := true }
      | .done => some (s.complete op)
      | .doneAndExhausted => some { s.complete op with trySpeculative := false, left := true }

/-- The sizes of a queue of `n` operations at `m` calls of `pop()` in a row. -/
def popSizes (n m : Nat) : List Nat := (List.range m).map fun i => n - i

theorem popSizes_succ (n m : Nat) : popSizes (n + 1) (m + 1) = (n + 1) :: popSizes n m := by
  simp [popSizes, List.range_succ_eq_map, Function.comp_def]

theorem popSizes_pos {n m : Nat} (h : m ≤ n) : ∀ k ∈ popSizes n m, 0 < k := by
  intro k hk
  obtain ⟨i, hi, rfl⟩ := List.mem_map.mp hk
  have hi := List.mem_range.mp hi
  omega

theorem ends_performTurn (f : PerformFunc) (q : OpQueue ReactorOp) (ops : List ReactorOp)
    (calls : List (Nat × Status)) (pops : List Nat) : ∃ left,
    Ends (performTurn f) ⟨q, ops, true, calls, pops, false⟩
      ⟨(performQueue f q).left, ops ++ (performQueue f q).completed,
        (performQueue f q).trySpeculative, calls ++ (performQueue f q).calls,
        pops ++ popSizes q.length (performQueue f q).completed.length, left⟩ := by
  induction q generalizing ops calls pops with
  | nil => exact ⟨false, by simpa [performQueue, popSizes] using .done rfl⟩
  | cons op rest ih =>
    cases hst : (f op).1 with
    | notDone =>
      have hturn : performTurn f ⟨op :: rest, ops, true, calls, pops, false⟩ = some
          ⟨(op.perform f).1 :: rest, ops, true, calls ++ [(op.id, .notDone)], pops, true⟩ := by
        simp [performTurn, ReactorOp.perform, hst]
      refine ⟨true, .turn hturn ?_⟩
      simpa [performQueue, ReactorOp.perform, hst, popSizes] using .done rfl
    | done =>
      have hturn : performTurn f ⟨op :: rest, ops, true, calls, pops, false⟩ = some
          ⟨rest, ops ++ [(op.perform f).1], true, calls ++ [(op.id, .done)],
            pops ++ [rest.length + 1], false⟩ := by
        simp [performTurn, Performing.complete, ReactorOp.perform, hst]
      obtain ⟨left, hrest⟩ := ih (ops ++ [(op.perform f).1]) (calls ++ [(op.id, .done)])
        (pops ++ [rest.length + 1])
      refine ⟨left, .turn hturn ?_⟩
      simpa [performQueue, ReactorOp.perform, hst, popSizes_succ] using hrest
    | doneAndExhausted =>
      have hturn : performTurn f ⟨op :: rest, ops, true, calls, pops, false⟩ = some
          ⟨rest, ops ++ [(op.perform f).1], false, calls ++ [(op.id, .doneAndExhausted)],
            pops ++ [rest.length + 1], true⟩ := by
        simp [performTurn, Performing.complete, ReactorOp.perform, hst]
      refine ⟨true, .turn hturn ?_⟩
      simpa [performQueue, ReactorOp.perform, hst, popSizes] using .done rfl

-- ---------------------------------------------------------------------------
-- What the loop does to one queue
-- ---------------------------------------------------------------------------

/-- `perform()` is called on `called` from the front, up to the first that does
not return `done`, or to the end. -/
structure CalledFromFront (f : PerformFunc) (q called uncalled : List ReactorOp) : Prop where
  split : q = called ++ uncalled
  goesOn : ∀ op ∈ called.dropLast, (f op).1 = .done
  stops : uncalled ≠ [] → ∃ op, called.getLast? = some op ∧ (f op).1 ≠ .done

/-- Of the operations called, those that returned `done` or
`done_and_exhausted` are completed and the others stay, before all that were
not called. -/
structure PerformedQueue (f : PerformFunc) (called uncalled : List ReactorOp)
    (r : QueuePerformed) : Prop where
  calls : r.calls = called.map fun op => (op.id, (f op).1)
  completed : r.completed =
    (called.filter fun op => (f op).1 ≠ .notDone).map fun op => (op.perform f).1
  left : r.left =
    (called.filter fun op => (f op).1 = .notDone).map (fun op => (op.perform f).1) ++ uncalled
  trySpeculative : r.trySpeculative = false ↔
    ∃ op, called.getLast? = some op ∧ (f op).1 = .doneAndExhausted

theorem CalledFromFront.cons {f : PerformFunc} {op : ReactorOp} {q called uncalled : List ReactorOp}
    (hst : (f op).1 = .done) (h : CalledFromFront f q called uncalled) :
    CalledFromFront f (op :: q) (op :: called) uncalled := by
  constructor
  · rw [h.split, List.cons_append]
  · cases called with
    | nil => simp
    | cons a called => simpa [hst] using h.goesOn
  · intro hne
    obtain ⟨last, hlast, hstop⟩ := h.stops hne
    cases called with
    | nil => cases hlast
    | cons a called => exact ⟨last, by rw [List.getLast?_cons_cons, hlast], hstop⟩

theorem performQueue_spec (f : PerformFunc) (q : OpQueue ReactorOp) : ∃ called uncalled,
    CalledFromFront f q called uncalled ∧ PerformedQueue f called uncalled (performQueue f q) := by
  induction q with
  | nil => exact ⟨[], [], ⟨rfl, by simp, by simp⟩, ⟨rfl, rfl, rfl, by simp [performQueue]⟩⟩
  | cons op rest ih =>
    cases hst : (f op).1 with
    | notDone =>
      refine ⟨[op], rest, ⟨rfl, by simp, by simp [hst]⟩, ?_⟩
      constructor <;> simp [performQueue, ReactorOp.perform, hst]
    | done =>
      obtain ⟨called, uncalled, hcalled, h⟩ := ih
      refine ⟨op :: called, uncalled, hcalled.cons hst, ?_⟩
      simp only [performQueue, ReactorOp.perform, hst]
      constructor
      · simp [h.calls, hst]
      · simp [h.completed, hst, ReactorOp.perform]
      · simp [h.left, hst, ReactorOp.perform]
      · rw [h.trySpeculative]
        cases called with
        | nil => simp [hst]
        | cons a called => simp only [List.getLast?_cons_cons]
    | doneAndExhausted =>
      refine ⟨[op], rest, ⟨rfl, by simp, by simp [hst]⟩, ?_⟩
      constructor <;> simp [performQueue, ReactorOp.perform, hst]

theorem performQueue_completed_eq_nil (f : PerformFunc) (q : OpQueue ReactorOp) :
    (performQueue f q).completed = [] ↔ ∀ op ∈ q.head?, (f op).1 = .notDone := by
  cases q with
  | nil => simp [performQueue]
  | cons op rest =>
    cases hst : (f op).1 <;> simp [performQueue, ReactorOp.perform, hst]

-- ---------------------------------------------------------------------------
-- The three queues
-- ---------------------------------------------------------------------------

instance (events : Events) (ty : OpType) : Decidable (Triggered events ty) :=
  inferInstanceAs (Decidable (_ ≠ _))

/-- What a turn of the `for` loop does to the queue of its type. -/
def performed (d : DescriptorState) (events : Events) (f : PerformFunc) (ty : OpType) :
    QueuePerformed :=
  if Triggered events ty then performQueue f (d.opQueue ty)
  else ⟨[], d.opQueue ty, d.trySpeculative ty, []⟩

variable {d : DescriptorState} {events : Events} {f : PerformFunc}

theorem performType_eq (r : PerformIo) (ty : OpType) : performType events f r ty =
    ⟨(r.data.setSpeculative ty (r.data.performed events f ty).trySpeculative).setQueue ty
        (r.data.performed events f ty).left,
      r.ops ++ (r.data.performed events f ty).completed,
      r.calls ++ (r.data.performed events f ty).calls⟩ := by
  unfold performType performed
  by_cases h : Triggered events ty
  · rw [if_pos h]
    exact if_pos h
  · rw [if_neg h]
    refine (if_neg h).trans ?_
    simp [setSpeculative, setQueue]

theorem performed_set {ty ty' : OpType} (hne : ty' ≠ ty) (d : DescriptorState) (b : Bool)
    (q : OpQueue ReactorOp) :
    ((d.setSpeculative ty b).setQueue ty q).performed events f ty' = d.performed events f ty' := by
  simp [performed, setSpeculative, setQueue, hne]

theorem performIo_eq (d : DescriptorState) (events : Events) (f : PerformFunc) :
    d.performIo events f =
      ⟨{ d with
          opQueue := fun ty => (d.performed events f ty).left
          trySpeculative := fun ty => (d.performed events f ty).trySpeculative },
        (d.performed events f .exceptOp).completed ++ (d.performed events f .writeOp).completed ++
          (d.performed events f .readOp).completed,
        (d.performed events f .exceptOp).calls ++ (d.performed events f .writeOp).calls ++
          (d.performed events f .readOp).calls⟩ := by
  have hwrite : OpType.writeOp ≠ .exceptOp := by decide
  have hread : OpType.readOp ≠ .exceptOp := by decide
  have hread' : OpType.readOp ≠ .writeOp := by decide
  simp only [performIo, List.foldl_cons, List.foldl_nil, performType_eq, List.nil_append,
    performed_set hwrite, performed_set hread, performed_set hread']
  congr 1
  simp only [setSpeculative, setQueue, DescriptorState.mk.injEq, true_and, and_true]
  constructor <;> funext ty <;> cases ty <;> rfl

/-- What `perform_io` does for one type: `calls` are the calls of `perform()`
on its queue and `removed` the operations that it completes. -/
structure PerformedType (events : Events) (f : PerformFunc) (d d' : DescriptorState) (ty : OpType)
    (calls : List (Nat × Status)) (removed : List ReactorOp) : Prop where
  triggered : Triggered events ty → ∃ called uncalled,
    CalledFromFront f (d.opQueue ty) called uncalled ∧
      PerformedQueue f called uncalled ⟨removed, d'.opQueue ty, d'.trySpeculative ty, calls⟩
  untouched : ¬ Triggered events ty → d'.opQueue ty = d.opQueue ty ∧
    d'.trySpeculative ty = d.trySpeculative ty ∧ calls = [] ∧ removed = []

theorem performed_spec (ty : OpType) : PerformedType events f d (d.performIo events f).data ty
    (d.performed events f ty).calls (d.performed events f ty).completed := by
  rw [performIo_eq]
  constructor
  · intro h
    obtain ⟨called, uncalled, hcalled, hspec⟩ := performQueue_spec f (d.opQueue ty)
    refine ⟨called, uncalled, hcalled, ?_⟩
    simpa only [performed, if_pos h] using hspec
  · intro h
    simp [performed, h]

-- ---------------------------------------------------------------------------
-- The end of perform_io
-- ---------------------------------------------------------------------------

/-- What `perform_io` returns, and what the destructor of
`perform_io_cleanup_on_block_exit` does. -/
structure Finished where
  firstOp : Option ReactorOp
  /-- What is given to `post_deferred_completions`, if it is called. -/
  posted : Option (List ReactorOp) := none
  compensated : Bool := false

/-- `first_op_ = ops_.front(); ops_.pop(); return first_op_;` -/
def PerformIo.finish (r : PerformIo) : Finished :=
  match r.ops.head? with
  | some op => { firstOp := some op, posted := if r.ops.tail = [] then none else some r.ops.tail }
  | none => { firstOp := none, compensated := true }

/-- Some operation is completed: the front operation of a triggered type is. -/
def Completes (d : DescriptorState) (events : Events) (f : PerformFunc) : Prop :=
  ∃ ty, Triggered events ty ∧ ∃ op ∈ (d.opQueue ty).head?, (f op).1 ≠ .notDone

theorem performed_completed_eq_nil (ty : OpType) : (d.performed events f ty).completed = [] ↔
    (Triggered events ty → ∀ op ∈ (d.opQueue ty).head?, (f op).1 = .notDone) := by
  unfold performed
  by_cases h : Triggered events ty
  · simp [h, performQueue_completed_eq_nil]
  · simp [h]

theorem ops_ne_nil_iff : (d.performIo events f).ops ≠ [] ↔ d.Completes events f := by
  rw [performIo_eq]
  simp only [ne_eq, List.append_eq_nil_iff, performed_completed_eq_nil, Completes]
  constructor
  · intro h
    by_contra hnone
    have hnil (ty : OpType) (hty : Triggered events ty) (op : ReactorOp)
        (hop : op ∈ (d.opQueue ty).head?) : (f op).1 = .notDone := by
      by_contra hdone
      exact hnone ⟨ty, hty, op, hop, hdone⟩
    exact h ⟨⟨hnil _, hnil _⟩, hnil _⟩
  · rintro ⟨ty, hty, op, hop, hdone⟩ ⟨⟨hexcept, hwrite⟩, hread⟩
    cases ty with
    | readOp => exact hdone (hread hty op hop)
    | writeOp => exact hdone (hwrite hty op hop)
    | exceptOp => exact hdone (hexcept hty op hop)

theorem performIo_completes (d : DescriptorState) (events : Events) (f : PerformFunc)
    (h : d.Completes events f) :
    ∃ (calls : OpType → List (Nat × Status)) (removed : OpType → List ReactorOp)
      (first : ReactorOp),
      (∀ ty, PerformedType events f d (d.performIo events f).data ty (calls ty) (removed ty)) ∧
      (d.performIo events f).calls = calls .exceptOp ++ calls .writeOp ++ calls .readOp ∧
      (d.performIo events f).finish.firstOp = some first ∧
      first :: (d.performIo events f).finish.posted.getD [] =
        removed .exceptOp ++ removed .writeOp ++ removed .readOp ∧
      (d.performIo events f).finish.compensated = false := by
  obtain ⟨first, rest, hops⟩ := List.exists_cons_of_ne_nil (ops_ne_nil_iff.mpr h)
  refine ⟨fun ty => (d.performed events f ty).calls, fun ty => (d.performed events f ty).completed,
    first, performed_spec, ?_, ?_, ?_, ?_⟩
  · rw [performIo_eq]
  · simp [PerformIo.finish, hops]
  · refine Eq.trans ?_ (congrArg PerformIo.ops (performIo_eq d events f))
    cases rest <;> simp [PerformIo.finish, hops]
  · simp [PerformIo.finish, hops]

/-- A thread in `perform_io` goes on to the first operation, and posts what
`finish` says. -/
theorem performIoStep_finish {ι : Type} {hint : Int} {s : Shared ι} {r : Run} {t : Thread}
    {n : Nat} (hpc : r.pc = .performIo n events) (hd : s.lockDescriptor n = some d) :
    performIoStep hint s r t f =
      let after := d.performIo events f
      let s := { s with due := Function.update s.due n (s.due n &&& ~~~events) }.setDescriptor n
        after.data
      some <| match after.finish.firstOp with
        | none => (s, t.setTop { r with
            info.privateOutstandingWork := r.info.privateOutstandingWork + 1
            pc := .workCleanup false })
        | some first =>
          let s := { s with handed := s.handed ++ [first.id] }
          let t := t.setTop { r with pc := .complete first.id }
          match after.finish.posted with
          | none => (s, t)
          | some ops => (postDeferredCompletions hint (ops.map ReactorOp.id) s t).2 := by
  simp only [performIoStep, hpc, hd, Option.map_some]
  cases hops : (d.performIo events f).ops with
  | nil => simp [PerformIo.finish, hops]
  | cons first rest => cases rest <;> simp [PerformIo.finish, hops]

def twoReads : DescriptorState where
  descriptor := 5
  registeredEvents := initialEvents
  opQueue := fun ty => if ty = .readOp then [⟨1, 0⟩, ⟨2, 0⟩] else []
  trySpeculative := fun _ => true
  shutdown := false
  taskResult := 0
  kernelEvents := initialEvents

theorem performIo_completes_twoReads : ∃ first : ReactorOp,
    (twoReads.performIo epollIn fun _ => (.done, 0)).finish.firstOp = some first := by
  obtain ⟨-, -, first, -, -, hfirst, -, -⟩ := performIo_completes twoReads epollIn
    (fun _ => (.done, 0)) ⟨.readOp, by decide, ⟨1, 0⟩, rfl, by decide⟩
  exact ⟨first, hfirst⟩

end BoostAsio.DescriptorState
