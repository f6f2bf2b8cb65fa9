import BoostAsio.PerformIo

/-!
# Which queues are popped when they are empty

`std::queue::pop` does not test whether there is anything to pop. Five of the
six calls are made behind a test: the loops of `cancel_ops`,
`deregister_descriptor`, `perform_io` and `scheduler::shutdown` pop what
`front()` has just returned, and `do_run_one` tests `empty()`. The last pop of
`perform_io` is behind none.

A pop is recorded as the size that its queue has before it.
-/

namespace BoostAsio

open Loops Runs

namespace DescriptorState

-- ---------------------------------------------------------------------------
-- Loops that pop in every turn
-- ---------------------------------------------------------------------------

/-- A loop whose turns pop `queue` once each, beside the sizes at its pops. -/
def popping {σ α : Type} (turn : σ → Option σ) (queue : σ → OpQueue α) (r : σ × List Nat) :
    Option (σ × List Nat) :=
  (turn r.1).map fun s => (s, r.2 ++ [(queue r.1).length])

theorem ends_popping {σ α : Type} {turn : σ → Option σ} (queue : σ → OpQueue α)
    (hturn : ∀ s s', turn s = some s' → (queue s).length = (queue s').length + 1) {s t : σ}
    (h : Ends turn s t) (hempty : queue t = []) (pops : List Nat) :
    Ends (popping turn queue) (s, pops)
      (t, pops ++ popSizes (queue s).length (queue s).length) := by
  induction h generalizing pops with
  | done hn => exact hempty ▸ by simpa [popSizes] using .done (by simp [popping, hn])
  | @turn s s' t hs _ ih =>
    refine .turn (by simp [popping, hs]; rfl) ?_
    have hrest := ih hempty (pops ++ [(queue s).length])
    rw [hturn s s' hs, popSizes_succ]
    simpa [hturn s s' hs] using hrest

/-- One turn of `while (reactor_op* op = op_queue_[i].front())` in `cancel_ops`
and in `deregister_descriptor`. -/
def drainTurn (r : OpQueue ReactorOp × List ReactorOp) :
    Option (OpQueue ReactorOp × List ReactorOp) :=
  match r.1 with
  | [] => none
  | op :: rest => some (rest, r.2 ++ [{ op with ec := 0 }])

theorem ends_drainTurn (q : OpQueue ReactorOp) (ops : List ReactorOp) :
    Ends drainTurn (q, ops) ([], ops ++ q.map fun op => { op with ec := 0 }) := by
  induction q generalizing ops with
  | nil => simpa using .done rfl
  | cons op rest ih =>
    refine .turn rfl ?_
    have hrest := ih (ops ++ [{ op with ec := 0 }])
    rw [List.append_assoc] at hrest
    exact hrest

-- ---------------------------------------------------------------------------
-- The pops of a function
-- ---------------------------------------------------------------------------

/-- The pops of the loop over one queue that `drainTurn` empties. -/
def emptyingPops {α : Type} (q : OpQueue α) : List Nat := popSizes q.length q.length

/-- The pops of `cancel_ops`, and of a `deregister_descriptor` that is not shut
down. -/
def drainPops (d : DescriptorState) : List Nat :=
  emptyingPops (d.opQueue .readOp) ++ emptyingPops (d.opQueue .writeOp) ++
    emptyingPops (d.opQueue .exceptOp)

/-- The pops of `perform_io`. The last one is of `io_cleanup.ops_`. -/
def performPops (d : DescriptorState) (events : Events) (f : PerformFunc) : List Nat :=
  ([OpType.exceptOp, .writeOp, .readOp].flatMap fun ty =>
      popSizes (d.opQueue ty).length (d.performed events f ty).completed.length) ++
    [(d.performIo events f).ops.length]

theorem drainTurn_pops (q : OpQueue ReactorOp) (ops : List ReactorOp) (pops : List Nat) :
    Ends (popping drainTurn Prod.fst) ((q, ops), pops)
      (([], ops ++ q.map fun op => { op with ec := 0 }), pops ++ emptyingPops q) := by
  refine ends_popping Prod.fst ?_ (ends_drainTurn q ops) rfl pops
  rintro ⟨q, ops⟩ s' hs
  cases q with
  | nil => cases hs
  | cons op rest =>
    cases hs
    rfl

/-- `drain` is the three loops, one after the other. -/
theorem drain_pops (d : DescriptorState) : ∃ ops ops' pops pops',
    Ends (popping drainTurn Prod.fst) ((d.opQueue .readOp, []), []) (([], ops), pops) ∧
    Ends (popping drainTurn Prod.fst) ((d.opQueue .writeOp, ops), pops) (([], ops'), pops') ∧
    Ends (popping drainTurn Prod.fst) ((d.opQueue .exceptOp, ops'), pops')
      (([], d.drain.2), d.drainPops) := by
  refine ⟨_, _, _, _, drainTurn_pops _ _ _, drainTurn_pops _ _ _, ?_⟩
  have hlast := drainTurn_pops (d.opQueue .exceptOp)
    ([] ++ (d.opQueue .readOp).map (fun op => { op with ec := 0 }) ++
      (d.opQueue .writeOp).map fun op => { op with ec := 0 })
    ([] ++ emptyingPops (d.opQueue .readOp) ++ emptyingPops (d.opQueue .writeOp))
  simpa [drain, pending, drainPops] using hlast

theorem emptyingPops_pos {α : Type} (q : OpQueue α) : ∀ n ∈ emptyingPops q, 0 < n :=
  popSizes_pos le_rfl

theorem drainPops_pos (d : DescriptorState) : ∀ n ∈ d.drainPops, 0 < n := by
  intro n hn
  simp only [drainPops, List.mem_append] at hn
  rcases hn with (hn | hn) | hn
  · exact emptyingPops_pos _ n hn
  · exact emptyingPops_pos _ n hn
  · exact emptyingPops_pos _ n hn

theorem performed_length (d : DescriptorState) (events : Events) (f : PerformFunc) (ty : OpType) :
    (d.performed events f ty).completed.length ≤ (d.opQueue ty).length := by
  unfold performed
  split
  · have hids := congrArg List.length (performQueue_ids f (d.opQueue ty))
    simp only [List.length_map, List.length_append] at hids
    omega
  · exact Nat.zero_le _

/-- Only the last pop of `perform_io` can be of an empty queue. -/
theorem performPops_pos {d : DescriptorState} {events : Events} {f : PerformFunc} :
    (∀ n ∈ d.performPops events f, 0 < n) ↔ d.Completes events f := by
  rw [← ops_ne_nil_iff, ← List.length_pos_iff]
  constructor
  · intro h
    exact h _ (List.mem_append_right _ List.mem_cons_self)
  · intro h n hn
    rcases List.mem_append.mp hn with hn | hn
    · obtain ⟨ty, -, hn⟩ := List.mem_flatMap.mp hn
      exact popSizes_pos (d.performed_length events f ty) n hn
    · rwa [List.mem_singleton.mp hn]

end DescriptorState

-- ---------------------------------------------------------------------------
-- The pops of a step
-- ---------------------------------------------------------------------------

open DescriptorState

namespace Scheduler

variable {ι : Type}

/-- The pop of `do_run_one`, behind `!op_queue_.empty()`. -/
def runPops (s : Scheduler ι) : List Nat :=
  if s.stopped || s.opQueue.isEmpty then [] else [s.opQueue.length]

def shutdownPops (s : Scheduler ι) : List Nat := emptyingPops s.opQueue

theorem shutdownTurn_pops (s : Scheduler ι) :
    Ends (popping shutdownTurn Prod.fst) ((s.opQueue, []), [])
      (([], s.doShutdown.2), s.shutdownPops) := by
  refine ends_popping Prod.fst ?_ (ends_shutdownTurn s.opQueue []) rfl []
  rintro ⟨q, destroyed⟩ s' hs
  cases q with
  | nil => cases hs
  | cons o rest =>
    cases hs
    rfl

theorem runPops_pos (s : Scheduler ι) : ∀ n ∈ s.runPops, 0 < n := by
  intro n hn
  unfold runPops at hn
  split at hn
  · cases hn
  · rename_i hne
    rw [List.mem_singleton.mp hn, List.length_pos_iff]
    simp only [Bool.or_eq_true, List.isEmpty_iff, not_or] at hne
    exact hne.2

end Scheduler

namespace System

variable {ι : Type} [DecidableEq ι]

/-- The pops of a function that works on a descriptor state, if it has one. -/
def descriptorPops (s : Shared ι) (d : Option Nat) (pops : DescriptorState → List Nat) :
    List Nat :=
  ((d.bind fun d => s.descriptors[d]?).map pops).getD []

def pops (s : Shared ι) (t : Thread) : Action ι → List Nat
  | .user (.cancelOps d) => descriptorPops s d drainPops
  | .user (.deregisterDescriptor d _) =>
    descriptorPops s d fun x => if x.shutdown then [] else x.drainPops
  | .next => if t.top.map Run.pc = some .loop then s.runPops else []
  | .performIo f =>
    match t.top.map Run.pc with
    | some (.performIo d events) => descriptorPops s (some d) fun x => x.performPops events f
    | _ => []
  | _ => []

def PopsNonEmpty (c : System ι) (l : ι × Action ι) : Prop :=
  ∀ n ∈ pops c.shared (c.thread l.1) l.2, 0 < n

/-- The pops of a `shutdown` that begins here. -/
def ShutdownPopsNonEmpty (c : System ι) : Prop := ∀ n ∈ c.shared.shutdownPops, 0 < n

/-- A `perform_io` completes an operation: the front one of a queue whose event
is in the mask. -/
def CompletesFirst (c : System ι) (l : ι × Action ι) : Prop :=
  ∀ f d events x, l.2 = .performIo f →
    (c.thread l.1).top.map Run.pc = some (.performIo d events) →
    c.shared.descriptors[d]? = some x → x.Completes events f

omit [DecidableEq ι] in
theorem descriptorPops_pos (s : Shared ι) (d : Option Nat) {pops : DescriptorState → List Nat}
    (h : ∀ x, (d.bind fun d => s.descriptors[d]?) = some x → ∀ n ∈ pops x, 0 < n) :
    ∀ n ∈ descriptorPops s d pops, 0 < n := by
  intro n hn
  unfold descriptorPops at hn
  cases hx : d.bind fun d => s.descriptors[d]? with
  | none =>
    rw [hx] at hn
    cases hn
  | some x =>
    rw [hx] at hn
    exact h x hx n hn

omit [DecidableEq ι] in
/-- Every pop but the last one of `perform_io` is behind a test. -/
theorem pops_pos (s : Shared ι) (t : Thread) (a : Action ι)
    (h : ∀ f d events x, a = .performIo f → t.top.map Run.pc = some (.performIo d events) →
      s.descriptors[d]? = some x → x.Completes events f) : ∀ n ∈ pops s t a, 0 < n := by
  cases a with
  | performIo f =>
    simp only [pops]
    split
    · rename_i d events hpc
      exact descriptorPops_pos s (some d) fun x hx =>
        performPops_pos.mpr (h f d events x rfl hpc hx)
    · exact fun n hn => by cases hn
  | next =>
    simp only [pops]
    split
    · exact s.runPops_pos
    · exact fun n hn => by cases hn
  | user u =>
    cases u with
    | cancelOps d => exact descriptorPops_pos s d fun x _ => x.drainPops_pos
    | deregisterDescriptor d closing =>
      refine descriptorPops_pos s d fun x _ => ?_
      split
      · exact fun n hn => by cases hn
      · exact x.drainPops_pos
    | _ => exact fun n hn => by cases hn
  | _ => exact fun n hn => by cases hn

omit [DecidableEq ι] in
theorem popsNonEmpty_iff (c : System ι) (l : ι × Action ι) :
    PopsNonEmpty c l ↔ CompletesFirst c l := by
  obtain ⟨i, a⟩ := l
  constructor
  · intro h f d events x hf hpc hx
    cases hf
    refine performPops_pos.mp ?_
    simpa only [PopsNonEmpty, pops, hpc, descriptorPops, Option.bind_some, hx, Option.map_some,
      Option.getD_some] using h
  · exact pops_pos c.shared (c.thread i) a

/-- Along every run, no pop is of an empty queue if and only if every
`perform_io` completes an operation. -/
theorem pops_nonEmpty_iff (hint : Int) (m : Uninitialised) (ls : List (ι × Action ι)) :
    AllSteps (next hint) PopsNonEmpty (new m) ls ∧
        AllStates (next hint) ShutdownPopsNonEmpty (new m) ls ↔
      AllSteps (next hint) CompletesFirst (new m) ls := by
  have hshutdown : AllStates (next hint) ShutdownPopsNonEmpty (new m : System ι) ls :=
    allStates_of_invariant (I := fun _ => True) (fun c _ => emptyingPops_pos c.shared.opQueue)
      (fun _ _ _ _ _ _ => trivial) trivial
  rw [allSteps_congr popsNonEmpty_iff]
  exact and_iff_left hshutdown

/-- A read is cancelled by the second thread when its event has been reported
and `perform_io` has not begun. -/
def cancelBeforePerform : List (Fin 3 × Action (Fin 3)) :=
  [(first, .user (.registerDescriptor 5 0)),
    (first, .user (.startOp (some 0) .readOp ⟨0, 0⟩ false true (fun _ => (.notDone, 11)) 0)),
    (first, .user .initTask), (first, .user .run), (first, .next), (first, .next),
    (first, .epollWait [.descriptor 0 epollIn]), (first, .next), (first, .next), (first, .next),
    (first, .next), (first, .next), (first, .next), (second, .user (.cancelOps (some 0)))]

theorem cancelBeforePerform_pops_empty : ¬ AllSteps (next 0) PopsNonEmpty (new {})
    (cancelBeforePerform ++ [(first, .performIo fun _ => (.done, 0))]) := by
  intro h
  have hlast : PopsNonEmpty _ (first, .performIo fun _ => (.done, 0)) :=
    AllSteps.of_exec cancelBeforePerform h rfl rfl
  have hpos := hlast 0 (by decide)
  exact absurd hpos (Nat.lt_irrefl 0)

end System

end BoostAsio
