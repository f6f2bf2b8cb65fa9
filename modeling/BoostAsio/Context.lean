import BoostAsio.Conservation
import BoostAsio.Readiness
import BoostAsio.Services

/-!
# An execution context with a scheduler and a reactor

The threads and the scheduler of `System`, and beside them what decides how
they end: `registered_descriptors_`, and the functions that
`execution_context::shutdown` and the destructor call. `shutdown` visits the
services in the order of their keys, so the reactor is first.

Nobody erases an entry of `registered_descriptors_`: a new registration of the
same number replaces it, and then nothing points to the old state but what its
callers and the scheduler hold. Nor does `shutdown` clear the map.
-/

namespace BoostAsio

open Runs OpQueue

/-- The `for` loop of `epoll_reactor::shutdown` over the queues of one
descriptor state: `ops` after it, or `none` where a transfer does not return. -/
def DescriptorState.moveQueues (x : DescriptorState) (ops : OpQueue Operation) :
    Option (OpQueue Operation) := do
  let ops ← pushDerived ops (x.opQueue .readOp)
  let ops ← pushDerived ops (x.opQueue .writeOp)
  pushDerived ops (x.opQueue .exceptOp)

structure Context (ι : Type) where
  system : System ι
  /-- `registered_descriptors_`; a pointer is an index into `descriptors`. -/
  registeredDescriptors : Std.TreeMap Int Nat := ∅
  /-- History: the operations that the local `ops` of `epoll_reactor::shutdown`
  held when it went out of scope. -/
  discarded : OpQueue Operation := []
  /-- History: the descriptor states deleted, and those used after that. -/
  deleted : List Nat := []
  dangling : List Nat := []
  /-- History: the operations whose `destroy()` was called. -/
  destroyed : List Operation := []

inductive ContextService
  | scheduler
  | epollReactor
  deriving DecidableEq

namespace Context

variable {ι : Type}

def new (m : Uninitialised) : Context ι := { system := .new m }

def descriptors (c : Context ι) : List DescriptorState := c.system.shared.descriptors

def opQueue (c : Context ι) : OpQueue Operation := c.system.shared.opQueue

/-- `registered_descriptors_` after an action, if `d` is the state it allocates. -/
def register (a : Action ι) (d : Nat) (m : Std.TreeMap Int Nat) : Std.TreeMap Int Nat :=
  match a with
  | .user (.registerDescriptor descriptor _) => m.insert descriptor d
  | .user (.registerInternalDescriptor _ descriptor _ _) => m.insert descriptor d
  | _ => m

def next [DecidableEq ι] (hint : Int) (c : Context ι) (l : ι × Action ι) : Option (Context ι) :=
  (System.next hint c.system l).map fun system =>
    { c with
      system
      registeredDescriptors := register l.2 c.descriptors.length c.registeredDescriptors }

-- ---------------------------------------------------------------------------
-- shutdown and the destructor
-- ---------------------------------------------------------------------------

/-- One turn of the loop of `epoll_reactor::shutdown`, or `none` where it does
not return. A state that was deleted before is used, and deleted again. -/
def shutdownDescriptor (c : Context ι) (d : Nat) : Option (Context ι) :=
  if d ∈ c.deleted then
    some { c with dangling := c.dangling ++ [d], deleted := c.deleted ++ [d] }
  else do
    let x ← c.descriptors[d]?
    let ops ← x.moveQueues c.discarded
    some { c with
      discarded := ops
      deleted := c.deleted ++ [d]
      system.shared := c.system.shared.setDescriptor d { x with shutdown := true } }

/-- `epoll_reactor::shutdown` -/
def shutdownReactor (c : Context ι) : Option (Context ι) :=
  c.registeredDescriptors.toList.foldlM (fun c entry => c.shutdownDescriptor entry.2) c

/-- `scheduler::shutdown`, which calls `destroy()` on queued descriptor states
too. -/
def shutdownScheduler (c : Context ι) : Context ι :=
  let (scheduler, destroyed) := c.system.shared.toScheduler.doShutdown
  { c with
    system.shared.toScheduler := scheduler
    destroyed := c.destroyed ++ destroyed
    dangling := c.dangling ++ (OpQueue.descriptors destroyed).filter fun d => d ∈ c.deleted }

def services : Std.TreeMap String ContextService :=
  ((∅ : Std.TreeMap String ContextService).insert schedulerKey .scheduler).insert reactorKey
    .epollReactor

def shutdownService (c : Context ι) : ContextService → Option (Context ι)
  | .scheduler => some c.shutdownScheduler
  | .epollReactor => c.shutdownReactor

def shutdown (c : Context ι) : Option (Context ι) :=
  services.toList.foldlM (fun c service => c.shutdownService service.2) c

/-- `execution_context::destroy`: the services are deleted with their members. -/
def destroy (c : Context ι) : Context ι :=
  { c with registeredDescriptors := ∅, system.shared.opQueue := [] }

def destructor (c : Context ι) : Option (Context ι) := c.shutdown.map destroy

def shutdowns : Nat → Context ι → Option (Context ι)
  | 0, c => some c
  | n + 1, c => c.shutdown.bind (shutdowns n)

theorem services_toList :
    services.toList = [(reactorKey, .epollReactor), (schedulerKey, .scheduler)] := by
  decide

/-- The reactor is shut down before the scheduler. -/
theorem shutdown_eq (c : Context ι) : c.shutdown = c.shutdownReactor.map shutdownScheduler := by
  simp only [shutdown, services_toList, List.foldlM_cons, List.foldlM_nil, shutdownService]
  cases c.shutdownReactor <;> rfl

-- ---------------------------------------------------------------------------
-- What holds before a shutdown
-- ---------------------------------------------------------------------------

/-- Every state that was allocated is the entry of one descriptor number at
most. -/
structure Registered (c : Context ι) : Prop where
  lt : ∀ (fd : Int) (d : Nat), c.registeredDescriptors[fd]? = some d → d < c.descriptors.length
  unique : ∀ (fd fd' : Int) (d : Nat), c.registeredDescriptors[fd]? = some d →
    c.registeredDescriptors[fd']? = some d → fd = fd'

structure Intact (c : Context ι) : Prop where
  discarded : c.discarded = []
  deleted : c.deleted = []
  dangling : c.dangling = []
  destroyed : c.destroyed = []

variable [DecidableEq ι] {hint : Int} {c c' : Context ι} {l : ι × Action ι} {m : Uninitialised}

theorem register_cases {i : ι} {a : Action ι} {s s' : Shared ι} {t t' : Thread}
    (h : step hint i a s t = some (s', t')) (m : Std.TreeMap Int Nat) :
    register a s.descriptors.length m = m ∨
      ∃ fd, register a s.descriptors.length m = m.insert fd s.descriptors.length ∧
        s'.descriptors.length = s.descriptors.length + 1 := by
  cases a with
  | user u =>
    simp only [step, Option.ite_none_right_eq_some] at h
    cases u with
    | registerDescriptor fd ctl =>
      cases h.2
      exact .inr ⟨fd, rfl, by simp⟩
    | registerInternalDescriptor ty fd op ctl =>
      simp only [userStep, Option.ite_none_right_eq_some] at h
      cases h.2.2
      exact .inr ⟨fd, rfl, by simp⟩
    | _ => exact .inl rfl
  | _ => exact .inl rfl

theorem Registered.next (h : c.Registered) (hn : c.next hint l = some c') : c'.Registered := by
  simp only [Context.next, Option.map_eq_some_iff] at hn
  obtain ⟨system, hn, rfl⟩ := hn
  obtain ⟨s, t, hs, rfl⟩ := Threads.next_eq_some.mp hn
  have hlen : c.descriptors.length ≤ s.descriptors.length := (step_reports hs).length
  rcases register_cases hs c.registeredDescriptors with hm | ⟨fd, hm, hsucc⟩
  · constructor
    · intro fd d hd
      exact (h.lt fd d (hm ▸ hd)).trans_le hlen
    · intro fd fd' d hd hd'
      exact h.unique fd fd' d (hm ▸ hd) (hm ▸ hd')
  · have old {k : Int} {d : Nat}
        (hd : (c.registeredDescriptors.insert fd c.descriptors.length)[k]? = some d) :
        k = fd ∧ d = c.descriptors.length ∨ k ≠ fd ∧ c.registeredDescriptors[k]? = some d := by
      rw [Std.TreeMap.getElem?_insert] at hd
      split at hd
      · rename_i hk
        exact .inl ⟨(compare_eq_iff_eq.mp hk).symm, (Option.some.inj hd).symm⟩
      · rename_i hk
        exact .inr ⟨fun he => hk (compare_eq_iff_eq.mpr he.symm), hd⟩
    constructor
    · intro k d hd
      rcases old (hm ▸ hd) with ⟨-, rfl⟩ | ⟨-, hd⟩
      · exact hsucc ▸ Nat.lt_succ_self _
      · exact (h.lt k d hd).trans_le hlen
    · intro k k' d hd hd'
      rcases old (hm ▸ hd) with ⟨rfl, rfl⟩ | ⟨-, hd⟩ <;>
        rcases old (hm ▸ hd') with ⟨rfl, hd''⟩ | ⟨-, hd'⟩
      · rfl
      · exact absurd (h.lt _ _ hd') (lt_irrefl _)
      · exact absurd (h.lt _ _ hd) (hd'' ▸ lt_irrefl _)
      · exact h.unique k k' d hd hd'

section Invariant

variable [Fintype ι]

structure Invariant (c : Context ι) : Prop where
  account : c.system.Account
  oneTask : c.system.OneTask
  places_le : ∀ w, c.system.places w ≤ weigh w c.system.shared.handed
  registered : c.Registered
  intact : c.Intact

omit [DecidableEq ι] in
theorem Invariant.new (m : Uninitialised) : (new m : Context ι).Invariant where
  account := .new m
  oneTask := .new m
  places_le w := by
    simp [Context.new, System.places, Threads.total, System.new, Shared.new, Thread.tally]
  registered := ⟨by simp [Context.new], by simp [Context.new]⟩
  intact := ⟨rfl, rfl, rfl, rfl⟩

theorem Invariant.next (h : c.Invariant) (hn : c.next hint l = some c') : c'.Invariant := by
  have hregistered := h.registered.next hn
  simp only [Context.next, Option.map_eq_some_iff] at hn
  obtain ⟨system, hn, rfl⟩ := hn
  refine ⟨h.account.next hn, h.oneTask.next hn, fun w => ?_, hregistered, ?_⟩
  · have hplaces := System.places_next (w := w) h.account.locks h.account.queues hn
    have hle := h.places_le w
    simp only
    omega
  · exact ⟨h.intact.discarded, h.intact.deleted, h.intact.dangling, h.intact.destroyed⟩

theorem invariant (h : Reach (next hint) (fun _ _ => True) (new m) c) : c.Invariant :=
  h.invariant (.new m) fun _ _ _ _ hi _ hn => hi.next hn

omit [DecidableEq ι]

theorem Invariant.nodup_opQueue (h : c.Invariant) : c.opQueue.Nodup := by
  have htask : c.opQueue.count .taskOperation ≤ 1 := by
    have hle := h.oneTask.tasks_le
    have hone : c.system.shared.task.toNat ≤ 1 := Bool.toNat_le _
    simp only [System.tasks, Threads.total] at hle
    simp only [opQueue]
    omega
  refine List.nodup_iff_count.mpr fun o => ?_
  cases o with
  | taskOperation => exact htask
  | descriptorState d => exact (h.oneTask.first.count_le d).trans htask
  | handler id =>
    have hplaces := h.places_le fun x => if x = id then 1 else 0
    have hhanded := h.account.handed_le id
    simp only [System.places, Threads.total, weigh_count] at hplaces
    rw [← count_handlers]
    simp only [opQueue]
    omega

/-- What is pending on a descriptor is not in `op_queue_`. -/
theorem Invariant.pending_not_queued (h : c.Invariant) {x : DescriptorState}
    (hx : x ∈ c.descriptors) {id : Nat} (hid : id ∈ x.pendingIds) : .handler id ∉ c.opQueue := by
  have hpending : 1 ≤ c.system.shared.pending fun x => if x = id then 1 else 0 := by
    have hle : x.pendingIds.count id ≤
        c.system.shared.pending fun x => if x = id then 1 else 0 := by
      rw [← weigh_count]
      exact List.le_sum_of_mem (List.mem_map.mpr ⟨x, hx, rfl⟩)
    have hpos : 0 < x.pendingIds.count id := List.count_pos_iff.mpr hid
    omega
  have hknown := h.account.known fun x => if x = id then 1 else 0
  have hcreated := List.nodup_iff_count.mp h.account.nodup id
  have hplaces := h.places_le fun x => if x = id then 1 else 0
  simp only [System.known, System.places, Threads.total, weigh_count] at hknown hplaces
  rw [← List.count_eq_zero, ← count_handlers]
  simp only [opQueue]
  omega

end Invariant

end Context

end BoostAsio
