import BoostAsio.Lib.Runs
import Mathlib.Logic.Function.Basic

/-!
# The life of an executor_op

A `ptr` owns the memory of an operation, and the operation once it is
constructed; `reset` gives up both. `post` makes one before it allocates and
lets go of it when the operation is in the queue, and `do_complete` makes one
for the operation that it is called on, so that the memory is free again by the
time of the upcall. (`post` calls it `op::ptr`, which `executor_op` lacks; it is
the `ptr` of the same header.)

Whatever throws on the way, an operation is destroyed and freed once. But the
`ptr` of `do_complete` finds its allocator in the operation, and `reset` reads
it when the operation is destroyed. `get_recycling_allocator` does not look at
a `std::allocator`, and copies any other: `operations_sound_iff`.
-/

namespace BoostAsio.ExecutorOp

open Runs

inductive AllocatorPlace
  | caller
  | operation
  deriving DecidableEq

inductive Event
  | get (a : AllocatorPlace)
  | allocate
  | construct
  | destroy
  | deallocate
  | call
  deriving DecidableEq

structure Ptr where
  a : AllocatorPlace
  v : Bool
  p : Bool

inductive PostOutcome
  | allocateThrows
  | constructThrows
  | pushThrows
  | pushed

-- ---------------------------------------------------------------------------
-- ptr, post and do_complete
-- ---------------------------------------------------------------------------

section Code

-- whether `get_recycling_allocator<Alloc>::get` copies its argument
variable (reads : Bool)

def get (a : AllocatorPlace) : List Event := if reads then [.get a] else []

namespace Ptr

def reset (x : Ptr) : Ptr × List Event :=
  ({ x with v := false, p := false },
    (if x.p then [.destroy] else []) ++ if x.v then get reads x.a ++ [.deallocate] else [])

/-- `~ptr` -/
def destroy (x : Ptr) : List Event := (x.reset reads).2

end Ptr

def post : PostOutcome → List Event
  | .allocateThrows => get reads .caller
  | .constructThrows =>
    get reads .caller ++ [.allocate] ++ Ptr.destroy reads ⟨.caller, true, false⟩
  | .pushThrows =>
    get reads .caller ++ [.allocate, .construct] ++ Ptr.destroy reads ⟨.caller, true, true⟩
  | .pushed =>
    -- `p.v = p.p = 0`
    get reads .caller ++ [.allocate, .construct] ++ Ptr.destroy reads ⟨.caller, false, false⟩

/-- Called by `complete`, and by `destroy` with no `owner`; the copy of the
handler may throw. -/
def doComplete (owner copyThrows : Bool) : List Event :=
  let p : Ptr := ⟨.operation, true, true⟩
  if copyThrows then p.destroy reads
  else
    let (p, events) := p.reset reads
    events ++ (if owner then [.call] else []) ++ p.destroy reads

end Code

-- ---------------------------------------------------------------------------
-- Runs
-- ---------------------------------------------------------------------------

structure Life where
  posted : Bool := false
  queued : Bool := false
  events : List Event := []

inductive Action
  | post (id : Nat) (o : PostOutcome)
  | complete (id : Nat) (owner copyThrows : Bool)

def next (reads : Bool) (s : Nat → Life) : Action → Option (Nat → Life)
  | .post id o =>
    if (s id).posted then none
    else some (Function.update s id ⟨true, o matches .pushed, post reads o⟩)
  | .complete id owner copyThrows =>
    if (s id).queued then
      some (Function.update s id
        ⟨true, false, (s id).events ++ doComplete reads owner copyThrows⟩)
    else none

def start : Nat → Life := fun _ => {}

-- ---------------------------------------------------------------------------
-- Destroyed and freed once
-- ---------------------------------------------------------------------------

/-- Other than by reading an allocator. -/
def Event.changes : Event → Bool
  | .get _ => false
  | _ => true

/-- What may have happened to an operation that is in no queue. -/
def endings : List (List Event) :=
  [[], [.allocate, .deallocate], [.allocate, .construct, .destroy, .deallocate],
    [.allocate, .construct, .destroy, .deallocate, .call]]

/-- The allocator in the operation is read when the operation is destroyed. -/
def dangles (events : List Event) : Bool :=
  (events.dropWhile (· ≠ .destroy)).contains (.get .operation)

/-- An operation in a queue is constructed and no more; any other is as good as
never made, or is destroyed and freed, with a call of its handler after that at
most. No allocator is read that is destroyed. -/
structure Sound (x : Life) : Prop where
  queued : x.queued = true → x.events.filter Event.changes = [.allocate, .construct]
  ended : x.queued = false → x.events.filter Event.changes ∈ endings
  alive : dangles x.events = false

/-- The step completes no operation whose allocator is read. -/
def NeedsNoAllocator (reads : Bool) : Action → Prop
  | .post _ _ => True
  | .complete _ _ _ => reads = false

variable {reads : Bool} {s s' : Nat → Life} {a : Action}

/-- Nothing has happened to an operation in a queue but `post`. -/
structure Invariant (reads : Bool) (x : Life) : Prop where
  queued : x.queued = true → x.events = post reads .pushed
  sound : Sound x

theorem start_sound : Invariant reads {} :=
  ⟨fun hq => (by cases hq), by refine ⟨?_, ?_, ?_⟩ <;> decide⟩

theorem post_sound (o : PostOutcome) :
    Invariant reads ⟨true, o matches .pushed, post reads o⟩ := by
  cases reads <;> cases o <;> refine ⟨?_, ?_, ?_, ?_⟩ <;> decide

theorem complete_sound (owner copyThrows : Bool) :
    Sound ⟨true, false, post false .pushed ++ doComplete false owner copyThrows⟩ := by
  cases owner <;> cases copyThrows <;> refine ⟨?_, ?_, ?_⟩ <;> decide

theorem complete_dangles (owner copyThrows : Bool) :
    dangles (post true .pushed ++ doComplete true owner copyThrows) = true := by
  cases owner <;> cases copyThrows <;> decide

theorem Invariant.next (h : ∀ id, Invariant reads (s id)) (hok : NeedsNoAllocator reads a)
    (hn : next reads s a = some s') : ∀ id, Invariant reads (s' id) := by
  cases a with
  | post id o =>
    simp only [ExecutorOp.next] at hn
    split at hn
    · cases hn
    · cases hn
      intro j
      by_cases hj : j = id
      · subst hj
        simpa using post_sound o
      · simpa [hj] using h j
  | complete id owner copyThrows =>
    obtain rfl : reads = false := hok
    simp only [ExecutorOp.next] at hn
    split at hn
    · next hq =>
      cases hn
      intro j
      by_cases hj : j = id
      · subst hj
        rw [Function.update_self, (h j).queued hq]
        exact ⟨fun hq => by simp at hq, complete_sound owner copyThrows⟩
      · simpa [hj] using h j
    · cases hn

theorem not_sound_next (h : ∀ id, Invariant reads (s id)) (hok : ¬ NeedsNoAllocator reads a)
    (hn : next reads s a = some s') : ¬ ∀ id, Sound (s' id) := by
  intro hsound
  cases a with
  | post => exact hok trivial
  | complete id owner copyThrows =>
    obtain rfl : reads = true := by simpa [NeedsNoAllocator] using hok
    simp only [ExecutorOp.next] at hn
    split at hn
    · next hq =>
      cases hn
      have halive := (hsound id).alive
      rw [Function.update_self, (h id).queued hq, complete_dangles] at halive
      cases halive
    · cases hn

/-- In every run every operation is destroyed and freed once, before its handler
is called, by an allocator that is alive, if and only if no operation completes
whose allocator is read. -/
theorem operations_sound_iff (reads : Bool) (run : List Action) :
    AllStates (next reads) (fun s : Nat → Life => ∀ id, Sound (s id)) start run ↔
      AllSteps (next reads) (fun _ a => NeedsNoAllocator reads a) start run :=
  allStates_iff_allSteps (I := fun s : Nat → Life => ∀ id, Invariant reads (s id))
    (fun _ h id => (h id).sound) (fun _ _ _ h _ hok hn => Invariant.next h hok hn)
    (fun _ _ _ h _ hok hn => not_sound_next h hok hn)
    fun _ => start_sound

/-- With an allocator of its own type an operation is posted and completed. -/
def completeOwn : List Action := [.post 0 .pushed, .complete 0 true false]

theorem completeOwn_dangles : ∃ s, exec (next true) start completeOwn = some s ∧
    (s 0).events = [.get .caller, .allocate, .construct, .destroy, .get .operation, .deallocate,
      .call] :=
  ⟨_, rfl, rfl⟩

end BoostAsio.ExecutorOp
