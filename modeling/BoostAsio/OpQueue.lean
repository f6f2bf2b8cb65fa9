import Mathlib.Init

/-!
# Operations and their queues

`op_queue<T>` is a `std::queue` over a `std::list` of pointers; a queue is the
list of the operations it points to, front first.
-/

namespace BoostAsio

/-- A `scheduler_operation`, by identity. Operations other than the two the
library itself queues are numbered. -/
inductive Operation
  | taskOperation
  | descriptorState (d : Nat)
  | handler (id : Nat)
  deriving DecidableEq, Repr

def Operation.handler? : Operation → Option Nat
  | .handler id => some id
  | .taskOperation | .descriptorState _ => none

def Operation.descriptor? : Operation → Option Nat
  | .descriptorState d => some d
  | .taskOperation | .handler _ => none

@[simp] theorem Operation.handler?_handler (id : Nat) : (handler id).handler? = some id := rfl
@[simp] theorem Operation.handler?_taskOperation : taskOperation.handler? = none := rfl
@[simp] theorem Operation.handler?_descriptorState (d : Nat) :
    (descriptorState d).handler? = none := rfl
@[simp] theorem Operation.descriptor?_handler (id : Nat) : (handler id).descriptor? = none := rfl
@[simp] theorem Operation.descriptor?_taskOperation : taskOperation.descriptor? = none := rfl
@[simp] theorem Operation.descriptor?_descriptorState (d : Nat) :
    (descriptorState d).descriptor? = some d := rfl

abbrev OpQueue (α : Type) := List α

namespace OpQueue

/-- `push(op_queue& q)`, the splice of all of `src` to the end of `dst`: the
two queues after it. -/
def splice (dst src : OpQueue α) : OpQueue α × OpQueue α := (dst ++ src, [])

/-- `push(op_queue<U>& q)` for another element type. The loop reads
`q.front()` and never pops, so it returns only for an empty `src`; `none` says
that it does not return. -/
def pushDerived (dst : OpQueue α) (src : OpQueue β) : Option (OpQueue α) :=
  match src with
  | [] => some dst
  | _ :: _ => none

theorem pushDerived_eq {dst dst' : OpQueue α} {src : OpQueue β} :
    pushDerived dst src = some dst' ↔ src = [] ∧ dst' = dst := by
  cases src with
  | nil => simp [pushDerived, eq_comm]
  | cons => simp [pushDerived]

/-- The numbers of the submitted operations in a queue, in order. -/
def handlers (q : OpQueue Operation) : List Nat := q.filterMap Operation.handler?

@[simp] theorem handlers_nil : handlers [] = [] := rfl
@[simp] theorem handlers_cons (o : Operation) (q : OpQueue Operation) :
    handlers (o :: q) = o.handler?.toList ++ handlers q := by
  cases o <;> rfl
@[simp] theorem handlers_append (q r : OpQueue Operation) :
    handlers (q ++ r) = handlers q ++ handlers r := List.filterMap_append ..
@[simp] theorem handlers_map (ids : List Nat) : handlers (ids.map .handler) = ids := by
  induction ids with
  | nil => rfl
  | cons id ids ih => simp [ih]

theorem count_handlers (q : OpQueue Operation) (id : Nat) :
    (handlers q).count id = q.count (.handler id) := by
  induction q with
  | nil => rfl
  | cons o q ih => cases o <;> simp [ih, List.count_cons]

def descriptors (q : OpQueue Operation) : List Nat := q.filterMap Operation.descriptor?

@[simp] theorem descriptors_nil : descriptors [] = [] := rfl
@[simp] theorem descriptors_cons (o : Operation) (q : OpQueue Operation) :
    descriptors (o :: q) = o.descriptor?.toList ++ descriptors q := by
  cases o <;> rfl
@[simp] theorem descriptors_append (q r : OpQueue Operation) :
    descriptors (q ++ r) = descriptors q ++ descriptors r := List.filterMap_append ..

theorem mem_descriptors {q : OpQueue Operation} {d : Nat} :
    d ∈ descriptors q ↔ .descriptorState d ∈ q := by
  simp only [descriptors, List.mem_filterMap]
  constructor
  · rintro ⟨o, ho, hd⟩
    cases o <;> simp at hd
    exact hd ▸ ho
  · exact fun h => ⟨_, h, rfl⟩

theorem count_descriptors (q : OpQueue Operation) (d : Nat) :
    (descriptors q).count d = q.count (.descriptorState d) := by
  induction q with
  | nil => rfl
  | cons o q ih => cases o <;> simp [ih, List.count_cons]

end OpQueue

end BoostAsio
