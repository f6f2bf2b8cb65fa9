import BoostAsio.Lib.Loops
import BoostAsio.Descriptor

/-!
# Moving one queue to the end of another

`op_queue::push` is overloaded for a queue: for the same element type it is a
splice of the two lists, and for another element type a loop over `front()`.
The loop never pops, so the queue it reads stays as it is (`pushTurn_source`):
it moves nothing out of it and, begun with an operation at the front, is never
left. The queues hold pointers here, which may be null.
-/

namespace BoostAsio.OpQueue

open Loops

/-- A `T*`, which may be null. -/
abbrev Pointer (α : Type) := Option α

/-- `front()`: null for an empty queue, too. -/
def front (q : OpQueue (Pointer α)) : Pointer α := q.head?.join

/-- What `push` is given: an `op_queue` of the element type `α` of `dst`, or of
a class `β` derived from it. -/
inductive Source (α β : Type)
  | same (q : OpQueue (Pointer α))
  | derived (q : OpQueue (Pointer β))

namespace Source

/-- The elements, as pointers to `α`. -/
def elements (upcast : β → α) : Source α β → OpQueue (Pointer α)
  | same q => q
  | derived q => q.map (Option.map upcast)

def emptied : Source α β → Source α β
  | same _ => same []
  | derived _ => derived []

def SameType : Source α β → Prop
  | same _ => True
  | derived _ => False

end Source

variable {α β : Type} {upcast : β → α}

/-- One turn of `while (auto v = q.front()) this->push(v);` on `dst` and `src`. -/
def pushTurn (upcast : β → α) (r : OpQueue (Pointer α) × OpQueue (Pointer β)) :
    Option (OpQueue (Pointer α) × OpQueue (Pointer β)) :=
  (front r.2).map fun v => (r.1 ++ [some (upcast v)], r.2)

/-- `dst.push(src)` returns, with these two queues. -/
inductive Pushes (upcast : β → α) (dst : OpQueue (Pointer α)) :
    Source α β → OpQueue (Pointer α) → Source α β → Prop
  | splice {src} : Pushes upcast dst (.same src) (splice dst src).1 (.same (splice dst src).2)
  | loop {src dst' src'} : Ends (pushTurn upcast) (dst, src) (dst', src') →
      Pushes upcast dst (.derived src) dst' (.derived src')

/-- `dst.push(src)` returns, and has moved all of `src` to the end of `dst`. -/
def Transfers (upcast : β → α) (dst : OpQueue (Pointer α)) (src : Source α β) : Prop :=
  Pushes upcast dst src (dst ++ src.elements upcast) src.emptied

-- ---------------------------------------------------------------------------
-- The loop
-- ---------------------------------------------------------------------------

theorem pushTurn_source {r r' : OpQueue (Pointer α) × OpQueue (Pointer β)}
    (h : pushTurn upcast r = some r') : r'.2 = r.2 := by
  simp only [pushTurn, Option.map_eq_some_iff] at h
  obtain ⟨v, -, rfl⟩ := h
  rfl

theorem pushLoop_source {dst dst' : OpQueue (Pointer α)} {src src' : OpQueue (Pointer β)}
    (h : Ends (pushTurn upcast) (dst, src) (dst', src')) : src' = src ∧ front src = none := by
  obtain ⟨hsrc, hend⟩ := h.invariant (I := fun r => r.2 = src) rfl
    fun r r' hr hn => (pushTurn_source hn).trans hr
  have hsrc : src' = src := hsrc
  refine ⟨hsrc, ?_⟩
  simpa [pushTurn, hsrc] using hend

/-- With an operation at the front, the loop is never left. -/
theorem pushLoop_never_ends {dst : OpQueue (Pointer α)} {v : β} {src : OpQueue (Pointer β)} :
    ¬ ∃ r, Ends (pushTurn upcast) (dst, some v :: src) r := by
  rintro ⟨⟨dst', src'⟩, h⟩
  cases (pushLoop_source h).2

theorem pushLoop_nil (dst : OpQueue (Pointer α)) :
    Ends (pushTurn upcast) (dst, ([] : OpQueue (Pointer β))) (dst, []) :=
  .done rfl

/-- `pushDerived` is the loop on a queue without null pointers. -/
theorem pushDerived_eq_some {dst dst' : OpQueue α} {src : OpQueue β} :
    pushDerived dst src = some dst' ↔
      Ends (pushTurn upcast) (dst.map some, src.map some) (dst'.map some, src.map some) := by
  cases src with
  | nil =>
    simp only [pushDerived, List.map_nil, Option.some.injEq]
    constructor
    · rintro rfl
      exact pushLoop_nil _
    · intro h
      have hd := (pushLoop_nil _).unique h
      simp only [Prod.mk.injEq, and_true] at hd
      exact (List.map_inj_right fun _ _ => Option.some.inj).mp hd
  | cons v src =>
    constructor
    · intro h
      cases h
    · intro h
      cases pushLoop_never_ends ⟨_, h⟩

-- ---------------------------------------------------------------------------
-- Which transfers move everything
-- ---------------------------------------------------------------------------

theorem transfers_iff (upcast : β → α) (dst : OpQueue (Pointer α)) (src : Source α β) :
    Transfers upcast dst src ↔ src.SameType ∨ src.elements upcast = [] := by
  cases src with
  | same q =>
    simp only [Source.SameType, true_or, iff_true]
    exact .splice
  | derived q =>
    simp only [Source.SameType, false_or, Source.elements, List.map_eq_nil_iff]
    constructor
    · intro h
      cases h with
      | loop h => exact (pushLoop_source h).1.symm
    · rintro rfl
      have h : Ends (pushTurn upcast) (dst, ([] : OpQueue (Pointer β))) (dst ++ [], []) := by
        simpa using pushLoop_nil dst
      exact .loop h

/-- A read pending on a descriptor that `epoll_reactor::shutdown` moves. -/
theorem pendingRead_not_transferred :
    ¬ Transfers (fun op : ReactorOp => Operation.handler op.id) [] (.derived [some ⟨7, 0⟩]) := by
  intro h
  cases h with
  | loop h => cases (pushLoop_source h).1

end BoostAsio.OpQueue
