import BoostAsio.Lib.Runs
import BoostAsio.Lib.Threads

/-!
# Objects that hold outstanding work

`executor_work_guard`, `work_dispatcher` and `system_context` take a unit of
work of an executor in a constructor and give it back later. An object is an
index into `objects`, `none` once it is destroyed; `calls` are the calls of
`on_work_started` and `on_work_finished` that the objects have made.

`holds` beside the members is a history: the unit that the object took, or was
moved into it, is not released yet. `owns_` should say the same, but `reset`
releases the unit and leaves `owns_` as it is, and a `system_context` has no
such member at all. Units are released once along a run if and only if no step
releases from an object that holds nothing (`released_iff`).
-/

namespace BoostAsio

open Runs

variable {ε : Type}

inductive WorkCall (ε : Type)
  | started (e : ε)
  | finished (e : ε)
  deriving DecidableEq

structure ExecutorWorkGuard (ε : Type) where
  executor : ε
  owns : Bool
  holds : Bool

-- ---------------------------------------------------------------------------
-- executor_work_guard
-- ---------------------------------------------------------------------------

namespace ExecutorWorkGuard

def new (e : ε) : ExecutorWorkGuard ε × Option (WorkCall ε) := (⟨e, true, true⟩, some (.started e))

def copy (other : ExecutorWorkGuard ε) : ExecutorWorkGuard ε × Option (WorkCall ε) :=
  (⟨other.executor, other.owns, other.owns⟩,
    if other.owns then some (.started other.executor) else none)

/-- The new object, and the one it is moved from. -/
def move (other : ExecutorWorkGuard ε) : ExecutorWorkGuard ε × ExecutorWorkGuard ε :=
  (other, { other with owns := false, holds := false })

def destroy (g : ExecutorWorkGuard ε) : Option (WorkCall ε) :=
  if g.owns then some (.finished g.executor) else none

/-- `reset`, which does not clear `owns_`. -/
def reset (g : ExecutorWorkGuard ε) : ExecutorWorkGuard ε × Option (WorkCall ε) :=
  if g.owns then ({ g with holds := false }, some (.finished g.executor)) else (g, none)

end ExecutorWorkGuard

-- ---------------------------------------------------------------------------
-- Objects and their members
-- ---------------------------------------------------------------------------

/-- A `work_dispatcher` is its `work_`: what its handler does is not its own. -/
inductive Holder (ε : Type)
  | guard (g : ExecutorWorkGuard ε)
  | dispatcher (work : ExecutorWorkGuard ε)
  | systemContext (scheduler : ε) (holds : Bool)

structure Holders (ε : Type) where
  objects : List (Option (Holder ε)) := []
  calls : List (WorkCall ε) := []

inductive HolderAction (ε : Type)
  | guard (e : ε)
  | dispatcher (e : ε)
  | systemContext (e : ε)
  | copy (i : Nat)
  | move (i : Nat)
  | reset (i : Nat)
  /-- `operator()` of a dispatcher; `thrown` if `dispatch` throws -/
  | invoke (i : Nat) (thrown : Bool)
  | stop (i : Nat)
  | join (i : Nat)
  | destroy (i : Nat)

namespace Holders

def object (s : Holders ε) (i : Nat) : Option (Holder ε) := s.objects[i]?.join

def add (s : Holders ε) (x : Holder ε) (call : Option (WorkCall ε)) : Holders ε :=
  ⟨s.objects ++ [some x], s.calls ++ call.toList⟩

def put (s : Holders ε) (i : Nat) (x : Option (Holder ε)) (call : Option (WorkCall ε)) :
    Holders ε :=
  ⟨s.objects.set i x, s.calls ++ call.toList⟩

def next (s : Holders ε) : HolderAction ε → Option (Holders ε)
  | .guard e =>
    let (g, call) := ExecutorWorkGuard.new e
    some (s.add (.guard g) call)
  | .dispatcher e =>
    let (work, call) := ExecutorWorkGuard.new e
    some (s.add (.dispatcher work) call)
  | .systemContext e => some (s.add (.systemContext e true) (some (.started e)))
  | .copy i =>
    match s.object i with
    | some (.guard other) =>
      let (g, call) := other.copy
      some (s.add (.guard g) call)
    | some (.dispatcher other) =>
      let (work, call) := other.copy
      some (s.add (.dispatcher work) call)
    | _ => none
  | .move i =>
    match s.object i with
    | some (.guard other) =>
      let (g, other) := other.move
      some ((s.put i (some (.guard other)) none).add (.guard g) none)
    | some (.dispatcher other) =>
      -- `work_(other.work_)` copies: a named rvalue reference is an lvalue
      let (work, call) := other.copy
      some (s.add (.dispatcher work) call)
    | _ => none
  | .reset i =>
    match s.object i with
    | some (.guard g) =>
      let (g, call) := g.reset
      some (s.put i (some (.guard g)) call)
    | _ => none
  | .invoke i thrown =>
    match s.object i with
    | some (.dispatcher work) =>
      if thrown then some s
      else
        let (work, call) := work.reset
        some (s.put i (some (.dispatcher work)) call)
    | _ => none
  | .stop i =>
    match s.object i with
    | some (.systemContext _ _) => some s
    | _ => none
  | .join i =>
    match s.object i with
    | some (.systemContext e _) =>
      some (s.put i (some (.systemContext e false)) (some (.finished e)))
    | _ => none
  | .destroy i =>
    match s.object i with
    | some (.guard g) => some (s.put i none g.destroy)
    | some (.dispatcher work) => some (s.put i none work.destroy)
    | some (.systemContext e _) => some (s.put i none (some (.finished e)))
    | none => none

end Holders

-- ---------------------------------------------------------------------------
-- Counts
-- ---------------------------------------------------------------------------

namespace Holder

def executor : Holder ε → ε
  | guard g | dispatcher g => g.executor
  | systemContext e _ => e

/-- Whether a release by this object calls `work_finished`. -/
def owns : Holder ε → Bool
  | guard g | dispatcher g => g.owns
  | systemContext _ _ => true

def holds : Holder ε → Bool
  | guard g | dispatcher g => g.holds
  | systemContext _ holds => holds

end Holder

/-- The object that a step tells to release its unit. -/
def Holders.releasing (s : Holders ε) : HolderAction ε → Option (Holder ε)
  | .reset i | .invoke i false | .join i | .destroy i => s.object i
  | .invoke _ true | .guard _ | .dispatcher _ | .systemContext _ | .copy _ | .move _ | .stop _ =>
    none

variable [DecidableEq ε] {e : ε}

/-- The units of `e` that a call takes, and those that it gives back. -/
def taken (e : ε) (call : Option (WorkCall ε)) : Nat := call.toList.count (.started e)
def given (e : ε) (call : Option (WorkCall ε)) : Nat := call.toList.count (.finished e)

@[simp] theorem taken_none : taken e none = 0 := rfl
@[simp] theorem given_none : given e none = 0 := rfl
@[simp] theorem taken_started (e' : ε) :
    taken e (some (.started e')) = (e' == e).toNat := by
  by_cases h : e' = e <;> simp [taken, h, beq_false_of_ne]
@[simp] theorem given_started (e' : ε) : given e (some (.started e')) = 0 := by simp [given]
@[simp] theorem taken_finished (e' : ε) : taken e (some (.finished e')) = 0 := by simp [taken]
@[simp] theorem given_finished (e' : ε) :
    given e (some (.finished e')) = (e' == e).toNat := by
  by_cases h : e' = e <;> simp [given, h, beq_false_of_ne]

namespace ExecutorWorkGuard

variable {g : ExecutorWorkGuard ε}

def unit (e : ε) (g : ExecutorWorkGuard ε) : Nat := (g.holds && g.executor == e).toNat

/-- 1 if a release by the guard is one of a unit of `e` that it does not hold. -/
def excess (e : ε) (g : ExecutorWorkGuard ε) : Nat :=
  (g.owns && !g.holds && g.executor == e).toNat

theorem new_unit (e' : ε) : taken e (new e').2 = given e (new e').2 + (new e').1.unit e := by
  simp [new, unit]

theorem copy_unit : taken e g.copy.2 = given e g.copy.2 + g.copy.1.unit e := by
  cases h : g.owns <;> simp [copy, unit, h]

theorem move_unit : g.unit e = g.move.1.unit e + g.move.2.unit e := by simp [move, unit]

theorem reset_unit (hg : g.holds = true → g.owns = true) :
    taken e g.reset.2 + g.unit e + g.excess e = given e g.reset.2 + g.reset.1.unit e := by
  cases ho : g.owns <;> cases hh : g.holds <;> simp_all [reset, unit, excess]

omit [DecidableEq ε] in
theorem reset_holds (hg : g.holds = true → g.owns = true) : g.reset.1.holds = false := by
  cases ho : g.owns <;> cases hh : g.holds <;> simp_all [reset]

theorem destroy_unit (hg : g.holds = true → g.owns = true) :
    taken e g.destroy + g.unit e + g.excess e = given e g.destroy := by
  cases ho : g.owns <;> cases hh : g.holds <;> simp_all [destroy, unit, excess]

end ExecutorWorkGuard

namespace Holder

def unit (e : ε) (x : Holder ε) : Nat := (x.holds && x.executor == e).toNat

/-- 1 if a release by the object is one of a unit of `e` that it does not hold. -/
def excess (e : ε) (x : Holder ε) : Nat := (x.owns && !x.holds && x.executor == e).toNat

@[simp] theorem unit_guard (g : ExecutorWorkGuard ε) : (guard g).unit e = g.unit e := rfl

end Holder

namespace Holders

/-- The calls of `on_work_started`, and of `on_work_finished`, on an executor. -/
def started (s : Holders ε) (e : ε) : Nat := s.calls.count (.started e)
def finished (s : Holders ε) (e : ε) : Nat := s.calls.count (.finished e)

/-- The number of live objects that hold a unit of an executor. -/
def held (s : Holders ε) (e : ε) : Nat := (s.objects.map fun x => x.elim 0 (Holder.unit e)).sum

/-- 1 if the step releases a unit of `e` that the object does not hold. -/
def excess (s : Holders ε) (a : HolderAction ε) (e : ε) : Nat :=
  (s.releasing a).elim 0 (Holder.excess e)

-- ---------------------------------------------------------------------------
-- Steps
-- ---------------------------------------------------------------------------

/-- `owns_` is set while a unit is held. -/
def Sound (s : Holders ε) : Prop := ∀ x, some x ∈ s.objects → x.holds = true → x.owns = true

/-- What a step does: it makes an object that holds the unit it takes, moves a
guard, or has an object keep or release what it holds. -/
inductive Step (s : Holders ε) (a : HolderAction ε) : Holders ε → Prop
  | same : s.releasing a = none → Step s a s
  | add {x : Holder ε} : s.releasing a = none → x.holds = x.owns →
      (∀ e, taken e call = given e call + x.unit e) → Step s a (s.add x call)
  | move {g : ExecutorWorkGuard ε} : s.releasing a = none → s.object i = some (.guard g) →
      Step s a ((s.put i (some (.guard g.move.2)) none).add (.guard g.move.1) none)
  | release {x : Holder ε} {y : Option (Holder ε)} : s.releasing a = some x → s.object i = some x →
      (∀ z, y = some z → z.holds = false) →
      (∀ e, taken e call + x.unit e + x.excess e = given e call + y.elim 0 (Holder.unit e)) →
      Step s a (s.put i y call)

variable {s s' s'' : Holders ε} {i : Nat} {x : Holder ε} {y : Option (Holder ε)}
  {call : Option (WorkCall ε)} {a : HolderAction ε}

omit [DecidableEq ε] in
theorem Sound.of_object (hs : s.Sound) (ho : s.object i = some x) :
    x.holds = true → x.owns = true :=
  hs x (List.mem_of_getElem? (Option.join_eq_some_iff.mp ho))

theorem next_step (hs : s.Sound) (h : s.next a = some s') : Step s a s' := by
  cases a with
  | guard e' | dispatcher e' =>
    cases h
    exact .add rfl rfl fun e => ExecutorWorkGuard.new_unit e'
  | systemContext e' =>
    cases h
    refine .add rfl rfl fun e => ?_
    simp [Holder.unit, Holder.holds, Holder.executor]
  | copy i =>
    simp only [next] at h
    split at h <;> cases h
    · exact .add rfl rfl fun e => ExecutorWorkGuard.copy_unit
    · exact .add rfl rfl fun e => ExecutorWorkGuard.copy_unit
  | move i =>
    simp only [next] at h
    split at h <;> cases h
    · rename_i ho
      exact .move rfl ho
    · exact .add rfl rfl fun e => ExecutorWorkGuard.copy_unit
  | reset i =>
    simp only [next] at h
    split at h <;> cases h
    rename_i g ho
    have hg := hs.of_object ho
    refine .release ho ho ?_ fun e => g.reset_unit hg
    rintro _ ⟨⟩
    exact g.reset_holds hg
  | invoke i thrown =>
    simp only [next] at h
    split at h
    · rename_i g ho
      cases thrown with
      | true =>
        cases h
        exact .same rfl
      | false =>
        cases h
        have hg := hs.of_object ho
        refine .release ho ho ?_ fun e => g.reset_unit hg
        rintro _ ⟨⟩
        exact g.reset_holds hg
    · cases h
  | stop i =>
    simp only [next] at h
    split at h <;> cases h
    exact .same rfl
  | join i =>
    simp only [next] at h
    split at h <;> cases h
    rename_i e' b ho
    refine .release ho ho (by simp [Holder.holds]) fun e => ?_
    cases b <;> simp [Holder.unit, Holder.excess, Holder.holds, Holder.executor, Holder.owns]
  | destroy i =>
    simp only [next] at h
    split at h <;> cases h
    · rename_i g ho
      exact .release ho ho (by simp) fun e => g.destroy_unit (hs.of_object ho)
    · rename_i g ho
      exact .release ho ho (by simp) fun e => g.destroy_unit (hs.of_object ho)
    · rename_i e' b ho
      refine .release ho ho (by simp) fun e => ?_
      cases b <;> simp [Holder.unit, Holder.excess, Holder.holds, Holder.executor, Holder.owns]

-- ---------------------------------------------------------------------------
-- Units of work
-- ---------------------------------------------------------------------------

/-- What a piece of code does to the units of `e`: `hand` of them are in no
object before it, and `hand'` after it. -/
def Units (e : ε) (hand : Nat) (s : Holders ε) (hand' : Nat) (s' : Holders ε) : Prop :=
  s'.started e + s.finished e + (s.held e + hand) =
    s.started e + s'.finished e + (s'.held e + hand')

theorem Units.trans {h h' h'' : Nat} (a : Units e h s h' s') (b : Units e h' s' h'' s'') :
    Units e h s h'' s'' := by
  simp only [Units] at *
  omega

theorem add_units {hand hand' : Nat} (h : taken e call + hand = given e call + x.unit e + hand') :
    Units e hand s hand' (s.add x call) := by
  simp only [taken, given] at h
  simp only [Units, started, finished, held, add, List.count_append, List.map_append,
    List.map_cons, List.map_nil, List.sum_append, List.sum_cons, List.sum_nil, Option.elim_some]
  omega

theorem put_units {hand hand' : Nat} (ho : s.object i = some x)
    (h : taken e call + x.unit e + hand = given e call + y.elim 0 (Holder.unit e) + hand') :
    Units e hand s hand' (s.put i y call) := by
  have hsum := Threads.sum_map_set (fun x => x.elim 0 (Holder.unit e)) y
    (Option.join_eq_some_iff.mp ho)
  simp only [taken, given, Option.elim_some] at h hsum
  simp only [Units, started, finished, held, put, List.count_append]
  omega

theorem excess_of_none (h : s.releasing a = none) : s.excess a e = 0 := by simp [excess, h]

theorem Step.units (h : Step s a s') : Units e (s.excess a e) s 0 s' := by
  cases h with
  | same ha =>
    rw [excess_of_none ha]
    rfl
  | add ha _ hcall =>
    rw [excess_of_none ha]
    exact add_units (by simp [hcall e])
  | @move i g ha ho =>
    rw [excess_of_none ha]
    have hput : Units e 0 s (g.move.1.unit e) (s.put i (some (.guard g.move.2)) none) :=
      put_units ho (by simp [g.move_unit (e := e), Nat.add_comm])
    exact hput.trans (add_units (by simp))
  | release ha ho _ hcall =>
    apply put_units ho
    simp [excess, ha, hcall e]

omit [DecidableEq ε] in
theorem Sound.add (hs : s.Sound) (hx : x.holds = true → x.owns = true) :
    (s.add x call).Sound := by
  intro z hz
  rcases List.mem_append.mp hz with hz | hz
  · exact hs z hz
  · obtain rfl : z = x := by simpa using hz
    exact hx

omit [DecidableEq ε] in
theorem Sound.put (hs : s.Sound) (hy : ∀ z, y = some z → z.holds = false) :
    (s.put i y call).Sound := by
  intro z hz
  rcases List.mem_or_eq_of_mem_set hz with hz | hz
  · exact hs z hz
  · simp [hy z hz.symm]

theorem Sound.next (hs : s.Sound) (h : s.next a = some s') : s'.Sound := by
  cases next_step hs h with
  | same => exact hs
  | add _ hx => exact hs.add fun hh => hx ▸ hh
  | move _ ho =>
    refine Sound.add (Sound.put hs ?_) (hs.of_object ho)
    rintro _ ⟨⟩
    rfl
  | release _ _ hy => exact hs.put hy

-- ---------------------------------------------------------------------------
-- Every unit is released once
-- ---------------------------------------------------------------------------

structure Released (s : Holders ε) : Prop where
  finished_le : ∀ e, s.finished e ≤ s.started e
  held : ∀ e, s.started e - s.finished e = s.held e
  destroyed : (∀ x ∈ s.objects, x = none) → ∀ e, s.started e = s.finished e

theorem released_iff_balance : s.Released ↔ ∀ e, s.started e = s.finished e + s.held e := by
  constructor
  · intro h e
    have := h.finished_le e
    have := h.held e
    omega
  · intro h
    refine ⟨fun e => ?_, fun e => ?_, fun hx e => ?_⟩
    · have := h e
      omega
    · have := h e
      omega
    · have hheld : s.held e = 0 := by
        apply List.sum_eq_zero
        intro n hn
        obtain ⟨x, hmem, rfl⟩ := List.mem_map.mp hn
        rw [hx x hmem]
        rfl
      have := h e
      omega

/-- The step does not release from an object that has released what it took
already. -/
def ReleasesOnce (s : Holders ε) (a : HolderAction ε) : Prop :=
  ∀ x, s.releasing a = some x → x.owns = true → x.holds = true

theorem releasesOnce_iff : s.ReleasesOnce a ↔ ∀ e, s.excess a e = 0 := by
  simp only [ReleasesOnce, excess]
  cases s.releasing a with
  | none => simp
  | some x =>
    simp only [Option.some.injEq, forall_eq', Option.elim, Holder.excess]
    constructor
    · intro h e
      cases ho : x.owns with
      | true => simp [h ho]
      | false => rfl
    · intro h ho
      have hx := h x.executor
      cases hh : x.holds with
      | true => rfl
      | false => simp [ho, hh] at hx

/-- Along a run, every unit is released once if and only if no step releases
from an object that holds none: a guard that was reset before, a dispatcher that
was invoked before, a `system_context` that was joined before. -/
theorem released_iff (ls : List (HolderAction ε)) :
    AllStates next Released {} ls ↔ AllSteps next ReleasesOnce {} ls := by
  apply allStates_iff_allSteps (I := fun s => s.Sound ∧ s.Released)
  · exact fun s hs => hs.2
  · rintro s a s' ⟨hs, hr⟩ - ha hn
    refine ⟨hs.next hn, released_iff_balance.mpr fun e => ?_⟩
    have hu := (next_step hs hn).units (e := e)
    have := releasesOnce_iff.mp ha e
    have := released_iff_balance.mp hr e
    simp only [Units] at hu
    omega
  · rintro s a s' ⟨hs, hr⟩ - ha hn hr'
    refine ha (releasesOnce_iff.mpr fun e => ?_)
    have hu := (next_step hs hn).units (e := e)
    have := released_iff_balance.mp hr e
    have := released_iff_balance.mp hr' e
    simp only [Units] at hu
    omega
  · refine ⟨by simp [Sound], released_iff_balance.mpr fun e => ?_⟩
    simp [started, finished, held]

/-- A guard that is reset and destroyed, a dispatcher that is invoked and
destroyed, and a `system_context` that is joined and destroyed. -/
theorem releasedTwice :
    ¬ AllStates next Released ({} : Holders Unit) [.guard (), .reset 0, .destroy 0] ∧
    ¬ AllStates next Released ({} : Holders Unit) [.dispatcher (), .invoke 0 false, .destroy 0] ∧
    ¬ AllStates next Released ({} : Holders Unit) [.systemContext (), .join 0, .destroy 0] := by
  refine ⟨fun h => ?_, fun h => ?_, fun h => ?_⟩ <;>
    exact absurd (h.2.2.2.finished_le ()) (by decide)

end Holders

end BoostAsio
