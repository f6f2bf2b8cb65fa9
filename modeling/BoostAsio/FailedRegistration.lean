import BoostAsio.Context

/-!
# Registrations that fail

`register_descriptor` and `register_internal_descriptor` put the new
`descriptor_state` into `registered_descriptors_` before they ask `epoll_ctl`,
and leave it there when the kernel refuses. A registration that fails has then
replaced the entry of its number (`failed_replaces`), so that a state
registered under it before can be found no more, and an operation passed in is
queued in a state that the kernel does not watch (`failed_queues`).
-/

namespace BoostAsio

open Runs

/-- A call of one of the two functions that register. -/
structure Registration where
  descriptor : Int
  /-- 0 if `epoll_ctl` succeeds, and its `errno` if not. -/
  ctl : ErrorCode
  /-- What `register_internal_descriptor` is given to queue. -/
  internal : Option (OpType × ReactorOp) := none

namespace Registration

variable {ι : Type}

def action (r : Registration) : Action ι :=
  match r.internal with
  | none => .user (.registerDescriptor r.descriptor r.ctl)
  | some (ty, op) => .user (.registerInternalDescriptor ty r.descriptor op r.ctl)

/-- The new state, and the value that the function returns. -/
def register (r : Registration) : DescriptorState × ErrorCode :=
  match r.internal with
  | none => DescriptorState.register r.descriptor r.ctl
  | some (ty, op) => DescriptorState.registerInternal ty r.descriptor op r.ctl

/-- `epoll_ctl` succeeds, or fails for a file that `register_descriptor` takes
to be ready always. -/
def Accepted (r : Registration) : Prop :=
  r.ctl = 0 ∨ r.internal = none ∧ r.ctl = eperm

theorem returned_eq_zero (r : Registration) : r.register.2 = 0 ↔ r.Accepted := by
  unfold register Accepted
  cases r.internal with
  | none =>
    simp only [DescriptorState.register, true_and]
    by_cases hzero : r.ctl = 0
    · simp [hzero]
    · by_cases hperm : r.ctl = eperm
      · simp [hperm, eperm]
      · simp [hzero, hperm]
  | some p =>
    obtain ⟨ty, op⟩ := p
    simp only [DescriptorState.registerInternal, reduceCtorEq, false_and, or_false]
    by_cases hzero : r.ctl = 0 <;> simp [hzero]

theorem kernelEvents_of_failed (r : Registration) (h : ¬ r.Accepted) :
    r.register.1.kernelEvents = 0 := by
  have hctl : r.ctl ≠ 0 := fun hzero => h (.inl hzero)
  unfold register
  cases hr : r.internal with
  | none =>
    have hperm : r.ctl ≠ eperm := fun hperm => h (.inr ⟨hr, hperm⟩)
    simp [DescriptorState.register, hctl, hperm]
  | some p => simp [DescriptorState.registerInternal, hctl]

end Registration

namespace Context

variable {ι : Type}

/-- What a registration that returns an error should leave as it was. -/
structure LeavesReactor (c c' : Context ι) (r : Registration) : Prop where
  map : ∀ fd : Int, c'.registeredDescriptors[fd]? = c.registeredDescriptors[fd]?
  /-- The state registered under the number before is found, with what is
  pending on it. -/
  reachable : ∀ (d : Nat) (x : DescriptorState), c.registeredDescriptors[r.descriptor]? = some d →
    c.descriptors[d]? = some x →
    c'.registeredDescriptors[r.descriptor]? = some d ∧ c'.descriptors[d]? = some x
  /-- The operation passed in is not queued where the kernel watches nothing. -/
  queued : ∀ (ty : OpType) (op : ReactorOp), r.internal = some (ty, op) →
    ∀ x ∈ c'.descriptors, op ∈ x.pending → x.kernelEvents ≠ 0

variable [DecidableEq ι] {hint : Int} {c c' : Context ι} {i : ι} {r : Registration}

/-- A registration appends a state, and the entry of its number points there. -/
theorem registered_next (hn : c.next hint (i, r.action) = some c') :
    c'.descriptors = c.descriptors ++ [r.register.1] ∧
      c'.registeredDescriptors =
        c.registeredDescriptors.insert r.descriptor c.descriptors.length := by
  simp only [next, Option.map_eq_some_iff] at hn
  obtain ⟨system, hn, rfl⟩ := hn
  obtain ⟨s, t, hs, rfl⟩ := Threads.next_eq_some.mp hn
  unfold Registration.action at hs ⊢
  unfold Registration.register
  cases hr : r.internal with
  | none =>
    simp only [hr, step, userStep, Option.ite_none_right_eq_some] at hs
    cases hs.2
    exact ⟨rfl, rfl⟩
  | some p =>
    obtain ⟨ty, op⟩ := p
    simp only [hr, step, userStep, Option.ite_none_right_eq_some] at hs
    cases hs.2.2
    exact ⟨rfl, rfl⟩

/-- Whatever `epoll_ctl` answers, the entry is a state that was not there before. -/
theorem failed_replaces (hc : c.Registered) (hn : c.next hint (i, r.action) = some c') :
    c'.registeredDescriptors[r.descriptor]? = some c.descriptors.length ∧
      ∀ fd : Int, c.registeredDescriptors[fd]? ≠ some c.descriptors.length := by
  constructor
  · rw [(registered_next hn).2]
    simp
  · intro fd hfd
    exact absurd (hc.lt fd _ hfd) (Nat.lt_irrefl _)

/-- An operation passed to a registration that fails is pending where the kernel
watches nothing. -/
theorem failed_queues (hn : c.next hint (i, r.action) = some c') (hfailed : ¬ r.Accepted)
    {ty : OpType} {op : ReactorOp} (hop : r.internal = some (ty, op)) :
    ∃ x ∈ c'.descriptors, op ∈ x.pending ∧ x.kernelEvents = 0 := by
  refine ⟨r.register.1, ?_, ?_, r.kernelEvents_of_failed hfailed⟩
  · rw [(registered_next hn).1]
    exact List.mem_append_right _ List.mem_cons_self
  · have hpending : r.register.1.pending = [op] := by
      simp only [Registration.register, hop]
      cases ty <;> by_cases hctl : r.ctl = 0 <;>
        simp [DescriptorState.registerInternal, DescriptorState.pending, hctl]
    rw [hpending]
    exact List.mem_cons_self

theorem registered_of_reach {m : Uninitialised}
    (h : Reach (next hint) (fun _ _ => True) (new m) c) : c.Registered :=
  h.invariant ⟨by simp [new], by simp [new]⟩ fun _ _ _ _ hc _ hn => hc.next hn

/-- A registration leaves the reactor as it was, should it return an error, if
and only if it returns none. -/
theorem leavesReactor_iff (hint : Int) (m : Uninitialised) (i : ι)
    (h : Reach (next hint) (fun _ _ => True) (new m) c)
    (hn : c.next hint (i, r.action) = some c') :
    (r.register.2 ≠ 0 → LeavesReactor c c' r) ↔ r.Accepted := by
  rw [← r.returned_eq_zero]
  constructor
  · intro hleaves
    by_contra hfailed
    obtain ⟨hnew, hold⟩ := failed_replaces (registered_of_reach h) hn
    exact hold r.descriptor (((hleaves hfailed).map r.descriptor).symm.trans hnew)
  · intro haccepted hreturned
    exact absurd haccepted hreturned

/-- A read is pending on the number 5 when it is registered again, which
`epoll_ctl` refuses with `EEXIST`. -/
def pendingRead : List (Fin 3 × Action (Fin 3)) :=
  [(System.first, .user (.registerDescriptor 5 0)),
    (System.first,
      .user (.startOp (some 0) .readOp ⟨1, 0⟩ false true (fun _ => (.notDone, 11)) 0))]

def registerAgain : Registration := { descriptor := 5, ctl := 17 }

theorem registerAgain_unreachable : ∃ c c' : Context (Fin 3),
    exec (next 0) (new {}) pendingRead = some c ∧
      c.next 0 (System.first, registerAgain.action) = some c' ∧
      ¬ (registerAgain.register.2 ≠ 0 → LeavesReactor c c' registerAgain) := by
  refine ⟨_, _, rfl, rfl, ?_⟩
  intro h
  have hmap := (h (by decide)).map 5
  revert hmap
  decide

theorem leavesReactor_registerOther : ∃ c c' : Context (Fin 3),
    exec (next 0) (new {}) pendingRead = some c ∧
      c.next 0 (System.first, (⟨6, 0, none⟩ : Registration).action) = some c' ∧
      ((⟨6, 0, none⟩ : Registration).register.2 ≠ 0 → LeavesReactor c c' ⟨6, 0, none⟩) := by
  refine ⟨_, _, rfl, rfl, ?_⟩
  refine (leavesReactor_iff 0 {} System.first ?_ rfl).mpr (.inl rfl)
  exact .of_exec pendingRead (allSteps_trivial _ _) rfl

end Context

end BoostAsio
