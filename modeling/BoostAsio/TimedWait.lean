import BoostAsio.EventState
import BoostAsio.Lib.Retry

/-!
# The timed wait of an event

`event::wait_for_usec` waits in a loop that only the signalled bit ends, and
does not look at why `cond_.wait_for` returned. It therefore waits on after a
timeout, and returns in time if and only if the bit is set when the call begins
or at a wakeup up to the first timeout (`timedWait_ends_iff`). It never returns
false (`returns_true`), and without a signal it never returns (`not_ends`).
-/

namespace BoostAsio.EventState

open Loops

/-- What another thread does to `state_`: a signal of any kind, `clear`, and the
two ends of a `waiter` of its own. -/
inductive OtherOp
  | signal
  | clear
  | enter
  | leave

def OtherOp.apply (s : EventState) : OtherOp → EventState
  | signal => s.signal
  | clear => s.clear
  | enter => s.enter
  | leave => s.leave

inductive WakeupKind
  | timeout
  | spurious
  | notified
  deriving DecidableEq

/-- A return from `cond_.wait_for`, and what the other threads did before it. -/
structure Wakeup where
  kind : WakeupKind
  others : List OtherOp

structure TimedWait where
  state : EventState
  wakeups : Nat := 0
  result : Option Bool := none

/-- One turn of the loop in `wait_for_usec`, or the return. -/
def turn (w : Nat → Wakeup) (t : TimedWait) : Option TimedWait :=
  match t.result with
  | some _ => none
  | none =>
    if t.state.signalled then some { t with result := some t.state.signalled }
    else
      let state := t.state.enter
      let state := (w t.wakeups).others.foldl OtherOp.apply state
      some { state := state.leave, wakeups := t.wakeups + 1 }

/-- What the other threads make of the state up to wakeup `n`. -/
def after (w : Nat → Wakeup) (s : EventState) : Nat → EventState
  | 0 => s
  | n + 1 => (w n).others.foldl OtherOp.apply (after w s n)

def FirstTimeout (w : Nat → Wakeup) (m : Nat) : Prop :=
  (w m).kind = .timeout ∧ ∀ n < m, (w n).kind ≠ .timeout

/-- A timed wait that begins with `s` ends with the first timeout at the latest,
and returns the signalled bit. -/
structure TimedWaitEnds (w : Nat → Wakeup) (s : EventState) : Prop where
  ends : ∀ m, FirstTimeout w m → ∃ t, Ends (turn w) { state := s } t ∧ t.wakeups ≤ m + 1
  returned : ∀ t, Ends (turn w) { state := s } t →
    t.result = some t.state.signalled ∧ t.state = after w s t.wakeups

-- ---------------------------------------------------------------------------
-- The count of the waiter
-- ---------------------------------------------------------------------------

variable (s : EventState)

@[simp] theorem leave_enter : s.enter.leave = s := BitVec.add_sub_cancel s 2

@[simp] theorem enter_leave : s.leave.enter = s := BitVec.sub_add_cancel s 2

/-- The count is above the bit, whatever it is and though it may wrap. -/
theorem apply_enter (op : OtherOp) : op.apply s.enter = (op.apply s).enter := by
  have hs := s.isLt
  cases op with
  | signal =>
    refine BitVec.eq_of_toNat_eq ?_
    simp only [OtherOp.apply, toNat_signal, enter, BitVec.toNat_add]
    simp
    omega
  | clear =>
    refine BitVec.eq_of_toNat_eq ?_
    simp only [OtherOp.apply, toNat_clear, enter, BitVec.toNat_add]
    simp
    omega
  | enter => rfl
  | leave => exact (leave_enter s).trans (enter_leave s).symm

theorem foldl_apply_enter (ops : List OtherOp) :
    ops.foldl OtherOp.apply s.enter = (ops.foldl OtherOp.apply s).enter := by
  induction ops generalizing s with
  | nil => rfl
  | cons op ops ih => rw [List.foldl_cons, List.foldl_cons, apply_enter, ih]

-- ---------------------------------------------------------------------------
-- The loop
-- ---------------------------------------------------------------------------

variable (w : Nat → Wakeup)

/-- Turn `n` begins, after `n` wakeups. -/
structure AtTurn (n : Nat) (t : TimedWait) : Prop where
  result : t.result = none
  wakeups : t.wakeups = n
  state : t.state = after w s n

structure LeftTurn (n : Nat) (t : TimedWait) : Prop where
  result : t.result = some true
  wakeups : t.wakeups = n
  state : t.state = after w s n

theorem turn_retry :
    Retry (turn w) (fun n => (after w s n).signalled = false) (AtTurn s w) (LeftTurn s w) := by
  constructor
  · rintro n t ⟨hresult, hwakeups, hstate⟩ hclear
    refine ⟨{ state := after w s (n + 1), wakeups := n + 1 }, ?_, rfl, rfl, rfl⟩
    simp [turn, hresult, hwakeups, hstate, hclear, foldl_apply_enter, after]
  · rintro n t ⟨hresult, hwakeups, hstate⟩ hset
    rw [Bool.not_eq_false] at hset
    refine ⟨{ t with result := some true }, ?_, rfl, rfl, hwakeups, hstate⟩
    simp [turn, hresult, hstate, hset]

theorem atTurn_zero : AtTurn s w 0 { state := s } := ⟨rfl, rfl, rfl⟩

variable {s w} {t : TimedWait}

theorem returns_true (h : Ends (turn w) { state := s } t) : t.result = some true := by
  obtain ⟨n, -, -, hleft⟩ := (turn_retry s w).of_ends (atTurn_zero s w) h
  exact hleft.result

/-- Without a signal there is no return, however many timeouts there are. -/
theorem not_ends (h : ∀ n, (after w s n).signalled = false) :
    ¬ ∃ t, Ends (turn w) { state := s } t := by
  rw [(turn_retry s w).exists_ends_iff (atTurn_zero s w)]
  rintro ⟨n, hn⟩
  exact hn (h n)

/-- A timed wait ends as it should if and only if, where there is a timeout, the
bit is set at first or at a wakeup up to the first timeout. -/
theorem timedWait_ends_iff (w : Nat → Wakeup) (s : EventState) :
    TimedWaitEnds w s ↔
      ∀ m, FirstTimeout w m → ∃ n, n ≤ m + 1 ∧ (after w s n).signalled = true := by
  have hretry := turn_retry s w
  have hstart := atTurn_zero s w
  constructor
  · intro h m hm
    obtain ⟨t, hends, hle⟩ := h.ends m hm
    obtain ⟨n, -, hset, hleft⟩ := hretry.of_ends hstart hends
    rw [hleft.wakeups] at hle
    exact ⟨n, hle, Bool.not_eq_false _ ▸ hset⟩
  · intro h
    refine ⟨fun m hm => ?_, fun t hends => ?_⟩
    · obtain ⟨n, hle, hset⟩ := h m hm
      obtain ⟨t, hends⟩ := (hretry.exists_ends_iff hstart).mpr ⟨n, by simp [hset]⟩
      obtain ⟨k, hbefore, -, hleft⟩ := hretry.of_ends hstart hends
      refine ⟨t, hends, ?_⟩
      rw [hleft.wakeups]
      by_contra hlate
      have hclear := hbefore n (by omega)
      rw [hset] at hclear
      cases hclear
    · obtain ⟨n, -, hset, hleft⟩ := hretry.of_ends hstart hends
      rw [Bool.not_eq_false] at hset
      rw [hleft.result, hleft.state, hleft.wakeups, hset]
      exact ⟨rfl, rfl⟩

/-- Nobody signals, and every wait times out. -/
theorem timeouts_never_end :
    (¬ ∃ t, Ends (turn fun _ => ⟨.timeout, []⟩) { state := 0 } t) ∧
      ¬ TimedWaitEnds (fun _ => ⟨.timeout, []⟩) 0 := by
  have hafter : ∀ n, after (fun _ => ⟨.timeout, []⟩) 0 n = 0 := by
    intro n
    induction n with
    | zero => rfl
    | succ n ih => rw [after, ih, List.foldl_nil]
  have hnever := not_ends fun n => congrArg signalled (hafter n)
  refine ⟨hnever, fun h => ?_⟩
  obtain ⟨t, hends, -⟩ := h.ends 0 ⟨rfl, fun n hn => absurd hn (Nat.not_lt_zero n)⟩
  exact hnever ⟨t, hends⟩

end BoostAsio.EventState
