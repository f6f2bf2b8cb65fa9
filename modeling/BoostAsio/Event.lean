import Mathlib.Data.Finset.Basic

/-!
# The wakeup event

`event` packs a signalled bit and a count of waiters, two for each, into
`state_`. The condition variable beside it is the set of the threads that wait
on it and have not been notified; a thread outside the set may take the lock
and return from `cond_.wait`, and one inside may too (a spurious wakeup).
-/

namespace BoostAsio

structure Event (ι : Type) where
  state : Nat := 0
  blocked : Finset ι := ∅

namespace Event

variable {ι : Type} (e : Event ι)

/-- `(state_ & 1) != 0` -/
def signalled : Bool := e.state &&& 1 != 0

def signalAll : Event ι := ⟨e.state ||| 1, ∅⟩

/-- The bit and the test that `unlock_and_signal_one` and
`maybe_unlock_and_signal_one` share: the event, and `have_waiters`. -/
def signalOne : Event ι × Bool := (⟨e.state ||| 1, e.blocked⟩, e.state ||| 1 > 1)

/-- `state_ &= ~std::size_t(1)` -/
def clear : Event ι := ⟨e.state - (e.state &&& 1), e.blocked⟩

def waiters : Nat := e.state / 2

section Waiting

variable [DecidableEq ι]

/-- `waiter w(state_)` and the start of `cond_.wait(lock)` -/
def enterWait (i : ι) : Event ι := ⟨e.state + 2, insert i e.blocked⟩

/-- The return from `cond_.wait(lock)` and `~waiter`. -/
def leaveWait (i : ι) : Event ι := ⟨e.state - 2, e.blocked.erase i⟩

/-- `cond_.notify_one()`, which wakes `j` -/
def notifyOne (j : ι) : Event ι := ⟨e.state, e.blocked.erase j⟩

end Waiting

-- ---------------------------------------------------------------------------
-- What the operations do to the bit and to the count
-- ---------------------------------------------------------------------------

theorem signalled_iff : e.signalled = true ↔ e.state % 2 = 1 := by
  simp only [signalled, Nat.and_one_is_mod, bne_iff_ne]
  omega

theorem or_one (n : Nat) : n ||| 1 = 2 * (n / 2) + 1 := by
  have hd : (n ||| 1) / 2 = n / 2 := by simp [Nat.or_div_two]
  have hm : (n ||| 1) % 2 = 1 := by simp [Nat.or_mod_two_eq_one]
  omega

@[simp] theorem signalAll_signalled : e.signalAll.signalled = true := by
  simp only [signalled_iff, signalAll, or_one]
  omega
@[simp] theorem signalAll_waiters : e.signalAll.waiters = e.waiters := by
  simp only [waiters, signalAll, or_one]
  omega
@[simp] theorem signalAll_blocked : e.signalAll.blocked = ∅ := rfl

@[simp] theorem signalOne_signalled : e.signalOne.1.signalled = true := by
  simp only [signalled_iff, signalOne, or_one]
  omega
@[simp] theorem signalOne_waiters : e.signalOne.1.waiters = e.waiters := by
  simp only [waiters, signalOne, or_one]
  omega
@[simp] theorem signalOne_blocked : e.signalOne.1.blocked = e.blocked := rfl
@[simp] theorem signalOne_haveWaiters : e.signalOne.2 = decide (0 < e.waiters) := by
  refine decide_eq_decide.mpr ?_
  simp only [waiters, or_one]
  omega

@[simp] theorem clear_signalled : e.clear.signalled = false := by
  rw [← Bool.not_eq_true, signalled_iff]
  simp only [clear, Nat.and_one_is_mod]
  omega
@[simp] theorem clear_waiters : e.clear.waiters = e.waiters := by
  simp only [waiters, clear, Nat.and_one_is_mod]
  omega
@[simp] theorem clear_blocked : e.clear.blocked = e.blocked := rfl

variable [DecidableEq ι] (i : ι)

@[simp] theorem enterWait_signalled : (e.enterWait i).signalled = e.signalled := by
  rw [Bool.eq_iff_iff, signalled_iff, signalled_iff]
  simp [enterWait]
@[simp] theorem enterWait_waiters : (e.enterWait i).waiters = e.waiters + 1 := by
  simp only [waiters, enterWait]
  omega
@[simp] theorem enterWait_blocked : (e.enterWait i).blocked = insert i e.blocked := rfl

theorem leaveWait_signalled (h : 0 < e.waiters) : (e.leaveWait i).signalled = e.signalled := by
  rw [Bool.eq_iff_iff, signalled_iff, signalled_iff]
  simp only [waiters, leaveWait] at h ⊢
  omega
@[simp] theorem leaveWait_waiters : (e.leaveWait i).waiters = e.waiters - 1 := by
  simp only [waiters, leaveWait]
  omega
@[simp] theorem leaveWait_blocked : (e.leaveWait i).blocked = e.blocked.erase i := rfl

@[simp] theorem notifyOne_signalled : (e.notifyOne i).signalled = e.signalled := rfl
@[simp] theorem notifyOne_waiters : (e.notifyOne i).waiters = e.waiters := rfl
@[simp] theorem notifyOne_blocked : (e.notifyOne i).blocked = e.blocked.erase i := rfl

end Event

end BoostAsio
