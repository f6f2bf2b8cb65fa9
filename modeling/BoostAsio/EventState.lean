import BoostAsio.Event
import BoostAsio.Lib.Threads
import Mathlib.Algebra.BigOperators.Ring.Finset

/-!
# The packed state of an event

`event` with `state_` as the `std::size_t` that it is, and any number of
threads that use it under one mutex. A critical section of a function is one
step; the loop of `wait` has a step for each of its tests, for each return from
`cond_.wait` and for each end of a `waiter`.

Below `2 ^ 62` threads the state never wraps, and while the mutex is free it is
twice the number of threads in `cond_.wait`, plus the signalled bit
(`packedState_exact`). The threads then do to it what the operations of `Event`
do to natural numbers (`next_toEvent`).
-/

namespace BoostAsio

abbrev EventState := BitVec 64

namespace EventState

variable (s : EventState)

def signal : EventState := s ||| 1

def clear : EventState := s &&& ~~~1#64

def signalled : Bool := s &&& 1 != 0

def haveWaiters : Bool := 1 < s

/-- `waiter(state_)` and `~waiter()` -/
def enter : EventState := s + 2
def leave : EventState := s - 2

theorem toNat_signal : s.signal.toNat = 2 * (s.toNat / 2) + 1 := by
  rw [signal, BitVec.toNat_or]
  exact Event.or_one s.toNat

theorem toNat_clear : s.clear.toNat = 2 * (s.toNat / 2) := by
  have hshift : s.clear = (s >>> 1) <<< 1 := by
    refine BitVec.eq_of_getLsbD_eq fun i hi => ?_
    cases i with
    | zero => simp [clear]
    | succ i => simp [clear, hi, Nat.add_comm 1 i, -BitVec.reduceNot]
  have hs := s.isLt
  rw [hshift, BitVec.toNat_shiftLeft, BitVec.toNat_ushiftRight, Nat.shiftRight_eq_div_pow,
    Nat.shiftLeft_eq]
  omega

theorem signalled_iff : s.signalled = true ↔ s.toNat % 2 = 1 := by
  rw [signalled, bne_iff_ne, Ne, ← BitVec.toNat_inj, BitVec.toNat_and]
  simp

theorem haveWaiters_signal : s.signal.haveWaiters = decide (0 < s.toNat / 2) := by
  refine decide_eq_decide.mpr ?_
  rw [BitVec.lt_def, toNat_signal]
  simp

theorem toNat_enter (h : s.toNat + 2 < 2 ^ 64) : s.enter.toNat = s.toNat + 2 := by
  rw [enter, BitVec.toNat_add]
  exact Nat.mod_eq_of_lt h

theorem toNat_leave (h : 2 ≤ s.toNat) : s.leave.toNat = s.toNat - 2 :=
  BitVec.toNat_sub_of_le h

-- ---------------------------------------------------------------------------
-- The event of natural numbers
-- ---------------------------------------------------------------------------

variable {ι : Type} (blocked : Finset ι)

def toEvent : Event ι := ⟨s.toNat, blocked⟩

theorem signal_toEvent : s.signal.toEvent ∅ = (s.toEvent blocked).signalAll := by
  rw [toEvent, toNat_signal, ← Event.or_one]
  rfl

theorem signalOne_toEvent :
    (s.signal.toEvent blocked, s.signal.haveWaiters) = (s.toEvent blocked).signalOne := by
  refine Prod.ext ?_ ?_
  · rw [toEvent, toNat_signal, ← Event.or_one]
    rfl
  · rw [Event.signalOne_haveWaiters]
    exact s.haveWaiters_signal

theorem clear_toEvent : s.clear.toEvent blocked = (s.toEvent blocked).clear := by
  have hclear : 2 * (s.toNat / 2) = s.toNat - (s.toNat &&& 1) := by
    rw [Nat.and_one_is_mod]
    omega
  rw [toEvent, toNat_clear, hclear]
  rfl

theorem signalled_toEvent : (s.toEvent blocked).signalled = s.signalled := by
  rw [Bool.eq_iff_iff, Event.signalled_iff, signalled_iff]
  rfl

variable [DecidableEq ι] (i : ι)

theorem enter_toEvent (h : s.toNat + 2 < 2 ^ 64) :
    s.enter.toEvent (insert i blocked) = (s.toEvent blocked).enterWait i := by
  rw [toEvent, toNat_enter s h]
  rfl

theorem leave_toEvent (h : 2 ≤ s.toNat) :
    s.leave.toEvent (blocked.erase i) = (s.toEvent blocked).leaveWait i := by
  rw [toEvent, toNat_leave s h]
  rfl

end EventState

-- ---------------------------------------------------------------------------
-- Threads that share an event
-- ---------------------------------------------------------------------------

structure EventMemory (ι : Type) where
  owner : Option ι := none
  state : EventState := 0
  /-- who waits on `cond_` and has not been notified -/
  blocked : Finset ι := ∅
  /-- History: there was a signal since the last `clear`. -/
  signalled : Bool := false

inductive EventPlace
  /-- in none of the functions, without the lock or with it -/
  | outside
  | locked
  /-- before `cond_.notify_one()`, in `maybe_unlock_and_signal_one` if `maybe` -/
  | notifying (maybe : Bool)
  /-- before the test of the loop in `wait` -/
  | testing
  | waiting
  /-- before `~waiter` -/
  | returned
  deriving DecidableEq

structure EventThread where
  place : EventPlace := .outside
  /-- History: what `maybe_unlock_and_signal_one` has just returned. -/
  result : Option Bool := none

inductive EventAction (ι : Type)
  | lock
  | unlock
  | signalAll
  | unlockAndSignalOne
  | maybeUnlockAndSignalOne
  /-- `cond_.notify_one()`, which wakes `j` if there is anyone to wake -/
  | notifyOne (j : ι)
  | clear
  | wait
  | test
  /-- the return from `cond_.wait`, after a notification or spuriously -/
  | wake
  | leave

namespace EventPlace

def owns : EventPlace → Bool
  | locked | testing | returned => true
  | _ => false

def hasWaiter : EventPlace → Bool
  | waiting | returned => true
  | _ => false

end EventPlace

/-- What an action of thread `i` does to an `Event`. -/
def EventAction.apply {ι : Type} [DecidableEq ι] (i : ι) (a : EventAction ι) (e : Event ι) :
    Event ι :=
  match a with
  | .signalAll => e.signalAll
  | .unlockAndSignalOne | .maybeUnlockAndSignalOne => e.signalOne.1
  | .notifyOne j => e.notifyOne j
  | .clear => e.clear
  | .test => if e.signalled then e else e.enterWait i
  | .wake => e.notifyOne i
  | .leave => e.leaveWait i
  | .lock | .unlock | .wait => e

namespace EventMemory

def toEvent {ι : Type} (m : EventMemory ι) : Event ι := m.state.toEvent m.blocked

variable {ι : Type} [DecidableEq ι]

/-- What both functions do after `state_ |= 1` where there are waiters. -/
def unlockToNotify (m : EventMemory ι) (maybe : Bool) : EventMemory ι × EventThread :=
  ({ m with owner := none }, { place := .notifying maybe })

def signal (m : EventMemory ι) : EventMemory ι :=
  { m with state := m.state.signal, signalled := true }

def step (i : ι) (a : EventAction ι) (m : EventMemory ι) (t : EventThread) :
    Option (EventMemory ι × EventThread) :=
  match t.place, a with
  | .outside, .lock =>
    if m.owner = none then some ({ m with owner := some i }, { place := .locked }) else none
  | .locked, .unlock => some ({ m with owner := none }, {})
  | .locked, .signalAll => some ({ m.signal with blocked := ∅ }, { place := .locked })
  | .locked, .unlockAndSignalOne =>
    if m.signal.state.haveWaiters then some (m.signal.unlockToNotify false)
    else some ({ m.signal with owner := none }, {})
  | .locked, .maybeUnlockAndSignalOne =>
    if m.signal.state.haveWaiters then some (m.signal.unlockToNotify true)
    else some (m.signal, { place := .locked, result := some false })
  | .notifying maybe, .notifyOne j =>
    if j ∈ m.blocked ∨ m.blocked = ∅ then
      some ({ m with blocked := m.blocked.erase j },
        { result := if maybe then some true else none })
    else none
  | .locked, .clear =>
    some ({ m with state := m.state.clear, signalled := false }, { place := .locked })
  | .locked, .wait => some (m, { place := .testing })
  | .testing, .test =>
    if m.state.signalled then some (m, { place := .locked })
    else
      some ({ m with state := m.state.enter, owner := none, blocked := insert i m.blocked },
        { place := .waiting })
  | .waiting, .wake =>
    if m.owner = none then
      some ({ m with owner := some i, blocked := m.blocked.erase i }, { place := .returned })
    else none
  | .returned, .leave => some ({ m with state := m.state.leave }, { place := .testing })
  | _, _ => none

inductive Steps (i : ι) (m : EventMemory ι) (result : Option Bool) :
    EventPlace → EventAction ι → EventMemory ι → EventThread → Prop
  | lock : m.owner = none →
      Steps i m result .outside .lock { m with owner := some i } { place := .locked }
  | unlock : Steps i m result .locked .unlock { m with owner := none } {}
  | signalAll :
      Steps i m result .locked .signalAll { m.signal with blocked := ∅ } { place := .locked }
  | unlockAndSignal : m.signal.state.haveWaiters = true →
      Steps i m result .locked .unlockAndSignalOne { m.signal with owner := none }
        { place := .notifying false }
  | unlockOnly : m.signal.state.haveWaiters = false →
      Steps i m result .locked .unlockAndSignalOne { m.signal with owner := none } {}
  | maybeUnlock : m.signal.state.haveWaiters = true →
      Steps i m result .locked .maybeUnlockAndSignalOne { m.signal with owner := none }
        { place := .notifying true }
  | maybeKeep : m.signal.state.haveWaiters = false →
      Steps i m result .locked .maybeUnlockAndSignalOne m.signal
        { place := .locked, result := some false }
  | notifyOne {maybe : Bool} {j : ι} :
      Steps i m result (.notifying maybe) (.notifyOne j)
        { m with blocked := m.blocked.erase j } { result := if maybe then some true else none }
  | clear : Steps i m result .locked .clear
      { m with state := m.state.clear, signalled := false } { place := .locked }
  | wait : Steps i m result .locked .wait m { place := .testing }
  | stopWaiting : m.state.signalled = true →
      Steps i m result .testing .test m { place := .locked }
  | goWaiting : m.state.signalled = false →
      Steps i m result .testing .test
        { m with state := m.state.enter, owner := none, blocked := insert i m.blocked }
        { place := .waiting }
  | wake : m.owner = none →
      Steps i m result .waiting .wake
        { m with owner := some i, blocked := m.blocked.erase i } { place := .returned }
  | leave : Steps i m result .returned .leave { m with state := m.state.leave }
      { place := .testing }

variable {i : ι} {a : EventAction ι} {m m' : EventMemory ι} {t t' : EventThread}

theorem step_cases (h : step i a m t = some (m', t')) : Steps i m t.result t.place a m' t' := by
  obtain ⟨place, result⟩ := t
  simp only [step] at h
  split at h
  case h_1 =>
    simp only [Option.ite_none_right_eq_some] at h
    obtain ⟨hfree, h⟩ := h
    cases h
    exact .lock hfree
  case h_4 =>
    split at h
    next hw =>
      cases h
      exact .unlockAndSignal hw
    next hw =>
      cases h
      exact .unlockOnly (Bool.eq_false_iff.mpr hw)
  case h_5 =>
    split at h
    next hw =>
      cases h
      exact .maybeUnlock hw
    next hw =>
      cases h
      exact .maybeKeep (Bool.eq_false_iff.mpr hw)
  case h_6 =>
    simp only [Option.ite_none_right_eq_some] at h
    obtain ⟨-, h⟩ := h
    cases h
    exact .notifyOne
  case h_9 =>
    split at h
    next hs =>
      cases h
      exact .stopWaiting hs
    next hs =>
      cases h
      exact .goWaiting (Bool.eq_false_iff.mpr hs)
  case h_10 =>
    simp only [Option.ite_none_right_eq_some] at h
    obtain ⟨hfree, h⟩ := h
    cases h
    exact .wake hfree
  case h_2 | h_3 | h_7 | h_8 | h_11 =>
    cases h
    constructor
  case h_12 => cases h

-- ---------------------------------------------------------------------------
-- What one step preserves
-- ---------------------------------------------------------------------------

variable {place : EventPlace} {result : Option Bool}

theorem Steps.owner (h : Steps i m result place a m' t')
    (howns : place.owns = true ↔ m.owner = some i) :
    (t'.place.owns = true ↔ m'.owner = some i) ∧
      ∀ j, j ≠ i → (m'.owner = some j ↔ m.owner = some j) := by
  cases h with
  | lock hfree | wake hfree =>
    refine ⟨by simp [EventPlace.owns], fun j hj => ?_⟩
    simp [hfree, Ne.symm hj]
  | unlock | unlockAndSignal | unlockOnly | maybeUnlock | goWaiting =>
    have howner : m.owner = some i := howns.mp rfl
    refine ⟨by simp [EventPlace.owns], fun j hj => ?_⟩
    simp [howner, Ne.symm hj]
  | notifyOne | signalAll | maybeKeep | clear | wait | stopWaiting | leave =>
    exact ⟨howns, fun _ _ => Iff.rfl⟩

theorem Steps.owns_of_result (h : Steps i m result place a m' t') {b : Bool}
    (hb : t'.result = some b) : t'.place.owns = !b := by
  cases h with
  | maybeKeep =>
    cases hb
    rfl
  | notifyOne =>
    simp only [Option.ite_none_right_eq_some, Option.some.injEq] at hb
    obtain ⟨-, rfl⟩ := hb
    rfl
  | _ => cases hb

/-- The state moves with the bit and the `waiter` of the thread, as long as it
does not wrap. -/
theorem Steps.balance (h : Steps i m result place a m' t')
    (hbit : m.state.toNat % 2 = m.signalled.toNat) (henter : m.state.toNat + 2 < 2 ^ 64)
    (hleave : place.hasWaiter = true → 2 ≤ m.state.toNat) :
    m'.state.toNat + (m.signalled.toNat + 2 * place.hasWaiter.toNat) =
      m.state.toNat + (m'.signalled.toNat + 2 * t'.place.hasWaiter.toNat) := by
  have hsplit := Nat.div_add_mod m.state.toNat 2
  cases h with
  | lock | unlock | notifyOne | wait | stopWaiting | wake => rfl
  | signalAll | unlockAndSignal | unlockOnly | maybeUnlock | maybeKeep =>
    simp only [signal, EventState.toNat_signal, EventPlace.hasWaiter, Bool.toNat_false,
      Bool.toNat_true]
    omega
  | clear =>
    simp only [EventState.toNat_clear, EventPlace.hasWaiter, Bool.toNat_false]
    omega
  | goWaiting =>
    simp only [EventState.toNat_enter _ henter, EventPlace.hasWaiter, Bool.toNat_false,
      Bool.toNat_true]
    omega
  | leave =>
    have hpos := hleave rfl
    simp only [EventState.toNat_leave _ hpos, EventPlace.hasWaiter, Bool.toNat_false,
      Bool.toNat_true]
    omega

theorem Steps.locked (h : Steps i m result place a m' t')
    (ha : a = .unlockAndSignalOne ∨ a = .maybeUnlockAndSignalOne) : place = .locked := by
  cases h with
  | unlockAndSignal | unlockOnly | maybeUnlock | maybeKeep => rfl
  | _ => rcases ha with ha | ha <;> cases ha

theorem Steps.blocked (h : Steps i m result place a m' t')
    (hi : i ∈ m.blocked → place = .waiting) :
    (i ∈ m'.blocked → t'.place = .waiting) ∧ ∀ j, j ≠ i → j ∈ m'.blocked → j ∈ m.blocked := by
  cases h with
  | goWaiting =>
    refine ⟨fun _ => rfl, fun j hj hmem => ?_⟩
    exact (Finset.mem_insert.mp hmem).resolve_left hj
  | signalAll => exact ⟨by simp, by simp⟩
  | wake => exact ⟨by simp, fun j _ => Finset.mem_of_mem_erase⟩
  | notifyOne =>
    refine ⟨fun hmem => ?_, fun j _ => Finset.mem_of_mem_erase⟩
    cases hi (Finset.mem_of_mem_erase hmem)
  | lock | unlock | unlockAndSignal | unlockOnly | maybeUnlock | maybeKeep | clear | wait
  | stopWaiting | leave =>
    refine ⟨fun hmem => ?_, fun _ _ hmem => hmem⟩
    cases hi hmem

/-- A step does to the event what its action does to an `Event`. -/
theorem Steps.toEvent (h : Steps i m result place a m' t')
    (henter : m.state.toNat + 2 < 2 ^ 64) (hleave : place.hasWaiter = true → 2 ≤ m.state.toNat)
    (hi : i ∈ m.blocked → place = .waiting) : m'.toEvent = a.apply i m.toEvent := by
  cases h with
  | lock | unlock | wait | notifyOne | wake => rfl
  | signalAll => exact m.state.signal_toEvent m.blocked
  | unlockAndSignal | unlockOnly | maybeUnlock | maybeKeep =>
    exact congrArg Prod.fst (m.state.signalOne_toEvent m.blocked)
  | clear => exact m.state.clear_toEvent m.blocked
  | stopWaiting hs =>
    have hsignalled := (m.state.signalled_toEvent m.blocked).trans hs
    exact (if_pos hsignalled).symm
  | goWaiting hs =>
    have hsignalled := (m.state.signalled_toEvent m.blocked).trans hs
    refine (m.state.enter_toEvent m.blocked i henter).trans (if_neg ?_).symm
    exact Bool.eq_false_iff.mp hsignalled
  | leave =>
    have hout : i ∉ m.blocked := by
      intro hmem
      cases hi hmem
    have hleft := m.state.leave_toEvent m.blocked i (hleave rfl)
    rw [Finset.erase_eq_of_notMem hout] at hleft
    exact hleft

/-- Both functions notify if and only if there are waiters. -/
theorem Steps.notifying (h : Steps i m result place a m' t')
    (ha : a = .unlockAndSignalOne ∨ a = .maybeUnlockAndSignalOne) :
    (∃ maybe, t'.place = .notifying maybe) ↔ 0 < m.state.toNat / 2 := by
  have hsignal : m.signal.state.haveWaiters = decide (0 < m.state.toNat / 2) :=
    m.state.haveWaiters_signal
  cases h with
  | unlockAndSignal hw | maybeUnlock hw =>
    rw [hsignal, decide_eq_true_eq] at hw
    exact iff_of_true ⟨_, rfl⟩ hw
  | unlockOnly hw | maybeKeep hw =>
    rw [hsignal, decide_eq_false_iff_not] at hw
    refine iff_of_false ?_ hw
    rintro ⟨maybe, hplace⟩
    cases hplace
  | _ => rcases ha with ha | ha <;> cases ha

end EventMemory

-- ---------------------------------------------------------------------------
-- Runs
-- ---------------------------------------------------------------------------

abbrev EventThreads (ι : Type) := Threads ι (EventMemory ι) EventThread

namespace EventThreads

open Runs Finset

variable {ι : Type} [Fintype ι]

def start : EventThreads ι := ⟨{}, fun _ => {}⟩

/-- How many threads have entered `cond_.wait` and not returned from it. -/
def waiting (c : EventThreads ι) : Nat := #{j | (c.thread j).place = .waiting}

def waiters (c : EventThreads ι) : Nat := ∑ j, (c.thread j).place.hasWaiter.toNat

structure Exact (c : EventThreads ι) : Prop where
  value : c.shared.owner = none →
    c.shared.state.toNat = 2 * c.waiting + c.shared.signalled.toNat
  enters : ∀ i, (c.thread i).place = .testing → c.shared.state.toNat + 2 < 2 ^ 64
  leaves : ∀ i, (c.thread i).place = .returned → 2 ≤ c.shared.state.toNat
  result : ∀ i b, (c.thread i).result = some b → (c.shared.owner = some i ↔ b = false)

/-- The function, if the step is one of the two that signal one thread, goes on
to notify if and only if a thread waits. -/
def NotifiesWaiting (c : EventThreads ι) (l : ι × EventAction ι) (c' : EventThreads ι) : Prop :=
  l.2 = .unlockAndSignalOne ∨ l.2 = .maybeUnlockAndSignalOne →
    ((∃ maybe, (c'.thread l.1).place = .notifying maybe) ↔ 0 < c.waiting)

structure Counted (c : EventThreads ι) : Prop where
  owns : ∀ j, (c.thread j).place.owns = true ↔ c.shared.owner = some j
  blocked : ∀ j, j ∈ c.shared.blocked → (c.thread j).place = .waiting
  state : c.shared.state.toNat = 2 * c.waiters + c.shared.signalled.toNat
  result : ∀ j b, (c.thread j).result = some b → (c.thread j).place.owns = !b

variable {c c' : EventThreads ι} {l : ι × EventAction ι}

theorem waiters_le_card (c : EventThreads ι) : c.waiters ≤ Fintype.card ι := by
  have hle := sum_le_card_nsmul univ (fun j => (c.thread j).place.hasWaiter.toNat) 1
    fun j _ => Bool.toNat_le _
  simpa [waiters] using hle

theorem hasWaiter_le_waiters (c : EventThreads ι) (i : ι) :
    (c.thread i).place.hasWaiter.toNat ≤ c.waiters :=
  single_le_sum (f := fun j => (c.thread j).place.hasWaiter.toNat) (fun _ _ => Nat.zero_le _)
    (mem_univ i)

/-- Where no thread is between `cond_.wait` and `~waiter`, those with a `waiter`
wait. -/
theorem waiters_eq_waiting (h : ∀ j, (c.thread j).place ≠ .returned) : c.waiters = c.waiting := by
  rw [waiting, card_filter]
  refine sum_congr rfl fun j _ => ?_
  have hj := h j
  cases hplace : (c.thread j).place with
  | returned => exact absurd hplace hj
  | _ => rfl

namespace Counted

theorem bit (h : Counted c) : c.shared.state.toNat % 2 = c.shared.signalled.toNat := by
  have hle := Bool.toNat_le c.shared.signalled
  rw [h.state]
  omega

theorem enter_lt (h : Counted c) (hcard : Fintype.card ι < 2 ^ 62) :
    c.shared.state.toNat + 2 < 2 ^ 64 := by
  have hle := Bool.toNat_le c.shared.signalled
  have hwaiters := waiters_le_card c
  rw [h.state]
  omega

theorem two_le (h : Counted c) {i : ι} (hi : (c.thread i).place.hasWaiter = true) :
    2 ≤ c.shared.state.toNat := by
  have hone := hasWaiter_le_waiters c i
  rw [hi, Bool.toNat_true] at hone
  rw [h.state]
  omega

theorem exact (hcard : Fintype.card ι < 2 ^ 62) (h : Counted c) : Exact c where
  value hfree := by
    have hnone : ∀ j, (c.thread j).place ≠ .returned := by
      intro j hj
      have howner := (h.owns j).mp (by rw [hj]; rfl)
      rw [hfree] at howner
      cases howner
    rw [← waiters_eq_waiting hnone]
    exact h.state
  enters _ _ := h.enter_lt hcard
  leaves i hi := h.two_le (i := i) (by rw [hi]; rfl)
  result i b hb := by
    rw [← h.owns i, h.result i b hb]
    cases b <;> simp

end Counted

theorem counted_start : Counted (start : EventThreads ι) where
  owns j := by simp [start, EventPlace.owns]
  blocked j hj := by simp [start] at hj
  state := by simp [start, waiters, EventPlace.hasWaiter]
  result j b hb := by cases hb

variable [DecidableEq ι]

def next (c : EventThreads ι) (l : ι × EventAction ι) : Option (EventThreads ι) :=
  Threads.next EventMemory.step c l

theorem next_counted (hcard : Fintype.card ι < 2 ^ 62) (h : Counted c)
    (hn : next c l = some c') : Counted c' := by
  refine ⟨?_, ?_, ?_, ?_⟩
  · refine Threads.forall_next (I := fun j m t => t.place.owns = true ↔ m.owner = some j) hn
      (fun m t hs => ?_) fun m t hs j hj => ?_
    · exact ((EventMemory.step_cases hs).owner (h.owns l.1)).1
    · rw [((EventMemory.step_cases hs).owner (h.owns l.1)).2 j hj]
      exact h.owns j
  · refine Threads.forall_next (I := fun j m t => j ∈ m.blocked → t.place = .waiting) hn
      (fun m t hs => ?_) fun m t hs j hj hmem => ?_
    · exact ((EventMemory.step_cases hs).blocked (h.blocked l.1)).1
    · exact h.blocked j (((EventMemory.step_cases hs).blocked (h.blocked l.1)).2 j hj hmem)
  · have hsum := Threads.total_next (m := fun m => m.state.toNat) (f := fun _ => 0)
      (n := fun m => m.signalled.toNat) (g := fun t => 2 * t.place.hasWaiter.toNat)
      (x := 0) (y := 0) hn fun m t hs =>
        (EventMemory.step_cases hs).balance h.bit (h.enter_lt hcard) h.two_le
    simp only [Threads.total, sum_const_zero, ← mul_sum] at hsum
    have hstate := h.state
    simp only [waiters] at hstate ⊢
    omega
  · exact Threads.forall_next (I := fun _ _ t => ∀ b, t.result = some b → t.place.owns = !b) hn
      (fun m t hs b => (EventMemory.step_cases hs).owns_of_result) fun m t hs j _ => h.result j

/-- The thread that signals owns the lock, so no other thread is between
`cond_.wait` and `~waiter`. -/
theorem next_notifies (h : Counted c) (hn : next c l = some c') :
    NotifiesWaiting c l c' := by
  intro ha
  obtain ⟨m, t, hs, rfl⟩ := Threads.next_eq_some.mp hn
  have hsteps := EventMemory.step_cases hs
  have hle := Bool.toNat_le c.shared.signalled
  have howner := (h.owns l.1).mp (by rw [hsteps.locked ha]; rfl)
  have hnone : ∀ j, (c.thread j).place ≠ .returned := by
    intro j hj
    have hother := (h.owns j).mp (by rw [hj]; rfl)
    cases Option.some.inj (hother.symm.trans howner)
    rw [hsteps.locked ha] at hj
    cases hj
  have hhalf : c.shared.state.toNat / 2 = c.waiting := by
    rw [h.state, ← waiters_eq_waiting hnone]
    omega
  rw [Threads.set_thread_self, hsteps.notifying ha, hhalf]

theorem counted_of_reach (hcard : Fintype.card ι < 2 ^ 62)
    (hr : Reach next (fun _ _ => True) start c) : Counted c :=
  hr.invariant counted_start fun _ _ _ _ hc _ hn => next_counted hcard hc hn

/-- With fewer than `2 ^ 62` threads, the state is exact in every reachable
state. -/
theorem packedState_exact (hcard : Fintype.card ι < 2 ^ 62)
    (hr : Reach next (fun _ _ => True) start c) :
    Exact c ∧ ∀ l c', next c l = some c' → NotifiesWaiting c l c' := by
  have hc := counted_of_reach hcard hr
  exact ⟨hc.exact hcard, fun _ _ hn => next_notifies hc hn⟩

/-- In every reachable state, a step does what the operation of `Event` does. -/
theorem next_toEvent (hcard : Fintype.card ι < 2 ^ 62)
    (hr : Reach next (fun _ _ => True) start c) (hn : next c l = some c') :
    c'.shared.toEvent = l.2.apply l.1 c.shared.toEvent := by
  have hc := counted_of_reach hcard hr
  obtain ⟨m, t, hs, rfl⟩ := Threads.next_eq_some.mp hn
  exact (EventMemory.step_cases hs).toEvent (hc.enter_lt hcard) hc.two_le (hc.blocked l.1)

def waitAndSignal : List (Fin 2 × EventAction (Fin 2)) :=
  [(0, .lock), (0, .wait), (0, .test), (1, .lock), (1, .unlockAndSignalOne)]

/-- One of two threads waits, and the other is about to notify it. -/
theorem packedState_exact_waiting : ∃ c, exec next start waitAndSignal = some c ∧
    c.shared.state = 3 ∧ (c.thread 1).place = .notifying false ∧ Exact c := by
  refine ⟨_, rfl, by decide, by decide, ?_⟩
  exact (packedState_exact (by decide) (.of_exec waitAndSignal (allSteps_trivial _ _) rfl)).1

end EventThreads

end BoostAsio
