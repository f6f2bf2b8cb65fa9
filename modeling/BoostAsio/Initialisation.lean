import BoostAsio.Fifo

/-!
# What the memory held before

The constructor of `scheduler` leaves five members as the memory held them.
`task_interrupted_` and `shutdown_` make no difference to what one thread sees.
The other three do: `stopped()` and `run()` answer from `stopped_` and
`outstanding_work_`, and a `task_` that is not null is followed. Two schedulers
are alike if and only if `task_` was null in both and the other two were equal
(`independent_iff`).
-/

namespace BoostAsio

open Loops

-- ---------------------------------------------------------------------------
-- Logs
-- ---------------------------------------------------------------------------

/-- After some turns, `l` is the log of a scheduler constructed in `m`. -/
def Shows (hint : Int) (m : Uninitialised) (body : Nat → Body) (requests : List Request)
    (l : Log) : Prop :=
  ∃ s, Reaches (Solo.turn hint body) (Solo.start m requests) s ∧ s.log = l

/-- Whatever is asked of them and whatever the operations do, the two
schedulers show the same logs, and nothing undefined happens. -/
def Independent (hint : Int) (m m' : Uninitialised) : Prop :=
  ∀ body requests l, (Shows hint m body requests l ↔ Shows hint m' body requests l) ∧
    (Shows hint m body requests l → l.halt ≠ some .undefined)

theorem Independent.symm {hint : Int} {m m' : Uninitialised} (h : Independent hint m m') :
    Independent hint m' m := by
  intro body requests l
  obtain ⟨hiff, hdef⟩ := h body requests l
  exact ⟨hiff.symm, fun hl => hdef (hiff.mpr hl)⟩

namespace Fifo

variable {s s' t : Fifo} {oneThread : Bool} {body : Nat → Body}

theorem request_halt (s : Fifo) (r : Request) : (s.request oneThread r).log.halt = s.log.halt := by
  cases r with
  | postImmediateCompletion id cont =>
    simp only [request, post]
    split <;> rfl
  | run =>
    simp only [request, run]
    split <;> rfl
  | _ => rfl

theorem turn_halt (h : turn oneThread body s = some s') : s'.log.halt ≠ some .undefined := by
  simp only [turn, Option.ite_none_left_eq_some, Option.some.injEq, Bool.not_eq_true,
    Option.isSome_eq_false_iff, Option.isNone_iff_eq_none] at h
  obtain ⟨hn, rfl⟩ := h
  split
  · split
    · simp [halt]
    · simp [request_halt, hn]
  · split
    · simp only [loopTurn]
      split
      · simp [result, hn]
      · split
        · simp [halt]
        · simp [hn]
    · simp only [cleanupTurn, endOfWork]
      split
      · simp [result, workFinished, mergeWork, hn]
      · simp [workFinished, mergeWork, hn]
    · simp [request_halt, hn]

theorem reaches_halt (h : Reaches (turn oneThread body) s t) (hs : s.log.halt ≠ some .undefined) :
    t.log.halt ≠ some .undefined := by
  cases h with
  | refl => exact hs
  | tail _ ht => exact turn_halt ht

theorem turn_of_halt (h : s.log.halt.isSome = true) : turn oneThread body s = none := if_pos h

/-- A log that says how everything ended is the last one. -/
theorem log_of_ends (ht : Ends (turn oneThread body) s t) (hr : Reaches (turn oneThread body) s s')
    (hh : s'.log.halt.isSome = true) : s'.log = t.log :=
  congrArg log ((ends_iff_reaches.mpr ⟨hr, turn_of_halt hh⟩).unique ht)

end Fifo

section Shows

variable {hint : Int} {m m' : Uninitialised} {body : Nat → Body} {requests : List Request} {l : Log}

/-- Of the memory that a scheduler was constructed in, it shows `stopped_` and
`outstanding_work_`. -/
theorem shows_iff (h : m.task = false) : Shows hint m body requests l ↔
    ∃ a, Reaches (Fifo.turn (oneThread hint) body)
      (.start m.stopped (BitVec.ofNat 64 m.outstandingWork) requests) a ∧ a.log = l := by
  have hreaches {a : Fifo} := (Solo.simulation hint body).reaches_iff (a := a)
    (Solo.Tame.start h requests)
  constructor
  · rintro ⟨s, hs, rfl⟩
    exact ⟨s.toFifo, hreaches.mp ⟨s, hs, rfl⟩, rfl⟩
  · rintro ⟨a, ha, rfl⟩
    obtain ⟨s, hs, rfl⟩ := hreaches.mpr ha
    exact ⟨s, hs, rfl⟩

/-- What a scheduler shows when everything asked of it is done, an independent
one shows too. -/
theorem Independent.log_eq (h : Independent hint m m') (hm : m.task = false) (hm' : m'.task = false)
    {a b : Fifo}
    (ha : Ends (Fifo.turn (oneThread hint) body)
      (.start m.stopped (BitVec.ofNat 64 m.outstandingWork) requests) a)
    (hb : Ends (Fifo.turn (oneThread hint) body)
      (.start m'.stopped (BitVec.ofNat 64 m'.outstandingWork) requests) b)
    (hh : a.log.halt.isSome = true) : a.log = b.log := by
  have hshows : Shows hint m body requests a.log :=
    (shows_iff hm).mpr ⟨a, (ends_iff_reaches.mp ha).1, rfl⟩
  obtain ⟨c, hc, hlog⟩ := (shows_iff hm').mp ((h body requests a.log).1.mp hshows)
  rw [← hlog] at hh ⊢
  exact Fifo.log_of_ends hb hc hh

-- ---------------------------------------------------------------------------
-- Which members show
-- ---------------------------------------------------------------------------

/-- The first `do_dispatch` follows `task_`. -/
theorem Independent.task (h : Independent hint m m') : m.task = false := by
  by_contra hm
  have hm : m.task = true := by simpa using hm
  let s := Solo.start m [.doDispatch 0]
  have hturn : Solo.turn hint (fun _ => {}) s =
      some ({ s with
        requests := [], outstandingWork := s.outstandingWork + 1 }.halt .undefined) := by
    simp [s, Solo.start, Solo.turn, Solo.request, Solo.doDispatch, Solo.workStarted, Shared.new,
      Scheduler.interrupts, Event.waiters, hm]
  exact (h _ _ _).2 ⟨_, .single hturn, rfl⟩ rfl

theorem Independent.stopped (h : Independent hint m m') : m.stopped = m'.stopped := by
  have ends (b : Bool) (work : BitVec 64) :
      Ends (Fifo.turn (oneThread hint) fun _ => {}) (.start b work [.stopped])
        { Fifo.start b work [] with log := { results := [.stopped b], halt := some .finished } } :=
    .turn rfl (.turn rfl (.done rfl))
  have hlog := h.log_eq h.task h.symm.task (ends _ _) (ends _ _) rfl
  simpa using hlog

/-- `run()` after `k` units of work: it waits, unless they have brought the
count to 0. -/
theorem ends_probe (oneThread : Bool) (body : Nat → Body) (stopped : Bool) (work : BitVec 64)
    (k : Nat) : ∃ a : Fifo,
      Ends (Fifo.turn oneThread body)
        (.start stopped work (.restart :: (List.replicate k .workStarted ++ [.run]))) a ∧
      a.log = if work + BitVec.ofNat 64 k = 0 then
          { results := [.returned 0], halt := some .finished }
        else { halt := some .blocked } := by
  suffices ∃ a : Fifo, Ends (Fifo.turn oneThread body)
      (.start false work (List.replicate k .workStarted ++ [.run])) a ∧
      a.log = if work + BitVec.ofNat 64 k = 0 then
          { results := [.returned 0], halt := some .finished }
        else { halt := some .blocked } by
    obtain ⟨a, ha, hlog⟩ := this
    exact ⟨a, .turn rfl ha, hlog⟩
  induction k generalizing work with
  | zero =>
    have hsum : work + BitVec.ofNat 64 0 = work := BitVec.add_zero work
    rw [hsum]
    by_cases hw : work = 0
    · subst hw
      exact ⟨_, .turn rfl (.turn rfl (.done rfl)), rfl⟩
    · let s := Fifo.start false work []
      have hrun : Fifo.turn oneThread body (.start false work [.run]) =
          some { s with runs := [{}] } :=
        congrArg some (if_neg hw)
      rw [if_neg hw]
      exact ⟨{ s with runs := [{}] }.halt .blocked, .turn hrun (.turn rfl (.done rfl)), rfl⟩
  | succ k ih =>
    obtain ⟨a, ha, hlog⟩ := ih (work + 1)
    have hsum : work + 1 + BitVec.ofNat 64 k = work + BitVec.ofNat 64 (k + 1) := by
      rw [BitVec.add_assoc, BitVec.ofNat_add, BitVec.add_comm (BitVec.ofNat 64 k)]
      rfl
    exact ⟨a, .turn rfl ha, hsum ▸ hlog⟩

theorem Independent.work (h : Independent hint m m') :
    BitVec.ofNat 64 m.outstandingWork = BitVec.ofNat 64 m'.outstandingWork := by
  let w := BitVec.ofNat 64 m.outstandingWork
  obtain ⟨a, ha, hla⟩ := ends_probe (oneThread hint) (fun _ => {}) m.stopped w (-w).toNat
  obtain ⟨b, hb, hlb⟩ := ends_probe (oneThread hint) (fun _ => {}) m'.stopped
    (BitVec.ofNat 64 m'.outstandingWork) (-w).toNat
  have hzero : w + BitVec.ofNat 64 (-w).toNat = 0 := by
    rw [BitVec.ofNat_toNat, BitVec.setWidth_eq, BitVec.add_right_neg]
    rfl
  rw [if_pos hzero] at hla
  have hlog : a.log = b.log := h.log_eq h.task h.symm.task ha hb (by simp [hla])
  rw [hla, hlb] at hlog
  split at hlog
  · rename_i hsum
    exact (BitVec.add_left_inj _).mp (hzero.trans hsum.symm)
  · cases hlog

end Shows

theorem independent_iff (hint : Int) (m m' : Uninitialised) :
    Independent hint m m' ↔ m.task = false ∧ m'.task = false ∧ m.stopped = m'.stopped ∧
      BitVec.ofNat 64 m.outstandingWork = BitVec.ofNat 64 m'.outstandingWork := by
  constructor
  · intro h
    exact ⟨h.task, h.symm.task, h.stopped, h.work⟩
  · rintro ⟨hm, hm', hs, hw⟩ body requests l
    constructor
    · rw [shows_iff hm, shows_iff hm', hs, hw]
    · intro hl
      obtain ⟨a, ha, rfl⟩ := (shows_iff hm).mp hl
      exact Fifo.reaches_halt ha (by simp [Fifo.start])

/-- `stopped_` was true in one of them. -/
theorem stopped_shows_memory : ¬ ∀ hint m m', Independent hint m m' := by
  intro h
  cases (h 1 {} { stopped := true }).stopped

end BoostAsio
