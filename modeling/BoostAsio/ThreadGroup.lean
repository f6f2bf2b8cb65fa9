import BoostAsio.Lib.Runs
import Mathlib.Algebra.Group.Nat.Defs

/-!
# Thread groups

`thread_group` and the end of its owner: `~system_context` and `main` destroy
the group and then, in `~execution_context`, the services that its threads use.
The owner makes the calls of the group one after another; the threads return
from their functions whenever they do.

The loop of `join` asks each joinable thread whether it is joinable, where it
should call `join`, so it waits for no thread and every thread stays joinable.
The group does what it is for exactly in the runs in which no `join` returns
while there are threads (`allStates_joined_iff`), and a group with threads is
never destroyed: `std::terminate` is called instead (`not_destroyed`).
-/

namespace BoostAsio

structure StdThread where
  joinable : Bool := true
  running : Bool := true
  deriving DecidableEq

inductive OwnerPhase
  | outside
  /-- in the loop of `join`, before thread `next`; in `~thread_group` if
  `destructor` -/
  | joining (next : Nat) (destructor : Bool)
  /-- in the destructor of `threads_`, before that of thread `next` -/
  | destroying (next : Nat)
  | destroyed
  | servicesDestroyed
  | terminated
  deriving DecidableEq

def OwnerPhase.late : OwnerPhase → Bool
  | destroying _ | destroyed | servicesDestroyed => true
  | _ => false

structure ThreadGroup where
  threads : List StdThread := []
  phase : OwnerPhase := .outside
  /-- History: `join` has returned since threads were created. -/
  joined : Bool := false
  deriving DecidableEq

inductive GroupAction
  /-- `create_threads(func, num_threads)`, also by the constructor -/
  | createThreads (numThreads : Int)
  | join
  | destroy
  /-- the next step of the call that the owner is in -/
  | proceed
  | destroyServices
  | exit (i : Nat)
  deriving DecidableEq

namespace ThreadGroup

open Runs

/-- An iteration of the loop in `join`, or the return from it: where
`t.joinable()` is true, it is called again. -/
def joinNext (g : ThreadGroup) (next : Nat) (destructor : Bool) : ThreadGroup :=
  match g.threads[next]? with
  | some _ => { g with phase := .joining (next + 1) destructor }
  | none => { g with phase := if destructor then .destroying 0 else .outside, joined := true }

/-- `~std::thread()`, or the return from `~thread_group`. -/
def destroyNext (g : ThreadGroup) (next : Nat) : ThreadGroup :=
  match g.threads[next]? with
  | some t => { g with phase := if t.joinable then .terminated else .destroying (next + 1) }
  | none => { g with phase := .destroyed }

def step (g : ThreadGroup) : GroupAction → Option ThreadGroup
  | .createThreads numThreads =>
    if g.phase = .outside then
      some { g with
        threads := g.threads ++ List.replicate numThreads.toNat {}
        joined := false }
    else none
  | .join => if g.phase = .outside then some { g with phase := .joining 0 false } else none
  | .destroy => if g.phase = .outside then some { g with phase := .joining 0 true } else none
  | .proceed =>
    match g.phase with
    | .joining next destructor => some (g.joinNext next destructor)
    | .destroying next => some (g.destroyNext next)
    | _ => none
  | .destroyServices =>
    if g.phase = .destroyed then some { g with phase := .servicesDestroyed } else none
  | .exit i =>
    if g.phase = .terminated then none
    else some { g with threads := g.threads.modify i fun t => { t with running := false } }

/-- What `join` and the destructor of a group are for. -/
structure Joined (g : ThreadGroup) : Prop where
  joined : g.joined = true → ∀ t ∈ g.threads, t.running = false ∧ t.joinable = false
  notTerminated : g.phase ≠ .terminated
  services : g.phase = .servicesDestroyed → ∀ t ∈ g.threads, t.running = false

def joinReturns (g : ThreadGroup) : Bool :=
  match g.phase with
  | .joining next _ => g.threads.length ≤ next
  | _ => false

/-- If `join` returns in this step, then there is no thread. -/
def ReturnsToNone (g : ThreadGroup) (a : GroupAction) : Prop :=
  a = .proceed → g.joinReturns = true → g.threads = []

-- ---------------------------------------------------------------------------
-- What a step does
-- ---------------------------------------------------------------------------

variable {g g' : ThreadGroup} {a : GroupAction}

inductive Piece (g : ThreadGroup) : GroupAction → ThreadGroup → Prop
  | created (n : Int) : g.phase = .outside →
      Piece g (.createThreads n)
        { g with threads := g.threads ++ .replicate n.toNat {}, joined := false }
  | joins : g.phase = .outside → Piece g .join { g with phase := .joining 0 false }
  | destroys : g.phase = .outside → Piece g .destroy { g with phase := .joining 0 true }
  | visited {next : Nat} {destructor : Bool} : g.phase = .joining next destructor →
      next < g.threads.length →
      Piece g .proceed { g with phase := .joining (next + 1) destructor }
  | returned {next : Nat} {destructor : Bool} : g.phase = .joining next destructor →
      g.threads.length ≤ next →
      Piece g .proceed { g with
        phase := if destructor then .destroying 0 else .outside
        joined := true }
  | destroyedThread {next : Nat} {t : StdThread} : g.phase = .destroying next →
      g.threads[next]? = some t →
      Piece g .proceed { g with
        phase := if t.joinable then .terminated else .destroying (next + 1) }
  | destroyed {next : Nat} : g.phase = .destroying next → g.threads.length ≤ next →
      Piece g .proceed { g with phase := .destroyed }
  | servicesDestroyed : g.phase = .destroyed →
      Piece g .destroyServices { g with phase := .servicesDestroyed }
  | exited (i : Nat) : g.phase ≠ .terminated →
      Piece g (.exit i)
        { g with threads := g.threads.modify i fun t => { t with running := false } }

theorem step_piece (h : g.step a = some g') : Piece g a g' := by
  cases a with
  | createThreads n =>
    simp only [step, Option.ite_none_right_eq_some, Option.some.injEq] at h
    obtain ⟨hphase, rfl⟩ := h
    exact .created n hphase
  | join =>
    simp only [step, Option.ite_none_right_eq_some, Option.some.injEq] at h
    obtain ⟨hphase, rfl⟩ := h
    exact .joins hphase
  | destroy =>
    simp only [step, Option.ite_none_right_eq_some, Option.some.injEq] at h
    obtain ⟨hphase, rfl⟩ := h
    exact .destroys hphase
  | destroyServices =>
    simp only [step, Option.ite_none_right_eq_some, Option.some.injEq] at h
    obtain ⟨hphase, rfl⟩ := h
    exact .servicesDestroyed hphase
  | exit i =>
    simp only [step, Option.ite_none_left_eq_some, Option.some.injEq] at h
    obtain ⟨hphase, rfl⟩ := h
    exact .exited i hphase
  | proceed =>
    simp only [step] at h
    split at h
    next next destructor hphase =>
      cases h
      simp only [joinNext]
      split
      next t ht => exact .visited hphase (List.getElem?_eq_some_iff.mp ht).1
      next hnone => exact .returned hphase (List.getElem?_eq_none_iff.mp hnone)
    next next hphase =>
      cases h
      simp only [destroyNext]
      split
      next t ht => exact .destroyedThread hphase ht
      next hnone => exact .destroyed hphase (List.getElem?_eq_none_iff.mp hnone)
    next => cases h

theorem Piece.joinable (h : Piece g a g') (hg : ∀ t ∈ g.threads, t.joinable = true) :
    ∀ t ∈ g'.threads, t.joinable = true := by
  cases h with
  | created n =>
    intro t ht
    obtain ht | ht := List.mem_append.mp ht
    · exact hg t ht
    · rw [List.eq_of_mem_replicate ht]
  | exited i =>
    intro t ht
    obtain ⟨j, hj, rfl⟩ := List.getElem_of_mem ht
    have hlt : j < g.threads.length := by simpa using hj
    have hjoinable := hg _ (List.getElem_mem hlt)
    simp only [List.getElem_modify]
    split
    · exact hjoinable
    · exact hjoinable
  | _ => exact hg

theorem Piece.threads_ne_nil (h : Piece g a g') (hne : g.threads ≠ []) : g'.threads ≠ [] := by
  cases h with
  | created n => simp [hne]
  | exited i => simpa using hne
  | _ => exact hne

-- ---------------------------------------------------------------------------
-- Runs
-- ---------------------------------------------------------------------------

/-- The invariant of the runs in which `join` returns to no thread. -/
structure NoneJoined (g : ThreadGroup) : Prop where
  joinable : ∀ t ∈ g.threads, t.joinable = true
  joined : g.joined = true → g.threads = []
  late : g.phase.late = true → g.threads = []
  notTerminated : g.phase ≠ .terminated

theorem NoneJoined.toJoined (h : g.NoneJoined) : g.Joined where
  joined hj := by
    rw [h.joined hj]
    simp
  notTerminated := h.notTerminated
  services hp := by
    rw [h.late (by rw [hp]; rfl)]
    simp

theorem NoneJoined.piece (hg : g.NoneJoined) (hok : g.ReturnsToNone a) (h : Piece g a g') :
    g'.NoneJoined := by
  have hjoinable := h.joinable hg.joinable
  cases h with
  | created n hphase =>
    refine ⟨hjoinable, nofun, fun hl => ?_, hg.notTerminated⟩
    rw [hphase] at hl
    cases hl
  | joins | destroys | visited =>
    exact ⟨hjoinable, hg.joined, nofun, nofun⟩
  | returned hphase hlast =>
    have hempty := hok rfl (by simp [joinReturns, hphase, hlast])
    refine ⟨hjoinable, fun _ => hempty, fun _ => hempty, ?_⟩
    intro hp
    split at hp
    · cases hp
    · cases hp
  | destroyedThread hphase ht =>
    have hempty := hg.late (by rw [hphase]; rfl)
    rw [hempty] at ht
    cases ht
  | destroyed hphase =>
    have hempty := hg.late (by rw [hphase]; rfl)
    exact ⟨hjoinable, fun _ => hempty, fun _ => hempty, nofun⟩
  | servicesDestroyed hphase =>
    have hempty := hg.late (by rw [hphase]; rfl)
    exact ⟨hjoinable, fun _ => hempty, fun _ => hempty, nofun⟩
  | exited i hphase =>
    refine ⟨hjoinable, fun hj => ?_, fun hl => ?_, hphase⟩
    · simp [hg.joined hj]
    · simp [hg.late hl]

/-- A `join` that returns while there are threads has joined none of them. -/
theorem NoneJoined.not_joined (hg : g.NoneJoined) (hok : ¬ g.ReturnsToNone a)
    (h : Piece g a g') : ¬ g'.Joined := by
  simp only [ReturnsToNone, Classical.not_imp] at hok
  obtain ⟨rfl, hreturns, hne⟩ := hok
  intro hj
  cases h with
  | returned hphase hlast =>
    obtain ⟨t, ht⟩ := List.exists_mem_of_ne_nil _ hne
    have hjoined := (hj.joined rfl t ht).2
    rw [hg.joinable t ht] at hjoined
    cases hjoined
  | visited hphase hlt =>
    simp only [joinReturns, hphase, decide_eq_true_eq] at hreturns
    exact absurd hlt (Nat.not_lt.mpr hreturns)
  | destroyedThread hphase | destroyed hphase =>
    rw [joinReturns, hphase] at hreturns
    cases hreturns

/-- A group does what it is for along a run if and only if no `join` returns
while there are threads. -/
theorem allStates_joined_iff (ls : List GroupAction) :
    AllStates step Joined {} ls ↔ AllSteps step ReturnsToNone {} ls := by
  have hstart : NoneJoined {} := ⟨by simp, nofun, nofun, nofun⟩
  exact allStates_iff_allSteps (I := NoneJoined) (fun _ hg => hg.toJoined)
    (fun _ _ _ hg _ hok h => hg.piece hok (step_piece h))
    (fun _ _ _ hg _ hok h => hg.not_joined hok (step_piece h)) hstart

/-- One thread: `join` returns, and the destructor of the thread terminates the
process. -/
theorem oneThread_terminates :
    exec step {} [.createThreads 1, .join, .proceed, .proceed] =
      some { threads := [{}], joined := true } ∧
    exec step {} [.createThreads 1, .exit 0, .destroy, .proceed, .proceed, .proceed] =
      some { threads := [{ running := false }], phase := .terminated, joined := true } ∧
    ¬ AllStates step Joined {} [.createThreads 1, .join, .proceed, .proceed] := by
  have hreturned : exec step {} [.createThreads 1, .join, .proceed, .proceed] =
      some { threads := [{}], joined := true } := by
    decide
  refine ⟨hreturned, by decide, fun h => ?_⟩
  have hjoined := (h.of_exec hreturned).joined rfl {} (by simp)
  cases hjoined.2

-- ---------------------------------------------------------------------------
-- Groups that have threads
-- ---------------------------------------------------------------------------

/-- A group with threads, of which none has been destroyed yet. -/
structure Undestroyed (g : ThreadGroup) : Prop where
  threads : g.threads ≠ []
  joinable : ∀ t ∈ g.threads, t.joinable = true
  phase : g.phase.late = true → g.phase = .destroying 0

/-- Past `join`, the destructor of the first thread is next, and terminates. -/
theorem Undestroyed.piece (hg : g.Undestroyed) (h : Piece g a g') : g'.Undestroyed := by
  have hfirst {p : OwnerPhase} (hphase : g.phase = p) (hl : p.late = true) : p = .destroying 0 :=
    hphase ▸ hg.phase (hphase ▸ hl)
  refine ⟨h.threads_ne_nil hg.threads, h.joinable hg.joinable, ?_⟩
  cases h with
  | created | exited => exact hg.phase
  | joins | destroys | visited =>
    intro hl
    cases hl
  | @returned next destructor =>
    cases destructor with
    | true => exact fun _ => rfl
    | false =>
      intro hl
      cases hl
  | destroyedThread hphase ht =>
    have hjoinable := hg.joinable _ (List.mem_of_getElem? ht)
    simp only [hjoinable, if_true]
    intro hl
    cases hl
  | destroyed hphase hlast =>
    cases hfirst hphase rfl
    exact absurd (List.length_eq_zero_iff.mp (Nat.le_zero.mp hlast)) hg.threads
  | servicesDestroyed hphase => cases hfirst hphase rfl

/-- Where a group has threads, `~thread_group` does not return. -/
theorem not_destroyed {start : ThreadGroup} (hstart : start.Undestroyed)
    (h : Reach step (fun _ _ => True) start g) :
    g.phase ≠ .destroyed ∧ g.phase ≠ .servicesDestroyed := by
  have hg : g.Undestroyed :=
    h.invariant hstart fun _ _ _ _ hg _ hs => hg.piece (step_piece hs)
  constructor
  · intro hphase
    have hfirst := hg.phase (by rw [hphase]; rfl)
    rw [hphase] at hfirst
    cases hfirst
  · intro hphase
    have hfirst := hg.phase (by rw [hphase]; rfl)
    rw [hphase] at hfirst
    cases hfirst

/-- How many threads `system_context` creates; `hw` is what
`hardware_concurrency()` returns. -/
def systemContextThreads (hw : BitVec 32) : Int :=
  let numThreads := (hw * 2).toInt
  if numThreads ≠ 0 then numThreads else 2

/-- The group of a `system_context`, and that of `main`. -/
def ofSystemContext (hw : BitVec 32) : ThreadGroup :=
  { threads := List.replicate (systemContextThreads hw).toNat {} }

def ofMain (hw : BitVec 32) : ThreadGroup := { threads := List.replicate hw.toInt.toNat {} }

theorem undestroyed_of_pos {n : Int} (h : 0 < n) :
    Undestroyed { threads := List.replicate n.toNat {} } where
  threads := by
    rw [Ne, List.replicate_eq_nil_iff]
    omega
  joinable t ht := by rw [List.eq_of_mem_replicate ht]
  phase hl := by cases hl

theorem systemContextThreads_pos {hw : BitVec 32} (h : hw.toNat < 2 ^ 30) :
    0 < systemContextThreads hw := by
  have hdouble : (hw * 2).toNat = hw.toNat * 2 := by
    rw [BitVec.toNat_mul]
    exact Nat.mod_eq_of_lt (by simp; omega)
  have hint : (hw * 2).toInt = hw.toNat * 2 := by
    rw [BitVec.toInt_eq_toNat_of_lt (by omega), hdouble]
    rfl
  simp only [systemContextThreads, hint]
  split
  · omega
  · decide

/-- With fewer than `2 ^ 30` processors, `~system_context` ends in
`std::terminate`, whatever its threads do. -/
theorem systemContext_not_destroyed {hw : BitVec 32} (h : hw.toNat < 2 ^ 30)
    (hr : Reach step (fun _ _ => True) (ofSystemContext hw) g) :
    g.phase ≠ .destroyed ∧ g.phase ≠ .servicesDestroyed :=
  not_destroyed (undestroyed_of_pos (systemContextThreads_pos h)) hr

/-- So does `main`, if it knows the number of processors. -/
theorem main_not_destroyed {hw : BitVec 32} (hpos : 0 < hw.toInt)
    (hr : Reach step (fun _ _ => True) (ofMain hw) g) :
    g.phase ≠ .destroyed ∧ g.phase ≠ .servicesDestroyed :=
  not_destroyed (undestroyed_of_pos hpos) hr

end ThreadGroup

end BoostAsio
