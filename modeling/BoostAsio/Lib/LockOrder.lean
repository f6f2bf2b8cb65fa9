import BoostAsio.Lib.Threads
import Mathlib.Data.Finset.Max

/-!
# Locks taken in order

Threads take and release mutexes, each in an order of its own that is known
beforehand. Where a thread takes a mutex only if all that it holds have a lower
rank (`Ordered`), the threads never wait for each other in a circle: in every
state that a run reaches, some thread can go on unless all have ended
(`Safe.exists_next`), and all can be brought to their end (`Safe.completes`). A
list with a loop that does not end is not `Ordered`.
-/

open Runs

namespace LockOrder

inductive Op (μ : Type v)
  | acquire (m : μ)
  | release (m : μ)
  /-- goes round for ever -/
  | loop
  deriving DecidableEq, Repr

/-- What a thread holds, and what it has left to do. -/
structure Worker (μ : Type v) where
  held : List μ := []
  rest : List (Op μ) := []

variable {ι : Type u} {μ : Type v}

/-- The list can be followed by a thread that holds `held`: it takes mutexes by
rank, releases what it holds, and holds nothing in the end. -/
inductive Ordered [DecidableEq μ] (rank : μ → Nat) : List μ → List (Op μ) → Prop
  | done : Ordered rank [] []
  | acquire {held : List μ} {m : μ} {rest : List (Op μ)} : (∀ h ∈ held, rank h < rank m) →
      Ordered rank (m :: held) rest → Ordered rank held (.acquire m :: rest)
  | release {held : List μ} {m : μ} {rest : List (Op μ)} : m ∈ held →
      Ordered rank (held.erase m) rest → Ordered rank held (.release m :: rest)

section Ordered

variable [DecidableEq μ] {rank : μ → Nat} {held extra : List μ} {ops rest : List (Op μ)} {m : μ}

theorem ordered_acquire : Ordered rank held (.acquire m :: rest) ↔
    (∀ h ∈ held, rank h < rank m) ∧ Ordered rank (m :: held) rest := by
  constructor
  · intro h
    cases h with
    | acquire hlt hrest => exact ⟨hlt, hrest⟩
  · rintro ⟨hlt, hrest⟩
    exact .acquire hlt hrest

theorem ordered_release : Ordered rank held (.release m :: rest) ↔
    m ∈ held ∧ Ordered rank (held.erase m) rest := by
  constructor
  · intro h
    cases h with
    | release hm hrest => exact ⟨hm, hrest⟩
  · rintro ⟨hm, hrest⟩
    exact .release hm hrest

theorem not_ordered_loop : ¬ Ordered rank held (.loop :: rest) := nofun

/-- The mutex taken last is released. -/
theorem Ordered.release_head (hrest : Ordered rank held rest) :
    Ordered rank (m :: held) (.release m :: rest) := by
  refine .release List.mem_cons_self ?_
  rw [List.erase_cons_head]
  exact hrest

/-- A list that takes nothing below `extra` may be followed while `extra` is
held. -/
theorem Ordered.frame (h : Ordered rank held ops)
    (habove : ∀ m, .acquire m ∈ ops → ∀ e ∈ extra, rank e < rank m)
    (hrest : Ordered rank extra rest) : Ordered rank (held ++ extra) (ops ++ rest) := by
  induction h with
  | done => exact hrest
  | @acquire held m ops hlt _ ih =>
    refine .acquire (fun x hx => ?_) (ih fun m hm => habove m (List.mem_cons_of_mem _ hm))
    rcases List.mem_append.mp hx with hx | hx
    · exact hlt x hx
    · exact habove m List.mem_cons_self x hx
  | @release held m ops hm _ ih =>
    refine .release (List.mem_append_left _ hm) ?_
    rw [List.erase_append_left _ hm]
    exact ih fun m hm => habove m (List.mem_cons_of_mem _ hm)

theorem Ordered.append (h : Ordered rank [] ops) (hrest : Ordered rank [] rest) :
    Ordered rank [] (ops ++ rest) :=
  h.frame (fun _ _ _ he => nomatch he) hrest

/-- A mutex that is taken and released at once, above what is held. -/
theorem Ordered.section (hlt : ∀ h ∈ held, rank h < rank m) (hrest : Ordered rank held rest) :
    Ordered rank held (.acquire m :: .release m :: rest) :=
  .acquire hlt (.release_head hrest)

theorem Ordered.rest_ne_nil (h : Ordered rank held ops) (hm : m ∈ held) : ops ≠ [] := by
  rintro rfl
  cases h
  cases hm

end Ordered

-- ---------------------------------------------------------------------------
-- Threads that take locks
-- ---------------------------------------------------------------------------

variable [DecidableEq ι] [DecidableEq μ]

/-- What a thread can do next, where `owner` says who holds a mutex. -/
def step (i : ι) (_ : Unit) (owner : μ → Option ι) (w : Worker μ) :
    Option ((μ → Option ι) × Worker μ) :=
  match w.rest with
  | [] => none
  | .acquire m :: rest =>
    if owner m = none then some (Function.update owner m (some i), ⟨m :: w.held, rest⟩) else none
  | .release m :: rest =>
    if owner m = some i then some (Function.update owner m none, ⟨w.held.erase m, rest⟩) else none
  | .loop :: _ => some (owner, w)

abbrev State (ι : Type u) (μ : Type v) := Threads ι (μ → Option ι) (Worker μ)

def next : State ι μ → ι × Unit → Option (State ι μ) := Threads.next step

/-- Nobody holds anything, and each thread has its list before it. -/
def start (ops : ι → List (Op μ)) : State ι μ := ⟨fun _ => none, fun i => { rest := ops i }⟩

structure Safe (rank : μ → Nat) (c : State ι μ) : Prop where
  owner : ∀ i m, c.shared m = some i ↔ m ∈ (c.thread i).held
  nodup : ∀ i, (c.thread i).held.Nodup
  ordered : ∀ i, Ordered rank (c.thread i).held (c.thread i).rest

variable {rank : μ → Nat} {c c' : State ι μ} {l : ι × Unit}

omit [DecidableEq ι] in
theorem Safe.start {ops : ι → List (Op μ)} (h : ∀ i, Ordered rank [] (ops i)) :
    Safe rank (start ops) where
  owner i m := by simp [LockOrder.start]
  nodup i := .nil
  ordered := h

theorem Safe.acquire (h : Safe rank c) {i : ι} {m : μ} {rest : List (Op μ)}
    (hops : (c.thread i).rest = .acquire m :: rest) (hfree : c.shared m = none) :
    Safe rank (c.set i (Function.update c.shared m (some i)) ⟨m :: (c.thread i).held, rest⟩) := by
  have hnot (j : ι) : m ∉ (c.thread j).held := fun hm => by
    rw [(h.owner j m).mpr hm] at hfree
    cases hfree
  have hord := h.ordered i
  rw [hops, ordered_acquire] at hord
  refine ⟨fun j m' => ?_, fun j => ?_, fun j => ?_⟩
  · by_cases hj : j = i
    · subst hj
      by_cases hm : m' = m
      · simp [hm]
      · simp [hm, h.owner]
    · rw [Threads.set_thread_ne c hj, ← h.owner]
      by_cases hm : m' = m
      · subst hm
        simp [hfree, Ne.symm hj]
      · simp [hm]
  · by_cases hj : j = i
    · subst hj
      simpa using ⟨hnot j, h.nodup j⟩
    · rw [Threads.set_thread_ne c hj]
      exact h.nodup j
  · by_cases hj : j = i
    · subst hj
      simpa using hord.2
    · rw [Threads.set_thread_ne c hj]
      exact h.ordered j

theorem Safe.release (h : Safe rank c) {i : ι} {m : μ} {rest : List (Op μ)}
    (hops : (c.thread i).rest = .release m :: rest) (hmine : c.shared m = some i) :
    Safe rank
      (c.set i (Function.update c.shared m none) ⟨(c.thread i).held.erase m, rest⟩) := by
  have hord := h.ordered i
  rw [hops, ordered_release] at hord
  refine ⟨fun j m' => ?_, fun j => ?_, fun j => ?_⟩
  · by_cases hj : j = i
    · subst hj
      by_cases hm : m' = m
      · simp [hm, (h.nodup j).not_mem_erase]
      · simp [hm, h.owner, List.mem_erase_of_ne hm]
    · rw [Threads.set_thread_ne c hj, ← h.owner]
      by_cases hm : m' = m
      · subst hm
        simp [hmine, Ne.symm hj]
      · simp [hm]
  · by_cases hj : j = i
    · subst hj
      simpa using (h.nodup j).erase m
    · rw [Threads.set_thread_ne c hj]
      exact h.nodup j
  · by_cases hj : j = i
    · subst hj
      simpa using hord.2
    · rw [Threads.set_thread_ne c hj]
      exact h.ordered j

theorem Safe.next (h : Safe rank c) (hn : LockOrder.next c l = some c') : Safe rank c' := by
  obtain ⟨owner, w, hs, rfl⟩ := Threads.next_eq_some.mp hn
  simp only [step] at hs
  split at hs
  · cases hs
  · rename_i m rest hops
    simp only [Option.ite_none_right_eq_some] at hs
    obtain ⟨hfree, hs⟩ := hs
    cases hs
    exact h.acquire hops hfree
  · rename_i m rest hops
    simp only [Option.ite_none_right_eq_some] at hs
    obtain ⟨hmine, hs⟩ := hs
    cases hs
    exact h.release hops hmine
  · rename_i rest hops
    exact absurd (hops ▸ h.ordered l.1) not_ordered_loop

-- ---------------------------------------------------------------------------
-- No deadlock
-- ---------------------------------------------------------------------------

/-- A thread that cannot go on waits for a mutex that another one holds, which
has a higher rank than those it holds itself. -/
theorem Safe.waits (h : Safe rank c) {i : ι} (hn : LockOrder.next c (i, ()) = none)
    (hrest : (c.thread i).rest ≠ []) :
    ∃ m rest j, (c.thread i).rest = .acquire m :: rest ∧ m ∈ (c.thread j).held ∧
      ∀ x ∈ (c.thread i).held, rank x < rank m := by
  have hord := h.ordered i
  simp only [LockOrder.next, Threads.next, Option.map_eq_none_iff, step] at hn
  split at hn
  · rename_i hnil
    exact absurd hnil hrest
  · rename_i m rest hops
    simp only [ite_eq_right_iff, reduceCtorEq, imp_false] at hn
    obtain ⟨j, hj⟩ := Option.ne_none_iff_exists'.mp hn
    rw [hops, ordered_acquire] at hord
    exact ⟨m, rest, j, hops, (h.owner j m).mp hj, hord.1⟩
  · rename_i m rest hops
    simp only [ite_eq_right_iff, reduceCtorEq, imp_false] at hn
    rw [hops, ordered_release] at hord
    exact absurd ((h.owner i m).mpr hord.1) hn
  · cases hn

/-- The rank of the mutex that a thread is about to take. -/
def Worker.wants (rank : μ → Nat) (w : Worker μ) : Nat :=
  match w.rest with
  | .acquire m :: _ => rank m
  | _ => 0

variable [Fintype ι]

/-- Of the threads that have something left to do, the one that is about to take
the highest mutex can go on, or else waits for one that can. -/
theorem Safe.exists_next (h : Safe rank c) {i : ι} (hrest : (c.thread i).rest ≠ []) :
    ∃ l c', LockOrder.next c l = some c' := by
  by_contra hstuck
  have hnone (j : ι) : LockOrder.next c (j, ()) = none := by
    cases hn : LockOrder.next c (j, ()) with
    | none => rfl
    | some c' => exact absurd ⟨_, c', hn⟩ hstuck
  obtain ⟨k, hk, hmax⟩ := Finset.exists_max_image
    (Finset.univ.filter fun j => (c.thread j).rest ≠ []) (fun j => (c.thread j).wants rank)
    ⟨i, Finset.mem_filter.mpr ⟨Finset.mem_univ i, hrest⟩⟩
  obtain ⟨m, rest, j, hops, hm, -⟩ := h.waits (hnone k) (Finset.mem_filter.mp hk).2
  -- the thread that holds the mutex waits for a higher one
  have hj : (c.thread j).rest ≠ [] := (h.ordered j).rest_ne_nil hm
  obtain ⟨m', rest', -, hops', -, hlt⟩ := h.waits (hnone j) hj
  have hle := hmax j (Finset.mem_filter.mpr ⟨Finset.mem_univ j, hj⟩)
  have hless := hlt m hm
  simp only [Worker.wants, hops, hops'] at hle
  omega

/-- What the threads have left to do. -/
def left (c : State ι μ) : Nat := ∑ i, (c.thread i).rest.length

theorem Safe.left_next (h : Safe rank c) (hn : LockOrder.next c l = some c') :
    left c' + 1 = left c := by
  obtain ⟨owner, w, hs, rfl⟩ := Threads.next_eq_some.mp hn
  have hw : w.rest.length + 1 = (c.thread l.1).rest.length := by
    simp only [step] at hs
    split at hs
    · cases hs
    · rename_i hops
      simp only [Option.ite_none_right_eq_some] at hs
      cases hs.2
      simp [hops]
    · rename_i hops
      simp only [Option.ite_none_right_eq_some] at hs
      cases hs.2
      simp [hops]
    · rename_i hops
      exact absurd (hops ▸ h.ordered l.1) not_ordered_loop
  have hsum := Threads.sum_update (fun w => w.rest.length) c.thread l.1 w
  simp only [left, Threads.set]
  omega

/-- From every state the threads can all be brought to their end. -/
theorem Safe.completes (h : Safe rank c) :
    ∃ ls c', exec LockOrder.next c ls = some c' ∧ (∀ i, (c'.thread i).rest = []) ∧
      ls.length ≤ left c := by
  have hrun : ∃ ls c', exec LockOrder.next c ls = some c' ∧
      AllSteps LockOrder.next (fun _ _ => True) c ls ∧ (∀ i, (c'.thread i).rest = []) ∧
      ls.length + left c' ≤ left c := by
    refine exists_exec_of_measure (I := Safe rank) (fun c hc hleft => ?_) h
    obtain ⟨i, hi⟩ := not_forall.mp hleft
    obtain ⟨l, c', hn⟩ := hc.exists_next hi
    exact ⟨l, c', trivial, hn, hc.next hn, (hc.left_next hn).le⟩
  obtain ⟨ls, c', he, -, hend, hlen⟩ := hrun
  exact ⟨ls, c', he, hend, by omega⟩

end LockOrder
