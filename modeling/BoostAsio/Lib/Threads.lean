import BoostAsio.Lib.Runs
import Mathlib.Algebra.BigOperators.Group.Finset.Piecewise
import Mathlib.Algebra.Order.BigOperators.Group.Finset
import Mathlib.Tactic.Abel

/-!
# Threads over a shared memory

`next step` interleaves the threads `ι`: a label names a thread and one of its
actions, and the step function of a thread reads and writes the shared memory
and the thread's own state, never the state of another thread.

Two kinds of invariant follow from what one thread does. `total` sums a
quantity over the memory and all threads, and `total_next` says that two such
sums move against each other by what the stepping thread moves them.
`forall_next` proves a property of every thread from the step of the thread
itself and from its stability under the steps of the others.
-/

open Finset

structure Threads (ι : Type u) (σ : Type v) (τ : Type w) where
  shared : σ
  thread : ι → τ

namespace Threads

variable {ι : Type u} {σ : Type v} {τ : Type w} {α : Type x} [DecidableEq ι]

def set (c : Threads ι σ τ) (i : ι) (s : σ) (t : τ) : Threads ι σ τ :=
  ⟨s, Function.update c.thread i t⟩

@[simp] theorem set_shared (c : Threads ι σ τ) (i : ι) (s : σ) (t : τ) :
    (c.set i s t).shared = s := rfl

@[simp] theorem set_thread_self (c : Threads ι σ τ) (i : ι) (s : σ) (t : τ) :
    (c.set i s t).thread i = t := by simp [set]

theorem set_thread_ne (c : Threads ι σ τ) {i j : ι} (h : j ≠ i) (s : σ) (t : τ) :
    (c.set i s t).thread j = c.thread j := by simp [set, h]

/-- One action of one thread. -/
def next (step : ι → α → σ → τ → Option (σ × τ)) (c : Threads ι σ τ) (l : ι × α) :
    Option (Threads ι σ τ) :=
  (step l.1 l.2 c.shared (c.thread l.1)).map fun r => c.set l.1 r.1 r.2

variable {step : ι → α → σ → τ → Option (σ × τ)}

theorem next_eq_some {c c' : Threads ι σ τ} {l : ι × α} :
    next step c l = some c' ↔
      ∃ s t, step l.1 l.2 c.shared (c.thread l.1) = some (s, t) ∧ c' = c.set l.1 s t := by
  simp only [next, Option.map_eq_some_iff, Prod.exists]
  exact exists₂_congr fun _ _ => and_congr_right fun _ => eq_comm

/-- A property of every thread, from the step of the thread itself and its
stability under the step of another thread. -/
theorem forall_next {I : ι → σ → τ → Prop} {c c' : Threads ι σ τ} {l : ι × α}
    (hn : next step c l = some c')
    (hself : ∀ s t, step l.1 l.2 c.shared (c.thread l.1) = some (s, t) → I l.1 s t)
    (hother : ∀ s t, step l.1 l.2 c.shared (c.thread l.1) = some (s, t) →
      ∀ j, j ≠ l.1 → I j s (c.thread j)) (j : ι) :
    I j c'.shared (c'.thread j) := by
  obtain ⟨s, t, hs, rfl⟩ := next_eq_some.mp hn
  by_cases hj : j = l.1
  · subst hj
    simpa using hself s t hs
  · simpa [set_thread_ne c hj] using hother s t hs j hj

theorem sum_map_set (f : α → Nat) {l : List α} {n : Nat} {x : α} (y : α)
    (h : l[n]? = some x) : ((l.set n y).map f).sum + f x = (l.map f).sum + f y := by
  induction l generalizing n with
  | nil => simp at h
  | cons a l ih =>
    cases n with
    | zero =>
      simp only [List.getElem?_cons_zero, Option.some.injEq] at h
      simp [h]
      omega
    | succ n =>
      have := ih (by simpa using h)
      simp only [List.set_cons_succ, List.map_cons, List.sum_cons]
      omega

theorem sum_trace_append {next : σ → α → Option σ} (f g : σ → α → List Nat) (s : σ)
    (ls : List α) : (Runs.trace next (fun s l => f s l ++ g s l) s ls).sum =
      (Runs.trace next f s ls).sum + (Runs.trace next g s ls).sum := by
  induction ls generalizing s with
  | nil => rfl
  | cons l ls ih =>
    simp only [Runs.trace]
    cases next s l with
    | none => simp
    | some t =>
      simp only [List.sum_append, ih t]
      omega

/-- A run is no longer than the measure of its first state and the costs of its
steps allow, where a step lowers the measure by one, but for its cost. -/
theorem length_le_of_costs {next : σ → α → Option σ} {I : σ → Prop} {μ : σ → Nat}
    {cost : σ → α → Nat}
    (hstep : ∀ s l s', I s → next s l = some s' → I s' ∧ μ s' + 1 ≤ μ s + cost s l)
    {s s' : σ} {ls : List α} (hs : I s) (he : Runs.exec next s ls = some s') :
    ls.length + μ s' ≤ μ s + (Runs.trace next (fun s l => [cost s l]) s ls).sum := by
  induction ls generalizing s with
  | nil =>
    cases he
    simp
  | cons l ls ih =>
    simp only [Runs.exec, Option.bind_eq_some_iff] at he
    obtain ⟨t, hn, he⟩ := he
    obtain ⟨ht, hle⟩ := hstep s l t hs hn
    have hrest := ih ht he
    simp only [Runs.trace, hn, List.length_cons, List.sum_append, List.sum_singleton]
    omega

section Total

variable [Fintype ι] {M : Type y} [AddCommMonoid M]

/-- A quantity of the memory plus that of every thread. -/
def total (m : σ → M) (f : τ → M) (c : Threads ι σ τ) : M := m c.shared + ∑ j, f (c.thread j)

theorem sum_update (f : τ → M) (g : ι → τ) (i : ι) (t : τ) :
    ∑ j, f (Function.update g i t j) + f (g i) = ∑ j, f (g j) + f t := by
  have hu : (fun j => f (Function.update g i t j)) =
      Function.update (fun j => f (g j)) i (f t) := by
    funext j
    by_cases h : j = i
    · subst h; simp
    · simp [h]
  rw [hu, sum_update_of_mem (mem_univ i), ← add_sum_erase _ _ (mem_univ i),
    sdiff_singleton_eq_erase]
  abel

/-- Two totals move against each other by what the stepping thread moves
them: `x` is what the first loses and `y` what it gains on the second. -/
theorem total_next [IsRightCancelAdd M] {m n : σ → M} {f g : τ → M} {c c' : Threads ι σ τ}
    {l : ι × α} {x y : M} (hn : next step c l = some c')
    (hstep : ∀ s t, step l.1 l.2 c.shared (c.thread l.1) = some (s, t) →
      m s + f t + (n c.shared + g (c.thread l.1)) + x =
        m c.shared + f (c.thread l.1) + (n s + g t) + y) :
    total m f c' + total n g c + x = total m f c + total n g c' + y := by
  obtain ⟨s, t, hs, rfl⟩ := next_eq_some.mp hn
  have hf := sum_update f c.thread l.1 t
  have hg := sum_update g c.thread l.1 t
  refine add_right_cancel (b := f (c.thread l.1) + g t) ?_
  calc total m f (c.set l.1 s t) + total n g c + x + (f (c.thread l.1) + g t)
      = (∑ j, f (Function.update c.thread l.1 t j) + f (c.thread l.1)) +
          (∑ j, g (c.thread j) + g t) + (m s + n c.shared + x) := by
        simp only [total, set]; abel
    _ = (m s + f t + (n c.shared + g (c.thread l.1)) + x) + (∑ j, f (c.thread j)) +
          ∑ j, g (Function.update c.thread l.1 t j) := by rw [hf, ← hg]; abel
    _ = total m f c + total n g (c.set l.1 s t) + y + (f (c.thread l.1) + g t) := by
        rw [hstep s t hs]; simp only [total, set]; abel

/-- What the steps of the threads give and take is what the total moves by along
a run. The invariant is told how many steps are to come. -/
theorem total_trace {f : τ → Nat} {gains losses : Threads ι σ τ → ι × α → List Nat}
    {I : Nat → Threads ι σ τ → Prop}
    (hkeep : ∀ n c l c', I (n + 1) c → next step c l = some c' →
      total (fun _ => 0) f c' + (losses c l).sum = total (fun _ => 0) f c + (gains c l).sum →
      I n c')
    (hstep : ∀ n c l s t, I (n + 1) c → step l.1 l.2 c.shared (c.thread l.1) = some (s, t) →
      f t + (losses c l).sum = f (c.thread l.1) + (gains c l).sum)
    {c c' : Threads ι σ τ} {ls : List (ι × α)} (hc : I ls.length c)
    (he : Runs.exec (next step) c ls = some c') :
    total (fun _ => 0) f c' + (Runs.trace (next step) losses c ls).sum =
      total (fun _ => 0) f c + (Runs.trace (next step) gains c ls).sum := by
  induction ls generalizing c with
  | nil =>
    cases he
    rfl
  | cons l ls ih =>
    simp only [Runs.exec, Option.bind_eq_some_iff] at he
    obtain ⟨d, hn, he⟩ := he
    have hmove := total_next (m := fun _ => 0) (f := f) (n := fun _ => 0) (g := fun _ => 0)
      (x := (losses c l).sum) (y := (gains c l).sum) hn fun s t hs => by
        have := hstep ls.length c l s t hc hs
        omega
    have hd : total (fun _ => 0) f d + (losses c l).sum =
        total (fun _ => 0) f c + (gains c l).sum := by
      simp only [total, sum_const_zero] at hmove ⊢
      omega
    have hrest := ih (hkeep ls.length c l d hc hn hd) he
    simp only [Runs.trace, hn, List.sum_append]
    omega

end Total

omit [DecidableEq ι] in
/-- If a count of threads is 1, then it counts one thread. -/
theorem existsUnique_of_count [Fintype ι] {b : ι → Bool} (h : ∑ j, (b j).toNat = 1) :
    ∃! j, b j = true := by
  obtain ⟨i, -, hi⟩ : ∃ i ∈ univ, (b i).toNat ≠ 0 := exists_ne_zero_of_sum_ne_zero (by omega)
  refine ⟨i, by simpa using hi, fun j hj => ?_⟩
  by_contra hne
  have htwo := add_le_sum (f := fun k => (b k).toNat) (fun _ _ => zero_le) (mem_univ i)
    (mem_univ j) (Ne.symm hne)
  simp only [hj, h, Bool.toNat_true] at htwo
  have hpos : 0 < (b i).toNat := Nat.pos_of_ne_zero hi
  omega

end Threads
