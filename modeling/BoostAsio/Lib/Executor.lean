import BoostAsio.Lib.Runs
import Mathlib.Data.Fintype.Defs
import Mathlib.Logic.Function.Basic

/-!
# An executor

What threads that work for others owe those who submit work, without saying
how. Work is submitted once. A thread starts work that was submitted and that
no thread has started; it finishes the work that it started last, so that what
it starts inside other work ends first. Which work is started, by which thread
and when, is left open.

The events about one piece of work are, along every run, its submission, then
its start and its end in one and the same thread, or the first few of these
(`stage_of_exec`).
-/

namespace Executor

open Runs

variable {ι : Type u} {α : Type v}

inductive Event (ι : Type u) (α : Type v)
  | submit (a : α)
  | start (i : ι) (a : α)
  | finish (i : ι) (a : α)
  deriving DecidableEq, Repr

structure State (ι : Type u) (α : Type v) where
  submitted : List α := []
  /-- What each thread has started and not finished, the last first. -/
  running : ι → List α := fun _ => []
  finished : List α := []

/-- What an event says about one piece of work. -/
inductive Mark (ι : Type u)
  | submitted
  | started (i : ι)
  | finished (i : ι)
  deriving DecidableEq, Repr

variable [DecidableEq α]

def mark (a : α) : Event ι α → Option (Mark ι)
  | .submit b => if b = a then some .submitted else none
  | .start i b => if b = a then some (.started i) else none
  | .finish i b => if b = a then some (.finished i) else none

def history (a : α) (es : List (Event ι α)) : List (Mark ι) := es.filterMap (mark a)

theorem history_cons (a : α) (e : Event ι α) (es : List (Event ι α)) :
    history a (e :: es) = (mark a e).toList ++ history a es := by
  cases h : mark a e <;> simp [history, h]

/-- Where a piece of work is, with what has happened to it. -/
inductive Stage (s : State ι α) (a : α) : List (Mark ι) → Prop
  | unknown : a ∉ s.submitted → a ∉ s.finished → (∀ j, a ∉ s.running j) → Stage s a []
  | waiting : a ∈ s.submitted → a ∉ s.finished → (∀ j, a ∉ s.running j) →
      Stage s a [.submitted]
  | running {i : ι} : a ∈ s.submitted → a ∉ s.finished → (s.running i).count a = 1 →
      (∀ j, j ≠ i → a ∉ s.running j) → Stage s a [.submitted, .started i]
  | finished {i : ι} : a ∈ s.submitted → a ∈ s.finished → (∀ j, a ∉ s.running j) →
      Stage s a [.submitted, .started i, .finished i]

/-- The stage depends on where the piece of work is, and on nothing else. -/
theorem Stage.congr {s s' : State ι α} {a : α} {h : List (Mark ι)} (hst : Stage s a h)
    (hs : a ∈ s'.submitted ↔ a ∈ s.submitted) (hf : a ∈ s'.finished ↔ a ∈ s.finished)
    (hr : ∀ j, (s'.running j).count a = (s.running j).count a) : Stage s' a h := by
  have hmem (j : ι) : a ∈ s'.running j ↔ a ∈ s.running j := by
    rw [← List.count_pos_iff, hr j, List.count_pos_iff]
  cases hst with
  | unknown h1 h2 h3 =>
    exact .unknown (mt hs.mp h1) (mt hf.mp h2) fun j => mt (hmem j).mp (h3 j)
  | waiting h1 h2 h3 =>
    exact .waiting (hs.mpr h1) (mt hf.mp h2) fun j => mt (hmem j).mp (h3 j)
  | running h1 h2 h3 h4 =>
    exact .running (hs.mpr h1) (mt hf.mp h2) ((hr _).trans h3) fun j hj =>
      mt (hmem j).mp (h4 j hj)
  | finished h1 h2 h3 =>
    exact .finished (hs.mpr h1) (hf.mpr h2) fun j => mt (hmem j).mp (h3 j)

variable [DecidableEq ι] [Fintype ι]

def next (s : State ι α) : Event ι α → Option (State ι α)
  | .submit a =>
    if a ∈ s.submitted then none else some { s with submitted := s.submitted ++ [a] }
  | .start i a =>
    if a ∈ s.submitted ∧ a ∉ s.finished ∧ ∀ j, a ∉ s.running j then
      some { s with running := Function.update s.running i (a :: s.running i) }
    else none
  | .finish i a =>
    match s.running i with
    | [] => none
    | b :: rest =>
      if b = a then
        some { s with
          running := Function.update s.running i rest, finished := s.finished ++ [a] }
      else none

variable {s s' : State ι α} {a b : α} {h : List (Mark ι)} {i : ι}

omit [Fintype ι] in
theorem count_update (f : ι → List α) (i j : ι) (l : List α) :
    (Function.update f i l j).count a = if j = i then l.count a else (f j).count a := by
  by_cases hj : j = i
  · subst hj
    simp
  · simp [hj]

theorem Stage.submit (hst : Stage s a h) (hn : next s (.submit b) = some s') :
    Stage s' a (h ++ (mark a (.submit b : Event ι α)).toList) := by
  simp only [next, Option.ite_none_left_eq_some] at hn
  obtain ⟨hnew, hs'⟩ := hn
  cases hs'
  by_cases hb : b = a
  · subst hb
    simp only [mark, if_true, Option.toList_some]
    cases hst with
    | unknown _ hf hr => exact .waiting (by simp) hf hr
    | waiting hs | running hs | finished hs => exact absurd hs hnew
  · have hab : ¬ a = b := fun heq => hb heq.symm
    simp only [mark, hb, if_false, Option.toList_none, List.append_nil]
    exact hst.congr (by simp [hab]) Iff.rfl fun _ => rfl

theorem Stage.start (hst : Stage s a h) (hn : next s (.start i b) = some s') :
    Stage s' a (h ++ (mark a (.start i b)).toList) := by
  simp only [next, Option.ite_none_right_eq_some] at hn
  obtain ⟨⟨hsub, hfin, hfree⟩, hs'⟩ := hn
  cases hs'
  by_cases hb : b = a
  · subst hb
    simp only [mark, if_true, Option.toList_some]
    cases hst with
    | unknown hs => exact absurd hsub hs
    | waiting =>
      refine .running hsub hfin ?_ fun j hj => ?_
      · simp [List.count_eq_zero.mpr (hfree i)]
      · simpa [hj] using hfree j
    | @running k _ _ hone =>
      have hzero := List.count_eq_zero.mpr (hfree k)
      rw [hone] at hzero
      cases hzero
    | finished _ hf => exact absurd hf hfin
  · simp only [mark, hb, if_false, Option.toList_none, List.append_nil]
    refine hst.congr Iff.rfl Iff.rfl fun j => ?_
    rw [count_update]
    split
    · rename_i hj
      rw [List.count_cons_of_ne hb, hj]
    · rfl

theorem Stage.finish (hst : Stage s a h) (hn : next s (.finish i b) = some s') :
    Stage s' a (h ++ (mark a (.finish i b)).toList) := by
  simp only [next] at hn
  cases hr : s.running i with
  | nil => simp [hr] at hn
  | cons c rest =>
    simp only [hr, Option.ite_none_right_eq_some] at hn
    obtain ⟨rfl, hs'⟩ := hn
    cases hs'
    by_cases hc : c = a
    · subst hc
      have hmem : c ∈ s.running i := by simp [hr]
      cases hst with
      | unknown _ _ hfree | waiting _ _ hfree | finished _ _ hfree =>
        exact absurd hmem (hfree i)
      | @running k hsub _ hone hothers =>
        have hk : i = k := by
          by_contra hne
          exact hothers i hne hmem
        subst hk
        have hrest : c ∉ rest := by
          simpa [hr, List.count_eq_zero] using hone
        simp only [mark, if_true, Option.toList_some, List.cons_append, List.nil_append]
        refine .finished hsub (by simp) fun j => ?_
        by_cases hj : j = i
        · subst hj
          simpa using hrest
        · simpa [hj] using hothers j hj
    · simp only [mark, hc, if_false, Option.toList_none, List.append_nil]
      have hac : ¬ a = c := fun heq => hc heq.symm
      refine hst.congr Iff.rfl (by simp [hac]) fun j => ?_
      rw [count_update]
      split
      · rename_i hj
        rw [hj, hr, List.count_cons_of_ne hc]
      · rfl

theorem Stage.next {e : Event ι α} (hst : Stage s a h) (hn : next s e = some s') :
    Stage s' a (h ++ (mark a e).toList) := by
  cases e with
  | submit b => exact hst.submit hn
  | start i b => exact hst.start hn
  | finish i b => exact hst.finish hn

theorem Stage.exec {es : List (Event ι α)} (hst : Stage s a h)
    (he : exec Executor.next s es = some s') : Stage s' a (h ++ history a es) := by
  induction es generalizing s h with
  | nil =>
    cases he
    simpa [history] using hst
  | cons e es ih =>
    simp only [Runs.exec, Option.bind_eq_some_iff] at he
    obtain ⟨t, hn, he⟩ := he
    rw [history_cons, ← List.append_assoc]
    exact ih (hst.next hn) he

/-- Each piece of work is submitted, started and finished in that order, once
at most, and finished by the thread that started it. -/
theorem stage_of_exec {es : List (Event ι α)} (he : exec Executor.next {} es = some s) (a : α) :
    Stage s a (history a es) :=
  Stage.exec (h := []) (.unknown (by simp) (by simp) (by simp)) he

/-- Work that is new, submitted in one go. -/
theorem exec_submit {as : List α} (hnew : ∀ a ∈ as, a ∉ s.submitted) (hnodup : as.Nodup) :
    exec Executor.next s (as.map .submit) = some { s with submitted := s.submitted ++ as } := by
  induction as generalizing s with
  | nil => simp [exec]
  | cons a as ih =>
    obtain ⟨ha, hnodup⟩ := List.nodup_cons.mp hnodup
    have hstep : Executor.next s (.submit a) =
        some { s with submitted := s.submitted ++ [a] } := by
      simp [Executor.next, hnew a List.mem_cons_self]
    simp only [List.map_cons, exec, hstep, Option.bind_some]
    rw [ih ?_ hnodup]
    · simp
    · intro b hb
      simp only [List.mem_append, List.mem_singleton, not_or]
      refine ⟨hnew b (List.mem_cons_of_mem a hb), ?_⟩
      rintro rfl
      exact ha hb

end Executor
