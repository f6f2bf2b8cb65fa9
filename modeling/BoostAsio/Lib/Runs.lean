import Mathlib.Init

/-!
# Runs of a computed transition system

A system is a function `next`: the state after a label, or `none` where the
label is not enabled. `Reach` collects the states reached by steps that all
meet a condition `ok`; `AllStates` and `AllSteps` read one list of labels as a
run, up to the first label that is not enabled.

`Reach.invariant` is the induction over runs. `allStates_iff_allSteps` is its
exact form: where every step that breaks `ok` breaks the property at once, the
property holds along a run if and only if every step of it meets `ok`.
-/

namespace Runs

variable {σ : Type u} {ℓ : Type v}

inductive Reach (next : σ → ℓ → Option σ) (ok : σ → ℓ → Prop) (start : σ) : σ → Prop
  | start : Reach next ok start start
  | step {s l s'} : Reach next ok start s → ok s l → next s l = some s' →
      Reach next ok start s'

def exec (next : σ → ℓ → Option σ) : σ → List ℓ → Option σ
  | s, [] => some s
  | s, l :: ls => (next s l).bind fun s' => exec next s' ls

/-- Every state of the run, the first one included. -/
def AllStates (next : σ → ℓ → Option σ) (P : σ → Prop) : σ → List ℓ → Prop
  | s, [] => P s
  | s, l :: ls => P s ∧ match next s l with
    | none => True
    | some s' => AllStates next P s' ls

/-- Every step of the run, in the state it is taken from. -/
def AllSteps (next : σ → ℓ → Option σ) (ok : σ → ℓ → Prop) : σ → List ℓ → Prop
  | _, [] => True
  | s, l :: ls => match next s l with
    | none => True
    | some s' => ok s l ∧ AllSteps next ok s' ls

/-- What the steps of the run give, in order. -/
def trace (next : σ → ℓ → Option σ) (f : σ → ℓ → List α) : σ → List ℓ → List α
  | _, [] => []
  | s, l :: ls => f s l ++ match next s l with
    | none => []
    | some s' => trace next f s' ls

variable {next : σ → ℓ → Option σ} {ok : σ → ℓ → Prop} {P I : σ → Prop}

section Reach

variable {start s : σ}

theorem Reach.mono {ok' : σ → ℓ → Prop} (hok : ∀ s l, ok s l → ok' s l)
    (h : Reach next ok start s) : Reach next ok' start s := by
  induction h with
  | start => exact .start
  | step _ hl hn ih => exact .step ih (hok _ _ hl) hn

/-- The induction over runs; facts already known of reached states are at hand
through `Reach next ok start s`. -/
theorem Reach.invariant (h : Reach next ok start s) (hstart : I start)
    (hstep : ∀ s l s', Reach next ok start s → I s → ok s l → next s l = some s' → I s') :
    I s := by
  induction h with
  | start => exact hstart
  | step hr hl hn ih => exact hstep _ _ _ hr ih hl hn

theorem Reach.trans_exec (h : Reach next ok start s) {ls : List ℓ} {s' : σ}
    (hok : AllSteps next ok s ls) (he : exec next s ls = some s') :
    Reach next ok start s' := by
  induction ls generalizing s with
  | nil =>
    simp only [exec, Option.some.injEq] at he
    exact he ▸ h
  | cons l ls ih =>
    simp only [exec, Option.bind_eq_some_iff] at he
    obtain ⟨t, hn, he⟩ := he
    simp only [AllSteps, hn] at hok
    exact ih (.step h hok.1 hn) hok.2 he

theorem Reach.of_exec (ls : List ℓ) (hok : AllSteps next ok start ls)
    (he : exec next start ls = some s) : Reach next ok start s :=
  Reach.start.trans_exec hok he

end Reach

theorem allSteps_of_labels {ls : List ℓ} (h : ∀ l ∈ ls, ∀ s, ok s l) (s : σ) :
    AllSteps next ok s ls := by
  induction ls generalizing s with
  | nil => trivial
  | cons l ls ih =>
    simp only [AllSteps]
    split
    · trivial
    · exact ⟨h l List.mem_cons_self s, ih (fun l hl => h l (List.mem_cons_of_mem _ hl)) _⟩

theorem allSteps_trivial (s : σ) (ls : List ℓ) : AllSteps next (fun _ _ => True) s ls :=
  allSteps_of_labels (fun _ _ _ => trivial) s

/-- What a step needs beside `ok` may be a property of its label. -/
theorem AllSteps.of_labels {ok' : σ → ℓ → Prop} {ls : List ℓ} {s : σ}
    (h : AllSteps next ok s ls) (hok : ∀ l ∈ ls, ∀ s, ok s l → ok' s l) :
    AllSteps next ok' s ls := by
  induction ls generalizing s with
  | nil => trivial
  | cons l ls ih =>
    simp only [AllSteps] at h ⊢
    cases hn : next s l with
    | none => trivial
    | some s' =>
      simp only [hn] at h
      exact ⟨hok l List.mem_cons_self s h.1,
        ih h.2 fun l hl => hok l (List.mem_cons_of_mem _ hl)⟩

instance AllSteps.decidable [∀ s l, Decidable (ok s l)] :
    (s : σ) → (ls : List ℓ) → Decidable (AllSteps next ok s ls)
  | _, [] => isTrue trivial
  | s, l :: ls =>
    match h : next s l with
    | none => isTrue (by simp [AllSteps, h])
    | some s' =>
      have : Decidable (AllSteps next ok s' ls) := AllSteps.decidable s' ls
      decidable_of_iff (ok s l ∧ AllSteps next ok s' ls) (by simp [AllSteps, h])

theorem AllStates.of_exec {s s' : σ} {ls : List ℓ} (h : AllStates next P s ls)
    (he : exec next s ls = some s') : P s' := by
  induction ls generalizing s with
  | nil =>
    cases he
    exact h
  | cons l ls ih =>
    simp only [exec, Option.bind_eq_some_iff] at he
    obtain ⟨t, hn, he⟩ := he
    simp only [AllStates, hn] at h
    exact ih h.2 he

/-- The step behind a run. -/
theorem AllSteps.of_exec {s s' t : σ} {l : ℓ} (ls : List ℓ) (h : AllSteps next ok s (ls ++ [l]))
    (he : exec next s ls = some s') (hn : next s' l = some t) : ok s' l := by
  induction ls generalizing s with
  | nil =>
    cases he
    simp only [List.nil_append, AllSteps, hn] at h
    exact h.1
  | cons k ls ih =>
    simp only [exec, Option.bind_eq_some_iff] at he
    obtain ⟨u, hu, he⟩ := he
    simp only [List.cons_append, AllSteps, hu] at h
    exact ih h.2 he

/-- A property of every state of a run, from an invariant that the labels of
the run keep. -/
theorem allStates_of_invariant (hP : ∀ s, I s → P s) {ls : List ℓ}
    (hkeep : ∀ s l s', I s → l ∈ ls → next s l = some s' → I s') {s : σ} (hs : I s) :
    AllStates next P s ls := by
  induction ls generalizing s with
  | nil => exact hP s hs
  | cons l ls ih =>
    refine ⟨hP s hs, ?_⟩
    cases hn : next s l with
    | none => trivial
    | some s' =>
      exact ih (fun s l s' hi hl => hkeep s l s' hi (List.mem_cons_of_mem _ hl))
        (hkeep s l s' hs List.mem_cons_self hn)

/-- The same, from an invariant that the steps which meet `ok` keep. -/
theorem AllSteps.allStates (hP : ∀ s, I s → P s)
    (hkeep : ∀ s l s', I s → ok s l → next s l = some s' → I s') {s : σ} (hs : I s)
    {ls : List ℓ} (h : AllSteps next ok s ls) : AllStates next P s ls := by
  induction ls generalizing s with
  | nil => exact hP s hs
  | cons l ls ih =>
    simp only [AllSteps, AllStates] at h ⊢
    refine ⟨hP s hs, ?_⟩
    cases hn : next s l with
    | none => trivial
    | some s' =>
      simp only [hn] at h
      exact ih (hkeep s l s' hs h.1 hn) h.2

/-- Where every step from a state of the invariant that meets `ok` meets `ok'`
too, so does a run. -/
theorem AllSteps.mono {ok' : σ → ℓ → Prop}
    (hok : ∀ s l s', I s → ok s l → next s l = some s' → ok' s l)
    (hkeep : ∀ s l s', I s → ok s l → next s l = some s' → I s') {s : σ} (hs : I s)
    {ls : List ℓ} (h : AllSteps next ok s ls) : AllSteps next ok' s ls := by
  induction ls generalizing s with
  | nil => trivial
  | cons l ls ih =>
    simp only [AllSteps] at h ⊢
    cases hn : next s l with
    | none => trivial
    | some s' =>
      simp only [hn] at h
      exact ⟨hok s l s' hs h.1 hn, ih (hkeep s l s' hs h.1 hn) h.2⟩

/-- A run is no longer than the measure of its first state allows, where a step
lowers the measure or has a label that may raise it by less than `k`. -/
theorem length_le_of_measure {μ : σ → Nat} {p : ℓ → Bool} {k : Nat} {ls : List ℓ}
    (hstep : ∀ s l s', I s → ok s l → next s l = some s' →
      I s' ∧ μ s' + 1 ≤ μ s + if p l then k else 0) {s s' : σ} (hs : I s)
    (hok : AllSteps next ok s ls) (he : exec next s ls = some s') :
    ls.length + μ s' ≤ μ s + k * ls.countP p := by
  induction ls generalizing s with
  | nil =>
    cases he
    simp
  | cons l ls ih =>
    simp only [exec, Option.bind_eq_some_iff] at he
    obtain ⟨t, hn, he⟩ := he
    simp only [AllSteps, hn] at hok
    obtain ⟨ht, hle⟩ := hstep s l t hs hok.1 hn
    have hrest := ih ht hok.2 he
    simp only [List.length_cons, List.countP_cons]
    split at hle <;> rename_i hp <;> simp only [hp, if_true, if_false, Nat.mul_add,
      Bool.false_eq_true] <;> omega

/-- Where every state that does not meet `P` has a step that lowers the measure,
a run leads to one that does. -/
theorem exists_exec_of_measure {μ : σ → Nat}
    (hstep : ∀ s, I s → ¬ P s → ∃ l s', ok s l ∧ next s l = some s' ∧ I s' ∧ μ s' + 1 ≤ μ s)
    {s : σ} (hs : I s) : ∃ ls s', exec next s ls = some s' ∧ AllSteps next ok s ls ∧ P s' ∧
      ls.length + μ s' ≤ μ s := by
  by_cases hP : P s
  · exact ⟨[], s, rfl, trivial, hP, by simp⟩
  · obtain ⟨l, t, hok, hn, ht, hle⟩ := hstep s hs hP
    obtain ⟨ls, s', he, hall, hP', hlen⟩ := exists_exec_of_measure hstep ht
    refine ⟨l :: ls, s', ?_, ?_, hP', ?_⟩
    · simp only [exec, hn, Option.bind_some, he]
    · simp only [AllSteps, hn]
      exact ⟨hok, hall⟩
    · rw [List.length_cons]
      omega
termination_by μ s

theorem trace_hom {f : σ → ℓ → List α} {φ : List α → List β} (hnil : φ [] = [])
    (happ : ∀ xs ys, φ (xs ++ ys) = φ xs ++ φ ys) (s : σ) (ls : List ℓ) :
    φ (trace next f s ls) = trace next (fun s l => φ (f s l)) s ls := by
  induction ls generalizing s with
  | nil => exact hnil
  | cons l ls ih =>
    simp only [trace, happ]
    cases next s l with
    | none => simp [hnil]
    | some t => simp [ih t]

/-- The induction over runs, for a property of the state and of what the steps
have given. -/
theorem trace_invariant {J : σ → List α → Prop} {f : σ → ℓ → List α}
    (hstep : ∀ s l s' xs, J s xs → next s l = some s' → J s' (xs ++ f s l))
    {s s' : σ} {xs : List α} {ls : List ℓ} (hs : J s xs) (he : exec next s ls = some s') :
    J s' (xs ++ trace next f s ls) := by
  induction ls generalizing s xs with
  | nil =>
    cases he
    simpa [trace] using hs
  | cons l ls ih =>
    simp only [exec, Option.bind_eq_some_iff] at he
    obtain ⟨t, hn, he⟩ := he
    simp only [trace, hn]
    rw [← List.append_assoc]
    exact ih (hstep s l t xs hs hn) he

/-- A queue that each step takes from at the front and adds to at the end does
so along a run. -/
theorem queue_trace {q : σ → List α} {enters leaves : σ → ℓ → List α}
    (hstep : ∀ s l s', I s → next s l = some s' →
      I s' ∧ q s ++ enters s l = leaves s l ++ q s')
    {s s' : σ} {ls : List ℓ} (hs : I s) (he : exec next s ls = some s') :
    q s ++ trace next enters s ls = trace next leaves s ls ++ q s' := by
  induction ls generalizing s with
  | nil =>
    cases he
    simp [trace]
  | cons l ls ih =>
    simp only [exec, Option.bind_eq_some_iff] at he
    obtain ⟨t, hn, he⟩ := he
    obtain ⟨ht, hq⟩ := hstep s l t hs hn
    simp only [trace, hn]
    calc q s ++ (enters s l ++ trace next enters t ls)
        = leaves s l ++ (q t ++ trace next enters t ls) := by
          rw [← List.append_assoc, hq, List.append_assoc]
      _ = leaves s l ++ trace next leaves t ls ++ q s' := by rw [ih ht he, List.append_assoc]

theorem trace_nil (s : σ) (ls : List ℓ) : trace next (fun _ _ => ([] : List α)) s ls = [] := by
  induction ls generalizing s with
  | nil => rfl
  | cons l ls ih =>
    simp only [trace]
    cases next s l with
    | none => rfl
    | some t => exact ih t

theorem exec_append (s : σ) (ls ls' : List ℓ) :
    exec next s (ls ++ ls') = (exec next s ls).bind fun t => exec next t ls' := by
  induction ls generalizing s with
  | nil => rfl
  | cons l ls ih =>
    simp only [List.cons_append, exec, Option.bind_assoc]
    exact Option.bind_congr fun t _ => ih t

/-- A run refines a run of a second system, if what each step gives is a run of
the second system from the image of the state to the image of the next one. -/
theorem exec_trace {next' : τ → κ → Option τ} {abs : σ → τ} {f : σ → ℓ → List κ}
    (hstep : ∀ s l s', I s → next s l = some s' →
      I s' ∧ exec next' (abs s) (f s l) = some (abs s'))
    {s s' : σ} {ls : List ℓ} (hs : I s) (he : exec next s ls = some s') :
    exec next' (abs s) (trace next f s ls) = some (abs s') := by
  induction ls generalizing s with
  | nil =>
    cases he
    rfl
  | cons l ls ih =>
    simp only [exec, Option.bind_eq_some_iff] at he
    obtain ⟨t, hn, he⟩ := he
    obtain ⟨ht, hl⟩ := hstep s l t hs hn
    simp only [trace, hn]
    rw [exec_append, hl, Option.bind_some]
    exact ih ht he

/-- Conditions that agree on every step agree on runs. -/
theorem allSteps_congr {ok' : σ → ℓ → Prop} (h : ∀ s l, ok s l ↔ ok' s l) (s : σ) (ls : List ℓ) :
    AllSteps next ok s ls ↔ AllSteps next ok' s ls := by
  induction ls generalizing s with
  | nil => exact Iff.rfl
  | cons l ls ih =>
    simp only [AllSteps]
    cases next s l with
    | none => exact Iff.rfl
    | some s' => exact and_congr (h s l) (ih s')

/-- Along a run, a property whose invariant `I` is kept by exactly the steps
that meet `ok` holds in every state if and only if every step meets `ok`. -/
theorem allStates_iff_allSteps (hP : ∀ s, I s → P s) {ls : List ℓ}
    (hkeep : ∀ s l s', I s → l ∈ ls → ok s l → next s l = some s' → I s')
    (hbreak : ∀ s l s', I s → l ∈ ls → ¬ ok s l → next s l = some s' → ¬ P s')
    {s : σ} (hs : I s) : AllStates next P s ls ↔ AllSteps next ok s ls := by
  induction ls generalizing s with
  | nil => simp [AllStates, AllSteps, hP s hs]
  | cons l ls ih =>
    simp only [AllStates, AllSteps]
    cases hn : next s l with
    | none => simp [hP s hs]
    | some s' =>
      by_cases hl : ok s l
      · have hrest := ih (fun s l s' hi hm => hkeep s l s' hi (List.mem_cons_of_mem _ hm))
          (fun s l s' hi hm => hbreak s l s' hi (List.mem_cons_of_mem _ hm))
          (hkeep s l s' hs List.mem_cons_self hl hn)
        simp [hP s hs, hl, hrest]
      · have hne : ¬ P s' := hbreak s l s' hs List.mem_cons_self hl hn
        have hrun : ¬ AllStates next P s' ls := by
          intro h
          cases ls with
          | nil => exact hne h
          | cons _ _ => exact hne h.1
        simp [hl, hrun]

end Runs
