import Mathlib.Data.List.Basic

/-!
# Stacks searched by key

A stack is a list, innermost entry first, and `key` says what an entry belongs
to. `innermost` is the first entry of a key, and `change` an update of that
entry alone. What holds of every entry after an update is proved from
`mem_change`, and what holds of the entries below the top from
`mem_tail_change`.
-/

namespace KeyedStack

variable {κ : Type u} {φ : Type v} [DecidableEq κ] (key : φ → κ)

def innermost (k : κ) (fs : List φ) : Option φ := fs.find? fun f => key f = k

def change (k : κ) (g : φ → φ) : List φ → List φ
  | [] => []
  | f :: fs => if key f = k then g f :: fs else f :: change k g fs

variable {key} {k : κ} {g : φ → φ} {f x : φ} {fs : List φ}

theorem innermost_of_eq (h : key f = k) : innermost key k (f :: fs) = some f := by
  simp [innermost, h]

theorem innermost_of_ne (h : key f ≠ k) :
    innermost key k (f :: fs) = innermost key k fs := by
  simp [innermost, h]

theorem mem_of_innermost (h : innermost key k fs = some f) : f ∈ fs :=
  List.mem_of_find?_eq_some h

theorem mem_change (h : x ∈ change key k g fs) :
    x ∈ fs ∨ ∃ f, innermost key k fs = some f ∧ x = g f := by
  induction fs with
  | nil => cases h
  | cons f fs ih =>
    by_cases hf : key f = k
    · simp only [change, hf, if_true, List.mem_cons] at h
      obtain rfl | h := h
      · exact .inr ⟨f, innermost_of_eq hf, rfl⟩
      · exact .inl (List.mem_cons_of_mem _ h)
    · simp only [change, hf, if_false, List.mem_cons] at h
      obtain rfl | h := h
      · exact .inl List.mem_cons_self
      · rw [innermost_of_ne hf]
        exact (ih h).imp_left (List.mem_cons_of_mem _)

/-- An entry below the top is changed if the top is of another key. -/
theorem mem_tail_change (h : x ∈ (change key k g fs).tail) :
    x ∈ fs.tail ∨ ∃ f ∈ fs.tail, innermost key k fs = some f ∧ x = g f ∧
      ∀ t, fs.head? = some t → key t ≠ k := by
  cases fs with
  | nil => cases h
  | cons t fs =>
    by_cases ht : key t = k
    · simp only [change, ht, if_true] at h
      exact .inl h
    · simp only [change, ht, if_false] at h
      obtain h | ⟨f, hf, rfl⟩ := mem_change h
      · exact .inl h
      · refine .inr ⟨f, mem_of_innermost hf, ?_, rfl, ?_⟩
        · rw [innermost_of_ne ht]
          exact hf
        · rintro t ⟨⟩
          exact ht

end KeyedStack
