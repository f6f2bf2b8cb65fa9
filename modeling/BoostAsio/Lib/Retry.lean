import BoostAsio.Lib.Simulation
import Mathlib.Data.Nat.Find

/-!
# Loops that retry

Turn `i` of the loop asks for answer `i`, and the answer decides whether the
loop goes on. `At i s` says that `s` is a state in which turn `i` begins, and
`Left i t` that `t` is a state in which turn `i` has left the loop.

A loop of this shape retries for as long as its answers do and is left in the
first turn whose answer does not (`ends_iff`, `exists_ends_iff`).
-/

namespace Loops

variable {σ : Type u}

structure Retry (turn : σ → Option σ) (retries : Nat → Prop) (At Left : Nat → σ → Prop) :
    Prop where
  goes : ∀ i s, At i s → retries i → ∃ s', turn s = some s' ∧ At (i + 1) s'
  stops : ∀ i s, At i s → ¬ retries i → ∃ t, turn s = some t ∧ turn t = none ∧ Left i t

namespace Retry

variable {turn : σ → Option σ} {retries : Nat → Prop} {At Left : Nat → σ → Prop} {s t : σ}

/-- Turn `i` begins where every answer before it retries. -/
theorem reaches_at (h : Retry turn retries At Left) (hs : At 0 s) {i : Nat}
    (hi : ∀ j < i, retries j) : ∃ t, Reaches turn s t ∧ At i t := by
  induction i with
  | zero => exact ⟨s, .refl, hs⟩
  | succ i ih =>
    obtain ⟨t, hr, ht⟩ := ih fun j hj => hi j (Nat.lt_succ_of_lt hj)
    obtain ⟨u, hu, hat⟩ := h.goes i t ht (hi i (Nat.lt_succ_self i))
    exact ⟨u, hr.tail hu, hat⟩

/-- Every state of the loop begins a turn or has left it in one. -/
theorem of_reaches (h : Retry turn retries At Left) (hs : At 0 s) (hr : Reaches turn s t) :
    ∃ i, (∀ j < i, retries j) ∧ (At i t ∨ ¬ retries i ∧ turn t = none ∧ Left i t) := by
  induction hr with
  | refl => exact ⟨0, fun j hj => absurd hj (Nat.not_lt_zero j), .inl hs⟩
  | @tail t u _ hu ih =>
    obtain ⟨i, hi, hat | ⟨-, hnone, -⟩⟩ := ih
    · by_cases hgoes : retries i
      · obtain ⟨v, hv, hat'⟩ := h.goes i t hat hgoes
        cases hu.symm.trans hv
        refine ⟨i + 1, fun j hj => ?_, .inl hat'⟩
        rcases Nat.lt_succ_iff_lt_or_eq.mp hj with hj | rfl
        · exact hi j hj
        · exact hgoes
      · obtain ⟨v, hv, hend⟩ := h.stops i t hat hgoes
        cases hu.symm.trans hv
        exact ⟨i, hi, .inr ⟨hgoes, hend⟩⟩
    · rw [hnone] at hu
      cases hu

theorem of_ends (h : Retry turn retries At Left) (hs : At 0 s) (he : Ends turn s t) :
    ∃ i, (∀ j < i, retries j) ∧ ¬ retries i ∧ Left i t := by
  obtain ⟨hr, hnone⟩ := ends_iff_reaches.mp he
  obtain ⟨i, hi, hat | ⟨hstop, -, hleft⟩⟩ := h.of_reaches hs hr
  · -- a state in which a turn begins is not left
    by_cases hgoes : retries i
    · obtain ⟨v, hv, -⟩ := h.goes i t hat hgoes
      cases hnone.symm.trans hv
    · obtain ⟨v, hv, -⟩ := h.stops i t hat hgoes
      cases hnone.symm.trans hv
  · exact ⟨i, hi, hstop, hleft⟩

theorem exists_ends (h : Retry turn retries At Left) (hs : At 0 s) {i : Nat}
    (hi : ∀ j < i, retries j) (hstop : ¬ retries i) : ∃ t, Ends turn s t ∧ Left i t := by
  obtain ⟨u, hr, hu⟩ := h.reaches_at hs hi
  obtain ⟨t, ht, hnone, hleft⟩ := h.stops i u hu hstop
  exact ⟨t, ends_iff_reaches.mpr ⟨hr.tail ht, hnone⟩, hleft⟩

/-- The loop is left if and only if some answer does not retry. -/
theorem exists_ends_iff (h : Retry turn retries At Left) (hs : At 0 s) :
    (∃ t, Ends turn s t) ↔ ∃ i, ¬ retries i := by
  constructor
  · rintro ⟨t, ht⟩
    obtain ⟨i, -, hstop, -⟩ := h.of_ends hs ht
    exact ⟨i, hstop⟩
  · intro hex
    classical
    have hfirst : ∀ j < Nat.find hex, retries j := fun j hj =>
      not_not.mp (Nat.find_min hex hj)
    obtain ⟨t, ht, -⟩ := h.exists_ends hs hfirst (Nat.find_spec hex)
    exact ⟨t, ht⟩

end Retry

end Loops
