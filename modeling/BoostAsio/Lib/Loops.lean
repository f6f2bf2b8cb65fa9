import Mathlib.Init

/-!
# Loops of a computed turn

A `while` loop is the function of its body: the state after one turn, or
`none` where the condition is false. `Ends turn s t` says that the loop, begun
in `s`, is left in `t`.

A loop is left in one state at most (`Ends.unique`), which has the invariant of
the loop and no turn behind it (`Ends.invariant`).
-/

namespace Loops

variable {σ : Type u}

inductive Ends (turn : σ → Option σ) : σ → σ → Prop
  | done {s} : turn s = none → Ends turn s s
  | turn {s s' t} : turn s = some s' → Ends turn s' t → Ends turn s t

variable {turn : σ → Option σ} {I : σ → Prop} {s t : σ}

theorem Ends.unique {t' : σ} (h : Ends turn s t) (h' : Ends turn s t') : t = t' := by
  induction h with
  | done hs =>
    cases h' with
    | done => rfl
    | turn hs' _ => simp [hs] at hs'
  | turn hs _ ih =>
    cases h' with
    | done hs' => simp [hs] at hs'
    | turn hs' h' =>
      simp only [hs, Option.some.injEq] at hs'
      exact ih (hs' ▸ h')

theorem Ends.invariant (h : Ends turn s t) (hs : I s)
    (hkeep : ∀ s s', I s → turn s = some s' → I s') : I t ∧ turn t = none := by
  induction h with
  | done hn => exact ⟨hs, hn⟩
  | turn hn _ ih => exact ih (hkeep _ _ hs hn)

end Loops
