import BoostAsio.Lib.Loops
import Mathlib.Logic.Relation

/-!
# Simulation of one loop by another

`abs` maps the states of a loop to those of a second one, which is simpler.
Every turn of the first is a turn of the second, or leaves its state as it is
and lowers a measure: it cannot do so for ever. Both loops then pass through
the same states of the second one (`Simulation.reaches_iff`), and are left in
the same ones (`Simulation.ends_iff`).
-/

namespace Loops

variable {σ : Type u} {τ : Type v}

/-- The states that a loop passes through. -/
def Reaches (turn : σ → Option σ) : σ → σ → Prop :=
  Relation.ReflTransGen fun s s' => turn s = some s'

theorem ends_iff_reaches {turn : σ → Option σ} {s t : σ} :
    Ends turn s t ↔ Reaches turn s t ∧ turn t = none := by
  constructor
  · intro h
    induction h with
    | done hn => exact ⟨.refl, hn⟩
    | turn hs _ ih => exact ⟨.head hs ih.1, ih.2⟩
  · rintro ⟨h, hn⟩
    induction h using Relation.ReflTransGen.head_induction_on with
    | refl => exact .done hn
    | head hs _ ih => exact .turn hs ih

structure Simulation (turn : σ → Option σ) (turn' : τ → Option τ) (abs : σ → τ) (I : σ → Prop)
    (measure : σ → Nat) : Prop where
  keeps : ∀ s s', I s → turn s = some s' → I s'
  turns : ∀ s s', I s → turn s = some s' →
    turn' (abs s) = some (abs s') ∨ abs s' = abs s ∧ measure s' < measure s
  ends : ∀ s, I s → turn s = none → turn' (abs s) = none

namespace Simulation

variable {turn : σ → Option σ} {turn' : τ → Option τ} {abs : σ → τ} {I : σ → Prop}
  {measure : σ → Nat} {s t : σ} {a : τ}

theorem reaches (h : Simulation turn turn' abs I measure) (hs : I s) (hr : Reaches turn s t) :
    I t ∧ Reaches turn' (abs s) (abs t) := by
  induction hr with
  | refl => exact ⟨hs, .refl⟩
  | tail _ ht ih =>
    refine ⟨h.keeps _ _ ih.1 ht, ?_⟩
    rcases h.turns _ _ ih.1 ht with hturn | ⟨hsame, -⟩
    · exact ih.2.tail hturn
    · exact hsame ▸ ih.2

/-- A turn of the simpler loop is made after some turns that it does not see. -/
theorem exists_turn (h : Simulation turn turn' abs I measure) (hs : I s)
    (ha : turn' (abs s) = some a) : ∃ t, I t ∧ Reaches turn s t ∧ abs t = a := by
  induction hm : measure s using Nat.strongRecOn generalizing s with
  | ind n ih =>
    cases hn : turn s with
    | none => simp [h.ends s hs hn] at ha
    | some s' =>
      have hs' : I s' := h.keeps s s' hs hn
      rcases h.turns s s' hs hn with hturn | ⟨hsame, hlt⟩
      · rw [hturn] at ha
        exact ⟨s', hs', .single hn, Option.some.inj ha⟩
      · obtain ⟨t, ht, hr, rfl⟩ := ih (measure s') (hm ▸ hlt) hs' (hsame ▸ ha) rfl
        exact ⟨t, ht, .head hn hr, rfl⟩

/-- Where the simpler loop is left, so is the other one. -/
theorem exists_end (h : Simulation turn turn' abs I measure) (hs : I s)
    (ha : turn' (abs s) = none) : ∃ t, Ends turn s t ∧ abs t = abs s := by
  induction hm : measure s using Nat.strongRecOn generalizing s with
  | ind n ih =>
    cases hn : turn s with
    | none => exact ⟨s, .done hn, rfl⟩
    | some s' =>
      rcases h.turns s s' hs hn with hturn | ⟨hsame, hlt⟩
      · simp [ha] at hturn
      · obtain ⟨t, ht, habs⟩ :=
          ih (measure s') (hm ▸ hlt) (h.keeps s s' hs hn) (hsame ▸ ha) rfl
        exact ⟨t, .turn hn ht, habs.trans hsame⟩

theorem reaches_iff (h : Simulation turn turn' abs I measure) (hs : I s) :
    (∃ t, Reaches turn s t ∧ abs t = a) ↔ Reaches turn' (abs s) a := by
  constructor
  · rintro ⟨t, hr, rfl⟩
    exact (h.reaches hs hr).2
  · intro hr
    suffices ∃ t, I t ∧ Reaches turn s t ∧ abs t = a by
      obtain ⟨t, -, ht⟩ := this
      exact ⟨t, ht⟩
    induction hr with
    | refl => exact ⟨s, hs, .refl, rfl⟩
    | tail _ ha ih =>
      obtain ⟨u, hu, hru, rfl⟩ := ih
      obtain ⟨t, ht, hrt, habs⟩ := h.exists_turn hu ha
      exact ⟨t, ht, hru.trans hrt, habs⟩

theorem ends_iff (h : Simulation turn turn' abs I measure) (hs : I s) :
    (∃ t, Ends turn s t ∧ abs t = a) ↔ Ends turn' (abs s) a := by
  constructor
  · rintro ⟨t, ht, rfl⟩
    obtain ⟨hr, hn⟩ := ends_iff_reaches.mp ht
    obtain ⟨hi, hra⟩ := h.reaches hs hr
    exact ends_iff_reaches.mpr ⟨hra, h.ends t hi hn⟩
  · intro ha
    obtain ⟨hra, hn⟩ := ends_iff_reaches.mp ha
    obtain ⟨t, hr, rfl⟩ := (h.reaches_iff hs).mpr hra
    obtain ⟨u, hu, habs⟩ := h.exists_end (h.reaches hs hr).1 hn
    obtain ⟨hru, hnu⟩ := ends_iff_reaches.mp hu
    exact ⟨u, ends_iff_reaches.mpr ⟨hr.trans hru, hnu⟩, habs⟩

end Simulation

end Loops
