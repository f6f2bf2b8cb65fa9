import BoostAsio.Shutdown

/-!
# The life of a descriptor state

A descriptor state is deleted by `epoll_reactor::shutdown` alone, if it is in
`registered_descriptors_` then. The map is never cleared, so a second shutdown
uses and deletes every entry again (`shutdown_uses`); a state whose number was
registered again is in the map no more and is never deleted. All that was
allocated is deleted once, and not used afterwards, if and only if all of it is
in the map, nothing is pending, nothing registered is queued, and the context
is shut down by its destructor alone (`deletedOnce_iff`).
-/

namespace BoostAsio

open Runs OpQueue

namespace Context

variable {ι : Type} {c c' : Context ι} {d : Nat} {ds : List Nat} {n : Nat}

/-- After `n` calls of `shutdown` and the destructor, which all return, every
state that was allocated is deleted once, and none was used after that. -/
def DeletedOnce (n : Nat) (c : Context ι) : Prop :=
  ∃ c', (c.shutdowns n).bind destructor = some c' ∧ c'.dangling = [] ∧
    ∀ d < c.descriptors.length, c'.deleted.count d = 1

-- ---------------------------------------------------------------------------
-- Use after deletion
-- ---------------------------------------------------------------------------

def Used (c : Context ι) : Prop := c.dangling ≠ []

theorem Used.shutdownDescriptor (h : c.Used) (hd : c.shutdownDescriptor d = some c') : c'.Used := by
  simp only [Context.shutdownDescriptor] at hd
  split at hd
  · cases hd
    simp [Used]
  · simp only [Option.bind_eq_bind, Option.bind_eq_some_iff, Option.some.injEq] at hd
    obtain ⟨x, -, ops, -, rfl⟩ := hd
    exact h

theorem Used.foldlM (h : c.Used) (hd : ds.foldlM Context.shutdownDescriptor c = some c') :
    c'.Used := by
  induction ds generalizing c with
  | nil =>
    obtain rfl : c = c' := Option.some.inj hd
    exact h
  | cons d ds ih =>
    simp only [List.foldlM_cons, Option.bind_eq_bind, Option.bind_eq_some_iff] at hd
    obtain ⟨c₁, hd, hds⟩ := hd
    exact ih (h.shutdownDescriptor hd) hds

theorem Used.shutdown (h : c.Used) (hs : c.shutdown = some c') : c'.Used := by
  rw [shutdown_eq, shutdownReactor_eq] at hs
  obtain ⟨c₁, hfold, rfl⟩ := Option.map_eq_some_iff.mp hs
  have hused : c₁.Used := h.foldlM hfold
  intro hnil
  exact hused (List.append_eq_nil_iff.mp hnil).1

theorem Used.shutdowns (h : c.Used) (hs : c.shutdowns n = some c') : c'.Used := by
  induction n generalizing c with
  | zero =>
    obtain rfl : c = c' := Option.some.inj hs
    exact h
  | succ n ih =>
    simp only [Context.shutdowns, Option.bind_eq_some_iff] at hs
    obtain ⟨c₁, hs, hrest⟩ := hs
    exact ih (h.shutdown hs) hrest

/-- A shutdown over a map whose first entry was deleted before uses it. -/
theorem shutdown_uses (hne : c.registeredStates ≠ [])
    (hdel : ∀ d ∈ c.registeredStates, d ∈ c.deleted) (hs : c.shutdown = some c') : c'.Used := by
  rw [shutdown_eq, shutdownReactor_eq] at hs
  obtain ⟨c₁, hfold, rfl⟩ := Option.map_eq_some_iff.mp hs
  suffices c₁.Used from fun hnil => this (List.append_eq_nil_iff.mp hnil).1
  cases hds : c.registeredStates with
  | nil => exact absurd hds hne
  | cons d ds =>
    rw [hds] at hfold hdel
    simp only [List.foldlM_cons, Option.bind_eq_bind, Option.bind_eq_some_iff] at hfold
    obtain ⟨c₂, hd, hrest⟩ := hfold
    refine Used.foldlM ?_ hrest
    simp only [shutdownDescriptor, if_pos (hdel d List.mem_cons_self), Option.some.injEq] at hd
    subst hd
    simp [Used]

-- ---------------------------------------------------------------------------
-- A context without descriptors
-- ---------------------------------------------------------------------------

/-- Nothing is registered, and nothing was deleted. -/
structure Bare (c : Context ι) : Prop where
  registered : c.registeredStates = []
  deleted : c.deleted = []
  dangling : c.dangling = []

theorem Bare.shutdown (h : c.Bare) : ∃ c', c.shutdown = some c' ∧ c'.Bare := by
  refine ⟨c.shutdownScheduler, ?_, ?_⟩
  · rw [shutdown_eq, shutdownReactor_eq, h.registered]
    rfl
  · refine ⟨h.registered, h.deleted, ?_⟩
    simp [shutdownScheduler, h.dangling, h.deleted]

theorem Bare.shutdowns (h : c.Bare) (n : Nat) : ∃ c', c.shutdowns n = some c' ∧ c'.Bare := by
  induction n generalizing c with
  | zero => exact ⟨c, rfl, h⟩
  | succ n ih =>
    obtain ⟨c₁, hs, h₁⟩ := h.shutdown
    obtain ⟨c', hrest, h'⟩ := ih h₁
    exact ⟨c', by simp [Context.shutdowns, hs, hrest], h'⟩

-- ---------------------------------------------------------------------------
-- Which states are deleted once
-- ---------------------------------------------------------------------------

theorem shutdowns_destructor (n : Nat) (c : Context ι) :
    (c.shutdowns n).bind destructor = (c.shutdowns (n + 1)).map destroy := by
  induction n generalizing c with
  | zero =>
    simp only [shutdowns, Option.bind_some, destructor]
    cases c.shutdown <;> rfl
  | succ n ih =>
    rw [shutdowns, shutdowns, Option.bind_assoc]
    cases c.shutdown with
    | none => rfl
    | some c₁ => exact ih c₁

theorem deletedOnce_iff_shutdowns : DeletedOnce n c ↔
    ∃ c', c.shutdowns (n + 1) = some c' ∧ c'.dangling = [] ∧
      ∀ d < c.descriptors.length, c'.deleted.count d = 1 := by
  rw [DeletedOnce, shutdowns_destructor]
  constructor
  · rintro ⟨_, h, hd⟩
    obtain ⟨c', hs, rfl⟩ := Option.map_eq_some_iff.mp h
    exact ⟨c', hs, hd⟩
  · rintro ⟨c', h, hd⟩
    exact ⟨c'.destroy, by rw [h, Option.map_some], hd⟩

/-- The condition: what was allocated is registered, nothing is pending, nothing
registered is queued, and `shutdown` is not called before the destructor. -/
structure Orderly (n : Nat) (c : Context ι) : Prop extends Settled c where
  registered : ∀ d < c.descriptors.length, ∃ fd : Int, c.registeredDescriptors[fd]? = some d
  once : n = 0 ∨ c.descriptors = []

theorem Registered.bare (h : c.Registered) (hi : c.Intact) (hd : c.descriptors = []) : c.Bare := by
  refine ⟨List.eq_nil_iff_forall_not_mem.mpr fun d hmem => ?_, hi.deleted, hi.dangling⟩
  obtain ⟨fd, hfd⟩ := mem_registeredStates.mp hmem
  have hlt := h.lt fd d hfd
  simp [hd] at hlt

/-- Where a state was deleted once, that was in the first shutdown and there
was no second one. -/
theorem eq_zero_of_deleted (hi : c.Intact) (hr : c.Registered) (hne : c.descriptors ≠ [])
    (hs : c.shutdowns (n + 1) = some c') (hdangling : c'.dangling = [])
    (hdel : ∀ d < c.descriptors.length, c'.deleted.count d = 1) : n = 0 := by
  have hstates : c.registeredStates ≠ [] := by
    intro hnil
    obtain ⟨c₁, hs₁, hbare⟩ := Bare.shutdowns ⟨hnil, hi.deleted, hi.dangling⟩ (n + 1)
    obtain rfl := Option.some.inj (hs.symm.trans hs₁)
    have hzero := hdel 0 (List.length_pos_of_ne_nil hne)
    simp [hbare.deleted] at hzero
  obtain ⟨c₁, hs₁, hrest⟩ := Option.bind_eq_some_iff.mp hs
  have hsd := shutdown_shutDown hi hr hs₁
  have hsame : c₁.registeredStates = c.registeredStates := by
    rw [registeredStates, hsd.registered, registeredStates]
  cases n with
  | zero => rfl
  | succ n =>
    obtain ⟨c₂, hs₂, hrest⟩ := Option.bind_eq_some_iff.mp hrest
    have hused : c₂.Used :=
      shutdown_uses (hsame ▸ hstates) (by simp [hsame, hsd.deleted]) hs₂
    exact absurd hdangling (hused.shutdowns hrest)

theorem DeletedOnce.orderly (hi : c.Intact) (hr : c.Registered) (h : DeletedOnce n c) :
    c.Orderly n := by
  obtain ⟨c', hs, hdangling, hdel⟩ := deletedOnce_iff_shutdowns.mp h
  by_cases hne : c.descriptors = []
  · have hbare := hr.bare hi hne
    refine ⟨⟨by simp [hne], fun fd d hfd => ?_⟩, by simp [hne], .inr hne⟩
    have hmem : d ∈ c.registeredStates := mem_registeredStates.mpr ⟨fd, hfd⟩
    simp [hbare.registered] at hmem
  · obtain rfl : n = 0 := eq_zero_of_deleted hi hr hne hs hdangling hdel
    have hs : c.shutdown = some c' := by simpa [shutdowns] using hs
    have hsd := shutdown_shutDown hi hr hs
    have hmem (d : Nat) (hd : d < c.descriptors.length) : d ∈ c.registeredStates := by
      have hone := hdel d hd
      rw [hsd.deleted] at hone
      exact List.count_pos_iff.mp (by omega)
    refine ⟨⟨fun x hx => ?_, hsd.dangling_eq_nil.mp hdangling⟩,
      fun d hd => mem_registeredStates.mp (hmem d hd), .inl rfl⟩
    obtain ⟨d, hd, rfl⟩ := List.mem_iff_getElem.mp hx
    obtain ⟨y, hy, hpending⟩ := (shutdown_returns hi hr).mp ⟨c', hs⟩ d (hmem d hd)
    rw [List.getElem?_eq_getElem hd] at hy
    exact Option.some.inj hy ▸ hpending

theorem Orderly.deletedOnce (hi : c.Intact) (hr : c.Registered) (h : c.Orderly n) :
    DeletedOnce n c := by
  rw [deletedOnce_iff_shutdowns]
  rcases h.once with rfl | hne
  · obtain ⟨c', hs⟩ := (shutdown_returns hi hr).mpr (h.nothingPending hr)
    have hsd := shutdown_shutDown hi hr hs
    refine ⟨c', by simp [shutdowns, hs], hsd.dangling_eq_nil.mpr h.queued, fun d hd => ?_⟩
    rw [hsd.deleted]
    exact List.count_eq_one_of_mem hr.nodup (mem_registeredStates.mpr (h.registered d hd))
  · obtain ⟨c', hs, hbare⟩ := (hr.bare hi hne).shutdowns (n + 1)
    exact ⟨c', hs, hbare.dangling, by simp [hne]⟩

variable [Fintype ι] [DecidableEq ι]

theorem deletedOnce_iff (hint : Int) (m : Uninitialised) (c : Context ι)
    (h : Reach (next hint) (fun _ _ => True) (new m) c) (n : Nat) : DeletedOnce n c ↔
      (∀ d < c.descriptors.length, ∃ fd : Int, c.registeredDescriptors[fd]? = some d) ∧
        (∀ x ∈ c.descriptors, x.pending = []) ∧
        (∀ (fd : Int) (d : Nat), c.registeredDescriptors[fd]? = some d →
          .descriptorState d ∉ c.opQueue) ∧
        (n = 0 ∨ c.descriptors = []) := by
  have hi := invariant h
  constructor
  · intro hd
    have ho := hd.orderly hi.intact hi.registered
    exact ⟨ho.registered, ho.pending, ho.queued, ho.once⟩
  · rintro ⟨hr, hp, hq, hn⟩
    exact Orderly.deletedOnce hi.intact hi.registered ⟨⟨hp, hq⟩, hr, hn⟩

def registerTwo : List (Fin 3 × Action (Fin 3)) :=
  [(System.first, .user (.registerDescriptor 5 0)), (System.first, .user (.registerDescriptor 6 0)),
    (System.first, .user (.deregisterDescriptor (some 0) true)), (System.first, .call)]

theorem deletedOnce_registerTwo :
    ∃ c : Context (Fin 3), exec (next 0) (new {}) registerTwo = some c ∧
      c.registeredStates = [0, 1] ∧ DeletedOnce 0 c := by
  obtain ⟨c, hc⟩ : ∃ c, exec (next 0) (new {}) registerTwo = some c := ⟨_, rfl⟩
  have hstates : c.registeredStates = [0, 1] ∧ c.descriptors.length = 2 ∧ c.opQueue = [] := by
    cases hc
    decide
  refine ⟨c, hc, hstates.1, (deletedOnce_iff 0 {} c
    (.of_exec registerTwo (allSteps_trivial _ _) hc) 0).mpr ⟨fun d hd => ?_, ?_, ?_, .inl rfl⟩⟩
  · rw [← mem_registeredStates, hstates.1]
    rw [hstates.2.1] at hd
    simp only [List.mem_cons, List.not_mem_nil, or_false]
    omega
  · cases hc
    decide
  · intro fd d _ hq
    simp [hstates.2.2] at hq

/-- A descriptor number is closed and registered again. -/
def reuseNumber : List (Fin 3 × Action (Fin 3)) :=
  [(System.first, .user (.registerDescriptor 5 0)),
    (System.first, .user (.deregisterDescriptor (some 0) true)), (System.first, .call),
    (System.first, .user (.registerDescriptor 5 0))]

/-- The state of the first registration is never deleted. -/
theorem reuseNumber_leaks :
    ¬ ∀ (ls : List (Fin 3 × Action (Fin 3))) (c : Context (Fin 3)) (n : Nat),
      exec (next 0) (new {}) ls = some c → DeletedOnce n c := by
  intro h
  obtain ⟨c', hs, -, hdel⟩ := h reuseNumber _ 0 rfl
  cases hs
  exact absurd (hdel 0 (by decide)) (by decide)

end Context

end BoostAsio
