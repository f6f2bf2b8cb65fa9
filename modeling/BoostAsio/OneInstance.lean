import BoostAsio.Services

/-!
# One object for each service

Whatever the threads do, the calls for one key that have returned have returned
one object, which stays in the registry; every other object that was made for
the key is held by the call that makes it, or was deleted once and never
returned (`one_instance`). The proof keeps, for every object, who is to delete
it: `Coherent` says so of the registry and `Holds` of the calls of a thread.
-/

namespace BoostAsio

open Runs

variable {ι : Type}

/-- An object is deleted once, when it is given up, and not before. -/
inductive Instance.Accounted : Instance ι → Prop
  | kept {x} : x.fate ≠ .gone → x.deletes = 0 → Accounted x
  | deleted {x} : x.fate = .gone → x.constructed = true → x.deletes = 1 → Accounted x
  | threw {x} : x.fate = .gone → x.constructed = false → x.deletes = 0 → Accounted x

namespace Services

-- ---------------------------------------------------------------------------
-- Steps
-- ---------------------------------------------------------------------------

/-- A call has returned `j`, to a constructor or not. -/
def Delivers (key : String) (j : Nat) (s s' : Services ι) : Prop :=
  ∃ o, s' = { s with returned := s.returned ++ [(key, j)], obtained := s.obtained ++ o } ∧
    ∀ p ∈ o, p.2 = (key, j)

theorem delivers_deliver (s : Services ι) (t : Caller) (key : String) (j : Nat) :
    Delivers key j s (s.deliver t key j).1 := by
  refine ⟨_, rfl, fun p hp => ?_⟩
  simp only [Option.mem_toList, Option.map_eq_some_iff] at hp
  obtain ⟨f, -, rfl⟩ := hp
  rfl

inductive Step (i : ι) (s : Services ι) (t : Caller) :
    ServiceAction → Services ι → Caller → Prop
  | same : Step i s t (.hasService key) s t
  | found {s'} : s.services[key]? = some j ∨ s.impl = some j ∧ key = schedulerKey →
      Delivers key j s s' → Step i s t (.useService key ioc) s' t
  | start : Step i s t a (s.startNew t i key maker).1 (s.startNew t i key maker).2
  | constructed {f : Making} : t.stack = f :: stack → f.built = false →
      Step i s t .constructed
        { s with instances := s.instances.modify f.self fun x => { x with constructed := true } }
        ⟨{ f with built := true } :: stack⟩
  | throws {f : Making} : t.stack = f :: stack → f.built = false →
      Step i s t .throws (s.setFate f.self .gone) ⟨stack⟩
  | lost {f : Making} {s'} : t.stack = f :: stack → f.built = true →
      s.services[f.key]? = some j → Delivers f.key j (s.delete f.self) s' →
      Step i s t .finish s' ⟨stack⟩
  | registers {f : Making} {s'} : t.stack = f :: stack → f.built = true →
      (f.maker = .useService → s.services[f.key]? = none) →
      Delivers f.key f.self (s.insert f.key f.self) s' → Step i s t .finish s' ⟨stack⟩

variable {s s' : Services ι} {t t' : Caller} {i : ι}

theorem useService_step (s : Services ι) (t : Caller) (i : ι) (key : String) (ioc : Bool) :
    Step i s t (.useService key ioc) (s.useService t i key).1 (s.useService t i key).2 := by
  simp only [useService]
  split
  · rename_i found hf
    exact .found (.inl hf) (delivers_deliver s t key found)
  · exact .start

theorem step_cases {a : ServiceAction} (h : step i a s t = some (s', t')) : Step i s t a s' t' := by
  cases a with
  | useService key ioc =>
    cases ioc with
    | false =>
      simp only [step, Option.ite_none_right_eq_some, Option.some.injEq] at h
      have hstep := useService_step s t i key false
      rw [h.2] at hstep
      exact hstep
    | true =>
      simp only [step, Option.ite_none_right_eq_some, useServiceIoContext,
        Option.map_eq_some_iff] at h
      obtain ⟨-, impl, himpl, h⟩ := h
      split at h
      · rename_i hk
        cases h
        exact .found (.inr ⟨himpl, hk⟩) (delivers_deliver s t key impl)
      · have hstep := useService_step s t i key true
        rw [h] at hstep
        exact hstep
  | hasService key =>
    simp only [step, Option.ite_none_right_eq_some, Option.some.injEq, Prod.mk.injEq] at h
    obtain ⟨-, rfl, rfl⟩ := h
    exact .same
  | newService key =>
    simp only [step, Option.ite_none_right_eq_some, Option.some.injEq] at h
    obtain ⟨-, h⟩ := h
    cases h
    exact .start
  | constructed =>
    simp only [step] at h
    split at h
    · rename_i hstack
      cases h
      exact .constructed hstack rfl
    · cases h
  | throws =>
    simp only [step] at h
    split at h
    · rename_i hstack
      cases h
      exact .throws hstack rfl
    · cases h
  | finish =>
    simp only [step] at h
    split at h
    · rename_i hstack
      split at h
      · rename_i found hf
        cases h
        exact .lost hstack rfl hf (delivers_deliver _ _ _ _)
      · rename_i hf
        cases h
        exact .registers hstack rfl (fun _ => hf) (delivers_deliver _ _ _ _)
    · rename_i hstack
      cases h
      exact .registers hstack rfl (by simp) ⟨[], by simp⟩
    · cases h

-- ---------------------------------------------------------------------------
-- The registry
-- ---------------------------------------------------------------------------

structure Coherent (s : Services ι) : Prop where
  registered : ∀ k n, s.services[k]? = some n ↔
    ∃ x : Instance ι, s.instances[n]? = some x ∧ x.key = k ∧ x.fate = .registered
  accounted : ∀ (n : Nat) (x : Instance ι), s.instances[n]? = some x → x.Accounted
  returned : ∀ k n, (k, n) ∈ s.returned → s.services[k]? = some n
  obtained : ∀ m k n, (m, k, n) ∈ s.obtained → s.services[k]? = some n
  impl : ∀ n, s.impl = some n → s.services[schedulerKey]? = some n

variable {n : Nat} {x : Instance ι} {key : String} {g : Instance ι → Instance ι}

/-- Past the end of a list to which an element was added. -/
theorem getElem?_concat_of_lt {α : Type} {l : List α} {m : Nat} (h : l.length < m) (x : α) :
    (l ++ [x])[m]? = none := by
  refine List.getElem?_eq_none ?_
  rw [List.length_append, List.length_singleton]
  exact h

theorem instances_modify (hx : s.instances[n]? = some x) (m : Nat) :
    (s.instances.modify n g)[m]? = if n = m then some (g x) else s.instances[m]? := by
  by_cases h : n = m
  · subst h
    simp [hx]
  · simp [h]

/-- A call gives up an object, or its constructor has returned. -/
theorem Coherent.modify (h : s.Coherent) (hx : s.instances[n]? = some x)
    (hr : x.fate ≠ .registered) (hr' : (g x).fate ≠ .registered) (ha : (g x).Accounted) :
    Coherent { s with instances := s.instances.modify n g } where
  registered k m := by
    simp only [instances_modify hx, h.registered]
    by_cases hm : n = m
    · subst hm
      simp [hx, hr, hr']
    · simp [hm]
  accounted m y hy := by
    simp only [instances_modify hx] at hy
    split at hy
    · cases hy
      exact ha
    · exact h.accounted m y hy
  returned := h.returned
  obtained := h.obtained
  impl := h.impl

theorem Coherent.startNew (h : s.Coherent) (maker : Maker) :
    Coherent (s.startNew t i key maker).1 where
  registered k m := by
    simp only [Services.startNew, h.registered]
    rcases Nat.lt_trichotomy m s.instances.length with hm | rfl | hm
    · simp [List.getElem?_append_left hm]
    · simp
    · rw [getElem?_concat_of_lt hm, List.getElem?_eq_none (Nat.le_of_lt hm)]
  accounted m y hy := by
    simp only [Services.startNew, List.getElem?_append] at hy
    split at hy
    · exact h.accounted m y hy
    · simp only [List.getElem?_singleton] at hy
      split at hy <;> cases hy
      exact .kept (by simp) rfl
  returned := h.returned
  obtained := h.obtained
  impl := h.impl

theorem insert_services {n m : Nat} {key k : String} (hnone : s.services[key]? = none)
    (hm : s.services[k]? = some m) : (s.insert key n).services[k]? = some m := by
  have hne : key ≠ k := by
    rintro rfl
    simp [hnone] at hm
  simp [insert, Std.TreeMap.getElem?_insert, hne, hm]

theorem Coherent.insert (h : s.Coherent) (hx : s.instances[n]? = some x) (hkey : x.key = key)
    (hfate : x.fate = .held i) (hd : x.deletes = 0) (hnone : s.services[key]? = none) :
    Coherent (s.insert key n) := by
  refine ⟨fun k m => ?_, fun m y hy => ?_, fun k m hm => insert_services hnone (h.returned k m hm),
    fun o k m hm => insert_services hnone (h.obtained o k m hm),
    fun m hm => insert_services hnone (h.impl m hm)⟩
  · simp only [Services.insert, Services.setFate, Std.TreeMap.getElem?_insert, compare_eq_iff_eq,
      instances_modify hx]
    by_cases hk : key = k
    · subst hk
      have hno := (h.registered key m).not.mp (by simp [hnone])
      by_cases hm : n = m
      · simp [hm, hkey]
      · simp [hm, hno]
    · by_cases hm : n = m
      · subst hm
        have hno := (h.registered k n).not.mpr (by simp [hx, hfate])
        simp [hk, hkey, hno]
      · simp [hk, hm, h.registered]
  · simp only [Services.insert, Services.setFate, instances_modify hx] at hy
    split at hy
    · cases hy
      exact .kept (by simp) hd
    · exact h.accounted m y hy

theorem Coherent.delivers {j : Nat} (h : s.Coherent) (hj : s.services[key]? = some j)
    (hs : Delivers key j s s') : s'.Coherent := by
  obtain ⟨o, rfl, ho⟩ := hs
  refine ⟨h.registered, h.accounted, fun k n hn => ?_, fun m k n hn => ?_, h.impl⟩
  · rcases List.mem_append.mp hn with hn | hn
    · exact h.returned k n hn
    · cases List.mem_singleton.mp hn
      exact hj
  · rcases List.mem_append.mp hn with hn | hn
    · exact h.obtained m k n hn
    · cases ho _ hn
      exact hj

-- ---------------------------------------------------------------------------
-- The calls of a thread
-- ---------------------------------------------------------------------------

/-- The objects of the calls that thread `i` is in. -/
structure Holds (i : ι) (s : Services ι) (t : Caller) : Prop where
  nodup : (t.stack.map Making.self).Nodup
  held : ∀ f ∈ t.stack, s.instances[f.self]? = some ⟨f.key, f.built, .held i, 0⟩
  known : ∀ (n : Nat) (x : Instance ι), s.instances[n]? = some x → x.fate = .held i →
    ∃ f ∈ t.stack, f.self = n

theorem Holds.top {f : Making} {stack : List Making} (h : Holds i s t) (hf : t.stack = f :: stack) :
    s.instances[f.self]? = some ⟨f.key, f.built, .held i, 0⟩ :=
  h.held f (by simp [hf])

/-- `add_service` is called for a key that is not there. -/
def AddsAbsent (s : Services ι) (t : Caller) (a : ServiceAction) : Prop :=
  a = .finish → ∀ f ∈ t.stack.head?, f.maker = .addService → s.services[f.key]? = none

theorem AddsAbsent.absent {f : Making} {stack : List Making} (h : AddsAbsent s t .finish)
    (hf : t.stack = f :: stack) (hnone : f.maker = .useService → s.services[f.key]? = none) :
    s.services[f.key]? = none := by
  cases hm : f.maker with
  | useService => exact hnone hm
  | addService => exact h rfl f (by simp [hf]) hm

theorem Step.coherent {a : ServiceAction} (h : Step i s t a s' t') (hs : s.Coherent)
    (ht : Holds i s t) (hok : AddsAbsent s t a) : s'.Coherent := by
  cases h with
  | same => exact hs
  | found hj hd =>
    rcases hj with hj | ⟨hj, rfl⟩
    · exact hs.delivers hj hd
    · exact hs.delivers (hs.impl _ hj) hd
  | start => exact hs.startNew _
  | constructed hf hb => exact hs.modify (ht.top hf) (by simp) (by simp) (.kept (by simp) rfl)
  | throws hf hb => exact hs.modify (ht.top hf) (by simp) (by simp) (.threw rfl hb rfl)
  | lost hf hb hj hd =>
    exact (hs.modify (ht.top hf) (by simp) (by simp) (.deleted rfl hb rfl)).delivers hj hd
  | registers hf hb hnone hd =>
    have hnone := hok.absent hf hnone
    exact (hs.insert (ht.top hf) rfl rfl rfl hnone).delivers (by simp [insert]) hd

theorem Delivers.services {j : Nat} (h : Delivers key j s s') : s'.services = s.services := by
  obtain ⟨o, rfl, -⟩ := h
  rfl

/-- A registered object stays registered. -/
theorem Step.services {a : ServiceAction} {m : Nat} (h : Step i s t a s' t')
    (hok : AddsAbsent s t a) {k : String} (hm : s.services[k]? = some m) :
    s'.services[k]? = some m := by
  cases h with
  | same | start | constructed | throws => exact hm
  | found _ hd => exact hd.services ▸ hm
  | lost _ _ _ hd => exact hd.services ▸ hm
  | registers hf _ hnone hd => exact hd.services ▸ insert_services (hok.absent hf hnone) hm

/-- What a step of thread `i` does to the objects. -/
inductive Changes (i : ι) (s s' : Services ι) : Prop
  | same : s'.instances = s.instances → Changes i s s'
  | append {x : Instance ι} : s'.instances = s.instances ++ [x] → x.fate = .held i → Changes i s s'
  | modify {n : Nat} {x : Instance ι} {g : Instance ι → Instance ι} :
      s.instances[n]? = some x → x.fate = .held i → s'.instances = s.instances.modify n g →
      (∀ j, (g x).fate = .held j → j = i) → Changes i s s'

theorem Delivers.instances {j : Nat} (h : Delivers key j s s') : s'.instances = s.instances := by
  obtain ⟨o, rfl, -⟩ := h
  rfl

theorem Step.changes {a : ServiceAction} (h : Step i s t a s' t') (ht : Holds i s t) :
    Changes i s s' := by
  cases h with
  | same => exact .same rfl
  | found _ hd => exact .same hd.instances
  | start => exact .append rfl rfl
  | constructed hf _ =>
    refine .modify (ht.top hf) rfl rfl fun j hj => ?_
    cases hj
    rfl
  | throws hf _ =>
    refine .modify (ht.top hf) rfl rfl fun j hj => ?_
    cases hj
  | lost hf _ _ hd =>
    refine .modify (ht.top hf) rfl hd.instances fun j hj => ?_
    cases hj
  | registers hf _ _ hd =>
    refine .modify (ht.top hf) rfl hd.instances fun j hj => ?_
    cases hj

/-- The objects of another thread are left alone. -/
theorem Changes.other (h : Changes i s s') {j : ι} (hj : j ≠ i) {m : Nat} {y : Instance ι}
    (hy : y.fate = .held j) : s'.instances[m]? = some y ↔ s.instances[m]? = some y := by
  cases h with
  | same h => rw [h]
  | @append x h hx =>
    have hne : x ≠ y := by
      rintro rfl
      rw [hx] at hy
      cases hy
      exact hj rfl
    rw [h]
    rcases Nat.lt_trichotomy m s.instances.length with hm | rfl | hm
    · rw [List.getElem?_append_left hm]
    · simp [hne]
    · rw [getElem?_concat_of_lt hm, List.getElem?_eq_none (Nat.le_of_lt hm)]
  | modify hn hx h hg =>
    rw [h, instances_modify hn]
    split
    · rename_i hm
      subst hm
      rw [hn]
      constructor
      · rintro ⟨⟩
        exact absurd (hg j hy) hj
      · rintro ⟨⟩
        rw [hx] at hy
        cases hy
        exact absurd rfl hj
    · rfl

theorem Holds.other (h : Holds j s t) (hc : Changes i s s') (hj : j ≠ i) : Holds j s' t where
  nodup := h.nodup
  held f hf := (hc.other hj rfl).mpr (h.held f hf)
  known n x hx hfate := h.known n x ((hc.other hj hfate).mp hx) hfate

theorem Holds.same (h : Holds i s t) (hs : s'.instances = s.instances) : Holds i s' t :=
  ⟨h.nodup, hs ▸ h.held, hs ▸ h.known⟩

theorem Holds.startNew (h : Holds i s t) (maker : Maker) :
    Holds i (s.startNew t i key maker).1 (s.startNew t i key maker).2 where
  nodup := by
    simp only [Services.startNew, List.map_cons, List.nodup_cons]
    refine ⟨fun hmem => ?_, h.nodup⟩
    obtain ⟨f, hf, hself⟩ := List.mem_map.mp hmem
    have hx := h.held f hf
    simp [hself] at hx
  held f hf := by
    simp only [Services.startNew, List.mem_cons] at hf ⊢
    rcases hf with rfl | hf
    · simp
    · obtain ⟨hlt, -⟩ := List.getElem?_eq_some_iff.mp (h.held f hf)
      rw [List.getElem?_append_left hlt]
      exact h.held f hf
  known n x hx hfate := by
    simp only [Services.startNew, List.getElem?_append, List.mem_cons] at hx ⊢
    split at hx
    · obtain ⟨f, hf, hself⟩ := h.known n x hx hfate
      exact ⟨f, .inr hf, hself⟩
    · rename_i hn
      simp only [List.getElem?_singleton] at hx
      split at hx <;> cases hx
      exact ⟨_, .inl rfl, by simp; omega⟩

theorem Holds.ne_of_stack {f f' : Making} {stack : List Making} (h : Holds i s t)
    (hf : t.stack = f :: stack) (hf' : f' ∈ stack) : f.self ≠ f'.self := by
  have hn := h.nodup
  simp only [hf, List.map_cons, List.nodup_cons, List.mem_map] at hn
  exact fun he => hn.1 ⟨f', hf', he.symm⟩

theorem Holds.built {f : Making} {stack : List Making} (h : Holds i s t)
    (hf : t.stack = f :: stack) :
    Holds i { s with instances :=
        s.instances.modify f.self fun x => { x with constructed := true } }
      ⟨{ f with built := true } :: stack⟩ where
  nodup := by simpa [hf] using h.nodup
  held f' hf' := by
    simp only [instances_modify (h.top hf)]
    rcases List.mem_cons.mp hf' with rfl | hf'
    · simp
    · simpa [h.ne_of_stack hf hf'] using h.held f' (by simp [hf, hf'])
  known n x hx hfate := by
    simp only [instances_modify (h.top hf)] at hx
    split at hx
    · rename_i hn
      exact ⟨_, List.mem_cons_self, hn⟩
    · rename_i hn
      obtain ⟨f', hf', hself⟩ := h.known n x hx hfate
      rw [hf] at hf'
      rcases List.mem_cons.mp hf' with rfl | hf'
      · exact absurd hself hn
      · exact ⟨f', List.mem_cons_of_mem _ hf', hself⟩

theorem Holds.pop {f : Making} {stack : List Making} (h : Holds i s t) (hf : t.stack = f :: stack)
    (hs : s'.instances = s.instances.modify f.self g) (hg : ∀ x, (g x).fate ≠ .held i) :
    Holds i s' ⟨stack⟩ where
  nodup := by
    have hn := h.nodup
    simp only [hf, List.map_cons, List.nodup_cons] at hn
    exact hn.2
  held f' hf' := by
    simp only [hs, instances_modify (h.top hf), h.ne_of_stack hf hf', if_false]
    exact h.held f' (by simp [hf, hf'])
  known n x hx hfate := by
    simp only [hs, instances_modify (h.top hf)] at hx
    split at hx
    · cases hx
      exact absurd hfate (hg _)
    · rename_i hn
      obtain ⟨f', hf', hself⟩ := h.known n x hx hfate
      rw [hf] at hf'
      rcases List.mem_cons.mp hf' with rfl | hf'
      · exact absurd hself hn
      · exact ⟨f', hf', hself⟩

theorem Step.holds {a : ServiceAction} (h : Step i s t a s' t') (ht : Holds i s t) :
    Holds i s' t' := by
  cases h with
  | same => exact ht
  | found _ hd => exact ht.same hd.instances
  | start => exact ht.startNew _
  | constructed hf _ => exact ht.built hf
  | throws hf _ => exact ht.pop hf rfl (by simp)
  | lost hf _ _ hd => exact ht.pop hf hd.instances (by simp)
  | registers hf _ _ hd => exact ht.pop hf hd.instances (by simp)

end Services

-- ---------------------------------------------------------------------------
-- Runs
-- ---------------------------------------------------------------------------

namespace Contexts

variable [DecidableEq ι] {c c' : Contexts ι} {l : ι × ServiceAction}

/-- `add_service` is called for a key that is not there. -/
def AddsAbsent (c : Contexts ι) (l : ι × ServiceAction) : Prop :=
  Services.AddsAbsent c.shared (c.thread l.1) l.2

structure Invariant (c : Contexts ι) : Prop where
  coherent : c.shared.Coherent
  holds : ∀ i, Services.Holds i c.shared (c.thread i)

theorem Invariant.next (h : c.Invariant) (hok : c.AddsAbsent l) (hn : c.next l = some c') :
    c'.Invariant := by
  refine ⟨?_, Threads.forall_next hn ?_ ?_⟩
  · obtain ⟨s, t, hs, rfl⟩ := Threads.next_eq_some.mp hn
    exact (Services.step_cases hs).coherent h.coherent (h.holds l.1) hok
  · intro s t hs
    exact (Services.step_cases hs).holds (h.holds l.1)
  · intro s t hs j hj
    exact (h.holds j).other ((Services.step_cases hs).changes (h.holds l.1)) hj

omit [DecidableEq ι] in
theorem Invariant.new (kind : ContextKind) : (new kind : Contexts ι).Invariant := by
  cases kind with
  | executionContext =>
    refine ⟨⟨?_, ?_, ?_, ?_, ?_⟩, fun i => ⟨?_, ?_, ?_⟩⟩ <;> simp [Contexts.new, Services.new]
  | ioContext =>
    have hservices (k : String) : (Contexts.new .ioContext : Contexts ι).shared.services[k]? =
        if schedulerKey = k then some 0 else none := by
      simp [Contexts.new, Services.new, Services.addImpl, Services.insert,
        Std.TreeMap.getElem?_insert]
    have hinstances (n : Nat) : (Contexts.new .ioContext : Contexts ι).shared.instances[n]? =
        if n = 0 then some ⟨schedulerKey, true, .registered, 0⟩ else none := by
      cases n <;> rfl
    refine ⟨⟨fun k n => ?_, fun n x hx => ?_, ?_, ?_, ?_⟩,
      fun i => ⟨?_, ?_, fun n x hx hfate => ?_⟩⟩
    · simp only [hservices, hinstances]
      by_cases hn : n = 0
      · simp [hn, eq_comm]
      · simp [hn, Ne.symm hn]
    · simp only [hinstances] at hx
      split at hx <;> cases hx
      exact .kept (by simp) rfl
    · intro k n hn
      cases hn
    · intro m k n hn
      cases hn
    · rintro n ⟨⟩
      simp [hservices]
    · exact List.nodup_nil
    · intro f hf
      cases hf
    · simp only [hinstances] at hx
      split at hx <;> cases hx
      cases hfate

theorem registered_stays (h : Reach next AddsAbsent c c') {k : String} {n : Nat}
    (hn : c.shared.services[k]? = some n) : c'.shared.services[k]? = some n := by
  induction h with
  | start => exact hn
  | step _ hok hstep ih =>
    obtain ⟨s, t, hs, rfl⟩ := Threads.next_eq_some.mp hstep
    exact (Services.step_cases hs).services hok ih

/-- What the calls that have returned say, and what became of the objects. -/
structure OneInstance (c : Contexts ι) : Prop where
  /-- Calls for one key return one object, which is registered. -/
  same : ∀ k m n, (k, m) ∈ c.shared.returned → (k, n) ∈ c.shared.returned → m = n
  registered : ∀ k n, (k, n) ∈ c.shared.returned → c.shared.services[k]? = some n
  /-- No call returns another object; it is deleted once, or a call still has it. -/
  others : ∀ (n : Nat) (x : Instance ι), c.shared.instances[n]? = some x → x.constructed = true →
    c.shared.services[x.key]? ≠ some n → (∀ k, (k, n) ∉ c.shared.returned) ∧
      (x.deletes = 1 ∨ x.deletes = 0 ∧ ∃ i, ∃ f ∈ (c.thread i).stack, f.self = n)
  /-- Calls for the scheduler of an `io_context` return its `impl_`. -/
  impl : ∀ n, c.shared.impl = some n → ∀ m, (schedulerKey, m) ∈ c.shared.returned → m = n

omit [DecidableEq ι] in
theorem Invariant.oneInstance (h : c.Invariant) : OneInstance c := by
  have hsame (k : String) (m n : Nat) (hm : c.shared.services[k]? = some m)
      (hn : c.shared.services[k]? = some n) : m = n := by
    rw [hm] at hn
    exact Option.some.inj hn
  refine ⟨fun k m n hm hn => ?_, h.coherent.returned, fun n x hx hcon hne => ⟨fun k hk => ?_, ?_⟩,
    fun n hn m hm => ?_⟩
  · exact hsame k m n (h.coherent.returned k m hm) (h.coherent.returned k n hn)
  · obtain ⟨y, hy, rfl, hfate⟩ := (h.coherent.registered k n).mp (h.coherent.returned k n hk)
    rw [hx] at hy
    cases hy
    exact hne ((h.coherent.registered _ n).mpr ⟨x, hx, rfl, hfate⟩)
  · cases h.coherent.accounted n x hx with
    | kept hfate hd =>
      refine .inr ⟨hd, ?_⟩
      cases hf : x.fate with
      | held i => exact ⟨i, (h.holds i).known n x hx hf⟩
      | registered => exact absurd ((h.coherent.registered _ n).mpr ⟨x, hx, rfl, hf⟩) hne
      | gone => exact absurd hf hfate
    | deleted _ _ hd => exact .inl hd
    | threw _ hthrew _ =>
      rw [hcon] at hthrew
      cases hthrew
  · exact hsame _ m n (h.coherent.returned _ m hm) (h.coherent.impl n hn)

theorem one_instance (kind : ContextKind) (c : Contexts ι)
    (h : Reach next AddsAbsent (new kind) c) :
    OneInstance c ∧ ∀ c', Reach next AddsAbsent c c' → ∀ (k : String) (n : Nat),
      c.shared.services[k]? = some n → c'.shared.services[k]? = some n := by
  have hi : c.Invariant := h.invariant (.new kind) fun _ _ _ _ hi hok hn => hi.next hok hn
  exact ⟨hi.oneInstance, fun c' h' k n => registered_stays h'⟩

/-- Two threads find no service and construct one each; then both ask for the
scheduler of the context. -/
def race : List (Nat × ServiceAction) :=
  [(0, .useService "s" true), (1, .useService "s" false), (1, .constructed), (0, .constructed),
    (1, .finish), (0, .finish), (0, .useService schedulerKey true),
    (1, .useService schedulerKey false)]

theorem one_instance_race :
    ∃ c : Contexts Nat, exec next (new .ioContext) race = some c ∧
      c.shared.returned = [("s", 2), ("s", 2), (schedulerKey, 0), (schedulerKey, 0)] ∧
      c.shared.instances.map Instance.deletes = [0, 1, 0] ∧ OneInstance c := by
  refine ⟨_, rfl, by decide, by decide, (one_instance .ioContext _ (.of_exec race ?_ rfl)).1⟩
  have other {c : Contexts Nat} {l} (h : l.2 ≠ .finish) : AddsAbsent c l := fun hl => absurd hl h
  refine ⟨other (by simp), other (by simp), other (by simp), other (by simp), ?_, ?_,
    other (by simp), other (by simp), trivial⟩
  · rintro - f ⟨⟩ ⟨⟩
  · rintro - f ⟨⟩ ⟨⟩

end Contexts

end BoostAsio
