import BoostAsio.Lib.OrderedMap
import BoostAsio.OneInstance

/-!
# The order in which services are torn down

`shutdown_services` and `destroy_services` visit the map in the order of its
keys. Which service a constructor has obtained plays no part in it: a service
is torn down before another if and only if its key is smaller
(`torn_down_by_key`).
-/

namespace BoostAsio

open Runs
open scoped List

variable {ι : Type}

namespace Services

variable {s s' : Services ι} {t t' : Caller} {i : ι}

/-- `shutdown_services`: the objects whose `shutdown()` is called, in order. -/
def shutdownServices (s : Services ι) : List Nat := s.services.toList.map Prod.snd

/-- `destroy_services`: the objects that are deleted, in order, and the registry
after it. -/
def destroyServices (s : Services ι) : List Nat × Services ι :=
  let deleted := s.services.toList.map Prod.snd
  (deleted, { deleted.foldl delete s with services := ∅ })

-- ---------------------------------------------------------------------------
-- Every object has one key
-- ---------------------------------------------------------------------------

def HasKey (s : Services ι) (n : Nat) (k : String) : Prop :=
  ∃ x : Instance ι, s.instances[n]? = some x ∧ x.key = k

theorem HasKey.unique {n : Nat} {k k' : String} (h : s.HasKey n k) (h' : s.HasKey n k') :
    k = k' := by
  obtain ⟨x, hx, rfl⟩ := h
  obtain ⟨y, hy, rfl⟩ := h'
  rw [hx] at hy
  cases hy
  rfl

theorem HasKey.modify {n m : Nat} {k : String} {g : Instance ι → Instance ι}
    (h : s.HasKey n k) (hs : s'.instances = s.instances.modify m g) (hg : ∀ x, (g x).key = x.key) :
    s'.HasKey n k := by
  obtain ⟨x, hx, rfl⟩ := h
  by_cases hm : m = n
  · exact ⟨g x, by simp [hs, hm, hx], hg x⟩
  · exact ⟨x, by simp [hs, hm, hx], rfl⟩

theorem Step.hasKey {a : ServiceAction} {n : Nat} {k : String} (h : Step i s t a s' t')
    (hk : s.HasKey n k) : s'.HasKey n k := by
  cases h with
  | same => exact hk
  | found _ hd =>
    obtain ⟨x, hx, hkey⟩ := hk
    exact ⟨x, hd.instances ▸ hx, hkey⟩
  | start =>
    obtain ⟨x, hx, hkey⟩ := hk
    obtain ⟨hlt, -⟩ := List.getElem?_eq_some_iff.mp hx
    exact ⟨x, by simpa [startNew, List.getElem?_append_left hlt] using hx, hkey⟩
  | constructed => exact hk.modify rfl fun _ => rfl
  | throws => exact hk.modify rfl fun _ => rfl
  | lost _ _ _ hd => exact hk.modify hd.instances fun _ => rfl
  | registers _ _ _ hd => exact hk.modify hd.instances fun _ => rfl

/-- What is registered was registered before, or an object of the call. -/
theorem Step.registered {a : ServiceAction} {n : Nat} {k : String} (h : Step i s t a s' t')
    (hk : s'.services[k]? = some n) :
    s.services[k]? = some n ∨ ∃ f ∈ t.stack, f.key = k ∧ f.self = n := by
  cases h with
  | same | start | constructed | throws => exact .inl hk
  | found _ hd => exact .inl (hd.services ▸ hk)
  | lost _ _ _ hd => exact .inl (hd.services ▸ hk)
  | registers hf hb hnone hd =>
    rename_i stack f
    simp only [hd.services, insert, Std.TreeMap.getElem?_insert, compare_eq_iff_eq] at hk
    split at hk
    · rename_i hkey
      cases hk
      exact .inr ⟨f, by simp [hf], hkey, rfl⟩
    · exact .inl hk

/-- The objects that a thread is making are under their own keys. -/
def MakesKeyed (s : Services ι) (t : Caller) : Prop := ∀ f ∈ t.stack, s.HasKey f.self f.key

theorem Step.makesKeyed {a : ServiceAction} (h : Step i s t a s' t') (ht : s.MakesKeyed t) :
    s'.MakesKeyed t' := by
  intro f hf
  have hold (hmem : f ∈ t.stack) : s'.HasKey f.self f.key := h.hasKey (ht f hmem)
  cases h with
  | same | found => exact hold hf
  | start =>
    rcases List.mem_cons.mp hf with rfl | hf
    · exact ⟨⟨_, false, .held i, 0⟩, by simp [startNew], rfl⟩
    · exact hold hf
  | constructed hstack hb =>
    rename_i stack f'
    rcases List.mem_cons.mp hf with rfl | hf
    · exact (Step.constructed (i := i) hstack hb).hasKey (ht f' (by simp [hstack]))
    · exact hold (by simp [hstack, hf])
  | throws hstack => exact hold (by simp [hstack, hf])
  | lost hstack => exact hold (by simp [hstack, hf])
  | registers hstack => exact hold (by simp [hstack, hf])

end Services

namespace Contexts

variable [DecidableEq ι] {c c' : Contexts ι} {l : ι × ServiceAction}

/-- The registry and the calls have every object under its own key. -/
structure Keyed (c : Contexts ι) : Prop where
  registered : ∀ (k : String) (n : Nat), c.shared.services[k]? = some n → c.shared.HasKey n k
  makes : ∀ i, c.shared.MakesKeyed (c.thread i)

theorem Keyed.next (h : c.Keyed) (hn : c.next l = some c') : c'.Keyed := by
  refine ⟨fun k n hk => ?_, Threads.forall_next (I := fun _ => Services.MakesKeyed) hn ?_ ?_⟩
  · obtain ⟨s, t, hs, rfl⟩ := Threads.next_eq_some.mp hn
    have hstep := Services.step_cases hs
    rcases hstep.registered hk with hk | ⟨f, hf, rfl, rfl⟩
    · exact hstep.hasKey (h.registered k n hk)
    · exact hstep.hasKey (h.makes l.1 f hf)
  · intro s t hs
    exact (Services.step_cases hs).makesKeyed (h.makes l.1)
  · intro s t hs j _ f hf
    exact (Services.step_cases hs).hasKey (h.makes j f hf)

omit [DecidableEq ι] in
theorem Keyed.new (kind : ContextKind) : (Contexts.new kind : Contexts ι).Keyed := by
  refine ⟨fun k n hk => ?_, fun i f hf => by cases hf⟩
  have hinv := (Invariant.new kind : (Contexts.new kind : Contexts ι).Invariant)
  obtain ⟨x, hx, hkey, -⟩ := (hinv.coherent.registered k n).mp hk
  exact ⟨x, hx, hkey⟩

end Contexts

-- ---------------------------------------------------------------------------
-- The order of the keys
-- ---------------------------------------------------------------------------

namespace Services

variable {s : Services ι}

theorem mem_shutdownServices {n : Nat} :
    n ∈ s.shutdownServices ↔ ∃ k : String, s.services[k]? = some n :=
  OrderedMap.mem_values

theorem eq_of_registered
    (hs : ∀ (k : String) (n : Nat), s.services[k]? = some n → s.HasKey n k)
    (k k' : String) (n : Nat) (hk : s.services[k]? = some n) (hk' : s.services[k']? = some n) :
    k = k' :=
  (hs k n hk).unique (hs k' n hk')

theorem sublist_shutdownServices
    (hs : ∀ (k : String) (n : Nat), s.services[k]? = some n → s.HasKey n k)
    {k k' : String} {m n : Nat} (hm : s.services[k]? = some m) (hn : s.services[k']? = some n) :
    [m, n] <+ s.shutdownServices ↔ k < k' :=
  (OrderedMap.sublist_values (eq_of_registered hs) hm hn).trans compare_lt_iff_lt

end Services

namespace Contexts

variable [DecidableEq ι] {c : Contexts ι}

/-- A service is torn down before every service that its constructor has
obtained. -/
def TornDownFirst (c : Contexts ι) : Prop :=
  ∀ m (k : String) n, (m, k, n) ∈ c.shared.obtained →
    (∃ k' : String, c.shared.services[k']? = some m) →
    [m, n] <+ c.shared.shutdownServices ∧ [m, n] <+ c.shared.destroyServices.1

/-- The order in which the objects of a registry are torn down. -/
structure ByKey (s : Services ι) (order : List Nat) : Prop where
  mem : ∀ n, n ∈ order ↔ ∃ k : String, s.services[k]? = some n
  nodup : order.Nodup
  before : ∀ (k k' : String) (m n : Nat), s.services[k]? = some m → s.services[k']? = some n →
    ([m, n] <+ order ↔ k < k')
  reactor : ∀ m n, s.services[reactorKey]? = some m → s.services[schedulerKey]? = some n →
    [m, n] <+ order

theorem torn_down_by_key (kind : ContextKind) (c : Contexts ι)
    (h : Reach next (fun _ _ => True) (new kind) c) :
    ByKey c.shared c.shared.shutdownServices ∧ ByKey c.shared c.shared.destroyServices.1 := by
  have hk : c.Keyed := h.invariant (.new kind) fun _ _ _ _ hi _ hn => hi.next hn
  have hby : ByKey c.shared c.shared.shutdownServices := by
    have hbefore (k k' : String) (m n : Nat) (hm : c.shared.services[k]? = some m)
        (hn : c.shared.services[k']? = some n) :=
      Services.sublist_shutdownServices hk.registered hm hn
    exact ⟨fun n => Services.mem_shutdownServices,
      OrderedMap.nodup_values (Services.eq_of_registered hk.registered), hbefore,
      fun m n hm hn => (hbefore _ _ m n hm hn).mpr (by decide)⟩
  exact ⟨hby, hby⟩

/-- Constructing the service `b` constructs the reactor, which obtains the
scheduler, and then `a`, which `b` depends on. -/
def useServices : List (Nat × ServiceAction) :=
  [(0, .useService "b" false), (0, .useService reactorKey false),
    (0, .useService schedulerKey false), (0, .constructed), (0, .finish), (0, .constructed),
    (0, .finish), (0, .useService "a" false), (0, .constructed), (0, .finish), (0, .constructed),
    (0, .finish)]

theorem torn_down_by_key_useServices :
    ∃ c : Contexts Nat, exec next (new .executionContext) useServices = some c ∧
      c.shared.obtained = [(1, schedulerKey, 2), (0, reactorKey, 1), (0, "a", 3)] ∧
      c.shared.shutdownServices = [1, 2, 3, 0] ∧
      ByKey c.shared c.shared.shutdownServices :=
  ⟨_, rfl, by decide, by decide, (torn_down_by_key .executionContext _
    (.of_exec useServices (allSteps_trivial _ _) rfl)).1⟩

/-- The service that `b` depends on is shut down first. -/
theorem dependency_torn_down_first :
    ¬ ∀ ls : List (Nat × ServiceAction),
      AllStates next TornDownFirst (new .executionContext) ls := by
  intro h
  have hlast : TornDownFirst _ := (h useServices).of_exec rfl
  have hsub := (hlast 0 "a" 3 (by decide) ⟨"b", by decide⟩).1
  revert hsub
  decide

end Contexts

end BoostAsio
