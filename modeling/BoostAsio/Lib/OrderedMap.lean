import Mathlib.Data.List.Sublists

/-!
# The values of an ordered map

A loop over an ordered map meets its values in the order of their keys. If no
two keys have the same value it meets each value once (`nodup_values`), and one
value before another if and only if its key is smaller (`sublist_values`).
-/

namespace OrderedMap

open scoped List

/-- In an ordered list, one element stands before another if it is smaller. -/
theorem pair_sublist {α : Type*} {r : α → α → Prop} {l : List α} (hl : l.Pairwise r)
    (hasymm : ∀ a b, r a b → ¬ r b a) {a b : α} (ha : a ∈ l) (hb : b ∈ l) (hr : r a b) :
    [a, b] <+ l := by
  induction hl with
  | nil => cases ha
  | @cons x l hx _ ih =>
    rcases List.mem_cons.mp ha with rfl | ha
    · rcases List.mem_cons.mp hb with rfl | hb
      · exact absurd hr (hasymm _ _ hr)
      · exact (List.singleton_sublist.mpr hb).cons_cons _
    · rcases List.mem_cons.mp hb with hxb | hb
      · exact absurd (hxb ▸ hx a ha) (hasymm _ _ hr)
      · exact (ih ha hb).cons _

variable {κ α : Type*} {cmp : κ → κ → Ordering} [Std.TransCmp cmp] [Std.LawfulEqCmp cmp]
  {t : Std.TreeMap κ α cmp} {k k' : κ} {v v' : α}

theorem mem_values : v ∈ t.toList.map Prod.snd ↔ ∃ k : κ, t[k]? = some v := by
  simp [Std.TreeMap.mem_toList_iff_getElem?_eq_some]

theorem nodup_values (ht : ∀ (k k' : κ) (v : α), t[k]? = some v → t[k']? = some v → k = k') :
    (t.toList.map Prod.snd).Nodup := by
  refine List.pairwise_map.mpr (Std.TreeMap.distinct_keys_toList.imp_of_mem ?_)
  intro p q hp hq hne he
  have hp := Std.TreeMap.mem_toList_iff_getElem?_eq_some.mp hp
  have hq := Std.TreeMap.mem_toList_iff_getElem?_eq_some.mp hq
  exact hne (Std.LawfulEqCmp.compare_eq_iff_eq.mpr (ht p.1 q.1 p.2 hp (he ▸ hq)))

theorem sublist_values (ht : ∀ (k k' : κ) (v : α), t[k]? = some v → t[k']? = some v → k = k')
    (hv : t[k]? = some v) (hv' : t[k']? = some v') :
    [v, v'] <+ t.toList.map Prod.snd ↔ cmp k k' = .lt := by
  have hsorted := Std.TreeMap.ordered_keys_toList (t := t)
  have hmem (p : κ × α) : p ∈ t.toList ↔ t[p.1]? = some p.2 :=
    Std.TreeMap.mem_toList_iff_getElem?_eq_some
  constructor
  · intro h
    obtain ⟨l, hl, hmap⟩ := List.sublist_map_iff.mp h
    obtain ⟨p, l, rfl, rfl, hrest⟩ := List.map_eq_cons_iff.mp hmap.symm
    obtain ⟨q, l, rfl, rfl, hnil⟩ := List.map_eq_cons_iff.mp hrest
    obtain rfl := List.map_eq_nil_iff.mp hnil
    have hp := (hmem p).mp (hl.subset (by simp))
    have hq := (hmem q).mp (hl.subset (by simp))
    obtain rfl := ht p.1 k p.2 hp hv
    obtain rfl := ht q.1 k' q.2 hq hv'
    have hpair := hsorted.sublist hl
    simp only [List.pairwise_cons, List.mem_singleton, forall_eq] at hpair
    exact hpair.1
  · intro h
    have hpair : [(k, v), (k', v')] <+ t.toList := by
      refine pair_sublist hsorted (fun a b hab => ?_) ((hmem _).mpr hv) ((hmem _).mpr hv') h
      exact Std.OrientedCmp.not_lt_of_lt hab
    exact hpair.map Prod.snd

end OrderedMap
