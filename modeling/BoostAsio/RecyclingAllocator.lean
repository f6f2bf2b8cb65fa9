import BoostAsio.Lib.Threads

/-!
# Recycled memory of handlers

`recycling_allocator` asks the innermost `thread_info` of the calling thread
for memory: one block may be in its `storage_`, every other one comes from
`::operator new`. `deallocate` compares the pointer with the `storage_` of the
innermost `thread_info` again, which need not be the one it came from.

A `thread_info` is known by its address. It lives in the frame of `run()`, so
an address is free again when that call has returned. Nothing in the code keeps
a `run()` from returning while a block is in its `storage_`: that none does is the
assumption of `leave`.
-/

namespace BoostAsio.RecyclingAllocator

open Runs

inductive Pointer
  /-- the `storage_` of the `thread_info` at an address -/
  | storage (info : Nat)
  | heap (address : Nat)
  deriving DecidableEq, Repr

/-- A block in the hands of a caller, who knows its size. -/
structure Block where
  pointer : Pointer
  size : Nat
  deriving DecidableEq, Repr

structure Memory (ι : Type) where
  /-- The thread that has its `thread_info` at an address. -/
  owner : Nat → Option ι := fun _ => none
  inUse : Nat → Bool := fun _ => false
  /-- What `::operator new` has returned and `::operator delete` not taken. -/
  heap : List Nat := []
  live : List Block := []
  /-- History: what `::operator delete` took and `::operator new` had not returned. -/
  misdeleted : List Pointer := []

def storageSize : Nat := 1024

variable {ι : Type}

-- ---------------------------------------------------------------------------
-- thread_info_base
-- ---------------------------------------------------------------------------

/-- `::operator new`, which returns `address`. -/
def operatorNew (address : Nat) (m : Memory ι) : Pointer × Memory ι :=
  (.heap address, { m with heap := m.heap ++ [address] })

def operatorDelete (pointer : Pointer) (m : Memory ι) : Memory ι :=
  match pointer with
  | .heap address =>
    if address ∈ m.heap then { m with heap := m.heap.erase address }
    else { m with misdeleted := m.misdeleted ++ [pointer] }
  | .storage _ => { m with misdeleted := m.misdeleted ++ [pointer] }

def allocate (thisThread : Option Nat) (size address : Nat) (m : Memory ι) :
    Pointer × Memory ι :=
  match thisThread with
  | some x =>
    if !m.inUse x && size < storageSize then
      (.storage x, { m with inUse := Function.update m.inUse x true })
    else operatorNew address m
  | none => operatorNew address m

def deallocate (thisThread : Option Nat) (pointer : Pointer) (size : Nat) (m : Memory ι) :
    Memory ι :=
  match thisThread with
  | some x =>
    if pointer = .storage x && size < storageSize then
      { m with inUse := Function.update m.inUse x false }
    else operatorDelete pointer m
  | none => operatorDelete pointer m

-- ---------------------------------------------------------------------------
-- What threads do
-- ---------------------------------------------------------------------------

inductive Action
  /-- `run()` begins, with its `thread_info` at an address that is free -/
  | run (info : Nat)
  /-- the innermost `run()` returns or is left by an exception -/
  | leave
  /-- `allocate` of `size` bytes, where `::operator new` would return `address` -/
  | allocate (size address : Nat)
  | deallocate (b : Block)

/-- A thread is the addresses on its call stack, innermost first, so that
`thread_call_stack::top()` is the head. -/
def step [DecidableEq ι] (i : ι) (a : Action) (m : Memory ι) (stack : List Nat) :
    Option (Memory ι × List Nat) :=
  match a with
  | .run x =>
    if m.owner x = none then
      some ({ m with
        owner := Function.update m.owner x (some i)
        inUse := Function.update m.inUse x false }, x :: stack)
    else none
  | .leave =>
    match stack with
    | [] => none
    | x :: stack =>
      if .storage x ∈ m.live.map Block.pointer then none
      else some ({ m with owner := Function.update m.owner x none }, stack)
  | .allocate size address =>
    if address ∈ m.heap then none
    else
      let (pointer, m) := allocate stack.head? size address m
      some ({ m with live := m.live ++ [⟨pointer, size⟩] }, stack)
  | .deallocate b =>
    if b ∈ m.live then
      let m := deallocate stack.head? b.pointer b.size m
      some ({ m with live := m.live.erase b }, stack)
    else none

abbrev Process (ι : Type) := Threads ι (Memory ι) (List Nat)

def start : Process ι := ⟨{}, fun _ => []⟩

def next [DecidableEq ι] : Process ι → ι × Action → Option (Process ι) := Threads.next step

-- ---------------------------------------------------------------------------
-- Soundness
-- ---------------------------------------------------------------------------

structure Sound (c : Process ι) : Prop where
  disjoint : (c.shared.live.map Block.pointer).Nodup
  deletes : c.shared.misdeleted = []
  /-- A `thread_info` is in use only while a block is in its `storage_`. -/
  inUse : ∀ i, ∀ x ∈ c.thread i, c.shared.inUse x = true →
    .storage x ∈ c.shared.live.map Block.pointer

/-- A block in a `storage_` is deallocated by a thread whose innermost
`thread_info` it is in. -/
def DeallocatesOwn (c : Process ι) (l : ι × Action) : Prop :=
  ∀ b x, l.2 = .deallocate b → b.pointer = .storage x → (c.thread l.1).head? = some x

structure Invariant (c : Process ι) : Prop extends Sound c where
  owner : ∀ i, ∀ x ∈ c.thread i, c.shared.owner x = some i
  nodup : ∀ i, (c.thread i).Nodup
  heap : ∀ b ∈ c.shared.live, ∀ a, b.pointer = .heap a → a ∈ c.shared.heap
  storage : ∀ b ∈ c.shared.live, ∀ x, b.pointer = .storage x →
    c.shared.owner x ≠ none ∧ c.shared.inUse x = true ∧ b.size < storageSize

theorem Invariant.start : Invariant (start : Process ι) where
  disjoint := .nil
  deletes := rfl
  inUse := by simp [RecyclingAllocator.start]
  owner := by simp [RecyclingAllocator.start]
  nodup := by simp [RecyclingAllocator.start]
  heap := by simp [RecyclingAllocator.start]
  storage := by simp [RecyclingAllocator.start]

-- ---------------------------------------------------------------------------
-- What one step does
-- ---------------------------------------------------------------------------

theorem allocate_cases (thisThread : Option Nat) (size address : Nat) (m : Memory ι) :
    (∃ x, thisThread = some x ∧ m.inUse x = false ∧ size < storageSize ∧
      allocate thisThread size address m =
        (.storage x, { m with inUse := Function.update m.inUse x true })) ∨
    allocate thisThread size address m = operatorNew address m := by
  cases thisThread with
  | none => exact .inr rfl
  | some x =>
    simp only [allocate]
    split
    · rename_i h
      simp only [Bool.and_eq_true, Bool.not_eq_true', decide_eq_true_eq] at h
      exact .inl ⟨x, rfl, h.1, h.2, rfl⟩
    · exact .inr rfl

theorem deallocate_own (x size : Nat) (hsize : size < storageSize) (m : Memory ι) :
    deallocate (some x) (.storage x) size m =
      { m with inUse := Function.update m.inUse x false } := by
  simp [deallocate, hsize]

theorem deallocate_other {thisThread : Option Nat} {pointer : Pointer}
    (h : ∀ x, pointer = .storage x → thisThread ≠ some x) (size : Nat) (m : Memory ι) :
    deallocate thisThread pointer size m = operatorDelete pointer m := by
  cases thisThread with
  | none => rfl
  | some x =>
    have hne : pointer ≠ .storage x := fun he => h x he rfl
    simp [deallocate, hne]

theorem Sound.blocks {c : Process ι} (h : Sound c) : c.shared.live.Nodup := h.disjoint.of_map _

theorem Sound.eq_of_pointer {c : Process ι} (h : Sound c) {b b' : Block}
    (hb : b ∈ c.shared.live) (hb' : b' ∈ c.shared.live) (hp : b.pointer = b'.pointer) : b = b' :=
  List.inj_on_of_nodup_map h.disjoint hb hb' hp

section Step

variable [DecidableEq ι] {c c' : Process ι} {i : ι}

theorem mem_set_thread {m : Memory ι} {stack : List Nat} {j : ι} {y : Nat}
    (h : y ∈ (c.set i m stack).thread j) : j = i ∧ y ∈ stack ∨ j ≠ i ∧ y ∈ c.thread j := by
  by_cases hj : j = i
  · subst hj
    exact .inl ⟨rfl, by simpa using h⟩
  · exact .inr ⟨hj, by simpa [Threads.set_thread_ne c hj] using h⟩

omit [DecidableEq ι] in
theorem Invariant.free (h : Invariant c) {x : Nat} (hx : c.shared.owner x = none) :
    (∀ j, x ∉ c.thread j) ∧ ∀ b ∈ c.shared.live, b.pointer ≠ .storage x := by
  constructor
  · intro j hj
    have howner := h.owner j x hj
    rw [hx] at howner
    cases howner
  · intro b hb hp
    exact (h.storage b hb x hp).1 hx

theorem Invariant.run (h : Invariant c) {x : Nat} (hx : c.shared.owner x = none) :
    Invariant (c.set i { c.shared with
      owner := Function.update c.shared.owner x (some i)
      inUse := Function.update c.shared.inUse x false } (x :: c.thread i)) := by
  obtain ⟨hstack, hlive⟩ := h.free hx
  have hold {j : ι} {y : Nat} (hne : y ≠ x)
      (hy : y ∈ (c.set i { c.shared with
        owner := Function.update c.shared.owner x (some i)
        inUse := Function.update c.shared.inUse x false } (x :: c.thread i)).thread j) :
      y ∈ c.thread j := by
    rcases mem_set_thread hy with ⟨rfl, hy⟩ | ⟨-, hy⟩
    · exact List.mem_of_ne_of_mem hne hy
    · exact hy
  constructor
  · constructor
    · exact h.disjoint
    · exact h.deletes
    · intro j y hy huse
      have hne : y ≠ x := by
        rintro rfl
        simp at huse
      exact h.inUse j y (hold hne hy) (by simpa [hne] using huse)
  · intro j y hy
    by_cases hne : y = x
    · subst hne
      rcases mem_set_thread hy with ⟨rfl, -⟩ | ⟨-, hy⟩
      · simp
      · exact absurd hy (hstack j)
    · simpa [hne] using h.owner j y (hold hne hy)
  · intro j
    by_cases hj : j = i
    · subst hj
      simpa using ⟨hstack j, h.nodup j⟩
    · simpa [Threads.set_thread_ne c hj] using h.nodup j
  · exact h.heap
  · intro b hb y hp
    have hne : y ≠ x := by
      rintro rfl
      exact hlive b hb hp
    simpa [hne] using h.storage b hb y hp

theorem Invariant.leave (h : Invariant c) {x : Nat} {stack : List Nat}
    (hstack : c.thread i = x :: stack)
    (hx : .storage x ∉ c.shared.live.map Block.pointer) :
    Invariant (c.set i { c.shared with owner := Function.update c.shared.owner x none } stack) := by
  have hnodup := h.nodup i
  rw [hstack, List.nodup_cons] at hnodup
  have hold {j : ι} {y : Nat} (hy : y ∈ (c.set i { c.shared with
      owner := Function.update c.shared.owner x none } stack).thread j) :
      y ≠ x ∧ y ∈ c.thread j := by
    rcases mem_set_thread hy with ⟨rfl, hmem⟩ | ⟨hj, hmem⟩
    · exact ⟨fun he => hnodup.1 (he ▸ hmem), hstack ▸ List.mem_cons_of_mem x hmem⟩
    · refine ⟨?_, hmem⟩
      rintro rfl
      have hown := h.owner i y (hstack ▸ List.mem_cons_self)
      rw [h.owner j y hmem] at hown
      exact hj (Option.some.inj hown)
  constructor
  · constructor
    · exact h.disjoint
    · exact h.deletes
    · intro j y hy huse
      exact h.inUse j y (hold hy).2 huse
  · intro j y hy
    simpa [(hold hy).1] using h.owner j y (hold hy).2
  · intro j
    by_cases hj : j = i
    · subst hj
      simpa using hnodup.2
    · simpa [Threads.set_thread_ne c hj] using h.nodup j
  · exact h.heap
  · intro b hb y hp
    have hne : y ≠ x := by
      rintro rfl
      exact hx (List.mem_map.mpr ⟨b, hb, hp⟩)
    simpa [hne] using h.storage b hb y hp

end Step

-- ---------------------------------------------------------------------------
-- Allocation, which leaves the call stacks alone
-- ---------------------------------------------------------------------------

section Allocation

variable {c : Process ι} {x size address : Nat}

theorem Invariant.allocateStorage (h : Invariant c) {i : ι} (hx : x ∈ c.thread i)
    (hfree : c.shared.inUse x = false) (hsize : size < storageSize) :
    Invariant { c with shared := { c.shared with
      inUse := Function.update c.shared.inUse x true
      live := c.shared.live ++ [⟨.storage x, size⟩] } } := by
  have hnew : .storage x ∉ c.shared.live.map Block.pointer := by
    intro hmem
    obtain ⟨b, hb, hp⟩ := List.mem_map.mp hmem
    rw [(h.storage b hb x hp).2.1] at hfree
    cases hfree
  constructor
  · constructor
    · simpa [List.nodup_append, h.disjoint] using hnew
    · exact h.deletes
    · intro j y hy huse
      by_cases hne : y = x
      · simp [hne]
      · have hmem := h.inUse j y hy (by simpa [hne] using huse)
        simpa using Or.inl (List.mem_map.mp hmem)
  · exact h.owner
  · exact h.nodup
  · intro b hb a hp
    rcases List.mem_append.mp hb with hb | hb
    · exact h.heap b hb a hp
    · rw [List.mem_singleton.mp hb] at hp
      cases hp
  · intro b hb y hp
    rcases List.mem_append.mp hb with hold | hb
    · have hne : y ≠ x := by
        rintro rfl
        exact hnew (List.mem_map.mpr ⟨b, hold, hp⟩)
      simpa [hne] using h.storage b hold y hp
    · obtain rfl := List.mem_singleton.mp hb
      cases hp
      simp [h.owner i x hx, hsize]

theorem Invariant.allocateHeap (h : Invariant c) (hnew : address ∉ c.shared.heap) :
    Invariant { c with shared := { c.shared with
      heap := c.shared.heap ++ [address]
      live := c.shared.live ++ [⟨.heap address, size⟩] } } := by
  have hfresh : .heap address ∉ c.shared.live.map Block.pointer := by
    intro hmem
    obtain ⟨b, hb, hp⟩ := List.mem_map.mp hmem
    exact hnew (h.heap b hb address hp)
  constructor
  · constructor
    · simpa [List.nodup_append, h.disjoint] using hfresh
    · exact h.deletes
    · intro j y hy huse
      simpa using List.mem_map.mp (h.inUse j y hy huse)
  · exact h.owner
  · exact h.nodup
  · intro b hb a hp
    rcases List.mem_append.mp hb with hb | hb
    · exact List.mem_append_left _ (h.heap b hb a hp)
    · obtain rfl := List.mem_singleton.mp hb
      cases hp
      simp
  · intro b hb y hp
    rcases List.mem_append.mp hb with hb | hb
    · exact h.storage b hb y hp
    · rw [List.mem_singleton.mp hb] at hp
      cases hp

/-- No other live block has the pointer of a block that goes. -/
theorem Invariant.pointer_ne (h : Invariant c) {b b' : Block} (hb : b ∈ c.shared.live)
    (hb' : b' ∈ c.shared.live.erase b) : b'.pointer ≠ b.pointer := by
  intro hp
  obtain rfl := h.eq_of_pointer (List.mem_of_mem_erase hb') hb hp
  exact (h.blocks.mem_erase_iff.mp hb').1 rfl

theorem mem_pointers_erase {live : List Block} {b : Block} {p : Pointer}
    (hp : p ∈ live.map Block.pointer) (hne : p ≠ b.pointer) :
    p ∈ (live.erase b).map Block.pointer := by
  obtain ⟨b', hb', rfl⟩ := List.mem_map.mp hp
  have hother : b' ≠ b := by
    rintro rfl
    exact hne rfl
  exact List.mem_map.mpr ⟨b', (List.mem_erase_of_ne hother).mpr hb', rfl⟩

theorem Invariant.deallocateStorage (h : Invariant c) {b : Block} (hb : b ∈ c.shared.live)
    (hp : b.pointer = .storage x) :
    Invariant { c with shared := { c.shared with
      inUse := Function.update c.shared.inUse x false
      live := c.shared.live.erase b } } := by
  constructor
  · constructor
    · exact h.disjoint.sublist (List.erase_sublist.map _)
    · exact h.deletes
    · intro j y hy huse
      have hne : y ≠ x := by
        rintro rfl
        simp at huse
      refine mem_pointers_erase (h.inUse j y hy (by simpa [hne] using huse)) ?_
      rw [hp]
      exact fun heq => hne (Pointer.storage.inj heq)
  · exact h.owner
  · exact h.nodup
  · intro b' hb'
    exact h.heap b' (List.mem_of_mem_erase hb')
  · intro b' hb' y hp'
    have hlive := List.mem_of_mem_erase hb'
    have hne : y ≠ x := by
      rintro rfl
      exact h.pointer_ne hb hb' (hp'.trans hp.symm)
    simpa [hne] using h.storage b' hlive y hp'

theorem Invariant.deallocateHeap (h : Invariant c) {b : Block} (hb : b ∈ c.shared.live)
    (hp : b.pointer = .heap address) :
    Invariant { c with shared := { c.shared with
      heap := c.shared.heap.erase address
      live := c.shared.live.erase b } } := by
  constructor
  · constructor
    · exact h.disjoint.sublist (List.erase_sublist.map _)
    · exact h.deletes
    · intro j y hy huse
      refine mem_pointers_erase (h.inUse j y hy huse) ?_
      rw [hp]
      exact Pointer.noConfusion
  · exact h.owner
  · exact h.nodup
  · intro b' hb' a hp'
    have hlive := List.mem_of_mem_erase hb'
    have hne : a ≠ address := by
      rintro rfl
      exact h.pointer_ne hb hb' (hp'.trans hp.symm)
    exact (List.mem_erase_of_ne hne).mpr (h.heap b' hlive a hp')
  · intro b' hb'
    exact h.storage b' (List.mem_of_mem_erase hb')

theorem Invariant.allocate (h : Invariant c) {i : ι} {size address : Nat}
    (hnew : address ∉ c.shared.heap) {pointer : Pointer} {m : Memory ι}
    (ha : allocate (c.thread i).head? size address c.shared = (pointer, m)) :
    Invariant { c with shared := { m with live := m.live ++ [⟨pointer, size⟩] } } := by
  rcases allocate_cases (c.thread i).head? size address c.shared with
    ⟨x, hx, hfree, hsize, heq⟩ | heq
  · obtain ⟨rfl, rfl⟩ := Prod.mk.inj (ha.symm.trans heq)
    exact h.allocateStorage (List.mem_of_mem_head? hx) hfree hsize
  · obtain ⟨rfl, rfl⟩ := Prod.mk.inj (ha.symm.trans heq)
    exact h.allocateHeap hnew

theorem Invariant.deallocate (h : Invariant c) {i : ι} {b : Block} (hb : b ∈ c.shared.live)
    (hown : ∀ x, b.pointer = .storage x → (c.thread i).head? = some x) :
    let m := deallocate (c.thread i).head? b.pointer b.size c.shared
    Invariant { c with shared := { m with live := m.live.erase b } } := by
  cases hp : b.pointer with
  | storage x =>
    have hsize := (h.storage b hb x hp).2.2
    rw [hown x hp, deallocate_own x b.size hsize]
    exact h.deallocateStorage hb hp
  | heap address =>
    have hdelete : operatorDelete (.heap address) c.shared =
        { c.shared with heap := c.shared.heap.erase address } :=
      if_pos (h.heap b hb address hp)
    rw [deallocate_other (fun x hx => by cases hx), hdelete]
    exact h.deallocateHeap hb hp

end Allocation

-- ---------------------------------------------------------------------------
-- Runs
-- ---------------------------------------------------------------------------

section Runs

variable [DecidableEq ι] {c c' : Process ι} {l : ι × Action}

theorem set_memory (c : Process ι) (i : ι) (m : Memory ι) :
    c.set i m (c.thread i) = { c with shared := m } := by
  simp [Threads.set]

theorem Invariant.next (h : Invariant c) (hok : DeallocatesOwn c l)
    (hn : next c l = some c') : Invariant c' := by
  obtain ⟨m, stack, hs, rfl⟩ := Threads.next_eq_some.mp hn
  obtain ⟨i, a⟩ := l
  cases a with
  | run x =>
    simp only [step, Option.ite_none_right_eq_some] at hs
    obtain ⟨hx, hs⟩ := hs
    cases hs
    exact h.run hx
  | leave =>
    simp only [step] at hs
    split at hs
    · cases hs
    · rename_i x rest hstack
      simp only [Option.ite_none_left_eq_some] at hs
      obtain ⟨hx, hs⟩ := hs
      cases hs
      exact h.leave hstack hx
  | allocate size address =>
    simp only [step, Option.ite_none_left_eq_some] at hs
    obtain ⟨hnew, hs⟩ := hs
    cases hs
    rw [set_memory]
    exact h.allocate hnew rfl
  | deallocate b =>
    simp only [step, Option.ite_none_right_eq_some] at hs
    obtain ⟨hb, hs⟩ := hs
    cases hs
    rw [set_memory]
    exact h.deallocate hb fun x hp => hok b x rfl hp

/-- A block in the `storage_` of another `thread_info` goes to
`::operator delete`. -/
theorem misdeletes (hnot : ¬ DeallocatesOwn c l) (hn : next c l = some c') : ¬ Sound c' := by
  simp only [DeallocatesOwn, not_forall] at hnot
  obtain ⟨b, x, ha, hp, hother⟩ := hnot
  obtain ⟨m, stack, hs, rfl⟩ := Threads.next_eq_some.mp hn
  rw [ha] at hs
  simp only [step, Option.ite_none_right_eq_some] at hs
  obtain ⟨-, hs⟩ := hs
  cases hs
  intro hsound
  have hdeletes := hsound.deletes
  rw [hp, deallocate_other (fun y hy => by cases hy; exact hother)] at hdeletes
  simp [operatorDelete] at hdeletes

/-- Recycled memory is sound in every state of a history if and only if each
block in a `storage_` is deallocated by the thread that has it innermost. -/
theorem sound_iff (ls : List (ι × Action)) :
    AllStates next Sound start ls ↔ AllSteps next DeallocatesOwn start ls :=
  allStates_iff_allSteps (I := Invariant) (fun _ h => h.toSound)
    (fun _ _ _ h _ hok hn => h.next hok hn) (fun _ _ _ _ _ hnot hn => misdeletes hnot hn) .start

/-- An operation allocated inside `run()` on one thread is completed by another
thread. -/
theorem completedElsewhere_misdeletes : ¬ AllStates next Sound (start : Process Bool)
    [(false, .run 0), (true, .run 1), (false, .allocate 64 0),
      (true, .deallocate ⟨.storage 0, 64⟩)] := by
  intro h
  have hlast := (h.of_exec rfl).deletes
  revert hlast
  decide

end Runs

end BoostAsio.RecyclingAllocator
