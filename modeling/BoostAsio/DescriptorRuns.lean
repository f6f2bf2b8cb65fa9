import BoostAsio.Lib.Runs
import BoostAsio.DescriptorCases

/-!
# Every operation leaves its descriptor once

The calls on one registered descriptor, interleaved in any order: each of them
is atomic under the mutex of the descriptor. A caller may hold a null pointer
at any time (`deregister_descriptor` sets one), so every call says which it
has. An operation is passed to `start_op` once.

`Tracked.handed_once` follows the operations: at each moment one is pending in
one place or was handed to the scheduler once, and a descriptor that is shut
down has none pending from then on.
-/

namespace BoostAsio

open Runs

/-- A descriptor with the history of the calls on it. -/
structure Tracked where
  data : DescriptorState
  started : List Nat := []
  /-- The operations handed to the scheduler, as they were then. -/
  handed : List ReactorOp := []
  calls : List (Nat × Status) := []

inductive DescriptorCall
  | startOp (null : Bool) (ty : OpType) (op : ReactorOp) (allowSpeculative : Bool)
      (f : PerformFunc) (ctl : ErrorCode)
  | performIo (events : Events) (f : PerformFunc)
  | cancelOps (null : Bool)
  | deregister (null closing : Bool)

namespace DescriptorState

def Exit.handed : Exit → List ReactorOp
  | .posted op => [op]
  | .queued => []

end DescriptorState

namespace Tracked

open DescriptorState

def new (d : DescriptorState) : Tracked := { data := d }

def startOp (x : Tracked) (op : ReactorOp) (r : StartOp) : Tracked where
  data := r.data
  started := x.started ++ [op.id]
  handed := x.handed ++ r.exit.handed
  calls := x.calls ++ r.calls

def next (x : Tracked) : DescriptorCall → Option Tracked
  | .startOp null ty op allowSpeculative f ctl =>
    if op.id ∈ x.started then none
    else if null then
      some (x.startOp op ⟨x.data, .posted { op with ec := badFileDescriptor }, []⟩)
    else some (x.startOp op (x.data.startOp ty op allowSpeculative f ctl))
  | .performIo events f =>
    let r := x.data.performIo events f
    some { x with data := r.data, handed := x.handed ++ r.ops, calls := x.calls ++ r.calls }
  | .cancelOps null =>
    if null then some x
    else
      let (d, ops) := x.data.cancelOps
      some { x with data := d, handed := x.handed ++ ops }
  | .deregister null closing =>
    if null then some x
    else
      let (d, ops) := x.data.deregister closing
      some { x with data := d, handed := x.handed ++ ops.getD [] }

def handedIds (x : Tracked) : List Nat := x.handed.map ReactorOp.id

@[simp] theorem startOp_started (x : Tracked) (op : ReactorOp) (r : StartOp) :
    (x.startOp op r).started = x.started ++ [op.id] := rfl
@[simp] theorem startOp_data (x : Tracked) (op : ReactorOp) (r : StartOp) :
    (x.startOp op r).data = r.data := rfl
@[simp] theorem startOp_handed (x : Tracked) (op : ReactorOp) (r : StartOp) :
    (x.startOp op r).handed = x.handed ++ r.exit.handed := rfl
@[simp] theorem startOp_calls (x : Tracked) (op : ReactorOp) (r : StartOp) :
    (x.startOp op r).calls = x.calls ++ r.calls := rfl

/-- What one call does to the history, for the proofs about runs. -/
inductive Step (x : Tracked) : DescriptorCall → Tracked → Prop
  | null {ty op spec f ctl} : op.id ∉ x.started →
      Step x (.startOp true ty op spec f ctl)
        (x.startOp op ⟨x.data, .posted { op with ec := badFileDescriptor }, []⟩)
  | startOp {ty op spec f ctl r} : op.id ∉ x.started → Exits x.data ty op spec ctl r →
      Step x (.startOp false ty op spec f ctl) (x.startOp op r)
  | performIo {events f r} : Round x.data r →
      Step x (.performIo events f)
        { x with data := r.data, handed := x.handed ++ r.ops, calls := x.calls ++ r.calls }
  | cancelOps : Step x (.cancelOps false)
      { x with data := x.data.drain.1, handed := x.handed ++ x.data.drain.2 }
  | deregister {closing d} : x.data.shutdown = false → d.shutdown = true → d.pending = [] →
      Step x (.deregister false closing) { x with data := d, handed := x.handed ++ x.data.drain.2 }
  | cancelNull : Step x (.cancelOps true) x
  | deregisterNull {closing} : Step x (.deregister true closing) x
  | deregisterAgain {closing} : x.data.shutdown = true → Step x (.deregister false closing) x

theorem next_cases {x y : Tracked} {c : DescriptorCall} (h : x.next c = some y) : Step x c y := by
  cases c with
  | startOp null ty op spec f ctl =>
    simp only [next] at h
    split at h
    · cases h
    · rename_i hid
      cases null with
      | true => cases h; exact .null hid
      | false => cases h; exact .startOp hid (startOp_exits ..)
  | performIo events f =>
    cases h
    exact .performIo (performIo_round ..)
  | cancelOps null =>
    cases null with
    | true => cases h; exact .cancelNull
    | false => cases h; exact .cancelOps
  | deregister null closing =>
    cases null with
    | true => cases h; exact .deregisterNull
    | false =>
      cases hs : x.data.shutdown with
      | true =>
        simp only [next, deregister_shutdown hs] at h
        cases h
        simpa using Step.deregisterAgain hs
      | false =>
        obtain ⟨d, hd, hshut, hpend⟩ := deregister_live hs closing
        simp only [next, hd] at h
        cases h
        exact .deregister hs hshut hpend

/-- Every operation started is pending or handed over, as often as it was
started, and that is once. -/
structure HandedOnce (x : Tracked) : Prop where
  count : ∀ a, x.data.pendingIds.count a + x.handedIds.count a = x.started.count a
  nodup : x.started.Nodup
  drained : x.data.shutdown = true → x.data.pending = []

theorem Exits.count {d : DescriptorState} {ty : OpType} {op : ReactorOp} {spec : Bool}
    {ctl : ErrorCode} {r : StartOp} (h : Exits d ty op spec ctl r) (a : Nat) :
    r.data.pendingIds.count a + (r.exit.handed.map ReactorOp.id).count a =
      d.pendingIds.count a + [op.id].count a := by
  cases h with
  | shutdown => rfl
  | performed _ _ hid hd =>
    rcases hd with rfl | rfl
    · simp [Exit.handed, hid]
    · simp [Exit.handed, hid, pendingIds_congr (setSpeculative_opQueue ..)]
  | unsupported _ _ hc => simp [Exit.handed, hc.1]
  | refused _ _ hc => simp [Exit.handed, hc.1]
  | armed _ _ _ _ hc =>
    simp only [enqueue, Exit.handed, List.map_nil, List.count_nil, Nat.add_zero, ← hc.1]
    exact count_enqueue ..
  | rearmed =>
    simp only [enqueue, Exit.handed, List.map_nil, List.count_nil, Nat.add_zero]
    exact count_enqueue ..
  | queued _ _ hc =>
    simp only [enqueue, Exit.handed, List.map_nil, List.count_nil, Nat.add_zero, ← hc.1]
    exact count_enqueue ..

theorem Exits.shutdown_eq {d : DescriptorState} {ty : OpType} {op : ReactorOp} {spec : Bool}
    {ctl : ErrorCode} {r : StartOp} (h : Exits d ty op spec ctl r) :
    r.data.shutdown = d.shutdown ∧ (d.shutdown = true → r.data = d) := by
  cases h with
  | shutdown => exact ⟨rfl, fun _ => rfl⟩
  | performed hs _ _ hd => rcases hd with rfl | rfl <;> simp [hs]
  | unsupported => exact ⟨rfl, fun _ => rfl⟩
  | refused => exact ⟨rfl, fun _ => rfl⟩
  | armed hs => exact ⟨rfl, fun h => absurd h (by simp [hs])⟩
  | rearmed hr => exact ⟨rfl, fun h => absurd h (by simp [hr.1])⟩
  | queued hs => exact ⟨rfl, fun h => absurd h (by simp [hs])⟩

theorem Step.handedOnce {x y : Tracked} {c : DescriptorCall} (h : Step x c y)
    (hx : x.HandedOnce) : y.HandedOnce := by
  have fresh : ∀ {op : ReactorOp}, op.id ∉ x.started → (x.started ++ [op.id]).Nodup := by
    intro op hop
    refine List.nodup_append.mpr ⟨hx.nodup, by simp, fun a ha b hb hab => hop ?_⟩
    rw [List.mem_singleton.mp hb] at hab
    exact hab ▸ ha
  cases h with
  | null hid =>
    refine ⟨fun a => ?_, fresh hid, hx.drained⟩
    have := hx.count a
    simp only [handedIds, startOp_data, startOp_handed, startOp_started, Exit.handed,
      List.map_append, List.map_cons, List.map_nil, List.count_append] at this ⊢
    omega
  | startOp hid hr =>
    refine ⟨fun a => ?_, fresh hid, fun hs => ?_⟩
    · have := hx.count a
      have := Exits.count hr a
      simp only [handedIds, startOp_data, startOp_handed, startOp_started, List.map_append,
        List.count_append] at this ⊢
      simp only [handedIds] at *
      omega
    · obtain ⟨h1, h2⟩ := Exits.shutdown_eq hr
      have hs' : x.data.shutdown = true := h1 ▸ hs
      rw [startOp_data, h2 hs']
      exact hx.drained hs'
  | performIo hr =>
    refine ⟨fun a => ?_, hx.nodup, fun hs => ?_⟩
    · have := hx.count a
      have := hr.count a
      simp only [handedIds, List.map_append, List.count_append] at *
      omega
    · have hd := pending_eq_nil.mp (hx.drained (hr.shutdown ▸ hs))
      exact pending_eq_nil.mpr fun ty => hr.emptied ty (hd ty)
  | cancelOps =>
    refine ⟨fun a => ?_, hx.nodup, fun _ => rfl⟩
    have := hx.count a
    simp only [handedIds, List.map_append, drain_ids, drain_pendingIds, List.count_append,
      List.count_nil] at *
    omega
  | deregister _ _ hpend =>
    refine ⟨fun a => ?_, hx.nodup, fun _ => hpend⟩
    have := hx.count a
    simp only [handedIds, List.map_append, drain_ids, pendingIds, hpend, List.map_nil,
      List.count_append, List.count_nil] at *
    omega
  | cancelNull => exact hx
  | deregisterNull => exact hx
  | deregisterAgain => exact hx

theorem Step.shutdown {x y : Tracked} {c : DescriptorCall} (h : Step x c y)
    (hs : x.data.shutdown = true) : y.data.shutdown = true := by
  cases h with
  | null => exact hs
  | startOp _ hr => exact (Exits.shutdown_eq hr).1.trans hs
  | performIo hr => exact hr.shutdown.trans hs
  | cancelOps => exact hs
  | deregister hlive => simp [hs] at hlive
  | cancelNull => exact hs
  | deregisterNull => exact hs
  | deregisterAgain => exact hs

/-- The states that any calls lead to. -/
abbrev Reachable (d : DescriptorState) : Tracked → Prop := Reach next (fun _ _ => True) (.new d)

@[simp] theorem register_pending (descriptor : Int) (ctl : ErrorCode) :
    (register descriptor ctl).1.pending = [] := by
  unfold register
  split
  · rfl
  · split <;> rfl

theorem Reachable.handedOnce {descriptor : Int} {ctl : ErrorCode} {x : Tracked}
    (h : Reachable (register descriptor ctl).1 x) : x.HandedOnce := by
  refine Reach.invariant h ⟨?_, by simp [new], fun _ => ?_⟩
    fun _ _ _ _ hx _ hn => (next_cases hn).handedOnce hx
  · simp [new, pendingIds, handedIds]
  · simp [new]

/-- An operation given to `start_op` is at each moment pending once on the
descriptor or was handed to the scheduler once, and not both; a descriptor that
was deregistered has nothing pending, and stays so. -/
theorem handed_once {descriptor : Int} {ctl : ErrorCode} {x : Tracked}
    (h : Reachable (register descriptor ctl).1 x) :
    (∀ a ∈ x.started, x.data.pendingIds.count a + x.handedIds.count a = 1) ∧
    (∀ a, a ∈ x.data.pendingIds ∨ a ∈ x.handedIds → a ∈ x.started) ∧
    (x.data.shutdown = true → ∀ y, Reach next (fun _ _ => True) x y →
      y.data.shutdown = true ∧ ∀ ty, y.data.opQueue ty = []) := by
  have hx := h.handedOnce
  refine ⟨fun a ha => ?_, fun a ha => ?_, fun hs y hy => ?_⟩
  · rw [hx.count a]
    have := List.nodup_iff_count.mp hx.nodup a
    have := List.count_pos_iff.mpr ha
    omega
  · have := hx.count a
    have : 0 < x.data.pendingIds.count a + x.handedIds.count a := by
      rcases ha with ha | ha
      · exact Nat.add_pos_left (List.count_pos_iff.mpr ha) _
      · exact Nat.add_pos_right _ (List.count_pos_iff.mpr ha)
    exact List.count_pos_iff.mp (by omega)
  · have hy' : y.HandedOnce ∧ y.data.shutdown = true :=
      hy.invariant (I := fun z => z.HandedOnce ∧ z.data.shutdown = true) ⟨hx, hs⟩
        fun _ _ _ _ hz _ hn => ⟨(next_cases hn).handedOnce hz.1, (next_cases hn).shutdown hz.2⟩
    exact ⟨hy'.2, pending_eq_nil.mp (hy'.1.drained hy'.2)⟩

/-- A read that is not ready at once, one that is, and a cancellation. -/
theorem handed_once_cancelled :
    ∃ x, Reachable (register 5 0).1 x ∧ x.started = [0, 1] ∧ x.handedIds = [1, 0] ∧
      ∀ a ∈ x.started, x.data.pendingIds.count a + x.handedIds.count a = 1 := by
  have h : Reachable (register 5 0).1 _ :=
    Reach.of_exec [.startOp false .readOp ⟨0, 0⟩ true (fun _ => (.notDone, 11)) 0,
      .startOp false .writeOp ⟨1, 0⟩ true (fun _ => (.done, 0)) 0, .cancelOps false]
      (allSteps_trivial ..) rfl
  exact ⟨_, h, rfl, rfl, (handed_once h).1⟩

end Tracked

end BoostAsio
