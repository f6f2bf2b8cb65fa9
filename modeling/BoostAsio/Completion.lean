import BoostAsio.DescriptorRuns

/-!
# What an operation says of itself when it completes

An operation that is handed over although no `perform()` of it ever returned
`done` or `done_and_exhausted` should carry an error. `start_op` sets one on a
null descriptor, on one that is not pollable and when `epoll_ctl` fails.
`cancel_ops` and `deregister_descriptor` clear `ec_` instead, and `start_op` on
a descriptor that is shut down leaves it as the caller set it.

`errorsCarried_iff` says for every run exactly when all unperformed operations
carry an error.
-/

namespace BoostAsio

open Runs

namespace Tracked

open DescriptorState

def Unperformed (x : Tracked) (id : Nat) : Prop := ∀ c ∈ x.calls, c.1 = id → c.2 = .notDone

/-- Handed over without having been performed, an operation carries an error. -/
def ErrorsCarried (x : Tracked) : Prop := ∀ op ∈ x.handed, x.Unperformed op.id → op.ec ≠ 0

/-- The call hands over no operation whose `ec_` is 0 and that nothing
performed: nothing is cancelled, and what reaches a descriptor that is shut
down brings its error along. -/
def NoneAborted (x : Tracked) : DescriptorCall → Prop
  | .startOp null _ op _ _ _ => null = false → x.data.shutdown = true → op.ec ≠ 0
  | .performIo _ _ => True
  | .cancelOps null => null = false → x.data.pending = []
  | .deregister null _ => null = false → x.data.shutdown = false → x.data.pending = []

structure Honest (x : Tracked) : Prop where
  once : x.HandedOnce
  carried : x.ErrorsCarried
  pending : ∀ op ∈ x.data.pending, x.Unperformed op.id
  called : ∀ c ∈ x.calls, c.1 ∈ x.started

theorem Honest.new (descriptor : Int) (ctl : ErrorCode) :
    (Tracked.new (register descriptor ctl).1).Honest where
  once := Reachable.handedOnce .start
  carried := by simp [ErrorsCarried, Tracked.new]
  pending := by simp [Tracked.new]
  called := by simp [Tracked.new]

theorem Unperformed.of_append {x : Tracked} {calls : List (Nat × Status)} {id : Nat}
    (h : ∀ c ∈ x.calls ++ calls, c.1 = id → c.2 = .notDone) : x.Unperformed id :=
  fun c hc => h c (List.mem_append_left _ hc)

theorem Honest.fresh {x : Tracked} (hx : x.Honest) {id : Nat} (hid : id ∉ x.started) :
    x.Unperformed id :=
  fun c hc h => absurd (h ▸ hx.called c hc) hid

/-- An operation that `start_op` hands over unperformed carries an error, but
for what a descriptor that is shut down does. -/
theorem Exits.carried {d : DescriptorState} {ty : OpType} {op : ReactorOp} {spec : Bool}
    {ctl : ErrorCode} {r : StartOp} (h : Exits d ty op spec ctl r)
    (hop : d.shutdown = true → op.ec ≠ 0) :
    ∀ o ∈ r.exit.handed, (∀ c ∈ r.calls, c.1 = o.id → c.2 = .notDone) → o.ec ≠ 0 := by
  cases h with
  | shutdown hs => simpa [Exit.handed] using hop hs
  | performed _ hst hid => simp [Exit.handed, hid, hst]
  | unsupported => simp [Exit.handed, notSupported]
  | refused _ hctl => simp [Exit.handed, hctl]
  | armed => simp [Exit.handed, enqueue]
  | rearmed => simp [Exit.handed, enqueue]
  | queued => simp [Exit.handed, enqueue]

/-- What `start_op` leaves pending was pending before or is its own operation,
not done yet. -/
theorem Exits.pending {d : DescriptorState} {ty : OpType} {op : ReactorOp} {spec : Bool}
    {ctl : ErrorCode} {r : StartOp} (h : Exits d ty op spec ctl r) :
    ∀ o ∈ r.data.pending, o ∈ d.pending ∨
      (o.id = op.id ∧ ∀ c ∈ r.calls, c.2 = .notDone) := by
  have enq : ∀ {e : DescriptorState} {op' : ReactorOp} {calls : List (Nat × Status)},
      e.opQueue = d.opQueue → NotYetDone op op' calls →
      ∀ o ∈ (e.enqueue ty op' calls).data.pending, o ∈ d.pending ∨
        (o.id = op.id ∧ ∀ c ∈ (e.enqueue ty op' calls).calls, c.2 = .notDone) := by
    intro e op' calls he hc o ho
    obtain ⟨ty', ho⟩ := mem_pending.mp ho
    by_cases hty : ty' = ty
    · subst hty
      simp only [enqueue, setQueue_opQueue, Function.update_self, List.mem_append,
        List.mem_singleton] at ho
      rcases ho with ho | rfl
      · exact .inl (mem_pending.mpr ⟨ty', he ▸ ho⟩)
      · exact .inr ⟨hc.1, fun c h => by simp [hc.2 c h]⟩
    · simp only [enqueue, setQueue_opQueue, Function.update_of_ne hty] at ho
      exact .inl (mem_pending.mpr ⟨ty', he ▸ ho⟩)
  cases h with
  | shutdown => exact fun o ho => .inl ho
  | performed _ _ _ hd =>
    rcases hd with rfl | rfl
    · exact fun o ho => .inl ho
    · exact fun o ho => .inl ho
  | unsupported => exact fun o ho => .inl ho
  | refused => exact fun o ho => .inl ho
  | armed _ _ _ _ hc => exact enq rfl hc
  | rearmed => exact enq rfl ⟨rfl, by simp⟩
  | queued _ _ hc => exact enq rfl hc

theorem Exits.called {d : DescriptorState} {ty : OpType} {op : ReactorOp} {spec : Bool}
    {ctl : ErrorCode} {r : StartOp} (h : Exits d ty op spec ctl r) :
    ∀ c ∈ r.calls, c.1 = op.id := by
  cases h with
  | shutdown => simp
  | performed => simp
  | unsupported _ _ hc => exact fun c h => by simp [hc.2 c h]
  | refused _ _ hc => exact fun c h => by simp [hc.2 c h]
  | armed _ _ _ _ hc => exact fun c h => by simp [hc.2 c h]
  | rearmed => simp [enqueue]
  | queued _ _ hc => exact fun c h => by simp [hc.2 c h]

theorem HandedOnce.pending_started {x : Tracked} (hx : x.HandedOnce) {op : ReactorOp}
    (hop : op ∈ x.data.pending) : op.id ∈ x.started := by
  have h1 := hx.count op.id
  have h2 : 0 < x.data.pendingIds.count op.id :=
    List.count_pos_iff.mpr (List.mem_map.mpr ⟨op, hop, rfl⟩)
  exact List.count_pos_iff.mp (by omega)

theorem HandedOnce.nodup_pendingIds {x : Tracked} (hx : x.HandedOnce) :
    x.data.pendingIds.Nodup := by
  rw [List.nodup_iff_count]
  intro a
  have := hx.count a
  have := List.nodup_iff_count.mp hx.nodup a
  omega

theorem Honest.startOp {x : Tracked} (hx : x.Honest) {ty : OpType} {op : ReactorOp} {spec : Bool}
    {ctl : ErrorCode} {r : StartOp} (hid : op.id ∉ x.started)
    (hr : Exits x.data ty op spec ctl r) (hop : x.data.shutdown = true → op.ec ≠ 0)
    (hy : (x.startOp op r).HandedOnce) : (x.startOp op r).Honest where
  once := hy
  carried := by
    intro o ho hun
    rcases List.mem_append.mp ho with ho | ho
    · exact hx.carried o ho (Unperformed.of_append hun)
    · exact Exits.carried hr hop o ho fun c hc => hun c (List.mem_append_right _ hc)
  pending := by
    intro o ho c hc hoid
    rcases Exits.pending hr o ho with hold | ⟨hnew, hcalls⟩
    · rcases List.mem_append.mp hc with hc | hc
      · exact hx.pending o hold c hc hoid
      · have hc' := Exits.called hr c hc
        exact absurd (hc' ▸ hoid ▸ hx.once.pending_started hold) hid
    · rcases List.mem_append.mp hc with hc | hc
      · exact hx.fresh hid c hc (hoid.trans hnew)
      · exact hcalls c hc
  called := by
    intro c hc
    rcases List.mem_append.mp hc with hc | hc
    · exact List.mem_append_left _ (hx.called c hc)
    · exact List.mem_append_right _ (by simp [Exits.called hr c hc])

/-- One call of `perform_io`: an operation that it hands over was found done,
and what it leaves pending was pending before. -/
theorem Honest.round {x : Tracked} (hx : x.Honest) {r : PerformIo} (hr : Round x.data r)
    (hy : HandedOnce
      { x with data := r.data, handed := x.handed ++ r.ops, calls := x.calls ++ r.calls }) :
    Honest { x with data := r.data, handed := x.handed ++ r.ops, calls := x.calls ++ r.calls } where
  once := hy
  carried := by
    intro o ho hun
    rcases List.mem_append.mp ho with ho | ho
    · exact hx.carried o ho (Unperformed.of_append hun)
    · obtain ⟨c, hc, hid, hst⟩ := hr.completed o ho
      exact absurd (hun c (List.mem_append_right _ hc) hid) hst
  pending := by
    intro o ho c hc hoid
    rcases List.mem_append.mp hc with hc | hc
    · have hmem : o.id ∈ x.data.pendingIds :=
        hr.pendingIds_subset (List.mem_map.mpr ⟨o, ho, rfl⟩)
      obtain ⟨o', ho', hid'⟩ := List.mem_map.mp hmem
      exact hx.pending o' ho' c hc (hoid.trans hid'.symm)
    · exact hr.left hx.once.nodup_pendingIds o ho c hc hoid
  called := by
    intro c hc
    rcases List.mem_append.mp hc with hc | hc
    · exact hx.called c hc
    · obtain ⟨o, ho, hid⟩ := List.mem_map.mp (hr.called c hc)
      exact hid ▸ hx.once.pending_started ho

theorem Honest.drained {x : Tracked} (hx : x.Honest) {d : DescriptorState} (hd : d.pending = [])
    (hp : x.data.pending = [])
    (hy : HandedOnce { x with data := d, handed := x.handed ++ x.data.drain.2 }) :
    Honest { x with data := d, handed := x.handed ++ x.data.drain.2 } where
  once := hy
  carried := by
    have hops : x.data.drain.2 = [] := by simp [drain, hp]
    rw [hops, List.append_nil]
    exact hx.carried
  pending := by simp [hd]
  called := hx.called

theorem Step.honest {x y : Tracked} {c : DescriptorCall} (h : Step x c y) (hx : x.Honest)
    (hok : x.NoneAborted c) : y.Honest := by
  have hy := h.handedOnce hx.once
  cases h with
  | null hid =>
    refine ⟨hy, fun o ho hun => ?_, fun o ho => ?_, fun c hc => ?_⟩
    · rcases List.mem_append.mp ho with ho | ho
      · exact hx.carried o ho (Unperformed.of_append hun)
      · simp only [Exit.handed, List.mem_singleton] at ho
        simp [ho, badFileDescriptor]
    · simpa [Unperformed] using hx.pending o ho
    · simp only [startOp_calls, List.append_nil] at hc
      exact List.mem_append_left _ (hx.called c hc)
  | startOp hid hr => exact hx.startOp hid hr (hok rfl) hy
  | performIo hr => exact hx.round hr hy
  | cancelOps => exact hx.drained (drain_pending x.data) (hok rfl) hy
  | deregister hlive _ hd => exact hx.drained hd (hok rfl hlive) hy
  | cancelNull => exact hx
  | deregisterNull => exact hx
  | deregisterAgain => exact hx

/-- A pending operation that is taken with `ec_` cleared is a success that
nothing performed. -/
theorem Honest.not_carried {x y : Tracked} (hx : x.Honest) (hne : x.data.pending ≠ [])
    (hcalls : y.calls = x.calls) (hy : y.handed = x.handed ++ x.data.drain.2) :
    ¬ y.ErrorsCarried := by
  obtain ⟨op, hop⟩ := List.exists_mem_of_ne_nil _ hne
  have hmem : ({ op with ec := 0 } : ReactorOp) ∈ y.handed := by
    rw [hy]
    exact List.mem_append_right _ (List.mem_map.mpr ⟨op, hop, rfl⟩)
  intro h
  refine h _ hmem ?_ rfl
  unfold Unperformed
  rw [hcalls]
  exact hx.pending op hop

theorem Step.not_carried {x y : Tracked} {c : DescriptorCall} (h : Step x c y) (hx : x.Honest)
    (hok : ¬ x.NoneAborted c) : ¬ y.ErrorsCarried := by
  cases h with
  | null => exact absurd (fun h => nomatch h) hok
  | @startOp ty op spec f ctl r hid hr =>
    simp only [NoneAborted, ne_eq, forall_const, Classical.not_imp, not_not] at hok
    obtain ⟨hs, hec⟩ := hok
    intro h
    cases hr with
    | shutdown =>
      refine h op (by simp [Exit.handed]) ?_ hec
      simpa [Unperformed] using hx.fresh hid
    | performed hs' => simp [hs] at hs'
    | unsupported hs' => simp [hs] at hs'
    | refused hs' => simp [hs] at hs'
    | armed hs' => simp [hs] at hs'
    | rearmed hr => simp [hs, Rearms] at hr
    | queued hs' => simp [hs] at hs'
  | performIo => exact absurd trivial hok
  | cancelOps =>
    simp only [NoneAborted, forall_const] at hok
    exact hx.not_carried hok rfl rfl
  | deregister hlive =>
    simp only [NoneAborted, hlive, forall_const] at hok
    exact hx.not_carried hok rfl rfl
  | cancelNull => exact absurd (fun h => nomatch h) hok
  | deregisterNull => exact absurd (fun h => nomatch h) hok
  | deregisterAgain hs => exact absurd (fun _ h => absurd h (by simp [hs])) hok

/-- In every run of calls on a descriptor, the operations handed over without
having been performed carry an error in every state if and only if no call
cancels a pending operation, deregisters the descriptor under one, or starts
one without an error on a descriptor that is shut down. -/
theorem errorsCarried_iff (descriptor : Int) (ctl : ErrorCode) (run : List DescriptorCall) :
    AllStates next ErrorsCarried (.new (register descriptor ctl).1) run ↔
      AllSteps next NoneAborted (.new (register descriptor ctl).1) run :=
  allStates_iff_allSteps (I := Honest) (fun _ h => h.carried)
    (fun _ _ _ hx _ hok hn => (next_cases hn).honest hx hok)
    (fun _ _ _ hx _ hok hn => (next_cases hn).not_carried hx hok) (.new descriptor ctl)

/-- A read that waits for data is cancelled and completes without an error. -/
theorem cancelled_without_error :
    ¬ ∀ (descriptor : Int) (ctl : ErrorCode) (run : List DescriptorCall),
      AllStates next ErrorsCarried (.new (register descriptor ctl).1) run := by
  intro h
  have hrun := h 5 0 [.startOp false .readOp ⟨0, 0⟩ true (fun _ => (.notDone, 11)) 0,
    .cancelOps false]
  have hlast : ErrorsCarried ⟨_, [0], [⟨0, 0⟩], [(0, .notDone)]⟩ := hrun.2.2
  exact hlast ⟨0, 0⟩ (by simp) (by simp [Unperformed]) rfl

end Tracked

end BoostAsio
