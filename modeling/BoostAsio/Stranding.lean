import BoostAsio.Interest
import BoostAsio.PerformIo

/-!
# Operations that wait for an event

A descriptor is watched with `EPOLLET`: the kernel reports that it has become
ready once, and not that it still is. An operation in a queue is performed when
an event of its type is reported, so that it waits for ever where the
descriptor is ready already and the event was used up before.

`start_op` and `perform_io` see to it in three ways: `try_speculative_` stays
false after a `done_and_exhausted` until the next event, an operation is tried
before it is queued, and the last branch of `start_op` calls `epoll_ctl`, on
which the kernel reports again what is ready. `not_stranded_iff` says for every
run exactly when no operation is left behind. An event that is reported counts
as coming until `perform_io` takes it up: `BoostAsio.Readiness` is about that.
-/

namespace BoostAsio

open DescriptorState Runs

-- ---------------------------------------------------------------------------
-- The descriptor and its kernel
-- ---------------------------------------------------------------------------

structure Polled where
  tracked : Tracked
  /-- `perform()` of an operation of the type could do something. -/
  ready : OpType → Bool
  /-- the events that the kernel has for `epoll_wait` -/
  armed : Events := 0
  /-- the events reported, for which `perform_io` is to be called -/
  due : Events := 0

inductive PolledAction
  /-- a call on the descriptor, and the events that come between its calls of
  `perform()` and of `epoll_ctl` -/
  | call (c : DescriptorCall) (between : Events)
  | edge (events : Events)
  | unready (ty : OpType)
  | report

namespace Polled

variable {p p' : Polled} {c : DescriptorCall} {ty : OpType} {events : Events}

/-- Something happens to the descriptor. Errors are reported whatever the mask
is, and let every operation be performed. -/
def edge (p : Polled) (events : Events) : Polled :=
  { p with
    ready := fun ty => p.ready ty || decide (Triggered events ty)
    armed :=
      if p.tracked.data.kernelEvents = 0 then p.armed
      else p.armed ||| (events &&& (p.tracked.data.kernelEvents ||| epollErr ||| epollHup)) }

def readyEvents (ready : OpType → Bool) : Events :=
  (if ready .readOp then epollIn else 0) ||| (if ready .writeOp then epollOut else 0) |||
    (if ready .exceptOp then epollPri else 0)

def performs (d : DescriptorState) : DescriptorCall → OpType → List (Nat × Status)
  | .startOp false ty op spec f ctl, ty' =>
    if ty' = ty then (d.startOp ty op spec f ctl).calls else []
  | .performIo events f, ty => (d.performed events f ty).calls
  | _, _ => []

/-- The events that a call takes up. -/
def takes : DescriptorCall → Events
  | .performIo events _ => events
  | _ => 0

/-- The call calls `epoll_ctl` with `EPOLL_CTL_MOD`, which succeeds. -/
def modifies (d : DescriptorState) : DescriptorCall → Bool
  | .startOp false ty op spec f ctl =>
    ctl == 0 && (d.opQueue ty).isEmpty && ((d.startOp ty op spec f ctl).exit matches .queued) &&
      (!d.speculates ty spec || (ty == .writeOp && d.registeredEvents &&& epollOut == 0))
  | _ => false

/-- A `perform()` that returns `not_done` or `done_and_exhausted` leaves the
descriptor not ready. -/
def performed (p : Polled) (c : DescriptorCall) : Polled :=
  { p with
    ready := fun ty => p.ready ty && (performs p.tracked.data c ty).all fun r => r.2 = .done
    due := p.due &&& ~~~takes c }

/-- The kernel looks again at a descriptor whose mask is set, and forgets one
that it watches no more. -/
def control (p : Polled) (modifies : Bool) (x : Tracked) : Polled :=
  { p with
    tracked := x
    armed :=
      if x.data.kernelEvents = 0 then 0
      else if modifies then p.armed ||| (readyEvents p.ready &&& x.data.kernelEvents)
      else p.armed }

def next (p : Polled) : PolledAction → Option Polled
  | .call c between =>
    (p.tracked.next c).map fun x =>
      ((p.performed c).edge between).control (modifies p.tracked.data c) x
  | .edge events => some (p.edge events)
  | .unready ty => some { p with ready := Function.update p.ready ty false }
  | .report => some { p with armed := 0, due := p.due ||| p.armed }

/-- A registered descriptor, which the kernel reports at once if it is ready. -/
def new (d : DescriptorState) (ready : OpType → Bool) : Polled where
  tracked := .new d
  ready
  armed := readyEvents ready &&& d.kernelEvents

-- ---------------------------------------------------------------------------
-- No operation is left behind
-- ---------------------------------------------------------------------------

/-- An event for operations of the type is reported, or will be. -/
def Coming (p : Polled) (ty : OpType) : Prop := Triggered (p.armed ||| p.due) ty

/-- The mask is right, and where an operation is pending on a descriptor that is
ready for it, an event is coming. -/
structure Served (p : Polled) : Prop where
  inStep : p.tracked.InStep
  coming : ∀ ty, p.tracked.data.opQueue ty ≠ [] → p.ready ty = true → p.Coming ty

/-- A `start_op` that reaches the last branch does no harm to the mask, and
where `epoll_ctl` refuses, the event is coming if there is one to wait for. -/
def RearmsInTime (p : Polled) : PolledAction → Prop
  | .call c between => p.tracked.RearmsHarmlessly c ∧ match c with
    | .startOp false ty _ spec _ ctl =>
      p.tracked.data.Rearms ty spec → ctl ≠ 0 → (p.edge between).ready ty = true →
        (p.edge between).Coming ty
    | _ => True
  | _ => True

-- ---------------------------------------------------------------------------
-- Events
-- ---------------------------------------------------------------------------

theorem or_eq_zero {a b : Events} : a ||| b = 0 ↔ a = 0 ∧ b = 0 := BitVec.or_eq_zero_iff

theorem triggered_or {a b : Events} :
    Triggered (a ||| b) ty ↔ Triggered a ty ∨ Triggered b ty := by
  unfold Triggered
  rw [BitVec.and_comm, BitVec.and_or_distrib_left, ne_eq, or_eq_zero, not_and_or,
    BitVec.and_comm _ a, BitVec.and_comm _ b]

/-- What `perform_io` takes up of other types leaves the events of this one. -/
theorem triggered_and_not {taken : Events} (h : Triggered events ty) (hn : ¬ Triggered taken ty) :
    Triggered (events &&& ~~~taken) ty := by
  unfold Triggered at *
  intro h0
  apply h
  ext i hi
  have hbit := congrArg (fun m => m.getLsbD i) h0
  have htaken := congrArg (fun m => m.getLsbD i) (not_not.mp hn)
  simp only [BitVec.getLsbD_and, BitVec.getLsbD_not] at hbit htaken
  grind

theorem triggered_of_has {mask : Events} (h : mask.Has ty.flag) : Triggered mask ty := by
  intro h0
  rw [BitVec.and_or_distrib_left, BitVec.and_or_distrib_left, or_eq_zero, or_eq_zero, h] at h0
  cases ty <;> exact absurd h0.1.1 (by decide)

/-- The kernel reports all events of a type that it watches for. -/
theorem triggered_watched {mask : Events} (hmask : mask.Has ty.flag) (h : Triggered events ty) :
    Triggered (events &&& (mask ||| epollErr ||| epollHup)) ty := by
  have hall : Events.Has (mask ||| epollErr ||| epollHup) (ty.flag ||| epollErr ||| epollHup) :=
    Events.has_or.mpr ⟨Events.has_or.mpr ⟨(hmask.or_right _).or_right _,
      (Events.has_or_self _ _).or_right _⟩, Events.has_or_self _ _⟩
  unfold Triggered at *
  rwa [BitVec.and_assoc, hall]

theorem triggered_ready {ready : OpType → Bool} {mask : Events} (hr : ready ty = true)
    (hmask : mask.Has ty.flag) : Triggered (readyEvents ready &&& mask) ty := by
  have hready : (readyEvents ready).Has ty.flag := by
    unfold readyEvents
    cases ty with
    | readOp =>
      rw [if_pos hr, BitVec.or_assoc, BitVec.or_comm]
      exact Events.has_or_self _ _
    | writeOp =>
      rw [if_pos hr]
      exact (Events.has_or_self _ _).or_right _
    | exceptOp =>
      rw [if_pos hr]
      exact Events.has_or_self _ _
  apply triggered_of_has
  unfold Events.Has at *
  rw [BitVec.and_assoc, hmask, hready]

-- ---------------------------------------------------------------------------
-- What must not miss an event
-- ---------------------------------------------------------------------------

/-- An operation of the type is pending, or would be queued untried. -/
def Needs (d : DescriptorState) (ty : OpType) : Prop :=
  d.opQueue ty ≠ [] ∨ d.trySpeculative ty = false

theorem performQueue_needs (f : PerformFunc) (q : OpQueue ReactorOp)
    (h : (performQueue f q).left ≠ [] ∨ (performQueue f q).trySpeculative = false) :
    ∃ c ∈ (performQueue f q).calls, c.2 ≠ .done := by
  induction q with
  | nil => simp [performQueue] at h
  | cons op rest ih =>
    cases hst : (f op).1 with
    | notDone => simp [performQueue, ReactorOp.perform, hst]
    | done =>
      simp only [performQueue, ReactorOp.perform, hst] at h ⊢
      obtain ⟨c, hc, hne⟩ := ih h
      exact ⟨c, List.mem_cons_of_mem _ hc, hne⟩
    | doneAndExhausted => simp [performQueue, ReactorOp.perform, hst]

variable {d : DescriptorState} {op : ReactorOp} {spec : Bool} {f : PerformFunc} {ctl : ErrorCode}

theorem enqueue_needs (calls : List (Nat × Status)) {ty' : OpType}
    (h : Needs (d.enqueue ty op calls).data ty') : Needs d ty' ∨ ty' = ty := by
  by_cases hty : ty' = ty
  · exact .inr hty
  · left
    simpa [Needs, DescriptorState.enqueue, DescriptorState.setQueue, hty] using h

theorem arm_needs {calls : List (Nat × Status)} {ty' : OpType}
    (h : Needs (d.arm ty op ctl calls).data ty') : Needs d ty' ∨ ty' = ty := by
  unfold arm at h
  split at h
  · exact .inl h
  split at h
  · split at h
    · exact enqueue_needs calls (d := { d with registeredEvents := _, kernelEvents := _ }) h
    · exact .inl h
  · exact enqueue_needs calls h

theorem arm_calls (calls : List (Nat × Status)) : (d.arm ty op ctl calls).calls = calls := by
  unfold arm
  split
  · rfl
  split
  · split <;> rfl
  · rfl

/-- The ways through `start_op`, with what an operation that it leaves in a
queue can count on. -/
inductive Way (d : DescriptorState) (ty : OpType) (op : ReactorOp) (spec : Bool)
    (ctl : ErrorCode) : StartOp → Prop
  | same {r : StartOp} : r.data = d → Way d ty op spec ctl r
  | exhausted {r : StartOp} : r.data = d.setSpeculative ty false →
      (∃ c ∈ r.calls, c.2 ≠ .done) → Way d ty op spec ctl r
  | armed {op' : ReactorOp} {calls : List (Nat × Status)} : d.opQueue ty = [] →
      (∃ c ∈ calls, c.2 ≠ .done) ∨ d.trySpeculative ty = false →
      Way d ty op spec ctl (d.arm ty op' ctl calls)
  | rearmed : d.Rearms ty spec → Way d ty op spec ctl ((d.rearm ty ctl).enqueue ty op [])
  | behind : d.opQueue ty ≠ [] → Way d ty op spec ctl (d.enqueue ty op [])

theorem startOp_way (d : DescriptorState) (ty : OpType) (op : ReactorOp) (spec : Bool)
    (f : PerformFunc) (ctl : ErrorCode) : Way d ty op spec ctl (d.startOp ty op spec f ctl) := by
  cases hs : d.shutdown with
  | true => exact .same (by simp [startOp, hs])
  | false =>
    by_cases hq : d.opQueue ty = []
    · simp only [startOp, hs, hq, List.isEmpty_nil, ↓reduceIte, Bool.false_eq_true]
      cases hsp : d.speculates ty spec with
      | true =>
        simp only [speculate, ↓reduceIte]
        cases htry : d.trySpeculative ty with
        | true =>
          cases hst : (f op).1 with
          | notDone =>
            simp only [ReactorOp.perform, hst, ↓reduceIte]
            exact .armed hq (.inl ⟨_, List.mem_singleton_self _, by simp⟩)
          | done =>
            simp only [ReactorOp.perform, hst, ↓reduceIte]
            exact .same rfl
          | doneAndExhausted =>
            simp only [ReactorOp.perform, hst, ↓reduceIte]
            split
            · exact .exhausted rfl ⟨_, List.mem_singleton_self _, by simp⟩
            · exact .same rfl
        | false => exact .armed hq (.inr htry)
      | false =>
        simp only [Bool.false_eq_true, ↓reduceIte]
        split
        · exact .same rfl
        · next hr => exact .rearmed ⟨hs, hq, hsp, hr⟩
    · simp only [startOp, hs, List.isEmpty_iff, hq, ↓reduceIte, Bool.false_eq_true]
      exact .behind hq

/-- `start_op` leaves behind what needs an event in no other way than these: it
needed one before, the last call of `perform()` says that an event will come, or
`epoll_ctl` is called. -/
theorem startOp_needs {ty' : OpType} (h : Needs (d.startOp ty op spec f ctl).data ty') :
    Needs d ty' ∨ (ty' = ty ∧ ((∃ c ∈ (d.startOp ty op spec f ctl).calls, c.2 ≠ .done) ∨
      d.Rearms ty spec)) := by
  have hway := startOp_way d ty op spec f ctl
  generalize d.startOp ty op spec f ctl = r at h hway ⊢
  by_cases hd : Needs d ty'
  · exact .inl hd
  right
  cases hway with
  | same hsame => exact absurd (hsame ▸ h) hd
  | exhausted hdata hcalls =>
    refine ⟨?_, .inl hcalls⟩
    by_contra hty
    rw [hdata] at h
    exact hd (by simpa [Needs, setSpeculative, hty] using h)
  | armed _ hcalls =>
    obtain rfl := (arm_needs h).resolve_left hd
    rw [arm_calls]
    exact ⟨rfl, .inl (hcalls.resolve_right fun htry => hd (.inr htry))⟩
  | rearmed hr => exact ⟨(enqueue_needs [] h).resolve_left hd, .inr hr⟩
  | behind hq =>
    obtain rfl := (enqueue_needs [] h).resolve_left hd
    exact absurd (.inl hq) hd

theorem performIo_needs (h : Needs (d.performIo events f).data ty) :
    (∃ c ∈ (d.performed events f ty).calls, c.2 ≠ .done) ∨
      (Needs d ty ∧ ¬ Triggered events ty) := by
  simp only [performIo_eq, DescriptorState.performed, Needs] at h ⊢
  by_cases ht : Triggered events ty
  · rw [if_pos ht] at h ⊢
    exact .inl (performQueue_needs f _ h)
  · rw [if_neg ht] at h
    exact .inr ⟨h, ht⟩

/-- What needs an event after a call. -/
theorem next_needs {x y : Tracked} (hn : x.next c = some y) (h : Needs y.data ty) :
    (∃ r ∈ performs x.data c ty, r.2 ≠ .done) ∨ (Needs x.data ty ∧ ¬ Triggered (takes c) ty) ∨
      ∃ op spec f ctl, c = .startOp false ty op spec f ctl ∧ x.data.Rearms ty spec := by
  have hzero : ¬ Triggered 0 ty := by simp [Triggered]
  cases c with
  | startOp null ty' op spec f ctl =>
    simp only [Tracked.next] at hn
    split at hn
    · cases hn
    cases null with
    | true =>
      cases hn
      exact .inr (.inl ⟨h, hzero⟩)
    | false =>
      cases hn
      rcases startOp_needs h with hd | ⟨rfl, hcalls | hr⟩
      · exact .inr (.inl ⟨hd, hzero⟩)
      · exact .inl (by simpa only [performs, if_true] using hcalls)
      · exact .inr (.inr ⟨op, spec, f, ctl, rfl, hr⟩)
  | performIo events f =>
    cases hn
    exact (performIo_needs h).imp id .inl
  | cancelOps null =>
    cases null with
    | true =>
      cases hn
      exact .inr (.inl ⟨h, hzero⟩)
    | false =>
      cases hn
      exact .inr (.inl ⟨.inr (h.resolve_left fun hq => hq rfl), hzero⟩)
  | deregister null closing =>
    cases null with
    | true =>
      cases hn
      exact .inr (.inl ⟨h, hzero⟩)
    | false =>
      refine .inr (.inl ⟨?_, hzero⟩)
      simp only [Tracked.next, Bool.false_eq_true, ↓reduceIte, Option.some.injEq] at hn
      subst hn
      cases hs : x.data.shutdown with
      | true => simpa only [deregister_shutdown hs] using h
      | false =>
        simp only [deregister, hs, Bool.false_eq_true, ↓reduceIte] at h
        split at h
        · exact .inr (h.resolve_left fun hq => hq rfl)
        · exact .inr (h.resolve_left fun hq => hq rfl)

theorem arm_modifies {calls : List (Nat × Status)}
    (h : (d.arm ty op ctl calls).data.kernelEvents ≠ d.kernelEvents) :
    ctl = 0 ∧ ty = .writeOp ∧ d.registeredEvents &&& epollOut = 0 ∧
      (d.arm ty op ctl calls).exit = .queued := by
  unfold arm at h ⊢
  split at h
  · exact absurd rfl h
  next h0 =>
    rw [if_neg h0]
    split at h
    next hw =>
      rw [if_pos hw]
      split at h
      next hctl => exact ⟨hctl, hw.1, hw.2, by rw [if_pos hctl]; rfl⟩
      · exact absurd rfl h
    · exact absurd rfl h

theorem modifies_of_rearms (hr : d.Rearms ty spec) :
    modifies d (.startOp false ty op spec f 0) = true := by
  simp [modifies, Tracked.startOp_of_rearms hr, hr.2.1, hr.2.2.1, DescriptorState.enqueue]

theorem startOp_modifies
    (h : (d.startOp ty op spec f ctl).data.kernelEvents ≠ d.kernelEvents) :
    modifies d (.startOp false ty op spec f ctl) = true := by
  have hway := startOp_way d ty op spec f ctl
  simp only [modifies]
  generalize d.startOp ty op spec f ctl = r at h hway ⊢
  cases hway with
  | same hsame => exact absurd (congrArg _ hsame) h
  | exhausted hdata =>
    rw [hdata] at h
    exact absurd rfl h
  | armed hq =>
    obtain ⟨rfl, rfl, hout, hexit⟩ := arm_modifies h
    simp [hexit, hq, hout]
  | rearmed hr =>
    have hctl : ctl = 0 := by
      by_contra hctl
      simp [DescriptorState.enqueue, setQueue, rearm, hctl] at h
    simp [hctl, hr.2.1, hr.2.2.1, DescriptorState.enqueue]
  | behind => exact absurd rfl h

theorem next_kernelEvents {x y : Tracked} (hn : x.next c = some y)
    (h : modifies x.data c = false) :
    y.data.kernelEvents = x.data.kernelEvents ∨ y.data.kernelEvents = 0 := by
  cases c with
  | startOp null ty op spec f ctl =>
    simp only [Tracked.next] at hn
    split at hn
    · cases hn
    cases null with
    | true =>
      cases hn
      exact .inl rfl
    | false =>
      cases hn
      left
      by_contra hne
      rw [startOp_modifies hne] at h
      cases h
  | performIo events f =>
    cases hn
    exact .inl (performIo_round x.data events f).kernelEvents
  | cancelOps null =>
    cases null with
    | true | false =>
      cases hn
      exact .inl rfl
  | deregister null closing =>
    cases null with
    | true =>
      cases hn
      exact .inl rfl
    | false =>
      simp only [Tracked.next, Bool.false_eq_true, ↓reduceIte, Option.some.injEq] at hn
      subst hn
      cases hs : x.data.shutdown with
      | true =>
        rw [deregister_shutdown hs]
        exact .inl rfl
      | false =>
        simp only [deregister, hs, Bool.false_eq_true, ↓reduceIte]
        split
        · exact .inr rfl
        · exact .inl rfl

-- ---------------------------------------------------------------------------
-- The invariant
-- ---------------------------------------------------------------------------

structure Invariant (p : Polled) : Prop where
  watched : p.tracked.data.shutdown = false → Tracked.Watched p.tracked.data
  idle : p.tracked.data.shutdown = true → p.tracked.data.pending = []
  needs : ∀ ty, Needs p.tracked.data ty → p.tracked.data.kernelEvents.Has ty.flag →
    p.ready ty = true → p.Coming ty

theorem Invariant.served (h : p.Invariant) : p.Served where
  inStep := Tracked.Watched.inStep h.watched
  coming := by
    intro ty hq
    cases hs : p.tracked.data.shutdown with
    | true => exact absurd (pending_eq_nil.mp (h.idle hs) ty) hq
    | false =>
      have hmask := (Tracked.Watched.inStep h.watched hs).2 ty hq
      exact h.needs ty (.inl hq) (Events.has_or.mp hmask).2

theorem has_ne_zero {mask : Events} (h : mask.Has ty.flag) : mask ≠ 0 := by
  rintro rfl
  exact triggered_of_has h (by simp)

/-- An edge keeps the events that come, and brings those of the types that it
makes ready. -/
theorem coming_edge (hmask : p.tracked.data.kernelEvents.Has ty.flag)
    (h : p.ready ty = true → p.Coming ty) (hready : (p.edge events).ready ty = true) :
    (p.edge events).Coming ty := by
  simp only [edge, Bool.or_eq_true, decide_eq_true_eq] at hready
  simp only [Coming, edge, if_neg (has_ne_zero hmask)]
  rcases hready with hr | ht
  · rcases triggered_or.mp (h hr) with ha | hd
    · exact triggered_or.mpr (.inl (triggered_or.mpr (.inl ha)))
    · exact triggered_or.mpr (.inr hd)
  · exact triggered_or.mpr (.inl (triggered_or.mpr (.inr (triggered_watched hmask ht))))

theorem performed_of_rearms {op : ReactorOp} (hr : p.tracked.data.Rearms ty spec) :
    p.performed (.startOp false ty op spec f ctl) = p := by
  have hdue : p.due &&& ~~~(0 : Events) = p.due := by
    have hones : ~~~(0 : Events) = BitVec.allOnes 32 := by decide
    rw [hones, BitVec.and_allOnes]
  simp only [performed, performs, takes, Tracked.startOp_of_rearms hr, DescriptorState.enqueue,
    ite_self, List.all_nil, Bool.and_true, hdue]

theorem Invariant.call {x : Tracked} {between : Events} (h : p.Invariant)
    (hn : p.tracked.next c = some x) (hok : p.RearmsInTime (.call c between)) :
    (((p.performed c).edge between).control (modifies p.tracked.data c) x).Invariant := by
  have hstep := Tracked.next_cases hn
  refine ⟨hstep.watched h.watched hok.1, ?_, fun ty hneeds hmask hready => ?_⟩
  · intro hs
    simp only [control] at hs ⊢
    cases hstep with
    | null | cancelNull | deregisterNull | deregisterAgain => exact h.idle hs
    | startOp _ hr =>
      obtain ⟨hshut, hsame⟩ := Tracked.Exits.shutdown_eq hr
      have hd := hshut.symm.trans hs
      rw [Tracked.startOp_data, hsame hd]
      exact h.idle hd
    | performIo hr =>
      have hempty := pending_eq_nil.mp (h.idle (hr.shutdown.symm.trans hs))
      exact pending_eq_nil.mpr fun ty => hr.emptied ty (hempty ty)
    | cancelOps => exact drain_pending _
    | deregister _ _ hpending => exact hpending
  · have h0 := has_ne_zero hmask
    simp only [control] at hmask hready h0
    simp only [Coming, control, if_neg h0]
    cases hmod : modifies p.tracked.data c with
    | true =>
      rw [if_pos rfl]
      exact triggered_or.mpr (.inl (triggered_or.mpr (.inr (triggered_ready hready hmask))))
    | false =>
      rw [if_neg (by simp)]
      have hold : p.tracked.data.kernelEvents.Has ty.flag :=
        (next_kernelEvents hn hmod).resolve_right h0 ▸ hmask
      rcases next_needs hn hneeds with ⟨r, hr, hne⟩ | ⟨hd, ht⟩ | ⟨op, spec, f, ctl, rfl, hr⟩
      · refine coming_edge (p := p.performed c) hold (fun hp => ?_) hready
        simp only [performed, Bool.and_eq_true, List.all_eq_true] at hp
        exact absurd (hp.2 r hr) (by simpa using hne)
      · refine coming_edge (p := p.performed c) hold (fun hp => ?_) hready
        simp only [performed, Bool.and_eq_true] at hp
        rcases triggered_or.mp (h.needs ty hd hold hp.1) with ha | hdue
        · exact triggered_or.mpr (.inl ha)
        · exact triggered_or.mpr (.inr (triggered_and_not hdue ht))
      · have hctl : ctl ≠ 0 := by
          rintro rfl
          rw [modifies_of_rearms hr] at hmod
          cases hmod
        rw [performed_of_rearms hr] at hready ⊢
        exact hok.2 hr hctl hready

theorem Invariant.next {a : PolledAction} (h : p.Invariant) (hok : p.RearmsInTime a)
    (hn : p.next a = some p') : p'.Invariant := by
  cases a with
  | call c between =>
    obtain ⟨x, hx, rfl⟩ := Option.map_eq_some_iff.mp hn
    exact h.call hx hok
  | edge events =>
    cases hn
    exact ⟨h.watched, h.idle, fun ty hd hmask => coming_edge hmask (h.needs ty hd hmask)⟩
  | unready ty =>
    cases hn
    refine ⟨h.watched, h.idle, fun ty' hd hmask hready => h.needs ty' hd hmask ?_⟩
    by_cases hty : ty' = ty
    · simp [hty] at hready
    · simpa [hty] using hready
  | report =>
    cases hn
    refine ⟨h.watched, h.idle, fun ty hd hmask hready => ?_⟩
    rcases triggered_or.mp (h.needs ty hd hmask hready) with ha | hdue
    · exact triggered_or.mpr (.inr (triggered_or.mpr (.inr ha)))
    · exact triggered_or.mpr (.inr (triggered_or.mpr (.inl hdue)))

theorem invariant_new {descriptor : Int} {ctl : ErrorCode} (ready : OpType → Bool)
    (h : (register descriptor ctl).2 = 0) :
    (new (register descriptor ctl).1 ready).Invariant := by
  have hqueue : ∀ ty, (register descriptor ctl).1.opQueue ty = [] :=
    pending_eq_nil.mp (List.map_eq_nil_iff.mp (register_pending descriptor ctl))
  have htry : (register descriptor ctl).1.trySpeculative = fun _ => true := by
    unfold register
    split
    · rfl
    · split <;> rfl
  refine ⟨fun _ => Tracked.Watched.register h, fun _ => pending_eq_nil.mpr hqueue,
    fun ty hd => ?_⟩
  rcases hd with hq | hspec
  · exact absurd (hqueue ty) hq
  · exact absurd hspec (by simp [new, Tracked.new, htry])

/-- A step that is not in time spoils the mask, or strands an operation, at
once. -/
theorem not_served {a : PolledAction} (h : p.Invariant) (hok : ¬ p.RearmsInTime a)
    (hn : p.next a = some p') : ¬ p'.Served := by
  intro hserved
  cases a with
  | call c between =>
    obtain ⟨x, hx, rfl⟩ := Option.map_eq_some_iff.mp hn
    by_cases hharm : p.tracked.RearmsHarmlessly c
    · have hlate := not_and.mp hok hharm
      cases c with
      | startOp null ty op spec f ctl =>
        cases null with
        | true => exact hlate trivial
        | false =>
          simp only [Classical.not_imp] at hlate
          obtain ⟨hr, hctl, hready, hnone⟩ := hlate
          simp only [Tracked.next, Tracked.startOp_of_rearms hr, Bool.false_eq_true,
            ↓reduceIte] at hx
          split at hx
          · cases hx
          cases hx
          have hcoming := hserved.coming ty
            (by simp [control, DescriptorState.enqueue]) (by rwa [performed_of_rearms hr])
          rw [performed_of_rearms hr] at hcoming
          have hmod : modifies p.tracked.data (.startOp false ty op spec f ctl) = false := by
            simp [modifies, hctl]
          simp only [Coming, control, hmod, Bool.false_eq_true, ↓reduceIte] at hcoming
          rcases triggered_or.mp hcoming with ha | hdue
          · split at ha
            · exact absurd ha (by simp [Triggered])
            · exact hnone (triggered_or.mpr (.inl ha))
          · exact hnone (triggered_or.mpr (.inr hdue))
      | performIo | cancelOps | deregister => exact hlate trivial
    · exact Tracked.not_inStep hx h.watched hharm hserved.inStep
  | edge | unready | report => exact hok trivial

/-- In every run of a registered descriptor, whatever becomes of it between and
during the calls, an event is coming for every operation that is pending while
the descriptor is ready for it, if and only if no `start_op` that reaches the
last branch spoils the mask or is refused an event that it needs. -/
theorem not_stranded_iff (descriptor : Int) (ctl : ErrorCode)
    (h : (register descriptor ctl).2 = 0) (ready : OpType → Bool) (run : List PolledAction) :
    AllStates next Served (new (register descriptor ctl).1 ready) run ↔
      AllSteps next RearmsInTime (new (register descriptor ctl).1 ready) run :=
  allStates_iff_allSteps (I := Invariant) (fun _ hp => hp.served)
    (fun _ _ _ hp _ hok hn => hp.next hok hn) (fun _ _ _ hp _ hok hn => not_served hp hok hn)
    (invariant_new ready h)

/-- A read is queued, and data come before it is performed. -/
def readQueued : List PolledAction :=
  [.call (.startOp false .readOp ⟨0, 0⟩ true (fun _ => (.notDone, 11)) 0) epollIn, .report,
    .call (.performIo epollIn fun _ => (.done, 0)) 0]

theorem not_stranded_readQueued :
    AllStates next Served (new (register 5 0).1 fun _ => false) readQueued := by
  refine (not_stranded_iff 5 0 rfl _ _).mpr
    ⟨⟨fun _ h => ?_, fun h => ?_⟩, trivial, ⟨trivial, trivial⟩, trivial⟩
  · exact absurd h (by decide)
  · exact absurd h (by decide)

/-- Data come while nothing is pending; a read that may not be tried at once is
queued then, although `epoll_ctl` fails. -/
def refusedRead : List PolledAction :=
  [.edge epollIn, .report, .call (.performIo epollIn fun _ => (.done, 0)) 0,
    .call (.startOp false .readOp ⟨0, 0⟩ false (fun _ => (.done, 0)) 12) 0]

theorem refusedRead_stranded : ∃ p, exec next (new (register 5 0).1 fun _ => false) refusedRead =
    some p ∧ p.ready .readOp = true ∧ p.tracked.data.opQueue .readOp = [⟨0, 0⟩] ∧
      ¬ p.Coming .readOp :=
  ⟨_, rfl, rfl, rfl, by unfold Coming; decide⟩

end Polled

end BoostAsio
