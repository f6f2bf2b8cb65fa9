import BoostAsio.DescriptorRuns

/-!
# The interest mask

`registered_events_` is meant to be the mask the kernel accepted last, and to
hold the flag of every type with a pending operation. The speculative path of
`start_op` keeps it so. Its last branch does not: for a write it clears every
bit but `EPOLLOUT` from `registered_events_`, and for any type it gives the
kernel `EPOLLOUT` without recording it.

`inStep_iff` says for every run exactly when the mask stays right.
-/

namespace BoostAsio

open Runs

def Events.Has (mask flags : Events) : Prop := mask &&& flags = flags

instance (mask flags : Events) : Decidable (mask.Has flags) :=
  inferInstanceAs (Decidable (_ = _))

theorem Events.has_or {mask a b : Events} :
    Events.Has mask (a ||| b) ↔ Events.Has mask a ∧ Events.Has mask b := by
  unfold Events.Has
  constructor
  · intro h
    have bits := fun i => congrArg (fun m => m.getLsbD i) h
    simp only [BitVec.getLsbD_and, BitVec.getLsbD_or] at bits
    constructor <;> ext i hi <;> have := bits i <;> grind
  · rintro ⟨ha, hb⟩
    rw [BitVec.and_or_distrib_left, ha, hb]

theorem Events.Has.or_right {mask a : Events} (h : Events.Has mask a) (b : Events) :
    Events.Has (mask ||| b) a := by
  unfold Events.Has at *
  rw [BitVec.and_comm, BitVec.and_or_distrib_left, BitVec.and_comm a mask, h]
  ext i hi
  simp only [BitVec.getElem_or, BitVec.getElem_and]
  cases a[i] <;> simp

theorem Events.has_or_self (mask a : Events) : Events.Has (mask ||| a) a := by
  unfold Events.Has
  ext i hi
  simp only [BitVec.getElem_or, BitVec.getElem_and]
  cases a[i] <;> simp

namespace Tracked

open DescriptorState

/-- Until the descriptor is deregistered, `registered_events_` is the mask the
kernel accepted last, and it has `EPOLLET` and the flag of every type with a
pending operation. -/
def InStep (x : Tracked) : Prop :=
  x.data.shutdown = false →
    x.data.registeredEvents = x.data.kernelEvents ∧
    ∀ ty, x.data.opQueue ty ≠ [] → x.data.kernelEvents.Has (epollEt ||| ty.flag)

/-- A `start_op` that reaches the last branch does no harm where it is not a
write, and either `EPOLLOUT` is registered already or the kernel refuses. -/
def RearmsHarmlessly (x : Tracked) : DescriptorCall → Prop
  | .startOp null ty _ allowSpeculative _ ctl =>
    null = false → x.data.Rearms ty allowSpeculative →
      ty ≠ .writeOp ∧ (x.data.registeredEvents &&& epollOut ≠ 0 ∨ ctl ≠ 0)
  | _ => True

/-- What keeps the mask right: a descriptor the kernel does not watch has
nothing pending, any other is watched for what `register_descriptor` asked, and
for `EPOLLOUT` while a write is pending. -/
structure Watched (d : DescriptorState) : Prop where
  same : d.registeredEvents = d.kernelEvents
  initial : d.registeredEvents = 0 ∨ d.registeredEvents.Has initialEvents
  idle : d.registeredEvents = 0 → d.pending = []
  write : d.opQueue .writeOp ≠ [] → d.registeredEvents.Has epollOut

theorem Watched.inStep {x : Tracked} (h : x.data.shutdown = false → Watched x.data) :
    x.InStep := by
  intro hs
  have hw := h hs
  refine ⟨hw.same, fun ty hty => ?_⟩
  rw [← hw.same]
  have hne : x.data.registeredEvents ≠ 0 := by
    intro h0
    exact hty (pending_eq_nil.mp (hw.idle h0) ty)
  have hinit := hw.initial.resolve_left hne
  simp only [initialEvents, Events.has_or] at hinit
  refine Events.has_or.mpr ⟨hinit.2, ?_⟩
  cases ty with
  | readOp => exact hinit.1.1.1.1
  | writeOp => exact hw.write hty
  | exceptOp => exact hinit.1.2

theorem Watched.register {descriptor : Int} {ctl : ErrorCode}
    (h : (register descriptor ctl).2 = 0) : Watched (register descriptor ctl).1 := by
  by_cases hctl : ctl = 0
  · subst hctl
    exact ⟨rfl, .inr BitVec.and_self, fun _ => rfl, fun h => absurd rfl h⟩
  · by_cases hp : ctl = eperm
    · subst hp
      exact ⟨rfl, .inl rfl, fun _ => rfl, fun h => absurd rfl h⟩
    · simp [DescriptorState.register, hctl, hp] at h

theorem Watched.enqueue {d : DescriptorState} (hw : Watched d) {ty : OpType} {op : ReactorOp}
    {calls : List (Nat × Status)} (h0 : d.registeredEvents ≠ 0)
    (hout : ty = .writeOp → d.registeredEvents.Has epollOut) :
    Watched (d.enqueue ty op calls).data where
  same := hw.same
  initial := hw.initial
  idle := fun h => absurd h h0
  write := by
    intro hq
    cases ty with
    | writeOp => exact hout rfl
    | readOp => exact hw.write (by simpa [DescriptorState.enqueue] using hq)
    | exceptOp => exact hw.write (by simpa [DescriptorState.enqueue] using hq)

theorem Watched.nonzero {d : DescriptorState} (hw : Watched d) {ty : OpType}
    (hq : d.opQueue ty ≠ []) : d.registeredEvents ≠ 0 :=
  fun h0 => hq (pending_eq_nil.mp (hw.idle h0) ty)

/-- A change that touches neither mask and queues nothing new. -/
theorem Watched.mono {d d' : DescriptorState} (hw : Watched d)
    (hr : d'.registeredEvents = d.registeredEvents) (hk : d'.kernelEvents = d.kernelEvents)
    (hq : ∀ ty, d.opQueue ty = [] → d'.opQueue ty = []) : Watched d' where
  same := by rw [hr, hk, hw.same]
  initial := by rw [hr]; exact hw.initial
  idle := by
    rw [hr]
    intro h0
    exact pending_eq_nil.mpr fun ty => hq ty (pending_eq_nil.mp (hw.idle h0) ty)
  write := by
    rw [hr]
    exact fun h => hw.write fun h' => h (hq _ h')

theorem Has.of_and_ne_zero {mask : Events} (h : mask &&& epollOut ≠ 0) : mask.Has epollOut := by
  unfold Events.Has
  have hle : ∀ m : Events, m &&& epollOut = 0 ∨ m &&& epollOut = epollOut := by
    intro m
    have : epollOut = BitVec.twoPow 32 2 := rfl
    rw [this, BitVec.and_twoPow]
    split <;> simp
  exact (hle mask).resolve_left h

theorem Exits.watched {d : DescriptorState} {ty : OpType} {op : ReactorOp} {spec : Bool}
    {ctl : ErrorCode} {r : StartOp} (h : Exits d ty op spec ctl r) (hw : Watched d)
    (hok : d.Rearms ty spec → ty ≠ .writeOp ∧ (d.registeredEvents &&& epollOut ≠ 0 ∨ ctl ≠ 0)) :
    Watched r.data := by
  cases h with
  | shutdown => exact hw
  | performed _ _ _ hd =>
    rcases hd with rfl | rfl
    · exact hw
    · exact hw.mono rfl rfl fun _ h => h
  | unsupported => exact hw
  | refused => exact hw
  | armed _ hty _ h0 =>
    refine Watched.enqueue ⟨?_, .inr ?_, fun h => ?_, fun _ => ?_⟩ ?_ fun _ => ?_
    · simp only [← BitVec.or_assoc, BitVec.or_self]
    · exact (hw.initial.resolve_left h0).or_right _
    · exact absurd ((BitVec.or_eq_zero_iff).mp h).1 h0
    · simp only [← BitVec.or_assoc]
      exact Events.has_or_self _ _
    · exact fun h => h0 ((BitVec.or_eq_zero_iff).mp h).1
    · simp only [← BitVec.or_assoc]
      exact Events.has_or_self _ _
  | rearmed hr =>
    obtain ⟨hty, hout⟩ := hok hr
    refine Watched.enqueue ?_ ?_ (fun h => absurd h hty)
    · have hsame : (d.rearm ty ctl).registeredEvents = d.registeredEvents := by
        simp [rearm, hty]
      refine hw.mono hsame ?_ fun _ h => h
      simp only [rearm, hty, ↓reduceIte]
      split
      · rename_i hctl
        have := Has.of_and_ne_zero (hout.resolve_right (not_not.mpr hctl))
        rw [← hw.same]
        ext i hi
        have := congrArg (fun m => m.getLsbD i) this
        simp only [BitVec.getLsbD_and] at this
        grind
      · rfl
    · simpa [rearm, hty] using hr.2.2.2
  | queued _ hq =>
    rcases hq with hq | ⟨h0, hout⟩
    · refine hw.enqueue (hw.nonzero hq) fun h => ?_
      subst h
      exact hw.write hq
    · exact hw.enqueue h0 fun h => Has.of_and_ne_zero (hout h)

theorem Step.watched {x y : Tracked} {c : DescriptorCall} (h : Step x c y)
    (hx : x.data.shutdown = false → Watched x.data) (hok : x.RearmsHarmlessly c) :
    y.data.shutdown = false → Watched y.data := by
  intro hs
  have hs' : x.data.shutdown = false := by
    cases hx' : x.data.shutdown with
    | false => rfl
    | true => simp [h.shutdown hx'] at hs
  have hw := hx hs'
  cases h with
  | null => exact hw
  | startOp _ hr => exact Exits.watched hr hw (hok rfl)
  | performIo hr => exact hw.mono hr.registeredEvents hr.kernelEvents hr.emptied
  | cancelOps => exact hw.mono rfl rfl fun _ _ => rfl
  | deregister _ hd => simp [hd] at hs
  | cancelNull => exact hw
  | deregisterNull => exact hw
  | deregisterAgain => exact hw

/-- The last branch of `start_op`, taken where it does harm. -/
theorem rearm_breaks {d : DescriptorState} (hw : Watched d) {ty : OpType} {ctl : ErrorCode}
    (h0 : d.registeredEvents ≠ 0)
    (hbad : ty = .writeOp ∨ (d.registeredEvents &&& epollOut = 0 ∧ ctl = 0)) :
    (d.rearm ty ctl).registeredEvents ≠ (d.rearm ty ctl).kernelEvents ∨
      (ty = .writeOp ∧ ¬ (d.rearm ty ctl).kernelEvents.Has epollEt) := by
  have hin : d.registeredEvents.Has epollIn := by
    have := hw.initial.resolve_left h0
    simp only [initialEvents, Events.has_or] at this
    exact this.1.1.1.1
  by_cases hty : ty = .writeOp
  · by_cases hctl : ctl = 0
    · refine .inr ⟨hty, ?_⟩
      simp only [rearm, hty, hctl, ↓reduceIte, Events.Has]
      have : d.registeredEvents &&& epollOut ||| epollOut = epollOut := by
        ext i hi
        simp
      rw [this]
      decide
    · left
      simp only [rearm, hty, hctl, ↓reduceIte, ← hw.same]
      intro h
      rw [Events.Has, ← h, BitVec.and_assoc] at hin
      have : epollOut &&& epollIn = 0 := by decide
      rw [this] at hin
      simp [epollIn] at hin
  · obtain ⟨hout, hctl⟩ := hbad.resolve_left hty
    left
    simp only [rearm, hty, hctl, ↓reduceIte]
    intro h
    have := Events.has_or_self d.registeredEvents epollOut
    rw [Events.Has, ← h, hout] at this
    simp [epollOut] at this

theorem startOp_of_rearms {d : DescriptorState} {ty : OpType} {op : ReactorOp} {spec : Bool}
    {f : PerformFunc} {ctl : ErrorCode} (h : d.Rearms ty spec) :
    d.startOp ty op spec f ctl = (d.rearm ty ctl).enqueue ty op [] := by
  obtain ⟨hs, hq, hsp, h0⟩ := h
  simp only [DescriptorState.startOp, hs, hq, hsp, List.isEmpty_nil, Bool.false_eq_true,
    ↓reduceIte, if_neg h0]

theorem not_inStep {x y : Tracked} {c : DescriptorCall} (hn : x.next c = some y)
    (hx : x.data.shutdown = false → Watched x.data) (hok : ¬ x.RearmsHarmlessly c) :
    ¬ y.InStep := by
  cases c with
  | startOp null ty op spec f ctl =>
    simp only [RearmsHarmlessly, Classical.not_imp] at hok
    obtain ⟨rfl, hr, hbad⟩ := hok
    have hw := hx hr.1
    simp only [next, startOp_of_rearms hr, Bool.false_eq_true, ↓reduceIte] at hn
    split at hn
    · cases hn
    cases hn
    intro h
    obtain ⟨hsame, hflags⟩ := h hr.1
    have hbad' : ty = .writeOp ∨ (x.data.registeredEvents &&& epollOut = 0 ∧ ctl = 0) := by
      by_cases hty : ty = .writeOp
      · exact .inl hty
      · exact .inr (by simpa [hty] using hbad)
    rcases rearm_breaks hw hr.2.2.2 hbad' with h1 | ⟨rfl, h2⟩
    · exact h1 hsame
    · refine h2 (Events.has_or.mp (hflags .writeOp ?_)).1
      simp [startOp_data, DescriptorState.enqueue]
  | performIo => exact absurd trivial hok
  | cancelOps => exact absurd trivial hok
  | deregister => exact absurd trivial hok

/-- In every run of calls on a registered descriptor the interest mask is right
in every state if and only if every `start_op` that reaches the last branch is
not a write and finds `EPOLLOUT` registered or `epoll_ctl` refusing. -/
theorem inStep_iff (descriptor : Int) (ctl : ErrorCode) (h : (register descriptor ctl).2 = 0)
    (run : List DescriptorCall) :
    AllStates next InStep (.new (register descriptor ctl).1) run ↔
      AllSteps next RearmsHarmlessly (.new (register descriptor ctl).1) run :=
  allStates_iff_allSteps (I := fun x => x.data.shutdown = false → Watched x.data)
    (fun _ hx => Watched.inStep hx) (fun _ _ _ hx _ hok hn => (next_cases hn).watched hx hok)
    (fun _ _ _ hx _ hok hn => not_inStep hn hx hok) fun _ => Watched.register h

/-- A speculative write and a read behind it. -/
theorem inStep_speculative :
    AllStates next InStep (.new (register 5 0).1)
      [.startOp false .writeOp ⟨0, 0⟩ true (fun _ => (.notDone, 11)) 0,
        .startOp false .readOp ⟨1, 0⟩ true (fun _ => (.notDone, 11)) 0] := by
  refine (inStep_iff 5 0 rfl _).mpr ⟨fun _ h => ?_, fun _ h => ?_, trivial⟩
  · exact absurd h (by decide)
  · exact absurd h (by decide)

/-- A read waits for data when a write that may not be tried at once is
started: the kernel is left with `EPOLLOUT` alone. -/
theorem write_strands_read :
    ¬ ∀ (descriptor : Int) (ctl : ErrorCode), (register descriptor ctl).2 = 0 →
      ∀ run, AllStates next InStep (.new (register descriptor ctl).1) run := by
  intro h
  have hrun := h 5 0 rfl [.startOp false .readOp ⟨0, 0⟩ true (fun _ => (.notDone, 11)) 0,
    .startOp false .writeOp ⟨1, 0⟩ false (fun _ => (.notDone, 11)) 0]
  have hlast := (hrun.2.2 rfl).2 .readOp (by decide)
  revert hlast
  decide

end Tracked

end BoostAsio
