import BoostAsio.Lib.Loops
import BoostAsio.Lib.Threads
import BoostAsio.SocketClose

/-!
# The file descriptors of the process

Sockets, interrupters and reactors open descriptors and close them later, on
any thread. The kernel hands out a number that is not in use, so that a
descriptor that is closed twice may by then be another's.

A system call is one step, and a call of `socket_ops::close` up to four. Each
descriptor is closed by the one that opened it and by no other, along a run, if
and only if no call of `socket_ops::close` goes on to its second `::close`
(`descriptors_owned_iff`). Constructors that throw lose none.
-/

namespace BoostAsio

open Loops Runs

-- ---------------------------------------------------------------------------
-- close, one system call at a time
-- ---------------------------------------------------------------------------

namespace SocketOps

inductive CloseStage
  | first
  | getFlags
  | setFlags (flags : Int)
  | second
  deriving DecidableEq

namespace CloseStage

def call (sockfd : Int) : CloseStage → SystemCall
  | .first | .second => .close sockfd
  | .getFlags => .fcntlGetFlags sockfd
  | .setFlags flags => .fcntlSetFlags sockfd (BitVec.ofInt 32 flags &&& ~~~oNonblock)

def next (o : Outcome) : CloseStage → Option CloseStage
  | .first =>
    if o.result ≠ 0 ∧ (o.errno ≠ operationWouldBlock ∨ o.errno ≠ resourceUnavailableTryAgain) then
      some .getFlags
    else none
  | .getFlags => some (if 0 ≤ o.result then .setFlags o.result else .second)
  | .setFlags _ => some .second
  | .second => none

theorem next_first (o : Outcome) :
    CloseStage.first.next o = none ↔ o.result = 0 ∨ o = .wouldBlock := by
  have hagain : o.result ≠ 0 ∧ (o.errno ≠ operationWouldBlock ∨
      o.errno ≠ resourceUnavailableTryAgain) ↔ ¬ (o.result = 0 ∨ o = .wouldBlock) := by
    rw [Outcome.eq_wouldBlock_iff, not_or]
    exact and_congr_right fun _ => or_self_iff
  simp only [next, hagain]
  split
  · next h => simp [h]
  · next h => simpa only [true_iff] using not_not.mp h

end CloseStage

/-- The system calls made so far, and the one to be made next. -/
def closeTurn (k : Kernel) (sockfd : Int)
    (r : Option CloseStage × List (SystemCall × Outcome)) :
    Option (Option CloseStage × List (SystemCall × Outcome)) :=
  r.1.map fun stage =>
    let o := k r.2.length
    (stage.next o, r.2 ++ [(stage.call sockfd, o)])

theorem systemCall_result (k : Kernel) (call : SystemCall) (x : Exchange) :
    (systemCall k call x).1 = (k x.calls.length).result := by
  simp only [systemCall]
  cases k x.calls.length <;> rfl

theorem systemCall_calls (k : Kernel) (call : SystemCall) (x : Exchange) :
    (systemCall k call x).2.calls = x.calls ++ [(call, k x.calls.length)] := by
  simp only [systemCall]
  cases k x.calls.length <;> rfl

theorem clearCurrentError_calls (flag : Bool) (x : Exchange) :
    (clearCurrentError flag x).calls = x.calls := by
  cases flag <;> rfl

/-- `close` makes the system calls of its stages. -/
theorem close_stages (k : Kernel) (sockfd : Int) (hvalid : sockfd ≠ invalidSocket)
    (state : StateType) (destruction : Bool) (errno ec : ErrorCode) :
    Ends (closeTurn k sockfd) (some .first, [])
      (none, (close k sockfd state destruction { errno, ec }).2.2.calls) := by
  have hstep {stage : CloseStage} {calls : List (SystemCall × Outcome)}
      {t : Option CloseStage × List (SystemCall × Outcome)}
      (h : Ends (closeTurn k sockfd) (stage.next (k calls.length),
        calls ++ [(stage.call sockfd, k calls.length)]) t) :
      Ends (closeTurn k sockfd) (some stage, calls) t :=
    .turn rfl h
  refine hstep ?_
  simp only [close, hvalid, if_false, errorWrapper_systemCall, List.length_nil]
  by_cases hagain : (k 0).result ≠ 0 ∧ ((k 0).errno ≠ operationWouldBlock ∨
      (k 0).errno ≠ resourceUnavailableTryAgain)
  · simp only [CloseStage.next, if_pos hagain]
    refine hstep ?_
    by_cases hflags : 0 ≤ (k 1).result
    · simp only [CloseStage.next, List.nil_append, List.length_singleton, if_pos hflags]
      refine hstep (hstep ?_)
      simp only [CloseStage.next, CloseStage.call, List.cons_append, List.nil_append,
        List.length_cons, List.length_nil, zero_add, Nat.reduceAdd, systemCall_result, hflags,
        if_true, systemCall_calls, clearCurrentError_calls]
      exact .done rfl
    · simp only [CloseStage.next, List.nil_append, List.length_singleton, if_neg hflags]
      refine hstep ?_
      simp only [CloseStage.next, CloseStage.call, List.cons_append, List.nil_append,
        List.length_cons, List.length_nil, zero_add, Nat.reduceAdd, systemCall_result, hflags,
        if_false, systemCall_calls, clearCurrentError_calls]
      exact .done rfl
  · simp only [CloseStage.next, if_neg hagain, clearCurrentError_calls]
    exact .done rfl

end SocketOps

-- ---------------------------------------------------------------------------
-- Descriptors and their owners
-- ---------------------------------------------------------------------------

open SocketOps

/-- What closes descriptors at its end; `none` is the `fd_` of -1. -/
inductive DescriptorOwner
  | socket (sockfd : Nat)
  | selectInterrupter (fd : Option Nat)
  | epollReactor (interrupter epollFd : Nat)
  deriving DecidableEq

@[simp] def DescriptorOwner.fds : DescriptorOwner → List Nat
  | .socket sockfd => [sockfd]
  | .selectInterrupter fd => fd.toList
  | .epollReactor interrupter epollFd => [interrupter, epollFd]

structure FileDescriptors where
  opened : Finset Nat
  /-- those of the rest of the process -/
  others : Finset Nat
  owners : List DescriptorOwner := []
  deriving DecidableEq

inductive DescriptorPlace
  | outside
  | closing (sockfd : Nat) (stage : CloseStage)
  /-- in `epoll_reactor::epoll_reactor`, before `do_epoll_create` -/
  | constructing (interrupter : Nat)
  /-- before `~select_interrupter` of a reactor's `interrupter_` -/
  | destroying (interrupter : Nat)
  /-- in `recreate`, after `close_descriptors` -/
  | recreating
  deriving DecidableEq

/-- A label carries the outcome of its system call. -/
inductive DescriptorAction
  /-- `socket`, or `accept` -/
  | socket (o : Outcome)
  | close (sockfd : Nat)
  | newInterrupter (o : Outcome)
  | recreate (fd : Option Nat) (o : Outcome)
  | deleteInterrupter (fd : Option Nat) (o : Outcome)
  | newReactor (o : Outcome)
  | deleteReactor (interrupter epollFd : Nat) (o : Outcome)
  /-- the next system call of the function that the thread is in -/
  | next (o : Outcome)

namespace FileDescriptors

def openFd (s : FileDescriptors) : Outcome → Option (FileDescriptors × Option Nat)
  | .ok fd =>
    if fd ∈ s.opened then none else some ({ s with opened := insert fd s.opened }, some fd)
  | .failed _ => some (s, none)

/-- `::close`, which leaves the number free for others whatever error it
returns. -/
def closeFd (s : FileDescriptors) (fd : Nat) (o : Outcome) : Option FileDescriptors :=
  if fd ∈ s.opened ↔ o.errno ≠ badFileDescriptor then
    some { s with opened := s.opened.erase fd }
  else none

/-- `select_interrupter::close_descriptors` -/
def closeDescriptors (s : FileDescriptors) (o : Outcome) : Option Nat → Option FileDescriptors
  | none => some s
  | some fd => s.closeFd fd o

def add (s : FileDescriptors) (x : DescriptorOwner) : FileDescriptors :=
  { s with owners := x :: s.owners }

/-- The end of an object, or its use by one thread. -/
def remove (s : FileDescriptors) (x : DescriptorOwner) : Option FileDescriptors :=
  if x ∈ s.owners then some { s with owners := s.owners.erase x } else none

def closingAt (sockfd : Nat) (stage : Option CloseStage) : DescriptorPlace :=
  stage.elim .outside (.closing sockfd)

def step {ι : Type} (_ : ι) (a : DescriptorAction) (s : FileDescriptors) (t : DescriptorPlace) :
    Option (FileDescriptors × DescriptorPlace) :=
  match t, a with
  | .outside, .socket o => do
    match ← s.openFd o with
    | (s, some fd) => some (s.add (.socket fd), .outside)
    | (s, none) => some (s, .outside)
  | .outside, .close sockfd => do some (← s.remove (.socket sockfd), .closing sockfd .first)
  | .closing sockfd stage, .next o => do
    let s ← match stage with
      | .first | .second => s.closeFd sockfd o
      | .getFlags | .setFlags _ => some s
    some (s, closingAt sockfd (stage.next o))
  | .outside, .newInterrupter o => do
    match ← s.openFd o with
    | (s, some fd) => some (s.add (.selectInterrupter fd), .outside)
    | (s, none) => some (s, .outside)
  | .outside, .recreate fd o => do
    some (← (← s.remove (.selectInterrupter fd)).closeDescriptors o fd, .recreating)
  | .recreating, .next o => do
    -- `fd_` stays -1 where `eventfd` fails and the function throws
    let (s, fd) ← s.openFd o
    some (s.add (.selectInterrupter fd), .outside)
  | .outside, .deleteInterrupter fd o => do
    some (← (← s.remove (.selectInterrupter fd)).closeDescriptors o fd, .outside)
  | .outside, .newReactor o => do
    match ← s.openFd o with
    | (s, some fd) => some (s, .constructing fd)
    | (s, none) => some (s, .outside)
  | .constructing interrupter, .next o => do
    match ← s.openFd o with
    | (s, some fd) => some (s.add (.epollReactor interrupter fd), .outside)
    -- the constructor throws, and `interrupter_` is destroyed
    | (s, none) => some (s, .destroying interrupter)
  | .outside, .deleteReactor interrupter epollFd o => do
    some (← (← s.remove (.epollReactor interrupter epollFd)).closeFd epollFd o,
      .destroying interrupter)
  | .destroying interrupter, .next o => do
    some (← s.closeFd interrupter o, .outside)
  | _, _ => none

end FileDescriptors

/-- The descriptors that the function a thread is in is to close. -/
@[simp] def DescriptorPlace.fds : DescriptorPlace → List Nat
  | .outside | .recreating => []
  | .closing fd _ | .constructing fd | .destroying fd => [fd]

abbrev DescriptorThreads (ι : Type) := Threads ι FileDescriptors DescriptorPlace

namespace DescriptorThreads

variable {ι : Type} [DecidableEq ι]

/-- A process with the descriptors of its other code. -/
def start (others : Finset Nat) : DescriptorThreads ι :=
  ⟨{ opened := others, others }, fun _ => .outside⟩

def next : DescriptorThreads ι → ι × DescriptorAction → Option (DescriptorThreads ι) :=
  Threads.next FileDescriptors.step

/-- A first `::close` after which `close` returns. -/
def ClosesOnce (c : DescriptorThreads ι) (l : ι × DescriptorAction) : Prop :=
  ∀ sockfd o, c.thread l.1 = .closing sockfd .first → l.2 = .next o →
    o.result = 0 ∨ o = .wouldBlock

end DescriptorThreads

-- ---------------------------------------------------------------------------
-- What a step opens and closes
-- ---------------------------------------------------------------------------

namespace FileDescriptors

variable {s s' : FileDescriptors} {t t' : DescriptorPlace} {fd : Nat} {o : Outcome}

/-- How many objects, and the other code, are to close `fd`. -/
def claims (s : FileDescriptors) (fd : Nat) : Nat :=
  (if fd ∈ s.others then 1 else 0) + (s.owners.flatMap DescriptorOwner.fds).count fd

@[simp] theorem claims_add (x : DescriptorOwner) :
    (s.add x).claims fd = s.claims fd + x.fds.count fd := by
  have hadd : (s.add x).claims fd = (if fd ∈ s.others then 1 else 0) +
      (x.fds ++ s.owners.flatMap DescriptorOwner.fds).count fd := rfl
  rw [hadd, List.count_append, claims]
  omega

theorem remove_eq_some {x : DescriptorOwner} (h : s.remove x = some s') :
    s'.opened = s.opened ∧ ∀ fd, s'.claims fd + x.fds.count fd = s.claims fd := by
  simp only [remove] at h
  split at h
  · next hx =>
    cases h
    refine ⟨rfl, fun fd => ?_⟩
    have hperm := ((List.perm_cons_erase hx).flatMap_right DescriptorOwner.fds).count_eq fd
    simp only [List.flatMap_cons, List.count_append] at hperm
    simp only [claims]
    omega
  · cases h

theorem closeFd_eq_some (h : s.closeFd fd o = some s') :
    s' = { s with opened := s.opened.erase fd } := by
  simp only [closeFd] at h
  split at h
  · cases h
    rfl
  · cases h

theorem openFd_cases {r : FileDescriptors × Option Nat} (h : s.openFd o = some r) :
    r = (s, none) ∨
      ∃ fd, fd ∉ s.opened ∧ r = ({ s with opened := insert fd s.opened }, some fd) := by
  cases o with
  | failed e =>
    cases h
    exact .inl rfl
  | ok fd =>
    simp only [openFd] at h
    split at h
    · cases h
    · next hfd =>
      cases h
      exact .inr ⟨fd, hfd, rfl⟩

/-- What a step does to the open descriptors, and to those who are to close
them. -/
inductive Moves (s : FileDescriptors) (t : DescriptorPlace) (s' : FileDescriptors)
    (t' : DescriptorPlace) : Prop
  | keeps : s'.opened = s.opened →
      (∀ x, s'.claims x + t'.fds.count x = s.claims x + t.fds.count x) → Moves s t s' t'
  | opens (fd : Nat) : fd ∉ s.opened → s'.opened = insert fd s.opened →
      (∀ x, s'.claims x + t'.fds.count x = s.claims x + t.fds.count x + [fd].count x) →
      Moves s t s' t'
  | closes (fd : Nat) : s'.opened = s.opened.erase fd →
      (∀ x, s'.claims x + t'.fds.count x + [fd].count x = s.claims x + t.fds.count x) →
      Moves s t s' t'

namespace Moves

variable {r : FileDescriptors} {x : DescriptorOwner}

theorem opened {r : FileDescriptors × Option Nat} (hr : s.openFd o = some r)
    (ho : s'.opened = r.1.opened) (hc : ∀ y, s'.claims y + t'.fds.count y =
      r.1.claims y + t.fds.count y + r.2.toList.count y) : Moves s t s' t' := by
  obtain rfl | ⟨fd, hfd, rfl⟩ := openFd_cases hr
  · exact .keeps ho hc
  · exact .opens fd hfd ho hc

/-- The new descriptor is that of an object, which may take over others. -/
theorem made {r : FileDescriptors × Option Nat} (hr : s.openFd o = some r)
    (hx : ∀ y, x.fds.count y + t'.fds.count y = t.fds.count y + r.2.toList.count y) :
    Moves s t (r.1.add x) t' := by
  refine .opened hr rfl fun y => ?_
  rw [claims_add, Nat.add_assoc, hx y, Nat.add_assoc]

theorem closed (h : s.closeFd fd o = some s')
    (ht : ∀ y, t'.fds.count y + [fd].count y = t.fds.count y) : Moves s t s' t' := by
  obtain rfl := closeFd_eq_some h
  refine .closes fd rfl fun y => ?_
  rw [← ht y, ← Nat.add_assoc]
  rfl

/-- The descriptors of an object that a call ends are the call's to close. -/
theorem removed (hr : s.remove x = some r) (ht : t.fds = []) (ht' : t'.fds = x.fds) :
    Moves s t r t' := by
  obtain ⟨hopened, hclaims⟩ := remove_eq_some hr
  refine .keeps hopened fun y => ?_
  rw [ht, ht', hclaims y, List.count_nil, Nat.add_zero]

theorem destroyed (hr : s.remove x = some r) (h : r.closeFd fd o = some s') (ht : t.fds = [])
    (hx : ∀ y, t'.fds.count y + [fd].count y = x.fds.count y) : Moves s t s' t' := by
  obtain ⟨hopened, hclaims⟩ := remove_eq_some hr
  obtain rfl := closeFd_eq_some h
  refine .closes fd (by simp [hopened]) fun y => ?_
  rw [ht, ← hclaims y, ← hx y, ← Nat.add_assoc]
  rfl

theorem closedDescriptors {fd : Option Nat} (hr : s.remove (.selectInterrupter fd) = some r)
    (h : r.closeDescriptors o fd = some s') (ht : t.fds = []) (ht' : t'.fds = []) :
    Moves s t s' t' := by
  cases fd with
  | none =>
    cases h
    exact .removed hr ht ht'
  | some fd => exact .destroyed hr h ht fun y => by rw [ht', List.count_nil, Nat.zero_add]; rfl

end Moves

theorem step_moves {ι : Type} {i : ι} {a : DescriptorAction} (h : step i a s t = some (s', t'))
    (hok : ∀ fd o, t = .closing fd .first → a = .next o → o.result = 0 ∨ o = .wouldBlock) :
    Moves s t s' t' := by
  cases t with
  | outside =>
    cases a with
    | socket o | newInterrupter o =>
      obtain ⟨⟨r, _ | fd⟩, hr, h⟩ := Option.bind_eq_some_iff.mp h
      · cases h
        exact .opened hr rfl fun _ => rfl
      · cases h
        exact .made hr (by simp)
    | close fd =>
      obtain ⟨r, hr, h⟩ := Option.bind_eq_some_iff.mp h
      cases h
      exact .removed hr rfl rfl
    | recreate fd o | deleteInterrupter fd o =>
      obtain ⟨r, hr, h⟩ := Option.bind_eq_some_iff.mp h
      obtain ⟨r', hr', h⟩ := Option.bind_eq_some_iff.mp h
      cases h
      exact .closedDescriptors hr hr' rfl rfl
    | newReactor o =>
      obtain ⟨⟨r, _ | fd⟩, hr, h⟩ := Option.bind_eq_some_iff.mp h
      · cases h
        exact .opened hr rfl fun _ => rfl
      · cases h
        exact .opened hr rfl (by simp)
    | deleteReactor interrupter epollFd o =>
      obtain ⟨r, hr, h⟩ := Option.bind_eq_some_iff.mp h
      obtain ⟨r', hr', h⟩ := Option.bind_eq_some_iff.mp h
      cases h
      exact .destroyed hr hr' rfl fun y => by simp [List.count_cons, Nat.add_comm]
    | next o => cases h
  | closing fd stage =>
    cases a with
    | next o =>
      cases stage with
      | first =>
        obtain ⟨r, hr, h⟩ := Option.bind_eq_some_iff.mp h
        rw [(CloseStage.next_first o).mpr (hok fd o rfl rfl)] at h
        cases h
        exact .closed hr fun _ => Nat.zero_add _
      | getFlags | setFlags flags =>
        cases h
        exact .keeps rfl fun _ => rfl
      | second =>
        obtain ⟨r, hr, h⟩ := Option.bind_eq_some_iff.mp h
        cases h
        exact .closed hr fun _ => Nat.zero_add _
    | _ => cases h
  | constructing interrupter =>
    cases a with
    | next o =>
      obtain ⟨⟨r, _ | fd⟩, hr, h⟩ := Option.bind_eq_some_iff.mp h
      · cases h
        exact .opened hr rfl fun _ => rfl
      · cases h
        exact .made hr fun y => by simp [List.count_cons, Nat.add_comm]
    | _ => cases h
  | destroying interrupter =>
    cases a with
    | next o =>
      obtain ⟨r, hr, h⟩ := Option.bind_eq_some_iff.mp h
      cases h
      exact .closed hr (by simp)
    | _ => cases h
  | recreating =>
    cases a with
    | next o =>
      obtain ⟨⟨r, fd⟩, hr, h⟩ := Option.bind_eq_some_iff.mp h
      cases h
      exact .made hr (by simp)
    | _ => cases h

/-- After a first `::close` that fails, `close` is still to close a descriptor
that is open no more. -/
theorem first_fails {ι : Type} {i : ι} (h : step i (.next o) s (.closing fd .first) = some (s', t'))
    (hfails : ¬ (o.result = 0 ∨ o = .wouldBlock)) : fd ∉ s'.opened ∧ t'.fds = [fd] := by
  obtain ⟨r, hr, h⟩ := Option.bind_eq_some_iff.mp h
  obtain rfl := closeFd_eq_some hr
  rw [← CloseStage.next_first] at hfails
  obtain ⟨stage, hstage⟩ := Option.ne_none_iff_exists'.mp hfails
  rw [hstage] at h
  cases h
  exact ⟨by simp, rfl⟩

end FileDescriptors

-- ---------------------------------------------------------------------------
-- Every descriptor has one owner
-- ---------------------------------------------------------------------------

namespace DescriptorThreads

variable {ι : Type} [DecidableEq ι] [Fintype ι] {c c' : DescriptorThreads ι}
  {l : ι × DescriptorAction}

/-- How many objects and calls are to close `fd`, with the other code. -/
def owners (c : DescriptorThreads ι) (fd : Nat) : Nat :=
  Threads.total (fun s => s.claims fd) (fun t => t.fds.count fd) c

/-- A descriptor that is open is one owner's to close, and one that is not open
is nobody's. -/
def OneOwner (c : DescriptorThreads ι) : Prop :=
  ∀ fd, c.owners fd = if fd ∈ c.shared.opened then 1 else 0

theorem owners_next (hn : next c l = some c') {fd x y : Nat}
    (h : c'.shared.claims fd + (c'.thread l.1).fds.count fd + x =
      c.shared.claims fd + (c.thread l.1).fds.count fd + y) :
    c'.owners fd + x = c.owners fd + y := by
  have hmove := Threads.total_next (m := fun s => FileDescriptors.claims s fd)
    (f := fun t => t.fds.count fd) (n := fun _ => 0) (g := fun _ => 0) (x := x) (y := y) hn
    fun s t hs => by
      obtain ⟨s', t', hs', rfl⟩ := Threads.next_eq_some.mp hn
      obtain ⟨rfl, rfl⟩ : s = s' ∧ t = t' := by simpa [hs] using hs'
      simpa using h
  simpa [owners, Threads.total] using hmove

omit [DecidableEq ι] in
theorem oneOwner_start (others : Finset Nat) : (start others : DescriptorThreads ι).OneOwner := by
  intro fd
  simp only [owners, Threads.total, start, FileDescriptors.claims, DescriptorPlace.fds,
    List.flatMap_nil, List.count_nil, Finset.sum_const_zero, Nat.add_zero]
  rfl

omit [Fintype ι] in
theorem next_moves (hok : c.ClosesOnce l) (hn : next c l = some c') :
    c.shared.Moves (c.thread l.1) c'.shared (c'.thread l.1) := by
  obtain ⟨s, t, hs, rfl⟩ := Threads.next_eq_some.mp hn
  simpa using FileDescriptors.step_moves hs hok

theorem OneOwner.next (h : c.OneOwner) (hok : c.ClosesOnce l) (hn : next c l = some c') :
    c'.OneOwner := by
  intro x
  have hx := h x
  cases next_moves hok hn with
  | keeps ho hc =>
    have hsame := owners_next (x := 0) (y := 0) hn (hc x)
    rw [ho, ← hx]
    exact hsame
  | opens fd hfd ho hc =>
    have hmore := owners_next (x := 0) hn (hc x)
    simp only [ho, Finset.mem_insert]
    by_cases hfx : x = fd
    · subst hfx
      simpa [hx, hfd] using hmore
    · simpa [hx, hfx, Ne.symm hfx] using hmore
  | closes fd ho hc =>
    have hless := owners_next (y := 0) hn (hc x)
    simp only [ho, Finset.mem_erase]
    by_cases hfx : x = fd
    · subst hfx
      have hopen : x ∈ c.shared.opened := by
        by_contra hno
        simp [hx, hno] at hless
      simpa [hx, hopen] using hless
    · simpa [hx, hfx, Ne.symm hfx] using hless

omit [DecidableEq ι] in
theorem count_le_owners (c : DescriptorThreads ι) (i : ι) (fd : Nat) :
    (c.thread i).fds.count fd ≤ c.owners fd := by
  have hle := Finset.single_le_sum (f := fun j => (c.thread j).fds.count fd)
    (fun _ _ => Nat.zero_le _) (Finset.mem_univ i)
  exact hle.trans (Nat.le_add_left _ _)

theorem not_oneOwner_next (hok : ¬ c.ClosesOnce l) (hn : next c l = some c') :
    ¬ c'.OneOwner := by
  intro h
  simp only [ClosesOnce, not_forall] at hok
  obtain ⟨fd, o, ht, ha, hfails⟩ := hok
  obtain ⟨s, t, hs, rfl⟩ := Threads.next_eq_some.mp hn
  rw [ht, ha] at hs
  obtain ⟨hclosed, hfds⟩ := FileDescriptors.first_fails hs hfails
  have hle := count_le_owners (c.set l.1 s t) l.1 fd
  rw [h fd, Threads.set_thread_self, Threads.set_shared, hfds, if_neg hclosed] at hle
  simp at hle

/-- Along a run of the process every descriptor has one owner if and only if no
`close` makes a second `::close`. -/
theorem descriptors_owned_iff (others : Finset Nat) (ls : List (ι × DescriptorAction)) :
    AllStates next OneOwner (start others) ls ↔ AllSteps next ClosesOnce (start others) ls :=
  allStates_iff_allSteps (I := OneOwner) (fun _ h => h)
    (fun _ _ _ h _ hok hn => h.next hok hn)
    (fun _ _ _ _ _ hok hn => not_oneOwner_next hok hn) (oneOwner_start others)

/-- The first `::close` is interrupted, and the number is another thread's by
the time of the second. -/
def closeReused : List (Bool × DescriptorAction) :=
  [(false, .socket (.ok 3)), (false, .close 3), (false, .next .interrupted),
    (true, .socket (.ok 3)), (false, .next (.ok 2)), (false, .next (.ok 0)),
    (false, .next (.ok 0))]

theorem closeReused_closes_other : ∃ c, exec next (start ∅) closeReused = some c ∧
    c.shared.owners = [.socket 3] ∧ 3 ∉ c.shared.opened :=
  ⟨_, rfl, rfl, by decide⟩

end DescriptorThreads

end BoostAsio
