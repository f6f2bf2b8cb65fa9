import BoostAsio.Lib.Runs
import BoostAsio.PollingLoop

/-!
# The options of a socket

`setsockopt` and `getsockopt`, and what a sequence of `setsockopt` calls makes
of the flags in the state of a socket. Two calls do not do what they are for.
The option `enable_connection_aborted` with the value 0 sets every flag but its
own, where it should clear its own. And `user_set_linger` is set before the
kernel is asked, so it is set for an `SO_LINGER` that the kernel refuses, too.
-/

namespace BoostAsio.SocketOps

open Runs

def sizeofInt : Nat := 4

def customSocketOptionLevel : BitVec 32 := 0xA5100000
def enableConnectionAbortedOption : BitVec 32 := 1
def alwaysFailOption : BitVec 32 := 2

def solSocket : BitVec 32 := 1
def soSndbuf : BitVec 32 := 7
def soRcvbuf : BitVec 32 := 8
def soLinger : BitVec 32 := 13

/-- The result, `state` and what is left in `errno` and `ec`. The value is the
`int` at `optval`. -/
def setsockopt (k : Kernel) (sockfd : Int) (state : StateType) (level optname optval : BitVec 32)
    (optlen : Nat) (x : Exchange) : Int × StateType × Exchange :=
  if sockfd = invalidSocket then (-1, state, { x with ec := badFileDescriptor })
  else if level = customSocketOptionLevel ∧ optname = alwaysFailOption then
    (-1, state, { x with ec := invalidArgument })
  else if level = customSocketOptionLevel ∧ optname = enableConnectionAbortedOption then
    if optlen ≠ sizeofInt then (-1, state, { x with ec := invalidArgument })
    else
      let state :=
        if optval ≠ 0 then state ||| enableConnectionAborted
        else state ||| ~~~enableConnectionAborted
      (0, state, { x with ec := 0 })
  else
    let state := if level = solSocket ∧ optname = soLinger then state ||| userSetLinger else state
    let (result, x) :=
      errorWrapper
        (systemCall k (.setsockopt sockfd level optname optval optlen) (clearLastError x))
    (result, state, if result = 0 then { x with ec := 0 } else x)

/-- The result, `*optval`, `*optlen` and what is left in `errno` and `ec`.
`answer` is what the kernel writes to `*optval` and `*optlen`. -/
def getsockopt (k : Kernel) (answer : BitVec 32 × Nat) (sockfd : Int) (state : StateType)
    (level optname optval : BitVec 32) (optlen : Nat) (x : Exchange) :
    Int × BitVec 32 × Nat × Exchange :=
  if sockfd = invalidSocket then (-1, optval, optlen, { x with ec := badFileDescriptor })
  else if level = customSocketOptionLevel ∧ optname = alwaysFailOption then
    (-1, optval, optlen, { x with ec := invalidArgument })
  else if level = customSocketOptionLevel ∧ optname = enableConnectionAbortedOption then
    if optlen ≠ sizeofInt then (-1, optval, optlen, { x with ec := invalidArgument })
    else (0, if state.has enableConnectionAborted then 1 else 0, optlen, { x with ec := 0 })
  else
    let (result, x) :=
      errorWrapper (systemCall k (.getsockopt sockfd level optname optlen) (clearLastError x))
    let (optval, optlen) := answer
    let optval :=
      if result = 0 ∧ level = solSocket ∧ optlen = sizeofInt ∧
          (optname = soSndbuf ∨ optname = soRcvbuf) then optval.sdiv 2
      else optval
    (result, optval, optlen, clearCurrentError (result == 0) x)

-- ---------------------------------------------------------------------------
-- A sequence of calls
-- ---------------------------------------------------------------------------

/-- A call of `setsockopt`: its arguments, the `errno` and the `ec` it finds,
and what the kernel answers if it is asked. -/
structure OptionCall where
  level : BitVec 32
  optname : BitVec 32
  optval : BitVec 32
  optlen : Nat
  found : Exchange
  outcome : Outcome

namespace OptionCall

def run (c : OptionCall) (sockfd : Int) (state : StateType) : Int × StateType × Exchange :=
  setsockopt (fun _ => c.outcome) sockfd state c.level c.optname c.optval c.optlen c.found

def isAborted (c : OptionCall) : Bool :=
  c.level == customSocketOptionLevel && c.optname == enableConnectionAbortedOption

def isLinger (c : OptionCall) : Bool := c.level == solSocket && c.optname == soLinger

end OptionCall

structure OptionMade where
  call : OptionCall
  before : StateType
  result : Int
  after : StateType

/-- The state of a socket, and the calls that made it. -/
structure Options where
  state : StateType
  made : List OptionMade := []

namespace Options

def call (sockfd : Int) (o : Options) (c : OptionCall) : Options :=
  let (result, state, _) := c.run sockfd o.state
  ⟨state, o.made ++ [⟨c, o.state, result, state⟩]⟩

def next (sockfd : Int) (o : Options) (c : OptionCall) : Option Options := some (o.call sockfd c)

/-- The truth value of the last `enable_connection_aborted` that was accepted. -/
def lastAborted (initial : Bool) (made : List OptionMade) : Bool :=
  made.foldl
    (fun v m => if m.call.isAborted && m.result == 0 then m.call.optval != 0 else v) initial

def lingered (made : List OptionMade) : Bool :=
  made.any fun m => m.call.isLinger && m.result == 0

/-- The flags that no option is about. -/
def otherFlags : StateType := ~~~(enableConnectionAborted ||| userSetLinger)

/-- What the calls made so far should have made of the state that was
`initial`. -/
structure Follows (sockfd : Int) (initial : StateType) (o : Options) : Prop where
  aborted : o.state.has enableConnectionAborted =
    lastAborted (initial.has enableConnectionAborted) o.made
  reads : ∀ k answer optval x,
    getsockopt k answer sockfd o.state customSocketOptionLevel enableConnectionAbortedOption
      optval sizeofInt x =
        (0, if lastAborted (initial.has enableConnectionAborted) o.made then 1 else 0, sizeofInt,
          { x with ec := 0 })
  linger : o.state.has userSetLinger = (initial.has userSetLinger || lingered o.made)
  others : o.state &&& otherFlags = initial &&& otherFlags
  refused : ∀ m ∈ o.made, m.result ≠ 0 → m.after = m.before

end Options

/-- An `enable_connection_aborted` of 0 finds every other flag set and its own
clear, and an `SO_LINGER` that the kernel refuses finds `user_set_linger`
set. -/
def OptionCall.Keeps (state : StateType) (c : OptionCall) : Prop :=
  (c.isAborted = true → c.optlen = sizeofInt → c.optval = 0 → state = ~~~enableConnectionAborted) ∧
  (c.isLinger = true → c.outcome.result ≠ 0 → state.has userSetLinger = true)

-- ---------------------------------------------------------------------------
-- What one call does
-- ---------------------------------------------------------------------------

namespace OptionCall

/-- The result and the state behind a call, one case for each way out. -/
inductive Piece (c : OptionCall) (state : StateType) : Int → StateType → Prop
  | unchanged {result : Int} : (c.isAborted = true → result ≠ 0 ∧ c.optlen ≠ sizeofInt) →
      c.isLinger = false → Piece c state result state
  | set : c.isAborted = true → c.isLinger = false → c.optval ≠ 0 →
      Piece c state 0 (state ||| enableConnectionAborted)
  | clear : c.isAborted = true → c.isLinger = false → c.optlen = sizeofInt → c.optval = 0 →
      Piece c state 0 (state ||| ~~~enableConnectionAborted)
  | linger : c.isLinger = true → c.isAborted = false →
      Piece c state c.outcome.result (state ||| userSetLinger)

theorem isAborted_iff {c : OptionCall} : c.isAborted = true ↔
    c.level = customSocketOptionLevel ∧ c.optname = enableConnectionAbortedOption := by
  simp [isAborted]

theorem isLinger_iff {c : OptionCall} : c.isLinger = true ↔
    c.level = solSocket ∧ c.optname = soLinger := by
  simp [isLinger]

theorem not_linger_of_custom {c : OptionCall} (h : c.level = customSocketOptionLevel) :
    c.isLinger = false := by
  simp [isLinger, h, customSocketOptionLevel, solSocket]

theorem run_piece {sockfd : Int} (hvalid : sockfd ≠ invalidSocket) (c : OptionCall)
    (state : StateType) : Piece c state (c.run sockfd state).1 (c.run sockfd state).2.1 := by
  simp only [run, setsockopt, hvalid, if_false]
  split
  · rename_i hfail
    refine .unchanged (fun haborted => ?_) (not_linger_of_custom hfail.1)
    have hname := (isAborted_iff.mp haborted).2
    rw [hfail.2] at hname
    exact absurd hname (by decide)
  · split
    · rename_i haborted
      have hl : c.isLinger = false := not_linger_of_custom haborted.1
      have ha : c.isAborted = true := isAborted_iff.mpr haborted
      split
      · rename_i hlen
        exact .unchanged (fun _ => ⟨by simp, hlen⟩) hl
      · rename_i hlen
        split
        · rename_i hv
          exact .set ha hl hv
        · rename_i hv
          exact .clear ha hl (not_not.mp hlen) (not_not.mp hv)
    · rename_i haborted
      have ha : c.isAborted = false := by
        rw [← Bool.not_eq_true, isAborted_iff]
        exact haborted
      simp only [errorWrapper_systemCall]
      split
      · rename_i hlinger
        exact .linger (isLinger_iff.mpr hlinger) ha
      · rename_i hlinger
        refine .unchanged (fun h => absurd (ha.symm.trans h) Bool.false_ne_true) ?_
        rw [← Bool.not_eq_true, isLinger_iff]
        exact hlinger

end OptionCall

-- ---------------------------------------------------------------------------
-- The flags
-- ---------------------------------------------------------------------------

section Flags

open Options

variable {state flag mask : StateType}

theorem or_and_of_subset (h : flag &&& mask = mask) : (state ||| flag) &&& mask = mask := by
  rw [BitVec.and_or_distrib_right, h]
  ext i hi
  cases hmask : mask[i] <;> simp [hmask]

theorem has_or_of_subset (h : flag &&& mask = mask) (hmask : mask ≠ 0) :
    StateType.has (state ||| flag) mask = true := by
  rw [StateType.has, or_and_of_subset h]
  exact bne_iff_ne.mpr hmask

theorem or_and_of_disjoint (h : flag &&& mask = 0) :
    (state ||| flag) &&& mask = state &&& mask := by
  rw [BitVec.and_or_distrib_right, h]
  simp

theorem has_or_of_disjoint (h : flag &&& mask = 0) :
    StateType.has (state ||| flag) mask = state.has mask := by
  rw [StateType.has, or_and_of_disjoint h, StateType.has]

/-- A flag is one bit. -/
theorem and_userSetLinger (h : state.has userSetLinger = true) :
    state &&& userSetLinger = userSetLinger := by
  have hbit : userSetLinger = BitVec.twoPow 32 3 := by decide
  rw [StateType.has, hbit, BitVec.and_twoPow] at h
  rw [hbit, BitVec.and_twoPow]
  split at h
  · rename_i hset
    rw [if_pos hset]
  · exact absurd h (by decide)

theorem or_userSetLinger (h : state.has userSetLinger = true) :
    state ||| userSetLinger = state := by
  rw [← and_userSetLinger h]
  ext i hi
  cases hstate : state[i] <;> simp [hstate]

theorem flags_split (state : StateType) : state = state &&& enableConnectionAborted |||
    (state &&& userSetLinger ||| state &&& otherFlags) := by
  rw [← BitVec.and_or_distrib_left, ← BitVec.and_or_distrib_left]
  have hall : enableConnectionAborted ||| (userSetLinger ||| otherFlags) = BitVec.allOnes 32 := by
    decide
  rw [hall, BitVec.and_allOnes]

end Flags

-- ---------------------------------------------------------------------------
-- What a sequence of calls does
-- ---------------------------------------------------------------------------

namespace Options

variable {sockfd : Int} {initial : StateType} {o : Options} {c : OptionCall}

@[simp] theorem lastAborted_concat (v : Bool) (made : List OptionMade) (m : OptionMade) :
    lastAborted v (made ++ [m]) =
      if m.call.isAborted && m.result == 0 then m.call.optval != 0 else lastAborted v made := by
  simp [lastAborted]

@[simp] theorem lingered_concat (made : List OptionMade) (m : OptionMade) :
    lingered (made ++ [m]) = (lingered made || m.call.isLinger && m.result == 0) := by
  simp [lingered]

/-- `getsockopt` reads what the flag says. -/
theorem Follows.of_flags (hvalid : sockfd ≠ invalidSocket)
    (aborted : o.state.has enableConnectionAborted =
      lastAborted (initial.has enableConnectionAborted) o.made)
    (linger : o.state.has userSetLinger = (initial.has userSetLinger || lingered o.made))
    (others : o.state &&& otherFlags = initial &&& otherFlags)
    (refused : ∀ m ∈ o.made, m.result ≠ 0 → m.after = m.before) : Follows sockfd initial o where
  aborted := aborted
  reads k answer optval x := by
    have hname : enableConnectionAbortedOption ≠ alwaysFailOption := by decide
    simp [getsockopt, hvalid, hname, aborted]
  linger := linger
  others := others
  refused := refused

/-- The state behind a call that is not refused, or changes nothing. -/
theorem Follows.refused_concat (h : Follows sockfd initial o) {m : OptionMade}
    (hm : m.result ≠ 0 → m.after = m.before) :
    ∀ n ∈ o.made ++ [m], n.result ≠ 0 → n.after = n.before := by
  intro n hn
  rcases List.mem_append.mp hn with hn | hn
  · exact h.refused n hn
  · rw [List.mem_singleton.mp hn]
    exact hm

/-- Every flag but that of the option is set, so they all were. -/
theorem follows_clear (hvalid : sockfd ≠ invalidSocket) (h : Follows sockfd initial o)
    (ha : c.isAborted = true) (hl : c.isLinger = false) (hv : c.optval = 0) :
    Follows sockfd initial ⟨o.state ||| ~~~enableConnectionAborted,
      o.made ++ [⟨c, o.state, 0, o.state ||| ~~~enableConnectionAborted⟩]⟩ ↔
        o.state = ~~~enableConnectionAborted := by
  constructor
  · intro h'
    have haborted : o.state &&& enableConnectionAborted = 0 := by
      have hclear := h'.aborted
      rw [has_or_of_disjoint (by decide)] at hclear
      simpa [StateType.has, ha, hv] using hclear
    have hlinger : o.state.has userSetLinger = true := by
      have hset := h'.linger
      rw [has_or_of_subset (by decide) (by decide)] at hset
      simpa [hl, h.linger] using hset.symm
    have hothers : o.state &&& otherFlags = otherFlags := by
      have hset := h'.others
      rw [or_and_of_subset (by decide)] at hset
      exact h.others.trans hset.symm
    rw [flags_split o.state, haborted, and_userSetLinger hlinger, hothers]
    decide
  · intro hstate
    have hsame : o.state ||| ~~~enableConnectionAborted = o.state := by
      rw [hstate, BitVec.or_self]
    rw [hsame]
    refine .of_flags hvalid ?_ ?_ h.others (h.refused_concat fun hr => absurd rfl hr)
    · rw [hstate]
      simp [ha, hv, StateType.has]
    · simp [hl, h.linger]

/-- A refused call leaves the state as it was, so the flag was set. -/
theorem follows_linger (hvalid : sockfd ≠ invalidSocket) (h : Follows sockfd initial o)
    (hl : c.isLinger = true) (ha : c.isAborted = false) :
    Follows sockfd initial ⟨o.state ||| userSetLinger,
      o.made ++ [⟨c, o.state, c.outcome.result, o.state ||| userSetLinger⟩]⟩ ↔
        (c.outcome.result ≠ 0 → o.state.has userSetLinger = true) := by
  constructor
  · intro h' hr
    have hsame : o.state ||| userSetLinger = o.state :=
      h'.refused _ (List.mem_append_right _ (List.mem_singleton_self _)) hr
    rw [← hsame]
    exact has_or_of_subset (by decide) (by decide)
  · intro hset
    refine .of_flags hvalid ?_ ?_ ?_ (h.refused_concat fun hr => or_userSetLinger (hset hr))
    · rw [has_or_of_disjoint (by decide), h.aborted]
      simp [ha]
    · rw [has_or_of_subset (by decide) (by decide)]
      by_cases hr : c.outcome.result = 0
      · simp [hl, hr]
      · simpa [hr, h.linger] using hset hr
    · rw [or_and_of_disjoint (by decide), h.others]

/-- The state behind a call keeps to the calls in exactly the cases of `Keeps`. -/
theorem follows_piece (hvalid : sockfd ≠ invalidSocket) (h : Follows sockfd initial o)
    {result : Int} {state : StateType} (hpiece : c.Piece o.state result state) :
    Follows sockfd initial ⟨state, o.made ++ [⟨c, o.state, result, state⟩]⟩ ↔ c.Keeps o.state := by
  cases hpiece with
  | unchanged ha hl =>
    refine iff_of_true (.of_flags hvalid ?_ ?_ h.others (h.refused_concat fun _ => rfl)) ?_
    · have hno : (c.isAborted && result == 0) = false := by
        rw [← Bool.not_eq_true, Bool.and_eq_true, beq_iff_eq]
        exact fun hr => (ha hr.1).1 hr.2
      simp [hno, h.aborted]
    · simp [hl, h.linger]
    · refine ⟨fun haborted hlen => absurd hlen (ha haborted).2, fun hlinger => ?_⟩
      simp [hl] at hlinger
  | set ha hl hv =>
    refine iff_of_true (.of_flags hvalid ?_ ?_ ?_ (h.refused_concat fun hr => absurd rfl hr)) ?_
    · rw [has_or_of_subset (by decide) (by decide)]
      simpa [ha] using hv
    · rw [has_or_of_disjoint (by decide), h.linger]
      simp [hl]
    · rw [or_and_of_disjoint (by decide), h.others]
    · exact ⟨fun _ _ hzero => absurd hzero hv, fun hlinger => by simp [hl] at hlinger⟩
  | clear ha hl hlen hv =>
    rw [follows_clear hvalid h ha hl hv, OptionCall.Keeps]
    simp [ha, hl, hlen, hv]
  | linger hl ha =>
    rw [follows_linger hvalid h hl ha, OptionCall.Keeps]
    simp [ha, hl]

theorem follows_new (hvalid : sockfd ≠ invalidSocket) : Follows sockfd initial ⟨initial, []⟩ :=
  .of_flags hvalid rfl (by simp [lingered]) rfl fun _ h => by cases h

/-- Along every sequence of calls the state keeps to the calls if and only if
each call finds a state in which it does. -/
theorem follows_iff (sockfd : Int) (hvalid : sockfd ≠ invalidSocket) (state : StateType)
    (calls : List OptionCall) :
    AllStates (next sockfd) (Follows sockfd state) ⟨state, []⟩ calls ↔
      AllSteps (next sockfd) (fun o c => c.Keeps o.state) ⟨state, []⟩ calls := by
  have hcall (o o' : Options) (c : OptionCall) (ho : Follows sockfd state o)
      (hn : next sockfd o c = some o') : Follows sockfd state o' ↔ c.Keeps o.state := by
    rw [← Option.some.inj hn]
    exact follows_piece hvalid ho (OptionCall.run_piece hvalid c o.state)
  exact allStates_iff_allSteps (I := Follows sockfd state) (fun _ ho => ho)
    (fun o c o' ho _ hok hn => (hcall o o' c ho hn).mpr hok)
    (fun o c o' ho _ hno hn ho' => hno ((hcall o o' c ho hn).mp ho')) (follows_new hvalid)

def enableAndLinger : List OptionCall :=
  [⟨customSocketOptionLevel, enableConnectionAbortedOption, 1, sizeofInt, ⟨0, 0, []⟩, .ok 0⟩,
    ⟨solSocket, soLinger, 1, 8, ⟨0, 0, []⟩, .ok 0⟩]

theorem follows_enableAndLinger :
    AllStates (next 3) (Follows 3 streamOriented) ⟨streamOriented, []⟩ enableAndLinger :=
  (follows_iff 3 (by decide) streamOriented enableAndLinger).mpr
    ⟨⟨fun _ _ h => absurd h (by decide), fun h => absurd h (by decide)⟩,
      ⟨fun h => absurd h (by decide), fun _ h => absurd rfl h⟩, trivial⟩

def disable : List OptionCall :=
  [⟨customSocketOptionLevel, enableConnectionAbortedOption, 0, sizeofInt, ⟨0, 0, []⟩, .ok 0⟩]

theorem disable_sets_the_others :
    ¬ AllStates (next 3) (Follows 3 streamOriented) ⟨streamOriented, []⟩ disable := by
  rintro ⟨-, h⟩
  exact absurd h.others (by decide)

end Options

end BoostAsio.SocketOps
