import BoostAsio.PollingLoop

/-!
# Closing a socket

`close` is to close a second time, in blocking mode, where the first `::close`
would block. Its condition joins two inequalities with `||` where it should
join two equalities, and `EWOULDBLOCK` is `EAGAIN`: it closes a second time
after every failure but that one.
-/

namespace BoostAsio.SocketOps

def oNonblock : BitVec 32 := 0x800

/-- The result, `state` and what is left in `errno` and `ec`. -/
def close (k : Kernel) (sockfd : Int) (state : StateType) (_destruction : Bool) (x : Exchange) :
    Int × StateType × Exchange :=
  if sockfd = invalidSocket then (0, state, clearCurrentError true x)
  else
    let (result, x) := errorWrapper (systemCall k (.close sockfd) (clearLastError x))
    if result ≠ 0 ∧ (x.ec ≠ operationWouldBlock ∨ x.ec ≠ resourceUnavailableTryAgain) then
      let (flags, x) := systemCall k (.fcntlGetFlags sockfd) x
      let x :=
        if 0 ≤ flags then
          (systemCall k (.fcntlSetFlags sockfd (BitVec.ofInt 32 flags &&& ~~~oNonblock)) x).2
        else x
      let (result, x) := errorWrapper (systemCall k (.close sockfd) (clearLastError x))
      (result, state &&& ~~~nonBlocking, clearCurrentError (result == 0) x)
    else (result, state, clearCurrentError (result == 0) x)

def Exchange.closes (x : Exchange) : Nat := x.calls.countP fun c => c.1 matches .close _

/-- What a call of `close` should have done, by the outcome of its first
`::close`. -/
structure ClosesOnce (state : StateType) (first : Outcome) (r : Int × StateType × Exchange) :
    Prop where
  again : first = .wouldBlock → r.2.2.closes = 2 ∧ r.2.1 = state &&& ~~~nonBlocking
  once : first ≠ .wouldBlock →
    r.2.2.closes = 1 ∧ r.2.1 = state ∧ r.1 = first.result ∧ r.2.2.ec = first.errno

-- ---------------------------------------------------------------------------
-- How often a socket is closed
-- ---------------------------------------------------------------------------

section Closes

variable (k : Kernel) (sockfd : Int) (x : Exchange)

@[simp] theorem closes_systemCall (call : SystemCall) : (systemCall k call x).2.closes =
    x.closes + if call matches .close _ then 1 else 0 := by
  simp only [systemCall]
  cases k x.calls.length <;> simp [Exchange.closes, List.countP_append, List.countP_cons]

@[simp] theorem closes_clearLastError : (clearLastError x).closes = x.closes := rfl

@[simp] theorem closes_errorWrapper (r : Int × Exchange) :
    (errorWrapper r).2.closes = r.2.closes := rfl

@[simp] theorem closes_clearCurrentError (flag : Bool) :
    (clearCurrentError flag x).closes = x.closes := by
  cases flag <;> rfl

/-- The two calls of `::fcntl` close nothing. -/
@[simp] theorem closes_blocking : Exchange.closes
    (if 0 ≤ (systemCall k (.fcntlGetFlags sockfd) x).1 then
      (systemCall k (.fcntlSetFlags sockfd
        (BitVec.ofInt 32 (systemCall k (.fcntlGetFlags sockfd) x).1 &&& ~~~oNonblock))
        (systemCall k (.fcntlGetFlags sockfd) x).2).2
    else (systemCall k (.fcntlGetFlags sockfd) x).2) = x.closes := by
  split
  · simp
  · simp

end Closes

variable {k : Kernel} {sockfd : Int} {state : StateType} {destruction : Bool}
  {errno ec : ErrorCode}

theorem close_once (hvalid : sockfd ≠ invalidSocket)
    (h : (k 0).result = 0 ∨ k 0 = .wouldBlock) :
    close k sockfd state destruction { errno, ec } =
      ((k 0).result, state, ⟨(k 0).errno, (k 0).errno, [(.close sockfd, k 0)]⟩) := by
  have hno : ¬ ((k 0).result ≠ 0 ∧ ((k 0).errno ≠ operationWouldBlock ∨
      (k 0).errno ≠ resourceUnavailableTryAgain)) := by
    rintro ⟨hr, he⟩
    have hb : (k 0).errno = operationWouldBlock :=
      Outcome.eq_wouldBlock_iff.mp (h.resolve_left hr)
    exact he.elim (absurd hb) (absurd hb)
  have hclear : (k 0).result = 0 → (k 0).errno = 0 := by
    intro hr
    rw [Outcome.result_eq_zero] at hr
    rw [hr, Outcome.errno]
  simp only [close, hvalid, if_false, errorWrapper_systemCall, List.length_nil, hno]
  by_cases hr : (k 0).result = 0
  · simp [clearCurrentError, hr, hclear hr]
  · simp [clearCurrentError, hr]

theorem close_twice (hvalid : sockfd ≠ invalidSocket) (hr : (k 0).result ≠ 0)
    (hb : k 0 ≠ .wouldBlock) :
    (close k sockfd state destruction { errno, ec }).2.2.closes = 2 := by
  have hagain : (k 0).result ≠ 0 ∧ ((k 0).errno ≠ operationWouldBlock ∨
      (k 0).errno ≠ resourceUnavailableTryAgain) :=
    ⟨hr, .inl fun he => hb (Outcome.eq_wouldBlock_iff.mpr he)⟩
  have hfirst : Exchange.closes
      ⟨(k 0).errno, (k 0).errno, [(.close sockfd, k 0)]⟩ = 1 := rfl
  simp only [close, hvalid, if_false, errorWrapper_systemCall k (.close sockfd) { errno, ec },
    List.length_nil]
  rw [if_pos hagain]
  simp [hfirst]

/-- A call of `close` does what it should if and only if the first `::close`
succeeds. -/
theorem closes_once_iff (k : Kernel) (sockfd : Int) (hvalid : sockfd ≠ invalidSocket)
    (state : StateType) (destruction : Bool) (errno ec : ErrorCode) :
    ClosesOnce state (k 0) (close k sockfd state destruction { errno, ec }) ↔
      (k 0).result = 0 := by
  constructor
  · intro h
    by_contra hr
    by_cases hb : k 0 = .wouldBlock
    · have htwo := (h.again hb).1
      rw [close_once hvalid (.inr hb)] at htwo
      cases htwo
    · have hone := (h.once hb).1
      rw [close_twice hvalid hr hb] at hone
      cases hone
  · intro hr
    rw [close_once hvalid (.inl hr)]
    refine ⟨fun hb => ?_, fun _ => ⟨rfl, rfl, rfl, rfl⟩⟩
    rw [hb] at hr
    cases hr

theorem closes_once_stream :
    ClosesOnce streamOriented (.ok 0)
      (close (fun _ => .ok 0) 3 streamOriented false { errno := 0, ec := 0 }) :=
  (closes_once_iff (fun _ => .ok 0) 3 (by decide) streamOriented false 0 0).mpr rfl

/-- The first `::close` is interrupted. -/
def interruptedClose : Kernel
  | 0 => .interrupted
  | _ => .ok 0

theorem interruptedClose_closes_twice :
    (close interruptedClose 3 streamOriented false { errno := 0, ec := 0 }).2.2.calls =
      [(.close 3, .interrupted), (.fcntlGetFlags 3, .ok 0), (.fcntlSetFlags 3 0, .ok 0),
        (.close 3, .ok 0)] ∧
    ¬ ClosesOnce streamOriented (interruptedClose 0)
      (close interruptedClose 3 streamOriented false { errno := 0, ec := 0 }) := by
  refine ⟨by decide, fun h => ?_⟩
  have hone := (h.once (by decide)).1
  exact absurd hone (by decide)

end BoostAsio.SocketOps
