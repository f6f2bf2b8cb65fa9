import BoostAsio.Lib.Retry
import BoostAsio.SocketOps

/-!
# Loops that transfer and poll

`sync_recv` and `sync_send` make the same turns: a transfer, and a poll of the
socket behind it where the outcome of the transfer says so. `PollingLoop` is
what one turn does. From it, the system calls that a call has made are whole
rounds of a transfer and a successful poll, and at the end the transfer or the
poll that made it return.
-/

namespace BoostAsio.SocketOps

open Loops

-- ---------------------------------------------------------------------------
-- What the wrappers do
-- ---------------------------------------------------------------------------

namespace Outcome

def wouldBlock : Outcome := failed ⟨operationWouldBlock, by decide⟩
def interrupted : Outcome := failed ⟨SocketOps.interrupted, by decide⟩

theorem eq_wouldBlock_iff {o : Outcome} : o = wouldBlock ↔ o.errno = operationWouldBlock := by
  cases o with
  | ok n => simp [wouldBlock, errno, operationWouldBlock]
  | failed e => simp [wouldBlock, errno, Subtype.ext_iff]

theorem eq_interrupted_iff {o : Outcome} : o = interrupted ↔ o.errno = SocketOps.interrupted := by
  cases o with
  | ok n => simp [interrupted, errno, SocketOps.interrupted]
  | failed e => simp [interrupted, errno, Subtype.ext_iff]

theorem isFailed_iff {o : Outcome} : o.isFailed = true ↔ o.errno ≠ 0 := by
  cases o with
  | ok n => simp [isFailed, errno]
  | failed e => simp [isFailed, errno, e.2]

@[simp] theorem result_lt_zero (o : Outcome) : o.result < 0 ↔ o.isFailed = true := by
  cases o <;> simp [result, isFailed]

@[simp] theorem result_pos (o : Outcome) : 0 < o.result ↔ 0 < o.count := by
  cases o <;> simp [result, count]

@[simp] theorem result_nonneg (o : Outcome) : 0 ≤ o.result ↔ o.isFailed = false := by
  cases o <;> simp [result, isFailed]

theorem result_eq_zero (o : Outcome) : o.result = 0 ↔ o = ok 0 := by
  cases o <;> simp [result]

@[simp] theorem toNat_result (o : Outcome) : o.result.toNat = o.count := by
  cases o <;> simp [result, count]

end Outcome

theorem errorWrapper_systemCall (k : Kernel) (call : SystemCall) (x : Exchange) :
    errorWrapper (systemCall k call (clearLastError x)) =
      ((k x.calls.length).result, ⟨(k x.calls.length).errno, (k x.calls.length).errno,
        x.calls ++ [(call, k x.calls.length)]⟩) := by
  simp only [systemCall, clearLastError]
  cases k x.calls.length <;> rfl

/-- A transfer leaves the error of its system call in `ec`, also where
`clear_current_error` is told to clear it. -/
theorem transfer_eq (k : Kernel) (call : SystemCall) (x : Exchange) :
    transfer k call x =
      ((k x.calls.length).result, ⟨(k x.calls.length).errno, (k x.calls.length).errno,
        x.calls ++ [(call, k x.calls.length)]⟩) := by
  simp only [transfer, errorWrapper_systemCall, clearCurrentError, beq_iff_eq,
    Outcome.result_eq_zero]
  split
  · rename_i hzero
    simp [hzero, Outcome.errno]
  · rfl

def pollTimeout (state : StateType) : Int := if state.has userSetNonBlocking then 0 else -1

/-- A poll clears `ec` whatever its system call returned. -/
theorem pollFor_eq (events : BitVec 16) (k : Kernel) {sockfd : Int}
    (hvalid : sockfd ≠ invalidSocket) (state : StateType) (x : Exchange) :
    pollFor events k sockfd state x =
      ((k x.calls.length).result,
        ⟨(k x.calls.length).errno,
          if k x.calls.length = .ok 0 ∧ state.has userSetNonBlocking then operationWouldBlock
          else 0,
          x.calls ++ [(.poll sockfd events (pollTimeout state), k x.calls.length)]⟩) := by
  simp only [pollFor, hvalid, if_false, errorWrapper_systemCall, clearCurrentError, if_true,
    Outcome.result_eq_zero, pollTimeout]
  split <;> rfl

theorem pollFor_blocking (events : BitVec 16) (k : Kernel) {sockfd : Int}
    (hvalid : sockfd ≠ invalidSocket) (x : Exchange) :
    pollFor events k sockfd 0 x =
      ((k x.calls.length).result,
        ⟨(k x.calls.length).errno, 0,
          x.calls ++ [(.poll sockfd events (-1), k x.calls.length)]⟩) := by
  have hstate : StateType.has 0 userSetNonBlocking = false := by decide
  simp only [pollFor_eq events k hvalid, hstate, pollTimeout, Bool.false_eq_true, and_false,
    if_false]

-- ---------------------------------------------------------------------------
-- Rounds
-- ---------------------------------------------------------------------------

/-- The first `i` rounds, each a transfer and a poll. -/
def rounds (k : Kernel) (call poll : SystemCall) : Nat → List (SystemCall × Outcome)
  | 0 => []
  | i + 1 => rounds k call poll i ++ [(call, k (2 * i)), (poll, k (2 * i + 1))]

@[simp] theorem rounds_length (k : Kernel) (call poll : SystemCall) (i : Nat) :
    (rounds k call poll i).length = 2 * i := by
  induction i with
  | zero => rfl
  | succ i ih => simp [rounds, ih, Nat.mul_succ]

theorem rounds_split {k : Kernel} {call poll : SystemCall} {isCall : SystemCall → Bool}
    (hpoll : isCall poll = false) {i : Nat} {front back : List (SystemCall × Outcome)}
    {e : SystemCall × Outcome} (he : isCall e.1 = true)
    (h : rounds k call poll i = front ++ e :: back) :
    ∃ j < i, front = rounds k call poll j ∧ e = (call, k (2 * j)) := by
  induction i generalizing back with
  | zero => simp [rounds] at h
  | succ i ih =>
    rw [rounds] at h
    rcases List.append_eq_append_iff.mp h with ⟨new, rfl, hnew⟩ | ⟨old, hold, hback⟩
    · rcases new with _ | ⟨a, new⟩
      · simp only [List.nil_append, List.cons.injEq] at hnew
        exact ⟨i, Nat.lt_succ_self i, by simp, hnew.1.symm⟩
      · -- behind the transfer there is only the poll
        rcases new with _ | ⟨b, new⟩
        · simp only [List.cons_append, List.nil_append, List.cons.injEq] at hnew
          rw [← hnew.2.1, hpoll] at he
          cases he
        · simp at hnew
    · rcases old with _ | ⟨a, old⟩
      · simp only [List.nil_append, List.cons.injEq] at hback
        exact ⟨i, Nat.lt_succ_self i, by simpa using hold.symm, hback.1⟩
      · simp only [List.cons_append, List.cons.injEq] at hback
        obtain ⟨j, hj, hfront⟩ := ih (hback.1 ▸ hold)
        exact ⟨j, Nat.lt_succ_of_lt hj, hfront⟩

/-- Round `i` polls, and its poll does not fail. -/
def GoesOn (k : Kernel) (polls : Outcome → Prop) (i : Nat) : Prop :=
  polls (k (2 * i)) ∧ (k (2 * i + 1)).isFailed = false

theorem GoesOn.polled {k : Kernel} {polls : Outcome → Prop} {i : Nat} (h : GoesOn k polls i) :
    ∃ n, k (2 * i + 1) = .ok n := by
  obtain ⟨-, hready⟩ := h
  cases hk : k (2 * i + 1) with
  | ok n => exact ⟨n, rfl⟩
  | failed e =>
    rw [hk] at hready
    cases hready

/-- Round `i` is made, and polls. -/
def PollMade (k : Kernel) (polls : Outcome → Prop) (i : Nat) : Prop :=
  (∀ j < i, GoesOn k polls j) ∧ polls (k (2 * i))

structure AtRound (k : Kernel) (call poll : SystemCall) (i : Nat) (c : Call Nat) : Prop where
  returned : c.returned = none
  calls : c.calls = rounds k call poll i

/-- How round `i` leaves the loop: `ec` is `error o` after a transfer with
outcome `o` that is not polled for, and 0 after a poll that failed. -/
inductive LeftRound (k : Kernel) (call poll : SystemCall) (polls : Outcome → Prop)
    (error : Outcome → ErrorCode) (i : Nat) : Call Nat → Prop
  | pollFailed (errno : ErrorCode) (hpolls : polls (k (2 * i)))
      (hfailed : (k (2 * i + 1)).isFailed = true) :
      LeftRound k call poll polls error i ⟨⟨errno, 0, rounds k call poll (i + 1)⟩, some 0⟩
  | transferred (errno : ErrorCode) (hpolls : ¬ polls (k (2 * i))) :
      LeftRound k call poll polls error i
        ⟨⟨errno, error (k (2 * i)), rounds k call poll i ++ [(call, k (2 * i))]⟩,
          some (k (2 * i)).count⟩

/-- What a turn does from a state with `n` system calls behind it. -/
structure PollingLoop (turn : Call Nat → Option (Call Nat)) (k : Kernel) (call poll : SystemCall)
    (polls : Outcome → Prop) (error : Outcome → ErrorCode) : Prop where
  returned : ∀ c, c.returned ≠ none → turn c = none
  polled : ∀ c n, c.returned = none → c.calls.length = n → polls (k n) →
    turn c = some ⟨⟨(k (n + 1)).errno, 0, c.calls ++ [(call, k n), (poll, k (n + 1))]⟩,
      if (k (n + 1)).isFailed then some 0 else none⟩
  transferred : ∀ c n, c.returned = none → c.calls.length = n → ¬ polls (k n) →
    turn c = some ⟨⟨(k n).errno, error (k n), c.calls ++ [(call, k n)]⟩, some (k n).count⟩

theorem reaches_returned {turn : Call Nat → Option (Call Nat)} {s c : Call Nat}
    (hreturned : turn s = none) (hr : Reaches turn s c) : c = s := by
  rcases Relation.ReflTransGen.cases_head hr with rfl | ⟨d, hd, -⟩
  · rfl
  · rw [hreturned] at hd
    cases hd

namespace PollingLoop

variable {turn : Call Nat → Option (Call Nat)} {k : Kernel} {call poll : SystemCall}
  {polls : Outcome → Prop} {error : Outcome → ErrorCode}

theorem retry (h : PollingLoop turn k call poll polls error) :
    Retry turn (GoesOn k polls) (AtRound k call poll) (LeftRound k call poll polls error) := by
  constructor
  · rintro i c ⟨hnone, hcalls⟩ ⟨hpolls, hready⟩
    have hlen : c.calls.length = 2 * i := by simp [hcalls]
    refine ⟨_, h.polled c _ hnone hlen hpolls, ?_, ?_⟩
    · simp [hready]
    · simp [hcalls, rounds]
  · rintro i c ⟨hnone, hcalls⟩ hstop
    have hlen : c.calls.length = 2 * i := by simp [hcalls]
    by_cases hpolls : polls (k (2 * i))
    · have hfailed : (k (2 * i + 1)).isFailed = true := by
        simpa [GoesOn, hpolls] using hstop
      refine ⟨_, h.polled c _ hnone hlen hpolls, h.returned _ (by simp [hfailed]), ?_⟩
      have hleft (errno : ErrorCode) : LeftRound k call poll polls error i
          ⟨⟨errno, 0, rounds k call poll (i + 1)⟩, some 0⟩ := .pollFailed errno hpolls hfailed
      simpa [hcalls, hfailed, rounds] using hleft _
    · refine ⟨_, h.transferred c _ hnone hlen hpolls, h.returned _ (by simp), ?_⟩
      simpa [hcalls] using LeftRound.transferred _ hpolls

/-- A transfer that a call has made is that of a round behind it or of the one
that made it return. -/
theorem transfer_cases (h : PollingLoop turn k call poll polls error) {s c : Call Nat}
    (hs : AtRound k call poll 0 s) (hr : Reaches turn s c) {isCall : SystemCall → Bool}
    (hpoll : isCall poll = false) {front back : List (SystemCall × Outcome)}
    {e : SystemCall × Outcome} (he : isCall e.1 = true) (hsplit : c.calls = front ++ e :: back) :
    ∃ j, (∀ m < j, GoesOn k polls m) ∧ front = rounds k call poll j ∧ e = (call, k (2 * j)) ∧
      (GoesOn k polls j ∨ LeftRound k call poll polls error j c) := by
  obtain ⟨i, hi, hat | ⟨-, -, hleft⟩⟩ := h.retry.of_reaches hs hr
  · obtain ⟨j, hj, hfront, rfl⟩ := rounds_split hpoll he (hat.calls ▸ hsplit)
    exact ⟨j, fun m hm => hi m (Nat.lt_trans hm hj), hfront, rfl, .inl (hi j hj)⟩
  · cases hleft with
    | pollFailed errno hpolls hfailed =>
      obtain ⟨j, hj, hfront, rfl⟩ := rounds_split hpoll he hsplit
      refine ⟨j, fun m hm => hi m (by omega), hfront, rfl, ?_⟩
      rcases Nat.lt_succ_iff_lt_or_eq.mp hj with hj | rfl
      · exact .inl (hi j hj)
      · exact .inr (.pollFailed errno hpolls hfailed)
    | transferred errno hpolls =>
      rcases List.eq_nil_or_concat back with rfl | ⟨back, last, rfl⟩
      · obtain ⟨rfl, hlast⟩ := List.append_inj' hsplit rfl
        refine ⟨i, hi, rfl, (List.cons.inj hlast).1.symm, .inr (.transferred errno hpolls)⟩
      · have hlast :
            rounds k call poll i ++ [(call, k (2 * i))] = front ++ e :: back ++ [last] := by
          simpa using hsplit
        obtain ⟨j, hj, hfront, rfl⟩ := rounds_split hpoll he (List.append_inj' hlast rfl).1
        exact ⟨j, fun m hm => hi m (Nat.lt_trans hm hj), hfront, rfl, .inl (hi j hj)⟩

/-- Before a transfer that is not the first there are a transfer that is polled
for and a poll that did not fail. -/
theorem transfer_again (h : PollingLoop turn k call poll polls error) {s c : Call Nat}
    (hs : AtRound k call poll 0 s) (hr : Reaches turn s c) {isCall : SystemCall → Bool}
    (hpoll : isCall poll = false) {front back : List (SystemCall × Outcome)}
    {e : SystemCall × Outcome} (he : isCall e.1 = true) (hsplit : c.calls = front ++ e :: back) :
    front = [] ∨ ∃ j n, (∀ m < j + 1, GoesOn k polls m) ∧
      front = rounds k call poll j ++ [(call, k (2 * j)), (poll, .ok n)] := by
  obtain ⟨j, hj, hfront, -, -⟩ := h.transfer_cases hs hr hpoll he hsplit
  cases j with
  | zero => exact .inl hfront
  | succ j =>
    obtain ⟨n, hn⟩ := (hj j (Nat.lt_succ_self j)).polled
    exact .inr ⟨j, n, hj, by rw [hfront, rounds, hn]⟩

end PollingLoop

-- ---------------------------------------------------------------------------
-- sync_send and sync_recv
-- ---------------------------------------------------------------------------

/-- Would-block on a socket that the user did not set non-blocking: the outcome
after which `sync_send` polls. -/
def Blocks (state : StateType) (o : Outcome) : Prop :=
  o = .wouldBlock ∧ state.has userSetNonBlocking = false

/-- The outcomes after which `sync_recv` polls: would-block on a stream, and on
any other socket whatever transferred no byte. -/
def RecvPolls (state : StateType) (o : Outcome) : Prop :=
  if state.has streamOriented then o = .wouldBlock else o.count = 0

theorem Blocks.isFailed {state : StateType} {o : Outcome} (h : Blocks state o) :
    o.isFailed = true := by
  rw [h.1]
  rfl

/-- The `ec` of a `sync_recv` that returns what `recvmsg` did. -/
def recvError (state : StateType) (o : Outcome) : ErrorCode :=
  if state.has streamOriented ∧ o = .ok 0 then invalidSeek else o.errno

variable (k : Kernel) {sockfd : Int} (hvalid : sockfd ≠ invalidSocket) (state : StateType)
  (bufs : List Buffer) (flags : BitVec 32)

include hvalid

theorem syncSend_loop : PollingLoop (syncSendTurn k sockfd state bufs flags) k
    (.sendmsg sockfd bufs (flags ||| msgNosignal)) (.poll sockfd pollOut (-1)) (Blocks state)
    Outcome.errno := by
  constructor
  · intro c hc
    simp [syncSendTurn, Option.isSome_iff_ne_none.mpr hc]
  · rintro c n hnone rfl ⟨hblock, hnb⟩
    have hfailed : (k c.calls.length).isFailed = true := by rw [hblock]; rfl
    have herrno : (k c.calls.length).errno = operationWouldBlock := by rw [hblock]; rfl
    simp only [syncSendTurn, hnone, send, transfer_eq, pollWrite, pollFor_blocking pollOut k hvalid]
    simp [hfailed, herrno, hnb, resourceUnavailableTryAgain, operationWouldBlock]
  · rintro c n hnone rfl hpolls
    rw [Blocks, Outcome.eq_wouldBlock_iff] at hpolls
    simp only [syncSendTurn, hnone, send, transfer_eq, pollWrite, pollFor_blocking pollOut k hvalid]
    cases hsent : k c.calls.length with
    | ok n => simp [Outcome.result, Outcome.errno, Outcome.count]
    | failed e =>
      rw [hsent] at hpolls
      have hleaves (hnb : state.has userSetNonBlocking = false) : e.1 ≠ operationWouldBlock :=
        fun he => hpolls ⟨he, hnb⟩
      have hsame : resourceUnavailableTryAgain = operationWouldBlock := rfl
      simp only [Outcome.result, Outcome.errno, Outcome.count, hsame]
      cases hnb : state.has userSetNonBlocking with
      | true => simp
      | false => simp [hleaves hnb]

theorem syncRecv_loop : PollingLoop (syncRecvTurn k sockfd state bufs flags) k
    (.recvmsg sockfd bufs flags) (.poll sockfd pollIn (-1)) (RecvPolls state)
    (recvError state) := by
  have hsame : resourceUnavailableTryAgain = operationWouldBlock := rfl
  constructor
  · intro c hc
    simp [syncRecvTurn, Option.isSome_iff_ne_none.mpr hc]
  · rintro c n hnone rfl hpolls
    simp only [syncRecvTurn, hnone, recv, transfer_eq, pollRead, pollFor_blocking pollIn k hvalid]
    cases hstream : state.has streamOriented with
    | true =>
      simp only [RecvPolls, hstream, if_true] at hpolls
      have hfailed : (k c.calls.length).isFailed = true := by rw [hpolls]; rfl
      have herrno : (k c.calls.length).errno = operationWouldBlock := by rw [hpolls]; rfl
      have hcount : (k c.calls.length).count = 0 := by rw [hpolls]; rfl
      have hnz : (k c.calls.length).result ≠ 0 := by rw [hpolls]; decide
      simp [hcount, herrno, hnz, hsame]
    | false =>
      simp only [RecvPolls, hstream, Bool.false_eq_true, if_false] at hpolls
      simp [hpolls]
  · rintro c n hnone rfl hpolls
    simp only [syncRecvTurn, hnone, recv, transfer_eq, pollRead, pollFor_blocking pollIn k hvalid]
    cases hstream : state.has streamOriented with
    | true =>
      simp only [RecvPolls, hstream, if_true, Outcome.eq_wouldBlock_iff] at hpolls
      cases hrecv : k c.calls.length with
      | ok n =>
        cases n with
        | zero => simp [recvError, hstream, Outcome.result, Outcome.errno, Outcome.count]
        | succ n => simp [recvError, Outcome.errno, Outcome.count, Outcome.result]
      | failed e =>
        rw [hrecv] at hpolls
        have he : e.1 ≠ operationWouldBlock := hpolls
        simp [recvError, Outcome.errno, Outcome.count, Outcome.result, hsame, he]
    | false =>
      simp only [RecvPolls, hstream, Bool.false_eq_true, if_false] at hpolls
      simp [recvError, hstream, Nat.pos_of_ne_zero hpolls]

end BoostAsio.SocketOps
