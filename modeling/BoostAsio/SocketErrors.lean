import BoostAsio.PollingLoop

/-!
# Failures that are reported as success

`poll_read`, `poll_write` and `poll_error` clear `ec` whatever `poll` returned,
where the other wrappers clear it for a result of 0 only. A poll that fails
therefore returns -1 with no error, and a `sync_send` or `sync_recv` that polls
returns 0 with no error, as if it had transferred nothing.
-/

namespace BoostAsio.SocketOps

open Loops

/-- What a poll of `sockfd` with outcome `o` should report. -/
structure PollReports (sockfd : Int) (o : Outcome) (r : Int × Exchange) : Prop where
  failed : r.1 < 0 →
    r.2.ec ≠ 0 ∧ r.2.ec = if sockfd = invalidSocket then badFileDescriptor else o.errno
  succeeded : 0 < r.1 → r.2.ec = 0

/-- What a call that has returned should report of its last system call. -/
structure Reports (c : Call Nat) : Prop where
  failed : ∀ call e, c.calls.getLast? = some (call, .failed e) → c.ec ≠ 0
  succeeded : ∀ call n, c.calls.getLast? = some (call, .ok n) → 0 < n → c.ec = 0

theorem pollFor_reports_iff (events : BitVec 16) (k : Kernel) (sockfd : Int) (state : StateType)
    (x : Exchange) : PollReports sockfd (k x.calls.length) (pollFor events k sockfd state x) ↔
      (sockfd ≠ invalidSocket → (k x.calls.length).isFailed = false) := by
  by_cases hvalid : sockfd = invalidSocket
  · have hreports : PollReports sockfd (k x.calls.length) (pollFor events k sockfd state x) := by
      constructor <;> simp [pollFor, hvalid, badFileDescriptor]
    exact iff_of_true hreports fun h => absurd hvalid h
  · rw [pollFor_eq events k hvalid]
    constructor
    · intro hreports _
      by_contra hready
      have hfailed : (k x.calls.length).isFailed = true := by simpa using hready
      have hnz := (hreports.failed (by simpa using hfailed)).1
      cases hk : k x.calls.length with
      | ok n => simp [hk, Outcome.isFailed] at hfailed
      | failed e => simp [hk] at hnz
    · intro hready
      constructor
      · intro hneg
        rw [Outcome.result_lt_zero, hready hvalid] at hneg
        cases hneg
      · intro hpos
        have hne : k x.calls.length ≠ .ok 0 := by
          rintro hzero
          simp [hzero, Outcome.result] at hpos
        simp [hne]

-- ---------------------------------------------------------------------------
-- sync_send and sync_recv
-- ---------------------------------------------------------------------------

namespace PollingLoop

variable {turn : Call Nat → Option (Call Nat)} {k : Kernel} {call poll : SystemCall}
  {polls : Outcome → Prop} {error : Outcome → ErrorCode} {start : Call Nat}

theorem reports_iff (h : PollingLoop turn k call poll polls error)
    (hstart : AtRound k call poll 0 start)
    (herror : ∀ o, o.isFailed = true → error o ≠ 0) (hok : ∀ n, 0 < n → error (.ok n) = 0) :
    (∀ t, Ends turn start t → Reports t) ↔
      ∀ i, PollMade k polls i → (k (2 * i + 1)).isFailed = false := by
  constructor
  · rintro hreports i ⟨hi, hpolls⟩
    by_contra hready
    have hfailed : (k (2 * i + 1)).isFailed = true := by simpa using hready
    obtain ⟨t, ht, hleft⟩ := h.retry.exists_ends hstart hi fun hgoes => hready hgoes.2
    cases hleft with
    | pollFailed errno =>
      cases hk : k (2 * i + 1) with
      | ok n => simp [hk, Outcome.isFailed] at hfailed
      | failed e => exact (hreports _ ht).failed poll e (by simp [rounds, hk]) rfl
    | transferred errno hnot => exact hnot hpolls
  · intro hcond t ht
    obtain ⟨i, hi, -, hleft⟩ := h.retry.of_ends hstart ht
    cases hleft with
    | pollFailed errno hpolls hfailed =>
      rw [hcond i ⟨hi, hpolls⟩] at hfailed
      cases hfailed
    | transferred errno hnot =>
      constructor
      · intro last e hlast
        have hk : k (2 * i) = .failed e := by simpa using (Prod.mk.inj (by simpa using hlast)).2
        exact herror _ (by rw [hk]; rfl)
      · intro last n hlast hn
        have hk : k (2 * i) = .ok n := by simpa using (Prod.mk.inj (by simpa using hlast)).2
        change error (k (2 * i)) = 0
        rw [hk]
        exact hok n hn

end PollingLoop

/-- A function that returns before its loop makes no system call. -/
theorem Reports.of_returned {turn : Call Nat → Option (Call Nat)} {start t : Call Nat}
    (hcalls : start.calls = []) (hturn : turn start = none) (ht : Ends turn start t) :
    Reports t := by
  rw [ht.unique (.done hturn)]
  constructor <;> simp [hcalls]

theorem syncSend_reports_iff (k : Kernel) (sockfd : Int) (state : StateType) (bufs : List Buffer)
    (flags : BitVec 32) (allEmpty : Bool) (errno ec : ErrorCode) :
    (∀ t, Ends (syncSendTurn k sockfd state bufs flags)
        (syncSendStart sockfd allEmpty { errno, ec }) t → Reports t) ↔
      (sockfd ≠ invalidSocket →
        ∀ i, PollMade k (Blocks state) i → (k (2 * i + 1)).isFailed = false) := by
  by_cases hvalid : sockfd = invalidSocket
  · refine iff_of_true (fun t => .of_returned ?_ ?_) fun h => absurd hvalid h
    · simp [syncSendStart, hvalid]
    · simp [syncSendTurn, syncSendStart, hvalid]
  · have hstart : AtRound k (.sendmsg sockfd bufs (flags ||| msgNosignal))
        (.poll sockfd pollOut (-1)) 0 (syncSendStart sockfd allEmpty { errno, ec }) := by
      constructor <;> simp [syncSendStart, hvalid, rounds]
    rw [(syncSend_loop k hvalid state bufs flags).reports_iff hstart
      (fun o ho => Outcome.isFailed_iff.mp ho) fun n _ => rfl]
    simp [hvalid]

theorem syncRecv_reports_iff (k : Kernel) (sockfd : Int) (state : StateType) (bufs : List Buffer)
    (flags : BitVec 32) (allEmpty : Bool) (errno ec : ErrorCode) :
    (∀ t, Ends (syncRecvTurn k sockfd state bufs flags)
        (syncRecvStart sockfd state allEmpty { errno, ec }) t → Reports t) ↔
      (sockfd ≠ invalidSocket → (allEmpty && state.has streamOriented) = false →
        ∀ i, PollMade k (RecvPolls state) i → (k (2 * i + 1)).isFailed = false) := by
  by_cases hvalid : sockfd = invalidSocket
  · refine iff_of_true (fun t => .of_returned ?_ ?_) fun h => absurd hvalid h
    · simp [syncRecvStart, hvalid]
    · simp [syncRecvTurn, syncRecvStart, hvalid]
  cases hempty : allEmpty && state.has streamOriented with
  | true =>
    refine iff_of_true (fun t => .of_returned ?_ ?_) fun _ h => by cases h
    · simp [syncRecvStart, hvalid, hempty]
    · simp [syncRecvTurn, syncRecvStart, hvalid, hempty]
  | false =>
    have hstart : AtRound k (.recvmsg sockfd bufs flags) (.poll sockfd pollIn (-1)) 0
        (syncRecvStart sockfd state allEmpty { errno, ec }) := by
      constructor <;> simp [syncRecvStart, hvalid, hempty, rounds]
    have herror (o : Outcome) (ho : o.isFailed = true) : recvError state o ≠ 0 := by
      unfold recvError
      split
      · decide
      · exact Outcome.isFailed_iff.mp ho
    have hok (n : Nat) (hn : 0 < n) : recvError state (.ok n) = 0 := by
      simp [recvError, Nat.ne_of_gt hn, Outcome.errno]
    rw [(syncRecv_loop k hvalid state bufs flags).reports_iff hstart herror hok]
    simp [hvalid]

/-- Every function reports its failures if and only if no poll that it makes
fails. -/
theorem failures_reported_iff (k : Kernel) (sockfd : Int) (state : StateType)
    (bufs : List Buffer) (flags : BitVec 32) (allEmpty : Bool) (errno ec : ErrorCode) (msec : Int)
    (x : Exchange) :
    (PollReports sockfd (k x.calls.length) (pollRead k sockfd state msec x) ↔
      (sockfd ≠ invalidSocket → (k x.calls.length).isFailed = false)) ∧
    (PollReports sockfd (k x.calls.length) (pollWrite k sockfd state msec x) ↔
      (sockfd ≠ invalidSocket → (k x.calls.length).isFailed = false)) ∧
    (PollReports sockfd (k x.calls.length) (pollError k sockfd state x) ↔
      (sockfd ≠ invalidSocket → (k x.calls.length).isFailed = false)) ∧
    ((∀ t, Ends (syncSendTurn k sockfd state bufs flags)
        (syncSendStart sockfd allEmpty { errno, ec }) t → Reports t) ↔
      (sockfd ≠ invalidSocket →
        ∀ i, PollMade k (Blocks state) i → (k (2 * i + 1)).isFailed = false)) ∧
    ((∀ t, Ends (syncRecvTurn k sockfd state bufs flags)
        (syncRecvStart sockfd state allEmpty { errno, ec }) t → Reports t) ↔
      (sockfd ≠ invalidSocket → (allEmpty && state.has streamOriented) = false →
        ∀ i, PollMade k (RecvPolls state) i → (k (2 * i + 1)).isFailed = false)) :=
  ⟨pollFor_reports_iff _ k sockfd state x, pollFor_reports_iff _ k sockfd state x,
    pollFor_reports_iff _ k sockfd state x,
    syncSend_reports_iff k sockfd state bufs flags allEmpty errno ec,
    syncRecv_reports_iff k sockfd state bufs flags allEmpty errno ec⟩

/-- A blocking `sync_send` whose poll is interrupted. -/
def interruptedPoll : Kernel
  | 0 => .wouldBlock
  | _ => .interrupted

theorem interruptedPoll_reported_as_success :
    ¬ ∀ t, Ends (syncSendTurn interruptedPoll 3 streamOriented [⟨0, 8⟩] 0)
      (syncSendStart 3 false { errno := 0, ec := 0 }) t → Reports t := by
  intro h
  have hturn : syncSendTurn interruptedPoll 3 streamOriented [⟨0, 8⟩] 0
      (syncSendStart 3 false { errno := 0, ec := 0 }) = some
        ⟨⟨interrupted, 0, [(.sendmsg 3 [⟨0, 8⟩] msgNosignal, .wouldBlock),
          (.poll 3 pollOut (-1), .interrupted)]⟩, some 0⟩ := by
    decide
  exact (h _ (.turn hturn (.done rfl))).failed _ _ rfl rfl

end BoostAsio.SocketOps
