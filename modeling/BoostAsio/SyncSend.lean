import BoostAsio.PollingLoop

/-!
# Data is sent once

What the system calls of one `sync_send` and of one `non_blocking_send` can be:
failed calls of `sendmsg` that allow another one, and at the end at most one
that succeeded, whose count the function reports.
-/

namespace BoostAsio.SocketOps

open Loops

-- ---------------------------------------------------------------------------
-- sync_send
-- ---------------------------------------------------------------------------

structure SyncSendOnce (k : Kernel) (sockfd : Int) (state : StateType) (bufs : List Buffer)
    (flags : BitVec 32) (start : Call Nat) : Prop where
  /-- A `sendmsg` that succeeds is the last call made, and its count is returned. -/
  last : ∀ c front e back, Reaches (syncSendTurn k sockfd state bufs flags) start c →
    c.calls = front ++ e :: back → e.1.isSendmsg = true → e.2.isFailed = false →
    back = [] ∧ c.returned = some e.2.count
  zero : ∀ c n, Reaches (syncSendTurn k sockfd state bufs flags) start c →
    (∀ e ∈ c.calls, e.1.isSendmsg = true → e.2.isFailed = true) → c.returned = some n → n = 0
  /-- A `sendmsg` is the first call made, or would-block and a poll that did not
  fail are before it. -/
  again : ∀ c front e back, Reaches (syncSendTurn k sockfd state bufs flags) start c →
    c.calls = front ++ e :: back → e.1.isSendmsg = true →
    front = [] ∨ state.has userSetNonBlocking = false ∧ ∃ before n, front = before ++
      [(.sendmsg sockfd bufs (flags ||| msgNosignal), .wouldBlock),
        (.poll sockfd pollOut (-1), .ok n)]
  /-- It returns unless every `sendmsg` blocks and every poll succeeds. -/
  returns : (∃ t, Ends (syncSendTurn k sockfd state bufs flags) start t) ↔
    start.returned ≠ none ∨ ∃ i, ¬ GoesOn k (Blocks state) i

section SyncSend

variable {k : Kernel} {sockfd : Int} {state : StateType} {bufs : List Buffer} {flags : BitVec 32}

theorem syncSendTurn_returned {c : Call Nat} (h : c.returned ≠ none) :
    syncSendTurn k sockfd state bufs flags c = none := by
  simp [syncSendTurn, Option.isSome_iff_ne_none.mpr h]

/-- Where `sync_send` is not called with a socket it returns at once. -/
theorem SyncSendOnce.of_returned {start : Call Nat} (hcalls : start.calls = [])
    (hzero : start.returned = some 0) : SyncSendOnce k sockfd state bufs flags start := by
  have hturn : syncSendTurn k sockfd state bufs flags start = none :=
    syncSendTurn_returned (by simp [hzero])
  constructor
  · intro c front e back hr hsplit
    rw [reaches_returned hturn hr, hcalls] at hsplit
    simp at hsplit
  · intro c n hr _ hn
    rw [reaches_returned hturn hr, hzero] at hn
    exact (Option.some.inj hn).symm
  · intro c front e back hr hsplit
    rw [reaches_returned hturn hr, hcalls] at hsplit
    simp at hsplit
  · exact ⟨fun _ => .inl (by simp [hzero]), fun _ => ⟨start, .done hturn⟩⟩

theorem SyncSendOnce.of_loop (hvalid : sockfd ≠ invalidSocket) {start : Call Nat}
    (hcalls : start.calls = []) (hnone : start.returned = none) :
    SyncSendOnce k sockfd state bufs flags start := by
  have hloop := syncSend_loop k hvalid state bufs flags
  have hstart : AtRound k (.sendmsg sockfd bufs (flags ||| msgNosignal))
      (.poll sockfd pollOut (-1)) 0 start := ⟨hnone, hcalls⟩
  constructor
  · intro c front e back hr hsplit he hok
    obtain ⟨j, -, rfl, rfl, hgoes | hleft⟩ := hloop.transfer_cases hstart hr rfl he hsplit
    · rw [hgoes.1.isFailed] at hok
      cases hok
    · cases hleft with
      | pollFailed errno hpolls hfailed =>
        rw [hpolls.isFailed] at hok
        cases hok
      | transferred errno hpolls =>
        exact ⟨(List.cons.inj (List.append_cancel_left hsplit)).2.symm, rfl⟩
  · intro c n hr hnot hn
    obtain ⟨i, hi, hat | ⟨-, -, hleft⟩⟩ := hloop.retry.of_reaches hstart hr
    · rw [hat.returned] at hn
      cases hn
    · cases hleft with
      | pollFailed errno hpolls hfailed => exact (Option.some.inj hn).symm
      | transferred errno hpolls =>
        have hfailed : (k (2 * i)).isFailed = true :=
          hnot (.sendmsg sockfd bufs (flags ||| msgNosignal), k (2 * i)) (by simp) rfl
        cases hk : k (2 * i) with
        | ok m => simp [hk, Outcome.isFailed] at hfailed
        | failed e =>
          rw [hk] at hn
          exact (Option.some.inj hn).symm
  · intro c front e back hr hsplit he
    obtain hfront | ⟨j, n, hj, hfront⟩ := hloop.transfer_again hstart hr rfl he hsplit
    · exact .inl hfront
    · obtain ⟨hblock, hnb⟩ := (hj j (Nat.lt_succ_self j)).1
      rw [hblock] at hfront
      exact .inr ⟨hnb, _, n, hfront⟩
  · rw [hloop.retry.exists_ends_iff hstart]
    simp [hnone]

theorem syncSend_once (k : Kernel) (sockfd : Int) (state : StateType) (bufs : List Buffer)
    (flags : BitVec 32) (allEmpty : Bool) (errno ec : ErrorCode) :
    SyncSendOnce k sockfd state bufs flags (syncSendStart sockfd allEmpty { errno, ec }) := by
  by_cases hvalid : sockfd = invalidSocket
  · exact .of_returned (by simp [syncSendStart, hvalid]) (by simp [syncSendStart, hvalid])
  · exact .of_loop hvalid (by simp [syncSendStart, hvalid]) (by simp [syncSendStart, hvalid])

end SyncSend

-- ---------------------------------------------------------------------------
-- non_blocking_send
-- ---------------------------------------------------------------------------

structure NonBlockingSendOnce (k : Kernel) (sockfd : Int) (bufs : List Buffer)
    (flags : BitVec 32) (start : NonBlockingSend) : Prop where
  last : ∀ c front e back, Reaches (nonBlockingSendTurn k sockfd bufs flags) start c →
    c.calls = front ++ e :: back → e.1.isSendmsg = true → e.2.isFailed = false →
    back = [] ∧ c.returned = some true ∧ c.bytesTransferred = e.2.count
  zero : ∀ c, Reaches (nonBlockingSendTurn k sockfd bufs flags) start c →
    (∀ e ∈ c.calls, e.1.isSendmsg = true → e.2.isFailed = true) → c.returned = some true →
    c.bytesTransferred = 0
  /-- Every call but the last was interrupted. -/
  again : ∀ c front e back, Reaches (nonBlockingSendTurn k sockfd bufs flags) start c →
    c.calls = front ++ e :: back → ∀ f ∈ front, f.2 = .interrupted
  false_iff : (∃ c, Ends (nonBlockingSendTurn k sockfd bufs flags) start c ∧
      c.returned = some false) ↔ ∃ i, (∀ j < i, k j = .interrupted) ∧ k i = .wouldBlock
  unchanged : ∀ c, Reaches (nonBlockingSendTurn k sockfd bufs flags) start c →
    c.returned = some false → c.bytesTransferred = start.bytesTransferred
  returns : (∃ c, Ends (nonBlockingSendTurn k sockfd bufs flags) start c) ↔
    ∃ i, k i ≠ .interrupted

section NonBlockingSend

variable {k : Kernel} {sockfd : Int} {bufs : List Buffer} {flags : BitVec 32}

/-- The first `i` calls of `sendmsg`. -/
def attempts (k : Kernel) (call : SystemCall) (i : Nat) : List (SystemCall × Outcome) :=
  (List.range i).map fun j => (call, k j)

theorem attempts_succ (k : Kernel) (call : SystemCall) (i : Nat) :
    attempts k call (i + 1) = attempts k call i ++ [(call, k i)] := by
  simp [attempts, List.range_succ]

@[simp] theorem attempts_length (k : Kernel) (call : SystemCall) (i : Nat) :
    (attempts k call i).length = i := by simp [attempts]

structure AtAttempt (k : Kernel) (call : SystemCall) (bytes i : Nat) (c : NonBlockingSend) :
    Prop where
  returned : c.returned = none
  calls : c.calls = attempts k call i
  bytesTransferred : c.bytesTransferred = bytes

structure LeftAttempt (k : Kernel) (call : SystemCall) (bytes i : Nat) (c : NonBlockingSend) :
    Prop where
  returned : c.returned = some (decide (k i ≠ .wouldBlock))
  calls : c.calls = attempts k call (i + 1)
  bytesTransferred : c.bytesTransferred = if k i = .wouldBlock then bytes else (k i).count

theorem nonBlockingSend_retry (k : Kernel) (sockfd : Int) (bufs : List Buffer)
    (flags : BitVec 32) (bytes : Nat) :
    Retry (nonBlockingSendTurn k sockfd bufs flags) (fun i => k i = .interrupted)
      (AtAttempt k (.sendmsg sockfd bufs (flags ||| msgNosignal)) bytes)
      (LeftAttempt k (.sendmsg sockfd bufs (flags ||| msgNosignal)) bytes) := by
  have hsame : resourceUnavailableTryAgain = operationWouldBlock := rfl
  have hne : operationWouldBlock ≠ SocketOps.interrupted := by decide
  constructor
  · rintro i c ⟨hnone, hcalls, hbytes⟩ hi
    have hlen : c.calls.length = i := by simp [hcalls]
    rw [Outcome.eq_interrupted_iff] at hi
    simp only [nonBlockingSendTurn, hnone, send, transfer_eq, hlen, hi]
    refine ⟨_, rfl, rfl, ?_, hbytes⟩
    simp [hcalls, attempts_succ]
  · rintro i c ⟨hnone, hcalls, hbytes⟩ hi
    have hlen : c.calls.length = i := by simp [hcalls]
    rw [Outcome.eq_interrupted_iff] at hi
    by_cases hblock : (k i).errno = operationWouldBlock
    · have hturn : nonBlockingSendTurn k sockfd bufs flags c = some ⟨⟨⟨(k i).errno, (k i).errno,
          c.calls ++ [(.sendmsg sockfd bufs (flags ||| msgNosignal), k i)]⟩, some false⟩,
          c.bytesTransferred⟩ := by
        simp [nonBlockingSendTurn, hnone, send, transfer_eq, hlen, hblock, hne]
      refine ⟨_, hturn, rfl, ?_, ?_, ?_⟩
      · simp [Outcome.eq_wouldBlock_iff, hblock]
      · simp [hcalls, attempts_succ]
      · simp [Outcome.eq_wouldBlock_iff, hblock, hbytes]
    · have hturn : nonBlockingSendTurn k sockfd bufs flags c = some ⟨⟨⟨(k i).errno, (k i).errno,
          c.calls ++ [(.sendmsg sockfd bufs (flags ||| msgNosignal), k i)]⟩, some true⟩,
          (k i).count⟩ := by
        simp only [nonBlockingSendTurn, hnone, send, transfer_eq, hlen, hi, hblock, hsame]
        cases k i <;> rfl
      refine ⟨_, hturn, rfl, ?_, ?_, ?_⟩
      · simp [Outcome.eq_wouldBlock_iff, hblock]
      · simp [hcalls, attempts_succ]
      · simp [Outcome.eq_wouldBlock_iff, hblock]

theorem attempts_split {call : SystemCall} {i : Nat} {front back : List (SystemCall × Outcome)}
    {e : SystemCall × Outcome} (h : attempts k call i = front ++ e :: back) :
    ∃ j, i = j + 1 + back.length ∧ front = attempts k call j ∧ e = (call, k j) := by
  have hlen : i = front.length + 1 + back.length := by
    have := congrArg List.length h
    simp only [attempts_length, List.length_append, List.length_cons] at this
    omega
  refine ⟨front.length, hlen, ?_, ?_⟩
  · calc front = (attempts k call i).take front.length := by simp [h]
      _ = attempts k call front.length := by
        rw [attempts, ← List.map_take, List.take_range, Nat.min_eq_left (by omega), attempts]
  · have he : (attempts k call i)[front.length]? = some e := by simp [h]
    rw [attempts, List.getElem?_map, List.getElem?_range (by omega)] at he
    exact (Option.some.inj he).symm

/-- The system calls made: all were interrupted, or the last one alone was not
and made the function return. -/
theorem nonBlockingSend_cases {bytes : Nat} {s c : NonBlockingSend}
    (hs : AtAttempt k (.sendmsg sockfd bufs (flags ||| msgNosignal)) bytes 0 s)
    (hr : Reaches (nonBlockingSendTurn k sockfd bufs flags) s c)
    {front back : List (SystemCall × Outcome)} {e : SystemCall × Outcome}
    (h : c.calls = front ++ e :: back) :
    (∀ f ∈ front, f.2 = .interrupted) ∧ (e.2 = .interrupted ∨ back = [] ∧ ∃ i, e.2 = k i ∧
      LeftAttempt k (.sendmsg sockfd bufs (flags ||| msgNosignal)) bytes i c) := by
  have hearlier {j i : Nat} (hj : j ≤ i) (hi : ∀ m < i, k m = .interrupted) {call : SystemCall} :
      ∀ f ∈ attempts k call j, f.2 = .interrupted := by
    intro f hf
    obtain ⟨m, hm, rfl⟩ := List.mem_map.mp hf
    exact hi m (Nat.lt_of_lt_of_le (List.mem_range.mp hm) hj)
  obtain ⟨i, hi, hat | ⟨-, -, hleft⟩⟩ :=
    (nonBlockingSend_retry k sockfd bufs flags bytes).of_reaches hs hr
  · obtain ⟨j, hj, rfl, rfl⟩ := attempts_split (hat.calls ▸ h)
    exact ⟨hearlier (by omega) hi, .inl (hi j (by omega))⟩
  · obtain ⟨j, hj, rfl, rfl⟩ := attempts_split (hleft.calls ▸ h)
    refine ⟨hearlier (by omega) hi, ?_⟩
    rcases Nat.lt_or_ge j i with hlt | hge
    · exact .inl (hi j hlt)
    · obtain rfl : j = i := by omega
      exact .inr ⟨List.length_eq_zero_iff.mp (by omega), j, rfl, hleft⟩

theorem nonBlockingSend_once (k : Kernel) (sockfd : Int) (bufs : List Buffer)
    (flags : BitVec 32) (errno ec : ErrorCode) (bytes : Nat) :
    NonBlockingSendOnce k sockfd bufs flags ⟨⟨{ errno, ec }, none⟩, bytes⟩ := by
  have hretry := nonBlockingSend_retry k sockfd bufs flags bytes
  have hstart : AtAttempt k (.sendmsg sockfd bufs (flags ||| msgNosignal)) bytes 0
      ⟨⟨{ errno, ec }, none⟩, bytes⟩ := ⟨rfl, rfl, rfl⟩
  constructor
  · intro c front e back hr hsplit he hok
    obtain ⟨-, hinterrupted | ⟨rfl, i, hlast, hleft⟩⟩ := nonBlockingSend_cases hstart hr hsplit
    · rw [hinterrupted] at hok
      cases hok
    · have hne : k i ≠ .wouldBlock := by
        intro hblock
        rw [hlast, hblock] at hok
        cases hok
      refine ⟨rfl, ?_, ?_⟩
      · simpa [hne] using hleft.returned
      · simpa [hne, hlast] using hleft.bytesTransferred
  · intro c hr hnot htrue
    obtain ⟨i, -, hat | ⟨-, -, hleft⟩⟩ := hretry.of_reaches hstart hr
    · rw [hat.returned] at htrue
      cases htrue
    · have hne : k i ≠ .wouldBlock := by simpa [hleft.returned] using htrue
      have hfailed : (k i).isFailed = true :=
        hnot (.sendmsg sockfd bufs (flags ||| msgNosignal), k i)
          (by simp [hleft.calls, attempts_succ]) rfl
      rw [hleft.bytesTransferred, if_neg hne]
      cases hk : k i with
      | ok n => simp [hk, Outcome.isFailed] at hfailed
      | failed e => rfl
  · intro c front e back hr hsplit
    exact (nonBlockingSend_cases hstart hr hsplit).1
  · constructor
    · rintro ⟨c, hends, hfalse⟩
      obtain ⟨i, hi, -, hleft⟩ := hretry.of_ends hstart hends
      exact ⟨i, hi, by simpa [hleft.returned] using hfalse⟩
    · rintro ⟨i, hi, hblock⟩
      have hne : k i ≠ .interrupted := by
        rw [hblock]
        decide
      obtain ⟨c, hends, hleft⟩ := hretry.exists_ends hstart hi hne
      exact ⟨c, hends, by simp [hleft.returned, hblock]⟩
  · intro c hr hfalse
    obtain ⟨i, -, hat | ⟨-, -, hleft⟩⟩ := hretry.of_reaches hstart hr
    · exact hat.bytesTransferred
    · have hblock : k i = .wouldBlock := by simpa [hleft.returned] using hfalse
      simpa [hblock] using hleft.bytesTransferred
  · exact hretry.exists_ends_iff hstart

end NonBlockingSend

theorem sent_once (k : Kernel) (sockfd : Int) (state : StateType) (bufs : List Buffer)
    (flags : BitVec 32) (allEmpty : Bool) (errno ec : ErrorCode) (bytes : Nat) :
    SyncSendOnce k sockfd state bufs flags (syncSendStart sockfd allEmpty { errno, ec }) ∧
      NonBlockingSendOnce k sockfd bufs flags ⟨⟨{ errno, ec }, none⟩, bytes⟩ :=
  ⟨syncSend_once k sockfd state bufs flags allEmpty errno ec,
    nonBlockingSend_once k sockfd bufs flags errno ec bytes⟩

end BoostAsio.SocketOps
