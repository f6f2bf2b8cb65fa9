import BoostAsio.PollingLoop

/-!
# When sync_recv receives again

Of the outcomes of `recvmsg`, only would-block on a socket that the user did
not set non-blocking is a reason to receive again. `sync_recv` tests
`stream_oriented` where it should test `user_set_non_blocking`: a stream polls
after would-block in user non-blocking mode too, and any other socket polls
after every outcome without a byte, an empty datagram and all errors included.
-/

namespace BoostAsio.SocketOps

open Loops

structure RetriesOnlyOnWouldBlock (k : Kernel) (sockfd : Int) (state : StateType)
    (bufs : List Buffer) (flags : BitVec 32) (start : Call Nat) : Prop where
  /-- A `recvmsg` is the first call made, or would-block and a poll that did not
  fail are before it. -/
  again : ∀ c front e back, Reaches (syncRecvTurn k sockfd state bufs flags) start c →
    c.calls = front ++ e :: back → e.1.isRecvmsg = true →
    front = [] ∨ state.has userSetNonBlocking = false ∧ ∃ before n, front = before ++
      [(.recvmsg sockfd bufs flags, .wouldBlock), (.poll sockfd pollIn (-1), .ok n)]
  /-- Every other outcome ends the call, with no system call behind it, and is
  what the call reports. -/
  ends : ∀ c front e back, Reaches (syncRecvTurn k sockfd state bufs flags) start c →
    c.calls = front ++ e :: back → e.1.isRecvmsg = true → ¬ Blocks state e.2 →
    back = [] ∧ c.returned = some e.2.count ∧
      ∀ errno : Errno, e.2 = .failed errno → c.ec = errno
  /-- Only would-block and polls that succeed can go on for ever. -/
  returns : (∀ t, ¬ Ends (syncRecvTurn k sockfd state bufs flags) start t) →
    ∀ i, GoesOn k (Blocks state) i

/-- What makes round `i` go wrong: would-block in user non-blocking mode, or on
a socket that is not a stream another error or an empty datagram, behind which
there is a poll. -/
def GoesAstray (k : Kernel) (state : StateType) (i : Nat) : Prop :=
  k (2 * i) = .wouldBlock ∧ state.has userSetNonBlocking = true ∨
    state.has streamOriented = false ∧
      ((k (2 * i)).isFailed = true ∧ k (2 * i) ≠ .wouldBlock ∨ k (2 * i) = .ok 0)

variable {k : Kernel} {sockfd : Int} {state : StateType} {bufs : List Buffer} {flags : BitVec 32}
  {i : Nat}

theorem Blocks.recvPolls {o : Outcome} (h : Blocks state o) : RecvPolls state o := by
  unfold RecvPolls
  split
  · exact h.1
  · rw [h.1]
    rfl

theorem GoesAstray.polls (h : GoesAstray k state i) : RecvPolls state (k (2 * i)) := by
  unfold RecvPolls
  rcases h with ⟨hblock, -⟩ | ⟨hstream, ⟨hfailed, -⟩ | hempty⟩
  · split
    · exact hblock
    · rw [hblock]
      rfl
  · rw [hstream, if_neg Bool.false_ne_true]
    cases hk : k (2 * i) with
    | ok n => simp [hk, Outcome.isFailed] at hfailed
    | failed e => rfl
  · rw [hstream, if_neg Bool.false_ne_true, hempty]
    rfl

theorem GoesAstray.not_blocks (h : GoesAstray k state i) : ¬ Blocks state (k (2 * i)) := by
  rintro ⟨hblock, hnb⟩
  rcases h with ⟨-, hset⟩ | ⟨-, ⟨-, hne⟩ | hempty⟩
  · rw [hnb] at hset
    cases hset
  · exact hne hblock
  · rw [hblock] at hempty
    cases hempty

/-- A round that polls for another reason than would-block goes astray. -/
theorem astray_of_polls (hpolls : RecvPolls state (k (2 * i)))
    (hnot : ¬ Blocks state (k (2 * i))) : GoesAstray k state i := by
  have hset (hblock : k (2 * i) = .wouldBlock) : state.has userSetNonBlocking = true := by
    by_contra hnb
    exact hnot ⟨hblock, Bool.not_eq_true _ ▸ hnb⟩
  unfold RecvPolls at hpolls
  split at hpolls
  · exact .inl ⟨hpolls, hset hpolls⟩
  · rename_i hstream
    by_cases hblock : k (2 * i) = .wouldBlock
    · exact .inl ⟨hblock, hset hblock⟩
    · refine .inr ⟨by simpa using hstream, ?_⟩
      cases hk : k (2 * i) with
      | ok n =>
        obtain rfl : n = 0 := by simpa [hk, Outcome.count] using hpolls
        exact .inr rfl
      | failed e => exact .inl ⟨rfl, hk ▸ hblock⟩

theorem GoesOn.recvPolls (h : GoesOn k (Blocks state) i) : GoesOn k (RecvPolls state) i :=
  ⟨h.1.recvPolls, h.2⟩

/-- Where no round goes astray, the rounds before the last were would-block. -/
theorem blocks_of_not_astray
    (hcond : ∀ i, (∀ j < i, GoesOn k (Blocks state) j) → ¬ GoesAstray k state i)
    (h : ∀ j < i, GoesOn k (RecvPolls state) j) : ∀ j < i, GoesOn k (Blocks state) j := by
  intro j
  induction j using Nat.strongRecOn with
  | ind j ih =>
    intro hj
    have hnot := hcond j fun m hm => ih m hm (Nat.lt_trans hm hj)
    obtain ⟨hpolls, hready⟩ := h j hj
    by_contra hblocks
    exact hnot (astray_of_polls hpolls fun hb => hblocks ⟨hb, hready⟩)

section Loop

variable (hvalid : sockfd ≠ invalidSocket) {start : Call Nat}
  (hstart : AtRound k (.recvmsg sockfd bufs flags) (.poll sockfd pollIn (-1)) 0 start)

include hvalid hstart

theorem RetriesOnlyOnWouldBlock.of_not_astray
    (hcond : ∀ i, (∀ j < i, GoesOn k (Blocks state) j) → ¬ GoesAstray k state i) :
    RetriesOnlyOnWouldBlock k sockfd state bufs flags start := by
  have hloop := syncRecv_loop k hvalid state bufs flags
  constructor
  · intro c front e back hr hsplit he
    obtain hfront | ⟨j, n, hj, hfront⟩ := hloop.transfer_again hstart hr rfl he hsplit
    · exact .inl hfront
    · obtain ⟨hblock, hnb⟩ := (blocks_of_not_astray hcond hj j (Nat.lt_succ_self j)).1
      rw [hblock] at hfront
      exact .inr ⟨hnb, _, n, hfront⟩
  · intro c front e back hr hsplit he hnot
    obtain ⟨j, hj, rfl, rfl, hcase⟩ := hloop.transfer_cases hstart hr rfl he hsplit
    have hfine := hcond j (blocks_of_not_astray hcond hj)
    rcases hcase with hgoes | hleft
    · exact absurd (astray_of_polls hgoes.1 hnot) hfine
    · cases hleft with
      | pollFailed errno hpolls hfailed => exact absurd (astray_of_polls hpolls hnot) hfine
      | transferred errno hpolls =>
        refine ⟨(List.cons.inj (List.append_cancel_left hsplit)).2.symm, rfl, ?_⟩
        intro e he
        have he : k (2 * j) = .failed e := he
        change recvError state (k (2 * j)) = e
        rw [recvError, he, if_neg (by simp)]
        rfl
  · intro hforever i
    have hall : ∀ i, GoesOn k (RecvPolls state) i := by
      intro i
      by_contra hstop
      obtain ⟨t, ht⟩ := (hloop.retry.exists_ends_iff hstart).mpr ⟨i, hstop⟩
      exact hforever t ht
    exact blocks_of_not_astray hcond (fun j _ => hall j) i (Nat.lt_succ_self i)

theorem GoesAstray.not_retriesOnlyOnWouldBlock (h : GoesAstray k state i)
    (hi : ∀ j < i, GoesOn k (Blocks state) j) :
    ¬ RetriesOnlyOnWouldBlock k sockfd state bufs flags start := by
  have hloop := syncRecv_loop k hvalid state bufs flags
  intro hproperty
  obtain ⟨c, hr, hat⟩ := hloop.retry.reaches_at hstart fun j hj => (hi j hj).recvPolls
  have hlen : c.calls.length = 2 * i := by simp [hat.calls]
  have hturn := hloop.polled c _ hat.returned hlen h.polls
  -- the poll of the round stands behind its `recvmsg`
  obtain ⟨hback, -⟩ := hproperty.ends _ _ _ _ (hr.tail hturn) rfl rfl h.not_blocks
  cases hback

end Loop

/-- The retries of `sync_recv` are as they should be if and only if no round
that is made goes astray. -/
theorem retriesOnlyOnWouldBlock_iff (k : Kernel) (state : StateType) (bufs : List Buffer)
    (flags : BitVec 32) (errno ec : ErrorCode) (hvalid : sockfd ≠ invalidSocket) :
    RetriesOnlyOnWouldBlock k sockfd state bufs flags
        (syncRecvStart sockfd state false { errno, ec }) ↔
      ∀ i, (∀ j < i, GoesOn k (Blocks state) j) → ¬ GoesAstray k state i := by
  have hstart : AtRound k (.recvmsg sockfd bufs flags) (.poll sockfd pollIn (-1)) 0
      (syncRecvStart sockfd state false { errno, ec }) := by
    constructor <;> simp [syncRecvStart, hvalid, rounds]
  constructor
  · intro hproperty i hi hastray
    exact hastray.not_retriesOnlyOnWouldBlock hvalid hstart hi hproperty
  · exact .of_not_astray hvalid hstart

/-- A kernel that answers the system calls with a list, and with data after it. -/
def answers (outcomes : List Outcome) : Kernel := fun n => outcomes.getD n (.ok 1)

/-- An empty datagram is discarded, and the call waits for the next one. -/
theorem emptyDatagram_discarded : ¬ RetriesOnlyOnWouldBlock (answers [.ok 0]) 3 0 [⟨0, 8⟩] 0
    (syncRecvStart 3 0 false { errno := 0, ec := 0 }) := by
  intro h
  have hturn : syncRecvTurn (answers [.ok 0]) 3 0 [⟨0, 8⟩] 0
      (syncRecvStart 3 0 false { errno := 0, ec := 0 }) = some
        ⟨⟨0, 0, [(.recvmsg 3 [⟨0, 8⟩] 0, .ok 0), (.poll 3 pollIn (-1), .ok 1)]⟩, none⟩ := by
    decide
  obtain ⟨hback, -⟩ :=
    h.ends _ [] _ _ (.single hturn) rfl rfl (by simp [Blocks, Outcome.wouldBlock])
  cases hback

theorem retriesOnlyOnWouldBlock_stream : RetriesOnlyOnWouldBlock
    (answers [.wouldBlock, .ok 1, .ok 5]) 3 streamOriented [⟨0, 8⟩] 0
    (syncRecvStart 3 streamOriented false { errno := 0, ec := 0 }) := by
  refine (retriesOnlyOnWouldBlock_iff _ _ _ _ _ _ (by decide)).mpr ?_
  rintro i hi (⟨-, hset⟩ | ⟨hstream, -⟩)
  · revert hset
    decide
  · revert hstream
    decide

end BoostAsio.SocketOps
