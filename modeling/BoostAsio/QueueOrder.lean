import BoostAsio.SystemCases

/-!
# The order of op_queue_

What enters `op_queue_` enters at the end, and `do_run_one` takes from the
front, whichever threads do so. Along every run, the operations taken and those
still queued are those queued at first and those that entered, in that order
(`opQueue_fifo`): no operation overtakes another in the queue, and none waits
for more than those that were ahead of it.
-/

namespace BoostAsio

open Runs

variable {ι : Type} {hint : Int} {i : ι} {s s' : Shared ι} {t t' : Thread}

def enters (s : Shared ι) (t : Thread) : Action ι → List Operation
  | .user .initTask => if !s.shutdown && !s.task then [.taskOperation] else []
  | .call =>
    match t.call with
    | some (.push ops) => ops
    | _ => []
  | .next =>
    match t.top with
    | some ⟨info, false, .taskCleanupLock, _⟩ => info.privateOpQueue ++ [.taskOperation]
    | some ⟨info, false, .workCleanupLock _, _⟩ => info.privateOpQueue
    | _ => []
  | _ => []

def leaves (s : Shared ι) (t : Thread) : Action ι → List Operation
  | .next =>
    match t.top with
    | some ⟨_, true, .loop, _⟩ => if s.stopped then [] else s.opQueue.take 1
    | _ => []
  | _ => []

theorem userStep_opQueue (hu : t.inUserCode = true) {u : UserAction}
    (h : userStep hint s t u = some (s', t')) :
    s'.opQueue = s.opQueue ++ enters s t (.user u) := by
  have same (hs : s'.toScheduler = s.toScheduler) : s'.opQueue = s.opQueue ++ [] := by
    rw [hs, List.append_nil]
  cases u with
  | initTask =>
    cases userStep_piece hu h with
    | initTask =>
      simp only [enters, Scheduler.initTask]
      split
      · rw [Scheduler.wakeOneThreadAndUnlock_fst]
      · rw [List.append_nil]
  | restart =>
    cases userStep_piece hu h with
    | restart => exact (List.append_nil _).symm
  | _ => exact same (userStep_toScheduler hu (by simp) (by simp) h)

theorem endOfWork_opQueue (s : Shared ι) (f : Run) (t : Thread) (thrown : Bool) :
    (endOfWork s f t thrown).1.opQueue = s.opQueue := by
  cases thrown <;> rfl

section RunStep

variable {f : Run} (ht : t.top = some f)
include ht

theorem enters_eq_nil (h₁ : f.pc = .taskCleanupLock → f.owns = true)
    (h₂ : ∀ thrown, f.pc = .workCleanupLock thrown → f.owns = true) : enters s t .next = [] := by
  obtain ⟨info, owns, pc, n⟩ := f
  cases pc <;> simp_all [enters]

theorem leaves_eq_nil (h : f.pc = .loop → f.owns = false ∨ s.stopped = true) :
    leaves s t .next = [] := by
  obtain ⟨info, owns, pc, n⟩ := f
  cases pc <;> simp [leaves, ht]
  cases owns <;> simp_all

theorem runStep_opQueue [DecidableEq ι] (h : runStep hint i s f t = some (s', t')) :
    s.opQueue ++ enters s t .next = leaves s t .next ++ s'.opQueue := by
  have same (he : enters s t .next = []) (ht : leaves s t .next = [])
      (hq : s'.opQueue = s.opQueue) :
      s.opQueue ++ enters s t .next = leaves s t .next ++ s'.opQueue := by
    rw [he, ht, hq, List.append_nil, List.nil_append]
  cases runStep_piece h with
  | lock hpc | batchEnd hpc | taskMerge hpc | complete hpc | performIo hpc | taskCompleted hpc
  | workMerge hpc | workFinished hpc =>
    exact same (enters_eq_nil ht (by simp [hpc]) (by simp [hpc]))
      (leaves_eq_nil ht (by simp [hpc])) rfl
  | @store ev evs hpc =>
    refine same (enters_eq_nil ht (by simp [hpc]) (by simp [hpc]))
      (leaves_eq_nil ht (by simp [hpc])) ?_
    rw [storeEvent_toScheduler]
  | misuse ho =>
    refine same (enters_eq_nil ht ?_ ?_) (leaves_eq_nil ht ?_) rfl
    · intro hpc
      simp [ho, hpc]
    · intro thrown hpc
      simp [ho, hpc]
    · intro hpc
      simp [ho, hpc]
  | returns hpc hs =>
    exact same (enters_eq_nil ht (by simp [hpc]) (by simp [hpc]))
      (leaves_eq_nil ht fun _ => .inr hs) rfl
  | wait hpc ho hs hq =>
    obtain ⟨info, owns, pc, n⟩ := f
    cases hpc
    cases ho
    simp [enters, leaves, ht, hs, hq, Scheduler.clearAndWait, Scheduler.unlock]
  | pop hpc ho hs hq =>
    obtain ⟨info, owns, pc, n⟩ := f
    cases hpc
    cases ho
    simp [enters, leaves, ht, hs, hq, Scheduler.popFront_fst]
  | taskCleanup hpc ho =>
    obtain ⟨info, owns, pc, n⟩ := f
    cases hpc
    cases ho
    simp [enters, leaves, ht, Scheduler.taskCleanup]
  | finished hpc hq =>
    obtain ⟨info, owns, pc, n⟩ := f
    cases hpc
    refine same ?_ (leaves_eq_nil ht (by simp)) (endOfWork_opQueue _ _ _ _)
    have hempty : info.privateOpQueue = [] := hq
    cases owns <;> simp [enters, ht, hempty]
  | spliced hpc hq ho hm hs₁ hf₁ =>
    obtain ⟨info, owns, pc, n⟩ := f
    cases hpc
    cases ho
    rw [endOfWork_opQueue, hs₁]
    simp [enters, leaves, ht, Scheduler.workCleanup]

end RunStep

/-- One step of one thread. -/
theorem step_opQueue [DecidableEq ι] {a : Action ι} (h : step hint i a s t = some (s', t')) :
    s.opQueue ++ enters s t a = leaves s t a ++ s'.opQueue := by
  cases step_piece h with
  | user hu h => exact (userStep_opQueue hu h).symm
  | push hc => simp [enters, leaves, hc, Scheduler.push_fst]
  | stop hc => simp [enters, leaves, hc, Scheduler.stopAllThreads_eq]
  | transfer hc => simp [enters, leaves, hc]
  | run _ ht h => exact runStep_opQueue ht h
  | notify | wake | waitAgain => exact List.append_nil _
  | epollWait _ ht h =>
    simp only [epollWaitStep] at h
    split at h
    · simp only [Option.ite_none_right_eq_some] at h
      cases h.2
      exact List.append_nil _
    · cases h
  | performIo hc ht h =>
    rw [performIoStep_toScheduler hc ht h]
    exact List.append_nil _

namespace System

variable [DecidableEq ι]

/-- The operations taken and those still queued are those queued at first and
those that entered, in order. -/
theorem opQueue_fifo (hint : Int) (c c' : System ι) (ls : List (ι × Action ι))
    (he : exec (System.next hint) c ls = some c') :
    c.shared.opQueue ++ trace (System.next hint) (fun c l => enters c.shared (c.thread l.1) l.2)
        c ls =
      trace (System.next hint) (fun c l => leaves c.shared (c.thread l.1) l.2) c ls ++
        c'.shared.opQueue := by
  refine queue_trace (I := fun _ => True) (q := fun c => c.shared.opQueue)
    (fun c l c' _ hn => ⟨trivial, ?_⟩) trivial he
  obtain ⟨s, t, hs, rfl⟩ := Threads.next_eq_some.mp hn
  exact step_opQueue hs

/-- Two threads submit, in the order of their critical sections, and a third
takes the first operation. -/
def dispatchTwo : List (Fin 3 × Action (Fin 3)) :=
  [(second, .user (.doDispatch 0)), (third, .user (.doDispatch 1)), (third, .call),
    (second, .call), (first, .user .run), (first, .next), (first, .next)]

theorem opQueue_fifo_dispatchTwo :
    ∃ c : System (Fin 3), exec (System.next 0) (System.new {}) dispatchTwo = some c ∧
      trace (System.next 0) (fun c l => enters c.shared (c.thread l.1) l.2) (System.new {})
          dispatchTwo =
        trace (System.next 0) (fun c l => leaves c.shared (c.thread l.1) l.2) (System.new {})
          dispatchTwo ++ c.shared.opQueue ∧
      c.shared.opQueue = [.handler 0] :=
  ⟨_, rfl, opQueue_fifo 0 (System.new {}) _ dispatchTwo rfl, rfl⟩

end System

end BoostAsio
