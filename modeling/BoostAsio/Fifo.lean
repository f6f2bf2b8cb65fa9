import BoostAsio.Lib.Simulation
import BoostAsio.Solo

/-!
# What one thread sees of a scheduler

`Fifo` is the scheduler as its one thread sees it: a queue of operations, a
count of work and the stopped flag. It has no reactor, no lock and no wakeup
event, and it does not say whether it was shut down.

A `Solo` whose `task_` is not wild is simulated by its `Fifo`, and a round that
polls the reactor is a stutter (`simulation`).
-/

namespace BoostAsio

open Loops

structure Fifo where
  stopped : Bool
  outstandingWork : BitVec 64
  queue : List Nat := []
  requests : List Request
  runs : List SoloRun := []
  log : Log := {}

namespace Fifo

def start (stopped : Bool) (work : BitVec 64) (requests : List Request) : Fifo :=
  { stopped, outstandingWork := work, requests }

def halt (s : Fifo) (h : Halt) : Fifo := { s with log.halt := some h }

def result (s : Fifo) (r : Result) : Fifo := { s with log.results := s.log.results ++ [r] }

def stop (s : Fifo) : Fifo := { s with stopped := true }

def workStarted (s : Fifo) : Fifo := { s with outstandingWork := s.outstandingWork + 1 }

def workFinished (s : Fifo) : Fifo :=
  let work := s.outstandingWork - 1
  { s with outstandingWork := work, stopped := s.stopped || work == 0 }

def push (s : Fifo) (id : Nat) : Fifo :=
  { s with outstandingWork := s.outstandingWork + 1, queue := s.queue ++ [id] }

def post (oneThread : Bool) (s : Fifo) (id : Nat) (isContinuation : Bool) : Fifo :=
  match if oneThread || isContinuation then s.runs else [] with
  | f :: fs =>
    { s with runs := { f with
        privateOutstandingWork := f.privateOutstandingWork + 1
        privateOpQueue := f.privateOpQueue ++ [id] } :: fs }
  | [] => s.push id

def run (s : Fifo) : Fifo :=
  if s.outstandingWork = 0 then s.stop.result (.returned 0) else { s with runs := {} :: s.runs }

def shutdown (s : Fifo) : Fifo :=
  { s with queue := [], log.destroyed := s.log.destroyed ++ s.queue }

def request (oneThread : Bool) (s : Fifo) : Request → Fifo
  | .initTask => s
  | .doDispatch id => s.push id
  | .postImmediateCompletion id isContinuation => s.post oneThread id isContinuation
  | .workStarted => s.workStarted
  | .workFinished => s.workFinished
  | .run => s.run
  | .stop => s.stop
  | .stopped => s.result (.stopped s.stopped)
  | .restart => { s with stopped := false }
  | .shutdown => s.shutdown

def loopTurn (body : Nat → Body) (s : Fifo) (f : SoloRun) (fs : List SoloRun) : Fifo :=
  if s.stopped then { s with runs := fs }.result (.returned f.n)
  else match s.queue with
    | [] => s.halt .blocked
    | id :: queue =>
      { s with
        queue
        runs := { f with handler := some (body id) } :: fs
        log.executed := s.log.executed ++ [id] }

def mergeWork (s : Fifo) (f : SoloRun) : Fifo :=
  { s with outstandingWork := s.outstandingWork + BitVec.ofNat 64 f.privateOutstandingWork }

def endOfWork (s : Fifo) (f : SoloRun) (fs : List SoloRun) (throws : Bool) : Fifo :=
  let s := { s with queue := s.queue ++ f.privateOpQueue }
  if throws || !f.privateOpQueue.isEmpty then { s with runs := fs }.result .threw
  else
    let n := if f.n = 2 ^ 64 - 1 then f.n else f.n + 1
    { s with runs := { f with privateOutstandingWork := 0, handler := none, n } :: fs }

def cleanupTurn (s : Fifo) (f : SoloRun) (fs : List SoloRun) (throws : Bool) : Fifo :=
  (s.mergeWork f).workFinished.endOfWork f fs throws

def turn (oneThread : Bool) (body : Nat → Body) (s : Fifo) : Option Fifo :=
  if s.log.halt.isSome then none
  else some <| match s.runs with
    | [] => match s.requests with
      | [] => s.halt .finished
      | r :: requests => { s with requests }.request oneThread r
    | f :: fs => match f.handler with
      | none => s.loopTurn body f fs
      | some ⟨[], throws⟩ => s.cleanupTurn f fs throws
      | some ⟨r :: requests, throws⟩ =>
        { s with runs := { f with handler := some ⟨requests, throws⟩ } :: fs }.request oneThread r

end Fifo

namespace Solo

def toFifo (s : Solo) : Fifo where
  stopped := s.scheduler.stopped
  outstandingWork := s.outstandingWork
  queue := OpQueue.handlers s.scheduler.opQueue
  requests := s.requests
  runs := s.runs
  log := s.log

/-- `task_` is null or points to the reactor, whose operation is then queued;
nothing is private in the loop of `do_run_one`. -/
structure Tame (s : Solo) : Prop where
  wild : s.wild = false
  tasks : s.scheduler.opQueue.count .taskOperation = s.scheduler.task.toNat
  descriptors : OpQueue.descriptors s.scheduler.opQueue = []
  loops : ∀ f ∈ s.runs, f.handler = none → f.privateOpQueue = [] ∧ f.privateOutstandingWork = 0

/-- Whether the next round of `do_run_one` polls the reactor: 1 if so. -/
def polls (s : Solo) : Nat :=
  match s.scheduler.opQueue with
  | .taskOperation :: rest => if rest.isEmpty && !s.scheduler.interruptPending then 0 else 1
  | _ => 0

variable {s s' : Solo} {hint : Int} {body : Nat → Body}

theorem Tame.start {m : Uninitialised} (h : m.task = false) (requests : List Request) :
    (start m requests).Tame :=
  ⟨h, by simp [Solo.start, Shared.new, h], rfl, fun f hf => by cases hf⟩

theorem Tame.congr (h : s.Tame) (hw : s'.wild = s.wild)
    (hq : s'.scheduler.opQueue = s.scheduler.opQueue) (ht : s'.scheduler.task = s.scheduler.task)
    (hr : s'.runs = s.runs) : s'.Tame :=
  ⟨hw ▸ h.wild, by rw [hq, ht]; exact h.tasks, hq ▸ h.descriptors, hr ▸ h.loops⟩

theorem Tame.append (h : s.Tame) (ids : List Nat) (hw : s'.wild = s.wild)
    (hq : s'.scheduler.opQueue = s.scheduler.opQueue ++ ids.map .handler)
    (ht : s'.scheduler.task = s.scheduler.task)
    (hr : ∀ f ∈ s'.runs, f.handler = none →
      f.privateOpQueue = [] ∧ f.privateOutstandingWork = 0) : s'.Tame := by
  have hcount : (ids.map Operation.handler).count .taskOperation = 0 := by
    simp [List.count_eq_zero]
  have hdesc : OpQueue.descriptors (ids.map Operation.handler) = [] := by
    simp [OpQueue.descriptors, List.filterMap_map, Function.comp_def]
  refine ⟨hw ▸ h.wild, ?_, ?_, hr⟩
  · rw [hq, ht, List.count_append, hcount, h.tasks, Nat.add_zero]
  · rw [hq, OpQueue.descriptors_append, h.descriptors, hdesc, List.append_nil]

theorem Tame.inHandler (h : s.Tame) {f g : SoloRun} {fs : List SoloRun} (hr : s.runs = f :: fs)
    (hg : g.handler.isSome) : Tame { s with runs := g :: fs } := by
  refine ⟨h.wild, h.tasks, h.descriptors, fun k hk hn => ?_⟩
  rcases List.mem_cons.mp hk with rfl | hk
  · simp [hn] at hg
  · exact h.loops k (hr ▸ List.mem_cons_of_mem _ hk) hn

-- ---------------------------------------------------------------------------
-- Requests
-- ---------------------------------------------------------------------------

theorem stop_eq (h : s.Tame) : s.stop = { s with scheduler := s.scheduler.stopAllThreads } := by
  simp [stop, h.wild]

theorem stop_toFifo (h : s.Tame) : s.stop.Tame ∧ s.stop.toFifo = s.toFifo.stop := by
  rw [stop_eq h, Scheduler.stopAllThreads_eq]
  exact ⟨h.congr rfl rfl rfl rfl, rfl⟩

theorem workFinished_toFifo (h : s.Tame) :
    s.workFinished.Tame ∧ s.workFinished.toFifo = s.toFifo.workFinished := by
  have hwork : Tame { s with outstandingWork := s.outstandingWork - 1 } :=
    h.congr rfl rfl rfl rfl
  simp only [workFinished, Fifo.workFinished]
  split
  · rename_i hz
    have hzero : (s.toFifo.outstandingWork - 1 == 0) = true := beq_iff_eq.mpr hz
    obtain ⟨hstop, heq⟩ := stop_toFifo hwork
    refine ⟨hstop, heq.trans ?_⟩
    rw [hzero, Bool.or_true]
    rfl
  · rename_i hz
    have hzero : (s.toFifo.outstandingWork - 1 == 0) = false := beq_eq_false_iff_ne.mpr hz
    refine ⟨hwork, ?_⟩
    rw [hzero, Bool.or_false]
    rfl

theorem doDispatch_toFifo (h : s.Tame) (id : Nat) :
    (s.doDispatch id).Tame ∧ (s.doDispatch id).toFifo = s.toFifo.push id := by
  have heq : s.doDispatch id = { s.workStarted with
      scheduler := (s.scheduler.push [.handler id]).1 } := by
    simp [doDispatch, workStarted, h.wild]
  rw [heq, Scheduler.push_fst]
  refine ⟨h.append [id] rfl rfl rfl h.loops, ?_⟩
  simp [toFifo, Fifo.push, workStarted]

theorem postImmediateCompletion_toFifo (h : s.Tame)
    (hb : ∀ f ∈ s.runs.head?, f.handler.isSome) (id : Nat) (cont : Bool) :
    (s.postImmediateCompletion hint id cont).Tame ∧
      (s.postImmediateCompletion hint id cont).toFifo =
        s.toFifo.post (oneThread hint) id cont := by
  simp only [postImmediateCompletion, Fifo.post]
  by_cases hp : (oneThread hint || cont) = true
  · simp only [if_pos hp]
    cases hr : s.runs with
    | nil =>
      have hrf : s.toFifo.runs = [] := hr
      simp only [hrf]
      exact doDispatch_toFifo h id
    | cons f fs =>
      have hrf : s.toFifo.runs = f :: fs := hr
      simp only [hrf]
      refine ⟨h.inHandler hr ?_, rfl⟩
      exact hb f (by simp [hr])
  · simp only [if_neg hp]
    exact doDispatch_toFifo h id

theorem run_toFifo (h : s.Tame) : s.run.Tame ∧ s.run.toFifo = s.toFifo.run := by
  simp only [run, Fifo.run]
  have hwork : s.toFifo.outstandingWork = s.outstandingWork := rfl
  rw [hwork]
  split
  · obtain ⟨hstop, heq⟩ := stop_toFifo h
    rw [← heq]
    exact ⟨hstop.congr rfl rfl rfl rfl, rfl⟩
  · refine ⟨⟨h.wild, h.tasks, h.descriptors, fun f hf hn => ?_⟩, rfl⟩
    rcases List.mem_cons.mp hf with rfl | hf
    · exact ⟨rfl, rfl⟩
    · exact h.loops f hf hn

theorem handlers_doShutdown (s : Scheduler Unit) :
    OpQueue.handlers s.doShutdown.2 = OpQueue.handlers s.opQueue :=
  s.filterMap_doShutdown rfl

theorem shutdown_toFifo (h : s.Tame) :
    s.shutdown.Tame ∧ s.shutdown.toFifo = s.toFifo.shutdown := by
  refine ⟨⟨rfl, rfl, rfl, h.loops⟩, ?_⟩
  simp only [shutdown, toFifo, handlers_doShutdown]
  rfl

theorem initTask_toFifo (h : s.Tame) :
    Tame { s with scheduler := s.scheduler.initTask.1 } ∧
      toFifo { s with scheduler := s.scheduler.initTask.1 } = s.toFifo := by
  rcases s.scheduler.initTask_cases with heq | ⟨ht, heq, -⟩
  · rw [heq]
    exact ⟨h, rfl⟩
  · rw [heq]
    refine ⟨⟨h.wild, ?_, ?_, h.loops⟩, ?_⟩
    · simp [h.tasks, ht]
    · simp [h.descriptors]
    · simp [toFifo]

theorem request_toFifo (hint : Int) (h : s.Tame) (hb : ∀ f ∈ s.runs.head?, f.handler.isSome)
    (r : Request) :
    (s.request hint r).Tame ∧ (s.request hint r).toFifo = s.toFifo.request (oneThread hint) r := by
  cases r with
  | initTask => exact initTask_toFifo h
  | doDispatch id => exact doDispatch_toFifo h id
  | postImmediateCompletion id cont => exact postImmediateCompletion_toFifo h hb id cont
  | workStarted => exact ⟨h.congr rfl rfl rfl rfl, rfl⟩
  | workFinished => exact workFinished_toFifo h
  | run => exact run_toFifo h
  | stop => exact stop_toFifo h
  | stopped => exact ⟨h.congr rfl rfl rfl rfl, rfl⟩
  | restart => exact ⟨h.congr rfl rfl rfl rfl, rfl⟩
  | shutdown => exact shutdown_toFifo h

-- ---------------------------------------------------------------------------
-- run and do_run_one
-- ---------------------------------------------------------------------------

/-- A round that polls changes nothing that the thread sees, and the next one
does not poll. -/
theorem poll_toFifo (hint : Int) (h : s.Tame) {f : SoloRun} {fs : List SoloRun}
    {rest : OpQueue Operation} (hr : s.runs = f :: fs) (hn : f.handler = none)
    (hq : s.scheduler.opQueue = .taskOperation :: rest) :
    (s.poll hint f fs rest).Tame ∧ (s.poll hint f fs rest).toFifo = s.toFifo ∧
      (s.poll hint f fs rest).polls = 0 := by
  obtain ⟨hpriv, hwork⟩ := h.loops f (hr ▸ List.mem_cons_self) hn
  have htasks := h.tasks
  have hdesc := h.descriptors
  have hle : s.scheduler.task.toNat ≤ 1 := Bool.toNat_le _
  simp only [hq, List.count_cons_self] at htasks
  have hcount : rest.count .taskOperation = 0 := by omega
  have hf : { f with privateOutstandingWork := 0, privateOpQueue := [] } = f := by
    rw [← hpriv, ← hwork]
  have hqueue : (s.poll hint f fs rest).scheduler.opQueue = rest ++ [.taskOperation] := by
    simp [poll, Scheduler.taskCleanup, Scheduler.popFront_fst, hpriv]
  refine ⟨⟨h.wild, ?_, ?_, ?_⟩, ?_, ?_⟩
  · rw [hqueue]
    simp [poll, Scheduler.taskCleanup, Scheduler.popFront_fst, hcount, ← htasks]
  · rw [hqueue]
    simpa [hq] using hdesc
  · intro g hg
    have hg : g ∈ s.runs := by simpa [poll, hf, hr] using hg
    exact h.loops g hg
  · simp [toFifo, poll, Scheduler.taskCleanup, Scheduler.popFront_fst, hpriv, hwork, hq, hr]
    exact hf.symm ▸ rfl
  · simp only [polls, hqueue]
    cases rest with
    | nil => simp [poll, Scheduler.taskCleanup]
    | cons o rest => cases o <;> simp at hcount ⊢

theorem loopTurn_toFifo (hint : Int) (body : Nat → Body) (h : s.Tame) {f : SoloRun}
    {fs : List SoloRun} (hr : s.runs = f :: fs) (hn : f.handler = none) :
    (s.loopTurn hint body f fs).Tame ∧
      ((s.loopTurn hint body f fs).toFifo = s.toFifo.loopTurn body f fs ∨
        (s.loopTurn hint body f fs).toFifo = s.toFifo ∧
          (s.loopTurn hint body f fs).polls < s.polls) := by
  have hrest : ∀ g ∈ fs, g.handler = none → g.privateOpQueue = [] ∧ g.privateOutstandingWork = 0 :=
    fun g hg => h.loops g (hr ▸ List.mem_cons_of_mem _ hg)
  have htasks := h.tasks
  have hdesc := h.descriptors
  have hstopped : s.toFifo.stopped = s.scheduler.stopped := rfl
  have hqueue : s.toFifo.queue = OpQueue.handlers s.scheduler.opQueue := rfl
  cases hs : s.scheduler.stopped with
  | true =>
    simp only [loopTurn, Fifo.loopTurn, hstopped, hs, if_true]
    exact ⟨⟨h.wild, h.tasks, h.descriptors, hrest⟩, .inl (by simp [toFifo, result, Fifo.result, hs,
      Scheduler.unlock])⟩
  | false =>
    have blocked (hf : s.loopTurn hint body f fs = s.halt .blocked) (hq : s.toFifo.queue = []) :
        (s.loopTurn hint body f fs).Tame ∧
          (s.loopTurn hint body f fs).toFifo = s.toFifo.loopTurn body f fs := by
      rw [hf]
      refine ⟨h.congr rfl rfl rfl rfl, ?_⟩
      simp only [Fifo.loopTurn, hstopped, hs, hq]
      rfl
    cases hq : s.scheduler.opQueue with
    | nil =>
      obtain ⟨ht, heq⟩ := blocked (by simp [loopTurn, hs, hq]) (by simp [hqueue, hq])
      exact ⟨ht, .inl heq⟩
    | cons o rest =>
      cases o with
      | taskOperation =>
        by_cases hb : (rest.isEmpty && !s.scheduler.interruptPending) = true
        · obtain rfl : rest = [] := by
            simp only [Bool.and_eq_true, List.isEmpty_iff] at hb
            exact hb.1
          obtain ⟨ht, heq⟩ := blocked
            (by simp only [loopTurn, hs, hq, if_pos hb, Bool.false_eq_true, if_false])
            (by simp [hqueue, hq])
          exact ⟨ht, .inl heq⟩
        · obtain ⟨ht, heq, hp⟩ := poll_toFifo hint h hr hn hq
          have hf : s.loopTurn hint body f fs = s.poll hint f fs rest := by
            simp only [loopTurn, hs, hq, if_neg hb, Bool.false_eq_true, if_false]
          have hpolls : s.polls = 1 := by
            simp only [polls, hq, if_neg hb]
          exact hf ▸ ⟨ht, .inr ⟨heq, by omega⟩⟩
      | handler id =>
        simp only [loopTurn, Fifo.loopTurn, hstopped, hqueue, hs, hq, Bool.false_eq_true, if_false,
          OpQueue.handlers_cons]
        refine ⟨⟨h.wild, ?_, ?_, ?_⟩, .inl ?_⟩
        · simpa [hq, Scheduler.popFront_fst] using htasks
        · simpa [hq, Scheduler.popFront_fst] using hdesc
        · intro g hg hgn
          rcases List.mem_cons.mp hg with rfl | hg
          · cases hgn
          · exact hrest g hg hgn
        · simp [toFifo, Scheduler.popFront_fst, hs]
      | descriptorState d => simp [hq] at hdesc

theorem endOfWork_toFifo (h : s.Tame) (f : SoloRun) {fs : List SoloRun} (throws : Bool)
    (hrest : ∀ g ∈ fs, g.handler = none →
      g.privateOpQueue = [] ∧ g.privateOutstandingWork = 0) :
    (s.endOfWork f fs throws).Tame ∧
      (s.endOfWork f fs throws).toFifo = s.toFifo.endOfWork f fs throws := by
  cases hp : f.privateOpQueue with
  | nil =>
    cases throws with
    | true =>
      simp only [endOfWork, Fifo.endOfWork, hp]
      refine ⟨h.append [] rfl (by simp [Scheduler.unlock, result]) rfl hrest, ?_⟩
      simp [toFifo, result, Fifo.result, Scheduler.unlock]
    | false =>
      simp only [endOfWork, Fifo.endOfWork, hp]
      refine ⟨h.append [] rfl (by simp) rfl fun g hg hn => ?_, ?_⟩
      · rcases List.mem_cons.mp hg with rfl | hg
        · exact ⟨rfl, rfl⟩
        · exact hrest g hg hn
      · simp [toFifo]
  | cons id ids =>
    simp only [endOfWork, Fifo.endOfWork, hp, List.isEmpty_cons, Bool.not_false, Bool.or_true,
      if_true]
    refine ⟨h.append (id :: ids) rfl rfl rfl hrest, ?_⟩
    simp [toFifo, result, Fifo.result, Scheduler.unlock, Scheduler.workCleanup]

theorem cleanupTurn_toFifo (h : s.Tame) {f : SoloRun} {fs : List SoloRun} (hr : s.runs = f :: fs)
    (throws : Bool) :
    (s.cleanupTurn f fs throws).Tame ∧
      (s.cleanupTurn f fs throws).toFifo = s.toFifo.cleanupTurn f fs throws := by
  have hmerged : (s.mergeWork f).Tame := h.congr rfl rfl rfl rfl
  obtain ⟨hfinished, heq⟩ := workFinished_toFifo hmerged
  obtain ⟨ht, hend⟩ := endOfWork_toFifo hfinished f throws
    fun g hg => h.loops g (hr ▸ List.mem_cons_of_mem _ hg)
  exact ⟨ht, hend.trans (congrArg (Fifo.endOfWork · f fs throws) heq)⟩

-- ---------------------------------------------------------------------------
-- The simulation
-- ---------------------------------------------------------------------------

theorem turn_toFifo (h : s.Tame) (ht : turn hint body s = some s') :
    s'.Tame ∧ (Fifo.turn (oneThread hint) body s.toFifo = some s'.toFifo ∨
      s'.toFifo = s.toFifo ∧ s'.polls < s.polls) := by
  have hhalt : s.log.halt.isSome = false := by
    by_contra hne
    simp [turn, hne] at ht
  have hhaltf : s.toFifo.log.halt.isSome = false := hhalt
  simp only [turn, Fifo.turn, hhalt, hhaltf, Bool.false_eq_true, if_false, Option.some.injEq]
    at ht ⊢
  obtain ⟨scheduler, work, wild, requests, runs, log⟩ := s
  cases runs with
  | nil =>
    cases requests with
    | nil => exact ht ▸ ⟨h.congr rfl rfl rfl rfl, .inl rfl⟩
    | cons r requests =>
      let t : Solo := ⟨scheduler, work, wild, requests, [], log⟩
      have htame : t.Tame := h.congr rfl rfl rfl rfl
      obtain ⟨ht', heq⟩ := request_toFifo hint htame (by simp [t]) r
      exact ht ▸ ⟨ht', .inl heq.symm⟩
  | cons f fs =>
    obtain ⟨queue, priv, n, handler⟩ := f
    cases handler with
    | none =>
      obtain ⟨ht', heq⟩ := loopTurn_toFifo hint body h rfl rfl
      exact ht ▸ ⟨ht', heq.imp_left Eq.symm⟩
    | some b =>
      obtain ⟨handlerRequests, throws⟩ := b
      cases handlerRequests with
      | nil =>
        obtain ⟨ht', heq⟩ := cleanupTurn_toFifo h rfl throws
        exact ht ▸ ⟨ht', .inl heq.symm⟩
      | cons r handlerRequests =>
        let g : SoloRun := ⟨queue, priv, n, some ⟨handlerRequests, throws⟩⟩
        have htame : Tame ⟨scheduler, work, wild, requests, g :: fs, log⟩ := h.inHandler rfl rfl
        obtain ⟨ht', heq⟩ := request_toFifo hint htame (by simp [g]) r
        exact ht ▸ ⟨ht', .inl heq.symm⟩

theorem simulation (hint : Int) (body : Nat → Body) :
    Simulation (turn hint body) (Fifo.turn (oneThread hint) body) toFifo Tame polls where
  keeps _ _ h ht := (turn_toFifo h ht).1
  turns _ _ h ht := (turn_toFifo h ht).2
  ends s _ ht := by
    have hhalt : s.log.halt.isSome = true := by
      by_contra hne
      simp [turn, hne] at ht
    exact if_pos hhalt

end Solo

end BoostAsio
