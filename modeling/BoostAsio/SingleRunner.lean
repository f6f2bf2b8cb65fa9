import BoostAsio.LockDiscipline

/-!
# One runner of the reactor

Nothing in the scheduler checks for duplicates. That `task_operation_` is in
one place and a descriptor state in one queue follows from what the queues can
hold: a private queue holds handlers while a handler runs, and descriptor states
only between `epoll_wait` and `~task_cleanup` (`Thread.QueueState`); and only
the thread that holds the task can put descriptor states into `op_queue_`, in
front of the task (`DescriptorsFirst`).

Descriptor states that were popped and are being completed are not counted:
the reactor may report their descriptor again meanwhile.
-/

namespace BoostAsio

open Runs OpQueue

variable {ι : Type} [DecidableEq ι] {hint : Int} {i : ι} {s s' : Scheduler ι} {t t' : Thread}
  {a : Action ι}

-- ---------------------------------------------------------------------------
-- What a private queue holds
-- ---------------------------------------------------------------------------

def HandlersOnly (q : OpQueue Operation) : Prop := ∀ o ∈ q, ∃ id, o = .handler id

/-- The descriptor states of one call of `epoll_wait`. -/
def Batch (q : OpQueue Operation) : Prop := (∀ o ∈ q, ∃ d, o = .descriptorState d) ∧ q.Nodup

theorem HandlersOnly.nil : HandlersOnly [] := by simp [HandlersOnly]

theorem HandlersOnly.map (ids : List Nat) : HandlersOnly (ids.map .handler) := by
  simp only [HandlersOnly, List.mem_map]
  rintro o ⟨id, -, rfl⟩
  exact ⟨id, rfl⟩

theorem HandlersOnly.append {q r : OpQueue Operation} (hq : HandlersOnly q) (hr : HandlersOnly r) :
    HandlersOnly (q ++ r) := by
  simpa only [HandlersOnly, List.forall_mem_append] using ⟨hq, hr⟩

theorem HandlersOnly.not_mem {q : OpQueue Operation} (h : HandlersOnly q) {o : Operation}
    (ho : ∀ id, o ≠ .handler id) : o ∉ q := by
  intro hm
  obtain ⟨id, rfl⟩ := h o hm
  exact ho id rfl

theorem HandlersOnly.eq_nil {q : OpQueue Operation} (h : HandlersOnly q) (he : handlers q = []) :
    q = [] := by
  cases q with
  | nil => rfl
  | cons o q =>
    obtain ⟨id, rfl⟩ := h o List.mem_cons_self
    simp at he

theorem Posts.handlersOnly {q r : OpQueue Operation} (h : Posts q r) (hq : HandlersOnly q) :
    HandlersOnly r := by
  rcases h with rfl | ⟨ids, rfl⟩
  · exact .nil
  · exact hq.append (.map ids)

theorem Batch.nil : Batch [] := by simp [Batch]

theorem Batch.concat {q : OpQueue Operation} (hq : Batch q) {d : Nat}
    (hd : .descriptorState d ∉ q) : Batch (q ++ [.descriptorState d]) := by
  refine ⟨?_, List.nodup_append.mpr ⟨hq.2, by simp, ?_⟩⟩
  · simpa only [List.forall_mem_append, List.forall_mem_singleton] using ⟨hq.1, d, rfl⟩
  · simp only [List.mem_singleton]
    rintro o ho _ rfl rfl
    exact hd ho

/-- What the private queue of a `run()` may hold at a place of it. -/
def Phase.Allows : Phase → OpQueue Operation → Prop
  | .working, q => HandlersOnly q
  | .reaping, q => Batch q
  | .starting, q | .looping, q | .waiting, q | .polling _, q => q = []

structure Thread.QueueState (t : Thread) : Prop where
  top : ∀ f, t.top = some f → f.pc.phase.Allows f.info.privateOpQueue
  stack : ∀ p ∈ t.stack, HandlersOnly p.info.privateOpQueue
  call : ∀ ops, t.call = some (.push ops) → HandlersOnly ops

@[simp] theorem Phase.allows_working {q : OpQueue Operation} :
    Phase.working.Allows q ↔ HandlersOnly q := .rfl
@[simp] theorem Phase.allows_reaping {q : OpQueue Operation} :
    Phase.reaping.Allows q ↔ Batch q := .rfl
@[simp] theorem Phase.allows_starting {q : OpQueue Operation} :
    Phase.starting.Allows q ↔ q = [] := .rfl
@[simp] theorem Phase.allows_looping {q : OpQueue Operation} :
    Phase.looping.Allows q ↔ q = [] := .rfl
@[simp] theorem Phase.allows_waiting {q : OpQueue Operation} :
    Phase.waiting.Allows q ↔ q = [] := .rfl
@[simp] theorem Phase.allows_polling {b : Bool} {q : OpQueue Operation} :
    (Phase.polling b).Allows q ↔ q = [] := .rfl

theorem Thread.QueueState.working (h : t.QueueState) {f : Run} (ht : t.top = some f)
    (hf : f.pc.phase = .working) : HandlersOnly f.info.privateOpQueue := by
  simpa [hf] using h.top f ht

theorem Thread.QueueState.reaping (h : t.QueueState) {f : Run} (ht : t.top = some f)
    (hf : f.pc.phase = .reaping) : Batch f.info.privateOpQueue := by
  simpa [hf] using h.top f ht

/-- Only the runner has descriptor states in its private queue. -/
theorem Thread.QueueState.reaping_of_mem (h : t.QueueState) {f : Run} (ht : t.top = some f)
    {d : Nat} (hm : .descriptorState d ∈ f.info.privateOpQueue) : f.pc.phase = .reaping := by
  have hallows := h.top f ht
  cases hphase : f.pc.phase <;> rw [hphase] at hallows
  case working => exact absurd hm (HandlersOnly.not_mem hallows (by simp))
  all_goals exact absurd hm (by simp [show f.info.privateOpQueue = [] from hallows])

theorem Thread.QueueState.setTop (h : t.QueueState) (hc : t.call = none) {f : Run}
    (hf : f.pc.phase.Allows f.info.privateOpQueue) : (t.setTop f).QueueState := by
  refine ⟨?_, h.stack, ?_⟩
  · rintro g ⟨⟩
    exact hf
  · simp [Thread.setTop, hc]

theorem Thread.QueueState.withCall (h : t.QueueState) {c : Option Call}
    (hc : ∀ ops, c ≠ some (.push ops)) : QueueState { t with call := c } :=
  ⟨h.top, h.stack, fun ops ho => absurd ho (hc ops)⟩

theorem Thread.QueueState.leave (h : t.QueueState) (hc : t.call = none) : t.leave.QueueState := by
  refine ⟨fun f hf => ?_, fun p hp => h.stack p (Thread.mem_of_leave_stack hp), fun ops ho => ?_⟩
  · obtain ⟨p, hp, rfl⟩ := Thread.leave_top hf
    exact h.stack p hp
  · simp only [Thread.leave] at ho
    split at ho <;> simp [hc] at ho

theorem notify_ne_push {p : Prop} [Decidable p] (ops : OpQueue Operation) :
    (if p then some Call.notifyOne else none) ≠ some (.push ops) := by
  split <;> simp

theorem QuietTop.queueState (h : QuietTop t.top t'.top) (hq : t.QueueState) :
    ∀ f, t'.top = some f → f.pc.phase.Allows f.info.privateOpQueue := by
  intro g hg
  rw [hg] at h
  cases ht : t.top with
  | none => rw [ht] at h; cases h
  | some f =>
    rw [ht] at h
    cases h with
    | working hf hg _ hp => simpa [hg] using hp.handlersOnly (hq.working ht hf)
    | reaping hf hg _ hp => simpa [hg, hp] using hq.reaping ht hf

theorem QuietCall.handlersOnly {c : Option Call} (h : QuietCall c) :
    ∀ ops, c = some (.push ops) → HandlersOnly ops := by
  rintro ops rfl
  rcases h with h | h | h | ⟨ids, h⟩ <;> cases h
  exact .map ids

theorem Step.queueState (h : Step hint i s t a s' t') (hq : t.QueueState) : t'.QueueState := by
  have empty {f : Run} (ht : t.top = some f) (hf : f.pc.phase ≠ .working ∧ f.pc.phase ≠ .reaping) :
      f.info.privateOpQueue = [] := by
    have := hq.top f ht
    revert this
    cases hp : f.pc.phase <;> simp_all
  cases h with
  | quiet hc hstack htop hcall => exact ⟨htop.queueState hq, hstack ▸ hq.stack, hcall.handlersOnly⟩
  | stored hc ht hr hr' hd hi =>
    refine hq.setTop hc ?_
    rw [hr', Phase.allows_reaping, hi]
    exact (hq.reaping ht hr).concat hd
  | restart => exact hq
  | initTask hc =>
    rcases s.initTask_cases with he | ⟨-, -, he⟩
    · exact hq.withCall (by simp [he])
    · exact hq.withCall (by rw [he]; exact notify_ne_push)
  | enter hc ht => exact hq.setTop hc rfl
  | nest hc ht hpc =>
    refine ⟨?_, ?_, by simp [hc]⟩
    · rintro g ⟨⟩
      rfl
    · simp only [List.forall_mem_cons]
      exact ⟨hq.working ht (by rw [hpc]; rfl), hq.stack⟩
  | push hc hm => exact hq.withCall (by rw [Scheduler.push_snd]; exact notify_ne_push)
  | stop => exact hq.withCall (by simp)
  | notify => exact hq.withCall (by simp)
  | lock hc ht hpc =>
    have he := empty ht (by simp [hpc])
    exact hq.setTop hc he
  | misuse hc => exact hq.leave hc
  | returns hc => exact hq.leave hc
  | wait hc ht hpc =>
    have he := empty ht (by simp [hpc])
    exact hq.setTop hc he
  | pop hc ht hpc =>
    rename_i o rest f _ _ _
    have he := empty ht (by simp [hpc])
    refine ⟨?_, hq.stack, fun ops ho => ?_⟩
    · rintro g ⟨⟩
      by_cases ho : o = .taskOperation
      · simpa [ho] using he
      · simpa [ho, he] using HandlersOnly.nil
    · rw [Scheduler.popFront_snd] at ho
      exact absurd ho (notify_ne_push ops)
  | taskCleanup hc => exact hq.setTop hc rfl
  | finished hc ht hpc he => exact hq.setTop hc he
  | threw hc => exact hq.leave hc
  | spliced hc => exact hq.setTop hc rfl
  | splicedThrew hc => exact hq.leave hc
  | wake hc ht hpc =>
    have he := empty ht (by simp [hpc])
    exact hq.setTop hc he
  | transfer | waitAgain => exact hq
  | epollWait hc ht hpc =>
    refine hq.setTop hc ?_
    have he := empty ht (by simp [hpc])
    simpa [he] using Batch.nil

-- ---------------------------------------------------------------------------
-- The task
-- ---------------------------------------------------------------------------

/-- It popped the task and has not finished `~task_cleanup`. -/
def Phase.hasTask : Phase → Bool
  | .polling _ | .reaping => true
  | .starting | .looping | .waiting | .working => false

/-- The thread is the runner of the reactor. A `run()` that is suspended below
another is in a handler. -/
def Thread.runs (t : Thread) : Bool := t.phase.any Phase.hasTask

@[simp] theorem Thread.runs_mk {f : Run} {stack : List Suspended} {call : Option Call} :
    runs ⟨some f, stack, call⟩ = f.pc.phase.hasTask := rfl

@[simp] theorem Thread.runs_setTop {f : Run} : (t.setTop f).runs = f.pc.phase.hasTask := rfl

@[simp] theorem Thread.leave_runs : t.leave.runs = false := by
  rcases t.leave_phase with h | h <;> rw [runs, h] <;> rfl

theorem HandlersOnly.count_task {q : OpQueue Operation} (h : HandlersOnly q) :
    q.count .taskOperation = 0 :=
  List.count_eq_zero.mpr (h.not_mem (by simp))

theorem Batch.count_task {q : OpQueue Operation} (h : Batch q) : q.count .taskOperation = 0 := by
  refine List.count_eq_zero.mpr fun hm => ?_
  obtain ⟨d, hd⟩ := h.1 _ hm
  cases hd

/-- The task goes from the queue to a thread and back, and once to the queue. -/
theorem Step.tasks (h : Step hint i s t a s' t') (hl : t.LockState) (hq : t.QueueState) :
    s'.opQueue.count .taskOperation + t'.runs.toNat + s.task.toNat =
      s.opQueue.count .taskOperation + t.runs.toNat + s'.task.toNat := by
  have idle {f : Run} (ht : t.top = some f) (hf : f.pc.phase.hasTask = false) : t.runs = false := by
    rw [Thread.runs, Thread.phase_of_top ht]
    exact hf
  cases h with
  | quiet hc hstack htop hcall => rw [Thread.runs, htop.phase, ← Thread.runs]
  | stored hc ht hr hr' => simp [Thread.runs, Thread.phase_of_top ht, hr, hr']
  | restart => rfl
  | initTask hc hm =>
    rcases s.initTask_cases with he | ⟨hn, he, -⟩
    · rw [he]
      rfl
    · rw [he, hn]
      simp [List.count_append, Thread.runs, Thread.phase]
      omega
  | enter hc ht => simp [Thread.runs, Thread.phase, ht, Phase.hasTask]
  | nest hc ht hpc => simp [idle ht (by rw [hpc]; rfl), Phase.hasTask]
  | push hc hm =>
    rw [Scheduler.push_fst]
    simp [List.count_append, (hq.call _ hc).count_task, Thread.runs, Thread.phase]
  | stop =>
    rw [Scheduler.stopAllThreads_eq]
    rfl
  | notify | transfer => rfl
  | lock hc ht hpc => simp [idle ht (by rw [hpc]; rfl), Phase.hasTask]
  | misuse hc ht ho => simp [idle ht (by rw [(hl.misuse_at_lock ht ho).1]; rfl)]
  | returns hc ht hpc => simp [idle ht (by rw [hpc]; rfl)]
  | wait hc ht hpc =>
    simp [idle ht (by rw [hpc]; rfl), Phase.hasTask, Scheduler.clearAndWait,
      Scheduler.unlock]
  | pop hc ht hpc ho hs hqueue =>
    rw [Scheduler.popFront_fst, hqueue, idle ht (by rw [hpc]; rfl)]
    rename_i o rest f
    cases o <;> simp [Phase.hasTask]
  | taskCleanup hc ht hpc =>
    have hb : Batch _ := hq.reaping ht (by rw [hpc]; rfl)
    simp [Thread.runs, Thread.phase_of_top ht, hpc, Scheduler.taskCleanup, List.count_append,
      hb.count_task, Phase.hasTask]
  | finished hc ht hpc he => simp [idle ht (by rw [hpc]; rfl), Phase.hasTask]
  | threw hc ht hpc => simp [idle ht (by rw [hpc]; rfl)]
  | spliced hc ht hpc he =>
    have hh : HandlersOnly _ := hq.working ht (by rw [hpc]; rfl)
    simp [idle ht (by rw [hpc]; rfl), Scheduler.workCleanup, List.count_append, hh.count_task,
      Phase.hasTask]
  | splicedThrew hc ht hpc =>
    have hh : HandlersOnly _ := hq.working ht (by rw [hpc]; rfl)
    simp [idle ht (by rw [hpc]; rfl), List.count_append, hh.count_task]
  | wake hc ht hpc => simp [idle ht (by rw [hpc]; rfl), Phase.hasTask]
  | waitAgain => rfl
  | epollWait hc ht hpc => simp [Thread.runs, Thread.phase_of_top ht, hpc, Phase.hasTask]

-- ---------------------------------------------------------------------------
-- Descriptor states
-- ---------------------------------------------------------------------------

/-- Descriptor states are distinct and stand before the task. -/
def DescriptorsFirst (q : OpQueue Operation) : Prop :=
  descriptors q = [] ∨
    ∃ a b, q = a ++ .taskOperation :: b ∧ (descriptors a).Nodup ∧ descriptors b = []

theorem HandlersOnly.descriptors {q : OpQueue Operation} (h : HandlersOnly q) :
    descriptors q = [] :=
  List.eq_nil_iff_forall_not_mem.mpr fun _ hd => h.not_mem (by simp) (mem_descriptors.mp hd)

theorem Batch.nodup_descriptors {q : OpQueue Operation} (h : Batch q) : (descriptors q).Nodup := by
  refine List.nodup_iff_count.mpr fun d => ?_
  rw [count_descriptors]
  exact List.nodup_iff_count.mp h.2 _

theorem DescriptorsFirst.append {q r : OpQueue Operation} (h : DescriptorsFirst q)
    (hr : descriptors r = []) : DescriptorsFirst (q ++ r) := by
  rcases h with h | ⟨a, b, rfl, ha, hb⟩
  · exact .inl (by simp [h, hr])
  · exact .inr ⟨a, b ++ r, by simp, ha, by simp [hb, hr]⟩

theorem DescriptorsFirst.tail {o : Operation} {rest : OpQueue Operation}
    (h : DescriptorsFirst (o :: rest)) : DescriptorsFirst rest := by
  rcases h with h | ⟨a, b, he, ha, hb⟩
  · rw [descriptors_cons, List.append_eq_nil_iff] at h
    exact .inl h.2
  · cases a with
    | nil =>
      simp only [List.nil_append, List.cons.injEq] at he
      exact .inl (he.2 ▸ hb)
    | cons o' a =>
      simp only [List.cons_append, List.cons.injEq] at he
      simp only [descriptors_cons] at ha
      exact .inr ⟨a, b, he.2, (List.nodup_append.mp ha).2.1, hb⟩

theorem DescriptorsFirst.of_not_mem {q : OpQueue Operation} (h : DescriptorsFirst q)
    (ht : .taskOperation ∉ q) : descriptors q = [] := by
  rcases h with h | ⟨a, b, rfl, -, -⟩
  · exact h
  · simp at ht

theorem Step.descriptorsFirst (h : Step hint i s t a s' t') (hq : t.QueueState)
    (hrun : t.runs = true → .taskOperation ∉ s.opQueue) (hd : DescriptorsFirst s.opQueue) :
    DescriptorsFirst s'.opQueue := by
  cases h with
  | initTask =>
    rcases s.initTask_cases with he | ⟨-, he, -⟩
    · rwa [he]
    · rw [he]
      exact hd.append rfl
  | push hc =>
    rw [Scheduler.push_fst]
    exact hd.append (hq.call _ hc).descriptors
  | stop => rwa [Scheduler.stopAllThreads_eq]
  | pop _ _ _ _ _ hqueue =>
    rw [Scheduler.popFront_fst]
    exact (hqueue ▸ hd).tail
  | taskCleanup hc ht hpc =>
    have hb : Batch _ := hq.reaping ht (by rw [hpc]; rfl)
    have hno := hd.of_not_mem (hrun (by rw [Thread.runs, Thread.phase_of_top ht, hpc]; rfl))
    exact .inr ⟨_, [], rfl, by simpa [hno] using hb.nodup_descriptors, rfl⟩
  | spliced hc ht hpc =>
    have hh : HandlersOnly _ := hq.working ht (by rw [hpc]; rfl)
    exact hd.append hh.descriptors
  | splicedThrew hc ht hpc =>
    have hh : HandlersOnly _ := hq.working ht (by rw [hpc]; rfl)
    exact hd.append hh.descriptors
  | quiet | stored | restart | enter | nest | notify | transfer | lock | misuse | returns | wait
  | finished | threw | wake | waitAgain | epollWait => exact hd

/-- The private queues of all the `run()` calls that a thread is in. -/
def Thread.privateOpQueues (t : Thread) : List (OpQueue Operation) :=
  t.top.toList.map (·.info.privateOpQueue) ++ t.stack.map (·.info.privateOpQueue)

/-- How often a descriptor state is in the private queues of a thread. -/
def Thread.holds (d : Nat) (t : Thread) : Nat :=
  (t.privateOpQueues.map (List.count (.descriptorState d))).sum

theorem Thread.QueueState.task_not_mem (h : t.QueueState) :
    ∀ q ∈ t.privateOpQueues, .taskOperation ∉ q := by
  simp only [Thread.privateOpQueues, List.forall_mem_append, List.forall_mem_map,
    Option.mem_toList]
  refine ⟨fun f hf => ?_, fun p hp => (h.stack p hp).not_mem (by simp)⟩
  have hq := h.top f hf
  cases hp : f.pc.phase <;> rw [hp] at hq
  case working => exact HandlersOnly.not_mem hq (by simp)
  case reaping => exact List.count_eq_zero.mp (Batch.count_task hq)
  all_goals simp [show f.info.privateOpQueue = [] from hq]

/-- Only the runner has descriptor states in a private queue, each once. -/
theorem Thread.QueueState.holds_le (h : t.QueueState) (d : Nat) : t.holds d ≤ t.runs.toNat := by
  have hstack :
      (t.stack.map fun p => p.info.privateOpQueue.count (.descriptorState d)).sum = 0 := by
    refine List.sum_eq_zero fun n hn => ?_
    obtain ⟨p, hp, rfl⟩ := List.mem_map.mp hn
    exact List.count_eq_zero.mpr ((h.stack p hp).not_mem (by simp))
  have htop : (t.top.toList.map fun f => f.info.privateOpQueue.count (.descriptorState d)).sum ≤
      t.runs.toNat := by
    cases ht : t.top with
    | none => simp
    | some f =>
      have hq := h.top f ht
      rw [runs, phase_of_top ht]
      cases hp : f.pc.phase <;> rw [hp] at hq
      case working =>
        simp [List.count_eq_zero.mpr (HandlersOnly.not_mem hq (o := .descriptorState d) (by simp))]
      case reaping => simpa [Phase.hasTask] using List.nodup_iff_count.mp hq.2 _
      all_goals simp [show f.info.privateOpQueue = [] from hq]
  simpa [holds, privateOpQueues, Function.comp_def, hstack] using htop

theorem DescriptorsFirst.count_le {q : OpQueue Operation} (h : DescriptorsFirst q) (d : Nat) :
    q.count (.descriptorState d) ≤ q.count .taskOperation := by
  rw [← count_descriptors]
  rcases h with h | ⟨a, b, rfl, ha, hb⟩
  · simp [h]
  · have := List.nodup_iff_count.mp ha d
    simp [hb, List.count_append]
    omega

theorem DescriptorsFirst.before {a b : OpQueue Operation} {d : Nat}
    (h : DescriptorsFirst (a ++ .descriptorState d :: b)) : .taskOperation ∈ b := by
  rcases h with h | ⟨a', b', he, ha, hb⟩
  · simp at h
  · rcases List.append_eq_append_iff.mp he with ⟨c, hc, hc'⟩ | ⟨c, hc, hc'⟩
    · cases c with
      | nil => simp at hc'
      | cons o c =>
        simp only [List.cons_append, List.cons.injEq] at hc'
        simp [hc'.2]
    · have : d ∈ descriptors b' := by
        cases c with
        | nil => simp at hc'
        | cons o c =>
          simp only [List.cons_append, List.cons.injEq] at hc'
          simp [hc'.2]
      simp [hb] at this

-- ---------------------------------------------------------------------------
-- Every run
-- ---------------------------------------------------------------------------

namespace System

variable {c c' : System ι} {l : ι × Action ι} {m : Uninitialised}

def Queues (c : System ι) : Prop := ∀ j, (c.thread j).QueueState

theorem queues_next (hn : System.next hint c l = some c') (hq : c.Queues) : c'.Queues :=
  fun j => Threads.forall_next (I := fun _ _ t => t.QueueState) hn
    (fun _ _ hs => (step_cases hs).queueState (hq l.1)) (fun _ _ _ j _ => hq j) j

omit [DecidableEq ι] in
theorem queues_new (m : Uninitialised) : Queues (System.new m : System ι) := fun _ =>
  ⟨by simp [System.new], by simp [System.new], by simp [System.new]⟩

variable [Fintype ι]

/-- The places where the task is: in `op_queue_`, or with a runner. -/
def tasks (c : System ι) : Nat :=
  Threads.total (fun s => s.opQueue.count .taskOperation) (fun t => t.runs.toNat) c

/-- What holds whatever `task_` is at the start. -/
structure OneTask (c : System ι) : Prop where
  locks : c.Locks
  queues : c.Queues
  tasks_le : c.tasks ≤ c.shared.task.toNat
  first : DescriptorsFirst c.shared.opQueue

structure RunnerInvariant (c : System ι) : Prop extends OneTask c where
  tasks : c.tasks = c.shared.task.toNat

section Facts

omit [DecidableEq ι]

theorem tasks_new (m : Uninitialised) : (System.new m : System ι).tasks = 0 := by
  simp [System.tasks, Threads.total, System.new, Shared.new, Thread.runs, Thread.phase]

theorem OneTask.new (m : Uninitialised) : OneTask (System.new m : System ι) where
  locks := locks_new m
  queues := queues_new m
  tasks_le := by simp [tasks_new]
  first := .inl rfl

theorem RunnerInvariant.new (m : Uninitialised) (hm : m.task = false) :
    RunnerInvariant (System.new m : System ι) where
  toOneTask := .new m
  tasks := by
    rw [tasks_new]
    simp [System.new, Shared.new, hm]

theorem OneTask.task_not_mem (h : OneTask c) {i : ι} (hi : (c.thread i).runs = true) :
    .taskOperation ∉ c.shared.opQueue := by
  have hle : (c.thread i).runs.toNat ≤ ∑ j, (c.thread j).runs.toNat :=
    Finset.single_le_sum (f := fun j => (c.thread j).runs.toNat) (fun _ _ => zero_le)
      (Finset.mem_univ i)
  have ht := h.tasks_le
  have h1 : c.shared.task.toNat ≤ 1 := Bool.toNat_le _
  simp only [System.tasks, Threads.total] at ht
  rw [hi, Bool.toNat_true] at hle
  exact List.count_eq_zero.mp (by omega)

theorem OneTask.runs_unique (h : OneTask c) {i j : ι} (hi : (c.thread i).runs = true)
    (hj : (c.thread j).runs = true) : i = j := by
  have ht := h.tasks_le
  have h1 : c.shared.task.toNat ≤ 1 := Bool.toNat_le _
  simp only [System.tasks, Threads.total] at ht
  have hpos : 0 < ∑ j, (c.thread j).runs.toNat :=
    Finset.sum_pos' (fun _ _ => zero_le) ⟨i, Finset.mem_univ i, by simp [hi]⟩
  have hone : ∑ j, (c.thread j).runs.toNat = 1 := by omega
  exact (Threads.existsUnique_of_count hone).unique hi hj

end Facts

theorem tasks_next (hl : c.Locks) (hq : c.Queues) (hn : System.next hint c l = some c') :
    c'.tasks + c.shared.task.toNat = c.tasks + c'.shared.task.toNat := by
  have := Threads.total_next (n := fun s => s.task.toNat) (g := fun _ => 0) (x := 0) (y := 0) hn
    fun s t hs => by
      have := (step_cases hs).tasks (hl l.1).state (hq l.1)
      simpa using this
  simp only [System.tasks]
  simp only [Threads.total, Finset.sum_const_zero] at this ⊢
  omega

theorem OneTask.next (h : OneTask c) (hn : System.next hint c l = some c') : OneTask c' where
  locks := locks_next hn h.locks
  queues := queues_next hn h.queues
  tasks_le := by
    have ht := tasks_next h.locks h.queues hn
    have := h.tasks_le
    omega
  first := by
    obtain ⟨s, t, hs, rfl⟩ := Threads.next_eq_some.mp hn
    exact (step_cases hs).descriptorsFirst (h.queues l.1) (fun hi => h.task_not_mem hi) h.first

theorem RunnerInvariant.next (h : RunnerInvariant c) (hn : System.next hint c l = some c') :
    RunnerInvariant c' where
  toOneTask := h.toOneTask.next hn
  tasks := by
    have ht := tasks_next h.locks h.queues hn
    have := h.tasks
    omega

/-- The states of the runs from a scheduler that was just constructed. -/
abbrev Reachable (hint : Int) (m : Uninitialised) : System ι → Prop :=
  Reach (System.next hint) (fun _ _ => True) (System.new m)

theorem Reachable.runnerInvariant (hm : m.task = false) (h : Reachable hint m c) :
    RunnerInvariant c :=
  Reach.invariant h (.new m hm) fun _ _ _ _ hi _ hn => hi.next hn

/-- The task is in one place, and every descriptor state in one queue at most. -/
structure SingleRunner (c : System ι) : Prop where
  private_task : ∀ i, ∀ q ∈ (c.thread i).privateOpQueues, .taskOperation ∉ q
  task : c.shared.opQueue.count .taskOperation = 1 ∧ (∀ i, (c.thread i).runs = false) ∨
    .taskOperation ∉ c.shared.opQueue ∧
      ((∃! i, (c.thread i).runs = true) ∨ c.shared.task = false ∧ ∀ i, (c.thread i).runs = false)
  unique : ∀ d, c.shared.opQueue.count (.descriptorState d) + ∑ i, (c.thread i).holds d ≤ 1
  before : ∀ a d b, c.shared.opQueue = a ++ .descriptorState d :: b → .taskOperation ∈ b

theorem single_runner (hint : Int) (m : Uninitialised) (hm : m.task = false) (c : System ι)
    (h : Reachable hint m c) : SingleRunner c := by
  have hi := h.runnerInvariant hm
  have ht := hi.tasks
  simp only [System.tasks, Threads.total] at ht
  have quiet (hz : ∑ j, (c.thread j).runs.toNat = 0) (i : ι) : (c.thread i).runs = false := by
    have := Finset.sum_eq_zero_iff.mp hz i (Finset.mem_univ i)
    simpa using this
  refine ⟨fun i => (hi.queues i).task_not_mem, ?_, fun d => ?_, fun a d b he => ?_⟩
  · cases htask : c.shared.task with
    | false =>
      rw [htask, Bool.toNat_false] at ht
      exact .inr ⟨List.count_eq_zero.mp (by omega), .inr ⟨rfl, quiet (by omega)⟩⟩
    | true =>
      rw [htask, Bool.toNat_true] at ht
      rcases Nat.eq_zero_or_pos (c.shared.opQueue.count .taskOperation) with hz | hp
      · exact .inr ⟨List.count_eq_zero.mp hz, .inl (Threads.existsUnique_of_count (by omega))⟩
      · exact .inl ⟨by omega, quiet (by omega)⟩
  · calc c.shared.opQueue.count (.descriptorState d) + ∑ i, (c.thread i).holds d
        ≤ c.shared.opQueue.count .taskOperation + ∑ i, (c.thread i).runs.toNat :=
          Nat.add_le_add (hi.first.count_le d)
            (Finset.sum_le_sum fun i _ => (hi.queues i).holds_le d)
      _ = c.shared.task.toNat := ht
      _ ≤ 1 := Bool.toNat_le _
  · exact (he ▸ hi.first).before

/-- A thread takes the task and has one event of a descriptor to store. -/
def pollOnce : List (Fin 3 × Action (Fin 3)) :=
  [(first, .user (.registerDescriptor 5 0)), (first, .user .initTask),
    (first, .user .onWorkStarted), (first, .user .run), (first, .next), (first, .next),
    (first, .epollWait [.descriptor 0 1]), (first, .next)]

theorem single_runner_pollOnce :
    ∃ c : System (Fin 3), exec (System.next 0) (System.new {}) pollOnce = some c ∧
      SingleRunner c ∧ (c.thread 0).holds 0 = 1 :=
  ⟨_, rfl, single_runner 0 {} rfl _ (.of_exec pollOnce (allSteps_trivial _ _) rfl), by decide⟩

end System

end BoostAsio
