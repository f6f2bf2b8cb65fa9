import BoostAsio.Fifo

/-!
# The fast path of one thread

A scheduler with hint 1 puts what an operation submits into the private queue
of the thread; one with any other hint puts it into `op_queue_`. A program is a
list of operations posted before one call of `run()`, each of which posts some
more.

An operation that posts nothing leaves both alike (`exists_end_of_quiet`). With
hint 1 the first one that does is the last: `~work_cleanup` keeps the lock it
took to move the private queue, `run()` locks again, and that throws
(`throws_of_loud`). Off the fast path nothing throws (`Locked.turn`).
-/

namespace BoostAsio

open Loops

/-- `post_immediate_completion(op, false)` for each operation. -/
def posts (ids : List Nat) : List Request := ids.map fun id => .postImmediateCompletion id false

def postAndRun (initial : List Nat) : List Request := posts initial ++ [.run]

def submitter (submits : Nat → List Nat) (id : Nat) : Body := { requests := posts (submits id) }

/-- The fast path and the locked path end alike. -/
def PathsAgree (hint : Int) (m : Uninitialised) (submits : Nat → List Nat) (initial : List Nat) :
    Prop :=
  ∃ s s', Ends (Solo.turn 1 (submitter submits)) (Solo.start m (postAndRun initial)) s ∧
    Ends (Solo.turn hint (submitter submits)) (Solo.start m (postAndRun initial)) s' ∧
    s.log = s'.log ∧ s.outstandingWork = s'.outstandingWork ∧
    s.scheduler.stopped = s'.scheduler.stopped

namespace Fifo

variable {oneThread : Bool} {submits : Nat → List Nat} {s s' t : Fifo}

theorem reaches_ends {turn : Fifo → Option Fifo} (h : Reaches turn s s') (ht : Ends turn s' t) :
    Ends turn s t := by
  obtain ⟨hr, hn⟩ := ends_iff_reaches.mp ht
  exact ends_iff_reaches.mpr ⟨h.trans hr, hn⟩

theorem reaches_posts (body : Nat → Body) (stopped : Bool) (work : BitVec 64)
    (queue ids : List Nat) (requests : List Request) :
    Reaches (turn oneThread body)
      { stopped, outstandingWork := work, queue, requests := posts ids ++ requests }
      { stopped, outstandingWork := work + BitVec.ofNat 64 ids.length, queue := queue ++ ids,
        requests } := by
  induction ids generalizing work queue with
  | nil =>
    rw [List.append_nil, List.length_nil, show work + BitVec.ofNat 64 0 = work from
      BitVec.add_zero work]
    exact .refl
  | cons id ids ih =>
    have hturn : turn oneThread body
        { stopped, outstandingWork := work, queue, requests := posts (id :: ids) ++ requests } =
      some { stopped, outstandingWork := work + 1, queue := queue ++ [id],
             requests := posts ids ++ requests } := by
      simp [turn, posts, request, post, push]
    have hsum : work + 1 + BitVec.ofNat 64 ids.length =
        work + BitVec.ofNat 64 (id :: ids).length := by
      rw [List.length_cons, BitVec.ofNat_add, BitVec.add_comm (BitVec.ofNat 64 ids.length),
        ← BitVec.add_assoc]
      rfl
    have hrest := ih (work + 1) (queue ++ [id])
    rw [hsum, List.append_assoc] at hrest
    exact .head hturn hrest

-- ---------------------------------------------------------------------------
-- Operations that post nothing
-- ---------------------------------------------------------------------------

/-- In the loop of `do_run_one`. -/
def running (work : BitVec 64) (queue : List Nat) (n : Nat) (executed : List Nat) : Fifo where
  stopped := false
  outstandingWork := work
  queue := queue
  requests := []
  runs := [{ n }]
  log := { executed }

/-- An operation that posts nothing takes one unit of work away. -/
theorem reaches_quiet {id : Nat} (h : submits id = []) (work : BitVec 64) (queue : List Nat)
    (n : Nat) (executed : List Nat) :
    Reaches (turn oneThread (submitter submits)) (running work (id :: queue) n executed)
      { running (work - 1) queue (if n = 2 ^ 64 - 1 then n else n + 1) (executed ++ [id]) with
        stopped := work - 1 == 0 } := by
  have hbody : submitter submits id = {} := by simp [submitter, posts, h]
  have hpop : turn oneThread (submitter submits) (running work (id :: queue) n executed) =
      some { running work queue n (executed ++ [id]) with
        runs := [{ n, handler := some {} }] } := by
    simp [turn, running, loopTurn, hbody]
  have hclean : turn oneThread (submitter submits)
      { running work queue n (executed ++ [id]) with runs := [{ n, handler := some {} }] } =
      some { running (work - 1) queue (if n = 2 ^ 64 - 1 then n else n + 1) (executed ++ [id]) with
        stopped := work - 1 == 0 } := by
    simp [turn, running, cleanupTurn, mergeWork, workFinished, endOfWork]
  exact .head hpop (.single hclean)

theorem reaches_running {id : Nat} (h : submits id = []) {work : BitVec 64} (hz : work - 1 ≠ 0)
    (queue : List Nat) (n : Nat) (executed : List Nat) :
    Reaches (turn oneThread (submitter submits)) (running work (id :: queue) n executed)
      (running (work - 1) queue (if n = 2 ^ 64 - 1 then n else n + 1) (executed ++ [id])) := by
  have hne : (work - 1 == 0) = false := beq_eq_false_iff_ne.mpr hz
  have hquiet : Reaches (turn oneThread (submitter submits))
      (running work (id :: queue) n executed) _ := reaches_quiet h work queue n executed
  rw [hne] at hquiet
  exact hquiet

theorem ends_stopped (body : Nat → Body) (hs : s.stopped = true) (hq : s.requests = [])
    {f : SoloRun} (hr : s.runs = [f]) (hf : f.handler = none) (hh : s.log.halt = none) :
    Ends (turn oneThread body) s
      (({ s with runs := [] }.result (.returned f.n)).halt .finished) := by
  have hreturn : turn oneThread body s = some ({ s with runs := [] }.result (.returned f.n)) := by
    simp [turn, loopTurn, hs, hr, hf, hh]
  have hfinish : turn oneThread body ({ s with runs := [] }.result (.returned f.n)) =
      some (({ s with runs := [] }.result (.returned f.n)).halt .finished) := by
    simp [turn, result, hq, hh]
  exact .turn hreturn (.turn hfinish (.done rfl))

/-- Of the operations in the queue, `run()` executes as many as there is work. -/
theorem take_work {work : BitVec 64} (hw : work ≠ 0) (id : Nat) (queue : List Nat) :
    (id :: queue).take work.toNat = id :: queue.take (work - 1).toNat := by
  have hpos : work.toNat = (work - 1).toNat + 1 := by
    have hne : work.toNat ≠ 0 := fun h => hw (BitVec.eq_of_toNat_eq h)
    bv_omega
  rw [hpos, List.take_succ_cons]

/-- Where no operation that is executed posts any, the paths end alike. -/
theorem exists_end_of_quiet (work : BitVec 64) (hw : work ≠ 0) (queue : List Nat) (n : Nat)
    (executed : List Nat) (hq : ∀ id ∈ queue.take work.toNat, submits id = []) :
    ∃ a, ∀ oneThread,
      Ends (turn oneThread (submitter submits)) (running work queue n executed) a := by
  induction queue generalizing work n executed with
  | nil => exact ⟨(running work [] n executed).halt .blocked, fun _ => .turn rfl (.done rfl)⟩
  | cons id queue ih =>
    rw [take_work hw] at hq
    have hid : submits id = [] := hq id List.mem_cons_self
    by_cases hz : work - 1 = 0
    · have hend : ({ running (work - 1) queue (if n = 2 ^ 64 - 1 then n else n + 1)
          (executed ++ [id]) with stopped := work - 1 == 0 } : Fifo).stopped = true :=
        beq_iff_eq.mpr hz
      exact ⟨_, fun _ => reaches_ends (reaches_quiet hid work queue n executed)
        (ends_stopped _ hend rfl rfl rfl rfl)⟩
    · obtain ⟨a, ha⟩ := ih (work - 1) hz (if n = 2 ^ 64 - 1 then n else n + 1) (executed ++ [id])
        fun id hid => hq id (List.mem_cons_of_mem _ hid)
      exact ⟨a, fun o => reaches_ends (reaches_running hid hz queue n executed) (ha o)⟩

-- ---------------------------------------------------------------------------
-- Operations that post some
-- ---------------------------------------------------------------------------

/-- On the fast path, what an operation posts goes to the private queue. -/
theorem reaches_private (body : Nat → Body) (hs : s.log.halt = none) (f : SoloRun)
    (fs : List SoloRun) (ids : List Nat) :
    Reaches (turn true body)
      { s with runs := { f with handler := some { requests := posts ids } } :: fs }
      { s with runs := { f with
          handler := some {}
          privateOutstandingWork := f.privateOutstandingWork + ids.length
          privateOpQueue := f.privateOpQueue ++ ids } :: fs } := by
  induction ids generalizing f with
  | nil =>
    rw [List.append_nil]
    exact .refl
  | cons id ids ih =>
    let g : SoloRun := { f with
      privateOutstandingWork := f.privateOutstandingWork + 1
      privateOpQueue := f.privateOpQueue ++ [id] }
    have hturn : turn true body
        { s with runs := { f with handler := some { requests := posts (id :: ids) } } :: fs } =
      some { s with runs := { g with handler := some { requests := posts ids } } :: fs } := by
      simp [turn, posts, request, post, g, hs]
    have hrest := ih g
    simp only [g, List.append_assoc, List.cons_append, List.nil_append, Nat.add_assoc,
      Nat.add_comm 1] at hrest
    exact .head hturn hrest

/-- The lock is taken twice. -/
theorem endOfWork_private {f : SoloRun} (hf : f.privateOpQueue ≠ []) (fs : List SoloRun)
    (throws : Bool) : s.endOfWork f fs throws =
      { s with queue := s.queue ++ f.privateOpQueue, runs := fs }.result .threw := by
  have hown : (throws || !f.privateOpQueue.isEmpty) = true := by simp [hf]
  exact if_pos hown

/-- On the fast path, the first operation that posts some ends `run()`. -/
theorem throws_of_loud (work : BitVec 64) (hw : work ≠ 0) (queue : List Nat) (n : Nat)
    (executed : List Nat) (hq : ∃ id ∈ queue.take work.toNat, submits id ≠ []) :
    ∃ a, Ends (turn true (submitter submits)) (running work queue n executed) a ∧
      .threw ∈ a.log.results := by
  induction queue generalizing work n executed with
  | nil => simp at hq
  | cons id queue ih =>
    rw [take_work hw] at hq
    by_cases hs : submits id = []
    · obtain ⟨id', hid, hloud⟩ := hq
      have hid : id' ∈ queue.take (work - 1).toNat := by
        rcases List.mem_cons.mp hid with rfl | hid
        · exact absurd hs hloud
        · exact hid
      have hz : work - 1 ≠ 0 := by
        intro hz
        rw [hz] at hid
        cases hid
      obtain ⟨a, ha, hthrew⟩ := ih (work - 1) hz (if n = 2 ^ 64 - 1 then n else n + 1)
        (executed ++ [id]) ⟨id', hid, hloud⟩
      exact ⟨a, reaches_ends (reaches_running hs hz queue n executed) ha, hthrew⟩
    · let popped := running work queue n (executed ++ [id])
      let f : SoloRun :=
        { n, handler := some {}, privateOutstandingWork := 0 + (submits id).length,
          privateOpQueue := [] ++ submits id }
      have hpop : turn true (submitter submits) (running work (id :: queue) n executed) =
          some { popped with
            runs := [{ n, handler := some { requests := posts (submits id) } }] } := by
        simp [turn, running, loopTurn, submitter, popped]
      have hposts : Reaches (turn true (submitter submits))
          { popped with runs := [{ n, handler := some { requests := posts (submits id) } }] }
          { popped with runs := [f] } :=
        reaches_private (submitter submits) (s := popped) rfl { n } [] (submits id)
      let merged := ({ popped with runs := [f] }.mergeWork f).workFinished
      let thrown :=
        { merged with queue := merged.queue ++ f.privateOpQueue, runs := [] }.result .threw
      have hthrow : turn true (submitter submits) { popped with runs := [f] } = some thrown :=
        congrArg some (endOfWork_private hs [] false)
      have hfinish : turn true (submitter submits) thrown = some (thrown.halt .finished) := rfl
      refine ⟨_, .turn hpop (reaches_ends hposts (.turn hthrow (.turn hfinish (.done rfl)))), ?_⟩
      simp [thrown, result, halt]

-- ---------------------------------------------------------------------------
-- The locked path
-- ---------------------------------------------------------------------------

def IsPost (r : Request) : Prop := ∃ id, r = .postImmediateCompletion id false

/-- A `run()` that has nothing private, in an operation that only posts. -/
structure PostsOnly (f : SoloRun) : Prop where
  privateOpQueue : f.privateOpQueue = []
  throws : ∀ b ∈ f.handler, b.throws = false
  requests : ∀ b ∈ f.handler, ∀ r ∈ b.requests, IsPost r

/-- Nothing has thrown, and nothing is going to. -/
structure Locked (s : Fifo) : Prop where
  requests : ∀ r ∈ s.requests, IsPost r ∨ r = .run
  runs : ∀ f ∈ s.runs, PostsOnly f
  results : .threw ∉ s.log.results

theorem Locked.post (h : s.Locked) {r : Request} (hr : IsPost r) :
    (s.request false r).Locked := by
  obtain ⟨id, rfl⟩ := hr
  exact ⟨h.requests, h.runs, h.results⟩

theorem Locked.run (h : s.Locked) : s.run.Locked := by
  simp only [Fifo.run]
  split
  · exact ⟨h.requests, h.runs, by simp [stop, result, h.results]⟩
  · refine ⟨h.requests, fun f hf => ?_, h.results⟩
    rcases List.mem_cons.mp hf with rfl | hf
    · exact ⟨rfl, by simp, by simp⟩
    · exact h.runs f hf

theorem Locked.replace (h : s.Locked) {f g : SoloRun} {fs : List SoloRun} (hr : s.runs = f :: fs)
    (hg : PostsOnly g) : Locked { s with runs := g :: fs } := by
  refine ⟨h.requests, fun k hk => ?_, h.results⟩
  rcases List.mem_cons.mp hk with rfl | hk
  · exact hg
  · exact h.runs k (hr ▸ List.mem_cons_of_mem _ hk)

theorem Locked.loopTurn (h : s.Locked) {f : SoloRun} {fs : List SoloRun} (hr : s.runs = f :: fs) :
    (s.loopTurn (submitter submits) f fs).Locked := by
  have hf : PostsOnly f := h.runs f (hr ▸ List.mem_cons_self)
  simp only [Fifo.loopTurn]
  split
  · refine ⟨h.requests, fun g hg => h.runs g (hr ▸ List.mem_cons_of_mem _ hg), ?_⟩
    simp [result, h.results]
  · split
    · exact ⟨h.requests, h.runs, h.results⟩
    · rename_i id queue _
      have hg : PostsOnly { f with handler := some (submitter submits id) } := by
        refine ⟨hf.privateOpQueue, by simp [submitter], fun b hb r hmem => ?_⟩
        obtain rfl : submitter submits id = b := Option.some.inj hb
        simp only [submitter, posts, List.mem_map] at hmem
        obtain ⟨id', -, rfl⟩ := hmem
        exact ⟨id', rfl⟩
      have hreplaced := h.replace hr hg
      exact ⟨hreplaced.requests, hreplaced.runs, hreplaced.results⟩

theorem Locked.cleanupTurn (h : s.Locked) {f : SoloRun} {fs : List SoloRun}
    (hr : s.runs = f :: fs) : (s.cleanupTurn f fs false).Locked := by
  have hf : PostsOnly f := h.runs f (hr ▸ List.mem_cons_self)
  simp only [Fifo.cleanupTurn, endOfWork, hf.privateOpQueue]
  refine ⟨h.requests, fun g hg => ?_, h.results⟩
  rcases List.mem_cons.mp hg with rfl | hg
  · exact ⟨rfl, by simp, by simp⟩
  · exact h.runs g (hr ▸ List.mem_cons_of_mem _ hg)

theorem Locked.turn (h : s.Locked) (ht : turn false (submitter submits) s = some s') :
    s'.Locked := by
  simp only [Fifo.turn, Option.ite_none_left_eq_some, Option.some.injEq] at ht
  obtain ⟨-, rfl⟩ := ht
  obtain ⟨stopped, work, queue, requests, runs, log⟩ := s
  cases runs with
  | nil =>
    cases requests with
    | nil => exact ⟨h.requests, h.runs, h.results⟩
    | cons r requests =>
      have hrest : Locked ⟨stopped, work, queue, requests, [], log⟩ :=
        ⟨fun r hr => h.requests r (List.mem_cons_of_mem _ hr), h.runs, h.results⟩
      rcases h.requests r List.mem_cons_self with hpost | rfl
      · exact hrest.post hpost
      · exact hrest.run
  | cons f fs =>
    have hf : PostsOnly f := h.runs f List.mem_cons_self
    obtain ⟨privQueue, priv, n, handler⟩ := f
    cases handler with
    | none => exact h.loopTurn rfl
    | some b =>
      obtain ⟨handlerRequests, throws⟩ := b
      cases handlerRequests with
      | nil =>
        obtain rfl : throws = false := hf.throws _ rfl
        exact h.cleanupTurn rfl
      | cons r handlerRequests =>
        have hg : PostsOnly ⟨privQueue, priv, n, some ⟨handlerRequests, throws⟩⟩ := by
          refine ⟨hf.privateOpQueue, fun b hb => ?_, fun b hb r' hr' => ?_⟩
          · obtain rfl := Option.some.inj hb
            exact hf.throws ⟨r :: handlerRequests, throws⟩ rfl
          · obtain rfl := Option.some.inj hb
            exact hf.requests _ rfl r' (List.mem_cons_of_mem _ hr')
        exact (h.replace rfl hg).post (hf.requests _ rfl r List.mem_cons_self)

theorem Locked.start (stopped : Bool) (work : BitVec 64) (initial : List Nat) :
    (Fifo.start stopped work (postAndRun initial)).Locked := by
  refine ⟨fun r hr => ?_, by simp [Fifo.start], by simp [Fifo.start]⟩
  simp only [Fifo.start, postAndRun, posts, List.mem_append, List.mem_map,
    List.mem_singleton] at hr
  exact hr.imp_left fun ⟨id, _, hid⟩ => ⟨id, hid.symm⟩

-- ---------------------------------------------------------------------------
-- Whole programs
-- ---------------------------------------------------------------------------

def posted (stopped : Bool) (work : BitVec 64) (initial : List Nat) : Fifo :=
  { stopped, outstandingWork := work, queue := initial, requests := [.run] }

theorem reaches_posted (body : Nat → Body) (stopped : Bool) (work : BitVec 64)
    (initial : List Nat) :
    Reaches (Fifo.turn oneThread body) (.start stopped work (postAndRun initial))
      (posted stopped (work + BitVec.ofNat 64 initial.length) initial) :=
  reaches_posts body stopped work [] initial [.run]

theorem turn_posted {work : BitVec 64} (hw : work ≠ 0) (body : Nat → Body) (stopped : Bool)
    (initial : List Nat) : Fifo.turn oneThread body (posted stopped work initial) =
      some { running work initial 0 [] with stopped } :=
  congrArg some (if_neg hw)

theorem ends_no_work (body : Nat → Body) (stopped : Bool) (initial : List Nat) :
    Ends (Fifo.turn oneThread body) (posted stopped 0 initial)
      ((Fifo.result { posted true 0 initial with requests := [] } (.returned 0)).halt .finished) :=
  .turn rfl (.turn rfl (.done rfl))

/-- What is executed of the initial operations posts nothing. -/
def Quiet (submits : Nat → List Nat) (stopped : Bool) (work : BitVec 64) (initial : List Nat) :
    Prop :=
  stopped = true ∨ ∀ id ∈ initial.take work.toNat, submits id = []

theorem exists_end_of_posted {stopped : Bool} {work : BitVec 64} {initial : List Nat}
    (h : Quiet submits stopped work initial) :
    ∃ a, ∀ oneThread,
      Ends (Fifo.turn oneThread (submitter submits)) (posted stopped work initial) a := by
  by_cases hw : work = 0
  · subst hw
    exact ⟨_, fun _ => ends_no_work _ stopped initial⟩
  · rcases h with rfl | hq
    · exact ⟨_, fun _ => .turn (turn_posted hw _ true initial) (ends_stopped _ rfl rfl rfl rfl rfl)⟩
    · cases stopped with
      | true =>
        exact ⟨_, fun _ =>
          .turn (turn_posted hw _ true initial) (ends_stopped _ rfl rfl rfl rfl rfl)⟩
      | false =>
        obtain ⟨a, ha⟩ := exists_end_of_quiet work hw initial 0 [] hq
        exact ⟨a, fun o => .turn (turn_posted hw _ false initial) (ha o)⟩

theorem posted_throws {stopped : Bool} {work : BitVec 64} {initial : List Nat}
    (h : ¬ Quiet submits stopped work initial) :
    ∃ a, Ends (Fifo.turn true (submitter submits)) (posted stopped work initial) a ∧
      .threw ∈ a.log.results := by
  simp only [Quiet, not_or, Bool.not_eq_true, not_forall] at h
  obtain ⟨rfl, id, hid, hloud⟩ := h
  have hw : work ≠ 0 := by
    rintro rfl
    cases hid
  obtain ⟨a, ha, hthrew⟩ := throws_of_loud work hw initial 0 [] ⟨id, hid, hloud⟩
  exact ⟨a, .turn (turn_posted hw _ false initial) ha, hthrew⟩

end Fifo

/-- `outstanding_work_` when `run()` is called. -/
def workPosted (m : Uninitialised) (initial : List Nat) : BitVec 64 :=
  BitVec.ofNat 64 (m.outstandingWork + initial.length)

section PathsAgree

variable {hint : Int} {m : Uninitialised} {submits : Nat → List Nat} {initial : List Nat}

/-- The paths of the scheduler are those of what its thread sees. -/
theorem ends_program (hint : Int) (hm : m.task = false) {a : Fifo}
    (ha : Ends (Fifo.turn (oneThread hint) (submitter submits))
      (.posted m.stopped (workPosted m initial) initial) a) :
    ∃ s, Ends (Solo.turn hint (submitter submits)) (Solo.start m (postAndRun initial)) s ∧
      s.toFifo = a := by
  refine ((Solo.simulation hint (submitter submits)).ends_iff (.start hm _)).mpr ?_
  have hwork : workPosted m initial =
      BitVec.ofNat 64 m.outstandingWork + BitVec.ofNat 64 initial.length :=
    BitVec.ofNat_add _ _
  rw [hwork] at ha
  exact Fifo.reaches_ends (Fifo.reaches_posted _ _ _ _) ha

theorem PathsAgree.quiet (hh : hint ≠ 1) (hm : m.task = false)
    (h : PathsAgree hint m submits initial) :
    Fifo.Quiet submits m.stopped (workPosted m initial) initial := by
  by_contra hloud
  obtain ⟨s, s', hs, hs', hlog, -, -⟩ := h
  obtain ⟨a, ha, hthrew⟩ := Fifo.posted_throws hloud
  obtain ⟨t, ht, rfl⟩ := ends_program 1 hm ha
  obtain rfl := hs.unique ht
  have hlocked : s'.toFifo.Locked := by
    have hone : oneThread hint = false := by simp [oneThread, hh]
    have hend := ((Solo.simulation hint _).ends_iff (.start hm _)).mp ⟨s', hs', rfl⟩
    rw [hone] at hend
    exact (hend.invariant (.start _ _ initial) fun _ _ h ht => h.turn ht).1
  have hresults : s.log.results = s'.log.results := congrArg Log.results hlog
  have hthrew : .threw ∈ s.log.results := hthrew
  exact hlocked.results (hresults ▸ hthrew)

theorem pathsAgree_iff (hint : Int) (hh : hint ≠ 1) (m : Uninitialised) (hm : m.task = false)
    (submits : Nat → List Nat) (initial : List Nat) :
    PathsAgree hint m submits initial ↔ m.stopped = true ∨
      ∀ id ∈ initial.take (workPosted m initial).toNat, submits id = [] := by
  constructor
  · exact fun h => h.quiet hh hm
  · intro hq
    obtain ⟨a, ha⟩ := Fifo.exists_end_of_posted hq
    obtain ⟨s, hs, hsa⟩ := ends_program 1 hm (ha _)
    obtain ⟨s', hs', hsa'⟩ := ends_program hint hm (ha _)
    have heq : s.toFifo = s'.toFifo := hsa.trans hsa'.symm
    exact ⟨s, s', hs, hs', congrArg Fifo.log heq, congrArg Fifo.outstandingWork heq,
      congrArg Fifo.stopped heq⟩

/-- Two operations that post nothing. -/
theorem pathsAgree_two : PathsAgree 2 {} (fun _ => []) [0, 1] :=
  (pathsAgree_iff 2 (by decide) {} rfl (fun _ => []) [0, 1]).mpr (.inr fun _ _ => rfl)

/-- The first operation posts a second one. -/
theorem one_post_disagrees :
    ¬ ∀ hint m submits initial, hint ≠ 1 → m.task = false → PathsAgree hint m submits initial := by
  intro h
  have hquiet := (h 2 {} (fun id => if id = 0 then [1] else []) [0] (by decide) rfl).quiet
    (by decide) rfl
  simp [Fifo.Quiet, workPosted] at hquiet

end PathsAgree

end BoostAsio
