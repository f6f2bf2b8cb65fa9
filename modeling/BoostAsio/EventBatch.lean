import BoostAsio.Lib.Runs
import BoostAsio.System

/-!
# A batch of events

`storeEvents` is the loop of `epoll_reactor::run` over what one `epoll_wait`
has reported. The first event of a descriptor state that is not in `ops`
overwrites its `task_result_` and puts it there; every other event is
accumulated. `BatchStored` is what that comes to for a whole batch.
-/

namespace BoostAsio

open Runs

namespace EpollEvent

def descriptor? : EpollEvent → Option Nat
  | .interrupter => none
  | .descriptor d _ => some d

/-- The bits that the event reports for the descriptor `d`. -/
def mask (d : Nat) : EpollEvent → Events
  | .interrupter => 0
  | .descriptor d' events => if d' = d then events else 0

end EpollEvent

variable {ι : Type}

/-- The loop of `epoll_reactor::run`, on the memory and on `ops`. -/
def storeEvents (s : Shared ι) (f : Run) (evs : List EpollEvent) : Shared ι × Run :=
  evs.foldl (fun r ev =>
    let (s, info) := storeEvent r.1 r.2 ev
    (s, { r.2 with info })) (s, f)

-- ---------------------------------------------------------------------------
-- What a batch comes to
-- ---------------------------------------------------------------------------

/-- The descriptors that a batch reports, in order. -/
def reported (evs : List EpollEvent) : List Nat := evs.filterMap EpollEvent.descriptor?

/-- The descriptors that a batch reports and `ops` does not hold, once each, in
the order of their first events. -/
def newlyReported (ops : OpQueue Operation) (evs : List EpollEvent) : List Nat :=
  ((reported evs).filter fun d => .descriptorState d ∉ ops).eraseDups

/-- The bitwise or of the masks of `d` in a batch. -/
def reportedMask (evs : List EpollEvent) (d : Nat) : Events :=
  (evs.map (EpollEvent.mask d)).foldr (· ||| ·) 0

/-- The `task_result_` of a descriptor that a batch reports, from the one it
had: that is kept exactly if the descriptor was in `ops`. -/
def storedMask (ops : OpQueue Operation) (evs : List EpollEvent) (d : Nat) (old : Events) :
    Events :=
  if .descriptorState d ∈ ops then old ||| reportedMask evs d else reportedMask evs d

structure BatchStored (s : Shared ι) (f : Run) (evs : List EpollEvent) (s' : Shared ι)
    (f' : Run) : Prop where
  ops : f' = { f with info.privateOpQueue := f.info.privateOpQueue ++
    (newlyReported f.info.privateOpQueue evs).map .descriptorState }
  rest : s' = { s with descriptors := s'.descriptors }
  stored : ∀ d x, d ∈ reported evs → s.descriptors[d]? = some x → s'.descriptors[d]? =
    some { x with taskResult := storedMask f.info.privateOpQueue evs d x.taskResult }
  others : ∀ d, d ∉ reported evs → s'.descriptors[d]? = s.descriptors[d]?

theorem reportedMask_of_not_mem {evs : List EpollEvent} {d : Nat} (h : d ∉ reported evs) :
    reportedMask evs d = 0 := by
  induction evs with
  | nil => rfl
  | cons ev evs ih =>
    cases ev with
    | interrupter => simpa [reportedMask, EpollEvent.mask] using ih h
    | descriptor d' events =>
      simp only [reported, EpollEvent.descriptor?, List.filterMap_cons, List.mem_cons,
        not_or] at h
      have hrest := ih h.2
      simpa [reportedMask, EpollEvent.mask, Ne.symm h.1] using hrest

theorem newlyReported_cons_of_mem {ops : OpQueue Operation} {d : Nat} {events : Events}
    {evs : List EpollEvent} (h : .descriptorState d ∈ ops) :
    newlyReported ops (.descriptor d events :: evs) = newlyReported ops evs := by
  simp [newlyReported, reported, EpollEvent.descriptor?, h]

theorem newlyReported_cons_of_not_mem {ops : OpQueue Operation} {d : Nat} {events : Events}
    {evs : List EpollEvent} (h : .descriptorState d ∉ ops) :
    newlyReported ops (.descriptor d events :: evs) =
      d :: newlyReported (ops ++ [.descriptorState d]) evs := by
  simp only [newlyReported, reported, EpollEvent.descriptor?, List.filterMap_cons]
  rw [List.filter_cons_of_pos (by simpa using h), List.eraseDups_cons, List.filter_filter]
  congr 2
  refine List.filter_congr fun d' _ => ?_
  by_cases hd : d' = d <;> simp [hd]

-- ---------------------------------------------------------------------------
-- The loop
-- ---------------------------------------------------------------------------

theorem BatchStored.nil (s : Shared ι) (f : Run) : BatchStored s f [] s f where
  ops := by simp [newlyReported, reported]
  rest := rfl
  stored := by simp [reported]
  others := fun _ _ => rfl

theorem storeEvents_cons (s : Shared ι) (f : Run) (ev : EpollEvent) (evs : List EpollEvent) :
    storeEvents s f (ev :: evs) =
      storeEvents (storeEvent s f ev).1 { f with info := (storeEvent s f ev).2 } evs := rfl

theorem storeEvent_known (s : Shared ι) (f : Run) {d : Nat} {x : DescriptorState}
    (hx : s.descriptors[d]? = some x) (events : Events) :
    .descriptorState d ∈ f.info.privateOpQueue ∧ storeEvent s f (.descriptor d events) =
        (s.setDescriptor d (x.addReadyEvents events), f.info) ∨
      .descriptorState d ∉ f.info.privateOpQueue ∧ storeEvent s f (.descriptor d events) =
        (s.setDescriptor d (x.setReadyEvents events),
          { f.info with privateOpQueue := f.info.privateOpQueue ++ [.descriptorState d] }) := by
  by_cases h : .descriptorState d ∈ f.info.privateOpQueue
  · exact .inl ⟨h, by simp [storeEvent, hx, h]⟩
  · exact .inr ⟨h, by simp [storeEvent, hx, h]⟩

theorem BatchStored.interrupter {s s' : Shared ι} {f f' : Run} {evs : List EpollEvent}
    (h : BatchStored s f evs s' f') : BatchStored s f (.interrupter :: evs) s' f' where
  ops := h.ops
  rest := h.rest
  stored d x hd hx := by
    simpa [storedMask, reportedMask, EpollEvent.mask] using h.stored d x hd hx
  others := h.others

theorem mem_reported_cons {d d' : Nat} {events : Events} {evs : List EpollEvent} :
    d' ∈ reported (.descriptor d events :: evs) ↔ d' = d ∨ d' ∈ reported evs := by
  simp [reported, EpollEvent.descriptor?]

theorem reportedMask_cons_self (d : Nat) (events : Events) (evs : List EpollEvent) :
    reportedMask (.descriptor d events :: evs) d = events ||| reportedMask evs d := by
  simp [reportedMask, EpollEvent.mask]

theorem reportedMask_cons_ne {d d' : Nat} (h : d' ≠ d) (events : Events) (evs : List EpollEvent) :
    reportedMask (.descriptor d events :: evs) d' = reportedMask evs d' := by
  simp [reportedMask, EpollEvent.mask, Ne.symm h]

/-- An event of `d` stores a mask, and the rest of the batch finds `d` in `ops`. -/
theorem BatchStored.cons {s s' : Shared ι} {f f' : Run} {evs : List EpollEvent} {d : Nat}
    {x : DescriptorState} {events first : Events} (ops : OpQueue Operation)
    (hx : s.descriptors[d]? = some x) (hmem : .descriptorState d ∈ ops)
    (hother : ∀ d' : Nat, d' ≠ d → (Operation.descriptorState d' ∈ ops ↔
      Operation.descriptorState d' ∈ f.info.privateOpQueue))
    (hfirst : storedMask f.info.privateOpQueue (.descriptor d events :: evs) d x.taskResult =
      first ||| reportedMask evs d)
    (hops : f.info.privateOpQueue ++
        (newlyReported f.info.privateOpQueue (.descriptor d events :: evs)).map .descriptorState =
      ops ++ (newlyReported ops evs).map .descriptorState)
    (h : BatchStored (s.setDescriptor d { x with taskResult := first })
      { f with info.privateOpQueue := ops } evs s' f') :
    BatchStored s f (.descriptor d events :: evs) s' f' := by
  have hlt : d < s.descriptors.length := (List.getElem?_eq_some_iff.mp hx).1
  have hself : (s.setDescriptor d { x with taskResult := first }).descriptors[d]? =
      some { x with taskResult := first } := List.getElem?_set_self hlt
  have hne (d' : Nat) (hd : d' ≠ d) :
      (s.setDescriptor d { x with taskResult := first }).descriptors[d']? = s.descriptors[d']? :=
    List.getElem?_set_ne (Ne.symm hd)
  constructor
  · rw [hops]
    exact h.ops
  · exact h.rest
  · intro d' y hd' hy
    by_cases hd : d' = d
    · subst hd
      cases hx.symm.trans hy
      rw [hfirst]
      by_cases hlater : d' ∈ reported evs
      · rw [h.stored d' _ hlater hself]
        simp [storedMask, hmem]
      · rw [h.others d' hlater, hself, reportedMask_of_not_mem hlater]
        simp
    · have hlater : d' ∈ reported evs := (mem_reported_cons.mp hd').resolve_left hd
      rw [h.stored d' y hlater ((hne d' hd).trans hy)]
      simp only [storedMask, hother d' hd, reportedMask_cons_ne hd]
  · intro d' hd'
    rw [mem_reported_cons, not_or] at hd'
    rw [h.others d' hd'.2, hne d' hd'.1]

theorem storeEvents_stored (s : Shared ι) (f : Run) (evs : List EpollEvent)
    (hknown : ∀ d ∈ reported evs, d < s.descriptors.length) :
    BatchStored s f evs (storeEvents s f evs).1 (storeEvents s f evs).2 := by
  induction evs generalizing s f with
  | nil => exact .nil s f
  | cons ev evs ih =>
    cases ev with
    | interrupter => exact (ih s f hknown).interrupter
    | descriptor d events =>
      have hlt : d < s.descriptors.length := hknown d (mem_reported_cons.mpr (.inl rfl))
      have hx : s.descriptors[d]? = some s.descriptors[d] := List.getElem?_eq_getElem hlt
      have hrest (y : DescriptorState) :
          ∀ d' ∈ reported evs, d' < (s.setDescriptor d y).descriptors.length := by
        intro d' hd'
        simpa [Shared.setDescriptor] using hknown d' (mem_reported_cons.mpr (.inr hd'))
      rw [storeEvents_cons]
      rcases storeEvent_known s f hx events with ⟨hmem, hstore⟩ | ⟨hmem, hstore⟩
      · rw [hstore]
        refine .cons _ hx hmem (fun _ _ => Iff.rfl) ?_ ?_ (ih _ _ (hrest _))
        · simp [storedMask, hmem, reportedMask_cons_self, BitVec.or_assoc]
        · rw [newlyReported_cons_of_mem hmem]
      · rw [hstore]
        refine .cons (f.info.privateOpQueue ++ [.descriptorState d]) hx (by simp) ?_ ?_ ?_
          (ih _ _ (hrest _))
        · intro d' hd
          simp [hd]
        · simp [storedMask, hmem, reportedMask_cons_self]
        · simp [newlyReported_cons_of_not_mem hmem]

-- ---------------------------------------------------------------------------
-- The steps of the thread that runs the reactor
-- ---------------------------------------------------------------------------

theorem nodup_newlyReported (ops : OpQueue Operation) (evs : List EpollEvent) :
    (newlyReported ops evs).Nodup := by
  unfold newlyReported
  generalize (reported evs).filter (fun d => Operation.descriptorState d ∉ ops) = l
  induction hn : l.length using Nat.strongRecOn generalizing l with
  | ind n ih =>
    cases l with
    | nil => simp
    | cons d l =>
      rw [List.eraseDups_cons, List.nodup_cons]
      constructor
      · simp [List.mem_eraseDups]
      · refine ih _ ?_ _ rfl
        rw [← hn]
        exact Nat.lt_succ_of_le (List.length_filter_le _ _)

theorem BatchStored.nodup {s s' : Shared ι} {f f' : Run} {evs : List EpollEvent}
    (h : BatchStored s f evs s' f') (hnodup : f.info.privateOpQueue.Nodup) :
    f'.info.privateOpQueue.Nodup := by
  rw [h.ops]
  refine List.nodup_append.mpr ⟨hnodup, (nodup_newlyReported _ evs).map ?_, ?_⟩
  · intro d d' hd
    exact Operation.descriptorState.inj hd
  · rintro o ho o' ho' rfl
    obtain ⟨d, hd, rfl⟩ := List.mem_map.mp ho'
    have hnew := (List.mem_filter.mp (List.mem_eraseDups.mp hd)).2
    exact of_decide_eq_true hnew ho

variable [DecidableEq ι]

/-- The thread stores one event in each of its steps. -/
theorem exec_events (hint : Int) (i : ι) (evs : List EpollEvent) (c : System ι) (f : Run)
    (htop : (c.thread i).top = some { f with pc := .events evs })
    (hcall : (c.thread i).call = none) :
    exec (System.next hint) c (List.replicate evs.length (i, .next)) =
      some (c.set i (storeEvents c.shared f evs).1
        ((c.thread i).setTop { (storeEvents c.shared f evs).2 with pc := .events [] })) := by
  induction evs generalizing c f with
  | nil =>
    have hsame : (c.thread i).setTop { f with pc := .events [] } = c.thread i := by
      rw [Thread.setTop, ← htop]
    simp only [List.length_nil, List.replicate_zero, exec, storeEvents, List.foldl_nil, hsame]
    simp [Threads.set]
  | cons ev evs ih =>
    have hnext : System.next hint c (i, .next) = some (c.set i (storeEvent c.shared f ev).1
        ((c.thread i).setTop
          { f with info := (storeEvent c.shared f ev).2, pc := .events evs })) := by
      simp only [System.next, Threads.next, step, hcall, Option.isNone_none, if_true, htop,
        Option.bind_some, runStep, Option.map_some]
      rfl
    simp only [List.length_cons, List.replicate_succ, exec, hnext, Option.bind_some]
    have hrest := ih (c.set i (storeEvent c.shared f ev).1
        ((c.thread i).setTop { f with info := (storeEvent c.shared f ev).2, pc := .events evs }))
      { f with info := (storeEvent c.shared f ev).2 } (by simp [Thread.setTop])
      (by simp [Thread.setTop, hcall])
    rw [hrest, storeEvents_cons]
    simp [Threads.set, Thread.setTop]

/-- What `epoll_reactor::run` does with the batch that its `epoll_wait` returned. -/
theorem eventBatch_stored (hint : Int) (c : System ι) (i : ι) (f : Run) (evs : List EpollEvent)
    (htop : (c.thread i).top = some { f with pc := .events evs })
    (hcall : (c.thread i).call = none) (hnodup : f.info.privateOpQueue.Nodup)
    (hknown : ∀ d ∈ reported evs, d < c.shared.descriptors.length) :
    ∃ s' f', exec (System.next hint) c (List.replicate evs.length (i, .next)) =
        some (c.set i s' ((c.thread i).setTop { f' with pc := .events [] })) ∧
      BatchStored c.shared f evs s' f' ∧ f'.info.privateOpQueue.Nodup := by
  have hstored := storeEvents_stored c.shared f evs hknown
  exact ⟨_, _, exec_events hint i evs c f htop hcall, hstored, hstored.nodup hnodup⟩

/-- Descriptor 1 is in `ops` already, and descriptor 0 is reported twice. -/
def repeatedBatch : List EpollEvent :=
  [.descriptor 0 epollIn, .interrupter, .descriptor 1 epollOut, .descriptor 0 epollOut]

def beforeBatch : System (Fin 3) where
  shared := { Shared.new {} with
    descriptors := [(DescriptorState.register 5 0).1, (DescriptorState.register 6 0).1] }
  thread _ := { top := some { info.privateOpQueue := [.descriptorState 1]
                              pc := .events repeatedBatch } }

theorem eventBatch_stored_repeated : ∃ f' : Run,
    f'.info.privateOpQueue = [.descriptorState 1, .descriptorState 0] ∧
      f'.info.privateOpQueue.Nodup := by
  obtain ⟨s', f', -, hstored, hnodup⟩ := eventBatch_stored 0 beforeBatch System.first
    { info.privateOpQueue := [.descriptorState 1] } repeatedBatch rfl rfl (by decide) (by decide)
  refine ⟨f', ?_, hnodup⟩
  rw [hstored.ops]
  decide

end BoostAsio
