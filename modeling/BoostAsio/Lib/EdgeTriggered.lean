import Mathlib.Init

/-!
# Edge-triggered sources

A kernel watches a source, and a wait is told once of each edge. `due` says that
the next wait reports the source. Nothing is assumed but what is documented of
such an interface (`Source.Lawful`): a write to a source that was not readable
is an edge, and so is a change of the registration while it is readable.

A source that is registered, has been written to, and is never read from, is a
latch: `modify` sets it, and a report clears it (`Source.Lawful.due_exec`).
-/

namespace EdgeTriggered

inductive Call
  | add
  | modify
  | write
  /-- A wait returns and reports the source. -/
  | report
  deriving DecidableEq, Repr

structure Source (κ : Type u) where
  registered : κ → Bool
  readable : κ → Bool
  due : κ → Bool
  apply : Call → κ → κ

variable {κ : Type u}

structure Source.Lawful (K : Source κ) : Prop where
  registered : ∀ call k, K.registered (K.apply call k) = (K.registered k || call == .add)
  readable : ∀ call k, K.readable (K.apply call k) = (K.readable k || call == .write)
  written : ∀ k, K.registered k = true → K.readable k = false → K.due (K.apply .write k) = true
  modified : ∀ k, K.registered k = true → K.due (K.apply .modify k) = (K.due k || K.readable k)
  reported : ∀ k, K.due (K.apply .report k) = false

def Source.exec (K : Source κ) (calls : List Call) (k : κ) : κ :=
  calls.foldl (fun k call => K.apply call k) k

@[simp] theorem Source.exec_nil (K : Source κ) (k : κ) : K.exec [] k = k := rfl

@[simp] theorem Source.exec_cons (K : Source κ) (call : Call) (calls : List Call) (k : κ) :
    K.exec (call :: calls) k = K.exec calls (K.apply call k) := rfl

@[simp] theorem Source.exec_append (K : Source κ) (calls calls' : List Call) (k : κ) :
    K.exec (calls ++ calls') k = K.exec calls' (K.exec calls k) :=
  List.foldl_append

/-- A source before its first use. -/
def Source.Fresh (K : Source κ) (k : κ) : Prop :=
  K.registered k = false ∧ K.readable k = false

def Source.Armed (K : Source κ) (k : κ) : Prop :=
  K.registered k = true ∧ K.readable k = true

/-- What a call makes of a latch. -/
def latch (set : Bool) : Call → Bool
  | .modify => true
  | .report => false
  | .add | .write => set

section Lawful

variable {K : Source κ} (hK : K.Lawful) {k : κ}
include hK

theorem Source.Lawful.armed_apply (h : K.Armed k) (call : Call) : K.Armed (K.apply call k) := by
  obtain ⟨hregistered, hreadable⟩ := h
  constructor
  · rw [hK.registered, hregistered, Bool.true_or]
  · rw [hK.readable, hreadable, Bool.true_or]

/-- Registered, then written to for the first time. -/
theorem Source.Lawful.arm (h : K.Fresh k) :
    K.Armed (K.exec [.add, .write] k) ∧ K.due (K.exec [.add, .write] k) = true := by
  have hregistered : K.registered (K.apply .add k) = true := by simp [hK.registered]
  have hreadable : K.readable (K.apply .add k) = false := by simp [hK.readable, h.2]
  refine ⟨⟨?_, ?_⟩, hK.written _ hregistered hreadable⟩
  · simp [hK.registered]
  · simp [hK.readable]

theorem Source.Lawful.armed_exec (h : K.Armed k) (calls : List Call) :
    K.Armed (K.exec calls k) := by
  induction calls generalizing k with
  | nil => exact h
  | cons call calls ih => exact ih (hK.armed_apply h call)

/-- A source that is armed is a latch. -/
theorem Source.Lawful.due_exec (h : K.Armed k) {calls : List Call}
    (hcalls : ∀ call ∈ calls, call = .modify ∨ call = .report) :
    K.due (K.exec calls k) = calls.foldl latch (K.due k) := by
  induction calls generalizing k with
  | nil => rfl
  | cons call calls ih =>
    have hcall : K.due (K.apply call k) = latch (K.due k) call := by
      rcases hcalls call List.mem_cons_self with rfl | rfl
      · rw [hK.modified k h.1, h.2, Bool.or_true]
        rfl
      · exact hK.reported k
    rw [exec_cons, List.foldl_cons, ← hcall]
    exact ih (hK.armed_apply h call) fun call hc => hcalls call (List.mem_cons_of_mem _ hc)

end Lawful

-- ---------------------------------------------------------------------------
-- A counter that is watched
-- ---------------------------------------------------------------------------

/-- A counter as a source: it is readable unless it is zero. -/
structure Counter where
  registered : Bool := false
  count : Nat := 0
  ready : Bool := false

def Counter.source : Source Counter where
  registered := registered
  readable c := c.count != 0
  due := ready
  apply
    | .add, c => { c with registered := true, ready := c.ready || c.count != 0 }
    | .modify, c => { c with ready := c.ready || c.registered && c.count != 0 }
    | .write, c => { c with count := c.count + 1, ready := c.ready || c.registered }
    | .report, c => { c with ready := false }

theorem Counter.lawful : source.Lawful where
  registered call c := by cases call <;> simp [source]
  readable call c := by cases call <;> simp [source]
  written c h _ := by
    have hc : c.registered = true := h
    simp [source, hc]
  modified c h := by
    have hc : c.registered = true := h
    simp [source, hc]
  reported c := rfl

end EdgeTriggered
