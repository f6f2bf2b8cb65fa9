import Mathlib.Init

/-!
# Fields of a memory

A memory of `n` cells that is read and written a field at a time. A field is
read back as it was written (`read_write`), a write leaves the fields beside it
alone (`read_write_of_disjoint`), and of two writes the second counts
(`write_write`).
-/

namespace Memory

variable {α : Type u} {n k l off pos : Nat}

/-- The field of `k` cells at `off`. -/
def read (m : Vector α n) (off k : Nat) (h : off + k ≤ n) : Vector α k :=
  .ofFn fun i => m[off + i]

def write (m : Vector α n) (off : Nat) (field : Vector α k) : Vector α n :=
  .ofFn fun i => if h : off ≤ i ∧ i < off + k then field[i - off] else m[i]

@[simp] theorem read_write (m : Vector α n) (field : Vector α k) (h : off + k ≤ n) :
    read (write m off field) off k h = field := by
  refine Vector.ext fun i hi => ?_
  simp [read, write]

theorem read_write_of_disjoint (m : Vector α n) (field : Vector α k) (h : pos + l ≤ n)
    (hd : pos + l ≤ off ∨ off + k ≤ pos) :
    read (write m off field) pos l h = read m pos l h := by
  refine Vector.ext fun i hi => ?_
  have hout : ¬ (off ≤ pos + i ∧ pos + i < off + k) := by omega
  simp [read, write, hout]

theorem write_write (m : Vector α n) (first second : Vector α k) :
    write (write m off first) off second = write m off second := by
  refine Vector.ext fun i hi => ?_
  by_cases h : off ≤ i ∧ i < off + k
  · simp [write, h]
  · simp [write, h]

end Memory
