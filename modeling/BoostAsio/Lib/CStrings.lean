import Mathlib.Data.List.TakeWhile

/-!
# C strings in arrays

An array of characters, which keeps its size, and the functions that write C
strings into it. A write that goes past the end has no result: `store` and
`strcat` fit exactly where the text and its terminator do (`store_isSome`,
`strcat_isSome`), and then change the C string as they should
(`cString_store`, `cString_strcat`).
-/

structure CharArray (n : Nat) where
  chars : List Char
  length_chars : chars.length = n

namespace CharArray

variable {n pos : Nat} {buf buf' : CharArray n} {s t rest : List Char}

/-- `char buf[n] = "s"`, which pads with terminators. -/
def ofText (n : Nat) (s : List Char) (h : s.length ≤ n) : CharArray n where
  chars := s ++ List.replicate (n - s.length) '\x00'
  length_chars := by simp; omega

/-- What is stored at `pos`, if it does not go past the end. -/
def store (buf : CharArray n) (pos : Nat) (s : List Char) : Option (CharArray n) :=
  if h : pos + s.length ≤ n then
    some
      { chars := buf.chars.take pos ++ (s ++ buf.chars.drop (pos + s.length))
        length_chars := by
          have := buf.length_chars
          simp
          omega }
  else none

/-- The C string at the start of the array. -/
def cString (buf : CharArray n) : List Char := buf.chars.takeWhile (· != '\x00')

/-- `strcat`, which looks for the terminator first. -/
def strcat (buf : CharArray n) (s : List Char) : Option (CharArray n) :=
  if '\x00' ∈ buf.chars then buf.store buf.cString.length (s ++ ['\x00']) else none

-- ---------------------------------------------------------------------------
-- What fits
-- ---------------------------------------------------------------------------

theorem store_isSome (buf : CharArray n) (pos : Nat) (s : List Char) :
    (buf.store pos s).isSome ↔ pos + s.length ≤ n := by
  simp [store]

theorem chars_store (h : buf.store pos s = some buf') :
    buf'.chars = buf.chars.take pos ++ (s ++ buf.chars.drop (pos + s.length)) := by
  simp only [store, Option.dite_none_right_eq_some, Option.some.injEq] at h
  obtain ⟨-, rfl⟩ := h
  rfl

theorem exists_store (buf : CharArray n) (h : pos + s.length ≤ n) :
    ∃ buf', buf.store pos s = some buf' :=
  Option.isSome_iff_exists.mp ((store_isSome buf pos s).mpr h)

/-- What stands before a store stays. -/
theorem take_store (h : buf.store pos s = some buf') {k : Nat} (hk : k ≤ pos) :
    buf'.chars.take k = buf.chars.take k := by
  have hfits := (store_isSome buf pos s).mp (Option.isSome_of_eq_some h)
  have hlen : k ≤ (buf.chars.take pos).length := by
    rw [List.length_take, buf.length_chars]
    omega
  rw [chars_store h, List.take_append_of_le_length hlen, List.take_take, Nat.min_eq_left hk]

theorem cString_length_le (buf : CharArray n) : buf.cString.length ≤ n := by
  have hle : buf.cString.length ≤ buf.chars.length := (List.takeWhile_prefix _).length_le
  rwa [buf.length_chars] at hle

/-- Without a terminator the C string is the whole array. -/
theorem terminated_iff : '\x00' ∈ buf.chars ↔ buf.cString.length < n := by
  constructor
  · intro hmem
    by_contra hge
    have hfront := List.takeWhile_prefix (l := buf.chars) (· != '\x00')
    have hall : buf.cString = buf.chars := by
      refine hfront.eq_of_length ?_
      have hle := buf.cString_length_le
      rw [buf.length_chars]
      exact Nat.le_antisymm hle (Nat.not_lt.mp hge)
    have hne := List.takeWhile_eq_self_iff.mp hall _ hmem
    simp at hne
  · intro hlt
    by_contra hmem
    have hall : buf.cString = buf.chars :=
      List.takeWhile_eq_self_iff.mpr fun c hc => bne_iff_ne.mpr (ne_of_mem_of_not_mem hc hmem)
    rw [hall, buf.length_chars] at hlt
    exact Nat.lt_irrefl n hlt

theorem strcat_isSome (buf : CharArray n) (s : List Char) :
    (buf.strcat s).isSome ↔ buf.cString.length + s.length < n := by
  have hlen := store_isSome buf buf.cString.length (s ++ ['\x00'])
  rw [List.length_append, List.length_singleton] at hlen
  by_cases hmem : '\x00' ∈ buf.chars
  · rw [strcat, if_pos hmem, hlen]
    omega
  · rw [strcat, if_neg hmem]
    rw [terminated_iff] at hmem
    simp
    omega

theorem exists_strcat (buf : CharArray n) (h : buf.cString.length + s.length < n) :
    ∃ buf', buf.strcat s = some buf' :=
  Option.isSome_iff_exists.mp ((strcat_isSome buf s).mpr h)

-- ---------------------------------------------------------------------------
-- The C string
-- ---------------------------------------------------------------------------

/-- A list without terminators is a C string where one follows. -/
theorem takeWhile_terminated (hs : '\x00' ∉ s) :
    (s ++ '\x00' :: rest).takeWhile (· != '\x00') = s := by
  have hall : ∀ c ∈ s, (c != '\x00') = true := fun c hc =>
    bne_iff_ne.mpr (ne_of_mem_of_not_mem hc hs)
  simp [List.takeWhile_append_of_pos hall]

theorem not_mem_cString (buf : CharArray n) : '\x00' ∉ buf.cString := by
  intro hmem
  have hne := List.mem_takeWhile_imp hmem
  simp at hne

theorem take_cString (buf : CharArray n) : buf.chars.take buf.cString.length = buf.cString :=
  (List.prefix_iff_eq_take.mp (List.takeWhile_prefix _)).symm

/-- A C string that is stored is read back, behind what stands before it. -/
theorem cString_store (h : buf.store pos (s ++ '\x00' :: rest) = some buf') (hs : '\x00' ∉ s)
    (hpos : '\x00' ∉ buf.chars.take pos) : buf'.cString = buf.chars.take pos ++ s := by
  have hchars : buf'.chars = buf.chars.take pos ++ s ++
      '\x00' :: (rest ++ buf.chars.drop (pos + (s ++ '\x00' :: rest).length)) := by
    rw [chars_store h]
    simp only [List.append_assoc, List.cons_append]
  rw [cString, hchars]
  exact takeWhile_terminated (by simp [hs, hpos])

theorem cString_strcat (h : buf.strcat s = some buf') (hs : '\x00' ∉ s) :
    buf'.cString = buf.cString ++ s := by
  simp only [strcat, Option.ite_none_right_eq_some] at h
  have hfront := take_cString buf
  have hplain := not_mem_cString buf
  rw [← hfront] at hplain
  rw [cString_store h.2 hs hplain, hfront]

end CharArray
