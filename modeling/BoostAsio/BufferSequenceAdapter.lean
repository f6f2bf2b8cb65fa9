import BoostAsio.SocketOps
import Mathlib.Algebra.Ring.Nat

/-!
# The adapter of a buffer sequence

`buffer_sequence_adapter` makes of a sequence of buffers the `iovec`s that
`sendmsg` is given, at most `max_buffers` of them. Its loops do so for every
range (`init_describes`). But the constructor has `init` begin at the address of
the sequence and end right behind it: a range of one element, which is the
sequence itself, converted to a buffer. So an adapter describes its sequence if
and only if that is one buffer and converts to it (`described_iff`).

Two places of the class do not parse: the parameter
`const Buffers& buffer_sequence&` of the constructor, which is read as
`const Buffers&`, and the head of the loop of `all_empty`, which declares
variables of two types.
-/

namespace BoostAsio

inductive Access
  | mutable
  | const

/-- `mutable_buffer` and `const_buffer`, which differ in what their bytes may be
used for. -/
structure Buffer (access : Access) where
  data : BitVec 64 := 0
  size : BitVec 64 := 0
  deriving DecidableEq

abbrev MutableBuffer := Buffer .mutable
abbrev ConstBuffer := Buffer .const

def maxIovLen : Nat := 16

def maxBuffers : Nat := if 64 < maxIovLen then 64 else maxIovLen

variable {access : Access} {σ : Type u}

/-- Both overloads, with `init_iov_base`. -/
def initNativeBuffer (buffer : Buffer access) : SocketOps.Buffer where
  base := buffer.data.toNat
  len := buffer.size.toNat

/-- `buffers_` is uninitialised where nothing was written. It has `max_buffers`
entries; an index from there on is behind its end. -/
structure BufferSequenceAdapter where
  buffers : Nat → Option SocketOps.Buffer
  count : Nat
  totalBufferSize : BitVec 64

/-- A type of buffer sequences: the buffers from the begin of a sequence to its
end, and `Buffer(buffer_sequence)` where the type converts to `Buffer`. -/
structure SequenceType (access : Access) (σ : Type u) where
  elements : σ → List (Buffer access)
  toBuffer : Option (σ → Buffer access)

namespace BufferSequenceAdapter

/-- The body of the loop of `init`. -/
def add (a : BufferSequenceAdapter) (buffer : Buffer access) : BufferSequenceAdapter where
  buffers := Function.update a.buffers a.count (some (initNativeBuffer buffer))
  count := a.count + 1
  totalBufferSize := a.totalBufferSize + buffer.size

/-- `init(begin, end)`, for a range given as its buffers `Buffer(*iter)`. -/
def init (a : BufferSequenceAdapter) : List (Buffer access) → BufferSequenceAdapter
  | [] => a
  | buffer :: range => if a.count < maxBuffers then (a.add buffer).init range else a

/-- The constructor, or `none` where it does not compile. -/
def construct (ty : SequenceType access σ) (bufferSequence : σ) : Option BufferSequenceAdapter :=
  ty.toBuffer.map fun toBuffer => init ⟨fun _ => none, 0, 0⟩ [toBuffer bufferSequence]

def totalSize (a : BufferSequenceAdapter) : BitVec 64 := a.totalBufferSize

def allEmpty (a : BufferSequenceAdapter) : Bool := a.totalBufferSize == 0

/-- The loop of the static `all_empty` from its `i`-th turn on. -/
def allEmptyFrom (i : Nat) : List (Buffer access) → Bool
  | [] => true
  | buffer :: range =>
    if i < maxBuffers then
      if 0 < buffer.size then false else allEmptyFrom (i + 1) range
    else true

def allEmptyRange (range : List (Buffer access)) : Bool := allEmptyFrom 0 range

/-- The sum of the sizes, which need not fit `std::size_t`. -/
def sizes (l : List (Buffer access)) : Nat := (l.map fun b => b.size.toNat).sum

/-- What an adapter of the buffers `l` is to be. -/
structure Describes (l : List (Buffer access)) (a : BufferSequenceAdapter) : Prop where
  count : a.count = min l.length maxBuffers
  entry : ∀ i < a.count, ∃ b iov, l[i]? = some b ∧ a.buffers i = some iov ∧
    iov.base = b.data.toNat ∧ iov.len = b.size.toNat
  beyond : ∀ i, maxBuffers ≤ i → a.buffers i = none
  total : sizes (l.take maxBuffers) < 2 ^ 64 → a.totalSize.toNat = sizes (l.take maxBuffers)
  empty : sizes (l.take maxBuffers) < 2 ^ 64 →
    (a.allEmpty = true ↔ ∀ b ∈ l.take maxBuffers, b.size = 0)
  emptyRange : allEmptyRange l = true ↔ ∀ b ∈ l.take maxBuffers, b.size = 0

def Described (ty : SequenceType access σ) (bufferSequence : σ) : Prop :=
  ∃ a, construct ty bufferSequence = some a ∧ Describes (ty.elements bufferSequence) a

-- ---------------------------------------------------------------------------
-- What the loops do
-- ---------------------------------------------------------------------------

/-- The adapter with one entry for each buffer of `l`. -/
def describing (l : List (Buffer access)) : BufferSequenceAdapter where
  buffers i := l[i]?.map initNativeBuffer
  count := l.length
  totalBufferSize := .ofNat 64 (sizes l)

variable {l : List (Buffer access)} {a : BufferSequenceAdapter}

@[simp] theorem describing_buffers (l : List (Buffer access)) (i : Nat) :
    (describing l).buffers i = l[i]?.map initNativeBuffer := rfl

@[simp] theorem describing_count (l : List (Buffer access)) : (describing l).count = l.length := rfl

@[simp] theorem describing_totalBufferSize (l : List (Buffer access)) :
    (describing l).totalBufferSize = .ofNat 64 (sizes l) := rfl

theorem sizes_concat (l : List (Buffer access)) (b : Buffer access) :
    sizes (l ++ [b]) = sizes l + b.size.toNat := by
  simp [sizes]

theorem sizes_eq_zero : sizes l = 0 ↔ ∀ b ∈ l, b.size = 0 := by
  rw [sizes, List.sum_eq_zero_iff_forall_eq_nat, List.forall_mem_map]
  simp [← BitVec.toNat_inj]

theorem toNat_describing (hfits : sizes l < 2 ^ 64) :
    (describing l).totalBufferSize.toNat = sizes l := by
  rw [describing_totalBufferSize, BitVec.toNat_ofNat]
  exact Nat.mod_eq_of_lt hfits

theorem add_describing (l : List (Buffer access)) (b : Buffer access) :
    (describing l).add b = describing (l ++ [b]) := by
  have hbuffers : Function.update (describing l).buffers l.length (some (initNativeBuffer b)) =
      (describing (l ++ [b])).buffers := by
    funext i
    rcases Nat.lt_trichotomy i l.length with h | rfl | h
    · rw [Function.update_of_ne (Nat.ne_of_lt h)]
      simp [List.getElem?_append_left h]
    · simp
    · have hlong : (l ++ [b]).length ≤ i := by
        rw [List.length_append]
        exact h
      rw [Function.update_of_ne (Nat.ne_of_gt h)]
      simp [List.getElem?_eq_none (Nat.le_of_lt h), List.getElem?_eq_none hlong]
  have htotal : BitVec.ofNat 64 (sizes l) + b.size = .ofNat 64 (sizes (l ++ [b])) := by
    rw [sizes_concat, BitVec.ofNat_add]
    simp
  rw [add, BufferSequenceAdapter.mk.injEq]
  exact ⟨hbuffers, by simp, htotal⟩

/-- Behind the buffers `l`, the loop takes as many of its range as fit. -/
theorem init_describing (hl : l.length ≤ maxBuffers) (range : List (Buffer access)) :
    (describing l).init range = describing ((l ++ range).take maxBuffers) := by
  induction range generalizing l with
  | nil => simp [init, List.take_of_length_le hl]
  | cons b range ih =>
    rw [init, describing_count]
    split
    · rename_i hfits
      have hlen : (l ++ [b]).length ≤ maxBuffers := by
        rw [List.length_append]
        exact hfits
      rw [add_describing, ih hlen]
      simp
    · rename_i hfull
      rw [List.take_left' (Nat.le_antisymm hl (Nat.not_lt.mp hfull))]

theorem allEmptyFrom_iff (i : Nat) (range : List (Buffer access)) :
    allEmptyFrom i range = true ↔ ∀ b ∈ range.take (maxBuffers - i), b.size = 0 := by
  induction range generalizing i with
  | nil => simp [allEmptyFrom]
  | cons b range ih =>
    have hpos : 0 < b.size ↔ b.size ≠ 0 := BitVec.pos_iff_ne_zero ..
    rw [allEmptyFrom]
    split
    · rename_i hi
      have hsucc : maxBuffers - i = (maxBuffers - (i + 1)) + 1 := by omega
      rw [hsucc, List.take_succ_cons, List.forall_mem_cons, ← ih]
      split
      · rename_i hb
        exact iff_of_false Bool.false_ne_true fun h => hpos.mp hb h.1
      · rename_i hb
        exact (and_iff_right (not_not.mp (mt hpos.mpr hb))).symm
    · rename_i hi
      simp [Nat.sub_eq_zero_of_le (Nat.not_lt.mp hi)]

theorem allEmptyRange_iff (range : List (Buffer access)) :
    allEmptyRange range = true ↔ ∀ b ∈ range.take maxBuffers, b.size = 0 :=
  allEmptyFrom_iff 0 range

theorem describes_describing (l : List (Buffer access)) :
    Describes l (describing (l.take maxBuffers)) where
  count := by simp [Nat.min_comm]
  entry := by
    intro i hi
    obtain ⟨hmax, hlen⟩ : i < maxBuffers ∧ i < l.length := by simpa [Nat.lt_min] using hi
    refine ⟨l[i], initNativeBuffer l[i], List.getElem?_eq_getElem hlen, ?_, rfl, rfl⟩
    rw [describing_buffers, List.getElem?_take_of_lt hmax, List.getElem?_eq_getElem hlen]
    rfl
  beyond := by
    intro i hi
    have hshort : (l.take maxBuffers).length ≤ i := by
      rw [List.length_take]
      exact Nat.le_trans (Nat.min_le_left ..) hi
    simp [List.getElem?_eq_none hshort]
  total := toNat_describing
  empty := by
    intro hfits
    rw [← sizes_eq_zero, ← toNat_describing hfits, allEmpty, beq_iff_eq, ← BitVec.toNat_inj]
    rfl
  emptyRange := allEmptyRange_iff l

theorem init_describes (range : List (Buffer access)) :
    Describes range (init ⟨fun _ => none, 0, 0⟩ range) := by
  have hinit := init_describing (Nat.zero_le _) range (l := [])
  rw [List.nil_append] at hinit
  have hstart : describing ([] : List (Buffer access)) = ⟨fun _ => none, 0, 0⟩ := rfl
  rw [← hstart, hinit]
  exact describes_describing range

example : (init ⟨fun _ => none, 0, 0⟩ (List.replicate 20 (⟨0x1000, 2⟩ : ConstBuffer))).totalSize =
    32 := by
  decide

-- ---------------------------------------------------------------------------
-- What the constructor does
-- ---------------------------------------------------------------------------

theorem construct_eq_some {ty : SequenceType access σ} {bufferSequence : σ} :
    construct ty bufferSequence = some a ↔ ∃ toBuffer, ty.toBuffer = some toBuffer ∧
      init ⟨fun _ => none, 0, 0⟩ [toBuffer bufferSequence] = a := by
  rw [construct, Option.map_eq_some_iff]

/-- An adapter of one buffer describes no other sequence. -/
theorem Describes.eq_singleton {b : Buffer access} (h : Describes l a) (hb : Describes [b] a) :
    l = [b] := by
  have hcount : a.count = 1 := hb.count
  have hlength : l.length = 1 := by
    have hmin : min l.length maxBuffers = 1 := h.count.symm.trans hcount
    have hmax : maxBuffers = 16 := rfl
    omega
  obtain ⟨b', rfl⟩ := List.length_eq_one_iff.mp hlength
  have hfirst : 0 < a.count := hcount ▸ Nat.one_pos
  obtain ⟨c, iov, hc, hiov, hbase, hlen⟩ := h.entry 0 hfirst
  obtain ⟨d, iov', hd, hiov', hbase', hlen'⟩ := hb.entry 0 hfirst
  obtain rfl : b' = c := by simpa using hc
  obtain rfl : b = d := by simpa using hd
  obtain rfl : iov = iov' := Option.some.inj (hiov.symm.trans hiov')
  have hdata : b'.data = b.data := BitVec.eq_of_toNat_eq (hbase.symm.trans hbase')
  have hsize : b'.size = b.size := BitVec.eq_of_toNat_eq (hlen.symm.trans hlen')
  rw [List.singleton_inj, Buffer.mk.injEq]
  exact ⟨hdata, hsize⟩

/-- An adapter describes its sequence if and only if that is one buffer, and
converts to it. -/
theorem described_iff (ty : SequenceType access σ) (bufferSequence : σ) :
    Described ty bufferSequence ↔ ∃ toBuffer, ty.toBuffer = some toBuffer ∧
      ty.elements bufferSequence = [toBuffer bufferSequence] := by
  constructor
  · rintro ⟨a, hnew, hdescribes⟩
    obtain ⟨toBuffer, hty, rfl⟩ := construct_eq_some.mp hnew
    exact ⟨toBuffer, hty, hdescribes.eq_singleton (init_describes _)⟩
  · rintro ⟨toBuffer, hty, hone⟩
    refine ⟨_, construct_eq_some.mpr ⟨toBuffer, hty, rfl⟩, ?_⟩
    rw [hone]
    exact init_describes _

/-- A header and a body, which convert to the header. -/
def headerAndBody : SequenceType .const (ConstBuffer × ConstBuffer) where
  elements s := [s.1, s.2]
  toBuffer := some Prod.fst

theorem body_not_described :
    ¬ Described headerAndBody (⟨0x1000, 4⟩, ⟨0x2000, 8⟩) := by
  rintro ⟨a, hnew, h⟩
  cases hnew
  exact absurd h.count (by decide)

end BufferSequenceAdapter

end BoostAsio
