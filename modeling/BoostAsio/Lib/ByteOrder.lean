import Mathlib.Init

/-!
# Words and their bytes

A word of `n` bytes in memory, in the byte order of the host or in that of the
network, which is big-endian. `toNetwork` and `fromNetwork` convert between the
two: the memory of `toNetwork u` holds `u` in network order. On a host of
either order they are one function (`fromNetwork_eq`), its own inverse.
-/

namespace Bytes

/-- The bytes of a word, the least significant one first. -/
def littleEndian (n : Nat) (u : BitVec (8 * n)) : Vector UInt8 n :=
  .ofFn fun i => ⟨u.extractLsb' (8 * i) 8⟩

/-- The number that bytes make up, the least significant one first. -/
def value (b : List UInt8) : Nat := b.foldr (fun c v => 256 * v + c.toNat) 0

def ofLittleEndian {n : Nat} (b : Vector UInt8 n) : BitVec (8 * n) := .ofNat _ (value b.toList)

/-- The bytes of a word, the most significant one first. -/
def bigEndian (n : Nat) (u : BitVec (8 * n)) : Vector UInt8 n := (littleEndian n u).reverse

def ofBigEndian {n : Nat} (b : Vector UInt8 n) : BitVec (8 * n) := ofLittleEndian b.reverse

variable {n : Nat}

theorem testBit_value (b : List UInt8) {i j : Nat} (hi : i < b.length) (hj : j < 8) :
    (value b).testBit (8 * i + j) = b[i].toBitVec.getLsbD j := by
  induction b generalizing i with
  | nil => cases hi
  | cons c b ih =>
    have hvalue : value (c :: b) = 2 ^ 8 * value b + c.toNat := rfl
    have hc : c.toNat < 2 ^ 8 := c.toNat_lt
    rw [hvalue, Nat.testBit_two_pow_mul_add _ hc]
    cases i with
    | zero => simp [hj, BitVec.getLsbD]
    | succ i =>
      have hge : ¬ 8 * (i + 1) + j < 8 := by omega
      have hsub : 8 * (i + 1) + j - 8 = 8 * i + j := by omega
      rw [if_neg hge, hsub]
      exact ih (by simpa using hi)

theorem getLsbD_ofLittleEndian (b : Vector UInt8 n) {i j : Nat} (hi : i < n) (hj : j < 8) :
    (ofLittleEndian b).getLsbD (8 * i + j) = b[i].toBitVec.getLsbD j := by
  have hlt : 8 * i + j < 8 * n := by omega
  rw [ofLittleEndian, BitVec.getLsbD_ofNat, testBit_value b.toList (by simpa using hi) hj]
  simp [hlt]

theorem getLsbD_littleEndian (u : BitVec (8 * n)) {i j : Nat} (hi : i < n) (hj : j < 8) :
    (littleEndian n u)[i].toBitVec.getLsbD j = u.getLsbD (8 * i + j) := by
  simp [littleEndian, hj]

@[simp] theorem ofLittleEndian_littleEndian (u : BitVec (8 * n)) :
    ofLittleEndian (littleEndian n u) = u := by
  refine BitVec.eq_of_getLsbD_eq fun i hi => ?_
  have hpos : i = 8 * (i / 8) + i % 8 := (Nat.div_add_mod i 8).symm
  have hdiv : i / 8 < n := by omega
  have hmod : i % 8 < 8 := Nat.mod_lt i (by decide)
  rw [hpos, getLsbD_ofLittleEndian _ hdiv hmod, getLsbD_littleEndian u hdiv hmod]

@[simp] theorem littleEndian_ofLittleEndian (b : Vector UInt8 n) :
    littleEndian n (ofLittleEndian b) = b := by
  refine Vector.ext fun i hi => UInt8.toBitVec_inj.mp (BitVec.eq_of_getLsbD_eq fun j hj => ?_)
  rw [getLsbD_littleEndian _ hi hj, getLsbD_ofLittleEndian b hi hj]

@[simp] theorem ofBigEndian_bigEndian (u : BitVec (8 * n)) : ofBigEndian (bigEndian n u) = u := by
  simp [ofBigEndian, bigEndian]

@[simp] theorem bigEndian_ofBigEndian (b : Vector UInt8 n) : bigEndian n (ofBigEndian b) = b := by
  simp [ofBigEndian, bigEndian]

end Bytes

open Bytes

inductive ByteOrder
  | little
  | big
  deriving DecidableEq

namespace ByteOrder

variable {n : Nat} (o : ByteOrder)

/-- What the memory holds that a word is written to. -/
def store (n : Nat) (u : BitVec (8 * n)) : Vector UInt8 n :=
  match o with
  | little => littleEndian n u
  | big => bigEndian n u

/-- The word that is read from a memory. -/
def load (b : Vector UInt8 n) : BitVec (8 * n) :=
  match o with
  | little => ofLittleEndian b
  | big => ofBigEndian b

/-- The word whose memory is `u` in network order. -/
def toNetwork (n : Nat) (u : BitVec (8 * n)) : BitVec (8 * n) := o.load (bigEndian n u)

/-- The word whose bytes in network order are the memory of `u`. -/
def fromNetwork (n : Nat) (u : BitVec (8 * n)) : BitVec (8 * n) := ofBigEndian (o.store n u)

@[simp] theorem load_store (u : BitVec (8 * n)) : o.load (o.store n u) = u := by
  cases o <;> simp [load, store]

@[simp] theorem store_load (b : Vector UInt8 n) : o.store n (o.load b) = b := by
  cases o <;> simp [load, store]

@[simp] theorem store_toNetwork (u : BitVec (8 * n)) :
    o.store n (o.toNetwork n u) = bigEndian n u := by
  simp [toNetwork]

@[simp] theorem fromNetwork_load (b : Vector UInt8 n) :
    o.fromNetwork n (o.load b) = ofBigEndian b := by
  simp [fromNetwork]

@[simp] theorem fromNetwork_toNetwork (u : BitVec (8 * n)) :
    o.fromNetwork n (o.toNetwork n u) = u := by
  simp [fromNetwork]

@[simp] theorem toNetwork_fromNetwork (u : BitVec (8 * n)) :
    o.toNetwork n (o.fromNetwork n u) = u := by
  simp [fromNetwork, toNetwork]

/-- Both conversions reverse the bytes, or leave them as they are. -/
theorem fromNetwork_eq : o.fromNetwork n = o.toNetwork n := by
  cases o <;> rfl

example : toNetwork .little 4 0x7f000001 = 0x0100007f := by decide +kernel

end ByteOrder
