import BoostAsio.Address
import Mathlib.Data.List.TakeWhile

/-!
# Scope ids in text

`inet_ntop` writes a scope id behind a `%`, as the name of an interface or as a
decimal number, and `inet_pton` reads it back. A number goes through `atoi`, so
a scope id from `2 ^ 31` on comes back only where a link-local address names an
interface (`survives_iff`).
-/

namespace BoostAsio.Ip

def IsNumeral (s : Text) : Prop := s ≠ [] ∧ ∀ c ∈ s, c.isDigit = true

/-- What the C library does with the address bytes `b`, and with names of
interfaces. -/
structure Libc.Inverse (l : Libc) (b : BytesV6) : Prop where
  text : ∃ t, (l.inetNtop6 b).1 = some t ∧ t.length < maxAddrV6StrLen ∧ '%' ∉ t ∧
    (l.inetPton6 t).1 = some b
  named : ∀ j n, l.ifIndexToName j = some n → l.ifNameToIndex n = j
  unnamed : ∀ n, (∀ j, l.ifIndexToName j ≠ some n) → l.ifNameToIndex n = 0
  notNumeral : ∀ j n, l.ifIndexToName j = some n → ¬ IsNumeral n

/-- The address bytes `b` and the scope id `i` are printed to a text that is
parsed to them again. -/
def SurvivesText (l : Libc) (b : BytesV6) (i : BitVec 32) : Prop :=
  ∃ s, (inetNtop6 l b (i.setWidth 64)).1 = some s ∧
    (inetPton6 l s).1 = some (b, i.setWidth 64)

-- ---------------------------------------------------------------------------
-- Numbers
-- ---------------------------------------------------------------------------

theorem ofNat_digit {d : Nat} (h : d < 10) : Char.ofNat (d + '0'.toNat) = d.digitChar := by
  revert d
  decide

theorem formatUnsigned_eq_toDigits (n : Nat) : formatUnsigned n = Nat.toDigits 10 n := by
  induction n using Nat.strongRecOn with
  | ind n ih =>
    rw [Nat.toDigits_eq_if (by decide)]
    by_cases hzero : n = 0
    · subst hzero
      rfl
    have hlast := ofNat_digit (Nat.mod_lt n (by decide : 0 < 10))
    rw [formatUnsigned, if_neg hzero, Nat.digits_def' (by decide) (Nat.pos_of_ne_zero hzero),
      List.map_cons, List.reverse_cons, hlast]
    split
    next hlt => simp [Nat.div_eq_of_lt hlt, Nat.mod_eq_of_lt hlt]
    next hge =>
      have hrest : n / 10 ≠ 0 := by omega
      have hdiv := ih (n / 10) (by omega)
      rw [formatUnsigned, if_neg hrest] at hdiv
      rw [hdiv]

theorem formatUnsigned_isNumeral (n : Nat) : IsNumeral (formatUnsigned n) := by
  rw [formatUnsigned_eq_toDigits]
  exact ⟨Nat.toDigits_ne_nil, fun c hc => Nat.isDigit_of_mem_toDigits (by decide) (by decide) hc⟩

theorem formatUnsigned_length_le {n k : Nat} (hk : 0 < k) (h : n < 10 ^ k) :
    (formatUnsigned n).length ≤ k := by
  rw [formatUnsigned_eq_toDigits]
  exact (Nat.length_toDigits_le_iff (by decide) hk).mpr h

theorem parseDigits_formatUnsigned (n : Nat) : parseDigits (formatUnsigned n) = n := by
  rw [parseDigits, List.takeWhile_eq_self_iff.mpr (formatUnsigned_isNumeral n).2,
    ← Nat.ofDigitChars_eq_foldl, formatUnsigned_eq_toDigits, Nat.ofDigitChars_ten_toDigits]

/-- A digit is neither a blank nor a sign. -/
theorem parseInt_of_isNumeral {s : Text} (h : IsNumeral s) : parseInt s = parseDigits s := by
  obtain ⟨hne, hdigits⟩ := h
  cases s with
  | nil => exact absurd rfl hne
  | cons c s =>
    have hc := Char.isDigit_iff_toNat.mp (hdigits c (by simp))
    have hother : ∀ d : Char, d.isDigit = false → c ≠ d := by
      rintro d hd rfl
      rw [hdigits c (by simp)] at hd
      cases hd
    have hblank : [' ', '\t', '\n', '\x0b', '\x0c', '\r'].contains c = false := by
      simp [hother ' ' rfl, hother '\t' rfl, hother '\n' rfl, hother '\x0b' rfl,
        hother '\x0c' rfl, hother '\r' rfl]
    simp only [parseInt, List.dropWhile_cons, hblank]
    split
    next heq => exact absurd (List.cons.inj heq).1 (hother '-' rfl)
    next heq => exact absurd (List.cons.inj heq).1 (hother '+' rfl)
    next => rfl

theorem parseInt_formatUnsigned (n : Nat) : parseInt (formatUnsigned n) = n := by
  rw [parseInt_of_isNumeral (formatUnsigned_isNumeral n), parseDigits_formatUnsigned]

theorem atoi_formatUnsigned (l : Libc) {n : Nat} (h : n < 2 ^ 31) :
    atoi l (formatUnsigned n) = .ofNat 32 n := by
  rw [atoi, parseInt_formatUnsigned, if_pos (by omega)]
  rfl

-- ---------------------------------------------------------------------------
-- The number that comes back
-- ---------------------------------------------------------------------------

/-- What is widened from an `int` keeps its sign. -/
theorem lt_of_signExtend_eq {x i : BitVec 32} (h : x.signExtend 64 = i.setWidth 64) :
    i.toNat < 2 ^ 31 := by
  have hval := congrArg BitVec.toNat h
  rw [BitVec.toNat_signExtend, BitVec.toNat_setWidth, BitVec.toNat_setWidth] at hval
  have hx := x.isLt
  have hi := i.isLt
  cases hmsb : x.msb with
  | true =>
    rw [hmsb] at hval
    simp at hval
    omega
  | false =>
    have hsmall := BitVec.toNat_lt_of_msb_false hmsb
    rw [hmsb] at hval
    simp at hval
    omega

theorem signExtend_of_lt {i : BitVec 32} (h : i.toNat < 2 ^ 31) :
    i.signExtend 64 = i.setWidth 64 := by
  refine BitVec.signExtend_eq_setWidth_of_msb_false ?_
  simpa [BitVec.msb_eq_decide] using h

theorem setWidth_ne_zero {i : BitVec 32} (h : i ≠ 0) : i.setWidth 64 ≠ 0#64 := by
  intro hzero
  apply h
  bv_omega

variable {l : Libc} {b : BytesV6} {i : BitVec 32} {name : Text}

/-- A number names no interface. -/
theorem parseScope_of_isNumeral (h : l.Inverse b) (hnum : IsNumeral name) :
    parseScope l b name = (atoi l name).signExtend 64 := by
  have hindex : l.ifNameToIndex name = 0 := h.unnamed name fun j hj => h.notNumeral j name hj hnum
  simp [parseScope, hindex]

theorem parseScope_of_named (h : l.Inverse b) (hlocal : isLinkLocal b = true)
    (hname : l.ifIndexToName i = some name) (hi : i ≠ 0) :
    parseScope l b name = i.setWidth 64 := by
  have hindex := h.named i name hname
  have hne := setWidth_ne_zero hi
  simp [parseScope, hlocal, hindex, hne]

-- ---------------------------------------------------------------------------
-- The text
-- ---------------------------------------------------------------------------

theorem inetPton6_of_plain {t : Text} (hplain : '%' ∉ t) :
    (inetPton6 l t).1 = (l.inetPton6 t).1.map fun b => (b, 0) := by
  have hdrop : t.dropWhile (· != '%') = [] := by
    rw [List.dropWhile_eq_nil_iff]
    exact fun c hc => bne_iff_ne.mpr (ne_of_mem_of_not_mem hc hplain)
  simp [inetPton6, hdrop]

theorem inetPton6_of_scope (l : Libc) (name : Text) {t : Text} (hplain : '%' ∉ t)
    (hlen : t.length ≤ maxAddrV6StrLen) :
    (inetPton6 l (t ++ '%' :: name)).1 =
      (l.inetPton6 t).1.map fun b => (b, parseScope l b name) := by
  have hall : ∀ c ∈ t, (c != '%') = true := fun c hc =>
    bne_iff_ne.mpr (ne_of_mem_of_not_mem hc hplain)
  have htake : (t ++ '%' :: name).takeWhile (· != '%') = t := by
    simp [List.takeWhile_append_of_pos hall]
  have hdrop : (t ++ '%' :: name).dropWhile (· != '%') = '%' :: name := by
    simp [List.dropWhile_append_of_pos hall]
  simp only [inetPton6, htake, hdrop, if_neg (Nat.not_lt.mpr hlen)]

theorem survives_zero (h : l.Inverse b) : SurvivesText l b 0 := by
  obtain ⟨t, ht, -, hplain, hb⟩ := h.text
  refine ⟨t, ?_, ?_⟩
  · simp [inetNtop6, ht]
  · rw [inetPton6_of_plain hplain, hb]
    rfl

/-- With a scope id, what matters is what is read from the text behind the `%`. -/
theorem survives_iff_of_scopeText (h : l.Inverse b) (hi : i ≠ 0)
    (hs : scopeText l b (i.setWidth 64) = '%' :: name) :
    SurvivesText l b i ↔ parseScope l b name = i.setWidth 64 := by
  obtain ⟨t, ht, hlen, hplain, hb⟩ := h.text
  have hne := setWidth_ne_zero hi
  have hprint : (inetNtop6 l b (i.setWidth 64)).1 = some (t ++ '%' :: name) := by
    simp [inetNtop6, ht, hne, hs]
  have hparse := inetPton6_of_scope l name hplain hlen.le
  constructor
  · rintro ⟨s, hprint', hparse'⟩
    obtain rfl : t ++ '%' :: name = s := by
      rw [hprint] at hprint'
      exact Option.some.inj hprint'
    rw [hparse, hb] at hparse'
    exact (Prod.mk.inj (Option.some.inj hparse')).2
  · intro hscope
    refine ⟨_, hprint, ?_⟩
    rw [hparse, hb, Option.map_some, hscope]

theorem survives_of_named (h : l.Inverse b) (hlocal : isLinkLocal b = true)
    (hname : l.ifIndexToName i = some name) (hi : i ≠ 0) : SurvivesText l b i := by
  have hs : scopeText l b (i.setWidth 64) = '%' :: name := by
    simp [scopeText, hlocal, hname]
  exact (survives_iff_of_scopeText h hi hs).mpr (parseScope_of_named h hlocal hname hi)

/-- A number that is no `int` does not come back, whatever `atoi` makes of it. -/
theorem survives_iff_of_unnamed (h : l.Inverse b) (hi : i ≠ 0)
    (hunnamed : isLinkLocal b = true → l.ifIndexToName i = none) :
    SurvivesText l b i ↔ i.toNat < 2 ^ 31 := by
  have hs : scopeText l b (i.setWidth 64) = '%' :: formatUnsigned i.toNat := by
    have hval : (i.setWidth 64).toNat = i.toNat := by
      rw [BitVec.toNat_setWidth]
      omega
    by_cases hlocal : isLinkLocal b = true
    · simp [scopeText, hlocal, hunnamed hlocal, hval]
    · simp [scopeText, hlocal, hval]
  rw [survives_iff_of_scopeText h hi hs,
    parseScope_of_isNumeral h (formatUnsigned_isNumeral i.toNat)]
  constructor
  · exact lt_of_signExtend_eq
  · intro hlt
    rw [atoi_formatUnsigned l hlt, BitVec.ofNat_toNat, BitVec.setWidth_eq]
    exact signExtend_of_lt hlt

/-- A scope id survives the text if and only if it is an `int`, or the address
is link-local and the scope id names an interface. -/
theorem survives_iff (l : Libc) (b : BytesV6) (h : l.Inverse b) (i : BitVec 32) :
    SurvivesText l b i ↔
      i.toNat < 2 ^ 31 ∨ (isLinkLocal b = true ∧ ∃ n, l.ifIndexToName i = some n) := by
  by_cases hi : i = 0
  · subst hi
    exact iff_of_true (survives_zero h) (.inl (by decide))
  by_cases hnamed : isLinkLocal b = true ∧ ∃ n, l.ifIndexToName i = some n
  · obtain ⟨hlocal, n, hname⟩ := hnamed
    simp [survives_of_named h hlocal hname hi, hlocal, hname]
  · have hunnamed : isLinkLocal b = true → l.ifIndexToName i = none := by
      intro hlocal
      rw [Option.eq_none_iff_forall_ne_some]
      exact fun n hn => hnamed ⟨hlocal, n, hn⟩
    rw [survives_iff_of_unnamed h hi hunnamed, or_iff_left hnamed]

-- ---------------------------------------------------------------------------
-- A link-local and a global address
-- ---------------------------------------------------------------------------

def linkLocal : BytesV6 := #v[0xfe, 0x80, 0, 0, 0, 0, 0, 0, 0, 0, 0, 0, 0, 0, 0, 1]

def documentation : BytesV6 := #v[0x20, 0x01, 0x0d, 0xb8, 0, 0, 0, 0, 0, 0, 0, 0, 0, 0, 0, 1]

/-- A C library that knows two IPv6 addresses and one interface, and keeps the
low bits of a number that is no `int`. -/
def libcScopes : Libc := { libcV4 with
  inetNtop6 := fun bytes =>
    if bytes = linkLocal then (some "fe80::1".toList, 0)
    else if bytes = documentation then (some "2001:db8::1".toList, 0) else (none, 97)
  inetPton6 := fun src =>
    if src = "fe80::1".toList then (some linkLocal, 0)
    else if src = "2001:db8::1".toList then (some documentation, 0) else (none, 0)
  ifIndexToName := fun index => if index = 2 then some "eth0".toList else none
  ifNameToIndex := fun name => if name = "eth0".toList then 2 else 0
  atoiOverflow := fun s => .ofInt 32 (parseInt s) }

theorem libcScopes_inverse {b : BytesV6} (h : b = linkLocal ∨ b = documentation) :
    libcScopes.Inverse b where
  text := by
    obtain rfl | rfl := h
    · exact ⟨"fe80::1".toList, by decide⟩
    · exact ⟨"2001:db8::1".toList, by decide⟩
  named j n hn := by
    simp only [libcScopes, Option.ite_none_right_eq_some, Option.some.injEq] at hn
    obtain ⟨rfl, rfl⟩ := hn
    rfl
  unnamed n hn := by
    have hne : n ≠ "eth0".toList := by
      rintro rfl
      exact hn 2 rfl
    exact if_neg hne
  notNumeral j n hn := by
    simp only [libcScopes, Option.ite_none_right_eq_some, Option.some.injEq] at hn
    obtain ⟨-, rfl⟩ := hn
    intro hnum
    exact absurd (hnum.2 'e' (by decide)) (by decide)

theorem survives_linkLocal : SurvivesText libcScopes linkLocal 2 :=
  (survives_iff libcScopes linkLocal (libcScopes_inverse (.inl rfl)) 2).mpr (.inl (by decide))

/-- `2 ^ 31` is printed, and read as an `int`. -/
theorem overflow_not_survives :
    libcScopes.Inverse documentation ∧
    (inetNtop6 libcScopes documentation 0x80000000).1 =
      some "2001:db8::1%2147483648".toList ∧
    (inetPton6 libcScopes "2001:db8::1%2147483648".toList).1 =
      some (documentation, 0xffffffff80000000) ∧
    ¬ SurvivesText libcScopes documentation 0x80000000 := by
  have hprint : (inetNtop6 libcScopes documentation 0x80000000).1 =
      some "2001:db8::1%2147483648".toList := by
    decide
  have hparse : (inetPton6 libcScopes "2001:db8::1%2147483648".toList).1 =
      some (documentation, 0xffffffff80000000) := by
    decide
  refine ⟨libcScopes_inverse (.inr rfl), hprint, hparse, ?_⟩
  rintro ⟨s, hs, hb⟩
  obtain rfl : "2001:db8::1%2147483648".toList = s := Option.some.inj (hprint.symm.trans hs)
  rw [hparse] at hb
  exact absurd hb (by decide)

end BoostAsio.Ip
