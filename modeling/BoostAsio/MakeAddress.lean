import BoostAsio.Address

/-!
# Parsing an address

`make_address` tries the IPv4 parser and then the IPv6 parser, and translates
their results twice. It gives what they accept but for one thing: a text of an
IPv6 address other than `::` gives `::` (`parses_iff`).
-/

namespace BoostAsio.Ip

/-- `make_address(ip)`, which throws the error of the other overload. -/
def makeAddressThrowing (l : Libc) (ip : Text) : Except Failure Address := do
  let (addr, ec) := makeAddress l ip
  Failure.throwError (ec ≠ 0) ec
  pure addr

/-- `inet_pton` of the C library leaves `errno` alone where it succeeds. -/
structure Libc.KeepsErrno (l : Libc) : Prop where
  v4 : ∀ s b, (l.inetPton4 s).1 = some b → (l.inetPton4 s).2 = 0
  v6 : ∀ s b, (l.inetPton6 s).1 = some b → (l.inetPton6 s).2 = 0

/-- What `make_address` should make of a text. -/
structure Parses (l : Libc) (s : Text) : Prop where
  v4 : ∀ b, (inetPton4 l s).1 = some b → makeAddress l s = (.v4 b, 0)
  v6 : (inetPton4 l s).1 = none → ∀ b i, (inetPton6 l s).1 = some (b, i) →
    makeAddress l s = (.v6 b i, 0)
  refused : (inetPton4 l s).1 = none → (inetPton6 l s).1 = none →
    (makeAddress l s).1 = addressV4 ∧ (makeAddress l s).2 ≠ 0 ∧
      ∃ ec, makeAddressThrowing l s = .error (.thrown ec)
  throwing : ∀ a, makeAddressThrowing l s = .ok a → a = (makeAddress l s).1

variable {l : Libc} {s : Text}

theorem wrapError_failed (errno : ErrorCode) : wrapError true errno ≠ 0 := by
  simp only [wrapError, Bool.true_and, beq_iff_eq]
  split
  · decide
  · assumption

-- ---------------------------------------------------------------------------
-- The two parsers
-- ---------------------------------------------------------------------------

theorem inetPton4_ec : (inetPton4 l s).1 = none → (inetPton4 l s).2 ≠ 0 := by
  intro h
  have hnone : (l.inetPton4 s).1 = none := h
  simp only [inetPton4, hnone, Option.isNone_none]
  exact wrapError_failed _

theorem inetPton4_ec_of_some (hl : l.KeepsErrno) {b : BytesV4} (h : (inetPton4 l s).1 = some b) :
    (inetPton4 l s).2 = 0 := by
  have hsome : (l.inetPton4 s).1 = some b := h
  simp [inetPton4, hsome, wrapError, hl.v4 s b hsome]

theorem inetPton6_ec (h : (inetPton6 l s).1 = none) : (inetPton6 l s).2 ≠ 0 := by
  revert h
  simp only [inetPton6]
  split
  · split
    · intro _
      decide
    · intro h
      rw [Option.map_eq_none_iff] at h
      rw [h]
      exact wrapError_failed _
  · intro h
    rw [Option.map_eq_none_iff] at h
    rw [h]
    exact wrapError_failed _

theorem inetPton6_ec_of_some (hl : l.KeepsErrno) {r : BytesV6 × BitVec 64}
    (h : (inetPton6 l s).1 = some r) : (inetPton6 l s).2 = 0 := by
  revert h
  simp only [inetPton6]
  split
  · split
    · intro h
      cases h
    · intro h
      obtain ⟨b, hb, -⟩ := Option.map_eq_some_iff.mp h
      simp [wrapError, hb, hl.v6 _ b hb]
  · intro h
    obtain ⟨b, hb, -⟩ := Option.map_eq_some_iff.mp h
    simp [wrapError, hb, hl.v6 _ b hb]

-- ---------------------------------------------------------------------------
-- make_address
-- ---------------------------------------------------------------------------

theorem makeAddress_of_v4 (hl : l.KeepsErrno) {b : BytesV4} (h : (inetPton4 l s).1 = some b) :
    makeAddress l s = (.v4 b, 0) := by
  simp [makeAddress, makeAddressV4, h, inetPton4_ec_of_some hl h]

/-- The bytes and the scope id that were parsed are dropped. -/
theorem makeAddress_of_v6 (hl : l.KeepsErrno) (h4 : (inetPton4 l s).1 = none)
    {r : BytesV6 × BitVec 64} (h : (inetPton6 l s).1 = some r) :
    makeAddress l s = (addressV6, 0) := by
  simp [makeAddress, makeAddressV4, makeAddressV6, inetPton4_ec h4, h, inetPton6_ec_of_some hl h]

theorem makeAddress_of_refused (h4 : (inetPton4 l s).1 = none) (h6 : (inetPton6 l s).1 = none) :
    makeAddress l s = (addressV4, (inetPton6 l s).2) := by
  simp [makeAddress, makeAddressV4, makeAddressV6, inetPton4_ec h4, h6, inetPton6_ec h6]

theorem makeAddressThrowing_eq : makeAddressThrowing l s =
    if (makeAddress l s).2 = 0 then .ok (makeAddress l s).1
    else .error (.thrown (makeAddress l s).2) := by
  simp only [makeAddressThrowing, Failure.throwError, decide_not, Bool.not_eq_true',
    decide_eq_false_iff_not]
  by_cases hec : (makeAddress l s).2 = 0
  · simp [hec]
    rfl
  · simp [hec]
    rfl

/-- `make_address` gives what the parsers accept if and only if it is not an
IPv6 address other than `::`. -/
theorem parses_iff (l : Libc) (hl : l.KeepsErrno) (s : Text) :
    Parses l s ↔ ((inetPton4 l s).1 = none → ∀ b i, (inetPton6 l s).1 = some (b, i) →
      b = .replicate 16 0 ∧ i = 0) := by
  constructor
  · intro h h4 b i h6
    have hv6 := h.v6 h4 b i h6
    rw [makeAddress_of_v6 hl h4 h6] at hv6
    cases hv6
    exact ⟨rfl, rfl⟩
  · intro h
    refine ⟨fun b hb => makeAddress_of_v4 hl hb, fun h4 b i h6 => ?_, fun h4 h6 => ?_,
      fun a ha => ?_⟩
    · obtain ⟨rfl, rfl⟩ := h h4 b i h6
      exact makeAddress_of_v6 hl h4 h6
    · have hec := inetPton6_ec h6
      rw [makeAddressThrowing_eq, makeAddress_of_refused h4 h6]
      exact ⟨rfl, hec, _, if_neg hec⟩
    · rw [makeAddressThrowing_eq] at ha
      split at ha
      · cases ha
        rfl
      · cases ha

theorem libcV4_keepsErrno : libcV4.KeepsErrno where
  v4 _ _ _ := rfl
  v6 _ _ h := by cases h

theorem parses_loopback : Parses libcV4 "127.0.0.1".toList :=
  (parses_iff libcV4 libcV4_keepsErrno "127.0.0.1".toList).mpr fun h => absurd h (by decide)

/-- A C library that knows the text of one IPv6 address. -/
def libcV6 : Libc := { libcV4 with
  inetPton6 := fun src =>
    (if src = "::1".toList then some #v[0, 0, 0, 0, 0, 0, 0, 0, 0, 0, 0, 0, 0, 0, 0, 1] else none,
      0) }

theorem loopbackV6_dropped :
    makeAddress libcV6 "::1".toList = (addressV6, 0) ∧ ¬ Parses libcV6 "::1".toList := by
  have hdropped : makeAddress libcV6 "::1".toList = (addressV6, 0) := by decide
  refine ⟨hdropped, fun h => ?_⟩
  have hparsed := h.v6 (by decide) _ _ rfl
  rw [hdropped] at hparsed
  exact absurd hparsed (by decide)

end BoostAsio.Ip
