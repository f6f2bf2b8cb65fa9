import BoostAsio.ScopeIds
import BoostAsio.Lib.CStrings

/-!
# The buffers of address texts

`inet_ntop` and `inet_pton` with the arrays that they write: `dest`, the
`if_name` that is appended to it and the `src_buf` that takes the address in
front of a `%`. A write past the end of one stops the function with its name.

No write does (`buffers_fit`), and the functions are then those on texts
(`inetNtopInto_eq`, `inetPtonFrom_eq`). Both bounds are tight: `if_name` is full
with 20 digits, and `src_buf` with the longest text that is let through.
-/

namespace BoostAsio.Ip

inductive InAddr
  | v4 (bytes : BytesV4)
  | v6 (bytes : BytesV6)

inductive Family
  | inet
  | inet6
  deriving DecidableEq

inductive Buffer
  | dest
  | ifName
  | srcBuf
  deriving DecidableEq

def Buffer.checked {α : Type} (buffer : Buffer) : Option α → Except Buffer α
  | some a => .ok a
  | none => .error buffer

/-- The C library, with the characters that it stores at the buffer it is
given, also where it fails. -/
structure StoringLibc extends Libc where
  storesV4 : BytesV4 → List Char
  storesV6 : BytesV6 → List Char
  storesName : BitVec 32 → List Char

def ifNameSize : Nat := 16

abbrev IfName := CharArray ((if ifNameSize > 21 then ifNameSize else 21) + 1)

abbrev SrcBuf := CharArray (maxAddrV6StrLen + 1)

-- ---------------------------------------------------------------------------
-- socket_ops
-- ---------------------------------------------------------------------------

/-- `sprintf(if_name + 1, "%lu", scope_id)` -/
def printScope (ifName : IfName) (scopeId : BitVec 64) : Except Buffer IfName :=
  Buffer.ifName.checked (ifName.store 1 (formatUnsigned scopeId.toNat ++ ['\x00']))

/-- What `inet_ntop` makes of `if_name`, which is "%" first. -/
def fillIfName (l : StoringLibc) (bytes : BytesV6) (scopeId : BitVec 64) :
    Except Buffer IfName := do
  let ifName := CharArray.ofText _ ['%'] (by decide)
  if isLinkLocal bytes then
    let index := scopeId.setWidth 32
    let ifName ← Buffer.ifName.checked (ifName.store 1 (l.storesName index))
    if (l.ifIndexToName index).isNone then printScope ifName scopeId else pure ifName
  else printScope ifName scopeId

/-- Whether `inet_ntop` returns `dest`, then `dest` and `ec`. -/
def inetNtopInto {n : Nat} (l : StoringLibc) (src : InAddr) (dest : CharArray n)
    (scopeId : BitVec 64) : Except Buffer (Bool × CharArray n × ErrorCode) := do
  match src with
  | .v4 bytes =>
    let (result, errno) := l.inetNtop4 bytes
    let dest ← Buffer.dest.checked (dest.store 0 (l.storesV4 bytes))
    pure (result.isSome, dest, wrapError result.isNone errno)
  | .v6 bytes =>
    let (result, errno) := l.inetNtop6 bytes
    let dest ← Buffer.dest.checked (dest.store 0 (l.storesV6 bytes))
    if result.isSome && scopeId ≠ 0 then
      let ifName ← fillIfName l bytes scopeId
      let dest ← Buffer.dest.checked (dest.strcat ifName.cString)
      pure (true, dest, wrapError false errno)
    else pure (result.isSome, dest, wrapError result.isNone errno)

/-- The address that `inet_pton` stores if it succeeds, and `ec`. -/
def inetPtonFrom (l : Libc) (af : Family) (src : Text) (srcBuf : SrcBuf) :
    Except Buffer (Option Address × ErrorCode) := do
  match af with
  | .inet =>
    let (result, errno) := l.inetPton4 src
    pure (result.map .v4, wrapError result.isNone errno)
  | .inet6 =>
    let len := (src.takeWhile (· != '%')).length
    match src.dropWhile (· != '%') with
    | _ :: ifName =>
      if maxAddrV6StrLen < len then pure (none, invalidArgument)
      else
        let srcBuf ← Buffer.srcBuf.checked (srcBuf.store 0 (src.take len))
        let srcBuf ← Buffer.srcBuf.checked (srcBuf.store len ['\x00'])
        let (result, errno) := l.inetPton6 srcBuf.cString
        pure (result.map fun bytes => .v6 bytes (parseScope l bytes ifName),
          wrapError result.isNone errno)
    | [] =>
      let (result, errno) := l.inetPton6 src
      pure (result.map fun bytes => .v6 bytes 0, wrapError result.isNone errno)

/-- How much the C library stores, and that what it stores begins with its
text. -/
structure StoringLibc.Stores (l : StoringLibc) : Prop where
  lengthV4 : ∀ b, (l.storesV4 b).length ≤ 46
  lengthV6 : ∀ b, (l.storesV6 b).length ≤ 46
  lengthName : ∀ j, (l.storesName j).length ≤ ifNameSize
  textV4 : ∀ b t, (l.inetNtop4 b).1 = some t → '\x00' ∉ t ∧ t ++ ['\x00'] <+: l.storesV4 b
  textV6 : ∀ b t, (l.inetNtop6 b).1 = some t → '\x00' ∉ t ∧ t ++ ['\x00'] <+: l.storesV6 b
  textName : ∀ j n, l.ifIndexToName j = some n → '\x00' ∉ n ∧ n ++ ['\x00'] <+: l.storesName j

@[simp] theorem Buffer.checked_some {α : Type} (buffer : Buffer) (a : α) :
    buffer.checked (some a) = .ok a := rfl

@[simp] theorem Buffer.ok_bind {α β : Type} (a : α) (f : α → Except Buffer β) :
    (Except.ok a >>= f) = f a := rfl

theorem Buffer.bind_ne_error {α β : Type} {buffer : Buffer} {x : Except Buffer α}
    {f : α → Except Buffer β} (hx : x ≠ .error buffer) (hf : ∀ a, f a ≠ .error buffer) :
    (x >>= f) ≠ .error buffer := by
  cases x with
  | ok a => exact hf a
  | error other =>
    intro h
    cases h
    exact hx rfl

-- ---------------------------------------------------------------------------
-- if_name
-- ---------------------------------------------------------------------------

variable {l : StoringLibc}

theorem text_length_lt {t : Text} {stored : List Char} {k : Nat}
    (hbegins : t ++ ['\x00'] <+: stored) (hlen : stored.length ≤ k) : t.length < k := by
  have hle := hbegins.length_le
  rw [List.length_append, List.length_singleton] at hle
  omega

theorem digits_length_le (scopeId : BitVec 64) : (formatUnsigned scopeId.toNat).length ≤ 20 :=
  formatUnsigned_length_le (by decide) (Nat.lt_trans scopeId.isLt (by decide))

example : (formatUnsigned (-1 : BitVec 64).toNat).length = 20 := by
  rw [formatUnsigned_eq_toDigits]
  decide

theorem scopeText_length_le (hl : l.Stores) (bytes : BytesV6) (scopeId : BitVec 64) :
    (scopeText l.toLibc bytes scopeId).length ≤ 21 := by
  have hdigits := digits_length_le scopeId
  rw [scopeText, List.length_cons]
  by_cases hlocal : isLinkLocal bytes = true
  · rw [if_pos hlocal]
    cases hname : l.ifIndexToName (scopeId.setWidth 32) with
    | none => exact Nat.succ_le_succ hdigits
    | some name =>
      have hlen := text_length_lt (hl.textName _ _ hname).2 (hl.lengthName _)
      rw [ifNameSize] at hlen
      rw [Option.getD_some]
      omega
  · rw [if_neg hlocal]
    exact Nat.succ_le_succ hdigits

/-- The digits of an `unsigned long` and the terminator fill `if_name`. -/
theorem printScope_eq (scopeId : BitVec 64) {ifName : IfName}
    (hpercent : ifName.chars.take 1 = ['%']) :
    ∃ ifName', printScope ifName scopeId = .ok ifName' ∧
      ifName'.cString = '%' :: formatUnsigned scopeId.toNat := by
  have hlen := digits_length_le scopeId
  have hfits : 1 + (formatUnsigned scopeId.toNat ++ ['\x00']).length ≤ 22 := by
    rw [List.length_append, List.length_singleton]
    omega
  obtain ⟨ifName', hstore⟩ := ifName.exists_store hfits
  refine ⟨ifName', by simp [printScope, hstore], ?_⟩
  have hdigits : '\x00' ∉ formatUnsigned scopeId.toNat := by
    intro hmem
    exact absurd ((formatUnsigned_isNumeral _).2 _ hmem) (by decide)
  rw [CharArray.cString_store hstore hdigits (by simp [hpercent]), hpercent]
  rfl

/-- `if_name` takes what it gets, and is then the text of the scope id. -/
theorem fillIfName_eq (hl : l.Stores) (bytes : BytesV6) (scopeId : BitVec 64) :
    ∃ ifName, fillIfName l bytes scopeId = .ok ifName ∧
      ifName.cString = scopeText l.toLibc bytes scopeId := by
  have hfirst : (CharArray.ofText _ ['%'] (by decide) : IfName).chars.take 1 = ['%'] := rfl
  by_cases hlocal : isLinkLocal bytes = true
  · have hlen := hl.lengthName (scopeId.setWidth 32)
    have hfits : 1 + (l.storesName (scopeId.setWidth 32)).length ≤ 22 := by
      rw [ifNameSize] at hlen
      omega
    obtain ⟨ifName, hstore⟩ := CharArray.exists_store
      (CharArray.ofText _ ['%'] (by decide) : IfName) hfits
    cases hname : l.ifIndexToName (scopeId.setWidth 32) with
    | none =>
      have hpercent := (CharArray.take_store hstore (Nat.le_refl 1)).trans hfirst
      obtain ⟨ifName', hprint, htext⟩ := printScope_eq scopeId hpercent
      refine ⟨ifName', ?_, ?_⟩
      · simp [fillIfName, hlocal, hstore, hname, hprint]
      · rw [htext, scopeText, if_pos hlocal, hname, Option.getD_none]
    | some name =>
      obtain ⟨hplain, rest, hrest⟩ := hl.textName _ _ hname
      refine ⟨ifName, ?_, ?_⟩
      · simp [fillIfName, hlocal, hstore, hname]
      · rw [← hrest, List.append_assoc] at hstore
        rw [CharArray.cString_store hstore hplain (by simp [hfirst]), hfirst, scopeText,
          if_pos hlocal, hname, Option.getD_some]
        rfl
  · obtain ⟨ifName, hprint, htext⟩ := printScope_eq scopeId hfirst
    refine ⟨ifName, ?_, ?_⟩
    · simp [fillIfName, hlocal, hprint]
    · rw [htext, scopeText, if_neg hlocal, Option.getD_none]

-- ---------------------------------------------------------------------------
-- dest
-- ---------------------------------------------------------------------------

/-- `inet_ntop` on texts. -/
def inetNtop (l : Libc) (src : InAddr) (scopeId : BitVec 64) : Option Text × ErrorCode :=
  match src with
  | .v4 bytes => inetNtop4 l bytes
  | .v6 bytes => inetNtop6 l bytes scopeId

/-- A text that the C library stores is the C string of `dest`. -/
theorem store_text {n : Nat} {dest dest' : CharArray n} {stored : List Char} {t : Text}
    (hstore : dest.store 0 stored = some dest') (hplain : '\x00' ∉ t)
    (hbegins : t ++ ['\x00'] <+: stored) : dest'.cString = t := by
  obtain ⟨rest, rfl⟩ := hbegins
  rw [List.append_assoc] at hstore
  rw [CharArray.cString_store hstore hplain (by simp), List.take_zero, List.nil_append]

theorem inetNtopInto_v4 (hl : l.Stores) {n : Nat} (hn : 46 ≤ n) (bytes : BytesV4)
    (dest : CharArray n) (scopeId : BitVec 64) :
    ∃ dest', inetNtopInto l (.v4 bytes) dest scopeId =
        .ok ((inetNtop4 l.toLibc bytes).1.isSome, dest', (inetNtop4 l.toLibc bytes).2) ∧
      ∀ t, (inetNtop4 l.toLibc bytes).1 = some t → dest'.cString = t := by
  have hlen := hl.lengthV4 bytes
  have hfits : 0 + (l.storesV4 bytes).length ≤ n := by omega
  obtain ⟨dest', hstore⟩ := dest.exists_store hfits
  refine ⟨dest', by simp [inetNtopInto, inetNtop4, hstore], fun t ht => ?_⟩
  obtain ⟨hplain, hbegins⟩ := hl.textV4 bytes t ht
  exact store_text hstore hplain hbegins

/-- `strcat` is the only write that needs more than the 46 characters of the C
library. -/
theorem inetNtopInto_v6 (hl : l.Stores) {n : Nat} (hn : 67 ≤ n) (bytes : BytesV6)
    (dest : CharArray n) (scopeId : BitVec 64) :
    ∃ dest', inetNtopInto l (.v6 bytes) dest scopeId =
        .ok ((inetNtop6 l.toLibc bytes scopeId).1.isSome, dest',
          (inetNtop6 l.toLibc bytes scopeId).2) ∧
      ∀ t, (inetNtop6 l.toLibc bytes scopeId).1 = some t → dest'.cString = t := by
  have hlen := hl.lengthV6 bytes
  have hfits : 0 + (l.storesV6 bytes).length ≤ n := by omega
  obtain ⟨dest', hstore⟩ := dest.exists_store hfits
  cases hresult : (l.inetNtop6 bytes).1 with
  | none =>
    refine ⟨dest', by simp [inetNtopInto, inetNtop6, hstore, hresult], fun t ht => ?_⟩
    simp [inetNtop6, hresult] at ht
  | some addr =>
    obtain ⟨hplain, hbegins⟩ := hl.textV6 bytes addr hresult
    have haddr := store_text hstore hplain hbegins
    by_cases hzero : scopeId = 0#64
    · refine ⟨dest', by simp [inetNtopInto, inetNtop6, hstore, hresult, hzero],
        fun t ht => ?_⟩
      simp only [inetNtop6, hresult, hzero, Option.map_some] at ht
      exact haddr.trans (Option.some.inj ht)
    · obtain ⟨ifName, hfill, htext⟩ := fillIfName_eq hl bytes scopeId
      have haddrLen := text_length_lt hbegins hlen
      have hscopeLen := scopeText_length_le hl bytes scopeId
      have hcatFits : dest'.cString.length + ifName.cString.length < n := by
        rw [haddr, htext]
        omega
      obtain ⟨dest'', hcat⟩ := dest'.exists_strcat hcatFits
      refine ⟨dest'', by simp [inetNtopInto, inetNtop6, hstore, hresult, hzero, hfill, hcat],
        fun t ht => ?_⟩
      have hscope : scopeId ≠ 0 := hzero
      simp only [inetNtop6, hresult, Option.map_some, if_pos hscope] at ht
      rw [CharArray.cString_strcat hcat ifName.not_mem_cString, haddr, htext]
      exact Option.some.inj ht

/-- With 67 characters in `dest`, `inet_ntop` leaves its text there: 45 of an
address, 21 of a scope id and the terminator. -/
theorem inetNtopInto_eq (hl : l.Stores) {n : Nat} (hn : 67 ≤ n) (src : InAddr)
    (dest : CharArray n) (scopeId : BitVec 64) :
    ∃ dest', inetNtopInto l src dest scopeId =
        .ok ((inetNtop l.toLibc src scopeId).1.isSome, dest', (inetNtop l.toLibc src scopeId).2) ∧
      ∀ t, (inetNtop l.toLibc src scopeId).1 = some t → dest'.cString = t := by
  cases src with
  | v4 bytes => exact inetNtopInto_v4 hl (by omega) bytes dest scopeId
  | v6 bytes => exact inetNtopInto_v6 hl hn bytes dest scopeId

/-- Whatever the size of `dest`, `if_name` takes what it gets. -/
theorem inetNtopInto_ne_ifName (hl : l.Stores) {n : Nat} (src : InAddr) (dest : CharArray n)
    (scopeId : BitVec 64) : inetNtopInto l src dest scopeId ≠ .error .ifName := by
  have hdest : ∀ o : Option (CharArray n), Buffer.dest.checked o ≠ .error .ifName := by
    rintro (_ | _) h <;> cases h
  cases src with
  | v4 bytes => exact Buffer.bind_ne_error (hdest _) fun dest' h => by cases h
  | v6 bytes =>
    refine Buffer.bind_ne_error (hdest _) fun dest' => ?_
    split
    · obtain ⟨ifName, hfill, -⟩ := fillIfName_eq hl bytes scopeId
      rw [hfill, Buffer.ok_bind]
      exact Buffer.bind_ne_error (hdest _) fun dest'' h => by cases h
    · intro h
      cases h

-- ---------------------------------------------------------------------------
-- src_buf
-- ---------------------------------------------------------------------------

/-- `inet_pton` on texts. -/
def inetPton (l : Libc) (af : Family) (src : Text) : Option Address × ErrorCode :=
  match af with
  | .inet =>
    let (result, ec) := inetPton4 l src
    (result.map .v4, ec)
  | .inet6 =>
    let (result, ec) := inetPton6 l src
    (result.map fun (bytes, scopeId) => .v6 bytes scopeId, ec)

/-- The text in front of the `%` and the terminator are stored in `src_buf`. -/
theorem exists_srcBuf (srcBuf : SrcBuf) {addr : Text} (hlen : addr.length ≤ maxAddrV6StrLen) :
    ∃ srcBuf' srcBuf'', srcBuf.store 0 addr = some srcBuf' ∧
      srcBuf'.store addr.length ['\x00'] = some srcBuf'' ∧
      ('\x00' ∉ addr → srcBuf''.cString = addr) := by
  have hcopyFits : 0 + addr.length ≤ maxAddrV6StrLen + 1 := by omega
  obtain ⟨srcBuf', hcopy⟩ := srcBuf.exists_store hcopyFits
  have hendFits : addr.length + ['\x00'].length ≤ maxAddrV6StrLen + 1 := Nat.succ_le_succ hlen
  obtain ⟨srcBuf'', hend⟩ := srcBuf'.exists_store hendFits
  refine ⟨srcBuf', srcBuf'', hcopy, hend, fun hplain => ?_⟩
  have hfront : srcBuf'.chars.take addr.length = addr := by
    rw [CharArray.chars_store hcopy]
    simp
  rw [CharArray.cString_store (s := []) hend (by simp) (by rwa [hfront]), hfront, List.append_nil]

/-- The text in front of the `%` fits into `src_buf` where it is let through,
and `inet_pton` goes on with it. -/
theorem inetPtonFrom_eq (l : Libc) (af : Family) (src : Text) (srcBuf : SrcBuf) :
    ∃ r, inetPtonFrom l af src srcBuf = .ok r ∧ ('\x00' ∉ src → r = inetPton l af src) := by
  cases af with
  | inet => exact ⟨_, rfl, fun _ => rfl⟩
  | inet6 =>
    cases hrest : src.dropWhile (· != '%') with
    | nil =>
      refine ⟨((l.inetPton6 src).1.map fun bytes => .v6 bytes 0,
        wrapError (l.inetPton6 src).1.isNone (l.inetPton6 src).2), ?_, fun _ => ?_⟩
      · simp only [inetPtonFrom, hrest]
        rfl
      · simp only [inetPton, inetPton6, hrest, Option.map_map]
        rfl
    | cons percent ifName =>
      by_cases hlong : maxAddrV6StrLen < (src.takeWhile (· != '%')).length
      · refine ⟨(none, invalidArgument), ?_, fun _ => ?_⟩
        · simp only [inetPtonFrom, hrest, if_pos hlong]
          rfl
        · simp only [inetPton, inetPton6, hrest, if_pos hlong, Option.map_none]
      · obtain ⟨srcBuf', srcBuf'', hcopy, hend, htext⟩ :=
          exists_srcBuf srcBuf (Nat.not_lt.mp hlong)
        have haddr : src.take (src.takeWhile (· != '%')).length = src.takeWhile (· != '%') :=
          (List.prefix_iff_eq_take.mp (List.takeWhile_prefix _)).symm
        refine ⟨((l.inetPton6 srcBuf''.cString).1.map fun bytes =>
            .v6 bytes (parseScope l bytes ifName),
          wrapError (l.inetPton6 srcBuf''.cString).1.isNone (l.inetPton6 srcBuf''.cString).2), ?_,
          fun hplain => ?_⟩
        · simp only [inetPtonFrom, hrest, if_neg hlong, haddr, hcopy, hend, Buffer.checked_some,
            Buffer.ok_bind]
          rfl
        · have hfront : '\x00' ∉ src.takeWhile (· != '%') := by
            intro hmem
            exact hplain ((List.takeWhile_prefix _).subset hmem)
          simp only [inetPton, inetPton6, hrest, if_neg hlong, htext hfront, Option.map_map]
          rfl

-- ---------------------------------------------------------------------------
-- Every write
-- ---------------------------------------------------------------------------

/-- No write goes past the end of `src_buf` or `if_name`, nor of a `dest` of
`max_addr_v6_str_len` characters. -/
theorem buffers_fit (l : StoringLibc) (hl : l.Stores) :
    (∀ af src srcBuf, ∃ r, inetPtonFrom l.toLibc af src srcBuf = .ok r) ∧
    (∀ n src (dest : CharArray n) scopeId,
      inetNtopInto l src dest scopeId ≠ .error .ifName) ∧
    (∀ src (dest : CharArray maxAddrV6StrLen) scopeId,
      ∃ r, inetNtopInto l src dest scopeId = .ok r) := by
  refine ⟨fun af src srcBuf => ?_, fun n src dest scopeId => ?_, fun src dest scopeId => ?_⟩
  · obtain ⟨r, hr, -⟩ := inetPtonFrom_eq l.toLibc af src srcBuf
    exact ⟨r, hr⟩
  · exact inetNtopInto_ne_ifName hl src dest scopeId
  · obtain ⟨dest', hr, -⟩ := inetNtopInto_eq hl (by decide : 67 ≤ maxAddrV6StrLen) src dest scopeId
    exact ⟨_, hr⟩

/-- What is stored of a text, with its terminator, or of none. -/
def storesText (t : Option Text) : List Char := t.elim [] (· ++ ['\x00'])

/-- A C library that knows three addresses and one interface. -/
def libcStoring : StoringLibc where
  toLibc := { libcScopes with
    inetNtop4 := fun bytes =>
      (if bytes.toList = [127, 0, 0, 1] then some "127.0.0.1".toList else none, 0) }
  storesV4 bytes :=
    storesText (if bytes.toList = [127, 0, 0, 1] then some "127.0.0.1".toList else none)
  storesV6 bytes := storesText (libcScopes.inetNtop6 bytes).1
  storesName index := storesText (libcScopes.ifIndexToName index)

theorem libcScopes_text6 (b : BytesV6) : (libcScopes.inetNtop6 b).1 ∈
    [none, some "fe80::1".toList, some "2001:db8::1".toList] := by
  simp only [libcScopes]
  split
  · simp
  · split <;> simp

theorem libcStoring_stores : libcStoring.Stores where
  lengthV4 b := by
    simp only [libcStoring]
    split <;> decide
  lengthV6 b := by
    have hall : ∀ t ∈ [none, some "fe80::1".toList, some "2001:db8::1".toList],
        (storesText t).length ≤ 46 := by
      decide
    exact hall _ (libcScopes_text6 b)
  lengthName j := by
    simp only [libcStoring, libcScopes]
    split <;> decide
  textV4 b t ht := by
    simp only [libcStoring, Option.ite_none_right_eq_some, Option.some.injEq] at ht ⊢
    obtain ⟨hb, rfl⟩ := ht
    rw [if_pos hb]
    exact ⟨by decide, List.prefix_rfl⟩
  textV6 b t ht := by
    have hplain : ∀ o ∈ [none, some "fe80::1".toList, some "2001:db8::1".toList],
        ∀ t ∈ o, '\x00' ∉ t := by
      decide
    have hstored : libcStoring.storesV6 b = t ++ ['\x00'] := congrArg storesText ht
    rw [hstored]
    exact ⟨hplain _ (libcScopes_text6 b) t ht, List.prefix_rfl⟩
  textName j n hn := by
    simp only [libcStoring, libcScopes, Option.ite_none_right_eq_some, Option.some.injEq] at hn
    obtain ⟨rfl, rfl⟩ := hn
    exact ⟨by decide, List.prefix_rfl⟩

/-- The scope id is a name and then the longest number. -/
theorem buffers_fit_linkLocal :
    (∃ r, inetNtopInto libcStoring (.v6 linkLocal)
      (CharArray.ofText maxAddrV6StrLen [] (by decide)) 2 = .ok r) ∧
    ∃ r, inetNtopInto libcStoring (.v6 linkLocal)
      (CharArray.ofText maxAddrV6StrLen [] (by decide)) (-1) = .ok r := by
  have h := (buffers_fit libcStoring libcStoring_stores).2.2 (.v6 linkLocal)
  exact ⟨h _ 2, h _ (-1)⟩

end BoostAsio.Ip
