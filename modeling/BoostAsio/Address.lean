import BoostAsio.Descriptor
import Mathlib.Data.Nat.Digits.Defs

/-!
# Internet addresses and their text

`ip::address` and the functions of `socket_ops` that print and parse one. What
the C library answers is a parameter (`Libc`): a text or null, bytes or
failure, and the `errno` that the call leaves, which was cleared before. C
strings are lists of characters.

`to_string` passes the text to `throw_error` as the flag, so it throws whenever
there is a text, and constructs a `std::string` from null where there is none:
it never returns (`toString_not_ok`). Parsing loses addresses, too: every text
of an IPv6 address gives the address `::` (`makeAddressV6_fst`).
-/

namespace BoostAsio.Ip

/-- A C string, without its terminator. -/
abbrev Text := List Char

abbrev BytesV4 := Vector UInt8 4
abbrev BytesV6 := Vector UInt8 16

def invalidArgument : ErrorCode := 22

def maxAddrV6StrLen : Nat := 256

structure Libc where
  inetNtop4 : BytesV4 → Option Text × ErrorCode
  inetNtop6 : BytesV6 → Option Text × ErrorCode
  inetPton4 : Text → Option BytesV4 × ErrorCode
  inetPton6 : Text → Option BytesV6 × ErrorCode
  ifIndexToName : BitVec 32 → Option Text
  /-- 0 where there is no such interface -/
  ifNameToIndex : Text → BitVec 32
  /-- what `atoi` makes of a number that is no `int` -/
  atoiOverflow : Text → BitVec 32

/-- An `ip::address`: the member that `type_` selects. -/
inductive Address
  | v4 (bytes : BytesV4)
  | v6 (bytes : BytesV6) (scopeId : BitVec 64)
  deriving DecidableEq

def addressV4 : Address := .v4 (.replicate 4 0)
def addressV6 : Address := .v6 (.replicate 16 0) 0

-- ---------------------------------------------------------------------------
-- socket_ops
-- ---------------------------------------------------------------------------

/-- `sprintf(s, "%lu", n)` -/
def formatUnsigned (n : Nat) : Text :=
  if n = 0 then ['0'] else ((Nat.digits 10 n).map fun d => Char.ofNat (d + '0'.toNat)).reverse

def parseDigits (s : Text) : Nat :=
  (s.takeWhile Char.isDigit).foldl (fun n c => 10 * n + (c.toNat - '0'.toNat)) 0

/-- The number at the start of a text. -/
def parseInt (s : Text) : Int :=
  match s.dropWhile fun c => [' ', '\t', '\n', '\x0b', '\x0c', '\r'].contains c with
  | '-' :: s => -(parseDigits s)
  | '+' :: s => parseDigits s
  | s => parseDigits s

/-- `atoi`, which leaves it open what it returns for a number that is no
`int`. -/
def atoi (l : Libc) (s : Text) : BitVec 32 :=
  if -2 ^ 31 ≤ parseInt s ∧ parseInt s < 2 ^ 31 then .ofInt 32 (parseInt s) else l.atoiOverflow s

def isLinkLocal (bytes : BytesV6) : Bool :=
  (bytes[0] == 0xfe && bytes[1] &&& 0xc0 == 0x80) || (bytes[0] == 0xff && bytes[1] &&& 0x0f == 0x02)

/-- `error_wrapper`, and the error that stands for a failure without one. -/
def wrapError (failed : Bool) (errno : ErrorCode) : ErrorCode :=
  if failed && errno == 0 then invalidArgument else errno

def inetNtop4 (l : Libc) (bytes : BytesV4) : Option Text × ErrorCode :=
  let (result, errno) := l.inetNtop4 bytes
  (result, wrapError result.isNone errno)

/-- What `strcat` appends for a scope id other than 0. -/
def scopeText (l : Libc) (bytes : BytesV6) (scopeId : BitVec 64) : Text :=
  let name := if isLinkLocal bytes then l.ifIndexToName (scopeId.setWidth 32) else none
  '%' :: name.getD (formatUnsigned scopeId.toNat)

def inetNtop6 (l : Libc) (bytes : BytesV6) (scopeId : BitVec 64) : Option Text × ErrorCode :=
  let (result, errno) := l.inetNtop6 bytes
  (result.map fun s => if scopeId ≠ 0 then s ++ scopeText l bytes scopeId else s,
    wrapError result.isNone errno)

def inetPton4 (l : Libc) (src : Text) : Option BytesV4 × ErrorCode :=
  let (result, errno) := l.inetPton4 src
  (result, wrapError result.isNone errno)

/-- `*scope_id` of the name behind the `%`. -/
def parseScope (l : Libc) (bytes : BytesV6) (ifName : Text) : BitVec 64 :=
  let index := if isLinkLocal bytes then (l.ifNameToIndex ifName).setWidth 64 else 0
  if index = 0 then (atoi l ifName).signExtend 64 else index

def inetPton6 (l : Libc) (src : Text) : Option (BytesV6 × BitVec 64) × ErrorCode :=
  let addr := src.takeWhile (· != '%')
  match src.dropWhile (· != '%') with
  | _ :: ifName =>
    if maxAddrV6StrLen < addr.length then (none, invalidArgument)
    else
      let (result, errno) := l.inetPton6 addr
      (result.map fun bytes => (bytes, parseScope l bytes ifName), wrapError result.isNone errno)
  | [] =>
    let (result, errno) := l.inetPton6 src
    (result.map fun bytes => (bytes, 0), wrapError result.isNone errno)

-- ---------------------------------------------------------------------------
-- address, address_v4, address_v6
-- ---------------------------------------------------------------------------

inductive Failure
  | thrown (ec : ErrorCode)
  | nullString
  /-- control reaches the end of a function that is to return a value -/
  | noReturn
  deriving DecidableEq

def Failure.throwError (flag : Bool) (ec : ErrorCode) : Except Failure Unit :=
  if flag then throw (.thrown ec) else pure ()

/-- The end of both `to_string`: the pointer that `inet_ntop` returned is the
flag of `throw_error`. -/
def textOf (addr : Option Text) (ec : ErrorCode) : Except Failure Text := do
  Failure.throwError addr.isSome ec
  match addr with
  | some s => pure s
  | none => throw .nullString

def toString (l : Libc) : Address → Except Failure Text
  | .v4 bytes =>
    let (addr, ec) := inetNtop4 l bytes
    textOf addr ec
  | .v6 bytes scopeId =>
    let (addr, ec) := inetNtop6 l bytes scopeId
    textOf addr ec

/-- The address, and `ec` after the call. -/
def makeAddressV4 (l : Libc) (str : Text) : Address × ErrorCode :=
  let (bytes, ec) := inetPton4 l str
  (bytes.elim addressV4 .v4, ec)

/-- `make_address_v6`, which returns `address_v6()` on both of its ways. -/
def makeAddressV6 (l : Libc) (ip : Text) : Address × ErrorCode :=
  let (bytes, ec) := inetPton6 l ip
  (bytes.elim addressV6 fun _ => addressV6, ec)

def makeAddress (l : Libc) (ip : Text) : Address × ErrorCode :=
  let (addr, ec) := makeAddressV4 l ip
  if ec = 0 then (addr, ec)
  else
    let (addr, ec) := makeAddressV6 l ip
    if ec = 0 then (addr, ec) else (addressV4, ec)

-- ---------------------------------------------------------------------------
-- The round trip
-- ---------------------------------------------------------------------------

variable (l : Libc)

theorem textOf_not_ok (addr : Option Text) (ec : ErrorCode) (s : Text) :
    textOf addr ec ≠ .ok s := by
  cases addr with
  | some t =>
    intro h
    cases h
  | none =>
    intro h
    cases h

theorem toString_not_ok (a : Address) (s : Text) : toString l a ≠ .ok s := by
  cases a with
  | v4 bytes => exact textOf_not_ok _ _ s
  | v6 bytes scopeId => exact textOf_not_ok _ _ s

/-- Whatever the text says, it is not the address that comes out. -/
theorem makeAddressV6_fst (ip : Text) : (makeAddressV6 l ip).1 = addressV6 := by
  simp only [makeAddressV6]
  cases (inetPton6 l ip).1 <;> rfl

/-- `to_string` returns a text that `make_address` parses to the same address,
without an error. -/
def RoundTrip (a : Address) : Prop :=
  ∃ s, toString l a = .ok s ∧ makeAddress l s = (a, 0)

theorem not_roundTrip (a : Address) : ¬ RoundTrip l a := by
  rintro ⟨s, hs, -⟩
  exact toString_not_ok l a s hs

-- ---------------------------------------------------------------------------
-- A loopback address
-- ---------------------------------------------------------------------------

def formatV4 (bytes : BytesV4) : Text :=
  ['.'].intercalate (bytes.toList.map fun b => formatUnsigned b.toNat)

def parseV4 (src : Text) : Option BytesV4 :=
  let parts := src.splitOn '.'
  let octet (s : Text) : Bool := !s.isEmpty && s.all Char.isDigit && parseDigits s < 256
  match parts.map fun s => UInt8.ofNat (parseDigits s) with
  | [a, b, c, d] => if parts.all octet then some #v[a, b, c, d] else none
  | _ => none

/-- A C library without IPv6 and without interfaces. -/
def libcV4 : Libc where
  inetNtop4 bytes := (some (formatV4 bytes), 0)
  inetNtop6 _ := (none, 97)
  inetPton4 src := (parseV4 src, 0)
  inetPton6 _ := (none, 97)
  ifIndexToName _ := none
  ifNameToIndex _ := 0
  atoiOverflow _ := 0

def loopback : Address := .v4 #v[127, 0, 0, 1]

example : makeAddress libcV4 "127.0.0.1".toList = (loopback, 0) := by decide

/-- The text is printed, and the `error_code` of that success is thrown. -/
theorem loopback_throws :
    inetNtop4 libcV4 #v[127, 0, 0, 1] = (some "127.0.0.1".toList, 0) ∧
    toString libcV4 loopback = .error (.thrown 0) ∧ ¬ RoundTrip libcV4 loopback := by
  refine ⟨by decide, by decide, ?_⟩
  rintro ⟨s, hs, -⟩
  exact toString_not_ok libcV4 loopback s hs

end BoostAsio.Ip
