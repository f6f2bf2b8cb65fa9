import BoostAsio.AddressBytes
import BoostAsio.Lib.Memory
import Mathlib.Data.List.Induction

/-!
# Endpoints

`ip::detail::endpoint` keeps an address and a port in a union of two socket
address layouts, which is a memory of 28 bytes here: the family is at offset 0
and the port at offset 2 in both layouts.

Two slips keep an endpoint from holding the address it was given: the
constructor overwrites an IPv4 address with `INADDR_ANY`, and gets the bytes of
an IPv6 address from `address_v6::to_bytes`, which returns nothing. The setter of
the address goes through the constructor. So an endpoint holds what it was given
if and only if no address was IPv6 and the last one was 0.0.0.0 (`holds_iff`).
-/

namespace BoostAsio.Ip

def afInet : BitVec 16 := 2
def afInet6 : BitVec 16 := 10

def inaddrAny : BitVec 32 := 0

def badAddress : ErrorCode := 14

def Address.isV4 : Address → Bool
  | v4 _ => true
  | v6 .. => false

def Address.toV4 : Address → Except Failure AddressV4
  | v4 bytes => pure ⟨bytes⟩
  | v6 .. => throw (.thrown badAddress)

def Address.toV6 : Address → Except Failure AddressV6
  | v4 _ => throw (.thrown badAddress)
  | v6 bytes scopeId => pure ⟨bytes, scopeId⟩

abbrev Endpoint := Vector UInt8 28

namespace Endpoint

variable (o : ByteOrder)

-- The offsets of `sa_family`, of the members of `sockaddr_in` and of those of
-- `sockaddr_in6`.
def saFamily : Nat := 0
def sinPort : Nat := 2
def sinAddr : Nat := 4
def sin6Port : Nat := 2
def sin6Flowinfo : Nat := 4
def sin6Addr : Nat := 8
def sin6ScopeId : Nat := 24

def setShort (d : Endpoint) (off : Nat) (value : BitVec 16) : Endpoint :=
  Memory.write d off (o.store 2 value)

def setLong (d : Endpoint) (off : Nat) (value : BitVec 32) : Endpoint :=
  Memory.write d off (o.store 4 value)

def getShort (d : Endpoint) (off : Nat) (h : off + 2 ≤ 28) : BitVec 16 :=
  o.load (Memory.read d off 2 h)

def getLong (d : Endpoint) (off : Nat) (h : off + 4 ≤ 28) : BitVec 32 :=
  o.load (Memory.read d off 4 h)

/-- `endpoint()`; `d` is what the memory held. -/
def new (d : Endpoint) : Endpoint :=
  let d := setShort o d saFamily afInet
  let d := setShort o d sinPort 0
  setLong o d sinAddr inaddrAny

def ofFamily (d : Endpoint) (family : BitVec 32) (port : BitVec 16) : Endpoint :=
  if family = afInet.setWidth 32 then
    let d := setShort o d saFamily afInet
    let d := setShort o d sinPort (hostToNetworkShort o port)
    setLong o d sinAddr inaddrAny
  else
    let d := setShort o d saFamily afInet6
    let d := setShort o d sin6Port (hostToNetworkShort o port)
    let d := setLong o d sin6Flowinfo 0
    let d := Memory.write d sin6Addr (Vector.replicate 16 0)
    setLong o d sin6ScopeId 0

/-- `endpoint(addr, port)` -/
def ofAddress (d : Endpoint) (addr : Address) (port : BitVec 16) : Except Failure Endpoint :=
  if addr.isV4 then do
    let d := setShort o d saFamily afInet
    let d := setShort o d sinPort (hostToNetworkShort o port)
    let ipv4 ← addr.toV4
    let d := setLong o d sinAddr (hostToNetworkLong o (ipv4.toUint o))
    pure (setLong o d sinAddr inaddrAny)
  else do
    let d := setShort o d saFamily afInet6
    let d := setShort o d sin6Port (hostToNetworkShort o port)
    let d := setLong o d sin6Flowinfo 0
    let ipv6 ← addr.toV6
    let bytes ← ipv6.toBytes
    let d := Memory.write d sin6Addr bytes
    pure (setLong o d sin6ScopeId (ipv6.scopeId.setWidth 32))

def isV4 (d : Endpoint) : Bool := getShort o d saFamily (by decide) == afInet

def port (d : Endpoint) : BitVec 16 :=
  networkToHostShort o
    (if isV4 o d then getShort o d sinPort (by decide) else getShort o d sin6Port (by decide))

def setPort (d : Endpoint) (port : BitVec 16) : Endpoint :=
  let value := hostToNetworkShort o port
  if isV4 o d then setShort o d sinPort value else setShort o d sin6Port value

def address (d : Endpoint) : Address :=
  if isV4 o d then
    .v4 (AddressV4.ofUint o (networkToHostLong o (getLong o d sinAddr (by decide)))).addr
  else
    let a := AddressV6.ofBytes (Memory.read d sin6Addr 16 (by decide))
      ((getLong o d sin6ScopeId (by decide)).setWidth 64)
    .v6 a.addr a.scopeId

/-- `address(addr)`; `tmp` is what the memory of the temporary held. -/
def setAddress (d tmp : Endpoint) (addr : Address) : Except Failure Endpoint :=
  ofAddress o tmp addr (port o d)

-- ---------------------------------------------------------------------------
-- The members of the union
-- ---------------------------------------------------------------------------

section Members

variable {o} {d : Endpoint} {off pos k : Nat} {value : BitVec 16} {word : BitVec 32}
  {field : Vector UInt8 k}

theorem getShort_setShort (h : off + 2 ≤ 28) :
    getShort o (setShort o d off value) off h = value := by
  rw [getShort, setShort, Memory.read_write]
  exact ByteOrder.load_store (n := 2) o value

theorem getLong_setLong (h : off + 4 ≤ 28) : getLong o (setLong o d off word) off h = word := by
  rw [getLong, setLong, Memory.read_write]
  exact ByteOrder.load_store (n := 4) o word

theorem getShort_write (h : pos + 2 ≤ 28) (hd : pos + 2 ≤ off ∨ off + k ≤ pos) :
    getShort o (Memory.write d off field) pos h = getShort o d pos h := by
  rw [getShort, Memory.read_write_of_disjoint d field h hd, getShort]

theorem getLong_write (h : pos + 4 ≤ 28) (hd : pos + 4 ≤ off ∨ off + k ≤ pos) :
    getLong o (Memory.write d off field) pos h = getLong o d pos h := by
  rw [getLong, Memory.read_write_of_disjoint d field h hd, getLong]

theorem getShort_setShort_ne (h : pos + 2 ≤ 28) (hd : pos + 2 ≤ off ∨ off + 2 ≤ pos) :
    getShort o (setShort o d off value) pos h = getShort o d pos h := getShort_write h hd

theorem getShort_setLong (h : pos + 2 ≤ 28) (hd : pos + 2 ≤ off ∨ off + 4 ≤ pos) :
    getShort o (setLong o d off word) pos h = getShort o d pos h := getShort_write h hd

theorem getLong_setShort (h : pos + 4 ≤ 28) (hd : pos + 4 ≤ off ∨ off + 2 ≤ pos) :
    getLong o (setShort o d off value) pos h = getLong o d pos h := getLong_write h hd

end Members

-- ---------------------------------------------------------------------------
-- What an endpoint holds
-- ---------------------------------------------------------------------------

structure Holds (d : Endpoint) (a : Address) (p : BitVec 16) : Prop where
  address : address o d = a
  port : port o d = p
  isV4 : isV4 o d = a.isV4

theorem networkToHostShort_hostToNetworkShort (value : BitVec 16) :
    networkToHostShort o (hostToNetworkShort o value) = value :=
  ByteOrder.fromNetwork_toNetwork (n := 2) o value

theorem addr_ofUint_networkToHostLong (word : BitVec 32) :
    (AddressV4.ofUint o (networkToHostLong o word)).addr = o.store 4 word := by
  rw [AddressV4.ofUint, hostToNetworkLong, networkToHostLong]
  exact congrArg (o.store 4) (ByteOrder.toNetwork_fromNetwork (n := 4) o word)

/-- The constructors of an IPv4 endpoint write these members. -/
theorem holds_v4 (d : Endpoint) (value : BitVec 16) (word : BitVec 32) :
    Holds o (setLong o (setShort o (setShort o d saFamily afInet) sinPort value) sinAddr word)
      (.v4 (o.store 4 word)) (networkToHostShort o value) := by
  have hv4 : isV4 o (setLong o (setShort o (setShort o d saFamily afInet) sinPort value) sinAddr
      word) = true := by
    rw [isV4, getShort_setLong _ (by decide), getShort_setShort_ne _ (by decide), getShort_setShort]
    decide
  refine ⟨?_, ?_, hv4⟩
  · rw [address, if_pos hv4, getLong_setLong, addr_ofUint_networkToHostLong]
  · rw [port, if_pos hv4, getShort_setLong _ (by decide), getShort_setShort]

theorem store_inaddrAny : Address.v4 (o.store 4 inaddrAny) = addressV4 := by
  cases o <;> decide +kernel

theorem networkToHostShort_zero : networkToHostShort o 0 = 0 := by
  cases o <;> decide +kernel

theorem holds_new (d : Endpoint) : Holds o (new o d) addressV4 0 := by
  have h := holds_v4 o d 0 inaddrAny
  rw [store_inaddrAny, networkToHostShort_zero] at h
  exact h

/-- The IPv6 branch of the constructor from a family. -/
theorem holds_v6 (d : Endpoint) {family : BitVec 32} (hf : family ≠ afInet.setWidth 32)
    (p : BitVec 16) : Holds o (ofFamily o d family p) addressV6 p := by
  simp only [ofFamily, if_neg hf]
  generalize hd : setShort o (setShort o d saFamily afInet6) sin6Port (hostToNetworkShort o p) = e
  have hfamily : getShort o e saFamily (by decide) = afInet6 := by
    rw [← hd, getShort_setShort_ne _ (by decide), getShort_setShort]
  have hport : getShort o e sin6Port (by decide) = hostToNetworkShort o p := by
    rw [← hd, getShort_setShort]
  have hv4 : isV4 o (setLong o (Memory.write (setLong o e sin6Flowinfo 0) sin6Addr
      (Vector.replicate 16 0)) sin6ScopeId 0) = false := by
    rw [isV4, getShort_setLong _ (by decide), getShort_write _ (by decide),
      getShort_setLong _ (by decide), hfamily]
    decide
  refine ⟨?_, ?_, hv4⟩
  · rw [address, hv4, getLong_setLong]
    simp only [Bool.false_eq_true, if_false, setLong]
    rw [Memory.read_write_of_disjoint _ _ _ (by decide), Memory.read_write]
    rfl
  · rw [port, hv4, getShort_setLong _ (by decide), getShort_setLong _ (by decide),
      getShort_write _ (by decide), getShort_write _ (by decide), getShort_setLong _ (by decide),
      getShort_setLong _ (by decide), hport]
    simp [networkToHostShort_hostToNetworkShort]

theorem holds_ofFamily_v4 (d : Endpoint) (p : BitVec 16) :
    Holds o (ofFamily o d (afInet.setWidth 32) p) addressV4 p := by
  have h := holds_v4 o d (hostToNetworkShort o p) inaddrAny
  rw [store_inaddrAny, networkToHostShort_hostToNetworkShort] at h
  exact h

/-- Whatever IPv4 address the constructor is given, it is 0.0.0.0 that the
endpoint holds. -/
theorem ofAddress_v4 (d : Endpoint) {a : Address} (ha : a.isV4 = true) (p : BitVec 16) :
    ∃ d', ofAddress o d a p = .ok d' ∧ Holds o d' addressV4 p := by
  cases a with
  | v4 bytes =>
    refine ⟨_, rfl, ?_⟩
    have h := holds_v4 o d (hostToNetworkShort o p) inaddrAny
    rw [store_inaddrAny, networkToHostShort_hostToNetworkShort] at h
    simp only [setLong, Memory.write_write]
    exact h
  | v6 => cases ha

theorem ofAddress_v6 (d : Endpoint) {a : Address} (ha : a.isV4 = false) (p : BitVec 16) :
    ofAddress o d a p = .error .noReturn := by
  cases a with
  | v4 => cases ha
  | v6 bytes scopeId => rfl

variable {o}

theorem Holds.setPort {d : Endpoint} {a : Address} {p : BitVec 16} (h : Holds o d a p)
    (q : BitVec 16) : Holds o (setPort o d q) a q := by
  have hset : Endpoint.setPort o d q = setShort o d sinPort (hostToNetworkShort o q) := by
    rw [Endpoint.setPort, sin6Port, sinPort, ite_self]
  have hv4 : Endpoint.isV4 o (setShort o d sinPort (hostToNetworkShort o q)) =
      Endpoint.isV4 o d := by
    rw [Endpoint.isV4, getShort_setShort_ne _ (by decide), Endpoint.isV4]
  rw [hset]
  refine ⟨?_, ?_, hv4.trans h.isV4⟩
  · rw [← h.address, Endpoint.address, Endpoint.address, hv4, getLong_setShort _ (by decide),
      getLong_setShort _ (by decide), setShort, Memory.read_write_of_disjoint _ _ _ (by decide)]
  · have hsame : sin6Port = sinPort := rfl
    rw [Endpoint.port]
    simp only [hsame, ite_self]
    rw [getShort_setShort, networkToHostShort_hostToNetworkShort]

theorem Holds.setAddress {d : Endpoint} {a : Address} {p : BitVec 16} (h : Holds o d a p)
    (tmp : Endpoint) {b : Address} (hb : b.isV4 = true) :
    ∃ d', setAddress o d tmp b = .ok d' ∧ Holds o d' addressV4 p := by
  rw [Endpoint.setAddress, h.port]
  exact ofAddress_v4 o tmp hb p

-- ---------------------------------------------------------------------------
-- Updates
-- ---------------------------------------------------------------------------

inductive Construction
  | new
  | ofFamily (family : BitVec 32) (port : BitVec 16)
  | ofAddress (addr : Address) (port : BitVec 16)

inductive Update
  /-- `tmp` is what the memory of the temporary held -/
  | address (tmp : Endpoint) (addr : Address)
  | port (port : BitVec 16)

variable (o) in
def construct (d : Endpoint) : Construction → Except Failure Endpoint
  | .new => pure (new o d)
  | .ofFamily family port => pure (ofFamily o d family port)
  | .ofAddress addr port => ofAddress o d addr port

variable (o) in
def update (d : Endpoint) : Update → Except Failure Endpoint
  | .address tmp addr => setAddress o d tmp addr
  | .port port => pure (Endpoint.setPort o d port)

def run (o : ByteOrder) (d : Endpoint) (c : Construction) (us : List Update) :
    Except Failure Endpoint :=
  construct o d c >>= fun d => us.foldlM (update o) d

def Construction.given : Construction → List Address
  | .new | .ofFamily .. => []
  | .ofAddress addr _ => [addr]

def Update.given : Update → List Address
  | .address _ addr => [addr]
  | .port _ => []

def given (c : Construction) (us : List Update) : List Address := c.given ++ us.flatMap Update.given

def Construction.unset : Construction → Address
  | .new | .ofAddress .. => addressV4
  | .ofFamily family _ => if family = afInet.setWidth 32 then addressV4 else addressV6

def Construction.port : Construction → BitVec 16
  | .new => 0
  | .ofFamily _ p | .ofAddress _ p => p

def Update.ports : Update → List (BitVec 16)
  | .address .. => []
  | .port p => [p]

def lastAddress (c : Construction) (us : List Update) : Address :=
  (given c us).getLast?.getD c.unset

def lastPort (c : Construction) (us : List Update) : BitVec 16 :=
  (us.flatMap Update.ports).getLast?.getD c.port

@[simp] theorem given_concat (c : Construction) (us : List Update) (u : Update) :
    given c (us ++ [u]) = given c us ++ u.given := by
  simp [given]

theorem run_concat (d : Endpoint) (c : Construction) (us : List Update) (u : Update) :
    run o d c (us ++ [u]) = run o d c us >>= fun d => update o d u := by
  simp [run, bind_assoc]

/-- Without IPv6 the endpoint holds 0.0.0.0 as soon as it was given an address. -/
theorem run_v4 (d : Endpoint) (c : Construction) (us : List Update)
    (h : ∀ a ∈ given c us, a.isV4 = true) :
    ∃ d', run o d c us = .ok d' ∧
      Holds o d' (if given c us = [] then c.unset else addressV4) (lastPort c us) := by
  induction us using List.reverseRecOn with
  | nil =>
    cases c with
    | new => exact ⟨_, rfl, holds_new o d⟩
    | ofFamily family p =>
      refine ⟨_, rfl, ?_⟩
      by_cases hf : family = afInet.setWidth 32
      · simpa [given, Construction.given, Construction.unset, lastPort, Construction.port, hf] using
          holds_ofFamily_v4 o d p
      · simpa [given, Construction.given, Construction.unset, lastPort, Construction.port, hf] using
          holds_v6 o d hf p
    | ofAddress addr p =>
      obtain ⟨d', hd, hholds⟩ := ofAddress_v4 o d (h addr (by simp [given, Construction.given])) p
      exact ⟨d', by simpa [run, construct] using hd, hholds⟩
  | append_singleton us u ih =>
    obtain ⟨d', hd, hholds⟩ := ih fun a ha => h a (by simp [ha])
    rw [run_concat, hd]
    cases u with
    | address tmp addr =>
      obtain ⟨d'', hset, hholds'⟩ := hholds.setAddress tmp (h addr (by simp [Update.given]))
      refine ⟨d'', hset, ?_⟩
      simpa [Update.given, lastPort, Update.ports] using hholds'
    | port p =>
      refine ⟨_, rfl, ?_⟩
      simpa [Update.given, lastPort, Update.ports] using hholds.setPort p

/-- With IPv6 no endpoint comes out. -/
theorem run_v6 (d : Endpoint) (c : Construction) (us : List Update) {a : Address}
    (ha : a ∈ given c us) (hv6 : a.isV4 = false) (d' : Endpoint) : run o d c us ≠ .ok d' := by
  induction us using List.reverseRecOn generalizing d' with
  | nil =>
    cases c with
    | new => simp [given, Construction.given] at ha
    | ofFamily family p => simp [given, Construction.given] at ha
    | ofAddress addr p =>
      obtain rfl : a = addr := by simpa [given, Construction.given] using ha
      intro h
      simp only [run, construct, ofAddress_v6 o d hv6 p] at h
      cases h
  | append_singleton us u ih =>
    rw [run_concat]
    rw [given_concat, List.mem_append] at ha
    intro h
    rcases ha with ha | ha
    · cases hr : run o d c us with
      | ok e => exact ih ha e hr
      | error e =>
        rw [hr] at h
        cases h
    · cases u with
      | port p => simp [Update.given] at ha
      | address tmp addr =>
        obtain rfl : a = addr := by simpa [Update.given] using ha
        cases hr : run o d c us with
        | ok e =>
          rw [hr] at h
          have hset : setAddress o e tmp a = .ok d' := h
          rw [Endpoint.setAddress, ofAddress_v6 o tmp hv6] at hset
          cases hset
        | error e =>
          rw [hr] at h
          cases h

/-- An endpoint holds the last address and the last port it was given if and
only if it was given no IPv6 address, and 0.0.0.0 as the last one. -/
theorem holds_iff (o : ByteOrder) (d : Endpoint) (c : Construction) (us : List Update) :
    (∃ d', run o d c us = .ok d' ∧ Holds o d' (lastAddress c us) (lastPort c us)) ↔
      (∀ a ∈ given c us, a.isV4 = true) ∧
        ∀ a, (given c us).getLast? = some a → a = addressV4 := by
  constructor
  · rintro ⟨d', hrun, hholds⟩
    have hv4 (a : Address) (ha : a ∈ given c us) : a.isV4 = true := by
      by_contra hv6
      exact run_v6 d c us ha (by simpa using hv6) d' hrun
    refine ⟨hv4, fun a ha => ?_⟩
    obtain ⟨e, he, hstored⟩ := run_v4 (o := o) d c us hv4
    obtain rfl : d' = e := Except.ok.inj (hrun.symm.trans he)
    have hne : given c us ≠ [] := by
      intro hnil
      simp [hnil] at ha
    rw [if_neg hne] at hstored
    have hlast : lastAddress c us = a := by simp [lastAddress, ha]
    rw [← hlast, ← hholds.address, hstored.address]
  · rintro ⟨hv4, hlast⟩
    obtain ⟨d', hrun, hholds⟩ := run_v4 (o := o) d c us hv4
    refine ⟨d', hrun, ?_⟩
    have hstored : (if given c us = [] then c.unset else addressV4) = lastAddress c us := by
      rw [lastAddress]
      cases hg : (given c us).getLast? with
      | none => rw [if_pos (List.getLast?_eq_none_iff.mp hg), Option.getD_none]
      | some a =>
        have hne : given c us ≠ [] := by
          intro hnil
          simp [hnil] at hg
        rw [if_neg hne, Option.getD_some, hlast a hg]
    rwa [← hstored]

/-- An endpoint for port 80 of 127.0.0.1. -/
theorem loopback_not_held :
    ¬ ∃ d', run .little (.replicate 28 0) (.ofAddress loopback 80) [] = .ok d' ∧
      Holds .little d' loopback 80 := by
  rintro ⟨d', hrun, hholds⟩
  cases hrun
  exact absurd hholds.address (by decide +kernel)

end Endpoint

end BoostAsio.Ip
