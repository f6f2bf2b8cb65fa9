import BoostAsio.Address
import BoostAsio.Lib.ByteOrder

/-!
# The binary forms of an address

`address_v4` holds the bytes of an address in network order and converts from
and to bytes and a 32-bit integer; `address_v6` holds bytes and a scope id. The
conversions with the integer agree with each other on a host of either byte
order. Both `to_bytes` copy the bytes to a local array and do not return it.
-/

namespace BoostAsio.Ip

def hostToNetworkLong (o : ByteOrder) (value : BitVec 32) : BitVec 32 := o.toNetwork 4 value
def networkToHostLong (o : ByteOrder) (value : BitVec 32) : BitVec 32 := o.fromNetwork 4 value
def hostToNetworkShort (o : ByteOrder) (value : BitVec 16) : BitVec 16 := o.toNetwork 2 value
def networkToHostShort (o : ByteOrder) (value : BitVec 16) : BitVec 16 := o.fromNetwork 2 value

/-- `address_v4`: the memory of `addr_.s_addr`. -/
structure AddressV4 where
  addr : BytesV4
  deriving DecidableEq

namespace AddressV4

def ofBytes (bytes : BytesV4) : AddressV4 := ⟨bytes⟩

def ofUint (o : ByteOrder) (addr : BitVec 32) : AddressV4 := ⟨o.store 4 (hostToNetworkLong o addr)⟩

/-- `to_bytes`, which has no `return`. -/
def toBytes (_ : AddressV4) : Except Failure BytesV4 := throw .noReturn

/-- `to_uint`, which converts with `host_to_network_long`. -/
def toUint (o : ByteOrder) (a : AddressV4) : BitVec 32 := hostToNetworkLong o (o.load a.addr)

end AddressV4

structure AddressV6 where
  addr : BytesV6
  scopeId : BitVec 64
  deriving DecidableEq

namespace AddressV6

def ofBytes (bytes : BytesV6) (scopeId : BitVec 64) : AddressV6 := ⟨bytes, scopeId⟩

/-- `to_bytes`, which has no `return`. -/
def toBytes (_ : AddressV6) : Except Failure BytesV6 := throw .noReturn

end AddressV6

theorem AddressV4.toUint_eq (o : ByteOrder) (a : AddressV4) :
    a.toUint o = Bytes.ofBigEndian a.addr := by
  rw [toUint, hostToNetworkLong, ← o.fromNetwork_eq]
  exact ByteOrder.fromNetwork_load (n := 4) o a.addr

theorem AddressV4.addr_ofUint (o : ByteOrder) (u : BitVec 32) :
    (ofUint o u).addr = Bytes.bigEndian 4 u := by
  rw [ofUint, hostToNetworkLong]
  exact ByteOrder.store_toNetwork (n := 4) o u

theorem AddressV4.toUint_ofUint (o : ByteOrder) (u : BitVec 32) : (ofUint o u).toUint o = u := by
  rw [toUint_eq, addr_ofUint]
  exact Bytes.ofBigEndian_bigEndian (n := 4) u

/-- What the binary forms of addresses should say about each other. -/
structure FormsAgree (o : ByteOrder) (b : BytesV4) (u : BitVec 32) (b6 : BytesV6)
    (s : BitVec 64) : Prop where
  bytes_of_bytes : (AddressV4.ofBytes b).toBytes = .ok b
  uint_of_uint : (AddressV4.ofUint o u).toUint o = u
  uint_of_bytes : (AddressV4.ofBytes b).toUint o = Bytes.ofBigEndian b
  bytes_of_uint : (AddressV4.ofUint o u).toBytes = .ok (Bytes.bigEndian 4 u)
  v6_bytes : (AddressV6.ofBytes b6 s).toBytes = .ok b6
  v6_scope : (AddressV6.ofBytes b6 s).scopeId = s

/-- The forms never agree: whatever goes through an integer or is a scope id is
as it should be, and whatever goes through `to_bytes` is not. -/
theorem forms_never_agree (o : ByteOrder) (b : BytesV4) (u : BitVec 32) (b6 : BytesV6)
    (s : BitVec 64) :
    ¬ FormsAgree o b u b6 s ∧
    ((AddressV4.ofUint o u).toUint o = u ∧
      (AddressV4.ofBytes b).toUint o = Bytes.ofBigEndian b ∧
      (AddressV6.ofBytes b6 s).scopeId = s) ∧
    (AddressV4.ofBytes b).toBytes ≠ .ok b ∧
    (AddressV4.ofUint o u).toBytes ≠ .ok (Bytes.bigEndian 4 u) ∧
    (AddressV6.ofBytes b6 s).toBytes ≠ .ok b6 := by
  refine ⟨fun h => ?_, ⟨AddressV4.toUint_ofUint o u, AddressV4.toUint_eq o _, rfl⟩, ?_, ?_, ?_⟩
  · cases h.bytes_of_bytes
  all_goals
    intro h
    cases h

theorem loopback_forms_disagree :
    ¬ FormsAgree .little #v[127, 0, 0, 1] 0x7f000001 (.replicate 16 0) 0 := by
  intro h
  cases h.bytes_of_bytes

end BoostAsio.Ip
