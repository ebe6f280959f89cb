import Mathlib.Data.BitVec
import Mathlib.Tactic.IntervalCases
import RocketMQClient.Library.ByteOrder

/-!
# Socket addresses and 64-bit byte order

An IPv4 socket address holds its port and its address as integers in network order, so that their
bytes in memory are the most significant byte of the port first and the address as it is written.
`swapll` is the source's own reversal of the bytes of a 64-bit integer, which it leaves out on a
big-endian host: it is the conversion between host and network order (`toNat_swapll`).
-/

set_option autoImplicit false
set_option relaxedAutoImplicit false

namespace RocketMQClient.Transport

open Library

/-- An IPv4 socket address, as the integers that the socket library keeps. -/
structure SockAddrIn where
  sinPort : BitVec 16
  sAddr : BitVec 32
  deriving DecidableEq

namespace SockAddrIn

/-- The address with the given four numbers and port. -/
def ofIPv4 (host : ByteOrder) (first second third fourth : Byte) (port : BitVec 16) :
    SockAddrIn where
  sinPort := BitVec.ofNat 16 (host.hostToNetwork 2 port.toNat)
  sAddr := BitVec.ofNat 32 (host.ofMemory [first, second, third, fourth])

/-- The four numbers of the address. -/
def addressBytes (host : ByteOrder) (addr : SockAddrIn) : ByteString :=
  host.toMemory 4 addr.sAddr.toNat

/-- The port. -/
def port (host : ByteOrder) (addr : SockAddrIn) : ℕ := host.networkToHost 2 addr.sinPort.toNat

end SockAddrIn

/-- `ntohl` of the C library. -/
def ntohl (host : ByteOrder) (v : BitVec 32) : BitVec 32 :=
  BitVec.ofNat 32 (host.networkToHost 4 v.toNat)

/-- `htonl` of the C library. -/
def htonl (host : ByteOrder) (v : BitVec 32) : BitVec 32 :=
  BitVec.ofNat 32 (host.hostToNetwork 4 v.toNat)

/-- `ntohs` of the C library. -/
def ntohs (host : ByteOrder) (v : BitVec 16) : BitVec 16 :=
  BitVec.ofNat 16 (host.networkToHost 2 v.toNat)

/-- `htons` of the C library. -/
def htons (host : ByteOrder) (v : BitVec 16) : BitVec 16 :=
  BitVec.ofNat 16 (host.hostToNetwork 2 v.toNat)

/-- Reverses the bytes of an integer on a little-endian host. -/
def swapll (host : ByteOrder) (v : BitVec 64) : BitVec 64 :=
  match host with
  | .big => v
  | .little =>
    (v <<< 56) ||| ((v &&& 0xff00) <<< 40) ||| ((v &&& 0xff0000) <<< 24) |||
      ((v &&& 0xff000000) <<< 8) ||| ((v >>> 8) &&& 0xff000000) ||| ((v >>> 24) &&& 0xff0000) |||
      ((v >>> 40) &&& 0xff00) ||| (v >>> 56)

/-- From host to network order. -/
def h2nll (host : ByteOrder) (v : BitVec 64) : BitVec 64 := swapll host v

/-- From network to host order. -/
def n2hll (host : ByteOrder) (v : BitVec 64) : BitVec 64 := swapll host v

/-- Each byte of the result is the byte on the other side. -/
theorem extractLsb_swapll (v : BitVec 64) {index : ℕ} (hindex : index < 8) :
    (swapll .little v).extractLsb' (8 * index) 8 = v.extractLsb' (8 * (7 - index)) 8 := by
  ext bit hbit
  simp only [swapll, BitVec.getElem_extractLsb', BitVec.getLsbD_or, BitVec.getLsbD_and,
    BitVec.getLsbD_shiftLeft, BitVec.getLsbD_ushiftRight]
  interval_cases index <;> interval_cases bit <;> simp

/-- A byte of the memory of an integer, as a slice of its bits. -/
theorem byte_eq_extractLsb (v : BitVec 64) (index : ℕ) :
    v.toNat / 256 ^ index % 256 = (v.extractLsb' (8 * index) 8).toNat := by
  rw [BitVec.extractLsb'_toNat, Nat.shiftRight_eq_div_pow, Nat.pow_mul]

/-- Eight bytes, each as a quotient. -/
theorem littleEndian_eight (value : ℕ) :
    littleEndian 8 value = (List.range 8).map fun index ↦ Fin.ofNat 256 (value / 256 ^ index) := by
  simp [littleEndian, List.range_succ, Nat.div_div_eq_div_mul]

/-- The bytes of the result are those of the argument in reverse. -/
theorem littleEndian_swapll (v : BitVec 64) :
    littleEndian 8 (swapll .little v).toNat = (littleEndian 8 v.toNat).reverse := by
  have hbyte : ∀ index < 8, (Fin.ofNat 256 ((swapll .little v).toNat / 256 ^ index) : Byte) =
      Fin.ofNat 256 (v.toNat / 256 ^ (7 - index)) := by
    intro index hindex
    apply Fin.ext
    rw [Fin.val_ofNat, Fin.val_ofNat, byte_eq_extractLsb, byte_eq_extractLsb,
      extractLsb_swapll v hindex]
  rw [littleEndian_eight, littleEndian_eight]
  have hrange :
      (List.range 8).map (fun index ↦ (Fin.ofNat 256 (v.toNat / 256 ^ (7 - index)) : Byte)) =
        ((List.range 8).map fun index ↦ Fin.ofNat 256 (v.toNat / 256 ^ index)).reverse := rfl
  rw [← hrange]
  exact List.map_congr_left fun index hindex ↦ hbyte index (List.mem_range.mp hindex)

/-- `swapll` is the conversion between host and network order. -/
theorem toNat_swapll (host : ByteOrder) (v : BitVec 64) :
    (swapll host v).toNat = host.networkToHost 8 v.toNat := by
  have hpow : 256 ^ 8 = 2 ^ 64 := by decide
  cases host with
  | little =>
    show _ = ofBigEndian (littleEndian 8 v.toNat)
    rw [ofBigEndian, ← littleEndian_swapll, ofLittleEndian_littleEndian, hpow,
      Nat.mod_eq_of_lt (swapll .little v).isLt]
  | big =>
    show v.toNat = ofBigEndian (bigEndian 8 v.toNat)
    rw [ofBigEndian_bigEndian, hpow, Nat.mod_eq_of_lt v.isLt]

/-- An integer converted to network order lies in memory most significant byte first. -/
theorem toMemory_h2nll (host : ByteOrder) (v : BitVec 64) :
    host.toMemory 8 (h2nll host v).toNat = bigEndian 8 v.toNat := by
  rw [h2nll, toNat_swapll, host.networkToHost_eq_hostToNetwork, host.toMemory_hostToNetwork]

end RocketMQClient.Transport
