import RocketMQClient.Library.Hexadecimal
import RocketMQClient.Transport.SocketUtil

/-!
# Message ids

The id of a stored message is the hexadecimal text of sixteen bytes: the address of the broker, its
port in four bytes, and the offset in the commit log. `createMessageId` writes them from the memory
of the host, and `decodeMessageId` reads each part as a number and converts the port and the offset
from network order once more.

On a big-endian host the two are inverse (`decodeMessageId_createMessageId_big`). On a little-endian
host reading the text has already undone the byte order of memory, so the address comes back
reversed, the port is lost, and the offset comes back with its bytes reversed:
`decodeMessageId_createMessageId_iff` says when an id is nevertheless read back as it was.
-/

set_option autoImplicit false
set_option relaxedAutoImplicit false

namespace RocketMQClient.Messages

open Library Transport

/-- The broker that stored a message and the offset in its commit log. -/
structure MessageId where
  address : SockAddrIn
  offset : BitVec 64
  deriving DecidableEq

/-- The bytes of an id, as they are copied from memory. -/
def messageIdBytes (host : ByteOrder) (addr : SockAddrIn) (offset : BitVec 64) : ByteString :=
  let port := host.networkToHost 2 addr.sinPort.toNat
  host.toMemory 4 addr.sAddr.toNat ++ host.toMemory 4 (host.hostToNetwork 4 port) ++
    host.toMemory 8 (h2nll host offset).toNat

/-- The id of the message at an offset of a broker. -/
def createMessageId (host : ByteOrder) (addr : SockAddrIn) (offset : BitVec 64) : ByteString :=
  hexText (messageIdBytes host addr offset)

/-- Reads an id; a text shorter than the position of the offset raises an exception. -/
def decodeMessageId (host : ByteOrder) (msgId : ByteString) : Option MessageId :=
  if msgId.length < 16 then none
  else
    let ipint := BitVec.ofNat 32 (strtoull (msgId.take 8))
    let portint := BitVec.ofNat 32 (strtoull ((msgId.drop 8).take 8))
    let offset := n2hll host (BitVec.ofNat 64 (strtoull (msgId.drop 16)))
    let port := BitVec.ofNat 16 (host.networkToHost 4 portint.toNat)
    some { address := ⟨BitVec.ofNat 16 (host.hostToNetwork 2 port.toNat), ipint⟩, offset := offset }

/-! ### Reading back an id -/

/-- A port fits in two bytes. -/
theorem port_lt (host : ByteOrder) (addr : SockAddrIn) : addr.port host < 65536 :=
  host.networkToHost_lt 2 addr.sinPort.toNat

/-- The three parts of an id. -/
theorem createMessageId_eq (host : ByteOrder) (addr : SockAddrIn) (offset : BitVec 64) :
    createMessageId host addr offset = hexText (addr.addressBytes host) ++
      (hexText (bigEndian 4 (addr.port host)) ++ hexText (bigEndian 8 offset.toNat)) := by
  rw [createMessageId, messageIdBytes, toMemory_h2nll, host.toMemory_hostToNetwork, hexText_append,
    hexText_append, List.append_assoc]
  rfl

/-- What is read from an id: the address from its bytes, most significant first, and the port and
the offset after one more conversion from network order. -/
theorem decodeMessageId_createMessageId (host : ByteOrder) (addr : SockAddrIn)
    (offset : BitVec 64) :
    decodeMessageId host (createMessageId host addr offset) = some
      { address := ⟨BitVec.ofNat 16 (host.hostToNetwork 2
            (BitVec.ofNat 16 (host.networkToHost 4 (addr.port host))).toNat),
          BitVec.ofNat 32 (ofBigEndian (addr.addressBytes host))⟩
        offset := swapll host offset } := by
  have hip : (hexText (addr.addressBytes host)).length = 8 := by
    rw [length_hexText, SockAddrIn.addressBytes, host.length_toMemory]
  have hport : (hexText (bigEndian 4 (addr.port host))).length = 8 := by
    rw [length_hexText, length_bigEndian]
  have hoffset : (hexText (bigEndian 8 offset.toNat)).length = 16 := by
    rw [length_hexText, length_bigEndian]
  have hipValue : strtoull (hexText (addr.addressBytes host)) =
      ofBigEndian (addr.addressBytes host) :=
    strtoull_hexText (by rw [SockAddrIn.addressBytes, host.length_toMemory]; decide)
  have hportValue : strtoull (hexText (bigEndian 4 (addr.port host))) = addr.port host := by
    rw [strtoull_hexText (by rw [length_bigEndian]; decide), ofBigEndian_bigEndian]
    exact Nat.mod_eq_of_lt (lt_trans (port_lt host addr) (by decide))
  have hoffsetValue : strtoull (hexText (bigEndian 8 offset.toNat)) = offset.toNat := by
    rw [strtoull_hexText (by rw [length_bigEndian]), ofBigEndian_bigEndian]
    exact Nat.mod_eq_of_lt offset.isLt
  have hportNat : (BitVec.ofNat 32 (addr.port host)).toNat = addr.port host := by
    rw [BitVec.toNat_ofNat]
    exact Nat.mod_eq_of_lt (lt_trans (port_lt host addr) (by decide))
  unfold decodeMessageId
  rw [createMessageId_eq, if_neg (by simp only [List.length_append]; omega),
    List.take_left' hip, List.drop_left' hip, List.take_left' hport, ← List.append_assoc,
    List.drop_left' (by rw [List.length_append, hip, hport]), hipValue, hportValue, hoffsetValue]
  dsimp only
  rw [hportNat, BitVec.ofNat_toNat, BitVec.setWidth_eq]
  rfl

/-- A value is its own reversal exactly when its bytes read the same both ways. -/
theorem ofBigEndian_eq_ofLittleEndian_iff (bytes : ByteString) :
    ofBigEndian bytes = ofLittleEndian bytes ↔ bytes.reverse = bytes := by
  constructor
  · intro hvalue
    have hreverse := littleEndian_ofLittleEndian bytes.reverse
    rw [← ofBigEndian, hvalue, List.length_reverse, littleEndian_ofLittleEndian] at hreverse
    exact hreverse.symm
  · intro hreverse
    rw [ofBigEndian, hreverse]

/-- The value of an integer of the socket library by its bytes in memory. -/
theorem ofMemory_addressBytes (host : ByteOrder) (addr : SockAddrIn) :
    host.ofMemory (addr.addressBytes host) = addr.sAddr.toNat := by
  rw [SockAddrIn.addressBytes, host.ofMemory_toMemory]
  exact Nat.mod_eq_of_lt addr.sAddr.isLt

/-- The address is read back on a little-endian host. -/
theorem address_read_back_iff (addr : SockAddrIn) :
    BitVec.ofNat 32 (ofBigEndian (addr.addressBytes .little)) = addr.sAddr ↔
      (addr.addressBytes .little).reverse = addr.addressBytes .little := by
  have hlt : ofBigEndian (addr.addressBytes .little) < 2 ^ 32 :=
    ofBigEndian_lt (ByteOrder.length_toMemory .little 4 addr.sAddr.toNat)
  rw [← ofBigEndian_eq_ofLittleEndian_iff, ← BitVec.toNat_inj, BitVec.toNat_ofNat,
    Nat.mod_eq_of_lt hlt, ← ofMemory_addressBytes .little addr]
  rfl

/-- The low half of a port that is converted as a 32-bit integer is 0 on a little-endian host. -/
theorem networkToHost_port_mod {port : ℕ} (hport : port < 65536) :
    ByteOrder.networkToHost .little 4 port % 65536 = 0 := by
  have hhigh : port / 256 / 256 = 0 := by omega
  simp only [ByteOrder.networkToHost, ByteOrder.toMemory, ofBigEndian, littleEndian, hhigh,
    List.reverse_cons, List.reverse_nil, List.nil_append, List.cons_append, ofLittleEndian,
    Fin.val_ofNat]
  omega

/-- The port that is read on a little-endian host is 0. -/
theorem port_read_back_iff (addr : SockAddrIn) :
    BitVec.ofNat 16 (ByteOrder.hostToNetwork .little 2
        (BitVec.ofNat 16 (ByteOrder.networkToHost .little 4 (addr.port .little))).toNat) =
      addr.sinPort ↔ addr.port .little = 0 := by
  have hzero :
      (BitVec.ofNat 16 (ByteOrder.networkToHost .little 4 (addr.port .little))).toNat = 0 :=
    networkToHost_port_mod (port_lt .little addr)
  have hnone : ByteOrder.hostToNetwork .little 2 0 = 0 := by decide
  rw [hzero, hnone, ← BitVec.toNat_inj]
  have hlt := addr.sinPort.isLt
  simp only [SockAddrIn.port, ByteOrder.networkToHost, ByteOrder.toMemory, ofBigEndian,
    littleEndian, List.reverse_cons, List.reverse_nil, List.nil_append, List.cons_append,
    ofLittleEndian, Fin.val_ofNat, BitVec.toNat_ofNat]
  omega

/-- The offset is read back on a little-endian host. -/
theorem offset_read_back_iff (offset : BitVec 64) :
    swapll .little offset = offset ↔
      (bigEndian 8 offset.toNat).reverse = bigEndian 8 offset.toNat := by
  have hvalue : ofLittleEndian (littleEndian 8 offset.toNat) = offset.toNat := by
    rw [ofLittleEndian_littleEndian]
    exact Nat.mod_eq_of_lt offset.isLt
  rw [← BitVec.toNat_inj, toNat_swapll]
  show ofBigEndian (littleEndian 8 offset.toNat) = offset.toNat ↔ _
  rw [bigEndian, List.reverse_reverse, eq_comm (b := (littleEndian 8 offset.toNat).reverse),
    ← ofBigEndian_eq_ofLittleEndian_iff, hvalue]

/-- On a little-endian host an id is read back as the address, port and offset that it was made from
exactly when the address and the offset read the same in both byte orders and the port is 0. -/
theorem decodeMessageId_createMessageId_iff (addr : SockAddrIn) (offset : BitVec 64) :
    decodeMessageId .little (createMessageId .little addr offset) = some ⟨addr, offset⟩ ↔
      (addr.addressBytes .little).reverse = addr.addressBytes .little ∧
        addr.port .little = 0 ∧
        (bigEndian 8 offset.toNat).reverse = bigEndian 8 offset.toNat := by
  rw [decodeMessageId_createMessageId, Option.some.injEq, MessageId.mk.injEq]
  have haddress : ∀ port ip, (⟨port, ip⟩ : SockAddrIn) = addr ↔
      port = addr.sinPort ∧ ip = addr.sAddr := by
    intro port ip
    exact SockAddrIn.mk.injEq port ip addr.sinPort addr.sAddr ▸ Iff.rfl
  rw [haddress, address_read_back_iff, port_read_back_iff, offset_read_back_iff]
  tauto

/-- The id of offset 1 at 10.0.0.1, port 10911, is read back as another address, port and offset. -/
theorem decodeMessageId_of_broker_id :
    decodeMessageId .little (createMessageId .little (SockAddrIn.ofIPv4 .little 10 0 0 1 10911) 1) =
        some ⟨SockAddrIn.ofIPv4 .little 1 0 0 10 0, 72057594037927936⟩ ∧
      decodeMessageId .little
          (createMessageId .little (SockAddrIn.ofIPv4 .little 10 0 0 1 10911) 1) ≠
        some ⟨SockAddrIn.ofIPv4 .little 10 0 0 1 10911, 1⟩ := by
  decide

/-- On a big-endian host every id is read back as it was made. -/
theorem decodeMessageId_createMessageId_big (addr : SockAddrIn) (offset : BitVec 64) :
    decodeMessageId .big (createMessageId .big addr offset) = some ⟨addr, offset⟩ := by
  have hconvert : ∀ count value, value < 256 ^ count →
      ofBigEndian (bigEndian count value) = value := fun count value hvalue ↦ by
    rw [ofBigEndian_bigEndian, Nat.mod_eq_of_lt hvalue]
  have hsin : addr.port .big = addr.sinPort.toNat := hconvert 2 _ addr.sinPort.isLt
  have hport : ByteOrder.networkToHost .big 4 (addr.port .big) = addr.port .big :=
    hconvert 4 _ (lt_trans (port_lt .big addr) (by decide))
  have hsame : ByteOrder.hostToNetwork .big 2 addr.sinPort.toNat = addr.sinPort.toNat :=
    hconvert 2 _ addr.sinPort.isLt
  have hip : ofBigEndian (addr.addressBytes .big) = addr.sAddr.toNat :=
    ofMemory_addressBytes .big addr
  rw [decodeMessageId_createMessageId, hport, hsin, hip, BitVec.toNat_ofNat,
    Nat.mod_eq_of_lt addr.sinPort.isLt, hsame, BitVec.ofNat_toNat, BitVec.setWidth_eq,
    BitVec.ofNat_toNat, BitVec.setWidth_eq]
  rfl

end RocketMQClient.Messages
