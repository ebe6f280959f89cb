import Mathlib.Algebra.Group.Nat.Defs
import Mathlib.Data.Int.Order.Basic
import RocketMQClient.Library.ByteString

/-!
# Byte order

Unsigned machine integers as natural numbers, and their bytes. `littleEndian` writes a value in a
fixed number of bytes, least significant first, and `ofLittleEndian` reads it; `bigEndian` and
`ofBigEndian` are the same with the most significant byte first. A host keeps its integers in memory
in one of the two orders (`toMemory`, `ofMemory`), and `hostToNetwork` and `networkToHost` are the
conversions of the C library, `htonl`, `ntohs` and so on: a value converted to network order lies in
memory as its big-endian bytes (`toMemory_hostToNetwork`), and bytes that were read into memory are
converted to their big-endian value (`networkToHost_ofMemory`), whatever the host.
-/

set_option autoImplicit false
set_option relaxedAutoImplicit false

namespace RocketMQClient.Library

/-- The lowest `count` bytes of a value, least significant first. -/
def littleEndian : ℕ → ℕ → ByteString
  | 0, _ => []
  | count + 1, value => Fin.ofNat 256 value :: littleEndian count (value / 256)

/-- The value of bytes, least significant first. -/
def ofLittleEndian : ByteString → ℕ
  | [] => 0
  | byte :: rest => byte.val + 256 * ofLittleEndian rest

/-- The lowest `count` bytes of a value, most significant first. -/
def bigEndian (count value : ℕ) : ByteString := (littleEndian count value).reverse

/-- The value of bytes, most significant first. -/
def ofBigEndian (bytes : ByteString) : ℕ := ofLittleEndian bytes.reverse

/-! ### Writing and reading -/

@[simp] theorem length_littleEndian (count value : ℕ) :
    (littleEndian count value).length = count := by
  induction count generalizing value with
  | zero => rfl
  | succ count ih => rw [littleEndian, List.length_cons, ih]

@[simp] theorem length_bigEndian (count value : ℕ) : (bigEndian count value).length = count := by
  rw [bigEndian, List.length_reverse, length_littleEndian]

/-- Reading what was written gives the value modulo the width. -/
theorem ofLittleEndian_littleEndian (count value : ℕ) :
    ofLittleEndian (littleEndian count value) = value % 256 ^ count := by
  induction count generalizing value with
  | zero => rw [littleEndian, ofLittleEndian, Nat.pow_zero, Nat.mod_one]
  | succ count ih =>
    rw [littleEndian, ofLittleEndian, ih, Nat.pow_succ', Nat.mod_mul]
    rfl

/-- Writing what was read gives the bytes. -/
theorem littleEndian_ofLittleEndian (bytes : ByteString) :
    littleEndian bytes.length (ofLittleEndian bytes) = bytes := by
  induction bytes with
  | nil => rfl
  | cons byte rest ih =>
    have hbyte := byte.isLt
    have hlow : Fin.ofNat 256 (byte.val + 256 * ofLittleEndian rest) = byte :=
      Fin.ext (by rw [Fin.val_ofNat]; omega)
    have hhigh : (byte.val + 256 * ofLittleEndian rest) / 256 = ofLittleEndian rest := by omega
    rw [List.length_cons, ofLittleEndian, littleEndian, hlow, hhigh, ih]

/-- Bytes hold a value below the power of their number. -/
theorem ofLittleEndian_lt (bytes : ByteString) : ofLittleEndian bytes < 256 ^ bytes.length := by
  have hsame := ofLittleEndian_littleEndian bytes.length (ofLittleEndian bytes)
  rw [littleEndian_ofLittleEndian] at hsame
  rw [hsame]
  exact Nat.mod_lt _ (Nat.pos_of_ne_zero (by simp))

theorem ofBigEndian_bigEndian (count value : ℕ) :
    ofBigEndian (bigEndian count value) = value % 256 ^ count := by
  rw [ofBigEndian, bigEndian, List.reverse_reverse, ofLittleEndian_littleEndian]

theorem bigEndian_ofBigEndian {bytes : ByteString} {count : ℕ} (hlength : bytes.length = count) :
    bigEndian count (ofBigEndian bytes) = bytes := by
  have hsame := littleEndian_ofLittleEndian bytes.reverse
  rw [List.length_reverse, hlength] at hsame
  rw [bigEndian, ofBigEndian, hsame, List.reverse_reverse]

theorem ofBigEndian_lt {bytes : ByteString} {count : ℕ} (hlength : bytes.length = count) :
    ofBigEndian bytes < 256 ^ count := by
  have hlt := ofLittleEndian_lt bytes.reverse
  rwa [List.length_reverse, hlength] at hlt

/-- One more byte behind the others is the least significant one. -/
theorem ofBigEndian_append_singleton (bytes : ByteString) (byte : Byte) :
    ofBigEndian (bytes ++ [byte]) = 256 * ofBigEndian bytes + byte.val := by
  rw [ofBigEndian, List.reverse_append, List.reverse_singleton, List.singleton_append,
    ofLittleEndian, ← ofBigEndian, Nat.add_comm]

/-! ### Hosts -/

/-- The order in which a host keeps the bytes of an integer. -/
inductive ByteOrder where
  | little
  | big
  deriving DecidableEq

namespace ByteOrder

/-- The bytes of an integer in memory. -/
def toMemory (host : ByteOrder) (count value : ℕ) : ByteString :=
  match host with
  | little => littleEndian count value
  | big => bigEndian count value

/-- The integer whose bytes lie in memory. -/
def ofMemory (host : ByteOrder) (bytes : ByteString) : ℕ :=
  match host with
  | little => ofLittleEndian bytes
  | big => ofBigEndian bytes

/-- `htons`, `htonl` and their like, for integers of `count` bytes. -/
def hostToNetwork (host : ByteOrder) (count value : ℕ) : ℕ :=
  host.ofMemory (bigEndian count value)

/-- `ntohs`, `ntohl` and their like, for integers of `count` bytes. -/
def networkToHost (host : ByteOrder) (count value : ℕ) : ℕ :=
  ofBigEndian (host.toMemory count value)

@[simp] theorem length_toMemory (host : ByteOrder) (count value : ℕ) :
    (host.toMemory count value).length = count := by
  cases host with
  | little => exact length_littleEndian count value
  | big => exact length_bigEndian count value

theorem toMemory_ofMemory (host : ByteOrder) {bytes : ByteString} {count : ℕ}
    (hlength : bytes.length = count) : host.toMemory count (host.ofMemory bytes) = bytes := by
  cases host with
  | little =>
    show littleEndian count (ofLittleEndian bytes) = bytes
    rw [← hlength, littleEndian_ofLittleEndian]
  | big => exact bigEndian_ofBigEndian hlength

theorem ofMemory_toMemory (host : ByteOrder) (count value : ℕ) :
    host.ofMemory (host.toMemory count value) = value % 256 ^ count := by
  cases host with
  | little => exact ofLittleEndian_littleEndian count value
  | big => exact ofBigEndian_bigEndian count value

theorem ofMemory_lt (host : ByteOrder) {bytes : ByteString} {count : ℕ}
    (hlength : bytes.length = count) : host.ofMemory bytes < 256 ^ count := by
  cases host with
  | little =>
    show ofLittleEndian bytes < 256 ^ count
    rw [← hlength]
    exact ofLittleEndian_lt bytes
  | big => exact ofBigEndian_lt hlength

/-- A value converted to network order lies in memory most significant byte first. -/
theorem toMemory_hostToNetwork (host : ByteOrder) (count value : ℕ) :
    host.toMemory count (host.hostToNetwork count value) = bigEndian count value :=
  host.toMemory_ofMemory (length_bigEndian count value)

/-- Bytes read into memory are converted to their big-endian value. -/
theorem networkToHost_ofMemory (host : ByteOrder) {bytes : ByteString} {count : ℕ}
    (hlength : bytes.length = count) :
    host.networkToHost count (host.ofMemory bytes) = ofBigEndian bytes := by
  rw [networkToHost, host.toMemory_ofMemory hlength]

/-- A value converted to host order and back is the value modulo the width. -/
theorem hostToNetwork_networkToHost (host : ByteOrder) (count value : ℕ) :
    host.hostToNetwork count (host.networkToHost count value) = value % 256 ^ count := by
  rw [hostToNetwork, networkToHost, bigEndian_ofBigEndian (host.length_toMemory count value),
    host.ofMemory_toMemory]

/-- The two conversions are the same function. -/
theorem networkToHost_eq_hostToNetwork (host : ByteOrder) (count value : ℕ) :
    host.networkToHost count value = host.hostToNetwork count value := by
  cases host with
  | little => rfl
  | big => rfl

theorem networkToHost_lt (host : ByteOrder) (count value : ℕ) :
    host.networkToHost count value < 256 ^ count :=
  ofBigEndian_lt (host.length_toMemory count value)

end ByteOrder

end RocketMQClient.Library
