import RocketMQClient.Factory.OrderedTopic
import RocketMQClient.Library.Decimal
import RocketMQClient.Messages.MessageId

/-!
# The addresses of stored messages

A request about a stored message goes to the broker that stores it. Its socket address is in the id
of the message, or is the store host of a message that was pulled. `viewMessage` and
`consumerSendMessageBack` write it as a text, which `SplitURL` takes apart again when `Connect`
opens a connection.

`socketAddress2IPPort` writes the address and the port, and the connection goes to the same address
and port, although the port is kept in a `short` on the way. `socketAddress2String` leaves the port
out, and `SplitURL` rejects every text without one. `dials_iff` says which calls reach the broker.
-/

set_option autoImplicit false
set_option relaxedAutoImplicit false

namespace RocketMQClient.Transport

open Library Messages
open Factory (atoi atoiInt numeral atoi_of_digits)

/-! ### Addresses in text -/

/-- The number of a text of digits of a base. -/
def readNumber (base : ℕ) (text : ByteString) : Option ℕ :=
  if text = [] then none
  else text.foldlM (fun value byte ↦ (hexDigitValue byte).bind fun digit ↦
    if digit < base then some (base * value + digit) else none) 0

/-- The number of a text in the notation of C. -/
def ofCNumber : ByteString → Option ℕ
  | 48 :: mark :: digits =>
    if mark = 120 ∨ mark = 88 then readNumber 16 digits else readNumber 8 (mark :: digits)
  | digits => readNumber 10 digits

/-- The bytes of an address of at most four numbers, the last of which fills up what is left. -/
def addressOf (numbers : List ℕ) : Option ByteString :=
  let filled := 5 - numbers.length
  if numbers.length ≤ 4 ∧ (∀ number ∈ numbers.dropLast, number < 256) ∧
      numbers.getLastD 0 < 256 ^ filled then
    some (numbers.dropLast.map (Fin.ofNat 256) ++ bigEndian filled (numbers.getLastD 0))
  else none

/-- `inet_aton`: the bytes of the address that a text starts with, up to a blank. -/
def inetAton (text : ByteString) : Option ByteString :=
  let written := (cString text).takeWhile fun byte ↦
    !decide (byte.val = 32 ∨ (9 ≤ byte.val ∧ byte.val ≤ 13))
  ((written.splitOn 46).mapM ofCNumber).bind addressOf

/-- `inet_addr`, which gives `INADDR_NONE` for a text that is no address. -/
def inetAddr (host : ByteOrder) (text : ByteString) : BitVec 32 :=
  BitVec.ofNat 32 (host.ofMemory ((inetAton text).getD [255, 255, 255, 255]))

/-- `inet_ntoa`. -/
def inetNtoa (host : ByteOrder) (addr : SockAddrIn) : ByteString :=
  [46].intercalate ((addr.addressBytes host).map fun byte ↦ decimalDigits byte.val)

/-- `socketAddress2String`. -/
def socketAddress2String (host : ByteOrder) (addr : SockAddrIn) : ByteString := inetNtoa host addr

/-- `socketAddress2IPPort`. -/
def socketAddress2IPPort (host : ByteOrder) (addr : SockAddrIn) : ByteString :=
  inetNtoa host addr ++ 58 :: decimal (ntohs host addr.sinPort).toNat

/-- `SplitURL`: the address and the port of a text with a colon. -/
def splitURL (serverURL : ByteString) : Option (ByteString × BitVec 16) :=
  if serverURL.contains 58 then
    let addr := serverURL.takeWhile fun byte ↦ byte ≠ 58
    let port := serverURL.drop (addr.length + 1)
    some (if addr = ofString "localhost" then ofString "127.0.0.1" else addr,
      BitVec.ofInt 16 (atoiInt port))
  else none

/-- The socket address that `Connect` connects to; none if it rejects the text. -/
def connectAddress (host : ByteOrder) (serverURL : ByteString) : Option SockAddrIn :=
  (splitURL serverURL).map fun (strAddr, port) ↦ ⟨htons host port, inetAddr host strAddr⟩

/-! ### The calls -/

/-- A request about a stored message, with what the address of its broker is taken from. -/
inductive StoredMessageCall where
  | viewMessage (msgId : ByteString)
  | consumerSendMessageBack (storeHost : SockAddrIn)

namespace StoredMessageCall

/-- The socket address of the broker; a message id may be illegal. -/
def socketAddress (host : ByteOrder) : StoredMessageCall → Option SockAddrIn
  | viewMessage msgId => (decodeMessageId host msgId).map MessageId.address
  | consumerSendMessageBack storeHost => some storeHost

/-- The text that is passed to `invokeSync`. -/
def addr (host : ByteOrder) : StoredMessageCall → Option ByteString
  | viewMessage msgId =>
    (decodeMessageId host msgId).map fun messageId ↦ socketAddress2String host messageId.address
  | consumerSendMessageBack storeHost => some (socketAddress2IPPort host storeHost)

/-- The text is accepted, and the connection goes to the socket address. -/
def Dials (host : ByteOrder) (call : StoredMessageCall) (address : SockAddrIn) : Prop :=
  ∃ text, call.addr host = some text ∧ (splitURL text).isSome ∧
    connectAddress host text = some address

end StoredMessageCall

/-! ### Reading an address back -/

section Address

variable {host : ByteOrder} {address : SockAddrIn} {byte : Byte}

theorem mem_of_mem_intercalate {separator : ByteString} {pieces : List ByteString}
    (hbyte : byte ∈ separator.intercalate pieces) :
    byte ∈ separator ∨ ∃ piece ∈ pieces, byte ∈ piece := by
  induction pieces with
  | nil => exact absurd hbyte List.not_mem_nil
  | cons piece rest ih =>
    by_cases hrest : rest = []
    · rw [hrest, List.intercalate_singleton] at hbyte
      exact .inr ⟨piece, List.mem_cons_self, hbyte⟩
    · rw [List.intercalate_cons_of_ne_nil hrest, List.mem_append, List.mem_append] at hbyte
      obtain (hpiece | hseparator) | hlater := hbyte
      · exact .inr ⟨piece, List.mem_cons_self, hpiece⟩
      · exact .inl hseparator
      · obtain hseparator | ⟨later, hmem, hbyte⟩ := ih hlater
        · exact .inl hseparator
        · exact .inr ⟨later, List.mem_cons_of_mem piece hmem, hbyte⟩

/-- The characters of an address. -/
theorem mem_inetNtoa (hbyte : byte ∈ inetNtoa host address) : isDigit byte = true ∨ byte = 46 := by
  obtain hdot | ⟨number, hnumber, hmem⟩ := mem_of_mem_intercalate hbyte
  · exact .inr (List.mem_singleton.mp hdot)
  · obtain ⟨value, -, rfl⟩ := List.mem_map.mp hnumber
    exact .inl (isDigit_of_mem_decimalDigits byte hmem)

theorem not_mem_inetNtoa (hdigit : isDigit byte = false) (hdot : byte ≠ 46) :
    byte ∉ inetNtoa host address := fun hmem ↦
  (mem_inetNtoa hmem).elim (fun h ↦ Bool.noConfusion (hdigit.symm.trans h)) hdot

/-- The numbers of an address are read in the notation of C. -/
theorem ofCNumber_decimalDigits :
    ∀ byte : Byte, ofCNumber (decimalDigits byte.val) = some byte.val := by
  decide +kernel

theorem mapM_ofCNumber (bytes : ByteString) :
    (bytes.map fun byte ↦ decimalDigits byte.val).mapM ofCNumber =
      some (bytes.map fun byte ↦ byte.val) := by
  rw [List.mapM_map]
  induction bytes with
  | nil => rfl
  | cons byte rest ih =>
    rw [List.mapM_cons, ih, Function.comp_apply, ofCNumber_decimalDigits]
    rfl

/-- Four numbers are the bytes of an address. -/
theorem addressOf_bytes {bytes : ByteString} (hlength : bytes.length = 4) :
    addressOf (bytes.map fun byte ↦ byte.val) = some bytes := by
  obtain ⟨first, rest, rfl⟩ := List.exists_cons_of_length_eq_add_one hlength
  obtain ⟨second, rest, rfl⟩ := List.exists_cons_of_length_eq_add_one (Nat.succ.inj hlength)
  obtain ⟨third, fourth, rfl⟩ := List.length_eq_two.mp (Nat.succ.inj (Nat.succ.inj hlength))
  have hnumbers : ∀ number ∈ [first.val, second.val, third.val], number < 256 := by
    simp [first.isLt, second.isLt, third.isLt]
  have hlast : fourth.val < 256 ^ 1 := fourth.isLt
  have hbytes : [first.val, second.val, third.val].map (Fin.ofNat 256) ++ bigEndian 1 fourth.val =
      [first, second, third, fourth] := by
    simp [bigEndian, littleEndian]
  exact (if_pos ⟨le_refl 4, hnumbers, hlast⟩).trans (congrArg some hbytes)

theorem inetAton_inetNtoa (host : ByteOrder) (address : SockAddrIn) :
    inetAton (inetNtoa host address) = some (address.addressBytes host) := by
  have hlength : (address.addressBytes host).length = 4 := host.length_toMemory 4 _
  have hstring : cString (inetNtoa host address) = inetNtoa host address :=
    cString_eq_self (not_mem_inetNtoa (by decide) (by decide))
  have hblank : (inetNtoa host address).takeWhile (fun byte ↦
      !decide (byte.val = 32 ∨ (9 ≤ byte.val ∧ byte.val ≤ 13))) = inetNtoa host address := by
    refine List.takeWhile_eq_self_iff.mpr fun byte hbyte ↦ ?_
    have hprinted : 46 ≤ byte.val := by
      obtain hdigit | rfl := mem_inetNtoa hbyte
      · rw [isDigit, decide_eq_true_eq] at hdigit
        omega
      · decide
    rw [Bool.not_eq_true', decide_eq_false_iff_not]
    omega
  have hsplit : (inetNtoa host address).splitOn 46 =
      (address.addressBytes host).map fun byte ↦ decimalDigits byte.val := by
    refine List.splitOn_intercalate 46 (fun number hnumber hdot ↦ ?_) ?_
    · obtain ⟨byte, -, rfl⟩ := List.mem_map.mp hnumber
      exact absurd (isDigit_of_mem_decimalDigits 46 hdot) (by decide)
    · intro hnil
      rw [List.map_eq_nil_iff, ← List.length_eq_zero_iff, hlength] at hnil
      exact absurd hnil (by decide)
  unfold inetAton
  simp only [hstring, hblank, hsplit, mapM_ofCNumber, Option.bind_some]
  exact addressOf_bytes hlength

/-- An address is read back. -/
theorem inetAddr_inetNtoa (host : ByteOrder) (address : SockAddrIn) :
    inetAddr host (inetNtoa host address) = address.sAddr := by
  rw [inetAddr, inetAton_inetNtoa, Option.getD_some, ofMemory_addressBytes, BitVec.ofNat_toNat,
    BitVec.setWidth_eq]

/-- The digits of a number are read as the number. -/
theorem numeral_decimalDigits (number : ℕ) : numeral (decimalDigits number) = number := by
  refine decimal_induction (motive := fun number digits ↦ numeral digits = number) ?_ ?_ number
  · intro digit hdigit
    show 10 * 0 + (((decimalDigit digit).val : ℤ) - 48) = digit
    rw [decimalDigit_val hdigit]
    omega
  · intro number digit digits _ hdigit hdigits
    have happend : numeral (digits ++ [decimalDigit digit]) =
        10 * numeral digits + (((decimalDigit digit).val : ℤ) - 48) := List.foldl_append ..
    rw [happend, hdigits, decimalDigit_val hdigit]
    push_cast
    omega

/-- A port is read back, although it is kept in a `short`. -/
theorem atoiInt_port {port : ℕ} (hport : port < 65536) :
    atoiInt (decimal (port : ℤ)) = port := by
  have hdecimal : decimal (port : ℤ) = decimalDigits port := if_neg (by omega)
  have hall : (decimalDigits port).all Factory.isDigit = true :=
    List.all_eq_true.mpr isDigit_of_mem_decimalDigits
  rw [atoiInt, hdecimal, atoi_of_digits (decimalDigits_ne_nil port) hall, numeral_decimalDigits]
  rw [min_eq_right (by omega), max_eq_right (by omega)]
  exact toInt32_eq_self (by omega) (by omega)

theorem htons_ntohs (host : ByteOrder) (port : BitVec 16) :
    htons host (ntohs host port) = port := by
  have hport : (ntohs host port).toNat = host.networkToHost 2 port.toNat := by
    rw [ntohs, BitVec.toNat_ofNat]
    exact Nat.mod_eq_of_lt (host.networkToHost_lt 2 port.toNat)
  rw [htons, hport, host.hostToNetwork_networkToHost, ← BitVec.toNat_inj, BitVec.toNat_ofNat]
  have hlt := port.isLt
  omega

theorem splitURL_socketAddress2IPPort (host : ByteOrder) (address : SockAddrIn) :
    splitURL (socketAddress2IPPort host address) =
      some (inetNtoa host address, ntohs host address.sinPort) := by
  have hcolon : 58 ∉ inetNtoa host address := not_mem_inetNtoa (by decide) (by decide)
  have hname : inetNtoa host address ≠ ofString "localhost" := fun hsame ↦
    @not_mem_inetNtoa host address 108 (by decide) (by decide) (hsame ▸ by decide)
  have haddr : (socketAddress2IPPort host address).takeWhile (fun byte ↦ byte ≠ 58) =
      inetNtoa host address := by
    rw [socketAddress2IPPort, List.takeWhile_append_of_pos fun byte hbyte ↦ ?_]
    · simp
    · simpa using fun heq : byte = 58 ↦ hcolon (heq ▸ hbyte)
  have hport : (socketAddress2IPPort host address).drop ((inetNtoa host address).length + 1) =
      decimal (ntohs host address.sinPort).toNat := by
    rw [socketAddress2IPPort, ← List.drop_drop, List.drop_left]
    rfl
  have hmem : (socketAddress2IPPort host address).contains 58 = true :=
    List.contains_iff_mem.mpr (List.mem_append_right _ List.mem_cons_self)
  unfold splitURL
  simp only [if_pos hmem, haddr, hport, if_neg hname,
    atoiInt_port (ntohs host address.sinPort).isLt, BitVec.ofInt_natCast, BitVec.ofNat_toNat,
    BitVec.setWidth_eq]

theorem length_intercalate_le {pieces : List ByteString}
    (hpieces : ∀ piece ∈ pieces, piece.length ≤ 3) :
    (([46] : ByteString).intercalate pieces).length ≤ 4 * pieces.length := by
  induction pieces with
  | nil => exact Nat.zero_le _
  | cons piece rest ih =>
    obtain ⟨hpiece, hrest⟩ := List.forall_mem_cons.mp hpieces
    have hlater := ih hrest
    by_cases hnil : rest = []
    · rw [hnil, List.intercalate_singleton, List.length_singleton]
      omega
    · rw [List.intercalate_cons_of_ne_nil hnil]
      simp only [List.length_append, List.length_cons, List.length_nil]
      omega

/-- The text fits the buffer of 32 characters that it is printed to. -/
theorem length_socketAddress2IPPort_lt (host : ByteOrder) (address : SockAddrIn) :
    (socketAddress2IPPort host address).length < 32 := by
  have haddr : (inetNtoa host address).length ≤ 4 * 4 := by
    have hpieces : ∀ piece ∈ (address.addressBytes host).map (fun byte ↦ decimalDigits byte.val),
        piece.length ≤ 3 := by
      intro piece hpiece
      obtain ⟨byte, -, rfl⟩ := List.mem_map.mp hpiece
      exact length_decimalDigits_le (by decide) (lt_trans byte.isLt (by decide))
    have hlength := length_intercalate_le hpieces
    rwa [List.length_map, SockAddrIn.addressBytes, host.length_toMemory] at hlength
  have hport : (decimal (ntohs host address.sinPort).toNat).length ≤ 5 := by
    rw [decimal, if_neg (by omega)]
    exact length_decimalDigits_le (by decide)
      (lt_trans (ntohs host address.sinPort).isLt (by decide))
  rw [socketAddress2IPPort, List.length_append, List.length_cons]
  omega

/-- A connection to the text goes to the address. -/
theorem connectAddress_socketAddress2IPPort (host : ByteOrder) (address : SockAddrIn) :
    connectAddress host (socketAddress2IPPort host address) = some address := by
  rw [connectAddress, splitURL_socketAddress2IPPort, Option.map_some]
  show some (SockAddrIn.mk (htons host (ntohs host address.sinPort))
    (inetAddr host (inetNtoa host address))) = some address
  rw [htons_ntohs, inetAddr_inetNtoa]

/-- A text without a port is rejected. -/
theorem splitURL_socketAddress2String (host : ByteOrder) (address : SockAddrIn) :
    splitURL (socketAddress2String host address) = none :=
  if_neg fun hcolon ↦
    not_mem_inetNtoa (by decide) (by decide) (List.contains_iff_mem.mp hcolon)

end Address

/-! ### The calls that reach the broker -/

namespace StoredMessageCall

/-- A message that is sent back reaches the broker of its store host; a message is never viewed,
unless its id is illegal and there is no broker. -/
theorem dials_iff (host : ByteOrder) (call : StoredMessageCall) :
    (∀ address, call.socketAddress host = some address → call.Dials host address) ↔
      (∃ storeHost, call = consumerSendMessageBack storeHost) ∨
        ∃ msgId, call = viewMessage msgId ∧ msgId.length < 16 := by
  cases call with
  | consumerSendMessageBack storeHost =>
    refine iff_of_true ?_ (.inl ⟨storeHost, rfl⟩)
    rintro address ⟨⟩
    exact ⟨_, rfl, by rw [splitURL_socketAddress2IPPort]; rfl,
      connectAddress_socketAddress2IPPort host storeHost⟩
  | viewMessage msgId =>
    by_cases hshort : msgId.length < 16
    · refine iff_of_true (fun address haddress ↦ ?_) (.inr ⟨msgId, rfl, hshort⟩)
      rw [socketAddress, decodeMessageId, if_pos hshort] at haddress
      cases haddress
    · refine iff_of_false (fun hdials ↦ ?_) ?_
      · obtain ⟨messageId, hid⟩ : ∃ messageId, decodeMessageId host msgId = some messageId :=
          ⟨_, if_neg hshort⟩
        have haddress : (viewMessage msgId).socketAddress host = some messageId.address := by
          rw [socketAddress, hid, Option.map_some]
        obtain ⟨text, htext, haccepted, -⟩ := hdials messageId.address haddress
        rw [addr, hid] at htext
        obtain rfl := Option.some.inj htext
        rw [splitURL_socketAddress2String] at haccepted
        cases haccepted
      · rintro (⟨storeHost, hcall⟩ | ⟨other, hcall, hlength⟩)
        · cases hcall
        · cases hcall
          exact hshort hlength

/-- The id of a message at 1.0.0.10, port 10911, gives a text without the port. -/
theorem not_dials_viewMessage :
    let call := viewMessage (ofString "0A0000019F2A00000000000000000000")
    call.socketAddress .little = some (SockAddrIn.ofIPv4 .little 1 0 0 10 10911) ∧
      call.addr .little = some (ofString "1.0.0.10") ∧ splitURL (ofString "1.0.0.10") = none ∧
      ¬ call.Dials .little (SockAddrIn.ofIPv4 .little 1 0 0 10 10911) := by
  have haddr : (viewMessage (ofString "0A0000019F2A00000000000000000000")).addr .little =
      some (ofString "1.0.0.10") := by decide +kernel
  have hsplit : splitURL (ofString "1.0.0.10") = none := by decide +kernel
  refine ⟨by decide +kernel, haddr, hsplit, ?_⟩
  rintro ⟨text, htext, haccepted, -⟩
  obtain rfl := Option.some.inj (haddr.symm.trans htext)
  rw [hsplit] at haccepted
  cases haccepted

end StoredMessageCall

end RocketMQClient.Transport
