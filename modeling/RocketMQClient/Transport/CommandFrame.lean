import RocketMQClient.Transport.OnewayFlag
import RocketMQClient.Transport.TcpTransport

/-!
# The lengths of a frame

The head and the body of a command lie in two buffers, each with its length beside it
(`CommandBuffers`). `Encode` computes the two lengths that stand at the head of the frame from the
text of the head and the length of the body, `SendCmd` puts the two buffers together and computes
the length that it gives to `SendData`, and the receiver finds the end of the frame and the body
with the lengths that it reads.

`sendCmd_encode` says that the buffers hold the frame of the command, and `frames_self_consistent`
that the three lengths agree and that `Decode` gives back the command and its body.
-/

set_option autoImplicit false
set_option relaxedAutoImplicit false

namespace RocketMQClient.Transport

open Library Protocol

/-- The buffers of a command, with the bytes that its pointers lead to. -/
structure CommandBuffers where
  pHead : Option ByteString
  headLen : ℤ
  pBody : Option ByteString
  bodyLen : ℤ
  releaseBody : Bool

/-- A length as the four bytes that `htonl` leaves in memory. -/
def lengthWord (length : ℤ) : ByteString := bigEndian 4 (length % 4294967296).toNat

namespace CommandBuffers

/-! ### The operations of the source -/

/-- The buffers of a new command. -/
def new : CommandBuffers where
  pHead := none
  headLen := 0
  pBody := none
  bodyLen := 0
  releaseBody := false

/-- `SetBody`. -/
def setBody (buffers : CommandBuffers) (pData : ByteString) (copy : Bool) : CommandBuffers :=
  { buffers with pBody := some pData, bodyLen := pData.length, releaseBody := copy }

/-- `Encode`; nothing comes of it when the length of the head does not fit into an `int`. -/
def encode (buffers : CommandBuffers) (command : RemotingCommand) : Option CommandBuffers :=
  let headLen := command.headText.length
  if headLen + 8 ≤ 2147483647 then
    let totalHeadLen : ℤ := 4 + 4 + headLen
    some { buffers with
      headLen := totalHeadLen
      pHead := some (lengthWord (toInt32 (totalHeadLen + buffers.bodyLen - 4)) ++
        (lengthWord headLen ++ command.headText)) }
  else none

/-- `SendCmd`: the bytes that it hands to `SendData` and the length that it gives, if it sends. -/
def sendCmd (buffers : CommandBuffers) : Option (ByteString × ℤ) :=
  if buffers.headLen ≤ 0 then none
  else
    let head := buffers.pHead.getD []
    let totalLen := toInt32 (buffers.headLen + buffers.bodyLen)
    match buffers.pBody with
    | some body =>
      if totalLen > buffers.headLen then
        some (head.take buffers.headLen.toNat ++ body.take buffers.bodyLen.toNat, totalLen)
      else some (head, totalLen)
    | none => some (head, totalLen)

/-- The buffers of a new command whose body was set, if it has one. -/
def ofBody (copy : Bool) : Option ByteString → CommandBuffers
  | none => new
  | some body => new.setBody body copy

end CommandBuffers

/-! ### What is sent -/

/-- The word of a length that fits into an `int`. -/
theorem lengthWord_toInt32 {length : ℕ} (hlength : length ≤ 2147483647) :
    lengthWord (toInt32 length) = bigEndian 4 length := by
  rw [lengthWord, toInt32_eq_self (by omega) (by omega)]
  congr 1
  omega

/-- The number that the first four bytes are. -/
theorem bigEndian32_eq (bytes : ByteString) :
    TcpTransport.bigEndian32 bytes = ofBigEndian (bytes.take 4) := by
  rw [TcpTransport.bigEndian32]
  induction bytes.take 4 using List.reverseRecOn with
  | nil => rfl
  | append_singleton front byte ih =>
    rw [List.foldl_append, List.foldl_cons, List.foldl_nil, ih, ofBigEndian_append_singleton,
      Nat.mul_comm]

/-- The size of a frame that begins with a length. -/
theorem getMsgSize_of_word {length : ℕ} {rest : ByteString} (hlength : length + 4 ≤ 2147483647) :
    TcpTransport.getMsgSize (bigEndian 4 length ++ rest) = length + 4 := by
  rw [TcpTransport.getMsgSize, bigEndian32_eq, List.take_left' (by simp), ofBigEndian_bigEndian,
    Nat.mod_eq_of_lt (by omega)]
  exact toInt32_eq_self (by omega) (by omega)

section Sent

variable {buffers : CommandBuffers}

/-- The length of the buffer of a body is the length of the body. -/
theorem ofBody_bodyLen (copy : Bool) (body : Option ByteString) :
    (CommandBuffers.ofBody copy body).bodyLen = (body.getD []).length := by
  cases body <;> rfl

/-- The head that `Encode` writes. -/
theorem head_encode (command : RemotingCommand) (body : Option ByteString) (copy : Bool)
    (hsize : command.headText.length + 8 + (body.getD []).length ≤ 2147483647) :
    lengthWord (toInt32 (4 + 4 + (command.headText.length : ℤ) +
        (CommandBuffers.ofBody copy body).bodyLen - 4)) ++
      (lengthWord command.headText.length ++ command.headText) =
      bigEndian 4 (command.headText.length + 8 + (body.getD []).length - 4) ++
        (bigEndian 4 command.headText.length ++ command.headText) := by
  have hheadLen : lengthWord command.headText.length = bigEndian 4 command.headText.length := by
    rw [← lengthWord_toInt32 (by omega), toInt32_eq_self (by omega) (by omega)]
  have htotal : 4 + 4 + (command.headText.length : ℤ) +
      (CommandBuffers.ofBody copy body).bodyLen - 4 =
        ((command.headText.length + 8 + (body.getD []).length - 4 : ℕ) : ℤ) := by
    rw [ofBody_bodyLen]
    omega
  rw [htotal, lengthWord_toInt32 (by omega), hheadLen]

/-- Buffers whose lengths are those of their bytes are sent one behind the other. -/
theorem sendCmd_of_lengths {head : ByteString} (hhead : buffers.pHead = some head)
    (hheadLen : buffers.headLen = head.length) (hpositive : 0 < head.length)
    (hbodyLen : buffers.bodyLen = (buffers.pBody.getD []).length)
    (hsize : head.length + (buffers.pBody.getD []).length ≤ 2147483647) :
    buffers.sendCmd = some (head ++ buffers.pBody.getD [],
      ((head ++ buffers.pBody.getD []).length : ℤ)) := by
  have htotal : toInt32 (buffers.headLen + buffers.bodyLen) =
      ((head ++ buffers.pBody.getD []).length : ℤ) := by
    rw [hheadLen, hbodyLen, toInt32_eq_self (by omega) (by omega), List.length_append]
    push_cast
    rfl
  rw [CommandBuffers.sendCmd, if_neg (by omega)]
  dsimp only
  rw [htotal, hhead, Option.getD_some]
  cases hbody : buffers.pBody with
  | none => simp
  | some body =>
    rw [hbody, Option.getD_some] at hbodyLen
    rw [Option.getD_some, List.length_append]
    dsimp only
    by_cases hempty : body = []
    · rw [hempty, List.append_nil, if_neg (by simp [hheadLen])]
    · have hlong := List.length_pos_iff.mpr hempty
      rw [if_pos (by omega), hheadLen, hbodyLen, Int.toNat_natCast, Int.toNat_natCast,
        List.take_length, List.take_length]

/-- The buffers of an encoded command hold its frame, and `SendCmd` gives its length. -/
theorem sendCmd_encode (command : RemotingCommand) (body : Option ByteString) (copy : Bool)
    (hsize : command.headText.length + 8 + (body.getD []).length ≤ 2147483647) :
    ∃ buffers encoded, (CommandBuffers.ofBody copy body).encode command = some buffers ∧
      (command.setBody (body.getD [])).encode = some encoded ∧
        buffers.sendCmd = some (encoded.frame, (encoded.frame.length : ℤ)) := by
  have hhead : command.headText.length + 8 ≤ 2147483647 := by omega
  have hpBody : (CommandBuffers.ofBody copy body).pBody = body := by
    cases body <;> rfl
  obtain ⟨head, hbytes⟩ : ∃ head, head =
      bigEndian 4 (command.headText.length + 8 + (body.getD []).length - 4) ++
        (bigEndian 4 command.headText.length ++ command.headText) := ⟨_, rfl⟩
  have hlength : (head.length : ℤ) = 4 + 4 + command.headText.length := by
    rw [hbytes]
    simp
    omega
  refine ⟨_, _, if_pos hhead, if_pos hhead, ?_⟩
  rw [head_encode command body copy hsize, ← hbytes]
  refine (sendCmd_of_lengths rfl hlength.symm (by omega) ?_ ?_).trans ?_
  · show (CommandBuffers.ofBody copy body).bodyLen =
      (((CommandBuffers.ofBody copy body).pBody.getD []).length : ℤ)
    rw [hpBody, ofBody_bodyLen]
  · show head.length + ((CommandBuffers.ofBody copy body).pBody.getD []).length ≤ 2147483647
    rw [hpBody]
    omega
  · show some (head ++ (CommandBuffers.ofBody copy body).pBody.getD [],
      ((head ++ (CommandBuffers.ofBody copy body).pBody.getD []).length : ℤ)) = _
    rw [hpBody, hbytes]
    rfl

end Sent

/-! ### Sender and receiver -/

/-- The three lengths agree: `SendCmd` hands `SendData` as many bytes as the frame says, and they
are decoded to the command and its body. -/
theorem frames_self_consistent {command : RemotingCommand} {body : Option ByteString}
    (hplain : command.PlainStrings) (hzero : command.NoZero) (copy : Bool)
    (hsize : command.headText.length + 8 + (body.getD []).length < 2 ^ 31) :
    ∃ buffers bytes decoded, (CommandBuffers.ofBody copy body).encode command = some buffers ∧
      buffers.sendCmd = some (bytes, (bytes.length : ℤ)) ∧
        TcpTransport.getMsgSize bytes = bytes.length ∧
          RemotingCommand.decode bytes = .ok (some decoded) ∧ decoded.code = command.code ∧
            decoded.version = command.version ∧ decoded.opaqueId = command.opaqueId ∧
              decoded.flag = command.flag ∧ decoded.remark = command.remark ∧
                decoded.body = body.getD [] := by
  obtain ⟨buffers, encoded, hbuffers, hencoded, hsent⟩ :=
    sendCmd_encode command body copy (by omega)
  obtain ⟨hframe, -⟩ := frame_eq hencoded
  have hheadText : (command.setBody (body.getD [])).headText = command.headText := rfl
  have hlength : encoded.frame.length =
      command.headText.length + 8 + (body.getD []).length := by
    rw [hframe, hheadText]
    simp [RemotingCommand.setBody]
    omega
  have hmsgSize : TcpTransport.getMsgSize encoded.frame = encoded.frame.length := by
    rw [hlength, hframe, hheadText]
    refine (getMsgSize_of_word ?_).trans ?_
    · show command.headText.length + 8 + (body.getD []).length - 4 + 4 ≤ 2147483647
      omega
    · show ((command.headText.length + 8 + (body.getD []).length - 4 : ℕ) : ℤ) + 4 = _
      omega
  have hplainBody : (command.setBody (body.getD [])).PlainStrings :=
    ⟨hplain.remark, hplain.customHeader⟩
  have hzeroBody : (command.setBody (body.getD [])).NoZero := ⟨hzero.remark, hzero.customHeader⟩
  have hdecoded := decode_frame_of_body hplainBody hzeroBody hencoded
    (frameBody_frame_of_length hencoded (by omega))
  exact ⟨buffers, encoded.frame, _, hbuffers, hsent, hmsgSize, hdecoded, rfl, rfl, rfl, rfl, rfl,
    rfl⟩

/-- A request whose body has a zero byte and the text of a JSON object. -/
theorem frames_self_consistent_of_json_body :
    ∃ buffers bytes decoded,
      (CommandBuffers.ofBody true (some (0 :: ofString "\x7b\"code\":1\x7d"))).encode
        (RemotingCommand.createRequestCommand 10 none 7 79) = some buffers ∧
      buffers.sendCmd = some (bytes, (bytes.length : ℤ)) ∧
        TcpTransport.getMsgSize bytes = bytes.length ∧
          RemotingCommand.decode bytes = .ok (some decoded) ∧ decoded.code = 10 ∧
            decoded.version = 79 ∧ decoded.opaqueId = 7 ∧ decoded.flag = 0 ∧
              decoded.remark = [] ∧
                decoded.body = 0 :: ofString "\x7b\"code\":1\x7d" :=
  frames_self_consistent (by decide) (by decide) true (by decide)

end RocketMQClient.Transport
