import FightingCard.Common.Buffer

set_option relaxedAutoImplicit false
set_option autoImplicit false

/-!
# User frames

The frames exchanged between a client and the server (`common/user_buffer.h`,
`common/user_buffer.cpp`): a 16-bit body size, then the length of the type name with its
terminator, the name, the serialized message and four bytes of checksum that no code writes
or reads.

`UserBuffer.encode` and `UserBuffer.decode` follow the source store by store. The abstract
counterpart is `UserBuffer.frame`, the frame of a message as a list of bytes: encoding a
message that fits stores its frame, and any buffer that starts with the frame of a message is
decoded to that message, whatever else the buffer holds.

## Main definitions

* `FightingCard.UserBuffer.encode`, `FightingCard.UserBuffer.decode` — `Encode` and `Decode`.
* `FightingCard.UserBuffer.received` — what a reader gets out of a decoded buffer.
* `FightingCard.UserBuffer.Message` — a message whose frame fits the buffer.
* `FightingCard.UserBuffer.SizeSafe` — encoding a message cuts no size and stays inside the
  buffer.

## Main results

* `FightingCard.UserBuffer.buf_encode` — encoding a message that fits stores its frame.
* `FightingCard.UserBuffer.sizeSafe_iff` — the messages whose encoding is size-safe.
* `FightingCard.UserBuffer.received_of_read` — a buffer that starts with a frame is decoded to
  the message of the frame.
-/

namespace FightingCard

open ByteMem

/-- `UserBuffer`: a buffer of 16 KiB with a 16-bit header. -/
abbrev UserBuffer := Buffer 2 (16 * 1024)

namespace UserBuffer

/-- The members that `Decode` sets, the pointers as offsets from `get_buf()`. -/
structure Parts where
  msgName : ℕ
  msgData : ℕ
  msgDataSize : ℕ
  checkSum : ℕ

/-- `Decode()`; `none` stands for the return value `false`. The payload size is an `int`
difference converted to `size_t`. -/
def decode (b : UserBuffer) : Option Parts :=
  let msgNameSize := (b.buf b.getBody).toNat
  if msgNameSize < 2 then none
  else
    let msgName := b.getBody + 1
    if b.buf (msgName + msgNameSize - 1) ≠ 0 then none
    else
      let msgData := msgName + msgNameSize
      let msgDataSize := sizeT ((b.getBodySize : ℤ) - 1 - msgNameSize - 4)
      some { msgName, msgData, msgDataSize, checkSum := (msgData + msgDataSize) % 2 ^ 64 }

/-- `Encode(proto_msg)`. The name size is a `uint8_t`, the data size and the body size are
`uint16_t`. -/
def encode (b : UserBuffer) (protoMsg : ProtoMsg) : UserBuffer :=
  let msgName := protoMsg.typeName
  let msgNameSize := (msgName.length + 1) % 2 ^ 8
  let msgDataSize := protoMsg.byteSize % 2 ^ 16
  let bodySize := (1 + msgNameSize + msgDataSize + 4) % 2 ^ 16
  let bufMsgName := b.getBody + 1
  let bufMsgData := bufMsgName + msgNameSize
  let m := write b.buf 0 (leBytes 2 bodySize)
  let m := write m b.getBody [UInt8.ofNat msgNameSize]
  let m := write m bufMsgName ((cStr msgName).take msgNameSize)
  let m := protoMsg.serializeToArray m bufMsgData msgDataSize
  Buffer.setBodySize ⟨m⟩ bodySize

/-- `UserBuffer(proto_msg)`. -/
def ofMsg (protoMsg : ProtoMsg) : UserBuffer := encode .new protoMsg

/-- What a reader gets out of a decoded buffer: the string at `msg_name()`, the bytes at
`msg_data()` and `msg_data_size()`. -/
structure Received where
  typeName : Bytes
  msgData : Bytes
  msgDataSize : ℕ

/-- The members set by `Decode` seen through the buffer; `Decode` has checked that the name
ends in a NUL right before the data. -/
def Parts.view (p : Parts) (b : UserBuffer) : Received where
  typeName := cString (read b.buf p.msgName (p.msgData - p.msgName))
  msgData := b.extent p.msgData p.msgDataSize
  msgDataSize := p.msgDataSize

/-- The outcome of `Decode` followed by the accessors. -/
def received (b : UserBuffer) : Option Received := (decode b).map fun p => p.view b

/-- A message whose type name can be sent and whose frame fits the buffer. -/
structure Message extends ProtoMsg where
  name_pos : 1 ≤ typeName.length
  name_le : typeName.length ≤ 254
  nul_free : 0 ∉ typeName
  fits : 2 + 1 + (typeName.length + 1) + data.length + 4 ≤ 16 * 1024

namespace Message

/-- What a reader should get out of the frame of a message. -/
def expected (msg : Message) : Received := ⟨msg.typeName, msg.data, msg.data.length⟩

/-- The body size of the frame of a message. -/
def bodySize (msg : Message) : ℕ := 1 + (msg.typeName.length + 1) + msg.data.length + 4

/-- The frame of a message up to its checksum bytes. -/
def frame (msg : Message) : Bytes :=
  leBytes 2 msg.bodySize ++
    (UInt8.ofNat (msg.typeName.length + 1) :: (msg.typeName ++ (0 :: msg.data)))

variable (msg : Message)

/-- A message fits the buffer. -/
lemma bodySize_le : msg.bodySize ≤ 16382 := by
  have := msg.fits
  simp only [bodySize]
  omega

/-- The length of the frame of a message, without its checksum. -/
lemma length_frame : msg.frame.length + 4 = 2 + msg.bodySize := by
  simp [frame, bodySize]
  omega

end Message

/-! ## Encoding -/

/-- The body size of the frame of a message. -/
def bodySize (msg : ProtoMsg) : ℕ := 1 + (msg.typeName.length + 1) + msg.byteSize + 4

/-- The body of the frame of a message up to its checksum bytes. -/
def bodyBytes (msg : ProtoMsg) : Bytes :=
  UInt8.ofNat (msg.typeName.length + 1) :: (msg.typeName ++ (0 :: msg.data))

variable {b : UserBuffer} {protoMsg : ProtoMsg}

/-- The length of an encoded body, without its checksum. -/
lemma length_bodyBytes : (bodyBytes protoMsg).length + 4 = bodySize protoMsg := by
  simp [bodyBytes, bodySize, ProtoMsg.byteSize]
  omega

/-- The stores of `Encode` are one store of the frame when no size is cut by its narrowing
conversion; the frame may be larger than the buffer. -/
lemma buf_encode_of_lt (hname : protoMsg.typeName.length ≤ 254)
    (hsize : bodySize protoMsg < 2 ^ 16) : (encode b protoMsg).buf =
      write b.buf 0 (leBytes 2 (bodySize protoMsg) ++ bodyBytes protoMsg) := by
  have hn : (protoMsg.typeName.length + 1) % 2 ^ 8 = protoMsg.typeName.length + 1 := by omega
  have hd : protoMsg.byteSize % 2 ^ 16 = protoMsg.byteSize := by
    rw [bodySize] at hsize
    omega
  have hb : (1 + (protoMsg.typeName.length + 1) + protoMsg.byteSize + 4) % 2 ^ 16 =
      bodySize protoMsg := Nat.mod_eq_of_lt hsize
  have htake : (cStr protoMsg.typeName).take (protoMsg.typeName.length + 1) =
      cStr protoMsg.typeName := List.take_of_length_le (by simp)
  simp only [encode, ProtoMsg.serializeToArray, hn, hd, hb, htake, le_refl, if_true,
    Buffer.setBodySize, Buffer.getBody]
  -- the stores are adjacent, and the last one repeats the first
  rw [write_write_at (m := b.buf) (by simp), write_write_at (m := b.buf) (by simp),
    write_write_at (m := b.buf) (by simp; omega)]
  rw [show leBytes 2 (bodySize protoMsg) ++ [UInt8.ofNat (protoMsg.typeName.length + 1)] ++
      cStr protoMsg.typeName ++ protoMsg.data =
        leBytes 2 (bodySize protoMsg) ++ bodyBytes protoMsg by simp [bodyBytes, cStr]]
  exact write_write_prefix

/-- The body size that `Encode` stores: the sizes are cut to 8 and to 16 bits. -/
lemma getBodySize_encode_mod : Buffer.getBodySize (encode b protoMsg) =
    (1 + (protoMsg.typeName.length + 1) % 2 ^ 8 + protoMsg.byteSize % 2 ^ 16 + 4) % 2 ^ 16 := by
  simp only [encode]
  rw [Buffer.getBodySize_setBodySize]
  omega

variable (msg : Message)

/-- **Encoding stores the frame.** The five stores of `Encode` are one store of the frame when
no size is cut by its narrowing conversion. -/
lemma buf_encode : (encode b msg.toProtoMsg).buf = write b.buf 0 msg.frame := by
  have hle := msg.bodySize_le
  exact buf_encode_of_lt msg.name_le (lt_of_le_of_lt hle (by norm_num))

/-- The body size that `Encode` stores. -/
lemma getBodySize_encode : Buffer.getBodySize (encode b msg.toProtoMsg) = msg.bodySize := by
  have hle := msg.bodySize_le
  rw [Buffer.getBodySize, buf_encode, Message.frame, read_write_left (by simp),
    leNat_leBytes_of_lt (by omega)]

/-- The size of the buffer after `Encode`. -/
lemma size_encode : Buffer.size (encode b msg.toProtoMsg) = 2 + msg.bodySize := by
  have hle := msg.bodySize_le
  rw [Buffer.size, getBodySize_encode, Buffer.getHeaderSize]
  omega

/-- The bytes that go on the wire: the frame, then the four checksum bytes as the buffer held
them. -/
lemma wire_encode : Buffer.wire (encode b msg.toProtoMsg) =
    msg.frame ++ read (write b.buf 0 msg.frame) msg.frame.length 4 := by
  rw [Buffer.wire, size_encode, ← msg.length_frame, read_add, buf_encode, read_write_self,
    Nat.zero_add]

/-- **Decoding a frame.** Any buffer that starts with the frame of a message is decoded to the
name and the payload of that message; what follows the frame plays no part.

**Proof sketch.** The frame is taken apart into its blocks: the header tells the body size, the size
byte and the NUL of the type name are in their places, and what is left of the body without the
checksum is the payload. -/
theorem received_of_read (h : read b.buf 0 msg.frame.length = msg.frame) :
    received b = some msg.expected := by
  have hname := msg.name_le
  have hpos := msg.name_pos
  have hfits := msg.fits
  -- the blocks of the frame, one after the other
  have hframe : msg.frame = leBytes 2 msg.bodySize ++ ([UInt8.ofNat (msg.typeName.length + 1)] ++
      (cStr msg.typeName ++ msg.data)) := by simp [Message.frame, cStr]
  rw [hframe, read_eq_append_iff, read_eq_append_iff, read_eq_append_iff] at h
  obtain ⟨hheader, hlen, hcstr, hdata⟩ := h
  simp only [length_leBytes, List.length_singleton, length_cStr, Nat.zero_add]
    at hheader hlen hcstr hdata
  have hsize : b.getBodySize = msg.bodySize :=
    Buffer.getBodySize_of_read hheader (by simp only [Message.bodySize]; omega)
  have hnat : (b.buf 2).toNat = msg.typeName.length + 1 := by
    rw [List.singleton_inj.mp hlen, UInt8.toNat_ofNat']
    omega
  have hnul : b.buf (2 + 1 + (msg.typeName.length + 1) - 1) = 0 := by
    rw [show 2 + 1 + (msg.typeName.length + 1) - 1 = 2 + 1 + msg.typeName.length by omega]
    exact apply_terminator hcstr
  have hcount : sizeT ((msg.bodySize : ℤ) - 1 - ((msg.typeName.length + 1 : ℕ) : ℤ) - 4) =
      msg.data.length := by
    rw [← sizeT_natCast (n := msg.data.length) (by omega)]
    congr 1
    simp only [Message.bodySize]
    omega
  have hmin : min msg.data.length (16 * 1024 - (2 + 1 + (msg.typeName.length + 1))) =
      msg.data.length := by omega
  simp only [received, decode, Buffer.getBody, hnat, hnul, hsize, hcount]
  rw [if_neg (by omega), if_neg (by simp)]
  simp only [Option.map_some, Parts.view, Buffer.extent, Message.expected, hmin, hdata,
    Nat.add_sub_cancel_left, hcstr, cString_cStr msg.nul_free]

/-! ## Messages of any size -/

/-- `Encode` stays inside the buffer, stores the size of the name and the size of the body as
they are, and leaves a buffer whose `size()` is the size of the frame. -/
structure SizeSafe (protoMsg : ProtoMsg) (b : UserBuffer) : Prop where
  inside : ∀ i, 16 * 1024 ≤ i → (encode b protoMsg).buf i = b.buf i
  nameSize : ((encode b protoMsg).buf b.getBody).toNat = protoMsg.typeName.length + 1
  bodySize : (encode b protoMsg).getBodySize = bodySize protoMsg
  size : (encode b protoMsg).size = b.getHeaderSize + UserBuffer.bodySize protoMsg

/-- The byte that a store through the end of the buffer reaches is changed for some content of
the buffer. -/
lemma exists_write_apply_ne {bs : Bytes} {i : ℕ} (h : i < bs.length) :
    ∃ b : UserBuffer, write b.buf 0 bs i ≠ b.buf i := by
  refine ⟨⟨fun _ => bs[i] + 1⟩, ?_⟩
  have hwrite := write_apply_add (m := fun _ => bs[i] + 1) (a := 0) h
  rw [Nat.zero_add] at hwrite
  rw [hwrite]
  simp

/-- A message whose encoding is size-safe fits the buffer up to its checksum bytes. -/
lemma fits_of_sizeSafe (h : ∀ b, SizeSafe protoMsg b) : protoMsg.typeName.length ≤ 254 ∧
    protoMsg.typeName.length + protoMsg.byteSize + 4 ≤ 16 * 1024 := by
  have hname : protoMsg.typeName.length ≤ 254 := by
    have hbyte := ((encode .new protoMsg).buf (Buffer.getBody (.new : UserBuffer))).toNat_lt
    rw [(h .new).nameSize] at hbyte
    omega
  have hsize : bodySize protoMsg < 2 ^ 16 := by
    rw [← (h .new).bodySize]
    exact Buffer.getBodySize_lt
  refine ⟨hname, ?_⟩
  by_contra hlarge
  have hlen : 16 * 1024 < (leBytes 2 (bodySize protoMsg) ++ bodyBytes protoMsg).length := by
    have hbody : (bodyBytes protoMsg).length + 4 = bodySize protoMsg := length_bodyBytes
    rw [bodySize] at hbody
    rw [List.length_append, length_leBytes]
    omega
  obtain ⟨b, hb⟩ := exists_write_apply_ne hlen
  apply hb
  rw [← buf_encode_of_lt hname hsize]
  exact (h b).inside _ le_rfl

/-- The encoding of a message that fits the buffer up to its checksum bytes is size-safe. -/
lemma sizeSafe_of_fits (hname : protoMsg.typeName.length ≤ 254)
    (hfits : protoMsg.typeName.length + protoMsg.byteSize + 4 ≤ 16 * 1024) (b : UserBuffer) :
    SizeSafe protoMsg b := by
  have hsize : bodySize protoMsg = protoMsg.typeName.length + protoMsg.byteSize + 6 := by
    rw [bodySize]
    omega
  have hbuf := buf_encode_of_lt (b := b) hname (by omega)
  have hbody : (encode b protoMsg).getBodySize = bodySize protoMsg := by
    rw [getBodySize_encode_mod, hsize]
    omega
  refine ⟨fun i hi => ?_, ?_, hbody, ?_⟩
  · have hlen : (bodyBytes protoMsg).length + 4 = bodySize protoMsg := length_bodyBytes
    rw [hbuf]
    apply write_apply_of_ge
    rw [List.length_append, length_leBytes]
    omega
  · have hbyte : (encode b protoMsg).buf 2 = UInt8.ofNat (protoMsg.typeName.length + 1) := by
      rw [hbuf, ← write_write_append, length_leBytes, Nat.zero_add]
      exact write_apply_add (i := 0) (by simp [bodyBytes])
    rw [Buffer.getBody, hbyte, UInt8.toNat_ofNat']
    omega
  · rw [Buffer.size, hbody, hsize, Buffer.getHeaderSize, Buffer.getHeaderSize]
    omega

/-- **Messages of any size.** `Encode` is size-safe, for every content of the buffer, exactly
when the name fits its size byte and the frame up to its checksum bytes fits the buffer.

**Proof sketch.** When both fit, the stores are one store of the frame (`buf_encode_of_lt`), of at
most 16 KiB. Conversely the size byte bounds the name and the stored body size bounds the payload,
so that again the frame is stored, and a frame that is too large changes a byte behind the
buffer (`exists_write_apply_ne`). -/
theorem sizeSafe_iff (protoMsg : ProtoMsg) : (∀ b, SizeSafe protoMsg b) ↔
    protoMsg.typeName.length ≤ 254 ∧
      protoMsg.typeName.length + protoMsg.byteSize + 4 ≤ 16 * 1024 :=
  ⟨fits_of_sizeSafe, fun h => sizeSafe_of_fits h.1 h.2⟩

/-- The size of a name with 255 bytes is stored as `0`. -/
theorem sizeSafe_fails : ¬ ∀ protoMsg b, SizeSafe protoMsg b := by
  intro h
  have hsize := (h ⟨List.replicate 255 97, []⟩ .new).nameSize
  have hbyte := ((encode .new ⟨List.replicate 255 97, []⟩).buf
    (Buffer.getBody (.new : UserBuffer))).toNat_lt
  rw [hsize, List.length_replicate] at hbyte
  omega

end UserBuffer

end FightingCard
