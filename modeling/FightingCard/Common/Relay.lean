import FightingCard.Common.PipeBuffer

set_option relaxedAutoImplicit false
set_option autoImplicit false

/-!
# Relaying user frames

A relay frame carries a message to a gateway, which hands it to a client as a user frame
(`common/pipe_buffer.cpp`). The sending side has two encoders for it: one takes the message, the
other one takes the user frame of the message. This file compares them, and it says for which
frames the receiving side works: which ones `SizeValid` lets in, and from which ones `Decode`
takes a user frame without leaving the buffers.

## Main definitions

* `FightingCard.PipeBuffer.messageBodySize` — the body size that `Encode` gives to a message.
* `FightingCard.PipeBuffer.Terminators` — the terminators that `Decode` looks for are in place.
* `FightingCard.PipeBuffer.Bounded` — `Decode` stays inside both buffers and loses nothing.

## Main results

* `FightingCard.PipeBuffer.encode_paths_agree` — both encoders make the same frame, and the user
  frame of the message is taken out of it.
* `FightingCard.PipeBuffer.decodeUserBuf_bounded_iff` — the frames that are decoded inside the
  buffers.
* `FightingCard.PipeBuffer.sizeValid_encode_iff` — the frames that the receiving side lets in.
-/

namespace FightingCard

open ByteMem

/-! ## The user frame of a message -/

namespace UserBuffer

variable {protoMsg : ProtoMsg}

/-- A fresh buffer with the frame of a message; the checksum bytes are zeros. -/
lemma buf_ofMsg (hname : protoMsg.typeName.length ≤ 254) (hsize : bodySize protoMsg < 2 ^ 16) :
    (ofMsg protoMsg).buf = write (fun _ => 0) 0
      (leBytes 2 (bodySize protoMsg) ++ (bodyBytes protoMsg ++ List.replicate 4 0)) := by
  rw [ofMsg, buf_encode_of_lt hname hsize, ← List.append_assoc, write_append_zeros, Buffer.new]

/-- The body of a frame has the size of the frame once its checksum bytes are there. -/
lemma length_paddedBody :
    (bodyBytes protoMsg ++ List.replicate 4 0).length = bodySize protoMsg := by
  rw [List.length_append, List.length_replicate, length_bodyBytes]

/-- The body of the frame of a message. -/
lemma body_ofMsg (hname : protoMsg.typeName.length ≤ 254) (hsize : bodySize protoMsg < 2 ^ 16) :
    (ofMsg protoMsg).body = bodyBytes protoMsg ++ List.replicate 4 0 := by
  have hread : read (ofMsg protoMsg).buf 0
      (leBytes 2 (bodySize protoMsg) ++ (bodyBytes protoMsg ++ List.replicate 4 0)).length =
        leBytes 2 (bodySize protoMsg) ++ (bodyBytes protoMsg ++ List.replicate 4 0) := by
    rw [buf_ofMsg hname hsize]
    exact read_write_self
  rw [read_eq_append_iff, length_leBytes, length_paddedBody] at hread
  rw [Buffer.body, Buffer.getBodySize_of_read hread.1 hsize]
  exact hread.2

/-- The frame of a message is its body behind the size of its body. -/
lemma setBodySize_body_ofMsg (hname : protoMsg.typeName.length ≤ 254)
    (hsize : bodySize protoMsg < 2 ^ 16) :
    Buffer.setBodySize ⟨write (fun _ => 0) 2 (ofMsg protoMsg).body⟩ (ofMsg protoMsg).body.length =
      ofMsg protoMsg := by
  apply Buffer.ext
  rw [buf_ofMsg hname hsize, body_ofMsg hname hsize, length_paddedBody, Buffer.setBodySize,
    write_write_before (by simp)]

end UserBuffer

namespace PipeBuffer

variable {head : PipeHead} {protoMsg : ProtoMsg} {b c : PipeBuffer}

/-! ## The two encoders -/

/-- Both encoders store the relay frame of the body of the user frame. -/
lemma buf_encode_new (hhead : PipeHead.Short head) (hpos : 1 ≤ protoMsg.typeName.length)
    (hname : protoMsg.typeName.length ≤ 254) (hsize : UserBuffer.bodySize protoMsg < 2 ^ 16) :
    (encode .new head protoMsg).buf =
      write (fun _ => 0) 0 (relayBytes head (UserBuffer.ofMsg protoMsg).body) := by
  have hsmall := headSize_le hhead
  rw [buf_encode_of_short hhead hpos hname (by rw [bodySize]; omega),
    UserBuffer.body_ofMsg hname hsize, relayBytes, UserBuffer.length_paddedBody, bodySize,
    ← List.append_assoc, ← List.append_assoc, ← List.append_assoc, write_append_zeros, Buffer.new]

/-- **The two encoders agree.** A message that fits a user frame is encoded to the same buffer
directly and by way of its user frame, and a buffer that has received either is decoded to the
bytes of the user frame.

**Proof sketch.** The body of the user frame of a message is the rest of its relay frame
(`UserBuffer.body_ofMsg`): name, payload and four checksum bytes, which neither encoder writes, so
that they are zeros in a fresh buffer. Hence both encoders store the same relay frame
(`buf_encode_new`, `buf_encodeUserBuf`), and decoding takes its body out (`decodeUserBuf_eq`). -/
theorem encode_paths_agree (head : PipeHead) (hhead : PipeHead.Short head) (protoMsg : ProtoMsg)
    (hpos : 1 ≤ protoMsg.typeName.length) (hname : protoMsg.typeName.length ≤ 254)
    (hfits : 2 + UserBuffer.bodySize protoMsg ≤ 16 * 1024) :
    encode .new head protoMsg = encodeUserBuf .new head (UserBuffer.ofMsg protoMsg) ∧
      ∀ c : PipeBuffer, c.Receives (encode .new head protoMsg) ∨
        c.Receives (encodeUserBuf .new head (UserBuffer.ofMsg protoMsg)) →
      ∃ p userBuf, decodeUserBuf c .new = some (p, userBuf) ∧
        userBuf.wire = (UserBuffer.ofMsg protoMsg).wire := by
  have hsize : UserBuffer.bodySize protoMsg < 2 ^ 16 := by omega
  have hsame : encode .new head protoMsg =
      encodeUserBuf .new head (UserBuffer.ofMsg protoMsg) := by
    apply Buffer.ext
    rw [buf_encode_new hhead hpos hname hsize, buf_encodeUserBuf hhead, Buffer.new]
  refine ⟨hsame, fun c hc => ?_⟩
  rw [hsame, or_self, Buffer.Receives, (wire_encodeUserBuf hhead _).1,
    (wire_encodeUserBuf hhead _).2] at hc
  have hlen : (UserBuffer.ofMsg protoMsg).body.length < 65536 := by
    simpa [Buffer.body] using Buffer.getBodySize_lt (b := UserBuffer.ofMsg protoMsg)
  have hdecode := decodeUserBuf_eq hhead .new hlen hc
  have hframe : read c.buf 4 (headBytes head).length = headBytes head := by
    rw [relayBytes, read_eq_append_iff, read_eq_append_iff, length_leBytes] at hc
    exact hc.2.1
  rw [decodeHead_eq hhead hframe, Option.map_some] at hdecode
  refine ⟨_, _, hdecode, ?_⟩
  rw [Buffer.new, UserBuffer.setBodySize_body_ofMsg hname hsize]

/-- Both ways to encode a ping for the session 7. -/
theorem encode_paths_agree_ping :
    encode .new ⟨7, [97], []⟩ ⟨[112], []⟩ =
        encodeUserBuf .new ⟨7, [97], []⟩ (UserBuffer.ofMsg ⟨[112], []⟩) ∧
      ∃ p userBuf, decodeUserBuf (encode .new ⟨7, [97], []⟩ ⟨[112], []⟩) .new = some (p, userBuf) ∧
        userBuf.wire = (UserBuffer.ofMsg ⟨[112], []⟩).wire := by
  have h := encode_paths_agree ⟨7, [97], []⟩ ⟨by decide, by decide⟩ ⟨[112], []⟩ (by decide)
    (by decide) (by decide)
  exact ⟨h.1, h.2 _ (.inl rfl)⟩

/-! ## Decoding inside the buffers -/

/-- `user_buf_size`: the number of bytes that `Decode` copies. -/
def userBufSize (b : PipeBuffer) (p : HeadParts) : ℕ :=
  sizeT ((b.getBodySize : ℤ) - 4 - 1 - p.appid.size - 1 - p.userId.size) % 2 ^ 32

/-- Each string of a received frame is absent or has a NUL at its announced end. -/
def Terminators (b : PipeBuffer) : Prop :=
  (b.appidSize = 0 ∨ b.buf (b.getBody + 4 + b.appidSize) = 0) ∧
    (b.userIdSize = 0 ∨ b.buf (b.getBody + 4 + 1 + b.appidSize + b.userIdSize) = 0)

/-- The terminator that `Decode` looks for, if there is a string, lies inside the body. -/
def Field.InBody (f : Field) (b : PipeBuffer) : Prop :=
  ∀ ptr, f.ptr = some ptr → ptr + f.size - 1 < b.getBody + b.getBodySize

/-- `Decode` has taken a user frame out of `b` without leaving either buffer: the head lies inside
the body, the rest of the body is what is copied, it fits the user buffer, and the user buffer
has its size. -/
structure Bounded (b : PipeBuffer) (p : HeadParts) (userBuf : UserBuffer) : Prop where
  headFits : 6 + b.appidSize + b.userIdSize ≤ b.getBodySize
  appid : p.appid.InBody b
  userId : p.userId.InBody b
  copied : (b.userBufSize p : ℤ) = b.getBodySize - 6 - b.appidSize - b.userIdSize
  capacity : b.userBufSize p ≤ userBuf.getMaxSize - userBuf.getHeaderSize
  stored : userBuf.getBodySize = b.userBufSize p

/-- What `Decode` checks of a string and what it sets. -/
lemma decodeField_eq_some_iff {m : Mem} {a : ℕ} {f : Field} : decodeField m a = some f ↔
    ((m a).toNat = 0 ∨ m (a + (m a).toNat) = 0) ∧
      f = ⟨(m a).toNat, if (m a).toNat = 0 then none else some (a + 1)⟩ := by
  have hnul : a + 1 + (m a).toNat - 1 = a + (m a).toNat := by omega
  simp only [decodeField, hnul]
  by_cases hzero : (m a).toNat = 0
  · simp [hzero, eq_comm]
  · by_cases hterm : m (a + (m a).toNat) = 0 <;> simp [hzero, hterm, eq_comm]

/-- `Decode` accepts a frame exactly when the terminators are in place, and it takes the sizes of
the strings from the frame. -/
lemma decodeHead_eq_some_iff {p : HeadParts} : decodeHead b = some p ↔
    Terminators b ∧ p =
      { sessionId := b.getBody
        appid := ⟨b.appidSize, if b.appidSize = 0 then none else some (b.getBody + 4 + 1)⟩
        userId := ⟨b.userIdSize, if b.userIdSize = 0 then none
          else some (b.getBody + 4 + 1 + b.appidSize + 1)⟩ } := by
  simp only [decodeHead, Option.bind_eq_bind, Option.bind_eq_some_iff, decodeField_eq_some_iff,
    Option.some.injEq]
  constructor
  · rintro ⟨f, ⟨happid, rfl⟩, g, ⟨huser, rfl⟩, rfl⟩
    exact ⟨⟨happid, huser⟩, rfl⟩
  · rintro ⟨⟨happid, huser⟩, rfl⟩
    exact ⟨_, ⟨happid, rfl⟩, _, ⟨huser, rfl⟩, rfl⟩

/-- What `Decode` does once it has accepted a head. -/
lemma decodeUserBuf_of_decodeHead {p : HeadParts} {userBuf : UserBuffer}
    (h : decodeHead b = some p) : decodeUserBuf b userBuf =
      some (p, Buffer.setBodySize ⟨write userBuf.buf userBuf.getBody (read b.buf
        (b.getBody + 4 + 1 + p.appid.size + 1 + p.userId.size) (b.userBufSize p))⟩
          (b.userBufSize p)) := by
  rw [decodeUserBuf, h]
  rfl

/-- The number of bytes copied when the head lies inside the body. -/
lemma userBufSize_eq {p : HeadParts} (h : decodeHead b = some p)
    (hlower : 6 + b.appidSize + b.userIdSize ≤ b.getBodySize) :
    b.userBufSize p = b.getBodySize - (6 + b.appidSize + b.userIdSize) := by
  have happid : p.appid.size = b.appidSize := by rw [(decodeHead_eq_some_iff.mp h).2]
  have huser : p.userId.size = b.userIdSize := by rw [(decodeHead_eq_some_iff.mp h).2]
  have hlt : b.getBodySize < 2 ^ 32 := Buffer.getBodySize_lt
  have hcount : ((b.getBodySize : ℤ) - 4 - 1 - p.appid.size - 1 - p.userId.size) =
      (b.getBodySize - (6 + b.appidSize + b.userIdSize) : ℕ) := by omega
  rw [userBufSize, hcount, sizeT_natCast (by omega)]
  exact Nat.mod_eq_of_lt (by omega)

/-- A string that is there ends inside the body if its size says so. -/
lemma Field.inBody_of_le {n ptr : ℕ} (h : ptr + n ≤ b.getBody + b.getBodySize) :
    Field.InBody ⟨n, if n = 0 then none else some ptr⟩ b := by
  by_cases hn : n = 0
  · simp [Field.InBody, hn]
  · simp only [Field.InBody, if_neg hn, Option.some.injEq]
    rintro _ rfl
    omega

/-- A decoded frame with a head that lies inside the body and a rest that fits the user buffer is
decoded inside the buffers. -/
lemma bounded_of_decode {p : HeadParts} {userBuf userBuf' : UserBuffer}
    (h : decodeUserBuf b userBuf = some (p, userBuf'))
    (hlower : 6 + b.appidSize + b.userIdSize ≤ b.getBodySize)
    (hupper : b.getBodySize ≤ 6 + b.appidSize + b.userIdSize + 16382) :
    Bounded b p userBuf' := by
  obtain ⟨q, hq, -⟩ := Option.bind_eq_some_iff.mp h
  rw [decodeUserBuf_of_decodeHead hq] at h
  cases h
  have hcount := userBufSize_eq hq hlower
  obtain ⟨-, rfl⟩ := decodeHead_eq_some_iff.mp hq
  refine ⟨hlower, Field.inBody_of_le (by omega), Field.inBody_of_le (by omega), ?_, ?_, ?_⟩
  · rw [hcount]
    omega
  · rw [hcount]
    simp only [Buffer.getMaxSize, Buffer.getHeaderSize]
    omega
  · rw [Buffer.getBodySize_setBodySize]
    exact Nat.mod_eq_of_lt (by omega)

/-- **Decoding inside the buffers.** A frame that `Decode` accepts is decoded inside the buffers
exactly when one of its terminators is missing, so that it is refused, or its head lies inside
its body and the rest of the body fits a user buffer.

**Proof sketch.** `Decode` checks nothing but the terminators (`decodeHead_eq_some_iff`). If they
are in place, a head that reaches past the body breaks the first condition, and a rest that is too
large breaks the bound on the bytes copied, whose number is exact (`userBufSize_eq`). -/
theorem decodeUserBuf_bounded_iff (b : PipeBuffer) (userBuf : UserBuffer) :
    (∀ p userBuf', decodeUserBuf b userBuf = some (p, userBuf') → Bounded b p userBuf') ↔
      ¬ Terminators b ∨ 6 + b.appidSize + b.userIdSize ≤ b.getBodySize ∧
        b.getBodySize ≤ 6 + b.appidSize + b.userIdSize + 16382 := by
  constructor
  · intro h
    by_cases hterm : Terminators b
    · have hhead := decodeHead_eq_some_iff.mpr ⟨hterm, rfl⟩
      have hbounded := h _ _ (decodeUserBuf_of_decodeHead hhead)
      have hcopied := hbounded.copied
      have hcapacity := hbounded.capacity
      simp only [Buffer.getMaxSize, Buffer.getHeaderSize] at hcapacity
      exact .inr ⟨hbounded.headFits, by omega⟩
    · exact .inl hterm
  · rintro (hterm | ⟨hlower, hupper⟩) p userBuf' hp
    · obtain ⟨q, hq, -⟩ := Option.bind_eq_some_iff.mp hp
      exact absurd (decodeHead_eq_some_iff.mp hq).1 hterm
    · exact bounded_of_decode hp hlower hupper

/-- A body of one byte is accepted, and so is one that is larger than a user buffer. -/
theorem decodeUserBuf_bounded_fails :
    ¬ ∀ (b : PipeBuffer) (userBuf : UserBuffer), 1 ≤ b.getBodySize →
      b.getBodySize ≤ 512 * 1024 - 4 → ∀ p userBuf',
        decodeUserBuf b userBuf = some (p, userBuf') → Bounded b p userBuf' := by
  intro h
  have hhead : decodeHead (Buffer.setBodySize .new 1) = some ⟨4, ⟨0, none⟩, ⟨0, none⟩⟩ := rfl
  have hbounded := h (Buffer.setBodySize .new 1) .new (by decide +kernel) (by decide +kernel) _ _
    (decodeUserBuf_of_decodeHead hhead)
  exact absurd hbounded.headFits (by decide +kernel)

/-! ## Frames that are let in -/

/-- The size byte of the type name in a relay frame, as `Encode` computes it. -/
def msgNameSize (typeName : Bytes) : ℕ :=
  (if typeName.length ≠ 0 then typeName.length + 1 else 0) % 2 ^ 8

/-- The body size of the frame of a message. -/
def messageBodySize (head : PipeHead) (protoMsg : ProtoMsg) : ℕ :=
  headSize head + 1 + msgNameSize protoMsg.typeName + protoMsg.byteSize + 4

/-- The body size of the frame of a user buffer. -/
def userBufBodySize (head : PipeHead) (userBuf : UserBuffer) : ℕ :=
  headSize head + userBuf.getBodySize

/-- The body size that `Encode` stores for a message, in 32 bits. -/
lemma getBodySize_encode_mod (hhead : PipeHead.Short head) :
    Buffer.getBodySize (encode b head protoMsg) = messageBodySize head protoMsg % 2 ^ 32 := by
  simp only [encode, encodeHead_eq hhead]
  rw [Buffer.getBodySize_setBodySize, messageBodySize, headSize, msgNameSize]
  omega

/-- The body size that `Encode` stores for a user buffer. -/
lemma getBodySize_encodeUserBuf (hhead : PipeHead.Short head) {userBuf : UserBuffer} :
    Buffer.getBodySize (encodeUserBuf b head userBuf) = userBufBodySize head userBuf := by
  have hsmall := headSize_le hhead
  have hbody : userBuf.getBodySize < 65536 := Buffer.getBodySize_lt
  simp only [encodeUserBuf, encodeHead_eq hhead]
  simp only [userBufBodySize, headSize] at hsmall ⊢
  rw [Buffer.getBodySize_setBodySize]
  omega

/-- The receiving side lets in a frame that fits its buffer unless the low 16 bits of the body
size are zero. -/
lemma sizeValid_received (hfits : 4 + b.getBodySize ≤ 512 * 1024) :
    (c.readHeader (b.wire.take 4)).sizeValid = true ↔ b.getBodySize % 65536 ≠ 0 := by
  have hsize : 4 ≤ b.size := by
    rw [Buffer.size, Buffer.getHeaderSize]
    omega
  rw [Buffer.sizeValid_iff_mod, Buffer.getBodySize_readHeader_wire hsize]
  omega

/-- The frame of a message is let in unless its body size is a multiple of 65536. -/
lemma sizeValid_message (hhead : PipeHead.Short head)
    (hfits : 4 + messageBodySize head protoMsg ≤ 512 * 1024) :
    (c.readHeader ((encode b head protoMsg).wire.take 4)).sizeValid = true ↔
      messageBodySize head protoMsg % 65536 ≠ 0 := by
  have hsize : Buffer.getBodySize (encode b head protoMsg) = messageBodySize head protoMsg := by
    rw [getBodySize_encode_mod hhead]
    omega
  rw [sizeValid_received (hsize ▸ hfits), hsize]

/-- **Frames that are let in.** What `Encode` makes of a message or a user buffer, if it fits the
buffer, is let in by the receiving side exactly when its body size is not a multiple of 65536.

**Proof sketch.** The receiving side has the body size that was encoded
(`getBodySize_encode_mod`, `getBodySize_encodeUserBuf`), and `SizeValid` looks at its low 16 bits
(`sizeValid_received`). -/
theorem sizeValid_encode_iff (head : PipeHead) (hhead : PipeHead.Short head) (b c : PipeBuffer) :
    (∀ protoMsg, 4 + messageBodySize head protoMsg ≤ 512 * 1024 →
      ((c.readHeader ((encode b head protoMsg).wire.take 4)).sizeValid = true ↔
        messageBodySize head protoMsg % 65536 ≠ 0)) ∧
    ∀ userBuf, 4 + userBufBodySize head userBuf ≤ 512 * 1024 →
      ((c.readHeader ((encodeUserBuf b head userBuf).wire.take 4)).sizeValid = true ↔
        userBufBodySize head userBuf % 65536 ≠ 0) := by
  refine ⟨fun protoMsg hfits => sizeValid_message hhead hfits, fun userBuf hfits => ?_⟩
  have hsize : Buffer.getBodySize (encodeUserBuf b head userBuf) = userBufBodySize head userBuf :=
    getBodySize_encodeUserBuf hhead
  rw [sizeValid_received (hsize ▸ hfits), hsize]

/-- The frame of a ping is let in, as a message and as the relay of a user buffer. -/
theorem sizeValid_encode_ping :
    (Buffer.readHeader .new ((encode .new ⟨7, [97], []⟩ ⟨[112], []⟩).wire.take 4) :
      PipeBuffer).sizeValid = true ∧
    (Buffer.readHeader .new
      ((encodeUserBuf .new ⟨7, [97], []⟩ (UserBuffer.ofMsg ⟨[112], []⟩)).wire.take 4) :
      PipeBuffer).sizeValid = true := by
  obtain ⟨hmessage, huserBuf⟩ :=
    sizeValid_encode_iff ⟨7, [97], []⟩ ⟨by decide, by decide⟩ .new .new
  exact ⟨(hmessage _ (by decide)).mpr (by decide),
    (huserBuf _ (by decide +kernel)).mpr (by decide +kernel)⟩

/-- A message whose body has 65536 bytes is refused. -/
theorem sizeValid_encode_fails :
    ¬ ∀ (head : PipeHead) (protoMsg : ProtoMsg) (b c : PipeBuffer), PipeHead.Short head →
      4 + messageBodySize head protoMsg ≤ 512 * 1024 →
      (c.readHeader ((encode b head protoMsg).wire.take 4)).sizeValid = true := by
  intro h
  obtain ⟨data, hdata⟩ : ∃ data : Bytes, data.length = 65523 :=
    ⟨List.replicate 65523 0, List.length_replicate⟩
  have hbody : messageBodySize ⟨7, [], []⟩ ⟨[112], data⟩ = 65536 := by
    simp [messageBodySize, headSize, fieldSize, msgNameSize, ProtoMsg.byteSize, hdata]
  have hshort : PipeHead.Short ⟨7, [], []⟩ := ⟨by decide, by decide⟩
  have hvalid := h ⟨7, [], []⟩ ⟨[112], data⟩ .new .new hshort (by omega)
  rw [sizeValid_message hshort (by omega), hbody] at hvalid
  exact absurd hvalid (by decide)

end PipeBuffer

end FightingCard
