import FightingCard.Common.UserBuffer

set_option relaxedAutoImplicit false
set_option autoImplicit false

/-!
# Relay frames

The frames exchanged between servers (`common/pipe_buffer.h`, `common/pipe_buffer.cpp`): a
32-bit body size, a session id, two optional strings with their sizes, and then either a
message, laid out as in a user frame, or the body of a user frame that is passed on.

Both encoders start with the same code for the session id and the strings, and so do both
decoders; here this code is `encodeHead` and `decodeHead`. The abstract counterpart of the
head is `PipeBuffer.Head.frame`, its bytes as a list.

## Main definitions

* `FightingCard.PipeBuffer.encode`, `FightingCard.PipeBuffer.decode` — `Encode` of a message and
  `Decode()`.
* `FightingCard.PipeBuffer.encodeUserBuf`, `FightingCard.PipeBuffer.decodeUserBuf` — `Encode` of
  a user buffer and `Decode(UserBuffer*)`.
* `FightingCard.PipeBuffer.Head`, `FightingCard.PipeBuffer.Message` — heads and messages that
  can be sent.

## Main results

* `FightingCard.PipeBuffer.relay_round_trip` — relayed user frames survive both directions.
* `FightingCard.PipeBuffer.message_size_wrong` — the payload size of a decoded message is too
  large, for every message.
-/

namespace FightingCard

open ByteMem

/-- `PipeHead`. -/
structure PipeHead where
  sessionId : UInt32
  appid : Bytes
  userId : Bytes

/-- `PipeBuffer`: a buffer of 512 KiB with a 32-bit header. -/
abbrev PipeBuffer := Buffer 4 (512 * 1024)

namespace PipeBuffer

/-! ## Encoding -/

/-- The size byte and the string of `appid` or `user_id`, stored at `sizeAt`; also the value of
the size byte. An empty string has no terminator. -/
def encodeField (m : Mem) (sizeAt : ℕ) (s : Bytes) : Mem × ℕ :=
  if s.length = 0 then (write m sizeAt [UInt8.ofNat s.length], 0)
  else
    let size := (s.length + 1) % 2 ^ 8
    let ptr := sizeAt + 1
    let m := write m sizeAt [UInt8.ofNat size]
    let m := write m ptr s
    (write m (ptr + size - 1) [0], size)

/-- The part of both `Encode`s up to `user_id`: the memory, `*appid_size` and
`*user_id_size`. -/
def encodeHead (m : Mem) (body : ℕ) (head : PipeHead) : Mem × ℕ × ℕ :=
  let m := write m body (leBytes 4 head.sessionId.toNat)
  let (m, appidSize) := encodeField m (body + 4) head.appid
  let (m, userIdSize) := encodeField m (body + 4 + 1 + appidSize) head.userId
  (m, appidSize, userIdSize)

/-- `Encode(session_id, appid, user_id, proto_msg)`. -/
def encode (b : PipeBuffer) (head : PipeHead) (protoMsg : ProtoMsg) : PipeBuffer :=
  let (m, appidSize, userIdSize) := encodeHead b.buf b.getBody head
  let msgNameSizeAt := b.getBody + 4 + 1 + appidSize + 1 + userIdSize
  let msgNameSize :=
    (if protoMsg.typeName.length ≠ 0 then protoMsg.typeName.length + 1 else 0) % 2 ^ 8
  let m := write m msgNameSizeAt [UInt8.ofNat msgNameSize]
  let msgName := msgNameSizeAt + 1
  let m :=
    if msgNameSize ≠ 0 then
      write (write m msgName ((cStr protoMsg.typeName).take msgNameSize))
        (msgName + msgNameSize - 1) [0]
    else m
  let msgData := msgName + msgNameSize
  let m := protoMsg.serializeToArray m msgData protoMsg.byteSize
  let bodySize :=
    (4 + 1 + appidSize + 1 + userIdSize + 1 + msgNameSize + protoMsg.byteSize + 4) % 2 ^ 32
  Buffer.setBodySize ⟨m⟩ bodySize

/-- `Encode(session_id, appid, user_id, user_buf)`. -/
def encodeUserBuf (b : PipeBuffer) (head : PipeHead) (userBuf : UserBuffer) : PipeBuffer :=
  let (m, appidSize, userIdSize) := encodeHead b.buf b.getBody head
  let buf := b.getBody + 4 + 1 + appidSize + 1 + userIdSize
  let m := write m buf (read userBuf.buf userBuf.getBody userBuf.getBodySize)
  Buffer.setBodySize ⟨m⟩ (4 + 1 + appidSize + 1 + userIdSize + userBuf.getBodySize)

/-! ## Decoding -/

/-- A decoded string: its size byte, and the pointer to it or `nullptr`. -/
structure Field where
  size : ℕ
  ptr : Option ℕ

/-- The size byte and the string at `sizeAt`; `none` if the terminator is missing. -/
def decodeField (m : Mem) (sizeAt : ℕ) : Option Field :=
  let size := (m sizeAt).toNat
  if size = 0 then some ⟨size, none⟩
  else
    let ptr := sizeAt + 1
    if m (ptr + size - 1) ≠ 0 then none else some ⟨size, some ptr⟩

/-- The members set by both `Decode`s up to `user_id`. -/
structure HeadParts where
  sessionId : ℕ
  appid : Field
  userId : Field

/-- The part of both `Decode`s up to `user_id`. -/
def decodeHead (b : PipeBuffer) : Option HeadParts := do
  let sessionId := b.getBody
  let appid ← decodeField b.buf (b.getBody + 4)
  let userId ← decodeField b.buf (b.getBody + 4 + 1 + appid.size)
  some { sessionId, appid, userId }

/-- The members set by `Decode()`. -/
structure Parts where
  head : HeadParts
  msgNameSize : ℕ
  msgName : ℕ
  msgData : ℕ
  msgDataSize : ℕ

/-- `Decode()`; `none` stands for the return value `false`. The payload size is computed from the
body size without the session id and the two strings. -/
def decode (b : PipeBuffer) : Option Parts := do
  let head ← decodeHead b
  let msgNameSize := b.getBody + 4 + 1 + head.appid.size + 1 + head.userId.size
  let nameSize := (b.buf msgNameSize).toNat
  if nameSize < 2 then none
  else
    let msgName := msgNameSize + 1
    if b.buf (msgName + nameSize - 1) ≠ 0 then none
    else
      let msgData := msgName + nameSize
      let msgDataSize := sizeT ((b.getBodySize : ℤ) - 1 - nameSize - 4)
      some { head, msgNameSize, msgName, msgData, msgDataSize }

/-- `Decode(user_buf)`, with the user buffer it fills. The number of bytes copied is a
`uint32_t`. -/
def decodeUserBuf (b : PipeBuffer) (userBuf : UserBuffer) : Option (HeadParts × UserBuffer) := do
  let head ← decodeHead b
  let msgNameSize := b.getBody + 4 + 1 + head.appid.size + 1 + head.userId.size
  let userBufSize :=
    sizeT ((b.getBodySize : ℤ) - 4 - 1 - head.appid.size - 1 - head.userId.size) % 2 ^ 32
  let m := write userBuf.buf userBuf.getBody (read b.buf msgNameSize userBufSize)
  some (head, Buffer.setBodySize ⟨m⟩ userBufSize)

/-! ## What a reader gets -/

/-- The string at a decoded pointer. -/
def Field.view (f : Field) (m : Mem) : Option Bytes := f.ptr.map fun p => cString (read m p f.size)

/-- The session id and the strings of a decoded frame; an absent string is a `nullptr`. -/
structure HeadView where
  sessionId : UInt32
  appid : Option Bytes
  userId : Option Bytes

/-- The head of a decoded frame seen through the buffer. -/
def HeadParts.view (p : HeadParts) (b : PipeBuffer) : HeadView where
  sessionId := UInt32.ofNat (leNat (read b.buf p.sessionId 4))
  appid := p.appid.view b.buf
  userId := p.userId.view b.buf

/-- The strings with `nullptr` read as the empty string. -/
def HeadView.head (v : HeadView) : PipeHead := ⟨v.sessionId, v.appid.getD [], v.userId.getD []⟩

/-- The outcome of `Decode(user_buf)` followed by the accessors. -/
def relayed (b : PipeBuffer) (userBuf : UserBuffer) : Option (HeadView × UserBuffer) :=
  (decodeUserBuf b userBuf).map fun (p, userBuf) => (p.view b, userBuf)

/-- What a reader gets out of a decoded message. -/
structure Received where
  head : HeadView
  typeName : Bytes
  msgData : Bytes
  msgDataSize : ℕ

/-- The outcome of `Decode()` followed by the accessors. -/
def received (b : PipeBuffer) : Option Received :=
  (decode b).map fun p =>
    { head := p.head.view b
      typeName := cString (read b.buf p.msgName (p.msgData - p.msgName))
      msgData := b.extent p.msgData p.msgDataSize
      msgDataSize := p.msgDataSize }

/-! ## Frames -/

/-- A head that can be sent: its strings are NUL-free and short enough for their size bytes. -/
structure Head extends PipeHead where
  appid_le : appid.length ≤ 254
  userId_le : userId.length ≤ 254
  appid_nul : 0 ∉ appid
  userId_nul : 0 ∉ userId

/-- The size byte of a string: its length with the terminator, or `0` if it is empty. -/
def fieldSize (s : Bytes) : ℕ := if s = [] then 0 else s.length + 1

/-- The bytes of a string with its size byte. -/
def field (s : Bytes) : Bytes := UInt8.ofNat (fieldSize s) :: if s = [] then [] else cStr s

/-- What a reader should get for a string. -/
def present (s : Bytes) : Option Bytes := if s = [] then none else some s

/-- The bytes of the part of a frame up to `user_id`. -/
def headBytes (head : PipeHead) : Bytes :=
  leBytes 4 head.sessionId.toNat ++ (field head.appid ++ field head.userId)

/-- The number of bytes of the part of a frame up to `user_id`. -/
def headSize (head : PipeHead) : ℕ := 6 + fieldSize head.appid + fieldSize head.userId

namespace Head

variable (head : Head)

/-- The bytes of a head. -/
def frame : Bytes :=
  leBytes 4 head.sessionId.toNat ++ (field head.appid ++ field head.userId)

/-- The number of bytes of a head. -/
def size : ℕ := 6 + fieldSize head.appid + fieldSize head.userId

/-- What a reader should get for a head. -/
def expected : HeadView := ⟨head.sessionId, present head.appid, present head.userId⟩

end Head

variable {m : Mem} {a : ℕ} {s : Bytes} {head : PipeHead}

/-- A string takes its size byte and what the size byte says. -/
@[simp] lemma length_field : (field s).length = 1 + fieldSize s := by
  by_cases h : s = [] <;> simp [field, fieldSize, h]
  omega

/-- The length of an encoded head. -/
@[simp] lemma length_headBytes : (headBytes head).length = headSize head := by
  simp [headBytes, headSize]
  omega

/-- A string that fits its size byte. -/
lemma fieldSize_le (h : s.length ≤ 254) : fieldSize s ≤ 255 := by
  unfold fieldSize
  split <;> omega

/-- Encoding a string stores its bytes. -/
lemma encodeField_eq (h : s.length ≤ 254) :
    encodeField m a s = (write m a (field s), fieldSize s) := by
  by_cases hs : s = []
  · simp [encodeField, field, fieldSize, hs]
  · have hlen : s.length ≠ 0 := by simpa using hs
    have hmod : (s.length + 1) % 2 ^ 8 = s.length + 1 := by omega
    simp only [encodeField, field, fieldSize, if_neg hlen, if_neg hs, hmod, Prod.mk.injEq, and_true]
    rw [write_write_at (by simp), write_write_at (by simp)]
    simp [cStr]

/-- A buffer that holds the bytes of a string is decoded to its size and the address behind its
size byte. -/
lemma decodeField_eq (h : read m a (field s).length = field s) (hle : s.length ≤ 254) :
    decodeField m a = some ⟨fieldSize s, if s = [] then none else some (a + 1)⟩ := by
  have hsize := fieldSize_le hle
  rw [length_field, Nat.add_comm] at h
  simp only [ByteMem.read, field, List.cons.injEq] at h
  obtain ⟨hfirst, hrest⟩ := h
  have hnat : (m a).toNat = fieldSize s := by
    rw [hfirst, UInt8.toNat_ofNat']
    omega
  by_cases hs : s = []
  · subst hs
    simp [decodeField, hnat, fieldSize]
  · rw [if_neg hs] at hrest
    have hlen : fieldSize s = s.length + 1 := by simp [fieldSize, hs]
    have hlast : m (a + 1 + fieldSize s - 1) = 0 := by
      rw [hlen, show a + 1 + (s.length + 1) - 1 = a + 1 + s.length by omega]
      exact apply_terminator (hlen ▸ hrest)
    simp only [decodeField, hnat, if_neg hs]
    rw [if_neg (by omega), if_neg (not_not.mpr hlast)]

/-- The string at the address behind the size byte is the one that was stored, if it is
NUL-free. -/
lemma view_field (h : read m a (field s).length = field s) (hnul : 0 ∉ s) :
    (⟨fieldSize s, if s = [] then none else some (a + 1)⟩ : Field).view m = present s := by
  rw [length_field, Nat.add_comm] at h
  simp only [ByteMem.read, field, List.cons.injEq] at h
  by_cases hs : s = []
  · simp [Field.view, present, hs]
  · rw [if_neg hs] at h
    simp [Field.view, hs, h.2, cString_cStr hnul, present]

/-- The strings of a head are short enough for their size bytes. -/
structure PipeHead.Short (head : PipeHead) : Prop where
  appid_le : head.appid.length ≤ 254
  userId_le : head.userId.length ≤ 254

/-- The strings of a head fit their size bytes. -/
lemma Head.short (head : Head) : PipeHead.Short head.toPipeHead := ⟨head.appid_le, head.userId_le⟩

variable {b c : PipeBuffer} {body : Bytes}

/-- The length of the frame of a head. -/
@[simp] lemma Head.length_frame (head : Head) : head.frame.length = head.size :=
  length_headBytes

/-- A head has 516 bytes at most. -/
lemma headSize_le (hhead : PipeHead.Short head) : headSize head ≤ 516 := by
  have h1 := fieldSize_le hhead.appid_le
  have h2 := fieldSize_le hhead.userId_le
  simp only [headSize]
  omega

/-- A head has 516 bytes at most. -/
lemma Head.size_le (head : Head) : head.size ≤ 516 := headSize_le head.short

/-- Encoding a head stores its bytes. -/
lemma encodeHead_eq (hhead : PipeHead.Short head) : encodeHead m a head =
    (write m a (headBytes head), fieldSize head.appid, fieldSize head.userId) := by
  simp only [encodeHead, encodeField_eq hhead.appid_le, encodeField_eq hhead.userId_le,
    Prod.mk.injEq, and_true]
  rw [write_write_at (by simp; omega), write_write_at (by simp), headBytes]

/-- A buffer that holds the bytes of a head is decoded to it. -/
lemma decodeHead_eq (hhead : PipeHead.Short head)
    (h : read b.buf 4 (headBytes head).length = headBytes head) :
    decodeHead b = some
      { sessionId := 4
        appid := ⟨fieldSize head.appid, if head.appid = [] then none else some (8 + 1)⟩
        userId := ⟨fieldSize head.userId,
          if head.userId = [] then none else some (9 + fieldSize head.appid + 1)⟩ } := by
  rw [headBytes, read_eq_append_iff, read_eq_append_iff] at h
  obtain ⟨-, happid, huser⟩ := h
  rw [length_leBytes] at happid huser
  rw [length_field, ← Nat.add_assoc] at huser
  simp only [decodeHead, Buffer.getBody, decodeField_eq happid hhead.appid_le,
    Option.bind_eq_bind, Option.bind_some, decodeField_eq huser hhead.userId_le]

/-- A decoded head seen through a buffer that holds its bytes. -/
lemma decodeHead_of_read {head : Head} (h : read b.buf 4 head.frame.length = head.frame) :
    ∃ p, decodeHead b = some p ∧ p.appid.size = fieldSize head.appid ∧
      p.userId.size = fieldSize head.userId ∧ p.view b = head.expected := by
  refine ⟨_, decodeHead_eq head.short h, rfl, rfl, ?_⟩
  rw [Head.frame, read_eq_append_iff, read_eq_append_iff] at h
  obtain ⟨hid, happid, huser⟩ := h
  rw [length_leBytes] at hid happid huser
  rw [length_field, ← Nat.add_assoc] at huser
  have hsession : leNat (read b.buf 4 4) = head.sessionId.toNat := by
    rw [hid, leNat_leBytes_of_lt head.sessionId.toNat_lt]
  have hfirst := view_field happid head.appid_nul
  have hsecond := view_field huser head.userId_nul
  simp only [HeadParts.view, hsession, hfirst, hsecond, Head.expected, UInt32.ofNat_toNat]

/-! ## Relayed user frames -/

/-- The bytes of a relayed user frame with the given head and body. -/
def relayBytes (head : PipeHead) (body : Bytes) : Bytes :=
  leBytes 4 (headSize head + body.length) ++ (headBytes head ++ body)

/-- The bytes of a relayed user frame with the given body. -/
def relayFrame (head : Head) (body : Bytes) : Bytes :=
  leBytes 4 (head.size + body.length) ++ (head.frame ++ body)

/-- The length of the bytes of a relay. -/
@[simp] lemma length_relayBytes :
    (relayBytes head body).length = 4 + (headSize head + body.length) := by
  simp [relayBytes]

/-- The length of a relay frame. -/
@[simp] lemma length_relayFrame {head : Head} :
    (relayFrame head body).length = 4 + (head.size + body.length) := length_relayBytes

/-- Encoding a user buffer stores its relay frame. -/
lemma buf_encodeUserBuf (hhead : PipeHead.Short head) {userBuf : UserBuffer} :
    (encodeUserBuf b head userBuf).buf = write b.buf 0 (relayBytes head (Buffer.body userBuf)) := by
  have hlen : (read userBuf.buf userBuf.getBody userBuf.getBodySize).length =
      userBuf.getBodySize := length_read
  simp only [encodeUserBuf, encodeHead_eq hhead, Buffer.setBodySize, Buffer.getBody] at hlen ⊢
  rw [write_write_at (m := b.buf) (by simp [headSize]; omega), write_write_before (by simp)]
  simp only [relayBytes, Buffer.body, Buffer.getBody, hlen, headSize]
  congr 4
  omega

/-- The bytes that are sent for a user buffer are its relay frame. -/
lemma wire_encodeUserBuf (hhead : PipeHead.Short head) (userBuf : UserBuffer) :
    Buffer.size (encodeUserBuf b head userBuf) = (relayBytes head (Buffer.body userBuf)).length ∧
      Buffer.wire (encodeUserBuf b head userBuf) = relayBytes head (Buffer.body userBuf) := by
  have hsmall := headSize_le hhead
  have hbody : (Buffer.body userBuf).length < 65536 := by
    simpa [Buffer.body] using Buffer.getBodySize_lt (b := userBuf)
  have hsize : Buffer.getBodySize (encodeUserBuf b head userBuf) =
      headSize head + (Buffer.body userBuf).length := by
    refine Buffer.getBodySize_of_read ?_ (by omega)
    rw [buf_encodeUserBuf hhead, relayBytes, read_write_left (by simp)]
  have hsize' : Buffer.size (encodeUserBuf b head userBuf) =
      (relayBytes head (Buffer.body userBuf)).length := by
    rw [Buffer.size, hsize, Buffer.getHeaderSize, length_relayBytes]
    omega
  refine ⟨hsize', ?_⟩
  rw [Buffer.wire, hsize', buf_encodeUserBuf hhead, read_write_self]

/-- A buffer that starts with a relay frame is decoded to its body. -/
lemma decodeUserBuf_eq (hhead : PipeHead.Short head) (userBuf : UserBuffer)
    (hbody : body.length < 65536)
    (h : read b.buf 0 (relayBytes head body).length = relayBytes head body) :
    decodeUserBuf b userBuf = (decodeHead b).map fun p =>
      (p, Buffer.setBodySize ⟨write userBuf.buf 2 body⟩ body.length) := by
  have hsmall := headSize_le hhead
  rw [relayBytes, read_eq_append_iff, read_eq_append_iff] at h
  obtain ⟨hheader, hframe, hbytes⟩ := h
  rw [length_leBytes] at hheader hframe hbytes
  have hsize : b.getBodySize = headSize head + body.length :=
    Buffer.getBodySize_of_read hheader (by omega)
  have hcount : sizeT ((b.getBodySize : ℤ) - 4 - 1 - fieldSize head.appid - 1 -
      fieldSize head.userId) % 2 ^ 32 = body.length := by
    rw [hsize, headSize, show (((6 + fieldSize head.appid + fieldSize head.userId + body.length :
      ℕ) : ℤ) - 4 - 1 - fieldSize head.appid - 1 - fieldSize head.userId) = (body.length : ℤ) by
        push_cast; omega, sizeT_natCast (by omega)]
    omega
  have haddr : 4 + 4 + 1 + fieldSize head.appid + 1 + fieldSize head.userId =
      0 + 4 + (headBytes head).length := by
    rw [length_headBytes, headSize]
    omega
  simp only [decodeUserBuf, decodeHead_eq hhead hframe, Option.bind_eq_bind, Option.bind_some,
    hcount, Buffer.getBody, haddr, hbytes, Option.map_some]

/-- A buffer that starts with a relay frame is decoded to its head and its body. -/
lemma relayed_of_read {head : Head} (userBuf : UserBuffer) (hbody : body.length < 65536)
    (h : read b.buf 0 (relayFrame head body).length = relayFrame head body) :
    ∃ userBuf', relayed b userBuf = some (head.expected, userBuf') ∧
      userBuf'.getBodySize = body.length ∧ userBuf'.body = body := by
  have hdecode := decodeUserBuf_eq head.short userBuf hbody h
  rw [relayFrame, read_eq_append_iff, read_eq_append_iff, length_leBytes] at h
  obtain ⟨p, hp, -, -, hview⟩ := decodeHead_of_read h.2.1
  refine ⟨_, ?_, Buffer.body_store (m := userBuf.buf) hbody⟩
  simp only [relayed, hdecode, hp, Option.map_some, hview]

/-- The size byte of the application id of a received frame. -/
def appidSize (b : PipeBuffer) : ℕ := (b.buf (b.getBody + 4)).toNat

/-- The size byte of the user id of a received frame. -/
def userIdSize (b : PipeBuffer) : ℕ := (b.buf (b.getBody + 4 + 1 + b.appidSize)).toNat

/-- The size byte at `sizeAt` is not `1`, and the string it announces, if it announces one, ends
in its only NUL. -/
def Terminated (m : Mem) (sizeAt : ℕ) : Prop :=
  (m sizeAt).toNat ≠ 1 ∧ ∀ i, 1 ≤ i → i ≤ (m sizeAt).toNat →
    (m (sizeAt + i) = 0 ↔ i = (m sizeAt).toNat)

instance {m : Mem} {sizeAt : ℕ} : Decidable (Terminated m sizeAt) :=
  decidable_of_iff ((m sizeAt).toNat ≠ 1 ∧ ∀ i < (m sizeAt).toNat + 1, 1 ≤ i →
      (m (sizeAt + i) = 0 ↔ i = (m sizeAt).toNat))
    (and_congr_right fun _ => forall_congr' fun _ =>
      ⟨fun h h1 h2 => h (Nat.lt_succ_of_le h2) h1, fun h h1 h2 => h h2 (Nat.le_of_lt_succ h1)⟩)

/-- A relay frame with regular strings whose body, after the head, fits a user buffer. -/
structure Relayable (b : PipeBuffer) : Prop where
  appid : Terminated b.buf (b.getBody + 4)
  userId : Terminated b.buf (b.getBody + 4 + 1 + b.appidSize)
  lower : 6 + b.appidSize + b.userIdSize ≤ b.getBodySize
  upper : b.getBodySize ≤ 6 + b.appidSize + b.userIdSize + 16382

/-- A regular string is the encoding of a NUL-free one. -/
lemma Terminated.exists_field (h : Terminated m a) :
    ∃ s : Bytes, s.length ≤ 254 ∧ 0 ∉ s ∧ fieldSize s = (m a).toNat ∧
      read m a (field s).length = field s := by
  obtain ⟨hone, hnul⟩ := h
  have hlt := (m a).toNat_lt
  have hbyte : UInt8.ofNat (m a).toNat = m a := UInt8.ofNat_toNat
  rcases Nat.eq_zero_or_pos (m a).toNat with hzero | hpos
  · refine ⟨[], by simp, by simp, by simp [fieldSize, hzero], ?_⟩
    rw [hzero] at hbyte
    simp [field, fieldSize, read_one, ← hbyte]
  · obtain ⟨k, hk⟩ : ∃ k, (m a).toNat = k + 1 := ⟨(m a).toNat - 1, by omega⟩
    rw [hk] at hnul hbyte hone
    have hne : read m (a + 1) k ≠ [] := fun hnil => by
      have hlen := congrArg List.length hnil
      simp at hlen
      omega
    have hsize : fieldSize (read m (a + 1) k) = k + 1 := by simp [fieldSize, hne]
    refine ⟨read m (a + 1) k, by simp; omega, ?_, by rw [hsize, hk], ?_⟩
    · rw [mem_read]
      rintro ⟨i, hi, h0⟩
      rw [Nat.add_assoc] at h0
      have := (hnul (1 + i) (by omega) (by omega)).mp h0
      omega
    · have hlast : m (a + 1 + k) = 0 := by
        rw [show a + 1 + k = a + (k + 1) by omega]
        exact (hnul (k + 1) (by omega) le_rfl).mpr rfl
      rw [length_field, hsize, Nat.add_comm, field, hsize, hbyte, if_neg hne, cStr]
      rw [ByteMem.read, read_add, read_one, hlast]

/-- The head of a regular frame is the encoding of one that can be sent. -/
lemma Relayable.exists_head (h : Relayable b) :
    ∃ head : Head, head.size = 6 + b.appidSize + b.userIdSize ∧
      read b.buf 4 head.frame.length = head.frame := by
  obtain ⟨appid, hale, hanul, hasize, haread⟩ := h.appid.exists_field
  obtain ⟨userId, hule, hunul, husize, huread⟩ := h.userId.exists_field
  have hid : leNat (read b.buf 4 4) < 2 ^ 32 := by
    simpa using leNat_lt (read b.buf 4 4)
  refine ⟨⟨⟨UInt32.ofNat (leNat (read b.buf 4 4)), appid, userId⟩, hale, hule, hanul, hunul⟩,
    by simp [Head.size, hasize, husize, appidSize, userIdSize], ?_⟩
  rw [Head.frame, read_eq_append_iff, read_eq_append_iff]
  refine ⟨?_, ?_, ?_⟩
  · rw [length_leBytes, UInt32.toNat_ofNat_of_lt' hid]
    simpa using (leBytes_leNat (read b.buf 4 4)).symm
  · rw [length_leBytes]
    exact haread
  · rw [length_leBytes, length_field, hasize, ← Nat.add_assoc]
    exact huread

/-- A regular frame is the relay frame of its head and the rest of its body. -/
lemma Relayable.exists_frame (h : Relayable b) : ∃ (head : Head) (body : Bytes),
    body.length < 65536 ∧ b.wire = relayFrame head body ∧
      read b.buf 0 (relayFrame head body).length = relayFrame head body := by
  obtain ⟨head, hsize, hframe⟩ := h.exists_head
  have hhead := head.size_le
  have hlower := h.lower
  have hupper := h.upper
  obtain ⟨n, hn⟩ : ∃ n, b.getBodySize = head.size + n := ⟨b.getBodySize - head.size, by omega⟩
  have hread : read b.buf 0 (4 + (head.size + n)) =
      relayFrame head (read b.buf (4 + head.size) n) := by
    have hheader : leBytes 4 (head.size + n) = read b.buf 0 4 := by
      rw [← hn, Buffer.getBodySize]
      simpa using leBytes_leNat (read b.buf 0 4)
    rw [read_add, Nat.zero_add, read_add, relayFrame, length_read, hheader, ← hframe,
      head.length_frame]
  refine ⟨head, read b.buf (4 + head.size) n, by simp; omega, ?_, by simpa using hread⟩
  rw [Buffer.wire, Buffer.size, hn, Buffer.getHeaderSize,
    show (4 + (head.size + n)) % 256 ^ 4 = 4 + (head.size + n) by omega, hread]

/-- What is expected of a head is the head. -/
lemma Head.head_expected (head : Head) : head.expected.head = head.toPipeHead := by
  have h : ∀ s : Bytes, (present s).getD [] = s := fun s => by
    by_cases hs : s = [] <;> simp [present, hs]
  simp [expected, HeadView.head, h]

/-- **The relay round trip.** A user buffer that is encoded with a session id and two strings,
sent, and decoded comes out with the same body, and so do the session id and the strings. A
regular frame that is decoded and encoded again comes out with the same bytes. What the buffers
held before plays no part.

**Proof sketch.** Encoding stores the relay frame of the head and the body
(`buf_encodeUserBuf`), and a buffer that starts with a relay frame is decoded to that head and
that body (`relayed_of_read`). A regular frame is a relay frame (`Relayable.exists_frame`). -/
theorem relay_round_trip :
    (∀ (head : Head) (b c : PipeBuffer) (userBuf userBuf₀ : UserBuffer),
      userBuf.getBodySize ≤ 16382 → c.Receives (encodeUserBuf b head.toPipeHead userBuf) →
      ∃ userBuf', relayed c userBuf₀ = some (head.expected, userBuf') ∧
        userBuf'.getBodySize = userBuf.getBodySize ∧ userBuf'.body = userBuf.body) ∧
    (∀ (b c : PipeBuffer) (userBuf₀ : UserBuffer), Relayable b →
      ∃ v userBuf', relayed b userBuf₀ = some (v, userBuf') ∧
        (encodeUserBuf c v.head userBuf').wire = b.wire) := by
  refine ⟨fun head b c userBuf userBuf₀ hfits hc => ?_, fun b c userBuf₀ hb => ?_⟩
  · obtain ⟨hsize, hwire⟩ := wire_encodeUserBuf (b := b) head.short userBuf
    have hlen : userBuf.body.length = userBuf.getBodySize := length_read
    rw [Buffer.Receives, hsize, hwire] at hc
    obtain ⟨userBuf', hdec, hsize', hbody'⟩ := relayed_of_read userBuf₀ (by omega) hc
    exact ⟨userBuf', hdec, hsize'.trans hlen, hbody'⟩
  · obtain ⟨head, body, hbody, hwire, hread⟩ := hb.exists_frame
    obtain ⟨userBuf', hdec, -, hbody'⟩ := relayed_of_read userBuf₀ hbody hread
    refine ⟨head.expected, userBuf', hdec, ?_⟩
    rw [head.head_expected, (wire_encodeUserBuf head.short _).2, hbody', hwire]
    rfl

/-- The relay frame of session 7 with the strings `a` and `bc` and a body of one byte. -/
def sampleFrame : Bytes := [12, 0, 0, 0, 7, 0, 0, 0, 2, 97, 0, 3, 98, 99, 0, 5]

/-- Both directions at the relay of a user buffer with a body of one byte. -/
theorem relay_round_trip_byte :
    (∃ userBuf', relayed (encodeUserBuf .new ⟨7, [97], [98, 99]⟩ (Buffer.setBodySize .new 1)) .new =
        some (⟨7, some [97], some [98, 99]⟩, userBuf') ∧ userBuf'.getBodySize = 1) ∧
      ∃ v userBuf', relayed ⟨write (fun _ => 0) 0 sampleFrame⟩ .new = some (v, userBuf') ∧
        (encodeUserBuf .new v.head userBuf').wire = sampleFrame := by
  refine ⟨?_, ?_⟩
  · obtain ⟨userBuf', hdec, hsize, -⟩ := relay_round_trip.1
      ⟨⟨7, [97], [98, 99]⟩, by decide, by decide, by decide, by decide⟩ .new _
      (Buffer.setBodySize .new 1) .new (by decide +kernel) rfl
    exact ⟨userBuf', hdec, hsize.trans (by decide +kernel)⟩
  · obtain ⟨v, userBuf', hdec, hwire⟩ := relay_round_trip.2
      ⟨write (fun _ => 0) 0 sampleFrame⟩ .new .new
      ⟨by decide +kernel, by decide +kernel, by decide +kernel, by decide +kernel⟩
    exact ⟨v, userBuf', hdec, hwire.trans (by decide +kernel)⟩

/-! ## Messages -/

/-- A message with a head, whose frame fits the buffer. -/
structure Message extends Head, ProtoMsg where
  name_pos : 1 ≤ typeName.length
  name_le : typeName.length ≤ 254
  name_nul : 0 ∉ typeName
  fits : 4 + 6 + fieldSize appid + fieldSize userId + 1 + (typeName.length + 1) + data.length + 4 ≤
    512 * 1024

namespace Message

variable (msg : Message)

/-- What a reader should get out of the frame of a message. -/
def expected : Received :=
  ⟨msg.toHead.expected, msg.typeName, msg.data, msg.data.length⟩

/-- The body size of the frame of a message. -/
def bodySize : ℕ := msg.toHead.size + (1 + (msg.typeName.length + 1) + msg.data.length + 4)

/-- The frame of a message up to its checksum bytes. -/
def frame : Bytes :=
  leBytes 4 msg.bodySize ++ (msg.toHead.frame ++
    (UInt8.ofNat (msg.typeName.length + 1) :: (cStr msg.typeName ++ msg.data)))

end Message

/-- The body size of the frame of a message with a head. -/
def bodySize (head : PipeHead) (protoMsg : ProtoMsg) : ℕ :=
  headSize head + UserBuffer.bodySize protoMsg

/-- Encoding a message stores its frame. -/
lemma buf_encode_of_short {protoMsg : ProtoMsg} (hhead : PipeHead.Short head)
    (hpos : 1 ≤ protoMsg.typeName.length) (hname : protoMsg.typeName.length ≤ 254)
    (hsize : bodySize head protoMsg < 2 ^ 32) : (encode b head protoMsg).buf = write b.buf 0
      (leBytes 4 (bodySize head protoMsg) ++
        (headBytes head ++ UserBuffer.bodyBytes protoMsg)) := by
  have hne : protoMsg.typeName.length ≠ 0 := by omega
  have hmod : (protoMsg.typeName.length + 1) % 2 ^ 8 = protoMsg.typeName.length + 1 := by omega
  have htake : (cStr protoMsg.typeName).take (protoMsg.typeName.length + 1) =
      cStr protoMsg.typeName := List.take_of_length_le (by simp)
  have hbody : (4 + 1 + fieldSize head.appid + 1 + fieldSize head.userId + 1 +
      (protoMsg.typeName.length + 1) + protoMsg.byteSize + 4) % 2 ^ 32 =
        bodySize head protoMsg := by
    simp only [bodySize, headSize, UserBuffer.bodySize] at hsize ⊢
    omega
  simp only [encode, encodeHead_eq hhead, if_pos hne, hmod, htake, ProtoMsg.serializeToArray,
    le_refl, if_true, Nat.add_one_ne_zero, ne_eq, not_false_eq_true, Buffer.getBody, hbody,
    Buffer.setBodySize]
  rw [write_write_terminator (by omega),
    write_write_at (m := b.buf) (by rw [length_headBytes, headSize]; omega),
    write_write_at (m := b.buf) (by simp [headSize]; omega),
    write_write_at (m := b.buf) (by simp [headSize]; omega), write_write_before (by simp)]
  simp [UserBuffer.bodyBytes, cStr]

variable (msg : Message)

/-- Encoding a message stores its frame. -/
lemma buf_encode :
    (encode b msg.toPipeHead msg.toProtoMsg).buf = write b.buf 0 msg.frame := by
  have hhead := msg.toHead.size_le
  have hfits := msg.fits
  have hsize : bodySize msg.toPipeHead msg.toProtoMsg = msg.bodySize := rfl
  rw [buf_encode_of_short msg.toHead.short msg.name_pos msg.name_le
    (by simp only [hsize, Message.bodySize]; omega)]
  simp [Message.frame, UserBuffer.bodyBytes, cStr, hsize, Head.frame, headBytes]

/-- The length of the frame of a message, without its checksum. -/
lemma Message.length_frame : msg.frame.length + 4 = 4 + msg.bodySize := by
  simp [frame, bodySize]
  omega

/-- The body size that `Encode` stores. -/
lemma getBodySize_encode :
    Buffer.getBodySize (encode b msg.toPipeHead msg.toProtoMsg) = msg.bodySize := by
  have hhead := msg.toHead.size_le
  have hfits := msg.fits
  refine Buffer.getBodySize_of_read ?_ (by simp only [Message.bodySize]; omega)
  rw [buf_encode, Message.frame, read_write_left (by simp)]

/-- A buffer that has received an encoded message starts with its frame. -/
lemma read_of_receives (h : c.Receives (encode b msg.toPipeHead msg.toProtoMsg)) :
    read c.buf 0 msg.frame.length = msg.frame := by
  have hhead := msg.toHead.size_le
  have hfits := msg.fits
  have hlen := msg.length_frame
  have hsize : Buffer.size (encode b msg.toPipeHead msg.toProtoMsg) = msg.frame.length + 4 := by
    rw [Buffer.size, getBodySize_encode, Buffer.getHeaderSize, hlen]
    simp only [Message.bodySize]
    omega
  rw [Buffer.Receives, Buffer.wire, hsize, read_add, read_add, buf_encode, read_write_self] at h
  exact (List.append_inj h (by simp)).1

/-- **Decoding a message.** A buffer that starts with the frame of a message is decoded to its
head and its type name, and to a payload size that counts the head as well.

**Proof sketch.** The frame is taken apart: the header tells the body size, the head is decoded as
it was encoded (`decodeHead_of_read`), and the size byte and the NUL of the type name are in their
places. `Decode` computes the payload size from the whole body size without taking the head away. -/
lemma received_of_read (h : read c.buf 0 msg.frame.length = msg.frame) :
    ∃ r, received c = some r ∧ r.head = msg.toHead.expected ∧ r.typeName = msg.typeName ∧
      r.msgDataSize = msg.data.length + msg.toHead.size := by
  have hhead := msg.toHead.size_le
  have hname := msg.name_le
  have hpos := msg.name_pos
  have hfits := msg.fits
  rw [Message.frame, read_eq_append_iff, read_eq_append_iff] at h
  obtain ⟨hheader, hframe, hrest⟩ := h
  rw [length_leBytes] at hheader hframe hrest
  have hsize : c.getBodySize = msg.bodySize :=
    Buffer.getBodySize_of_read hheader (by simp only [Message.bodySize]; omega)
  obtain ⟨p, hp, happid, huser, hview⟩ := decodeHead_of_read hframe
  rw [← List.singleton_append, read_eq_append_iff, read_eq_append_iff, length_cStr] at hrest
  obtain ⟨hlen, hbytes, -⟩ := hrest
  rw [show 0 + 4 + msg.toHead.frame.length =
    4 + 4 + 1 + fieldSize msg.appid + 1 + fieldSize msg.userId by simp [Head.size]; omega]
    at hlen hbytes
  generalize ha : 4 + 4 + 1 + fieldSize msg.appid + 1 + fieldSize msg.userId = a at hlen hbytes
  have hnat : (c.buf a).toNat = msg.typeName.length + 1 := by
    rw [List.singleton_inj.mp hlen, UInt8.toNat_ofNat']
    omega
  have hnul : c.buf (a + 1 + (msg.typeName.length + 1) - 1) = 0 := by
    rw [show a + 1 + (msg.typeName.length + 1) - 1 = a + 1 + msg.typeName.length by omega]
    exact apply_terminator hbytes
  have hcount : sizeT ((c.getBodySize : ℤ) - 1 - ((msg.typeName.length + 1 : ℕ) : ℤ) - 4) =
      msg.data.length + msg.toHead.size := by
    rw [hsize, ← sizeT_natCast (n := msg.data.length + msg.toHead.size) (by omega)]
    congr 1
    simp only [Message.bodySize]
    omega
  refine ⟨_, by
    simp only [received, decode, hp, Option.bind_eq_bind, Option.bind_some, happid, huser,
      Buffer.getBody, ha, hnat, hcount]
    rw [if_neg (by omega), if_neg (not_not.mpr hnul)]
    rfl, hview, ?_, rfl⟩
  rw [List.length_singleton] at hbytes
  simp only [Nat.add_sub_cancel_left]
  rw [hbytes, cString_cStr msg.name_nul]

/-- `Decode()` returns the message that was encoded. -/
def RoundTrips (msg : Message) (c : PipeBuffer) : Prop := received c = some msg.expected

/-- **The defect.** The decoded payload size is the body size without the name and the checksum,
but with the session id and the two strings: for every message it is too large by the size of
the head, while everything else comes out right. So no message survives the round trip.

**Proof sketch.** Encoding stores the frame of the message (`buf_encode`), and a buffer that
starts with this frame is decoded to the wrong size (`received_of_read`); a head has at least
six bytes. -/
theorem message_size_wrong (msg : Message) (b c : PipeBuffer)
    (hc : c.Receives (encode b msg.toPipeHead msg.toProtoMsg)) : ¬ RoundTrips msg c := by
  obtain ⟨r, hr, -, -, hsize⟩ := received_of_read msg (read_of_receives msg hc)
  intro h
  have heq : r = msg.expected := Option.some.inj (hr.symm.trans h)
  rw [heq, Message.expected] at hsize
  simp only [Head.size] at hsize
  omega

/-- A ping without strings and without payload. -/
def pingMessage : Message where
  sessionId := 7
  appid := []
  userId := []
  typeName := [112]
  data := []
  appid_le := by decide
  userId_le := by decide
  appid_nul := by decide
  userId_nul := by decide
  name_pos := by decide
  name_le := by decide
  name_nul := by decide
  fits := by decide

/-- The smallest frame is decoded to a payload of six bytes. -/
theorem message_size_wrong_ping :
    ¬ RoundTrips pingMessage (encode .new pingMessage.toPipeHead pingMessage.toProtoMsg) :=
  message_size_wrong pingMessage .new _ rfl

/-- A ping without a payload comes out with six bytes. -/
theorem message_round_trip_fails : ¬ ∀ (msg : Message) (b c : PipeBuffer),
    c.Receives (encode b msg.toPipeHead msg.toProtoMsg) → RoundTrips msg c := by
  intro h
  have hsize : (received (encode .new pingMessage.toPipeHead pingMessage.toProtoMsg)).map
      (fun r => r.msgDataSize) = some 6 := by decide +kernel
  have hping : received (encode .new pingMessage.toPipeHead pingMessage.toProtoMsg) =
      some pingMessage.expected := h pingMessage .new _ rfl
  rw [hping] at hsize
  exact absurd hsize (by decide)

end PipeBuffer

end FightingCard
