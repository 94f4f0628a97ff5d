import FightingCard.Common.Relay

set_option relaxedAutoImplicit false
set_option autoImplicit false

/-!
# The layout of relay frames

`PipeBuffer::Encode` squeezes the size of each string into a byte, and it takes the address of
everything behind the string from that byte (`common/pipe_buffer.cpp`). This file says when the
frame has the layout that `common/pipe_buffer.h` documents: the fields one behind the other, each
with its size, and the size of the whole.

## Main definitions

* `FightingCard.PipeBuffer.StringAt` — a string with its size byte.
* `FightingCard.PipeBuffer.LaidOut`, `FightingCard.PipeBuffer.UserBufLaidOut` — the documented
  layout of the frame of a message, and of the frame of a user buffer.

## Main results

* `FightingCard.PipeBuffer.laidOut_encode_iff` — the frames that have this layout.
-/

namespace FightingCard

open ByteMem

namespace PipeBuffer

/-! ## The documented layout -/

/-- The bytes of an optional string: none if it is empty, the string and its terminator
otherwise. -/
def stored (s : Bytes) : Bytes := if s = [] then [] else cStr s

/-- A size byte, and behind it exactly the given bytes, whose number it says. -/
structure StringAt (m : Mem) (sizeAt : ℕ) (bytes : Bytes) : Prop where
  size : (m sizeAt).toNat = bytes.length
  holds : read m (sizeAt + 1) bytes.length = bytes

/-- The session id and the two strings, one behind the other. -/
structure HeadLaidOut (head : PipeHead) (b : PipeBuffer) : Prop where
  sessionId : read b.buf 4 4 = leBytes 4 head.sessionId.toNat
  appid : StringAt b.buf 8 (stored head.appid)
  userId : StringAt b.buf (8 + (1 + (stored head.appid).length)) (stored head.userId)

/-- The number of bytes of the session id and the two strings with their size bytes. -/
def headLayoutSize (head : PipeHead) : ℕ :=
  4 + (1 + (stored head.appid).length) + (1 + (stored head.userId).length)

/-- The body size of the frame of a message: a type name always has its terminator. -/
def layoutSize (head : PipeHead) (protoMsg : ProtoMsg) : ℕ :=
  headLayoutSize head + (1 + (cStr protoMsg.typeName).length) + protoMsg.byteSize + 4

/-- The documented layout of the frame of a message: behind the head its type name and its
payload, and the size of the body is the sum of all regions. -/
structure LaidOut (head : PipeHead) (protoMsg : ProtoMsg) (b : PipeBuffer) : Prop
    extends HeadLaidOut head b where
  typeName : StringAt b.buf (4 + headLayoutSize head) (cStr protoMsg.typeName)
  data : read b.buf (4 + headLayoutSize head + (1 + (cStr protoMsg.typeName).length))
    protoMsg.byteSize = protoMsg.data
  bodySize : b.getBodySize = layoutSize head protoMsg

/-- The documented layout of the frame of a user buffer: behind the head the body of the user
buffer, and the size of the body is the sum of all regions. -/
structure UserBufLaidOut (head : PipeHead) (userBuf : UserBuffer) (b : PipeBuffer) : Prop
    extends HeadLaidOut head b where
  body : read b.buf (4 + headLayoutSize head) userBuf.getBodySize = userBuf.body
  bodySize : b.getBodySize = headLayoutSize head + userBuf.getBodySize

variable {head : PipeHead} {protoMsg : ProtoMsg} {b : PipeBuffer} {s bytes : Bytes}
variable {m : Mem} {a : ℕ}

/-- The stored bytes of a string. -/
lemma length_stored : (stored s).length = fieldSize s := by
  by_cases h : s = [] <;> simp [stored, fieldSize, h]

/-- A field is its size byte and the stored bytes. -/
lemma field_eq_stored : field s = UInt8.ofNat (fieldSize s) :: stored s := rfl

/-- The layout of a head has the size of the head. -/
lemma headLayoutSize_eq : headLayoutSize head = headSize head := by
  simp only [headLayoutSize, length_stored, headSize]
  omega

/-! ## Sizes that a byte can hold -/

/-- A size byte bounds the bytes behind it. -/
lemma StringAt.length_lt (h : StringAt m a bytes) : bytes.length < 256 := by
  rw [← h.size]
  exact (m a).toNat_lt

/-- A string whose stored bytes fit the size byte is short. -/
lemma length_le_of_stored_lt (h : (stored s).length < 256) : s.length ≤ 254 := by
  rw [length_stored] at h
  by_cases hs : s = []
  · simp [hs]
  · simp only [fieldSize, if_neg hs] at h
    omega

/-- A layout needs strings that fit their size bytes. -/
lemma HeadLaidOut.short (h : HeadLaidOut head b) : PipeHead.Short head :=
  ⟨length_le_of_stored_lt h.appid.length_lt, length_le_of_stored_lt h.userId.length_lt⟩

/-- A block that starts with the size of its rest is a string with its size byte. -/
lemma stringAt_of_read (hlen : bytes.length < 256)
    (h : read m a (1 + bytes.length) = UInt8.ofNat bytes.length :: bytes) :
    StringAt m a bytes := by
  rw [read_add, read_one, List.singleton_append] at h
  obtain ⟨hsize, hrest⟩ := List.cons.inj h
  refine ⟨?_, hrest⟩
  rw [hsize, UInt8.toNat_ofNat']
  omega

/-- The bytes of a head are laid out. -/
lemma headLaidOut_of_read (hhead : PipeHead.Short head)
    (h : read b.buf 4 (headBytes head).length = headBytes head) : HeadLaidOut head b := by
  rw [headBytes, read_eq_append_iff, read_eq_append_iff, length_leBytes, length_field,
    length_field] at h
  obtain ⟨hid, happid, huser⟩ := h
  have hlen1 := fieldSize_le hhead.appid_le
  have hlen2 := fieldSize_le hhead.userId_le
  refine ⟨hid, stringAt_of_read ?_ ?_, stringAt_of_read ?_ ?_⟩
  · rw [length_stored]
    omega
  · rw [length_stored, happid, field_eq_stored]
  · rw [length_stored]
    omega
  · rw [length_stored, length_stored, huser, field_eq_stored]

/-! ## Frames that have the layout -/

/-- The frame of a message whose strings fit their size bytes has the layout. -/
lemma laidOut_encode (hhead : PipeHead.Short head) (hpos : 1 ≤ protoMsg.typeName.length)
    (hname : protoMsg.typeName.length ≤ 254) (hfits : 4 + layoutSize head protoMsg ≤ 512 * 1024) :
    LaidOut head protoMsg (encode b head protoMsg) := by
  have hsize : bodySize head protoMsg = layoutSize head protoMsg := by
    simp only [layoutSize, headLayoutSize_eq, bodySize, UserBuffer.bodySize, length_cStr]
    omega
  -- the frame as it is stored
  have hframe : read (encode b head protoMsg).buf 0 (leBytes 4 (bodySize head protoMsg) ++
      (headBytes head ++ UserBuffer.bodyBytes protoMsg)).length =
      leBytes 4 (bodySize head protoMsg) ++ (headBytes head ++ UserBuffer.bodyBytes protoMsg) := by
    rw [buf_encode_of_short hhead hpos hname (by omega)]
    exact read_write_self
  have hbody : UserBuffer.bodyBytes protoMsg =
      (UInt8.ofNat (cStr protoMsg.typeName).length :: cStr protoMsg.typeName) ++ protoMsg.data := by
    simp [UserBuffer.bodyBytes, cStr]
  rw [hbody, read_eq_append_iff, read_eq_append_iff, read_eq_append_iff] at hframe
  obtain ⟨hheader, hhd, hnm, hdata⟩ := hframe
  simp only [length_leBytes, length_headBytes, List.length_cons, Nat.zero_add]
    at hheader hhd hnm hdata
  rw [Nat.add_comm _ 1] at hnm hdata
  refine ⟨headLaidOut_of_read hhead (by rwa [length_headBytes]), ?_, ?_, ?_⟩
  · rw [headLayoutSize_eq]
    exact stringAt_of_read (by rw [length_cStr]; omega) hnm
  · rw [headLayoutSize_eq]
    exact hdata
  · rw [← hsize]
    exact Buffer.getBodySize_of_read hheader (by omega)

/-- A message without a type name has a frame that is one byte too short. -/
lemma name_pos_of_laidOut (h : LaidOut head protoMsg (encode b head protoMsg)) :
    1 ≤ protoMsg.typeName.length := by
  by_contra hzero
  have hsize := h.bodySize
  rw [getBodySize_encode_mod h.short, messageBodySize, msgNameSize, if_neg (by omega)] at hsize
  simp only [layoutSize, headLayoutSize_eq, length_cStr] at hsize
  omega

/-- The frame of a user buffer with strings that fit their size bytes has the layout. -/
lemma userBufLaidOut_encodeUserBuf (hhead : PipeHead.Short head) (userBuf : UserBuffer) :
    UserBufLaidOut head userBuf (encodeUserBuf b head userBuf) := by
  have hsmall := headSize_le hhead
  have hbody : userBuf.body.length = userBuf.getBodySize := by rw [Buffer.body, length_read]
  have hlt : userBuf.getBodySize < 65536 := Buffer.getBodySize_lt
  have hframe : read (encodeUserBuf b head userBuf).buf 0 (relayBytes head userBuf.body).length =
      relayBytes head userBuf.body := by
    rw [buf_encodeUserBuf hhead]
    exact read_write_self
  rw [relayBytes, read_eq_append_iff, read_eq_append_iff] at hframe
  obtain ⟨hheader, hhd, hrest⟩ := hframe
  simp only [length_leBytes, length_headBytes, Nat.zero_add] at hheader hhd hrest
  refine ⟨headLaidOut_of_read hhead (by rwa [length_headBytes]), ?_, ?_⟩
  · rw [headLayoutSize_eq, ← hbody]
    exact hrest
  · rw [headLayoutSize_eq, ← hbody]
    exact Buffer.getBodySize_of_read hheader (by omega)

/-- **The layout of relay frames.** The frame of a message that fits the buffer has the documented
layout exactly when its strings and its type name have at most 254 bytes and the type name is not
empty; and the frame of a user buffer has it exactly when the strings have at most 254 bytes.

**Proof sketch.** The stores of `Encode` are one store of the frame as long as no size is cut to a
byte (`buf_encode_of_short`, `buf_encodeUserBuf`), and its blocks are the fields. A size byte is
less than 256 (`StringAt.length_lt`), so that longer strings are not laid out; and `Encode` gives
an empty type name no terminator (`name_pos_of_laidOut`). -/
theorem laidOut_encode_iff (head : PipeHead) (b : PipeBuffer) :
    (∀ protoMsg, 4 + layoutSize head protoMsg ≤ 512 * 1024 →
      (LaidOut head protoMsg (encode b head protoMsg) ↔
        head.appid.length ≤ 254 ∧ head.userId.length ≤ 254 ∧
          1 ≤ protoMsg.typeName.length ∧ protoMsg.typeName.length ≤ 254)) ∧
    ∀ userBuf, UserBufLaidOut head userBuf (encodeUserBuf b head userBuf) ↔
      head.appid.length ≤ 254 ∧ head.userId.length ≤ 254 := by
  refine ⟨fun protoMsg hfits => ⟨fun h => ?_, ?_⟩, fun userBuf => ⟨fun h => ?_, ?_⟩⟩
  · have hname := h.typeName.length_lt
    rw [length_cStr] at hname
    exact ⟨h.short.appid_le, h.short.userId_le, name_pos_of_laidOut h, by omega⟩
  · rintro ⟨happid, huser, hpos, hname⟩
    exact laidOut_encode ⟨happid, huser⟩ hpos hname hfits
  · exact ⟨h.short.appid_le, h.short.userId_le⟩
  · rintro ⟨happid, huser⟩
    exact userBufLaidOut_encodeUserBuf ⟨happid, huser⟩ userBuf

/-- The frame of a ping for the session 7. -/
theorem laidOut_encode_ping : LaidOut ⟨7, [97], []⟩ ⟨[112], []⟩
    (encode .new ⟨7, [97], []⟩ ⟨[112], []⟩) :=
  ((laidOut_encode_iff ⟨7, [97], []⟩ .new).1 ⟨[112], []⟩ (by decide)).mpr (by decide)

/-- A string of 255 bytes has a size byte that says 0. -/
theorem laidOut_encode_fails : ¬ ∀ (head : PipeHead) (protoMsg : ProtoMsg) (b : PipeBuffer),
    4 + layoutSize head protoMsg ≤ 512 * 1024 → LaidOut head protoMsg (encode b head protoMsg) := by
  intro h
  obtain ⟨appid, happid⟩ : ∃ appid : Bytes, appid.length = 255 :=
    ⟨List.replicate 255 97, List.length_replicate⟩
  have hle : 4 + layoutSize ⟨7, appid, []⟩ ⟨[112], []⟩ ≤ 512 * 1024 := by
    have hstored : fieldSize appid ≤ 256 := by
      unfold fieldSize
      split <;> omega
    simp only [layoutSize, headLayoutSize, length_stored, fieldSize, if_true, length_cStr,
      List.length_cons, List.length_nil, ProtoMsg.byteSize] at hstored ⊢
    omega
  have hshort := (h ⟨7, appid, []⟩ ⟨[112], []⟩ .new hle).short.appid_le
  simp only [happid] at hshort
  omega

end PipeBuffer

end FightingCard
