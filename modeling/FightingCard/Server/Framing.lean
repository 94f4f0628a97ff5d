import FightingCard.Server.GameServer

set_option relaxedAutoImplicit false
set_option autoImplicit false

/-!
# Frames in a reused buffer

A connection reads every frame into the same `read_buf_` (`common/session.h`), and nothing is
cleared between two frames: behind the body of a frame lie the bytes of earlier ones.
`UserBuffer::Decode` follows the name size of the frame without comparing it with the body size,
so it may leave the body. This file compares two connections that have read different frames
and then read the same one.

The other handlers of a connection do not touch `read_buf_`, so a history is given by its frames
alone: they are read one after the other by a connection that has nothing else to do.

## Main definitions

* `FightingCard.UserBuffer.Frame` — a frame that `SizeValid` accepts.
* `FightingCard.UserBuffer.readFrame` — the loop of `DoReadHeader` and `DoReadBody` for one frame.
* `FightingCard.UserBuffer.Isolated` — the outcome of a frame depends on no earlier frame.
* `FightingCard.UserBuffer.Frame.Contained` — `Decode` stays inside the body of the frame.

## Main results

* `FightingCard.UserBuffer.isolated_iff_contained` — a frame is isolated exactly when its
  decoding stays inside its body.
-/

namespace FightingCard

open ByteMem

namespace UserBuffer

/-! ## Reading frames -/

/-- A frame with a body size that `SizeValid` accepts, by its body. -/
structure Frame where
  body : Bytes
  pos : 0 < body.length
  le : body.length ≤ 16 * 1024

namespace Frame

variable (f : Frame)

/-- The header of a frame. -/
def header : Bytes := leBytes 2 f.body.length

/-- The byte that `Decode` takes for the size of the name. -/
def nameSize : ℕ := (f.body.getD 0 0).toNat

/-- The decisions of `Decode` and what it hands on stay inside the body: the name is rejected for
its size, or for a byte of the body in the place of its terminator, or the name and the checksum
leave room for a payload of nonnegative size. -/
def Contained : Prop :=
  f.nameSize < 2 ∨ (f.nameSize < f.body.length ∧ f.body.getD f.nameSize 0 ≠ 0) ∨
    f.nameSize + 5 ≤ f.body.length

instance : Decidable f.Contained := by
  unfold Contained
  infer_instance

end Frame

variable {β : Type} {hooks : Session.Hooks UserBuffer} {x : Session β UserBuffer}
variable {b c : UserBuffer} {f : Frame} {i : ℕ}

/-- A buffer after a frame has been received into it. -/
def receive (b : UserBuffer) (f : Frame) : UserBuffer := (b.readHeader f.header).readBody f.body

/-- One round of the loop of `DoReadHeader` and `DoReadBody`, on a connection and its `read_buf_`:
both reads complete, and the io thread runs the handler of each. -/
def readFrame (hooks : Session.Hooks UserBuffer) (p : Session β UserBuffer × UserBuffer)
    (f : Frame) : Option (Session β UserBuffer × UserBuffer) := do
  let b := Buffer.readHeader p.2 f.header
  let x ← p.1.completeRead (some b)
  let (x, _) ← x.runHandler hooks false
  let b := Buffer.readBody b f.body
  let x ← x.completeRead (some b)
  let (x, _) ← x.runHandler hooks false
  return (x, b)

/-- A connection that waits for the header of its next frame and has nothing else to do. -/
structure Waiting (x : Session β UserBuffer) : Prop where
  isOpen : x.isOpen = true
  reading : x.reading = [.header]
  queue : x.queue = []

/-- `b` is the read buffer of a connection that has read the frames `fs` and waits for the next
one. -/
def Holds (hooks : Session.Hooks UserBuffer) (x : Session β UserBuffer) (fs : List Frame)
    (b : UserBuffer) : Prop := fs.foldlM (readFrame hooks) (x, .new) = some (x, b)

/-- The outcome of the frame is the same after any two histories. -/
def Isolated (hooks : Session.Hooks UserBuffer) (f : Frame) : Prop :=
  ∀ (x : Session UserBuffer UserBuffer), Waiting x → ∀ fs gs b c, Holds hooks x fs b →
    Holds hooks x gs c → (receive b f).outcome = (receive c f).outcome

/-- A frame is written over what `read_buf_` holds. -/
lemma buf_receive : (receive b f).buf = write b.buf 0 (f.header ++ f.body) :=
  Buffer.readBody_readHeader (length_leBytes _ _)

/-- The header tells the length of the body. -/
lemma getBodySize_readHeader : (b.readHeader f.header).getBodySize = f.body.length := by
  have hle := f.le
  refine Buffer.getBodySize_of_read ?_ (by omega)
  have hread : read (write b.buf 0 f.header) 0 f.header.length = f.header := read_write_self
  rwa [Frame.header, length_leBytes] at hread

/-- So does the whole frame. -/
lemma getBodySize_receive : (receive b f).getBodySize = f.body.length := by
  rw [receive, Buffer.getBodySize_readBody, getBodySize_readHeader]

/-- A received frame lies behind its header. -/
lemma receive_apply (h : i < f.body.length) : (receive b f).buf (2 + i) = f.body.getD i 0 := by
  rw [buf_receive, ← write_write_append, Frame.header, length_leBytes, Nat.zero_add,
    write_apply_add h, List.getD_eq_getElem _ _ h]

/-- Behind a received frame the buffer holds what it held before. -/
lemma receive_apply_of_ge (h : f.body.length ≤ i) : (receive b f).buf (2 + i) = b.buf (2 + i) := by
  rw [buf_receive]
  exact write_apply_of_ge (by simp [Frame.header]; omega)

/-- Two buffers that have received the same frame agree on it. -/
lemma receive_agree (h : i < 2 + f.body.length) : (receive b f).buf i = (receive c f).buf i := by
  have hi : i < (f.header ++ f.body).length := by simpa [Frame.header] using h
  rw [buf_receive, buf_receive]
  simpa using (write_apply_add (m := b.buf) (a := 0) hi).trans
    (write_apply_add (m := c.buf) (a := 0) hi).symm

/-! ## Histories -/

/-- A frame that `OnReadBody` accepts leaves the connection as it was and the frame in the
buffer. -/
lemma readFrame_of_onReadBody (hx : Waiting x)
    (hheader : hooks.onReadHeader = Buffer.sizeValid)
    (h : hooks.onReadBody (receive b f) = true) :
    readFrame hooks (x, b) f = some (x, receive b f) := by
  have hvalid : (b.readHeader f.header).sizeValid = true := by
    rw [Buffer.sizeValid_iff, getBodySize_readHeader]
    exact ⟨f.pos, f.le⟩
  obtain ⟨isOpen, reading, writing, writeBufs, timerArmed, queue⟩ := x
  obtain ⟨rfl, rfl, rfl⟩ := hx
  unfold receive at h
  simp [readFrame, Session.completeRead, Session.post, ReadOp.handler, Session.runHandler,
    Session.handle, Session.asyncRead, hheader, hvalid, h, receive]

/-- No frame has been read. -/
lemma holds_nil : Holds hooks x [] .new := rfl

/-- One frame has been read. -/
lemma holds_singleton (hx : Waiting x) (hheader : hooks.onReadHeader = Buffer.sizeValid)
    (h : hooks.onReadBody (receive .new f) = true) : Holds hooks x [f] (receive .new f) := by
  simp [Holds, readFrame_of_onReadBody hx hheader h]

/-! ## The outcome of a frame -/

/-- The arguments of `Dispatch` that a buffer gives when its name has the size `n`. -/
def argsAt (b : UserBuffer) (n : ℕ) : ProtoArgs :=
  let size := sizeT ((b.getBodySize : ℤ) - 1 - n - 4) % 2 ^ 32
  ⟨cString (read b.buf 3 n), b.extent (3 + n) size, size⟩

/-- **The outcome of a frame.** `Decode` looks at the size of the name and at the byte in the
place of its terminator. -/
lemma outcome_receive : (receive b f).outcome =
    if f.nameSize < 2 then none
    else if (receive b f).buf (2 + f.nameSize) ≠ 0 then none
    else some (argsAt (receive b f) f.nameSize) := by
  have hsize : nameSize (receive b f) = f.nameSize := by
    rw [Frame.nameSize, ← receive_apply f.pos]
    rfl
  simp only [outcome, decode_eq, hsize, Buffer.getBody]
  split_ifs <;> simp [decodedParts, Buffer.getBody, hsize, Parts.protoArgs, argsAt]

/-- A frame whose decoding stays inside its body has one outcome. -/
lemma outcome_of_contained (h : f.Contained) : (receive b f).outcome = (receive c f).outcome := by
  rw [outcome_receive, outcome_receive]
  by_cases hshort : f.nameSize < 2
  · rw [if_pos hshort, if_pos hshort]
  rw [if_neg hshort, if_neg hshort]
  rcases h with h | ⟨hlt, hne⟩ | hroom
  · exact absurd h hshort
  · rw [receive_apply hlt, receive_apply hlt, if_pos hne, if_pos hne]
  · rw [receive_agree (b := b) (c := c) (by omega)]
    congr 2
    have hsize : sizeT ((f.body.length : ℤ) - 1 - f.nameSize - 4) =
        f.body.length - 5 - f.nameSize := by
      rw [← sizeT_natCast (n := f.body.length - 5 - f.nameSize) (by have := f.le; omega)]
      congr 1
      omega
    have hmod : (f.body.length - 5 - f.nameSize) % 2 ^ 32 = f.body.length - 5 - f.nameSize :=
      Nat.mod_eq_of_lt (by have := f.le; omega)
    simp only [argsAt, getBodySize_receive, hsize, hmod, Buffer.extent]
    rw [read_congr fun i hi => receive_agree (b := b) (c := c) (by omega),
      read_congr fun i hi => receive_agree (b := b) (c := c) (by omega)]

/-! ## Histories that show through -/

/-- The frame of a message with its checksum bytes. -/
def Message.toFrame (msg : Message) (checkSum : Bytes) (h : checkSum.length = 4) : Frame where
  body := UInt8.ofNat (msg.typeName.length + 1) :: (msg.typeName ++ (0 :: msg.data)) ++ checkSum
  pos := by simp
  le := by
    have := msg.fits
    simp
    omega

/-- A message in its frame is decoded to its name, whatever its checksum bytes are. -/
lemma outcome_toFrame (msg : Message) (checkSum : Bytes) (h : checkSum.length = 4) :
    ∃ args, (receive b (msg.toFrame checkSum h)).outcome = some args ∧
      args.msgName = msg.typeName := by
  have hlen : (msg.toFrame checkSum h).body.length = msg.bodySize := by
    simp [Message.toFrame, Message.bodySize, h]
    omega
  have hread : read (receive b (msg.toFrame checkSum h)).buf 0 msg.frame.length = msg.frame := by
    rw [buf_receive, Frame.header, hlen, Message.toFrame, ← List.append_assoc, ← Message.frame]
    exact read_write_left rfl
  obtain ⟨p, hp, hview⟩ := Option.map_eq_some_iff.mp (received_of_read msg hread)
  refine ⟨p.protoArgs (receive b (msg.toFrame checkSum h)), by simp [outcome, hp], ?_⟩
  exact congrArg Received.typeName hview

/-- The handlers of the server find their messages: both types are linked into the runtime, and
parsing a message leaves its type. -/
structure Links (rt : Protobuf UserMsg) : Prop where
  loginReq : ∃ req, rt.createMessage loginReqName = some (.loginReq req)
  ping : rt.createMessage pingName = some .ping
  parse_loginReq : ∀ req data size,
    ∃ req', (rt.parseFromArray (.loginReq req) data size).2 = .loginReq req'
  parse_ping : ∀ data size, (rt.parseFromArray .ping data size).2 = .ping

variable {rt : Protobuf UserMsg} {rspData : LoginRsp → Bytes}

/-- `OnReadBody` accepts a frame with the name of a handler. -/
lemma onReadBody_of_msgName {args : ProtoArgs} (hrt : Links rt) (hargs : b.outcome = some args)
    (hname : args.msgName = loginReqName ∨ args.msgName = pingName) :
    (userWire rt rspData).hooks.onReadBody b = true := by
  refine onReadBody_userWire_iff.mpr ⟨args, hargs, ?_⟩
  rw [UserProcessor.dispatch]
  rcases hname with hname | hname
  · obtain ⟨req, hreq⟩ := hrt.loginReq
    obtain ⟨req', hreq'⟩ := hrt.parse_loginReq req args.protoData args.protoSize
    obtain ⟨h, hhandler, hfull, hfunc⟩ : ∃ h, userSessionProcessor.handlers loginReqName = some h ∧
        h.fullName = loginReqName ∧ ∀ req, h.func (.loginReq req) = some (.loginReq req) :=
      ⟨_, rfl, rfl, fun _ => rfl⟩
    simp [hname, hhandler, UserHandler.process, hfull, hreq, hreq', hfunc]
  · obtain ⟨h, hhandler, hfull, hfunc⟩ : ∃ h, userSessionProcessor.handlers pingName = some h ∧
        h.fullName = pingName ∧ h.func .ping = some .ping := ⟨_, rfl, rfl, rfl⟩
    simp [hname, hhandler, UserHandler.process, hfull, hrt.ping, hrt.parse_ping, hfunc]

/-- A message whose payload has no zero byte. -/
def noise (typeName : Bytes) (h : typeName = loginReqName ∨ typeName = pingName) : Message where
  typeName
  data := List.replicate 280 1
  name_pos := by rcases h with rfl | rfl <;> decide
  name_le := by rcases h with rfl | rfl <;> decide
  nul_free := by rcases h with rfl | rfl <;> decide
  fits := by
    rw [List.length_replicate]
    rcases h with rfl | rfl <;> decide

/-- The frame of a message whose payload has no zero byte. -/
def noiseFrame (typeName : Bytes) (h : typeName = loginReqName ∨ typeName = pingName) : Frame :=
  (noise typeName h).toFrame (List.replicate 4 1) rfl

/-- Every byte that the size of a name can lead to is nonzero in one of the two frames. -/
lemma noiseFrame_ne_zero (h₂ : 2 ≤ i) (h : i < 260) :
    (noiseFrame pingName (.inr rfl)).body.getD i 0 ≠ 0 ∨
      (noiseFrame loginReqName (.inl rfl)).body.getD i 0 ≠ 0 := by
  have hall : ∀ i < 260, 2 ≤ i → (noiseFrame pingName (.inr rfl)).body.getD i 0 ≠ 0 ∨
      (noiseFrame loginReqName (.inl rfl)).body.getD i 0 ≠ 0 := by decide +kernel
  exact hall i h h₂

/-- A connection can have read a frame that leaves a nonzero byte at a given place. -/
lemma exists_history (rspData : LoginRsp → Bytes) (hrt : Links rt) (hx : Waiting x) (h₂ : 2 ≤ i)
    (h : i < 260) : ∃ fs b, Holds (userWire rt rspData).hooks x fs b ∧ b.buf (2 + i) ≠ 0 := by
  have hholds : ∀ typeName h, Holds (userWire rt rspData).hooks x [noiseFrame typeName h]
      (receive .new (noiseFrame typeName h)) := by
    intro typeName h
    obtain ⟨args, hargs, hname⟩ :=
      outcome_toFrame (b := .new) (noise typeName h) (List.replicate 4 1) rfl
    refine holds_singleton hx rfl (onReadBody_of_msgName hrt hargs ?_)
    rwa [hname]
  have happly : ∀ typeName h, (receive .new (noiseFrame typeName h)).buf (2 + i) =
      (noiseFrame typeName h).body.getD i 0 := by
    intro typeName h
    refine receive_apply ?_
    simp only [noiseFrame, noise, Message.toFrame, List.length_append, List.length_cons,
      List.length_replicate]
    omega
  rcases noiseFrame_ne_zero h₂ h with hne | hne
  · exact ⟨_, _, hholds pingName _, by rwa [happly]⟩
  · exact ⟨_, _, hholds loginReqName _, by rwa [happly]⟩

/-- A payload that begins inside the body and has a negative size shows the byte behind the
body. -/
lemma protoData_shows (hn : 2 ≤ f.nameSize) (hlt : f.nameSize < f.body.length)
    (hroom : f.body.length < f.nameSize + 5)
    (h : (argsAt (receive b f) f.nameSize).protoData =
      (argsAt (receive c f) f.nameSize).protoData) :
    b.buf (2 + f.body.length) = c.buf (2 + f.body.length) := by
  have hname : f.nameSize < 256 := UInt8.toNat_lt _
  have hsize : sizeT ((f.body.length : ℤ) - 1 - f.nameSize - 4) % 2 ^ 32 =
      2 ^ 32 - (f.nameSize + 5 - f.body.length) := by
    simp only [sizeT]
    omega
  simp only [argsAt, getBodySize_receive, hsize, Buffer.extent] at h
  have hbyte := read_eq_read_iff.mp h (f.body.length - 1 - f.nameSize) (by omega)
  rwa [show 3 + f.nameSize + (f.body.length - 1 - f.nameSize) = 2 + f.body.length by omega,
    receive_apply_of_ge le_rfl, receive_apply_of_ge le_rfl] at hbyte

/-- **Earlier frames show through.** `Decode` does not compare the size of the name with the size
of the body. A frame whose name ends outside the body is accepted or rejected on a byte of an
earlier frame, and one whose body ends before the checksum is handed on with a payload that goes
on into earlier frames; every other frame is isolated.

**Proof sketch.** If the decoding stays inside the body, both buffers agree on everything it reads
(`outcome_of_contained`). Otherwise a fresh connection, whose buffer is zero, and a connection
that has read a message with a nonzero byte at the place in question (`exists_history`) differ: in
the terminator, or in the payload (`protoData_shows`). -/
theorem isolated_iff_contained (rt : Protobuf UserMsg) (rspData : LoginRsp → Bytes)
    (hrt : Links rt) (f : Frame) : Isolated (userWire rt rspData).hooks f ↔ f.Contained := by
  refine ⟨fun hiso => ?_, fun h x _ fs gs b c _ _ => outcome_of_contained h⟩
  by_contra hcon
  simp only [Frame.Contained, not_or, not_and, not_not, not_lt, not_le] at hcon
  obtain ⟨hn, hnul, hroom⟩ := hcon
  have hname : f.nameSize < 256 := UInt8.toNat_lt _
  have hx : Waiting ({ reading := [.header] } : Session UserBuffer UserBuffer) := ⟨rfl, rfl, rfl⟩
  obtain ⟨gs, c, hc, hne⟩ := exists_history rspData hrt hx
    (i := max f.nameSize f.body.length) (by omega) (by omega)
  have heq := hiso _ hx [] gs .new c holds_nil hc
  simp only [outcome_receive, if_neg (show ¬ f.nameSize < 2 by omega)] at heq
  rcases Nat.lt_or_ge f.nameSize f.body.length with hlt | hge
  · -- the terminator is the frame's own, the payload is not
    rw [max_eq_right hlt.le] at hne
    rw [receive_apply hlt, receive_apply hlt, hnul hlt] at heq
    simp only [ne_eq, not_true_eq_false, if_false, Option.some.injEq] at heq
    exact hne (protoData_shows hn hlt hroom (congrArg ProtoArgs.protoData heq)).symm
  · -- the terminator is a byte of an earlier frame
    rw [max_eq_left hge] at hne
    rw [receive_apply_of_ge hge, receive_apply_of_ge hge, if_neg (by simp [Buffer.new]),
      if_pos hne] at heq
    cases heq

/-- The two messages are linked into the sample runtime. -/
lemma links_sampleProtobuf : Links sampleProtobuf where
  loginReq := ⟨_, rfl⟩
  ping := rfl
  parse_loginReq req data size := by
    unfold sampleProtobuf
    dsimp only
    split <;> exact ⟨_, rfl⟩
  parse_ping _ _ := rfl

/-- The frame of a login request. -/
def loginFrame : Frame := ⟨(sampleLogin [117]).body, by decide +kernel, by decide +kernel⟩

/-- A ping whose body ends before the terminator of its name. -/
def cutPing : Frame := ⟨10 :: pingName, by decide, by decide⟩

/-- An encoded request is isolated. -/
theorem isolated_loginFrame : Isolated sampleWire.hooks loginFrame :=
  (isolated_iff_contained sampleProtobuf _ links_sampleProtobuf loginFrame).mpr (by decide +kernel)

/-- The cut ping is accepted by a fresh connection and rejected after a login request. -/
theorem frame_isolation_fails : ¬ ∀ (rt : Protobuf UserMsg) (rspData : LoginRsp → Bytes),
    Links rt → ∀ f, Isolated (userWire rt rspData).hooks f := by
  intro h
  have hx : Waiting ({ reading := [.header] } : Session UserBuffer UserBuffer) := ⟨rfl, rfl, rfl⟩
  have hlogin : sampleWire.hooks.onReadBody (receive .new loginFrame) = true := by decide +kernel
  have heq : (receive .new cutPing).outcome = (receive (receive .new loginFrame) cutPing).outcome :=
    h sampleProtobuf _ links_sampleProtobuf cutPing _ hx [] [loginFrame] _ _ holds_nil
      (holds_singleton hx rfl hlogin)
  have hfresh : (receive .new cutPing).outcome.isSome = true := by decide +kernel
  have hafter : (receive (receive .new loginFrame) cutPing).outcome.isSome = false := by
    decide +kernel
  rw [heq, hafter] at hfresh
  cases hfresh

end UserBuffer

end FightingCard
