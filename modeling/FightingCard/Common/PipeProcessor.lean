import FightingCard.Common.Relay
import FightingCard.Common.UserProcessor

set_option relaxedAutoImplicit false
set_option autoImplicit false

/-!
# Dispatch of relay frames

From a decoded relay frame to the invocation of its handler (`common/pipe_processor.h`). The
registry, `Process` and the error codes are those of `common/user_processor.h`; in addition
`Dispatch` builds a `PipeHead` from the session id and the two strings of the frame, and the
handler gets it along with the message.

The two strings of a frame are absent or not independently of each other. `Dispatch` takes them
over only if both are there.

## Main definitions

* `FightingCard.PipeBuffer.outcome` — what a decoded buffer hands to the dispatch.
* `FightingCard.PipeHandler.process`, `FightingCard.PipeProcessor.addHandler`,
  `FightingCard.PipeProcessor.dispatch` — `Process`, `AddHandler` and `Dispatch`.

## Main results

* `FightingCard.PipeProcessor.posts_dispatch_iff` — only payloads that parse are handed to a
  handler, exactly when no others come.
* `FightingCard.PipeProcessor.pipeHead_eq_iff` — the heads that reach the handler intact.
-/

namespace FightingCard

open ByteMem

/-- What `Dispatch` reads from a decoded buffer: `*sesseion_id()`, `appid()` and `user_id()`,
and what `UserProcessor::Dispatch` reads as well. -/
structure PipeArgs extends ProtoArgs where
  head : PipeBuffer.HeadView

namespace PipeBuffer

/-- The arguments that a decoded buffer gives to `Dispatch`. -/
def Parts.pipeArgs (p : Parts) (b : PipeBuffer) : PipeArgs where
  msgName := cString (read b.buf p.msgName (p.msgData - p.msgName))
  protoData := b.extent p.msgData (p.msgDataSize % 2 ^ 32)
  protoSize := p.msgDataSize % 2 ^ 32
  head := p.head.view b

/-- The outcome of a received frame: whether `Decode()` accepts it, and the arguments of
`Dispatch` if it does. -/
def outcome (b : PipeBuffer) : Option PipeArgs := (decode b).map fun p => p.pipeArgs b

end PipeBuffer

/-- `PipeHandler<PipeSession, ProtoMsg>`: the full name of `ProtoMsg`, and the
`dynamic_pointer_cast` to it. -/
structure PipeHandler (μ ν : Type) where
  fullName : Bytes
  cast : μ → Option ν

/-- The invocation of a handler that is posted: `func_(pipe_session, pipe_head, real_msg)`. -/
structure PipeCall (ν : Type) where
  pipeHead : PipeHead
  realMsg : ν

variable {μ ν : Type}

/-- The handler once its `pipe_head` is given: from here on, the code is that of `UserHandler`. -/
def PipeHandler.withHead (h : PipeHandler μ ν) (pipeHead : PipeHead) :
    UserHandler μ (PipeCall ν) where
  fullName := h.fullName
  func msg := (h.cast msg).map fun realMsg => ⟨pipeHead, realMsg⟩

/-- `Process(io_service, pipe_session, pipe_head, proto_data, proto_size)`, with the invocation it
posts. -/
def PipeHandler.process (h : PipeHandler μ ν) (rt : Protobuf μ) (pipeHead : PipeHead)
    (protoData : Bytes) (protoSize : ℕ) : UserProcessor.ErrorCode × Option (PipeCall ν) :=
  (h.withHead pipeHead).process rt protoData protoSize

/-- `PipeProcessor`: the map `handlers_`. -/
structure PipeProcessor (μ ν : Type) where
  handlers : Bytes → Option (PipeHandler μ ν) := fun _ => none

namespace PipeProcessor

/-- `AddHandler`: the insertion keeps an existing handler. -/
def addHandler (p : PipeProcessor μ ν) (h : PipeHandler μ ν) : PipeProcessor μ ν :=
  match p.handlers h.fullName with
  | some _ => p
  | none => ⟨Function.update p.handlers h.fullName (some h)⟩

/-- The `PipeHead` that `Dispatch` makes: the strings are taken over if both pointers are set. -/
def pipeHead (v : PipeBuffer.HeadView) : PipeHead :=
  match v.appid, v.userId with
  | some appid, some userId => ⟨v.sessionId, appid, userId⟩
  | _, _ => ⟨v.sessionId, [], []⟩

/-- `Dispatch(pipe_buffer, pipe_session)`, with the invocation it posts. -/
def dispatch (p : PipeProcessor μ ν) (rt : Protobuf μ) (args : PipeArgs) :
    UserProcessor.ErrorCode × Option (PipeCall ν) :=
  match p.handlers args.msgName with
  | none => (.kErrorMsgNotRegister, none)
  | some h => h.process rt (pipeHead args.head) args.protoData args.protoSize

/-! ## Payloads that parse -/

/-- The invocation that a frame calls for: that of the handler of its type name, if the payload
parses. -/
def parsedTask (p : PipeProcessor μ ν) (rt : Protobuf μ) (args : PipeArgs) :
    Option (PipeCall ν) :=
  (p.handlers args.msgName).bind fun h =>
    (h.withHead (pipeHead args.head)).parsedTask rt args.protoData args.protoSize

/-- The type name of the frame is not registered, or its payload parses. -/
def Parses (p : PipeProcessor μ ν) (rt : Protobuf μ) (args : PipeArgs) : Prop :=
  ∀ h, p.handlers args.msgName = some h →
    (h.withHead (pipeHead args.head)).Parses rt args.protoData args.protoSize

variable {p : PipeProcessor μ ν} {rt : Protobuf μ} {args : PipeArgs} {call : PipeCall ν}

/-- `Dispatch` posts what the frame calls for, exactly when its type name is not registered or its
payload parses. -/
lemma posts_dispatch_iff :
    UserProcessor.Posts (p.parsedTask rt args) (p.dispatch rt args) ↔ p.Parses rt args := by
  unfold parsedTask dispatch Parses
  cases p.handlers args.msgName with
  | none => simp [UserProcessor.Posts]
  | some h => simpa [PipeHandler.process] using UserHandler.posts_process_iff

/-! ## The head of an invocation -/

/-- The head of a posted invocation is the one that `Dispatch` has made. -/
lemma pipeHead_of_dispatch {r : UserProcessor.ErrorCode} (h : p.dispatch rt args = (r, some call)) :
    call.pipeHead = pipeHead args.head := by
  unfold dispatch at h
  split at h
  · cases h
  · unfold PipeHandler.process UserHandler.process at h
    split at h
    · cases h
    · dsimp only [PipeHandler.withHead] at h
      split at h
      · cases h
      · rename_i hfunc
        cases h
        obtain ⟨msg, -, rfl⟩ := Option.map_eq_some_iff.mp hfunc
        rfl

/-- The strings of a head are taken over if both of them or none of them are empty. -/
lemma pipeHead_expected_iff {head : PipeBuffer.Head} :
    pipeHead head.expected = head.toPipeHead ↔ (head.appid = [] ↔ head.userId = []) := by
  obtain ⟨⟨sessionId, appid, userId⟩, -, -, -, -⟩ := head
  cases appid <;> cases userId <;>
    simp [pipeHead, PipeBuffer.Head.expected, PipeBuffer.present]

end PipeProcessor

namespace PipeBuffer

variable {b c : PipeBuffer} {head : PipeHead} {protoMsg : ProtoMsg} {args : PipeArgs}

/-- Encoding a message stores its head, whatever the message is. -/
lemma read_encode_head (hhead : PipeHead.Short head) :
    read (encode b head protoMsg).buf 4 (headBytes head).length = headBytes head := by
  have hbehind : ∀ {m : Mem} {a : ℕ} {bs : Bytes}, 4 + headSize head ≤ a →
      read (write m a bs) 4 (headBytes head).length = read m 4 (headBytes head).length := by
    intro m a bs ha
    exact read_write_of_disjoint (.inr (by rwa [length_headBytes]))
  have hstart : b.getBody + 4 + 1 + fieldSize head.appid + 1 + fieldSize head.userId =
      4 + headSize head := by
    simp only [Buffer.getBody, headSize]
    omega
  simp only [encode, encodeHead_eq hhead, Buffer.setBodySize, ProtoMsg.serializeToArray, le_refl,
    if_true, hstart]
  -- the size of the body lies before the head, and everything else behind it
  rw [read_write_of_disjoint (.inl (by simp)), hbehind (by omega)]
  generalize (if protoMsg.typeName.length ≠ 0 then protoMsg.typeName.length + 1 else 0) % 2 ^ 8 = n
  by_cases hn : n = 0
  · rw [if_neg (not_not.mpr hn), hbehind le_rfl]
    exact read_write_self
  · rw [if_pos hn, hbehind (by omega), hbehind (by omega), hbehind le_rfl]
    exact read_write_self

/-- A buffer that has received the frame of a message holds its head. -/
lemma read_head_of_receives (hhead : PipeHead.Short head) (hbytes : protoMsg.byteSize < 2 ^ 31)
    (hc : c.Receives (encode b head protoMsg)) :
    read c.buf 4 (headBytes head).length = headBytes head := by
  have hsmall := headSize_le hhead
  have hsize : ∃ n, Buffer.size (encode b head protoMsg) = 4 + (headBytes head).length + n := by
    refine ⟨Buffer.size (encode b head protoMsg) - (4 + (headBytes head).length), ?_⟩
    rw [length_headBytes, Buffer.size, getBodySize_encode_mod hhead, Buffer.getHeaderSize,
      messageBodySize, msgNameSize]
    omega
  obtain ⟨n, hn⟩ := hsize
  rw [Buffer.Receives, Buffer.wire, hn, read_add, read_add, read_add, read_add] at hc
  have hhd := (List.append_inj (List.append_inj hc (by simp)).1 (by simp)).2
  rw [Nat.zero_add] at hhd
  exact hhd.trans (read_encode_head hhead)

/-- The head of a frame that `Decode()` accepts is that of its bytes. -/
lemma head_of_outcome {head : Head} (h : read c.buf 4 head.frame.length = head.frame)
    (hargs : c.outcome = some args) : args.head = head.expected := by
  obtain ⟨p, hp, -, -, hview⟩ := decodeHead_of_read h
  obtain ⟨q, hq, rfl⟩ := Option.map_eq_some_iff.mp hargs
  obtain ⟨p', hp', hq⟩ := Option.bind_eq_some_iff.mp hq
  obtain rfl := Option.some.inj (hp.symm.trans hp')
  dsimp only at hq
  split at hq
  · cases hq
  · split at hq
    · cases hq
    · cases hq
      exact hview

end PipeBuffer

namespace PipeProcessor

/-- **The heads that reach the handler.** When the frame of a message with a head is decoded and
dispatched, the handler gets the head that was encoded exactly if both strings are empty or none
of them is.

**Proof sketch.** Whatever the message is, its frame holds the bytes of the head
(`PipeBuffer.read_head_of_receives`), and decoding them gives each string for itself
(`PipeBuffer.decodeHead_of_read`). `Dispatch` takes them over if both are there
(`pipeHead_expected_iff`). -/
theorem pipeHead_eq_iff {μ ν : Type} (p : PipeProcessor μ ν) (rt : Protobuf μ)
    (head : PipeBuffer.Head) (protoMsg : ProtoMsg) (hbytes : protoMsg.byteSize < 2 ^ 31)
    (b c : PipeBuffer) (hc : c.Receives (PipeBuffer.encode b head.toPipeHead protoMsg))
    (args : PipeArgs) (hargs : c.outcome = some args) (call : PipeCall ν)
    (hcall : p.dispatch rt args = (.kOK, some call)) :
    call.pipeHead = head.toPipeHead ↔ (head.appid = [] ↔ head.userId = []) := by
  have hframe := PipeBuffer.read_head_of_receives head.short hbytes hc
  rw [pipeHead_of_dispatch hcall, PipeBuffer.head_of_outcome hframe hargs]
  exact pipeHead_expected_iff

/-- A processor with one handler, for the type `p`, whose messages have no fields. -/
def pingProcessor : PipeProcessor Unit Unit := addHandler {} ⟨[112], some⟩

/-- A runtime that knows the type `p`, whose message has an empty payload. -/
def pingRuntime : Protobuf Unit where
  createMessage typeName := if typeName = [112] then some () else none
  parseFromArray msg protoData _ := (protoData.isEmpty, msg)

/-- A frame with the type name `p` is dispatched. -/
lemma exists_dispatch_ping {c : PipeBuffer}
    (h : c.outcome.map (fun args => args.msgName) = some [112]) :
    ∃ args call, c.outcome = some args ∧
      pingProcessor.dispatch pingRuntime args = (.kOK, some call) := by
  obtain ⟨args, hargs, hname⟩ := Option.map_eq_some_iff.mp h
  refine ⟨args, ⟨pipeHead args.head, ()⟩, hargs, ?_⟩
  simp [dispatch, hname, pingProcessor, addHandler, PipeHandler.process, PipeHandler.withHead,
    UserHandler.process, pingRuntime]

/-- A ping with both strings reaches its handler with both of them. -/
theorem pipeHead_eq_both : ∃ args call,
    (PipeBuffer.encode .new ⟨7, [97], [98]⟩ ⟨[112], []⟩).outcome = some args ∧
      pingProcessor.dispatch pingRuntime args = (.kOK, some call) ∧
      call.pipeHead = ⟨7, [97], [98]⟩ := by
  obtain ⟨args, call, hargs, hcall⟩ := exists_dispatch_ping
    (c := PipeBuffer.encode .new ⟨7, [97], [98]⟩ ⟨[112], []⟩) (by decide +kernel)
  exact ⟨args, call, hargs, hcall, (pipeHead_eq_iff pingProcessor pingRuntime
    ⟨⟨7, [97], [98]⟩, by decide, by decide, by decide, by decide⟩ ⟨[112], []⟩ (by decide) .new _ rfl
    args hargs call hcall).mpr (by decide)⟩

/-- A ping with one string reaches its handler without it. -/
theorem pipeHead_eq_fails : ¬ ∀ (p : PipeProcessor Unit Unit) (rt : Protobuf Unit)
    (head : PipeBuffer.Head) (protoMsg : ProtoMsg), protoMsg.byteSize < 2 ^ 31 →
      ∀ b c : PipeBuffer, c.Receives (PipeBuffer.encode b head.toPipeHead protoMsg) →
        ∀ args call, c.outcome = some args → p.dispatch rt args = (.kOK, some call) →
          call.pipeHead = head.toPipeHead := by
  intro h
  let head : PipeBuffer.Head := ⟨⟨7, [97], []⟩, by decide, by decide, by decide, by decide⟩
  obtain ⟨args, call, hargs, hcall⟩ := exists_dispatch_ping
    (c := PipeBuffer.encode .new head.toPipeHead ⟨[112], []⟩) (by decide +kernel)
  have hread : read (PipeBuffer.encode .new head.toPipeHead ⟨[112], []⟩).buf 4
      head.frame.length = head.frame := PipeBuffer.read_encode_head ⟨by decide, by decide⟩
  have hhead := h pingProcessor pingRuntime head ⟨[112], []⟩ (by decide) .new _ rfl args call hargs
    hcall
  rw [pipeHead_of_dispatch hcall, PipeBuffer.head_of_outcome hread hargs,
    pipeHead_expected_iff] at hhead
  exact absurd hhead (by decide)

end PipeProcessor

end FightingCard
