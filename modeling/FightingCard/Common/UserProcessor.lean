import FightingCard.Common.UserBuffer

set_option relaxedAutoImplicit false
set_option autoImplicit false

/-!
# Message dispatch

From a decoded frame to the invocation of its handler (`common/user_processor.h`,
`CreateMessage` of `common/utility.cpp`): the registry of handlers by type name, and
`UserHandler::Process`, which builds a message of the handler's type, parses the payload into
it and posts the handler. The return value of `ParseFromArray` is dropped.

The protobuf runtime is a parameter. `ErrorCode` and the order of the checks are those of the
source; the session is not passed along, since `Process` only hands it to the posted task.

## Main definitions

* `FightingCard.UserProcessor.ErrorCode` — the result of a dispatch.
* `FightingCard.UserBuffer.outcome` — what a decoded buffer hands to the dispatch.
* `FightingCard.UserHandler.process`, `FightingCard.UserProcessor.addHandler`,
  `FightingCard.UserProcessor.dispatch` — `Process`, `AddHandler` and `Dispatch`.

## Main results

* `FightingCard.UserProcessor.dispatch_eq_kOK_iff` — a handler is posted exactly when the
  result is `kOK`.
* `FightingCard.UserProcessor.posts_dispatch_iff` — only payloads that parse are handed to a
  handler, exactly when no others come.
-/

namespace FightingCard

open ByteMem

/-- What `Dispatch` reads from a decoded buffer: the string at `msg_name()`, the bytes at
`msg_data()`, and `msg_data_size()` after its conversion to `uint32_t`. -/
structure ProtoArgs where
  msgName : Bytes
  protoData : Bytes
  protoSize : ℕ
  deriving DecidableEq

namespace UserBuffer

/-- The arguments that a decoded buffer gives to `Dispatch`. -/
def Parts.protoArgs (p : Parts) (b : UserBuffer) : ProtoArgs where
  msgName := cString (read b.buf p.msgName (p.msgData - p.msgName))
  protoData := b.extent p.msgData (p.msgDataSize % 2 ^ 32)
  protoSize := p.msgDataSize % 2 ^ 32

/-- The outcome of a received frame: whether `Decode` accepts it, and the arguments of
`Dispatch` if it does. -/
def outcome (b : UserBuffer) : Option ProtoArgs := (decode b).map fun p => p.protoArgs b

end UserBuffer

/-- The part of the protobuf runtime that a dispatch uses, over the messages `μ`:
`CreateMessage`, and `ParseFromArray(data, size)` with its return value and the message it
leaves behind. -/
structure Protobuf (μ : Type) where
  createMessage : Bytes → Option μ
  parseFromArray : μ → Bytes → ℕ → Bool × μ

/-- The result of a dispatch. -/
inductive UserProcessor.ErrorCode where
  | kOK
  | kErrorMsgNotRegister
  | kErrorReflectionProtobufFailed
  | kErrorProtobufCastFailed
  deriving DecidableEq

open UserProcessor

/-- `UserHandler<UserSession, ProtoMsg>`: the full name of `ProtoMsg`, and the
`dynamic_pointer_cast` to it followed by the invocation of `func_` on the result, as the task
`τ` it posts. -/
structure UserHandler (μ τ : Type) where
  fullName : Bytes
  func : μ → Option τ

variable {μ τ : Type}

/-- `Process(io_service, user_session, proto_data, proto_size)`, with the task it posts. -/
def UserHandler.process (h : UserHandler μ τ) (rt : Protobuf μ) (protoData : Bytes)
    (protoSize : ℕ) : ErrorCode × Option τ :=
  match rt.createMessage h.fullName with
  | none => (.kErrorReflectionProtobufFailed, none)
  | some msg =>
    let msg := (rt.parseFromArray msg protoData protoSize).2
    match h.func msg with
    | none => (.kErrorProtobufCastFailed, none)
    | some task => (.kOK, some task)

/-- `UserProcessor`: the map `handlers_`. -/
structure UserProcessor (μ τ : Type) where
  handlers : Bytes → Option (UserHandler μ τ) := fun _ => none

namespace UserProcessor

/-- `AddHandler`: the insertion keeps an existing handler. -/
def addHandler (p : UserProcessor μ τ) (h : UserHandler μ τ) : UserProcessor μ τ :=
  match p.handlers h.fullName with
  | some _ => p
  | none => ⟨Function.update p.handlers h.fullName (some h)⟩

/-- `Dispatch(buffer, user_session)`, with the task it posts. -/
def dispatch (p : UserProcessor μ τ) (rt : Protobuf μ) (args : ProtoArgs) :
    ErrorCode × Option τ :=
  match p.handlers args.msgName with
  | none => (.kErrorMsgNotRegister, none)
  | some h => h.process rt args.protoData args.protoSize

/-- A handler is posted exactly when the result is `kOK`. -/
lemma dispatch_eq_kOK_iff {p : UserProcessor μ τ} {rt : Protobuf μ} {args : ProtoArgs} :
    (p.dispatch rt args).1 = .kOK ↔ (p.dispatch rt args).2.isSome := by
  unfold dispatch UserHandler.process
  split
  · simp
  · split
    · simp
    · dsimp only
      split <;> simp

end UserProcessor

/-! ## Payloads that parse -/

/-- The task of a handler for a payload that `ParseFromArray` accepts. -/
def UserHandler.parsedTask (h : UserHandler μ τ) (rt : Protobuf μ) (protoData : Bytes)
    (protoSize : ℕ) : Option τ :=
  match rt.createMessage h.fullName with
  | none => none
  | some msg =>
    let parsed := rt.parseFromArray msg protoData protoSize
    if parsed.1 then h.func parsed.2 else none

/-- `ParseFromArray` accepts the payload, or no task comes of it anyway: there is no message to
parse it into, or none of the type of the handler. -/
def UserHandler.Parses (h : UserHandler μ τ) (rt : Protobuf μ) (protoData : Bytes)
    (protoSize : ℕ) : Prop :=
  ∀ msg, rt.createMessage h.fullName = some msg →
    (rt.parseFromArray msg protoData protoSize).1 = true ∨
      h.func (rt.parseFromArray msg protoData protoSize).2 = none

/-- A dispatch that should post the given task does so with the result `kOK`; one that should not
post any has another result and posts none. -/
def UserProcessor.Posts (task : Option τ) (r : ErrorCode × Option τ) : Prop :=
  match task with
  | some t => r = (.kOK, some t)
  | none => r.1 ≠ .kOK ∧ r.2 = none

/-- `Process` posts the task of a payload that parses, exactly when this is the only kind of
payload that it is given. -/
lemma UserHandler.posts_process_iff {h : UserHandler μ τ} {rt : Protobuf μ} {protoData : Bytes}
    {protoSize : ℕ} : Posts (h.parsedTask rt protoData protoSize)
      (h.process rt protoData protoSize) ↔ h.Parses rt protoData protoSize := by
  unfold parsedTask process Parses
  cases rt.createMessage h.fullName with
  | none => simp [Posts]
  | some msg =>
    simp only [Option.some.injEq, forall_eq']
    -- the task is posted whether the payload parses or not
    cases hfunc : h.func (rt.parseFromArray msg protoData protoSize).2 <;>
      cases (rt.parseFromArray msg protoData protoSize).1 <;> simp [Posts]

namespace UserProcessor

/-- The task that a frame calls for: that of the handler of its type name, if the payload
parses. -/
def parsedTask (p : UserProcessor μ τ) (rt : Protobuf μ) (args : ProtoArgs) : Option τ :=
  (p.handlers args.msgName).bind fun h => h.parsedTask rt args.protoData args.protoSize

/-- The type name of the frame is not registered, or its payload parses. -/
def Parses (p : UserProcessor μ τ) (rt : Protobuf μ) (args : ProtoArgs) : Prop :=
  ∀ h, p.handlers args.msgName = some h → h.Parses rt args.protoData args.protoSize

/-- `Dispatch` posts what the frame calls for, exactly when its type name is not registered or its
payload parses. -/
lemma posts_dispatch_iff {p : UserProcessor μ τ} {rt : Protobuf μ} {args : ProtoArgs} :
    Posts (p.parsedTask rt args) (p.dispatch rt args) ↔ p.Parses rt args := by
  unfold parsedTask dispatch Parses
  cases p.handlers args.msgName with
  | none => simp [Posts]
  | some h => simpa using UserHandler.posts_process_iff

end UserProcessor

/-! ## Frames that are decoded inside their body -/

namespace UserBuffer

variable {b : UserBuffer} {p : Parts}

/-- The size byte of the name of a received frame. -/
def nameSize (b : UserBuffer) : ℕ := (b.buf b.getBody).toNat

/-- The parts of a decoded frame lie inside the received body: the name with its terminator, the
payload and the four checksum bytes, and `ParseFromArray` is called with the size of the
payload. -/
structure InBody (b : UserBuffer) (p : Parts) : Prop where
  nameFits : 1 + b.nameSize + 4 ≤ b.getBodySize
  terminator : p.msgName + b.nameSize - 1 < b.getBody + b.getBodySize
  msgDataSize : (p.msgDataSize : ℤ) = b.getBodySize - 5 - b.nameSize
  msgData : b.getBody ≤ p.msgData ∧ p.msgData + p.msgDataSize ≤ b.getBody + b.getBodySize
  checkSum : b.getBody ≤ p.checkSum ∧ p.checkSum + 4 ≤ b.getBody + b.getBodySize
  protoSize : ((p.protoArgs b).protoSize : ℤ) = b.getBodySize - 5 - b.nameSize

/-- The members that `Decode` sets when it accepts the frame. -/
def decodedParts (b : UserBuffer) : Parts :=
  let msgData := b.getBody + 1 + b.nameSize
  let msgDataSize := sizeT ((b.getBodySize : ℤ) - 1 - b.nameSize - 4)
  { msgName := b.getBody + 1
    msgData
    msgDataSize
    checkSum := (msgData + msgDataSize) % 2 ^ 64 }

/-- What `Decode` checks and what it computes. -/
lemma decode_eq : decode b = if b.nameSize < 2 then none
    else if b.buf (b.getBody + b.nameSize) ≠ 0 then none else some b.decodedParts := by
  have hnul : b.getBody + 1 + b.nameSize - 1 = b.getBody + b.nameSize := by omega
  rw [← hnul]
  rfl

/-- `Decode` asks for a size byte of at least 2 and a NUL where the name ends. -/
lemma decode_eq_some_iff : decode b = some p ↔
    2 ≤ b.nameSize ∧ b.buf (b.getBody + b.nameSize) = 0 ∧ b.decodedParts = p := by
  rw [decode_eq]
  by_cases hshort : b.nameSize < 2
  · simp [hshort]
  · by_cases hzero : b.buf (b.getBody + b.nameSize) = 0
    · simp [hshort, hzero]
      omega
    · simp [hshort, hzero]

/-- A frame that leaves room for a payload of nonnegative size is decoded inside its body. -/
lemma inBody_decodedParts (hpos : 2 ≤ b.nameSize) (hroom : b.nameSize + 5 ≤ b.getBodySize) :
    InBody b b.decodedParts := by
  have hlt : b.getBodySize < 65536 := Buffer.getBodySize_lt
  have hsize : sizeT ((b.getBodySize : ℤ) - 1 - b.nameSize - 4) =
      b.getBodySize - 5 - b.nameSize := by
    rw [← sizeT_natCast (n := b.getBodySize - 5 - b.nameSize) (by omega)]
    congr 1
    omega
  refine ⟨by omega, ?_, ?_, ?_, ?_, ?_⟩ <;>
    simp only [decodedParts, hsize, Parts.protoArgs, Buffer.getBody] <;> omega

/-- **Decoding inside the body.** What `Decode` accepts lies inside the received body exactly when
the name is refused for its size or its terminator, or leaves room in the body for a payload of
nonnegative size and the checksum.

**Proof sketch.** `Decode` does not compare the size of the name with the body size: a name with
its terminator in place is accepted (`decode_eq_some_iff`), and then its parts lie inside the body
exactly if there is room (`inBody_decodedParts`). -/
theorem decode_inBody_iff (b : UserBuffer) : (∀ p, decode b = some p → InBody b p) ↔
    b.nameSize < 2 ∨ b.buf (b.getBody + b.nameSize) ≠ 0 ∨ b.nameSize + 5 ≤ b.getBodySize := by
  constructor
  · intro h
    by_contra! hnot
    obtain ⟨hpos, hzero, hroom⟩ := hnot
    have hfits := (h _ (decode_eq_some_iff.mpr ⟨hpos, hzero, rfl⟩)).nameFits
    omega
  · intro h p hp
    obtain ⟨hpos, hzero, rfl⟩ := decode_eq_some_iff.mp hp
    rcases h with hshort | hnul | hroom
    · omega
    · exact absurd hzero hnul
    · exact inBody_decodedParts hpos hroom

/-- A body of one byte, the size of a name, is accepted when zeros follow it. -/
theorem decode_inBody_fails : ¬ ∀ b : UserBuffer, 1 ≤ b.getBodySize → b.getBodySize ≤ 16382 →
    ∀ p, decode b = some p → InBody b p := by
  intro h
  have hfits := (h ⟨write (fun _ => 0) 0 [1, 0, 2]⟩ (by decide +kernel) (by decide +kernel) _
    (decode_eq_some_iff.mpr ⟨by decide +kernel, by decide +kernel, rfl⟩)).nameFits
  exact absurd hfits (by decide +kernel)

end UserBuffer

end FightingCard
