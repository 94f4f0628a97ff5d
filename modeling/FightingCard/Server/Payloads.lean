import FightingCard.Common.PipeProcessor
import FightingCard.Server.GameServer

set_option relaxedAutoImplicit false
set_option autoImplicit false

/-!
# Payloads that do not parse

A payload goes through `ParseFromArray`, `Process` and `Dispatch` before `OnReadBody` decides
about the connection (`common/user_processor.h`, `common/pipe_processor.h`,
`server/user_session.cpp`). A payload that is no serialization of its type should stop on the way:
no handler is posted, and the connection is closed. But `Process` drops the result of
`ParseFromArray`.

## Main definitions

* `FightingCard.GameServer.Serves` — what `OnReadBody` should do with a decoded body.

## Main results

* `FightingCard.GameServer.posts_parsed_iff` — the frames for which both dispatchers and the
  server do what they should.
-/

namespace FightingCard

namespace UserProcessor

variable {μ τ : Type} {p : UserProcessor μ τ} {rt : Protobuf μ} {args : ProtoArgs} {t : τ}

/-- A payload that parses is always posted. -/
lemma dispatch_of_parsedTask (h : p.parsedTask rt args = some t) :
    p.dispatch rt args = (.kOK, some t) := by
  obtain ⟨hd, hhandler, htask⟩ := Option.bind_eq_some_iff.mp h
  unfold UserHandler.parsedTask at htask
  simp only [dispatch, hhandler, UserHandler.process]
  split at htask
  · cases htask
  · rename_i msg hmsg
    dsimp only at htask
    split at htask
    · simp [htask]
    · cases htask

end UserProcessor

namespace GameServer

variable {rt : Protobuf UserMsg} {rspData : LoginRsp → Bytes} {b : UserBuffer} {args : ProtoArgs}

/-- `OnReadBody` does with a decoded body what the frame calls for: it posts the handler and lets
the connection read on, or it posts nothing and has the connection closed. -/
def Serves (rt : Protobuf UserMsg) (rspData : LoginRsp → Bytes) (b : UserBuffer)
    (msg : Option UserMsg) : Prop :=
  (userWire rt rspData).hooks.onReadBody b = msg.isSome ∧
    ∀ (σ : GameServer UserBuffer UserBuffer) (s now : ℕ),
      (σ.signal (userWire rt rspData) s now (.onReadBody b)).1.logic =
        match msg with
        | some msg => σ.logic.post (msg.task s)
        | none => σ.logic

/-- `OnReadBody` posts what `Dispatch` posts. -/
lemma serves_dispatch (hargs : b.outcome = some args) :
    Serves rt rspData b (userSessionProcessor.dispatch rt args).2 := by
  refine ⟨?_, fun σ s now => ?_⟩
  · simp [Wire.hooks, Wire.message, userWire, hargs]
  · cases hmsg : (userSessionProcessor.dispatch rt args).2 <;>
      simp [signal, userWire, hargs, hmsg]

/-- The server does what a frame calls for exactly if the payload parses or its type name is not
registered. -/
lemma serves_parsedTask_iff (hargs : b.outcome = some args) :
    Serves rt rspData b (userSessionProcessor.parsedTask rt args) ↔
      userSessionProcessor.Parses rt args := by
  rw [← UserProcessor.posts_dispatch_iff]
  constructor
  · intro h
    cases htask : userSessionProcessor.parsedTask rt args with
    | some msg => exact UserProcessor.dispatch_of_parsedTask htask
    | none =>
      have hserves : Serves rt rspData b (userSessionProcessor.dispatch rt args).2 :=
        serves_dispatch hargs
      have hnone : (userSessionProcessor.dispatch rt args).2.isSome = false := by
        rw [← hserves.1, h.1, htask]
        rfl
      refine ⟨fun hok => ?_, by simpa using hnone⟩
      rw [UserProcessor.dispatch_eq_kOK_iff, hnone] at hok
      cases hok
  · intro h
    have hserves : Serves rt rspData b (userSessionProcessor.dispatch rt args).2 :=
      serves_dispatch hargs
    cases htask : userSessionProcessor.parsedTask rt args with
    | some msg => rwa [UserProcessor.dispatch_of_parsedTask htask] at hserves
    | none =>
      rw [htask] at h
      rwa [h.2] at hserves

/-- **Only payloads that parse are handled.** A dispatch of a decoded frame posts the handler of
its type name with the parsed message, or it posts nothing and its result is not `kOK`, exactly if
the payload parses or the type name is not registered. This holds for every registry of either
processor; and for the frames that the server receives, `OnReadBody` then posts nothing else and
has the connection closed exactly under this condition.

**Proof sketch.** `Process` posts the message that `ParseFromArray` leaves behind, whatever it
returns (`UserHandler.posts_process_iff`), and `OnReadBody` follows the dispatch
(`serves_dispatch`). -/
theorem posts_parsed_iff {μ τ ν : Type} (p : UserProcessor μ τ) (q : PipeProcessor μ ν)
    (rt : Protobuf μ) (rtUser : Protobuf UserMsg) (rspData : LoginRsp → Bytes) :
    (∀ args : ProtoArgs, UserProcessor.Posts (p.parsedTask rt args) (p.dispatch rt args) ↔
      p.Parses rt args) ∧
    (∀ args : PipeArgs, UserProcessor.Posts (q.parsedTask rt args) (q.dispatch rt args) ↔
      q.Parses rt args) ∧
    ∀ (b : UserBuffer) (args : ProtoArgs), b.outcome = some args →
      (Serves rtUser rspData b (userSessionProcessor.parsedTask rtUser args) ↔
        userSessionProcessor.Parses rtUser args) :=
  ⟨fun _ => UserProcessor.posts_dispatch_iff, fun _ => PipeProcessor.posts_dispatch_iff,
    fun _ _ => serves_parsedTask_iff⟩

/-- The runtime of the samples, which reads every payload that it is given here. -/
theorem posts_parsed_login : ∃ args, (sampleLogin [117]).outcome = some args ∧
    Serves sampleProtobuf (fun _ => []) (sampleLogin [117])
      (userSessionProcessor.parsedTask sampleProtobuf args) := by
  obtain ⟨args, hargs⟩ := Option.isSome_iff_exists.mp
    (show (sampleLogin [117]).outcome.isSome = true by decide +kernel)
  obtain ⟨-, -, hserves⟩ := posts_parsed_iff userSessionProcessor
    ({} : PipeProcessor UserMsg UserMsg) sampleProtobuf sampleProtobuf (fun _ => [])
  refine ⟨args, hargs, (hserves _ args hargs).mpr ?_⟩
  intro h _ msg _
  left
  unfold sampleProtobuf
  dsimp only
  split <;> rfl

/-- A runtime that refuses a request whose payload does not start with its `uid` field. -/
def strictProtobuf : Protobuf UserMsg where
  createMessage := sampleProtobuf.createMessage
  parseFromArray
    | .loginReq _, 18 :: _ :: uid, _ => (true, .loginReq { uid })
    | .loginReq req, _ :: _, _ => (false, .loginReq req)
    | msg, _, _ => (true, msg)

/-- The frame of a request whose payload is garbage. -/
def garbageLogin : UserBuffer := .ofMsg ⟨loginReqName, [255]⟩

/-- A request whose payload is garbage is handled as a login without a uid. -/
theorem posts_parsed_fails : ¬ ∀ (rt : Protobuf UserMsg) (rspData : LoginRsp → Bytes)
    (b : UserBuffer) (args : ProtoArgs), b.outcome = some args →
      Serves rt rspData b (userSessionProcessor.parsedTask rt args) := by
  intro h
  obtain ⟨args, hargs, hnone, hok⟩ : ∃ args ∈ garbageLogin.outcome,
      (userSessionProcessor.parsedTask strictProtobuf args).isNone = true ∧
        (userSessionProcessor.dispatch strictProtobuf args).1 = .kOK := by decide +kernel
  have hbody := (h strictProtobuf (fun _ => []) garbageLogin args hargs).1
  rw [onReadBody_userWire_iff.mpr ⟨args, hargs, hok⟩, Option.isNone_iff_eq_none.mp hnone] at hbody
  cases hbody

end GameServer

end FightingCard
