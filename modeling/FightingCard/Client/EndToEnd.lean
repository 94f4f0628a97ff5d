import Mathlib.Data.List.Nodup
import FightingCard.Lib.Channel
import FightingCard.Lib.Decimal
import FightingCard.Client.User
import FightingCard.Server.Distinct

set_option relaxedAutoImplicit false
set_option autoImplicit false

/-!
# The clients and the server

The whole system: the server with all its threads, the users that the client process makes one
after the other (`client/main.cpp`), and the network between them. Each user is the code of
`FightingCard.ClientUser`, and its connection is accepted at most once. Everything is interleaved
freely, and every connection may fail at any moment; the network only keeps what TCP promises, that
the bodies read on one end are those of the frames written on the other, in their order.

The users of one process have uids of their own, and they send normal login requests. That is what
keeps the defects of the server from showing: a login is never refused.

## Main definitions

* `FightingCard.System` — the server, the users and who is connected to whom.
* `FightingCard.System.machine` — its steps.
* `FightingCard.System.Network` — the assumption on the network.
* `FightingCard.Runtimes` — the assumption on the protobuf runtimes.

## Main results

* `FightingCard.System.server_of_run`, `FightingCard.System.client_of_run` — the parts of a run.
* `FightingCard.System.wired_of_run` — what has arrived, on either side.
* `FightingCard.System.logins_succeed` — every login succeeds, once.
-/

namespace FightingCard

open Channel

/-! ## Frames -/

/-- A buffer that has received the frame of a message is decoded to the message. -/
lemma UserBuffer.outcome_of_receives {b : UserBuffer} (msg : UserBuffer.Message)
    (h : b.Receives (UserBuffer.ofMsg msg.toProtoMsg)) :
    b.outcome = some ⟨msg.typeName, msg.data, msg.data.length⟩ := by
  have hfits := msg.fits
  have hread : ByteMem.read b.buf 0 msg.frame.length = msg.frame := by
    rw [Buffer.Receives, UserBuffer.ofMsg, UserBuffer.size_encode, ← msg.length_frame,
      UserBuffer.wire_encode, ByteMem.read_add] at h
    exact (List.append_inj h (by simp)).1
  obtain ⟨p, hp, hview⟩ := Option.map_eq_some_iff.mp (UserBuffer.received_of_read msg hread)
  obtain ⟨hname, hdata, hsize⟩ := UserBuffer.Received.mk.inj hview
  have hmod : p.msgDataSize % 2 ^ 32 = p.msgDataSize := by
    rw [hsize]
    omega
  rw [UserBuffer.outcome, hp, Option.map_some, UserBuffer.Parts.protoArgs, hmod, hname, hdata,
    hsize]

/-- What the clients and the server rely on in their protobuf runtimes, over the serializations of
the requests and of the replies: the messages are linked in, parsing reads back what was
serialized, and a serialized message is not much longer than its strings. -/
structure Runtimes (rt : Protobuf UserMsg) (rtRsp : Protobuf LoginRsp)
    (reqData : LoginReq → Bytes) (rspData : LoginRsp → Bytes) : Prop where
  loginReq : ∃ msg, rt.createMessage loginReqName = some msg ∧ ∀ req,
    rt.parseFromArray msg (reqData req) (reqData req).length = (true, .loginReq req)
  ping : ∃ msg, rt.createMessage pingName = some msg ∧ rt.parseFromArray msg [] 0 = (true, .ping)
  loginRsp : ∃ msg, rtRsp.createMessage loginRspName = some msg ∧ ∀ rsp,
    rtRsp.parseFromArray msg (rspData rsp) (rspData rsp).length = (true, rsp)
  reqSize : ∀ req, (reqData req).length ≤ req.uid.length + 32
  rspSize : ∀ rsp, (rspData rsp).length ≤ 32

namespace ClientUser

/-- The frame in which the client sends a message. -/
def frame (reqData : LoginReq → Bytes) : UserMsg → UserBuffer
  | .loginReq req => UserBuffer.ofMsg ⟨loginReqName, reqData req⟩
  | .ping => pingFrame

/-- What a user says: one login request, then pings. -/
def talk (uid : Bytes) (n : ℕ) : List UserMsg :=
  .loginReq ⟨.kLoginTypeNormal, uid⟩ :: List.replicate n .ping

/-- The frames of what a user says. -/
lemma map_frame_talk {reqData : LoginReq → Bytes} {uid : Bytes} {n : ℕ} :
    (talk uid n).map (frame reqData) = loginFrame reqData uid :: List.replicate n pingFrame := by
  simp [talk, frame, loginFrame, loginMsg]

/-- A user that has said more has said the same before. -/
lemma talk_prefix {uid : Bytes} {n m : ℕ} (h : n ≤ m) : talk uid n <+: talk uid m :=
  List.cons_prefix_cons.mpr ⟨rfl, ⟨List.replicate (m - n) .ping, by
    rw [List.replicate_append_replicate, Nat.add_sub_cancel' h]⟩⟩

end ClientUser

section Frames

variable {rt : Protobuf UserMsg} {rtRsp : Protobuf LoginRsp} {reqData : LoginReq → Bytes}
  {rspData : LoginRsp → Bytes} {f : UserBuffer}

/-- A request with a short uid fits its frame. -/
lemma Runtimes.fits_request (hrt : Runtimes rt rtRsp reqData rspData) {req : LoginReq}
    (huid : req.uid.length ≤ 64) :
    ∃ m : UserBuffer.Message, m.toProtoMsg = ⟨loginReqName, reqData req⟩ := by
  have hsize := hrt.reqSize req
  obtain ⟨hname, hnul⟩ : loginReqName.length = 13 ∧ 0 ∉ loginReqName := by decide
  exact ⟨⟨⟨loginReqName, reqData req⟩, by simp [hname], by simp [hname], hnul,
    by dsimp only; omega⟩, rfl⟩

/-- A reply fits its frame. -/
lemma Runtimes.fits_reply (hrt : Runtimes rt rtRsp reqData rspData) (rsp : LoginRsp) :
    ∃ m : UserBuffer.Message, m.toProtoMsg = ⟨loginRspName, rspData rsp⟩ := by
  have hsize := hrt.rspSize rsp
  obtain ⟨hname, hnul⟩ : loginRspName.length = 13 ∧ 0 ∉ loginRspName := by decide
  exact ⟨⟨⟨loginRspName, rspData rsp⟩, by simp [hname], by simp [hname], hnul,
    by dsimp only; omega⟩, rfl⟩

/-- The server reads a message of a client back from its frame. -/
lemma Runtimes.message_eq (hrt : Runtimes rt rtRsp reqData rspData) {msg : UserMsg}
    (huid : ∀ req, msg = .loginReq req → req.uid.length ≤ 64)
    (hf : f.Receives (ClientUser.frame reqData msg)) :
    (userWire rt rspData).message f = some msg := by
  cases msg with
  | loginReq req =>
    obtain ⟨m, hm⟩ := hrt.fits_request (huid req rfl)
    rw [ClientUser.frame, ← hm] at hf
    have hargs := UserBuffer.outcome_of_receives m hf
    rw [hm] at hargs
    obtain ⟨parsed, hcreate, hparse⟩ := hrt.loginReq
    obtain ⟨h, hhandler, hfull, hfunc⟩ : ∃ h, userSessionProcessor.handlers loginReqName = some h ∧
        h.fullName = loginReqName ∧ ∀ req, h.func (.loginReq req) = some (.loginReq req) :=
      ⟨_, rfl, rfl, fun _ => rfl⟩
    simp [Wire.message, userWire, hargs, UserProcessor.dispatch, hhandler, UserHandler.process,
      hfull, hcreate, hparse, hfunc]
  | ping =>
    have hargs := UserBuffer.outcome_of_receives GameClient.pingMsg hf
    obtain ⟨parsed, hcreate, hparse⟩ := hrt.ping
    obtain ⟨h, hhandler, hfull, hfunc⟩ : ∃ h, userSessionProcessor.handlers pingName = some h ∧
        h.fullName = pingName ∧ h.func .ping = some .ping := ⟨_, rfl, rfl, rfl⟩
    simp [Wire.message, userWire, hargs, GameClient.pingMsg, UserProcessor.dispatch, hhandler,
      UserHandler.process, hfull, hcreate, hparse, hfunc]

/-- A client reads a reply of the server back from its frame. -/
lemma Runtimes.rsp_eq (hrt : Runtimes rt rtRsp reqData rspData) {rsp : LoginRsp}
    (hf : f.Receives ((userWire rt rspData).sendMsg rsp)) :
    ClientUser.message rtRsp f = some rsp := by
  obtain ⟨m, hm⟩ := hrt.fits_reply rsp
  have hframe : (userWire rt rspData).sendMsg rsp = UserBuffer.ofMsg m.toProtoMsg := by
    rw [hm]
    rfl
  have hargs := UserBuffer.outcome_of_receives m (hframe ▸ hf)
  rw [hm] at hargs
  obtain ⟨parsed, hcreate, hparse⟩ := hrt.loginRsp
  obtain ⟨h, hhandler, hfull, hfunc⟩ : ∃ h, clientUserProcessor.handlers loginRspName = some h ∧
      h.fullName = loginRspName ∧ ∀ rsp, h.func rsp = some rsp := ⟨_, rfl, rfl, fun _ => rfl⟩
  simp [ClientUser.message, ClientUser.dispatch, hargs, UserProcessor.dispatch, hhandler,
    UserHandler.process, hfull, hcreate, hparse, hfunc]

end Frames

/-! ## The system -/

/-- The server and the users: how many users `main` has made, their states, and for each session of
the server the user it belongs to. -/
structure System where
  server : GameServer UserBuffer UserBuffer := {}
  started : ℕ := 0
  clients : ℕ → ClientUser := fun _ => {}
  peers : List ℕ := []

namespace System

open GameServer (arrivedOn sentOn dones)
open ClientUser (arrivedOf sentOf handledOf talk frame)

/-- What a run records: what the server does, and what each user does. -/
inductive Obs where
  | server (o : GameServer.Obs UserBuffer UserBuffer)
  | client (c : ℕ) (o : ClientUser.Obs)

/-- What can happen next: `main` makes the next user, the server accepts the connection of a user,
something else happens in the server, or in a user. -/
inductive Event where
  | start
  | accept (c now : ℕ)
  | server (e : GameServer.Event UserBuffer)
  | client (c : ℕ) (e : ClientUser.Event)

section Step

variable (rt : Protobuf UserMsg) (rtRsp : Protobuf LoginRsp) (reqData : LoginReq → Bytes)
variable (rspData : LoginRsp → Bytes) (uidFrom uidTo : ℤ)

/-- The uid of the user number `c` of the loop in `main`: `std::to_string(uid)`. -/
def uid (c : ℕ) : Bytes := (Decimal.int (uidFrom + c)).map fun ch => UInt8.ofNat ch.toNat

/-- One step of the system. A connection is accepted once, and a user that has not been made does
nothing. -/
def step (σ : System) : Event → Option (System × List Obs)
  | .start => if uidFrom + σ.started ≤ uidTo then
      some ({ σ with started := σ.started + 1 }, []) else none
  | .accept c now =>
    if c < σ.started ∧ c ∉ σ.peers then
      some ({ σ with server := σ.server.accept now, peers := σ.peers ++ [c] }, [])
    else none
  | .server (.accept _) => none
  | .server e => (σ.server.step (userWire rt rspData) e).map fun (server, out) =>
      ({ σ with server }, out.map .server)
  | .client c e =>
    if c < σ.started then
      ((σ.clients c).step rtRsp reqData (uid uidFrom c) e).map fun (client, out) =>
        ({ σ with clients := Function.update σ.clients c client }, out.map (.client c))
    else none

/-- The system as a machine. -/
def machine : Machine System Event Obs :=
  ⟨{}, step rt rtRsp reqData rspData uidFrom uidTo⟩

end Step

/-- What the server did. -/
def serverOf (tr : List Obs) : List (GameServer.Obs UserBuffer UserBuffer) :=
  tr.filterMap fun
    | .server o => some o
    | .client .. => none

/-- What the user `c` did. -/
def clientOf (c : ℕ) (tr : List Obs) : List ClientUser.Obs :=
  tr.filterMap fun
    | .client c' o => if c' = c then some o else none
    | .server _ => none

/-- The frames that the server has written to a session, sent or still held. -/
def down (tr : List Obs) (σ : System) (s : ℕ) : List UserBuffer :=
  sentOn s (serverOf tr) ++ (σ.server.io s).writeBufs

/-- The frames that a user has written, sent or still held. -/
def up (tr : List Obs) (σ : System) (c : ℕ) : List UserBuffer :=
  sentOf (clientOf c tr) ++ (σ.clients c).io.writeBufs

/-- **The network.** A body that arrives is that of the next frame which the other end of the
connection has written. Nothing is said about the times, and any operation may fail. -/
def Network (tr : List Obs) (σ : System) : Event → Prop
  | .server (.readDone s result) => ∀ f ∈ (σ.server.io s).arrival result,
      ∃ c ∈ σ.peers[s]?, ∃ buf ∈ (σ.up tr c)[(arrivedOn s (serverOf tr)).length]?,
        f.Receives buf
  | .client c (.readDone result) => ∀ f ∈ (σ.clients c).io.arrival result,
      ∃ s < σ.peers.length, c ∈ σ.peers[s]? ∧
        ∃ buf ∈ (σ.down tr s)[(arrivedOf (clientOf c tr)).length]?, f.Receives buf
  | _ => True

instance {b buf : UserBuffer} : Decidable (b.Receives buf) := inferInstanceAs (Decidable (_ = _))

instance {tr : List Obs} {σ : System} : (e : Event) → Decidable (Network tr σ e)
  | .server (.readDone _ _) => inferInstanceAs (Decidable (∀ f ∈ Session.arrival _ _,
      ∃ c ∈ σ.peers[_]?, ∃ buf ∈ (σ.up tr c)[_]?, Buffer.Receives f buf))
  | .client _ (.readDone _) => inferInstanceAs (Decidable (∀ f ∈ Session.arrival _ _,
      ∃ s < σ.peers.length, _ ∈ σ.peers[s]? ∧ ∃ buf ∈ (σ.down tr s)[_]?,
        Buffer.Receives f buf))
  | .server (.accept _) | .server (.writeDone ..) | .server (.timerDone _) | .server (.io ..)
  | .server .logic | .client _ (.connectDone ..) | .client _ (.writeDone _) | .client _ .timerDone
  | .client _ (.io _) | .client _ .task | .start | .accept .. => inferInstanceAs (Decidable True)

/-! ## The parts of a run -/

variable {rt : Protobuf UserMsg} {rtRsp : Protobuf LoginRsp} {reqData : LoginReq → Bytes}
  {rspData : LoginRsp → Bytes} {uidFrom uidTo : ℤ}
  {tr tr' : List Obs} {σ σ' : System} {c s : ℕ}

/-- The records of the server in a longer trace. -/
@[simp] lemma serverOf_append : serverOf (tr ++ tr') = serverOf tr ++ serverOf tr' :=
  List.filterMap_append

/-- The records of a user in a longer trace. -/
@[simp] lemma clientOf_append : clientOf c (tr ++ tr') = clientOf c tr ++ clientOf c tr' :=
  List.filterMap_append

/-- The records of the server are its own. -/
@[simp] lemma serverOf_server {out : List (GameServer.Obs UserBuffer UserBuffer)} :
    serverOf (out.map .server) = out := by
  induction out with
  | nil => rfl
  | cons o out ih => exact congrArg (o :: ·) ih

/-- Those of a user are not. -/
@[simp] lemma serverOf_client {out : List ClientUser.Obs} :
    serverOf (out.map (.client c)) = [] := by
  induction out with
  | nil => rfl
  | cons o out ih => exact ih

/-- Those of the server are not those of a user. -/
@[simp] lemma clientOf_server {out : List (GameServer.Obs UserBuffer UserBuffer)} :
    clientOf c (out.map .server) = [] := by
  induction out with
  | nil => rfl
  | cons o out ih => exact ih

/-- Those of a user are its own, and of no other one. -/
@[simp] lemma clientOf_client {c' : ℕ} {out : List ClientUser.Obs} :
    clientOf c (out.map (.client c')) = if c' = c then out else [] := by
  induction out with
  | nil => simp [clientOf]
  | cons o out ih => by_cases h : c' = c <;> simp [clientOf, h]

/-- What a step does: a user is made, a connection is accepted, or one part makes a step. -/
inductive Step (rt : Protobuf UserMsg) (rtRsp : Protobuf LoginRsp) (reqData : LoginReq → Bytes)
    (rspData : LoginRsp → Bytes) (uidFrom uidTo : ℤ) (σ : System) :
    Event → System → List Obs → Prop
  | start (huid : uidFrom + σ.started ≤ uidTo) :
      Step rt rtRsp reqData rspData uidFrom uidTo σ .start { σ with started := σ.started + 1 } []
  | accept {c now : ℕ} (hc : c < σ.started) (hnew : c ∉ σ.peers) :
      Step rt rtRsp reqData rspData uidFrom uidTo σ (.accept c now)
        { σ with server := σ.server.accept now, peers := σ.peers ++ [c] } []
  | server {e : GameServer.Event UserBuffer} {server out} (he : ∀ now, e ≠ .accept now)
      (hstep : σ.server.step (userWire rt rspData) e = some (server, out)) :
      Step rt rtRsp reqData rspData uidFrom uidTo σ (.server e) { σ with server }
        (out.map .server)
  | client {c : ℕ} {e : ClientUser.Event} {client out} (hc : c < σ.started)
      (hstep : (σ.clients c).step rtRsp reqData (uid uidFrom c) e = some (client, out)) :
      Step rt rtRsp reqData rspData uidFrom uidTo σ (.client c e)
        { σ with clients := Function.update σ.clients c client } (out.map (.client c))

/-- **What a step does.**

**Proof sketch.** By cases on the event: each guard of `step` is what the constructor asks for, and
the step of the server or of the user is passed on. -/
theorem step_cases {e : Event} {out : List Obs}
    (h : σ.step rt rtRsp reqData rspData uidFrom uidTo e = some (σ', out)) :
    Step rt rtRsp reqData rspData uidFrom uidTo σ e σ' out := by
  cases e with
  | start =>
    simp only [step] at h
    split at h
    · cases h
      exact .start ‹_›
    · cases h
  | accept c now =>
    simp only [step] at h
    split at h
    · rename_i hc
      cases h
      exact .accept hc.1 hc.2
    · cases h
  | server e =>
    have hmap : (∀ now, e ≠ .accept now) ∧
        (σ.server.step (userWire rt rspData) e).map (fun r =>
          ({ σ with server := r.1 }, r.2.map Obs.server)) = some (σ', out) := by
      cases e with
      | accept now => cases h
      | readDone | writeDone | timerDone | io | logic => exact ⟨fun _ => nofun, h⟩
    obtain ⟨he, hmap⟩ := hmap
    obtain ⟨⟨server, out'⟩, hstep, heq⟩ := Option.map_eq_some_iff.mp hmap
    cases heq
    exact .server he hstep
  | client c e =>
    simp only [step] at h
    split at h
    · obtain ⟨⟨client, out'⟩, hstep, heq⟩ := Option.map_eq_some_iff.mp h
      cases heq
      exact .client ‹_› hstep
    · cases h

variable {G : List Obs → System → Event → Prop}

/-- **The server of a run.** What the server does in a run of the system is a run of the server. A
guard on its steps holds if the runs of the system show it. -/
theorem server_of_run {H : List (GameServer.Obs UserBuffer UserBuffer) →
      GameServer UserBuffer UserBuffer → GameServer.Event UserBuffer → Prop}
    (haccept : ∀ tr σ now, H tr σ (.accept now))
    (hH : ∀ tr σ e, (machine rt rtRsp reqData rspData uidFrom uidTo).Run G tr σ →
      G tr σ (.server e) → (∀ now, e ≠ .accept now) → H (serverOf tr) σ.server e)
    (h : (machine rt rtRsp reqData rspData uidFrom uidTo).Run G tr σ) :
    (GameServer.machine (userWire rt rspData)).Run H (serverOf tr) σ.server := by
  refine h.simulate System.server _ rfl fun tr σ e σ' out hrun hg hstep => ?_
  change (_ ∧ serverOf out = []) ∨ ∃ e', H (serverOf tr) σ.server e' ∧
    σ.server.step (userWire rt rspData) e' = some (σ'.server, serverOf out)
  cases step_cases hstep with
  | start => exact .inl ⟨rfl, rfl⟩
  | @accept c now => exact .inr ⟨.accept now, haccept _ _ _, rfl⟩
  | server he hserver =>
    rw [serverOf_server]
    exact .inr ⟨_, hH _ _ _ hrun hg he, hserver⟩
  | client => exact .inl ⟨rfl, serverOf_client⟩

/-- **A user of a run.** What one user does in a run of the system is a run of the user. A guard on
its steps holds if the runs of the system show it. -/
theorem client_of_run {H : List ClientUser.Obs → ClientUser → ClientUser.Event → Prop}
    (hH : ∀ tr σ e, (machine rt rtRsp reqData rspData uidFrom uidTo).Run G tr σ →
      G tr σ (.client c e) → H (clientOf c tr) (σ.clients c) e)
    (h : (machine rt rtRsp reqData rspData uidFrom uidTo).Run G tr σ) :
    (ClientUser.machine rtRsp reqData (uid uidFrom c)).Run H (clientOf c tr) (σ.clients c) := by
  refine h.simulate (N := ClientUser.machine rtRsp reqData (uid uidFrom c))
    (fun σ => σ.clients c) _ rfl fun tr σ e σ' out hrun hg hstep => ?_
  change (_ ∧ clientOf c out = []) ∨ ∃ e', H (clientOf c tr) (σ.clients c) e' ∧
    (σ.clients c).step rtRsp reqData (uid uidFrom c) e' = some (σ'.clients c, clientOf c out)
  cases step_cases hstep with
  | start | accept => exact .inl ⟨rfl, rfl⟩
  | server => exact .inl ⟨rfl, clientOf_server⟩
  | @client c' e client out' _ hclient =>
    by_cases hc : c' = c
    · subst hc
      refine .inr ⟨e, hH _ _ _ hrun hg, ?_⟩
      simpa using hclient
    · exact .inl ⟨Function.update_of_ne (Ne.symm hc) _ _, by simp [hc]⟩

/-- What a session of the server has been asked and has answered. -/
lemma conserves_of_run (h : (machine rt rtRsp reqData rspData uidFrom uidTo).Run G tr σ) (s : ℕ) :
    GameServer.Conserves (userWire rt rspData) s (serverOf tr) σ.server :=
  GameServer.conserves_of_run (server_of_run (H := fun _ _ _ => True) (fun _ _ _ => trivial)
    (fun _ _ _ _ _ _ => trivial) h) s

/-- What a user says and what it handles. -/
lemma talks_of_run (h : (machine rt rtRsp reqData rspData uidFrom uidTo).Run G tr σ) (c : ℕ) :
    ClientUser.Talks rtRsp reqData (uid uidFrom c) (clientOf c tr) (σ.clients c) :=
  ClientUser.talks_of_run (client_of_run (H := fun _ _ _ => True) (fun _ _ _ _ _ => trivial) h)

/-! ## What has arrived -/

/-- A step of a user lets a body arrive exactly if a read completes with one.

**Proof sketch.** By cases on what happens to the user. Only the completion of a read makes a record
of an arrival; the records of a handler are frames that were sent. -/
lemma arrivedOf_of_step {uid : Bytes} {x x' : ClientUser} {e : ClientUser.Event}
    {out : List ClientUser.Obs} (h : x.step rtRsp reqData uid e = some (x', out)) :
    (∃ result, e = .readDone result ∧ arrivedOf out = (x.io.arrival result).toList) ∨
      arrivedOf out = [] := by
  cases e with
  | readDone result =>
    obtain ⟨io, -, heq⟩ := Option.map_eq_some_iff.mp h
    cases heq
    exact .inl ⟨result, rfl, ClientUser.arrivedOf_map _⟩
  | connectDone now ok =>
    simp only [ClientUser.step] at h
    split at h
    · cases h
      exact .inr rfl
    · cases h
  | writeDone ok =>
    obtain ⟨io, -, heq⟩ := Option.map_eq_some_iff.mp h
    cases heq
    exact .inr rfl
  | timerDone =>
    obtain ⟨io, -, heq⟩ := Option.map_eq_some_iff.mp h
    cases heq
    exact .inr rfl
  | io now =>
    simp only [ClientUser.step] at h
    split at h
    · cases h
    · simp only [ClientUser.signals_eq] at h
      cases h
      exact .inr (ClientUser.arrivedOf_sent _)
  | task =>
    simp only [ClientUser.step] at h
    split at h
    · cases h
    · cases h
      exact .inr rfl

/-- A step of the server other than an accept lets a body arrive on `s` exactly if a read of `s`
completes with one. -/
lemma arrivedOn_of_step {w : Wire UserBuffer UserBuffer} {x x' : GameServer UserBuffer UserBuffer}
    {e : GameServer.Event UserBuffer} {out : List (GameServer.Obs UserBuffer UserBuffer)}
    (h : x.step w e = some (x', out)) :
    (∃ result, e = .readDone s result ∧ arrivedOn s out = ((x.io s).arrival result).toList) ∨
      arrivedOn s out = [] := by
  cases GameServer.step_cases h with
  | @readDone u result =>
    rw [GameServer.arrivedOn_arrived]
    split
    · subst ‹u = s›
      exact .inl ⟨result, rfl, rfl⟩
    · exact .inr rfl
  | accept | writeDone | timerDone | logic => exact .inr rfl
  | io _ _ _ _ hsig => exact .inr (GameServer.signals_records (t := s) hsig).2.1

/-- The frames that a user has written are those of its talk. -/
lemma written_up (h : (machine rt rtRsp reqData rspData uidFrom uidTo).Run G tr σ) (c : ℕ) :
    ∃ n, σ.up tr c <+: (talk (uid uidFrom c) n).map (frame reqData) := by
  have htalks := talks_of_run h c
  cases hgame : (σ.clients c).gameclient with
  | false =>
    obtain ⟨hio, -, -, hsent⟩ := htalks.fresh hgame
    exact ⟨0, by simp [up, hio, hsent]⟩
  | true =>
    obtain ⟨n, hn⟩ := htalks.frames hgame
    rw [← ClientUser.map_frame_talk] at hn
    exact ⟨n, hn ▸ List.prefix_append _ _⟩

/-- The frames that the server has written are those of its answers. -/
lemma written_down (h : (machine rt rtRsp reqData rspData uidFrom uidTo).Run G tr σ) (s : ℕ) :
    σ.down tr s <+: (answered s (dones (serverOf tr))).map
      fun a => (userWire rt rspData).sendMsg ⟨a.2⟩ := by
  rw [← (conserves_of_run h s).replies]
  exact List.prefix_append _ _

/-- The invariant of the connections. A user has at most one session; what has arrived on a session
is what its user says, and what has arrived at a user are the answers of its session. -/
structure Wired (w : Wire UserBuffer UserBuffer) (reqData : LoginReq → Bytes) (uidFrom uidTo : ℤ)
    (tr : List Obs) (σ : System) : Prop where
  nodup : σ.peers.Nodup
  made : ∀ c ∈ σ.peers, c < σ.started
  bound : ∀ c < σ.started, uidFrom + c ≤ uidTo
  requests : ∀ s, arrivedOn s (serverOf tr) = [] ∨ ∃ c n, σ.peers[s]? = some c ∧
    InOrder (fun f msg => f.Receives (frame reqData msg)) (arrivedOn s (serverOf tr))
      (talk (uid uidFrom c) n)
  replies : ∀ c, arrivedOf (clientOf c tr) = [] ∨ ∃ s, σ.peers[s]? = some c ∧
    InOrder (fun f a => f.Receives (w.sendMsg ⟨a.2⟩)) (arrivedOf (clientOf c tr))
      (answered s (dones (serverOf tr)))

/-- A user has one session only. -/
lemma Wired.eq_of_peers {w : Wire UserBuffer UserBuffer} {s' : ℕ}
    (h : Wired w reqData uidFrom uidTo tr σ) (hs : σ.peers[s]? = some c)
    (hs' : σ.peers[s']? = some c) : s = s' :=
  (List.getElem?_inj (List.getElem?_eq_some_iff.mp hs).1 h.nodup).mp (hs.trans hs'.symm)

/-- A step of the server keeps the connections in order.

**Proof sketch.** Only a read that completes with a body adds to what has arrived. By the network
the body is the next frame of the user of this session, which is the next one of its talk, since
what the user has sent is a prefix of it. Requests are only ever answered more, so that the replies
stay in order. -/
lemma Wired.server {e : GameServer.Event UserBuffer} {server out}
    (h : Wired (userWire rt rspData) reqData uidFrom uidTo tr σ)
    (hup : ∀ c, ∃ n, σ.up tr c <+: (talk (uid uidFrom c) n).map (frame reqData))
    (hnetwork : Network tr σ (.server e))
    (hstep : σ.server.step (userWire rt rspData) e = some (server, out)) :
    Wired (userWire rt rspData) reqData uidFrom uidTo (tr ++ out.map .server)
      { σ with server } := by
  refine ⟨h.nodup, h.made, h.bound, fun s => ?_, fun c => ?_⟩
  · rw [serverOf_append, serverOf_server, GameServer.arrivedOn_append]
    have hquiet : arrivedOn s out = [] → arrivedOn s (serverOf tr) ++ arrivedOn s out = [] ∨
        ∃ c n, σ.peers[s]? = some c ∧ InOrder (fun f msg => f.Receives (frame reqData msg))
          (arrivedOn s (serverOf tr) ++ arrivedOn s out) (talk (uid uidFrom c) n) := fun hnone => by
      rw [hnone, List.append_nil]
      exact h.requests s
    rcases arrivedOn_of_step (s := s) hstep with ⟨result, rfl, harrived⟩ | hnone
    · cases hresult : (σ.server.io s).arrival result with
      | none => exact hquiet (by rw [harrived, hresult]; rfl)
      | some f =>
        right
        obtain ⟨c, hc, buf, hbuf, hf⟩ := hnetwork f hresult
        obtain ⟨m, hm⟩ := hup c
        -- the frame that arrives is the next one of the talk
        obtain ⟨msg, hmsg, rfl⟩ : ∃ msg, (talk (uid uidFrom c) m)[(arrivedOn s
            (serverOf tr)).length]? = some msg ∧ frame reqData msg = buf := by
          have hget := getElem?_of_prefix hm hbuf
          rw [List.getElem?_map] at hget
          exact Option.map_eq_some_iff.mp hget
        obtain ⟨n, hn⟩ : ∃ n, InOrder (fun f msg => f.Receives (frame reqData msg))
            (arrivedOn s (serverOf tr)) (talk (uid uidFrom c) n) := by
          rcases h.requests s with hnil | ⟨c', n, hc', hn⟩
          · exact ⟨0, hnil ▸ inOrder_nil⟩
          · cases hc.symm.trans hc'
            exact ⟨n, hn⟩
        refine ⟨c, max n m, hc, ?_⟩
        rw [harrived, hresult]
        refine (hn.mono (ClientUser.talk_prefix (le_max_left _ _))).snoc ?_ hf
        exact getElem?_of_prefix (ClientUser.talk_prefix (le_max_right _ _)) hmsg
    · exact hquiet hnone
  · rw [clientOf_append, clientOf_server, List.append_nil, serverOf_append, serverOf_server,
      GameServer.dones_append]
    rcases h.replies c with hnil | ⟨s, hs, hin⟩
    · exact .inl hnil
    · refine .inr ⟨s, hs, hin.mono ?_⟩
      rw [answered_append]
      exact List.prefix_append _ _

/-- A step of a user keeps the connections in order.

**Proof sketch.** Only a read that completes with a body adds to what the user has received. By the
network the body is the next answer of a session of this user, and the user has one session only.
The requests and the other users are not concerned. -/
lemma Wired.client {u : ℕ} {e : ClientUser.Event} {client out}
    (h : Wired (userWire rt rspData) reqData uidFrom uidTo tr σ)
    (hdown : ∀ s, σ.down tr s <+: (answered s (dones (serverOf tr))).map
      fun a => (userWire rt rspData).sendMsg ⟨a.2⟩)
    (hnetwork : Network tr σ (.client u e))
    (hstep : (σ.clients u).step rtRsp reqData (uid uidFrom u) e = some (client, out)) :
    Wired (userWire rt rspData) reqData uidFrom uidTo (tr ++ out.map (.client u))
      { σ with clients := Function.update σ.clients u client } := by
  refine ⟨h.nodup, h.made, h.bound, fun s => ?_, fun c => ?_⟩
  · rw [serverOf_append, serverOf_client, List.append_nil]
    exact h.requests s
  · rw [serverOf_append, serverOf_client, List.append_nil, clientOf_append, clientOf_client]
    by_cases hc : u = c
    · subst hc
      rw [if_pos rfl, ClientUser.arrivedOf_append]
      rcases arrivedOf_of_step hstep with ⟨result, rfl, harrived⟩ | hnone
      · cases hresult : (σ.clients u).io.arrival result with
        | none =>
          rw [harrived, hresult, Option.toList_none, List.append_nil]
          exact h.replies u
        | some f =>
          right
          obtain ⟨s, -, hs, buf, hbuf, hf⟩ := hnetwork f hresult
          -- the frame that arrives is the next answer
          obtain ⟨a, ha, rfl⟩ : ∃ a, (answered s (dones (serverOf tr)))[(arrivedOf
              (clientOf u tr)).length]? = some a ∧ (userWire rt rspData).sendMsg ⟨a.2⟩ = buf := by
            have hget := getElem?_of_prefix (hdown s) hbuf
            rw [List.getElem?_map] at hget
            exact Option.map_eq_some_iff.mp hget
          refine ⟨s, hs, ?_⟩
          rw [harrived, hresult]
          rcases h.replies u with hnil | ⟨s', hs', hin⟩
          · rw [hnil] at ha ⊢
            exact inOrder_nil.snoc ha hf
          · -- the user has one session only
            obtain rfl := h.eq_of_peers hs hs'
            exact hin.snoc ha hf
      · rw [hnone, List.append_nil]
        exact h.replies u
    · rw [if_neg hc, List.append_nil]
      exact h.replies c

/-- A new user or a new session keeps the connections in order. -/
lemma Wired.of_peers {rest : List ℕ} {τ : System}
    (h : Wired (userWire rt rspData) reqData uidFrom uidTo tr σ)
    (hpeers : τ.peers = σ.peers ++ rest) (hnodup : (σ.peers ++ rest).Nodup)
    (hmade : ∀ c ∈ σ.peers ++ rest, c < τ.started)
    (hbound : ∀ c < τ.started, uidFrom + c ≤ uidTo) :
    Wired (userWire rt rspData) reqData uidFrom uidTo tr τ := by
  refine ⟨hpeers ▸ hnodup, hpeers ▸ hmade, hbound, fun s => ?_, fun c => ?_⟩
  · refine (h.requests s).imp_right ?_
    rintro ⟨c, n, hc, hin⟩
    exact ⟨c, n, hpeers ▸ getElem?_of_prefix (List.prefix_append _ _) hc, hin⟩
  · refine (h.replies c).imp_right ?_
    rintro ⟨s, hs, hin⟩
    exact ⟨s, hpeers ▸ getElem?_of_prefix (List.prefix_append _ _) hs, hin⟩

/-- **What has arrived.** The connections are in order in every run over such a network. -/
theorem wired_of_run (h : (machine rt rtRsp reqData rspData uidFrom uidTo).Run Network tr σ) :
    Wired (userWire rt rspData) reqData uidFrom uidTo tr σ := by
  refine h.invariant (Wired (userWire rt rspData) reqData uidFrom uidTo) ?_ ?_
  · exact ⟨List.nodup_nil, by simp [machine], by simp [machine], fun _ => .inl rfl,
      fun _ => .inl rfl⟩
  · intro tr σ e σ' out hrun ih hg hstep
    cases step_cases hstep with
    | start huid =>
      rw [List.append_nil]
      have hpeers : σ.peers = σ.peers ++ [] := (List.append_nil _).symm
      refine ih.of_peers hpeers (by simpa using ih.nodup) (fun c hc => ?_) fun c hc => ?_
      · rw [List.append_nil] at hc
        exact (ih.made c hc).trans (Nat.lt_succ_self _)
      · rcases Nat.lt_succ_iff_lt_or_eq.mp hc with hc | rfl
        · exact ih.bound c hc
        · exact huid
    | @accept c now hc hnew =>
      rw [List.append_nil]
      refine ih.of_peers rfl ?_ (fun d hd => ?_) ih.bound
      · exact List.nodup_append_comm.mpr (List.nodup_cons.mpr ⟨hnew, ih.nodup⟩)
      · rcases List.mem_append.mp hd with hd | hd
        · exact ih.made d hd
        · exact List.mem_singleton.mp hd ▸ hc
    | server _ hserver => exact ih.server (written_up hrun) hg hserver
    | client _ hclient => exact ih.client (written_down hrun) hg hclient

/-! ## Logins -/

/-- Every user has a uid of its own. -/
lemma uid_injective : Function.Injective (uid uidFrom) := by
  -- the numeral is read back from its bytes
  have hback : ∀ i : ℕ, ((uid uidFrom i).map fun b => Char.ofNat b.toNat) =
      Decimal.int (uidFrom + i) := by
    intro i
    rw [uid, List.map_map]
    refine (List.map_congr_left fun ch hch => ?_).trans (List.map_id _)
    have hlt := Decimal.toNat_lt_of_mem_int hch
    rw [Function.comp_apply, UInt8.toNat_ofNat', Nat.mod_eq_of_lt hlt]
    exact Char.ofNat_toNat ch
  intro i j h
  have htext : Decimal.int (uidFrom + i) = Decimal.int (uidFrom + j) := by
    rw [← hback, h, hback]
  have hsum := Decimal.int_injective htext
  omega

/-- No uid is empty. -/
lemma uid_ne_nil : uid uidFrom c ≠ [] := by
  rw [uid, ne_eq, List.map_eq_nil_iff]
  exact Decimal.int_ne_nil

/-- A uid is short, since it is that of an `int`. -/
lemma length_uid_le (hfrom : -2 ^ 31 ≤ uidFrom) (hto : uidTo < 2 ^ 31)
    (hc : uidFrom + c ≤ uidTo) : (uid uidFrom c).length ≤ 64 := by
  have hlen : (Decimal.int (uidFrom + c)).length ≤ 10 + 1 :=
    Decimal.length_int_le (by decide) (by omega)
  rw [uid, List.length_map]
  omega

/-- What has been answered on a session. -/
lemma mem_answered_iff {done : List Done} {req : LoginReq} {res : LoginRes} :
    (req, res) ∈ answered s done ↔ .login s req res ∈ done := by
  rw [answered, List.mem_filterMap]
  constructor
  · rintro ⟨d, hd, heq⟩
    cases d with
    | login t req' res' =>
      simp only [Option.ite_none_right_eq_some, Option.some.injEq, Prod.mk.injEq] at heq
      obtain ⟨rfl, rfl, rfl⟩ := heq
      exact hd
    | addSession | ping | delUser | onClosed => cases heq
  · exact fun hd => ⟨_, hd, if_pos rfl⟩

section Logins

variable (hfrom : -2 ^ 31 ≤ uidFrom) (hto : uidTo < 2 ^ 31)
  (hrt : Runtimes rt rtRsp reqData rspData)

include hfrom hto hrt

/-- The login requests that have arrived on a session are at most the one of its user.

**Proof sketch.** What has arrived is in the order of the talk of the user, which has one login
request, its first message. Every frame that arrives decodes to its message (`Runtimes.message_eq`),
the request because its uid is short. -/
lemma Wired.loginReqs (h : Wired (userWire rt rspData) reqData uidFrom uidTo tr σ) (s : ℕ) :
    (arrivedOn s (serverOf tr)).filterMap (userWire rt rspData).loginReq = [] ∨
      ∃ c, σ.peers[s]? = some c ∧
        (arrivedOn s (serverOf tr)).filterMap (userWire rt rspData).loginReq <+:
          [⟨.kLoginTypeNormal, uid uidFrom c⟩] := by
  rcases h.requests s with hnil | ⟨c, n, hc, hin⟩
  · rw [hnil]
    exact .inl rfl
  · refine .inr ⟨c, hc, ?_⟩
    have hshort : (uid uidFrom c).length ≤ 64 :=
      length_uid_le hfrom hto (h.bound c (h.made c (List.mem_of_getElem? hc)))
    have hpings : (List.replicate n UserMsg.ping).filterMap (fun
        | .loginReq req => some req
        | .ping => none) = [] := by
      rw [List.filterMap_eq_nil_iff]
      intro msg hmsg
      rw [List.eq_of_mem_replicate hmsg]
    have hread := hin.filterMap (f := (userWire rt rspData).loginReq) (g := fun
        | .loginReq req => some req
        | .ping => none) fun f msg hmsg hf => by
      have hmessage : (userWire rt rspData).message f = some msg :=
        hrt.message_eq (fun req hreq => ?_) hf
      · rw [Wire.loginReq, hmessage]
        rfl
      · subst hreq
        rcases List.mem_cons.mp hmsg with heq | hmem
        · cases heq
          exact hshort
        · cases List.eq_of_mem_replicate hmem
    rwa [talk, List.filterMap_cons, hpings] at hread

/-- A request that waits for the logic thread is the one of its user, and has not been answered. -/
lemma Wired.waiting_eq (h : Wired (userWire rt rspData) reqData uidFrom uidTo tr σ)
    (hserver : GameServer.Conserves (userWire rt rspData) s (serverOf tr) σ.server)
    {req : LoginReq} (hreq : .loginReq s req ∈ σ.server.logic.tasks) :
    ∃ c, σ.peers[s]? = some c ∧ req = ⟨.kLoginTypeNormal, uid uidFrom c⟩ ∧
      answered s (dones (serverOf tr)) = [] := by
  have hwaiting : req ∈ waiting s σ.server.logic.tasks :=
    List.mem_filterMap.mpr ⟨_, hreq, if_pos rfl⟩
  have hsplit := hserver.requests
  rcases h.loginReqs hfrom hto hrt s with hnil | ⟨c, hc, hone⟩
  · rw [hnil, List.append_eq_nil_iff, List.append_eq_nil_iff] at hsplit
    rw [hsplit.1.2] at hwaiting
    cases hwaiting
  · refine ⟨c, hc, ?_⟩
    have hmem : req ∈ [(⟨.kLoginTypeNormal, uid uidFrom c⟩ : LoginReq)] := by
      refine hone.subset ?_
      rw [← hsplit]
      exact List.mem_append_left _ (List.mem_append_right _ hwaiting)
    refine ⟨List.mem_singleton.mp hmem, ?_⟩
    -- there is room for one request only
    have hlen := hone.length_le
    have hpos := List.length_pos_of_mem hwaiting
    rw [← hsplit, List.length_append, List.length_append, List.length_map,
      List.length_singleton] at hlen
    exact List.eq_nil_of_length_eq_zero (by omega)

/-- An answer is given to the request of the user. -/
lemma Wired.answered_eq (h : Wired (userWire rt rspData) reqData uidFrom uidTo tr σ)
    (hserver : GameServer.Conserves (userWire rt rspData) s (serverOf tr) σ.server) :
    answered s (dones (serverOf tr)) = [] ∨ ∃ c res, σ.peers[s]? = some c ∧
      answered s (dones (serverOf tr)) = [(⟨.kLoginTypeNormal, uid uidFrom c⟩, res)] := by
  have hfirst : (answered s (dones (serverOf tr))).map Prod.fst <+:
      (arrivedOn s (serverOf tr)).filterMap (userWire rt rspData).loginReq := by
    rw [← hserver.requests, List.append_assoc]
    exact List.prefix_append _ _
  rcases h.loginReqs hfrom hto hrt s with hnil | ⟨c, hc, hone⟩
  · rw [hnil, List.prefix_nil, List.map_eq_nil_iff] at hfirst
    exact .inl hfirst
  · rcases List.prefix_cons_iff.mp (hfirst.trans hone) with hnil | ⟨rest, hcons, hrest⟩
    · exact .inl (List.map_eq_nil_iff.mp hnil)
    · rw [List.prefix_nil.mp hrest] at hcons
      obtain ⟨⟨req, res⟩, as, heq, rfl, has⟩ := List.map_eq_cons_iff.mp hcons
      rw [List.map_eq_nil_iff.mp has] at heq
      exact .inr ⟨c, res, hc, heq⟩

/-- The logic thread runs fresh tasks only.

**Proof sketch.** The guard is shown step by step. A request that waits is the only one of its user
(`Wired.waiting_eq`). A login that was answered before for the same uid is one of the same user,
since uids differ, and on the same session, which has none left to answer then. -/
lemma fresh_of_run (h : (machine rt rtRsp reqData rspData uidFrom uidTo).Run Network tr σ) :
    LogicIo.machine.Run (LogicIo.guard (fun _ _ _ => True) fun done _ t => t.Fresh done)
      (dones (serverOf tr)) σ.server.logic := by
  have hserver := server_of_run (H := GameServer.onTask fun done _ t => t.Fresh done)
    (fun _ _ _ => trivial) (fun tr σ e hrun _ _ => ?_) h
  · exact GameServer.logic_of_run (fun _ _ _ _ _ _ _ _ _ _ => trivial)
      (fun tr σ t _ hg ht => hg t ht) hserver
  · have hwired := wired_of_run hrun
    cases e with
    | accept | readDone | writeDone | timerDone | io => trivial
    | logic =>
      intro t ht
      cases t with
      | addSession | ping | onClose | onClosed => trivial
      | loginReq s req =>
        obtain ⟨c, hc, rfl, hnone⟩ := hwired.waiting_eq hfrom hto hrt (conserves_of_run hrun s)
          (List.mem_of_mem_head? ht)
        refine ⟨⟨rfl, uid_ne_nil⟩, fun s' req' res hlogin heq => ?_⟩
        -- a login for this uid is one of the same user, and of the same session
        have hanswer : (req', res) ∈ answered s' (dones (serverOf tr)) :=
          mem_answered_iff.mpr hlogin
        rcases hwired.answered_eq hfrom hto hrt (conserves_of_run hrun s')
          with hnil | ⟨c', res', hc', hone⟩
        · rw [hnil] at hanswer
          cases hanswer
        · rw [hone, List.mem_singleton] at hanswer
          obtain ⟨rfl, -⟩ := Prod.mk.inj hanswer
          obtain rfl := uid_injective heq
          obtain rfl := hwired.eq_of_peers hc hc'
          rw [hnone] at hone
          cases hone

/-- Every answer is that of the one request of the user, and it is success. -/
lemma answered_of_run (h : (machine rt rtRsp reqData rspData uidFrom uidTo).Run Network tr σ)
    (hc : σ.peers[s]? = some c) : answered s (dones (serverOf tr)) <+:
      [(⟨.kLoginTypeNormal, uid uidFrom c⟩, .kLoginResSuccess)] := by
  have hapart := LogicIo.apart_of_run (fresh_of_run hfrom hto hrt h)
  rcases (wired_of_run h).answered_eq hfrom hto hrt (conserves_of_run h s)
    with hnil | ⟨c', res, hc', hone⟩
  · exact hnil ▸ List.nil_prefix
  · obtain rfl := Option.some.inj (hc.symm.trans hc')
    have hmem : (⟨.kLoginTypeNormal, uid uidFrom c⟩, res) ∈ answered s (dones (serverOf tr)) :=
      hone ▸ List.mem_singleton_self _
    obtain rfl := hapart.success _ _ _ (mem_answered_iff.mp hmem)
    exact ⟨[], by rw [hone, List.append_nil]⟩

/-- The replies that have arrived at a user are at most one, and it is success. -/
lemma replies_of_run (h : (machine rt rtRsp reqData rspData uidFrom uidTo).Run Network tr σ)
    (c : ℕ) : (arrivedOf (clientOf c tr)).filterMap (ClientUser.message rtRsp) <+:
      [⟨.kLoginResSuccess⟩] := by
  rcases (wired_of_run h).replies c with hnil | ⟨s, hs, hin⟩
  · rw [hnil]
    exact List.nil_prefix
  · have hread : (arrivedOf (clientOf c tr)).filterMap (ClientUser.message rtRsp) <+:
        (answered s (dones (serverOf tr))).filterMap fun a => some (⟨a.2⟩ : LoginRsp) :=
      hin.filterMap fun f a _ hf => hrt.rsp_eq hf
    exact hread.trans
      ((answered_of_run hfrom hto hrt h hs).filterMap fun a => some (⟨a.2⟩ : LoginRsp))

end Logins

/-- **Every login succeeds, once.** In every run of the server with the users of one client
process, whatever the threads and the connections do: a session answers at most one login request,
that of its user, and answers it with success; a user handles at most one reply, which is that
answer, so that none of them ends its connection; no two online sessions have the same uid, and
every online session has the entry of its uid.

**Proof sketch.** What has arrived on a session is what its user says, one request and then pings
(`wired_of_run`), and the users have different uids, so that the logic thread never sees a request
for a uid that has been asked for (`fresh_of_run`). Such a login is answered with success
(`LogicIo.apart_of_run`), and what arrives at the user is that answer. -/
theorem logins_succeed (hfrom : -2 ^ 31 ≤ uidFrom) (hto : uidTo < 2 ^ 31)
    (hrt : Runtimes rt rtRsp reqData rspData)
    (h : (machine rt rtRsp reqData rspData uidFrom uidTo).Run Network tr σ) :
    (∀ s c, σ.peers[s]? = some c → answered s (dones (serverOf tr)) <+:
        [(⟨.kLoginTypeNormal, uid uidFrom c⟩, .kLoginResSuccess)]) ∧
      (∀ c, handledOf (clientOf c tr) <+: [⟨.kLoginResSuccess⟩]) ∧
      σ.server.logic.SingleLogin ∧
      ∀ s, σ.server.logic.Online s →
        (σ.server.logic.users.findUser (σ.server.logic.sessions s).userId).isSome := by
  have hapart := LogicIo.apart_of_run (fresh_of_run hfrom hto hrt h)
  refine ⟨fun s c hc => answered_of_run hfrom hto hrt h hc, fun c => ?_,
    LogicIo.singleLogin_of_apart hapart, fun s hs => hapart.entry s hs.2.1 hs.2.2⟩
  -- what is handled has arrived
  have hhandled : handledOf (clientOf c tr) <+:
      (arrivedOf (clientOf c tr)).filterMap (ClientUser.message rtRsp) := by
    rw [← (talks_of_run h c).replies, List.append_assoc]
    exact List.prefix_append _ _
  exact hhandled.trans (replies_of_run hfrom hto hrt h c)

/-- A protobuf runtime of the server for runs that are computed: a request has its `type` field
and a `uid` field with a one-byte length. -/
def sampleReqProtobuf : Protobuf UserMsg where
  createMessage := sampleProtobuf.createMessage
  parseFromArray
    | .loginReq _, 8 :: type :: 18 :: _ :: uid, _ => (true, .loginReq
        { type := if type = 0 then .kLoginTypeNormal else .kLoginTypeQueued, uid })
    | msg, _, _ => (true, msg)

/-- The payload of a request for `sampleReqProtobuf`. -/
def sampleTypedReqData (req : LoginReq) : Bytes :=
  8 :: (match req.type with | .kLoginTypeNormal => 0 | .kLoginTypeQueued => 1) ::
    18 :: UInt8.ofNat req.uid.length :: req.uid

/-- The payload of a reply for `sampleRspProtobuf`. -/
def sampleRspData : LoginRsp → Bytes
  | ⟨.kLoginResSuccess⟩ => [8, 0]
  | ⟨.kLoginResQueue⟩ => [8, 1]
  | ⟨.kLoginResError⟩ => [8, 2]
  | ⟨.kLoginResLogined⟩ => [8, 3]

/-- The sample runtimes serialise and parse as they must. -/
lemma sampleRuntimes :
    Runtimes sampleReqProtobuf ClientUser.sampleRspProtobuf sampleTypedReqData sampleRspData where
  loginReq := ⟨.loginReq {}, rfl, fun req => by
    obtain ⟨type, uid⟩ := req
    cases type <;> rfl⟩
  ping := ⟨.ping, rfl, rfl⟩
  loginRsp := ⟨⟨.kLoginResSuccess⟩, rfl, fun rsp => by
    obtain ⟨result⟩ := rsp
    cases result <;> rfl⟩
  reqSize req := by simp [sampleTypedReqData]
  rspSize rsp := by
    obtain ⟨result⟩ := rsp
    cases result <;> simp [sampleRspData]

/-- The events in which a frame is received and handled at one end: its header, then its body. -/
def sampleDelivery (f : UserBuffer) (readDone : Option UserBuffer → Event) (io : Event) :
    List Event := [readDone (some f), io, readDone (some f), io]

/-- Two users are made, and the first one logs in. -/
theorem logins_succeed_first : ∃ (tr : List Obs) (σ : System),
    handledOf (clientOf 0 tr) = [⟨.kLoginResSuccess⟩] ∧ σ.server.logic.Online 0 ∧
      (σ.server.logic.users.findUser (σ.server.logic.sessions 0).userId).isSome := by
  obtain ⟨r, hexec, hhandled, honline⟩ : ∃ r ∈ (machine sampleReqProtobuf
      ClientUser.sampleRspProtobuf sampleTypedReqData sampleRspData 10 11).exec
      (fun tr σ e => decide (Network tr σ e)) [] {}
      ([.start, .client 0 (.connectDone 0 true), .start, .accept 0 0, .client 0 (.io 0),
        .server .logic] ++
        sampleDelivery (frame sampleTypedReqData (.loginReq ⟨.kLoginTypeNormal, [49, 48]⟩))
          (fun r => .server (.readDone 0 r)) (.server (.io 0 1)) ++
        [.server .logic, .server (.io 0 1)] ++
        sampleDelivery ((userWire sampleReqProtobuf sampleRspData).sendMsg ⟨.kLoginResSuccess⟩)
          (fun r => .client 0 (.readDone r)) (.client 0 (.io 1)) ++
        [.client 0 .task]),
      handledOf (clientOf 0 r.1) = [⟨.kLoginResSuccess⟩] ∧ r.2.server.logic.Online 0 := by
    decide +kernel
  have hrun := Machine.run_of_exec (G := Network) (fun tr σ e h => of_decide_eq_true h) hexec
  obtain ⟨-, -, -, hentry⟩ := logins_succeed (by decide) (by decide) sampleRuntimes hrun
  exact ⟨r.1, r.2, hhandled, honline, hentry 0 honline⟩

end System

end FightingCard
