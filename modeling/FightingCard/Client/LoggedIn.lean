import FightingCard.Common.Healthy
import FightingCard.Server.Orphans
import FightingCard.Server.Pool
import FightingCard.Client.EndToEnd

set_option relaxedAutoImplicit false
set_option autoImplicit false

/-!
# A system without failures

The clients and the server when nothing fails: connections are made, frames are transmitted and
delivered, and `CheckAlive` finds every session alive. Then no connection is ever closed, and the
login of a user cannot get stuck between the queues: as long as a user is not online, some step
other than a timer or the start of another user is possible.

## Main definitions

* `FightingCard.System.Reliable` — nothing fails.
* `FightingCard.GameServer.Serving`, `FightingCard.ClientUser.Attending` — the invariants of the
  two sides.

## Main results

* `FightingCard.GameServer.serving_of_run`, `FightingCard.ClientUser.attending_of_run` — the
  connections stay healthy.
* `FightingCard.System.logged_in_of_stuck` — where nothing is left to do, everybody is online.
-/

namespace FightingCard

/-! ## The server -/

/-- A login that was answered with success has authenticated its session, for good.

**Proof sketch.** Induction on the run, over the presence. The login that succeeds sets the flag of
its session, and no task ever takes one away; the other steps leave the records as they are. -/
lemma LogicIo.authed_of_run {done : List Done} {σ : LogicIo} (h : machine.Reach done σ) {s : ℕ}
    {req : LoginReq} (hlogin : .login s req .kLoginResSuccess ∈ done) :
    (σ.sessions s).authed = true := by
  suffices hall : ∀ s req, Done.login s req .kLoginResSuccess ∈ done → σ.presence.authed s = true
    from hall s req hlogin
  refine h.invariant (fun done σ => ∀ s req, Done.login s req .kLoginResSuccess ∈ done →
    σ.presence.authed s = true) (by simp) ?_
  intro tr σ e σ' out _ ih _ hstep s req hmem
  cases step_cases hstep with
  | accept hpres | dispatch _ hpres | onClosed _ hpres | close _ hpres =>
    rw [List.append_nil] at hmem
    rw [hpres]
    exact ih s req hmem
  | run hran =>
    have hold : ∀ d, Done.login s req .kLoginResSuccess ∈ tr ++ [d] →
        (∀ req', d ≠ .login s req' .kLoginResSuccess) → σ.presence.authed s = true := by
      intro d hd hne
      rcases List.mem_append.mp hd with hd | hd
      · exact ih s req hd
      · exact absurd (List.mem_singleton.mp hd).symm (hne req)
    generalize σ'.presence = p at hran
    cases hran with
    | refused | deleted => exact hold _ hmem (by simp)
    | quiet _ _ hnologin => exact hold _ hmem fun req' => hnologin s req' _
    | @registered u req' | @queued u req' =>
      dsimp only
      by_cases hs : s = u
      · rw [hs, Function.update_self]
      · rw [Function.update_of_ne hs]
        refine hold _ hmem fun req'' heq => hs ?_
        exact (Done.login.inj heq).1.symm

namespace GameServer

open Session

variable {β φ : Type} {w : Wire β φ} {tr : List (Obs β φ)} {σ σ' : GameServer β φ} {s : ℕ}

/-- Nothing fails on the server: reads complete with what it accepts, transmissions succeed, and
`CheckAlive` would find a session alive whenever a handler of it runs, also one of another kind. -/
def Smooth (w : Wire β φ) (_ : List (Obs β φ)) (σ : GameServer β φ) : Event φ → Prop
  | .readDone s result => ∃ f, result = some f ∧
      ∀ op ∈ (σ.io s).reading.head?, Accepted w.hooks (op.handler (.ok f) : Handler β φ)
  | .writeDone _ ok => ok = true
  | .io s now => σ.notAlive s now = false
  | .accept _ | .timerDone _ | .logic => True

/-- Every accepted connection is healthy, none is closed, and the others are untouched. -/
structure Serving (w : Wire β φ) (σ : GameServer β φ) : Prop where
  healthy : ∀ s < σ.logic.accepted, (σ.io s).Healthy w.hooks
  opened : ∀ s, (σ.logic.sessions s).closed = false
  fresh : ∀ s, σ.logic.accepted ≤ s → σ.io s = {}

/-- A step that changes at most one connection, which is accepted, and closes none. -/
lemma Serving.of_io (hσ : σ.Serving w) (hacc : σ'.logic.accepted = σ.logic.accepted)
    (hs : s < σ.logic.accepted) (hhealthy : (σ'.io s).Healthy w.hooks)
    (hother : ∀ t, t ≠ s → σ'.io t = σ.io t)
    (hopened : ∀ t, (σ'.logic.sessions t).closed = true → (σ.logic.sessions t).closed = true) :
    σ'.Serving w := by
  refine ⟨fun t ht => ?_, fun t => ?_, fun t ht => ?_⟩
  · by_cases hts : t = s
    · exact hts ▸ hhealthy
    · rw [hother t hts]
      exact hσ.healthy t (hacc ▸ ht)
  · by_contra hclosed
    have hold := hopened t (eq_true_of_ne_false hclosed)
    rw [hσ.opened t] at hold
    cases hold
  · rw [hother t (by omega)]
    exact hσ.fresh t (hacc ▸ ht)

/-- **One step** without failures.

**Proof sketch.** By cases on the event. A completion and an expiry concern one connection and post
to it (`Healthy.completeRead` and its like). A handler keeps its connection healthy and does not
close it, since `CheckAlive` finds it alive (`Healthy.handle`). A task of the logic thread gives the
connection a `Write` task at most. Only an accept makes a connection that was untouched before, and
it starts healthy. -/
lemma Serving.step {e : Event φ} {out : List (Obs β φ)} (hσ : σ.Serving w)
    (hwf : σ.logic.WellFormed) (hsmooth : Smooth w tr σ e) (h : σ.step w e = some (σ', out)) :
    σ'.Serving w := by
  -- an event of one accepted connection that does not touch the logic thread
  have complete : ∀ {s : ℕ} {x : Session β φ}, s < σ.logic.accepted → x.Healthy w.hooks →
      (σ.setIo s x).Serving w := by
    intro s x hs hx
    refine hσ.of_io rfl hs (by simpa [setIo] using hx) (fun t ht => by simp [setIo, ht])
      fun _ hc => hc
  have hstep := h
  cases e with
  | accept now =>
    cases h
    refine ⟨fun t ht => ?_, hσ.opened, fun t ht => ?_⟩
    · by_cases hts : t = σ.logic.accepted
      · subst hts
        have hnew : (σ.accept now).io σ.logic.accepted =
            ({ reading := [.header], timerArmed := true } : Session β φ) := by
          simp [accept, setIo, hσ.fresh _ le_rfl, armTimer, stopTimer, asyncRead]
        rw [hnew]
        exact ⟨rfl, by simp, rfl, rfl⟩
      · have hold : (σ.accept now).io t = σ.io t := by simp [accept, setIo, hts]
        rw [hold]
        refine hσ.healthy t ?_
        change t < σ.logic.accepted + 1 at ht
        omega
    · change σ.logic.accepted + 1 ≤ t at ht
      have hold : (σ.accept now).io t = σ.io t := by
        simp [accept, setIo, show t ≠ σ.logic.accepted by omega]
      rw [hold]
      exact hσ.fresh t (by omega)
  | readDone s result =>
    simp only [GameServer.step] at h
    split at h
    · obtain ⟨x, hx, heq⟩ := Option.map_eq_some_iff.mp h
      cases heq
      obtain ⟨f, rfl, hacc⟩ := hsmooth
      exact complete ‹_› ((hσ.healthy s ‹_›).completeRead hx hacc)
    · cases h
  | writeDone s ok =>
    simp only [GameServer.step] at h
    split at h
    · obtain ⟨x, hx, heq⟩ := Option.map_eq_some_iff.mp h
      cases heq
      cases (show ok = true from hsmooth)
      exact complete ‹_› ((hσ.healthy s ‹_›).completeWrite hx)
    · cases h
  | timerDone s =>
    simp only [GameServer.step] at h
    split at h
    · obtain ⟨x, hx, heq⟩ := Option.map_eq_some_iff.mp h
      cases heq
      exact complete ‹_› ((hσ.healthy s ‹_›).expireTimer hx)
    · cases h
  | io s now =>
    simp only [GameServer.step] at h
    split at h
    · rename_i hs
      obtain ⟨⟨y, xs⟩, hrun, hsig⟩ := Option.map_eq_some_iff.mp h
      rw [show σ.notAlive s now = false from hsmooth] at hrun
      obtain ⟨hd, rest, hqueue, hcases⟩ := runHandler_cases hrun
      obtain ⟨hy, hopen⟩ := (hσ.healthy s hs).handle hqueue hcases
      have hio : σ'.io = (σ.setIo s y).io := (signals_records (t := s) hsig).1
      have hsignal := (signalled hqueue hcases.outcome hsig).1
      refine hσ.of_io ?_ hs (by simpa [hio, setIo] using hy)
        (fun t ht => by simp [hio, setIo, ht]) fun t hc => ?_
      · rcases accepted_of_step hstep with hacc | ⟨_, heq, -⟩
        · exact hacc
        · cases heq
      · exact (hsignal.closed_cases hc).resolve_right fun hclose => hopen hclose.2
    · cases h
  | logic =>
    cases step_cases hstep with
    | @logic t ts d _ htasks hrun hreply =>
      have hs : t.session < σ.logic.accepted := hwf.tasks t (htasks ▸ List.mem_cons_self)
      have hran := LogicIo.ran_runTask (σ := { σ.logic with tasks := ts }) t
      rw [hrun] at hran
      have hio : σ'.io t.session = σ.io t.session ∨
          ∃ buf, σ'.io t.session = (σ.io t.session).write buf := by
        rw [hreply]
        cases d with
        | login u req res =>
          by_cases hu : t.session = u
          · exact .inr ⟨w.sendMsg ⟨res⟩, by simp [reply, setIo, hu]⟩
          · exact .inl (by simp [reply, setIo, hu])
        | addSession | ping | delUser | onClosed => exact .inl rfl
      refine hσ.of_io ?_ hs ?_ (fun u hu => io_eq_of_step hstep ?_) fun u hc => ?_
      · rcases accepted_of_step hstep with hacc | ⟨_, heq, -⟩
        · exact hacc
        · cases heq
      · rcases hio with hio | ⟨buf, hio⟩
        · exact hio ▸ hσ.healthy _ hs
        · exact hio ▸ (hσ.healthy _ hs).write buf
      · simpa [subject, htasks] using Ne.symm hu
      · exact (congrFun hran.closed_eq u).symm.trans hc

/-- **The connections of the server stay healthy** in every run without failures. -/
theorem serving_of_run (h : (machine w).Run (Smooth w) tr σ) : σ.Serving w := by
  refine h.invariant (fun _ σ => σ.Serving w) ?_ fun tr σ e σ' out hrun ih hg hstep => ?_
  · exact ⟨fun s hs => absurd hs (Nat.not_lt_zero s), fun _ => rfl, fun _ _ => rfl⟩
  · exact ih.step (LogicIo.wellFormed_of_run (logic_reach hrun)) hg hstep

end GameServer

/-! ## A user -/

namespace ClientUser

open Session

variable {rt : Protobuf LoginRsp} {reqData : LoginReq → Bytes} {uid : Bytes}
  {tr : List Obs} {σ σ' : ClientUser}

/-- Nothing fails on a user: the connection is made, reads complete with what it accepts,
transmissions succeed, and the replies are those of successful logins. -/
def Smooth (rt : Protobuf LoginRsp) (_ : List Obs) (σ : ClientUser) : Event → Prop
  | .connectDone _ ok => ok = true
  | .readDone result => ∃ f, result = some f ∧
      ∀ op ∈ σ.io.reading.head?, Accepted (hooks rt) (op.handler (.ok f) : Handler UserBuffer _)
  | .writeDone ok => ok = true
  | .task => ∀ rsp ∈ σ.tasks.head?, rsp.result = .kLoginResSuccess
  | .timerDone | .io _ => True

/-- Once the connection is made it is known to the user and healthy. -/
structure Attending (rt : Protobuf LoginRsp) (σ : ClientUser) : Prop where
  healthy : σ.gameclient = true → σ.io.Healthy (hooks rt)
  connected : σ.connecting = false → σ.gameclient = true

/-- A step of the connection. -/
lemma Attending.of_io {io : Session UserBuffer UserBuffer} {client : GameClient}
    {tasks : List LoginRsp} (hσ : σ.Attending rt)
    (hio : σ.io.Healthy (hooks rt) → io.Healthy (hooks rt)) :
    ({ σ with io, client, tasks } : ClientUser).Attending rt :=
  ⟨fun hgame => hio (hσ.healthy hgame), hσ.connected⟩

/-- The reply of a successful login changes nothing. -/
lemma task_of_smooth {out : List Obs} (hsmooth : Smooth rt tr σ .task)
    (h : σ.step rt reqData uid .task = some (σ', out)) : ∃ rsp rest,
    σ.tasks = rsp :: rest ∧ σ' = { σ with tasks := rest } ∧ out = [.handled rsp] := by
  simp only [ClientUser.step] at h
  split at h
  · cases h
  · rename_i rsp rest htasks
    cases h
    have hresult := hsmooth rsp (by simp [htasks])
    exact ⟨rsp, rest, htasks, by rw [gameLoginRspHandle, hresult], rfl⟩

/-- **One step** without failures.

**Proof sketch.** By cases on the event, as on the server (`GameServer.Serving.step`). The
connection that is made starts healthy, the handler of the timer writes a ping at most, and a reply
that is handled is no refusal, so that it does not close the connection. -/
lemma Attending.step {e : Event} {out : List Obs} (hσ : σ.Attending rt)
    (htalks : Talks rt reqData uid tr σ) (hsmooth : Smooth rt tr σ e)
    (h : σ.step rt reqData uid e = some (σ', out)) : σ'.Attending rt := by
  cases e with
  | connectDone now ok =>
    simp only [ClientUser.step] at h
    split at h
    · rename_i hnew
      cases h
      cases (show ok = true from hsmooth)
      obtain ⟨hio, -⟩ := htalks.fresh (htalks.connecting hnew)
      refine ⟨fun _ => ?_, fun _ => rfl⟩
      have hconnected : (σ.connected reqData uid now).io = _ := io_connected hio
      rw [if_pos rfl, hconnected]
      exact ⟨rfl, by simp [Accepted], rfl, rfl⟩
    · cases h
  | readDone result =>
    obtain ⟨io, hio, heq⟩ := Option.map_eq_some_iff.mp h
    cases heq
    obtain ⟨f, rfl, hacc⟩ := hsmooth
    exact hσ.of_io fun hx => hx.completeRead hio hacc
  | writeDone ok =>
    obtain ⟨io, hio, heq⟩ := Option.map_eq_some_iff.mp h
    cases heq
    cases (show ok = true from hsmooth)
    exact hσ.of_io fun hx => hx.completeWrite hio
  | timerDone =>
    obtain ⟨io, hio, heq⟩ := Option.map_eq_some_iff.mp h
    cases heq
    exact hσ.of_io fun hx => hx.expireTimer hio
  | io now =>
    obtain ⟨hd, rest, io, xs, hqueue, hcases, rfl, hafter⟩ := io_cases h
    have hkept : σ.io.Healthy (hooks rt) → io.Healthy (hooks rt) :=
      fun hx => (hx.handle hqueue hcases).1
    rcases hafter with ⟨rfl, -⟩ | ⟨-, -, rfl⟩
    · exact hσ.of_io hkept
    · exact hσ.of_io fun hx => (hkept hx).write _
  | task =>
    obtain ⟨rsp, rest, -, rfl, -⟩ := task_of_smooth hsmooth h
    exact hσ.of_io fun hx => hx

/-- **The connection of a user stays healthy** in every run without failures. -/
theorem attending_of_run (h : (machine rt reqData uid).Run (Smooth rt) tr σ) :
    σ.Attending rt := by
  refine h.invariant (fun _ σ => σ.Attending rt) ?_ fun tr σ e σ' out hrun ih hg hstep => ?_
  · exact ⟨(fun hgame => by cases hgame), (fun hconn => by cases hconn)⟩
  · exact ih.step (talks_of_run hrun) hg hstep

end ClientUser

/-! ## The system -/

/-- What arrives is what the read completes with. -/
lemma Session.eq_of_arrival {β φ : Type} {x : Session β φ} {f g : φ}
    (h : x.arrival (some g) = some f) : f = g := by
  rw [arrival] at h
  split at h
  · exact (Option.some.inj h).symm
  · cases h

/-- `b` starts with the header that `buf` sends. -/
def UserBuffer.HasHeader (b buf : UserBuffer) : Prop :=
  ByteMem.read b.buf 0 b.getHeaderSize = ByteMem.read buf.buf 0 buf.getHeaderSize

namespace System

open GameServer (arrivedOn sentOn dones)
open ClientUser (arrivedOf sentOf handledOf talk frame)

/-- **Nothing fails.** Connections are made and transmissions succeed; a read completes when the
next frame is there, with its header; and `CheckAlive` would find a session alive whenever a handler
of it runs. This is asked not only of the handler of the timer, which is the one that calls it, so
that a session is never heard of five seconds late, not even between two checks. -/
def Reliable (tr : List Obs) (σ : System) : Event → Prop
  | .client _ (.connectDone _ ok) | .client _ (.writeDone ok) | .server (.writeDone _ ok) =>
    ok = true
  | .server (.readDone s result) => ∃ f ∈ result, ∃ c ∈ σ.peers[s]?,
      ∃ buf ∈ (σ.up tr c)[(arrivedOn s (serverOf tr)).length]?, UserBuffer.HasHeader f buf
  | .client c (.readDone result) => ∃ f ∈ result, ∃ s < σ.peers.length, c ∈ σ.peers[s]? ∧
      ∃ buf ∈ (σ.down tr s)[(arrivedOf (clientOf c tr)).length]?, UserBuffer.HasHeader f buf
  | .server (.io s now) => σ.server.notAlive s now = false
  | _ => True

/-- The steps over a network that keeps the order, on which nothing fails. -/
def Works (tr : List Obs) (σ : System) (e : Event) : Prop := Network tr σ e ∧ Reliable tr σ e

/-- A step that the system does not wait for: another user is made, or a timer expires. -/
def Event.spontaneous : Event → Bool
  | .start | .server (.timerDone _) | .client _ .timerDone => true
  | _ => false

variable {rt : Protobuf UserMsg} {rtRsp : Protobuf LoginRsp} {reqData : LoginReq → Bytes}
  {rspData : LoginRsp → Bytes} {uidFrom uidTo : ℤ}
  {tr : List Obs} {σ : System} {c s : ℕ}

/-- The header of the frame of a message is accepted. -/
lemma sizeValid_of_hasHeader {f : UserBuffer} (msg : UserBuffer.Message)
    (hf : f.HasHeader (UserBuffer.ofMsg msg.toProtoMsg)) : f.sizeValid = true := by
  have hle := msg.bodySize_le
  have hsize : f.getBodySize = msg.bodySize := by
    have hbody := UserBuffer.getBodySize_encode (b := .new) msg
    rw [Buffer.getBodySize] at hbody ⊢
    rw [← hbody]
    exact congrArg ByteMem.leNat hf
  have hpos : 1 ≤ msg.bodySize := by
    rw [UserBuffer.Message.bodySize]
    omega
  rw [Buffer.sizeValid_iff, hsize]
  omega

/-- The sessions of the server are those of the users that have been accepted. -/
lemma length_peers {G : List Obs → System → Event → Prop}
    (h : (machine rt rtRsp reqData rspData uidFrom uidTo).Run G tr σ) :
    σ.peers.length = σ.server.logic.accepted := by
  refine h.invariant (fun _ σ => σ.peers.length = σ.server.logic.accepted) rfl ?_
  intro tr σ e σ' out _ ih _ hstep
  cases step_cases hstep with
  | start | client => exact ih
  | accept => exact (List.length_append ..).trans (congrArg (· + 1) ih)
  | server he hserver =>
    rcases GameServer.accepted_of_step hserver with hacc | ⟨now, heq, -⟩
    · exact ih.trans hacc.symm
    · exact absurd heq (he now)

/-- The session of a user has been accepted. -/
lemma lt_accepted {G : List Obs → System → Event → Prop}
    (h : (machine rt rtRsp reqData rspData uidFrom uidTo).Run G tr σ) (hs : σ.peers[s]? = some c) :
    s < σ.server.logic.accepted := by
  rw [← length_peers h]
  exact (List.getElem?_eq_some_iff.mp hs).1

section Works

variable (hfrom : -2 ^ 31 ≤ uidFrom) (hto : uidTo < 2 ^ 31)
  (hrt : Runtimes rt rtRsp reqData rspData)

include hfrom hto hrt

/-- What the server reads in a run without failures, it accepts.

**Proof sketch.** What the user of a session has written is a talk of messages that fit a buffer,
with a short uid. So the header of the next frame has a valid size, and its body decodes to a
message that is dispatched (`Runtimes.message_eq`). -/
lemma smooth_server {e : GameServer.Event UserBuffer}
    (h : (machine rt rtRsp reqData rspData uidFrom uidTo).Run Network tr σ)
    (hworks : Works tr σ (.server e)) :
    GameServer.Smooth (userWire rt rspData) (serverOf tr) σ.server e := by
  have hwired := wired_of_run h
  obtain ⟨hnetwork, hreliable⟩ := hworks
  -- a frame of the user of `s` is that of a message with a short uid
  have hmessage : ∀ (s c k : ℕ) (buf : UserBuffer), c ∈ σ.peers[s]? → buf ∈ (σ.up tr c)[k]? →
      ∃ msg, (∀ req, msg = .loginReq req → req.uid.length ≤ 64) ∧ frame reqData msg = buf := by
    intro s c k buf hc hbuf
    obtain ⟨n, hn⟩ := written_up h c
    have hmem : buf ∈ (talk (uid uidFrom c) n).map (frame reqData) :=
      hn.subset (List.mem_of_getElem? hbuf)
    obtain ⟨msg, hmsg, rfl⟩ := List.mem_map.mp hmem
    refine ⟨msg, fun req hreq => ?_, rfl⟩
    rcases List.mem_cons.mp hmsg with heq | hping
    · obtain rfl := UserMsg.loginReq.inj (hreq.symm.trans heq)
      exact length_uid_le hfrom hto (hwired.bound c (hwired.made c (List.mem_of_getElem? hc)))
    · rw [List.eq_of_mem_replicate hping] at hreq
      cases hreq
  cases e with
  | accept | timerDone | logic => trivial
  | writeDone | io => exact hreliable
  | readDone s result =>
    obtain ⟨f, hf, c, hc, buf, hbuf, hheader⟩ := hreliable
    refine ⟨f, hf, fun op hop => ?_⟩
    cases op with
    | header =>
      obtain ⟨msg, huid, rfl⟩ := hmessage s c _ buf hc hbuf
      refine ⟨f, rfl, ?_⟩
      cases msg with
      | loginReq req =>
        obtain ⟨m, hm⟩ := hrt.fits_request (huid req rfl)
        exact sizeValid_of_hasHeader m (by rw [hm]; exact hheader)
      | ping => exact sizeValid_of_hasHeader GameClient.pingMsg hheader
    | body =>
      have harrival : f ∈ (σ.server.io s).arrival result := by
        rw [Session.arrival, if_pos (Option.mem_def.mp hop)]
        exact hf
      obtain ⟨c', hc', buf', hbuf', hreceives⟩ := hnetwork f harrival
      obtain ⟨msg, huid, rfl⟩ := hmessage s c' _ buf' hc' hbuf'
      have hmessage := hrt.message_eq huid hreceives
      exact ⟨f, rfl, by simp [Wire.hooks, hmessage]⟩

/-- What a user reads in a run without failures, it accepts, and it is no refusal.

**Proof sketch.** What the server has written to a session are answers, which fit a buffer. So the
header of the next frame has a valid size, and its body decodes to a reply that is dispatched
(`Runtimes.rsp_eq`). It is no refusal, as the only reply that a user ever gets is a success
(`replies_of_run`). -/
lemma smooth_client {e : ClientUser.Event}
    (h : (machine rt rtRsp reqData rspData uidFrom uidTo).Run Network tr σ)
    (hworks : Works tr σ (.client c e)) :
    ClientUser.Smooth rtRsp (clientOf c tr) (σ.clients c) e := by
  obtain ⟨hnetwork, hreliable⟩ := hworks
  have hreply : ∀ (s k : ℕ) (buf : UserBuffer), buf ∈ (σ.down tr s)[k]? →
      ∃ rsp, (userWire rt rspData).sendMsg rsp = buf := by
    intro s k buf hbuf
    have hmem := (written_down h s).subset (List.mem_of_getElem? hbuf)
    obtain ⟨a, -, ha⟩ := List.mem_map.mp hmem
    exact ⟨_, ha⟩
  cases e with
  | timerDone | io => trivial
  | connectDone | writeDone => exact hreliable
  | task =>
    intro rsp hrsp
    have hmem : rsp ∈ (arrivedOf (clientOf c tr)).filterMap (ClientUser.message rtRsp) := by
      rw [← (talks_of_run h c).replies, List.mem_append, List.mem_append]
      exact .inl (.inr (List.mem_of_mem_head? hrsp))
    have hsuccess := (replies_of_run hfrom hto hrt h c).subset hmem
    rw [List.mem_singleton.mp hsuccess]
  | readDone result =>
    obtain ⟨f, hf, s, -, hs, buf, hbuf, hheader⟩ := hreliable
    refine ⟨f, hf, fun op hop => ?_⟩
    cases op with
    | header =>
      obtain ⟨rsp, rfl⟩ := hreply s _ buf hbuf
      obtain ⟨m, hm⟩ := hrt.fits_reply rsp
      exact ⟨f, rfl, sizeValid_of_hasHeader m (by rw [hm]; exact hheader)⟩
    | body =>
      have harrival : f ∈ (σ.clients c).io.arrival result := by
        rw [Session.arrival, if_pos (Option.mem_def.mp hop)]
        exact hf
      obtain ⟨s', -, hs', buf', hbuf', hreceives⟩ := hnetwork f harrival
      obtain ⟨rsp, rfl⟩ := hreply s' _ buf' hbuf'
      have hmessage := hrt.rsp_eq hreceives
      refine ⟨f, rfl, ?_⟩
      -- a reply that is read has been dispatched
      obtain ⟨r, hr, hsnd⟩ := Option.bind_eq_some_iff.mp hmessage
      obtain ⟨args, hargs, rfl⟩ := Option.map_eq_some_iff.mp hr
      have hok : (clientUserProcessor.dispatch rtRsp args).1 = .kOK := by
        rw [UserProcessor.dispatch_eq_kOK_iff, hsnd]
        rfl
      simp [ClientUser.hooks, hr, hok]

/-- Both sides of every connection stay healthy. -/
lemma healthy_of_run
    (h : (machine rt rtRsp reqData rspData uidFrom uidTo).Run Works tr σ) :
    σ.server.Serving (userWire rt rspData) ∧ ∀ c, (σ.clients c).Attending rtRsp :=
  ⟨GameServer.serving_of_run (server_of_run (fun _ _ _ => trivial) (fun _ _ _ hrun hg _ =>
      smooth_server hfrom hto hrt (hrun.mono fun _ _ _ hw => hw.1) hg) h),
    fun _ => ClientUser.attending_of_run (client_of_run (fun _ _ _ hrun hg =>
      smooth_client hfrom hto hrt (hrun.mono fun _ _ _ hw => hw.1) hg) h)⟩

end Works

/-! ## At rest -/

/-- Nothing is possible any more but what the system does not wait for. -/
def Stuck (rt : Protobuf UserMsg) (rtRsp : Protobuf LoginRsp) (reqData : LoginReq → Bytes)
    (rspData : LoginRsp → Bytes) (uidFrom uidTo : ℤ) (tr : List Obs) (σ : System) : Prop :=
  ∀ e : Event, e.spontaneous = false → Works tr σ e →
    σ.step rt rtRsp reqData rspData uidFrom uidTo e = none

/-- Every user has been accepted, since the server goes on accepting. -/
lemma Stuck.accepted (hstuck : Stuck rt rtRsp reqData rspData uidFrom uidTo tr σ)
    (hc : c < σ.started) : c ∈ σ.peers := by
  by_contra hnew
  have hnone := hstuck (.accept c 0) rfl ⟨trivial, trivial⟩
  simp only [step, if_pos (And.intro hc hnew)] at hnone
  cases hnone

/-- A session with nothing left to do. -/
lemma Stuck.session (hstuck : Stuck rt rtRsp reqData rspData uidFrom uidTo tr σ)
    (hs : s < σ.server.logic.accepted) :
    (σ.server.io s).queue = [] ∧ (σ.server.io s).writing = [] := by
  constructor
  · have halive : σ.server.notAlive s (σ.server.lastAliveTime s) = false := by
      simp [GameServer.notAlive]
    have hnone := hstuck (.server (.io s (σ.server.lastAliveTime s))) rfl ⟨trivial, halive⟩
    cases hqueue : (σ.server.io s).queue with
    | nil => rfl
    | cons h rest => simp [step, GameServer.step, hs, Session.runHandler, hqueue] at hnone
  · have hnone := hstuck (.server (.writeDone s true)) rfl ⟨trivial, rfl⟩
    cases hwriting : (σ.server.io s).writing with
    | nil => rfl
    | cons buf bufs => simp [step, GameServer.step, hs, Session.completeWrite, hwriting] at hnone

/-- A logic thread with nothing left to do. -/
lemma Stuck.logic (hstuck : Stuck rt rtRsp reqData rspData uidFrom uidTo tr σ) :
    σ.server.logic.tasks = [] := by
  have hnone := hstuck (.server .logic) rfl ⟨trivial, trivial⟩
  cases htasks : σ.server.logic.tasks with
  | nil => rfl
  | cons t ts => simp [step, GameServer.step, htasks] at hnone

/-- A user with nothing left to do. -/
lemma Stuck.client (hstuck : Stuck rt rtRsp reqData rspData uidFrom uidTo tr σ)
    (hc : c < σ.started) : (σ.clients c).connecting = false ∧ (σ.clients c).io.queue = [] ∧
      (σ.clients c).io.writing = [] ∧ (σ.clients c).tasks = [] := by
  refine ⟨?_, ?_, ?_, ?_⟩
  · have hnone := hstuck (.client c (.connectDone 0 true)) rfl ⟨trivial, rfl⟩
    cases hconnecting : (σ.clients c).connecting with
    | false => rfl
    | true => simp [step, hc, ClientUser.step, hconnecting] at hnone
  · have hnone := hstuck (.client c (.io 0)) rfl ⟨trivial, trivial⟩
    cases hqueue : (σ.clients c).io.queue with
    | nil => rfl
    | cons h rest => simp [step, hc, ClientUser.step, hqueue] at hnone
  · have hnone := hstuck (.client c (.writeDone true)) rfl ⟨trivial, rfl⟩
    cases hwriting : (σ.clients c).io.writing with
    | nil => rfl
    | cons buf bufs => simp [step, hc, ClientUser.step, Session.completeWrite, hwriting] at hnone
  · have hnone := hstuck (.client c .task) rfl ⟨trivial, trivial⟩
    cases htasks : (σ.clients c).tasks with
    | nil => rfl
    | cons rsp rest => simp [step, hc, ClientUser.step, htasks] at hnone

/-- A session that waits for a frame has received all of them. -/
lemma Stuck.up_eq_none {op : ReadOp} (hstuck : Stuck rt rtRsp reqData rspData uidFrom uidTo tr σ)
    (hs : s < σ.server.logic.accepted) (hc : σ.peers[s]? = some c)
    (hreading : (σ.server.io s).reading = [op]) :
    (σ.up tr c)[(arrivedOn s (serverOf tr)).length]? = none := by
  by_contra hsome
  obtain ⟨buf, hbuf⟩ := Option.ne_none_iff_exists'.mp hsome
  have hnone := hstuck (.server (.readDone s (some buf))) rfl
    ⟨fun f hf => ⟨c, hc, buf, hbuf, ?_⟩, buf, rfl, c, hc, buf, hbuf, rfl⟩
  · simp [step, GameServer.step, hs, Session.completeRead, hreading] at hnone
  · rw [Session.eq_of_arrival hf]
    rfl

/-- A user that waits for a frame has received all of them. -/
lemma Stuck.down_eq_none {op : ReadOp}
    (hstuck : Stuck rt rtRsp reqData rspData uidFrom uidTo tr σ) (hc : c < σ.started)
    (hs : σ.peers[s]? = some c) (hreading : (σ.clients c).io.reading = [op]) :
    (σ.down tr s)[(arrivedOf (clientOf c tr)).length]? = none := by
  have hlt : s < σ.peers.length := (List.getElem?_eq_some_iff.mp hs).1
  by_contra hsome
  obtain ⟨buf, hbuf⟩ := Option.ne_none_iff_exists'.mp hsome
  have hnone := hstuck (.client c (.readDone (some buf))) rfl
    ⟨fun f hf => ⟨s, hlt, hs, buf, hbuf, ?_⟩, buf, rfl, s, hlt, hs, buf, hbuf, rfl⟩
  · simp [step, hc, ClientUser.step, Session.completeRead, hreading] at hnone
  · rw [Session.eq_of_arrival hf]
    rfl

section AtRest

variable (hfrom : -2 ^ 31 ≤ uidFrom) (hto : uidTo < 2 ^ 31)
  (hrt : Runtimes rt rtRsp reqData rspData)

include hfrom hto hrt

/-- The first body that has arrived on a session is the login request of its user.

**Proof sketch.** The user has nothing queued and no write is running, so that its request, the
first of its frames, has been written. The session waits for a read, and it would get this frame if
nothing had arrived yet. What has arrived is in the order of the talk, which the request begins. -/
lemma arrived_of_stuck
    (h : (machine rt rtRsp reqData rspData uidFrom uidTo).Run Works tr σ)
    (hstuck : Stuck rt rtRsp reqData rspData uidFrom uidTo tr σ) (hs : σ.peers[s]? = some c) :
    ⟨.kLoginTypeNormal, uid uidFrom c⟩ ∈
      (arrivedOn s (serverOf tr)).filterMap (userWire rt rspData).loginReq := by
  have hwired := wired_of_run (h.mono fun _ _ _ hw => hw.1)
  have hmade : c < σ.started := hwired.made c (List.mem_of_getElem? hs)
  have hacc := lt_accepted h hs
  obtain ⟨hserving, hattending⟩ := healthy_of_run hfrom hto hrt h
  -- the user has sent its request
  obtain ⟨hconnecting, hqueue, hwriting, -⟩ := hstuck.client hmade
  have hgame := (hattending c).connected hconnecting
  obtain ⟨hbufs, -⟩ := ((hattending c).healthy hgame).at_rest hqueue hwriting
  obtain ⟨n, hframes⟩ := (talks_of_run h c).frames hgame
  rw [hqueue, hbufs] at hframes
  -- the session does not wait for it any more
  obtain ⟨hqueue', hwriting'⟩ := hstuck.session hacc
  obtain ⟨-, op, hreading⟩ := (hserving.healthy s hacc).at_rest hqueue' hwriting'
  have hup := hstuck.up_eq_none hacc hs hreading
  have hwritten : σ.up tr c =
      ClientUser.loginFrame reqData (uid uidFrom c) :: List.replicate n ClientUser.pingFrame := by
    rw [up, hbufs]
    simpa [Session.posted] using hframes
  cases harrived : arrivedOn s (serverOf tr) with
  | nil =>
    rw [harrived, hwritten] at hup
    cases hup
  | cons f fs =>
    rcases hwired.requests s with hnil | ⟨c', m, hc', hin⟩
    · rw [hnil] at harrived
      cases harrived
    · obtain rfl := Option.some.inj (hs.symm.trans hc')
      obtain ⟨msg, hmsg, hf⟩ := hin.head (a := f) (by rw [harrived]; rfl)
      cases hmsg
      have hshort : (uid uidFrom c).length ≤ 64 :=
        length_uid_le hfrom hto (hwired.bound c hmade)
      have hmessage := hrt.message_eq (fun req hreq => by cases hreq; exact hshort) hf
      have hlogin : (userWire rt rspData).loginReq f =
          some ⟨.kLoginTypeNormal, uid uidFrom c⟩ := by
        rw [Wire.loginReq, hmessage]
        rfl
      exact List.mem_filterMap.mpr ⟨f, List.mem_cons_self, hlogin⟩

/-- The request of every session has been answered. -/
lemma answered_of_stuck
    (h : (machine rt rtRsp reqData rspData uidFrom uidTo).Run Works tr σ)
    (hstuck : Stuck rt rtRsp reqData rspData uidFrom uidTo tr σ) (hs : σ.peers[s]? = some c) :
    answered s (dones (serverOf tr)) =
      [(⟨.kLoginTypeNormal, uid uidFrom c⟩, .kLoginResSuccess)] := by
  have hprefix := answered_of_run hfrom hto hrt (h.mono fun _ _ _ hw => hw.1) hs
  have harrived := arrived_of_stuck hfrom hto hrt h hstuck hs
  have hacc := lt_accepted h hs
  -- the request is neither in a queue nor in a task
  have hrequests := (conserves_of_run h s).requests
  rw [(hstuck.session hacc).1, hstuck.logic] at hrequests
  rw [← hrequests] at harrived
  rcases List.prefix_cons_iff.mp hprefix with hnil | ⟨rest, hcons, hrest⟩
  · rw [hnil] at harrived
    cases harrived
  · rw [hcons, List.prefix_nil.mp hrest]

/-- The answer has arrived at the user.

**Proof sketch.** The session has written its only answer. The user waits for a read, and it would
get this answer if nothing had arrived yet. What has arrived is an answer, and with no tasks left it
has been handled; there is no second one (`replies_of_run`). -/
lemma handled_of_stuck
    (h : (machine rt rtRsp reqData rspData uidFrom uidTo).Run Works tr σ)
    (hstuck : Stuck rt rtRsp reqData rspData uidFrom uidTo tr σ) (hs : σ.peers[s]? = some c) :
    handledOf (clientOf c tr) = [⟨.kLoginResSuccess⟩] := by
  have hnetwork : (machine rt rtRsp reqData rspData uidFrom uidTo).Run Network tr σ :=
    h.mono fun _ _ _ hw => hw.1
  have hwired := wired_of_run hnetwork
  have hmade : c < σ.started := hwired.made c (List.mem_of_getElem? hs)
  have hacc := lt_accepted h hs
  have hanswered := answered_of_stuck hfrom hto hrt h hstuck hs
  obtain ⟨-, hattending⟩ := healthy_of_run hfrom hto hrt h
  -- the server has written its answer
  have hreplies := (conserves_of_run h s).replies
  have hwritten : σ.down tr s =
      [(userWire rt rspData).sendMsg (⟨.kLoginResSuccess⟩ : LoginRsp)] := by
    rw [(hstuck.session hacc).1, hanswered] at hreplies
    simpa [down, Session.posted] using hreplies
  -- the user does not wait for it any more
  obtain ⟨hconnecting, hqueue, hwriting, htasks⟩ := hstuck.client hmade
  have hgame := (hattending c).connected hconnecting
  obtain ⟨-, op, hreading⟩ := ((hattending c).healthy hgame).at_rest hqueue hwriting
  have hdown := hstuck.down_eq_none hmade hs hreading
  have hhandled := (talks_of_run h c).replies
  rw [hqueue, htasks] at hhandled
  have hall : handledOf (clientOf c tr) =
      (arrivedOf (clientOf c tr)).filterMap (ClientUser.message rtRsp) := by
    simpa [Session.bodies] using hhandled
  have hprefix := replies_of_run hfrom hto hrt hnetwork c
  rw [← hall] at hprefix
  rcases List.prefix_cons_iff.mp hprefix with hnil | ⟨rest, hcons, hrest⟩
  · cases harrived : arrivedOf (clientOf c tr) with
    | nil =>
      rw [harrived, hwritten] at hdown
      cases hdown
    | cons f fs =>
      rcases hwired.replies c with hnone | ⟨s', hs', hin⟩
      · rw [hnone] at harrived
        cases harrived
      · obtain ⟨a, -, hf⟩ := hin.head (a := f) (by rw [harrived]; rfl)
        have hmem : (⟨a.2⟩ : LoginRsp) ∈ handledOf (clientOf c tr) := by
          rw [hall, harrived]
          exact List.mem_filterMap.mpr ⟨f, List.mem_cons_self, hrt.rsp_eq hf⟩
        rw [hnil] at hmem
        cases hmem
  · rw [hcons, List.prefix_nil.mp hrest]

end AtRest

/-- **No login gets stuck.** In every run over a network that keeps the order and on which nothing
fails, however the threads take turns: where no step is left but that another user is made or that
a timer expires, every user that was made has handled one reply, which is success, and has one
session, which is online with the uid of the user.

**Proof sketch.** A connection without failures that has nothing to do has sent all its frames and
waits for the next one (`Session.Healthy.at_rest`). So the request of the user has arrived, the
conservation laws leave no place for it but among the answers, and the answer has arrived
likewise. -/
theorem logged_in_of_stuck (hfrom : -2 ^ 31 ≤ uidFrom) (hto : uidTo < 2 ^ 31)
    (hrt : Runtimes rt rtRsp reqData rspData)
    (h : (machine rt rtRsp reqData rspData uidFrom uidTo).Run Works tr σ)
    (hstuck : Stuck rt rtRsp reqData rspData uidFrom uidTo tr σ) (hc : c < σ.started) :
    handledOf (clientOf c tr) = [⟨.kLoginResSuccess⟩] ∧
      ∃ s, σ.peers[s]? = some c ∧ σ.server.logic.Online s ∧
        (σ.server.logic.sessions s).userId = uid uidFrom c := by
  obtain ⟨s, hs⟩ := List.mem_iff_getElem?.mp (hstuck.accepted hc)
  have hacc := lt_accepted h hs
  have hanswered := answered_of_stuck hfrom hto hrt h hstuck hs
  have hlogin : Done.login s ⟨.kLoginTypeNormal, uid uidFrom c⟩ .kLoginResSuccess ∈
      dones (serverOf tr) := by
    rw [← mem_answered_iff, hanswered]
    exact List.mem_singleton_self _
  -- what the logic thread has done
  have hfresh := fresh_of_run hfrom hto hrt (h.mono fun _ _ _ hw => hw.1)
  have hauthed := LogicIo.authed_of_run hfresh.reach hlogin
  obtain ⟨hserving, -⟩ := healthy_of_run hfrom hto hrt h
  refine ⟨handled_of_stuck hfrom hto hrt h hstuck hs, s, hs,
    ⟨hacc, hauthed, hserving.opened s⟩, ?_⟩
  obtain ⟨req, res, hlogin', huid⟩ := (LogicIo.apart_of_run hfresh).authed s hauthed
  rw [← mem_answered_iff, hanswered, List.mem_singleton] at hlogin'
  obtain ⟨rfl, -⟩ := Prod.mk.inj hlogin'
  exact huid.symm

instance {b buf : UserBuffer} : Decidable (b.HasHeader buf) := inferInstanceAs (Decidable (_ = _))

instance {tr : List Obs} {σ : System} : (e : Event) → Decidable (Reliable tr σ e)
  | .client _ (.connectDone ..) | .client _ (.writeDone _) | .server (.writeDone ..) =>
    inferInstanceAs (Decidable (_ = true))
  | .server (.readDone s result) => inferInstanceAs (Decidable (∃ f ∈ result, ∃ c ∈ σ.peers[s]?,
      ∃ buf ∈ (σ.up tr c)[(arrivedOn s (serverOf tr)).length]?, UserBuffer.HasHeader f buf))
  | .client c (.readDone result) => inferInstanceAs (Decidable (∃ f ∈ result,
      ∃ s < σ.peers.length, c ∈ σ.peers[s]? ∧
        ∃ buf ∈ (σ.down tr s)[(arrivedOf (clientOf c tr)).length]?, UserBuffer.HasHeader f buf))
  | .server (.io s now) => inferInstanceAs (Decidable (σ.server.notAlive s now = false))
  | .server (.accept _) | .server (.timerDone _) | .server .logic | .client _ .timerDone
  | .client _ (.io _) | .client _ .task | .start | .accept .. => inferInstanceAs (Decidable True)

instance {tr : List Obs} {σ : System} {e : Event} : Decidable (Works tr σ e) :=
  inferInstanceAs (Decidable (_ ∧ _))

/-- All queues are empty, every user has a session, and everything that was written has arrived. -/
def Quiet (tr : List Obs) (σ : System) : Prop :=
  σ.server.logic.tasks = [] ∧
    (∀ s < σ.server.logic.accepted, (σ.server.io s).queue = [] ∧ (σ.server.io s).writing = [] ∧
      ∀ c ∈ σ.peers[s]?, (σ.up tr c).length ≤ (arrivedOn s (serverOf tr)).length) ∧
    ∀ c < σ.started, c ∈ σ.peers ∧ (σ.clients c).connecting = false ∧
      (σ.clients c).io.queue = [] ∧ (σ.clients c).io.writing = [] ∧ (σ.clients c).tasks = [] ∧
      ∀ s < σ.peers.length, c ∈ σ.peers[s]? →
        (σ.down tr s).length ≤ (arrivedOf (clientOf c tr)).length

instance {tr : List Obs} {σ : System} : Decidable (Quiet tr σ) :=
  inferInstanceAs (Decidable (_ ∧ _ ∧ _))

/-- Where all is quiet, nothing is left to wait for.

**Proof sketch.** By cases on the event. With empty queues there are no handlers and no tasks to run
and no writes to complete, and a read would need a frame that has been written and has not arrived.
-/
lemma stuck_of_quiet (h : Quiet tr σ) : Stuck rt rtRsp reqData rspData uidFrom uidTo tr σ := by
  obtain ⟨htasks, hsessions, hclients⟩ := h
  intro e he hworks
  cases e with
  | start => cases he
  | accept c now =>
    refine if_neg ?_
    rintro ⟨hc, hnew⟩
    exact hnew (hclients c hc).1
  | server e =>
    cases e with
    | accept => rfl
    | timerDone => cases he
    | logic => simp [step, GameServer.step, htasks]
    | readDone s result =>
      by_cases hs : s < σ.server.logic.accepted
      · obtain ⟨-, f, -, c, hc, buf, hbuf, -⟩ := hworks
        have hlt := (List.getElem?_eq_some_iff.mp hbuf).1
        exact absurd ((hsessions s hs).2.2 c hc) (by omega)
      · simp [step, GameServer.step, hs]
    | writeDone s ok =>
      by_cases hs : s < σ.server.logic.accepted
      · simp [step, GameServer.step, Session.completeWrite, (hsessions s hs).2.1]
      · simp [step, GameServer.step, hs]
    | io s now =>
      by_cases hs : s < σ.server.logic.accepted
      · simp [step, GameServer.step, Session.runHandler, (hsessions s hs).1]
      · simp [step, GameServer.step, hs]
  | client c e =>
    by_cases hc : c < σ.started
    · obtain ⟨-, hconnecting, hqueue, hwriting, htasks', hdown⟩ := hclients c hc
      cases e with
      | timerDone => cases he
      | connectDone => simp [step, ClientUser.step, hconnecting]
      | readDone result =>
        obtain ⟨-, f, -, s, hs, hpeer, buf, hbuf, -⟩ := hworks
        have hlt := (List.getElem?_eq_some_iff.mp hbuf).1
        exact absurd (hdown s hs hpeer) (by omega)
      | writeDone => simp [step, ClientUser.step, Session.completeWrite, hwriting]
      | io => simp [step, ClientUser.step, hqueue]
      | task => simp [step, ClientUser.step, htasks']
    · exact if_neg hc

/-- The only user logs in. -/
theorem logged_in_of_stuck_one : ∃ (tr : List Obs) (σ : System), σ.started = 1 ∧
    handledOf (clientOf 0 tr) = [⟨.kLoginResSuccess⟩] ∧
      ∃ s, σ.peers[s]? = some 0 ∧ σ.server.logic.Online s ∧
        (σ.server.logic.sessions s).userId = [49, 48] := by
  obtain ⟨r, hexec, hquiet, hstarted⟩ : ∃ r ∈ (machine sampleReqProtobuf
      ClientUser.sampleRspProtobuf sampleTypedReqData sampleRspData 10 10).exec
      (fun tr σ e => decide (Works tr σ e)) [] {}
      ([.start, .client 0 (.connectDone 0 true), .accept 0 0, .client 0 (.io 0),
        .client 0 (.writeDone true), .client 0 (.io 0), .server .logic] ++
        sampleDelivery (frame sampleTypedReqData (.loginReq ⟨.kLoginTypeNormal, [49, 48]⟩))
          (fun r => .server (.readDone 0 r)) (.server (.io 0 1)) ++
        [.server .logic, .server (.io 0 1), .server (.writeDone 0 true), .server (.io 0 1)] ++
        sampleDelivery ((userWire sampleReqProtobuf sampleRspData).sendMsg ⟨.kLoginResSuccess⟩)
          (fun r => .client 0 (.readDone r)) (.client 0 (.io 1)) ++
        [.client 0 .task]), Quiet r.1 r.2 ∧ r.2.started = 1 := by
    decide +kernel
  have hrun := Machine.run_of_exec (G := Works) (fun tr σ e h => of_decide_eq_true h) hexec
  exact ⟨r.1, r.2, hstarted, logged_in_of_stuck (by decide) (by decide) sampleRuntimes hrun
    (stuck_of_quiet hquiet) (c := 0) (by rw [hstarted]; decide)⟩

end System

end FightingCard
