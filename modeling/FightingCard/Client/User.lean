import FightingCard.Client.KeepAlive

set_option relaxedAutoImplicit false
set_option autoImplicit false

/-!
# A user of the client

One user of the client process with its connection to the game server (`client/user.cpp`,
`client/gameclient.cpp`, `client/user_processor.cpp`, `Connect` in `common/pipe.h`). The connection
is the code of `FightingCard.Session` with another owner. The completion of `async_connect` starts
the timer, makes the connection known to the user, sends the login request and starts to read; a
reply is handled in a task of the `io_service` of the user, which closes the connection unless
the login has succeeded.

`CloseGameClient` notes that there is no connection and then uses it all the same. A run records
whether that has happened.

## Main definitions

* `FightingCard.ClientUser` — the user and its connection.
* `FightingCard.ClientUser.machine` — its steps, in any environment.

## Main results

* `FightingCard.ClientUser.talks_of_run` — what the user sends and what it handles.
* `FightingCard.ClientUser.user_of_run` — one login request and then only pings; no use of a
  connection that there is not; a refused user ends its connection.
-/

namespace FightingCard

/-! ## Messages of the client -/

/-- `UserProcessor::Init` of the client. -/
def clientUserProcessor : UserProcessor LoginRsp LoginRsp :=
  UserProcessor.addHandler {} ⟨loginRspName, some⟩

/-- A user of the client: whether `async_connect` is outstanding, the connection, its
`last_write_time_`, whether `gameclient_` is set, the replies whose handling has been posted to
the `io_service` of the user, and whether `CloseGameClient` has used a connection that is not
there. -/
structure ClientUser where
  connecting : Bool := true
  io : Session UserBuffer UserBuffer := { isOpen := false }
  client : GameClient := {}
  gameclient : Bool := false
  tasks : List LoginRsp := []
  crashed : Bool := false

namespace ClientUser

open Session (Hooks Signal posted bodies)

/-- What a run records: a body arrived, a frame was sent, a reply was handled. -/
inductive Obs where
  | arrived (f : UserBuffer)
  | sent (buf : UserBuffer)
  | handled (rsp : LoginRsp)

/-- What can happen next: `async_connect` completes and its handler runs, an outstanding operation
of the connection completes, the io thread runs the next handler, or the thread of the user runs
the next task. Times are in milliseconds. -/
inductive Event where
  | connectDone (now : ℕ) (ok : Bool)
  | readDone (result : Option UserBuffer)
  | writeDone (ok : Bool)
  | timerDone
  | io (now : ℕ)
  | task

section Step

variable (rt : Protobuf LoginRsp) (reqData : LoginReq → Bytes) (uid : Bytes) (now : ℕ)
variable (σ : ClientUser)

/-- The result of `Dispatch` for a body that `Decode` accepts, with the reply whose handling is
posted. -/
def dispatch (f : UserBuffer) : Option (UserProcessor.ErrorCode × Option LoginRsp) :=
  f.outcome.map (clientUserProcessor.dispatch rt)

/-- The reply whose handling a body leads to. -/
def message (f : UserBuffer) : Option LoginRsp := (dispatch rt f).bind Prod.snd

/-- `OnReadHeader` and `GameClient::OnReadBody`, which puts up with a message that is not
registered. -/
def hooks : Hooks UserBuffer where
  onReadHeader f := f.sizeValid
  onReadBody f := (dispatch rt f).any fun r => r.1 = .kOK ∨ r.1 = .kErrorMsgNotRegister

/-- The frames that `Write` has been called with are posted. -/
def written (r : GameClient × List UserBuffer) : ClientUser :=
  { σ with client := r.1, io := r.2.foldl Session.write σ.io }

/-- `SendGameMsg(proto_msg)`. -/
def sendGameMsg (protoMsg : ProtoMsg) : ClientUser :=
  if σ.gameclient then σ.written (σ.client.sendMsg now protoMsg) else σ

/-- The `game::LoginReq` that `User::Init` sends. -/
def loginMsg : ProtoMsg := ⟨loginReqName, reqData { type := .kLoginTypeNormal, uid }⟩

/-- The handler of a successful `async_connect`: the timer is started, `gameclient_` is set, the
request is sent, and the first header is read. -/
def connected : ClientUser :=
  let σ := { σ with
    connecting := false
    io := ({ σ.io with isOpen := true } : Session _ _).armTimer
    gameclient := true }
  let σ := σ.sendGameMsg now (loginMsg reqData uid)
  { σ with io := σ.io.asyncRead .header }

/-- `CloseGameClient()`. -/
def closeGameClient : ClientUser :=
  if σ.gameclient then { σ with io := σ.io.close.1 } else { σ with crashed := true }

/-- `GameLoginRspHandle`. -/
def gameLoginRspHandle (rsp : LoginRsp) : ClientUser :=
  match rsp.result with
  | .kLoginResSuccess => σ
  | .kLoginResError | .kLoginResQueue | .kLoginResLogined => σ.closeGameClient

/-- What a handler of the connection does outside of it. -/
def signal : Signal UserBuffer UserBuffer → ClientUser × List Obs
  | .onReadBody f => ({ σ with tasks := σ.tasks ++ (message rt f).toList }, [])
  | .sent buf => (σ, [.sent buf])
  | .asyncWrite _ | .onClose | .onClosed => (σ, [])

/-- The effects of a list of signals, one after the other. -/
def signals (σ : ClientUser) : List (Signal UserBuffer UserBuffer) → ClientUser × List Obs
  | [] => (σ, [])
  | x :: xs =>
    let (σ', out) := signal rt σ x
    let (σ'', outs) := signals σ' xs
    (σ'', out ++ outs)

/-- The handler is that of a timer that has expired: `SendPingMsg` is called after
`TimerLoop`. -/
def pings : Handler UserBuffer UserBuffer → Bool
  | .timer (.ok _) | .timer .error => true
  | _ => false

/-- One step of the user. -/
def step (σ : ClientUser) : Event → Option (ClientUser × List Obs)
  | .connectDone now ok =>
    if σ.connecting then
      some (if ok then σ.connected reqData uid now else { σ with connecting := false }, [])
    else none
  | .readDone result =>
    (σ.io.completeRead result).map fun io =>
      ({ σ with io }, (σ.io.arrival result).toList.map .arrived)
  | .writeDone ok => (σ.io.completeWrite ok).map fun io => ({ σ with io }, [])
  | .timerDone => σ.io.expireTimer.map fun io => ({ σ with io }, [])
  | .io now =>
    match σ.io.queue with
    | [] => none
    | h :: rest =>
      let (io, xs) := ({ σ.io with queue := rest } : Session _ _).handle (hooks rt) false h
      let (σ', out) := signals rt { σ with io } xs
      some (if pings h then σ'.written (σ'.client.sendPingMsg now) else σ', out)
  | .task =>
    match σ.tasks with
    | [] => none
    | rsp :: rest => some ({ σ with tasks := rest }.gameLoginRspHandle rsp, [.handled rsp])

/-- The user as a machine. -/
def machine : Machine ClientUser Event Obs := ⟨{}, step rt reqData uid⟩

end Step

/-! ## What a run records -/

/-- The bodies that arrived. -/
def arrivedOf : List Obs → List UserBuffer := List.filterMap fun
  | .arrived f => some f
  | _ => none

/-- The frames that were sent. -/
def sentOf : List Obs → List UserBuffer := List.filterMap fun
  | .sent buf => some buf
  | _ => none

/-- The replies that were handled. -/
def handledOf : List Obs → List LoginRsp := List.filterMap fun
  | .handled rsp => some rsp
  | _ => none

variable {rt : Protobuf LoginRsp} {reqData : LoginReq → Bytes} {uid : Bytes}
variable {σ σ' : ClientUser} {tr tr' out : List Obs}

/-- The frames that have arrived in a longer trace. -/
@[simp] lemma arrivedOf_append : arrivedOf (tr ++ tr') = arrivedOf tr ++ arrivedOf tr' :=
  List.filterMap_append

/-- The frames that were sent in a longer trace. -/
@[simp] lemma sentOf_append : sentOf (tr ++ tr') = sentOf tr ++ sentOf tr' :=
  List.filterMap_append

/-- The replies that were handled in a longer trace. -/
@[simp] lemma handledOf_append : handledOf (tr ++ tr') = handledOf tr ++ handledOf tr' :=
  List.filterMap_append

/-- The records of frames that arrive. -/
@[simp] lemma arrivedOf_map (fs : List UserBuffer) : arrivedOf (fs.map .arrived) = fs := by
  induction fs with
  | nil => rfl
  | cons f fs ih => exact congrArg (f :: ·) ih

/-- The records of frames that are sent. -/
@[simp] lemma sentOf_map (bufs : List UserBuffer) : sentOf (bufs.map .sent) = bufs := by
  induction bufs with
  | nil => rfl
  | cons buf bufs ih => exact congrArg (buf :: ·) ih

/-- What is sent has not arrived. -/
@[simp] lemma arrivedOf_sent (bufs : List UserBuffer) : arrivedOf (bufs.map .sent) = [] := by
  induction bufs with
  | nil => rfl
  | cons buf bufs ih => exact ih

/-- What is sent is not handled. -/
@[simp] lemma handledOf_sent (bufs : List UserBuffer) : handledOf (bufs.map .sent) = [] := by
  induction bufs with
  | nil => rfl
  | cons buf bufs ih => exact ih

/-! ## What a step does -/

/-- The signals of a handler: the replies among the bodies become tasks, and what was sent is
recorded. -/
lemma signals_eq {xs : List (Signal UserBuffer UserBuffer)} : signals rt σ xs =
    ({ σ with tasks := σ.tasks ++ (Session.readOf xs).filterMap (message rt) },
      (Session.sentOf xs).map .sent) := by
  induction xs generalizing σ with
  | nil => simp [signals, Session.readOf, Session.sentOf]
  | cons x xs ih =>
    simp only [signals, ih]
    cases x with
    | onReadBody f =>
      cases h : message rt f <;> simp [signal, h, Session.readOf, Session.sentOf]
    | sent buf => simp [signal, Session.readOf, Session.sentOf]
    | asyncWrite | onClose | onClosed => simp [signal, Session.readOf, Session.sentOf]

/-- The frame of the login request. -/
def loginFrame (reqData : LoginReq → Bytes) (uid : Bytes) : UserBuffer :=
  .ofMsg (loginMsg reqData uid)

/-- The frame of a ping. -/
def pingFrame : UserBuffer := .ofMsg GameClient.pingMsg.toProtoMsg

/-- **What the io thread does.** A handler runs; if it is that of the timer, `SendPingMsg` hands a
ping over, or the last frame was handed over not long ago.

**Proof sketch.** The handler is one of `Session.handle_cases`. If it is that of the timer,
`SendPingMsg` writes or it does not, because of the time of the last write (`sendPingMsg_cases`). -/
lemma io_cases {now : ℕ} (h : σ.step rt reqData uid (.io now) = some (σ', out)) :
    ∃ hd rest io xs, σ.io.queue = hd :: rest ∧
      Session.Handled (hooks rt) false { σ.io with queue := rest } hd io xs ∧
      out = (Session.sentOf xs).map .sent ∧
      (σ' = { σ with
          io := io
          tasks := σ.tasks ++ (Session.readOf xs).filterMap (message rt) } ∧
        (pings hd = true →
          (σ.client.sendPingMsg now).2 = [] ∧ now / 1000 ≤ σ.client.lastWriteTime + 1) ∨
      pings hd = true ∧ (σ.client.sendPingMsg now).2 = [pingFrame] ∧
        σ' = { σ with
          io := io.write pingFrame
          client := { lastWriteTime := now / 1000 }
          tasks := σ.tasks ++ (Session.readOf xs).filterMap (message rt) }) := by
  simp only [step] at h
  split at h
  · cases h
  · rename_i hd rest hqueue
    have hcases : Session.Handled (hooks rt) false { σ.io with queue := rest } hd _ _ :=
      Session.handle_cases hd
    refine ⟨hd, rest, _, _, hqueue, hcases, ?_⟩
    simp only [signals_eq] at h
    split at h
    · rename_i hpings
      rcases σ.client.sendPingMsg_cases now with hsend | ⟨hskip, hlast⟩
      · rw [hsend] at h
        cases h
        exact ⟨rfl, .inr ⟨hpings, congrArg Prod.snd hsend, rfl⟩⟩
      · rw [hskip] at h
        cases h
        exact ⟨rfl, .inl ⟨rfl, fun _ => ⟨congrArg Prod.snd hskip, hlast⟩⟩⟩
    · rename_i hquiet
      cases h
      exact ⟨rfl, .inl ⟨rfl, fun hpings => absurd hpings hquiet⟩⟩

/-- What a step does: the connection is made or is not, it goes on without a handler, a handler
runs, possibly followed by a ping, or a reply is handled. -/
inductive Step (rt : Protobuf LoginRsp) (reqData : LoginReq → Bytes) (uid : Bytes)
    (σ : ClientUser) : ClientUser → List Obs → Prop
  | connected {now : ℕ} (hnew : σ.connecting = true) :
      Step rt reqData uid σ (σ.connected reqData uid now) []
  | failed : Step rt reqData uid σ { σ with connecting := false } []
  | completed {io : Session UserBuffer UserBuffer} {arrival : Option UserBuffer}
      (hold : σ.io ≠ { isOpen := false })
      (hflow : io.flow = { σ.io.flow with bodies := bodies σ.io.queue ++ arrival.toList })
      (hext : σ.io.Extends io) :
      Step rt reqData uid σ { σ with io } (arrival.toList.map .arrived)
  | handler {h : Handler UserBuffer UserBuffer} {rest io xs client pinged}
      (hqueue : σ.io.queue = h :: rest)
      (hout : Session.Outcome (hooks rt) { σ.io with queue := rest } h io xs)
      (hadv : Session.Advances { σ.io with queue := rest } h io xs)
      (hpinged : pinged = io ∨ pinged = io.write pingFrame) :
      Step rt reqData uid σ { σ with
        io := pinged
        client := client
        tasks := σ.tasks ++ (Session.readOf xs).filterMap (message rt) }
        ((Session.sentOf xs).map .sent)
  | task {rsp rest} (htasks : σ.tasks = rsp :: rest) : Step rt reqData uid σ
      ({ σ with tasks := rest }.gameLoginRspHandle rsp) [.handled rsp]

/-- **What a step does.**

**Proof sketch.** By cases on the event. A completion or an expiry extends the queue and leaves the
flow, but for a body that arrives; a handler is one of `io_cases`. -/
theorem step_cases {e : Event} (h : σ.step rt reqData uid e = some (σ', out)) :
    Step rt reqData uid σ σ' out := by
  cases e with
  | connectDone now ok =>
    simp only [step] at h
    split at h
    · cases h
      cases ok with
      | false => exact .failed
      | true => exact .connected ‹_›
    · cases h
  | readDone result =>
    obtain ⟨io, hio, heq⟩ := Option.map_eq_some_iff.mp h
    cases heq
    refine .completed (fun hold => ?_) (Session.flow_completeRead hio)
      (Session.extends_completeRead hio)
    rw [hold] at hio
    cases hio
  | writeDone ok =>
    obtain ⟨io, hio, heq⟩ := Option.map_eq_some_iff.mp h
    cases heq
    have hflow : io.flow = { σ.io.flow with
        bodies := bodies σ.io.queue ++ (none : Option UserBuffer).toList } :=
      (Session.flow_completeWrite hio).trans (by simp [Session.flow])
    refine .completed (fun hold => ?_) hflow (Session.extends_completeWrite hio)
    rw [hold] at hio
    cases hio
  | timerDone =>
    obtain ⟨io, hio, heq⟩ := Option.map_eq_some_iff.mp h
    cases heq
    have hflow : io.flow = { σ.io.flow with
        bodies := bodies σ.io.queue ++ (none : Option UserBuffer).toList } :=
      (Session.flow_expireTimer hio).trans (by simp [Session.flow])
    refine .completed (fun hold => ?_) hflow (Session.extends_expireTimer hio)
    rw [hold] at hio
    cases hio
  | io now =>
    obtain ⟨hd, rest, io, xs, hqueue, hcases, rfl, hafter⟩ := io_cases h
    rcases hafter with ⟨rfl, -⟩ | ⟨-, -, rfl⟩
    · exact .handler hqueue hcases.outcome hcases.advances (.inl rfl)
    · exact .handler hqueue hcases.outcome hcases.advances (.inr rfl)
  | task =>
    simp only [step] at h
    split at h
    · cases h
    · cases h
      exact .task ‹_›

/-! ## What a user sends and handles -/

/-- The invariant of a user. Before the connection is made there is nothing; then the frames that
were sent, held and posted are a login request and pings, the replies that were handled, wait
for the thread of the user or were read are those that arrived, and a user that was refused ends
its connection. -/
structure Talks (rt : Protobuf LoginRsp) (reqData : LoginReq → Bytes) (uid : Bytes)
    (tr : List Obs) (σ : ClientUser) : Prop where
  fresh : σ.gameclient = false →
    σ.io = { isOpen := false } ∧ σ.tasks = [] ∧ handledOf tr = [] ∧ sentOf tr = []
  connecting : σ.connecting = true → σ.gameclient = false
  frames : σ.gameclient = true → ∃ n, sentOf tr ++ σ.io.writeBufs ++ posted σ.io.queue =
    loginFrame reqData uid :: List.replicate n pingFrame
  replies : handledOf tr ++ σ.tasks ++ (bodies σ.io.queue).filterMap (message rt) =
    (arrivedOf tr).filterMap (message rt)
  refused : (∃ rsp ∈ handledOf tr, rsp.result ≠ .kLoginResSuccess) → σ.io.Ending
  crashed : σ.crashed = false

/-- At first nothing has been said. -/
lemma talks_init : Talks rt reqData uid [] {} :=
  ⟨fun _ => ⟨rfl, rfl, rfl, rfl⟩, fun _ => rfl, by simp, rfl, by simp [handledOf], rfl⟩

/-- There is a connection as soon as there is something to do. -/
lemma Talks.gameclient (h : Talks rt reqData uid tr σ)
    (hnew : σ.io ≠ { isOpen := false } ∨ σ.tasks ≠ []) : σ.gameclient = true := by
  by_contra hnone
  obtain ⟨hio, htasks, -⟩ := h.fresh (eq_false_of_ne_true hnone)
  exact hnew.elim (fun hne => hne hio) fun hne => hne htasks

/-- The connection that has just been made. -/
lemma io_connected {now : ℕ} (hio : σ.io = { isOpen := false }) :
    (σ.connected reqData uid now).io =
      { reading := [.header], timerArmed := true, queue := [.write (loginFrame reqData uid)] } := by
  simp [ClientUser.connected, hio, sendGameMsg, written, GameClient.sendMsg, GameClient.write,
    Session.armTimer, Session.stopTimer, Session.write, Session.post, Session.asyncRead,
    loginFrame]

/-- The connection is made. -/
lemma Talks.connected {now : ℕ} (h : Talks rt reqData uid tr σ) (hnew : σ.connecting = true) :
    Talks rt reqData uid tr (σ.connected reqData uid now) := by
  obtain ⟨hio, htasks, hhandled, hsent⟩ := h.fresh (h.connecting hnew)
  have hopen : (σ.connected reqData uid now).io = _ := io_connected hio
  have htasks' : (σ.connected reqData uid now).tasks = σ.tasks := rfl
  have hreplies := h.replies
  refine ⟨fun hnone => ?_, fun hconn => ?_, fun _ => ⟨0, ?_⟩, ?_, ?_, h.crashed⟩
  · cases hnone
  · cases hconn
  · rw [hopen, hsent]
    rfl
  · rw [hopen, htasks', ← hreplies, hio]
    rfl
  · rintro ⟨rsp, hrsp, -⟩
    rw [hhandled] at hrsp
    cases hrsp

/-- The connection goes on without a handler. -/
lemma Talks.completed {io : Session UserBuffer UserBuffer} {arrival : Option UserBuffer}
    (h : Talks rt reqData uid tr σ) (hold : σ.io ≠ { isOpen := false })
    (hflow : io.flow = { σ.io.flow with bodies := bodies σ.io.queue ++ arrival.toList })
    (hext : σ.io.Extends io) :
    Talks rt reqData uid (tr ++ arrival.toList.map .arrived) { σ with io } := by
  have hgame := h.gameclient (.inl hold)
  obtain ⟨hbufs, hposted, hbodies⟩ := Session.Flow.mk.inj hflow
  have hquiet : handledOf (arrival.toList.map .arrived) = [] ∧
      sentOf (arrival.toList.map .arrived) = [] := by
    cases arrival <;> exact ⟨rfl, rfl⟩
  refine ⟨fun hnone => ?_, h.connecting, fun _ => ?_, ?_, fun hrefused => ?_, h.crashed⟩
  · rw [hgame] at hnone
    cases hnone
  · rw [sentOf_append, hquiet.2, List.append_nil, hbufs, hposted]
    exact h.frames hgame
  · have hreplies := h.replies
    rw [handledOf_append, hquiet.1, List.append_nil, hbodies, arrivedOf_append, arrivedOf_map,
      List.filterMap_append, List.filterMap_append, ← hreplies]
    simp only [List.append_assoc]
  · rw [handledOf_append, hquiet.1, List.append_nil] at hrefused
    exact (h.refused hrefused).extends hext

/-- A handler runs, and the timer may send a ping.

**Proof sketch.** A handler keeps the order of the frames and that of the bodies
(`Outcome.outbound`, `Outcome.inbound`): frames pass from the queue to `write_bufs_` and to the
network, bodies from the queue to the tasks. A ping of the timer is one more ping at the end. -/
lemma Talks.handler {hd : Handler UserBuffer UserBuffer}
    {rest : List (Handler UserBuffer UserBuffer)} {io pinged : Session UserBuffer UserBuffer}
    {xs : List (Signal UserBuffer UserBuffer)} {client : GameClient}
    (h : Talks rt reqData uid tr σ) (hqueue : σ.io.queue = hd :: rest)
    (hout : Session.Outcome (hooks rt) { σ.io with queue := rest } hd io xs)
    (hadv : Session.Advances { σ.io with queue := rest } hd io xs)
    (hpinged : pinged = io ∨ pinged = io.write pingFrame) :
    Talks rt reqData uid (tr ++ (Session.sentOf xs).map .sent) { σ with
      io := pinged
      client := client
      tasks := σ.tasks ++ (Session.readOf xs).filterMap (message rt) } := by
  have hgame := h.gameclient (.inl fun hold => by rw [hold] at hqueue; cases hqueue)
  have houtbound := hout.outbound
  have hinbound := hout.inbound
  obtain ⟨n, hframes⟩ := h.frames hgame
  have hreplies := h.replies
  rw [hqueue] at hframes hreplies
  -- the frames and the bodies before a ping
  have hframes' : sentOf tr ++ Session.sentOf xs ++ io.writeBufs ++ posted io.queue =
      loginFrame reqData uid :: List.replicate n pingFrame := by
    rw [← hframes, List.append_assoc, List.append_assoc, List.append_assoc, ← houtbound]
    simp only [List.append_assoc]
  have hending : (∃ rsp ∈ handledOf tr, rsp.result ≠ .kLoginResSuccess) → io.Ending :=
    fun hrefused => (h.refused hrefused).handle hqueue hadv
  refine ⟨fun hnone => ?_, h.connecting, fun _ => ?_, ?_, fun hrefused => ?_, h.crashed⟩
  · rw [hgame] at hnone
    cases hnone
  · rw [sentOf_append, sentOf_map]
    rcases hpinged with rfl | rfl
    · exact ⟨n, hframes'⟩
    · have hbufs : (io.write pingFrame).writeBufs = io.writeBufs := rfl
      have hposted : posted (io.write pingFrame).queue = posted io.queue ++ [pingFrame] :=
        (Session.Flow.mk.inj Session.flow_write).2.1
      refine ⟨n + 1, ?_⟩
      rw [hbufs, hposted, ← List.append_assoc, hframes', List.replicate_succ', List.cons_append]
  · have hbodies : bodies pinged.queue = bodies io.queue := by
      rcases hpinged with rfl | rfl
      · rfl
      · exact (Session.Flow.mk.inj Session.flow_write).2.2
    rw [handledOf_append, handledOf_sent, arrivedOf_append, arrivedOf_sent, List.append_nil,
      List.append_nil, hbodies, ← hreplies, ← hinbound, List.filterMap_append]
    simp only [List.append_assoc]
  · rw [handledOf_append, handledOf_sent, List.append_nil] at hrefused
    rcases hpinged with rfl | rfl
    · exact hending hrefused
    · exact (hending hrefused).extends (Session.extends_post _)

/-- A reply is handled: the connection stays as it is, or it is closed.

**Proof sketch.** The reply at the front of the tasks becomes the last one that was handled. A
success leaves the connection as it is. Any other result closes it: the task that closes the socket
is in the queue then, and the flow stays as it is. -/
lemma Talks.task {rsp : LoginRsp} {rest : List LoginRsp} (h : Talks rt reqData uid tr σ)
    (htasks : σ.tasks = rsp :: rest) : Talks rt reqData uid (tr ++ [.handled rsp])
      ({ σ with tasks := rest }.gameLoginRspHandle rsp) := by
  have hgame := h.gameclient (.inr (by simp [htasks]))
  obtain ⟨io, hio, hflow, hending⟩ : ∃ io, { σ with tasks := rest }.gameLoginRspHandle rsp =
      { σ with tasks := rest, io := io } ∧ io.flow = σ.io.flow ∧
      ((∃ r ∈ handledOf (tr ++ [.handled rsp]), r.result ≠ .kLoginResSuccess) → io.Ending) := by
    obtain ⟨result⟩ := rsp
    cases result with
    | kLoginResSuccess =>
      refine ⟨σ.io, rfl, rfl, ?_⟩
      rintro ⟨r, hr, hne⟩
      rw [handledOf_append] at hr
      rcases List.mem_append.mp hr with hr | hr
      · exact h.refused ⟨r, hr, hne⟩
      · exact absurd (congrArg LoginRsp.result (List.mem_singleton.mp hr)) hne
    | kLoginResQueue | kLoginResError | kLoginResLogined =>
      refine ⟨σ.io.close.1, ?_, Session.flow_close, fun _ _ => ?_⟩
      · simp [gameLoginRspHandle, closeGameClient, hgame]
      · simp [Session.close, Session.post]
  obtain ⟨hbufs, hposted, hbodies⟩ := Session.Flow.mk.inj hflow
  have hreplies := h.replies
  rw [htasks] at hreplies
  rw [hio]
  refine ⟨fun hnone => ?_, h.connecting, fun _ => ?_, ?_, hending, h.crashed⟩
  · rw [hgame] at hnone
    cases hnone
  · have hsent : sentOf (tr ++ [.handled rsp]) = sentOf tr := by simp [sentOf]
    rw [hsent, hbufs, hposted]
    exact h.frames hgame
  · have harrived : arrivedOf (tr ++ [.handled rsp]) = arrivedOf tr := by simp [arrivedOf]
    have hone : handledOf [.handled rsp] = [rsp] := rfl
    rw [harrived, ← hreplies, handledOf_append, hone, hbodies]
    simp

/-- **The run lemma.** The invariant holds in every run of a user. -/
theorem talks_of_run {G : List Obs → ClientUser → Event → Prop}
    (h : (machine rt reqData uid).Run G tr σ) : Talks rt reqData uid tr σ := by
  refine h.invariant (Talks rt reqData uid) talks_init fun tr σ e σ' out _ ih _ hstep => ?_
  cases step_cases hstep with
  | connected hnew =>
    rw [List.append_nil]
    exact ih.connected hnew
  | failed =>
    rw [List.append_nil]
    exact ⟨ih.fresh, by simp, ih.frames, ih.replies, ih.refused, ih.crashed⟩
  | completed hold hflow hext => exact ih.completed hold hflow hext
  | handler hqueue hout hadv hpinged => exact ih.handler hqueue hout hadv hpinged
  | task htasks => exact ih.task htasks

/-- **A user.** In every run, whatever the server and the network do: the frames that the user has
sent, holds and has posted are one login request and after it pings only; the replies handled are
those that arrived, in order; once a reply has refused the login, the connection is closed or the
task that closes it is queued; and `CloseGameClient` never uses a connection that is not there.

**Proof sketch.** `gameclient_` is set and the request is posted in the handler that starts the
first read, so that every reply and every ping comes after both (`Talks`). -/
theorem user_of_run (rt : Protobuf LoginRsp) (reqData : LoginReq → Bytes) (uid : Bytes)
    {tr : List Obs} {σ : ClientUser} (h : (machine rt reqData uid).Reach tr σ) :
    (∃ n, sentOf tr ++ σ.io.writeBufs ++ posted σ.io.queue <+:
        loginFrame reqData uid :: List.replicate n pingFrame) ∧
      handledOf tr <+: (arrivedOf tr).filterMap (message rt) ∧
      ((∃ rsp ∈ handledOf tr, rsp.result ≠ .kLoginResSuccess) → σ.io.Ending) ∧
      σ.crashed = false := by
  have htalks := talks_of_run h
  refine ⟨?_, ?_, htalks.refused, htalks.crashed⟩
  · cases hgame : σ.gameclient with
    | false =>
      obtain ⟨hio, -, -, hsent⟩ := htalks.fresh hgame
      exact ⟨0, by simp [hio, hsent, posted]⟩
    | true =>
      obtain ⟨n, hn⟩ := htalks.frames hgame
      exact ⟨n, hn ▸ List.prefix_rfl⟩
  · rw [← htalks.replies, List.append_assoc]
    exact List.prefix_append _ _

/-- A protobuf runtime for runs that are computed: it knows `game.LoginRsp`, and reads the
`result` field. -/
def sampleRspProtobuf : Protobuf LoginRsp where
  createMessage name := if name = loginRspName then some ⟨.kLoginResSuccess⟩ else none
  parseFromArray
    | _, [8, 1], _ => (true, ⟨.kLoginResQueue⟩)
    | _, [8, 2], _ => (true, ⟨.kLoginResError⟩)
    | _, [8, 3], _ => (true, ⟨.kLoginResLogined⟩)
    | _, _, _ => (true, ⟨.kLoginResSuccess⟩)

/-- The payload of a request for computed runs. -/
def sampleReqData (req : LoginReq) : Bytes := 18 :: UInt8.ofNat req.uid.length :: req.uid

/-- A user is told that it has logged in already. -/
theorem user_of_run_refused : ∃ (tr : List Obs) (σ : ClientUser),
    (machine sampleRspProtobuf sampleReqData [117]).Reach tr σ ∧
      handledOf tr = [⟨.kLoginResLogined⟩] ∧ σ.io.Ending ∧ σ.crashed = false := by
  obtain ⟨r, hexec, hhandled⟩ : ∃ r ∈ (machine sampleRspProtobuf sampleReqData [117]).exec
      (fun _ _ _ => true) [] (machine sampleRspProtobuf sampleReqData [117]).init
      [.connectDone 0 true, .readDone (some (sampleWire.sendMsg ⟨.kLoginResLogined⟩)), .io 1,
        .io 1, .readDone (some (sampleWire.sendMsg ⟨.kLoginResLogined⟩)), .io 1, .task],
      handledOf r.1 = [⟨.kLoginResLogined⟩] := by
    decide +kernel
  have hrun := Machine.run_of_exec (G := fun _ _ _ => True) (fun _ _ _ _ => trivial) hexec
  obtain ⟨-, -, hrefused, hcrashed⟩ := user_of_run _ _ _ hrun
  refine ⟨r.1, r.2, hrun, hhandled, hrefused ⟨⟨.kLoginResLogined⟩, ?_, by decide⟩, hcrashed⟩
  rw [hhandled]
  exact List.mem_singleton_self _

end ClientUser

end FightingCard
