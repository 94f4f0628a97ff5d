import FightingCard.Common.Buffer
import FightingCard.Lib.Machine

set_option relaxedAutoImplicit false
set_option autoImplicit false

/-!
# The logic thread

All state shared by the sessions of the server is touched by one thread only, the one that
runs the `io_service` of `LogicIo`. The other threads post tasks to it: `GameServer::OnAccept`
registers the session, `UserProcessor::Dispatch` runs a message handler, `UserSession::OnClose`
and `UserSession::OnClosed` clean up. This file has the data these tasks work on
(`server/user_manager.cpp`, `server/user_session_manager.cpp`, the members of `UserSession`
that only this thread changes), the tasks themselves (`server/user_session_processor.cpp`,
`server/user_session.cpp`), and the machine made of this data and the FIFO of posted tasks,
in which the other threads are an environment that posts.

The tokens of the messages and the log lines are left out: nothing reads them.

## Main definitions

* `FightingCard.UserManager`, `FightingCard.UserSessionManager`, `FightingCard.UserSession` — the
  data of the logic thread.
* `FightingCard.loginReqHandle` — `UserSessionProcessor::LoginReqHandle`.
* `FightingCard.LogicTask`, `FightingCard.LogicIo.runTask` — the tasks and their execution.
* `FightingCard.LogicIo.machine` — the logic thread with its queue.
-/

namespace FightingCard

/-! ## Messages -/

/-- `game.LoginType`. -/
inductive LoginType where
  | kLoginTypeNormal
  | kLoginTypeQueued
  deriving DecidableEq

/-- `game.LoginRes`. -/
inductive LoginRes where
  | kLoginResSuccess
  | kLoginResQueue
  | kLoginResError
  | kLoginResLogined
  deriving DecidableEq

/-- `game.LoginReq`; the accessors of an absent field return these defaults. -/
structure LoginReq where
  type : LoginType := .kLoginTypeNormal
  uid : Bytes := []
  deriving DecidableEq

/-- `game.LoginRsp`. -/
structure LoginRsp where
  result : LoginRes
  deriving DecidableEq

/-- A message that `UserSessionProcessor` has a handler for. -/
inductive UserMsg where
  | loginReq (req : LoginReq)
  | ping
  deriving DecidableEq

/-! ## The managers -/

/-- `User`. -/
structure User where
  uid : Bytes

/-- `UserManager`: the map `users_` from uid to user. -/
structure UserManager where
  users : Bytes → Option User := fun _ => none

namespace UserManager

/-- `FindUser(uid)`. -/
def findUser (m : UserManager) (uid : Bytes) : Option User := m.users uid

/-- `AddUser(user)`: an existing entry is kept. -/
def addUser (m : UserManager) (user : User) : UserManager × Bool :=
  match m.users user.uid with
  | some _ => (m, false)
  | none => (⟨Function.update m.users user.uid (some user)⟩, true)

/-- `DelUser(uid)`. -/
def delUser (m : UserManager) (uid : Bytes) : UserManager :=
  ⟨Function.update m.users uid none⟩

end UserManager

/-- `UserSessionManager`: the static id counter of `AddSession` and the map `user_sessions_`
from session id to session. -/
structure UserSessionManager where
  counter : ℕ := 0
  userSessions : ℕ → Option ℕ := fun _ => none

namespace UserSessionManager

/-- `AddSession(user_session)`: the 32-bit counter is advanced past `0`, an existing entry is
kept. The result has the id given to the session. -/
def addSession (m : UserSessionManager) (session : ℕ) : UserSessionManager × ℕ :=
  let sessionId := (m.counter + 1) % 2 ^ 32
  let sessionId := if sessionId = 0 then (sessionId + 1) % 2 ^ 32 else sessionId
  match m.userSessions sessionId with
  | some _ => ({ m with counter := sessionId }, sessionId)
  | none => (⟨sessionId, Function.update m.userSessions sessionId (some session)⟩, sessionId)

/-- `DelSession(session_id)`. -/
def delSession (m : UserSessionManager) (sessionId : ℕ) : UserSessionManager :=
  { m with userSessions := Function.update m.userSessions sessionId none }

/-- `GetSession(session_id)`, for sessions that are still alive. -/
def getSession (m : UserSessionManager) (sessionId : ℕ) : Option ℕ := m.userSessions sessionId

end UserSessionManager

/-- The members of a `UserSession` that the logic thread reads and writes. `closed` records
that `Close()` has been called; the program has no such flag. -/
structure UserSession where
  sessionId : ℕ := 0
  authed : Bool := false
  userId : Bytes := []
  closed : Bool := false

/-- `LoginReqHandle`: a normal login is refused if the uid is registered and registers it
otherwise, a queued login skips both; what is accepted authenticates the session. -/
def loginReqHandle (users : UserManager) (session : UserSession) (req : LoginReq) :
    UserManager × UserSession × LoginRsp :=
  let authenticate (users : UserManager) : UserManager × UserSession × LoginRsp :=
    (users, { session with userId := req.uid, authed := true }, ⟨.kLoginResSuccess⟩)
  if req.type = .kLoginTypeNormal then
    match users.findUser req.uid with
    | some _ => (users, session, ⟨.kLoginResLogined⟩)
    | none => authenticate (users.addUser ⟨req.uid⟩).1
  else authenticate users

/-! ## Tasks -/

/-- The tasks posted to the logic thread, with the session they capture: the registration of
an accepted session, `LoginReqHandle`, `PingReqHandle`, the task of `UserSession::OnClose` and
that of `UserSession::OnClosed`. -/
inductive LogicTask where
  | addSession (s : ℕ)
  | loginReq (s : ℕ) (req : LoginReq)
  | ping (s : ℕ)
  | onClose (s : ℕ)
  | onClosed (s : ℕ)
  deriving DecidableEq

/-- The session a task works on. -/
def LogicTask.session : LogicTask → ℕ
  | .addSession s | .loginReq s _ | .ping s | .onClose s | .onClosed s => s

/-- The handler invocation that `UserProcessor::Dispatch` posts for a message. -/
def UserMsg.task (s : ℕ) : UserMsg → LogicTask
  | .loginReq req => .loginReq s req
  | .ping => .ping s

/-- The task of a message is one of its session. -/
@[simp] lemma UserMsg.session_task {s : ℕ} {msg : UserMsg} : (msg.task s).session = s := by
  cases msg <;> rfl

/-- What a task has done: a login with its answer, a `DelUser` with the uid it was called for,
or nothing that concerns the users. -/
inductive Done where
  | addSession (s : ℕ)
  | login (s : ℕ) (req : LoginReq) (res : LoginRes)
  | ping (s : ℕ)
  | delUser (s : ℕ) (uid : Bytes)
  | onClosed (s : ℕ)
  deriving DecidableEq

/-- The logic thread: the users, the registered sessions, the sessions accepted so far (those
below `accepted`), and the FIFO of posted tasks. -/
structure LogicIo where
  users : UserManager := {}
  userSessions : UserSessionManager := {}
  sessions : ℕ → UserSession := fun _ => {}
  accepted : ℕ := 0
  tasks : List LogicTask := []

namespace LogicIo

variable (σ : LogicIo)

/-- The session `s` replaced by another value. -/
def setSession (s : ℕ) (session : UserSession) : LogicIo :=
  { σ with sessions := Function.update σ.sessions s session }

/-- `LogicIo::Instance().get_io_service().post(task)`. -/
def post (t : LogicTask) : LogicIo := { σ with tasks := σ.tasks ++ [t] }

/-- A connection is accepted; `OnAccept` posts its registration. -/
def accept : LogicIo := { σ with accepted := σ.accepted + 1 }.post (.addSession σ.accepted)

/-- `Close()` is called on the session `s`; `OnClose` posts its task. -/
def close (s : ℕ) : LogicIo :=
  (σ.setSession s { σ.sessions s with closed := true }).post (.onClose s)

/-- The answer that `LoginReqHandle` would give now. -/
def answer (s : ℕ) (req : LoginReq) : LoginRes :=
  (loginReqHandle σ.users (σ.sessions s) req).2.2.result

/-- The execution of a task. -/
def runTask : LogicTask → LogicIo × Done
  | .addSession s =>
    let (userSessions, sessionId) := σ.userSessions.addSession s
    ({ σ with userSessions }.setSession s { σ.sessions s with sessionId }, .addSession s)
  | .loginReq s req =>
    let (users, session, rsp) := loginReqHandle σ.users (σ.sessions s) req
    ({ σ with users }.setSession s session, .login s req rsp.result)
  | .ping s => (σ, .ping s)
  | .onClose s =>
    let users := σ.users.delUser (σ.sessions s).userId
    let userSessions := σ.userSessions.delSession (σ.sessions s).sessionId
    ({ σ with users, userSessions }, .delUser s (σ.sessions s).userId)
  | .onClosed s => (σ, .onClosed s)

/-- The execution of a sequence of tasks, with what each of them has done. -/
def runTasks (σ : LogicIo) : List LogicTask → LogicIo × List Done
  | [] => (σ, [])
  | t :: ts =>
    let (σ', done) := σ.runTask t
    let (σ'', dones) := runTasks σ' ts
    (σ'', done :: dones)

/-- What can happen next: a connection is accepted, an io thread dispatches a message of an
accepted session, calls `Close` or `OnClosed` on it, or the logic thread runs the task at the
front of its queue. -/
inductive Event where
  | accept
  | dispatch (s : ℕ) (msg : UserMsg)
  | close (s : ℕ)
  | onClosed (s : ℕ)
  | run

/-- One step of the logic thread or of its environment. -/
def step (σ : LogicIo) : Event → Option (LogicIo × List Done)
  | .accept => some (σ.accept, [])
  | .dispatch s msg => if s < σ.accepted then some (σ.post (msg.task s), []) else none
  | .close s => if s < σ.accepted then some (σ.close s, []) else none
  | .onClosed s => if s < σ.accepted then some (σ.post (.onClosed s), []) else none
  | .run =>
    match σ.tasks with
    | [] => none
    | t :: ts =>
      let (σ', done) := { σ with tasks := ts }.runTask t
      some (σ', [done])

/-- The server as its logic thread sees it. -/
def machine : Machine LogicIo Event Done := ⟨{}, step⟩

/-- A condition on the steps of the logic thread: `D` on those that dispatch a message and `R`
on those that run a task. -/
def guard (D : LogicIo → ℕ → UserMsg → Prop) (R : List Done → LogicIo → LogicTask → Prop)
    (done : List Done) (σ : LogicIo) : Event → Prop
  | .dispatch s msg => D σ s msg
  | .run => ∀ t ∈ σ.tasks.head?, R done σ t
  | .accept | .close _ | .onClosed _ => True

instance {D : LogicIo → ℕ → UserMsg → Prop} {R : List Done → LogicIo → LogicTask → Prop}
    [∀ σ s msg, Decidable (D σ s msg)] [∀ done σ t, Decidable (R done σ t)] {done : List Done}
    {σ : LogicIo} : (e : Event) → Decidable (guard D R done σ e)
  | .dispatch .. => inferInstanceAs (Decidable (D _ _ _))
  | .run => inferInstanceAs (Decidable (∀ t ∈ σ.tasks.head?, R done σ t))
  | .accept | .close _ | .onClosed _ => inferInstanceAs (Decidable True)

end LogicIo

end FightingCard
