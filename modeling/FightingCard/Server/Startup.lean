import FightingCard.Server.GameServer

set_option relaxedAutoImplicit false
set_option autoImplicit false

/-!
# Startup

The start of the server (`main` of `server/main.cpp`). `main` starts the io threads and the logic
thread, posts the task that runs `UserSessionProcessor::Init` to the logic thread, makes the
acceptor listen and then serves it itself, as the master thread. The other threads do not wait for
the task: the state here has the statements that `main` and the task still have to execute beside
the server of `FightingCard.GameServer`, and a run is one interleaving of `main`, the logic thread,
the io threads and the network.

`Dispatch` and `AddHandler` start with `assert(this->io_service_)`; the program is built without
`NDEBUG`, so an assertion that fails aborts it. Each statement of `Init` is one step: that another
thread reads `handlers_` in the middle of an insertion is not modelled. `TimerManager::Init`, which
follows in the same task, touches nothing that a dispatch reads and is left out.

## Main definitions

* `FightingCard.UserSessionProcessor` — the processor with `io_service_` and its assertions.
* `FightingCard.Startup` — the state of the starting server.
* `FightingCard.Startup.machine` — its steps.
* `FightingCard.Startup.InitFirst` — the order that the program does not enforce: no frame is
  dispatched before `Init` is done.

## Main results

* `FightingCard.UserSessionProcessor.ready_iff` — the processor is ready when all statements of
  `Init` have been executed, and not before.
* `FightingCard.Startup.run_initFirst_iff` — a run serves every frame, without an abort and with
  all handlers registered, exactly when it keeps this order.
* `FightingCard.Startup.finished_of_ran` — once the logic thread has run any task of a session,
  `Init` is done.
* `FightingCard.Startup.startup_refines` — a run that keeps the order is a run of the server.
-/

namespace FightingCard

open UserProcessor

/-! ## The processor -/

/-- `UserSessionProcessor`: `handlers_`, and whether `io_service_` is set. -/
structure UserSessionProcessor extends UserProcessor UserMsg UserMsg where
  ioService : Bool := false

/-- The handler made of `LoginReqHandle`. -/
def loginReqHandler : UserHandler UserMsg UserMsg := ⟨loginReqName, fun
  | .loginReq req => some (.loginReq req)
  | .ping => none⟩

/-- The handler made of `PingReqHandle`. -/
def pingReqHandler : UserHandler UserMsg UserMsg := ⟨pingName, fun
  | .ping => some .ping
  | .loginReq _ => none⟩

/-- The statements of `UserSessionProcessor::Init`. -/
inductive InitStatement where
  | setIoService
  | addLoginReqHandler
  | addPingReqHandler
  deriving DecidableEq

namespace UserSessionProcessor

/-- `set_io_service(io_service)`. -/
def setIoService (p : UserSessionProcessor) : UserSessionProcessor := { p with ioService := true }

/-- `AddHandler`, if its assertions hold: `io_service_` is set and the name is new. -/
def addHandler (p : UserSessionProcessor) (h : UserHandler UserMsg UserMsg) :
    Option UserSessionProcessor :=
  if p.ioService then
    match p.handlers h.fullName with
    | some _ => none
    | none => some { p with toUserProcessor := p.toUserProcessor.addHandler h }
  else none

/-- `Dispatch`, if its assertion holds. -/
def dispatch (p : UserSessionProcessor) (rt : Protobuf UserMsg) (args : ProtoArgs) :
    Option (ErrorCode × Option UserMsg) :=
  if p.ioService then some (p.toUserProcessor.dispatch rt args) else none

/-- The statements of `Init`, in their order. -/
def init : List InitStatement := [.setIoService, .addLoginReqHandler, .addPingReqHandler]

/-- The processor that `Init` makes. -/
def initialised : UserSessionProcessor := { userSessionProcessor with ioService := true }

/-- A frame can be dispatched: `io_service_` is set and the handlers of both messages are
registered. -/
structure Ready (p : UserSessionProcessor) : Prop where
  ioService : p.ioService = true
  loginReq : (p.handlers loginReqName).isSome = true
  ping : (p.handlers pingName).isSome = true

end UserSessionProcessor

/-- The execution of a statement of `Init`, if its assertions hold. -/
def InitStatement.exec (p : UserSessionProcessor) : InitStatement → Option UserSessionProcessor
  | .setIoService => some p.setIoService
  | .addLoginReqHandler => p.addHandler loginReqHandler
  | .addPingReqHandler => p.addHandler pingReqHandler

namespace UserSessionProcessor

variable {p q : UserSessionProcessor} {h : UserHandler UserMsg UserMsg}

/-- A handler is added under a name that is free. -/
lemma addHandler_eq_some (hq : p.addHandler h = some q) : p.handlers h.fullName = none ∧
    q.handlers = Function.update p.handlers h.fullName (some h) := by
  unfold addHandler at hq
  split at hq
  · split at hq
    · cases hq
    · rename_i hnew
      cases hq
      exact ⟨hnew, by simp [UserProcessor.addHandler, hnew]⟩
  · cases hq

/-- A statement of `Init` keeps the handlers that are registered. -/
lemma isSome_handlers_exec {a : InitStatement} (hq : a.exec p = some q) {name : Bytes}
    (hp : (p.handlers name).isSome = true) : (q.handlers name).isSome = true := by
  have hadd : ∀ h, p.addHandler h = some q → (q.handlers name).isSome = true := by
    intro h hq
    rw [(addHandler_eq_some hq).2]
    by_cases hname : name = h.fullName
    · simp [hname]
    · simpa [hname] using hp
  cases a with
  | setIoService =>
    cases hq
    exact hp
  | addLoginReqHandler | addPingReqHandler => exact hadd _ hq

/-- So do any number of them. -/
lemma isSome_handlers_foldlM {as : List InitStatement}
    (hq : as.foldlM InitStatement.exec p = some q) {name : Bytes}
    (hp : (p.handlers name).isSome = true) : (q.handlers name).isSome = true := by
  induction as generalizing p with
  | nil =>
    cases hq
    exact hp
  | cons a as ih =>
    rw [List.foldlM_cons] at hq
    obtain ⟨r, hr, hq⟩ := Option.bind_eq_some_iff.mp hq
    exact ih hq (isSome_handlers_exec hr hp)

/-- No assertion fails in `Init`. -/
lemma foldlM_init : init.foldlM InitStatement.exec {} = some initialised := rfl

/-- The processor is ready after `Init`. -/
lemma ready_initialised : initialised.Ready := ⟨rfl, by decide +kernel, by decide +kernel⟩

/-- **Readiness.** With the statements `as` of `Init` still ahead, a frame can be dispatched
exactly if there are none. -/
theorem ready_iff {as : List InitStatement} (has : as <:+ init)
    (hp : as.foldlM InitStatement.exec p = some initialised) : p.Ready ↔ as = [] := by
  constructor
  · intro hready
    rcases List.suffix_concat_iff.mp (show as <:+ [.setIoService, .addLoginReqHandler] ++
      [InitStatement.addPingReqHandler] from has) with rfl | ⟨before, rfl, -⟩
    · rfl
    · -- the last statement finds `PingReqHandle` registered already
      rw [List.foldlM_append] at hp
      obtain ⟨q, hq, hlast⟩ := Option.bind_eq_some_iff.mp hp
      rw [List.foldlM_cons] at hlast
      obtain ⟨r, hr, -⟩ := Option.bind_eq_some_iff.mp hlast
      have hnew := (addHandler_eq_some hr).1
      have hping := isSome_handlers_foldlM hq hready.ping
      rw [show pingName = pingReqHandler.fullName from rfl, hnew] at hping
      cases hping
  · rintro rfl
    cases hp
    exact ready_initialised

/-- A dispatch of a message with a handler does not fail for want of one. -/
lemma Ready.dispatch (hp : p.Ready) (rt : Protobuf UserMsg) {args : ProtoArgs}
    (hargs : args.msgName = loginReqName ∨ args.msgName = pingName) :
    ∃ r, p.dispatch rt args = some r ∧ r.1 ≠ .kErrorMsgNotRegister := by
  have hhandler : (p.handlers args.msgName).isSome = true := by
    rcases hargs with hname | hname
    · rw [hname]
      exact hp.loginReq
    · rw [hname]
      exact hp.ping
  obtain ⟨h, hh⟩ := Option.isSome_iff_exists.mp hhandler
  refine ⟨_, if_pos hp.ioService, ?_⟩
  simp only [UserProcessor.dispatch, hh, UserHandler.process]
  split
  · simp
  · split <;> simp

end UserSessionProcessor

/-! ## State and steps -/

/-- The statements of `main` that start something. -/
inductive MainStatement where
  | initIoServicePool
  | initLogicIo
  | postInit
  | accept
  | run
  deriving DecidableEq

/-- The statements of `main`, in their order. The last one runs the master thread. -/
def mainStatements : List MainStatement :=
  [.initIoServicePool, .initLogicIo, .postInit, .accept, .run]

/-- The task that `main` posts: it is not posted yet, it waits behind other tasks, or the logic
thread has taken it and has some statements of `Init` left. -/
inductive InitTask where
  | unposted
  | queued (ahead : ℕ)
  | running (rest : List InitStatement)
  deriving DecidableEq

/-- The statements of `Init` that are still ahead. -/
def InitTask.pending : InitTask → List InitStatement
  | .unposted | .queued _ => UserSessionProcessor.init
  | .running rest => rest

/-- The starting server: the statements that `main` still has to execute, the task it posts,
`UserSessionProcessor::Instance()`, and the threads and connections of the server. -/
structure Startup where
  main : List MainStatement := mainStatements
  initTask : InitTask := .unposted
  processor : UserSessionProcessor := {}
  server : GameServer UserBuffer UserBuffer := {}
  aborted : Bool := false

namespace Startup

/-- What a run records: an io thread called `Dispatch`, with the processor that it found, and what
the server does. -/
inductive Obs where
  | dispatched (s : ℕ) (args : ProtoArgs) (p : UserSessionProcessor)
  | server (o : GameServer.Obs UserBuffer UserBuffer)

/-- What can happen next: `main` executes its next statement, or an event of the server. -/
inductive Event where
  | main
  | server (e : GameServer.Event UserBuffer)

/-- The wire of the program while the processor is `p`. -/
def wire (rt : Protobuf UserMsg) (rspData : LoginRsp → Bytes) (p : UserSessionProcessor) :
    Wire UserBuffer UserBuffer :=
  { userWire rt rspData with
    dispatch := fun b => b.outcome.bind fun args => (p.dispatch rt args).bind Prod.snd }

/-- After `Init` it is that of the server. -/
lemma wire_initialised {rt : Protobuf UserMsg} {rspData : LoginRsp → Bytes} :
    wire rt rspData UserSessionProcessor.initialised = userWire rt rspData := rfl

section Step

variable (rt : Protobuf UserMsg) (rspData : LoginRsp → Bytes) (σ : Startup)

/-- The thread of the event runs: the master thread serves the acceptor in the last statement of
`main`, the others are started by the first two. -/
def started : Event → Bool
  | .main => true
  | .server (.accept _) => .run ∉ σ.main
  | .server .logic => .initLogicIo ∉ σ.main
  | .server _ => .initIoServicePool ∉ σ.main

/-- The arguments of `Dispatch`, if the next handler of the connection `s` calls it: `OnReadBody`
on a body that `Decode` accepts. -/
def called (s : ℕ) : Option ProtoArgs :=
  if s < σ.server.logic.accepted then
    (Session.frontBody (σ.server.io s).queue).bind UserBuffer.outcome
  else none

/-- `main` executes its next statement. The task is posted behind those in the queue. -/
def mainStep : Option (Startup × List Obs) :=
  match σ.main with
  | [] => none
  | .postInit :: rest =>
    some ({ σ with main := rest, initTask := .queued σ.server.logic.tasks.length }, [])
  | _ :: rest => some ({ σ with main := rest }, [])

/-- A step of the server with the processor as it is. -/
def serverStep (e : GameServer.Event UserBuffer) : Option (Startup × List Obs) :=
  (σ.server.step (wire rt rspData σ.processor) e).map fun (server, out) =>
    ({ σ with server }, out.map .server)

/-- The logic thread: it takes the task that `main` posted when all tasks ahead of it are done,
executes its statements, and goes on with the next task. -/
def logicStep : Option (Startup × List Obs) :=
  match σ.initTask with
  | .queued 0 => some ({ σ with initTask := .running UserSessionProcessor.init }, [])
  | .queued (ahead + 1) =>
    (serverStep rt rspData σ .logic).map fun (τ, out) => ({ τ with initTask := .queued ahead }, out)
  | .running (a :: rest) =>
    match a.exec σ.processor with
    | some processor => some ({ σ with processor, initTask := .running rest }, [])
    | none => some ({ σ with aborted := true }, [])
  | .unposted | .running [] => serverStep rt rspData σ .logic

/-- An io thread: where its handler calls `Dispatch`, the assertion comes first. -/
def ioStep (s now : ℕ) : Option (Startup × List Obs) :=
  match σ.called s with
  | none => serverStep rt rspData σ (.io s now)
  | some args =>
    match σ.processor.dispatch rt args with
    | none => some ({ σ with aborted := true }, [.dispatched s args σ.processor])
    | some _ => (serverStep rt rspData σ (.io s now)).map fun (τ, out) =>
        (τ, .dispatched s args σ.processor :: out)

/-- One step of the starting server; none after an assertion has failed. -/
def step (σ : Startup) (e : Event) : Option (Startup × List Obs) :=
  if σ.aborted || !σ.started e then none
  else match e with
    | .main => σ.mainStep
    | .server .logic => logicStep rt rspData σ
    | .server (.io s now) => ioStep rt rspData σ s now
    | .server e => serverStep rt rspData σ e

/-- The starting server as a machine. -/
def machine : Machine Startup Event Obs := ⟨{}, step rt rspData⟩

end Step

/-- What the server does in a run. -/
def serverObs (tr : List Obs) : List (GameServer.Obs UserBuffer UserBuffer) := tr.filterMap fun
  | .server o => some o
  | .dispatched .. => none

/-- The records of the server are its own. -/
@[simp] lemma serverObs_map {out : List (GameServer.Obs UserBuffer UserBuffer)} :
    serverObs (out.map .server) = out := by
  simp [serverObs]

/-- No io thread calls `Dispatch` before the logic thread is done with `Init`. -/
def InitFirst (σ : Startup) : Event → Prop
  | .server (.io s _) => (σ.called s).isSome = true → σ.initTask.pending = []
  | .main | .server _ => True

instance {σ : Startup} : (e : Event) → Decidable (InitFirst σ e)
  | .server (.io s _) => inferInstanceAs (Decidable ((σ.called s).isSome = true → _))
  | .main | .server (.accept _) | .server (.readDone ..) | .server (.writeDone ..)
  | .server (.timerDone _) | .server .logic => inferInstanceAs (Decidable True)

/-- Every frame was served: each call of `Dispatch` found the processor ready, a frame with the
name of a message that has a handler was not rejected as `kErrorMsgNotRegister`, and no assertion
failed. -/
structure Serves (rt : Protobuf UserMsg) (tr : List Obs) (σ : Startup) : Prop where
  ready : ∀ s args p, .dispatched s args p ∈ tr → p.Ready
  registered : ∀ s args p, .dispatched s args p ∈ tr →
    args.msgName = loginReqName ∨ args.msgName = pingName →
      ∃ r, p.dispatch rt args = some r ∧ r.1 ≠ .kErrorMsgNotRegister
  running : σ.aborted = false

variable {rt : Protobuf UserMsg} {rspData : LoginRsp → Bytes} {σ σ' : Startup} {tr : List Obs}

/-! ## What a step does -/

/-- What one step of the starting server does. -/
inductive Step (rt : Protobuf UserMsg) (rspData : LoginRsp → Bytes) (σ : Startup) :
    Event → Startup → List Obs → Prop
  | post {rest} (hmain : σ.main = .postInit :: rest) :
      Step rt rspData σ .main
        { σ with main := rest, initTask := .queued σ.server.logic.tasks.length } []
  | main {a rest} (hmain : σ.main = a :: rest) (ha : a ≠ .postInit) :
      Step rt rspData σ .main { σ with main := rest } []
  | take (htask : σ.initTask = .queued 0) :
      Step rt rspData σ (.server .logic)
        { σ with initTask := .running UserSessionProcessor.init } []
  | exec {a rest processor} (htask : σ.initTask = .running (a :: rest))
      (hexec : a.exec σ.processor = some processor) :
      Step rt rspData σ (.server .logic) { σ with processor, initTask := .running rest } []
  | execFails {a rest} (htask : σ.initTask = .running (a :: rest))
      (hexec : a.exec σ.processor = none) :
      Step rt rspData σ (.server .logic) { σ with aborted := true } []
  | ahead {ahead server out} (htask : σ.initTask = .queued (ahead + 1))
      (hserver : σ.server.step (wire rt rspData σ.processor) .logic = some (server, out)) :
      Step rt rspData σ (.server .logic) { σ with server, initTask := .queued ahead }
        (out.map .server)
  | dispatch {s now args server out} (hcalled : σ.called s = some args)
      (hio : σ.processor.ioService = true)
      (hserver : σ.server.step (wire rt rspData σ.processor) (.io s now) = some (server, out)) :
      Step rt rspData σ (.server (.io s now)) { σ with server }
        (.dispatched s args σ.processor :: out.map .server)
  | dispatchFails {s now args} (hcalled : σ.called s = some args)
      (hio : σ.processor.ioService = false) :
      Step rt rspData σ (.server (.io s now)) { σ with aborted := true }
        [.dispatched s args σ.processor]
  | server {e server out} (haccept : ∀ now, e = .accept now → .run ∉ σ.main)
      (hcalled : ∀ s now, e = .io s now → σ.called s = none)
      (hlogic : e = .logic → σ.initTask = .unposted ∨ σ.initTask = .running [])
      (hserver : σ.server.step (wire rt rspData σ.processor) e = some (server, out)) :
      Step rt rspData σ (.server e) { σ with server } (out.map .server)

/-- A step of the server in the program. -/
lemma serverStep_eq_some {e : GameServer.Event UserBuffer} {out : List Obs}
    (h : serverStep rt rspData σ e = some (σ', out)) : ∃ server outs,
      σ.server.step (wire rt rspData σ.processor) e = some (server, outs) ∧
        σ' = { σ with server } ∧ out = outs.map .server := by
  obtain ⟨r, hr, heq⟩ := Option.map_eq_some_iff.mp h
  cases heq
  exact ⟨_, _, hr, rfl, rfl⟩

/-- The main thread takes one of its steps. -/
lemma Step.of_main {out : List Obs} (h : σ.mainStep = some (σ', out)) :
    Step rt rspData σ .main σ' out := by
  unfold mainStep at h
  split at h
  · cases h
  · rename_i hmain
    cases h
    exact .post hmain
  · rename_i hpost hmain
    cases h
    exact .main hmain hpost

/-- So does the logic thread. -/
lemma Step.of_logic {out : List Obs} (h : logicStep rt rspData σ = some (σ', out)) :
    Step rt rspData σ (.server .logic) σ' out := by
  unfold logicStep at h
  split at h
  · cases h
    exact .take ‹_›
  · obtain ⟨⟨τ, outs⟩, hτ, heq⟩ := Option.map_eq_some_iff.mp h
    obtain ⟨server, out, hserver, rfl, rfl⟩ := serverStep_eq_some hτ
    cases heq
    exact .ahead ‹_› hserver
  · split at h
    · cases h
      exact .exec ‹_› ‹_›
    · cases h
      exact .execFails ‹_› ‹_›
  · obtain ⟨server, out, hserver, rfl, rfl⟩ := serverStep_eq_some h
    exact .server (by simp) (by simp) (fun _ => .inl ‹_›) hserver
  · obtain ⟨server, out, hserver, rfl, rfl⟩ := serverStep_eq_some h
    exact .server (by simp) (by simp) (fun _ => .inr ‹_›) hserver

/-- So does an io thread. -/
lemma Step.of_io {s now : ℕ} {out : List Obs} (h : ioStep rt rspData σ s now = some (σ', out)) :
    Step rt rspData σ (.server (.io s now)) σ' out := by
  unfold ioStep at h
  split at h
  · rename_i hcalled
    obtain ⟨server, out, hserver, rfl, rfl⟩ := serverStep_eq_some h
    refine .server (by simp) ?_ (by simp) hserver
    intro t now' heq
    cases heq
    exact hcalled
  · rename_i hcalled
    cases hio : σ.processor.ioService with
    | false =>
      simp only [UserSessionProcessor.dispatch, hio, Bool.false_eq_true, if_false] at h
      cases h
      exact .dispatchFails hcalled hio
    | true =>
      simp only [UserSessionProcessor.dispatch, hio, if_true] at h
      obtain ⟨⟨τ, outs⟩, hτ, heq⟩ := Option.map_eq_some_iff.mp h
      obtain ⟨server, out, hserver, rfl, rfl⟩ := serverStep_eq_some hτ
      cases heq
      exact .dispatch hcalled hio hserver

/-- **What a step can do.** -/
theorem step_cases {e : Event} {out : List Obs} (h : step rt rspData σ e = some (σ', out)) :
    Step rt rspData σ e σ' out := by
  unfold step at h
  split at h
  · cases h
  · rename_i hguard
    cases e with
    | main => exact .of_main h
    | server e =>
      cases e with
      | logic => exact .of_logic h
      | io s now => exact .of_io h
      | accept now =>
        have hrun : .run ∉ σ.main := by
          intro hrun
          exact hguard (by simp [started, hrun])
        obtain ⟨server, out, hserver, rfl, rfl⟩ := serverStep_eq_some h
        exact .server (fun _ _ => hrun) (by simp) (by simp) hserver
      | readDone s result | writeDone s ok | timerDone s =>
        obtain ⟨server, out, hserver, rfl, rfl⟩ := serverStep_eq_some h
        exact .server (by simp) (by simp) (by simp) hserver

/-- After an assertion has failed there is no step. -/
lemma not_aborted {e : Event} {out : List Obs} (h : step rt rspData σ e = some (σ', out)) :
    σ.aborted = false := by
  by_contra hne
  simp [step, hne] at h

/-! ## The order of the startup -/

/-- What holds of the starting server: `main` has some of its statements left; before the last one
there are no connections and no tasks; the task of `main` is the first one of the logic thread; and
its remaining statements make the processor that `Init` is meant to make. -/
structure Consistent (σ : Startup) : Prop where
  main : σ.main <:+ mainStatements
  fresh : .run ∈ σ.main → σ.server.logic.accepted = 0 ∧ σ.server.logic.tasks = []
  unposted : σ.initTask = .unposted ↔ .postInit ∈ σ.main
  queued : ∀ n, σ.initTask = .queued n → n = 0
  pending : σ.initTask.pending <:+ UserSessionProcessor.init
  exec : σ.initTask.pending.foldlM InitStatement.exec σ.processor =
    some UserSessionProcessor.initialised

/-- The initial state. -/
lemma consistent_init : Consistent {} where
  main := List.suffix_rfl
  fresh _ := ⟨rfl, rfl⟩
  unposted := by decide
  queued _ h := by cases h
  pending := List.suffix_rfl
  exec := UserSessionProcessor.foldlM_init

namespace Consistent

/-- The task is posted before the master thread runs. -/
lemma run_mem (hσ : Consistent σ) (h : .postInit ∈ σ.main) : .run ∈ σ.main := by
  obtain ⟨before, hbefore⟩ := hσ.main
  have hlast : (before ++ σ.main).getLast? = some .run := by
    rw [hbefore]
    rfl
  rw [List.getLast?_append_of_ne_nil _ (List.ne_nil_of_mem h)] at hlast
  exact List.mem_of_getLast? hlast

/-- The first task of the logic thread is the one of `main`. -/
lemma tasks_eq_nil (hσ : Consistent σ) (h : σ.initTask = .unposted) :
    σ.server.logic.tasks = [] :=
  (hσ.fresh (hσ.run_mem (hσ.unposted.mp h))).2

/-- `main` goes on with its next statement. -/
lemma suffix_tail (hσ : Consistent σ) {a : MainStatement} {rest : List MainStatement}
    (hmain : σ.main = a :: rest) : rest <:+ mainStatements ∧ a ∉ rest := by
  have hcons : a :: rest <:+ mainStatements := hmain ▸ hσ.main
  have hnodup : (a :: rest).Nodup := hcons.sublist.nodup (by decide)
  exact ⟨(List.suffix_cons _ _).trans hcons, (List.nodup_cons.mp hnodup).1⟩

/-- A step of the server leaves the order of the startup as it is. -/
lemma server (hσ : Consistent σ) {e : GameServer.Event UserBuffer}
    {server : GameServer UserBuffer UserBuffer}
    {out : List (GameServer.Obs UserBuffer UserBuffer)}
    (haccept : ∀ now, e = .accept now → .run ∉ σ.main)
    (hserver : σ.server.step (wire rt rspData σ.processor) e = some (server, out)) :
    Consistent { σ with server } := by
  refine { hσ with fresh := fun hrun => ?_ }
  -- there is nothing to do yet but to accept, which the master thread does
  obtain ⟨haccepted, htasks⟩ := hσ.fresh hrun
  rw [GameServer.step_eq_none haccepted htasks fun now he => haccept now he hrun] at hserver
  cases hserver

/-- The posted task makes progress. -/
lemma running (hσ : Consistent σ) (htask : σ.initTask ≠ .unposted)
    {processor : UserSessionProcessor} {rest : List InitStatement}
    (hpending : rest <:+ UserSessionProcessor.init)
    (hexec : rest.foldlM InitStatement.exec processor =
      some UserSessionProcessor.initialised) :
    Consistent { σ with processor, initTask := .running rest } := by
  have hposted : .postInit ∉ σ.main := fun hmem => htask (hσ.unposted.mpr hmem)
  exact { hσ with
    unposted := by simpa using hposted
    queued := by simp
    pending := hpending
    exec := hexec }

/-- **The step lemma.**

**Proof sketch.** By cases on the step. The main thread goes on to the end of its list, and posts
`Init` on the way, once. The logic thread takes `Init` and runs it one registration after the other,
so that what is pending and what has been registered belong together. As long as it runs, no other
task does. The other steps concern the server alone. -/
theorem step (hσ : Consistent σ) {e : Event} {out : List Obs}
    (h : Startup.step rt rspData σ e = some (σ', out)) : Consistent σ' := by
  have hpending := hσ.pending
  have hexecs := hσ.exec
  cases step_cases h with
  | @post rest hmain =>
    obtain ⟨hsuffix, hnotin⟩ := hσ.suffix_tail hmain
    have hmem : .postInit ∈ σ.main := by simp [hmain]
    have hunposted := hσ.unposted.mpr hmem
    rw [hunposted] at hpending hexecs
    exact {
      main := hsuffix
      fresh := fun _ => hσ.fresh (hσ.run_mem hmem)
      unposted := by simpa using hnotin
      queued := by simp [hσ.tasks_eq_nil hunposted]
      pending := hpending
      exec := hexecs }
  | main hmain ha =>
    refine { hσ with main := (hσ.suffix_tail hmain).1, fresh := fun hrun => ?_, unposted := ?_ }
    · exact hσ.fresh (hmain ▸ List.mem_cons_of_mem _ hrun)
    · rw [hσ.unposted, hmain, List.mem_cons]
      exact or_iff_right (Ne.symm ha)
  | take htask =>
    rw [htask] at hpending hexecs
    exact hσ.running (by simp [htask]) hpending hexecs
  | exec htask hexec =>
    rw [htask] at hpending hexecs
    rw [InitTask.pending, List.foldlM_cons, hexec] at hexecs
    exact hσ.running (by simp [htask]) ((List.suffix_cons _ _).trans hpending) hexecs
  | execFails => exact { hσ with }
  | ahead htask => cases hσ.queued _ htask
  | dispatch _ _ hserver => exact hσ.server (by simp) hserver
  | dispatchFails => exact { hσ with }
  | server haccept _ _ hserver => exact hσ.server haccept hserver

/-- No assertion of the task fails. -/
lemma exec_ne_none (hσ : Consistent σ) {a : InitStatement} {rest : List InitStatement}
    (htask : σ.initTask = .running (a :: rest)) : a.exec σ.processor ≠ none := by
  intro hexec
  have hexecs := hσ.exec
  rw [htask, InitTask.pending, List.foldlM_cons, hexec] at hexecs
  cases hexecs

/-- On the way to `Init` a frame can be dispatched exactly when `Init` is done. -/
lemma ready_iff (hσ : Consistent σ) : σ.processor.Ready ↔ σ.initTask.pending = [] :=
  UserSessionProcessor.ready_iff hσ.pending hσ.exec

/-- After `Init` the processor is the one that it is meant to make. -/
lemma processor_eq (hσ : Consistent σ) (h : σ.initTask.pending = []) :
    σ.processor = UserSessionProcessor.initialised := by
  have hexec := hσ.exec
  rw [h] at hexec
  exact Option.some.inj hexec

end Consistent

/-- In every reachable state the order of the startup holds. -/
theorem consistent_of_run {G : List Obs → Startup → Event → Prop}
    (h : (machine rt rspData).Run G tr σ) : Consistent σ :=
  h.invariant (fun _ σ => Consistent σ) consistent_init
    fun _ _ _ _ _ _ ih _ hstep => ih.step hstep

/-! ## Frames that are served -/

/-- A processor that is ready serves every message that has a handler. -/
lemma serves_iff : Serves rt tr σ ↔
    (∀ s args p, .dispatched s args p ∈ tr → p.Ready) ∧ σ.aborted = false := by
  constructor
  · exact fun h => ⟨h.ready, h.running⟩
  · rintro ⟨hready, hrunning⟩
    exact ⟨hready, fun s args p hp hname => (hready s args p hp).dispatch rt hname, hrunning⟩

/-- A handler that calls a handler of messages asks for the end of `Init`. -/
lemma initFirst_io {s now : ℕ} {args : ProtoArgs} (hcalled : σ.called s = some args) :
    InitFirst σ (.server (.io s now)) ↔ σ.initTask.pending = [] := by
  simp [InitFirst, hcalled]

/-- No other step asks for anything. -/
lemma initFirst_server {e : GameServer.Event UserBuffer}
    (hcalled : ∀ s now, e = .io s now → σ.called s = none) : InitFirst σ (.server e) := by
  cases e with
  | io s now => simp [InitFirst, hcalled s now rfl]
  | accept | readDone | writeDone | timerDone | logic => trivial

/-- **What the order decides.** A step meets it exactly if `Dispatch` finds the processor ready
and no assertion fails. -/
lemma initFirst_iff (hσ : Consistent σ) {e : Event} {out : List Obs}
    (h : step rt rspData σ e = some (σ', out)) : InitFirst σ e ↔
      (∀ s args p, .dispatched s args p ∈ out → p.Ready) ∧ σ'.aborted = false := by
  have hrunning := not_aborted h
  cases step_cases h with
  | post | main | take | exec => simpa [InitFirst] using hrunning
  | execFails htask hexec => exact absurd hexec (hσ.exec_ne_none htask)
  | ahead htask => cases hσ.queued _ htask
  | dispatch hcalled =>
    rw [initFirst_io hcalled, ← hσ.ready_iff]
    constructor
    · refine fun hready => ⟨fun s args p hp => ?_, hrunning⟩
      rcases List.mem_cons.mp hp with heq | hserver
      · cases heq
        exact hready
      · simp at hserver
    · exact fun hout => hout.1 _ _ _ List.mem_cons_self
  | dispatchFails hcalled hio =>
    rw [initFirst_io hcalled, ← hσ.ready_iff]
    constructor
    · intro hready
      rw [hready.ioService] at hio
      cases hio
    · rintro ⟨-, hfalse⟩
      cases hfalse
  | server _ hcalled => exact iff_of_true (initFirst_server hcalled) ⟨by simp, hrunning⟩

/-- **Startup before service.** A run calls `Dispatch` with `io_service_` set and both handlers
registered only, without a failed assertion or a message rejected as `kErrorMsgNotRegister`,
exactly when no io thread calls it before the logic thread is done with `Init`.

**Proof sketch.** The statements of `Init` that are still ahead make the processor that it is
meant to make (`Consistent`). The last one of them registers `PingReqHandle`, which works only if
it is not registered yet: as long as there is one, the processor is not ready. -/
theorem run_initFirst_iff (rt : Protobuf UserMsg) (rspData : LoginRsp → Bytes) (tr : List Obs)
    (σ : Startup) : (machine rt rspData).Run (fun _ σ e => InitFirst σ e) tr σ ↔
      (machine rt rspData).Reach tr σ ∧ Serves rt tr σ := by
  refine Machine.run_iff_reach (fun tr σ => Serves rt tr σ) ⟨by simp, by simp, rfl⟩ ?_
  intro tr σ e σ' out hreach hstep
  rw [serves_iff, serves_iff, initFirst_iff (consistent_of_run hreach) hstep]
  have hrunning := not_aborted hstep
  constructor
  · rintro ⟨hready, hrunning'⟩
    exact ⟨⟨fun s args p hp => hready s args p (List.mem_append_left _ hp), hrunning⟩,
      fun s args p hp => hready s args p (List.mem_append_right _ hp), hrunning'⟩
  · rintro ⟨⟨hready, -⟩, hready', hrunning'⟩
    refine ⟨fun s args p hp => ?_, hrunning'⟩
    rcases List.mem_append.mp hp with hp | hp
    · exact hready s args p hp
    · exact hready' s args p hp

/-- The statements of `main`, then the events `es` of the server. -/
def sampleStartup (es : List (GameServer.Event UserBuffer)) : List Event :=
  mainStatements.map (fun _ => .main) ++ es.map .server

/-- A client whose login arrives after `Init` is served. -/
theorem run_initFirst_login : ∃ tr σ,
    (machine sampleProtobuf fun _ => []).Run (fun _ σ e => InitFirst σ e) tr σ ∧
      σ.server.logic.tasks = [.addSession 0, .loginReq 0 ⟨.kLoginTypeNormal, [117]⟩] ∧
        Serves sampleProtobuf tr σ := by
  obtain ⟨r, hexec, htasks⟩ : ∃ r ∈ (machine sampleProtobuf fun _ => []).exec
      (fun _ σ e => decide (InitFirst σ e)) [] (machine sampleProtobuf fun _ => []).init
      (sampleStartup ([.logic, .logic, .logic, .logic, .accept 0] ++
        sampleReceive 0 1 (sampleLogin [117]))),
      r.2.server.logic.tasks = [.addSession 0, .loginReq 0 ⟨.kLoginTypeNormal, [117]⟩] := by
    decide +kernel
  have hrun := Machine.run_of_exec (fun tr σ e h => of_decide_eq_true h) hexec
  exact ⟨_, _, hrun, htasks, ((run_initFirst_iff _ _ _ _).mp hrun).2⟩

/-- **The defect.** `main` only posts the task, so the login of an early client is dispatched
before the logic thread has executed a statement of it: the assertion fails. -/
theorem serves_fails : ¬ ∀ (tr : List Obs) (σ : Startup),
    (machine sampleProtobuf fun _ => []).Reach tr σ → Serves sampleProtobuf tr σ := by
  obtain ⟨r, hexec, haborted⟩ : ∃ r ∈ (machine sampleProtobuf fun _ => []).exec
      (fun _ _ _ => true) [] (machine sampleProtobuf fun _ => []).init
      (sampleStartup ([.accept 0] ++ sampleReceive 0 1 (sampleLogin [117]))),
      r.2.aborted = true := by
    decide +kernel
  intro h
  have hserves := h _ _ (Machine.run_of_exec (fun _ _ _ _ => trivial) hexec)
  rw [hserves.running] at haborted
  cases haborted

/-! ## After `Init` -/

/-- What a step does to the statements that are ahead: once there are none, none come back. -/
lemma pending_step (hσ : Consistent σ) {e : Event} {out : List Obs}
    (h : step rt rspData σ e = some (σ', out)) (hdone : σ.initTask.pending = []) :
    σ'.initTask.pending = [] := by
  cases step_cases h with
  | post hmain =>
    rw [hσ.unposted.mpr (by simp [hmain])] at hdone
    cases hdone
  | take htask | exec htask | ahead htask =>
    rw [htask] at hdone
    cases hdone
  | main | execFails | dispatch | dispatchFails | server => exact hdone

/-- A task runs after those that were posted before it. -/
lemma pending_of_ran (hσ : Consistent σ) {e : Event} {out : List Obs}
    (h : step rt rspData σ e = some (σ', out)) {d : Done} (hd : .server (.ran d) ∈ out) :
    σ.initTask.pending = [] := by
  cases step_cases h with
  | post | main | take | exec | execFails => simp at hd
  | ahead htask => cases hσ.queued _ htask
  | @dispatch _ _ _ _ outs _ _ hserver =>
    have hran : .ran d ∈ outs := by simpa using hd
    cases GameServer.eq_logic_of_ran hserver hran
  | dispatchFails => simp at hd
  | @server _ _ outs _ _ hlogic hserver =>
    have hran : .ran d ∈ outs := by simpa using hd
    obtain rfl := GameServer.eq_logic_of_ran hserver hran
    rcases hlogic rfl with htask | htask
    · simp [GameServer.step, hσ.tasks_eq_nil htask] at hserver
    · rw [htask]
      rfl

/-- **Tasks come after `Init`.** The task that `main` posts is the first one of the logic thread:
once the logic thread has run any other, `Init` is done. -/
theorem finished_of_ran (h : (machine rt rspData).Reach tr σ) {d : Done}
    (hd : .server (.ran d) ∈ tr) : σ.initTask.pending = [] := by
  refine h.invariant (fun tr σ => .server (.ran d) ∈ tr → σ.initTask.pending = []) (by simp) ?_ hd
  intro tr σ e σ' out hrun ih _ hstep hd
  have hσ := consistent_of_run hrun
  rcases List.mem_append.mp hd with hd | hd
  · exact pending_step hσ hstep (ih hd)
  · exact pending_step hσ hstep (pending_of_ran hσ hstep hd)

/-- The server of a run in which `Init` comes first makes a run of its own. -/
lemma server_of_run (h : (machine rt rspData).Run (fun _ σ e => InitFirst σ e) tr σ) :
    (GameServer.machine (userWire rt rspData)).Reach (serverObs tr) σ.server := by
  refine h.simulate Startup.server _ rfl fun tr σ e σ' out hrun hg hstep => ?_
  change (σ'.server = σ.server ∧ serverObs out = []) ∨ ∃ e', True ∧
    σ.server.step (userWire rt rspData) e' = some (σ'.server, serverObs out)
  have hσ := consistent_of_run hrun
  have hserves := (initFirst_iff hσ hstep).mp hg
  cases step_cases hstep with
  | post | main | take | exec | execFails => exact .inl ⟨rfl, rfl⟩
  | ahead htask => cases hσ.queued _ htask
  | @dispatch s now args server outs hcalled _ hserver =>
    rw [hσ.processor_eq ((initFirst_io hcalled).mp hg), wire_initialised] at hserver
    have hobs : serverObs (.dispatched s args σ.processor :: outs.map .server) = outs :=
      serverObs_map
    exact .inr ⟨.io s now, trivial, by rw [hserver, hobs]⟩
  | dispatchFails => cases hserves.2
  | @server e server outs _ hcalled _ hserver =>
    have hwire : σ.server.step (wire rt rspData σ.processor) e =
        σ.server.step (userWire rt rspData) e := by
      refine GameServer.step_congr fun s now f he hs hfront hdec => ?_
      have hnone := hcalled s now he
      simp only [called, if_pos hs, hfront, Option.bind_some] at hnone
      simp [userWire, hnone] at hdec
    rw [hwire] at hserver
    exact .inr ⟨e, trivial, by rw [hserver, serverObs_map]⟩

/-- **The server after the startup.** A run of the program in which `Init` comes first is a run of
the server, with the same records; and in every such run `Init` is done as soon as the logic thread
has run any task of a session.

**Proof sketch.** The statements of `main` and of `Init` leave the server as it is, and the
processor that they make dispatches like that of the server (`Consistent.processor_eq`). -/
theorem startup_refines (rt : Protobuf UserMsg) (rspData : LoginRsp → Bytes) {tr : List Obs}
    {σ : Startup} (h : (machine rt rspData).Run (fun _ σ e => InitFirst σ e) tr σ) :
    (GameServer.machine (userWire rt rspData)).Reach (serverObs tr) σ.server ∧
      (GameServer.dones (serverObs tr) ≠ [] → σ.initTask.pending = []) := by
  refine ⟨server_of_run h, fun hran => ?_⟩
  obtain ⟨d, hd⟩ := List.exists_mem_of_ne_nil _ hran
  obtain ⟨o, ho, heq⟩ := List.mem_filterMap.mp hd
  cases o with
  | arrived | sent => cases heq
  | ran d' =>
    obtain ⟨o', ho', heq'⟩ := List.mem_filterMap.mp ho
    cases o' with
    | dispatched => cases heq'
    | server o'' =>
      cases heq'
      exact finished_of_ran h.reach ho'

/-- A client logs in after `Init`. -/
theorem startup_refines_login : ∃ (tr : List Obs) (σ : Startup),
    (GameServer.machine (userWire sampleProtobuf fun _ => [])).Reach (serverObs tr) σ.server ∧
      (σ.server.logic.sessions 0).authed = true ∧ σ.initTask.pending = [] := by
  obtain ⟨r, hexec, hran, hauthed⟩ : ∃ r ∈ (machine sampleProtobuf fun _ => []).exec
      (fun _ σ e => decide (InitFirst σ e)) [] (machine sampleProtobuf fun _ => []).init
      (sampleStartup ([.logic, .logic, .logic, .logic, .accept 0] ++
        sampleReceive 0 1 (sampleLogin [117]) ++ [.logic, .logic])),
      (GameServer.dones (serverObs r.1)).length = 2 ∧
        (r.2.server.logic.sessions 0).authed = true := by
    decide +kernel
  have hrun := Machine.run_of_exec (fun tr σ e h => of_decide_eq_true h) hexec
  obtain ⟨hserver, hdone⟩ := startup_refines _ _ hrun
  refine ⟨r.1, r.2, hserver, hauthed, hdone fun hnil => ?_⟩
  rw [hnil] at hran
  cases hran

end Startup

end FightingCard
