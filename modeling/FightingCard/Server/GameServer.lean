import FightingCard.Common.Session
import FightingCard.Common.UserProcessor
import FightingCard.Server.Presence

set_option relaxedAutoImplicit false
set_option autoImplicit false

/-!
# The server

All connections of the server together with the logic thread (`server/gameserver.cpp`,
`server/user_session.cpp`, `server/user_session_processor.cpp`). Every accepted connection is a
`FightingCard.Session` with its own queue of handlers; a handler of a connection may post a task
to the logic thread, and `LoginReqHandle` posts a `Write` task back. The scheduler picks the
next thread, and the network the next completion: a run is one interleaving of all of them.
Connections that share an io thread of the pool have fewer interleavings than that.

What the bytes on a connection mean is a parameter, `FightingCard.Wire`; `FightingCard.userWire`
is its value in the program.

## Main definitions

* `FightingCard.Wire`, `FightingCard.userWire` — the decisions taken on received and sent
  buffers.
* `FightingCard.GameServer` — the state of the server.
* `FightingCard.GameServer.machine` — its steps.
* `FightingCard.GameServer.Obs` — what a run records: the bodies that arrived, the frames that
  were sent and the tasks that the logic thread ran.

## Main results

* `FightingCard.GameServer.logic_of_run` — the logic thread of a run of the server makes a run
  of `FightingCard.LogicIo.machine`.
-/

namespace FightingCard

/-! ## Received and sent buffers -/

/-- The decisions taken on the contents `φ` of a read buffer and the frames `β` that are sent:
`SizeValid` in `OnReadHeader`, `Decode` and `Dispatch` in `OnReadBody`, the latter with the
message whose handler is posted if the result is `kOK`, and the `UserBuffer` made by `SendMsg`. -/
structure Wire (β φ : Type) where
  sizeValid : φ → Bool
  decode : φ → Bool
  dispatch : φ → Option UserMsg
  sendMsg : LoginRsp → β

namespace Wire

variable {β φ : Type} (w : Wire β φ)

/-- The message that `OnReadBody` dispatches, if it accepts the body. -/
def message (f : φ) : Option UserMsg := if w.decode f then w.dispatch f else none

/-- The request in a body that `OnReadBody` dispatches to `LoginReqHandle`. -/
def loginReq (f : φ) : Option LoginReq :=
  (w.message f).bind fun
    | .loginReq req => some req
    | .ping => none

/-- `OnReadHeader` and the return value of `OnReadBody`. -/
def hooks : Session.Hooks φ := ⟨w.sizeValid, fun f => (w.message f).isSome⟩

end Wire

/-- `"game.LoginReq"`. -/
def loginReqName : Bytes := [103, 97, 109, 101, 46, 76, 111, 103, 105, 110, 82, 101, 113]

/-- `"game.Ping"`. -/
def pingName : Bytes := [103, 97, 109, 101, 46, 80, 105, 110, 103]

/-- `"game.LoginRsp"`. -/
def loginRspName : Bytes := [103, 97, 109, 101, 46, 76, 111, 103, 105, 110, 82, 115, 112]

/-- `UserSessionProcessor::Init`. -/
def userSessionProcessor : UserProcessor UserMsg UserMsg :=
  (UserProcessor.addHandler {} ⟨loginReqName, fun
    | .loginReq req => some (.loginReq req)
    | .ping => none⟩).addHandler ⟨pingName, fun
    | .ping => some .ping
    | .loginReq _ => none⟩

/-- The wire of the program, over the protobuf runtime `rt` and the serialization `rspData` of
`game.LoginRsp`. -/
def userWire (rt : Protobuf UserMsg) (rspData : LoginRsp → Bytes) : Wire UserBuffer UserBuffer where
  sizeValid b := b.sizeValid
  decode b := b.outcome.isSome
  dispatch b := b.outcome.bind fun args => (userSessionProcessor.dispatch rt args).2
  sendMsg rsp := UserBuffer.ofMsg ⟨loginRspName, rspData rsp⟩

/-- `OnReadBody` returns `true` exactly when `Decode` accepts the body and the result of
`Dispatch` is `kOK`. -/
lemma onReadBody_userWire_iff {rt : Protobuf UserMsg} {rspData : LoginRsp → Bytes}
    {b : UserBuffer} : (userWire rt rspData).hooks.onReadBody b = true ↔
      ∃ args, b.outcome = some args ∧ (userSessionProcessor.dispatch rt args).1 = .kOK := by
  cases h : b.outcome with
  | none => simp [Wire.hooks, Wire.message, userWire, h]
  | some args => simp [Wire.hooks, Wire.message, userWire, h, UserProcessor.dispatch_eq_kOK_iff]

/-! ## State and steps -/

/-- The server: the logic thread, the connections, and `last_alive_time_` of every session in
seconds. -/
structure GameServer (β φ : Type) where
  logic : LogicIo := {}
  io : ℕ → Session β φ := fun _ => {}
  lastAliveTime : ℕ → ℕ := fun _ => 0

namespace GameServer

variable {β φ : Type}

/-- What a run records: a body arrived, a frame was sent, the logic thread ran a task. -/
inductive Obs (β φ : Type) where
  | arrived (s : ℕ) (f : φ)
  | sent (s : ℕ) (buf : β)
  | ran (d : Done)

/-- What can happen next: a connection is accepted, an outstanding read, write or timer of a
connection completes, an io thread runs the next handler of a connection, or the logic thread
runs its next task. The clock is read when a session is made and when a handler runs. -/
inductive Event (φ : Type) where
  | accept (now : ℕ)
  | readDone (s : ℕ) (result : Option φ)
  | writeDone (s : ℕ) (ok : Bool)
  | timerDone (s : ℕ)
  | io (s : ℕ) (now : ℕ)
  | logic

/-- `CHECK_ALIVE_TIME`. -/
def CHECK_ALIVE_TIME : ℕ := 5

section Step

variable (w : Wire β φ) (s now : ℕ) (σ : GameServer β φ)

/-- The connection `s` replaced by another value. -/
def setIo (x : Session β φ) : GameServer β φ := { σ with io := Function.update σ.io s x }

/-- The condition of `CheckAlive`. -/
def notAlive : Bool :=
  now > σ.lastAliveTime s && now - σ.lastAliveTime s ≥ CHECK_ALIVE_TIME

/-- `DoAccept`: `Init` starts the timer, `OnAccept` posts the registration, `DoReadHeader`
starts reading. The three are one step. Nothing of the connection can run between them on its io
thread, whose first handler is that of the timer after `CHECK_ALIVE_TIME` seconds or that of the
read which is started last, and the registration does not touch the connection. -/
def accept : GameServer β φ :=
  let s := σ.logic.accepted
  { σ.setIo s ((σ.io s).armTimer.asyncRead .header) with
    logic := σ.logic.accept
    lastAliveTime := Function.update σ.lastAliveTime s now }

/-- What a handler of the connection `s` does outside of it: `OnReadBody` notes the time and
posts the handler of its message, `OnClose` and `OnClosed` post their tasks. -/
def signal : Session.Signal β φ → GameServer β φ × List (Obs β φ)
  | .asyncWrite _ => (σ, [])
  | .sent buf => (σ, [.sent s buf])
  | .onReadBody f =>
    if w.decode f then
      let σ := { σ with lastAliveTime := Function.update σ.lastAliveTime s now }
      match w.dispatch f with
      | some msg => ({ σ with logic := σ.logic.post (msg.task s) }, [])
      | none => (σ, [])
    else (σ, [])
  | .onClose => ({ σ with logic := σ.logic.close s }, [])
  | .onClosed => ({ σ with logic := σ.logic.post (.onClosed s) }, [])

/-- The effects of a list of signals, one after the other. -/
def signals (σ : GameServer β φ) : List (Session.Signal β φ) → GameServer β φ × List (Obs β φ)
  | [] => (σ, [])
  | x :: xs =>
    let (σ', out) := signal w s now σ x
    let (σ'', outs) := signals σ' xs
    (σ'', out ++ outs)

/-- The answer that `LoginReqHandle` sends: a `Write` task is posted to the connection. -/
def reply : Done → GameServer β φ
  | .login s _ res => σ.setIo s ((σ.io s).write (w.sendMsg ⟨res⟩))
  | _ => σ

/-- One step of the server. -/
def step (σ : GameServer β φ) : Event φ → Option (GameServer β φ × List (Obs β φ))
  | .accept now => some (σ.accept now, [])
  | .readDone s result =>
    if s < σ.logic.accepted then
      ((σ.io s).completeRead result).map fun x =>
        (σ.setIo s x, ((σ.io s).arrival result).toList.map (.arrived s))
    else none
  | .writeDone s ok =>
    if s < σ.logic.accepted then
      ((σ.io s).completeWrite ok).map fun x => (σ.setIo s x, [])
    else none
  | .timerDone s =>
    if s < σ.logic.accepted then
      (σ.io s).expireTimer.map fun x => (σ.setIo s x, [])
    else none
  | .io s now =>
    if s < σ.logic.accepted then
      ((σ.io s).runHandler w.hooks (σ.notAlive s now)).map fun (x, xs) =>
        (σ.setIo s x).signals w s now xs
    else none
  | .logic =>
    match σ.logic.tasks with
    | [] => none
    | t :: ts =>
      let (logic, d) := { σ.logic with tasks := ts }.runTask t
      some ({ σ with logic }.reply w d, [.ran d])

/-- The server as a machine. -/
def machine : Machine (GameServer β φ) (Event φ) (Obs β φ) := ⟨{}, step w⟩

end Step

/-! ## What a run records -/

/-- The bodies that arrived on `s`. -/
def arrivedOn (s : ℕ) (tr : List (Obs β φ)) : List φ :=
  tr.filterMap fun
    | .arrived t f => if t = s then some f else none
    | _ => none

/-- The frames that were sent on `s`. -/
def sentOn (s : ℕ) (tr : List (Obs β φ)) : List β :=
  tr.filterMap fun
    | .sent t buf => if t = s then some buf else none
    | _ => none

/-- What the logic thread did. -/
def dones (tr : List (Obs β φ)) : List Done :=
  tr.filterMap fun
    | .ran d => some d
    | _ => none

variable {s t now : ℕ} {tr tr' : List (Obs β φ)}

/-- The frames that have arrived in a longer trace. -/
@[simp] lemma arrivedOn_append : arrivedOn s (tr ++ tr') = arrivedOn s tr ++ arrivedOn s tr' :=
  List.filterMap_append

/-- The frames that were sent in a longer trace. -/
@[simp] lemma sentOn_append : sentOn s (tr ++ tr') = sentOn s tr ++ sentOn s tr' :=
  List.filterMap_append

/-- The tasks that were run in a longer trace. -/
@[simp] lemma dones_append : dones (tr ++ tr') = dones tr ++ dones tr' := List.filterMap_append

/-- The records of frames that arrive on a connection. -/
@[simp] lemma arrivedOn_arrived {fs : List φ} :
    arrivedOn t (fs.map (Obs.arrived s) : List (Obs β φ)) = if s = t then fs else [] := by
  induction fs with
  | nil => simp [arrivedOn]
  | cons f fs ih =>
    by_cases h : s = t <;> simp [arrivedOn, h]

/-- What arrives is not sent. -/
@[simp] lemma sentOn_arrived {fs : List φ} :
    sentOn t (fs.map (Obs.arrived s) : List (Obs β φ)) = [] := by
  induction fs with
  | nil => rfl
  | cons f fs ih => simp [sentOn]

/-- What arrives is not a task that was run. -/
@[simp] lemma dones_arrived {fs : List φ} :
    dones (fs.map (Obs.arrived s) : List (Obs β φ)) = [] := by
  induction fs with
  | nil => rfl
  | cons f fs ih => simp [dones]

/-! ## What a step does -/

/-- What the signals `xs` of one handler of the connection `s` do to the logic thread. -/
inductive Signalled (w : Wire β φ) (s : ℕ) (x : Session β φ) (xs : List (Session.Signal β φ))
    (σ : LogicIo) : LogicIo → Prop
  | quiet (hxs : .onClose ∉ xs) : Signalled w s x xs σ σ
  | dispatch {f rest msg} (hqueue : x.queue = .readBody (.ok f) :: rest)
      (hmsg : w.message f = some msg) (hxs : .onClose ∉ xs) :
      Signalled w s x xs σ (σ.post (msg.task s))
  | close (hxs : .onClose ∈ xs) : Signalled w s x xs σ (σ.close s)
  | onClosed (hxs : .onClose ∉ xs) : Signalled w s x xs σ (σ.post (.onClosed s))

/-- What one step of the server does to the logic thread and to what the connections still have
to do. -/
inductive Step (w : Wire β φ) (σ : GameServer β φ) :
    Event φ → GameServer β φ → List (Obs β φ) → Prop
  | accept {now σ'} (hlogic : σ'.logic = σ.logic.accept)
      (hflow : ∀ t, (σ'.io t).flow = (σ.io t).flow) (hext : ∀ t, (σ.io t).Extends (σ'.io t)) :
      Step w σ (.accept now) σ' []
  | readDone {s result σ'} (hs : s < σ.logic.accepted) (hlogic : σ'.logic = σ.logic)
      (hflow : (σ'.io s).flow = { (σ.io s).flow with
        bodies := Session.bodies (σ.io s).queue ++ ((σ.io s).arrival result).toList })
      (hother : ∀ t, t ≠ s → σ'.io t = σ.io t) (hext : ∀ t, (σ.io t).Extends (σ'.io t)) :
      Step w σ (.readDone s result) σ' (((σ.io s).arrival result).toList.map (.arrived s))
  | writeDone {s ok σ'} (hlogic : σ'.logic = σ.logic)
      (hflow : ∀ t, (σ'.io t).flow = (σ.io t).flow) (hext : ∀ t, (σ.io t).Extends (σ'.io t)) :
      Step w σ (.writeDone s ok) σ' []
  | timerDone {s σ'} (hlogic : σ'.logic = σ.logic)
      (hflow : ∀ t, (σ'.io t).flow = (σ.io t).flow) (hext : ∀ t, (σ.io t).Extends (σ'.io t)) :
      Step w σ (.timerDone s) σ' []
  | io {s now h rest y xs σ' out} (hs : s < σ.logic.accepted) (hqueue : (σ.io s).queue = h :: rest)
      (hout : Session.Outcome w.hooks { σ.io s with queue := rest } h y xs)
      (hadv : Session.Advances { σ.io s with queue := rest } h y xs)
      (hsig : (σ.setIo s y).signals w s now xs = (σ', out)) : Step w σ (.io s now) σ' out
  | logic {t ts d σ'} (htasks : σ.logic.tasks = t :: ts)
      (hrun : ({ σ.logic with tasks := ts }.runTask t) = (σ'.logic, d))
      (hreply : σ' = { σ with logic := σ'.logic }.reply w d) : Step w σ .logic σ' [.ran d]

variable {w : Wire β φ} {σ σ' : GameServer β φ}

/-- A connection that changes nothing of its flow changes nothing of any flow. -/
lemma flow_setIo {x : Session β φ} (h : x.flow = (σ.io s).flow) (t : ℕ) :
    ((σ.setIo s x).io t).flow = (σ.io t).flow := by
  by_cases ht : t = s
  · subst ht
    simpa [setIo] using h
  · simp [setIo, ht]

/-- A connection that is extended leaves every connection extended. -/
lemma extends_setIo {x : Session β φ} (h : (σ.io s).Extends x) (t : ℕ) :
    (σ.io t).Extends ((σ.setIo s x).io t) := by
  by_cases ht : t = s
  · subst ht
    simpa [setIo] using h
  · simpa [setIo, ht] using Session.Extends.refl

/-- **What a step can do.**

**Proof sketch.** By cases on the event: each guard of `step` is what the constructor asks for. The
effects on a connection are those of its own operations (`Session.flow_completeRead` and its like),
and a handler is one of `Session.runHandler_cases`. -/
theorem step_cases {e : Event φ} {out : List (Obs β φ)} (h : σ.step w e = some (σ', out)) :
    Step w σ e σ' out := by
  cases e with
  | accept now =>
    cases h
    exact .accept rfl (flow_setIo (by simp)) (extends_setIo
      (Session.extends_armTimer.trans (Session.extends_asyncRead _)))
  | readDone s result =>
    simp only [step] at h
    split at h
    · obtain ⟨x, hx, heq⟩ := Option.map_eq_some_iff.mp h
      cases heq
      refine .readDone ‹_› rfl ?_ (fun t ht => by simp [setIo, ht])
        (extends_setIo (Session.extends_completeRead hx))
      simpa [setIo] using Session.flow_completeRead hx
    · cases h
  | writeDone s ok =>
    simp only [step] at h
    split at h
    · obtain ⟨x, hx, heq⟩ := Option.map_eq_some_iff.mp h
      cases heq
      exact .writeDone rfl (flow_setIo (Session.flow_completeWrite hx))
        (extends_setIo (Session.extends_completeWrite hx))
    · cases h
  | timerDone s =>
    simp only [step] at h
    split at h
    · obtain ⟨x, hx, heq⟩ := Option.map_eq_some_iff.mp h
      cases heq
      exact .timerDone rfl (flow_setIo (Session.flow_expireTimer hx))
        (extends_setIo (Session.extends_expireTimer hx))
    · cases h
  | io s now =>
    simp only [step] at h
    split at h
    · obtain ⟨⟨y, xs⟩, hrun, heq⟩ := Option.map_eq_some_iff.mp h
      obtain ⟨hd, rest, hqueue, hcases⟩ := Session.runHandler_cases hrun
      exact .io ‹_› hqueue hcases.outcome hcases.advances heq
    · cases h
  | logic =>
    simp only [step] at h
    split at h
    · cases h
    · rename_i t ts htasks
      cases h
      have hlogic : ∀ (τ : GameServer β φ) (d : Done), (τ.reply w d).logic = τ.logic := by
        intro τ d
        cases d <;> rfl
      refine .logic htasks ?_ ?_
      · rw [hlogic]
      · rw [hlogic]

/-- Dispatchers that agree on the bodies that are decoded do the same. -/
lemma signals_congr {dispatch : φ → Option UserMsg} {xs : List (Session.Signal β φ)}
    (h : ∀ f, .onReadBody f ∈ xs → w.decode f = true → dispatch f = w.dispatch f) :
    σ.signals { w with dispatch } s now xs = σ.signals w s now xs := by
  induction xs generalizing σ with
  | nil => rfl
  | cons x xs ih =>
    have hx : σ.signal { w with dispatch } s now x = σ.signal w s now x := by
      cases x with
      | onReadBody f =>
        unfold signal
        by_cases hdec : w.decode f = true
        · simp [hdec, h f (by simp) hdec]
        · simp [hdec]
      | asyncWrite | sent | onClose | onClosed => rfl
    simp only [signals, hx, ih fun f hf => h f (List.mem_cons_of_mem _ hf)]

/-- **What a step dispatches.** No other body than the one in the handler that it runs.

**Proof sketch.** By cases on the event. Only a handler dispatches, and only the body that was read.
The hook and the signals of the handler use the dispatcher for this body alone
(`Session.handle_congr`, `signals_congr`). -/
theorem step_congr {dispatch : φ → Option UserMsg} {e : Event φ}
    (h : ∀ s now f, e = .io s now → s < σ.logic.accepted →
      Session.frontBody (σ.io s).queue = some f → w.decode f = true →
        dispatch f = w.dispatch f) :
    σ.step { w with dispatch } e = σ.step w e := by
  cases e with
  | accept | readDone | writeDone | timerDone => rfl
  | logic =>
    simp only [step]
    cases σ.logic.tasks with
    | nil => rfl
    | cons t ts => cases t <;> rfl
  | io s now =>
    simp only [step, Session.runHandler]
    by_cases hs : s < σ.logic.accepted
    · cases hqueue : (σ.io s).queue with
      | nil => rfl
      | cons hd rest =>
        have hbody : ∀ f, hd = .readBody (.ok f) → w.decode f = true →
            dispatch f = w.dispatch f := by
          rintro f rfl
          exact h s now f rfl hs (by rw [hqueue]; rfl)
        have hhandle : ({ σ.io s with queue := rest } : Session β φ).handle
            ({ w with dispatch } : Wire β φ).hooks (σ.notAlive s now) hd =
            ({ σ.io s with queue := rest } : Session β φ).handle w.hooks (σ.notAlive s now) hd := by
          refine Session.handle_congr rfl fun f hf => ?_
          by_cases hdec : w.decode f = true
          · simp [Wire.hooks, Wire.message, hbody f hf hdec]
          · simp [Wire.hooks, Wire.message, hdec]
        simp only [if_pos hs, hhandle, Option.map_some]
        congr 1
        refine signals_congr fun f hf hdec => hbody f ?_ hdec
        exact (Session.handle_cases hd).eq_readBody hf
    · simp only [if_neg hs]

/-- Before the first connection is accepted, and without a task, nothing else can happen. -/
lemma step_eq_none {e : Event φ} (haccepted : σ.logic.accepted = 0) (htasks : σ.logic.tasks = [])
    (he : ∀ now, e ≠ .accept now) : σ.step w e = none := by
  cases e with
  | accept now => exact absurd rfl (he now)
  | logic => simp [step, htasks]
  | readDone | writeDone | timerDone | io => simp [step, haccepted]

/-- The signals of a handler amount to at most one step of the logic thread's environment.

**Proof sketch.** By cases on the outcome of the handler. A body that is accepted is dispatched and
its task posted; one that is rejected, or a failure, is a call of `OnClose`; the task that closes
the socket calls `OnClosed`; and the others have nothing to do with the logic thread. -/
lemma signalled {x y : Session β φ} {h : Handler β φ} {rest : List (Handler β φ)}
    {xs : List (Session.Signal β φ)} {out : List (Obs β φ)} (hqueue : x.queue = h :: rest)
    (hout : Session.Outcome w.hooks { x with queue := rest } h y xs)
    (hsig : σ.signals w s now xs = (σ', out)) :
    Signalled w s x xs σ.logic σ'.logic ∧ dones out = [] := by
  cases hout with
  | queued _ hxs =>
    rcases hxs with rfl | ⟨b, rfl⟩ <;> cases hsig <;> exact ⟨.quiet (by simp), rfl⟩
  | sent _ _ hxs =>
    rcases hxs with rfl | ⟨b, rfl⟩ <;> cases hsig <;> exact ⟨.quiet (by simp), rfl⟩
  | @accepted f _ hacc =>
    obtain ⟨msg, hmsg⟩ := Option.isSome_iff_exists.mp hacc
    have hm := hmsg
    unfold Wire.message at hm
    split at hm
    · rename_i hdec
      simp only [signals, signal, hdec, if_true, hm] at hsig
      cases hsig
      exact ⟨.dispatch hqueue hmsg (by simp), rfl⟩
    · cases hm
  | @rejected f _ hacc =>
    have hm : w.message f = none := by simpa [Wire.hooks] using hacc
    unfold Wire.message at hm
    split at hm
    · rename_i hdec
      simp only [signals, signal, hdec, if_true, hm] at hsig
      cases hsig
      exact ⟨.close (by simp), rfl⟩
    · rename_i hdec
      simp only [signals, signal, hdec] at hsig
      cases hsig
      exact ⟨.close (by simp), rfl⟩
  | other _ _ _ hxs =>
    rcases hxs with rfl | rfl | rfl <;> cases hsig
    · exact ⟨.quiet (by simp), rfl⟩
    · exact ⟨.close (by simp), rfl⟩
    · exact ⟨.onClosed (by simp), rfl⟩

/-- Only the logic thread runs tasks. -/
lemma eq_logic_of_ran {e : Event φ} {out : List (Obs β φ)} {d : Done}
    (h : σ.step w e = some (σ', out)) (hd : .ran d ∈ out) : e = .logic := by
  have hmem : d ∈ dones out := List.mem_filterMap.mpr ⟨_, hd, rfl⟩
  cases step_cases h with
  | logic => rfl
  | io _ hqueue hout _ hsig => simp [(signalled hqueue hout hsig).2] at hmem
  | accept | writeDone | timerDone => simp [dones] at hmem
  | readDone => simp at hmem

/-- **The logic thread of the server.** A run of the server is a run of its logic thread, in
which the io threads are the environment. A guard of the server gives one of the logic thread
when it says enough about the messages dispatched and the tasks run.

**Proof sketch.** A simulation (`Machine.Run.simulate`): an accept and a task are steps of the logic
thread, the signals of a handler one step of its environment at most (`signalled`), and completions
are none. -/
theorem logic_of_run {G : List (Obs β φ) → GameServer β φ → Event φ → Prop}
    {D : LogicIo → ℕ → UserMsg → Prop} {R : List Done → LogicIo → LogicTask → Prop}
    (hD : ∀ tr σ s now f rest msg, G tr σ (.io s now) →
      (σ.io s).queue = .readBody (.ok f) :: rest → w.message f = some msg → D σ.logic s msg)
    (hR : ∀ tr σ t, (machine w).Run G tr σ → G tr σ .logic → t ∈ σ.logic.tasks.head? →
      R (dones tr) σ.logic t)
    (h : (machine w).Run G tr σ) :
    LogicIo.machine.Run (LogicIo.guard D R) (dones tr) σ.logic := by
  refine h.simulate GameServer.logic _ rfl fun tr σ e σ' out hrun hg hstep => ?_
  change (_ ∧ dones out = []) ∨ ∃ e', LogicIo.guard D R (dones tr) σ.logic e' ∧
    LogicIo.step σ.logic e' = some (σ'.logic, dones out)
  cases step_cases hstep with
  | accept hlogic => exact .inr ⟨.accept, trivial, by rw [hlogic]; rfl⟩
  | readDone _ hlogic => exact .inl ⟨hlogic, dones_arrived⟩
  | writeDone hlogic | timerDone hlogic => exact .inl ⟨hlogic, rfl⟩
  | @io s now h rest y xs _ _ hs hqueue hout _ hsig =>
    obtain ⟨hsignal, hdones⟩ := signalled hqueue hout hsig
    rw [hdones]
    generalize σ'.logic = τ at hsignal
    cases hsignal with
    | quiet => exact .inl ⟨rfl, rfl⟩
    | @dispatch f rest msg hq hmsg =>
      exact .inr ⟨.dispatch s msg, hD _ _ _ _ _ _ _ hg hq hmsg, if_pos hs⟩
    | close => exact .inr ⟨.close s, trivial, if_pos hs⟩
    | onClosed => exact .inr ⟨.onClosed s, trivial, if_pos hs⟩
  | @logic t ts d _ htasks hrunTask =>
    have ht : t ∈ σ.logic.tasks.head? := by simp [htasks]
    refine .inr ⟨.run, fun u hu => ?_, ?_⟩
    · cases (Option.mem_unique ht hu)
      exact hR _ _ _ hrun hg ht
    · simp [LogicIo.step, htasks, hrunTask, dones]

/-- Whatever is asked of the run of the server, its logic thread makes a run. -/
lemma logic_reach {G : List (Obs β φ) → GameServer β φ → Event φ → Prop}
    (h : (machine w).Run G tr σ) : LogicIo.machine.Reach (dones tr) σ.logic := by
  have hrun := logic_of_run (D := fun _ _ _ => True) (R := fun _ _ _ => True)
    (fun _ _ _ _ _ _ _ _ _ _ => trivial) (fun _ _ _ _ _ _ => trivial) h
  exact hrun.reach

end GameServer

/-! ## Computed runs -/

/-- A protobuf runtime for runs that are computed: it knows the two messages with a handler, and
reads a request that consists of a `uid` field with a one-byte length. -/
def sampleProtobuf : Protobuf UserMsg where
  createMessage name :=
    if name = loginReqName then some (.loginReq {})
    else if name = pingName then some .ping
    else none
  parseFromArray
    | .loginReq _, 18 :: _ :: uid, _ => (true, .loginReq { uid })
    | msg, _, _ => (true, msg)

/-- The wire of the program over `sampleProtobuf`; a reply has its `result` field only. -/
def sampleWire : Wire UserBuffer UserBuffer :=
  userWire sampleProtobuf fun
    | ⟨.kLoginResSuccess⟩ => [8, 0]
    | ⟨.kLoginResQueue⟩ => [8, 1]
    | ⟨.kLoginResError⟩ => [8, 2]
    | ⟨.kLoginResLogined⟩ => [8, 3]

/-- The frame of a request for `uid`. -/
def sampleLogin (uid : Bytes) : UserBuffer :=
  .ofMsg ⟨loginReqName, 18 :: UInt8.ofNat uid.length :: uid⟩

/-- The frame `f` arrives on `s` and is handled at time `now`: its header, then its body. -/
def sampleReceive (s now : ℕ) (f : UserBuffer) : List (GameServer.Event UserBuffer) :=
  [.readDone s (some f), .io s now, .readDone s (some f), .io s now]

/-- The request is read back from its frame. -/
example : sampleWire.message (sampleLogin [117]) = some (.loginReq ⟨.kLoginTypeNormal, [117]⟩) := by
  decide +kernel

end FightingCard
