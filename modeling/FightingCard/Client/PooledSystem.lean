import FightingCard.Server.Pool
import FightingCard.Client.LoggedIn

set_option relaxedAutoImplicit false
set_option autoImplicit false

/-!
# The system on the pool of io threads

The users of one client process with the server as it is in the program, on the io services of its
pool. `FightingCard.System` has the server with a queue for every connection; here is that nothing
is lost by that. Every run of the whole program is a run of the system, under any condition on the
steps. In the other direction the runs may differ, since a handler waits for those in front of it,
but not where everything has come to rest: as long as `async_accept` has not failed, a program in
which no thread has anything left to do is a system in which nothing is left to do.

## Main definitions

* `FightingCard.PooledSystem` — the users and the server on its pool.
* `FightingCard.PooledSystem.view` — the system without the pool.

## Main results

* `FightingCard.PooledSystem.step_view` — a step is one of the system, unless it does not show.
* `FightingCard.PooledSystem.stuck_view`, `FightingCard.PooledSystem.stuck_of_view` — a program at
  rest is a system at rest, and the other way round.
* `FightingCard.PooledSystem.system_refines` — the program refines the system.
-/

namespace FightingCard

/-! ## Steps behind other handlers -/

namespace GameServer

variable {β φ : Type} {w : Wire β φ} {σ : GameServer β φ} {q : ℕ → List (Handler β φ)}

/-- Handlers in front do not make a step possible that runs none. -/
lemma step_behind_eq_none {e : Event φ} (he : ∀ s now, e ≠ .io s now)
    (h : σ.step w e = none) : (σ.behind q).step w e = none := by
  have hlogic : (σ.behind q).logic = σ.logic := rfl
  have hio : ∀ s, (σ.behind q).io s = (σ.io s).behind (q s) := fun _ => rfl
  cases e with
  | accept now => cases h
  | io s now => exact absurd rfl (he s now)
  | readDone s _ | writeDone s _ | timerDone s =>
    simp only [step, hlogic, hio, Session.completeRead_behind, Session.completeWrite_behind,
      Session.expireTimer_behind] at h ⊢
    split
    · rw [if_pos ‹_›, Option.map_eq_none_iff] at h
      rw [h]
      rfl
    · rfl
  | logic =>
    simp only [step, hlogic] at h ⊢
    split
    · rfl
    · rename_i htasks
      rw [htasks] at h
      cases h

end GameServer

/-- Only an accept is an accept. -/
lemma PooledServer.event_ne_accept {β φ : Type} {σ : PooledServer β φ} {e : PooledServer.Event φ}
    {e' : GameServer.Event φ} (he : ∀ now, e ≠ .accept now) (he' : e' ∈ σ.event e) (now : ℕ) :
    e' ≠ .accept now := by
  rintro rfl
  cases e with
  | accept now => exact he now rfl
  | io i t =>
    obtain ⟨p, -, heq⟩ := Option.map_eq_some_iff.mp he'
    cases heq
  | acceptError | readDone | writeDone | timerDone | logic => cases he'

/-- A step of the server other than an accept is one of the system. -/
lemma System.step_server {rt : Protobuf UserMsg} {rtRsp : Protobuf LoginRsp}
    {reqData : LoginReq → Bytes} {rspData : LoginRsp → Bytes} {uidFrom uidTo : ℤ} {σ : System}
    {e : GameServer.Event UserBuffer} {server out} (he : ∀ now, e ≠ .accept now)
    (h : σ.server.step (userWire rt rspData) e = some (server, out)) :
    σ.step rt rtRsp reqData rspData uidFrom uidTo (.server e) =
      some ({ σ with server }, out.map .server) := by
  cases e with
  | accept now => exact absurd rfl (he now)
  | readDone | writeDone | timerDone | io | logic =>
    rw [step, h]
    · rfl
    · exact he

/-! ## The program -/

/-- The server on its pool, and the users as in `FightingCard.System`. -/
structure PooledSystem where
  server : PooledServer UserBuffer UserBuffer
  started : ℕ := 0
  clients : ℕ → ClientUser := fun _ => {}
  peers : List ℕ := []

namespace PooledSystem

open FightingCard.System (Obs Works sampleReqProtobuf sampleTypedReqData sampleRspData)

/-- What can happen next: `main` makes the next user, the server accepts the connection of a user,
something else happens in the server, or in a user. -/
inductive Event where
  | start
  | accept (c now : ℕ)
  | server (e : PooledServer.Event UserBuffer)
  | client (c : ℕ) (e : ClientUser.Event)

section Step

variable (rt : Protobuf UserMsg) (rtRsp : Protobuf LoginRsp) (reqData : LoginReq → Bytes)
variable (rspData : LoginRsp → Bytes) (uidFrom uidTo : ℤ)

/-- One step of the program. -/
def step (σ : PooledSystem) : Event → Option (PooledSystem × List Obs)
  | .start => if uidFrom + σ.started ≤ uidTo then
      some ({ σ with started := σ.started + 1 }, []) else none
  | .accept c now =>
    if c < σ.started ∧ c ∉ σ.peers then
      (σ.server.step (userWire rt rspData) (.accept now)).map fun (server, out) =>
        ({ σ with server, peers := σ.peers ++ [c] }, out.map .server)
    else none
  | .server (.accept _) => none
  | .server e => (σ.server.step (userWire rt rspData) e).map fun (server, out) =>
      ({ σ with server }, out.map .server)
  | .client c e =>
    if c < σ.started then
      ((σ.clients c).step rtRsp reqData (System.uid uidFrom c) e).map fun (client, out) =>
        ({ σ with clients := Function.update σ.clients c client }, out.map (.client c))
    else none

/-- The program with a pool of the given size. -/
def machine (size : ℕ) : Machine PooledSystem Event Obs :=
  ⟨{ server := (PooledServer.machine (userWire rt rspData) size).init },
    step rt rtRsp reqData rspData uidFrom uidTo⟩

end Step

/-- The system, in which every connection has a queue of its own. -/
def view (σ : PooledSystem) : System :=
  { server := σ.server.view, started := σ.started, clients := σ.clients, peers := σ.peers }

/-- The step of the system that a step of the program is, if it is one. -/
def event (σ : PooledSystem) : Event → Option System.Event
  | .start => some .start
  | .accept c now => some (.accept c now)
  | .server e => (σ.server.event e).map .server
  | .client c e => some (.client c e)

/-- A step that the program does not wait for: another user is made, a timer expires, or
`async_accept` fails. -/
def Event.spontaneous : Event → Bool
  | .start | .server .acceptError | .server (.timerDone _) | .client _ .timerDone => true
  | _ => false

variable {rt : Protobuf UserMsg} {rtRsp : Protobuf LoginRsp} {reqData : LoginReq → Bytes}
  {rspData : LoginRsp → Bytes} {uidFrom uidTo : ℤ} {size : ℕ}
  {tr : List Obs} {σ σ' : PooledSystem}

/-- **Every step is a step of the system**, but for an accept that fails: it does not show.

**Proof sketch.** A step of the server is one of the server with the queues taken apart
(`PooledServer.Placed.step`), and in the users and in `main` the two agree. -/
theorem step_view {e : Event} {out : List Obs} (hplaced : σ.server.Placed)
    (hwf : σ.server.server.logic.WellFormed)
    (h : σ.step rt rtRsp reqData rspData uidFrom uidTo e = some (σ', out)) :
    σ'.server.Placed ∧ (e = .server .acceptError ∧ σ'.view = σ.view ∧ out = [] ∨
      ∃ e' ∈ σ.event e,
        σ.view.step rt rtRsp reqData rspData uidFrom uidTo e' = some (σ'.view, out)) := by
  cases e with
  | start =>
    simp only [step] at h
    split at h
    · rename_i huid
      cases h
      refine ⟨hplaced, .inr ⟨.start, rfl, ?_⟩⟩
      rw [System.step, view, if_pos huid]
      rfl
    · cases h
  | accept c now =>
    simp only [step] at h
    split at h
    · rename_i hc
      obtain ⟨⟨server, out'⟩, hserver, heq⟩ := Option.map_eq_some_iff.mp h
      cases heq
      obtain ⟨hplaced', hshows⟩ := hplaced.step hwf hserver
      rcases hshows with ⟨herror, -⟩ | ⟨e', he', hview⟩
      · cases herror
      · cases he'
        obtain ⟨haccept, rfl⟩ := Prod.mk.inj (Option.some.inj hview)
        refine ⟨hplaced', .inr ⟨.accept c now, rfl, ?_⟩⟩
        rw [System.step, view, if_pos hc, view, ← haccept]
        rfl
    · cases h
  | server e =>
    have hmap : (∀ now, e ≠ .accept now) ∧
        (σ.server.step (userWire rt rspData) e).map (fun r =>
          ({ σ with server := r.1 }, r.2.map Obs.server)) = some (σ', out) := by
      cases e with
      | accept now => cases h
      | acceptError | readDone | writeDone | timerDone | io | logic =>
        exact ⟨(fun now heq => by cases heq), h⟩
    obtain ⟨he, hmap⟩ := hmap
    obtain ⟨⟨server, out'⟩, hserver, heq⟩ := Option.map_eq_some_iff.mp hmap
    cases heq
    obtain ⟨hplaced', hshows⟩ := hplaced.step hwf hserver
    rcases hshows with ⟨rfl, hview, rfl⟩ | ⟨e', he', hview⟩
    · refine ⟨hplaced', .inl ⟨rfl, ?_, rfl⟩⟩
      rw [view, hview]
      rfl
    · exact ⟨hplaced', .inr ⟨.server e', Option.mem_map_of_mem _ he', System.step_server
        (σ := σ.view) (PooledServer.event_ne_accept he he') hview⟩⟩
  | client c e =>
    simp only [step] at h
    split at h
    · rename_i hc
      obtain ⟨⟨client, out'⟩, hclient, heq⟩ := Option.map_eq_some_iff.mp h
      cases heq
      refine ⟨hplaced, .inr ⟨.client c e, rfl, ?_⟩⟩
      simp [System.step, view, hc, hclient]
    · cases h

/-- What a run of the system keeps true of the logic thread. -/
lemma wellFormed_of_run {G : List Obs → System → System.Event → Prop}
    (h : (System.machine rt rtRsp reqData rspData uidFrom uidTo).Run G tr σ.view) :
    σ.view.server.logic.WellFormed := by
  have hserver := System.server_of_run (H := fun _ _ _ => True) (fun _ _ _ => trivial)
    (fun _ _ _ _ _ _ => trivial) h
  exact LogicIo.wellFormed_of_run (GameServer.logic_reach hserver)

/-- A run of the program is a run of the system. A condition on the steps of the system is met by
the steps of the program that are steps of the system. -/
theorem refines_of_run {G : List Obs → System → System.Event → Prop}
    (h : (machine rt rtRsp reqData rspData uidFrom uidTo size).Run
      (fun tr σ e => ∀ e' ∈ σ.event e, G tr σ.view e') tr σ) :
    σ.server.Placed ∧ (System.machine rt rtRsp reqData rspData uidFrom uidTo).Run G tr σ.view := by
  have hview : (PooledServer.machine (userWire rt rspData) size).init.view = {} :=
    PooledServer.view_doAccept.trans rfl
  have hinit : (machine rt rtRsp reqData rspData uidFrom uidTo size).init.view =
      (System.machine rt rtRsp reqData rspData uidFrom uidTo).init :=
    congrArg (fun server => ({ server } : System)) hview
  refine h.invariant (fun tr σ => σ.server.Placed ∧
    (System.machine rt rtRsp reqData rspData uidFrom uidTo).Run G tr σ.view) ⟨?_, ?_⟩ ?_
  · have hstart : (PooledServer.machine (userWire rt rspData) size).Reach []
        (PooledServer.machine (userWire rt rspData) size).init := .nil
    exact (PooledServer.view_reach hstart).1
  · rw [hinit]
    exact .nil
  · intro tr σ e σ' out _ ih hg hstep
    obtain ⟨hplaced, hrun⟩ := ih
    obtain ⟨hplaced', ⟨-, hview, rfl⟩ | ⟨e', he', hview⟩⟩ :=
      step_view hplaced (wellFormed_of_run hrun) hstep
    · rw [List.append_nil, hview]
      exact ⟨hplaced', hrun⟩
    · exact ⟨hplaced', .snoc hrun (hg e' he') hview⟩

/-! ## At rest -/

/-- Nothing is possible any more but what the program does not wait for. -/
def Stuck (rt : Protobuf UserMsg) (rtRsp : Protobuf LoginRsp) (reqData : LoginReq → Bytes)
    (rspData : LoginRsp → Bytes) (uidFrom uidTo : ℤ) (tr : List Obs) (σ : PooledSystem) : Prop :=
  ∀ e : Event, e.spontaneous = false → (∀ e' ∈ σ.event e, Works tr σ.view e') →
    σ.step rt rtRsp reqData rspData uidFrom uidTo e = none

/-- No io thread has a handler left. -/
lemma Stuck.queues (hstuck : Stuck rt rtRsp reqData rspData uidFrom uidTo tr σ)
    (hplaced : σ.server.Placed) (i : ℕ) : σ.server.queues i = [] := by
  cases hqueue : σ.server.queues i with
  | nil => rfl
  | cons p rest =>
    obtain ⟨s, hd⟩ := p
    have hs : s < σ.server.server.logic.accepted :=
      hplaced.accepted i (s, hd) (hqueue ▸ List.mem_cons_self)
    -- the session is alive at the time when it was heard of
    have hnone := hstuck (.server (.io i (σ.server.server.lastAliveTime s))) rfl (fun e' he' => by
      have heq : e' = .server (.io s (σ.server.server.lastAliveTime s)) := by
        simpa [event, PooledServer.event, hqueue] using he'.symm
      subst heq
      refine ⟨trivial, ?_⟩
      simp [System.Reliable, GameServer.notAlive, view, PooledServer.view, GameServer.behind])
    simp [step, PooledServer.step, hqueue, PooledServer.serverStep, PooledServer.take,
      GameServer.step, GameServer.setIo, hs, Session.runHandler] at hnone

/-- **A program at rest is a system at rest**, as long as the server accepts.

**Proof sketch.** By cases on the step that the system would have. One that runs no handler is
possible in the program as well, since handlers in front do not matter to it
(`GameServer.step_behind_eq_none`). One that runs a handler is not possible, as all shared queues
are empty (`Stuck.queues`). The server accepts, so that a new connection is possible in both. -/
theorem stuck_view (hplaced : σ.server.Placed) (haccepting : σ.server.accepting.isSome)
    (hstuck : Stuck rt rtRsp reqData rspData uidFrom uidTo tr σ) :
    System.Stuck rt rtRsp reqData rspData uidFrom uidTo tr σ.view := by
  intro e he hworks
  by_contra hsome
  obtain ⟨⟨system, out⟩, hstep⟩ := Option.ne_none_iff_exists'.mp hsome
  -- a step of the server that runs no handler is possible behind others only if it is so alone
  have server : ∀ {s : ℕ} {e : PooledServer.Event UserBuffer} {e' : GameServer.Event UserBuffer}
      {r : GameServer UserBuffer UserBuffer × List (GameServer.Obs UserBuffer UserBuffer)},
      (∀ s now, e' ≠ .io s now) → (Event.server e).spontaneous = false →
      (∀ e'' ∈ σ.event (.server e), Works tr σ.view e'') →
      σ.step rt rtRsp reqData rspData uidFrom uidTo (.server e) =
        (σ.server.serverStep (userWire rt rspData) s e').map (fun r =>
          ({ σ with server := r.1 }, r.2.map Obs.server)) →
      σ.server.view.step (userWire rt rspData) e' = some r → False := by
    intro s e e' r hio hspontaneous hworks hpooled hview
    have hnone := hstuck (.server e) hspontaneous hworks
    rw [hpooled, Option.map_eq_none_iff, PooledServer.serverStep, Option.map_eq_none_iff] at hnone
    cases hview.symm.trans (GameServer.step_behind_eq_none hio hnone)
  cases System.step_cases hstep with
  | start => cases he
  | @accept c now hc hnew =>
    obtain ⟨i, hi⟩ := Option.isSome_iff_exists.mp haccepting
    have hnone := hstuck (.accept c now) rfl (fun e' he' => by cases he'; exact hworks)
    simp [step, PooledServer.step, hi, show c < σ.started from hc,
      show c ∉ σ.peers from hnew] at hnone
  | @server e _ _ haccept hserver =>
    cases e with
    | accept now => exact haccept now rfl
    | readDone s result =>
      exact server (e := .readDone s result) (by simp) rfl
        (fun e' he' => by cases he'; exact hworks) rfl hserver
    | writeDone s ok =>
      exact server (e := .writeDone s ok) (by simp) rfl
        (fun e' he' => by cases he'; exact hworks) rfl hserver
    | timerDone s => cases he
    | io s now =>
      cases GameServer.step_cases hserver with
      | io _ hqueue =>
        simp [view, PooledServer.view, GameServer.behind, Session.behind, hstuck.queues hplaced,
          PooledServer.handlersOf, hplaced.flushed s] at hqueue
    | logic =>
      cases htasks : σ.server.server.logic.tasks with
      | nil =>
        have hview : σ.server.view.logic.tasks = [] := htasks
        have hnone : σ.server.view.step (userWire rt rspData) .logic = none := by
          simp [GameServer.step, hview]
        cases hserver.symm.trans hnone
      | cons t ts =>
        refine server (s := t.session) (e := .logic) (by simp) rfl
          (fun e' he' => by cases he'; exact hworks) ?_ hserver
        simp [step, PooledServer.step, htasks]
  | @client c e _ _ hc hclient =>
    have hwaited : (Event.client c e).spontaneous = false := by
      cases e <;> first | rfl | cases he
    have hnone := hstuck (.client c e) hwaited (fun e' he' => by cases he'; exact hworks)
    rw [step, if_pos (show c < σ.started from hc), Option.map_eq_none_iff] at hnone
    cases hclient.symm.trans hnone

/-- What the program waits for, the system waits for as well. -/
lemma spontaneous_event {e : Event} {e' : System.Event} (he : e.spontaneous = false)
    (he' : e' ∈ σ.event e) : e'.spontaneous = false := by
  cases e with
  | start => cases he
  | accept c now =>
    cases he'
    rfl
  | client c e =>
    cases he'
    cases e <;> first | rfl | cases he
  | server e =>
    obtain ⟨e'', he'', rfl⟩ := Option.map_eq_some_iff.mp he'
    cases e with
    | acceptError | timerDone => cases he
    | io i now =>
      obtain ⟨p, -, rfl⟩ := Option.map_eq_some_iff.mp he''
      rfl
    | accept | readDone | writeDone | logic =>
      cases he''
      rfl

/-- **And the other way round**: where the system is at rest, so is the program. -/
theorem stuck_of_view (hplaced : σ.server.Placed) (hwf : σ.server.server.logic.WellFormed)
    (hstuck : System.Stuck rt rtRsp reqData rspData uidFrom uidTo tr σ.view) :
    Stuck rt rtRsp reqData rspData uidFrom uidTo tr σ := by
  intro e he hworks
  by_contra hsome
  obtain ⟨⟨σ', out⟩, hstep⟩ := Option.ne_none_iff_exists'.mp hsome
  obtain ⟨-, ⟨rfl, -⟩ | ⟨e', he', hview⟩⟩ := step_view hplaced hwf hstep
  · cases he
  · cases hview.symm.trans (hstuck e' (spontaneous_event he he') (hworks e' he'))

/-- **The program refines the system.** Every run of the program, with the server on a pool of any
size, is a run of the system with the same records, under any condition on the steps; and if nothing
is left to do in the program while it waits for another connection, nothing is left to do in the
system.

**Proof sketch.** A step of a shared queue is one of the queues taken apart
(`PooledServer.Placed.step`), and where all of the shared queues are empty, so are the others. -/
theorem system_refines {G : List Obs → System → System.Event → Prop}
    (h : (machine rt rtRsp reqData rspData uidFrom uidTo size).Run
      (fun tr σ e => ∀ e' ∈ σ.event e, G tr σ.view e') tr σ) :
    (System.machine rt rtRsp reqData rspData uidFrom uidTo).Run G tr σ.view ∧
      (σ.server.accepting.isSome → Stuck rt rtRsp reqData rspData uidFrom uidTo tr σ →
        System.Stuck rt rtRsp reqData rspData uidFrom uidTo tr σ.view) := by
  obtain ⟨hplaced, hrun⟩ := refines_of_run h
  exact ⟨hrun, stuck_view hplaced⟩

/-- The login of an accepted user on one io service: the request is sent, received and answered,
and the answer is received and handled. -/
def sampleExchange (c : ℕ) (uid : Bytes) : List Event :=
  let request := ClientUser.frame sampleTypedReqData (.loginReq ⟨.kLoginTypeNormal, uid⟩)
  let reply := (userWire sampleReqProtobuf sampleRspData).sendMsg ⟨.kLoginResSuccess⟩
  [.client c (.io 0), .client c (.writeDone true), .client c (.io 0),
    .server (.readDone c (some request)), .server (.io 0 1),
    .server (.readDone c (some request)), .server (.io 0 1), .server .logic, .server (.io 0 1),
    .server (.writeDone c true), .server (.io 0 1), .client c (.readDone (some reply)),
    .client c (.io 1), .client c (.readDone (some reply)), .client c (.io 1), .client c .task]

/-- Two users whose connections share an io service log in, and the program comes to rest. -/
theorem system_refines_two : ∃ (tr : List Obs) (σ : PooledSystem),
    (System.machine sampleReqProtobuf ClientUser.sampleRspProtobuf sampleTypedReqData sampleRspData
      10 11).Run Works tr σ.view ∧ σ.server.accepting = some 0 ∧
    Stuck sampleReqProtobuf ClientUser.sampleRspProtobuf sampleTypedReqData sampleRspData
      10 11 tr σ ∧
    System.Stuck sampleReqProtobuf ClientUser.sampleRspProtobuf sampleTypedReqData sampleRspData
      10 11 tr σ.view ∧
    σ.view.server.logic.Online 0 ∧ σ.view.server.logic.Online 1 := by
  obtain ⟨r, hexec, hquiet, haccepting, honline⟩ : ∃ r ∈ (machine sampleReqProtobuf
      ClientUser.sampleRspProtobuf sampleTypedReqData sampleRspData 10 11 1).exec
      (fun tr σ e => decide (∀ e' ∈ σ.event e, Works tr σ.view e')) []
      (machine sampleReqProtobuf ClientUser.sampleRspProtobuf sampleTypedReqData sampleRspData
        10 11 1).init
      ([.start, .start, .client 0 (.connectDone 0 true), .client 1 (.connectDone 0 true),
        .accept 0 0, .accept 1 0, .server .logic, .server .logic] ++
        sampleExchange 0 [49, 48] ++ sampleExchange 1 [49, 49]),
      System.Quiet r.1 r.2.view ∧ r.2.server.accepting = some 0 ∧
        r.2.view.server.logic.Online 0 ∧ r.2.view.server.logic.Online 1 := by
    decide +kernel
  have hrun := Machine.run_of_exec
    (G := fun tr (σ : PooledSystem) e => ∀ e' ∈ σ.event e, Works tr σ.view e')
    (fun tr σ e h => of_decide_eq_true h) hexec
  obtain ⟨hplaced, hview⟩ := refines_of_run hrun
  have hstuck : Stuck sampleReqProtobuf ClientUser.sampleRspProtobuf sampleTypedReqData
      sampleRspData 10 11 r.1 r.2 :=
    stuck_of_view hplaced (wellFormed_of_run hview) (System.stuck_of_quiet hquiet)
  have hsystem := system_refines hrun
  exact ⟨r.1, r.2, hsystem.1, haccepting, hstuck,
    hsystem.2 (by rw [haccepting]; rfl) hstuck, honline⟩

end PooledSystem

end FightingCard
