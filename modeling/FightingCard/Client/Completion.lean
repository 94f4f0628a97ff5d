import Mathlib.Algebra.BigOperators.Fin
import Mathlib.Algebra.Order.BigOperators.Group.Finset
import FightingCard.Server.Progress
import FightingCard.Client.LoggedIn

set_option relaxedAutoImplicit false
set_option autoImplicit false

/-!
# Logins are completed

A system without failures does not run forever between two timers. Everything that is to be done
has a price that covers the prices of all that it leads to: making a user pays for its connection,
its login and the answer to it, and a timer that expires pays for its handler and, on the side of
the user, for a ping and its way through the server. Every step costs something, so that the
number of steps is bounded by the users that were made and the timers that have expired, however
the threads and the network take turns.

## Main definitions

* `FightingCard.ClientUser.load`, `FightingCard.GameServer.budget`, `FightingCard.System.budget` —
  what there is to do.
* `FightingCard.System.Event.gain` — what a new user or a timer brings in.

## Main results

* `FightingCard.ClientUser.load_step`, `FightingCard.GameServer.budget_step`,
  `FightingCard.System.budget_step` — every step costs something.
* `FightingCard.System.budget_nonneg` — what was brought in is not used up twice.
* `FightingCard.System.comes_to_rest` — the number of steps of a run.
-/

namespace FightingCard

/-! ## A user -/

namespace ClientUser

open Session (Prices price posted bodies)

variable {rt : Protobuf LoginRsp} {reqData : LoginReq → Bytes} {uid : Bytes}
  {tr out : List Obs} {σ σ' : ClientUser}

/-- The prices of a user: a body leads to a task, the timer to a ping. -/
def prices : Prices := ⟨7, 43⟩

/-- How many frames the user has handed over: sent, held or posted. -/
def handed (tr : List Obs) (σ : ClientUser) : ℕ :=
  (sentOf tr).length + σ.io.writeBufs.length + (posted σ.io.queue).length

/-- What a user still has to do, and what the frames that it has handed over lead to. A body that
has arrived was paid for by the server. -/
def load (tr : List Obs) (σ : ClientUser) : ℤ :=
  (if σ.connecting then 44 else 0) + σ.io.price prices + σ.tasks.length + 28 * handed tr σ -
    8 * (arrivedOf tr).length

/-- What a timer that expires brings in. -/
def Event.gain : Event → ℕ
  | .timerDone => 44
  | .connectDone .. | .readDone _ | .writeDone _ | .io _ | .task => 0

/-- What happens outside of the handlers hands no frame over. -/
lemma handed_of_flow {io : Session UserBuffer UserBuffer} {client : GameClient}
    {tasks : List LoginRsp} (hbufs : io.writeBufs = σ.io.writeBufs)
    (hposted : posted io.queue = posted σ.io.queue) (hsent : sentOf out = []) :
    handed (tr ++ out) { σ with io, client, tasks } = handed tr σ := by
  simp [handed, hbufs, hposted, hsent]

/-- A handler keeps the frames, and a ping is one more. -/
lemma handed_handler {hd : Handler UserBuffer UserBuffer}
    {rest : List (Handler UserBuffer UserBuffer)} {io : Session UserBuffer UserBuffer}
    {xs : List (Session.Signal UserBuffer UserBuffer)} (tr : List Obs) (client : GameClient)
    (tasks : List LoginRsp) (hqueue : σ.io.queue = hd :: rest)
    (hout : Session.Outcome (hooks rt) { σ.io with queue := rest } hd io xs) :
    handed (tr ++ (Session.sentOf xs).map .sent) { σ with io, client, tasks } = handed tr σ ∧
      handed (tr ++ (Session.sentOf xs).map .sent)
        { σ with io := io.write pingFrame, client, tasks } = handed tr σ + 1 := by
  have hframes := congrArg List.length hout.outbound
  have hbufs : (io.write pingFrame).writeBufs = io.writeBufs := rfl
  have hposted : posted (io.write pingFrame).queue = posted io.queue ++ [pingFrame] :=
    (Session.Flow.mk.inj Session.flow_write).2.1
  simp only [List.length_append] at hframes
  simp only [handed, hqueue, hbufs, hposted, sentOf_append, sentOf_map, List.length_append,
    List.length_singleton]
  omega

/-- The reply to a login leaves the frames as they are. -/
lemma handed_task {rsp : LoginRsp} {rest : List LoginRsp} : handed (tr ++ [.handled rsp])
    ({ σ with tasks := rest }.gameLoginRspHandle rsp) = handed tr σ := by
  have hsent : sentOf [Obs.handled rsp] = [] := rfl
  obtain ⟨hbufs, hposted, -⟩ := Session.Flow.mk.inj (σ.io.flow_close)
  unfold gameLoginRspHandle closeGameClient
  split
  · simp [handed, hsent]
  all_goals
    split
    · simp [handed, hsent, hbufs, hposted]
    · simp [handed, hsent]

/-- How many frames a step hands over: the login request, or what `SendPingMsg` writes. -/
def handedBy (σ : ClientUser) : Event → ℕ
  | .connectDone _ true => 1
  | .io now => if σ.io.queue.head?.any pings then (σ.client.sendPingMsg now).2.length else 0
  | _ => 0

/-- **The frames of a step.**

**Proof sketch.** By cases on what happens. A connection that is made hands over the login request,
and the handler of a timer that is not skipped a ping (`handed_handler`). All else leaves the flow
of the connection as it is (`handed_of_flow`), and a frame only passes from the queue over
`write_bufs_` to the network. -/
lemma handed_of_step {e : Event} (htalks : Talks rt reqData uid tr σ)
    (h : σ.step rt reqData uid e = some (σ', out)) :
    handed (tr ++ out) σ' = handed tr σ + σ.handedBy e := by
  cases e with
  | connectDone now ok =>
    simp only [step] at h
    split at h
    · rename_i hnew
      cases h
      obtain ⟨hio, -⟩ := htalks.fresh (htalks.connecting hnew)
      rw [List.append_nil]
      cases ok with
      | false => rfl
      | true =>
        have hopen : (σ.connected reqData uid now).io = _ := io_connected hio
        simp [handed, handedBy, hopen, hio, posted]
    · cases h
  | readDone result =>
    obtain ⟨io, hio, heq⟩ := Option.map_eq_some_iff.mp h
    cases heq
    obtain ⟨hbufs, hposted, -⟩ := Session.Flow.mk.inj (Session.flow_completeRead hio)
    exact handed_of_flow hbufs hposted (by cases σ.io.arrival result <;> rfl)
  | writeDone ok =>
    obtain ⟨io, hio, heq⟩ := Option.map_eq_some_iff.mp h
    cases heq
    obtain ⟨hbufs, hposted, -⟩ := Session.Flow.mk.inj (Session.flow_completeWrite hio)
    exact handed_of_flow hbufs hposted rfl
  | timerDone =>
    obtain ⟨io, hio, heq⟩ := Option.map_eq_some_iff.mp h
    cases heq
    obtain ⟨hbufs, hposted, -⟩ := Session.Flow.mk.inj (Session.flow_expireTimer hio)
    exact handed_of_flow hbufs hposted rfl
  | io now =>
    obtain ⟨hd, rest, io, xs, hqueue, hcases, rfl, hafter⟩ := io_cases h
    rcases hafter with ⟨rfl, hskip⟩ | ⟨hpings, hsend, rfl⟩
    · obtain ⟨hkept, -⟩ := handed_handler tr σ.client _ hqueue hcases.outcome
      have hnone : σ.handedBy (.io now) = 0 := by
        cases hpings : pings hd with
        | false => simp [handedBy, hqueue, hpings]
        | true => simp [handedBy, hqueue, hpings, (hskip hpings).1]
      exact hkept.trans (by rw [hnone, Nat.add_zero])
    · obtain ⟨-, hmore⟩ := handed_handler tr _ _ hqueue hcases.outcome
      have hone : σ.handedBy (.io now) = 1 := by simp [handedBy, hqueue, hpings, hsend]
      exact hmore.trans (by rw [hone])
  | task =>
    simp only [step] at h
    split at h
    · cases h
    · cases h
      exact handed_task

/-- What a handler leaves pays for the task of a body and for a ping. -/
lemma le_handlerRest (h : Handler UserBuffer UserBuffer) :
    (bodies [h]).length + (if pings h then 38 else 0) + 1 ≤ Session.handlerRest prices h := by
  cases h with
  | write | close | readHeader | written =>
    simp [bodies, pings, Session.handlerRest]
  | readBody c | timer c => cases c <;> simp [bodies, pings, Session.handlerRest, prices]

/-- A handler, and the ping that it may send.

**Proof sketch.** The price that the handler leaves pays for its step. A body becomes one task at
most (`Outcome.inbound`), and a ping that is posted costs no more than the handler of the timer that
posts it has left over. -/
lemma load_handler {hd : Handler UserBuffer UserBuffer}
    {rest : List (Handler UserBuffer UserBuffer)}
    {io pinged : Session UserBuffer UserBuffer} {xs : List (Session.Signal UserBuffer UserBuffer)}
    (tr : List Obs) (client : GameClient) (hqueue : σ.io.queue = hd :: rest)
    (hout : Session.Outcome (hooks rt) { σ.io with queue := rest } hd io xs)
    (hprice : io.price prices + Session.handlerRest prices hd ≤ σ.io.price prices)
    (hpinged : pinged = io ∨ pings hd = true ∧ pinged = io.write pingFrame) :
    load (tr ++ (Session.sentOf xs).map .sent) { σ with
      io := pinged
      client := client
      tasks := σ.tasks ++ (Session.readOf xs).filterMap (message rt) } + 1 ≤ load tr σ := by
  have hrest := le_handlerRest hd
  -- a body becomes one task at most
  have hbodies := congrArg List.length hout.inbound
  have hkept := congrArg List.length (GameServer.bodies_of_outcome hout)
  have htasks := List.length_filterMap_le (message rt) (Session.readOf xs)
  have hcons : bodies (hd :: rest) = bodies [hd] ++ bodies rest := by
    rw [← List.singleton_append, Session.bodies_append]
  dsimp only at hbodies hkept
  rw [hcons, List.length_append, List.length_append] at hbodies
  obtain ⟨hframes, hmore⟩ := handed_handler tr client
    (σ.tasks ++ (Session.readOf xs).filterMap (message rt)) hqueue hout
  rcases hpinged with rfl | ⟨hpings, rfl⟩
  · simp only [load, hframes, arrivedOf_append, arrivedOf_sent, List.append_nil, List.length_append]
    omega
  · have hwrite : (io.write pingFrame).price prices = io.price prices + 10 := Session.price_post
    rw [if_pos hpings] at hrest
    simp only [load, hmore, hwrite, arrivedOf_append, arrivedOf_sent, List.append_nil,
      List.length_append]
    omega

/-- The io thread runs the next handler. -/
lemma load_io {now : ℕ} (hσ : σ.Attending rt) (htalks : Talks rt reqData uid tr σ)
    (h : σ.step rt reqData uid (.io now) = some (σ', out)) :
    load (tr ++ out) σ' + 1 ≤ load tr σ := by
  obtain ⟨hd, rest, io, xs, hqueue, hcases, rfl, hafter⟩ := io_cases h
  have hgame := htalks.gameclient (.inl fun hold => by rw [hold] at hqueue; cases hqueue)
  have hprice := (hσ.healthy hgame).price_handle (p := prices) hqueue (by decide) (by decide)
    hcases
  rcases hafter with ⟨rfl, -⟩ | ⟨hpings, -, rfl⟩
  · exact load_handler tr σ.client hqueue hcases.outcome hprice (.inl rfl)
  · exact load_handler tr _ hqueue hcases.outcome hprice (.inr ⟨hpings, rfl⟩)

/-- **A step of a user** without failures costs at least one.

**Proof sketch.** By cases on what happens. A completion is paid by the price of its operation,
which is higher than that of the handler it posts; an expired timer is paid by the gain of the step,
a handler by `load_io`, and the task that handles a reply by the load of that task. -/
lemma load_step {e : Event} (hσ : σ.Attending rt) (htalks : Talks rt reqData uid tr σ)
    (hsmooth : Smooth rt tr σ e) (h : σ.step rt reqData uid e = some (σ', out)) :
    load (tr ++ out) σ' + 1 ≤ load tr σ + e.gain := by
  cases e with
  | connectDone now ok =>
    simp only [step] at h
    split at h
    · rename_i hnew
      cases h
      cases (show ok = true from hsmooth)
      obtain ⟨hio, -⟩ := htalks.fresh (htalks.connecting hnew)
      have hopen : (σ.connected reqData uid now).io = _ := io_connected hio
      have htasks : (σ.connected reqData uid now).tasks = σ.tasks := rfl
      have hconnecting : (σ.connected reqData uid now).connecting = false := rfl
      rw [if_pos rfl, List.append_nil]
      simp [load, handed, htasks, hconnecting, hopen, hnew, hio, price, posted, prices,
        Session.handlerPrice, Session.opPrice, Event.gain]
      omega
    · cases h
  | readDone result =>
    obtain ⟨io, hio, heq⟩ := Option.map_eq_some_iff.mp h
    cases heq
    obtain ⟨f, rfl, -⟩ := hsmooth
    have hprice := Session.price_completeRead (p := prices) hio
    obtain ⟨hbufs, hposted, -⟩ := Session.Flow.mk.inj (Session.flow_completeRead hio)
    have hsent : sentOf ((σ.io.arrival (some f)).toList.map .arrived) = [] := by
      cases σ.io.arrival (some f) <;> rfl
    simp only [load, handed_of_flow hbufs hposted hsent, arrivedOf_append, arrivedOf_map,
      List.length_append, Event.gain, prices] at hprice ⊢
    omega
  | writeDone ok =>
    obtain ⟨io, hio, heq⟩ := Option.map_eq_some_iff.mp h
    cases heq
    have hprice := Session.price_completeWrite (p := prices) hio
    obtain ⟨hbufs, hposted, -⟩ := Session.Flow.mk.inj (Session.flow_completeWrite hio)
    simp only [load, handed, hbufs, hposted, List.append_nil, Event.gain]
    omega
  | timerDone =>
    obtain ⟨io, hio, heq⟩ := Option.map_eq_some_iff.mp h
    cases heq
    have hprice := Session.price_expireTimer (p := prices) hio
    obtain ⟨hbufs, hposted, -⟩ := Session.Flow.mk.inj (Session.flow_expireTimer hio)
    simp only [load, handed, hbufs, hposted, List.append_nil, Event.gain, prices] at hprice ⊢
    omega
  | io now => exact (load_io hσ htalks h).trans (le_add_of_nonneg_right (Int.natCast_nonneg _))
  | task =>
    obtain ⟨rsp, rest, htasks, rfl, rfl⟩ := task_of_smooth hsmooth h
    have harrived : arrivedOf [Obs.handled rsp] = [] := rfl
    have hframes : handed (tr ++ [.handled rsp]) { σ with tasks := rest } = handed tr σ :=
      handed_of_flow rfl rfl rfl
    simp only [load, hframes, htasks, arrivedOf_append, harrived, List.append_nil,
      List.length_cons, Event.gain]
    omega

end ClientUser

/-! ## The server -/

namespace GameServer

open Session (Prices price bodies)

variable {β φ : Type} {w : Wire β φ} {tr out : List (Obs β φ)} {σ σ' : GameServer β φ} {s : ℕ}

/-- The prices of a session: a body leads to a task of the logic thread, the timer to its next
wait. -/
def prices : Prices := ⟨27, 8⟩

/-- What a session still has to do, and what the answers that it has got lead to. Its user has paid
for the bodies that have arrived, and for the session. -/
def load (tr : List (Obs β φ)) (σ : GameServer β φ) (s : ℕ) : ℤ :=
  (σ.io s).price prices + 8 * (answered s (dones tr)).length - 28 * (arrivedOn s tr).length - 9

/-- What the server still has to do. -/
def budget (tr : List (Obs β φ)) (σ : GameServer β φ) : ℤ :=
  ∑ s ∈ Finset.range σ.logic.accepted, load tr σ s + 3 * (σ.logic.tasks.map taskWork).sum

/-- What a timer that expires brings in. -/
def Event.gain : Event φ → ℕ
  | .timerDone _ => 9
  | .accept _ | .readDone .. | .writeDone .. | .io .. | .logic => 0

/-- The budget when one session changes. -/
lemma budget_of_load (tr tr' : List (Obs β φ)) (hs : s < σ.logic.accepted)
    (hacc : σ'.logic.accepted = σ.logic.accepted)
    (hother : ∀ t, t ≠ s → load tr' σ' t = load tr σ t) :
    budget tr' σ' + load tr σ s + 3 * (σ.logic.tasks.map taskWork).sum =
      budget tr σ + load tr' σ' s + 3 * (σ'.logic.tasks.map taskWork).sum := by
  have hsum : ∑ t ∈ Finset.range σ.logic.accepted, (load tr' σ' t - load tr σ t) =
      load tr' σ' s - load tr σ s :=
    Finset.sum_eq_single_of_mem s (Finset.mem_range.mpr hs) fun t _ ht => by
      rw [hother t ht, sub_self]
  rw [Finset.sum_sub_distrib] at hsum
  simp only [budget, hacc]
  omega

/-- A step that does not concern a session. -/
lemma load_of_other (hio : σ'.io s = σ.io s) (harrived : arrivedOn s out = [])
    (hanswered : answered s (dones out) = []) : load (tr ++ out) σ' s = load tr σ s := by
  simp [load, hio, harrived, hanswered]

/-- What a handler leaves pays for the task that it posts. -/
lemma le_handlerRest (h : Handler β φ) :
    3 * (1 + 6 * (bodies [h]).length) + 1 ≤ Session.handlerRest prices h := by
  cases h with
  | write | close | readHeader | written => simp [bodies, Session.handlerRest]
  | readBody c | timer c => cases c <;> simp [bodies, Session.handlerRest, prices]

/-- The io thread runs the next handler of a session. -/
lemma budget_io {now : ℕ} (hσ : σ.Serving w) (hsmooth : Smooth w tr σ (.io s now))
    (h : σ.step w (.io s now) = some (σ', out)) : budget (tr ++ out) σ' + 1 ≤ budget tr σ := by
  have hstep := h
  simp only [step] at h
  split at h
  · rename_i hs
    obtain ⟨⟨y, xs⟩, hrun, hsig⟩ := Option.map_eq_some_iff.mp h
    rw [show σ.notAlive s now = false from hsmooth] at hrun
    obtain ⟨hd, rest, hqueue, hcases⟩ := Session.runHandler_cases hrun
    have hprice := (hσ.healthy s hs).price_handle (p := prices) hqueue (by decide) (by decide)
      hcases
    have hrest := le_handlerRest hd
    obtain ⟨hacc, htasks⟩ := (signalled hqueue hcases.outcome hsig).1.taskWork_le hqueue
    have hquiet : ∀ t, arrivedOn t out = [] ∧ answered t (dones out) = [] := fun t => by
      obtain ⟨-, harrived, hdones, -⟩ := signals_records (t := t) hsig
      exact ⟨harrived, by rw [hdones]; rfl⟩
    have hio : σ'.io = (σ.setIo s y).io := (signals_records (t := s) hsig).1
    have hmove := budget_of_load tr (tr ++ out) hs hacc fun t ht =>
      load_of_other (by simp [hio, setIo, ht]) (hquiet t).1 (hquiet t).2
    have hself : load (tr ++ out) σ' s + Session.handlerRest prices hd ≤ load tr σ s := by
      simp only [load, arrivedOn_append, dones_append, answered_append, (hquiet s).1, (hquiet s).2,
        List.append_nil, hio, setIo, Function.update_self]
      omega
    have hlogic : (σ.setIo s y).logic = σ.logic := rfl
    rw [hlogic] at htasks
    omega
  · cases h

/-- A task pays for its answer. -/
lemma load_reply (tr : List (Obs β φ)) {t : LogicTask} {d : Done} {logic : LogicIo}
    (hdone : d = (logic.runTask t).2) (hreply : σ'.io = (σ.reply w d).io) :
    load (tr ++ [.ran d]) σ' t.session + 1 ≤ load tr σ t.session + 3 * taskWork t := by
  have harrived : arrivedOn t.session [(.ran d : Obs β φ)] = [] := rfl
  have hran : dones [(.ran d : Obs β φ)] = [d] := rfl
  simp only [load, arrivedOn_append, dones_append, answered_append, harrived, hran, List.append_nil,
    List.length_append, hreply]
  cases t with
  | loginReq s req =>
    obtain ⟨res, rfl⟩ : ∃ res, d = .login s req res := ⟨_, hdone⟩
    have hio : (σ.reply w (.login s req res)).io s = (σ.io s).write (w.sendMsg ⟨res⟩) := by
      simp [reply, setIo]
    have hwrite : ((σ.io s).write (w.sendMsg ⟨res⟩)).price prices = (σ.io s).price prices + 10 :=
      Session.price_post
    have hone : (answered s [.login s req res]).length = 1 := by simp [answered]
    simp only [LogicTask.session, hio, hwrite, hone, taskWork]
    omega
  | addSession s | ping s | onClose s | onClosed s =>
    subst hdone
    simp only [LogicIo.runTask, reply, answered, List.filterMap_cons, List.filterMap_nil,
      List.length_nil, taskWork]
    omega

/-- The logic thread runs its next task.

**Proof sketch.** The task takes its work with it (`LogicIo.runTask_queue`), and all sessions but
its own have as much to do as before. Its own one gets a `Write` task at most, which the weight of a
login request covers (`load_reply`). -/
lemma budget_logic (hwf : σ.logic.WellFormed) (h : σ.step w .logic = some (σ', out)) :
    budget (tr ++ out) σ' + 1 ≤ budget tr σ := by
  have hstep := h
  cases step_cases h with
  | @logic t ts d _ htasks hrun hreply =>
    have hs : t.session < σ.logic.accepted := hwf.tasks t (htasks ▸ List.mem_cons_self)
    obtain ⟨hqueue, hacc⟩ := LogicIo.runTask_queue (σ := { σ.logic with tasks := ts }) t
    rw [hrun] at hqueue hacc
    dsimp only at hqueue hacc
    have hweight : (σ.logic.tasks.map taskWork).sum =
        taskWork t + (σ'.logic.tasks.map taskWork).sum := by
      rw [htasks, hqueue, List.map_cons, List.sum_cons]
    have hdone : d = ({ σ.logic with tasks := ts }.runTask t).2 := (congrArg Prod.snd hrun).symm
    have hother : ∀ u, u ≠ t.session → load (tr ++ [.ran d]) σ' u = load tr σ u := by
      intro u hu
      refine load_of_other (io_eq_of_step hstep ?_) rfl ?_
      · simpa [subject, htasks] using Ne.symm hu
      · have hfirst := answered_runTask (s := u) (σ := { σ.logic with tasks := ts }) t
        rw [← hdone] at hfirst
        refine List.map_eq_nil_iff.mp (hfirst.trans ?_)
        cases t with
        | loginReq v req =>
          have hv : v ≠ u := Ne.symm hu
          simp [waiting, hv]
        | addSession | ping | onClose | onClosed => rfl
    have hmove := budget_of_load tr _ hs hacc hother
    have hio : σ'.io = (σ.reply w d).io :=
      (congrArg GameServer.io hreply).trans (by cases d <;> rfl)
    have hself := load_reply tr hdone hio
    omega

/-- **A step of the server** without failures costs at least one, other than an accept.

**Proof sketch.** A completion concerns one session, and the price of its operation is higher than
that of the handler it posts: `complete` says what this does to the sum. Handlers are `budget_io`,
and tasks `budget_logic`. -/
lemma budget_step {e : Event φ} (hσ : σ.Serving w) (hwf : σ.logic.WellFormed)
    (hsmooth : Smooth w tr σ e) (he : ∀ now, e ≠ .accept now)
    (h : σ.step w e = some (σ', out)) : budget (tr ++ out) σ' + 1 ≤ budget tr σ + e.gain := by
  -- the completion of an operation of one session
  have complete : ∀ {s : ℕ} {x : Session β φ} (fs : List φ), s < σ.logic.accepted →
      x.price prices + 1 ≤ (σ.io s).price prices + 28 * fs.length + e.gain →
      budget (tr ++ fs.map (.arrived s)) (σ.setIo s x) + 1 ≤ budget tr σ + e.gain := by
    intro s x fs hs hprice
    have hanswered : ∀ t, answered t (dones (fs.map (Obs.arrived s) : List (Obs β φ))) = [] := by
      intro t
      rw [dones_arrived]
      rfl
    have hself : load (tr ++ fs.map (.arrived s)) (σ.setIo s x) s + 1 ≤ load tr σ s + e.gain := by
      simp only [load, arrivedOn_append, arrivedOn_arrived, if_true, dones_append, answered_append,
        hanswered, List.append_nil, List.length_append, setIo, Function.update_self]
      omega
    have hlogic : (σ.setIo s x).logic = σ.logic := rfl
    have hmove := budget_of_load tr _ hs (congrArg LogicIo.accepted hlogic) fun t ht =>
      load_of_other (by simp [setIo, ht]) (by simp [Ne.symm ht]) (hanswered t)
    rw [hlogic] at hmove
    omega
  cases e with
  | accept now => exact absurd rfl (he now)
  | readDone s result =>
    simp only [step] at h
    split at h
    · obtain ⟨x, hx, heq⟩ := Option.map_eq_some_iff.mp h
      cases heq
      obtain ⟨f, rfl, -⟩ := hsmooth
      exact complete _ ‹_› (Session.price_completeRead hx).le
    · cases h
  | writeDone s ok =>
    simp only [step] at h
    split at h
    · obtain ⟨x, hx, heq⟩ := Option.map_eq_some_iff.mp h
      cases heq
      exact complete [] ‹_› (Session.price_completeWrite hx).le
    · cases h
  | timerDone s =>
    simp only [step] at h
    split at h
    · obtain ⟨x, hx, heq⟩ := Option.map_eq_some_iff.mp h
      cases heq
      have hprice := Session.price_expireTimer (p := prices) hx
      refine complete [] ‹_› ?_
      simp only [prices, Event.gain, List.length_nil] at hprice ⊢
      omega
    · cases h
  | io s now => exact (budget_io hσ hsmooth h).trans (le_add_of_nonneg_right (Int.natCast_nonneg _))
  | logic => exact (budget_logic hwf h).trans (le_add_of_nonneg_right (Int.natCast_nonneg _))

/-- An accept costs at least one: the user has paid for the session. -/
lemma budget_accept {now : ℕ} (hσ : σ.Serving w)
    (hanswered : answered σ.logic.accepted (dones tr) = []) :
    budget tr (σ.accept now) + 1 ≤ budget tr σ := by
  have hnew : (σ.accept now).io σ.logic.accepted =
      ({ reading := [.header], timerArmed := true } : Session β φ) := by
    simp [accept, setIo, hσ.fresh _ le_rfl, Session.armTimer, Session.stopTimer, Session.asyncRead]
  have hold : ∀ s ∈ Finset.range σ.logic.accepted, load tr (σ.accept now) s = load tr σ s := by
    intro s hs
    have hne : s ≠ σ.logic.accepted := (Finset.mem_range.mp hs).ne
    simp [load, accept, setIo, hne]
  have hload : load tr (σ.accept now) σ.logic.accepted ≤ -4 := by
    simp only [load, hnew, hanswered, List.length_nil]
    simp [price, Session.opPrice]
  have hsum : ∑ s ∈ Finset.range (σ.logic.accepted + 1), load tr (σ.accept now) s =
      ∑ s ∈ Finset.range σ.logic.accepted, load tr σ s +
        load tr (σ.accept now) σ.logic.accepted := by
    rw [Finset.sum_range_succ, Finset.sum_congr rfl hold]
  have htasks : ((σ.accept now).logic.tasks.map taskWork).sum =
      (σ.logic.tasks.map taskWork).sum + 1 := by
    simp [accept, LogicIo.accept, LogicIo.post, taskWork]
  have hacc : (σ.accept now).logic.accepted = σ.logic.accepted + 1 := rfl
  rw [budget, budget, hacc, hsum, htasks]
  omega

end GameServer

/-! ## The system -/

namespace System

open GameServer (arrivedOn dones)
open ClientUser (arrivedOf sentOf handed)

variable {rt : Protobuf UserMsg} {rtRsp : Protobuf LoginRsp} {reqData : LoginReq → Bytes}
  {rspData : LoginRsp → Bytes} {uidFrom uidTo : ℤ}
  {tr out : List Obs} {σ σ' : System} {c s : ℕ}

/-- What the system still has to do. A user has paid for its session. -/
def budget (tr : List Obs) (σ : System) : ℤ :=
  ∑ c ∈ Finset.range σ.started, ((σ.clients c).load (clientOf c tr) + 9) +
    σ.server.budget (serverOf tr)

/-- What a step brings in: a user that is made, or a timer that expires. -/
def Event.gain : Event → ℕ
  | .start => 54
  | .server e => e.gain
  | .client _ e => e.gain
  | .accept .. => 0

/-- The other steps bring nothing in. -/
lemma gain_eq_zero {e : Event} (he : e.spontaneous = false) : e.gain = 0 := by
  cases e with
  | start => cases he
  | accept => rfl
  | server e => cases e <;> first | rfl | cases he
  | client c e => cases e <;> first | rfl | cases he

/-- A user that has not been made has done nothing. -/
lemma client_of_le {G : List Obs → System → Event → Prop}
    (h : (machine rt rtRsp reqData rspData uidFrom uidTo).Run G tr σ) (hc : σ.started ≤ c) :
    σ.clients c = {} := by
  revert c
  refine h.invariant (fun _ σ => ∀ {c}, σ.started ≤ c → σ.clients c = {}) (fun _ => rfl) ?_
  intro tr σ e σ' out _ ih _ hstep c hc
  cases step_cases hstep with
  | start => exact ih (Nat.le_of_succ_le hc)
  | accept | server => exact ih hc
  | @client u e client out' hu =>
    have hne : c ≠ u := (hu.trans_le hc).ne'
    exact (Function.update_of_ne hne _ _).trans (ih hc)

/-- A session that has not been accepted has answered nothing. -/
lemma answered_eq_nil (h : (machine rt rtRsp reqData rspData uidFrom uidTo).Run Network tr σ) :
    answered σ.server.logic.accepted (dones (serverOf tr)) = [] := by
  have hrequests := (conserves_of_run h σ.server.logic.accepted).requests
  rcases (wired_of_run h).requests σ.server.logic.accepted with hnil | ⟨c, n, hc, -⟩
  · rw [hnil, List.filterMap_nil, List.append_eq_nil_iff, List.append_eq_nil_iff] at hrequests
    exact List.map_eq_nil_iff.mp hrequests.1.1
  · exact absurd (lt_accepted h hc) (lt_irrefl _)

/-- No more bodies have arrived on a session than its user has handed over.

**Proof sketch.** Induction on the run. A body arrives only if the next frame of the user is on its
way, so that fewer have arrived than were handed over; a step of the user hands over more at most
(`ClientUser.handed_of_step`), and the other steps change neither side. -/
lemma arrivedOn_le (h : (machine rt rtRsp reqData rspData uidFrom uidTo).Run Network tr σ)
    (hc : σ.peers[s]? = some c) :
    (arrivedOn s (serverOf tr)).length ≤ handed (clientOf c tr) (σ.clients c) := by
  revert s c
  refine h.invariant (fun tr σ => ∀ {s c}, σ.peers[s]? = some c →
    (arrivedOn s (serverOf tr)).length ≤ handed (clientOf c tr) (σ.clients c))
    (fun _ => Nat.zero_le _) ?_
  intro tr σ e σ' out hrun ih hg hstep s c hc
  cases step_cases hstep with
  | start =>
    rw [List.append_nil]
    exact ih hc
  | @accept u now =>
    rw [List.append_nil]
    rcases (wired_of_run hrun).requests s with hnil | ⟨c', n, hc', -⟩
    · rw [hnil]
      exact Nat.zero_le _
    · have hsame := hc.symm.trans (Channel.getElem?_of_prefix (List.prefix_append _ _) hc')
      obtain rfl := Option.some.inj hsame
      exact ih hc'
  | @server e server out' he hserver =>
    rw [serverOf_append, serverOf_server, clientOf_append, clientOf_server, List.append_nil,
      GameServer.arrivedOn_append, List.length_append]
    have hle := ih hc
    rcases arrivedOn_of_step (s := s) hserver with ⟨result, rfl, harrived⟩ | hnone
    · cases hresult : (σ.server.io s).arrival result with
      | none => simpa [harrived, hresult] using hle
      | some f =>
        -- the next frame of the user was there
        obtain ⟨c', hc', buf, hbuf, -⟩ := hg f hresult
        obtain rfl := Option.some.inj (hc.symm.trans hc')
        have hlt := (List.getElem?_eq_some_iff.mp hbuf).1
        rw [up, List.length_append] at hlt
        rw [harrived, hresult, Option.toList_some, List.length_singleton, handed]
        dsimp only
        omega
    · rw [hnone]
      exact hle
  | @client u e client out' hu hclient =>
    rw [serverOf_append, serverOf_client, List.append_nil, clientOf_append, clientOf_client]
    dsimp only
    by_cases huc : u = c
    · subst huc
      rw [if_pos rfl, Function.update_self,
        ClientUser.handed_of_step (talks_of_run hrun u) hclient]
      exact (ih hc).trans (Nat.le_add_right _ _)
    · rw [if_neg huc, List.append_nil, Function.update_of_ne (Ne.symm huc)]
      exact ih hc

/-- A user and its session have something left. -/
lemma load_add_nonneg (h : (machine rt rtRsp reqData rspData uidFrom uidTo).Run Network tr σ)
    (hc : σ.peers[s]? = some c) :
    0 ≤ (σ.clients c).load (clientOf c tr) + 9 + σ.server.load (serverOf tr) s := by
  have hup := arrivedOn_le h hc
  have hdown : (arrivedOf (clientOf c tr)).length ≤ (answered s (dones (serverOf tr))).length := by
    have hwired := wired_of_run h
    rcases hwired.replies c with hnil | ⟨s', hs', hin⟩
    · rw [hnil]
      exact Nat.zero_le _
    · obtain rfl := hwired.eq_of_peers hs' hc
      exact hin.length_le
  simp only [ClientUser.load, GameServer.load]
  split <;> omega

/-- The budget is never overdrawn. -/
lemma budget_nonneg (h : (machine rt rtRsp reqData rspData uidFrom uidTo).Run Network tr σ) :
    0 ≤ budget tr σ := by
  have hwired := wired_of_run h
  -- a user without a session has not used anything up
  have hpeers : ∑ c ∈ σ.peers.toFinset, ((σ.clients c).load (clientOf c tr) + 9) ≤
      ∑ c ∈ Finset.range σ.started, ((σ.clients c).load (clientOf c tr) + 9) := by
    refine Finset.sum_le_sum_of_subset_of_nonneg (fun c hc => ?_) fun c _ hc => ?_
    · exact Finset.mem_range.mpr (hwired.made c (List.mem_toFinset.mp hc))
    · rcases hwired.replies c with hnil | ⟨s, hs, -⟩
      · simp only [ClientUser.load, hnil, List.length_nil]
        split <;> omega
      · exact absurd (List.mem_toFinset.mpr (List.mem_of_getElem? hs)) hc
  -- the others are counted with their sessions
  have hpairs : 0 ≤ ∑ s : Fin σ.peers.length, (((σ.clients σ.peers[s]).load
      (clientOf σ.peers[s] tr) + 9) + σ.server.load (serverOf tr) s) :=
    Finset.sum_nonneg fun s _ => load_add_nonneg h (List.getElem?_eq_getElem s.isLt)
  rw [Finset.sum_add_distrib, ← Finset.sum_range fun s => σ.server.load (serverOf tr) s] at hpairs
  simp only [Fin.getElem_fin] at hpairs
  have hsum := Fin.sum_univ_fun_getElem σ.peers fun c => (σ.clients c).load (clientOf c tr) + 9
  rw [← List.sum_toFinset _ hwired.nodup] at hsum
  rw [budget, GameServer.budget, ← length_peers h]
  omega

section Works

variable (hfrom : -2 ^ 31 ≤ uidFrom) (hto : uidTo < 2 ^ 31)
  (hrt : Runtimes rt rtRsp reqData rspData)

include hfrom hto hrt

/-- **Every step** without failures costs at least one.

**Proof sketch.** By cases on who takes the step. A user that is made brings its own gain; an accept
and the steps of the server are paid by the server (`GameServer.budget_step`), and a step of a user
by its load (`ClientUser.load_step`), while the sum over the other users stays as it is. -/
lemma budget_step {e : Event}
    (h : (machine rt rtRsp reqData rspData uidFrom uidTo).Run Works tr σ) (hworks : Works tr σ e)
    (hstep : σ.step rt rtRsp reqData rspData uidFrom uidTo e = some (σ', out)) :
    budget (tr ++ out) σ' + 1 ≤ budget tr σ + e.gain := by
  have hnetwork : (machine rt rtRsp reqData rspData uidFrom uidTo).Run Network tr σ :=
    h.mono fun _ _ _ hw => hw.1
  obtain ⟨hserving, hattending⟩ := healthy_of_run hfrom hto hrt h
  cases step_cases hstep with
  | start huid =>
    obtain ⟨-, -, -, hsent⟩ := (talks_of_run h σ.started).fresh
      (congrArg ClientUser.gameclient (client_of_le h le_rfl))
    have hnew : (σ.clients σ.started).load (clientOf σ.started tr) ≤ 44 := by
      simp [ClientUser.load, handed, hsent, client_of_le h le_rfl, Session.price, Session.posted]
    rw [List.append_nil, budget, budget, Finset.sum_range_succ, Event.gain]
    push_cast
    omega
  | @accept c now =>
    have haccept : (σ.server.accept now).budget (serverOf tr) + 1 ≤
        σ.server.budget (serverOf tr) :=
      GameServer.budget_accept hserving (answered_eq_nil hnetwork)
    rw [List.append_nil, budget, budget, Event.gain]
    dsimp only
    omega
  | @server e server out' he hserver =>
    have hwf := LogicIo.wellFormed_of_run (GameServer.logic_reach (server_of_run
      (H := fun _ _ _ => True) (fun _ _ _ => trivial) (fun _ _ _ _ _ _ => trivial) h))
    have hsmooth := smooth_server hfrom hto hrt hnetwork hworks
    have hcost := GameServer.budget_step hserving hwf hsmooth he hserver
    simp only [budget, serverOf_append, serverOf_server, clientOf_append, clientOf_server,
      List.append_nil, Event.gain]
    omega
  | @client c e client out' hc hclient =>
    have hsmooth := smooth_client hfrom hto hrt hnetwork hworks
    have hcost := ClientUser.load_step (hattending c) (talks_of_run h c) hsmooth hclient
    -- the other users have as much to do as before
    have hsum : ∑ d ∈ Finset.range σ.started,
        ((Function.update σ.clients c client d).load (clientOf d (tr ++ out'.map (.client c))) -
          (σ.clients d).load (clientOf d tr)) =
        client.load (clientOf c tr ++ out') - (σ.clients c).load (clientOf c tr) := by
      rw [Finset.sum_eq_single_of_mem c (Finset.mem_range.mpr hc) fun d _ hd => ?_]
      · simp
      · simp [hd, Ne.symm hd]
    rw [Finset.sum_sub_distrib] at hsum
    simp only [budget, Finset.sum_add_distrib, serverOf_append, serverOf_client, List.append_nil,
      Event.gain]
    omega

end Works

/-- **Logins are completed.** In every run over a network that keeps the order and on which nothing
fails, however the threads take turns: there are no more steps than 54 for each user that was made,
44 for each timer of a user and 9 for each timer of a session that has expired; and from wherever
the run has come to, the steps other than these lead to a state in which nothing is left to do.

**Proof sketch.** The prices of what is to be done are a budget that every step draws on
(`budget_step`) and that is never overdrawn (`budget_nonneg`). -/
theorem comes_to_rest (hfrom : -2 ^ 31 ≤ uidFrom) (hto : uidTo < 2 ^ 31)
    (hrt : Runtimes rt rtRsp reqData rspData) {es : List Event} {r : List Obs × System}
    (h : (machine rt rtRsp reqData rspData uidFrom uidTo).exec
      (fun tr σ e => decide (Works tr σ e)) [] {} es = some r) :
    es.length ≤ (es.map Event.gain).sum ∧
      ∃ es' r', (machine rt rtRsp reqData rspData uidFrom uidTo).exec
          (fun tr σ e => !e.spontaneous && decide (Works tr σ e)) r.1 r.2 es' = some r' ∧
        Stuck rt rtRsp reqData rspData uidFrom uidTo r'.1 r'.2 := by
  have hok : ∀ tr σ e, decide (Works tr σ e) = true → Works tr σ e := fun _ _ _ =>
    of_decide_eq_true
  have hend := Machine.run_of_exec hok h
  have hnetwork : ∀ tr σ, (machine rt rtRsp reqData rspData uidFrom uidTo).Run Works tr σ →
      0 ≤ budget tr σ := fun _ _ hrun => budget_nonneg (hrun.mono fun _ _ _ hw => hw.1)
  constructor
  · have hle := Machine.length_le_of_budget budget Event.gain hok
      (fun tr σ e σ' out hrun he hstep =>
        budget_step hfrom hto hrt hrun (of_decide_eq_true he) hstep) .nil h
    have hstart : budget [] (machine rt rtRsp reqData rspData uidFrom uidTo).init = 0 := rfl
    have hleft := hnetwork _ _ hend
    omega
  · have hsplit : ∀ {tr σ} {e : Event}, (!e.spontaneous && decide (Works tr σ e)) = true ↔
        e.spontaneous = false ∧ Works tr σ e := by
      intro tr σ e
      rw [Bool.and_eq_true, Bool.not_eq_true', decide_eq_true_iff]
    obtain ⟨es', r', hexec, hrest⟩ := Machine.exists_exec_of_measure
      (fun tr σ e => !e.spontaneous && decide (Works tr σ e)) budget
      (fun tr σ e he => (hsplit.mp he).2) hnetwork (fun tr σ e σ' out hrun he hstep => by
        have hcost := budget_step hfrom hto hrt hrun (hsplit.mp he).2 hstep
        rw [gain_eq_zero (hsplit.mp he).1] at hcost
        omega) hend
    exact ⟨es', r', hexec, fun e he hworks => hrest e (hsplit.mpr ⟨he, hworks⟩)⟩

/-- The first user is accepted while its request is on its way, and the system comes to rest. -/
theorem comes_to_rest_one : ∃ (tr tr' : List Obs) (σ σ' : System) (es : List Event),
    (machine sampleReqProtobuf ClientUser.sampleRspProtobuf sampleTypedReqData sampleRspData
      10 10).exec (fun tr σ e => !e.spontaneous && decide (Works tr σ e)) tr σ es =
        some (tr', σ') ∧
      σ.peers = [0] ∧
      Stuck sampleReqProtobuf ClientUser.sampleRspProtobuf sampleTypedReqData sampleRspData
        10 10 tr' σ' := by
  obtain ⟨r, hexec, hpeers⟩ : ∃ r ∈ (machine sampleReqProtobuf ClientUser.sampleRspProtobuf
      sampleTypedReqData sampleRspData 10 10).exec (fun tr σ e => decide (Works tr σ e)) [] {}
      [.start, .client 0 (.connectDone 0 true), .client 0 (.io 0), .accept 0 0],
      r.2.peers = [0] := by
    decide +kernel
  obtain ⟨-, es, r', hexec', hstuck⟩ := comes_to_rest (by decide) (by decide) sampleRuntimes hexec
  exact ⟨r.1, r'.1, r.2, r'.2, es, hexec', hpeers, hstuck⟩

end System

end FightingCard
