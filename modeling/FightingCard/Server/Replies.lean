import FightingCard.Server.GameServer

set_option relaxedAutoImplicit false
set_option autoImplicit false

/-!
# Requests and replies

A login request crosses two queues on its way to `LoginReqHandle`, that of its connection and
that of the logic thread, and the answer crosses the queue of the connection again and then
`write_bufs_`. Two conservation laws follow both ways through all interleavings: the requests
answered, waiting and read are those that arrived, in order, and the frames sent, held and
posted are those of the answers, in order.

## Main definitions

* `FightingCard.answered`, `FightingCard.waiting` — the requests of a session that the logic
  thread has answered, and those in its queue.
* `FightingCard.GameServer.Conserves` — the two conservation laws of a session.

## Main results

* `FightingCard.GameServer.conserves_of_run` — both laws hold in every run.
* `FightingCard.GameServer.replies_match` — replies match requests.
-/

namespace FightingCard

/-- The requests of `s` that were answered, with the results computed for them. -/
def answered (s : ℕ) (done : List Done) : List (LoginReq × LoginRes) :=
  done.filterMap fun
    | .login t req res => if t = s then some (req, res) else none
    | _ => none

/-- The requests of `s` in the queue of the logic thread. -/
def waiting (s : ℕ) (tasks : List LogicTask) : List LoginReq :=
  tasks.filterMap fun
    | .loginReq t req => if t = s then some req else none
    | _ => none

/-- The requests that more tasks have answered. -/
@[simp] lemma answered_append {s : ℕ} {done done' : List Done} :
    answered s (done ++ done') = answered s done ++ answered s done' := List.filterMap_append

/-- The requests that wait in more tasks. -/
@[simp] lemma waiting_append {s : ℕ} {ts us : List LogicTask} :
    waiting s (ts ++ us) = waiting s ts ++ waiting s us := List.filterMap_append

/-- A task answers the request it carries, and nothing else. -/
lemma answered_runTask {s : ℕ} {σ : LogicIo} (t : LogicTask) :
    (answered s [(σ.runTask t).2]).map Prod.fst = waiting s [t] := by
  cases t with
  | loginReq u req => by_cases h : u = s <;> simp [answered, waiting, LogicIo.runTask, h]
  | addSession | ping | onClose | onClosed => rfl

namespace GameServer

open Session

variable {β φ : Type}

/-- The conservation laws of the session `s`: the frames that were sent, those in
`write_bufs_` and those posted are the answers given; the requests answered, those waiting for
the logic thread and those read but not handled are the requests that arrived. -/
structure Conserves (w : Wire β φ) (s : ℕ) (tr : List (Obs β φ)) (σ : GameServer β φ) :
    Prop where
  replies : sentOn s tr ++ (σ.io s).writeBufs ++ posted (σ.io s).queue =
    (answered s (dones tr)).map fun a => w.sendMsg ⟨a.2⟩
  requests : (answered s (dones tr)).map Prod.fst ++ waiting s σ.logic.tasks ++
    (bodies (σ.io s).queue).filterMap w.loginReq = (arrivedOn s tr).filterMap w.loginReq

variable {w : Wire β φ} {s t now : ℕ} {tr out : List (Obs β φ)} {σ σ' : GameServer β φ}
  {xs : List (Signal β φ)}

/-- The records and the logic tasks that one signal of the connection `s` leads to.

**Proof sketch.** By cases on the signal. A body that is decoded and dispatched posts the task of
its message, which is a request that waits if it is a login; a frame that was sent is recorded;
`OnClose` and `OnClosed` post tasks that are no requests. -/
lemma signal_records {x : Signal β φ} (h : σ.signal w s now x = (σ', out)) :
    σ'.io = σ.io ∧ arrivedOn t out = [] ∧ dones out = [] ∧
      (sentOn t out = if t = s then sentOf [x] else []) ∧
      waiting t σ'.logic.tasks = waiting t σ.logic.tasks ++
        if t = s then (readOf [x]).filterMap w.loginReq else [] := by
  cases x with
  | asyncWrite buf =>
    cases h
    simp [arrivedOn, dones, sentOn, sentOf, readOf]
  | sent buf =>
    cases h
    by_cases ht : t = s <;> simp [arrivedOn, dones, sentOn, sentOf, readOf, ht, eq_comm (a := s)]
  | onReadBody f =>
    simp only [signal] at h
    split at h
    · split at h
      · rename_i hdec _ msg hmsg
        cases h
        by_cases ht : t = s <;> cases msg <;>
          simp [arrivedOn, dones, sentOn, sentOf, readOf, Wire.loginReq, Wire.message, hdec, hmsg,
            LogicIo.post, waiting, UserMsg.task, ht, eq_comm (a := s)]
      · cases h
        simp [arrivedOn, dones, sentOn, sentOf, readOf, Wire.loginReq, Wire.message, *]
    · cases h
      simp [arrivedOn, dones, sentOn, sentOf, readOf, Wire.loginReq, Wire.message, *]
  | onClose =>
    cases h
    simp [arrivedOn, dones, sentOn, sentOf, readOf, LogicIo.close, LogicIo.post, waiting,
      LogicIo.setSession]
  | onClosed =>
    cases h
    simp [arrivedOn, dones, sentOn, sentOf, readOf, LogicIo.post, waiting]

/-- The records and the logic tasks that the signals of a handler of the connection `s` lead
to. -/
lemma signals_records (h : σ.signals w s now xs = (σ', out)) :
    σ'.io = σ.io ∧ arrivedOn t out = [] ∧ dones out = [] ∧
      (sentOn t out = if t = s then sentOf xs else []) ∧
      waiting t σ'.logic.tasks = waiting t σ.logic.tasks ++
        if t = s then (readOf xs).filterMap w.loginReq else [] := by
  induction xs generalizing σ out with
  | nil =>
    cases h
    simp [arrivedOn, dones, sentOn, sentOf, readOf]
  | cons x xs ih =>
    cases hx : σ.signal w s now x with
    | mk σ₁ out₁ =>
      cases hxs : σ₁.signals w s now xs with
      | mk σ₂ out₂ =>
        simp only [signals, hx, hxs] at h
        cases h
        obtain ⟨hio, harr, hdone, hsent, hwait⟩ := signal_records (t := t) hx
        obtain ⟨hio', harr', hdone', hsent', hwait'⟩ := ih hxs
        refine ⟨hio'.trans hio, by simp [harr, harr'], by simp [hdone, hdone'], ?_, ?_⟩
        · rw [sentOn_append, hsent, hsent']
          split
          · exact List.filterMap_append.symm
          · rfl
        · rw [hwait', hwait, List.append_assoc]
          congr 1
          split
          · rw [← List.filterMap_append]
            exact congrArg _ List.filterMap_append.symm
          · rfl

/-- A step that changes neither the flow of `s` nor its waiting requests keeps both laws. -/
lemma Conserves.of_flow (h : Conserves w s tr σ) (hflow : (σ'.io s).flow = (σ.io s).flow)
    (hwait : waiting s σ'.logic.tasks = waiting s σ.logic.tasks) : Conserves w s tr σ' := by
  simp only [flow, Session.Flow.mk.injEq] at hflow
  obtain ⟨hbufs, hposted, hbodies⟩ := hflow
  exact ⟨by rw [hbufs, hposted, h.replies], by rw [hwait, hbodies, h.requests]⟩

/-- The arrival of a body. -/
lemma Conserves.readDone {f : Option φ} (h : Conserves w s tr σ) (hlogic : σ'.logic = σ.logic)
    (hflow : (σ'.io s).flow =
      { (σ.io s).flow with bodies := bodies (σ.io s).queue ++ f.toList }) :
    Conserves w s (tr ++ f.toList.map (.arrived s)) σ' := by
  simp only [flow, Session.Flow.mk.injEq] at hflow
  obtain ⟨hbufs, hposted, hbodies⟩ := hflow
  refine ⟨?_, ?_⟩
  · simpa [hbufs, hposted] using h.replies
  · simp only [hlogic, hbodies, dones_append, dones_arrived, List.append_nil,
      arrivedOn_append, arrivedOn_arrived, if_true, List.filterMap_append, ← List.append_assoc,
      h.requests]

/-- A handler of the connection `s` itself: what leaves `write_bufs_` was sent, and a body that
is dispatched joins the queue of the logic thread. -/
lemma Conserves.io {hd : Handler β φ} {rest : List (Handler β φ)} {y : Session β φ}
    (h : Conserves w s tr σ) (hqueue : (σ.io s).queue = hd :: rest)
    (hout : Outcome w.hooks { σ.io s with queue := rest } hd y xs)
    (hsig : (σ.setIo s y).signals w s now xs = (σ', out)) : Conserves w s (tr ++ out) σ' := by
  obtain ⟨hio, harr, hdone, hsent, hwait⟩ := signals_records (t := s) hsig
  have hy : σ'.io s = y := by simp [hio, setIo]
  rw [if_pos rfl] at hsent hwait
  have houtbound := hout.outbound
  have hinbound := hout.inbound
  refine ⟨?_, ?_⟩
  · rw [sentOn_append, dones_append, hsent, hdone, List.append_nil, hy, ← h.replies, hqueue,
      List.append_assoc, List.append_assoc, List.append_assoc, ← houtbound]
    simp
  · rw [arrivedOn_append, dones_append, harr, hdone, List.append_nil, List.append_nil, hy, hwait,
      ← h.requests, hqueue, ← hinbound, List.filterMap_append]
    simp [setIo]

/-- A task of the logic thread: a request that was waiting is answered, and its answer is
posted.

**Proof sketch.** The task is taken off the queue (`LogicIo.runTask_queue`), and with it the request
that it was, which is answered now (`answered_runTask`). The answer is posted to its session, so
that it is behind what was sent and queued before. -/
lemma Conserves.logic {task : LogicTask} {ts : List LogicTask} {d : Done}
    (h : Conserves w s tr σ) (htasks : σ.logic.tasks = task :: ts)
    (hrun : { σ.logic with tasks := ts }.runTask task = (σ'.logic, d))
    (hreply : σ' = { σ with logic := σ'.logic }.reply w d) :
    Conserves w s (tr ++ [.ran d]) σ' := by
  have hts : σ'.logic.tasks = ts := by
    have hqueue := (LogicIo.runTask_queue (σ := { σ.logic with tasks := ts }) task).1
    rwa [hrun] at hqueue
  have hd : (answered s [d]).map Prod.fst = waiting s [task] := by
    rw [← answered_runTask (σ := { σ.logic with tasks := ts }), hrun]
  have hflow : (σ'.io s).flow = { (σ.io s).flow with
      posted := posted (σ.io s).queue ++ (answered s [d]).map fun a => w.sendMsg ⟨a.2⟩ } := by
    rw [hreply]
    cases d with
    | login t req res =>
      by_cases ht : t = s
      · subst ht
        simpa [reply, setIo, answered] using flow_write
      · simp [reply, setIo, answered, Ne.symm ht, flow, ht]
    | addSession | ping | delUser | onClosed => simp [reply, answered, flow]
  simp only [flow, Session.Flow.mk.injEq] at hflow
  obtain ⟨hbufs, hposted, hbodies⟩ := hflow
  have hrecords : sentOn s ([.ran d] : List (Obs β φ)) = [] ∧
      arrivedOn s ([.ran d] : List (Obs β φ)) = [] ∧
      dones ([.ran d] : List (Obs β φ)) = [d] := ⟨rfl, rfl, rfl⟩
  refine ⟨?_, ?_⟩
  · rw [sentOn_append, dones_append, hrecords.1, hrecords.2.2, List.append_nil, hbufs, hposted,
      answered_append, List.map_append, ← h.replies, List.append_assoc, List.append_assoc,
      List.append_assoc]
  · have hcons : waiting s (task :: ts) = waiting s [task] ++ waiting s ts := by
      rw [← List.singleton_append, waiting_append]
    rw [arrivedOn_append, dones_append, hrecords.2.1, hrecords.2.2, List.append_nil, hts,
      answered_append, List.map_append, hd, hbodies, ← h.requests, htasks, hcons]
    simp

/-- **Conservation.** Both laws hold for every session in every run of the server. -/
theorem conserves_of_run {G : List (Obs β φ) → GameServer β φ → Event φ → Prop}
    (h : (machine w).Run G tr σ) (s : ℕ) : Conserves w s tr σ := by
  refine h.invariant (fun tr σ => Conserves w s tr σ) ⟨rfl, rfl⟩ ?_
  intro tr σ e σ' out _ ih _ hstep
  cases step_cases hstep with
  | accept hlogic hflow =>
    rw [List.append_nil]
    exact ih.of_flow (hflow s) (by simp [hlogic, LogicIo.accept, LogicIo.post, waiting])
  | @readDone u result _ _ hlogic hflow hother =>
    by_cases hu : s = u
    · subst hu
      exact ih.readDone hlogic hflow
    · have hkeep : Conserves w s tr σ' := ih.of_flow (by rw [hother s hu]) (by rw [hlogic])
      exact ⟨by simpa using hkeep.replies, by simpa [Ne.symm hu] using hkeep.requests⟩
  | writeDone hlogic hflow | timerDone hlogic hflow =>
    rw [List.append_nil]
    exact ih.of_flow (hflow s) (by rw [hlogic])
  | @io u now hd rest y xs _ _ _ hqueue hout _ hsig =>
    by_cases hu : s = u
    · subst hu
      exact ih.io hqueue hout hsig
    · obtain ⟨hio, harr, hdone, hsent, hwait⟩ := signals_records (t := s) hsig
      rw [if_neg hu] at hsent hwait
      have hkeep : Conserves w s tr σ' :=
        ih.of_flow (by simp [hio, setIo, hu]) (by simpa [setIo] using hwait)
      exact ⟨by simpa [hsent, hdone] using hkeep.replies,
        by simpa [harr, hdone] using hkeep.requests⟩
  | logic htasks hrun hreply => exact ih.logic htasks hrun hreply

/-- **Replies match requests.** In every run and for every session: the reply frames sent,
those in `write_bufs_` and those still posted are one frame for each login request that was
answered, in the order of the answers and with the result computed for it, and the requests
answered are a prefix of the login requests that arrived.

**Proof sketch.** The two conservation laws: a step moves a request or a frame from one queue to
the next one on its way and never past another. -/
theorem replies_match (h : (machine w).Reach tr σ) (s : ℕ) :
    sentOn s tr ++ (σ.io s).writeBufs ++ posted (σ.io s).queue =
        (answered s (dones tr)).map (fun a => w.sendMsg ⟨a.2⟩) ∧
      (answered s (dones tr)).map Prod.fst <+: (arrivedOn s tr).filterMap w.loginReq := by
  have hs := conserves_of_run h s
  refine ⟨hs.replies, ?_⟩
  rw [← hs.requests, List.append_assoc]
  exact List.prefix_append _ _

/-- A request travels to the logic thread, and its answer back. -/
theorem replies_match_login : ∃ tr σ, (machine sampleWire).Reach tr σ ∧
    (sentOn 0 tr).length = 1 ∧
    sentOn 0 tr ++ (σ.io 0).writeBufs ++ posted (σ.io 0).queue =
      (answered 0 (dones tr)).map fun a => sampleWire.sendMsg ⟨a.2⟩ := by
  obtain ⟨r, hexec, hsent⟩ : ∃ r ∈ (machine sampleWire).exec (fun _ _ _ => true) []
      (machine sampleWire).init ([.accept 0, .logic] ++ sampleReceive 0 1 (sampleLogin [117]) ++
        [.logic, .io 0 1, .writeDone 0 true, .io 0 1]), (sentOn 0 r.1).length = 1 := by
    decide +kernel
  have hrun := Machine.run_of_exec (fun _ _ _ _ => trivial) hexec
  exact ⟨r.1, r.2, hrun, hsent, (replies_match hrun 0).1⟩

end GameServer

end FightingCard
