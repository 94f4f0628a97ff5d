import Mathlib.Algebra.Order.BigOperators.Group.Finset
import FightingCard.Common.Reading
import FightingCard.Server.Pool

set_option relaxedAutoImplicit false
set_option autoImplicit false

/-!
# Coming to rest

The io threads and the logic thread post tasks to each other: a body that was read becomes a task
of the logic thread, its answer becomes a task of an io thread, which starts a transmission. This
does not go on forever. Every handler and every task has a weight that is larger than that of
everything it leads to, so that the threads come to rest as long as no operation completes; and
once they are at rest, no request is left unanswered.

## Main definitions

* `FightingCard.GameServer.work` — a bound on the handlers and tasks still to run.
* `FightingCard.PooledServer.Event.byThread` — the steps that the threads take.

## Main results

* `FightingCard.GameServer.work_lt_of_step` — there is less to do after every handler and task.
* `FightingCard.PooledServer.settles` — the threads come to rest, and have answered everything
  then.
-/

namespace FightingCard

namespace GameServer

open Session

variable {β φ : Type}

/-- The steps that the threads of the program take. -/
def Event.byThread : Event φ → Bool
  | .io .. | .logic => true
  | .accept _ | .readDone .. | .writeDone .. | .timerDone _ => false

/-- The weight of a connection: that of its handlers, and that of the tasks which the bodies it
has read lead to. -/
def sessionWork (x : Session β φ) : ℕ := 2 * x.work + 6 * (bodies x.queue).length

/-- The weight of a task. A login leads to a `Write` task of its connection. -/
def taskWork : LogicTask → ℕ
  | .loginReq .. => 7
  | .addSession _ | .ping _ | .onClose _ | .onClosed _ => 1

/-- The weight of what is still to run. -/
def work (σ : GameServer β φ) : ℕ :=
  ∑ s ∈ Finset.range σ.logic.accepted, sessionWork (σ.io s) + (σ.logic.tasks.map taskWork).sum

variable {w : Wire β φ} {s now : ℕ} {σ σ' : GameServer β φ} {out : List (Obs β φ)}

/-- The weight when one connection changes. -/
lemma work_setIo {x : Session β φ} (hs : s < σ.logic.accepted) :
    (σ.setIo s x).work + sessionWork (σ.io s) = σ.work + sessionWork x := by
  have hmem : s ∈ Finset.range σ.logic.accepted := Finset.mem_range.mpr hs
  have hsum := Finset.sum_erase_add _ (fun t => sessionWork (σ.io t)) hmem
  have hsum' := Finset.sum_erase_add _ (fun t => sessionWork ((σ.setIo s x).io t)) hmem
  have hrest : ∑ t ∈ (Finset.range σ.logic.accepted).erase s, sessionWork ((σ.setIo s x).io t) =
      ∑ t ∈ (Finset.range σ.logic.accepted).erase s, sessionWork (σ.io t) :=
    Finset.sum_congr rfl fun t ht => by simp [setIo, Finset.ne_of_mem_erase ht]
  have hself : (σ.setIo s x).io s = x := by simp [setIo]
  rw [hrest, hself] at hsum'
  simp only [work]
  change ∑ t ∈ Finset.range σ.logic.accepted, sessionWork ((σ.setIo s x).io t) +
    (σ.logic.tasks.map taskWork).sum + sessionWork (σ.io s) = _
  omega

/-- The weight when only the tasks of the logic thread change. -/
lemma work_of_io (hio : σ'.io = σ.io) (hacc : σ'.logic.accepted = σ.logic.accepted) :
    σ'.work + (σ.logic.tasks.map taskWork).sum =
      σ.work + (σ'.logic.tasks.map taskWork).sum := by
  simp only [work, hio, hacc]
  omega

/-- The weight of a task that a message is dispatched to. -/
lemma taskWork_task_le {msg : UserMsg} : taskWork (msg.task s) ≤ 7 := by
  cases msg <;> simp [UserMsg.task, taskWork]

/-- A handler takes its own body off the queue, and no other. -/
lemma bodies_of_outcome {x y : Session β φ} {hooks : Hooks φ} {h : Handler β φ}
    {xs : List (Signal β φ)} (ho : Outcome hooks x h y xs) :
    bodies y.queue = bodies x.queue := by
  cases ho with
  | queued hflow | sent _ hflow | accepted _ hflow | rejected _ hflow | other _ _ hflow =>
    exact congrArg Flow.bodies hflow

/-- The task that the signals of a handler post weighs one, and six more if the handler has read a
body. -/
lemma Signalled.taskWork_le {x : Session β φ} {h : Handler β φ} {rest : List (Handler β φ)}
    {xs : List (Signal β φ)} {logic logic' : LogicIo} (hs : Signalled w s x xs logic logic')
    (hqueue : x.queue = h :: rest) : logic'.accepted = logic.accepted ∧
      (logic'.tasks.map taskWork).sum ≤
        (logic.tasks.map taskWork).sum + 1 + 6 * (bodies [h]).length := by
  have hpost : ∀ t, ((logic.tasks ++ [t]).map taskWork).sum =
      (logic.tasks.map taskWork).sum + taskWork t := by simp
  cases hs with
  | quiet => exact ⟨rfl, by omega⟩
  | @dispatch f _ msg hqueue' hmsg =>
    obtain ⟨rfl, -⟩ := List.cons.inj (hqueue.symm.trans hqueue')
    refine ⟨rfl, (hpost _).le.trans ?_⟩
    have hle : taskWork (msg.task s) ≤ 7 := taskWork_task_le
    have hone : (bodies [(.readBody (.ok f) : Handler β φ)]).length = 1 := rfl
    omega
  | close => exact ⟨rfl, (hpost _).le.trans (Nat.le_add_right _ _)⟩
  | onClosed => exact ⟨rfl, (hpost _).le.trans (Nat.le_add_right _ _)⟩

/-- **A handler.** What it leads to weighs less than what it has done. -/
lemma work_lt_of_io (h : σ.step w (.io s now) = some (σ', out)) : σ'.work < σ.work := by
  simp only [step] at h
  split at h
  · obtain ⟨⟨y, xs⟩, hrun, hsig⟩ := Option.map_eq_some_iff.mp h
    have hwork := work_runHandler_lt hrun
    obtain ⟨hd, rest, hqueue, hcases⟩ := runHandler_cases hrun
    have hset := work_setIo (σ := σ) (x := y) ‹_›
    obtain ⟨hacc, htasks⟩ := (signalled hqueue hcases.outcome hsig).1.taskWork_le hqueue
    have hmove := work_of_io (signals_records (t := s) hsig).1 hacc
    have hbodies := congrArg List.length (bodies_of_outcome hcases.outcome)
    have hfront : (bodies (σ.io s).queue).length =
        (bodies [hd]).length + (bodies rest).length := by
      rw [hqueue, ← List.singleton_append, bodies_append, List.length_append]
    have hlogic : (σ.setIo s y).logic = σ.logic := rfl
    simp only [sessionWork, hlogic] at *
    omega
  · cases h

/-- The `Write` task of an answer weighs less than the login task that gave it. -/
lemma work_reply_lt {logic logic' : LogicIo} {t : LogicTask} {d : Done} (hσ : σ.logic = logic')
    (hrun : logic.runTask t = (logic', d)) (ht : t.session < logic'.accepted) :
    (σ.reply w d).work < σ.work + taskWork t := by
  cases t with
  | loginReq s req =>
    obtain ⟨res, rfl⟩ : ∃ res, d = .login s req res := ⟨_, (congrArg Prod.snd hrun).symm⟩
    have hset := work_setIo (σ := σ) (s := s) (x := (σ.io s).write (w.sendMsg ⟨res⟩)) (hσ ▸ ht)
    have hwrite : ∀ buf, sessionWork ((σ.io s).write buf) = sessionWork (σ.io s) + 6 := by
      intro buf
      have hbodies : bodies ((σ.io s).write buf).queue = bodies (σ.io s).queue := by
        simp [Session.write, post, bodies]
      rw [sessionWork, sessionWork, hbodies, Session.write, work_post, handlerWork]
      omega
    rw [hwrite] at hset
    simp only [reply, taskWork]
    omega
  | addSession s | ping s | onClose s | onClosed s =>
    obtain rfl := (congrArg Prod.snd hrun).symm
    exact Nat.lt_succ_self _

/-- **A task.** What it leads to weighs less than the task. -/
lemma work_lt_of_logic (hσ : σ.logic.WellFormed) (h : σ.step w .logic = some (σ', out)) :
    σ'.work < σ.work := by
  cases step_cases h with
  | @logic t ts d _ htasks hrun hreply =>
    obtain ⟨hqueue, hacc⟩ := LogicIo.runTask_queue (σ := { σ.logic with tasks := ts }) t
    rw [hrun] at hqueue hacc
    have ht : t.session < σ'.logic.accepted := by
      rw [hacc]
      exact hσ.tasks t (htasks ▸ List.mem_cons_self)
    have hweight : (σ.logic.tasks.map taskWork).sum =
        taskWork t + (σ'.logic.tasks.map taskWork).sum := by
      rw [htasks, hqueue, List.map_cons, List.sum_cons]
    have hmove : ({ σ with logic := σ'.logic } : GameServer β φ).work +
        (σ.logic.tasks.map taskWork).sum = σ.work + (σ'.logic.tasks.map taskWork).sum :=
      work_of_io rfl hacc
    have hanswer := work_reply_lt (w := w) (σ := { σ with logic := σ'.logic }) rfl hrun ht
    rw [← hreply] at hanswer
    omega

/-- **There is less to do after every step of a thread**, and no body arrives in it. -/
theorem work_lt_of_step {e : Event φ} (hσ : σ.logic.WellFormed) (he : e.byThread = true)
    (h : σ.step w e = some (σ', out)) : σ'.work < σ.work ∧ ∀ s, arrivedOn s out = [] := by
  cases e with
  | accept | readDone | writeDone | timerDone => cases he
  | io s now =>
    refine ⟨work_lt_of_io h, fun t => ?_⟩
    cases step_cases h with
    | io _ _ _ _ hsig => exact (signals_records hsig).2.1
  | logic =>
    refine ⟨work_lt_of_logic hσ h, fun t => ?_⟩
    cases step_cases h
    rfl

end GameServer

namespace PooledServer

open GameServer (Obs arrivedOn sentOn dones)

variable {β φ : Type} {w : Wire β φ} {σ σ' : PooledServer β φ} {tr out : List (Obs β φ)}

/-- The steps that the threads of the program take. -/
def Event.byThread : Event φ → Bool
  | .io .. | .logic => true
  | .accept _ | .acceptError | .readDone .. | .writeDone .. | .timerDone _ => false

/-- A step of a thread is one of the view. -/
lemma byThread_event {e : Event φ} {e' : GameServer.Event φ} (he : e.byThread = true)
    (he' : e' ∈ σ.event e) : e'.byThread = true := by
  cases e with
  | io i now =>
    obtain ⟨p, -, rfl⟩ := Option.map_eq_some_iff.mp he'
    rfl
  | logic =>
    cases he'
    rfl
  | accept | acceptError | readDone | writeDone | timerDone => cases he

/-- The step of a thread lowers the weight of the view, and no body arrives in it. -/
lemma work_view_lt {G : List (Obs β φ) → PooledServer β φ → Event φ → Prop} {size : ℕ}
    {e : Event φ} (hrun : (machine w size).Run G tr σ) (he : e.byThread = true)
    (h : σ.step w e = some (σ', out)) : σ'.view.work < σ.view.work ∧
      ∀ s, arrivedOn s out = [] := by
  obtain ⟨hσ, hreach⟩ := view_reach hrun
  have hwf := LogicIo.wellFormed_of_run (GameServer.logic_reach hreach)
  obtain ⟨-, ⟨rfl, -⟩ | ⟨e', he', hview⟩⟩ := hσ.step hwf h
  · cases he
  · exact GameServer.work_lt_of_step hwf (byThread_event he he') hview

/-- The queues are empty when no thread has a step left. -/
lemma queues_eq_nil (hσ : σ.Placed) (hrest : ∀ e : Event φ, e.byThread = true →
    σ.step w e = none) : σ.server.logic.tasks = [] ∧ ∀ i, σ.queues i = [] := by
  constructor
  · have hlogic := hrest .logic rfl
    simp only [step, serverStep, GameServer.step] at hlogic
    cases htasks : σ.server.logic.tasks with
    | nil => rfl
    | cons t ts => simp [htasks] at hlogic
  · intro i
    have hio := hrest (.io i 0) rfl
    simp only [step, serverStep, GameServer.step] at hio
    cases hqueue : σ.queues i with
    | nil => rfl
    | cons p rest =>
      have hp : p.1 < σ.server.logic.accepted := hσ.accepted i p (hqueue ▸ List.mem_cons_self)
      simp [hqueue, take, GameServer.setIo, hp, Session.runHandler] at hio

/-- And no thread has a step left when the queues are empty. -/
lemma step_eq_none (hσ : σ.Placed) (htasks : σ.server.logic.tasks = [])
    (hqueues : ∀ s < σ.server.logic.accepted, σ.queues (σ.ioService s) = []) {e : Event φ}
    (he : e.byThread = true) : σ.step w e = none := by
  cases e with
  | accept | acceptError | readDone | writeDone | timerDone => cases he
  | logic => simp [step, htasks]
  | io i now =>
    cases hqueue : σ.queues i with
    | nil => simp [step, hqueue]
    | cons p rest =>
      have hmem : p ∈ σ.queues i := hqueue ▸ List.mem_cons_self
      have hempty := hqueues p.1 (hσ.accepted i p hmem)
      rw [hσ.service i p hmem, hqueue] at hempty
      cases hempty

/-- **The threads come to rest.** From any state that is reached, however the threads take turns,
they take no more steps than the weight of the state allows as long as no operation completes; and
once none of them has a step left, the requests of every connection that have been answered are
those that had arrived, in order, and the answers that have not been sent are in `write_bufs_`.

**Proof sketch.** Every step of a thread lowers the weight (`GameServer.work_lt_of_step`). At rest
there are no tasks and no handlers, and the conservation laws leave no other place for a
request or an answer. -/
theorem settles {size : ℕ} (h : (machine w size).Reach tr σ) {es : List (Event φ)}
    {r : List (Obs β φ) × PooledServer β φ}
    (hexec : (machine w size).exec (fun _ _ e => e.byThread) tr σ es = some r) :
    es.length ≤ σ.view.work ∧
      ((∀ e : Event φ, e.byThread = true → r.2.step w e = none) → ∀ s,
        (answered s (dones r.1)).map Prod.fst = (arrivedOn s tr).filterMap w.loginReq ∧
        sentOn s r.1 ++ (r.2.server.io s).writeBufs =
          (answered s (dones r.1)).map fun a => w.sendMsg ⟨a.2⟩) := by
  constructor
  · have hle := Machine.length_le_of_exec (G := fun _ _ _ => True)
      (fun σ : PooledServer β φ => σ.view.work) (fun _ _ _ _ => trivial)
      (fun _ _ _ _ _ hrun he hstep => (work_view_lt hrun he hstep).1) h hexec
    exact Nat.le_of_add_right_le hle
  · intro hrest s
    obtain ⟨hσ, hreach⟩ := view_reach (h.exec (fun _ _ _ _ => trivial) hexec)
    obtain ⟨htasks, hqueues⟩ := queues_eq_nil hσ hrest
    have harrived : arrivedOn s r.1 = arrivedOn s tr :=
      h.exec_invariant (fun tr' _ => arrivedOn s tr' = arrivedOn s tr)
        (fun _ _ _ _ => trivial) (fun tr' _ _ _ out hrun htr he hstep => by
          rw [GameServer.arrivedOn_append, htr, (work_view_lt hrun he hstep).2, List.append_nil])
        rfl hexec
    have hqueue : (r.2.view.io s).queue = [] := by
      simp [view, GameServer.behind, Session.behind, hσ.flushed s, hqueues, handlersOf]
    have hs := GameServer.conserves_of_run hreach s
    have hrequests := hs.requests
    have hreplies := hs.replies
    rw [hqueue] at hrequests hreplies
    have hnone : waiting s r.2.view.logic.tasks = [] := by
      change waiting s r.2.server.logic.tasks = []
      rw [htasks]
      rfl
    rw [hnone, harrived] at hrequests
    refine ⟨?_, ?_⟩
    · simpa [Session.bodies] using hrequests
    · have hbufs : (r.2.view.io s).writeBufs = (r.2.server.io s).writeBufs := rfl
      simpa [Session.posted, hbufs] using hreplies

/-- A request has been read; the threads answer it and come to rest. -/
theorem settles_login : ∃ (tr tr' : List (Obs UserBuffer UserBuffer))
    (σ σ' : PooledServer UserBuffer UserBuffer), (machine sampleWire 1).Reach tr σ ∧
      4 ≤ σ.view.work ∧ (∀ e : Event UserBuffer, e.byThread = true → σ'.step sampleWire e = none) ∧
      (answered 0 (dones tr')).length = 1 ∧
      (answered 0 (dones tr')).map Prod.fst = (arrivedOn 0 tr).filterMap sampleWire.loginReq ∧
      sentOn 0 tr' ++ (σ'.server.io 0).writeBufs =
        (answered 0 (dones tr')).map fun a => sampleWire.sendMsg ⟨a.2⟩ := by
  obtain ⟨r, hexec, r', hexec', hanswered, htasks, hqueues⟩ :
      ∃ r ∈ (machine sampleWire 1).exec (fun _ _ _ => true) [] (machine sampleWire 1).init
        [.accept 0, .readDone 0 (some (sampleLogin [117])), .io 0 0,
          .readDone 0 (some (sampleLogin [117]))],
      ∃ r' ∈ (machine sampleWire 1).exec (fun _ _ e => e.byThread) r.1 r.2
        [.io 0 1, .logic, .logic, .io 0 1], (answered 0 (dones r'.1)).length = 1 ∧
          r'.2.server.logic.tasks = [] ∧
          ∀ s < r'.2.server.logic.accepted, r'.2.queues (r'.2.ioService s) = [] := by
    decide +kernel
  have hrun := Machine.run_of_exec (G := fun _ _ _ => True) (fun _ _ _ _ => trivial) hexec
  have hplaced := (view_reach (hrun.exec (fun _ _ _ _ => trivial) hexec')).1
  have hrest : ∀ e : Event UserBuffer, e.byThread = true → r'.2.step sampleWire e = none :=
    fun _ => step_eq_none hplaced htasks hqueues
  obtain ⟨hsteps, hsettled⟩ := settles hrun hexec'
  exact ⟨r.1, r'.1, r.2, r'.2, hrun, hsteps, hrest, hanswered, hsettled hrest 0⟩

end PooledServer

end FightingCard
