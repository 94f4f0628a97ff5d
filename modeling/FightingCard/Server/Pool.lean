import FightingCard.Common.IoServicePool
import FightingCard.Server.Replies

set_option relaxedAutoImplicit false
set_option autoImplicit false

/-!
# The server on its pool of io threads

`FightingCard.GameServer` gives every connection a queue of its own. In the program the
connections share the io services of a pool (`server/gameserver.cpp`, `common/server.h`,
`common/io_service_pool.cpp`): each io service is run by one thread and has one queue, in which
the handlers of all its connections wait behind each other. `DoAccept` takes an io service from
the pool when it starts to wait for a connection; after an error it does not wait again.

This file has the server with the shared queues and shows that it refines the one without: the
handlers of a connection are a subsequence of the queue of its io service.

## Main definitions

* `FightingCard.PooledServer` — the server on a pool; `FightingCard.PooledServer.machine` — its
  steps.
* `FightingCard.PooledServer.view` — the server as if every connection had its own queue.
* `FightingCard.PooledServer.Placed` — where handlers and connections are.

## Main results

* `FightingCard.PooledServer.pool_refines` — a run of the pooled server is a run of the server.
* `FightingCard.PooledServer.accept_takes_turns` — the io services are shared out evenly, and
  nothing is accepted after an error.
-/

namespace FightingCard

/-! ## The server with other handlers in front -/

namespace GameServer

variable {β φ : Type} {w : Wire β φ} {s t now : ℕ} {σ σ' : GameServer β φ}
variable {q : ℕ → List (Handler β φ)} {out : List (Obs β φ)}

/-- The server with the handlers `q s` queued on every connection `s` before its own. -/
def behind (σ : GameServer β φ) (q : ℕ → List (Handler β φ)) : GameServer β φ :=
  { σ with io := fun s => (σ.io s).behind (q s) }

/-- Changing a connection commutes with handlers in front. -/
@[simp] lemma setIo_behind {x : Session β φ} :
    (σ.behind q).setIo s (x.behind (q s)) = (σ.setIo s x).behind q := by
  simp only [behind, setIo, GameServer.mk.injEq, and_true, true_and]
  funext t
  by_cases ht : t = s
  · subst ht
    simp
  · simp [ht]

/-- So does accepting one. -/
lemma accept_behind : (σ.behind q).accept now = (σ.accept now).behind q := by
  have hset : ∀ x : Session β φ, ((σ.behind q).setIo σ.logic.accepted
      (x.behind (q σ.logic.accepted))).io = ((σ.setIo σ.logic.accepted x).behind q).io :=
    fun x => by rw [setIo_behind]
  have hlogic : (σ.behind q).logic = σ.logic := rfl
  have hio : (σ.behind q).io σ.logic.accepted =
      (σ.io σ.logic.accepted).behind (q σ.logic.accepted) := rfl
  simp only [accept, hlogic, hio, Session.armTimer_behind, Session.asyncRead_behind, hset]
  rfl

/-- So does what a handler does outside of its connection. -/
lemma signal_behind {x : Session.Signal β φ} : (σ.behind q).signal w s now x =
    ((σ.signal w s now x).1.behind q, (σ.signal w s now x).2) := by
  cases x with
  | onReadBody f =>
    simp only [signal]
    split
    · split <;> rfl
    · rfl
  | asyncWrite | sent | onClose | onClosed => rfl

/-- So does all that a handler does outside of its connection. -/
lemma signals_behind {xs : List (Session.Signal β φ)} : (σ.behind q).signals w s now xs =
    ((σ.signals w s now xs).1.behind q, (σ.signals w s now xs).2) := by
  induction xs generalizing σ with
  | nil => rfl
  | cons x xs ih => simp only [signals, signal_behind, ih]

/-- So does a reply. -/
lemma reply_behind {d : Done} : (σ.behind q).reply w d = (σ.reply w d).behind q := by
  cases d with
  | login s req res =>
    have hio : (σ.behind q).io s = (σ.io s).behind (q s) := rfl
    simp only [reply, hio, Session.write_behind, setIo_behind]
  | addSession | ping | delUser | onClosed => rfl

/-- **Handlers in front are not noticed.** A step that runs no handler.

**Proof sketch.** By cases on the event. The operations of a connection commute with handlers in
front (`Session.completeRead_behind` and its like), and so does the reply of a task
(`reply_behind`). -/
theorem step_behind {e : Event φ} (he : ∀ s now, e ≠ .io s now)
    (h : σ.step w e = some (σ', out)) : (σ.behind q).step w e = some (σ'.behind q, out) := by
  have hlogic : (σ.behind q).logic = σ.logic := rfl
  have hio : ∀ s, (σ.behind q).io s = (σ.io s).behind (q s) := fun _ => rfl
  cases e with
  | accept now =>
    cases h
    simp only [step, accept_behind]
  | readDone s result =>
    simp only [step] at h ⊢
    split at h
    · obtain ⟨x, hx, heq⟩ := Option.map_eq_some_iff.mp h
      cases heq
      rw [hlogic, if_pos ‹_›, hio, Session.completeRead_behind, hx]
      simp only [Option.map_some, setIo_behind]
      rfl
    · cases h
  | writeDone s ok =>
    simp only [step] at h ⊢
    split at h
    · obtain ⟨x, hx, heq⟩ := Option.map_eq_some_iff.mp h
      cases heq
      rw [hlogic, if_pos ‹_›, hio, Session.completeWrite_behind, hx]
      simp only [Option.map_some, setIo_behind]
    · cases h
  | timerDone s =>
    simp only [step] at h ⊢
    split at h
    · obtain ⟨x, hx, heq⟩ := Option.map_eq_some_iff.mp h
      cases heq
      rw [hlogic, if_pos ‹_›, hio, Session.expireTimer_behind, hx]
      simp only [Option.map_some, setIo_behind]
    · cases h
  | io s now => exact absurd rfl (he s now)
  | logic =>
    simp only [step, hlogic] at h ⊢
    split at h
    · cases h
    · cases h
      exact congrArg some (Prod.ext (reply_behind (σ := { σ with logic := _ })) rfl)

/-- **Handlers behind are not noticed.** A step that runs a handler, on a server where the other
handlers of its connection are queued behind it. -/
theorem step_io_behind {h : Handler β φ} (hstep : (σ.setIo s
    { σ.io s with queue := [h] }).step w (.io s now) = some (σ', out)) :
    ((σ.behind q).setIo s { σ.io s with queue := h :: q s }).step w (.io s now) =
      some (σ'.behind q, out) := by
  have hset : ∀ y x : Session β φ, ((σ.behind q).setIo s y).setIo s (x.behind (q s)) =
      ((σ.setIo s { σ.io s with queue := [h] }).setIo s x).behind q := by
    intro y x
    have hput : ∀ (τ : GameServer β φ) (y x : Session β φ),
        (τ.setIo s y).setIo s x = τ.setIo s x := fun τ y x => by simp [setIo]
    rw [hput, hput, setIo_behind]
  simp only [step] at hstep ⊢
  split at hstep
  · obtain ⟨⟨y, xs⟩, hrun, heq⟩ := Option.map_eq_some_iff.mp hstep
    have hs : s < ((σ.behind q).setIo s { σ.io s with queue := h :: q s }).logic.accepted := ‹_›
    rw [if_pos hs]
    have hfront : ((σ.setIo s { σ.io s with queue := [h] }).io s) =
      ({ σ.io s with queue := [h] } : Session β φ) := by simp [setIo]
    have hfront' : (((σ.behind q).setIo s { σ.io s with queue := h :: q s }).io s) =
      ({ σ.io s with queue := h :: q s } : Session β φ) := by simp [setIo]
    rw [hfront] at hrun
    have hnot : ((σ.behind q).setIo s { σ.io s with queue := h :: q s }).notAlive s now =
      (σ.setIo s { σ.io s with queue := [h] }).notAlive s now := rfl
    rw [hfront', Session.runHandler_behind, hnot, hrun]
    simp only [Option.map_some, hset, signals_behind]
    exact congrArg some (by rw [heq])
  · cases hstep

/-- The connection that a step is about. -/
def subject (σ : GameServer β φ) : Event φ → Option ℕ
  | .accept _ => some σ.logic.accepted
  | .readDone s _ | .writeDone s _ | .timerDone s | .io s _ => some s
  | .logic => σ.logic.tasks.head?.map LogicTask.session

/-- A step leaves the connections as they are that it is not about.

**Proof sketch.** By cases on the event. It changes the connection that it is about and no other; a
task is about its own session, the only one that it answers. -/
lemma io_eq_of_step {e : Event φ} (h : σ.step w e = some (σ', out)) (ht : t ∉ σ.subject e) :
    σ'.io t = σ.io t := by
  have hset : ∀ {s : ℕ} {x : Session β φ}, t ∉ some s → (σ.setIo s x).io t = σ.io t := by
    intro s x hs
    exact Function.update_of_ne (fun heq => hs (congrArg some heq.symm)) _ _
  cases e with
  | accept now =>
    cases h
    exact hset ht
  | readDone s result | writeDone s ok | timerDone s =>
    simp only [step] at h
    split at h
    · obtain ⟨x, -, heq⟩ := Option.map_eq_some_iff.mp h
      cases heq
      exact hset ht
    · cases h
  | io s now =>
    cases step_cases h with
    | io _ _ _ _ hsig => rw [(signals_records (t := s) hsig).1, hset ht]
  | logic =>
    cases step_cases h with
    | @logic u ts d _ htasks hrun hreply =>
      have hd : ∀ s req res, d = .login s req res → t ≠ s := by
        rintro s req res rfl rfl
        refine ht ?_
        simp only [subject, htasks, List.head?_cons, Option.map_some, Option.mem_some_iff]
        cases u with
        | loginReq s' req' =>
          simp only [LogicIo.runTask, Prod.mk.injEq, Done.login.injEq] at hrun
          exact hrun.2.1
        | addSession | ping | onClose | onClosed => cases congrArg Prod.snd hrun
      rw [hreply]
      cases d with
      | login s req res => exact Function.update_of_ne (hd s req res rfl) _ _
      | addSession | ping | delUser | onClosed => rfl

/-- Only an accept changes the number of connections. -/
lemma accepted_of_step {e : Event φ} (h : σ.step w e = some (σ', out)) :
    σ'.logic.accepted = σ.logic.accepted ∨
      ∃ now, e = .accept now ∧ σ'.logic.accepted = σ.logic.accepted + 1 := by
  cases step_cases h with
  | accept hlogic => exact .inr ⟨_, rfl, congrArg LogicIo.accepted hlogic⟩
  | readDone _ hlogic | writeDone hlogic | timerDone hlogic =>
    exact .inl (congrArg LogicIo.accepted hlogic)
  | io _ hqueue hout _ hsig =>
    have hsignal := (signalled hqueue hout hsig).1
    generalize σ'.logic = τ at hsignal
    cases hsignal <;> exact .inl rfl
  | @logic u ts _ _ htasks hrun =>
    have hacc := (LogicIo.runTask_queue (σ := { σ.logic with tasks := ts }) u).2
    rw [hrun] at hacc
    exact .inl hacc

/-- A step other than an accept is about an accepted connection. -/
lemma subject_lt_of_step {e : Event φ} (hσ : σ.logic.WellFormed) (he : ∀ now, e ≠ .accept now)
    (h : σ.step w e = some (σ', out)) (hs : s ∈ σ.subject e) : s < σ.logic.accepted := by
  cases e with
  | accept now => exact absurd rfl (he now)
  | readDone t result | writeDone t ok | timerDone t | io t now =>
    simp only [step] at h
    split at h
    · exact Option.some.inj hs ▸ ‹_›
    · cases h
  | logic =>
    obtain ⟨u, hu, rfl⟩ := Option.map_eq_some_iff.mp hs
    exact hσ.tasks u (List.mem_of_mem_head? hu)

end GameServer

/-! ## State and steps -/

/-- The server on a pool of io services: the pool, the io service for the next connection while
`async_accept` is outstanding, the server without the queues of its connections, the io service
of every connection, and the queue of every io service. -/
structure PooledServer (β φ : Type) where
  pool : IoServicePool
  accepting : Option ℕ := none
  server : GameServer β φ := {}
  ioService : ℕ → ℕ := fun _ => 0
  queues : ℕ → List (ℕ × Handler β φ) := fun _ => []

namespace PooledServer

open GameServer (Obs)

variable {β φ : Type}

/-- What can happen next: a connection is accepted or `async_accept` fails, an outstanding
operation of a connection completes, the thread of an io service runs the next handler, or the
logic thread runs its next task. -/
inductive Event (φ : Type) where
  | accept (now : ℕ)
  | acceptError
  | readDone (s : ℕ) (result : Option φ)
  | writeDone (s : ℕ) (ok : Bool)
  | timerDone (s : ℕ)
  | io (i : ℕ) (now : ℕ)
  | logic

section Step

variable (w : Wire β φ) (s : ℕ) (σ : PooledServer β φ)

/-- `DoAccept()`: `GetSessionIoService` is called when the wait for a connection starts. -/
def doAccept : PooledServer β φ :=
  match σ.pool.getIoService with
  | some (pool, i) => { σ with pool, accepting := some i }
  | none => { σ with accepting := none }

/-- The handlers that the connection `s` has queued go to the queue of its io service. -/
def flush : PooledServer β φ :=
  { σ with
    server := σ.server.setIo s { σ.server.io s with queue := [] }
    queues := Function.update σ.queues (σ.ioService s)
      (σ.queues (σ.ioService s) ++ (σ.server.io s).queue.map fun h => (s, h)) }

/-- A step of the server that concerns the connection `s`. -/
def serverStep (e : GameServer.Event φ) : Option (PooledServer β φ × List (Obs β φ)) :=
  (σ.server.step w e).map fun (server, out) => ({ σ with server }.flush s, out)

/-- The handler `h` of the connection `s` is taken from the queue of the io service `i`. -/
def take (i s : ℕ) (h : Handler β φ) (rest : List (ℕ × Handler β φ)) : PooledServer β φ :=
  { σ with
    server := σ.server.setIo s { σ.server.io s with queue := [h] }
    queues := Function.update σ.queues i rest }

/-- One step of the pooled server. -/
def step (σ : PooledServer β φ) : Event φ → Option (PooledServer β φ × List (Obs β φ))
  | .accept now =>
    σ.accepting.map fun i =>
      let s := σ.server.logic.accepted
      let σ := { σ with
        server := σ.server.accept now
        ioService := Function.update σ.ioService s i }
      ((σ.flush s).doAccept, [])
  | .acceptError => σ.accepting.map fun _ => ({ σ with accepting := none }, [])
  | .readDone s result => σ.serverStep w s (.readDone s result)
  | .writeDone s ok => σ.serverStep w s (.writeDone s ok)
  | .timerDone s => σ.serverStep w s (.timerDone s)
  | .io i now =>
    match σ.queues i with
    | [] => none
    | (s, h) :: rest => (σ.take i s h rest).serverStep w s (.io s now)
  | .logic =>
    match σ.server.logic.tasks with
    | [] => none
    | t :: _ => σ.serverStep w t.session .logic

/-- The server on a pool of the given size, once `Accept` has started it. -/
def machine (size : ℕ) : Machine (PooledServer β φ) (Event φ) (Obs β φ) :=
  ⟨({ pool := ⟨size, 0⟩ } : PooledServer β φ).doAccept, step w⟩

end Step

/-! ## The view without the pool -/

/-- The handlers of the connection `s` in a queue that is shared. -/
def handlersOf (s : ℕ) (q : List (ℕ × Handler β φ)) : List (Handler β φ) :=
  q.filterMap fun p => if p.1 = s then some p.2 else none

/-- The server with the handlers of every connection put into a queue of its own. -/
def view (σ : PooledServer β φ) : GameServer β φ :=
  σ.server.behind fun s => handlersOf s (σ.queues (σ.ioService s))

/-- The step of the server that an event of the pooled server is, if it is one. -/
def event (σ : PooledServer β φ) : Event φ → Option (GameServer.Event φ)
  | .accept now => some (.accept now)
  | .acceptError => none
  | .readDone s result => some (.readDone s result)
  | .writeDone s ok => some (.writeDone s ok)
  | .timerDone s => some (.timerDone s)
  | .io i now => (σ.queues i).head?.map fun p => .io p.1 now
  | .logic => some .logic

/-- Where things are: a handler waits in the queue of the io service of its connection, which has
been accepted, and no connection keeps handlers to itself. -/
structure Placed (σ : PooledServer β φ) : Prop where
  accepted : ∀ i, ∀ p ∈ σ.queues i, p.1 < σ.server.logic.accepted
  service : ∀ i, ∀ p ∈ σ.queues i, σ.ioService p.1 = i
  flushed : ∀ s, (σ.server.io s).queue = []

variable {w : Wire β φ} {s t : ℕ} {σ σ' : PooledServer β φ} {q r : List (ℕ × Handler β φ)}

/-- The handlers of a connection in a longer queue. -/
@[simp] lemma handlersOf_append : handlersOf s (q ++ r) = handlersOf s q ++ handlersOf s r :=
  List.filterMap_append

/-- The handlers of one connection, put into a shared queue. -/
@[simp] lemma handlersOf_map {hs : List (Handler β φ)} :
    handlersOf t (hs.map fun h => (s, h)) = if s = t then hs else [] := by
  induction hs with
  | nil => simp [handlersOf]
  | cons h hs ih => by_cases hst : s = t <;> simp [handlersOf, hst]

/-- Waiting for another connection does not show. -/
@[simp] lemma view_doAccept : σ.doAccept.view = σ.view := by
  unfold doAccept
  split <;> rfl

/-- Moving the handlers of a connection to the shared queue does not change the view. -/
@[simp] lemma view_flush : (σ.flush s).view = σ.view := by
  simp only [view, flush, GameServer.behind, GameServer.setIo, GameServer.mk.injEq, and_true,
    true_and]
  funext t
  by_cases hts : t = s
  · subst hts
    simp [Session.behind]
  · by_cases hi : σ.ioService t = σ.ioService s <;> simp [hts, hi, Ne.symm hts]

/-! ## Refinement -/

/-- The handlers of a connection in the queue of its io service. -/
abbrev shared (σ : PooledServer β φ) (s : ℕ) : List (Handler β φ) :=
  handlersOf s (σ.queues (σ.ioService s))

/-- Flushing the one connection that keeps handlers to itself. -/
lemma placed_flush (hacc : ∀ i, ∀ p ∈ σ.queues i, p.1 < σ.server.logic.accepted)
    (hservice : ∀ i, ∀ p ∈ σ.queues i, σ.ioService p.1 = i) (hs : s < σ.server.logic.accepted)
    (hother : ∀ t, t ≠ s → (σ.server.io t).queue = []) : (σ.flush s).Placed := by
  have hmem : ∀ i, ∀ p ∈ (σ.flush s).queues i, p ∈ σ.queues i ∨ p.1 = s ∧ i = σ.ioService s := by
    intro i p hp
    have hqueues : (σ.flush s).queues = Function.update σ.queues (σ.ioService s)
      (σ.queues (σ.ioService s) ++ (σ.server.io s).queue.map fun h => (s, h)) := rfl
    rw [hqueues] at hp
    by_cases hi : i = σ.ioService s
    · subst hi
      rw [Function.update_self, List.mem_append, List.mem_map] at hp
      rcases hp with hp | ⟨h, -, rfl⟩
      · exact .inl hp
      · exact .inr ⟨rfl, rfl⟩
    · rw [Function.update_of_ne hi] at hp
      exact .inl hp
  refine ⟨fun i p hp => ?_, fun i p hp => ?_, fun t => ?_⟩
  · rcases hmem i p hp with hp | ⟨rfl, -⟩
    · exact hacc i p hp
    · exact hs
  · rcases hmem i p hp with hp | ⟨rfl, rfl⟩
    · exact hservice i p hp
    · rfl
  · by_cases ht : t = s
    · subst ht
      simp [flush, GameServer.setIo]
    · simp [flush, GameServer.setIo, ht, hother t ht]

/-- A step of the server about the connection `s`, once its handlers have been flushed. -/
lemma serverStep_eq_some {e : GameServer.Event φ} {out : List (Obs β φ)}
    (hacc : ∀ i, ∀ p ∈ σ.queues i, p.1 < σ.server.logic.accepted)
    (hservice : ∀ i, ∀ p ∈ σ.queues i, σ.ioService p.1 = i)
    (hother : ∀ t, t ≠ s → (σ.server.io t).queue = []) (hs : s < σ.server.logic.accepted)
    (hsubject : σ.server.subject e = some s) (h : σ.serverStep w s e = some (σ', out)) :
    σ'.Placed ∧ ∃ server, σ.server.step w e = some (server, out) ∧
      σ'.view = server.behind σ.shared := by
  obtain ⟨⟨server, out⟩, hstep, heq⟩ := Option.map_eq_some_iff.mp h
  cases heq
  have hle : σ.server.logic.accepted ≤ server.logic.accepted := by
    rcases GameServer.accepted_of_step hstep with heq | ⟨-, -, heq⟩ <;> omega
  refine ⟨placed_flush (fun i p hp => (hacc i p hp).trans_le hle) hservice (hs.trans_le hle)
    fun t ht => ?_, server, hstep, view_flush⟩
  dsimp only
  rw [GameServer.io_eq_of_step hstep (by simpa [hsubject] using Ne.symm ht), hother t ht]

/-- A step that runs no handler is one of the view. -/
lemma Placed.serverStep {e : GameServer.Event φ} {out : List (Obs β φ)} (hσ : σ.Placed)
    (hs : s < σ.server.logic.accepted) (hsubject : σ.server.subject e = some s)
    (he : ∀ s now, e ≠ .io s now) (h : σ.serverStep w s e = some (σ', out)) :
    σ'.Placed ∧ σ.view.step w e = some (σ'.view, out) := by
  obtain ⟨hplaced, server, hstep, hview⟩ := serverStep_eq_some hσ.accepted hσ.service
    (fun t _ => hσ.flushed t) hs hsubject h
  exact ⟨hplaced, hview ▸ GameServer.step_behind he hstep⟩

/-- And leaves everything in its place. -/
lemma Placed.doAccept (hσ : σ.Placed) : σ.doAccept.Placed := by
  unfold PooledServer.doAccept
  split <;> exact ⟨hσ.accepted, hσ.service, hσ.flushed⟩

/-- A connection is accepted, with no handlers of its own in any queue. -/
lemma Placed.accept {i now : ℕ} {σ₁ : PooledServer β φ} (hσ : σ.Placed)
    (hσ₁ : σ₁ = { σ with
      server := σ.server.accept now
      ioService := Function.update σ.ioService σ.server.logic.accepted i }) :
    (σ₁.flush σ.server.logic.accepted).doAccept.Placed ∧
      (σ₁.flush σ.server.logic.accepted).doAccept.view = σ.view.accept now := by
  subst hσ₁
  have hne : ∀ j, ∀ p ∈ σ.queues j, p.1 ≠ σ.server.logic.accepted := fun j p hp =>
    (hσ.accepted j p hp).ne
  constructor
  · refine (placed_flush (fun j p hp => ?_) (fun j p hp => ?_) ?_ fun t ht => ?_).doAccept
    · exact (hσ.accepted j p hp).trans (Nat.lt_succ_self _)
    · exact (Function.update_of_ne (hne j p hp) _ _).trans (hσ.service j p hp)
    · exact Nat.lt_succ_self _
    · have hio : (σ.server.accept now).io t = σ.server.io t :=
        Function.update_of_ne ht _ _
      exact (congrArg Session.queue hio).trans (hσ.flushed t)
  · rw [view_doAccept, view_flush, view, view, GameServer.accept_behind]
    congr 1
    funext t
    by_cases ht : t = σ.server.logic.accepted
    · have hnone : ∀ j, handlersOf t (σ.queues j) = [] := fun j =>
        List.filterMap_eq_nil_iff.mpr fun p hp => if_neg (ht ▸ hne j p hp)
      simp [hnone]
    · simp [ht]

/-- A handler is taken from the front of its queue.

**Proof sketch.** The handler is taken out of the shared queue and run on its connection alone; what
it posts goes to the end of the shared queue (`serverStep_eq_some`). In the view, the queue of the
connection has this handler at its front, and the queues of the other connections stay as they are.
-/
lemma Placed.io {i now : ℕ} {h : Handler β φ} {rest : List (ℕ × Handler β φ)}
    {out : List (Obs β φ)} (hσ : σ.Placed) (hqueue : σ.queues i = (s, h) :: rest)
    (hstep : (σ.take i s h rest).serverStep w s (.io s now) = some (σ', out)) :
    σ'.Placed ∧ σ.view.step w (.io s now) = some (σ'.view, out) := by
  have hmem : (s, h) ∈ σ.queues i := hqueue ▸ List.mem_cons_self
  have hi : σ.ioService s = i := hσ.service i _ hmem
  have hsub : ∀ j, ∀ p ∈ (σ.take i s h rest).queues j, p ∈ σ.queues j := by
    intro j p hp
    change p ∈ Function.update σ.queues i rest j at hp
    by_cases hj : j = i
    · subst hj
      rw [Function.update_self] at hp
      exact hqueue ▸ List.mem_cons_of_mem _ hp
    · rwa [Function.update_of_ne hj] at hp
  obtain ⟨hplaced, server, hserver, hview⟩ := serverStep_eq_some (σ := σ.take i s h rest)
    (fun j p hp => hσ.accepted j p (hsub j p hp)) (fun j p hp => hσ.service j p (hsub j p hp))
    (fun t ht => by simp [take, GameServer.setIo, ht, hσ.flushed t]) (hσ.accepted i _ hmem) rfl
    hstep
  refine ⟨hplaced, ?_⟩
  rw [hview, ← GameServer.step_io_behind (q := (σ.take i s h rest).shared) hserver]
  congr 1
  simp only [view, shared, take, GameServer.behind, GameServer.setIo, GameServer.mk.injEq,
    and_true, true_and]
  funext t
  by_cases ht : t = s
  · subst ht
    simp [hi, hqueue, handlersOf, Session.behind, hσ.flushed t]
  · by_cases hti : σ.ioService t = i
    · simp [ht, hti, hqueue, handlersOf, Ne.symm ht]
    · simp [ht, hti]

/-- **Every step is a step of the view**, except that a failed `async_accept` does not show in
it.

**Proof sketch.** By cases on the event. A completion or a task is about one connection, whose
handlers go to the queue of its io service (`Placed.serverStep`). A handler is `Placed.io` and an
accept `Placed.accept`. -/
theorem Placed.step {e : Event φ} {out : List (Obs β φ)} (hσ : σ.Placed)
    (hwf : σ.server.logic.WellFormed) (h : σ.step w e = some (σ', out)) :
    σ'.Placed ∧ (e = .acceptError ∧ σ'.view = σ.view ∧ out = [] ∨
      ∃ e' ∈ σ.event e, σ.view.step w e' = some (σ'.view, out)) := by
  -- a step of the server itself, about the connection `s`
  have about : ∀ {s : ℕ} {e' : GameServer.Event φ}, σ.server.subject e' = some s →
      (∀ s now, e' ≠ .io s now) → (∀ now, e' ≠ .accept now) → e' ∈ σ.event e →
      σ.serverStep w s e' = some (σ', out) → σ'.Placed ∧
        (e = .acceptError ∧ σ'.view = σ.view ∧ out = [] ∨
          ∃ e' ∈ σ.event e, σ.view.step w e' = some (σ'.view, out)) := by
    intro s e' hsubject hio haccept hmem hstep
    obtain ⟨⟨server, out'⟩, hserver, -⟩ := Option.map_eq_some_iff.mp hstep
    have hs := GameServer.subject_lt_of_step hwf haccept hserver hsubject
    obtain ⟨hplaced, hview⟩ := hσ.serverStep hs hsubject hio hstep
    exact ⟨hplaced, .inr ⟨e', hmem, hview⟩⟩
  cases e with
  | accept now =>
    obtain ⟨i, -, heq⟩ := Option.map_eq_some_iff.mp h
    cases heq
    obtain ⟨hplaced, hview⟩ := hσ.accept rfl
    exact ⟨hplaced, .inr ⟨_, rfl, congrArg some (Prod.ext hview.symm rfl)⟩⟩
  | acceptError =>
    obtain ⟨i, -, heq⟩ := Option.map_eq_some_iff.mp h
    cases heq
    exact ⟨⟨hσ.accepted, hσ.service, hσ.flushed⟩, .inl ⟨rfl, rfl, rfl⟩⟩
  | readDone s result | writeDone s ok | timerDone s =>
    exact about rfl (by simp) (by simp) rfl h
  | io i now =>
    simp only [PooledServer.step] at h
    split at h
    · cases h
    · rename_i s hd rest hqueue
      obtain ⟨hplaced, hview⟩ := hσ.io hqueue h
      exact ⟨hplaced, .inr ⟨_, by simp [event, hqueue], hview⟩⟩
  | logic =>
    simp only [PooledServer.step] at h
    split at h
    · cases h
    · rename_i t ts htasks
      exact about (by simp [GameServer.subject, htasks]) (by simp) (by simp) rfl h

/-- A run of the pooled server is a run of its view. A condition on the steps of the view is met
by the steps of the pooled server that are steps of the view. -/
theorem refines_of_run {G : List (Obs β φ) → GameServer β φ → GameServer.Event φ → Prop}
    {size : ℕ} {tr : List (Obs β φ)}
    (h : (machine w size).Run (fun tr σ e => ∀ e' ∈ σ.event e, G tr σ.view e') tr σ) :
    σ.Placed ∧ (GameServer.machine w).Run G tr σ.view := by
  have hplaced : (machine w size).init.Placed := by
    simp only [machine, doAccept]
    split <;> exact ⟨by simp, by simp, fun _ => rfl⟩
  have hview : (machine w size).init.view = (GameServer.machine w).init :=
    view_doAccept.trans rfl
  obtain ⟨τ, ⟨hplaced, rfl⟩, hrun⟩ := h.refine (N := GameServer.machine w) (H := G)
    (fun (σ : PooledServer β φ) τ => σ.Placed ∧ τ = σ.view) ⟨hplaced, hview.symm⟩
    fun tr σ e σ' out τ hR hrun hg hstep => by
      obtain ⟨hσ, rfl⟩ := hR
      have hwf := LogicIo.wellFormed_of_run (GameServer.logic_reach hrun)
      obtain ⟨hplaced, ⟨-, hview, rfl⟩ | ⟨e', he', hview⟩⟩ := hσ.step hwf hstep
      · exact ⟨_, ⟨hplaced, rfl⟩, by rwa [hview, List.append_nil]⟩
      · exact ⟨_, ⟨hplaced, rfl⟩, .snoc hrun (hg e' he') hview⟩
  exact ⟨hplaced, hrun⟩

/-- Whatever is asked of the run, the view is reached by the server. -/
lemma view_reach {G : List (Obs β φ) → PooledServer β φ → Event φ → Prop} {size : ℕ}
    {tr : List (Obs β φ)} (h : (machine w size).Run G tr σ) :
    σ.Placed ∧ (GameServer.machine w).Reach tr σ.view :=
  refines_of_run (h.mono fun _ _ _ _ _ _ => trivial)

/-- **Refinement.** Every run of the server on a pool of io services is a run of the server in
which every connection has a queue of its own, with the same arrivals, transmissions and tasks
in the same order. That queue has the handlers of the connection in the queue of its io service,
in their order, and no other io service has any.

**Proof sketch.** A connection does not notice the handlers in front of those that it queues, so
that a step of the shared queues is one of the queues taken apart (`Placed.step`). -/
theorem pool_refines {G : List (Obs β φ) → GameServer β φ → GameServer.Event φ → Prop}
    {size : ℕ} {tr : List (Obs β φ)}
    (h : (machine w size).Run (fun tr σ e => ∀ e' ∈ σ.event e, G tr σ.view e') tr σ) :
    (GameServer.machine w).Run G tr σ.view ∧
      (∀ s, (σ.view.io s).queue = handlersOf s (σ.queues (σ.ioService s))) ∧
      ∀ i, ∀ p ∈ σ.queues i, p.1 < σ.server.logic.accepted ∧ σ.ioService p.1 = i := by
  obtain ⟨hplaced, hrun⟩ := refines_of_run h
  refine ⟨hrun, fun s => ?_, fun i p hp => ⟨hplaced.accepted i p hp, hplaced.service i p hp⟩⟩
  simp [view, GameServer.behind, Session.behind, hplaced.flushed s]

/-- Two connections share an io service, and both of their requests are read before the first one
is handled. -/
theorem pool_refines_two : ∃ (tr : List (Obs UserBuffer UserBuffer))
    (σ : PooledServer UserBuffer UserBuffer), (σ.queues 0).map Prod.fst = [0, 1] ∧
      (GameServer.machine sampleWire).Reach tr σ.view := by
  obtain ⟨r, hexec, hqueue⟩ : ∃ r ∈ (machine sampleWire 1).exec (fun _ _ _ => true) []
      (machine sampleWire 1).init [.accept 0, .accept 0, .readDone 0 (some (sampleLogin [117])),
        .readDone 1 (some (sampleLogin [118]))], (r.2.queues 0).map Prod.fst = [0, 1] := by
    decide +kernel
  have hrun := Machine.run_of_exec (G := fun _ (σ : PooledServer _ _) e => ∀ e' ∈ σ.event e, True)
    (fun _ _ _ _ _ _ => trivial) hexec
  exact ⟨r.1, r.2, hqueue, (pool_refines hrun).1⟩

/-! ## The acceptor -/

/-- What a step does to the acceptor: a connection gets the io service that was taken for it and
`DoAccept` is called again, `async_accept` fails and it is not, or the step has nothing to do
with it. -/
inductive Acceptor (σ : PooledServer β φ) : PooledServer β φ → Prop
  | accept {i} {τ : PooledServer β φ} (hi : σ.accepting = some i) (hpool : τ.pool = σ.pool)
      (hservice : τ.ioService = Function.update σ.ioService σ.server.logic.accepted i)
      (hacc : τ.server.logic.accepted = σ.server.logic.accepted + 1) : Acceptor σ τ.doAccept
  | idle {τ : PooledServer β φ} (hawaited : τ.accepting = none ∨ τ.accepting = σ.accepting)
      (hpool : τ.pool = σ.pool) (hservice : τ.ioService = σ.ioService)
      (hacc : τ.server.logic.accepted = σ.server.logic.accepted) : Acceptor σ τ

/-- What a step does to the acceptor.

**Proof sketch.** By cases on the event. Only an accept moves the turn and only a failure ends the
accepting; a step of the server itself accepts nothing. -/
lemma acceptor_of_step {e : Event φ} {out : List (Obs β φ)} (h : σ.step w e = some (σ', out)) :
    σ.Acceptor σ' := by
  have server : ∀ {τ : PooledServer β φ} {s : ℕ} {e' : GameServer.Event φ},
      τ.accepting = σ.accepting → τ.pool = σ.pool → τ.ioService = σ.ioService →
      τ.server.logic = σ.server.logic → τ.serverStep w s e' = some (σ', out) →
      (∀ now, e' ≠ .accept now) → σ.Acceptor σ' := by
    intro τ s e' hawaited hpool hservice hlogic hstep he
    obtain ⟨⟨server, out'⟩, hserver, heq⟩ := Option.map_eq_some_iff.mp hstep
    cases heq
    rcases GameServer.accepted_of_step hserver with hacc | ⟨now, rfl, -⟩
    · exact .idle (.inr hawaited) hpool hservice (hacc.trans (congrArg LogicIo.accepted hlogic))
    · exact absurd rfl (he now)
  cases e with
  | accept now =>
    obtain ⟨i, hi, heq⟩ := Option.map_eq_some_iff.mp h
    cases heq
    exact .accept hi rfl rfl rfl
  | acceptError =>
    obtain ⟨i, -, heq⟩ := Option.map_eq_some_iff.mp h
    cases heq
    exact .idle (.inl rfl) rfl rfl rfl
  | readDone s result | writeDone s ok | timerDone s => exact server rfl rfl rfl rfl h (by simp)
  | io i now =>
    simp only [PooledServer.step] at h
    split at h
    · cases h
    · rename_i s hd rest _
      exact server (τ := σ.take i s hd rest) rfl rfl rfl rfl h (by simp)
  | logic =>
    simp only [PooledServer.step] at h
    split at h
    · cases h
    · exact server rfl rfl rfl rfl h (by simp)

/-- How the io services are shared out: the connection `s` has got that of turn `s`, and the
connection that is awaited, if one is, has got the next one. -/
structure TakesTurns (size : ℕ) (σ : PooledServer β φ) : Prop where
  services : ∀ s < σ.server.logic.accepted, σ.ioService s = s % 2 ^ 64 % size
  awaited : ∀ i ∈ σ.accepting, i = σ.server.logic.accepted % 2 ^ 64 % size ∧
    σ.pool = .afterTurns size (σ.server.logic.accepted + 1)

/-- `DoAccept` takes the next turn. -/
lemma takesTurns_doAccept {size : ℕ} (hpool : σ.pool = .afterTurns size σ.server.logic.accepted)
    (hservices : ∀ s < σ.server.logic.accepted, σ.ioService s = s % 2 ^ 64 % size) :
    σ.doAccept.TakesTurns size := by
  unfold doAccept
  by_cases hsize : size = 0
  · have hnone : σ.pool.getIoService = none := by
      rw [hpool]
      simp [IoServicePool.getIoService, IoServicePool.afterTurns, hsize]
    rw [hnone]
    exact ⟨hservices, by simp⟩
  · rw [hpool, IoServicePool.getIoService_afterTurns hsize]
    refine ⟨hservices, fun i hi => ?_⟩
    cases hi
    exact ⟨rfl, rfl⟩

/-- Every step keeps to the turns. -/
lemma TakesTurns.step {size : ℕ} (hσ : σ.TakesTurns size) (h : σ.Acceptor σ') :
    σ'.TakesTurns size := by
  cases h with
  | accept hi hpool hservice hacc =>
    obtain ⟨hturn, hafter⟩ := hσ.awaited _ hi
    refine takesTurns_doAccept (by rw [hpool, hafter, hacc]) fun s hs => ?_
    rw [hservice]
    by_cases heq : s = σ.server.logic.accepted
    · rw [heq, Function.update_self, hturn]
    · rw [Function.update_of_ne heq]
      exact hσ.services s (by omega)
  | idle hawaited hpool hservice hacc =>
    refine ⟨by rw [hservice, hacc]; exact hσ.services, fun i hi => ?_⟩
    rcases hawaited with hnone | hsame
    · rw [hnone] at hi
      cases hi
    · rw [hacc, hpool]
      exact hσ.awaited i (hsame ▸ hi)

/-- In every run the io services take turns. -/
lemma takesTurns_of_run {G : List (Obs β φ) → PooledServer β φ → Event φ → Prop} {size : ℕ}
    {tr : List (Obs β φ)} (h : (machine w size).Run G tr σ) : σ.TakesTurns size :=
  h.invariant (fun _ σ => σ.TakesTurns size) (takesTurns_doAccept rfl (by simp))
    fun _ _ _ _ _ _ ih _ hstep => ih.step (acceptor_of_step hstep)

/-- **The acceptor.** In every run the connection `s` gets the io service `s % size`, so that the
loads of two io services never differ by more than one connection, as long as the counter of the
pool has not wrapped; and after `async_accept` has failed once, no connection is accepted any
more, however long the server goes on. -/
theorem accept_takes_turns {size : ℕ} {tr : List (Obs β φ)} (h : (machine w size).Reach tr σ) :
    (∀ s < σ.server.logic.accepted, σ.ioService s = s % 2 ^ 64 % size) ∧
      (σ.server.logic.accepted ≤ 2 ^ 64 → ∀ i < size,
        Nat.count (fun s => σ.ioService s = i) σ.server.logic.accepted =
          σ.server.logic.accepted / size + if i < σ.server.logic.accepted % size then 1 else 0) ∧
      ∀ σ' out es r, σ.step w .acceptError = some (σ', out) →
        (machine w size).exec (fun _ _ _ => true) (tr ++ out) σ' es = some r →
          r.2.server.logic.accepted = σ.server.logic.accepted := by
  have hservices := (takesTurns_of_run h).services
  refine ⟨hservices, fun hwrap i hi => ?_, fun σ' out es r hstep hexec => ?_⟩
  · refine IoServicePool.count_turns hi fun s hs => ?_
    rw [hservices s hs, Nat.mod_eq_of_lt (hs.trans_le hwrap)]
  · have hrun : (machine w size).Reach (tr ++ out) σ' :=
      .snoc (e := Event.acceptError) h trivial hstep
    obtain ⟨i, -, heq⟩ := Option.map_eq_some_iff.mp hstep
    cases heq
    -- no step but `DoAccept` awaits a connection, and only an awaited one is accepted
    refine (hrun.exec_invariant (fun _ τ => τ.accepting = none ∧
      τ.server.logic.accepted = σ.server.logic.accepted) (fun _ _ _ _ => trivial)
      (fun _ τ e τ' _ _ hτ _ hnext => ?_) ⟨rfl, rfl⟩ hexec).2
    cases acceptor_of_step hnext with
    | accept hi => cases hτ.1.symm.trans hi
    | idle hawaited _ _ hacc =>
      exact ⟨hawaited.elim id fun hsame => hsame.trans hτ.1, hacc.trans hτ.2⟩

/-- Three connections on a pool of two io services. -/
theorem accept_takes_turns_three : ∃ (tr : List (Obs UserBuffer UserBuffer))
    (σ : PooledServer UserBuffer UserBuffer), (machine sampleWire 2).Reach tr σ ∧
      Nat.count (fun s => σ.ioService s = 0) σ.server.logic.accepted = 2 := by
  obtain ⟨r, hexec, hacc⟩ : ∃ r ∈ (machine sampleWire 2).exec (fun _ _ _ => true) []
      (machine sampleWire 2).init [.accept 0, .accept 0, .accept 0],
      r.2.server.logic.accepted = 3 := by
    decide +kernel
  have hrun := Machine.run_of_exec (G := fun _ _ _ => True) (fun _ _ _ _ => trivial) hexec
  refine ⟨r.1, r.2, hrun, ?_⟩
  rw [(accept_takes_turns hrun).2.1 (by omega) 0 (by decide), hacc]
  rfl

end PooledServer

end FightingCard
