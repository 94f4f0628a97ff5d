import FightingCard.Server.Pool
import FightingCard.Server.Registry

set_option relaxedAutoImplicit false
set_option autoImplicit false

/-!
# Silent connections

The server in time (`server/user_session.cpp`, `common/asio_timer.h`). Every session has a timer
that calls `CheckAlive` once in five seconds and closes the session if nothing that `Decode` accepts
has been read from it for that long, in whole seconds. The wait of a timer ends no earlier than it
should, and its handler runs at most `latency` milliseconds later; nothing else is assumed of the
threads, of the network and of the other operations.

## Main definitions

* `FightingCard.TimedServer` — the server with its clock and the ends of the waits.
* `FightingCard.TimedServer.machine` — its steps.
* `FightingCard.TimedServer.Watched` — the invariant of a session that is not closed.

## Main results

* `FightingCard.TimedServer.elapse_or_fire` — time never stops.
* `FightingCard.TimedServer.silence` — what `CheckAlive` finds out, and when.
-/

namespace FightingCard

/-! ## The timer of a connection -/

/-- The handler of a wait that was not cancelled: it starts the next one. -/
def Handler.rearms {β φ : Type} : Handler β φ → Bool
  | .timer (.ok _) | .timer .error => true
  | _ => false

namespace Session

variable {β φ : Type} {x y : Session β φ}

/-- A wait of the timer is pending, or its handler is going to run. -/
def ticking (x : Session β φ) : Bool := x.timerArmed || x.queue.any Handler.rearms

/-- More handlers do not stop the timer. -/
lemma ticking_of_queue (htimer : x.timerArmed = true → y.timerArmed = true)
    (hqueue : x.queue <+: y.queue) (hx : x.ticking = true) : y.ticking = true := by
  rcases Bool.or_eq_true _ _ ▸ hx with harmed | hready
  · simp [ticking, htimer harmed]
  · obtain ⟨h, hmem, hrearms⟩ := List.any_eq_true.mp hready
    have hlater : y.queue.any Handler.rearms = true :=
      List.any_eq_true.mpr ⟨h, hqueue.subset hmem, hrearms⟩
    simp [ticking, hlater]

/-- A timer that goes on goes on when a handler is posted. -/
lemma ticking_post {h : Handler β φ} (hx : x.ticking = true) : (x.post h).ticking = true :=
  ticking_of_queue (x := x) id (List.prefix_append _ _) hx

/-- A timer that is armed goes on. -/
lemma ticking_armTimer : x.armTimer.ticking = true := by
  simp [ticking, armTimer]

/-- It goes on when a read starts. -/
lemma ticking_asyncRead {op : ReadOp} (hx : x.ticking = true) :
    (x.asyncRead op).ticking = true := by
  unfold asyncRead
  split
  · exact hx
  · exact ticking_post hx

/-- It goes on when a write starts. -/
lemma ticking_doWrite (hx : x.ticking = true) : x.doWrite.1.ticking = true := by
  unfold doWrite
  split
  · exact hx
  · split
    · exact hx
    · exact ticking_post hx

/-- It goes on when a read completes. -/
lemma ticking_completeRead {result : Option φ} (h : x.completeRead result = some y)
    (hx : x.ticking = true) : y.ticking = true := by
  obtain ⟨op, ops, -, rfl⟩ := completeRead_eq_some h
  exact ticking_post hx

/-- It goes on when a write completes. -/
lemma ticking_completeWrite {ok : Bool} (h : x.completeWrite ok = some y)
    (hx : x.ticking = true) : y.ticking = true := by
  obtain ⟨bufs, rfl⟩ := completeWrite_eq_some h
  exact ticking_post hx

/-- A wait that ends leaves its handler. -/
lemma ticking_expireTimer (h : x.expireTimer = some y) : y.ticking = true := by
  obtain rfl := expireTimer_eq_some h
  simp [ticking, post, Handler.rearms]

variable {hooks : Hooks φ} {expired : Bool} {h : Handler β φ} {signals : List (Signal β φ)}

/-- **The timer under a handler.** A handler closes the connection, or it is that of the timer,
which finds the connection alive and goes on, or it leaves the timer alone. -/
lemma Handled.ticking (hh : Handled hooks expired x h y signals) : .onClose ∈ signals ∨
    (h.rearms = true ∧ expired = false ∧ y.ticking = true) ∨
      (h.rearms = false ∧ (x.ticking = true → y.ticking = true)) := by
  cases hh with
  | refuses | rejects | fails | expires => exact .inl (by simp)
  | queued | idle | sentLast => exact .inr (.inr ⟨rfl, id⟩)
  | started | sentNext =>
    refine .inr (.inr ⟨rfl, fun hx => ticking_doWrite ?_⟩)
    exact hx
  | closed =>
    refine .inr (.inr ⟨rfl, ticking_of_queue id ?_⟩)
    exact (List.prefix_append _ _).trans (List.prefix_append _ _)
  | readsBody | readsHeader => exact .inr (.inr ⟨rfl, ticking_asyncRead⟩)
  | aborted hh =>
    refine .inr (.inr ⟨?_, id⟩)
    rcases hh with rfl | rfl | rfl | rfl <;> rfl
  | @rearms c hc hexpired =>
    refine .inr (.inl ⟨?_, hexpired, ticking_armTimer⟩)
    cases c with
    | ok u | error => rfl
    | aborted => exact absurd rfl hc

/-- A handler that is not that of the timer leaves it as it was when the handler is taken. -/
lemma ticking_of_cons {rest : List (Handler β φ)} (hqueue : x.queue = h :: rest)
    (hrearms : h.rearms = false) (hx : x.ticking = true) :
    ({ x with queue := rest } : Session β φ).ticking = true := by
  have hfront : x.queue.any Handler.rearms = rest.any Handler.rearms := by
    simp [hqueue, hrearms]
  rw [ticking, hfront] at hx
  exact hx

/-- A handler that does not close the connection keeps the timer going. -/
lemma Handled.ticking_of_open {rest : List (Handler β φ)}
    (hh : Handled hooks expired { x with queue := rest } h y signals)
    (hqueue : x.queue = h :: rest) (hopen : .onClose ∉ signals) (hx : x.ticking = true) :
    y.ticking = true := by
  rcases hh.ticking with hclose | ⟨-, -, hy⟩ | ⟨hrearms, hy⟩
  · exact absurd hclose hopen
  · exact hy
  · exact hy (ticking_of_cons hqueue hrearms hx)

end Session

/-! ## Handlers of a session -/

namespace GameServer

open Session (Signal Handled Outcome)

variable {β φ : Type} {w : Wire β φ} {σ σ' : GameServer β φ} {s t now : ℕ}

/-- The handler is that of a body which `Decode` accepts. -/
def hears (w : Wire β φ) : Handler β φ → Bool
  | .readBody (.ok f) => w.decode f
  | _ => false

/-- A session that is open after a handler was so before, and the handler has not closed it. -/
lemma Signalled.open_of_open {x : Session β φ} {xs : List (Signal β φ)} {τ τ' : LogicIo}
    (h : Signalled w s x xs τ τ') (ht : (τ'.sessions t).closed = false) :
    (τ.sessions t).closed = false ∧ (t = s → .onClose ∉ xs) := by
  cases h with
  | quiet hxs | dispatch _ _ hxs | onClosed hxs => exact ⟨ht, fun _ => hxs⟩
  | close =>
    by_cases hts : t = s
    · simp [LogicIo.close, LogicIo.setSession, LogicIo.post, hts] at ht
    · simp only [LogicIo.close, LogicIo.setSession, LogicIo.post, Function.update_of_ne hts] at ht
      exact ⟨ht, fun h => absurd h hts⟩

/-- The time of the last message changes if a handler reads one.

**Proof sketch.** By cases on the outcome of the handler. Only a body that was read and decoded sets
the time (`hbody`); the other signals leave it. -/
lemma lastAliveTime_signals {x y : Session β φ} {h : Handler β φ} {xs : List (Signal β φ)}
    {out : List (Obs β φ)} (hout : Outcome w.hooks x h y xs)
    (hsig : σ.signals w s now xs = (σ', out)) : σ'.lastAliveTime =
      if hears w h then Function.update σ.lastAliveTime s now else σ.lastAliveTime := by
  have hbody : ∀ f : φ, (σ.signal w s now (.onReadBody f)).1.lastAliveTime =
      if w.decode f then Function.update σ.lastAliveTime s now else σ.lastAliveTime := by
    intro f
    by_cases hdec : w.decode f = true
    · simp only [signal, if_pos hdec]
      cases w.dispatch f <;> rfl
    · simp only [signal, if_neg hdec]
  cases hout with
  | queued _ hxs => rcases hxs with rfl | ⟨b, rfl⟩ <;> cases hsig <;> rfl
  | sent _ _ hxs => rcases hxs with rfl | ⟨b, rfl⟩ <;> cases hsig <;> rfl
  | accepted =>
    cases hsig
    exact hbody _
  | rejected =>
    cases hsig
    exact hbody _
  | other _ hbodies _ hxs =>
    have hdeaf : hears w h = false := by
      cases h with
      | readBody c =>
        cases c with
        | ok f => cases hbodies
        | aborted | error => rfl
      | write | close | readHeader | written | timer => rfl
    rw [hdeaf]
    rcases hxs with rfl | rfl | rfl <;> cases hsig <;> rfl

/-- **What a handler does to its session.** -/
lemma io_cases {out : List (Obs β φ)} (h : σ.step w (.io s now) = some (σ', out)) :
    ∃ hd rest y xs, s < σ.logic.accepted ∧ (σ.io s).queue = hd :: rest ∧
      Handled w.hooks (σ.notAlive s now) { σ.io s with queue := rest } hd y xs ∧
      σ'.io = Function.update σ.io s y ∧ σ'.logic.accepted = σ.logic.accepted ∧
      (∀ t, (σ'.logic.sessions t).closed = false →
        (σ.logic.sessions t).closed = false ∧ (t = s → .onClose ∉ xs)) ∧
      σ'.lastAliveTime =
        if hears w hd then Function.update σ.lastAliveTime s now else σ.lastAliveTime := by
  have hstep := h
  simp only [step] at h
  split at h
  · obtain ⟨⟨y, xs⟩, hrun, hsig⟩ := Option.map_eq_some_iff.mp h
    obtain ⟨hd, rest, hqueue, hcases⟩ := Session.runHandler_cases hrun
    refine ⟨hd, rest, y, xs, ‹_›, hqueue, hcases, (signals_records (t := s) hsig).1, ?_,
      fun t => (signalled hqueue hcases.outcome hsig).1.open_of_open,
      lastAliveTime_signals (σ := σ.setIo s y) hcases.outcome hsig⟩
    rcases accepted_of_step hstep with hacc | ⟨_, heq, -⟩
    · exact hacc
    · cases heq
  · cases h

end GameServer

namespace LogicIo

/-- The close task of a closed session waits, or it has run.

**Proof sketch.** Induction on the run. The close task is posted when the session is closed. It
stays in the queue until it runs, and then it deletes its uid. -/
lemma closeTask_of_run {G : List Done → LogicIo → Event → Prop} {done : List Done} {σ : LogicIo}
    (h : machine.Run G done σ) {s : ℕ} (hs : (σ.sessions s).closed = true) :
    .onClose s ∈ σ.tasks ∨ ∃ uid, .delUser s uid ∈ done := by
  suffices hall : ∀ s, σ.presence.closed s = true →
      .onClose s ∈ σ.tasks ∨ ∃ uid, .delUser s uid ∈ done from hall s hs
  refine h.invariant (fun done σ => ∀ s, σ.presence.closed s = true →
    .onClose s ∈ σ.tasks ∨ ∃ uid, .delUser s uid ∈ done) (by simp [machine, presence]) ?_
  intro tr σ e σ' out _ ih _ hstep s hs
  cases step_cases hstep with
  | accept hpres htasks | dispatch _ hpres htasks | onClosed _ hpres htasks =>
    rw [List.append_nil, htasks]
    exact (ih s (hpres ▸ hs)).imp_left (List.mem_append_left _)
  | @close u _ _ hpres htasks =>
    rw [List.append_nil, htasks]
    by_cases hsu : s = u
    · exact .inl (by simp [hsu])
    · rw [hpres] at hs
      exact (ih s ((Function.update_of_ne hsu _ _).symm.trans hs)).imp_left
        (List.mem_append_left _)
  | @run t _ d hran htasks =>
    rw [hran.closed_eq] at hs
    rcases ih s hs with hmem | ⟨uid, hmem⟩
    · rw [htasks] at hmem
      rcases List.mem_cons.mp hmem with rfl | hmem
      · generalize σ'.presence = p at hran
        cases hran with
        | deleted => exact .inr ⟨_, List.mem_append_right _ (List.mem_singleton_self _)⟩
        | quiet _ hclose => exact absurd rfl (hclose s)
      · exact .inl hmem
    · exact .inr ⟨uid, List.mem_append_left _ hmem⟩

end LogicIo

/-! ## The server in time -/

/-- The server with the time in milliseconds, and for every session the end of the last wait that
its timer has started. -/
structure TimedServer (β φ : Type) where
  now : ℕ := 0
  expiry : ℕ → ℕ := fun _ => 0
  server : GameServer β φ := {}

namespace TimedServer

open GameServer (notAlive hears)
open Session (Handled Outcome)

variable {β φ : Type}

/-- What a run records: what the server does, and when a session was heard of. A session is heard of
when it is made and when it has read something that `Decode` accepts. -/
inductive Obs (β φ : Type) where
  | server (o : GameServer.Obs β φ)
  | heard (s now : ℕ)

/-- What can happen next: some time passes, or the server makes a step. -/
inductive Event (φ : Type) where
  | elapse (ms : ℕ)
  | server (e : GameServer.Event φ)

/-- The period of `CheckAlive`, in milliseconds. -/
def period : ℕ := GameServer.CHECK_ALIVE_TIME * 1000

section Step

variable (w : Wire β φ) (latency : ℕ) (σ : TimedServer β φ)

/-- The step reads the clock correctly, and no wait ends too early. -/
def Timely : GameServer.Event φ → Prop
  | .accept now | .io _ now => now = σ.now / 1000
  | .timerDone s => σ.expiry s ≤ σ.now
  | .readDone .. | .writeDone .. | .logic => True

instance : (e : GameServer.Event φ) → Decidable (σ.Timely e)
  | .accept _ | .io .. => inferInstanceAs (Decidable (_ = _))
  | .timerDone _ => inferInstanceAs (Decidable (_ ≤ _))
  | .readDone .. | .writeDone .. | .logic => inferInstanceAs (Decidable True)

/-- The ends of the waits after a step: `Run` and `TimerLoop` start a wait of one period. -/
def expiryAfter : GameServer.Event φ → ℕ → ℕ
  | .accept _ => Function.update σ.expiry σ.server.logic.accepted (σ.now + period)
  | .io s _ =>
    if (σ.server.io s).queue.head?.any Handler.rearms then
      Function.update σ.expiry s (σ.now + period)
    else σ.expiry
  | _ => σ.expiry

/-- The session that is heard of in a step. -/
def heardBy : GameServer.Event φ → Option ℕ
  | .accept _ => some σ.server.logic.accepted
  | .io s _ => if (σ.server.io s).queue.head?.any (hears w) then some s else none
  | _ => none

/-- One step. No time passes over the last moment at which the handler of a wait runs. -/
def step (σ : TimedServer β φ) : Event φ → Option (TimedServer β φ × List (Obs β φ))
  | .elapse ms =>
    if ∀ s < σ.server.logic.accepted, (σ.server.io s).ticking = true →
        σ.now + ms ≤ σ.expiry s + latency then
      some ({ σ with now := σ.now + ms }, [])
    else none
  | .server e =>
    if σ.Timely e then
      (σ.server.step w e).map fun (server, out) =>
        ({ σ with expiry := σ.expiryAfter e, server },
          out.map .server ++ (σ.heardBy w e).toList.map fun s => .heard s σ.now)
    else none

/-- The server in time as a machine. -/
def machine : Machine (TimedServer β φ) (Event φ) (Obs β φ) := ⟨{}, step w latency⟩

end Step

/-- What the server did. -/
def serverOf (tr : List (Obs β φ)) : List (GameServer.Obs β φ) :=
  tr.filterMap fun
    | .server o => some o
    | .heard .. => none

variable {w : Wire β φ} {latency s t : ℕ} {tr : List (Obs β φ)} {σ σ' : TimedServer β φ}

/-- What a step does: time passes up to the limit that the timers set, or the server makes a
step, which takes no time. -/
inductive Step (w : Wire β φ) (latency : ℕ) (σ : TimedServer β φ) :
    TimedServer β φ → List (Obs β φ) → Prop
  | elapse {ms : ℕ} (hms : ∀ s < σ.server.logic.accepted, (σ.server.io s).ticking = true →
      σ.now + ms ≤ σ.expiry s + latency) : Step w latency σ { σ with now := σ.now + ms } []
  | server {e : GameServer.Event φ} {server outs} (htimely : σ.Timely e)
      (hstep : σ.server.step w e = some (server, outs)) :
      Step w latency σ { σ with expiry := σ.expiryAfter e, server }
        (outs.map .server ++ (σ.heardBy w e).toList.map fun s => .heard s σ.now)

/-- **What a step does.** -/
theorem step_cases {e : Event φ} {out : List (Obs β φ)}
    (h : σ.step w latency e = some (σ', out)) : Step w latency σ σ' out := by
  cases e with
  | elapse ms =>
    simp only [step] at h
    split at h
    · cases h
      exact .elapse ‹_›
    · cases h
  | server e =>
    simp only [step] at h
    split at h
    · obtain ⟨⟨server, outs⟩, hstep, heq⟩ := Option.map_eq_some_iff.mp h
      cases heq
      exact .server ‹_› hstep
    · cases h

/-- The records of the server in a longer trace. -/
@[simp] lemma serverOf_append {tr' : List (Obs β φ)} :
    serverOf (tr ++ tr') = serverOf tr ++ serverOf tr' :=
  List.filterMap_append

/-- The records of the server are its own. -/
@[simp] lemma serverOf_server {out : List (GameServer.Obs β φ)} :
    serverOf (out.map .server) = out := by
  induction out with
  | nil => rfl
  | cons o out ih => exact congrArg (o :: ·) ih

/-- **The server of a run in time** makes a run. -/
lemma server_reach {G : List (Obs β φ) → TimedServer β φ → Event φ → Prop}
    (h : (machine w latency).Run G tr σ) :
    (GameServer.machine w).Reach (serverOf tr) σ.server := by
  refine h.simulate TimedServer.server _ rfl fun tr σ e σ' out _ _ hstep => ?_
  change (_ ∧ serverOf out = []) ∨ ∃ e', True ∧ σ.server.step w e' = some (σ'.server, serverOf out)
  cases step_cases hstep with
  | elapse => exact .inl ⟨rfl, rfl⟩
  | @server e _ outs _ hserver =>
    have hheard :
        serverOf ((σ.heardBy w e).toList.map fun s => (.heard s σ.now : Obs β φ)) = [] := by
      cases σ.heardBy w e <;> rfl
    refine .inr ⟨e, trivial, ?_⟩
    rw [serverOf_append, serverOf_server, hheard, List.append_nil]
    exact hserver

/-! ## Watched sessions -/

/-- What holds of a session that is not closed: its timer is running, its handler is not late, and
the current wait ends less than two periods after the session was last heard of. -/
structure Watched (latency s : ℕ) (tr : List (Obs β φ)) (σ : TimedServer β φ) : Prop where
  ticking : (σ.server.io s).ticking = true
  due : σ.now ≤ σ.expiry s + latency
  heard : ∃ t, .heard s t ∈ tr ∧ σ.server.lastAliveTime s = t / 1000 ∧
    σ.expiry s < t + 2 * period

/-- The invariant: every session that is not closed is watched, and `last_alive_time_` is no
earlier than what was heard. -/
structure Watch (latency : ℕ) (tr : List (Obs β φ)) (σ : TimedServer β φ) : Prop where
  watched : ∀ s < σ.server.logic.accepted, (σ.server.logic.sessions s).closed = false →
    Watched latency s tr σ
  past : ∀ s t, .heard s t ∈ tr → t ≤ σ.now ∧ t / 1000 ≤ σ.server.lastAliveTime s

/-- What is heard in a step. -/
lemma heard_mem_iff {outs : List (GameServer.Obs β φ)} {o : Option ℕ} {now : ℕ} :
    .heard s t ∈ tr ++ (outs.map .server ++ o.toList.map fun s => .heard s now) ↔
      .heard s t ∈ tr ∨ o = some s ∧ t = now := by
  rw [List.mem_append, List.mem_append]
  refine or_congr_right ⟨fun h => ?_, fun h => ?_⟩
  · rcases h with h | h
    · obtain ⟨o', -, heq⟩ := List.mem_map.mp h
      cases heq
    · obtain ⟨s', hs', heq⟩ := List.mem_map.mp h
      obtain ⟨rfl, rfl⟩ := Obs.heard.inj heq
      exact ⟨Option.mem_toList.mp hs', rfl⟩
  · obtain ⟨rfl, rfl⟩ := h
    exact .inr (List.mem_singleton_self _)

/-- A step in which nothing is heard and no wait is started. -/
lemma Watch.of_quiet {server : GameServer β φ} {outs : List (GameServer.Obs β φ)}
    (h : Watch latency tr σ) (hacc : server.logic.accepted = σ.server.logic.accepted)
    (hclosed : ∀ s, (server.logic.sessions s).closed = (σ.server.logic.sessions s).closed)
    (hlast : server.lastAliveTime = σ.server.lastAliveTime)
    (htick : ∀ s, (σ.server.io s).ticking = true → (server.io s).ticking = true) :
    Watch latency (tr ++ (outs.map .server ++ (none : Option ℕ).toList.map fun s =>
      .heard s σ.now)) { σ with server } := by
  refine ⟨fun s hs hopen => ?_, fun s t ht => ?_⟩
  · obtain ⟨hticking, hdue, t, ht, hsame, hexpiry⟩ :=
      h.watched s (hacc ▸ hs) ((hclosed s).symm.trans hopen)
    exact ⟨htick s hticking, hdue, t, List.mem_append_left _ ht, hlast ▸ hsame, hexpiry⟩
  · rcases heard_mem_iff.mp ht with ht | ⟨hnone, -⟩
    · exact ⟨(h.past s t ht).1, hlast ▸ (h.past s t ht).2⟩
    · cases hnone

/-- An operation of one connection completes. -/
lemma Watch.of_setIo {x : Session β φ} {outs : List (GameServer.Obs β φ)}
    (h : Watch latency tr σ) (hx : (σ.server.io s).ticking = true → x.ticking = true) :
    Watch latency (tr ++ (outs.map .server ++ (none : Option ℕ).toList.map fun s =>
      .heard s σ.now)) { σ with server := σ.server.setIo s x } := by
  refine h.of_quiet rfl (fun _ => rfl) rfl fun t ht => ?_
  by_cases hts : t = s
  · subst hts
    simpa [GameServer.setIo] using hx ht
  · simpa [GameServer.setIo, hts] using ht

/-- A session is made: it is heard of, and its timer starts.

**Proof sketch.** The session that is made is heard of now, and its timer expires a period from now.
The other sessions keep what is known of them. -/
lemma Watch.accept (h : Watch latency tr σ) :
    Watch latency (tr ++ [.heard σ.server.logic.accepted σ.now])
      { σ with
        expiry := Function.update σ.expiry σ.server.logic.accepted (σ.now + period)
        server := σ.server.accept (σ.now / 1000) } := by
  refine ⟨fun s hs hopen => ?_, fun s t ht => ?_⟩
  · by_cases hnew : s = σ.server.logic.accepted
    · subst hnew
      refine ⟨?_, ?_, σ.now, by simp, by simp [GameServer.accept], ?_⟩
      · simpa [GameServer.accept, GameServer.setIo] using
          Session.ticking_asyncRead Session.ticking_armTimer
      · dsimp only
        rw [Function.update_self]
        omega
      · dsimp only
        rw [Function.update_self, two_mul]
        have hpos : 0 < period := by decide
        omega
    · have hold : s < σ.server.logic.accepted :=
        lt_of_le_of_ne (Nat.lt_succ_iff.mp hs) hnew
      obtain ⟨hticking, hdue, t, ht, hsame, hexpiry⟩ := h.watched s hold hopen
      refine ⟨?_, ?_, t, List.mem_append_left _ ht, ?_, ?_⟩
      · simpa [GameServer.accept, GameServer.setIo, hnew] using hticking
      · simpa [hnew] using hdue
      · simpa [GameServer.accept, hnew] using hsame
      · simpa [hnew] using hexpiry
  · rcases List.mem_append.mp ht with ht | ht
    · obtain ⟨hle, hlast⟩ := h.past s t ht
      refine ⟨hle, ?_⟩
      by_cases hnew : s = σ.server.logic.accepted
      · simpa [GameServer.accept, hnew] using Nat.div_le_div_right hle
      · simpa [GameServer.accept, hnew] using hlast
    · obtain ⟨rfl, rfl⟩ := Obs.heard.inj (List.mem_singleton.mp ht)
      simp [GameServer.accept]

/-- A handler runs. If it is that of the timer, and the session stays open, the session was heard of
less than a period ago.

**Proof sketch.** A handler that is not that of the timer leaves the timer going, and if it decodes
a frame, the session is heard of now. That of the timer arms the next wait, a period from now, and
the session stays open only if `CheckAlive` finds it alive: then it was heard of less than a period
ago. The other sessions are not concerned. -/
lemma Watch.io {server : GameServer β φ} {outs : List (GameServer.Obs β φ)}
    (h : Watch latency tr σ)
    (hstep : σ.server.step w (.io s (σ.now / 1000)) = some (server, outs)) :
    Watch latency (tr ++ (outs.map .server ++
        (σ.heardBy w (.io s (σ.now / 1000))).toList.map fun s => .heard s σ.now))
      { σ with expiry := σ.expiryAfter (.io s (σ.now / 1000)), server } := by
  obtain ⟨hd, rest, y, xs, hs, hqueue, hcases, hio, hacc, hopened, hlast⟩ :=
    GameServer.io_cases hstep
  have hheard : σ.heardBy w (.io s (σ.now / 1000)) = if hears w hd then some s else none := by
    simp [heardBy, hqueue]
  have hexpiry : σ.expiryAfter (.io s (σ.now / 1000)) =
      if hd.rearms then Function.update σ.expiry s (σ.now + period) else σ.expiry := by
    simp [expiryAfter, hqueue]
  rw [hheard, hexpiry]
  refine ⟨fun u hu hopen => ?_, fun u t ht => ?_⟩
  · obtain ⟨hold, hnoclose⟩ := hopened u hopen
    obtain ⟨hticking, hdue, t, ht, hsame, hend⟩ := h.watched u (hacc ▸ hu) hold
    obtain ⟨hle, -⟩ := h.past u t ht
    by_cases hus : u = s
    · subst hus
      rcases hcases.ticking with hclose | ⟨hrearms, hexpired, hy⟩ | ⟨hrearms, hy⟩
      · exact absurd hclose (hnoclose rfl)
      · -- `CheckAlive` finds the session alive
        have hdeaf : hears w hd = false := by
          cases hd with
          | timer => rfl
          | write | close | readHeader | readBody | written => cases hrearms
        rw [hdeaf] at hlast
        refine ⟨by simpa [hio] using hy, ?_, t, List.mem_append_left _ ht, hlast ▸ hsame, ?_⟩
        · simp only [hrearms, if_true, Function.update_self]
          omega
        · simp only [GameServer.notAlive, hsame, Bool.and_eq_false_iff, decide_eq_false_iff_not]
            at hexpired
          simp only [hrearms, if_true, Function.update_self]
          have hperiod : period = 5000 := rfl
          have hcheck : GameServer.CHECK_ALIVE_TIME = 5 := rfl
          omega
      · have hy' : (server.io u).ticking = true := by
          simpa [hio] using hy (Session.ticking_of_cons hqueue hrearms hticking)
        simp only [hrearms, Bool.false_eq_true, if_false]
        cases hhears : hears w hd with
        | true =>
          refine ⟨hy', hdue, σ.now, heard_mem_iff.mpr (.inr ⟨by simp, rfl⟩), ?_, ?_⟩
          · simp [hlast, hhears]
          · dsimp only
            omega
        | false =>
          rw [hhears] at hlast
          exact ⟨hy', hdue, t, List.mem_append_left _ ht, hlast ▸ hsame, hend⟩
    · have hlast' : server.lastAliveTime u = σ.server.lastAliveTime u := by
        rw [hlast]
        split
        · exact Function.update_of_ne hus _ _
        · rfl
      have hend' : (if hd.rearms then Function.update σ.expiry s (σ.now + period)
          else σ.expiry) u = σ.expiry u := by
        split
        · exact Function.update_of_ne hus _ _
        · rfl
      refine ⟨?_, ?_, t, List.mem_append_left _ ht, hlast'.trans hsame, ?_⟩
      · simpa [hio, hus] using hticking
      · simpa only [hend'] using hdue
      · simpa only [hend'] using hend
  · have hlast' : server.lastAliveTime u = σ.server.lastAliveTime u ∨
        server.lastAliveTime u = σ.now / 1000 := by
      rw [hlast]
      split
      · by_cases hus : u = s
        · simp [hus]
        · simp [hus]
      · exact .inl rfl
    rcases heard_mem_iff.mp ht with ht | ⟨hsome, rfl⟩
    · obtain ⟨hle, hpast⟩ := h.past u t ht
      refine ⟨hle, ?_⟩
      rcases hlast' with heq | heq
      · exact heq ▸ hpast
      · exact heq ▸ Nat.div_le_div_right hle
    · refine ⟨le_rfl, ?_⟩
      split at hsome
      · rename_i hhears
        cases hsome
        simp [hlast, hhears]
      · cases hsome

/-- **The run lemma.**

**Proof sketch.** The invariant rule, with one lemma for each kind of step: an accept
(`Watch.accept`), a handler (`Watch.io`), the end of an operation (`Watch.of_setIo`). Time passes
only as far as the timers allow, and a task of the logic thread leaves the timers going. -/
lemma watch_of_run {G : List (Obs β φ) → TimedServer β φ → Event φ → Prop}
    (h : (machine w latency).Run G tr σ) : Watch latency tr σ := by
  refine h.invariant (Watch latency) ?_ fun tr σ e σ' out _ ih _ hstep => ?_
  · exact ⟨fun s hs => absurd hs (Nat.not_lt_zero s), by simp⟩
  · cases step_cases hstep with
    | elapse hms =>
      rw [List.append_nil]
      refine ⟨fun s hs hopen => ?_, fun s t ht => ?_⟩
      · obtain ⟨hticking, -, hheard⟩ := ih.watched s hs hopen
        exact ⟨hticking, hms s hs hticking, hheard⟩
      · exact ⟨(ih.past s t ht).1.trans (Nat.le_add_right _ _), (ih.past s t ht).2⟩
    | @server e server outs htimely hserver =>
      have hstep' := hserver
      cases e with
      | accept now =>
        cases hserver
        cases (show now = σ.now / 1000 from htimely)
        exact ih.accept
      | readDone s result =>
        simp only [GameServer.step] at hserver
        split at hserver
        · obtain ⟨x, hx, heq⟩ := Option.map_eq_some_iff.mp hserver
          cases heq
          exact ih.of_setIo (Session.ticking_completeRead hx)
        · cases hserver
      | writeDone s ok =>
        simp only [GameServer.step] at hserver
        split at hserver
        · obtain ⟨x, hx, heq⟩ := Option.map_eq_some_iff.mp hserver
          cases heq
          exact ih.of_setIo (Session.ticking_completeWrite hx)
        · cases hserver
      | timerDone s =>
        simp only [GameServer.step] at hserver
        split at hserver
        · obtain ⟨x, hx, heq⟩ := Option.map_eq_some_iff.mp hserver
          cases heq
          exact ih.of_setIo fun _ => Session.ticking_expireTimer hx
        · cases hserver
      | io s now =>
        cases (show now = σ.now / 1000 from htimely)
        exact ih.io hserver
      | logic =>
        cases GameServer.step_cases hserver with
        | @logic u us d _ htasks hrun hreply =>
          have hran := LogicIo.ran_runTask (σ := { σ.server.logic with tasks := us }) u
          rw [hrun] at hran
          refine ih.of_quiet ?_ (congrFun hran.closed_eq) ?_ fun s hs => ?_
          · rcases GameServer.accepted_of_step hstep' with hacc | ⟨_, heq, -⟩
            · exact hacc
            · cases heq
          · rw [hreply]
            cases d <;> rfl
          · rw [hreply]
            cases d with
            | login u' req res =>
              by_cases hsu : s = u'
              · subst hsu
                have hwrite : ((σ.server.io s).write (w.sendMsg ⟨res⟩)).ticking = true :=
                  Session.ticking_post hs
                simpa [GameServer.reply, GameServer.setIo] using hwrite
              · simpa [GameServer.reply, GameServer.setIo, hsu] using hs
            | addSession | ping | delUser | onClosed => exact hs

/-- **Time never stops.** Unless a millisecond can pass, a wait ends now or its handler runs. -/
theorem elapse_or_fire (w : Wire β φ) (latency : ℕ) (σ : TimedServer β φ) :
    (σ.step w latency (.elapse 1)).isSome ∨ ∃ s < σ.server.logic.accepted,
      (σ.step w latency (.server (.timerDone s))).isSome ∨
      (σ.step w latency (.server (.io s (σ.now / 1000)))).isSome := by
  by_cases hms : ∀ s < σ.server.logic.accepted, (σ.server.io s).ticking = true →
      σ.now + 1 ≤ σ.expiry s + latency
  · exact .inl (by rw [step, if_pos hms]; rfl)
  · simp only [not_forall, Nat.not_le] at hms
    obtain ⟨s, hs, hticking, hlate⟩ := hms
    have hended : σ.expiry s ≤ σ.now := by omega
    refine .inr ⟨s, hs, ?_⟩
    rcases Bool.or_eq_true _ _ ▸ hticking with harmed | hready
    · exact .inl (by simp [step, Timely, hended, GameServer.step, hs, Session.expireTimer, harmed])
    · obtain ⟨h, hmem, -⟩ := List.any_eq_true.mp hready
      obtain ⟨hd, rest, hqueue⟩ := List.exists_cons_of_ne_nil (List.ne_nil_of_mem hmem)
      exact .inr (by simp [step, Timely, GameServer.step, hs, Session.runHandler, hqueue])

/-- **Silence.** In every run, whatever the clients, the network and the threads do: a session that
is not closed was heard of less than two periods of `CheckAlive` and the latency of its timer ago;
a session that was heard of at least one second less than a period ago is not closed by
`CheckAlive`; and once the logic thread has run its tasks, `user_sessions_` has no other session
than those heard of.

**Proof sketch.** The timer of a session that is not closed goes on (`Session.Handled.ticking`), and
`CheckAlive` lets it go on only if the session was heard of in the last four seconds, counted in
whole ones; the next call comes one period and the latency later (`Watch.io`). -/
theorem silence (h : (machine w latency).Reach tr σ) :
    (∀ s < σ.server.logic.accepted, (σ.server.logic.sessions s).closed = false →
        ∃ t, .heard s t ∈ tr ∧ σ.now < t + 2 * period + latency) ∧
      (∀ s t, .heard s t ∈ tr → σ.now + 1000 ≤ t + period →
        σ.server.notAlive s (σ.now / 1000) = false) ∧
      (σ.server.logic.accepted ≤ SessionTable.idCount → σ.server.logic.tasks = [] →
        ∀ id s, σ.server.logic.userSessions.getSession id = some s →
          ∃ t, .heard s t ∈ tr ∧ σ.now < t + 2 * period + latency) := by
  have hwatch := watch_of_run h
  have hheard : ∀ s < σ.server.logic.accepted, (σ.server.logic.sessions s).closed = false →
      ∃ t, .heard s t ∈ tr ∧ σ.now < t + 2 * period + latency := by
    intro s hs hopen
    obtain ⟨-, hdue, t, ht, -, hexpiry⟩ := hwatch.watched s hs hopen
    exact ⟨t, ht, by omega⟩
  refine ⟨hheard, fun s t ht hnow => ?_, fun hfew htasks id s hid => ?_⟩
  · obtain ⟨-, hlast⟩ := hwatch.past s t ht
    have hperiod : period = 5000 := rfl
    have hcheck : GameServer.CHECK_ALIVE_TIME = 5 := rfl
    rw [GameServer.notAlive, Bool.and_eq_false_iff, decide_eq_false_iff_not,
      decide_eq_false_iff_not]
    omega
  · have hserver := server_reach h
    obtain ⟨⟨n, hn, hreg⟩, -, htable⟩ := GameServer.registry hserver
    obtain ⟨-, hmem, hnodel⟩ := (htable hfew id s).mp hid
    rw [hreg, List.mem_range] at hmem
    refine hheard s (by omega) (Bool.eq_false_iff.mpr fun hclosed => ?_)
    rcases LogicIo.closeTask_of_run (GameServer.logic_reach hserver) hclosed with
      hpost | ⟨uid, hdel⟩
    · rw [htasks] at hpost
      cases hpost
    · exact hnodel uid hdel

/-- A session that says something after four seconds passes the check after five. -/
theorem silence_login : ∃ (tr : List (Obs UserBuffer UserBuffer))
    (σ : TimedServer UserBuffer UserBuffer), (machine sampleWire 20).Reach tr σ ∧
      σ.now = 9900 ∧ (σ.server.logic.sessions 0).closed = false ∧
        ∃ t, .heard 0 t ∈ tr ∧ σ.now < t + 2 * period + 20 := by
  obtain ⟨r, hexec, hnow, hacc, hopen⟩ : ∃ r ∈ (machine sampleWire 20).exec (fun _ _ _ => true) []
      (machine sampleWire 20).init ([.server (.accept 0), .elapse 4000] ++
        (sampleReceive 0 4 (sampleLogin [117])).map .server ++
        [.elapse 1010, .server (.timerDone 0), .server (.io 0 5), .elapse 4890]),
      r.2.now = 9900 ∧ r.2.server.logic.accepted = 1 ∧
        (r.2.server.logic.sessions 0).closed = false := by
    decide +kernel
  have hrun := Machine.run_of_exec (G := fun _ _ _ => True) (fun _ _ _ _ => trivial) hexec
  exact ⟨r.1, r.2, hrun, hnow, hopen, (silence hrun).1 0 (by rw [hacc]; decide) hopen⟩

end TimedServer

end FightingCard
