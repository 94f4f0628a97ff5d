import FightingCard.Server.Silence
import FightingCard.Client.Completion

set_option relaxedAutoImplicit false
set_option autoImplicit false

/-!
# Nobody who pings is timed out

The clients and the server in time. Everybody reads the same clock; the wait of a timer ends no
earlier than it should, and its handler runs at most `latency` milliseconds later; a connection that
the server has accepted is known to the client `latency` milliseconds later at the latest; and a
frame that a user has handed to its connection has been read and decoded by the server `delay`
milliseconds later, or as long after the server has accepted the connection. The threads may take
any turns within these limits.

A user hands over a frame at least once in four seconds, counted from the start of the second of the
one before, and the server waits for five. The rest is left for the latency and the delay: if they
make one second together, `CheckAlive` never finds a session that it would close.

## Main definitions

* `FightingCard.ClientUser.Beating` — a user that keeps handing frames over.
* `FightingCard.TimedSystem` — the system with its clock and its waits.
* `FightingCard.TimedSystem.machine` — its steps.
* `FightingCard.TimedSystem.Heeded` — a session that hears of its user in time.

## Main results

* `FightingCard.ClientUser.Beating.step` — a user goes on handing frames over.
* `FightingCard.TimedSystem.elapse_or_step` — time never stops.
* `FightingCard.TimedSystem.stays_alive` — `CheckAlive` closes nobody.
-/

namespace FightingCard

/-! ## A user -/

namespace ClientUser

variable {rt : Protobuf LoginRsp} {reqData : LoginReq → Bytes} {uid : Bytes}
  {tr out : List Obs} {σ σ' : ClientUser} {latency now expiry : ℕ} {writes : List ℕ}

/-- The step starts a wait of the timer. -/
def arms (σ : ClientUser) : Event → Bool
  | .connectDone _ ok => ok
  | .io _ => σ.io.queue.head?.any pings
  | _ => false

/-- The longest time from a frame to the next: the last second of a write, another one in which
`SendPingMsg` skips its ping, a wait, and the latency of its handler. -/
def Follows (latency t u : ℕ) : Prop := u ≤ t / 1000 * 1000 + 3999 + latency

/-- A user with a connection: its timer is running and its handler is not late; the frames are
handed over one soon after the other, and the current wait ends soon after the last of them. -/
structure Beating (latency now expiry : ℕ) (writes : List ℕ) (σ : ClientUser) : Prop where
  ticking : σ.io.ticking = true
  due : now ≤ expiry + latency
  past : ∀ t ∈ writes, t ≤ now
  paced : writes.IsChain (Follows latency)
  last : ∃ t, writes.getLast? = some t ∧ σ.client.lastWriteTime = t / 1000 ∧
    expiry ≤ t / 1000 * 1000 + 3999

/-- A frame that is handed over now is not late. -/
lemma Beating.follows (h : σ.Beating latency now expiry writes) :
    (writes ++ [now]).IsChain (Follows latency) := by
  refine List.IsChain.append h.paced (List.isChain_singleton now) ?_
  intro t ht u hu
  cases hu
  obtain ⟨t', ht', -, hexpiry⟩ := h.last
  cases ht'.symm.trans ht
  have hdue := h.due
  rw [Follows]
  omega

/-- Something else happens than a write and the start of a wait. -/
lemma Beating.of_quiet (h : σ.Beating latency now expiry writes)
    (hticking : σ'.io.ticking = true) (hclient : σ'.client = σ.client) :
    σ'.Beating latency now expiry (writes ++ []) := by
  rw [List.append_nil]
  exact ⟨hticking, h.due, h.past, h.paced, hclient ▸ h.last⟩

variable (writes) in
/-- A frame is handed over, and a wait starts. -/
lemma beating_write (hpast : ∀ t ∈ writes, t ≤ now)
    (hpaced : (writes ++ [now]).IsChain (Follows latency)) (hticking : σ.io.ticking = true)
    (hlast : σ.client.lastWriteTime = now / 1000) :
    σ.Beating latency now (now + KeepAlive.period) (writes ++ [now]) := by
  have hperiod : KeepAlive.period = 2000 := rfl
  refine ⟨hticking, by omega, fun t ht => ?_, hpaced, now, by simp, hlast, by omega⟩
  rcases List.mem_append.mp ht with ht | ht
  · exact hpast t ht
  · exact (List.mem_singleton.mp ht).le

/-- The connection is made. -/
lemma beating_connected (hio : σ.io = { isOpen := false }) :
    (σ.connected reqData uid now).Beating latency now (now + KeepAlive.period) [now] := by
  have hopen : (σ.connected reqData uid now).io = _ := io_connected hio
  refine beating_write [] (by simp) (List.isChain_singleton now) ?_ ?_
  · rw [hopen]
    rfl
  · rfl

/-- The io thread runs a handler. If it is that of the timer and sends no ping, the last frame was
handed over in this second or in the one before. -/
lemma Beating.io (h : σ.Beating latency now expiry writes) (hio : σ.io.Healthy (hooks rt))
    (hstep : σ.step rt reqData uid (.io now) = some (σ', out)) :
    σ'.Beating latency now (if σ.arms (.io now) then now + KeepAlive.period else expiry)
      (writes ++ List.replicate (σ.handedBy (.io now)) now) := by
  obtain ⟨hd, rest, io, xs, hqueue, hcases, -, hafter⟩ := io_cases hstep
  have harms : σ.arms (.io now) = pings hd := by simp [arms, hqueue]
  have hticking : io.ticking = true := hcases.ticking_of_open hqueue (hio.handle hqueue hcases).2
    h.ticking
  rcases hafter with ⟨rfl, hskip⟩ | ⟨hpings, hsend, rfl⟩
  · cases hpings : pings hd with
    | false =>
      have hnone : σ.handedBy (.io now) = 0 := by simp [handedBy, hqueue, hpings]
      rw [harms, hpings, hnone]
      exact h.of_quiet hticking rfl
    | true =>
      obtain ⟨hempty, hrecent⟩ := hskip hpings
      have hnone : σ.handedBy (.io now) = 0 := by simp [handedBy, hqueue, hpings, hempty]
      rw [harms, hpings, hnone, if_pos rfl, List.replicate_zero, List.append_nil]
      obtain ⟨t, ht, hlast, -⟩ := h.last
      have hperiod : KeepAlive.period = 2000 := rfl
      exact ⟨hticking, by omega, h.past, h.paced, t, ht, hlast, by omega⟩
  · have hone : σ.handedBy (.io now) = 1 := by simp [handedBy, hqueue, hpings, hsend]
    rw [harms, hpings, hone, if_pos rfl]
    exact beating_write writes h.past h.follows (Session.ticking_post hticking) rfl

/-- **A user goes on.**

**Proof sketch.** By cases on what happens. Only a handler arms the timer or hands a frame over
(`Beating.io`). A connection cannot be made twice, and the other steps leave the timer going
(`of_quiet`), since a reply that is handled does not close the connection. -/
lemma Beating.step {e : Event} (h : σ.Beating latency now expiry writes)
    (hgame : σ.gameclient = true) (hattending : σ.Attending rt)
    (htalks : Talks rt reqData uid tr σ) (hsmooth : Smooth rt tr σ e)
    (hnow : ∀ t, e = .io t → t = now) (hstep : σ.step rt reqData uid e = some (σ', out)) :
    σ'.Beating latency now (if σ.arms e then now + KeepAlive.period else expiry)
      (writes ++ List.replicate (σ.handedBy e) now) := by
  cases e with
  | connectDone t ok =>
    simp only [ClientUser.step] at hstep
    split at hstep
    · rw [htalks.connecting ‹_›] at hgame
      cases hgame
    · cases hstep
  | readDone result =>
    obtain ⟨io, hio, heq⟩ := Option.map_eq_some_iff.mp hstep
    cases heq
    exact h.of_quiet (Session.ticking_completeRead hio h.ticking) rfl
  | writeDone ok =>
    obtain ⟨io, hio, heq⟩ := Option.map_eq_some_iff.mp hstep
    cases heq
    exact h.of_quiet (Session.ticking_completeWrite hio h.ticking) rfl
  | timerDone =>
    obtain ⟨io, hio, heq⟩ := Option.map_eq_some_iff.mp hstep
    cases heq
    exact h.of_quiet (Session.ticking_expireTimer hio) rfl
  | io t =>
    obtain rfl := hnow t rfl
    exact h.io (hattending.healthy hgame) hstep
  | task =>
    obtain ⟨rsp, rest, -, rfl, -⟩ := task_of_smooth hsmooth hstep
    exact h.of_quiet h.ticking rfl

/-- A user that is making its connection was doing so before. -/
lemma connecting_of_step {e : Event} (h : σ.step rt reqData uid e = some (σ', out))
    (hconnecting : σ'.connecting = true) : σ.connecting = true := by
  cases step_cases h with
  | connected hnew => exact hnew
  | failed => cases hconnecting
  | completed | handler => exact hconnecting
  | @task rsp rest =>
    have hsame : ({ σ with tasks := rest }.gameLoginRspHandle rsp).connecting = σ.connecting := by
      unfold gameLoginRspHandle closeGameClient
      split
      · rfl
      all_goals split <;> rfl
    exact hsame ▸ hconnecting

/-- **A user** hands frames over as soon as its connection is made. -/
lemma beating_of_step {e : Event}
    (hold : σ.gameclient = true → σ.Beating latency now expiry writes)
    (hnew : σ.gameclient = false → writes = []) (hattending : σ.Attending rt)
    (htalks : Talks rt reqData uid tr σ) (hsmooth : Smooth rt tr σ e)
    (hnow : ∀ t, e = .io t ∨ e = .connectDone t true → t = now)
    (hstep : σ.step rt reqData uid e = some (σ', out)) (hgame : σ'.gameclient = true) :
    σ'.Beating latency now (if σ.arms e then now + KeepAlive.period else expiry)
      (writes ++ List.replicate (σ.handedBy e) now) := by
  cases hbefore : σ.gameclient with
  | true =>
    exact (hold hbefore).step hbefore hattending htalks hsmooth (fun t ht => hnow t (.inl ht)) hstep
  | false =>
    obtain ⟨hio, htasks, -⟩ := htalks.fresh hbefore
    cases e with
    | connectDone t ok =>
      cases (show ok = true from hsmooth)
      obtain rfl := hnow t (.inr rfl)
      simp only [ClientUser.step] at hstep
      split at hstep
      · cases hstep
        rw [hnew hbefore]
        exact beating_connected hio
      · cases hstep
    | readDone | writeDone | timerDone | io | task =>
      -- there is nothing to do before the connection is made
      simp [ClientUser.step, hio, htasks, Session.completeRead, Session.completeWrite,
        Session.expireTimer] at hstep

end ClientUser

/-! ## A session -/

namespace GameServer

open Session (bodies)

variable {β φ : Type} {w : Wire β φ} {tr out : List (Obs β φ)} {σ σ' : GameServer β φ} {s now : ℕ}
  {e : Event φ}

/-- The session on which a step decodes a frame. -/
def decodes (w : Wire β φ) (σ : GameServer β φ) : Event φ → Option ℕ
  | .io s _ => if (σ.io s).queue.head?.any (hears w) then some s else none
  | _ => none

/-- A session decodes a frame when the handler at the front of its queue hears one. -/
lemma decodes_io {h : Handler β φ} {rest : List (Handler β φ)}
    (hqueue : (σ.io s).queue = h :: rest) :
    σ.decodes w (.io s now) = if hears w h then some s else none := by
  simp [decodes, hqueue]

/-- An accepted handler of a body decodes it. -/
lemma length_bodies_of_accepted {h : Handler β φ} (hacc : Session.Accepted w.hooks h) :
    (bodies [h]).length = if hears w h then 1 else 0 := by
  cases h with
  | readBody c =>
    obtain ⟨f, rfl, hbody⟩ := hacc
    have hdec : w.decode f = true := by
      by_contra hdec
      simp [Wire.hooks, Wire.message, hdec] at hbody
    simp [bodies, hears, hdec]
  | write | close | readHeader | written | timer => rfl

/-- **The frames of a session.** A frame that arrives is queued, and one that is decoded is taken
off the queue.

**Proof sketch.** By cases on what a step does. A read that completes queues the body that arrives.
A handler takes its body off the queue, which is decoded since the connection is healthy, and queues
none. A task writes at most, and the other steps leave the flow as it is. -/
lemma bodies_of_step (hσ : σ.Serving w) (h : σ.step w e = some (σ', out)) (s : ℕ) :
    (bodies (σ'.io s).queue).length + (if σ.decodes w e = some s then 1 else 0) =
      (bodies (σ.io s).queue).length + (arrivedOn s out).length := by
  have quiet : ∀ {x y : Session β φ}, y.flow = x.flow →
      (bodies y.queue).length = (bodies x.queue).length := fun hflow =>
    congrArg (fun f : Session.Flow β φ => f.bodies.length) hflow
  cases step_cases h with
  | accept _ hflow | writeDone _ hflow | timerDone _ hflow => exact quiet (hflow s)
  | @readDone u result _ _ _ hflow hother =>
    rw [arrivedOn_arrived]
    by_cases hus : u = s
    · subst hus
      have hbodies := congrArg (fun f : Session.Flow β φ => f.bodies.length) hflow
      simpa [Session.flow, decodes] using hbodies
    · rw [hother s (Ne.symm hus), if_neg hus]
      rfl
  | @io u now hd rest y xs _ _ hu hqueue hout hadv hsig =>
    obtain ⟨hio, harrived, -⟩ := signals_records (t := s) hsig
    rw [decodes_io hqueue, harrived, hio]
    by_cases hus : s = u
    · subst hus
      have hone := length_bodies_of_accepted
        ((hσ.healthy s hu).accepted hd (hqueue ▸ List.mem_cons_self))
      have hkept := congrArg List.length (bodies_of_outcome hout)
      have hcons : bodies (hd :: rest) = bodies [hd] ++ bodies rest := by
        rw [← List.singleton_append, Session.bodies_append]
      simp only [setIo, Function.update_self, hqueue, hcons, List.length_append, hone]
      dsimp only at hkept
      rw [hkept]
      split <;> simp [Nat.add_comm]
    · have hother : (if hears w hd then some u else none) ≠ some s := by
        intro heq
        split at heq
        · exact hus (Option.some.inj heq).symm
        · cases heq
      rw [if_neg hother]
      simp [setIo, hus]
  | @logic t ts d _ htasks hrun hreply =>
    rw [hreply]
    change _ = (bodies (σ.io s).queue).length
    cases d with
    | login u req res =>
      by_cases hsu : s = u
      · subst hsu
        have hwrite : bodies ((σ.io s).write (w.sendMsg ⟨res⟩)).queue = bodies (σ.io s).queue :=
          (Session.Flow.mk.inj Session.flow_write).2.2
        simpa [reply, setIo, decodes] using congrArg List.length hwrite
      · simp [reply, setIo, decodes, hsu]
    | addSession | ping | delUser | onClosed => rfl

/-- `last_alive_time_` is the time of the last frame that was decoded. -/
lemma lastAliveTime_of_step (hnow : ∀ t u, e = .io t u → u = now)
    (he : ∀ t, e ≠ .accept t) (h : σ.step w e = some (σ', out)) (s : ℕ) :
    σ'.lastAliveTime s = if σ.decodes w e = some s then now else σ.lastAliveTime s := by
  have hstep := h
  cases e with
  | accept t => exact absurd rfl (he t)
  | readDone t result | writeDone t ok | timerDone t =>
    simp only [step] at h
    split at h
    · obtain ⟨x, -, heq⟩ := Option.map_eq_some_iff.mp h
      cases heq
      rfl
    · cases h
  | io t u =>
    obtain rfl := hnow t u rfl
    obtain ⟨hd, rest, y, xs, -, hqueue, -, -, -, -, hlast⟩ := io_cases hstep
    rw [hlast, decodes_io hqueue]
    by_cases hhears : hears w hd = true
    · by_cases hst : s = t
      · simp [hhears, hst]
      · simp [hhears, hst, Ne.symm hst]
    · simp [hhears]
  | logic =>
    cases step_cases h with
    | @logic t ts d _ htasks hrun hreply =>
      rw [hreply]
      cases d <;> rfl

end GameServer

/-! ## The system in time -/

/-- The system with the time in milliseconds; for every user the end of the last wait that its timer
has started and the times at which it has handed frames to its connection; for every session the
time at which it was accepted and the number of frames that were decoded on it. -/
structure TimedSystem where
  now : ℕ := 0
  expiry : ℕ → ℕ := fun _ => 0
  writes : ℕ → List ℕ := fun _ => []
  acceptTime : ℕ → ℕ := fun _ => 0
  heard : ℕ → ℕ := fun _ => 0
  system : System := {}

namespace TimedSystem

open FightingCard.System (Network Works Stuck serverOf clientOf sampleReqProtobuf
  sampleTypedReqData sampleRspData sampleRuntimes sampleDelivery)
open GameServer (arrivedOn decodes)
open ClientUser (Follows handed)

/-- What can happen next: some time passes, or the system makes a step. -/
inductive Event where
  | elapse (ms : ℕ)
  | system (e : System.Event)

section Step

variable (rt : Protobuf UserMsg) (rtRsp : Protobuf LoginRsp) (reqData : LoginReq → Bytes)
variable (rspData : LoginRsp → Bytes) (uidFrom uidTo : ℤ) (latency delay : ℕ) (σ : TimedSystem)

/-- The step reads the clock correctly, and no wait of a user ends too early. -/
def Timely : System.Event → Prop
  | .accept _ now | .server (.io _ now) => now = σ.now / 1000
  | .client _ (.connectDone now _) | .client _ (.io now) => now = σ.now
  | .client c .timerDone => σ.expiry c ≤ σ.now
  | _ => True

/-- Nothing is late at the time `t`: no handler of a timer, no connection that the server has
accepted, and no frame that was handed over and has not been decoded. -/
def InTime (t : ℕ) : Prop :=
  (∀ c < σ.system.started, (σ.system.clients c).io.ticking = true → t ≤ σ.expiry c + latency) ∧
  ∀ s < σ.system.peers.length, ∀ c ∈ σ.system.peers[s]?,
    ((σ.system.clients c).connecting = true → t ≤ σ.acceptTime s + latency) ∧
    ∀ u ∈ (σ.writes c).drop (σ.heard s), t ≤ max u (σ.acceptTime s) + delay

/-- What is noted of a step: when a session was accepted, a frame that was decoded, a wait that
was started, and the frames that were handed over. -/
def noted : System.Event → TimedSystem
  | .accept _ _ =>
    { σ with acceptTime := Function.update σ.acceptTime σ.system.peers.length σ.now }
  | .server e =>
    { σ with heard := fun s =>
        if decodes (userWire rt rspData) σ.system.server e = some s then σ.heard s + 1
        else σ.heard s }
  | .client c e =>
    let u := σ.system.clients c
    { σ with
      expiry := Function.update σ.expiry c
        (if u.arms e then σ.now + KeepAlive.period else σ.expiry c)
      writes := Function.update σ.writes c
        (σ.writes c ++ List.replicate (u.handedBy e) σ.now) }
  | .start => σ

instance : (e : System.Event) → Decidable (σ.Timely e)
  | .accept _ _ | .server (.io ..) | .client _ (.connectDone ..) | .client _ (.io _) =>
    inferInstanceAs (Decidable (_ = _))
  | .client _ .timerDone => inferInstanceAs (Decidable (_ ≤ _))
  | .start | .server (.accept _) | .server (.readDone ..) | .server (.writeDone ..)
  | .server (.timerDone _) | .server .logic | .client _ (.readDone _) | .client _ (.writeDone _)
  | .client _ .task => inferInstanceAs (Decidable True)

instance {t : ℕ} : Decidable (σ.InTime latency delay t) := inferInstanceAs (Decidable (_ ∧ _))

/-- One step. No time passes over the moment at which something is late. -/
def step (σ : TimedSystem) : Event → Option (TimedSystem × List System.Obs)
  | .elapse ms =>
    if σ.InTime latency delay (σ.now + ms) then some ({ σ with now := σ.now + ms }, []) else none
  | .system e =>
    if σ.Timely e then
      (σ.system.step rt rtRsp reqData rspData uidFrom uidTo e).map fun (system, out) =>
        ({ σ.noted rt rspData e with system }, out)
    else none

/-- The system in time as a machine. -/
def machine : Machine TimedSystem Event System.Obs :=
  ⟨{}, step rt rtRsp reqData rspData uidFrom uidTo latency delay⟩

end Step

/-- The network keeps the order, and nothing fails on it. Nothing is said about `CheckAlive`. -/
def Sound (tr : List System.Obs) (σ : TimedSystem) : Event → Prop
  | .elapse _ | .system (.server (.io ..)) => True
  | .system e => Works tr σ.system e

/-- A session that hears of its user in time. It has been accepted while the connection was being
made, or later, and the times of what was heard are not after `last_alive_time_`. -/
structure Heeded (latency delay : ℕ) (σ : TimedSystem) (s c : ℕ) : Prop where
  accepted : σ.acceptTime s ≤ σ.now
  known : σ.acceptTime s / 1000 ≤ σ.system.server.lastAliveTime s
  connecting : (σ.system.clients c).connecting = true → σ.now ≤ σ.acceptTime s + latency
  first : ∀ t ∈ (σ.writes c).head?, t ≤ σ.acceptTime s + latency
  heard : ∀ t ∈ (σ.writes c).take (σ.heard s), t / 1000 ≤ σ.system.server.lastAliveTime s
  due : ∀ t ∈ (σ.writes c).drop (σ.heard s), σ.now ≤ max t (σ.acceptTime s) + delay

/-- The invariant: the users that have a connection keep handing frames over, the sessions hear of
them in time, and the frames that were handed over and those that were decoded are counted. -/
structure Watch (latency delay : ℕ) (tr : List System.Obs) (σ : TimedSystem) : Prop where
  beating : ∀ c, (σ.system.clients c).gameclient = true →
    (σ.system.clients c).Beating latency σ.now (σ.expiry c) (σ.writes c)
  heeded : ∀ s c, σ.system.peers[s]? = some c → Heeded latency delay σ s c
  written : ∀ c, (σ.writes c).length = handed (clientOf c tr) (σ.system.clients c)
  heard : ∀ s, σ.heard s + (Session.bodies (σ.system.server.io s).queue).length =
    (arrivedOn s (serverOf tr)).length

variable {rt : Protobuf UserMsg} {rtRsp : Protobuf LoginRsp} {reqData : LoginReq → Bytes}
  {rspData : LoginRsp → Bytes} {uidFrom uidTo : ℤ} {latency delay : ℕ}
  {tr : List System.Obs} {σ σ' : TimedSystem} {s c : ℕ}

/-! ## Alive -/

/-- **The arithmetic of the pings.** The frame that is to be heard next, or the present, comes soon
after the one that was heard last, or after the session was accepted. -/
lemma second_le {writes : List ℕ} {k now acceptTime last : ℕ} (hprompt : latency + delay ≤ 1000)
    (hpaced : (writes ++ [now]).IsChain (Follows latency))
    (hfirst : ∀ t ∈ (writes ++ [now]).head?, t ≤ acceptTime + latency)
    (hknown : acceptTime / 1000 ≤ last) (hk : k ≤ writes.length)
    (hheard : ∀ t ∈ writes.take k, t / 1000 ≤ last)
    (hdue : ∀ t ∈ writes.drop k, now ≤ max t acceptTime + delay) : now / 1000 ≤ last + 4 := by
  -- the frame that is to be heard next
  obtain ⟨t, ht, hnext⟩ : ∃ t, (writes ++ [now])[k]? = some t ∧
      now ≤ max t acceptTime + delay := by
    rcases hk.lt_or_eq with hlt | rfl
    · refine ⟨writes[k], by rw [List.getElem?_append_left hlt, List.getElem?_eq_getElem hlt], ?_⟩
      exact hdue _ (by rw [List.drop_eq_getElem_cons hlt]; exact List.mem_cons_self)
    · exact ⟨now, by simp, by omega⟩
  cases k with
  | zero =>
    have hle := hfirst t (by rw [List.head?_eq_getElem?]; exact ht)
    omega
  | succ j =>
    have hj : j < writes.length := hk
    have hlen : j + 1 < (writes ++ [now]).length := (List.getElem?_eq_some_iff.mp ht).1
    have hstep := List.isChain_iff_getElem.mp hpaced j hlen
    have hprev := hheard writes[j] (by
      rw [List.mem_take_iff_getElem]
      exact ⟨j, by omega, rfl⟩)
    have hget := (List.getElem?_eq_some_iff.mp ht).2
    rw [hget, List.getElem_append_left hj, Follows] at hstep
    omega

/-- No more frames have been decoded on a session than its user has handed over. -/
lemma Watch.heard_le (h : Watch latency delay tr σ)
    (hrun : (System.machine rt rtRsp reqData rspData uidFrom uidTo).Run Network tr σ.system)
    (hs : σ.system.peers[s]? = some c) : σ.heard s ≤ (σ.writes c).length := by
  rw [h.written c]
  have hcount := h.heard s
  exact (by omega : σ.heard s ≤ _).trans (System.arrivedOn_le hrun hs)

/-- A user whose connection has not been made has handed nothing over. -/
lemma Watch.writes_eq_nil (h : Watch latency delay tr σ)
    (hrun : (System.machine rt rtRsp reqData rspData uidFrom uidTo).Run Works tr σ.system)
    (hgame : (σ.system.clients c).gameclient = false) : σ.writes c = [] := by
  obtain ⟨hio, -, -, hsent⟩ := (System.talks_of_run hrun c).fresh hgame
  rw [← List.length_eq_zero_iff, h.written c]
  simp [handed, hio, hsent, Session.posted]

section Works

variable (hfrom : -2 ^ 31 ≤ uidFrom) (hto : uidTo < 2 ^ 31)
  (hrt : Runtimes rt rtRsp reqData rspData)
  (hrun : (System.machine rt rtRsp reqData rspData uidFrom uidTo).Run Works tr σ.system)

include hfrom hto hrt hrun

/-- The connection of a user that has handed nothing over has not been made. -/
lemma Watch.connecting_of_nil (h : Watch latency delay tr σ) (hnil : σ.writes c = []) :
    (σ.system.clients c).connecting = true := by
  obtain ⟨-, hattending⟩ := System.healthy_of_run hfrom hto hrt hrun
  refine Bool.of_not_eq_false fun hdone => ?_
  obtain ⟨t, ht, -⟩ := (h.beating c ((hattending c).connected hdone)).last
  rw [hnil] at ht
  cases ht

/-- **`CheckAlive` finds the session alive.** -/
lemma Watch.alive (h : Watch latency delay tr σ) (hprompt : latency + delay ≤ 1000)
    (hs : σ.system.peers[s]? = some c) :
    σ.system.server.notAlive s (σ.now / 1000) = false := by
  obtain ⟨-, hattending⟩ := System.healthy_of_run hfrom hto hrt hrun
  have hheeded := h.heeded s c hs
  obtain ⟨hpaced, hfirst⟩ : (σ.writes c ++ [σ.now]).IsChain (Follows latency) ∧
      ∀ t ∈ (σ.writes c ++ [σ.now]).head?, t ≤ σ.acceptTime s + latency := by
    cases hconnecting : (σ.system.clients c).connecting with
    | true =>
      rw [h.writes_eq_nil hrun ((System.talks_of_run hrun c).connecting hconnecting)]
      refine ⟨List.isChain_singleton _, fun t ht => ?_⟩
      cases ht
      exact hheeded.connecting hconnecting
    | false =>
      have hbeating := h.beating c ((hattending c).connected hconnecting)
      refine ⟨hbeating.follows, fun t ht => hheeded.first t ?_⟩
      cases hwrites : σ.writes c with
      | nil =>
        rw [h.connecting_of_nil hfrom hto hrt hrun hwrites] at hconnecting
        cases hconnecting
      | cons u us =>
        rw [hwrites] at ht
        exact ht
  have hsecond := second_le hprompt hpaced hfirst hheeded.known
    (h.heard_le (hrun.mono fun _ _ _ hw => hw.1) hs) hheeded.heard hheeded.due
  have hcheck : GameServer.CHECK_ALIVE_TIME = 5 := rfl
  rw [GameServer.notAlive, Bool.and_eq_false_iff, decide_eq_false_iff_not, decide_eq_false_iff_not]
  omega

omit hfrom hto hrt in
/-- Time passes. -/
lemma Watch.elapse {ms : ℕ} (h : Watch latency delay tr σ)
    (hms : σ.InTime latency delay (σ.now + ms)) :
    Watch latency delay tr { σ with now := σ.now + ms } := by
  obtain ⟨hwaits, hsessions⟩ := hms
  refine ⟨fun c hgame => ?_, fun s c hs => ?_, h.written, h.heard⟩
  · have hbeating := h.beating c hgame
    have hc : c < σ.system.started := by
      by_contra hnew
      rw [System.client_of_le hrun (not_lt.mp hnew)] at hgame
      cases hgame
    exact { hbeating with
      due := hwaits c hc hbeating.ticking
      past := fun t ht => (hbeating.past t ht).trans (Nat.le_add_right _ _) }
  · have hheeded := h.heeded s c hs
    obtain ⟨hconnecting, hdue⟩ := hsessions s (List.getElem?_eq_some_iff.mp hs).1 c hs
    exact { hheeded with
      accepted := hheeded.accepted.trans (Nat.le_add_right _ _)
      connecting := hconnecting
      due := hdue }

omit hfrom hto hrt in
/-- What was handed over was so before now. -/
lemma Watch.past (h : Watch latency delay tr σ) : ∀ t ∈ σ.writes c, t ≤ σ.now := by
  cases hgame : (σ.system.clients c).gameclient with
  | true => exact (h.beating c hgame).past
  | false => simp [h.writes_eq_nil hrun hgame]

omit hfrom hto hrt in
/-- Nothing has been decoded on the session that is accepted next. -/
lemma Watch.heard_eq_zero (h : Watch latency delay tr σ) :
    σ.heard σ.system.peers.length = 0 := by
  have hcount := h.heard σ.system.peers.length
  rcases (System.wired_of_run (hrun.mono fun _ _ _ hw => hw.1)).requests
      σ.system.peers.length with hnil | ⟨c, n, hc, -⟩
  · rw [hnil, List.length_nil] at hcount
    omega
  · exact absurd (List.getElem?_eq_some_iff.mp hc).1 (lt_irrefl _)

/-- A connection is accepted.

**Proof sketch.** The new session has heard nothing, and nothing of its user is known to it: the
time of its acceptance is now, and what its user has handed over was handed over before. The other
sessions keep their times. -/
lemma Watch.accept (h : Watch latency delay tr σ) (c : ℕ) : Watch latency delay tr { σ with
    acceptTime := Function.update σ.acceptTime σ.system.peers.length σ.now
    system := { σ.system with
      server := σ.system.server.accept (σ.now / 1000)
      peers := σ.system.peers ++ [c] } } := by
  obtain ⟨hserving, -⟩ := System.healthy_of_run hfrom hto hrt hrun
  have hlength := System.length_peers hrun
  refine ⟨h.beating, fun s d hs => ?_, h.written, fun s => ?_⟩
  · by_cases hnew : s = σ.system.peers.length
    · subst hnew
      obtain rfl : c = d := by simpa using hs
      have hpast := h.past hrun (c := c)
      refine ⟨?_, ?_, fun _ => ?_, fun t ht => ?_, fun t ht => ?_, fun t _ => ?_⟩
      · simp
      · simp [GameServer.accept, hlength]
      · simp
      · dsimp only
        rw [Function.update_self]
        exact (hpast t (List.mem_of_mem_head? ht)).trans (Nat.le_add_right _ _)
      · dsimp only at ht
        rw [h.heard_eq_zero hrun] at ht
        cases ht
      · dsimp only
        rw [Function.update_self]
        omega
    · have hold : σ.system.peers[s]? = some d := by
        have hlt := (List.getElem?_eq_some_iff.mp hs).1
        simp only [List.length_append, List.length_singleton] at hlt
        rwa [List.getElem?_append_left (by omega)] at hs
      have htime : Function.update σ.acceptTime σ.system.peers.length σ.now s = σ.acceptTime s :=
        Function.update_of_ne hnew _ _
      have hlast : (σ.system.server.accept (σ.now / 1000)).lastAliveTime s =
          σ.system.server.lastAliveTime s := by
        simp [GameServer.accept, ← hlength, hnew]
      obtain ⟨haccepted, hknown, hconnecting, hfirst, hheard, hdue⟩ := h.heeded s d hold
      refine ⟨?_, ?_, ?_, ?_, ?_, ?_⟩
      all_goals simpa only [htime, hlast]
  · have hstep : σ.system.server.step (userWire rt rspData) (.accept (σ.now / 1000)) =
        some (σ.system.server.accept (σ.now / 1000), []) := rfl
    have hbodies := GameServer.bodies_of_step hserving hstep s
    exact (congrArg (σ.heard s + ·) hbodies).trans (h.heard s)

/-- The server makes a step.

**Proof sketch.** A session that decodes a frame notes the present second (`lastAliveTime_of_step`),
which is not before its acceptance and not before any time at which a frame was handed over; one
frame less is due then. The other sessions keep their times, and the frames in the queues are
counted by `bodies_of_step`. -/
lemma Watch.server {e : GameServer.Event UserBuffer} {server out}
    (h : Watch latency delay tr σ) (he : ∀ t, e ≠ .accept t)
    (hnow : ∀ s t, e = .io s t → t = σ.now / 1000)
    (hstep : σ.system.server.step (userWire rt rspData) e = some (server, out)) :
    Watch latency delay (tr ++ out.map .server) { σ with
      heard := fun s =>
        if decodes (userWire rt rspData) σ.system.server e = some s then σ.heard s + 1
        else σ.heard s
      system := { σ.system with server } } := by
  obtain ⟨hserving, -⟩ := System.healthy_of_run hfrom hto hrt hrun
  refine ⟨h.beating, fun s c hs => ?_, fun c => ?_, fun s => ?_⟩
  · have hlast := GameServer.lastAliveTime_of_step hnow he hstep s
    have hpast := h.past hrun (c := c)
    obtain ⟨haccepted, hknown, hconnecting, hfirst, hheard, hdue⟩ := h.heeded s c hs
    by_cases hdecodes : decodes (userWire rt rspData) σ.system.server e = some s
    · -- the time of the frame is not after the present
      rw [if_pos hdecodes] at hlast
      refine ⟨haccepted, ?_, hconnecting, hfirst, fun t ht => ?_, fun t ht => ?_⟩
      · exact hlast ▸ Nat.div_le_div_right haccepted
      · exact hlast ▸ Nat.div_le_div_right (hpast t (List.mem_of_mem_take ht))
      · simp only [if_pos hdecodes] at ht
        refine hdue t ?_
        rw [← List.drop_drop] at ht
        exact List.mem_of_mem_drop ht
    · rw [if_neg hdecodes] at hlast
      refine ⟨haccepted, ?_, hconnecting, hfirst, ?_, ?_⟩
      all_goals simpa only [if_neg hdecodes, hlast]
  · rw [System.clientOf_append, System.clientOf_server, List.append_nil]
    exact h.written c
  · have hbodies := GameServer.bodies_of_step hserving hstep s
    have hcount := h.heard s
    rw [System.serverOf_append, System.serverOf_server, GameServer.arrivedOn_append,
      List.length_append]
    dsimp only
    split at hbodies
    · rw [if_pos ‹_›]
      omega
    · rw [if_neg ‹_›]
      omega

/-- A user makes a step.

**Proof sketch.** For the user itself this is `ClientUser.beating_of_step`. The frames that it hands
over are added at the end of its writes: those that were heard stay the same, and the new ones are
due from now on. The first frame of all is handed over when the connection is made, in time for the
session. -/
lemma Watch.client {e : ClientUser.Event} {client out} (h : Watch latency delay tr σ)
    (hsmooth : ClientUser.Smooth rtRsp (clientOf c tr) (σ.system.clients c) e)
    (hnow : ∀ t, e = .io t ∨ e = .connectDone t true → t = σ.now)
    (hstep : (σ.system.clients c).step rtRsp reqData (System.uid uidFrom c) e =
      some (client, out)) :
    Watch latency delay (tr ++ out.map (.client c)) { σ with
      expiry := Function.update σ.expiry c
        (if (σ.system.clients c).arms e then σ.now + KeepAlive.period else σ.expiry c)
      writes := Function.update σ.writes c
        (σ.writes c ++ List.replicate ((σ.system.clients c).handedBy e) σ.now)
      system := { σ.system with clients := Function.update σ.system.clients c client } } := by
  obtain ⟨-, hattending⟩ := System.healthy_of_run hfrom hto hrt hrun
  have htalks := System.talks_of_run hrun c
  refine ⟨fun d hgame => ?_, fun s d hs => ?_, fun d => ?_, fun s => ?_⟩
  · by_cases hdc : d = c
    · subst hdc
      simp only [Function.update_self] at hgame ⊢
      exact ClientUser.beating_of_step (h.beating d) (fun hnone => h.writes_eq_nil hrun hnone)
        (hattending d) htalks hsmooth hnow hstep hgame
    · simp only [Function.update_of_ne hdc] at hgame ⊢
      exact h.beating d hgame
  · obtain ⟨haccepted, hknown, hconnecting, hfirst, hheard, hdue⟩ := h.heeded s d hs
    by_cases hdc : d = c
    · subst hdc
      have hle := h.heard_le (hrun.mono fun _ _ _ hw => hw.1) hs
      refine ⟨haccepted, hknown, fun hstill => ?_, fun t ht => ?_, fun t ht => ?_, fun t ht => ?_⟩
      · simp only [Function.update_self] at hstill
        exact hconnecting (ClientUser.connecting_of_step hstep hstill)
      · simp only [Function.update_self] at ht
        cases hwrites : σ.writes d with
        | cons u us =>
          rw [hwrites] at ht hfirst
          exact hfirst t ht
        | nil =>
          rw [hwrites, List.nil_append] at ht
          rw [List.eq_of_mem_replicate (List.mem_of_mem_head? ht)]
          -- the first frame is handed over when the connection is made
          exact hconnecting (h.connecting_of_nil hfrom hto hrt hrun hwrites)
      · simp only [Function.update_self, List.take_append_of_le_length hle] at ht
        exact hheard t ht
      · simp only [Function.update_self, List.drop_append_of_le_length hle] at ht
        rcases List.mem_append.mp ht with ht | ht
        · exact hdue t ht
        · rw [List.eq_of_mem_replicate ht]
          dsimp only
          omega
    · refine ⟨haccepted, hknown, ?_, ?_, ?_, ?_⟩
      all_goals simpa only [Function.update_of_ne hdc]
  · rw [System.clientOf_append, System.clientOf_client]
    by_cases hdc : d = c
    · subst hdc
      simp only [if_pos, Function.update_self]
      rw [ClientUser.handed_of_step htalks hstep, List.length_append, List.length_replicate,
        h.written d]
    · simp only [Ne.symm hdc, if_false, Function.update_of_ne hdc, List.append_nil]
      exact h.written d
  · rw [System.serverOf_append, System.serverOf_client, List.append_nil]
    exact h.heard s

/-- **One step** of the system. -/
lemma Watch.step {e : System.Event} {system out} (h : Watch latency delay tr σ)
    (hworks : Works tr σ.system e) (htimely : σ.Timely e)
    (hstep : σ.system.step rt rtRsp reqData rspData uidFrom uidTo e = some (system, out)) :
    Watch latency delay (tr ++ out) { σ.noted rt rspData e with system } := by
  have hnetwork : (System.machine rt rtRsp reqData rspData uidFrom uidTo).Run Network tr σ.system :=
    hrun.mono fun _ _ _ hw => hw.1
  cases System.step_cases hstep with
  | start =>
    rw [List.append_nil]
    exact ⟨h.beating, fun s c hs => { h.heeded s c hs with }, h.written, h.heard⟩
  | @accept c now =>
    cases (show now = σ.now / 1000 from htimely)
    rw [List.append_nil]
    exact h.accept hfrom hto hrt hrun c
  | @server e server out' he hserver =>
    refine h.server hfrom hto hrt hrun he (fun s t heq => ?_) hserver
    subst heq
    exact htimely
  | @client c e client out' hc hclient =>
    refine h.client hfrom hto hrt hrun (System.smooth_client hfrom hto hrt hnetwork hworks)
      (fun t heq => ?_) hclient
    rcases heq with rfl | rfl
    · exact htimely
    · exact htimely

end Works

/-! ## Runs -/

/-- What is left to be asked of a step is that `CheckAlive` finds the session alive. -/
lemma works_of_sound {e : System.Event} (hsound : Sound tr σ (.system e))
    (halive : ∀ s now, e = .server (.io s now) → σ.system.server.notAlive s now = false) :
    Works tr σ.system e := by
  cases e with
  | start | accept | client => exact hsound
  | server e =>
    cases e with
    | io s now => exact ⟨trivial, halive s now rfl⟩
    | accept | readDone | writeDone | timerDone | logic => exact hsound

/-- **The run lemma.** The system runs as one in which nothing fails and `CheckAlive` finds every
session alive, and the invariant holds.

**Proof sketch.** Induction on the run. When time passes, the guard of the step keeps everything in
time (`Watch.elapse`). Before any other step the invariant shows that `CheckAlive` finds the session
of a handler alive (`Watch.alive`), so that the step is one of a run in which nothing fails, and
then the invariant is kept (`Watch.step`). -/
lemma watch_of_run (hfrom : -2 ^ 31 ≤ uidFrom) (hto : uidTo < 2 ^ 31)
    (hrt : Runtimes rt rtRsp reqData rspData) (hprompt : latency + delay ≤ 1000)
    (h : (machine rt rtRsp reqData rspData uidFrom uidTo latency delay).Run Sound tr σ) :
    (System.machine rt rtRsp reqData rspData uidFrom uidTo).Run Works tr σ.system ∧
      Watch latency delay tr σ := by
  refine h.invariant (fun tr σ => (System.machine rt rtRsp reqData rspData uidFrom uidTo).Run Works
    tr σ.system ∧ Watch latency delay tr σ) ?_ fun tr σ e σ' out _ ih hsound hstep => ?_
  · refine ⟨.nil, fun c hgame => ?_, fun s c hs => ?_, fun _ => rfl, fun _ => rfl⟩
    · cases hgame
    · cases hs
  · obtain ⟨hrun, hwatch⟩ := ih
    cases e with
    | elapse ms =>
      simp only [machine, step] at hstep
      split at hstep
      · cases hstep
        rw [List.append_nil]
        exact ⟨hrun, hwatch.elapse hrun ‹_›⟩
      · cases hstep
    | system e =>
      simp only [machine, step] at hstep
      split at hstep
      · rename_i htimely
        obtain ⟨⟨system, outs⟩, hsystem, heq⟩ := Option.map_eq_some_iff.mp hstep
        cases heq
        have hworks : Works tr σ.system e := by
          refine works_of_sound hsound ?_
          rintro s now rfl
          obtain rfl : now = σ.now / 1000 := htimely
          cases System.step_cases hsystem with
          | server _ hserver =>
            obtain ⟨-, -, -, -, hs, -⟩ := GameServer.io_cases hserver
            rw [← System.length_peers hrun] at hs
            exact hwatch.alive hfrom hto hrt hrun hprompt (List.getElem?_eq_getElem hs)
        exact ⟨.snoc hrun hworks hsystem,
          hwatch.step hfrom hto hrt hrun hworks htimely hsystem⟩
      · cases hstep

/-! ## Time goes on -/

/-- The same step at the present time. -/
def atNow (σ : TimedSystem) : System.Event → System.Event
  | .accept c _ => .accept c (σ.now / 1000)
  | .server (.io s _) => .server (.io s (σ.now / 1000))
  | .client c (.connectDone _ ok) => .client c (.connectDone σ.now ok)
  | .client c (.io _) => .client c (.io σ.now)
  | e => e

/-- What is possible at some time is possible now, but for the end of a wait.

**Proof sketch.** By cases on the event. The time of a handler, an accept or a connection that is
made has no part in whether it is possible, so that it can be the present one; the other events have
no time. -/
lemma isSome_step_atNow {e : System.Event} {system out} (he : e.spontaneous = false)
    (hstep : σ.system.step rt rtRsp reqData rspData uidFrom uidTo e = some (system, out)) :
    (σ.step rt rtRsp reqData rspData uidFrom uidTo latency delay (.system (σ.atNow e))).isSome := by
  have htimely : σ.Timely (σ.atNow e) := by
    cases e with
    | start => cases he
    | accept => rfl
    | server e => cases e <;> first | rfl | trivial
    | client c e => cases e <;> first | rfl | trivial
  rw [step, if_pos htimely, Option.isSome_map]
  have hsame : σ.atNow e = e →
      (σ.system.step rt rtRsp reqData rspData uidFrom uidTo (σ.atNow e)).isSome := fun heq => by
    rw [heq, hstep]
    rfl
  cases System.step_cases hstep with
  | start => cases he
  | accept hc hnew => simp [System.step, atNow, hc, hnew]
  | @server e _ _ _ hserver =>
    cases e with
    | io s now =>
      obtain ⟨hd, rest, _, _, hs, hqueue, -⟩ := GameServer.io_cases hserver
      simp [System.step, GameServer.step, atNow, hs, Session.runHandler, hqueue]
    | accept | readDone | writeDone | timerDone | logic => exact hsame rfl
  | @client c e _ _ hc hclient =>
    cases e with
    | connectDone now ok =>
      have hnew : (σ.system.clients c).connecting = true := by
        by_contra hdone
        simp [ClientUser.step, hdone] at hclient
      simp [System.step, ClientUser.step, atNow, hc, hnew]
    | io now =>
      obtain ⟨hd, rest, _, _, hqueue, -⟩ := ClientUser.io_cases hclient
      simp [System.step, ClientUser.step, atNow, hc, hqueue]
    | readDone | writeDone | timerDone | task => exact hsame rfl

/-- A step at the present time is no start of a user. -/
lemma atNow_ne_start {e : System.Event} (he : e.spontaneous = false) : σ.atNow e ≠ .start := by
  intro heq
  cases e with
  | start => cases he
  | accept => cases heq
  | server e => cases e <;> cases heq
  | client c e => cases e <;> cases heq

/-- What works at some time can happen now. -/
lemma sound_atNow {e : System.Event} (hworks : Works tr σ.system e) :
    Sound tr σ (.system (σ.atNow e)) := by
  cases e with
  | start | accept => exact hworks
  | server e => cases e <;> first | exact hworks | trivial
  | client c e => cases e <;> exact hworks

/-- **Time never stops.** Unless a millisecond can pass, a step is possible that is not the start of
another user: what is late can be done.

**Proof sketch.** Suppose that no step is possible. An expiry that is late would be one, so that no
timer is late. All other steps could be taken now (`isSome_step_atNow`), so that the system is
stuck: all queues are empty, every user is connected, and everything that was handed over has been
decoded. Then nothing is late, and a millisecond can pass. -/
theorem elapse_or_step (hfrom : -2 ^ 31 ≤ uidFrom) (hto : uidTo < 2 ^ 31)
    (hrt : Runtimes rt rtRsp reqData rspData)
    (hrun : (System.machine rt rtRsp reqData rspData uidFrom uidTo).Run Works tr σ.system)
    (h : Watch latency delay tr σ) :
    (σ.step rt rtRsp reqData rspData uidFrom uidTo latency delay (.elapse 1)).isSome ∨
      ∃ e : System.Event, e ≠ .start ∧ Sound tr σ (.system e) ∧
        (σ.step rt rtRsp reqData rspData uidFrom uidTo latency delay (.system e)).isSome := by
  by_contra hnone
  obtain ⟨hstop, hsteps⟩ := not_or.mp hnone
  -- then the system is stuck
  have hstuck : Stuck rt rtRsp reqData rspData uidFrom uidTo tr σ.system := by
    intro e he hworks
    by_contra hsome
    obtain ⟨⟨system, out⟩, hr⟩ := Option.ne_none_iff_exists'.mp hsome
    exact hsteps ⟨σ.atNow e, atNow_ne_start he, sound_atNow hworks, isSome_step_atNow he hr⟩
  refine hstop ?_
  have hwired := System.wired_of_run (hrun.mono fun _ _ _ hw => hw.1)
  obtain ⟨hserving, hattending⟩ := System.healthy_of_run hfrom hto hrt hrun
  have hintime : σ.InTime latency delay (σ.now + 1) := by
    refine ⟨fun c hc hticking => ?_, fun s _ c hs => ?_⟩
    · -- the wait has not ended, or its end is possible
      obtain ⟨-, hqueue, -⟩ := hstuck.client hc
      have harmed : (σ.system.clients c).io.timerArmed = true := by
        simpa [Session.ticking, hqueue] using hticking
      by_contra hlate
      have htimely : σ.Timely (.client c .timerDone) := by
        rw [Timely]
        omega
      refine hsteps ⟨.client c .timerDone, (fun heq => by cases heq), ⟨trivial, trivial⟩, ?_⟩
      simp [step, htimely, System.step, hc, ClientUser.step, Session.expireTimer, harmed]
    · have hc : c < σ.system.started := hwired.made c (List.mem_of_getElem? hs)
      have hacc := System.lt_accepted hrun hs
      obtain ⟨hconnecting, hqueue, hwriting, -⟩ := hstuck.client hc
      refine ⟨fun hstill => ?_, ?_⟩
      · rw [hconnecting] at hstill
        cases hstill
      · -- everything that was handed over has been decoded
        obtain ⟨hqueue', hwriting'⟩ := hstuck.session hacc
        obtain ⟨-, op, hreading⟩ := (hserving.healthy s hacc).at_rest hqueue' hwriting'
        have hup := List.getElem?_eq_none_iff.mp (hstuck.up_eq_none hacc hs hreading)
        have hwritten := h.written c
        have hheard := h.heard s
        rw [handed, hqueue] at hwritten
        rw [hqueue'] at hheard
        rw [System.up, List.length_append] at hup
        have hposted : Session.posted ([] : List (Handler UserBuffer UserBuffer)) = [] := rfl
        have hbodies : Session.bodies ([] : List (Handler UserBuffer UserBuffer)) = [] := rfl
        rw [hposted, List.length_nil] at hwritten
        rw [hbodies, List.length_nil] at hheard
        rw [List.drop_eq_nil_of_le (by omega)]
        simp
  rw [step, if_pos hintime]
  rfl

/-- **Nobody who pings is timed out.** In every run of the server with the users of one client
process over a network that keeps the order and on which nothing fails, if the latency of the timers
and the delay of the frames make at most one second together: `CheckAlive` would close no session,
now or at any time before, so that no session is closed and no user loses its connection; and unless
some time can pass, a step is possible.

**Proof sketch.** A user hands over a frame not later than 3999 ms and the latency after the start
of the second of the one before (`ClientUser.Beating`), so that the frame that a session waits for
is decoded before five seconds are over (`second_le`). -/
theorem stays_alive (hfrom : -2 ^ 31 ≤ uidFrom) (hto : uidTo < 2 ^ 31)
    (hrt : Runtimes rt rtRsp reqData rspData) (hprompt : latency + delay ≤ 1000)
    (h : (machine rt rtRsp reqData rspData uidFrom uidTo latency delay).Run Sound tr σ) :
    (System.machine rt rtRsp reqData rspData uidFrom uidTo).Run Works tr σ.system ∧
      (∀ s < σ.system.server.logic.accepted,
        σ.system.server.notAlive s (σ.now / 1000) = false ∧
          (σ.system.server.logic.sessions s).closed = false) ∧
      (∀ c, (σ.system.clients c).gameclient = true → (σ.system.clients c).io.isOpen = true) ∧
      ((σ.step rt rtRsp reqData rspData uidFrom uidTo latency delay (.elapse 1)).isSome ∨
        ∃ e : System.Event, e ≠ .start ∧ Sound tr σ (.system e) ∧
          (σ.step rt rtRsp reqData rspData uidFrom uidTo latency delay (.system e)).isSome) := by
  obtain ⟨hrun, hwatch⟩ := watch_of_run hfrom hto hrt hprompt h
  obtain ⟨hserving, hattending⟩ := System.healthy_of_run hfrom hto hrt hrun
  refine ⟨hrun, fun s hs => ⟨?_, hserving.opened s⟩,
    fun c hgame => ((hattending c).healthy hgame).isOpen,
    elapse_or_step hfrom hto hrt hrun hwatch⟩
  rw [← System.length_peers hrun] at hs
  exact hwatch.alive hfrom hto hrt hrun hprompt (List.getElem?_eq_getElem hs)

instance {tr : List System.Obs} {σ : TimedSystem} : (e : Event) → Decidable (Sound tr σ e)
  | .elapse _ | .system (.server (.io ..)) => inferInstanceAs (Decidable True)
  | .system .start | .system (.accept ..) | .system (.client ..) | .system (.server (.accept _))
  | .system (.server (.readDone ..)) | .system (.server (.writeDone ..))
  | .system (.server (.timerDone _)) | .system (.server .logic) =>
    inferInstanceAs (Decidable (Works _ _ _))

/-- A user that sends its login request and one ping after the other is alive after six seconds.

**Proof sketch.** The run is computed: a request, two expiries of the timer of the user with a ping
each, and the time between them. -/
theorem stays_alive_ping : ∃ (tr : List System.Obs) (σ : TimedSystem),
    (machine sampleReqProtobuf ClientUser.sampleRspProtobuf sampleTypedReqData sampleRspData
      10 10 20 100).Run Sound tr σ ∧ σ.now = 6000 ∧
        σ.system.server.notAlive 0 6 = false ∧
          (σ.system.server.logic.sessions 0).closed = false := by
  obtain ⟨r, hexec, hnow, hacc⟩ : ∃ r ∈ (machine sampleReqProtobuf ClientUser.sampleRspProtobuf
      sampleTypedReqData sampleRspData 10 10 20 100).exec
      (fun tr σ e => decide (Sound tr σ e)) [] {}
      ([.system .start, .system (.client 0 (.connectDone 0 true)), .system (.accept 0 0),
          .system (.client 0 (.io 0)), .system (.client 0 (.writeDone true)),
          .system (.client 0 (.io 0)), .elapse 60] ++
        (sampleDelivery
          (ClientUser.frame sampleTypedReqData (.loginReq ⟨.kLoginTypeNormal, [49, 48]⟩))
          (fun r => .server (.readDone 0 r)) (.server (.io 0 0))).map .system ++
        [.elapse 1940, .system (.client 0 .timerDone), .elapse 10,
          .system (.client 0 (.io 2010)), .system (.client 0 (.io 2010)),
          .system (.client 0 (.writeDone true)), .elapse 90, .system (.client 0 (.io 2100))] ++
        (sampleDelivery ClientUser.pingFrame
          (fun r => .server (.readDone 0 r)) (.server (.io 0 2))).map .system ++
        [.elapse 1920, .system (.client 0 .timerDone),
          .system (.client 0 (.io 4020)), .system (.client 0 (.io 4020)),
          .system (.client 0 (.writeDone true)), .elapse 50] ++
        (sampleDelivery ClientUser.pingFrame
          (fun r => .server (.readDone 0 r)) (.server (.io 0 4))).map .system ++
        [.elapse 1930]),
      r.2.now = 6000 ∧ r.2.system.server.logic.accepted = 1 := by
    decide +kernel
  have hrun := Machine.run_of_exec (G := Sound) (fun tr σ e h => of_decide_eq_true h) hexec
  obtain ⟨-, hsessions, -⟩ := stays_alive (by decide) (by decide) sampleRuntimes (by decide) hrun
  obtain ⟨halive, hopen⟩ := hsessions 0 (by rw [hacc]; decide)
  rw [hnow] at halive
  exact ⟨r.1, r.2, hrun, hnow, halive, hopen⟩

end TimedSystem

end FightingCard
