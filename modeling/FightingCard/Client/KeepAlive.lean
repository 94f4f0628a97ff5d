import Mathlib.Data.List.Chain
import FightingCard.Server.GameServer

set_option relaxedAutoImplicit false
set_option autoImplicit false

/-!
# Pings and the keepalive of the server

A client and its session over time (`client/gameclient.cpp`, `server/user_session.cpp`). The
client sends a ping when its timer expires and it has written nothing for two seconds; the
session closes when it has received nothing for five. Both ends read the same clock and truncate
it to seconds.

Time is counted in milliseconds. The timer of the client expires every 2000 ms from the moment
of the connection, the application may send messages at any time in between, and the network
delivers the frames in order, each at most 1000 ms after it was written.

## Main definitions

* `FightingCard.GameClient` — `Write`, `SendMsg` and `SendPingMsg`.
* `FightingCard.KeepAlive.machine` — the client, the network and the session in time.
* `FightingCard.KeepAlive.Paced` — a sequence of times without a long gap.
* `FightingCard.KeepAlive.OnTime` — the invariant of the timed runs.

## Main results

* `FightingCard.GameClient.sendPingMsg_cases` — a skipped ping means a recent write.
* `FightingCard.KeepAlive.elapse_or_tick_or_receive` — time never stops.
* `FightingCard.KeepAlive.alive_of_received` — from the receipt of the first frame on,
  `CheckAlive` does not close the session.
-/

namespace FightingCard

/-! ## The client -/

/-- `GameClient`, with `last_write_time_` in seconds. -/
structure GameClient where
  lastWriteTime : ℕ := 0

namespace GameClient

/-- `PING_SEND_FREQUENCY`. -/
def PING_SEND_FREQUENCY : ℕ := 2

/-- `Write(buf)` at the time `now` in milliseconds: the client and the frames that it hands to its
pipe. -/
def write (c : GameClient) (now : ℕ) (buf : UserBuffer) : GameClient × List UserBuffer :=
  ({ c with lastWriteTime := now / 1000 }, [buf])

/-- `SendMsg(proto_msg)`. -/
def sendMsg (c : GameClient) (now : ℕ) (protoMsg : ProtoMsg) : GameClient × List UserBuffer :=
  c.write now (.ofMsg protoMsg)

/-- `SendPingMsg()`. A `game::Ping` has no fields. -/
def sendPingMsg (c : GameClient) (now : ℕ) : GameClient × List UserBuffer :=
  let nowSeconds := now / 1000
  if nowSeconds > c.lastWriteTime && nowSeconds - c.lastWriteTime ≥ PING_SEND_FREQUENCY then
    c.sendMsg now ⟨pingName, []⟩
  else (c, [])

/-- A `game::Ping` as a message that fits its frame. -/
def pingMsg : UserBuffer.Message where
  typeName := pingName
  data := []
  name_pos := by decide
  name_le := by decide
  nul_free := by decide
  fits := by decide

/-- **A skipped ping means a recent write.** -/
lemma sendPingMsg_cases (c : GameClient) (now : ℕ) :
    c.sendPingMsg now = c.sendMsg now pingMsg.toProtoMsg ∨
    c.sendPingMsg now = (c, []) ∧ now / 1000 ≤ c.lastWriteTime + 1 := by
  by_cases h : now / 1000 > c.lastWriteTime ∧ now / 1000 - c.lastWriteTime ≥ 2
  · left
    simp [sendPingMsg, PING_SEND_FREQUENCY, h, pingMsg]
  · right
    refine ⟨?_, by omega⟩
    simp [sendPingMsg, PING_SEND_FREQUENCY, h]

end GameClient

/-! ## The client, the network and the session in time -/

/-- A client and its session: the time in milliseconds, the time at which the timer of the client
expires next, the frames on their way with the times at which they were written, the `read_buf_`
of the session, and the server. -/
structure KeepAlive where
  now : ℕ
  expiry : ℕ
  client : GameClient := {}
  inFlight : List (ℕ × UserBuffer) := []
  readBuf : UserBuffer := .new
  server : GameServer UserBuffer UserBuffer

namespace KeepAlive

/-- What can happen next: some time passes, the application calls `SendMsg`, the timer of the
client expires, the session has received the next frame. -/
inductive Event where
  | elapse (ms : ℕ)
  | sendMsg (msg : UserBuffer.Message)
  | tick
  | receive

/-- The longest time that a frame is on its way, in milliseconds. -/
def maxDelay : ℕ := 1000

/-- The period of the timer of the client, in milliseconds. -/
def period : ℕ := GameClient.PING_SEND_FREQUENCY * 1000

section Step

variable (rt : Protobuf UserMsg) (rspData : LoginRsp → Bytes) (s : ℕ) (σ : KeepAlive)

/-- The frames that the client hands to its pipe leave at once. -/
def written (r : GameClient × List UserBuffer) : KeepAlive :=
  { σ with client := r.1, inFlight := σ.inFlight ++ r.2.map fun buf => (σ.now, buf) }

/-- The `read_buf_` of the session after the bytes of a frame have been read into it. -/
def received (buf : UserBuffer) : UserBuffer :=
  (σ.readBuf.readHeader (buf.wire.take 2)).readBody (buf.wire.drop 2)

/-- One step. No time passes over an expiry of the timer or over the last moment at which a frame
is delivered. A run records the times of the receipts. -/
def step (σ : KeepAlive) : Event → Option (KeepAlive × List ℕ)
  | .elapse ms =>
    if σ.now + ms ≤ σ.expiry ∧ ∀ p ∈ σ.inFlight, σ.now + ms ≤ p.1 + maxDelay then
      some ({ σ with now := σ.now + ms }, [])
    else none
  | .sendMsg msg => some (σ.written (σ.client.sendMsg σ.now msg.toProtoMsg), [])
  | .tick =>
    if σ.now = σ.expiry then
      -- `TimerLoop` starts the next wait, then it calls the function
      some ({ σ with expiry := σ.expiry + period }.written (σ.client.sendPingMsg σ.now), [])
    else none
  | .receive =>
    match σ.inFlight with
    | [] => none
    | (_, buf) :: rest =>
      let readBuf := σ.received buf
      some ({ σ with
        inFlight := rest
        readBuf := readBuf
        server := (σ.server.signal (userWire rt rspData) s (σ.now / 1000)
          (.onReadBody readBuf)).1 }, [σ.now])

/-- The runs of a client that connects at the time `connectTime`, whose session has the number `s`
in a server in any state. -/
def machine (connectTime : ℕ) (server : GameServer UserBuffer UserBuffer) :
    Machine KeepAlive Event ℕ :=
  ⟨{ now := connectTime, expiry := connectTime + period, server }, step rt rspData s⟩

end Step

/-! ## Paced sequences of times -/

/-- No time of the sequence is more than `g` later than the one before it. -/
def Paced (g : ℕ) (ts : List ℕ) : Prop := ts.IsChain fun t u => u ≤ t + g

section Paced

variable {g t u : ℕ} {ts : List ℕ}

/-- A time that is not too late extends the sequence. -/
lemma Paced.concat (h : Paced g ts) (hlast : ∀ u ∈ ts.getLast?, t ≤ u + g) :
    Paced g (ts ++ [t]) := by
  refine List.IsChain.append h (List.isChain_singleton t) ?_
  intro u hu v hv
  cases hv
  exact hlast u hu

/-- A paced sequence stays paced when its first time is replaced by a later one. -/
lemma Paced.raise (h : Paced g (t :: ts)) (htu : t ≤ u) : Paced g (u :: ts) :=
  List.IsChain.imp_head (fun hz => hz.trans (Nat.add_le_add_right htu g)) h

/-- The second of two times comes in time after the first. -/
lemma Paced.le_of_cons_cons (h : Paced g (t :: u :: ts)) : u ≤ t + g :=
  (List.isChain_cons_cons.mp h).1

/-- The times after the first are paced as well. -/
lemma Paced.tail (h : Paced g (t :: ts)) : Paced g ts := List.IsChain.tail h

end Paced

/-! ## Every frame is decoded -/

variable {rt : Protobuf UserMsg} {rspData : LoginRsp → Bytes} {s : ℕ} {σ : KeepAlive}
variable {tr : List ℕ}

/-- The frame of a message is decoded whatever the buffer held before. -/
lemma decode_received (msg : UserBuffer.Message) :
    (userWire rt rspData).decode (σ.received (.ofMsg msg.toProtoMsg)) = true := by
  have hlen : ((UserBuffer.ofMsg msg.toProtoMsg).wire.take 2).length = 2 := by
    have hframe := msg.length_frame
    rw [UserBuffer.ofMsg, UserBuffer.wire_encode, List.length_take, List.length_append,
      ByteMem.length_read]
    omega
  have hbuf : (σ.received (.ofMsg msg.toProtoMsg)).buf =
      ByteMem.write σ.readBuf.buf 0 (UserBuffer.ofMsg msg.toProtoMsg).wire := by
    rw [received, Buffer.readBody_readHeader hlen, List.take_append_drop]
  have hread : ByteMem.read (σ.received (.ofMsg msg.toProtoMsg)).buf 0 msg.frame.length =
      msg.frame := by
    rw [hbuf, UserBuffer.ofMsg, UserBuffer.wire_encode]
    exact ByteMem.read_write_left rfl
  obtain ⟨parts, hparts, -⟩ := Option.map_eq_some_iff.mp (UserBuffer.received_of_read msg hread)
  simp [userWire, UserBuffer.outcome, hparts]

/-- A received frame of a message sets `last_alive_time_`. -/
lemma lastAliveTime_signal {msg : UserBuffer.Message} {server : GameServer UserBuffer UserBuffer}
    {now : ℕ} : (server.signal (userWire rt rspData) s now
      (.onReadBody (σ.received (.ofMsg msg.toProtoMsg)))).1.lastAliveTime s = now := by
  simp only [GameServer.signal, decode_received, if_true]
  split <;> simp

/-! ## The invariant -/

/-- The times in seconds that the keepalive lives on: `last_alive_time_` once a frame has been
received, then the times at which the frames on their way were written. -/
def beats (s : ℕ) (tr : List ℕ) (σ : KeepAlive) : List ℕ :=
  (if tr = [] then [] else [σ.server.lastAliveTime s]) ++ σ.inFlight.map fun p => p.1 / 1000

/-- The invariant: the frames on their way are not late, no two beats are more than three seconds
apart, and `last_write_time_` is not later than the last beat and less than four seconds before
the next expiry of the timer. -/
structure OnTime (s : ℕ) (tr : List ℕ) (σ : KeepAlive) : Prop where
  messages : ∀ p ∈ σ.inFlight, ∃ msg : UserBuffer.Message, p.2 = .ofMsg msg.toProtoMsg
  now_le : σ.now ≤ σ.expiry
  expiry_le : σ.expiry ≤ σ.now + period
  sent : ∀ p ∈ σ.inFlight, p.1 ≤ σ.now
  due : ∀ p ∈ σ.inFlight, σ.now ≤ p.1 + maxDelay
  paced : Paced 3 (beats s tr σ)
  recent : ∀ t ∈ (beats s tr σ).getLast?,
    σ.client.lastWriteTime ≤ t ∧ σ.expiry / 1000 ≤ σ.client.lastWriteTime + 3

/-- Time passes. -/
lemma OnTime.elapse {ms : ℕ} (h : OnTime s tr σ) (hexpiry : σ.now + ms ≤ σ.expiry)
    (hdue : ∀ p ∈ σ.inFlight, σ.now + ms ≤ p.1 + maxDelay) :
    OnTime s tr { σ with now := σ.now + ms } where
  messages := h.messages
  now_le := hexpiry
  expiry_le := by
    have hle := h.expiry_le
    dsimp only
    omega
  sent p hp := (h.sent p hp).trans (Nat.le_add_right _ _)
  due := hdue
  paced := h.paced
  recent := h.recent

/-- The client writes the frame of a message, with the next expiry at any time that the timer
allows. The time of writing is a beat, and not a late one: the timer has not expired since
more than three seconds after the last write.

**Proof sketch.** The message gets one beat, the present second, at the end of the beats. It follows
the last one by three seconds at most, since the timer was due by then (`recent`), and the next
expiry is within the period from now. -/
lemma OnTime.sendMsg {expiry : ℕ} (h : OnTime s tr σ) (hge : σ.now ≤ expiry)
    (hle : expiry ≤ σ.now + period) (msg : UserBuffer.Message) :
    OnTime s tr ({ σ with expiry }.written (σ.client.sendMsg σ.now msg.toProtoMsg)) := by
  have hbeats : beats s tr ({ σ with expiry }.written (σ.client.sendMsg σ.now msg.toProtoMsg)) =
      beats s tr σ ++ [σ.now / 1000] := by
    simp [beats, written, GameClient.sendMsg, GameClient.write]
  have hflight : ∀ p ∈ ({ σ with expiry }.written
      (σ.client.sendMsg σ.now msg.toProtoMsg)).inFlight,
      p ∈ σ.inFlight ∨ p = (σ.now, .ofMsg msg.toProtoMsg) := by
    intro p hp
    simpa [written, GameClient.sendMsg, GameClient.write] using hp
  constructor
  · intro p hp
    rcases hflight p hp with hp | rfl
    · exact h.messages p hp
    · exact ⟨msg, rfl⟩
  · exact hge
  · exact hle
  · intro p hp
    rcases hflight p hp with hp | rfl
    · exact h.sent p hp
    · exact le_rfl
  · intro p hp
    rcases hflight p hp with hp | rfl
    · exact h.due p hp
    · exact Nat.le_add_right _ _
  · rw [hbeats]
    refine h.paced.concat fun t ht => ?_
    obtain ⟨hlast, hnext⟩ := h.recent t ht
    have hnow := Nat.div_le_div_right (c := 1000) h.now_le
    omega
  · rw [hbeats]
    intro t ht
    rw [List.getLast?_concat, Option.mem_some_iff] at ht
    subst ht
    refine ⟨le_rfl, ?_⟩
    change expiry / 1000 ≤ σ.now / 1000 + 3
    have hperiod : period = 2000 := rfl
    omega

/-- The timer expires. If `SendPingMsg` skips the ping, the last write was at most a second ago,
so that it is at most three seconds old at the next expiry. -/
lemma OnTime.tick (h : OnTime s tr σ) (hnow : σ.now = σ.expiry) :
    OnTime s tr ({ σ with expiry := σ.expiry + period }.written
      (σ.client.sendPingMsg σ.now)) := by
  have hperiod : period = 2000 := rfl
  rcases σ.client.sendPingMsg_cases σ.now with hsend | ⟨hskip, hlast⟩
  · rw [hsend]
    exact h.sendMsg (by omega) (by omega) _
  · have hflight : ({ σ with expiry := σ.expiry + period }.written (σ.client, [])) =
        { σ with expiry := σ.expiry + period } := by
      simp [written]
    rw [hskip, hflight]
    refine ⟨h.messages, ?_, ?_, h.sent, h.due, h.paced, ?_⟩
    · dsimp only
      omega
    · dsimp only
      omega
    · intro t ht
      refine ⟨(h.recent t ht).1, ?_⟩
      dsimp only
      omega

/-- The session receives the next frame. The time of the receipt takes the place of the time of
writing, which is not later.

**Proof sketch.** The first frame in flight is taken away, and with it the beat of its writing; the
second of the receipt, which becomes `last_alive_time_`, is put in its place. A beat that is later
than the one it replaces is paced as well (`Paced.raise`). -/
lemma OnTime.receive {sent : ℕ} {buf : UserBuffer} {rest : List (ℕ × UserBuffer)}
    (h : OnTime s tr σ) (hflight : σ.inFlight = (sent, buf) :: rest) : OnTime s (tr ++ [σ.now])
      { σ with
        inFlight := rest
        readBuf := σ.received buf
        server := (σ.server.signal (userWire rt rspData) s (σ.now / 1000)
          (.onReadBody (σ.received buf))).1 } := by
  have hsub : ∀ q ∈ rest, q ∈ σ.inFlight := by
    intro q hq
    rw [hflight]
    exact List.mem_cons_of_mem _ hq
  have hp : (sent, buf) ∈ σ.inFlight := by simp [hflight]
  obtain ⟨msg, hmsg⟩ := h.messages _ hp
  obtain rfl : buf = .ofMsg msg.toProtoMsg := hmsg
  have hsent : sent / 1000 ≤ σ.now / 1000 := Nat.div_le_div_right (h.sent _ hp)
  have hpaced : Paced 3 (sent / 1000 :: rest.map fun q => q.1 / 1000) := by
    have hold := h.paced
    rw [beats, hflight] at hold
    split at hold
    · exact hold
    · exact hold.tail
  have hbeats : beats s (tr ++ [σ.now])
      { σ with
        inFlight := rest
        readBuf := σ.received (.ofMsg msg.toProtoMsg)
        server := (σ.server.signal (userWire rt rspData) s (σ.now / 1000)
          (.onReadBody (σ.received (.ofMsg msg.toProtoMsg)))).1 } =
        σ.now / 1000 :: rest.map fun q => q.1 / 1000 := by
    simp only [beats, List.append_eq_nil_iff, List.cons_ne_nil, and_false, if_false,
      lastAliveTime_signal, List.singleton_append]
  refine ⟨fun q hq => h.messages q (hsub q hq), h.now_le, h.expiry_le,
    fun q hq => h.sent q (hsub q hq), fun q hq => h.due q (hsub q hq), ?_, ?_⟩
  · rw [hbeats]
    exact hpaced.raise hsent
  · rw [hbeats]
    intro t ht
    cases rest with
    | nil =>
      obtain ⟨hlast, hnext⟩ := h.recent (sent / 1000) (by simp [beats, hflight])
      cases ht
      exact ⟨hlast.trans hsent, hnext⟩
    | cons q rest =>
      refine h.recent t ?_
      simpa [beats, hflight] using ht

variable {connectTime : ℕ} {server : GameServer UserBuffer UserBuffer}

/-- **The invariant holds in every run.**

**Proof sketch.** The invariant rule, with one lemma for each kind of step: time passes
(`OnTime.elapse`), a message is sent (`OnTime.sendMsg`), the timer expires (`OnTime.tick`), a frame
is received (`OnTime.receive`). -/
lemma onTime_of_reach (h : (machine rt rspData s connectTime server).Reach tr σ) :
    OnTime s tr σ := by
  refine h.invariant (OnTime s) ?_ ?_
  · refine ⟨by simp [machine], ?_, le_rfl, by simp [machine], by simp [machine], ?_, ?_⟩
    · exact Nat.le_add_right _ _
    · exact List.isChain_nil
    · simp [machine, beats]
  · intro tr σ e σ' out _ ih _ hstep
    cases e with
    | elapse ms =>
      simp only [machine, step] at hstep
      split at hstep
      · rename_i hms
        cases hstep
        rw [List.append_nil]
        exact ih.elapse hms.1 hms.2
      · cases hstep
    | sendMsg msg =>
      cases hstep
      rw [List.append_nil]
      exact ih.sendMsg ih.now_le ih.expiry_le msg
    | tick =>
      simp only [machine, step] at hstep
      split at hstep
      · cases hstep
        rw [List.append_nil]
        exact ih.tick ‹_›
      · cases hstep
    | receive =>
      simp only [machine, step] at hstep
      split at hstep
      · cases hstep
      · rename_i hflight
        cases hstep
        exact ih.receive hflight

/-- Time never stops: unless a millisecond can pass, the timer expires now or a frame arrives. -/
theorem elapse_or_tick_or_receive
    (h : (machine rt rspData s connectTime server).Reach tr σ) :
    ∃ e ∈ [Event.elapse 1, .tick, .receive], (step rt rspData s σ e).isSome := by
  by_cases hexpiry : σ.now = σ.expiry
  · exact ⟨.tick, by simp, by simp [step, hexpiry]⟩
  cases hflight : σ.inFlight with
  | nil =>
    have hnow := (onTime_of_reach h).now_le
    refine ⟨.elapse 1, by simp, ?_⟩
    simp only [step, hflight, List.not_mem_nil, false_implies, implies_true, and_true]
    rw [if_pos (by omega)]
    rfl
  | cons p rest => exact ⟨.receive, by simp, by simp [step, hflight]⟩

/-- **A live client is never timed out.** In every run, whatever the phase of the timer, the
messages of the application and the delays of the network are: at every time from the receipt of
the first frame on, `CheckAlive` does not close the session.

**Proof sketch.** A tick that sends no ping finds a write at most a second old, so that two writes
are at most three seconds apart in truncated time (`OnTime.sendMsg`, `OnTime.tick`). The delay
adds one second, and `CheckAlive` tolerates four. -/
theorem alive_of_received (h : (machine rt rspData s connectTime server).Reach tr σ)
    (htr : tr ≠ []) : σ.server.notAlive s (σ.now / 1000) = false := by
  have hσ := onTime_of_reach h
  have hbeats : beats s tr σ =
      σ.server.lastAliveTime s :: σ.inFlight.map fun p => p.1 / 1000 := by
    simp [beats, htr]
  have hnow : σ.now / 1000 ≤ σ.server.lastAliveTime s + 4 := by
    cases hflight : σ.inFlight with
    | nil =>
      obtain ⟨hlast, hnext⟩ := hσ.recent (σ.server.lastAliveTime s) (by simp [hbeats, hflight])
      have hle := Nat.div_le_div_right (c := 1000) hσ.now_le
      omega
    | cons p rest =>
      have hpaced := hσ.paced
      rw [hbeats, hflight] at hpaced
      have hgap : p.1 / 1000 ≤ σ.server.lastAliveTime s + 3 := hpaced.le_of_cons_cons
      have hdue : σ.now ≤ p.1 + 1000 := hσ.due p (by simp [hflight])
      omega
  rw [← Bool.not_eq_true]
  intro hclose
  simp only [GameServer.notAlive, Bool.and_eq_true, decide_eq_true_eq] at hclose
  have hcheck : GameServer.CHECK_ALIVE_TIME = 5 := rfl
  omega

/-- A client that has connected half a second after a full one and sends nothing but pings: the
second ping is received five seconds after the connection. -/
theorem alive_of_received_pings : ∃ tr σ,
    (machine sampleProtobuf (fun _ => []) 0 500 {}).Reach tr σ ∧ tr = [3000, 5500] ∧
      σ.now = 5500 ∧ σ.server.notAlive 0 (σ.now / 1000) = false := by
  obtain ⟨r, hexec, htr, hnow⟩ : ∃ r ∈ (machine sampleProtobuf (fun _ => []) 0 500 {}).exec
      (fun _ _ _ => true) [] (machine sampleProtobuf (fun _ => []) 0 500 {}).init
      [.elapse 2000, .tick, .elapse 500, .receive, .elapse 1500, .tick, .elapse 1000, .receive],
      r.1 = [3000, 5500] ∧ r.2.now = 5500 := by
    decide +kernel
  have hrun := Machine.run_of_exec (fun _ _ _ _ => trivial) hexec
  exact ⟨r.1, r.2, hrun, htr, hnow, alive_of_received hrun (by simp [htr])⟩

end KeepAlive

end FightingCard
