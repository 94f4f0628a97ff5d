import FightingCard.Common.Reading
import FightingCard.Server.GameServer

set_option relaxedAutoImplicit false
set_option autoImplicit false

/-!
# The read loop of the server

One accepted connection from the bytes that arrive to the calls of `UserProcessor::Dispatch`
(`common/server.h`, `common/session.h`, `server/user_session.cpp`). The loop is spread over the
completion handlers of `DoReadHeader` and `DoReadBody`, which start each other, and it has four
ways out: a header that `SizeValid` refuses, a body that `Decode` refuses or whose dispatch fails,
and the end of the stream in front of a header or of a body.

The environment is any that does not close the connection: bytes arrive in any portions, until the
stream ends at any place, the logic thread calls `Write` at any time, transmissions succeed, and
the keepalive timer expires without finding the session dead. `async_read` takes the bytes in any
portions and completes when it has all of them, or with an error when the stream has ended.

## Main definitions

* `FightingCard.UserBuffer.parse` — the reference: a recursive parser of the whole stream.
* `FightingCard.ReadLoop.machine` — the connection with its environment; a run records the bytes
  that arrived and the buffers that `Dispatch` was called with.
* `FightingCard.ReadLoop.Phase` — where the loop is, and what it still makes of the bytes to come.
* `FightingCard.ReadLoop.work` — a bound on the steps that are left without new bytes.

## Main results

* `FightingCard.ReadLoop.follows_of_reach` — the loop is in one phase, and dispatches the rest of
  the reference.
* `FightingCard.ReadLoop.length_reading_le` — there is at most one `async_read` at a time.
* `FightingCard.ReadLoop.dispatched_eq_parse` — the calls of `Dispatch` are those of the reference.
-/

namespace FightingCard

open ByteMem

/-! ## The reference parser -/

namespace UserBuffer

variable (rt : Protobuf UserMsg)

/-- The frames that are dispatched, cut from the front of a stream and read into the buffer `b`
one after the other: each with a header of two bytes and as many bytes as the header says, up to
the first place where the header is refused, bytes are missing or `Decode` fails, and up to and
with the first frame whose dispatch fails. -/
def parse (b : UserBuffer) (bytes : Bytes) : List UserBuffer :=
  if bytes.length < 2 then []
  else
    let bodySize := leNat (bytes.take 2)
    let b := b.readHeader (bytes.take 2)
    let rest := bytes.drop 2
    if !b.sizeValid || rest.length < bodySize then []
    else
      let b := b.readBody (rest.take bodySize)
      match outcome b with
      | none => []
      | some args =>
        if (userSessionProcessor.dispatch rt args).1 = .kOK then
          b :: parse b (rest.drop bodySize)
        else [b]
termination_by bytes.length
decreasing_by
  simp only [List.length_drop]
  omega

/-- The rest of the reference behind a body. -/
def parseOn (b : UserBuffer) (bytes : Bytes) : List UserBuffer :=
  match outcome b with
  | none => []
  | some args =>
    if (userSessionProcessor.dispatch rt args).1 = .kOK then b :: parse rt b bytes else [b]

/-- The rest of the reference behind an accepted header. -/
def parseBody (b : UserBuffer) (bytes : Bytes) : List UserBuffer :=
  if bytes.length < b.getBodySize then []
  else parseOn rt (b.readBody (bytes.take b.getBodySize)) (bytes.drop b.getBodySize)

/-- The rest of the reference behind a header. -/
def parseHeader (b : UserBuffer) (bytes : Bytes) : List UserBuffer :=
  if b.sizeValid then parseBody rt b bytes else []

variable {rt} {b : UserBuffer} {header bytes pre : Bytes}

/-- Less than a header is not parsed. -/
lemma parse_of_short (h : bytes.length < 2) : parse rt b bytes = [] := by
  rw [parse, if_pos h]

/-- Less than a body is not parsed. -/
lemma parseBody_of_short (h : bytes.length < b.getBodySize) : parseBody rt b bytes = [] := by
  rw [parseBody, if_pos h]

/-- One round of the reference, from the header on. -/
lemma parse_append (h : header.length = 2) :
    parse rt b (header ++ bytes) = parseHeader rt (b.readHeader header) bytes := by
  have hsize : (b.readHeader header).getBodySize = leNat header := by
    have hread : read (write b.buf 0 header) 0 header.length = header := read_write_self
    rw [h] at hread
    rw [Buffer.getBodySize, Buffer.readHeader, hread]
  have htake : (header ++ bytes).take 2 = header := List.take_left' h
  have hdrop : (header ++ bytes).drop 2 = bytes := List.drop_left' h
  have hlong : ¬ (header ++ bytes).length < 2 := by
    rw [List.length_append]
    omega
  rw [parse, if_neg hlong, parseHeader, parseBody, hsize]
  simp only [htake, hdrop]
  by_cases hvalid : (b.readHeader header).sizeValid = true
  · by_cases hshort : bytes.length < leNat header
    · simp [hshort]
    · simp [hvalid, hshort, parseOn]
  · simp [hvalid]

/-- One round of the reference, from the body on. -/
lemma parseBody_append {body : Bytes} (h : body.length = b.getBodySize) :
    parseBody rt b (body ++ bytes) = parseOn rt (b.readBody body) bytes := by
  have hlong : ¬ (body ++ bytes).length < b.getBodySize := by
    rw [List.length_append]
    omega
  rw [parseBody, if_neg hlong, List.take_left' h, List.drop_left' h]

/-- The header in the buffer is the next one of the stream. -/
lemma parse_read : parse rt b (read b.buf 0 2 ++ bytes) = parseHeader rt b bytes := by
  have hself : b.readHeader (read b.buf 0 2) = b := by
    apply Buffer.ext
    exact write_eq_self (a := 0) (by rw [length_read])
  rw [parse_append length_read, hself]

/-- The body in the buffer is the next one of the stream. -/
lemma parseBody_read :
    parseBody rt b (read b.buf 2 b.getBodySize ++ bytes) = parseOn rt b bytes := by
  have hself : b.readBody (read b.buf 2 b.getBodySize) = b := by
    apply Buffer.ext
    exact write_eq_self (a := 2) (by rw [length_read])
  rw [parseBody_append length_read, hself]

variable {c : UserBuffer}

/-- A header that is read into the buffer replaces the old one. -/
lemma parse_congr (h : ∀ i, 2 ≤ i → b.buf i = c.buf i) : parse rt b bytes = parse rt c bytes := by
  by_cases hshort : bytes.length < 2
  · rw [parse_of_short hshort, parse_of_short hshort]
  · obtain ⟨header, rest, rfl, hlen⟩ : ∃ header rest, bytes = header ++ rest ∧ header.length = 2 :=
      ⟨bytes.take 2, bytes.drop 2, by simp, by rw [List.length_take]; omega⟩
    have hread : b.readHeader header = c.readHeader header := by
      apply Buffer.ext
      change write b.buf 0 header = write c.buf 0 header
      apply write_congr
      rintro i (hi | hi)
      · omega
      · exact h i (by omega)
    rw [parse_append hlen, parse_append hlen, hread]

/-- A body that is read into the buffer replaces what was in its place. -/
lemma parseBody_congr (hsize : b.getBodySize = c.getBodySize)
    (h : ∀ i, i < 2 ∨ 2 + b.getBodySize ≤ i → b.buf i = c.buf i) :
    parseBody rt b bytes = parseBody rt c bytes := by
  by_cases hshort : bytes.length < b.getBodySize
  · rw [parseBody_of_short hshort, parseBody_of_short (by rwa [← hsize])]
  · have hlen : (bytes.take b.getBodySize).length = b.getBodySize :=
      List.length_take_of_le (by omega)
    have hread : b.readBody (bytes.take b.getBodySize) = c.readBody (bytes.take b.getBodySize) := by
      apply Buffer.ext
      change write b.buf 2 (bytes.take b.getBodySize) = write c.buf 2 (bytes.take b.getBodySize)
      apply write_congr
      rw [hlen]
      exact h
    rw [parseBody, parseBody, ← hsize, if_neg hshort, if_neg hshort, hread]

end UserBuffer

/-! ## The connection and its environment -/

/-- An accepted connection: the session, its `read_buf_`, the number of bytes that the running
`async_read` has received, the bytes that have arrived and are not received yet, and whether the
stream has ended behind them. -/
structure ReadLoop where
  session : Session UserBuffer UserBuffer
  readBuf : UserBuffer := .new
  got : ℕ := 0
  stream : Bytes := []
  ended : Bool := false

namespace ReadLoop

open Session

/-- What can happen next: bytes arrive, or the stream ends; the running `async_read` receives `n`
bytes or completes; `Write` is called, a transmission succeeds, the timer expires; the io thread
runs its next handler. -/
inductive Event where
  | arrive (bytes : Bytes)
  | finish
  | receive (n : ℕ)
  | readDone
  | write (buf : UserBuffer)
  | writeDone
  | timerDone
  | run

/-- What the server does by itself when it has bytes to read or a handler to run. -/
def Event.isInternal : Event → Bool
  | .receive _ | .readDone | .run => true
  | _ => false

/-- What a run records: bytes arrived, `Dispatch` was called with a buffer. -/
inductive Obs where
  | arrived (bytes : Bytes)
  | dispatch (buf : UserBuffer)

/-- The extent of `read_buf_` that an `async_read` fills: where it starts and how many bytes it
has. -/
def extent (b : UserBuffer) : ReadOp → ℕ × ℕ
  | .header => (0, b.getHeaderSize)
  | .body => (b.getBody, b.getBodySize)

/-- The calls of `Dispatch` in a list of signals: `OnReadBody` calls it if `Decode` accepts. -/
def dispatches (xs : List (Signal UserBuffer UserBuffer)) : List UserBuffer :=
  (readOf xs).filter fun b => (UserBuffer.outcome b).isSome

section Step

variable (rt : Protobuf UserMsg) (rspData : LoginRsp → Bytes)

/-- One step of the connection. -/
def step (σ : ReadLoop) : Event → Option (ReadLoop × List Obs)
  | .arrive bytes =>
    if σ.ended then none
    else some ({ σ with stream := σ.stream ++ bytes }, [.arrived bytes])
  | .finish => some ({ σ with ended := true }, [])
  | .receive n =>
    match σ.session.reading with
    | [] => none
    | op :: _ =>
      let (offset, count) := extent σ.readBuf op
      if 0 < n ∧ n ≤ σ.stream.length ∧ σ.got + n ≤ count then
        some ({ σ with
          stream := σ.stream.drop n
          readBuf := ⟨write σ.readBuf.buf (offset + σ.got) (σ.stream.take n)⟩
          got := σ.got + n }, [])
      else none
  | .readDone =>
    match σ.session.reading with
    | [] => none
    | op :: _ =>
      let (_, count) := extent σ.readBuf op
      if σ.got = count then
        (σ.session.completeRead (some σ.readBuf)).map fun session =>
          ({ σ with session, got := 0 }, [])
      else if σ.ended ∧ σ.stream = [] then
        (σ.session.completeRead none).map fun session => ({ σ with session, got := 0 }, [])
      else none
  | .write buf => some ({ σ with session := σ.session.write buf }, [])
  | .writeDone => (σ.session.completeWrite true).map fun session => ({ σ with session }, [])
  | .timerDone => σ.session.expireTimer.map fun session => ({ σ with session }, [])
  | .run =>
    (σ.session.runHandler (userWire rt rspData).hooks false).map fun (session, xs) =>
      ({ σ with session }, (dispatches xs).map .dispatch)

/-- An accepted connection as a machine: `Init` has started the timer, and `DoReadHeader` has been
called. -/
def machine : Machine ReadLoop Event Obs :=
  ⟨{ session := (armTimer {}).asyncRead .header }, step rt rspData⟩

/-- Nothing happens any more before something comes from outside. -/
def AtRest (σ : ReadLoop) : Prop := ∀ e : Event, e.isInternal = true → step rt rspData σ e = none

end Step

/-- The bytes that arrived. -/
def arrived (tr : List Obs) : Bytes :=
  tr.flatMap fun
    | .arrived bytes => bytes
    | .dispatch _ => []

/-- The buffers that `Dispatch` was called with. -/
def dispatched (tr : List Obs) : List UserBuffer :=
  tr.filterMap fun
    | .arrived _ => none
    | .dispatch buf => some buf

variable {rt : Protobuf UserMsg} {rspData : LoginRsp → Bytes} {σ σ' : ReadLoop}
variable {tr tr' out : List Obs}

/-- The bytes that have arrived in a longer trace. -/
@[simp] lemma arrived_append : arrived (tr ++ tr') = arrived tr ++ arrived tr' := by
  simp [arrived]

/-- The bodies that were dispatched in a longer trace. -/
@[simp] lemma dispatched_append : dispatched (tr ++ tr') = dispatched tr ++ dispatched tr' :=
  List.filterMap_append

/-- What is dispatched has not arrived just now. -/
@[simp] lemma arrived_dispatch (bufs : List UserBuffer) : arrived (bufs.map .dispatch) = [] := by
  induction bufs with
  | nil => rfl
  | cons buf bufs ih => exact ih

/-- The records of bodies that are dispatched. -/
@[simp] lemma dispatched_dispatch (bufs : List UserBuffer) :
    dispatched (bufs.map .dispatch) = bufs := by
  induction bufs with
  | nil => rfl
  | cons buf bufs ih => exact congrArg (buf :: ·) ih

/-! ## What a step does -/

/-- What one step of the connection does. -/
inductive Step (rt : Protobuf UserMsg) (rspData : LoginRsp → Bytes) (σ : ReadLoop) :
    Event → ReadLoop → List Obs → Prop
  | arrive {bytes} (hended : σ.ended = false) :
      Step rt rspData σ (.arrive bytes) { σ with stream := σ.stream ++ bytes } [.arrived bytes]
  | finish : Step rt rspData σ .finish { σ with ended := true } []
  | receive {n op ops} (hreading : σ.session.reading = op :: ops) (hpos : 0 < n)
      (hn : n ≤ σ.stream.length) (hcount : σ.got + n ≤ (extent σ.readBuf op).2) :
      Step rt rspData σ (.receive n)
        { σ with
          stream := σ.stream.drop n
          readBuf :=
            ⟨write σ.readBuf.buf ((extent σ.readBuf op).1 + σ.got) (σ.stream.take n)⟩
          got := σ.got + n } []
  | readDone {op ops x} (hreading : σ.session.reading = op :: ops)
      (hcount : σ.got = (extent σ.readBuf op).2)
      (hx : σ.session.completeRead (some σ.readBuf) = some x) :
      Step rt rspData σ .readDone { σ with session := x, got := 0 } []
  | readError {op ops x} (hreading : σ.session.reading = op :: ops)
      (hcount : σ.got ≠ (extent σ.readBuf op).2) (hended : σ.ended = true)
      (hstream : σ.stream = []) (hx : σ.session.completeRead none = some x) :
      Step rt rspData σ .readDone { σ with session := x, got := 0 } []
  | write {buf} : Step rt rspData σ (.write buf) { σ with session := σ.session.write buf } []
  | writeDone {x} (hx : σ.session.completeWrite true = some x) :
      Step rt rspData σ .writeDone { σ with session := x } []
  | timerDone {x} (hx : σ.session.expireTimer = some x) :
      Step rt rspData σ .timerDone { σ with session := x } []
  | run {x xs} (hrun : σ.session.runHandler (userWire rt rspData).hooks false = some (x, xs)) :
      Step rt rspData σ .run { σ with session := x } ((dispatches xs).map .dispatch)

/-- **What a step can do.**

**Proof sketch.** By cases on the event: each guard of `step` is what the constructor asks for. -/
theorem step_cases {e : Event} (h : step rt rspData σ e = some (σ', out)) :
    Step rt rspData σ e σ' out := by
  cases e with
  | arrive bytes =>
    simp only [step] at h
    split at h
    · cases h
    · rename_i hended
      cases h
      exact .arrive (eq_false_of_ne_true hended)
  | finish =>
    cases h
    exact .finish
  | receive n =>
    simp only [step] at h
    split at h
    · cases h
    · rename_i hreading
      split at h
      · rename_i hn
        cases h
        exact .receive hreading hn.1 hn.2.1 hn.2.2
      · cases h
  | readDone =>
    simp only [step] at h
    split at h
    · cases h
    · rename_i hreading
      split at h
      · rename_i hcount
        obtain ⟨x, hx, heq⟩ := Option.map_eq_some_iff.mp h
        cases heq
        exact .readDone hreading hcount hx
      · rename_i hcount
        split at h
        · rename_i hend
          obtain ⟨x, hx, heq⟩ := Option.map_eq_some_iff.mp h
          cases heq
          exact .readError hreading hcount hend.1 hend.2 hx
        · cases h
  | write buf =>
    cases h
    exact .write
  | writeDone =>
    obtain ⟨x, hx, heq⟩ := Option.map_eq_some_iff.mp h
    cases heq
    exact .writeDone hx
  | timerDone =>
    obtain ⟨x, hx, heq⟩ := Option.map_eq_some_iff.mp h
    cases heq
    exact .timerDone hx
  | run =>
    obtain ⟨⟨x, xs⟩, hrun, heq⟩ := Option.map_eq_some_iff.mp h
    cases heq
    exact .run hrun

/-! ## The phases of the loop -/

open UserBuffer (parse parseOn parseBody parseHeader)

/-- Where the loop is, with what it dispatches of the bytes that are still to arrive: it reads a
header or has read one, it reads a body or has read one, or it has ended. In the first four
phases nothing else closes the connection. -/
inductive Phase (rt : Protobuf UserMsg) (σ : ReadLoop) : (Bytes → List UserBuffer) → Prop
  | header (hcalm : σ.session.Calm) (hreading : σ.session.reading = [.header])
      (hreads : reads σ.session.queue = []) (hgot : σ.got ≤ 2) :
      Phase rt σ fun t => parse rt σ.readBuf (read σ.readBuf.buf 0 σ.got ++ (σ.stream ++ t))
  | headerDone (hcalm : σ.session.Calm) (hreading : σ.session.reading = [])
      (hreads : reads σ.session.queue = [(.header, .ok σ.readBuf)]) (hgot : σ.got = 0) :
      Phase rt σ fun t => parseHeader rt σ.readBuf (σ.stream ++ t)
  | body (hcalm : σ.session.Calm) (hreading : σ.session.reading = [.body])
      (hreads : reads σ.session.queue = []) (hvalid : σ.readBuf.sizeValid = true)
      (hgot : σ.got ≤ σ.readBuf.getBodySize) :
      Phase rt σ fun t => parseBody rt σ.readBuf (read σ.readBuf.buf 2 σ.got ++ (σ.stream ++ t))
  | bodyDone (hcalm : σ.session.Calm) (hreading : σ.session.reading = [])
      (hreads : reads σ.session.queue = [(.body, .ok σ.readBuf)]) (hgot : σ.got = 0) :
      Phase rt σ fun t => parseOn rt σ.readBuf (σ.stream ++ t)
  | stopped (hstopped : σ.session.Stopped) : Phase rt σ fun _ => []

variable {k : Bytes → List UserBuffer} {bytes : Bytes} {n : ℕ}

/-- Bytes that arrive are the first of those still to arrive. -/
lemma Phase.arrive (h : Phase rt σ k) (bytes : Bytes) :
    Phase rt { σ with stream := σ.stream ++ bytes } fun t => k (bytes ++ t) := by
  cases h with
  | header hcalm hreading hreads hgot =>
    simp only [← List.append_assoc σ.stream]
    exact .header hcalm hreading hreads hgot
  | headerDone hcalm hreading hreads hgot =>
    simp only [← List.append_assoc σ.stream]
    exact .headerDone hcalm hreading hreads hgot
  | body hcalm hreading hreads hvalid hgot =>
    simp only [← List.append_assoc σ.stream]
    exact .body hcalm hreading hreads hvalid hgot
  | bodyDone hcalm hreading hreads hgot =>
    simp only [← List.append_assoc σ.stream]
    exact .bodyDone hcalm hreading hreads hgot
  | stopped hstopped => exact .stopped hstopped

/-- What a connection does outside of the read loop keeps the phase. -/
lemma Phase.quiet {x : Session UserBuffer UserBuffer} (h : Phase rt σ k)
    (hquiet : Quiet σ.session x) (hcalm : σ.session.Calm → x.Calm) :
    Phase rt { σ with session := x } k := by
  have hreading := hquiet.reading
  have hreads := hquiet.reads
  cases h with
  | header hc hr hq hgot => exact .header (hcalm hc) (hreading.trans hr) (hreads.trans hq) hgot
  | headerDone hc hr hq hgot =>
    exact .headerDone (hcalm hc) (hreading.trans hr) (hreads.trans hq) hgot
  | body hc hr hq hvalid hgot =>
    exact .body (hcalm hc) (hreading.trans hr) (hreads.trans hq) hvalid hgot
  | bodyDone hc hr hq hgot => exact .bodyDone (hcalm hc) (hreading.trans hr) (hreads.trans hq) hgot
  | stopped hs => exact .stopped (hquiet.stopped hs)

/-- The phases in which an `async_read` runs. -/
inductive Phase.Reading (rt : Protobuf UserMsg) (σ : ReadLoop) :
    ReadOp → (Bytes → List UserBuffer) → Prop
  | header (hcalm : σ.session.Calm) (hreading : σ.session.reading = [.header])
      (hreads : reads σ.session.queue = []) (hgot : σ.got ≤ 2) :
      Phase.Reading rt σ .header fun t =>
        parse rt σ.readBuf (read σ.readBuf.buf 0 σ.got ++ (σ.stream ++ t))
  | body (hcalm : σ.session.Calm) (hreading : σ.session.reading = [.body])
      (hreads : reads σ.session.queue = []) (hvalid : σ.readBuf.sizeValid = true)
      (hgot : σ.got ≤ σ.readBuf.getBodySize) :
      Phase.Reading rt σ .body fun t =>
        parseBody rt σ.readBuf (read σ.readBuf.buf 2 σ.got ++ (σ.stream ++ t))

/-- While an `async_read` runs, it is the only one. -/
lemma Phase.reading {op : ReadOp} {ops : List ReadOp} (h : Phase rt σ k)
    (hreading : σ.session.reading = op :: ops) : ops = [] ∧ Phase.Reading rt σ op k := by
  cases h with
  | header hcalm hr hreads hgot =>
    obtain ⟨rfl, rfl⟩ := List.cons.inj (hreading.symm.trans hr)
    exact ⟨rfl, .header hcalm hr hreads hgot⟩
  | body hcalm hr hreads hvalid hgot =>
    obtain ⟨rfl, rfl⟩ := List.cons.inj (hreading.symm.trans hr)
    exact ⟨rfl, .body hcalm hr hreads hvalid hgot⟩
  | headerDone _ hr | bodyDone _ hr => rw [hr] at hreading; cases hreading
  | stopped hs => rw [hs.1] at hreading; cases hreading

/-- Bytes that the running `async_read` receives are in `read_buf_` instead of on the stream.

**Proof sketch.** The bytes that were in the buffer, followed by those on the stream, stay the same
bytes (`hbytes`), and the buffer keeps its other bytes (`hkeep`). The reference depends on these
only (`UserBuffer.parse_congr`), in the header as well as in the body. -/
lemma Phase.receive {op : ReadOp} {ops : List ReadOp} {offset count : ℕ} (h : Phase rt σ k)
    (hreading : σ.session.reading = op :: ops) (hextent : extent σ.readBuf op = (offset, count))
    (hn : n ≤ σ.stream.length) (hcount : σ.got + n ≤ count) :
    ∃ k', Phase rt { σ with
      stream := σ.stream.drop n
      readBuf := ⟨write σ.readBuf.buf (offset + σ.got) (σ.stream.take n)⟩
      got := σ.got + n } k' ∧ ∀ t, k t = k' t := by
  have hlen : (σ.stream.take n).length = n := List.length_take_of_le hn
  have hread : read (write σ.readBuf.buf (offset + σ.got) (σ.stream.take n)) offset (σ.got + n) =
      read σ.readBuf.buf offset σ.got ++ σ.stream.take n := by
    rw [← read_write_behind, hlen]
  have hbytes : ∀ t,
      read (write σ.readBuf.buf (offset + σ.got) (σ.stream.take n)) offset (σ.got + n) ++
        (σ.stream.drop n ++ t) = read σ.readBuf.buf offset σ.got ++ (σ.stream ++ t) := by
    intro t
    rw [hread, List.append_assoc, ← List.append_assoc (List.take n _), List.take_append_drop]
  have hkeep : ∀ i, i < offset + σ.got ∨ offset + σ.got + n ≤ i →
      σ.readBuf.buf i = write σ.readBuf.buf (offset + σ.got) (σ.stream.take n) i := by
    rintro i (hi | hi)
    · rw [write_apply_of_lt hi]
    · rw [write_apply_of_ge (by omega)]
  cases (h.reading hreading).2 with
  | header hcalm hr hreads hgot =>
    cases hextent
    refine ⟨_, .header hcalm hr hreads hcount, fun t => ?_⟩
    dsimp only
    rw [hbytes]
    have hheader : σ.got + n ≤ 2 := hcount
    exact UserBuffer.parse_congr fun i hi => hkeep i (.inr (by omega))
  | body hcalm hr hreads hvalid hgot =>
    cases hextent
    have hsize : σ.readBuf.getBodySize = Buffer.getBodySize (⟨write σ.readBuf.buf
        (σ.readBuf.getBody + σ.got) (σ.stream.take n)⟩ : UserBuffer) := by
      rw [Buffer.getBodySize, Buffer.getBodySize, read_write_of_disjoint (.inr (by
        rw [Buffer.getBody]; omega))]
    have hvalid' : Buffer.sizeValid (⟨write σ.readBuf.buf (σ.readBuf.getBody + σ.got)
        (σ.stream.take n)⟩ : UserBuffer) = true := by
      rw [Buffer.sizeValid_iff] at hvalid ⊢
      rwa [← hsize]
    refine ⟨_, .body hcalm hr hreads hvalid' (hsize ▸ hcount), fun t => ?_⟩
    have htail := hbytes t
    rw [Buffer.getBody] at htail hkeep hsize ⊢
    dsimp only
    rw [htail]
    apply UserBuffer.parseBody_congr hsize
    rintro i (hi | hi)
    · exact hkeep i (.inl (by omega))
    · exact hkeep i (.inr (by omega))

/-- The running `async_read` has all its bytes. -/
lemma Phase.readDone {op : ReadOp} {ops : List ReadOp} {offset count : ℕ}
    {x : Session UserBuffer UserBuffer} (h : Phase rt σ k)
    (hreading : σ.session.reading = op :: ops)
    (hextent : extent σ.readBuf op = (offset, count)) (hcount : σ.got = count)
    (hx : σ.session.completeRead (some σ.readBuf) = some x) :
    ∃ k', Phase rt { σ with session := x, got := 0 } k' ∧ ∀ t, k t = k' t := by
  obtain ⟨hxr, hxq, hxc⟩ := reads_completeRead hreading hx
  obtain ⟨rfl, hphase⟩ := h.reading hreading
  cases hphase with
  | header hcalm hr hreads hgot =>
    cases hextent
    rw [hreads] at hxq
    refine ⟨_, .headerDone (hxc hcalm) hxr hxq rfl, fun t => ?_⟩
    rw [hcount]
    exact UserBuffer.parse_read
  | body hcalm hr hreads hvalid hgot =>
    cases hextent
    rw [hreads] at hxq
    refine ⟨_, .bodyDone (hxc hcalm) hxr hxq rfl, fun t => ?_⟩
    rw [hcount]
    exact UserBuffer.parseBody_read

/-- The running `async_read` misses bytes that will not arrive: the loop ends, as the reference
does. -/
lemma Phase.readError {op : ReadOp} {ops : List ReadOp} {offset count : ℕ}
    {x : Session UserBuffer UserBuffer} (h : Phase rt σ k)
    (hreading : σ.session.reading = op :: ops)
    (hextent : extent σ.readBuf op = (offset, count)) (hcount : σ.got ≠ count)
    (hstream : σ.stream = []) (hx : σ.session.completeRead none = some x) :
    Phase rt { σ with session := x, got := 0 } (fun _ => []) ∧ k [] = [] := by
  obtain ⟨rfl, hphase⟩ := h.reading hreading
  obtain ⟨hxr, hxq, -⟩ := reads_completeRead hreading hx
  have hstopped : reads σ.session.queue = [] → x.Stopped := by
    intro hreads
    refine ⟨hxr, ?_⟩
    rw [hxq, hreads]
    simp
  cases hphase with
  | header hcalm hr hreads hgot =>
    cases hextent
    refine ⟨.stopped (hstopped hreads), UserBuffer.parse_of_short ?_⟩
    rw [Buffer.getHeaderSize] at hcount
    simp only [hstream, List.append_nil, length_read]
    omega
  | body hcalm hr hreads hvalid hgot =>
    cases hextent
    refine ⟨.stopped (hstopped hreads), UserBuffer.parseBody_of_short ?_⟩
    simp only [hstream, List.append_nil, length_read]
    omega

/-- The hooks of the server are the decisions of the reference. -/
lemma parseOn_eq (rspData : LoginRsp → Bytes) {b : UserBuffer} :
    parseOn rt b bytes = ([b].filter fun b => (UserBuffer.outcome b).isSome) ++
      if (userWire rt rspData).hooks.onReadBody b then parse rt b bytes else [] := by
  rw [parseOn]
  cases hout : UserBuffer.outcome b with
  | none =>
    have hbody : (userWire rt rspData).hooks.onReadBody b ≠ true := by
      rw [ne_eq, onReadBody_userWire_iff]
      simp [hout]
    simp [hbody, hout]
  | some args =>
    have hbody : (userWire rt rspData).hooks.onReadBody b = true ↔
        (userSessionProcessor.dispatch rt args).1 = .kOK := by
      rw [onReadBody_userWire_iff]
      simp [hout]
    by_cases hok : (userSessionProcessor.dispatch rt args).1 = .kOK
    · simp [hok, hbody, hout]
    · simp [hok, hbody, hout]

/-- Nothing but the read loop closes the connection, or the loop has ended. -/
lemma Phase.calm_or_stopped (h : Phase rt σ k) :
    σ.session.Calm ∨ σ.session.Stopped ∧ ∀ t, k t = [] := by
  cases h with
  | header hcalm | headerDone hcalm | body hcalm | bodyDone hcalm => exact .inl hcalm
  | stopped hstopped => exact .inr ⟨hstopped, fun _ => rfl⟩

/-- The handler of a header that was read starts the read of the body, or closes. -/
lemma Phase.readHeader {x y : Session UserBuffer UserBuffer}
    {xs : List (Signal UserBuffer UserBuffer)} (hcalm : x.Calm) (hreading : x.reading = [])
    (hreads : reads x.queue = []) (hgot : σ.got = 0)
    (hh : Handled (userWire rt rspData).hooks false x (.readHeader (.ok σ.readBuf)) y xs) :
    ∃ k', Phase rt { σ with session := y } k' ∧
      ∀ t, parseHeader rt σ.readBuf (σ.stream ++ t) = dispatches xs ++ k' t := by
  cases hh with
  | readsBody hvalid =>
    have hvalid : σ.readBuf.sizeValid = true := hvalid
    rw [asyncRead, if_pos hcalm.1]
    refine ⟨_, .body hcalm (by simp [hreading]) hreads hvalid (by simp [hgot]), fun t => ?_⟩
    simp [parseHeader, hvalid, hgot, dispatches, readOf]
  | refuses hvalid =>
    have hvalid : σ.readBuf.sizeValid = false := hvalid
    have hstopped : x.Stopped := ⟨hreading, by simp [hreads]⟩
    refine ⟨_, .stopped (quiet_close.stopped hstopped), fun t => ?_⟩
    simp [parseHeader, hvalid, dispatches, readOf]
  | fails hh | aborted hh => simp at hh

/-- The handler of a body that was read dispatches it, if it is decoded, and starts the read of the
next header, or closes. -/
lemma Phase.readBody {x y : Session UserBuffer UserBuffer}
    {xs : List (Signal UserBuffer UserBuffer)} (hcalm : x.Calm) (hreading : x.reading = [])
    (hreads : reads x.queue = []) (hgot : σ.got = 0)
    (hh : Handled (userWire rt rspData).hooks false x (.readBody (.ok σ.readBuf)) y xs) :
    ∃ k', Phase rt { σ with session := y } k' ∧
      ∀ t, parseOn rt σ.readBuf (σ.stream ++ t) = dispatches xs ++ k' t := by
  cases hh with
  | readsHeader hbody =>
    rw [asyncRead, if_pos hcalm.1]
    refine ⟨_, .header hcalm (by simp [hreading]) hreads (by simp [hgot]), fun t => ?_⟩
    rw [parseOn_eq rspData, if_pos hbody]
    simp [hgot, dispatches, readOf]
  | rejects hbody =>
    have hstopped : x.Stopped := ⟨hreading, by simp [hreads]⟩
    refine ⟨_, .stopped (quiet_close.stopped hstopped), fun t => ?_⟩
    rw [parseOn_eq rspData, hbody]
    simp [dispatches, readOf]
  | fails hh | aborted hh => simp at hh

/-- Nothing is dispatched once the loop has ended. -/
lemma Phase.run_stopped (rt : Protobuf UserMsg) {h : Handler UserBuffer UserBuffer}
    {rest : List (Handler UserBuffer UserBuffer)} {x : Session UserBuffer UserBuffer}
    {xs : List (Signal UserBuffer UserBuffer)} (hstopped : σ.session.Stopped)
    (hqueue : σ.session.queue = h :: rest)
    (hh : Handled (userWire rt rspData).hooks false { σ.session with queue := rest } h x xs) :
    Phase rt { σ with session := x } (fun _ => []) ∧ dispatches xs = [] := by
  have hsplit : reads σ.session.queue = reads [h] ++ reads rest := by
    rw [hqueue, ← List.singleton_append, reads_append]
  have hfails : ∀ p ∈ reads [h], ∀ f, p.2 ≠ .ok f := fun p hp =>
    hstopped.2 p (by rw [hsplit]; exact List.mem_append_left _ hp)
  have hrest : ({ σ.session with queue := rest } : Session UserBuffer UserBuffer).Stopped :=
    ⟨hstopped.1, fun p hp => hstopped.2 p (by rw [hsplit]; exact List.mem_append_right _ hp)⟩
  have hnone : ∀ f, h ≠ .readBody (.ok f) := by
    rintro f rfl
    exact hfails _ (.head _) f rfl
  exact ⟨.stopped (hh.stopped hrest hfails), by rw [dispatches, hh.readOf_eq_nil hnone]; rfl⟩

/-- **One handler.** What it dispatches is what the reference dispatches next.

**Proof sketch.** If the handler is not that of a read, the read loop is where it was
(`Handled.quiet`, `Handled.calm`). Otherwise the phase says that it is the handler of the read that
has completed, and `Phase.readHeader` or `Phase.readBody` moves the loop on. A loop that has stopped
dispatches nothing any more (`Phase.run_stopped`). -/
lemma Phase.run {h : Handler UserBuffer UserBuffer} {rest : List (Handler UserBuffer UserBuffer)}
    {x : Session UserBuffer UserBuffer} {xs : List (Signal UserBuffer UserBuffer)}
    (hσ : Phase rt σ k) (hqueue : σ.session.queue = h :: rest)
    (hh : Handled (userWire rt rspData).hooks false { σ.session with queue := rest } h x xs) :
    ∃ k', Phase rt { σ with session := x } k' ∧ ∀ t, k t = dispatches xs ++ k' t := by
  have hsplit : reads σ.session.queue = reads [h] ++ reads rest := by
    rw [hqueue, ← List.singleton_append, reads_append]
  rcases hσ.calm_or_stopped with hcalm | ⟨hstopped, hk⟩
  · have hclose : h ≠ .close ∧ h ≠ .written .error := hcalm.2 h (by simp [hqueue])
    have hrest : ({ σ.session with queue := rest } : Session UserBuffer UserBuffer).Calm :=
      ⟨hcalm.1, fun g hg => hcalm.2 g (by simp [hqueue, hg])⟩
    by_cases hreads : reads [h] = []
    · -- the read loop is not concerned
      have hquiet : Quiet σ.session { σ.session with queue := rest } :=
        ⟨rfl, by simp [hsplit, hreads]⟩
      have hnone : ∀ f, h ≠ .readBody (.ok f) := by
        rintro f rfl
        cases hreads
      refine ⟨k, hσ.quiet (hquiet.trans (hh.quiet hclose.1 hreads)) fun _ =>
        hh.calm hrest hclose hreads, fun t => ?_⟩
      rw [dispatches, hh.readOf_eq_nil hnone]
      rfl
    · cases hσ with
      | header _ _ hq | body _ _ hq =>
        rw [hsplit, List.append_eq_nil_iff] at hq
        exact absurd hq.1 hreads
      | headerDone _ hr hq hgot =>
        cases h with
        | readHeader c =>
          rw [hqueue] at hq
          obtain ⟨hc, hnil⟩ := List.cons.inj hq
          cases hc
          exact Phase.readHeader hrest hr hnil hgot hh
        | readBody c =>
          rw [hqueue] at hq
          cases hq
        | write | close | written | timer => exact absurd rfl hreads
      | bodyDone _ hr hq hgot =>
        cases h with
        | readBody c =>
          rw [hqueue] at hq
          obtain ⟨hc, hnil⟩ := List.cons.inj hq
          cases hc
          exact Phase.readBody hrest hr hnil hgot hh
        | readHeader c =>
          rw [hqueue] at hq
          cases hq
        | write | close | written | timer => exact absurd rfl hreads
      | stopped hs =>
        obtain ⟨hphase, hnone⟩ := Phase.run_stopped rt hs hqueue hh
        exact ⟨_, hphase, fun t => by simp [hnone]⟩
  · obtain ⟨hphase, hnone⟩ := Phase.run_stopped rt hstopped hqueue hh
    exact ⟨_, hphase, fun t => by simp [hnone, hk]⟩

/-- **One step.** What it dispatches is what the reference dispatches next of the bytes that
arrived.

**Proof sketch.** By cases on the step. Bytes arrive on the stream (`Phase.arrive`), are received
(`Phase.receive`), a read completes (`Phase.readDone`, `Phase.readError`), or a handler runs
(`Phase.run`). The end of the stream and what happens to writes and timers do not concern the read
loop. -/
lemma Phase.step {e : Event} (h : Phase rt σ k) (hstep : step rt rspData σ e = some (σ', out)) :
    ∃ k', Phase rt σ' k' ∧ (σ.ended = true → σ'.ended = true ∧ arrived out = []) ∧
      ∀ t, (σ'.ended = true → t = []) → k (arrived out ++ t) = dispatched out ++ k' t := by
  cases step_cases hstep with
  | @arrive bytes hended =>
    refine ⟨_, h.arrive bytes, fun hσ => ?_, fun t _ => by simp [arrived, dispatched]⟩
    rw [hended] at hσ
    cases hσ
  | finish =>
    refine ⟨k, ?_, fun _ => ⟨rfl, rfl⟩, fun t _ => rfl⟩
    cases h with
    | header hcalm hr hq hgot => exact .header (σ := { σ with ended := true }) hcalm hr hq hgot
    | headerDone hcalm hr hq hgot =>
      exact .headerDone (σ := { σ with ended := true }) hcalm hr hq hgot
    | body hcalm hr hq hvalid hgot =>
      exact .body (σ := { σ with ended := true }) hcalm hr hq hvalid hgot
    | bodyDone hcalm hr hq hgot => exact .bodyDone (σ := { σ with ended := true }) hcalm hr hq hgot
    | stopped hs => exact .stopped hs
  | receive hreading _ hn hcount =>
    obtain ⟨k', hphase, hk⟩ := h.receive hreading rfl hn hcount
    exact ⟨k', hphase, fun hσ => ⟨hσ, rfl⟩, fun t _ => hk t⟩
  | readDone hreading hcount hx =>
    obtain ⟨k', hphase, hk⟩ := h.readDone hreading rfl hcount hx
    exact ⟨k', hphase, fun hσ => ⟨hσ, rfl⟩, fun t _ => hk t⟩
  | readError hreading hcount hended hstream hx =>
    obtain ⟨hphase, hk⟩ := h.readError hreading rfl hcount hstream hx
    refine ⟨_, hphase, fun hσ => ⟨hσ, rfl⟩, fun t ht => ?_⟩
    rw [ht hended]
    exact hk
  | write =>
    exact ⟨k, h.quiet (quiet_post _ rfl) fun hcalm => hcalm.post (by simp),
      fun hσ => ⟨hσ, rfl⟩, fun t _ => rfl⟩
  | writeDone hx =>
    obtain ⟨hquiet, hcalm⟩ := quiet_completeWrite hx
    exact ⟨k, h.quiet hquiet hcalm, fun hσ => ⟨hσ, rfl⟩, fun t _ => rfl⟩
  | timerDone hx =>
    obtain ⟨hquiet, hcalm⟩ := quiet_expireTimer hx
    exact ⟨k, h.quiet hquiet hcalm, fun hσ => ⟨hσ, rfl⟩, fun t _ => rfl⟩
  | run hrun =>
    obtain ⟨hd, rest, hqueue, hcases⟩ := runHandler_cases hrun
    obtain ⟨k', hphase, hk⟩ := h.run hqueue hcases
    refine ⟨k', hphase, fun hσ => ⟨hσ, arrived_dispatch _⟩, fun t _ => ?_⟩
    rw [arrived_dispatch, dispatched_dispatch]
    exact hk t

/-- The loop follows the reference: it is in one phase, and whatever bytes are still to arrive, the
reference dispatches what has been dispatched and then what the phase says. -/
def Follows (rt : Protobuf UserMsg) (tr : List Obs) (σ : ReadLoop) : Prop :=
  ∃ k, Phase rt σ k ∧ ∀ t, (σ.ended = true → t = []) →
    parse rt .new (arrived tr ++ t) = dispatched tr ++ k t

/-- The invariant holds in every run. -/
lemma follows_of_reach (h : (machine rt rspData).Reach tr σ) : Follows rt tr σ := by
  refine h.invariant (Follows rt) ?_ ?_
  · refine ⟨_, .header ⟨rfl, by simp [machine, armTimer, stopTimer, asyncRead]⟩ rfl rfl
      (Nat.zero_le _), fun t _ => rfl⟩
  · rintro tr σ e σ' out - ⟨k, hphase, hk⟩ - hstep
    obtain ⟨k', hphase', hended, hk'⟩ := hphase.step hstep
    refine ⟨k', hphase', fun t ht => ?_⟩
    rw [arrived_append, dispatched_append, List.append_assoc, List.append_assoc, ← hk' t ht]
    apply hk
    intro hσ
    rw [(hended hσ).2, ht (hended hσ).1, List.append_nil]

/-! ## The end of the work -/

/-- A bound on what the server does by itself: an `async_read` takes its bytes off the stream, and
completing it takes more than it leads to. -/
def work (σ : ReadLoop) : ℕ := 3 * σ.stream.length + 2 * σ.got + σ.session.work

/-- A read that is running has at least one byte to receive. -/
lemma Phase.extent_pos {op : ReadOp} {ops : List ReadOp} (h : Phase rt σ k)
    (hreading : σ.session.reading = op :: ops) : 0 < (extent σ.readBuf op).2 := by
  cases (h.reading hreading).2 with
  | header => exact Nat.two_pos
  | body _ _ _ hvalid => exact (Buffer.sizeValid_iff.mp hvalid).1

/-- **There is less work after every step that the server takes by itself.** -/
lemma Phase.work_lt {e : Event} (h : Phase rt σ k) (he : e.isInternal = true)
    (hstep : ReadLoop.step rt rspData σ e = some (σ', out)) : σ'.work < σ.work := by
  cases step_cases hstep with
  | receive _ hpos hn =>
    simp only [work, List.length_drop]
    omega
  | @readDone op _ _ hreading hcount hx =>
    have hwork := work_completeRead hreading hx
    have hpos := h.extent_pos hreading
    have hok : handlerWork (op.handler (.ok σ.readBuf) : Handler UserBuffer UserBuffer) = 4 := by
      cases op <;> rfl
    simp only [Option.elim_some, hok] at hwork
    simp only [work]
    omega
  | @readError op _ _ hreading _ _ _ hx =>
    have hwork := work_completeRead hreading hx
    have herror : handlerWork (op.handler .error : Handler UserBuffer UserBuffer) = 2 := by
      cases op <;> rfl
    simp only [Option.elim_none, herror] at hwork
    simp only [work]
    omega
  | run hrun =>
    have hlt := work_runHandler_lt hrun
    simp only [work]
    omega
  | arrive | finish | write | writeDone | timerDone => cases he

/-- A read that is running at rest waits for bytes. -/
lemma AtRest.waits {op : ReadOp} {ops : List ReadOp} {offset count : ℕ}
    (h : AtRest rt rspData σ) (hreading : σ.session.reading = op :: ops)
    (hextent : extent σ.readBuf op = (offset, count)) (hgot : σ.got ≤ count) :
    σ.stream = [] ∧ σ.got < count := by
  have hlt : σ.got < count := by
    by_contra hge
    have hdone := h .readDone rfl
    have heq : σ.got = count := by omega
    simp [step, hreading, hextent, heq, completeRead] at hdone
  refine ⟨?_, hlt⟩
  cases hstream : σ.stream with
  | nil => rfl
  | cons byte bytes =>
    have hreceive := h (.receive 1) rfl
    simp [step, hreading, hextent, hstream] at hreceive
    omega

/-- At rest the reference dispatches nothing more. -/
lemma Phase.at_rest (hσ : Phase rt σ k) (h : AtRest rt rspData σ) : k [] = [] := by
  have hidle : σ.session.queue = [] := by
    cases hqueue : σ.session.queue with
    | nil => rfl
    | cons hd rest =>
      have hrun := h .run rfl
      simp [ReadLoop.step, runHandler, hqueue] at hrun
  cases hσ with
  | header _ hr _ hgot =>
    obtain ⟨hstream, hlt⟩ := h.waits hr rfl hgot
    apply UserBuffer.parse_of_short
    simpa [hstream, Buffer.getHeaderSize] using hlt
  | body _ hr _ _ hgot =>
    obtain ⟨hstream, hlt⟩ := h.waits hr rfl hgot
    apply UserBuffer.parseBody_of_short
    simpa [hstream] using hlt
  | headerDone _ _ hq | bodyDone _ _ hq =>
    rw [hidle] at hq
    cases hq
  | stopped => rfl

/-- There is at most one `async_read` at a time. -/
theorem length_reading_le (h : (machine rt rspData).Reach tr σ) :
    σ.session.reading.length ≤ 1 := by
  obtain ⟨k, hphase, -⟩ := follows_of_reach h
  cases hphase with
  | header _ hr | headerDone _ hr | body _ hr | bodyDone _ hr => simp [hr]
  | stopped hs => simp [hs.1]

/-- **The read loop is a fail-stop parser.** In every run the calls of `Dispatch` are the first
ones of those that the reference makes for the bytes that have arrived, in order and once each.
Without anything new from outside the server takes at most `work` more steps, and when it has
come to rest, it has made all of them.

**Proof sketch.** In each phase the loop knows what the reference still makes of the bytes to come
(`Phase.step`); a refused header or body, a failed dispatch and the end of the stream lead to the
last phase, in which no read is started again (`Handled.stopped`). Every step of the server lowers
`work` (`Phase.work_lt`), and at rest the running read waits for bytes (`Phase.at_rest`). -/
theorem dispatched_eq_parse (h : (machine rt rspData).Reach tr σ) :
    dispatched tr <+: parse rt .new (arrived tr) ∧
      (AtRest rt rspData σ → dispatched tr = parse rt .new (arrived tr)) ∧
      ∀ es r, (machine rt rspData).exec (fun _ _ e => e.isInternal) tr σ es = some r →
        es.length ≤ σ.work := by
  obtain ⟨k, hphase, hk⟩ := follows_of_reach h
  have hparse := hk [] fun _ => rfl
  rw [List.append_nil] at hparse
  refine ⟨?_, fun hrest => ?_, fun es r hexec => ?_⟩
  · rw [hparse]
    exact List.prefix_append _ _
  · rw [hparse, hphase.at_rest hrest, List.append_nil]
  · have hlen := Machine.length_le_of_exec (M := machine rt rspData) (G := fun _ _ _ => True) work
      (fun _ _ _ _ => trivial) (fun tr σ e σ' out hrun he hstep => by
        obtain ⟨k, hphase, -⟩ := follows_of_reach hrun
        exact hphase.work_lt he hstep) h hexec
    exact (Nat.le_add_right _ _).trans hlen

/-- A connection on which a login request arrives, then a header that is refused and one more byte:
one call of `Dispatch`, and the connection is at rest once the socket is closed. -/
theorem dispatched_eq_parse_login : ∃ tr σ, (machine sampleProtobuf fun _ => []).Reach tr σ ∧
    AtRest sampleProtobuf (fun _ => []) σ ∧ (dispatched tr).length = 1 ∧
    arrived tr = (sampleLogin [117]).wire ++ [0, 0, 9] ∧
    dispatched tr = parse sampleProtobuf .new (arrived tr) := by
  obtain ⟨r, hexec, hidle, hreading, hone, harrived⟩ :
      ∃ r ∈ (machine sampleProtobuf fun _ => []).exec (fun _ _ _ => true) []
        (machine sampleProtobuf fun _ => []).init
        [.arrive ((sampleLogin [117]).wire ++ [0, 0, 9]), .receive 2, .readDone, .run, .receive 22,
          .readDone, .run, .receive 2, .readDone, .run, .run, .run],
        r.2.session.queue.isEmpty = true ∧ r.2.session.reading = [] ∧
          (dispatched r.1).length = 1 ∧ arrived r.1 = (sampleLogin [117]).wire ++ [0, 0, 9] := by
    decide +kernel
  have hrun := Machine.run_of_exec (fun _ _ _ _ => trivial) hexec
  have hrest : AtRest sampleProtobuf (fun _ => []) r.2 := by
    intro e he
    cases e with
    | receive n => simp [step, hreading]
    | readDone => simp [step, hreading]
    | run => simp [step, runHandler, List.isEmpty_iff.mp hidle]
    | arrive | finish | write | writeDone | timerDone => cases he
  exact ⟨r.1, r.2, hrun, hrest, hone, harrived, (dispatched_eq_parse hrun).2.1 hrest⟩

end ReadLoop

end FightingCard
