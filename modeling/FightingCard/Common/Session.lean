import Mathlib.Data.List.Basic

set_option relaxedAutoImplicit false
set_option autoImplicit false

/-!
# Connections

One end of a connection (`common/session.h`; `common/pipe.h` has the same code for the
client), as a state machine around its `io_service`. The `io_service` runs one thread: the
state holds the queue of handlers that are ready to run, in the order in which they run, and
the asynchronous operations whose completion is still to come. A handler that posts a task or
starts an operation changes the queue or the operations; it never runs another handler.

What is assumed of the operations: a completion is queued behind what is queued already; an
operation started on a closed socket completes with an error other than `operation_aborted`;
closing the socket completes the outstanding operations with `operation_aborted` and leaves
queued completions as they are.

## Main definitions

* `FightingCard.Session` — the members of a connection, its outstanding operations and its
  queue of handlers, over the frames `β` it writes and the contents `φ` of its read buffer.
* `FightingCard.Session.handle` — one handler: `Write` and `Close` tasks, the completions of
  `DoReadHeader`, `DoReadBody` and `DoWrite`, and the wait handler of the owner's timer.
* `FightingCard.Session.Signal` — what a handler does outside the connection: starting a
  transmission, completing one, and the calls of `OnReadBody`, `OnClose` and `OnClosed`.

## Main results

* `FightingCard.Session.handle_cases` — the branches of a handler, `FightingCard.Session.Handled`.
* `FightingCard.Session.Outcome.outbound` — no handler loses, repeats or reorders a frame handed
  to `Write`.
* `FightingCard.Session.Outcome.inbound` — every body that was read is handed to `OnReadBody`
  once, in order.
-/

namespace FightingCard

/-- How an asynchronous operation ended: with success, with `operation_aborted` or with
another error. -/
inductive Completion (α : Type) where
  | ok (a : α)
  | aborted
  | error
  deriving DecidableEq

/-- An outstanding `async_read`: that of `DoReadHeader` or that of `DoReadBody`. -/
inductive ReadOp where
  | header
  | body
  deriving DecidableEq

/-- A handler in the queue of an `io_service`: the tasks posted by `Write` and by `Close`, and
the completion handlers of the reads, of the writes and of the owner's timer. A successful
read carries the contents of `read_buf_` at its completion. -/
inductive Handler (β φ : Type) where
  | write (buf : β)
  | close
  | readHeader (c : Completion φ)
  | readBody (c : Completion φ)
  | written (c : Completion Unit)
  | timer (c : Completion Unit)

/-- The completion handler of a read. -/
def ReadOp.handler {β φ : Type} : ReadOp → Completion φ → Handler β φ
  | .header => .readHeader
  | .body => .readBody

/-- A connection: whether its socket is open, the outstanding `async_read`s and `async_write`s
in the order in which they were started, `write_bufs_`, whether a wait of the owner's timer is
pending, and the handlers queued on its `io_service`. -/
structure Session (β φ : Type) where
  isOpen : Bool := true
  reading : List ReadOp := []
  writing : List β := []
  writeBufs : List β := []
  timerArmed : Bool := false
  queue : List (Handler β φ) := []

namespace Session

variable {β φ : Type}

/-- What a handler does outside the connection: it starts an `async_write`, it takes a frame
whose `async_write` succeeded off `write_bufs_`, it calls a virtual function of the owner. -/
inductive Signal (β φ : Type) where
  | asyncWrite (buf : β)
  | sent (buf : β)
  | onReadBody (f : φ)
  | onClose
  | onClosed

/-- The virtual functions that decide on what was read: `OnReadHeader` and `OnReadBody`. -/
structure Hooks (φ : Type) where
  onReadHeader : φ → Bool
  onReadBody : φ → Bool

/-- `io_service_.post(handler)`. -/
def post (x : Session β φ) (h : Handler β φ) : Session β φ := { x with queue := x.queue ++ [h] }

/-- `Write(buf)`: posts the task that queues the frame. -/
def write (x : Session β φ) (buf : β) : Session β φ := x.post (.write buf)

/-- `asio::async_read`, as started by `DoReadHeader` and `DoReadBody`. -/
def asyncRead (x : Session β φ) (op : ReadOp) : Session β φ :=
  if x.isOpen then { x with reading := x.reading ++ [op] } else x.post (op.handler .error)

/-- `DoWrite()`: starts the transmission of the front of `write_bufs_`. On a closed socket the
operation completes at once, with an error. -/
def doWrite (x : Session β φ) : Session β φ × List (Signal β φ) :=
  match x.writeBufs with
  | [] => (x, [])
  | buf :: _ =>
    if x.isOpen then ({ x with writing := x.writing ++ [buf] }, [.asyncWrite buf])
    else (x.post (.written .error), [.asyncWrite buf])

/-- `TimerManager::Stop()`: the pending wait, if there is one, is cancelled. -/
def stopTimer (x : Session β φ) : Session β φ :=
  if x.timerArmed then { x with timerArmed := false }.post (.timer .aborted) else x

/-- `TimerManager::TimerLoop()`: `expires_from_now` cancels the pending wait, `async_wait`
starts the next one. -/
def armTimer (x : Session β φ) : Session β φ := { x.stopTimer with timerArmed := true }

/-- `Close()`: `OnClose()`, where the owner stops its timer, then the task that closes the
socket is posted. No flag records that it has been called. -/
def close (x : Session β φ) : Session β φ × List (Signal β φ) :=
  (x.stopTimer.post .close, [.onClose])

/-- `socket_.close()`: the outstanding operations complete with `operation_aborted`. -/
def socketClose (x : Session β φ) : Session β φ :=
  { x with
    isOpen := false
    reading := []
    writing := []
    queue := x.queue ++ (x.reading.map fun op => op.handler .aborted) ++
      x.writing.map fun _ => .written .aborted }

/-- A handler run on a connection from whose queue it was taken; `expired` is the decision of
the owner's timer function to close the connection. -/
def handle (hooks : Hooks φ) (expired : Bool) (x : Session β φ) :
    Handler β φ → Session β φ × List (Signal β φ)
  | .write buf =>
    let writeInProgress := !x.writeBufs.isEmpty
    let x := { x with writeBufs := x.writeBufs ++ [buf] }
    if !writeInProgress then x.doWrite else (x, [])
  | .close => (x.socketClose, [.onClosed])
  | .readHeader (.ok f) => if hooks.onReadHeader f then (x.asyncRead .body, []) else x.close
  | .readHeader .aborted => (x, [])
  | .readHeader .error => x.close
  | .readBody (.ok f) =>
    let (y, signals) := if hooks.onReadBody f then (x.asyncRead .header, []) else x.close
    (y, .onReadBody f :: signals)
  | .readBody .aborted => (x, [])
  | .readBody .error => x.close
  | .written (.ok _) =>
    match x.writeBufs with
    | [] => (x, [])
    | buf :: rest =>
      let x := { x with writeBufs := rest }
      let (y, signals) := if !rest.isEmpty then x.doWrite else (x, [])
      (y, .sent buf :: signals)
  | .written .aborted => (x, [])
  | .written .error => x.close
  | .timer .aborted => (x, [])
  | .timer _ => if expired then x.armTimer.close else (x.armTimer, [])

/-- The io thread runs the handler at the front of the queue. -/
def runHandler (hooks : Hooks φ) (expired : Bool) (x : Session β φ) :
    Option (Session β φ × List (Signal β φ)) :=
  match x.queue with
  | [] => none
  | h :: rest => some ({ x with queue := rest }.handle hooks expired h)

/-- An outstanding read completes: with success and the given contents of `read_buf_`, or with
an error. -/
def completeRead (x : Session β φ) (result : Option φ) : Option (Session β φ) :=
  match x.reading with
  | [] => none
  | op :: ops =>
    some ({ x with reading := ops }.post (op.handler (result.elim .error .ok)))

/-- The body that arrives with the completion of an outstanding read. -/
def arrival (x : Session β φ) (result : Option φ) : Option φ :=
  if x.reading.head? = some .body then result else none

/-- An outstanding write completes, with success or with an error. -/
def completeWrite (x : Session β φ) (ok : Bool) : Option (Session β φ) :=
  match x.writing with
  | [] => none
  | _ :: bufs =>
    some ({ x with writing := bufs }.post (.written (if ok then .ok () else .error)))

/-- The pending wait of the timer expires. -/
def expireTimer (x : Session β φ) : Option (Session β φ) :=
  if x.timerArmed then some ({ x with timerArmed := false }.post (.timer (.ok ()))) else none

/-! ## What passes through a connection -/

/-- The frames in the `Write` tasks of a queue. -/
def posted : List (Handler β φ) → List β := List.filterMap fun
  | .write buf => some buf
  | _ => none

/-- The bodies in the completed reads of a queue. -/
def bodies : List (Handler β φ) → List φ := List.filterMap fun
  | .readBody (.ok f) => some f
  | _ => none

/-- The body in the handler at the front of a queue. -/
def frontBody : List (Handler β φ) → Option φ
  | .readBody (.ok f) :: _ => some f
  | _ => none

/-- The frames taken off `write_bufs_` by a list of signals. -/
def sentOf : List (Signal β φ) → List β := List.filterMap fun
  | .sent buf => some buf
  | _ => none

/-- The bodies handed to `OnReadBody` by a list of signals. -/
def readOf : List (Signal β φ) → List φ := List.filterMap fun
  | .onReadBody f => some f
  | _ => none

/-- What a connection still has to do: the frames it holds or that are posted to it, and the
bodies it has read but not handled. -/
structure Flow (β φ : Type) where
  writeBufs : List β
  posted : List β
  bodies : List φ

/-- The flow of a connection. -/
def flow (x : Session β φ) : Flow β φ := ⟨x.writeBufs, posted x.queue, bodies x.queue⟩

variable {x : Session β φ} {hooks : Hooks φ} {expired : Bool}

/-- The io thread runs the handler at the front of a queue that is not empty. -/
lemma runHandler_eq_some {r : Session β φ × List (Signal β φ)}
    (hr : x.runHandler hooks expired = some r) : ∃ h rest, x.queue = h :: rest ∧
      ({ x with queue := rest } : Session β φ).handle hooks expired h = r := by
  unfold runHandler at hr
  split at hr
  · cases hr
  · exact ⟨_, _, ‹_›, Option.some.inj hr⟩

/-- The first one of the outstanding reads completes. -/
lemma completeRead_eq_some {y : Session β φ} {result : Option φ}
    (hy : x.completeRead result = some y) : ∃ op ops, x.reading = op :: ops ∧
      y = ({ x with reading := ops } : Session β φ).post
        (op.handler (result.elim .error .ok)) := by
  unfold completeRead at hy
  split at hy
  · cases hy
  · exact ⟨_, _, ‹_›, (Option.some.inj hy).symm⟩

/-- The first one of the outstanding writes completes. -/
lemma completeWrite_eq_some {y : Session β φ} {ok : Bool} (hy : x.completeWrite ok = some y) :
    ∃ bufs, y = ({ x with writing := bufs } : Session β φ).post
      (.written (if ok then .ok () else .error)) := by
  unfold completeWrite at hy
  split at hy
  · cases hy
  · exact ⟨_, (Option.some.inj hy).symm⟩

/-- The pending wait of the timer is over. -/
lemma expireTimer_eq_some {y : Session β φ} (hy : x.expireTimer = some y) :
    y = ({ x with timerArmed := false } : Session β φ).post (.timer (.ok ())) := by
  unfold expireTimer at hy
  split at hy
  · exact (Option.some.inj hy).symm
  · cases hy

/-- The `Write` tasks of a longer queue. -/
@[simp] lemma posted_append (q r : List (Handler β φ)) : posted (q ++ r) = posted q ++ posted r :=
  List.filterMap_append

/-- The bodies in a longer queue. -/
@[simp] lemma bodies_append (q r : List (Handler β φ)) : bodies (q ++ r) = bodies q ++ bodies r :=
  List.filterMap_append

/-- A new read changes nothing of the flow. -/
@[simp] lemma flow_asyncRead (op : ReadOp) : (x.asyncRead op).flow = x.flow := by
  unfold asyncRead
  cases op <;> split <;> simp [flow, post, posted, bodies, ReadOp.handler]

/-- Nor does `DoWrite`. -/
@[simp] lemma flow_doWrite : x.doWrite.1.flow = x.flow := by
  unfold doWrite
  split
  · rfl
  · split <;> simp [flow, post, posted, bodies]

/-- Nor does stopping the timer. -/
@[simp] lemma flow_stopTimer : x.stopTimer.flow = x.flow := by
  unfold stopTimer
  split <;> simp [flow, post, posted, bodies]

/-- Nor does arming the timer. -/
@[simp] lemma flow_armTimer : x.armTimer.flow = x.flow := flow_stopTimer

/-- Nor does `Close`. -/
@[simp] lemma flow_close : x.close.1.flow = x.flow := by
  rw [← flow_stopTimer (x := x)]
  simp [close, flow, post, posted, bodies]

/-- Nor does closing the socket. -/
@[simp] lemma flow_socketClose : x.socketClose.flow = x.flow := by
  have hread : ∀ ops : List ReadOp,
      posted (ops.map fun op => (op.handler .aborted : Handler β φ)) = [] ∧
        bodies (ops.map fun op => (op.handler .aborted : Handler β φ)) = [] := fun ops => by
    induction ops with
    | nil => exact ⟨rfl, rfl⟩
    | cons op ops ih => cases op <;> exact ih
  have hwrite : ∀ n : ℕ, posted (List.replicate n (.written .aborted : Handler β φ)) = [] ∧
      bodies (List.replicate n (.written .aborted : Handler β φ)) = [] := fun n => by
    induction n with
    | zero => exact ⟨rfl, rfl⟩
    | succ n ih => exact ih
  simp [socketClose, flow, hread, hwrite]

/-- The completion of a read queues the body that arrived with it. -/
lemma flow_completeRead {y : Session β φ} {result : Option φ}
    (h : x.completeRead result = some y) :
    y.flow = { x.flow with bodies := bodies x.queue ++ (x.arrival result).toList } := by
  obtain ⟨op, ops, hreading, rfl⟩ := completeRead_eq_some h
  cases op <;> cases result <;>
    simp [flow, post, posted, bodies, ReadOp.handler, arrival, hreading]

/-- Nor does a write that completes. -/
lemma flow_completeWrite {y : Session β φ} {ok : Bool} (h : x.completeWrite ok = some y) :
    y.flow = x.flow := by
  obtain ⟨bufs, rfl⟩ := completeWrite_eq_some h
  cases ok <;> simp [flow, post, posted, bodies]

/-- Nor does an expired timer. -/
lemma flow_expireTimer {y : Session β φ} (h : x.expireTimer = some y) : y.flow = x.flow := by
  obtain rfl := expireTimer_eq_some h
  simp [flow, post, posted, bodies]

/-- `Write` posts its frame behind those posted before. -/
lemma flow_write {buf : β} :
    (x.write buf).flow = { x.flow with posted := posted x.queue ++ [buf] } := by
  simp [write, flow, post, posted, bodies]

/-- The front of `write_bufs_` is handed to `async_write`. -/
lemma signals_doWrite {buf : β} {rest : List β} (h : x.writeBufs = buf :: rest) :
    x.doWrite.2 = [.asyncWrite buf] := by
  unfold doWrite
  rw [h]
  dsimp only
  split <;> rfl

/-- **What a handler does, branch by branch.** The last two branches are those of the timer, which
is armed again before its function is called. -/
inductive Handled (hooks : Hooks φ) (expired : Bool) (x : Session β φ) :
    Handler β φ → Session β φ → List (Signal β φ) → Prop
  | queued {buf} (hbufs : x.writeBufs ≠ []) :
      Handled hooks expired x (.write buf) { x with writeBufs := x.writeBufs ++ [buf] } []
  | started {buf} (hbufs : x.writeBufs = []) :
      Handled hooks expired x (.write buf)
        ({ x with writeBufs := [buf] } : Session β φ).doWrite.1 [.asyncWrite buf]
  | closed : Handled hooks expired x .close x.socketClose [.onClosed]
  | readsBody {f} (hacc : hooks.onReadHeader f = true) :
      Handled hooks expired x (.readHeader (.ok f)) (x.asyncRead .body) []
  | readsHeader {f} (hacc : hooks.onReadBody f = true) :
      Handled hooks expired x (.readBody (.ok f)) (x.asyncRead .header) [.onReadBody f]
  | refuses {f} (hacc : hooks.onReadHeader f = false) :
      Handled hooks expired x (.readHeader (.ok f)) x.close.1 [.onClose]
  | rejects {f} (hacc : hooks.onReadBody f = false) :
      Handled hooks expired x (.readBody (.ok f)) x.close.1 [.onReadBody f, .onClose]
  | fails {h} (hh : h = .readHeader .error ∨ h = .readBody .error ∨ h = .written .error) :
      Handled hooks expired x h x.close.1 [.onClose]
  | aborted {h} (hh : h = .readHeader .aborted ∨ h = .readBody .aborted ∨
      h = .written .aborted ∨ h = .timer .aborted) : Handled hooks expired x h x []
  | idle {u} (hbufs : x.writeBufs = []) : Handled hooks expired x (.written (.ok u)) x []
  | sentLast {u buf} (hbufs : x.writeBufs = [buf]) :
      Handled hooks expired x (.written (.ok u)) { x with writeBufs := [] } [.sent buf]
  | sentNext {u buf next rest} (hbufs : x.writeBufs = buf :: next :: rest) :
      Handled hooks expired x (.written (.ok u))
        ({ x with writeBufs := next :: rest } : Session β φ).doWrite.1
        [.sent buf, .asyncWrite next]
  | rearms {c} (hc : c ≠ .aborted) (hexpired : expired = false) :
      Handled hooks expired x (.timer c) x.armTimer []
  | expires {c} (hc : c ≠ .aborted) (hexpired : expired = true) :
      Handled hooks expired x (.timer c) x.armTimer.close.1 [.onClose]

/-- A handler takes one of its branches.

**Proof sketch.** By cases on the handler and on what it tests: the hook of a read, `write_bufs_`,
or the decision of the timer. Each branch of `handle` is one constructor. -/
theorem handle_cases (h : Handler β φ) : Handled hooks expired x h
    (x.handle hooks expired h).1 (x.handle hooks expired h).2 := by
  cases h with
  | write buf =>
    cases hbufs : x.writeBufs with
    | nil =>
      have hsig := signals_doWrite (x := { x with writeBufs := [buf] }) rfl
      simp only [handle, hbufs, List.isEmpty_nil, Bool.not_true, Bool.not_false, if_true,
        List.nil_append, hsig]
      exact .started hbufs
    | cons b rest =>
      simp only [handle, hbufs, List.isEmpty_cons, Bool.not_false, Bool.not_true,
        Bool.false_eq_true, if_false]
      exact hbufs ▸ .queued (by simp [hbufs])
  | close => exact .closed
  | readHeader c =>
    cases c with
    | ok f =>
      cases hacc : hooks.onReadHeader f with
      | true =>
        simp only [handle, hacc, if_true]
        exact .readsBody hacc
      | false =>
        simp only [handle, hacc, Bool.false_eq_true, if_false]
        exact .refuses hacc
    | aborted => exact .aborted (by simp)
    | error => exact .fails (by simp)
  | readBody c =>
    cases c with
    | ok f =>
      cases hacc : hooks.onReadBody f with
      | true =>
        simp only [handle, hacc, if_true]
        exact .readsHeader hacc
      | false =>
        simp only [handle, hacc, Bool.false_eq_true, if_false]
        exact .rejects hacc
    | aborted => exact .aborted (by simp)
    | error => exact .fails (by simp)
  | written c =>
    cases c with
    | ok u =>
      cases hbufs : x.writeBufs with
      | nil =>
        simp only [handle, hbufs]
        exact .idle hbufs
      | cons buf rest =>
        cases rest with
        | nil =>
          simp only [handle, hbufs, List.isEmpty_nil, Bool.not_true, Bool.false_eq_true, if_false]
          exact .sentLast hbufs
        | cons next rest =>
          have hsig := signals_doWrite (x := { x with writeBufs := next :: rest }) rfl
          simp only [handle, hbufs, List.isEmpty_cons, Bool.not_false, if_true, hsig]
          exact .sentNext hbufs
    | aborted => exact .aborted (by simp)
    | error => exact .fails (by simp)
  | timer c =>
    have fires : c ≠ .aborted → Handled hooks expired x (.timer c)
        (if expired then x.armTimer.close else (x.armTimer, [])).1
        (if expired then x.armTimer.close else (x.armTimer, [])).2 := by
      intro hc
      cases hexpired : expired with
      | true => exact .expires hc rfl
      | false => exact .rearms hc rfl
    cases c with
    | ok u | error => exact fires (by simp)
    | aborted => exact .aborted (by simp)

/-- **What the io thread does**: one branch of the handler at the front of the queue. -/
theorem runHandler_cases {y : Session β φ} {signals : List (Signal β φ)}
    (hr : x.runHandler hooks expired = some (y, signals)) : ∃ h rest, x.queue = h :: rest ∧
      Handled hooks expired { x with queue := rest } h y signals := by
  obtain ⟨h, rest, hqueue, hhandle⟩ := runHandler_eq_some hr
  have hcases : Handled hooks expired { x with queue := rest } h
      (({ x with queue := rest } : Session β φ).handle hooks expired h).1
      (({ x with queue := rest } : Session β φ).handle hooks expired h).2 := handle_cases h
  rw [hhandle] at hcases
  exact ⟨h, rest, hqueue, hcases⟩

/-- A handler asks `OnReadBody` about no other body than the one that it carries. -/
lemma handle_congr {hooks' : Hooks φ} {h : Handler β φ}
    (hheader : hooks'.onReadHeader = hooks.onReadHeader)
    (hbody : ∀ f, h = .readBody (.ok f) → hooks'.onReadBody f = hooks.onReadBody f) :
    x.handle hooks' expired h = x.handle hooks expired h := by
  cases h with
  | write | close => rfl
  | readHeader c =>
    cases c with
    | ok f => simp only [handle, hheader]
    | aborted | error => rfl
  | readBody c =>
    cases c with
    | ok f => simp only [handle, hbody f rfl]
    | aborted | error => rfl
  | written c | timer c => cases c <;> rfl

/-- A handler hands no other body to `OnReadBody` than the one that it carries. -/
lemma Handled.eq_readBody {y : Session β φ} {h : Handler β φ} {signals : List (Signal β φ)}
    (hh : Handled hooks expired x h y signals) {f : φ} (hf : .onReadBody f ∈ signals) :
    h = .readBody (.ok f) := by
  cases hh <;> simp_all

/-- The five kinds of things a handler does, by the kind of the handler: a `Write` task queues
its frame, a successful write completion takes the front off `write_bufs_`, a body that was
read is accepted or rejected, and any other handler leaves the flow as it is. -/
inductive Outcome (hooks : Hooks φ) (x : Session β φ) :
    Handler β φ → Session β φ → List (Signal β φ) → Prop
  | queued {buf y signals} (hflow : y.flow = { x.flow with writeBufs := x.writeBufs ++ [buf] })
      (hsig : signals = [] ∨ ∃ b, signals = [.asyncWrite b]) :
      Outcome hooks x (.write buf) y signals
  | sent {u buf rest y signals} (hbufs : x.writeBufs = buf :: rest)
      (hflow : y.flow = { x.flow with writeBufs := rest })
      (hsig : signals = [.sent buf] ∨ ∃ b, signals = [.sent buf, .asyncWrite b]) :
      Outcome hooks x (.written (.ok u)) y signals
  | accepted {f y} (hacc : hooks.onReadBody f = true) (hflow : y.flow = x.flow) :
      Outcome hooks x (.readBody (.ok f)) y [.onReadBody f]
  | rejected {f y} (hacc : hooks.onReadBody f = false) (hflow : y.flow = x.flow) :
      Outcome hooks x (.readBody (.ok f)) y [.onReadBody f, .onClose]
  | other {h y signals} (hposted : posted [h] = []) (hbodies : bodies [h] = [])
      (hflow : y.flow = x.flow)
      (hsig : signals = [] ∨ signals = [.onClose] ∨ signals = [.onClosed]) :
      Outcome hooks x h y signals

variable {h : Handler β φ} {y : Session β φ} {signals : List (Signal β φ)}

/-- The branches of a handler are of five kinds. -/
theorem Handled.outcome (hh : Handled hooks expired x h y signals) :
    Outcome hooks x h y signals := by
  cases hh with
  | queued => exact .queued rfl (.inl rfl)
  | started hbufs => exact .queued (by rw [flow_doWrite, hbufs]; rfl) (.inr ⟨_, rfl⟩)
  | closed => exact .other rfl rfl flow_socketClose (.inr (.inr rfl))
  | readsBody => exact .other rfl rfl (flow_asyncRead _) (.inl rfl)
  | readsHeader hacc => exact .accepted hacc (flow_asyncRead _)
  | refuses => exact .other rfl rfl flow_close (.inr (.inl rfl))
  | rejects hacc => exact .rejected hacc flow_close
  | fails hh =>
    rcases hh with rfl | rfl | rfl <;> exact .other rfl rfl flow_close (.inr (.inl rfl))
  | aborted hh => rcases hh with rfl | rfl | rfl | rfl <;> exact .other rfl rfl rfl (.inl rfl)
  | idle => exact .other rfl rfl rfl (.inl rfl)
  | sentLast hbufs => exact .sent hbufs rfl (.inl rfl)
  | sentNext hbufs => exact .sent hbufs flow_doWrite (.inr ⟨_, rfl⟩)
  | rearms => exact .other rfl rfl flow_armTimer (.inl rfl)
  | expires => exact .other rfl rfl (flow_close.trans flow_armTimer) (.inr (.inl rfl))

/-- **Outbound frames.** A handler keeps the sequence of frames handed to `Write`: those it
takes off `write_bufs_`, those left in it and those still posted, in this order, are those in
`write_bufs_` and those posted before, the handler itself included. -/
theorem Outcome.outbound (ho : Outcome hooks x h y signals) :
    sentOf signals ++ y.writeBufs ++ posted y.queue = x.writeBufs ++ posted (h :: x.queue) := by
  cases ho with
  | queued hflow hsig =>
    simp only [flow, Flow.mk.injEq] at hflow
    rw [hflow.1, hflow.2.1]
    rcases hsig with rfl | ⟨b, rfl⟩ <;> simp [sentOf, posted]
  | sent hbufs hflow hsig =>
    simp only [flow, Flow.mk.injEq] at hflow
    rw [hflow.1, hflow.2.1, hbufs]
    rcases hsig with rfl | ⟨b, rfl⟩ <;> simp [sentOf, posted]
  | accepted _ hflow | rejected _ hflow =>
    simp only [flow, Flow.mk.injEq] at hflow
    rw [hflow.1, hflow.2.1]
    simp [sentOf, posted]
  | other hposted _ hflow hsig =>
    simp only [flow, Flow.mk.injEq] at hflow
    rw [hflow.1, hflow.2.1, ← List.singleton_append (x := h), posted_append, hposted]
    rcases hsig with rfl | rfl | rfl <;> simp [sentOf]

/-- **Inbound bodies.** A handler hands to `OnReadBody` the body it carries, if it carries one;
the bodies of the queue wait in order. -/
theorem Outcome.inbound (ho : Outcome hooks x h y signals) :
    readOf signals ++ bodies y.queue = bodies (h :: x.queue) := by
  cases ho with
  | queued hflow hsig =>
    simp only [flow, Flow.mk.injEq] at hflow
    rw [hflow.2.2]
    rcases hsig with rfl | ⟨b, rfl⟩ <;> simp [readOf, bodies]
  | sent hbufs hflow hsig =>
    simp only [flow, Flow.mk.injEq] at hflow
    rw [hflow.2.2]
    rcases hsig with rfl | ⟨b, rfl⟩ <;> simp [readOf, bodies]
  | accepted _ hflow | rejected _ hflow =>
    simp only [flow, Flow.mk.injEq] at hflow
    rw [hflow.2.2]
    simp [readOf, bodies]
  | other _ hbodies hflow hsig =>
    simp only [flow, Flow.mk.injEq] at hflow
    rw [hflow.2.2, ← List.singleton_append (x := h), bodies_append, hbodies]
    rcases hsig with rfl | rfl | rfl <;> simp [readOf]

/-! ## What a closed socket leads to -/

/-- `y` is `x` with more handlers behind those in its queue. -/
structure Extends (x y : Session β φ) : Prop where
  isOpen : y.isOpen = x.isOpen
  writeBufs : y.writeBufs = x.writeBufs
  queue : x.queue <+: y.queue

/-- Doing nothing extends a connection. -/
lemma Extends.refl : Extends x x := ⟨rfl, rfl, List.prefix_rfl⟩

/-- Two extensions are one. -/
lemma Extends.trans {z : Session β φ} (hxy : Extends x y) (hyz : Extends y z) : Extends x z :=
  ⟨hyz.isOpen.trans hxy.isOpen, hyz.writeBufs.trans hxy.writeBufs, hxy.queue.trans hyz.queue⟩

/-- Posting extends a connection. -/
lemma extends_post (h : Handler β φ) : Extends x (x.post h) := ⟨rfl, rfl, List.prefix_append _ _⟩

/-- So does starting a read. -/
lemma extends_asyncRead (op : ReadOp) : Extends x (x.asyncRead op) := by
  unfold asyncRead
  split
  · exact ⟨rfl, rfl, List.prefix_rfl⟩
  · exact extends_post _

/-- So does `DoWrite`. -/
lemma extends_doWrite : Extends x x.doWrite.1 := by
  unfold doWrite
  split
  · exact .refl
  · split
    · exact ⟨rfl, rfl, List.prefix_rfl⟩
    · exact extends_post _

/-- So does arming the timer. -/
lemma extends_armTimer : Extends x x.armTimer := by
  unfold armTimer stopTimer
  split
  · exact ⟨rfl, rfl, List.prefix_append _ _⟩
  · exact ⟨rfl, rfl, List.prefix_rfl⟩

/-- So does `Close`. -/
lemma extends_close : Extends x x.close.1 := by
  unfold close stopTimer
  split
  · exact ⟨rfl, rfl, (List.prefix_append _ _).trans (List.prefix_append _ _)⟩
  · exact extends_post _

/-- So does a read that completes. -/
lemma extends_completeRead {result : Option φ} (h : x.completeRead result = some y) :
    Extends x y := by
  obtain ⟨op, ops, -, rfl⟩ := completeRead_eq_some h
  exact ⟨rfl, rfl, List.prefix_append _ _⟩

/-- So does a write that completes. -/
lemma extends_completeWrite {ok : Bool} (h : x.completeWrite ok = some y) : Extends x y := by
  obtain ⟨bufs, rfl⟩ := completeWrite_eq_some h
  exact ⟨rfl, rfl, List.prefix_append _ _⟩

/-- So does an expired timer. -/
lemma extends_expireTimer (h : x.expireTimer = some y) : Extends x y := by
  obtain rfl := expireTimer_eq_some h
  exact ⟨rfl, rfl, List.prefix_append _ _⟩

/-- What a handler does to the socket: it only appends to the queue, a call of `Close()` posts
the task that closes the socket, and a failed write is followed by such a call. -/
structure Advances (x : Session β φ) (h : Handler β φ) (y : Session β φ)
    (signals : List (Signal β φ)) : Prop where
  queue : x.queue <+: y.queue
  isOpen : y.isOpen = true → x.isOpen = true ∧ h ≠ .close
  closing : .onClose ∈ signals → .close ∈ y.queue
  failed : h = .written .error → .onClose ∈ signals
  refused : ∀ buf, h = .write buf → x.isOpen = false → x.writeBufs = [] →
    .written .error ∈ y.queue

/-- A handler that neither closes the connection nor fails. -/
lemma Advances.of_open (hqueue : x.queue <+: y.queue) (hopen : y.isOpen = x.isOpen)
    (hsig : .onClose ∉ signals) (hclose : h ≠ .close) (herror : h ≠ .written .error)
    (hwrite : ∀ buf, h = .write buf → x.writeBufs ≠ []) : Advances x h y signals where
  queue := hqueue
  isOpen hy := ⟨hopen ▸ hy, hclose⟩
  closing hmem := absurd hmem hsig
  failed heq := absurd heq herror
  refused buf heq _ hbufs := absurd hbufs (hwrite buf heq)

/-- A handler that ends with a call of `Close()`. -/
lemma Advances.of_close (hxy : Extends x y) (hsig : .onClose ∈ signals) (hclose : h ≠ .close)
    (hwrite : ∀ buf, h ≠ .write buf) : Advances x h y.close.1 signals where
  queue := hxy.queue.trans extends_close.queue
  isOpen hy := ⟨hxy.isOpen ▸ extends_close.isOpen ▸ hy, hclose⟩
  closing _ := by simp [close, post]
  failed _ := hsig
  refused buf heq := absurd heq (hwrite buf)

/-- **What a handler does to the socket.**

**Proof sketch.** By cases on the branch. Nothing opens a socket, and all that is posted goes to the
end of the queue (`Extends`). A branch that calls `OnClose` posts the task that closes the socket,
and a write that is started on a closed socket posts its failure. -/
theorem Handled.advances (hh : Handled hooks expired x h y signals) : Advances x h y signals := by
  cases hh with
  | queued hbufs =>
    exact .of_open List.prefix_rfl rfl (by simp) (by simp) (by simp) (by simp [hbufs])
  | @started buf hbufs =>
    have hstart := extends_doWrite (x := { x with writeBufs := [buf] })
    refine ⟨hstart.queue, fun hy => ⟨hstart.isOpen ▸ hy, by simp⟩, by simp, by simp, ?_⟩
    intro _ _ hopen _
    simp [doWrite, hopen, post]
  | closed =>
    refine ⟨?_, by simp [socketClose], by simp, by simp, by simp⟩
    simp only [socketClose, List.append_assoc]
    exact List.prefix_append _ _
  | readsBody | readsHeader =>
    exact .of_open (extends_asyncRead _).queue (extends_asyncRead _).isOpen (by simp) (by simp)
      (by simp) (by simp)
  | refuses | rejects => exact .of_close .refl (by simp) (by simp) (by simp)
  | fails hh =>
    rcases hh with rfl | rfl | rfl <;> exact .of_close .refl (by simp) (by simp) (by simp)
  | aborted hh =>
    rcases hh with rfl | rfl | rfl | rfl <;>
      exact .of_open List.prefix_rfl rfl (by simp) (by simp) (by simp) (by simp)
  | idle | sentLast => exact .of_open List.prefix_rfl rfl (by simp) (by simp) (by simp) (by simp)
  | @sentNext _ _ next rest =>
    have hstart := extends_doWrite (x := { x with writeBufs := next :: rest })
    exact .of_open hstart.queue hstart.isOpen (by simp) (by simp) (by simp) (by simp)
  | rearms =>
    exact .of_open extends_armTimer.queue extends_armTimer.isOpen (by simp) (by simp) (by simp)
      (by simp)
  | expires => exact .of_close extends_armTimer (by simp) (by simp) (by simp)

/-- The socket is closed, or the task that closes it is in the queue. -/
def Ending (x : Session β φ) : Prop := x.isOpen = true → .close ∈ x.queue

/-- A write is going to fail: its failure is in the queue, or the queue has a `Write` task that
finds `write_bufs_` empty and the socket closed. -/
def Failing (x : Session β φ) : Prop :=
  .written .error ∈ x.queue ∨ x.writeBufs = [] ∧ ∃ before buf after,
    x.queue = before ++ .write buf :: after ∧ posted before = [] ∧
      (x.isOpen = true → .close ∈ before)

/-- More handlers do not keep the socket from being closed. -/
lemma Ending.extends (hx : x.Ending) (h : Extends x y) : y.Ending := fun hy =>
  h.queue.subset (hx (h.isOpen ▸ hy))

/-- Nor do they keep a write from failing. -/
lemma Failing.extends (hx : x.Failing) (h : Extends x y) : y.Failing := by
  obtain ⟨more, hmore⟩ := h.queue
  rcases hx with hx | ⟨hbufs, before, buf, after, hqueue, hbefore, hopen⟩
  · exact .inl (h.queue.subset hx)
  · refine .inr ⟨h.writeBufs.trans hbufs, before, buf, after ++ more, ?_, hbefore, h.isOpen ▸ hopen⟩
    rw [← hmore, hqueue, List.append_assoc, List.cons_append]

/-- The answer to a session that is closed and has no other frames to send is going to fail. -/
lemma Ending.failing_write (hx : x.Ending) (hbufs : x.writeBufs = [])
    (hposted : posted x.queue = []) (buf : β) : (x.write buf).Failing :=
  .inr ⟨hbufs, x.queue, buf, [], rfl, hposted, hx⟩

/-- Nor does running the next handler keep the socket from being closed. -/
lemma Ending.handle {rest : List (Handler β φ)} (hx : x.Ending) (hqueue : x.queue = h :: rest)
    (ha : Advances { x with queue := rest } h y signals) : y.Ending := fun hy => by
  obtain ⟨hopen, hclose⟩ := ha.isOpen hy
  have hmem := hx hopen
  rw [hqueue, List.mem_cons] at hmem
  exact ha.queue.subset (hmem.resolve_left (Ne.symm hclose))

/-- Only a `Write` task puts a frame into an empty `write_bufs_`. -/
lemma Outcome.writeBufs_eq_nil (ho : Outcome hooks x h y signals) (hx : x.writeBufs = [])
    (hh : posted [h] = []) : y.writeBufs = [] := by
  cases ho with
  | queued => simp [posted] at hh
  | sent hbufs => simp [hx] at hbufs
  | accepted _ hflow | rejected _ hflow | other _ _ hflow =>
    simp only [flow, Flow.mk.injEq] at hflow
    rw [hflow.1, hx]

/-- A handler leaves a failure ahead, or it handles the failure and closes the connection. -/
lemma Failing.handle {rest : List (Handler β φ)} (hx : x.Failing) (hqueue : x.queue = h :: rest)
    (ho : Outcome hooks { x with queue := rest } h y signals)
    (ha : Advances { x with queue := rest } h y signals) : y.Failing ∨ .onClose ∈ signals := by
  obtain ⟨more, hmore⟩ := ha.queue
  rcases hx with hmem | ⟨hbufs, before, buf, after, hsplit, hbefore, hopen⟩
  · rw [hqueue, List.mem_cons] at hmem
    rcases hmem with heq | hmem
    · exact .inr (ha.failed heq.symm)
    · exact .inl (.inl (ha.queue.subset hmem))
  · rw [hqueue] at hsplit
    cases before with
    | nil =>
      -- the `Write` task itself runs, on a closed socket
      obtain ⟨rfl, -⟩ := List.cons.inj hsplit
      have hclosed : x.isOpen = false := by
        by_contra hne
        exact absurd (hopen (eq_true_of_ne_false hne)) (by simp)
      exact .inl (.inl (ha.refused buf rfl hclosed hbufs))
    | cons h' before =>
      obtain ⟨rfl, hrest⟩ := List.cons.inj hsplit
      rw [← List.singleton_append, posted_append, List.append_eq_nil_iff] at hbefore
      refine .inl (.inr ⟨ho.writeBufs_eq_nil hbufs hbefore.1, before, buf, after ++ more, ?_,
        hbefore.2, fun hy => ?_⟩)
      · rw [← hmore, hrest]
        simp
      · obtain ⟨hx, hclose⟩ := ha.isOpen hy
        exact (List.mem_cons.mp (hopen hx)).resolve_left (Ne.symm hclose)

end Session

end FightingCard
