import FightingCard.Lib.Machine
import FightingCard.Common.Session

set_option relaxedAutoImplicit false
set_option autoImplicit false

/-!
# The life of a connection

One connection from its start to its end, seen from `Close` (`common/session.h` and
`common/pipe.h`). `Close` is called from four error hooks and from the keepalive timer, and it
keeps no flag: nothing stops a second one. So the number of calls is the number of failures, and
a failure is anything that leads to `Close`: an operation that completes with an error or with a
header or a body that is refused, an operation that is started while the socket is not open, a
keepalive that has expired, or a call of `Close` by the owner.

## Main definitions

* `FightingCard.Lifetime` — a connection, whether it was connected and whether its socket was
  closed; `FightingCard.Lifetime.machine` — its runs, for a `Session` and for a `Pipe`.
* `FightingCard.Lifetime.fails` — an event is a failure.
* `FightingCard.Lifetime.Failed` — there was a failure already.

## Main results

* `FightingCard.Lifetime.step_balance` — every failure leads to one call of `OnClose`.
* `FightingCard.Lifetime.closes_le_one` — `OnClose` is called once if no failure comes after another
  one.
* `FightingCard.Lifetime.close_twice` — a failure after another one leads to a second call.
-/

namespace FightingCard

open Session (Handled Hooks Signal)

/-- A connection, with the events that happen to it once: whether it was connected, and whether
`socket_.close()` has run. -/
structure Lifetime (β φ : Type) where
  session : Session β φ
  connected : Bool
  closed : Bool := false

namespace Lifetime

variable {β φ : Type}

/-- What can happen next: `async_connect` has connected a `Pipe`, `Write` or `Close` is called, an
outstanding read or write completes, the timer expires, or the io thread runs its next handler,
where `expired` is the decision of the owner's timer function to close the connection. -/
inductive Event (β φ : Type) where
  | connect
  | write (buf : β)
  | close
  | readDone (result : Option φ)
  | writeDone (ok : Bool)
  | timerDone
  | run (expired : Bool)

/-- `OnClose` is called. -/
def isOnClose : Signal β φ → Bool
  | .onClose => true
  | _ => false

/-- `OnClosed` is called. -/
def isOnClosed : Signal β φ → Bool
  | .onClosed => true
  | _ => false

/-- One step of a connection in its environment, with the calls of its virtual functions. -/
def step (hooks : Hooks φ) (σ : Lifetime β φ) :
    Event β φ → Option (Lifetime β φ × List (Signal β φ))
  | .connect =>
    if σ.connected || σ.closed then none
    else some ({ σ with
      session := ({ σ.session with isOpen := true }.armTimer).asyncRead .header
      connected := true }, [])
  | .write buf => some ({ σ with session := σ.session.write buf }, [])
  | .close => some ({ σ with session := σ.session.close.1 }, σ.session.close.2)
  | .readDone result => (σ.session.completeRead result).map fun x => ({ σ with session := x }, [])
  | .writeDone ok => (σ.session.completeWrite ok).map fun x => ({ σ with session := x }, [])
  | .timerDone => σ.session.expireTimer.map fun x => ({ σ with session := x }, [])
  | .run expired =>
    (σ.session.runHandler hooks expired).map fun (x, signals) =>
      ({ σ with session := x, closed := σ.closed || signals.any isOnClosed }, signals)

/-- The start of a connection: of a `Session`, on whose connected socket `DoAccept` has called
`Init` and `DoReadHeader`, or of a `Pipe`, whose socket is to be connected. -/
def init (connected : Bool) : Lifetime β φ :=
  if connected then { session := (Session.armTimer {}).asyncRead .header, connected }
  else { session := { isOpen := false }, connected }

/-- The life of a `Session` or, with a socket that is to be connected, of a `Pipe`. -/
def machine (hooks : Hooks φ) (connected : Bool) :
    Machine (Lifetime β φ) (Event β φ) (Signal β φ) :=
  ⟨init connected, step hooks⟩

/-! ## Failures -/

/-- A handler that calls `Close`. -/
def failing (hooks : Hooks φ) : Handler β φ → Bool
  | .readHeader (.ok f) => !hooks.onReadHeader f
  | .readBody (.ok f) => !hooks.onReadBody f
  | .readHeader .error | .readBody .error | .written .error => true
  | _ => false

/-- The task that closes the socket. -/
def isCloseTask : Handler β φ → Bool
  | .close => true
  | _ => false

/-- The handler `h` starts an operation on a socket that is not open, or its timer function finds
the connection dead. -/
def failsIn (hooks : Hooks φ) (expired : Bool) (x : Session β φ) : Handler β φ → Bool
  | .write _ => !x.isOpen && x.writeBufs.isEmpty
  | .readHeader (.ok f) => !x.isOpen && hooks.onReadHeader f
  | .readBody (.ok f) => !x.isOpen && hooks.onReadBody f
  | .written (.ok _) => !x.isOpen && decide (2 ≤ x.writeBufs.length)
  | .timer .aborted => false
  | .timer _ => expired
  | _ => false

/-- A failure: an operation completes with an error or with something that will be refused, a
handler starts an operation on a socket that is not open, the keepalive has expired, or the owner
calls `Close`. -/
def fails (hooks : Hooks φ) (σ : Lifetime β φ) : Event β φ → Bool
  | .close => true
  | .readDone result =>
    match σ.session.reading with
    | [] => false
    | op :: _ => failing hooks (op.handler (result.elim .error .ok) : Handler β φ)
  | .writeDone ok => !ok
  | .run expired =>
    match σ.session.queue with
    | [] => false
    | h :: _ => failsIn hooks expired σ.session h
  | .connect | .write _ | .timerDone => false

/-- There was a failure already: its handler is still queued, or `Close` was called and its task
is queued or has run. -/
def Failed (hooks : Hooks φ) (σ : Lifetime β φ) : Prop :=
  σ.closed = true ∨ ∃ h ∈ σ.session.queue, isCloseTask h = true ∨ failing hooks h = true

variable {hooks : Hooks φ} {σ : Lifetime β φ}

instance : Decidable (Failed hooks σ) :=
  inferInstanceAs (Decidable (σ.closed = true ∨ ∃ h ∈ σ.session.queue, _))

/-- The event is no failure after another one. -/
def FailsFirst (hooks : Hooks φ) (σ : Lifetime β φ) (e : Event β φ) : Prop :=
  fails hooks σ e = true → ¬ Failed hooks σ

instance {e : Event β φ} : Decidable (FailsFirst hooks σ e) :=
  inferInstanceAs (Decidable (fails hooks σ e = true → ¬ Failed hooks σ))

/-- The number of calls of `OnClose` in a run. -/
def closes (tr : List (Signal β φ)) : ℕ := tr.countP isOnClose

/-- The number of calls of `OnClosed` in a run. -/
def closeds (tr : List (Signal β φ)) : ℕ := tr.countP isOnClosed

/-- The number of queued handlers that call `Close`. -/
def pending (hooks : Hooks φ) (x : Session β φ) : ℕ := x.queue.countP (failing hooks)

/-- The number of queued tasks that close the socket. -/
def closeTasks (x : Session β φ) : ℕ := x.queue.countP isCloseTask

variable {expired : Bool} {x y : Session β φ} {h : Handler β φ} {signals tr : List (Signal β φ)}
variable {σ' : Lifetime β φ}

/-! ## What the operations queue -/

/-- A handler that is posted is pending if it is going to fail. -/
@[simp] lemma pending_post :
    pending hooks (x.post h) = pending hooks x + (failing hooks h).toNat := by
  cases hf : failing hooks h <;> simp [pending, Session.post, List.countP_append, hf]

/-- A handler that is posted may be a task that closes the socket. -/
@[simp] lemma closeTasks_post : closeTasks (x.post h) = closeTasks x + (isCloseTask h).toNat := by
  cases hf : isCloseTask h <;> simp [closeTasks, Session.post, List.countP_append, hf]

/-- A read fails at once if the socket is closed. -/
@[simp] lemma pending_asyncRead (op : ReadOp) :
    pending hooks (x.asyncRead op) = pending hooks x + (!x.isOpen).toNat := by
  cases hopen : x.isOpen with
  | true => simp [Session.asyncRead, hopen, pending]
  | false => cases op <;> simp [Session.asyncRead, hopen, ReadOp.handler, failing]

/-- A read posts no task that closes the socket. -/
@[simp] lemma closeTasks_asyncRead (op : ReadOp) : closeTasks (x.asyncRead op) = closeTasks x := by
  cases hopen : x.isOpen with
  | true => simp [Session.asyncRead, hopen, closeTasks]
  | false => cases op <;> simp [Session.asyncRead, hopen, ReadOp.handler, isCloseTask]

/-- The front of `write_bufs_` is transmitted, or its failure is queued. -/
lemma pending_doWrite (hbufs : x.writeBufs ≠ []) :
    pending hooks x.doWrite.1 = pending hooks x + (!x.isOpen).toNat := by
  obtain ⟨buf, rest, hbufs⟩ := List.exists_cons_of_ne_nil hbufs
  cases hopen : x.isOpen with
  | true => simp [Session.doWrite, hbufs, hopen, pending]
  | false => simp [Session.doWrite, hbufs, hopen, failing]

/-- Nor does a write. -/
@[simp] lemma closeTasks_doWrite : closeTasks x.doWrite.1 = closeTasks x := by
  unfold Session.doWrite
  split
  · rfl
  · split
    · rfl
    · simp [isCloseTask]

/-- Arming the timer leaves nothing behind that fails. -/
@[simp] lemma pending_armTimer : pending hooks x.armTimer = pending hooks x := by
  cases harmed : x.timerArmed <;>
    simp [Session.armTimer, Session.stopTimer, harmed, pending, Session.post, failing]

/-- Arming the timer posts no task that closes the socket. -/
@[simp] lemma closeTasks_armTimer : closeTasks x.armTimer = closeTasks x := by
  cases harmed : x.timerArmed <;>
    simp [Session.armTimer, Session.stopTimer, harmed, closeTasks, Session.post, isCloseTask]

/-- `Close` posts nothing that fails. -/
@[simp] lemma pending_close : pending hooks x.close.1 = pending hooks x := by
  cases harmed : x.timerArmed <;>
    simp [Session.close, Session.stopTimer, harmed, pending, Session.post, failing]

/-- `Close` posts one task that closes the socket. -/
@[simp] lemma closeTasks_close : closeTasks x.close.1 = closeTasks x + 1 := by
  cases harmed : x.timerArmed <;>
    simp [Session.close, Session.stopTimer, harmed, closeTasks, Session.post, isCloseTask]

/-- Closing the socket queues nothing but aborted completions. -/
lemma countP_socketClose {p : Handler β φ → Bool}
    (hread : ∀ op, p (ReadOp.handler op .aborted) = false)
    (hwrite : p (.written .aborted) = false) :
    x.socketClose.queue.countP p = x.queue.countP p := by
  have hreads : (x.reading.map fun op => (op.handler .aborted : Handler β φ)).countP p = 0 := by
    rw [List.countP_map]
    simp [hread]
  have hwrites : (x.writing.map fun _ => (.written .aborted : Handler β φ)).countP p = 0 := by
    rw [List.countP_map]
    simp [hwrite]
  simp only [Session.socketClose, List.countP_append, hreads, hwrites, Nat.add_zero]

/-- Closing the socket posts nothing. -/
@[simp] lemma pending_socketClose : pending hooks x.socketClose = pending hooks x :=
  countP_socketClose (fun op => by cases op <;> rfl) rfl

/-- Closing the socket posts no task that closes it. -/
@[simp] lemma closeTasks_socketClose : closeTasks x.socketClose = closeTasks x :=
  countP_socketClose (fun op => by cases op <;> rfl) rfl

/-- **The balance of a handler.** It calls `OnClose` once if it is a failing one or if it fails
by its own doing, unless this leaves another failing handler behind; and every call of `OnClose`
leaves a task behind that calls `OnClosed`.

**Proof sketch.** By cases on the branch of the handler. A branch that fails calls `OnClose` and
posts the task that closes the socket; the task itself calls `OnClosed`. In the others nothing is
called, and what `DoWrite` leaves behind fails exactly if the socket is closed (`pending_doWrite`).
-/
lemma balance_of_handled (hh : Handled hooks expired x h y signals) :
    closes signals + pending hooks y =
        pending hooks x + (failing hooks h).toNat + (failsIn hooks expired x h).toNat ∧
      closeds signals + closeTasks y =
        closeTasks x + (isCloseTask h).toNat + closes signals ∧
      signals.any isOnClosed = isCloseTask h := by
  have hbufs' : ∀ bufs, pending hooks ({ x with writeBufs := bufs } : Session β φ) =
      pending hooks x ∧ closeTasks ({ x with writeBufs := bufs } : Session β φ) = closeTasks x :=
    fun _ => ⟨rfl, rfl⟩
  cases hh with
  | queued hbufs =>
    simp [closes, closeds, failing, failsIn, isCloseTask, hbufs, hbufs']
  | @started buf hbufs =>
    have hwrite : pending hooks ({ x with writeBufs := [buf] } : Session β φ).doWrite.1 = _ :=
      pending_doWrite (by simp)
    simp [closes, closeds, failing, failsIn, isCloseTask, isOnClose, isOnClosed, hbufs, hbufs',
      hwrite]
  | closed =>
    simp [closes, closeds, failing, failsIn, isCloseTask, isOnClose, isOnClosed, Nat.add_comm]
  | readsBody hacc | readsHeader hacc =>
    simp [closes, closeds, failing, failsIn, isCloseTask, isOnClose, isOnClosed, hacc]
  | refuses hacc | rejects hacc =>
    simp [closes, closeds, failing, failsIn, isCloseTask, isOnClose, isOnClosed, hacc, Nat.add_comm]
  | fails hh =>
    rcases hh with rfl | rfl | rfl <;>
      simp [closes, closeds, failing, failsIn, isCloseTask, isOnClose, isOnClosed, Nat.add_comm]
  | aborted hh =>
    rcases hh with rfl | rfl | rfl | rfl <;> simp [closes, closeds, failing, failsIn, isCloseTask]
  | idle hbufs => simp [closes, closeds, failing, failsIn, isCloseTask, hbufs]
  | sentLast hbufs =>
    simp [closes, closeds, failing, failsIn, isCloseTask, isOnClose, isOnClosed, hbufs, hbufs']
  | @sentNext _ buf next rest hbufs =>
    have hwrite : pending hooks
        ({ x with writeBufs := next :: rest } : Session β φ).doWrite.1 = _ :=
      pending_doWrite (by simp)
    simp [closes, closeds, failing, failsIn, isCloseTask, isOnClose, isOnClosed, hbufs, hbufs',
      hwrite]
  | @rearms c hc hexpired =>
    cases c <;> simp [closes, closeds, failing, failsIn, isCloseTask, hexpired]
  | @expires c hc hexpired =>
    cases c <;> simp [closes, closeds, failing, failsIn, isCloseTask, isOnClose, isOnClosed,
      hexpired, Nat.add_comm] at hc ⊢

/-- `OnClosed` is called when the socket has been closed. -/
lemma isOpen_of_handled (hh : Handled hooks expired x h y signals) :
    (!y.isOpen) = (!x.isOpen || signals.any isOnClosed) := by
  cases hh with
  | @started buf =>
    rw [(Session.extends_doWrite (x := { x with writeBufs := [buf] })).isOpen]
    simp [isOnClosed]
  | @sentNext _ buf next rest =>
    rw [(Session.extends_doWrite (x := { x with writeBufs := next :: rest })).isOpen]
    simp [isOnClosed]
  | closed => simp [Session.socketClose, isOnClosed]
  | readsBody | readsHeader =>
    rw [(Session.extends_asyncRead _).isOpen]
    simp [isOnClosed]
  | refuses | rejects | fails =>
    rw [Session.extends_close.isOpen]
    simp [isOnClosed]
  | rearms =>
    rw [Session.extends_armTimer.isOpen]
    simp
  | expires =>
    rw [Session.extends_close.isOpen, Session.extends_armTimer.isOpen]
    simp [isOnClosed]
  | queued | aborted | idle | sentLast => simp [isOnClosed]

/-! ## Runs -/

/-- The next handler is taken from the queue and run. -/
lemma balance_of_run (hrun : σ.session.runHandler hooks expired = some (y, signals)) :
    closes signals + pending hooks y =
        pending hooks σ.session + (fails hooks σ (.run expired)).toNat ∧
      closeds signals + closeTasks y = closeTasks σ.session + closes signals := by
  obtain ⟨h, rest, hqueue, hh⟩ := Session.runHandler_cases hrun
  obtain ⟨hcloses, hcloseds, -⟩ := balance_of_handled hh
  have hpending : pending hooks σ.session =
      pending hooks { σ.session with queue := rest } + (failing hooks h).toNat := by
    cases hf : failing hooks h <;> simp [pending, hqueue, hf]
  have htasks : closeTasks σ.session =
      closeTasks { σ.session with queue := rest } + (isCloseTask h).toNat := by
    cases hf : isCloseTask h <;> simp [closeTasks, hqueue, hf]
  have hfails : fails hooks σ (.run expired) =
      failsIn hooks expired { σ.session with queue := rest } h := by
    simp only [fails, hqueue]
    cases h <;> rfl
  constructor
  · rw [hcloses, hpending, hfails]
  · rw [hcloseds, htasks]

/-- **The balance of a step.** The calls of `OnClose` and the queued handlers that will call it grow
by one with every failure, and in no other way.

**Proof sketch.** By cases on the event. `Close` calls `OnClose` and posts its task. A completion
posts its handler, which is a failing one if the operation failed or its result is refused. `Write`
posts one that does not fail, and a handler that runs is `balance_of_run`. -/
lemma step_balance {e : Event β φ} (hstep : step hooks σ e = some (σ', signals)) :
    closes signals + pending hooks σ'.session =
        pending hooks σ.session + (fails hooks σ e).toNat ∧
      closeds signals + closeTasks σ'.session = closeTasks σ.session + closes signals ∧
      σ'.closed = (σ.closed || signals.any isOnClosed) := by
  cases e with
  | connect =>
    simp only [step] at hstep
    split at hstep
    · cases hstep
    · cases hstep
      have hopen : ({ σ.session with isOpen := true } : Session β φ).armTimer.isOpen = true := by
        simp [Session.armTimer, Session.stopTimer, apply_ite Session.isOpen, Session.post]
      simp only [closes, closeds, fails, List.countP_nil, pending_asyncRead, closeTasks_asyncRead,
        hopen, pending_armTimer, closeTasks_armTimer, List.any_nil, Bool.or_false]
      simp [pending, closeTasks]
  | write buf =>
    cases hstep
    simp [closes, closeds, fails, Session.write, failing, isCloseTask]
  | close =>
    cases hstep
    have hsignals : σ.session.close.2 = [.onClose] := rfl
    simp [closes, closeds, fails, hsignals, isOnClose, isOnClosed, Nat.add_comm]
  | readDone result =>
    obtain ⟨x, hx, heq⟩ := Option.map_eq_some_iff.mp hstep
    cases heq
    obtain ⟨op, ops, hreading, rfl⟩ := Session.completeRead_eq_some hx
    have htask : isCloseTask (op.handler (result.elim .error .ok) : Handler β φ) = false := by
      cases op <;> rfl
    rw [pending_post, closeTasks_post, htask]
    simp [closes, closeds, fails, hreading, pending, closeTasks]
  | writeDone ok =>
    obtain ⟨x, hx, heq⟩ := Option.map_eq_some_iff.mp hstep
    cases heq
    obtain ⟨bufs, rfl⟩ := Session.completeWrite_eq_some hx
    rw [pending_post, closeTasks_post]
    cases ok <;> simp [closes, closeds, fails, failing, isCloseTask, pending, closeTasks]
  | timerDone =>
    obtain ⟨x, hx, heq⟩ := Option.map_eq_some_iff.mp hstep
    cases heq
    obtain rfl := Session.expireTimer_eq_some hx
    rw [pending_post, closeTasks_post]
    simp [closes, closeds, fails, failing, isCloseTask, pending, closeTasks]
  | run expired =>
    obtain ⟨⟨x, xs⟩, hrun, heq⟩ := Option.map_eq_some_iff.mp hstep
    cases heq
    obtain ⟨hcloses, hcloseds⟩ := balance_of_run hrun
    exact ⟨hcloses, hcloseds, rfl⟩

section Runs

variable {connected : Bool} {G : List (Signal β φ) → Lifetime β φ → Event β φ → Prop}

/-- The calls of `OnClose` in a longer trace. -/
@[simp] lemma closes_append {tr' : List (Signal β φ)} :
    closes (tr ++ tr') = closes tr + closes tr' := List.countP_append

/-- The calls of `OnClosed` in a longer trace. -/
@[simp] lemma closeds_append {tr' : List (Signal β φ)} :
    closeds (tr ++ tr') = closeds tr + closeds tr' := List.countP_append

/-- **The balance of a run.** Every call of `OnClose` is followed by one of `OnClosed`, whose task
is queued until then. -/
lemma balance (hrun : (machine hooks connected).Run G tr σ) :
    closes tr = closeds tr + closeTasks σ.session ∧ (σ.closed = true ↔ 0 < closeds tr) := by
  refine hrun.invariant (fun tr σ => closes tr = closeds tr + closeTasks σ.session ∧
    (σ.closed = true ↔ 0 < closeds tr)) ?_ fun tr σ e σ' out _ ih _ hstep => ?_
  · cases connected <;> simp [machine, init, closes, closeds, closeTasks, Session.armTimer,
      Session.stopTimer, Session.asyncRead]
  · obtain ⟨-, hclosed, hflag⟩ := step_balance hstep
    have hany : out.any isOnClosed = true ↔ 0 < closeds out := by
      rw [closeds, List.countP_pos_iff, List.any_eq_true]
    rw [closes_append, closeds_append, hflag, Bool.or_eq_true, ih.2, hany]
    omega

/-- There was a failure already if `OnClose` has been called or is going to be. -/
lemma failed_iff (hrun : (machine hooks connected).Run G tr σ) :
    Failed hooks σ ↔ 0 < closes tr + pending hooks σ.session := by
  obtain ⟨hcloses, hclosed⟩ := balance hrun
  have htasks : 0 < closeTasks σ.session ↔ ∃ h ∈ σ.session.queue, isCloseTask h = true :=
    List.countP_pos_iff
  have hpending : 0 < pending hooks σ.session ↔ ∃ h ∈ σ.session.queue, failing hooks h = true :=
    List.countP_pos_iff
  rw [Failed, hclosed]
  simp only [and_or_left, exists_or, ← htasks, ← hpending]
  omega

/-- A run without a failure after a failure calls `OnClose` once, at most. -/
lemma closes_le_one
    (hrun : (machine hooks connected).Run (fun _ σ e => FailsFirst hooks σ e) tr σ) :
    closes tr + pending hooks σ.session ≤ 1 := by
  refine hrun.invariant (fun tr σ => closes tr + pending hooks σ.session ≤ 1) ?_
    fun tr σ e σ' out hrun ih hg hstep => ?_
  · cases connected <;> simp [machine, init, closes, pending, Session.armTimer,
      Session.stopTimer, Session.asyncRead]
  · obtain ⟨hbalance, -, -⟩ := step_balance hstep
    rw [closes_append]
    cases hfails : fails hooks σ e with
    | false => simp only [hfails, Bool.toNat_false] at hbalance; omega
    | true =>
      have hfirst := hg hfails
      rw [failed_iff hrun] at hfirst
      simp only [hfails, Bool.toNat_true] at hbalance
      omega

/-- A failing handler calls `OnClose`. -/
lemma closes_of_failing (hh : Handled hooks expired x h y signals) :
    (failing hooks h).toNat ≤ closes signals := by
  cases hh with
  | readsBody hacc | readsHeader hacc => simp [failing, hacc]
  | refuses hacc | rejects hacc => simp [failing, closes, isOnClose, hacc]
  | fails hh => rcases hh with rfl | rfl | rfl <;> simp [failing, closes, isOnClose]
  | aborted hh => rcases hh with rfl | rfl | rfl | rfl <;> simp [failing]
  | queued | started | closed | idle | sentLast | sentNext | rearms | expires => simp [failing]

variable (hooks connected) in
/-- **The queue runs dry.** When the handlers that are queued have run, and nothing else has
happened, every failing one of them has called `OnClose`. -/
lemma exec_run (σ : Lifetime β φ) (tr : List (Signal β φ)) (hs more : List (Handler β φ))
    (hqueue : σ.session.queue = hs ++ more) : ∃ tr' σ',
      (machine hooks connected).exec (fun _ _ _ => true) tr σ
        (List.replicate hs.length (.run false)) = some (tr', σ') ∧
      closes tr + hs.countP (failing hooks) ≤ closes tr' := by
  induction hs generalizing σ tr more with
  | nil => exact ⟨tr, σ, rfl, by simp⟩
  | cons h hs ih =>
    rw [List.cons_append] at hqueue
    obtain ⟨⟨y, out⟩, hrun⟩ : ∃ r, σ.session.runHandler hooks false = some r := by
      simp [Session.runHandler, hqueue]
    obtain ⟨h', rest, hqueue', hh⟩ := Session.runHandler_cases hrun
    obtain ⟨rfl, rfl⟩ := List.cons.inj (hqueue.symm.trans hqueue')
    obtain ⟨more', hmore⟩ := hh.advances.queue
    obtain ⟨tr', σ', hexec, hcloses⟩ := ih
      { σ with session := y, closed := σ.closed || out.any isOnClosed } (tr ++ out) (more ++ more')
      (by rw [← List.append_assoc]; exact hmore.symm)
    refine ⟨tr', σ', ?_, ?_⟩
    · simp only [List.length_cons, List.replicate_succ, Machine.exec, machine, step, hrun,
        Option.map_some]
      exact hexec
    · have hfailing := closes_of_failing hh
      rw [closes_append] at hcloses
      cases hf : failing hooks h <;> simp [hf] at hfailing ⊢ <;> omega

/-- **A second failure.** After a failure that comes after another one, `OnClose` has been called
twice when the handlers that are queued have run. -/
lemma close_twice {e : Event β φ} (hrun : (machine hooks connected).Run G tr σ)
    (hfails : fails hooks σ e = true) (hfailed : Failed hooks σ)
    (hstep : step hooks σ e = some (σ', signals)) : ∃ n tr' σ'',
      (machine hooks connected).exec (fun _ _ _ => true) (tr ++ signals) σ'
        (List.replicate n (.run false)) = some (tr', σ'') ∧ 2 ≤ closes tr' := by
  obtain ⟨tr', σ'', hexec, hcloses⟩ := exec_run hooks connected σ' (tr ++ signals)
    σ'.session.queue [] (List.append_nil _).symm
  refine ⟨_, tr', σ'', hexec, ?_⟩
  obtain ⟨hbalance, -, -⟩ := step_balance hstep
  rw [failed_iff hrun] at hfailed
  rw [closes_append] at hcloses
  rw [hfails, Bool.toNat_true] at hbalance
  unfold pending at hbalance hfailed
  omega

end Runs

end Lifetime

end FightingCard
