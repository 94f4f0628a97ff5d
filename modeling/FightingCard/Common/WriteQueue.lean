import FightingCard.Common.Session
import FightingCard.Lib.SendQueue

set_option relaxedAutoImplicit false
set_option autoImplicit false

/-!
# The write queue

The frames of a connection wait in `write_bufs_` while the front is transmitted (`Write` and
`DoWrite` in `common/session.h` and `common/pipe.h`, which have the same code). The test for a
running transmission, the push, the pop and the error branch are spread over tasks and completion
handlers. This file runs one connection in any environment: `Write` and `Close` are called at any
time, every operation completes at any time with any result, and the io thread runs the handlers.

Seen from outside, the connection is a `SendQueue`: its front is `write_bufs_.front()`, and a
transmission is running from the call of `async_write` to the run of the completion handler.

## Main definitions

* `FightingCard.Session.writeMachine` — one connection with its environment; a run records what
  its `Write` tasks queued, which frames `async_write` was called for, which were sent, and the
  writes that failed.
* `FightingCard.Session.outstanding` — the number of `async_write`s whose handler has not run.

## Main results

* `FightingCard.Session.sendQueue_of_run` — a run of the connection is a run of a `SendQueue`.
* `FightingCard.Session.write_queue` — one `async_write` at a time, for the front of the queue, in
  order, and none after a failure.
-/

namespace FightingCard

namespace Session

open SendQueue (Note)

variable {β φ : Type}

/-- What can happen next: `Write` or `Close` is called, `async_connect` opens the socket,
`DoReadHeader` is called by the owner, the owner starts its timer, an outstanding read or write
completes with some result, the timer expires, or the io thread runs its next handler. -/
inductive Action (β φ : Type) where
  | write (buf : β)
  | close
  | connect
  | doReadHeader
  | runTimer
  | readDone (result : Option φ)
  | writeDone (c : Completion Unit)
  | timerDone
  | run (expired : Bool)

/-- An outstanding write completes with the given result. -/
def finishWrite (x : Session β φ) (c : Completion Unit) : Option (Session β φ) :=
  match x.writing with
  | [] => none
  | _ :: bufs => some ({ x with writing := bufs }.post (.written c))

/-- What a run records of a handler: the frame that its task queues, or the failure that it is
called with. -/
def noteOf : Handler β φ → List (Note β)
  | .write buf => [.queued buf]
  | .written .aborted | .written .error => [.failed]
  | _ => []

/-- What a run records of the calls that a handler makes. -/
def notesOf : List (Signal β φ) → List (Note β)
  | [] => []
  | .asyncWrite buf :: xs => .started buf :: notesOf xs
  | .sent buf :: xs => .sent buf :: notesOf xs
  | _ :: xs => notesOf xs

/-- One step of a connection in its environment. -/
def writeStep (hooks : Hooks φ) (x : Session β φ) :
    Action β φ → Option (Session β φ × List (Note β))
  | .write buf => some (x.write buf, [])
  | .close => some (x.close.1, [])
  | .connect => some ({ x with isOpen := true }, [])
  | .doReadHeader => some (x.asyncRead .header, [])
  | .runTimer => some (x.armTimer, [])
  | .readDone result => (x.completeRead result).map fun y => (y, [])
  | .writeDone c => (x.finishWrite c).map fun y => (y, [])
  | .timerDone => x.expireTimer.map fun y => (y, [])
  | .run expired =>
    match x.queue with
    | [] => none
    | h :: rest =>
      let (y, signals) := { x with queue := rest }.handle hooks expired h
      some (y, noteOf h ++ notesOf signals)

/-- A connection with its environment; the socket of a `Session` is open from the beginning, that
of a `Pipe` is not. -/
def writeMachine (hooks : Hooks φ) (isOpen : Bool) :
    Machine (Session β φ) (Action β φ) (Note β) :=
  ⟨{ isOpen }, writeStep hooks⟩

/-- The completions of writes in a queue. -/
def completions (q : List (Handler β φ)) : ℕ :=
  q.countP fun
    | .written _ => true
    | _ => false

/-- The number of `async_write`s whose completion handler has not run. -/
def outstanding (x : Session β φ) : ℕ := x.writing.length + completions x.queue

/-- A connection as a queue that sends one frame at a time. -/
def sendQueue (x : Session β φ) : SendQueue β := ⟨x.writeBufs, x.outstanding⟩

/-! ## The connection is a queue that sends one frame at a time -/

variable {x y : Session β φ} {hooks : Hooks φ} {expired : Bool}

/-- The first one of the outstanding writes completes. -/
lemma finishWrite_eq_some {c : Completion Unit} (hy : x.finishWrite c = some y) :
    ∃ buf bufs, x.writing = buf :: bufs ∧
      y = ({ x with writing := bufs } : Session β φ).post (.written c) := by
  unfold finishWrite at hy
  split at hy
  · cases hy
  · exact ⟨_, _, ‹_›, (Option.some.inj hy).symm⟩

/-- The completions in a longer queue. -/
@[simp] lemma completions_append (q r : List (Handler β φ)) :
    completions (q ++ r) = completions q + completions r := List.countP_append

/-- A new read has nothing to do with the send queue. -/
@[simp] lemma sendQueue_asyncRead (op : ReadOp) : (x.asyncRead op).sendQueue = x.sendQueue := by
  unfold asyncRead
  cases op <;> split <;> simp [sendQueue, outstanding, post, completions, ReadOp.handler]

/-- Nor has stopping the timer. -/
@[simp] lemma sendQueue_stopTimer : x.stopTimer.sendQueue = x.sendQueue := by
  unfold stopTimer
  split <;> simp [sendQueue, outstanding, post, completions]

/-- Nor has arming the timer. -/
@[simp] lemma sendQueue_armTimer : x.armTimer.sendQueue = x.sendQueue := sendQueue_stopTimer

/-- Nor has `Close`. -/
@[simp] lemma sendQueue_close : x.close.1.sendQueue = x.sendQueue := by
  rw [← sendQueue_stopTimer (x := x)]
  simp [close, sendQueue, outstanding, post, completions]

/-- Closing the socket turns every running transmission into a completion. -/
@[simp] lemma sendQueue_socketClose : x.socketClose.sendQueue = x.sendQueue := by
  have hread : ∀ ops : List ReadOp,
      completions (ops.map fun op => (op.handler .aborted : Handler β φ)) = 0 := by
    intro ops
    induction ops with
    | nil => rfl
    | cons op ops ih => cases op <;> simpa [completions, ReadOp.handler] using ih
  have hwrite : ∀ bufs : List β,
      completions (bufs.map fun _ => (.written .aborted : Handler β φ)) = bufs.length := by
    intro bufs
    induction bufs with
    | nil => rfl
    | cons buf bufs ih => simpa [completions] using ih
  simp only [sendQueue, outstanding, socketClose, completions_append, hread, hwrite,
    List.length_nil, SendQueue.mk.injEq, true_and]
  omega

/-- `DoWrite` starts one more transmission. -/
lemma sendQueue_doWrite {buf : β} {rest : List β} (h : x.writeBufs = buf :: rest) :
    x.doWrite.1.sendQueue = ⟨buf :: rest, x.outstanding + 1⟩ := by
  unfold doWrite
  rw [h]
  cases hopen : x.isOpen <;> simp [sendQueue, outstanding, post, completions, h] <;> omega

/-- The step of the queue that a handler makes. -/
def queueEvent : Handler β φ → Option (SendQueue.Event β)
  | .write buf => some (.push buf)
  | .written (.ok _) => some .ack
  | .written _ => some .fail
  | _ => none

/-- What a handler makes of a connection seen as a queue: it takes the step of the queue, if it
has one, and leaves the queue as it is otherwise. -/
def Simulates (x : Session β φ) (h : Handler β φ) (y : Session β φ) (notes : List (Note β)) :
    Prop :=
  let before := sendQueue { x with queue := h :: x.queue }
  match queueEvent h with
  | some e => SendQueue.step before e = some (y.sendQueue, notes)
  | none => y.sendQueue = before ∧ notes = []

/-- A handler that closes the connection, or does nothing, leaves the queue as it is. -/
lemma Simulates.quiet {h : Handler β φ} {signals : List (Signal β φ)} (hevent : queueEvent h = none)
    (hnote : noteOf h = []) (hy : y.sendQueue = x.sendQueue) (hsig : notesOf signals = []) :
    Simulates x h y (noteOf h ++ notesOf signals) := by
  have hin : sendQueue { x with queue := h :: x.queue } = x.sendQueue := by
    cases h with
    | written c => cases c <;> cases hevent
    | _ => simp [sendQueue, outstanding, completions]
  simp only [Simulates, hevent, hnote, hsig, hin]
  exact ⟨hy, rfl⟩

/-- A `Write` task is a push. -/
lemma simulates_write {buf : β} {signals : List (Signal β φ)}
    (h : SendQueue.step ⟨x.writeBufs, x.outstanding⟩ (.push buf) =
      some (y.sendQueue, .queued buf :: notesOf signals)) :
    Simulates x (.write buf) y (noteOf (.write buf : Handler β φ) ++ notesOf signals) := by
  have hin : sendQueue { x with queue := .write buf :: x.queue } =
      ⟨x.writeBufs, x.outstanding⟩ := by
    simp [sendQueue, outstanding, completions]
  simp only [Simulates, queueEvent, hin]
  exact h

/-- A completion is an acknowledgement. -/
lemma simulates_written {u : Unit} {signals : List (Signal β φ)}
    (h : SendQueue.step ⟨x.writeBufs, x.outstanding + 1⟩ .ack =
      some (y.sendQueue, notesOf signals)) :
    Simulates x (.written (.ok u)) y
      (noteOf (.written (.ok u) : Handler β φ) ++ notesOf signals) := by
  have hin : sendQueue { x with queue := .written (.ok u) :: x.queue } =
      ⟨x.writeBufs, x.outstanding + 1⟩ := by
    simp [sendQueue, outstanding, completions, Nat.add_assoc]
  simp only [Simulates, queueEvent, hin]
  exact h

/-- A write that failed is a failure of the queue. -/
lemma simulates_fail {c : Completion Unit} {signals : List (Signal β φ)}
    (hc : c = .aborted ∨ c = .error) (hy : y.sendQueue = x.sendQueue)
    (hsig : notesOf signals = []) :
    Simulates x (.written c) y (noteOf (.written c : Handler β φ) ++ notesOf signals) := by
  have hin : sendQueue { x with queue := .written c :: x.queue } =
      ⟨x.writeBufs, x.outstanding + 1⟩ := by
    simp [sendQueue, outstanding, completions, Nat.add_assoc]
  rcases hc with rfl | rfl <;>
    simp only [Simulates, queueEvent, hin, hy, hsig] <;> rfl

/-- **A handler is a step of the queue.**

**Proof sketch.** By cases on the branch of the handler. A `Write` task is a push, a completion an
acknowledgement, and a failed completion a failure of the queue. The other handlers touch neither
`write_bufs_` nor the writes that are outstanding. -/
theorem Handled.simulates {h : Handler β φ} {signals : List (Signal β φ)}
    (hh : Handled hooks expired x h y signals) :
    Simulates x h y (noteOf h ++ notesOf signals) := by
  cases hh with
  | queued hbufs =>
    apply simulates_write
    obtain ⟨b, rest, hbufs⟩ := List.exists_cons_of_ne_nil hbufs
    simp [sendQueue, SendQueue.step, outstanding, hbufs, notesOf]
  | @started buf hbufs =>
    apply simulates_write
    simp [sendQueue_doWrite (x := { x with writeBufs := [buf] }) rfl, SendQueue.step, hbufs,
      outstanding, notesOf]
  | closed => exact .quiet rfl rfl sendQueue_socketClose rfl
  | readsBody | readsHeader => exact .quiet rfl rfl (sendQueue_asyncRead _) rfl
  | refuses | rejects => exact .quiet rfl rfl sendQueue_close rfl
  | fails hh =>
    rcases hh with rfl | rfl | rfl
    · exact .quiet rfl rfl sendQueue_close rfl
    · exact .quiet rfl rfl sendQueue_close rfl
    · exact simulates_fail (.inr rfl) sendQueue_close rfl
  | aborted hh =>
    rcases hh with rfl | rfl | rfl | rfl
    · exact .quiet rfl rfl rfl rfl
    · exact .quiet rfl rfl rfl rfl
    · exact simulates_fail (.inl rfl) rfl rfl
    · exact .quiet rfl rfl rfl rfl
  | idle hbufs =>
    apply simulates_written
    simp [sendQueue, SendQueue.step, hbufs, notesOf]
  | sentLast hbufs =>
    apply simulates_written
    simp [sendQueue, SendQueue.step, outstanding, hbufs, notesOf]
  | @sentNext _ buf next rest hbufs =>
    apply simulates_written
    simp [sendQueue_doWrite (x := { x with writeBufs := next :: rest }) rfl, SendQueue.step, hbufs,
      outstanding, notesOf]
  | rearms => exact .quiet rfl rfl sendQueue_armTimer rfl
  | expires => exact .quiet rfl rfl (sendQueue_close.trans sendQueue_armTimer) rfl

/-! ## Runs -/

/-- **What a step does to the queue.** The environment leaves it as it is, and so does a handler
that has no step of the queue.

**Proof sketch.** By cases on the action. The end of a write turns a running transmission into a
completion in the queue, which counts the same. Only a handler that runs can be a step of the queue
(`Handled.simulates`). -/
lemma writeStep_cases {a : Action β φ} {notes : List (Note β)}
    (h : writeStep hooks x a = some (y, notes)) : (y.sendQueue = x.sendQueue ∧ notes = []) ∨
      ∃ e, SendQueue.step x.sendQueue e = some (y.sendQueue, notes) := by
  cases a with
  | write buf =>
    cases h
    exact .inl ⟨by simp [sendQueue, outstanding, Session.write, post, completions], rfl⟩
  | close =>
    cases h
    exact .inl ⟨sendQueue_close, rfl⟩
  | connect =>
    cases h
    exact .inl ⟨rfl, rfl⟩
  | doReadHeader =>
    cases h
    exact .inl ⟨sendQueue_asyncRead _, rfl⟩
  | runTimer =>
    cases h
    exact .inl ⟨sendQueue_armTimer, rfl⟩
  | readDone result =>
    obtain ⟨z, hz, heq⟩ := Option.map_eq_some_iff.mp h
    cases heq
    refine .inl ⟨?_, rfl⟩
    obtain ⟨op, ops, -, rfl⟩ := completeRead_eq_some hz
    cases op <;> cases result <;>
      simp [sendQueue, outstanding, post, completions, ReadOp.handler]
  | writeDone c =>
    obtain ⟨z, hz, heq⟩ := Option.map_eq_some_iff.mp h
    cases heq
    refine .inl ⟨?_, rfl⟩
    obtain ⟨buf, bufs, hwriting, rfl⟩ := finishWrite_eq_some hz
    simp [sendQueue, outstanding, post, completions, hwriting]
    omega
  | timerDone =>
    obtain ⟨z, hz, heq⟩ := Option.map_eq_some_iff.mp h
    cases heq
    refine .inl ⟨?_, rfl⟩
    obtain rfl := expireTimer_eq_some hz
    simp [sendQueue, outstanding, post, completions]
  | run expired =>
    simp only [writeStep] at h
    split at h
    · cases h
    · rename_i h' rest hqueue
      cases h
      have hin : sendQueue { { x with queue := rest } with queue := h' :: rest } = x.sendQueue := by
        simp [sendQueue, outstanding, hqueue]
      have hsim : Simulates { x with queue := rest } h'
          ({ x with queue := rest }.handle hooks expired h').1
          (noteOf h' ++ notesOf ({ x with queue := rest }.handle hooks expired h').2) :=
        (handle_cases h').simulates
      simp only [Simulates, hin] at hsim
      cases hevent : queueEvent h' with
      | none =>
        rw [hevent] at hsim
        exact .inl hsim
      | some e =>
        rw [hevent] at hsim
        exact .inr ⟨e, hsim⟩

variable {isOpen : Bool} {tr : List (Note β)}

/-- **Refinement.** A run of a connection in any environment is a run of a queue that sends one
frame at a time, with the same record. -/
theorem sendQueue_of_run (h : (writeMachine hooks isOpen : Machine (Session β φ) _ _).Reach tr x) :
    SendQueue.machine.Reach tr x.sendQueue := by
  have hrun := h.simulate (N := SendQueue.machine) (H := fun _ _ _ => True) sendQueue some rfl
    (fun tr x a y notes _ _ hstep => ?_)
  · simpa using hrun
  · rcases writeStep_cases hstep with ⟨hy, hnotes⟩ | ⟨e, he⟩
    · exact .inl ⟨hy, by simp [hnotes]⟩
    · exact .inr ⟨e, trivial, by rwa [List.filterMap_some]⟩

/-! ## The frame that is being sent -/

/-- What a step does to the running transmissions: it leaves some of them and at most adds a frame
to the end of `write_bufs_`, or it starts one of the front, or the last one had completed. -/
inductive Transmits (x y : Session β φ) : Prop
  | keeps (hwriting : y.writing ⊆ x.writing) (hbufs : x.writeBufs <+: y.writeBufs) : Transmits x y
  | starts {buf} (hwriting : y.writing = x.writing ++ [buf])
      (hfront : y.writeBufs.head? = some buf) : Transmits x y
  | completed (hwriting : y.writing = x.writing) (hcount : 1 ≤ completions x.queue) : Transmits x y

/-- Where neither the transmissions nor `write_bufs_` change, all is in order. -/
lemma Transmits.of_eq (hwriting : y.writing = x.writing) (hbufs : y.writeBufs = x.writeBufs) :
    Transmits x y :=
  .keeps (hwriting ▸ List.Subset.refl _) (hbufs ▸ List.prefix_rfl)

/-- A new read starts no transmission. -/
@[simp] lemma writing_asyncRead (op : ReadOp) : (x.asyncRead op).writing = x.writing := by
  unfold asyncRead
  split <;> rfl

/-- Nor does arming the timer. -/
@[simp] lemma writing_armTimer : x.armTimer.writing = x.writing := by
  unfold armTimer stopTimer
  split <;> rfl

/-- Nor does `Close`. -/
@[simp] lemma writing_close : x.close.1.writing = x.writing := by
  unfold close stopTimer
  split <;> rfl

/-- The front is transmitted, or its failure is queued. -/
lemma doWrite_writing {buf : β} {rest : List β} (h : x.writeBufs = buf :: rest) :
    x.doWrite.1.writeBufs = buf :: rest ∧
      (x.doWrite.1.writing = x.writing ∨ x.doWrite.1.writing = x.writing ++ [buf]) := by
  unfold doWrite
  rw [h]
  cases hopen : x.isOpen <;> simp [post, h]

/-- A handler and the running transmissions. -/
lemma Handled.transmits {h : Handler β φ} {signals : List (Signal β φ)}
    (hh : Handled hooks expired x h y signals) : Transmits { x with queue := h :: x.queue } y := by
  have hclose : Transmits { x with queue := h :: x.queue } x.close.1 :=
    .of_eq writing_close extends_close.writeBufs
  cases hh with
  | queued => exact .keeps (List.Subset.refl _) (List.prefix_append _ _)
  | @started buf hbufs =>
    obtain ⟨hkept, hwriting⟩ := doWrite_writing (x := { x with writeBufs := [buf] }) rfl
    rcases hwriting with hwriting | hwriting
    · exact .keeps (by simp [hwriting]) (by simp [hbufs])
    · exact .starts (by simpa using hwriting) (by simp [hkept])
  | closed => exact .keeps (by simp [socketClose]) (by simp [socketClose])
  | readsBody | readsHeader =>
    exact .of_eq (writing_asyncRead _) (extends_asyncRead _).writeBufs
  | refuses | rejects | fails => exact hclose
  | aborted => exact .of_eq rfl rfl
  | idle | sentLast => exact .completed rfl (by simp [completions])
  | @sentNext _ buf next rest hbufs =>
    obtain ⟨hkept, hwriting⟩ := doWrite_writing (x := { x with writeBufs := next :: rest }) rfl
    rcases hwriting with hwriting | hwriting
    · exact .completed (by simpa using hwriting) (by simp [completions])
    · exact .starts (by simpa using hwriting) (by simp [hkept])
  | rearms => exact .of_eq writing_armTimer extends_armTimer.writeBufs
  | expires =>
    exact .of_eq (writing_close.trans writing_armTimer)
      (extends_armTimer.trans extends_close).writeBufs

/-- A step and the running transmissions.

**Proof sketch.** By cases on the action. Only the end of a write takes a transmission away, and
only a handler that runs starts one (`Handled.transmits`). -/
lemma writeStep_transmits {a : Action β φ} {notes : List (Note β)}
    (h : writeStep hooks x a = some (y, notes)) : Transmits x y := by
  cases a with
  | write buf | connect =>
    cases h
    exact .of_eq rfl rfl
  | close =>
    cases h
    exact .of_eq writing_close extends_close.writeBufs
  | doReadHeader =>
    cases h
    exact .of_eq (writing_asyncRead _) (extends_asyncRead _).writeBufs
  | runTimer =>
    cases h
    exact .of_eq writing_armTimer extends_armTimer.writeBufs
  | readDone result =>
    obtain ⟨z, hz, heq⟩ := Option.map_eq_some_iff.mp h
    cases heq
    obtain ⟨op, ops, -, rfl⟩ := completeRead_eq_some hz
    exact .of_eq rfl rfl
  | writeDone c =>
    obtain ⟨z, hz, heq⟩ := Option.map_eq_some_iff.mp h
    cases heq
    obtain ⟨buf, bufs, hwriting, rfl⟩ := finishWrite_eq_some hz
    exact .keeps (by simp [hwriting, post]) (List.prefix_refl _)
  | timerDone =>
    obtain ⟨z, hz, heq⟩ := Option.map_eq_some_iff.mp h
    cases heq
    obtain rfl := expireTimer_eq_some hz
    exact .of_eq rfl rfl
  | run expired =>
    simp only [writeStep] at h
    split at h
    · cases h
    · rename_i h' rest hqueue
      cases h
      have hx : { { x with queue := rest } with queue := h' :: rest } = x := by rw [← hqueue]
      have ht : Transmits { { x with queue := rest } with queue := h' :: rest }
          ({ x with queue := rest }.handle hooks expired h').1 := (handle_cases h').transmits
      exact hx ▸ ht

/-- The frame whose `async_write` is running is the front of `write_bufs_`. -/
lemma front_of_run (h : (writeMachine hooks isOpen : Machine (Session β φ) _ _).Reach tr x) :
    ∀ buf ∈ x.writing, x.writeBufs.head? = some buf := by
  refine h.invariant (fun _ x => ∀ buf ∈ x.writing, x.writeBufs.head? = some buf)
    (fun buf hbuf => absurd hbuf (by simp [writeMachine])) ?_
  intro tr x a y notes hrun hfront _ hstep buf hbuf
  have hone := (SendQueue.inv_of_run (sendQueue_of_run hrun)).running_le
  have hone' := (SendQueue.inv_of_run (sendQueue_of_run (hrun.snoc trivial hstep))).running_le
  simp only [sendQueue, outstanding] at hone hone'
  cases writeStep_transmits hstep with
  | keeps hwriting hbufs =>
    obtain ⟨more, hmore⟩ := hbufs
    have hx := hfront buf (hwriting hbuf)
    rw [← hmore, List.head?_append, hx, Option.some_or]
  | starts hwriting hhead =>
    rw [hwriting, List.length_append, List.length_singleton] at hone'
    have hnil : x.writing = [] := List.length_eq_zero_iff.mp (by omega)
    rw [hwriting, hnil, List.nil_append, List.mem_singleton] at hbuf
    rw [hhead, hbuf]
  | completed hwriting hcount =>
    have hnil : x.writing = [] := List.length_eq_zero_iff.mp (by omega)
    rw [hwriting, hnil] at hbuf
    exact absurd hbuf List.not_mem_nil

open SendQueue (queued started sent) in
/-- **The write queue.** In every run, at most one `async_write` is outstanding and it is for the
front of `write_bufs_`; the frames for which one was started are a prefix of the frames that the
`Write` tasks queued; the frames that were sent followed by `write_bufs_` are all of these; and
after a write has failed none is started.

**Proof sketch.** A run of the connection is a run of a queue that sends one frame at a time
(`sendQueue_of_run`), which has the invariant `SendQueue.Inv`. With at most one transmission
running, the running one is that of the front (`front_of_run`). -/
theorem write_queue (hooks : Hooks φ) (isOpen : Bool) {tr : List (Note β)} {x : Session β φ}
    (h : (writeMachine hooks isOpen : Machine (Session β φ) _ _).Reach tr x) :
    x.outstanding ≤ 1 ∧ (∀ buf ∈ x.writing, x.writeBufs.head? = some buf) ∧
      started tr = sent tr ++ x.writeBufs.head?.toList ∧ started tr <+: queued tr ∧
      sent tr ++ x.writeBufs = queued tr ∧
      ∀ before after, tr = before ++ .failed :: after → started after = [] := by
  have hinv := SendQueue.inv_of_run (sendQueue_of_run h)
  exact ⟨hinv.running_le, front_of_run h, hinv.started, hinv.started_prefix, hinv.queued.symm,
    hinv.quiet⟩

/-- Two frames are written and the first one is sent: the second one is started then. -/
theorem write_queue_two : ∃ (tr : List (Note ℕ)) (x : Session ℕ Unit),
    SendQueue.started tr = [1, 2] ∧ SendQueue.sent tr = [1] ∧ x.outstanding ≤ 1 := by
  obtain ⟨r, hr⟩ : ∃ r, (writeMachine ⟨fun _ => true, fun _ => true⟩ true).exec
      (fun _ _ _ => true) [] { isOpen := true }
      [.write 1, .write 2, .run false, .run false, .writeDone (.ok ()), .run false] = some r :=
    ⟨_, rfl⟩
  have hrun := Machine.run_of_exec (G := fun _ _ _ => True) (fun _ _ _ _ => trivial) hr
  refine ⟨r.1, r.2, ?_, ?_, (write_queue _ _ hrun).1⟩ <;> cases hr <;> rfl

end Session

end FightingCard
