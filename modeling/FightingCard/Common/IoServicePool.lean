import Mathlib.Data.Int.CardIntervalMod
import FightingCard.Common.Session

set_option relaxedAutoImplicit false
set_option autoImplicit false

/-!
# The pool of io services

The io services of the process and how they are given out (`common/io_service_pool.cpp`). Every
connection keeps the `io_service` it was made with; connections that have the same one share its
thread and the queue of its handlers.

A connection does not notice with whom it shares the queue: what it does when it runs a handler,
or when one of its operations completes, does not depend on the handlers that are queued already,
and it only puts new ones behind them.

## Main definitions

* `FightingCard.IoServicePool`, `FightingCard.IoServicePool.getIoService` — the pool and
  `GetIoService`.
* `FightingCard.Session.behind` — a connection with other handlers queued before its own.

## Main results

* `FightingCard.IoServicePool.count_turns` — turns taken one after the other are shared evenly.
* `FightingCard.Session.handle_behind` — a handler does not depend on what is queued behind it.
-/

namespace FightingCard

/-! ## Taking turns -/

/-- `IoServicePool`: the number of io services and the counter `next_io_service_`. -/
structure IoServicePool where
  size : ℕ
  nextIoService : ℕ := 0

namespace IoServicePool

/-- `GetIoService()`: the index of the io service, and the pool after the increment of the
counter, which wraps at `2 ^ 64`. A pool without io services has no remainder to take. -/
def getIoService (p : IoServicePool) : Option (IoServicePool × ℕ) :=
  if p.size = 0 then none
  else some ({ p with nextIoService := (p.nextIoService + 1) % 2 ^ 64 }, p.nextIoService % p.size)

/-- The pool after `k` calls of `GetIoService`. -/
def afterTurns (size k : ℕ) : IoServicePool := ⟨size, k % 2 ^ 64⟩

/-- The `k`-th call gets the io service `k % size`, as long as the counter has not wrapped. -/
lemma getIoService_afterTurns {size k : ℕ} (hsize : size ≠ 0) :
    (afterTurns size k).getIoService = some (afterTurns size (k + 1), k % 2 ^ 64 % size) := by
  simp [getIoService, afterTurns, hsize]

/-- **Even shares.** Of `k` turns every io service gets `k / size`, and one more if its turn has
come in the last round. -/
theorem count_turns {size i k : ℕ} (hi : i < size) {turn : ℕ → ℕ}
    (hturn : ∀ s < k, turn s = s % size) :
    Nat.count (fun s => turn s = i) k = k / size + if i < k % size then 1 else 0 := by
  have hcount := Nat.count_modEq_card k (Nat.lt_of_le_of_lt (Nat.zero_le i) hi) i
  rw [Nat.mod_eq_of_lt hi] at hcount
  rw [← hcount, Nat.count_eq_card_filter_range, Nat.count_eq_card_filter_range]
  congr 1
  refine Finset.filter_congr fun s hs => ?_
  rw [hturn s (Finset.mem_range.mp hs), Nat.ModEq, Nat.mod_eq_of_lt hi]

end IoServicePool

/-! ## A queue that is shared -/

namespace Session

variable {β φ : Type} {x : Session β φ} {q : List (Handler β φ)}

/-- The connection with the handlers `q` queued before its own. -/
def behind (x : Session β φ) (q : List (Handler β φ)) : Session β φ :=
  { x with queue := q ++ x.queue }

/-- Posting commutes with handlers in front. -/
@[simp] lemma post_behind {h : Handler β φ} : (x.behind q).post h = (x.post h).behind q := by
  simp [behind, post]

/-- So does `Write`. -/
@[simp] lemma write_behind {buf : β} : (x.behind q).write buf = (x.write buf).behind q :=
  post_behind

/-- So does starting a read. -/
@[simp] lemma asyncRead_behind {op : ReadOp} :
    (x.behind q).asyncRead op = (x.asyncRead op).behind q := by
  unfold asyncRead
  by_cases hopen : x.isOpen = true
  · simp [behind, hopen]
  · simp only [post_behind]
    simp [behind, hopen]

/-- So does stopping the timer. -/
@[simp] lemma stopTimer_behind : (x.behind q).stopTimer = x.stopTimer.behind q := by
  unfold stopTimer
  by_cases harmed : x.timerArmed = true <;> simp [behind, post, harmed]

/-- So does arming the timer. -/
@[simp] lemma armTimer_behind : (x.behind q).armTimer = x.armTimer.behind q := by
  unfold armTimer
  rw [stopTimer_behind]
  rfl

/-- So does `Close`. -/
@[simp] lemma close_behind : (x.behind q).close = (x.close.1.behind q, [.onClose]) := by
  simp [close]

/-- So does closing the socket. -/
@[simp] lemma socketClose_behind : (x.behind q).socketClose = x.socketClose.behind q := by
  simp [socketClose, behind]

/-- So does `DoWrite`. -/
@[simp] lemma doWrite_behind :
    (x.behind q).doWrite = (x.doWrite.1.behind q, x.doWrite.2) := by
  unfold doWrite
  have hbufs : (x.behind q).writeBufs = x.writeBufs := rfl
  have hopen : (x.behind q).isOpen = x.isOpen := rfl
  rw [hbufs, hopen]
  cases x.writeBufs with
  | nil => rfl
  | cons buf rest =>
    dsimp only
    split
    · rfl
    · rw [post_behind]

/-- `write_bufs_` has nothing to do with the queue. -/
lemma behind_writeBufs {bufs : List β} :
    ({ x.behind q with writeBufs := bufs } : Session β φ) =
      ({ x with writeBufs := bufs } : Session β φ).behind q := rfl

/-- **A handler does not depend on what is queued behind it.** The handlers that it queues come
last.

**Proof sketch.** By cases on the handler: what it tests is not in the queue, and all that it posts
goes to the end of the queue, so that each of its operations commutes with handlers in front. -/
theorem handle_behind {hooks : Hooks φ} {expired : Bool} (h : Handler β φ) :
    (x.behind q).handle hooks expired h =
      ((x.handle hooks expired h).1.behind q, (x.handle hooks expired h).2) := by
  cases h with
  | write buf =>
    have hbufs : (x.behind q).writeBufs = x.writeBufs := rfl
    simp only [handle, hbufs, behind_writeBufs, doWrite_behind]
    split <;> rfl
  | close => simp [handle]
  | readHeader c =>
    cases c with
    | ok f =>
      simp only [handle, asyncRead_behind, close_behind]
      split <;> rfl
    | aborted => rfl
    | error => exact close_behind
  | readBody c =>
    cases c with
    | ok f =>
      simp only [handle, asyncRead_behind, close_behind]
      split <;> rfl
    | aborted => rfl
    | error => exact close_behind
  | written c =>
    cases c with
    | ok u =>
      have hbufs : (x.behind q).writeBufs = x.writeBufs := rfl
      simp only [handle, hbufs, behind_writeBufs, doWrite_behind]
      cases x.writeBufs with
      | nil => rfl
      | cons buf rest =>
        dsimp only
        split <;> rfl
    | aborted => rfl
    | error => exact close_behind
  | timer c =>
    cases c with
    | ok u | error =>
      simp only [handle, armTimer_behind, close_behind]
      split <;> rfl
    | aborted => rfl

/-- The io thread runs the front of a queue and leaves the rest of it. -/
lemma runHandler_behind {hooks : Hooks φ} {expired : Bool} {h : Handler β φ} :
    ({ x with queue := h :: q } : Session β φ).runHandler hooks expired =
      (({ x with queue := [h] } : Session β φ).runHandler hooks expired).map fun r =>
        (r.1.behind q, r.2) := by
  have hx : ({ x with queue := q } : Session β φ) =
      ({ x with queue := [] } : Session β φ).behind q := by simp [behind]
  simp only [runHandler, Option.map_some]
  exact congrArg some (by rw [hx]; exact handle_behind h)

/-- A read completes behind other handlers as it does alone. -/
lemma completeRead_behind {result : Option φ} :
    (x.behind q).completeRead result = (x.completeRead result).map fun y => y.behind q := by
  have hreading : (x.behind q).reading = x.reading := rfl
  unfold completeRead
  rw [hreading]
  cases x.reading with
  | nil => rfl
  | cons op ops => exact congrArg some (post_behind (x := { x with reading := ops }))

/-- So does a write. -/
lemma completeWrite_behind {ok : Bool} :
    (x.behind q).completeWrite ok = (x.completeWrite ok).map fun y => y.behind q := by
  have hwriting : (x.behind q).writing = x.writing := rfl
  unfold completeWrite
  rw [hwriting]
  cases x.writing with
  | nil => rfl
  | cons buf bufs => exact congrArg some (post_behind (x := { x with writing := bufs }))

/-- So does a wait. -/
lemma expireTimer_behind :
    (x.behind q).expireTimer = x.expireTimer.map fun y => y.behind q := by
  have harmed : (x.behind q).timerArmed = x.timerArmed := rfl
  unfold expireTimer
  rw [harmed]
  cases x.timerArmed with
  | false => rfl
  | true => exact congrArg some (post_behind (x := { x with timerArmed := false }))

end Session

end FightingCard
