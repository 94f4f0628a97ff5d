import Mathlib.Algebra.GroupWithZero.Nat
import FightingCard.Common.Session

set_option relaxedAutoImplicit false
set_option autoImplicit false

/-!
# The reads of a connection

A connection seen from its read loop (`DoReadHeader` and `DoReadBody` in `common/session.h`): the
running `async_read`s and their completions in the queue. Everything else that a connection does
leaves them alone, as long as nothing closes the socket; and once no read is running and none has
succeeded, no handler starts one again.

The second part bounds what the handlers of a connection lead to when nothing comes from outside.

## Main definitions

* `FightingCard.Session.reads` — the completed reads in a queue.
* `FightingCard.Session.Quiet`, `FightingCard.Session.Calm`, `FightingCard.Session.Stopped` — a
  step outside of the read loop, a connection that nothing else closes, a read loop that has ended.
* `FightingCard.Session.work` — a bound on the handlers that are still to run.

## Main results

* `FightingCard.Session.Handled.quiet`, `FightingCard.Session.Handled.calm`,
  `FightingCard.Session.Handled.stopped` — what a handler does to the reads.
* `FightingCard.Session.Handled.work_lt` — there is less to do after every handler.
-/

namespace FightingCard

namespace Session

/-! ## Reads in a queue -/

variable {β φ : Type}

/-- The completed reads in a queue. -/
def reads : List (Handler β φ) → List (ReadOp × Completion φ) := List.filterMap fun
  | .readHeader c => some (.header, c)
  | .readBody c => some (.body, c)
  | _ => none

/-- The socket is open, and no handler in the queue is going to close it but those of reads. -/
def Calm (x : Session β φ) : Prop :=
  x.isOpen = true ∧ ∀ h ∈ x.queue, h ≠ .close ∧ h ≠ .written .error

/-- The read loop has ended: no read is running, and none has succeeded. -/
def Stopped (x : Session β φ) : Prop :=
  x.reading = [] ∧ ∀ p ∈ reads x.queue, ∀ f, p.2 ≠ .ok f

variable {x y : Session β φ} {h : Handler β φ} {hooks : Hooks φ} {expired : Bool}
variable {signals : List (Signal β φ)}

/-- The reads of a longer queue. -/
@[simp] lemma reads_append (q r : List (Handler β φ)) : reads (q ++ r) = reads q ++ reads r :=
  List.filterMap_append

/-- The handler of a read is one. -/
lemma reads_handler (op : ReadOp) (c : Completion φ) :
    reads [(op.handler c : Handler β φ)] = [(op, c)] := by
  cases op <;> rfl

/-- What a connection does outside of the read loop: it queues handlers, none of them that of a
read. -/
structure Quiet (x y : Session β φ) : Prop where
  reading : y.reading = x.reading
  reads : reads y.queue = reads x.queue

/-- Doing nothing is quiet. -/
lemma Quiet.refl : Quiet x x := ⟨rfl, rfl⟩

/-- Two quiet changes are one. -/
lemma Quiet.trans {z : Session β φ} (hxy : Quiet x y) (hyz : Quiet y z) : Quiet x z :=
  ⟨hyz.reading.trans hxy.reading, hyz.reads.trans hxy.reads⟩

/-- A quiet change starts no read loop again. -/
lemma Quiet.stopped (h : Quiet x y) (hx : x.Stopped) : y.Stopped :=
  ⟨h.reading.trans hx.1, h.reads ▸ hx.2⟩

/-- Posting a handler that is not that of a read is quiet. -/
lemma quiet_post (h : Handler β φ) (hh : reads [h] = []) : Quiet x (x.post h) :=
  ⟨rfl, by simp [post, hh]⟩

/-- Writing is quiet. -/
lemma quiet_doWrite (bufs : List β) :
    Quiet x ({ x with writeBufs := bufs } : Session β φ).doWrite.1 := by
  unfold doWrite
  split
  · exact ⟨rfl, rfl⟩
  · split
    · exact ⟨rfl, rfl⟩
    · exact ⟨rfl, by simp [post, reads]⟩

/-- Arming the timer is quiet. -/
lemma quiet_armTimer : Quiet x x.armTimer := by
  unfold armTimer stopTimer
  split
  · exact ⟨rfl, by simp [post, reads]⟩
  · exact ⟨rfl, rfl⟩

/-- `Close` is quiet. -/
lemma quiet_close : Quiet x x.close.1 := by
  unfold close stopTimer
  split
  · exact ⟨rfl, by simp [post, reads]⟩
  · exact quiet_post _ rfl

/-- Only the handler of a read and the task that closes the socket have to do with the read
loop. -/
lemma Handled.quiet (hh : Handled hooks expired x h y signals) (hclose : h ≠ .close)
    (hreads : reads [h] = []) : Quiet x y := by
  cases hh with
  | queued | sentLast => exact ⟨rfl, rfl⟩
  | started | sentNext => exact quiet_doWrite _
  | closed => exact absurd rfl hclose
  | readsBody | readsHeader | refuses | rejects => cases hreads
  | fails hh =>
    rcases hh with rfl | rfl | rfl
    · cases hreads
    · cases hreads
    · exact quiet_close
  | aborted | idle => exact .refl
  | rearms => exact quiet_armTimer
  | expires => exact quiet_armTimer.trans quiet_close

/-- Only a body that was read is handed to `OnReadBody`. -/
lemma Handled.readOf_eq_nil (hh : Handled hooks expired x h y signals)
    (hread : ∀ f, h ≠ .readBody (.ok f)) : readOf signals = [] := by
  cases hh with
  | readsHeader | rejects => exact absurd rfl (hread _)
  | _ => rfl

/-- Posting a handler that does not close keeps the connection calm. -/
lemma Calm.post (hx : x.Calm) (hh : h ≠ .close ∧ h ≠ .written .error) : (x.post h).Calm := by
  refine ⟨hx.1, fun g hg => ?_⟩
  rcases List.mem_append.mp hg with hg | hg
  · exact hx.2 g hg
  · exact List.mem_singleton.mp hg ▸ hh

/-- The completion of the running read is queued. -/
lemma reads_completeRead {op : ReadOp} {ops : List ReadOp} {result : Option φ}
    (hreading : x.reading = op :: ops) (hy : x.completeRead result = some y) :
    y.reading = ops ∧ reads y.queue = reads x.queue ++ [(op, result.elim .error .ok)] ∧
      (x.Calm → y.Calm) := by
  obtain ⟨op', ops', hreading', rfl⟩ := completeRead_eq_some hy
  obtain ⟨rfl, rfl⟩ := List.cons.inj (hreading'.symm.trans hreading)
  refine ⟨rfl, ?_, fun hx => ?_⟩
  · simp only [Session.post, reads_append, reads_handler]
  · have hop : op'.handler (result.elim .error .ok) ≠ (.close : Handler β φ) ∧
        op'.handler (result.elim .error .ok) ≠ (.written .error : Handler β φ) := by
      cases op' <;> simp [ReadOp.handler]
    exact Calm.post (x := { x with reading := ops' }) hx hop

/-- A write that succeeds is quiet and keeps the connection calm. -/
lemma quiet_completeWrite (hy : x.completeWrite true = some y) :
    Quiet x y ∧ (x.Calm → y.Calm) := by
  obtain ⟨bufs, rfl⟩ := completeWrite_eq_some hy
  exact ⟨⟨rfl, by simp [Session.post, reads]⟩,
    fun hx => Calm.post (x := { x with writing := bufs }) hx (by simp)⟩

/-- So does an expired timer. -/
lemma quiet_expireTimer (hy : x.expireTimer = some y) : Quiet x y ∧ (x.Calm → y.Calm) := by
  obtain rfl := expireTimer_eq_some hy
  exact ⟨⟨rfl, by simp [Session.post, reads]⟩,
    fun hx => Calm.post (x := { x with timerArmed := false }) hx (by simp)⟩

/-- Writing keeps the connection calm. -/
lemma Calm.doWrite (hx : x.Calm) (bufs : List β) :
    ({ x with writeBufs := bufs } : Session β φ).doWrite.1.Calm := by
  unfold Session.doWrite
  split
  · exact hx
  · split
    · exact hx
    · exact absurd hx.1 ‹_›

/-- Arming the timer keeps the connection calm. -/
lemma Calm.armTimer (hx : x.Calm) : x.armTimer.Calm := by
  unfold Session.armTimer stopTimer
  split
  · exact Calm.post (h := .timer .aborted) hx (by simp)
  · exact hx

/-- A handler that neither closes the connection nor is that of a read keeps it so that nothing
closes it. -/
lemma Handled.calm (hh : Handled hooks false x h y signals) (hx : x.Calm)
    (hclose : h ≠ .close ∧ h ≠ .written .error) (hreads : reads [h] = []) : y.Calm := by
  cases hh with
  | queued | sentLast | aborted | idle => exact hx
  | started | sentNext => exact hx.doWrite _
  | closed => exact absurd rfl hclose.1
  | readsBody | readsHeader | refuses | rejects => cases hreads
  | fails hh =>
    rcases hh with rfl | rfl | rfl
    · cases hreads
    · cases hreads
    · exact absurd rfl hclose.2
  | rearms => exact hx.armTimer
  | expires _ hexpired => cases hexpired

/-- The task that closes the socket ends no successful read. -/
lemma Stopped.socketClose (hx : x.Stopped) : x.socketClose.Stopped := by
  have hwrite : ∀ bufs : List β,
      reads (bufs.map fun _ => (.written .aborted : Handler β φ)) = [] := by
    intro bufs
    induction bufs with
    | nil => rfl
    | cons buf bufs ih => exact ih
  refine ⟨rfl, ?_⟩
  simp only [Session.socketClose, hx.1, List.map_nil, List.append_nil, reads_append, hwrite]
  exact hx.2

/-- Whatever handler runs on a connection whose read loop has ended, no read is started. -/
lemma Handled.stopped (hh : Handled hooks expired x h y signals) (hx : x.Stopped)
    (hreads : ∀ p ∈ reads [h], ∀ f, p.2 ≠ .ok f) : y.Stopped := by
  cases hh with
  | queued | sentLast | aborted | idle => exact hx
  | started | sentNext => exact (quiet_doWrite _).stopped hx
  | closed => exact hx.socketClose
  | readsBody | readsHeader | refuses | rejects => exact absurd rfl (hreads _ (.head _) _)
  | fails => exact quiet_close.stopped hx
  | rearms => exact quiet_armTimer.stopped hx
  | expires => exact (quiet_armTimer.trans quiet_close).stopped hx

/-! ## The work of a connection -/

/-- A bound on the handlers that a handler leads to, itself included. -/
def handlerWork : Handler β φ → ℕ
  | .write _ => 3
  | .close => 1
  | .readHeader (.ok _) | .readBody (.ok _) => 4
  | .written (.ok _) | .timer (.ok _) | .timer .error => 3
  | .readHeader .aborted | .readBody .aborted | .written .aborted | .timer .aborted => 1
  | .readHeader .error | .readBody .error | .written .error => 2

/-- The handlers that the queue and the outstanding operations of a connection lead to. -/
def work (x : Session β φ) : ℕ :=
  (x.queue.map handlerWork).sum + 3 * x.reading.length + x.writing.length + x.timerArmed.toNat

/-- A handler that is posted adds its work. -/
lemma work_post : (x.post h).work = x.work + handlerWork h := by
  simp only [work, post, List.map_append, List.sum_append, List.map_cons, List.map_nil,
    List.sum_cons, List.sum_nil]
  omega

/-- A new read adds at most the work of its failure. -/
lemma work_asyncRead_le (op : ReadOp) : (x.asyncRead op).work ≤ x.work + 3 := by
  unfold asyncRead
  split
  · simp [work]
    omega
  · rw [work_post]
    cases op <;> simp [ReadOp.handler, handlerWork]

/-- A new write adds at most the work of its failure. -/
lemma work_doWrite_le (bufs : List β) :
    ({ x with writeBufs := bufs } : Session β φ).doWrite.1.work ≤ x.work + 2 := by
  unfold doWrite
  split
  · exact Nat.le_add_right _ _
  · split
    · simp [work]
      omega
    · rw [work_post]
      exact Nat.le_refl _

/-- Stopping the timer adds no work. -/
lemma work_stopTimer_le : x.stopTimer.work ≤ x.work := by
  unfold stopTimer
  split
  · rename_i harmed
    rw [work_post]
    simp [work, harmed, handlerWork]
  · exact Nat.le_refl _

/-- Arming the timer adds the work of its wait. -/
lemma work_armTimer_le : x.armTimer.work ≤ x.work + 1 := by
  have hstop := work_stopTimer_le (x := x)
  have hbit := Bool.toNat_le x.stopTimer.timerArmed
  simp only [work, armTimer, Bool.toNat_true] at hstop ⊢
  omega

/-- `Close` adds the work of its task. -/
lemma work_close_le : x.close.1.work ≤ x.work + 1 := by
  rw [close, work_post]
  exact Nat.add_le_add_right work_stopTimer_le _

/-- Closing the socket adds no work. -/
lemma work_socketClose_le : x.socketClose.work ≤ x.work := by
  have hread : ∀ ops : List ReadOp,
      ((ops.map fun op => (op.handler .aborted : Handler β φ)).map handlerWork).sum =
        ops.length := by
    intro ops
    induction ops with
    | nil => rfl
    | cons op ops ih =>
      have hop : handlerWork (op.handler .aborted : Handler β φ) = 1 := by cases op <;> rfl
      rw [List.map_cons, List.map_cons, List.sum_cons, ih, hop, List.length_cons, Nat.add_comm]
  have hwrite : ∀ bufs : List β,
      ((bufs.map fun _ => (.written .aborted : Handler β φ)).map handlerWork).sum =
        bufs.length := by
    intro bufs
    induction bufs with
    | nil => rfl
    | cons buf bufs ih =>
      rw [List.map_cons, List.map_cons, List.sum_cons, ih, List.length_cons, Nat.add_comm]
      rfl
  simp only [work, socketClose, List.map_append, List.sum_append, hread, hwrite, List.length_nil]
  omega

/-- **There is less to do after every handler.** -/
lemma Handled.work_lt (hh : Handled hooks expired x h y signals) :
    y.work < x.work + handlerWork h := by
  have closes : x.close.1.work < x.work + 2 := Nat.lt_succ_of_le work_close_le
  have reads : ∀ op, (x.asyncRead op).work < x.work + 4 := fun op =>
    Nat.lt_succ_of_le (work_asyncRead_le op)
  have starts : ∀ bufs, ({ x with writeBufs := bufs } : Session β φ).doWrite.1.work <
      x.work + 3 := fun bufs => Nat.lt_succ_of_le (work_doWrite_le bufs)
  have arms : x.armTimer.work ≤ x.work + 1 := work_armTimer_le
  cases hh with
  | queued | sentLast | idle => exact Nat.lt_add_of_pos_right (Nat.succ_pos _)
  | started | sentNext => exact starts _
  | closed => exact Nat.lt_succ_of_le work_socketClose_le
  | readsBody | readsHeader => exact reads _
  | refuses | rejects => exact Nat.lt_trans closes (by simp [handlerWork])
  | fails hh => rcases hh with rfl | rfl | rfl <;> exact closes
  | aborted hh => rcases hh with rfl | rfl | rfl | rfl <;> exact Nat.lt_succ_self _
  | @rearms c hc =>
    have hwork : handlerWork (.timer c : Handler β φ) = 3 := by
      cases c <;> first | rfl | exact absurd rfl hc
    omega
  | @expires c hc =>
    have hwork : handlerWork (.timer c : Handler β φ) = 3 := by
      cases c <;> first | rfl | exact absurd rfl hc
    have hclose : x.armTimer.close.1.work ≤ x.armTimer.work + 1 := work_close_le
    omega

/-- The next handler of the queue. -/
lemma work_runHandler_lt (hrun : x.runHandler hooks expired = some (y, signals)) :
    y.work < x.work := by
  obtain ⟨h, rest, hqueue, hcases⟩ := runHandler_cases hrun
  have hlt := hcases.work_lt
  have hsplit : ({ x with queue := rest } : Session β φ).work + handlerWork h = x.work := by
    simp only [work, hqueue, List.map_cons, List.sum_cons]
    omega
  exact Nat.lt_of_lt_of_eq hlt hsplit

/-- The completion of a read leads to its handler. -/
lemma work_completeRead {op : ReadOp} {ops : List ReadOp} {result : Option φ}
    (hreading : x.reading = op :: ops) (hy : x.completeRead result = some y) :
    y.work + 3 = x.work + handlerWork (op.handler (result.elim .error .ok) : Handler β φ) := by
  obtain ⟨op', ops', hreading', rfl⟩ := completeRead_eq_some hy
  obtain ⟨rfl, rfl⟩ := List.cons.inj (hreading'.symm.trans hreading)
  rw [work_post]
  simp only [work, hreading, List.length_cons]
  omega

end Session

end FightingCard
