import FightingCard.Lib.Machine

set_option relaxedAutoImplicit false
set_option autoImplicit false

/-!
# Queues that send one element at a time

A queue whose front is transmitted while the others wait: an element that is pushed into an empty
queue is started at once, and an acknowledgement takes the front off and starts the next one. A
failure stops the queue, since nothing is left that would start the next transmission.

The state counts the running transmissions instead of recording that there is one, so that a
program can be projected to it before anything is known about the program.

## Main definitions

* `SendQueue` — the elements that are not sent yet and the number of running transmissions.
* `SendQueue.machine` — pushes, acknowledgements and failures; a run records what was queued,
  started and sent, and the failures.

## Main results

* `SendQueue.inv_of_run` — in every run the transmissions are started one at a time and in order,
  and none is started after a failure.
-/

/-- The elements of a queue, in order, and the number of running transmissions. -/
structure SendQueue (β : Type*) where
  bufs : List β := []
  running : ℕ := 0

namespace SendQueue

variable {β : Type*}

/-- An element is pushed, a running transmission succeeds or fails. -/
inductive Event (β : Type*) where
  | push (b : β)
  | ack
  | fail

/-- What a run records. -/
inductive Note (β : Type*) where
  | queued (b : β)
  | started (b : β)
  | sent (b : β)
  | failed

/-- One step of the queue. -/
def step (q : SendQueue β) : Event β → Option (SendQueue β × List (Note β))
  | .push b =>
    match q.bufs with
    | [] => some (⟨[b], q.running + 1⟩, [.queued b, .started b])
    | c :: rest => some (⟨c :: rest ++ [b], q.running⟩, [.queued b])
  | .ack =>
    match q.running, q.bufs with
    | 0, _ => none
    | n + 1, [] => some (⟨[], n⟩, [])
    | n + 1, [b] => some (⟨[], n⟩, [.sent b])
    | n + 1, b :: c :: rest => some (⟨c :: rest, n + 1⟩, [.sent b, .started c])
  | .fail =>
    match q.running with
    | 0 => none
    | n + 1 => some (⟨q.bufs, n⟩, [.failed])

/-- The queue as a machine. -/
def machine : Machine (SendQueue β) (Event β) (Note β) := ⟨{}, step⟩

/-! ## What a run records -/

/-- The elements that were queued. -/
def queued : List (Note β) → List β
  | [] => []
  | .queued b :: tr => b :: queued tr
  | _ :: tr => queued tr

/-- The elements whose transmission was started. -/
def started : List (Note β) → List β
  | [] => []
  | .started b :: tr => b :: started tr
  | _ :: tr => started tr

/-- The elements that were sent. -/
def sent : List (Note β) → List β
  | [] => []
  | .sent b :: tr => b :: sent tr
  | _ :: tr => sent tr

/-- No transmission is started after a failure. -/
def QuietAfterFailure (tr : List (Note β)) : Prop :=
  ∀ before after, tr = before ++ .failed :: after → started after = []

variable {tr out : List (Note β)} {q q' : SendQueue β} {e : Event β}

/-- What a longer trace queues. -/
@[simp] lemma queued_append : queued (tr ++ out) = queued tr ++ queued out := by
  induction tr with
  | nil => rfl
  | cons note tr ih => cases note <;> simp [queued, ih]

/-- What a longer trace starts. -/
@[simp] lemma started_append : started (tr ++ out) = started tr ++ started out := by
  induction tr with
  | nil => rfl
  | cons note tr ih => cases note <;> simp [started, ih]

/-- What a longer trace sends. -/
@[simp] lemma sent_append : sent (tr ++ out) = sent tr ++ sent out := by
  induction tr with
  | nil => rfl
  | cons note tr ih => cases note <;> simp [sent, ih]

/-- Before a failure anything may be started. -/
lemma quietAfterFailure_of_notMem (h : .failed ∉ tr) : QuietAfterFailure tr := by
  rintro before after rfl
  exact absurd h (by simp)

/-- A continuation that starts nothing keeps a run quiet. -/
lemma QuietAfterFailure.append (h : QuietAfterFailure tr) (hout : started out = []) :
    QuietAfterFailure (tr ++ out) := by
  intro before after heq
  rcases List.append_eq_append_iff.mp heq with ⟨mid, rfl, hmid⟩ | ⟨mid, rfl, hmid⟩
  · rw [hmid, started_append, List.append_eq_nil_iff] at hout
    simpa [started] using hout.2
  · cases mid with
    | nil =>
      rw [List.nil_append] at hmid
      rw [← hmid] at hout
      simpa [started] using hout
    | cons note mid =>
      rw [List.cons_append, List.cons.injEq] at hmid
      rw [hmid.2, started_append, hout, List.append_nil]
      exact h before mid (by rw [hmid.1])

/-! ## The invariant -/

/-- What holds along every run. Before a failure exactly the front of the queue is being
transmitted; after one nothing is, and the queue is not empty. -/
structure Inv (tr : List (Note β)) (q : SendQueue β) : Prop where
  queued : queued tr = sent tr ++ q.bufs
  started : started tr = sent tr ++ q.bufs.head?.toList
  running : .failed ∉ tr → q.running = q.bufs.head?.toList.length
  stuck : .failed ∈ tr → q.running = 0 ∧ q.bufs ≠ []
  quiet : QuietAfterFailure tr

/-- The invariant holds of the empty queue. -/
lemma inv_init : Inv [] (machine : Machine (SendQueue β) _ _).init :=
  ⟨rfl, rfl, fun _ => rfl, fun h => absurd h (by simp), quietAfterFailure_of_notMem (by simp)⟩

/-- Only before a failure the queue is empty or a transmission is running. -/
lemma Inv.notMem_failed (h : Inv tr q) (hq : q.bufs = [] ∨ q.running ≠ 0) : .failed ∉ tr := by
  intro hmem
  obtain ⟨hrunning, hbufs⟩ := h.stuck hmem
  exact hq.elim hbufs (absurd hrunning)

/-- A step before any failure that is not one itself. -/
lemma inv_of_notMem (hok : .failed ∉ tr)
    (hqueued : SendQueue.queued tr = sent tr ++ q.bufs)
    (hstarted : SendQueue.started tr = sent tr ++ q.bufs.head?.toList)
    (hrunning : q.running = q.bufs.head?.toList.length) : Inv tr q :=
  ⟨hqueued, hstarted, fun _ => hrunning, fun hmem => absurd hmem hok,
    quietAfterFailure_of_notMem hok⟩

/-- **The step lemma.**

**Proof sketch.** By cases on the input and on the queue. A push to an empty queue and an
acknowledgement with more elements in the queue start one transmission, where none is running then.
After a failure, the front element stays where it is, so that nothing is started any more. -/
lemma Inv.step (h : Inv tr q) (hstep : q.step e = some (q', out)) : Inv (tr ++ out) q' := by
  obtain ⟨bufs, running⟩ := q
  have hqueued := h.queued
  have hstarted := h.started
  cases e with
  | push b =>
    cases bufs with
    | nil =>
      cases hstep
      have hok := h.notMem_failed (.inl rfl)
      have hidle := h.running hok
      simp at hqueued hstarted hidle
      apply inv_of_notMem <;>
        simp [hok, hqueued, hstarted, hidle, SendQueue.queued, SendQueue.started, sent]
    | cons c rest =>
      cases hstep
      refine ⟨?_, ?_, fun hok => ?_, fun hmem => ?_, h.quiet.append rfl⟩
      · simp [hqueued, SendQueue.queued, sent]
      · simp [hstarted, SendQueue.started, sent]
      · exact h.running (by simpa using hok)
      · exact ⟨(h.stuck (by simpa using hmem)).1, by simp⟩
  | ack =>
    cases running with
    | zero => cases hstep
    | succ n =>
      have hok := h.notMem_failed (.inr (Nat.succ_ne_zero n))
      have hone := h.running hok
      cases bufs with
      | nil => simp at hone
      | cons b rest =>
        cases rest with
        | nil =>
          cases hstep
          simp at hqueued hstarted hone
          apply inv_of_notMem <;>
            simp [hok, hqueued, hstarted, hone, SendQueue.queued, SendQueue.started, sent]
        | cons c rest =>
          cases hstep
          simp at hqueued hstarted hone
          apply inv_of_notMem <;>
            simp [hok, hqueued, hstarted, hone, SendQueue.queued, SendQueue.started, sent]
  | fail =>
    cases running with
    | zero => cases hstep
    | succ n =>
      cases hstep
      have hok := h.notMem_failed (.inr (Nat.succ_ne_zero n))
      have hone := h.running hok
      refine ⟨?_, ?_, fun hno => absurd hno (by simp), fun _ => ?_, ?_⟩
      · simpa [SendQueue.queued, sent] using hqueued
      · simpa [SendQueue.started, sent] using hstarted
      · cases bufs with
        | nil => simp at hone
        | cons b rest => exact ⟨by simpa using hone, by simp⟩
      · exact (quietAfterFailure_of_notMem hok).append rfl

/-- **One at a time.** In every run what was queued is what was sent followed by what the queue
holds, the transmissions that were started are those of the elements sent and of the front, at most
one is running, and after a failure none is started. -/
theorem inv_of_run (h : machine.Reach tr q) : Inv tr q :=
  h.invariant Inv inv_init fun _ _ _ _ _ _ hinv _ hstep => hinv.step hstep

/-- At most one transmission is running. -/
lemma Inv.running_le (h : Inv tr q) : q.running ≤ 1 := by
  by_cases hfailed : .failed ∈ tr
  · rw [(h.stuck hfailed).1]
    exact Nat.zero_le 1
  · rw [h.running hfailed]
    cases q.bufs <;> simp

/-- The transmissions are started in the order of the queue. -/
lemma Inv.started_prefix (h : Inv tr q) : SendQueue.started tr <+: SendQueue.queued tr := by
  rw [h.queued, h.started]
  apply List.prefix_append_right_inj _ |>.mpr
  cases q.bufs <;> simp

end SendQueue
