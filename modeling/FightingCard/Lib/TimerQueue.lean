import Mathlib.Data.List.Basic

set_option relaxedAutoImplicit false
set_option autoImplicit false

/-!
# Timer queues

The timers of an event loop. A wait is *armed* on a timer with a handler of its own. The wait ends
when the timer expires or when it is cancelled; its handler is then *ready*, with the result of the
wait, until the loop takes it. A timer may have several waits, and they all end together. A wait
that has ended is not affected by a later cancellation.

The expiries of a queue are numbered, and a ready handler carries the number of the expiry that
ended its wait. When an armed wait expires and in which order ready handlers are taken is left
open.

## Main definitions

* `TimerQueue` — the armed waits and the ready handlers, over the timers `κ` and the handlers `α`.
* `TimerQueue.cancel`, `TimerQueue.asyncWait`, `TimerQueue.expire`, `TimerQueue.take` — its steps.
* `TimerQueue.Quiet` — no wait is armed and no expiry is to be handled.
* `TimerQueue.Live` — a wait of the timer is armed, or an expiry of it is to be handled.

## Main results

* `TimerQueue.armedOn_cancel`, `TimerQueue.armedOn_asyncWait`, `TimerQueue.armedOn_expire_le` — the
  number of waits that are armed on a timer.
* `TimerQueue.pending_expire`, `TimerQueue.pending_take` — the number of ready handlers that an
  expiry has left.
* `TimerQueue.quiet_cancelAll_iff` — when a queue is quiet after every armed wait was cancelled.
* `TimerQueue.Live.expire`, `TimerQueue.Live.take` — what becomes of a live timer.
-/

/-- How a wait ended: with the `n`th expiry of the queue, or by a cancellation. -/
inductive WaitResult where
  | expired (n : ℕ)
  | aborted
  deriving DecidableEq

/-- A wait on a timer, with the handler that is called when it ends. -/
structure Wait (κ α : Type*) where
  timer : κ
  handler : α
  deriving DecidableEq

/-- The armed waits of a set of timers, the handlers of the waits that have ended, and the number of
expiries so far. -/
structure TimerQueue (κ α : Type*) where
  armed : List (Wait κ α) := []
  ready : List (Wait κ α × WaitResult) := []
  expiries : ℕ := 0

namespace TimerQueue

variable {κ α : Type*} [DecidableEq κ]

/-- The wait is one of the timer `k`. -/
def isOn (k : κ) (w : Wait κ α) : Bool := w.timer = k

/-- The handler was made ready by the expiry `n`. -/
def isExpiry (n : ℕ) (r : Wait κ α × WaitResult) : Bool := r.2 = .expired n

variable (q : TimerQueue κ α)

/-- The waits of the timer `k` end with `result`. -/
def finish (k : κ) (result : WaitResult) : TimerQueue κ α :=
  { q with
    armed := q.armed.filter fun w => !isOn k w
    ready := q.ready ++ (q.armed.filter (isOn k)).map fun w => (w, result) }

/-- The armed waits of the timer `k` are cancelled. -/
def cancel (k : κ) : TimerQueue κ α := q.finish k .aborted

/-- The armed waits of the timers `ks` are cancelled, one timer after the other. -/
def cancelAll (ks : List κ) : TimerQueue κ α := ks.foldl cancel q

/-- A wait is armed. -/
def asyncWait (w : Wait κ α) : TimerQueue κ α := { q with armed := q.armed ++ [w] }

/-- The timer `k` expires, if a wait is armed on it. -/
def expire (k : κ) : Option (TimerQueue κ α) :=
  if q.armed.any (isOn k) then
    some { q.finish k (.expired q.expiries) with expiries := q.expiries + 1 }
  else none

/-- The loop takes the ready handler at the place `i`. -/
def take (i : ℕ) : Option ((Wait κ α × WaitResult) × TimerQueue κ α) :=
  q.ready[i]?.map fun r => (r, { q with ready := q.ready.eraseIdx i })

/-- The number of waits that are armed on the timer `k`. -/
def armedOn (k : κ) : ℕ := q.armed.countP (isOn k)

/-- The number of ready handlers that the expiry `n` has left. -/
def pending (n : ℕ) : ℕ := q.ready.countP (isExpiry n)

/-- Every wait, armed or ended, has the property `P`. -/
def All (P : Wait κ α → Prop) : Prop := (∀ w ∈ q.armed, P w) ∧ ∀ r ∈ q.ready, P r.1

/-- No wait is armed, and the waits that have ended were all cancelled. -/
def Quiet : Prop := q.armed = [] ∧ ∀ r ∈ q.ready, r.2 = .aborted

variable {q} {q' : TimerQueue κ α} {k j : κ} {w : Wait κ α} {r : Wait κ α × WaitResult}
variable {result : WaitResult} {n i : ℕ}

/-! ## Armed waits -/

/-- Finishing the waits of a timer disarms it and no other one. -/
lemma armedOn_finish : (q.finish j result).armedOn k = if k = j then 0 else q.armedOn k := by
  simp only [armedOn, finish, List.countP_filter]
  split
  · subst k
    simp [isOn]
  · refine List.countP_congr fun w _ => ?_
    simp only [isOn, Bool.and_eq_true, decide_eq_true_eq, Bool.not_eq_true',
      decide_eq_false_iff_not]
    constructor
    · exact fun h => h.1
    · rintro rfl
      exact ⟨rfl, ‹_›⟩

/-- A cancelled timer has no armed waits, and the other timers keep theirs. -/
@[simp] lemma armedOn_cancel : (q.cancel j).armedOn k = if k = j then 0 else q.armedOn k :=
  armedOn_finish

/-- A new wait arms its timer once more. -/
@[simp] lemma armedOn_asyncWait :
    (q.asyncWait w).armedOn k = q.armedOn k + if w.timer = k then 1 else 0 := by
  by_cases h : w.timer = k <;> simp [armedOn, asyncWait, isOn, h, List.countP_append]

/-- Cancelling takes away the waits of the cancelled timers. -/
lemma armed_cancelAll (ks : List κ) :
    (q.cancelAll ks).armed = q.armed.filter fun w => w.timer ∉ ks := by
  induction ks generalizing q with
  | nil => simp [cancelAll]
  | cons k ks ih =>
    refine (ih (q := q.cancel k)).trans ?_
    simp only [TimerQueue.cancel, finish, List.filter_filter]
    refine List.filter_congr fun w _ => ?_
    simp [isOn, Bool.and_comm]

/-- Cancellations disarm. -/
lemma armedOn_cancelAll_le (ks : List κ) : (q.cancelAll ks).armedOn k ≤ q.armedOn k := by
  rw [armedOn, armed_cancelAll]
  exact List.Sublist.countP_le List.filter_sublist

/-- An expiry disarms. -/
lemma armedOn_expire_le (h : q.expire j = some q') : q'.armedOn k ≤ q.armedOn k := by
  unfold expire at h
  split at h
  · cases h
    change (q.finish j (.expired q.expiries)).armedOn k ≤ _
    rw [armedOn_finish]
    split <;> simp
  · cases h

omit [DecidableEq κ] in
/-- A handler is taken from its place. -/
lemma take_eq_some (h : q.take i = some (r, q')) :
    q.ready[i]? = some r ∧ q' = { q with ready := q.ready.eraseIdx i } := by
  obtain ⟨r', hr, heq⟩ := Option.map_eq_some_iff.mp h
  cases heq
  exact ⟨hr, rfl⟩

/-! ## Ready handlers -/

/-- Finishing with an expiry makes handlers of that expiry pending, one for each wait. -/
lemma pending_finish : (q.finish j result).pending n =
    q.pending n + if result = .expired n then q.armedOn j else 0 := by
  simp only [pending, finish, List.countP_append, List.countP_map, armedOn]
  by_cases h : result = .expired n <;>
    simp [isExpiry, h, Function.comp_def, List.countP_eq_length_filter]

/-- A cancellation is no expiry. -/
@[simp] lemma pending_cancel : (q.cancel j).pending n = q.pending n := by
  simp [cancel, pending_finish]

omit [DecidableEq κ] in
/-- A new wait makes no handler pending. -/
@[simp] lemma pending_asyncWait : (q.asyncWait w).pending n = q.pending n := rfl

/-- An expiry leaves the handlers of the waits that were armed. -/
lemma pending_expire (h : q.expire j = some q') : q'.expiries = q.expiries + 1 ∧
    q'.pending n = q.pending n + if n = q.expiries then q.armedOn j else 0 := by
  unfold expire at h
  split at h
  · cases h
    refine ⟨rfl, (pending_finish (n := n)).trans ?_⟩
    simp [eq_comm]
  · cases h

omit [DecidableEq κ] in
/-- A handler that is taken is ready no more. -/
lemma pending_take (h : q.take i = some (r, q')) :
    q'.pending n + (isExpiry n r).toNat = q.pending n := by
  obtain ⟨hr, rfl⟩ := take_eq_some h
  obtain ⟨hi, rfl⟩ := List.getElem?_eq_some_iff.mp hr
  have hsplit : q.ready = q.ready.take i ++ q.ready[i] :: q.ready.drop (i + 1) := by
    rw [List.getElem_cons_drop, List.take_append_drop]
  conv_rhs => rw [pending, hsplit]
  simp only [pending, List.eraseIdx_eq_take_drop_succ, List.countP_append, List.countP_cons]
  cases isExpiry n q.ready[i] <;> simp
  omega

/-- A cancellation leaves cancelled waits behind and nothing else. -/
lemma mem_ready_cancel (h : r ∈ (q.cancel k).ready) : r ∈ q.ready ∨ r.2 = .aborted := by
  simp only [cancel, finish, List.mem_append, List.mem_map] at h
  rcases h with h | ⟨w, -, rfl⟩
  · exact .inl h
  · exact .inr rfl

/-- Cancelled waits queue up behind what is ready. -/
lemma ready_cancelAll (ks : List κ) : q.ready <+: (q.cancelAll ks).ready := by
  induction ks generalizing q with
  | nil => exact List.prefix_rfl
  | cons k ks ih => exact (List.prefix_append _ _).trans (ih (q := q.cancel k))

/-- The handlers that cancelling adds are aborted ones. -/
lemma mem_ready_cancelAll (ks : List κ) (h : r ∈ (q.cancelAll ks).ready) :
    r ∈ q.ready ∨ r.2 = .aborted := by
  induction ks generalizing q with
  | nil => exact .inl h
  | cons k ks ih => exact (ih h).elim mem_ready_cancel .inr

/-- Cancelling makes no handler of an expiry pending, and drops none. -/
@[simp] lemma pending_cancelAll (ks : List κ) : (q.cancelAll ks).pending n = q.pending n := by
  induction ks generalizing q with
  | nil => rfl
  | cons k ks ih => exact ih.trans pending_cancel

/-- Cancelling is no expiry. -/
@[simp] lemma expiries_cancelAll (ks : List κ) : (q.cancelAll ks).expiries = q.expiries := by
  induction ks generalizing q with
  | nil => rfl
  | cons k ks ih => exact ih (q := q.cancel k)

/-- What an expiry leaves. -/
lemma mem_ready_expire (h : q.expire k = some q') (hr : r ∈ q'.ready) :
    r ∈ q.ready ∨ r.1.timer = k ∧ r.2 = .expired q.expiries := by
  unfold expire at h
  split at h
  · cases h
    simp only [finish, List.mem_append, List.mem_map, List.mem_filter] at hr
    rcases hr with hr | ⟨w, ⟨-, hw⟩, rfl⟩
    · exact .inl hr
    · exact .inr ⟨by simpa [isOn] using hw, rfl⟩
  · cases h

/-! ## All waits -/

section All

variable {P : Wait κ α → Prop}

/-- Finishing keeps what holds of all waits. -/
lemma All.finish (hq : q.All P) : (q.finish k result).All P := by
  refine ⟨fun w hw => hq.1 w (List.mem_of_mem_filter hw), fun r hr => ?_⟩
  simp only [TimerQueue.finish, List.mem_append, List.mem_map] at hr
  rcases hr with hr | ⟨w, hw, rfl⟩
  · exact hq.2 r hr
  · exact hq.1 w (List.mem_of_mem_filter hw)

/-- Cancelling keeps what holds of all waits. -/
lemma All.cancelAll (hq : q.All P) (ks : List κ) : (q.cancelAll ks).All P := by
  induction ks generalizing q with
  | nil => exact hq
  | cons k ks ih => exact ih hq.finish

omit [DecidableEq κ] in
/-- A new wait of the kind keeps what holds of all waits. -/
lemma All.asyncWait (hq : q.All P) (hw : P w) : (q.asyncWait w).All P := by
  refine ⟨fun w' hw' => ?_, hq.2⟩
  rcases List.mem_append.mp hw' with hw' | hw'
  · exact hq.1 w' hw'
  · exact List.mem_singleton.mp hw' ▸ hw

/-- An expiry keeps what holds of all waits. -/
lemma All.expire (hq : q.All P) (h : q.expire k = some q') : q'.All P := by
  unfold TimerQueue.expire at h
  split at h
  · cases h
    exact hq.finish
  · cases h

omit [DecidableEq κ] in
/-- The handler that is taken is of the kind, and so are the rest. -/
lemma All.take (hq : q.All P) (h : q.take i = some (r, q')) : P r.1 ∧ q'.All P := by
  obtain ⟨hr, rfl⟩ := take_eq_some h
  exact ⟨hq.2 r (List.mem_of_getElem? hr), hq.1, fun x hx => hq.2 x (List.mem_of_mem_eraseIdx hx)⟩

end All

/-! ## Quiet queues -/

/-- Nothing can expire in a quiet queue. -/
lemma Quiet.expire (hq : q.Quiet) : q.expire k = none := by
  simp [TimerQueue.expire, hq.1]

omit [DecidableEq κ] in
/-- What is taken from a quiet queue was cancelled. -/
lemma Quiet.take (hq : q.Quiet) (h : q.take i = some (r, q')) : r.2 = .aborted ∧ q'.Quiet := by
  obtain ⟨hr, rfl⟩ := take_eq_some h
  exact ⟨hq.2 r (List.mem_of_getElem? hr), hq.1, fun x hx => hq.2 x (List.mem_of_mem_eraseIdx hx)⟩

/-- A cancellation does not touch what is ready. -/
lemma forall_ready_cancel :
    (∀ r ∈ (q.cancel k).ready, r.2 = .aborted) ↔ ∀ r ∈ q.ready, r.2 = .aborted := by
  refine ⟨fun h r hr => h r (List.mem_append_left _ hr), fun h r hr => ?_⟩
  exact (mem_ready_cancel hr).elim (h r) id

/-- **When the last armed wait is cancelled** the queue is quiet unless an expiry is to be
handled. -/
lemma quiet_cancelAll_iff {ks : List κ} (hks : ∀ w ∈ q.armed, w.timer ∈ ks) :
    (q.cancelAll ks).Quiet ↔ ∀ r ∈ q.ready, r.2 = .aborted := by
  have harmed : (q.cancelAll ks).armed = [] := by
    rw [armed_cancelAll, List.filter_eq_nil_iff]
    simpa using hks
  have hready : ∀ q : TimerQueue κ α,
      (∀ r ∈ (q.cancelAll ks).ready, r.2 = .aborted) ↔ ∀ r ∈ q.ready, r.2 = .aborted := by
    clear hks harmed
    induction ks with
    | nil => exact fun q => Iff.rfl
    | cons k ks ih => exact fun q => (ih (q.cancel k)).trans forall_ready_cancel
  rw [Quiet, harmed, hready]
  simp

/-! ## Live timers -/

/-- A wait is armed on the timer `k`, or the handler of one that has expired is ready. -/
def Live (q : TimerQueue κ α) (k : κ) : Prop :=
  0 < q.armedOn k ∨ ∃ r ∈ q.ready, r.1.timer = k ∧ ∃ n, r.2 = .expired n

/-- A wait that is armed makes its timer live, and leaves the others so. -/
lemma Live.asyncWait (hq : q.Live k ∨ w.timer = k) : (q.asyncWait w).Live k := by
  rcases hq with (harmed | hready) | hw
  · exact .inl (by rw [armedOn_asyncWait]; omega)
  · exact .inr hready
  · exact .inl (by rw [armedOn_asyncWait, if_pos hw]; omega)

/-- A cancellation concerns its own timer only. -/
lemma Live.cancel (hq : q.Live k) (hk : k ≠ j) : (q.cancel j).Live k := by
  rcases hq with harmed | ⟨r, hr, hlive⟩
  · exact .inl (by rwa [armedOn_cancel, if_neg hk])
  · exact .inr ⟨r, List.mem_append_left _ hr, hlive⟩

/-- **An expiry** leaves the timer live: its handler is ready. -/
lemma Live.expire (hq : q.Live k) (h : q.expire j = some q') : q'.Live k := by
  unfold TimerQueue.expire at h
  split at h
  · rename_i hany
    cases h
    rcases hq with harmed | ⟨r, hr, hlive⟩
    · by_cases hk : k = j
      · subst hk
        obtain ⟨w, hw, hon⟩ := List.any_eq_true.mp hany
        refine .inr ⟨(w, .expired q.expiries), List.mem_append_right _ ?_, ?_, _, rfl⟩
        · exact List.mem_map.mpr ⟨w, List.mem_filter.mpr ⟨hw, hon⟩, rfl⟩
        · simpa [isOn] using hon
      · refine .inl ?_
        change 0 < (q.finish j (.expired q.expiries)).armedOn k
        rwa [armedOn_finish, if_neg hk]
    · exact .inr ⟨r, List.mem_append_left _ hr, hlive⟩
  · cases h

/-- **A handler is taken**: the timer stays live, or the handler is that of its expiry. -/
lemma Live.take (hq : q.Live k) (h : q.take i = some (r, q')) :
    q'.Live k ∨ r.1.timer = k ∧ ∃ n, r.2 = .expired n := by
  obtain ⟨hr, rfl⟩ := take_eq_some h
  rcases hq with harmed | ⟨r', hr', hlive⟩
  · exact .inl (.inl harmed)
  · obtain ⟨j, hj⟩ := List.mem_iff_getElem?.mp hr'
    by_cases hij : j = i
    · subst hij
      obtain rfl := Option.some.inj (hr.symm.trans hj)
      exact .inr hlive
    · exact .inl (.inr ⟨r', List.mem_eraseIdx_iff_getElem?.mpr ⟨j, hij, hj⟩, hlive⟩)

end TimerQueue
