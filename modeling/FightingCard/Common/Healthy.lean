import FightingCard.Common.Reading
import FightingCard.Common.WriteQueue

set_option relaxedAutoImplicit false
set_option autoImplicit false

/-!
# Connections without failures

A connection whose operations all succeed, whose owner accepts everything that is read and whose
timer function never closes it. It stays open, its read loop always has exactly one read running or
completed, and it transmits a frame as long as it holds one. So once its queue is empty and no
transmission is running, it has sent all that it was given and waits for the next frame.

## Main definitions

* `FightingCard.Session.Accepted` — a handler that does not end the connection.
* `FightingCard.Session.Healthy` — the invariant.
* `FightingCard.Session.price` — what a connection still has to do.

## Main results

* `FightingCard.Session.Healthy.handle` — what a handler does to a healthy connection.
* `FightingCard.Session.Healthy.at_rest` — a healthy connection with nothing to do.
* `FightingCard.Session.Healthy.price_handle` — there is less to do after every handler.
-/

namespace FightingCard

namespace Session

variable {β φ : Type}

/-- A handler that neither closes the connection nor has failed, with the decision of the owner on
what was read. -/
def Accepted (hooks : Hooks φ) : Handler β φ → Prop
  | .write _ | .timer _ => True
  | .close => False
  | .readHeader c => ∃ f, c = .ok f ∧ hooks.onReadHeader f = true
  | .readBody c => ∃ f, c = .ok f ∧ hooks.onReadBody f = true
  | .written c => c = .ok ()

/-- The connection is open, its queue has accepted handlers only, one read is running or completed,
and one transmission is running or completed if there is a frame to send. -/
structure Healthy (hooks : Hooks φ) (x : Session β φ) : Prop where
  isOpen : x.isOpen = true
  accepted : ∀ h ∈ x.queue, Accepted hooks h
  reading : x.reading.length + (reads x.queue).length = 1
  writing : x.outstanding = min 1 x.writeBufs.length

variable {hooks : Hooks φ} {x y : Session β φ} {h : Handler β φ} {rest : List (Handler β φ)}
  {signals : List (Signal β φ)}

/-- A handler of another kind is queued. -/
lemma Healthy.post (hx : x.Healthy hooks) (hacc : Accepted hooks h) (hreads : reads [h] = [])
    (hcompletions : completions [h] = 0) : (x.post h).Healthy hooks := by
  refine ⟨hx.isOpen, fun g hg => ?_, ?_, ?_⟩
  · rcases List.mem_append.mp hg with hg | hg
    · exact hx.accepted g hg
    · exact List.mem_singleton.mp hg ▸ hacc
  · simpa [Session.post, hreads] using hx.reading
  · have hwriting := hx.writing
    simp only [outstanding] at hwriting
    simpa [outstanding, Session.post, hcompletions] using hwriting

/-- `Write` keeps a connection healthy. -/
lemma Healthy.write (hx : x.Healthy hooks) (buf : β) : (x.write buf).Healthy hooks :=
  hx.post trivial rfl rfl

/-- A read completes with something that the owner accepts. -/
lemma Healthy.completeRead {f : φ} (hx : x.Healthy hooks)
    (hy : x.completeRead (some f) = some y)
    (hacc : ∀ op ∈ x.reading.head?, Accepted hooks (op.handler (.ok f) : Handler β φ)) :
    y.Healthy hooks := by
  obtain ⟨op, ops, hreading, rfl⟩ := completeRead_eq_some hy
  have hone := hx.reading
  rw [hreading, List.length_cons] at hone
  refine ⟨hx.isOpen, fun g hg => ?_, ?_, ?_⟩
  · rcases List.mem_append.mp hg with hg | hg
    · exact hx.accepted g hg
    · rw [List.mem_singleton.mp hg]
      exact hacc op (by simp [hreading])
  · simp only [Session.post, Option.elim_some, reads_append, reads_handler, List.length_append,
      List.length_singleton]
    omega
  · have hwriting := hx.writing
    have hquiet : completions [(op.handler (.ok f) : Handler β φ)] = 0 := by cases op <;> rfl
    simp only [outstanding] at hwriting
    simpa [outstanding, Session.post, hquiet] using hwriting

/-- A transmission completes. -/
lemma Healthy.completeWrite (hx : x.Healthy hooks) (hy : x.completeWrite true = some y) :
    y.Healthy hooks := by
  unfold Session.completeWrite at hy
  split at hy
  · cases hy
  · rename_i buf bufs hwriting
    cases hy
    have hcount := hx.writing
    simp only [outstanding, hwriting, List.length_cons] at hcount
    refine ⟨hx.isOpen, fun g hg => ?_, ?_, ?_⟩
    · rcases List.mem_append.mp hg with hg | hg
      · exact hx.accepted g hg
      · exact List.mem_singleton.mp hg ▸ rfl
    · have hread : reads [(.written (.ok ()) : Handler β φ)] = [] := rfl
      simpa [Session.post, hread] using hx.reading
    · have hone : completions [(.written (.ok ()) : Handler β φ)] = 1 := rfl
      simp only [outstanding, Session.post, if_true, completions_append, hone]
      omega

/-- An expired timer keeps a connection healthy. -/
lemma Healthy.expireTimer (hx : x.Healthy hooks) (hy : x.expireTimer = some y) :
    y.Healthy hooks := by
  obtain rfl := expireTimer_eq_some hy
  have hdisarmed : ({ x with timerArmed := false } : Session β φ).Healthy hooks :=
    ⟨hx.isOpen, hx.accepted, hx.reading, hx.writing⟩
  exact hdisarmed.post trivial rfl rfl

/-- Arming the timer keeps a connection healthy. -/
lemma Healthy.armTimer (hx : x.Healthy hooks) : x.armTimer.Healthy hooks := by
  have hstopped : x.stopTimer.Healthy hooks := by
    unfold stopTimer
    split
    · have hdisarmed : ({ x with timerArmed := false } : Session β φ).Healthy hooks :=
        ⟨hx.isOpen, hx.accepted, hx.reading, hx.writing⟩
      exact hdisarmed.post trivial rfl rfl
    · exact hx
  exact ⟨hstopped.isOpen, hstopped.accepted, hstopped.reading, hstopped.writing⟩

/-- The next read is started. -/
lemma Healthy.of_read {op : ReadOp} (hopen : x.isOpen = true)
    (hacc : ∀ g ∈ x.queue, Accepted hooks g)
    (hreading : x.reading.length + (reads x.queue).length = 0)
    (hwriting : x.outstanding = min 1 x.writeBufs.length) : (x.asyncRead op).Healthy hooks := by
  rw [asyncRead, if_pos hopen]
  refine ⟨hopen, hacc, ?_, hwriting⟩
  dsimp only
  rw [List.length_append, List.length_singleton]
  omega

/-- The transmission of the front is started. -/
lemma Healthy.of_doWrite {buf : β} {bufs : List β} (hopen : x.isOpen = true)
    (hacc : ∀ g ∈ x.queue, Accepted hooks g)
    (hreading : x.reading.length + (reads x.queue).length = 1) (hwriting : x.outstanding = 0) :
    ({ x with writeBufs := buf :: bufs } : Session β φ).doWrite.1.Healthy hooks := by
  have hstarted : ({ x with writeBufs := buf :: bufs } : Session β φ).doWrite.1 =
      { x with writeBufs := buf :: bufs, writing := x.writing ++ [buf] } := by
    simp [doWrite, hopen]
  rw [hstarted]
  refine ⟨hopen, hacc, hreading, ?_⟩
  simp only [outstanding, List.length_append, List.length_cons, List.length_nil]
    at hwriting ⊢
  omega

/-- **A handler** of a healthy connection keeps it healthy, and does not call `OnClose`.

**Proof sketch.** By cases on the branch of the handler (`Handled`). The branches that close the
connection need a completion that is not accepted, or that the timer finds the session dead, and a
healthy connection has no such handler in its queue. A read that succeeds starts the next one, so
that there is one read again. A write that completes ends the only transmission, so that the next
one is the only one. -/
theorem Healthy.handle (hx : x.Healthy hooks) (hqueue : x.queue = h :: rest)
    (hh : Handled hooks false { x with queue := rest } h y signals) :
    y.Healthy hooks ∧ .onClose ∉ signals := by
  have hacc : ∀ g ∈ rest, Accepted hooks g := fun g hg =>
    hx.accepted g (hqueue ▸ List.mem_cons_of_mem _ hg)
  have hhead : Accepted hooks h := hx.accepted h (hqueue ▸ List.mem_cons_self)
  have hreads : reads x.queue = reads [h] ++ reads rest := by
    rw [hqueue, ← List.singleton_append, reads_append]
  have hcompletions : completions x.queue = completions [h] + completions rest := by
    rw [hqueue, ← List.singleton_append, completions_append]
  have hreading := hx.reading
  have hwriting := hx.writing
  rw [hreads, List.length_append] at hreading
  rw [outstanding, hcompletions] at hwriting
  cases hh with
  | @queued buf hbufs =>
    have hpos := List.length_pos_iff.mpr hbufs
    have hzero : completions [(.write buf : Handler β φ)] = 0 := rfl
    refine ⟨⟨hx.isOpen, hacc, by simpa [reads] using hreading, ?_⟩, by simp⟩
    dsimp only at hpos
    simp only [outstanding, List.length_append, List.length_singleton]
    omega
  | @started buf hbufs =>
    have hzero : completions [(.write buf : Handler β φ)] = 0 := rfl
    dsimp only at hbufs
    rw [hbufs, List.length_nil] at hwriting
    have hidle : ({ x with queue := rest } : Session β φ).outstanding = 0 := by
      simp only [outstanding]
      omega
    exact ⟨.of_doWrite (x := { x with queue := rest }) hx.isOpen hacc
      (by simpa [reads] using hreading) hidle, by simp⟩
  | closed => exact hhead.elim
  | readsBody | readsHeader =>
    refine ⟨.of_read (x := { x with queue := rest }) hx.isOpen hacc ?_ ?_, by simp⟩
    · simp only [reads, List.filterMap_cons, List.filterMap_nil, List.length_singleton]
        at hreading ⊢
      omega
    · simpa [outstanding, completions] using hwriting
  | refuses hrefused | rejects hrefused =>
    obtain ⟨f, heq, hf⟩ := hhead
    cases heq
    rw [hrefused] at hf
    cases hf
  | fails hh =>
    rcases hh with rfl | rfl | rfl
    · obtain ⟨f, heq, -⟩ := hhead
      cases heq
    · obtain ⟨f, heq, -⟩ := hhead
      cases heq
    · cases hhead
  | aborted hh =>
    rcases hh with rfl | rfl | rfl | rfl
    · obtain ⟨f, heq, -⟩ := hhead
      cases heq
    · obtain ⟨f, heq, -⟩ := hhead
      cases heq
    · cases hhead
    · exact ⟨⟨hx.isOpen, hacc, by simpa [reads] using hreading,
        by simpa [outstanding, completions] using hwriting⟩, by simp⟩
  | @idle u hbufs =>
    have hone : completions [(.written (.ok u) : Handler β φ)] = 1 := rfl
    dsimp only at hbufs
    rw [hbufs, hone, List.length_nil] at hwriting
    omega
  | @sentLast u buf hbufs =>
    have hone : completions [(.written (.ok u) : Handler β φ)] = 1 := rfl
    dsimp only at hbufs
    rw [hbufs, hone, List.length_singleton] at hwriting
    refine ⟨⟨hx.isOpen, hacc, by simpa [reads] using hreading, ?_⟩, by simp⟩
    simp only [outstanding, List.length_nil]
    omega
  | @sentNext u buf next bufs hbufs =>
    have hone : completions [(.written (.ok u) : Handler β φ)] = 1 := rfl
    dsimp only at hbufs
    rw [hbufs, hone, List.length_cons, List.length_cons] at hwriting
    have hidle : ({ x with queue := rest } : Session β φ).outstanding = 0 := by
      simp only [outstanding]
      omega
    exact ⟨.of_doWrite (x := { x with queue := rest }) hx.isOpen hacc
      (by simpa [reads] using hreading) hidle, by simp⟩
  | @rearms c =>
    have hzero : completions [(.timer c : Handler β φ)] = 0 := rfl
    have hrest : ({ x with queue := rest } : Session β φ).Healthy hooks := by
      refine ⟨hx.isOpen, hacc, by simpa [reads] using hreading, ?_⟩
      simp only [outstanding]
      omega
    exact ⟨hrest.armTimer, by simp⟩
  | expires _ hexpired => cases hexpired

/-- **A healthy connection with nothing to do** has sent all its frames and has a read running. -/
theorem Healthy.at_rest (hx : x.Healthy hooks) (hqueue : x.queue = []) (hwriting : x.writing = []) :
    x.writeBufs = [] ∧ ∃ op, x.reading = [op] := by
  have hreading := hx.reading
  have hcount := hx.writing
  have hzero : completions ([] : List (Handler β φ)) = 0 := rfl
  rw [hqueue, reads, List.filterMap_nil, List.length_nil] at hreading
  rw [outstanding, hqueue, hwriting, List.length_nil, hzero] at hcount
  refine ⟨?_, ?_⟩
  · cases hbufs : x.writeBufs with
    | nil => rfl
    | cons buf bufs =>
      rw [hbufs, List.length_cons] at hcount
      omega
  · exact List.length_eq_one_iff.mp (by omega)

/-! ## What a healthy connection still has to do -/

/-- The prices of the two handlers that lead to something outside of the connection: those of a body
and of the timer. -/
structure Prices where
  body : ℕ
  timer : ℕ

/-- The price of a running read: a header leads to a body, and a body is paid for by the frame. -/
def opPrice : ReadOp → ℕ
  | .header => 5
  | .body => 0

/-- The price of a handler. -/
def handlerPrice (p : Prices) : Handler β φ → ℕ
  | .write _ => 10
  | .readHeader _ | .timer .aborted => 4
  | .readBody _ => p.body
  | .timer (.ok _) | .timer .error => p.timer
  | .written _ | .close => 0

/-- What a handler leaves of its price for what it leads to outside of the connection. -/
def handlerRest (p : Prices) : Handler β φ → ℕ
  | .readBody _ => p.body - 5
  | .timer (.ok _) | .timer .error => p.timer - 4
  | .write _ | .readHeader _ | .timer .aborted | .written _ | .close => 4

/-- The price of all that a healthy connection holds. -/
def price (p : Prices) (x : Session β φ) : ℕ :=
  (x.queue.map (handlerPrice p)).sum + 5 * x.writeBufs.length + x.writing.length +
    (x.reading.map opPrice).sum

variable {p : Prices}

/-- A handler that is posted adds its price. -/
lemma price_post : (x.post h).price p = x.price p + handlerPrice p h := by
  simp only [price, Session.post, List.map_append, List.sum_append, List.map_cons, List.map_nil,
    List.sum_cons, List.sum_nil]
  omega

/-- A read that completes costs one, where a body that arrives brings in its price. -/
lemma price_completeRead {f : φ} (hy : x.completeRead (some f) = some y) :
    y.price p + 1 = x.price p + (p.body + 1) * (x.arrival (some f)).toList.length := by
  obtain ⟨op, ops, hreading, rfl⟩ := completeRead_eq_some hy
  rw [price_post]
  cases op with
  | header =>
    have hnone : x.arrival (some f) = none := by simp [arrival, hreading]
    simp only [price, hreading, hnone, ReadOp.handler, handlerPrice, opPrice, List.map_cons,
      List.sum_cons, Option.toList_none, List.length_nil]
    omega
  | body =>
    have hsome : x.arrival (some f) = some f := by simp [arrival, hreading]
    simp only [price, hreading, hsome, ReadOp.handler, Option.elim_some, handlerPrice, opPrice,
      List.map_cons, List.sum_cons, Option.toList_some, List.length_singleton]
    omega

/-- A transmission that completes is paid for. -/
lemma price_completeWrite {ok : Bool} (hy : x.completeWrite ok = some y) :
    y.price p + 1 = x.price p := by
  unfold Session.completeWrite at hy
  split at hy
  · cases hy
  · rename_i hwriting
    cases hy
    rw [price_post]
    simp only [price, hwriting, List.length_cons, handlerPrice]
    omega

/-- A timer that expires brings in its price. -/
lemma price_expireTimer (hy : x.expireTimer = some y) : y.price p = x.price p + p.timer := by
  obtain rfl := expireTimer_eq_some hy
  exact price_post

/-- **A handler of a healthy connection** costs its price, but for what it leaves.

**Proof sketch.** The price of the handler is that of the queue before less that of the queue after
(`hfront`). By cases on the branch: a frame moves from the queue to `write_bufs_` or starts a
transmission (`hdoWrite`), a read starts the next one (`hread`), the timer arms a wait. Each of
these has a lower price than the handler, by at least what `handlerRest` says. The branches that
close a connection do not occur in a healthy one. -/
theorem Healthy.price_handle (hx : x.Healthy hooks) (hqueue : x.queue = h :: rest)
    (hbody : 5 ≤ p.body) (htimer : 4 ≤ p.timer)
    (hh : Handled hooks false { x with queue := rest } h y signals) :
    y.price p + handlerRest p h ≤ x.price p := by
  have hhead : Accepted hooks h := hx.accepted h (hqueue ▸ List.mem_cons_self)
  have hfront : x.price p =
      ({ x with queue := rest } : Session β φ).price p + handlerPrice p h := by
    simp only [price, hqueue, List.map_cons, List.sum_cons]
    omega
  have hdoWrite : ∀ bufs,
      ({ x with queue := rest, writeBufs := bufs } : Session β φ).doWrite.1.price p ≤
        ({ x with queue := rest, writeBufs := bufs } : Session β φ).price p + 1 := by
    intro bufs
    unfold doWrite
    split
    · exact Nat.le_succ _
    · rw [if_pos hx.isOpen]
      simp only [price, List.length_append, List.length_singleton]
      omega
  have hread : ∀ op, (({ x with queue := rest } : Session β φ).asyncRead op).price p =
      ({ x with queue := rest } : Session β φ).price p + opPrice op := by
    intro op
    rw [asyncRead, if_pos hx.isOpen]
    simp only [price, List.map_append, List.sum_append, List.map_cons, List.map_nil, List.sum_cons,
      List.sum_nil]
    omega
  rw [hfront]
  cases hh with
  | queued =>
    simp only [price, handlerPrice, handlerRest, List.length_append, List.length_singleton]
    omega
  | @started buf hbufs =>
    have hstart := hdoWrite [buf]
    dsimp only at hbufs
    simp only [price, handlerPrice, handlerRest, hbufs, List.length_nil, List.length_singleton]
      at hstart ⊢
    omega
  | closed => exact hhead.elim
  | readsBody | readsHeader =>
    rw [hread]
    simp only [handlerPrice, handlerRest, opPrice]
    omega
  | refuses hrefused | rejects hrefused =>
    obtain ⟨f, heq, hf⟩ := hhead
    cases heq
    rw [hrefused] at hf
    cases hf
  | fails hh =>
    rcases hh with rfl | rfl | rfl
    · obtain ⟨f, heq, -⟩ := hhead
      cases heq
    · obtain ⟨f, heq, -⟩ := hhead
      cases heq
    · cases hhead
  | aborted hh =>
    rcases hh with rfl | rfl | rfl | rfl
    · obtain ⟨f, heq, -⟩ := hhead
      cases heq
    · obtain ⟨f, heq, -⟩ := hhead
      cases heq
    · cases hhead
    · exact Nat.le_refl _
  | @idle u hbufs =>
    -- a completed transmission has a frame in `write_bufs_`
    have hone : completions (.written (.ok u) :: rest : List (Handler β φ)) =
        1 + completions rest := by
      rw [← List.singleton_append, completions_append]
      rfl
    have hwriting := hx.writing
    dsimp only at hbufs
    rw [outstanding, hqueue, hone, hbufs, List.length_nil] at hwriting
    omega
  | sentLast hbufs =>
    dsimp only at hbufs
    simp only [price, handlerPrice, handlerRest, hbufs, List.length_nil, List.length_singleton]
    omega
  | @sentNext u buf next bufs hbufs =>
    have hstart := hdoWrite (next :: bufs)
    dsimp only at hbufs
    simp only [price, handlerPrice, handlerRest, hbufs, List.length_cons] at hstart ⊢
    omega
  | @rearms c hc =>
    have harm : ({ x with queue := rest } : Session β φ).armTimer.price p ≤
        ({ x with queue := rest } : Session β φ).price p + 4 := by
      have hstop : ({ x with queue := rest } : Session β φ).stopTimer.price p ≤
          ({ x with queue := rest } : Session β φ).price p + 4 := by
        unfold stopTimer
        split
        · rw [price_post]
          exact Nat.le_refl _
        · exact Nat.le_add_right _ _
      exact hstop
    cases c with
    | ok u | error =>
      simp only [handlerPrice, handlerRest]
      omega
    | aborted => exact absurd rfl hc
  | expires _ hexpired => cases hexpired

end Session

end FightingCard
