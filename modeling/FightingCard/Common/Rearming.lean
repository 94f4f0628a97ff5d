import FightingCard.Common.AsioTimer

set_option relaxedAutoImplicit false
set_option autoImplicit false

/-!
# Timers that go on

What a manager of timers does when it is not stopped. `TimerLoop` starts the next wait in the
handler of the last one, before the function of the item is called, so that no item is ever left
without a wait or a handler, whatever else is called meanwhile; and every expiry leads to its
invocation.

## Main definitions

* `FightingCard.TimerManager.Complete` — no expiry is lost.

## Main results

* `FightingCard.TimerManager.live_of_step` — only `Stop` ends the chain of an item.
* `FightingCard.TimerManager.goes_on` — from `Run` on, until `Stop`.
-/

namespace FightingCard

namespace TimerManager

variable {F : Type} {σ σ' : TimerManager F} {tr out : List (Obs F)} {i j : ℕ} {item : TimerItem F}

/-! ## Chains go on -/

/-- `TimerLoop` starts a wait of its timer and leaves the other timers alone. -/
lemma live_timerLoop (hi : σ.timers.Live i ∨ i = j) : (σ.timerLoop j item).1.timers.Live i := by
  by_cases hij : i = j
  · exact .asyncWait (.inr hij.symm)
  · exact .asyncWait (.inl ((hi.resolve_right hij).cancel hij))

/-- The loop of `Run` starts the timers of its items. -/
lemma live_runFrom {items : List (TimerItem F)}
    (hi : σ.timers.Live i ∨ j ≤ i ∧ i < j + items.length) :
    (σ.runFrom j items).1.timers.Live i := by
  induction items generalizing σ j with
  | nil =>
    refine hi.resolve_right ?_
    rintro ⟨hle, hlt⟩
    rw [List.length_nil] at hlt
    omega
  | cons item items ih =>
    refine ih ?_
    rcases hi with hi | ⟨hle, hlt⟩
    · exact .inl (live_timerLoop (.inl hi))
    · by_cases hij : i = j
      · exact .inl (live_timerLoop (.inr hij))
      · rw [List.length_cons] at hlt
        exact .inr (by omega)

/-- `Run` starts the timers of all items. -/
lemma live_run (hi : i < σ.items.length) : σ.run.1.timers.Live i :=
  live_runFrom (.inr ⟨Nat.zero_le i, by omega⟩)

/-- `Stop()` is called. -/
def Event.isStop : Event F → Bool
  | .stop => true
  | .add .. | .run | .expire _ | .handler _ => false

/-- **Only `Stop` ends a chain.** Any other step leaves an item with a wait or a handler. -/
lemma live_of_step {e : Event F} (he : e.isStop = false) (h : σ.step e = some (σ', out))
    (hi : σ.timers.Live i) : σ'.timers.Live i := by
  cases e with
  | stop => cases he
  | add =>
    cases h
    exact hi
  | run =>
    cases h
    exact live_runFrom (.inl hi)
  | expire j =>
    obtain ⟨timers, htimers, heq⟩ := Option.map_eq_some_iff.mp h
    cases heq
    exact hi.expire htimers
  | handler j =>
    obtain ⟨⟨⟨w, result⟩, timers⟩, htake, heq⟩ := Option.map_eq_some_iff.mp h
    have hlive := hi.take htake
    cases result with
    | aborted =>
      cases heq
      refine hlive.resolve_right ?_
      rintro ⟨-, n, hn⟩
      cases hn
    | expired n =>
      cases heq
      -- the handler that is taken starts the next wait of its timer
      exact live_timerLoop (hlive.imp_right fun h => h.1.symm)

/-! ## No expiry is lost -/

/-- Every expiry has led to one invocation, or its handler is ready. -/
def Complete (tr : List (Obs F)) (σ : TimerManager F) : Prop :=
  ∀ n, tr.countP (Obs.isInvocation n) + σ.timers.pending n =
    if n < σ.timers.expiries then 1 else 0

/-- A step that neither handles an expiry nor lets a timer expire. -/
lemma Complete.of_quiet (hc : Complete tr σ) (hexp : σ'.timers.expiries = σ.timers.expiries)
    (hpending : ∀ n, σ'.timers.pending n = σ.timers.pending n)
    (hout : ∀ o ∈ out, ∀ n, Obs.isInvocation n o = false) : Complete (tr ++ out) σ' := by
  intro n
  have hnone : out.countP (Obs.isInvocation n) = 0 :=
    List.countP_eq_zero.mpr fun o ho => by simp [hout o ho n]
  rw [List.countP_append, hnone, hpending, hexp]
  exact hc n

/-- **One step** loses no expiry.

**Proof sketch.** By cases on the step. An expiry ends the only armed wait of its timer, so that it
leaves one handler pending; this handler, when it runs, turns into an invocation. `Stop` and `Run`
leave expiries, pending handlers and invocations as they are. -/
lemma Step.complete {e : Event F} (hstep : Step σ e σ' out) (hσ : σ.Chained)
    (hc : Complete tr σ) : Complete (tr ++ out) σ' := by
  cases hstep with
  | add => exact hc.of_quiet rfl (fun _ => rfl) (by simp)
  | run h =>
    refine hc.of_quiet h.expiries h.pending fun o ho n => ?_
    rcases List.mem_cons.mp ho with rfl | ho
    · rfl
    · obtain ⟨i, rfl⟩ := h.armed o ho
      rfl
  | stop =>
    refine hc.of_quiet (TimerQueue.expiries_cancelAll _)
      (fun n => TimerQueue.pending_cancelAll _) fun o ho n => ?_
    rw [List.mem_singleton.mp ho]
    rfl
  | @expire j timers h =>
    -- the wait that ends is the only one of its timer
    have hone : σ.timers.armedOn j = 1 := by
      refine Nat.le_antisymm (hσ.single j) ?_
      unfold TimerQueue.expire at h
      split at h
      · exact List.countP_pos_iff.mpr (List.any_eq_true.mp ‹_›)
      · cases h
    intro n
    obtain ⟨hexp, hpending⟩ := TimerQueue.pending_expire (n := n) h
    have hcount := hc n
    simp only [List.countP_append, List.countP_singleton, Obs.isInvocation, Bool.false_eq_true,
      if_false, hpending, hexp, hone]
    split at hcount <;> split <;> split <;> omega
  | @aborted j w timers h =>
    refine hc.of_quiet ?_ (fun n => ?_) (by simp)
    · rw [(TimerQueue.take_eq_some h).2]
    · have hpending := TimerQueue.pending_take (n := n) h
      simpa [TimerQueue.isExpiry] using hpending
  | @expired j w m timers h =>
    intro n
    have hpending := TimerQueue.pending_take (n := n) h
    have hcount := hc n
    have hexp : (timerLoop { σ with timers } w.timer w.handler).1.timers.expiries =
        σ.timers.expiries := by
      obtain ⟨-, rfl⟩ := TimerQueue.take_eq_some h
      rfl
    have hloop : (timerLoop { σ with timers } w.timer w.handler).1.timers.pending n =
        timers.pending n := by
      rw [timerLoop, TimerQueue.pending_asyncWait, TimerQueue.pending_cancel]
    rw [hexp, hloop]
    by_cases hmn : m = n <;>
      simp [TimerQueue.isExpiry, Obs.isInvocation, List.countP_append, hmn] at hpending ⊢ <;> omega

/-- Every run keeps the chains complete. -/
lemma complete_of_run {G : List (Obs F) → TimerManager F → Event F → Prop}
    (hrun : machine.Run G tr σ) : Complete tr σ := by
  refine hrun.invariant (fun tr σ => Complete tr σ) ?_ fun _ _ _ _ _ hrun ih _ hstep =>
    (step_cases hstep).complete (chained_of_run hrun) ih
  intro n
  simp [machine, TimerQueue.pending]

/-- **Timers go on.** `Run` is called in any reachable state, and then anything happens but `Stop`:
every item that was there has an armed wait or an expiry that is going to be handled; where no
handler is ready it has exactly one armed wait; and every expiry so far has led to exactly one
invocation or is going to.

**Proof sketch.** A wait that ends leaves its handler, and the handler starts the next wait before
it does anything else (`live_of_step`). -/
theorem goes_on (hrun : machine.Reach tr σ) {es : List (Event F)}
    {r : List (Obs F) × TimerManager F}
    (hexec : machine.exec (fun _ _ e => !e.isStop) tr σ (.run :: es) = some r) :
    (∀ i < σ.items.length, r.2.timers.Live i) ∧
      (r.2.timers.ready = [] → ∀ i < σ.items.length, r.2.timers.armedOn i = 1) ∧
      ∀ n, r.1.countP (Obs.isInvocation n) + r.2.timers.pending n =
        if n < r.2.timers.expiries then 1 else 0 := by
  have hend : machine.Reach r.1 r.2 := hrun.exec (fun _ _ _ _ => trivial) hexec
  obtain ⟨τ, out, -, hstep, hrest⟩ := Machine.exec_cons hexec
  have hnext : machine.Reach (tr ++ out) τ := .snoc hrun trivial hstep
  have hlive : ∀ i < σ.items.length, r.2.timers.Live i := by
    refine hnext.exec_invariant (fun _ σ' => ∀ i < σ.items.length, σ'.timers.Live i)
      (fun _ _ _ _ => trivial) (fun _ _ e _ _ _ ih he hstep i hi => ?_) (fun i hi => ?_) hrest
    · exact live_of_step (by simpa using he) hstep (ih i hi)
    · cases hstep
      exact live_run hi
  refine ⟨hlive, fun hready i hi => ?_, complete_of_run hend⟩
  rcases hlive i hi with harmed | ⟨q, hq, -⟩
  · exact Nat.le_antisymm ((chained_of_run hend).single i) harmed
  · rw [hready] at hq
    cases hq

/-- Two items; the first one expires, and its handler runs after the second call of `Run`. -/
theorem goes_on_two : ∃ (tr tr' : List (Obs Unit)) (σ σ' : TimerManager Unit),
    machine.Reach tr σ ∧ σ.items.length = 2 ∧
      tr'.filterMap Obs.expiry = [0] ∧ σ'.timers.armedOn 0 = 1 ∧ σ'.timers.armedOn 1 = 1 := by
  obtain ⟨r, hexec, hlen, r', hexec', hexpiry, hready⟩ : ∃ r ∈ (machine (F := Unit)).exec
      (fun _ _ _ => true) [] machine.init [.add 5 (), .add 1 ()], r.2.items.length = 2 ∧
      ∃ r' ∈ (machine (F := Unit)).exec (fun _ _ e => !e.isStop) r.1 r.2
        [.run, .expire 0, .run, .handler 0, .handler 0, .handler 0],
        r'.1.filterMap Obs.expiry = [0] ∧ r'.2.timers.ready = [] := by
    decide
  have hrun := Machine.run_of_exec (G := fun _ _ _ => True) (fun _ _ _ _ => trivial) hexec
  obtain ⟨-, hone, -⟩ := goes_on hrun hexec'
  exact ⟨r.1, r'.1, r.2, r'.2, hrun, hlen, hexpiry, hone hready 0 (by omega),
    hone hready 1 (by omega)⟩

end TimerManager

end FightingCard
