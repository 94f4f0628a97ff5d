import FightingCard.Lib.History
import FightingCard.Lib.Machine
import FightingCard.Lib.TimerQueue

set_option relaxedAutoImplicit false
set_option autoImplicit false

/-!
# Periodic timers

The timers of `common/asio_timer.h`. `TimerLoop` arms a wait whose handler runs `TimerLoop` again
and then calls the function of its item, so that every item is a chain of waits. `Run` starts a
chain for every item, whether one is running or not, and `Stop` cancels the waits that are armed; it
does not reach the handler of a wait that has expired already.

The waits and the handlers that are ready to run form a `TimerQueue`. The mutex makes `Add`, `Run`
and `Stop` single steps. A handler does not take it, neither for `TimerLoop` nor for the function of
its item: here it is one step as well, and what is considered are the orders of whole handlers and
of the calls. A `Stop` of another thread while a handler is running is left out. A function that
calls one of the three does so at the end of its handler: this is the next step.

## Main definitions

* `FightingCard.TimerManager` — the items with the waits of their timers.
* `FightingCard.TimerManager.machine` — its runs, with what happens to the items.

## Main results

* `FightingCard.TimerManager.single_of_run` — the chains of an item collapse to one.
* `FightingCard.TimerManager.quiet_after_stop_iff` — when `Stop` stops.
-/

namespace FightingCard

/-- `TimerItem`, without its timer: the interval and the function of type `F` to be called. -/
structure TimerItem (F : Type) where
  duration : ℕ
  func : F
  deriving DecidableEq

/-- `TimerManager`: `items_`, and the waits of their timers. The timer of an item is known by the
place of the item. -/
structure TimerManager (F : Type) where
  items : List (TimerItem F) := []
  timers : TimerQueue ℕ (TimerItem F) := {}

namespace TimerManager

variable {F : Type}

/-- What happens: `Run` or `Stop` is called, a wait is armed on the timer `i`, the timer `i` expires
for the `n`th time of all, the function `func` of the item `i` is invoked for the expiry `n`. -/
inductive Obs (F : Type) where
  | ran
  | stopped
  | armed (i : ℕ)
  | expired (i n : ℕ)
  | invoked (i n : ℕ) (func : F)
  deriving DecidableEq

/-- `Add(duration, func)`. -/
def add (σ : TimerManager F) (duration : ℕ) (func : F) : TimerManager F :=
  { σ with items := σ.items ++ [⟨duration, func⟩] }

/-- `TimerLoop(timer, duration, func)` for the timer `i`: `expires_from_now` cancels the waits that
are armed, `async_wait` arms one whose handler has captured the duration and the function. -/
def timerLoop (σ : TimerManager F) (i : ℕ) (item : TimerItem F) :
    TimerManager F × List (Obs F) :=
  ({ σ with timers := (σ.timers.cancel i).asyncWait ⟨i, item⟩ }, [.armed i])

/-- The loop of `Run()` over the items from the place `i` on. -/
def runFrom (σ : TimerManager F) (i : ℕ) : List (TimerItem F) → TimerManager F × List (Obs F)
  | [] => (σ, [])
  | item :: items =>
    let (σ', out) := σ.timerLoop i item
    let (σ'', outs) := σ'.runFrom (i + 1) items
    (σ'', out ++ outs)

/-- `Run()`. -/
def run (σ : TimerManager F) : TimerManager F × List (Obs F) :=
  let (σ', out) := σ.runFrom 0 σ.items
  (σ', .ran :: out)

/-- `Stop()`. -/
def stop (σ : TimerManager F) : TimerManager F × List (Obs F) :=
  ({ σ with timers := σ.timers.cancelAll (List.range σ.items.length) }, [.stopped])

/-- The handler of a wait. -/
def handle (σ : TimerManager F) (w : Wait ℕ (TimerItem F)) :
    WaitResult → TimerManager F × List (Obs F)
  | .aborted => (σ, [])
  | .expired n =>
    let (σ', out) := σ.timerLoop w.timer w.handler
    (σ', out ++ [.invoked w.timer n w.handler.func])

/-- What can happen next: `Add`, `Run` or `Stop` is called, the timer `i` expires, or the io thread
runs the ready handler at the place `i`. -/
inductive Event (F : Type) where
  | add (duration : ℕ) (func : F)
  | run
  | stop
  | expire (i : ℕ)
  | handler (i : ℕ)

/-- One step. -/
def step (σ : TimerManager F) : Event F → Option (TimerManager F × List (Obs F))
  | .add duration func => some (σ.add duration func, [])
  | .run => some σ.run
  | .stop => some σ.stop
  | .expire i =>
    (σ.timers.expire i).map fun timers => ({ σ with timers }, [.expired i σ.timers.expiries])
  | .handler i =>
    (σ.timers.take i).map fun (r, timers) => { σ with timers }.handle r.1 r.2

/-- A manager with no items, and all that can happen to it. -/
def machine : Machine (TimerManager F) (Event F) (Obs F) := ⟨{}, step⟩

variable {σ σ' : TimerManager F} {out tr : List (Obs F)} {i n : ℕ} {item : TimerItem F}

/-! ## What the operations do -/

/-- The waits of a manager belong to its items, and no item has more than one that is armed. -/
structure Chained (σ : TimerManager F) : Prop where
  single : ∀ i, σ.timers.armedOn i ≤ 1
  waits : σ.timers.All fun w => σ.items[w.timer]? = some w.handler

/-- `σ'` is `σ` with other armed waits: it has the same ready handlers but for cancelled ones. -/
structure Rearmed (σ σ' : TimerManager F) (out : List (Obs F)) : Prop where
  items : σ'.items = σ.items
  expiries : σ'.timers.expiries = σ.timers.expiries
  pending : ∀ n, σ'.timers.pending n = σ.timers.pending n
  ready : ∀ r ∈ σ'.timers.ready, r ∈ σ.timers.ready ∨ r.2 = .aborted
  chained : σ.Chained → σ'.Chained
  armed : ∀ o ∈ out, ∃ i, o = .armed i

/-- `TimerLoop` arms its own timer again. -/
lemma rearmed_timerLoop (hitem : σ.items[i]? = some item) :
    Rearmed σ (σ.timerLoop i item).1 (σ.timerLoop i item).2 where
  items := rfl
  expiries := rfl
  pending n := by
    rw [timerLoop, TimerQueue.pending_asyncWait, TimerQueue.pending_cancel]
  ready _ hr := TimerQueue.mem_ready_cancel hr
  chained hσ := by
    refine ⟨fun j => ?_, hσ.waits.finish.asyncWait hitem⟩
    simp only [timerLoop, TimerQueue.armedOn_asyncWait, TimerQueue.armedOn_cancel]
    -- the wait that is armed takes the place of those of its timer
    have := hσ.single j
    split <;> split <;> omega
  armed o ho := ⟨i, List.mem_singleton.mp ho⟩

/-- The loop of `Run` arms the timers from its place on. -/
lemma rearmed_runFrom {items : List (TimerItem F)}
    (hitems : ∀ k item, items[k]? = some item → σ.items[i + k]? = some item) :
    Rearmed σ (σ.runFrom i items).1 (σ.runFrom i items).2 := by
  induction items generalizing σ i with
  | nil => exact ⟨rfl, rfl, fun _ => rfl, fun _ => .inl, id, by simp [runFrom]⟩
  | cons item items ih =>
    have hloop := rearmed_timerLoop (hitems 0 item rfl)
    have hrest := ih (σ := (σ.timerLoop i item).1) (i := i + 1) fun k item hk => by
      rw [Nat.add_right_comm, Nat.add_assoc]
      exact hitems (k + 1) item hk
    refine ⟨hrest.items.trans hloop.items, hrest.expiries.trans hloop.expiries,
      fun n => (hrest.pending n).trans (hloop.pending n), fun r hr => ?_,
      hrest.chained ∘ hloop.chained, fun o ho => ?_⟩
    · exact (hrest.ready r hr).elim (hloop.ready r) .inr
    · rcases List.mem_append.mp ho with ho | ho
      · exact hloop.armed o ho
      · exact hrest.armed o ho

/-- `Run` arms the timers of all items. -/
lemma rearmed_run : Rearmed σ (σ.runFrom 0 σ.items).1 (σ.runFrom 0 σ.items).2 :=
  rearmed_runFrom fun k item hk => by rwa [Nat.zero_add]

/-- **What a step can do.** -/
inductive Step (σ : TimerManager F) : Event F → TimerManager F → List (Obs F) → Prop
  | add {duration func} : Step σ (.add duration func) (σ.add duration func) []
  | run {τ outs} (h : Rearmed σ τ outs) : Step σ .run τ (.ran :: outs)
  | stop : Step σ .stop σ.stop.1 [.stopped]
  | expire {j timers} (h : σ.timers.expire j = some timers) :
      Step σ (.expire j) { σ with timers } [.expired j σ.timers.expiries]
  | aborted {j w timers} (h : σ.timers.take j = some ((w, .aborted), timers)) :
      Step σ (.handler j) { σ with timers } []
  | expired {j w m timers} (h : σ.timers.take j = some ((w, .expired m), timers)) :
      Step σ (.handler j) (timerLoop { σ with timers } w.timer w.handler).1
        [.armed w.timer, .invoked w.timer m w.handler.func]

/-- **What a step does.** -/
theorem step_cases {e : Event F} (h : σ.step e = some (σ', out)) : Step σ e σ' out := by
  cases e with
  | add duration func =>
    cases h
    exact .add
  | run =>
    cases h
    exact .run rearmed_run
  | stop =>
    cases h
    exact .stop
  | expire i =>
    obtain ⟨timers, htimers, heq⟩ := Option.map_eq_some_iff.mp h
    cases heq
    exact .expire htimers
  | handler i =>
    obtain ⟨⟨⟨w, result⟩, timers⟩, htake, heq⟩ := Option.map_eq_some_iff.mp h
    cases result with
    | aborted =>
      cases heq
      exact .aborted htake
    | expired n =>
      cases heq
      exact .expired htake

/-- The waits of the items stay those of the items when one is added. -/
lemma Chained.add (hσ : σ.Chained) (duration : ℕ) (func : F) :
    (σ.add duration func).Chained where
  single := hσ.single
  waits := by
    have hmono : ∀ w : Wait ℕ (TimerItem F), σ.items[w.timer]? = some w.handler →
        (σ.items ++ [⟨duration, func⟩])[w.timer]? = some w.handler := fun w hw => by
      rwa [List.getElem?_append_left (List.getElem?_eq_some_iff.mp hw).1]
    exact ⟨fun w hw => hmono w (hσ.waits.1 w hw), fun r hr => hmono r.1 (hσ.waits.2 r hr)⟩

/-- The handler that is taken belongs to its item. -/
lemma Chained.take {r : Wait ℕ (TimerItem F) × WaitResult} {timers : TimerQueue ℕ (TimerItem F)}
    (hσ : σ.Chained) (h : σ.timers.take i = some (r, timers)) :
    Chained { σ with timers } ∧ σ.items[r.1.timer]? = some r.1.handler := by
  obtain ⟨hr, hwaits⟩ := hσ.waits.take h
  obtain ⟨-, rfl⟩ := TimerQueue.take_eq_some h
  exact ⟨⟨hσ.single, hwaits⟩, hr⟩

/-- **No step breaks a chain or starts a second one.** -/
lemma Step.chained {e : Event F} (hstep : Step σ e σ' out) (hσ : σ.Chained) : σ'.Chained := by
  cases hstep with
  | add => exact hσ.add _ _
  | run h => exact h.chained hσ
  | stop =>
    exact ⟨fun i => Nat.le_trans (TimerQueue.armedOn_cancelAll_le _) (hσ.single i),
      hσ.waits.cancelAll _⟩
  | expire h =>
    exact ⟨fun i => Nat.le_trans (TimerQueue.armedOn_expire_le h) (hσ.single i),
      hσ.waits.expire h⟩
  | aborted h => exact (hσ.take h).1
  | @expired j w m timers h =>
    obtain ⟨htake, hitem⟩ := hσ.take h
    have hloop : Rearmed { σ with timers } _ _ := rearmed_timerLoop hitem
    exact hloop.chained htake

/-! ## Single chains -/

/-- The number of an expiry. -/
def Obs.expiry : Obs F → Option ℕ
  | .expired _ n => some n
  | _ => none

/-- A function is invoked for the expiry `n`. -/
def Obs.isInvocation (n : ℕ) : Obs F → Bool
  | .invoked _ m _ => m = n
  | _ => false

/-- The expiries are numbered in order; each of them is waiting to be handled or was handled, and
this once; and a function is invoked for an expiry of its own item. -/
structure Counted (tr : List (Obs F)) (σ : TimerManager F) : Prop where
  numbers : tr.filterMap Obs.expiry = List.range σ.timers.expiries
  once : ∀ n, tr.countP (Obs.isInvocation n) + σ.timers.pending n ≤
    if n < σ.timers.expiries then 1 else 0
  waiting : ∀ r ∈ σ.timers.ready, ∀ n, r.2 = .expired n → .expired r.1.timer n ∈ tr
  own : ∀ i n func, .invoked i n func ∈ tr →
    .expired i n ∈ tr ∧ σ.items[i]?.map TimerItem.func = some func

/-- Waits that are armed count for nothing. -/
lemma Counted.append_quiet (hc : Counted tr σ) (hitems : σ.items <+: σ'.items)
    (hexp : σ'.timers.expiries = σ.timers.expiries)
    (hpending : ∀ n, σ'.timers.pending n ≤ σ.timers.pending n)
    (hready : ∀ r ∈ σ'.timers.ready, r ∈ σ.timers.ready ∨ r.2 = .aborted)
    (hout : ∀ o ∈ out, o = .ran ∨ o = .stopped ∨ ∃ i, o = .armed i) : Counted (tr ++ out) σ' := by
  have hnumbers : out.filterMap Obs.expiry = [] := List.filterMap_eq_nil_iff.mpr fun o ho => by
    rcases hout o ho with rfl | rfl | ⟨i, rfl⟩ <;> rfl
  have hinvoked : ∀ n, out.countP (Obs.isInvocation n) = 0 := fun n =>
    List.countP_eq_zero.mpr fun o ho => by
      rcases hout o ho with rfl | rfl | ⟨i, rfl⟩ <;> simp [Obs.isInvocation]
  refine ⟨?_, fun n => ?_, fun r hr n hn => ?_, fun i n func hmem => ?_⟩
  · rw [List.filterMap_append, hnumbers, List.append_nil, hexp, hc.numbers]
  · rw [List.countP_append, hinvoked, hexp]
    have := hc.once n
    have := hpending n
    omega
  · rcases hready r hr with hr | hr
    · exact List.mem_append_left _ (hc.waiting r hr n hn)
    · rw [hr] at hn
      cases hn
  · rcases List.mem_append.mp hmem with hmem | hmem
    · obtain ⟨hexpired, hitem⟩ := hc.own i n func hmem
      obtain ⟨item, hi, -⟩ := Option.map_eq_some_iff.mp hitem
      refine ⟨List.mem_append_left _ hexpired, ?_⟩
      obtain ⟨more, hmore⟩ := hitems
      rwa [← hmore, List.getElem?_append_left (List.getElem?_eq_some_iff.mp hi).1]
    · rcases hout _ hmem with h | h | ⟨j, h⟩ <;> cases h

/-- An expiry gets the next number, and the handler it leaves is the only one. -/
lemma Counted.append_expired {timers : TimerQueue ℕ (TimerItem F)} (hc : Counted tr σ)
    (hσ : σ.Chained) (h : σ.timers.expire i = some timers) :
    Counted (tr ++ [.expired i σ.timers.expiries]) { σ with timers } := by
  have hexp : timers.expiries = σ.timers.expiries + 1 := (TimerQueue.pending_expire (n := 0) h).1
  refine ⟨?_, fun n => ?_, fun r hr n hn => ?_, fun j n func hmem => ?_⟩
  · simp [hc.numbers, Obs.expiry, hexp, List.range_succ]
  · obtain ⟨-, hpending⟩ := TimerQueue.pending_expire (n := n) h
    have honce := hc.once n
    have hsingle := hσ.single i
    simp only [List.countP_append, List.countP_singleton, Obs.isInvocation, Bool.false_eq_true,
      if_false, hpending, hexp]
    split at honce <;> split <;> split <;> omega
  · rcases TimerQueue.mem_ready_expire h hr with hr | ⟨htimer, hres⟩
    · exact List.mem_append_left _ (hc.waiting r hr n hn)
    · rw [hres] at hn
      cases hn
      simp [htimer]
  · simp only [List.mem_append, List.mem_singleton, reduceCtorEq, or_false] at hmem
    obtain ⟨hexpired, hitem⟩ := hc.own j n func hmem
    exact ⟨List.mem_append_left _ hexpired, hitem⟩

/-- The handler that an expiry left has run, and is not ready any more.

**Proof sketch.** The handler that is taken was waiting, so that its expiry and its item are known
(`Counted.waiting`). It turns from a pending handler into an invocation, so that the sum for its
expiry stays the same; the wait that `TimerLoop` arms is a new one, which no expiry has ended. -/
lemma Counted.append_invoked {w : Wait ℕ (TimerItem F)} {timers : TimerQueue ℕ (TimerItem F)}
    {j : ℕ} (hc : Counted tr σ) (hitem : σ.items[w.timer]? = some w.handler)
    (h : σ.timers.take j = some ((w, .expired n), timers)) :
    Counted (tr ++ [.armed w.timer, .invoked w.timer n w.handler.func])
      (timerLoop { σ with timers } w.timer w.handler).1 := by
  obtain ⟨hr, htimers⟩ := TimerQueue.take_eq_some h
  have hmem : (w, .expired n) ∈ σ.timers.ready := List.mem_of_getElem? hr
  have hloop : Rearmed { σ with timers } (timerLoop { σ with timers } w.timer w.handler).1 _ :=
    rearmed_timerLoop hitem
  have hexp : (timerLoop { σ with timers } w.timer w.handler).1.timers.expiries =
      σ.timers.expiries := by rw [hloop.expiries, htimers]
  refine ⟨?_, fun m => ?_, fun r hr m hm => ?_, fun i m func hmem' => ?_⟩
  · simp [hc.numbers, Obs.expiry, hexp]
  · have honce := hc.once m
    have hpending := TimerQueue.pending_take (n := m) h
    rw [hloop.pending, hexp]
    by_cases hnm : n = m <;>
      simp [TimerQueue.isExpiry, Obs.isInvocation, List.countP_append, hnm] at hpending ⊢ <;> omega
  · rcases hloop.ready r hr with hr | hr
    · rw [htimers] at hr
      exact List.mem_append_left _ (hc.waiting r (List.mem_of_mem_eraseIdx hr) m hm)
    · rw [hr] at hm
      cases hm
  · simp only [List.mem_append, List.mem_cons, List.not_mem_nil, or_false, reduceCtorEq,
      false_or] at hmem'
    rcases hmem' with hmem' | heq
    · obtain ⟨hexpired, hi⟩ := hc.own i m func hmem'
      exact ⟨List.mem_append_left _ hexpired, hi⟩
    · cases heq
      exact ⟨List.mem_append_left _ (hc.waiting _ hmem n rfl), by rw [hloop.items, hitem]; rfl⟩

/-- A step keeps the count. -/
lemma Step.counted {e : Event F} (hstep : Step σ e σ' out) (hσ : σ.Chained)
    (hc : Counted tr σ) : Counted (tr ++ out) σ' := by
  cases hstep with
  | add =>
    exact hc.append_quiet (List.prefix_append _ _) rfl (fun _ => Nat.le_refl _) (fun _ => .inl)
      (by simp)
  | run h =>
    refine hc.append_quiet (h.items ▸ List.prefix_rfl) h.expiries
      (fun n => Nat.le_of_eq (h.pending n)) h.ready ?_
    intro o ho
    rcases List.mem_cons.mp ho with ho | ho
    · exact .inl ho
    · exact .inr (.inr (h.armed o ho))
  | stop =>
    refine hc.append_quiet List.prefix_rfl ?_ (fun n => ?_) ?_ (by simp)
    · exact TimerQueue.expiries_cancelAll _
    · exact Nat.le_of_eq (TimerQueue.pending_cancelAll _)
    · exact fun r hr => TimerQueue.mem_ready_cancelAll _ hr
  | expire h => exact hc.append_expired hσ h
  | aborted h =>
    refine hc.append_quiet List.prefix_rfl ?_ (fun n => ?_) (fun r hr => .inl ?_) (by simp)
    · rw [(TimerQueue.take_eq_some h).2]
    · exact Nat.le_of_add_right_le (Nat.le_of_eq (TimerQueue.pending_take h))
    · obtain ⟨-, rfl⟩ := TimerQueue.take_eq_some h
      exact List.mem_of_mem_eraseIdx hr
  | expired h => exact hc.append_invoked (hσ.take h).2 h

/-- The invariant of the chains. -/
lemma chained_of_run {G : List (Obs F) → TimerManager F → Event F → Prop}
    (hrun : machine.Run G tr σ) : σ.Chained := by
  refine hrun.invariant (fun _ σ => σ.Chained) ?_ fun _ _ _ _ _ _ ih _ hstep =>
    (step_cases hstep).chained ih
  exact ⟨fun _ => Nat.zero_le _, ⟨by simp [machine], by simp [machine]⟩⟩

/-- **Timers never multiply.** However often `Run` is called, an item has at most one armed wait;
the expiries are all different, each of them leads to at most one invocation, and an invocation is
one of the function of the item that expired. -/
theorem single_of_run (hrun : machine.Reach tr σ) :
    (∀ i, σ.timers.armedOn i ≤ 1) ∧ (tr.filterMap Obs.expiry).Nodup ∧
      (∀ n, tr.countP (Obs.isInvocation n) ≤ 1) ∧
      ∀ i n func, .invoked i n func ∈ tr →
        .expired i n ∈ tr ∧ σ.items[i]?.map TimerItem.func = some func := by
  have hc : Counted tr σ := by
    refine hrun.invariant (fun tr σ => Counted tr σ) ?_ fun _ _ _ _ _ hrun ih _ hstep =>
      (step_cases hstep).counted (chained_of_run hrun) ih
    exact ⟨rfl, fun n => by simp [TimerQueue.pending, machine], by simp [machine], by simp⟩
  refine ⟨(chained_of_run hrun).single, ?_, fun n => ?_, hc.own⟩
  · rw [hc.numbers]
    exact List.nodup_range
  · have honce := hc.once n
    split at honce <;> omega

/-- `Run` is called twice; the wait of the second call expires and its handler runs. -/
theorem single_of_run_twice : ∃ (tr : List (Obs Unit)) (σ : TimerManager Unit),
    machine.Reach tr σ ∧
      tr = [.ran, .armed 0, .ran, .armed 0, .expired 0 0, .armed 0, .invoked 0 0 ()] ∧
      (∀ i, σ.timers.armedOn i ≤ 1) ∧ (tr.filterMap Obs.expiry).Nodup ∧
      (∀ n, tr.countP (Obs.isInvocation n) ≤ 1) ∧
      ∀ i n func, .invoked i n func ∈ tr →
        .expired i n ∈ tr ∧ σ.items[i]?.map TimerItem.func = some func := by
  obtain ⟨r, hexec, htr⟩ : ∃ r ∈ (machine (F := Unit)).exec (fun _ _ _ => true) [] machine.init
      [.add 5 (), .run, .run, .handler 0, .expire 0, .handler 0],
      r.1 = [.ran, .armed 0, .ran, .armed 0, .expired 0 0, .armed 0, .invoked 0 0 ()] := by
    decide
  have hrun := Machine.run_of_exec (fun _ _ _ _ => trivial) hexec
  exact ⟨r.1, r.2, hrun, htr, single_of_run hrun⟩

/-! ## Stopping -/

/-- A wait is armed or a function is invoked. -/
def Obs.isActive : Obs F → Prop
  | .armed _ | .invoked .. => True
  | _ => False

/-- After every `Stop` and until the next `Run`, no wait is armed and no function is invoked. -/
def Stops (tr : List (Obs F)) : Prop :=
  History.Silent (· = .stopped) (· = .ran) Obs.isActive tr

/-- No handler of a wait that has expired is ready to run. -/
def Settled (σ : TimerManager F) : Prop := ∀ r ∈ σ.timers.ready, r.2 = .aborted

/-- `Stop` cancels every wait that is armed. -/
lemma quiet_stop_iff (hσ : σ.Chained) : σ.stop.1.timers.Quiet ↔ σ.Settled :=
  TimerQueue.quiet_cancelAll_iff fun w hw =>
    List.mem_range.mpr (List.getElem?_eq_some_iff.mp (hσ.waits.1 w hw)).1

/-- A step keeps the silence, unless it is a `Stop` that comes too late.

**Proof sketch.** By cases on the step. `Stop` makes the waits quiet where no handler of an expiry
is ready (`quiet_stop_iff`). In quiet waits nothing expires, and the handlers that are ready are
aborted ones, which do nothing, until `Run` is called. -/
lemma Step.stops {e : Event F} (hstep : Step σ e σ' out) (hσ : σ.Chained)
    (hsettled : e = .stop → σ.Settled)
    (hquiet : History.Since (· = .stopped) (· = .ran) tr → σ.timers.Quiet) (hs : Stops tr) :
    Stops (tr ++ out) ∧
      (History.Since (· = .stopped) (· = .ran) (tr ++ out) → σ'.timers.Quiet) := by
  -- outside of the time between `Stop` and `Run`, everything but `Stop` is harmless
  have hrunning : ¬ History.Since (· = .stopped) (· = .ran) tr → (∀ o ∈ out, o ≠ .stopped) →
      Stops (tr ++ out) ∧
        (History.Since (· = .stopped) (· = .ran) (tr ++ out) → σ'.timers.Quiet) := fun hnot hout =>
    ⟨hs.append_of_not_since hnot hout, fun h => absurd h (History.not_since_append hnot hout)⟩
  cases hstep with
  | add => simpa using ⟨hs, hquiet⟩
  | @run τ outs h =>
    have hran : ¬ History.Since (· = Obs.stopped) (· = .ran) (tr ++ [.ran]) := by
      simp [History.since_concat]
    have hstops : Stops (tr ++ [.ran]) := History.silent_concat.mpr ⟨hs, by simp [Obs.isActive]⟩
    have houts : ∀ o ∈ outs, o ≠ .stopped := by
      rintro o ho rfl
      obtain ⟨i, hi⟩ := h.armed _ ho
      cases hi
    rw [List.append_cons]
    exact ⟨hstops.append_of_not_since hran houts,
      fun h => absurd h (History.not_since_append hran houts)⟩
  | stop =>
    exact ⟨History.silent_concat.mpr ⟨hs, by simp [Obs.isActive]⟩,
      fun _ => (quiet_stop_iff hσ).mpr (hsettled rfl)⟩
  | expire h =>
    refine hrunning (fun hsince => ?_) (by simp)
    rw [(hquiet hsince).expire] at h
    cases h
  | aborted h =>
    rw [List.append_nil]
    exact ⟨hs, fun hsince => ((hquiet hsince).take h).2⟩
  | expired h =>
    refine hrunning (fun hsince => ?_) (by simp)
    cases ((hquiet hsince).take h).1

/-- A manager that is stopped when no expiry is to be handled stays so until `Run`. -/
lemma stops_of_run (hrun : machine.Run (fun _ σ e => e = .stop → σ.Settled) tr σ) :
    Stops tr ∧ (History.Since (· = .stopped) (· = .ran) tr → σ.timers.Quiet) := by
  refine hrun.invariant (fun tr σ => Stops tr ∧
    (History.Since (· = .stopped) (· = .ran) tr → σ.timers.Quiet)) ⟨History.silent_nil, by simp⟩
    fun _ _ _ _ _ hrun ih hg hstep =>
      (step_cases hstep).stops (chained_of_run hrun) hg ih.2 ih.1

/-- A quiet manager stays quiet as long as `Run` is not called. -/
lemma Step.quiet {e : Event F} (hstep : Step σ e σ' out) (hσ : σ.Chained)
    (hq : σ.timers.Quiet) (he : e ≠ .run) :
    σ'.Chained ∧ σ'.timers.Quiet ∧ ∀ o ∈ out, ¬ o.isActive := by
  refine ⟨hstep.chained hσ, ?_⟩
  cases hstep with
  | add => exact ⟨hq, by simp⟩
  | run => exact absurd rfl he
  | stop => exact ⟨(quiet_stop_iff hσ).mpr hq.2, by simp [Obs.isActive]⟩
  | expire h => simp [hq.expire] at h
  | aborted h => exact ⟨(hq.take h).2, by simp⟩
  | expired h => cases (hq.take h).1

/-- Without `Run` nothing gets active again. -/
lemma exec_quiet {es : List (Event F)} {r : List (Obs F) × TimerManager F} (hσ : σ.Chained)
    (hq : σ.timers.Quiet) (hes : .run ∉ es) (htr : ∀ o ∈ tr, ¬ o.isActive)
    (h : machine.exec (fun _ _ _ => true) tr σ es = some r) : ∀ o ∈ r.1, ¬ o.isActive := by
  induction es generalizing tr σ with
  | nil =>
    cases h
    exact htr
  | cons e es ih =>
    obtain ⟨σ', out, -, hstep, hexec⟩ := Machine.exec_cons h
    obtain ⟨hchained, hquiet, hout⟩ := (step_cases hstep).quiet hσ hq (by rintro rfl; simp at hes)
    refine ih hchained hquiet (fun hmem => hes (List.mem_cons_of_mem _ hmem)) ?_ hexec
    rintro o ho
    exact (List.mem_append.mp ho).elim (htr o) (hout o)

/-- A handler that an expiry has left outlives `Stop`. -/
lemma exec_handler (h : ¬ σ.Settled) : ∃ i tr σ', machine.exec (fun _ _ _ => true) [] σ
    [.stop, .handler i] = some (tr, σ') ∧ ∃ o ∈ tr, o.isActive := by
  simp only [Settled, not_forall] at h
  obtain ⟨⟨w, result⟩, hmem, hresult⟩ := h
  cases result with
  | aborted => exact absurd rfl hresult
  | expired n =>
    obtain ⟨i, hi⟩ := List.mem_iff_getElem?.mp hmem
    obtain ⟨more, hmore⟩ := σ.timers.ready_cancelAll (List.range σ.items.length)
    have hready : (σ.timers.cancelAll (List.range σ.items.length)).ready[i]? =
        some (w, .expired n) := by
      rwa [← hmore, List.getElem?_append_left (List.getElem?_eq_some_iff.mp hi).1]
    obtain ⟨timers, htake⟩ : ∃ timers,
        σ.stop.1.timers.take i = some ((w, .expired n), timers) := by
      simp [TimerQueue.take, stop, hready]
    refine ⟨i, [.stopped, .armed w.timer, .invoked w.timer n w.handler.func],
      (timerLoop { σ.stop.1 with timers } w.timer w.handler).1, ?_, .armed w.timer, by simp,
      trivial⟩
    simp only [Machine.exec, machine, step, htake, Option.map_some]
    rfl

/-- **When `Stop` stops.** A run in which `Stop` is never called while the handler of an expired
wait is ready to run keeps still from every `Stop` to the next `Run`. One call is followed by
nothing, whatever else happens before the next `Run`, exactly if no such handler is ready. -/
theorem quiet_after_stop_iff (F : Type) :
    (∀ (tr : List (Obs F)) (σ : TimerManager F),
      machine.Run (fun _ σ e => e = .stop → σ.Settled) tr σ → Stops tr) ∧
    ∀ (tr : List (Obs F)) (σ : TimerManager F), machine.Reach tr σ →
      ((∀ es r, .run ∉ es → machine.exec (fun _ _ _ => true) [] σ (.stop :: es) = some r →
        ∀ o ∈ r.1, ¬ o.isActive) ↔ σ.Settled) := by
  refine ⟨fun tr σ hrun => (stops_of_run hrun).1, fun tr σ hrun => ⟨fun h => ?_, fun h => ?_⟩⟩
  · by_contra hsettled
    obtain ⟨i, tr, σ', hexec, o, ho, hactive⟩ := exec_handler hsettled
    exact h _ _ (by simp) hexec o ho hactive
  · rintro es r hes hexec
    have hσ : σ.Chained := chained_of_run hrun
    have hexec' : machine.exec (fun _ _ _ => true) [.stopped] σ.stop.1 es = some r := by
      simpa [Machine.exec, machine, step, stop] using hexec
    exact exec_quiet (Step.stop.chained hσ) ((quiet_stop_iff hσ).mpr h) hes
      (by simp [Obs.isActive]) hexec'

/-- The wait of an item is cancelled before it has expired. -/
theorem quiet_after_stop_armed : ∃ (tr : List (Obs Unit)) (σ : TimerManager Unit),
    machine.Reach tr σ ∧ tr = [.ran, .armed 0] ∧ σ.Settled ∧
      ∀ es r, .run ∉ es → machine.exec (fun _ _ _ => true) [] σ (.stop :: es) = some r →
        ∀ o ∈ r.1, ¬ o.isActive := by
  obtain ⟨r, hexec, htr, hready⟩ : ∃ r ∈ (machine (F := Unit)).exec (fun _ _ _ => true) []
      machine.init [.add 5 (), .run], r.1 = [.ran, .armed 0] ∧ r.2.timers.ready = [] := by
    decide
  have hrun := Machine.run_of_exec (fun _ _ _ _ => trivial) hexec
  have hsettled : r.2.Settled := by simp [Settled, hready]
  exact ⟨r.1, r.2, hrun, htr, hsettled, ((quiet_after_stop_iff Unit).2 _ _ hrun).mpr hsettled⟩

/-- A wait has expired when `Stop` is called: its handler arms the timer again and invokes the
function. -/
theorem quiet_after_stop_fails : ¬ ∀ (tr : List (Obs Unit)) (σ : TimerManager Unit),
    machine.Reach tr σ → Stops tr := by
  intro h
  obtain ⟨r, hexec, htr⟩ : ∃ r ∈ (machine (F := Unit)).exec (fun _ _ _ => true) [] machine.init
      [.add 5 (), .run, .expire 0, .stop, .handler 0],
      r.1 = [.ran, .armed 0, .expired 0 0, .stopped] ++ .armed 0 :: [.invoked 0 0 ()] := by
    decide
  have hrun := Machine.run_of_exec (fun _ _ _ _ => trivial) hexec
  refine h _ _ hrun _ _ _ htr trivial ⟨[.ran, .armed 0, .expired 0 0], .stopped, [], rfl, rfl, ?_⟩
  simp

end TimerManager

end FightingCard
