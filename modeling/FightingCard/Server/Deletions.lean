import FightingCard.Common.Lifetime
import FightingCard.Server.GameServer

set_option relaxedAutoImplicit false
set_option autoImplicit false

/-!
# How often a session is deleted

`UserSession::OnClose` posts a task to the logic thread that calls `DelUser` and `DelSession`. There
is one such task for every call of `Close()`, and the number of calls is the number of failures of
the connection.

## Main definitions

* `FightingCard.GameServer.life` — the life of one connection of the server.
* `FightingCard.GameServer.deletions` — the number of deletions of a session.

## Main results

* `FightingCard.GameServer.lives_of_run` — a run of the server makes a run of every connection.
* `FightingCard.GameServer.close_once` — when a connection is closed once.
-/

namespace FightingCard

namespace GameServer

open Lifetime (closes closeds isOnClose)

variable {β φ : Type}

/-- The life of the connection `s`. -/
def life (s : ℕ) (σ : GameServer β φ) : Lifetime β φ :=
  { session := σ.io s, connected := true, closed := !(σ.io s).isOpen }

/-- What a step of the server is in the life of the connection `s`. -/
def lifeEvent (s : ℕ) (σ : GameServer β φ) : Event φ → Option (Lifetime.Event β φ)
  | .readDone t result => if t = s then some (.readDone result) else none
  | .writeDone t ok => if t = s then some (.writeDone ok) else none
  | .timerDone t => if t = s then some .timerDone else none
  | .io t now => if t = s then some (.run (σ.notAlive s now)) else none
  | .accept _ | .logic => none

/-- The step is no failure of the connection `s` after another one. -/
def FailsFirst (w : Wire β φ) (s : ℕ) (σ : GameServer β φ) (e : Event φ) : Prop :=
  ∀ e' ∈ lifeEvent s σ e, Lifetime.FailsFirst w.hooks (σ.life s) e'

/-- The task of `OnClose` was run for the session `s`. -/
def isDeletion (s : ℕ) : Done → Bool
  | .delUser t _ => t = s
  | _ => false

/-- The number of tasks of `OnClose` that were posted by the session `s`. -/
def deletions (s : ℕ) (tr : List (Obs β φ)) (σ : GameServer β φ) : ℕ :=
  (dones tr).countP (isDeletion s) + σ.logic.tasks.count (.onClose s)

variable {w : Wire β φ} {s t now : ℕ} {σ σ' : GameServer β φ} {tr out : List (Obs β φ)}

/-- `OnClose` posts its task, and no other signal posts one. -/
lemma signal_eq {x : Session.Signal β φ} (h : signal w t now σ x = (σ', out)) :
    σ'.io = σ.io ∧ σ'.logic.accepted = σ.logic.accepted ∧ dones out = [] ∧
      σ'.logic.tasks.count (.onClose s) =
        σ.logic.tasks.count (.onClose s) + if t = s then (isOnClose x).toNat else 0 := by
  cases x with
  | asyncWrite | sent =>
    cases h
    simp [dones, isOnClose]
  | onReadBody f =>
    simp only [signal] at h
    split at h
    · split at h
      · rename_i msg _
        cases h
        cases msg <;> simp [dones, isOnClose, LogicIo.post, UserMsg.task]
      · cases h
        simp [dones, isOnClose]
    · cases h
      simp [dones, isOnClose]
  | onClose =>
    cases h
    by_cases hts : t = s <;>
      simp [dones, isOnClose, LogicIo.close, LogicIo.post, LogicIo.setSession, hts]
  | onClosed =>
    cases h
    simp [dones, isOnClose, LogicIo.post]

/-- A handler posts the task of `OnClose` as often as it calls `OnClose`. -/
lemma signals_eq {xs : List (Session.Signal β φ)} (h : σ.signals w t now xs = (σ', out)) :
    σ'.io = σ.io ∧ σ'.logic.accepted = σ.logic.accepted ∧ dones out = [] ∧
      σ'.logic.tasks.count (.onClose s) =
        σ.logic.tasks.count (.onClose s) + if t = s then closes xs else 0 := by
  induction xs generalizing σ out with
  | nil =>
    cases h
    simp [closes, dones]
  | cons x xs ih =>
    obtain ⟨τ, o, hone⟩ : ∃ τ o, signal w t now σ x = (τ, o) := ⟨_, _, rfl⟩
    obtain ⟨σ'', outs, hrest⟩ : ∃ σ'' outs, signals w t now τ xs = (σ'', outs) := ⟨_, _, rfl⟩
    simp only [signals, hone, hrest, Prod.mk.injEq] at h
    obtain ⟨rfl, rfl⟩ := h
    obtain ⟨hio, hacc, hdones, hcount⟩ := ih hrest
    obtain ⟨hio', hacc', hdones', hcount'⟩ := signal_eq (s := s) hone
    refine ⟨hio.trans hio', hacc.trans hacc', by simp [hdones, hdones'], ?_⟩
    rw [hcount, hcount']
    by_cases hts : t = s
    · cases hx : isOnClose x
      · simp [closes, hx, hts]
      · simp only [closes, List.countP_cons, hx, hts, if_true, Bool.toNat_true]
        omega
    · simp [hts]

/-! ## The life of a connection -/

/-- A connection that is not accepted yet is blank, and one that is lives: the task of `OnClose` was
posted as often as `OnClose` was called. -/
structure Lives (w : Wire β φ) (s : ℕ) (tr : List (Obs β φ)) (σ : GameServer β φ) : Prop where
  blank : σ.logic.accepted ≤ s → σ.io s = {} ∧ deletions s tr σ = 0
  lives : s < σ.logic.accepted → ∃ xs, (Lifetime.machine w.hooks true).Run
    (fun _ x e => Lifetime.FailsFirst w.hooks x e) xs (σ.life s) ∧ closes xs = deletions s tr σ

/-- Steps that do not concern the connection. -/
lemma Lives.of_eq (h : Lives w s tr σ) (hio : σ'.io s = σ.io s)
    (hacc : σ'.logic.accepted = σ.logic.accepted)
    (hdel : deletions s (tr ++ out) σ' = deletions s tr σ) : Lives w s (tr ++ out) σ' where
  blank hs := by
    rw [hio, hdel]
    exact h.blank (hacc ▸ hs)
  lives hs := by
    rw [hdel, life, hio]
    exact h.lives (hacc ▸ hs)

/-- A step in the life of the connection. -/
lemma Lives.step {e : Lifetime.Event β φ} {xs : List (Session.Signal β φ)} (h : Lives w s tr σ)
    (hs : s < σ.logic.accepted) (hacc : σ'.logic.accepted = σ.logic.accepted)
    (hfirst : Lifetime.FailsFirst w.hooks (σ.life s) e)
    (hstep : Lifetime.step w.hooks (σ.life s) e = some (σ'.life s, xs))
    (hdel : deletions s (tr ++ out) σ' = deletions s tr σ + closes xs) :
    Lives w s (tr ++ out) σ' where
  blank hs' := absurd hs (by omega)
  lives _ := by
    obtain ⟨ys, hrun, hcloses⟩ := h.lives hs
    refine ⟨ys ++ xs, hrun.snoc hfirst hstep, ?_⟩
    rw [Lifetime.closes_append, hcloses, hdel]

/-- The connection `s` is the only one that a step on `s` changes. -/
lemma life_setIo {x : Session β φ} (h : (σ.io s).isOpen = x.isOpen) :
    (σ.setIo s x).life s = { σ.life s with session := x } := by
  simp [life, setIo, h]

/-- A connection keeps its state while another one changes. -/
lemma io_setIo_of_ne {x : Session β φ} (h : t ≠ s) : (σ.setIo t x).io s = σ.io s := by
  simp [setIo, h.symm]

/-- An operation on the connection `t` that calls no function of the owner. -/
lemma Lives.setIo {x : Session β φ} (h : Lives w s tr σ) (ht : t < σ.logic.accepted)
    (hx : (σ.io t).Extends x) (hout : dones out = [])
    (hstep : t = s → ∃ e : Lifetime.Event β φ, Lifetime.FailsFirst w.hooks (σ.life s) e ∧
      Lifetime.step w.hooks (σ.life s) e = some ({ σ.life s with session := x }, [])) :
    Lives w s (tr ++ out) (σ.setIo t x) := by
  have hdel : deletions s (tr ++ out) (σ.setIo t x) = deletions s tr σ := by
    simp [deletions, GameServer.setIo, hout]
  by_cases hts : t = s
  · subst hts
    obtain ⟨e, hfirst, hstep⟩ := hstep rfl
    exact h.step ht rfl hfirst (life_setIo hx.isOpen.symm ▸ hstep) (by simpa [closes] using hdel)
  · exact h.of_eq (io_setIo_of_ne hts) rfl hdel

/-- A connection starts to live when it is accepted. -/
lemma Lives.accept (h : Lives w s tr σ) (now : ℕ) : Lives w s (tr ++ []) (σ.accept now) := by
  have hacc : (σ.accept now).logic.accepted = σ.logic.accepted + 1 := rfl
  have hdel : deletions s (tr ++ []) (σ.accept now) = deletions s tr σ := by
    simp [deletions, GameServer.accept, LogicIo.accept, LogicIo.post]
  have hio : σ.logic.accepted ≠ s → (σ.accept now).io s = σ.io s := io_setIo_of_ne
  refine ⟨fun hs => ?_, fun hs => ?_⟩
  · rw [hio (by omega), hdel]
    exact h.blank (by omega)
  · rcases Nat.lt_or_eq_of_le (Nat.lt_succ_iff.mp (hacc ▸ hs)) with hs | rfl
    · rw [life, hio hs.ne', hdel]
      exact h.lives hs
    · obtain ⟨hblank, hnone⟩ := h.blank (Nat.le_refl _)
      have hlife : (σ.accept now).life σ.logic.accepted = Lifetime.init true := by
        simp [life, GameServer.accept, GameServer.setIo, hblank, Lifetime.init, Session.asyncRead,
          Session.armTimer, Session.stopTimer]
      rw [hlife, hdel, hnone]
      exact ⟨[], .nil, rfl⟩

/-- The logic thread runs the task of `OnClose`, or it answers a request. -/
lemma Lives.logic {u : LogicTask} {us : List LogicTask} {logic : LogicIo} {d : Done}
    (h : Lives w s tr σ) (htasks : σ.logic.tasks = u :: us) (hu : u.session < σ.logic.accepted)
    (hrun : { σ.logic with tasks := us }.runTask u = (logic, d)) :
    Lives w s (tr ++ [.ran d]) ({ σ with logic }.reply w d) := by
  have hran : logic.accepted = σ.logic.accepted ∧ logic.tasks = us ∧
      [d].countP (isDeletion s) = [u].count (.onClose s) ∧
      ∀ t req res, d = .login t req res → t < σ.logic.accepted := by
    cases u <;> cases hrun <;> simp [isDeletion, LogicIo.setSession, List.count_singleton]
    exact hu
  obtain ⟨hacc, htasks', hdeletion, hlogin⟩ := hran
  have hdel : deletions s (tr ++ [.ran d]) { σ with logic } = deletions s tr σ := by
    have hdones : dones (tr ++ [.ran d]) = dones tr ++ [d] := dones_append
    have hcount : (u :: us).count (LogicTask.onClose s) =
        [u].count (.onClose s) + us.count (.onClose s) := by rw [← List.count_append]; rfl
    rw [deletions, deletions, hdones, List.countP_append, hdeletion, htasks', htasks, hcount,
      Nat.add_assoc]
  have hquiet : Lives w s (tr ++ [.ran d]) { σ with logic } := h.of_eq rfl hacc hdel
  cases d with
  | login t req res =>
    have hwrite : Lives w s (tr ++ [.ran (.login t req res)] ++ []) _ :=
      hquiet.setIo (hacc ▸ hlogin t req res rfl) (Session.extends_post (.write (w.sendMsg ⟨res⟩)))
        rfl fun hts => ⟨.write (w.sendMsg ⟨res⟩), by simp [Lifetime.FailsFirst, Lifetime.fails],
          by simp [Lifetime.step, life, hts, Session.write]⟩
    rwa [List.append_nil] at hwrite
  | addSession | ping | delUser | onClosed => exact hquiet

/-- An io thread runs a handler of the connection `t`. -/
lemma Lives.io {y : Session β φ} {xs : List (Session.Signal β φ)} (h : Lives w s tr σ)
    (ht : t < σ.logic.accepted)
    (hfirst : t = s → Lifetime.FailsFirst w.hooks (σ.life s) (.run (σ.notAlive s now)))
    (hrun : (σ.io t).runHandler w.hooks (σ.notAlive t now) = some (y, xs))
    (hsig : (σ.setIo t y).signals w t now xs = (σ', out)) : Lives w s (tr ++ out) σ' := by
  obtain ⟨hd, rest, -, hh⟩ := Session.runHandler_cases hrun
  obtain ⟨hio, hacc, hdones, hcount⟩ := signals_eq (s := s) hsig
  by_cases hts : t = s
  · subst hts
    have hopen := Lifetime.isOpen_of_handled hh
    have hlife : Lifetime.step w.hooks (σ.life t) (.run (σ.notAlive t now)) =
        some (σ'.life t, xs) := by
      simp [Lifetime.step, life, hrun, hio, GameServer.setIo, hopen]
    refine h.step ht hacc (hfirst rfl) hlife ?_
    simp [deletions, hdones, hcount, GameServer.setIo, Nat.add_assoc]
  · refine h.of_eq (by rw [hio, io_setIo_of_ne hts]) hacc ?_
    simp [deletions, hdones, hcount, hts, GameServer.setIo]

/-- **What a step of the server is for a connection.**

**Proof sketch.** By cases on the event. What happens to the connection itself is the same event of
its life, which the guard allows (`lifeEvent`); what happens to another one leaves it as it is. A
task that the logic thread runs may write to it, which is an event of its life as well. -/
lemma Lives.next {e : Event φ} (h : Lives w s tr σ)
    (htasks : ∀ u ∈ σ.logic.tasks, u.session < σ.logic.accepted) (hfirst : FailsFirst w s σ e)
    (hstep : σ.step w e = some (σ', out)) : Lives w s (tr ++ out) σ' := by
  cases e with
  | accept now =>
    cases hstep
    exact h.accept now
  | readDone t result =>
    simp only [GameServer.step] at hstep
    split at hstep
    · obtain ⟨x, hx, heq⟩ := Option.map_eq_some_iff.mp hstep
      cases heq
      refine h.setIo ‹_› (Session.extends_completeRead hx) dones_arrived ?_
      rintro rfl
      exact ⟨.readDone result, hfirst _ (by simp [lifeEvent]), by simp [Lifetime.step, life, hx]⟩
    · cases hstep
  | writeDone t ok =>
    simp only [GameServer.step] at hstep
    split at hstep
    · obtain ⟨x, hx, heq⟩ := Option.map_eq_some_iff.mp hstep
      cases heq
      refine h.setIo ‹_› (Session.extends_completeWrite hx) rfl ?_
      rintro rfl
      exact ⟨.writeDone ok, hfirst _ (by simp [lifeEvent]), by simp [Lifetime.step, life, hx]⟩
    · cases hstep
  | timerDone t =>
    simp only [GameServer.step] at hstep
    split at hstep
    · obtain ⟨x, hx, heq⟩ := Option.map_eq_some_iff.mp hstep
      cases heq
      refine h.setIo ‹_› (Session.extends_expireTimer hx) rfl ?_
      rintro rfl
      exact ⟨.timerDone, hfirst _ (by simp [lifeEvent]), by simp [Lifetime.step, life, hx]⟩
    · cases hstep
  | io t now =>
    simp only [GameServer.step] at hstep
    split at hstep
    · obtain ⟨⟨y, xs⟩, hrun, hsig⟩ := Option.map_eq_some_iff.mp hstep
      refine h.io ‹_› ?_ hrun hsig
      rintro rfl
      exact hfirst _ (by simp [lifeEvent])
    · cases hstep
  | logic =>
    simp only [GameServer.step] at hstep
    split at hstep
    · cases hstep
    · rename_i u us hqueue
      cases hstep
      exact h.logic hqueue (htasks u (by simp [hqueue])) rfl

/-- **A run of the server makes a run of every connection.** -/
lemma lives_of_run (hrun : (machine w).Run (fun _ σ e => FailsFirst w s σ e) tr σ) :
    Lives w s tr σ := by
  refine hrun.invariant (fun tr σ => Lives w s tr σ) ⟨fun _ => ⟨rfl, rfl⟩, ?_⟩
    fun tr σ e σ' out hrun ih hg hstep => ?_
  · intro hs
    exact absurd hs (Nat.not_lt_zero s)
  · exact ih.next (LogicIo.wellFormed_of_run (logic_reach hrun)).tasks hg hstep

/-- **When a connection is closed once.** In every run of a `Session` or a `Pipe` in which no
failure comes after another one, `OnClose` and `OnClosed` are called once at most. A failure after
another one has led to a second call of `OnClose` when the handlers that are queued then have run.
In every run of the server in which no failure of a session comes after another one, it posts one
task, at most, that deletes the user and the session. -/
theorem close_once (w : Wire β φ) :
    (∀ (hooks : Session.Hooks φ) (connected : Bool) (tr : List (Session.Signal β φ))
      (σ : Lifetime β φ), (Lifetime.machine hooks connected).Run
        (fun _ σ e => Lifetime.FailsFirst hooks σ e) tr σ → closes tr ≤ 1 ∧ closeds tr ≤ 1) ∧
    (∀ (hooks : Session.Hooks φ) (connected : Bool) (tr : List (Session.Signal β φ))
      (σ : Lifetime β φ) (e : Lifetime.Event β φ) (σ' : Lifetime β φ) (out : List _),
      (Lifetime.machine hooks connected).Reach tr σ → ¬ Lifetime.FailsFirst hooks σ e →
      Lifetime.step hooks σ e = some (σ', out) → ∃ n tr' σ'',
        (Lifetime.machine hooks connected).exec (fun _ _ _ => true) (tr ++ out) σ'
          (List.replicate n (.run false)) = some (tr', σ'') ∧ 2 ≤ closes tr') ∧
    ∀ (s : ℕ) (tr : List (Obs β φ)) (σ : GameServer β φ),
      (machine w).Run (fun _ σ e => FailsFirst w s σ e) tr σ → deletions s tr σ ≤ 1 := by
  have honce : ∀ (hooks : Session.Hooks φ) (connected : Bool) (tr : List (Session.Signal β φ))
      (σ : Lifetime β φ), (Lifetime.machine hooks connected).Run
        (fun _ σ e => Lifetime.FailsFirst hooks σ e) tr σ → closes tr ≤ 1 ∧ closeds tr ≤ 1 :=
    fun hooks connected tr σ hrun => by
      have hcloses := Lifetime.closes_le_one hrun
      have hbalance := (Lifetime.balance hrun).1
      omega
  refine ⟨honce, fun hooks connected tr σ e σ' out hrun hfirst hstep => ?_, fun s tr σ hrun => ?_⟩
  · obtain ⟨hfails, hfailed⟩ := Classical.not_imp.mp hfirst
    exact Lifetime.close_twice hrun hfails (not_not.mp hfailed) hstep
  · have hlives := lives_of_run hrun
    rcases Nat.lt_or_ge s σ.logic.accepted with hs | hs
    · obtain ⟨xs, hxs, hdel⟩ := hlives.lives hs
      exact hdel ▸ (honce _ _ _ _ hxs).1
    · exact (hlives.blank hs).2 ▸ Nat.zero_le 1

/-- The peer closes the connection: the outstanding read fails, and the connection is closed. -/
theorem close_once_read : ∃ (tr : List (Session.Signal UserBuffer UserBuffer))
    (σ : Lifetime UserBuffer UserBuffer), (Lifetime.machine sampleWire.hooks true).Run
      (fun _ σ e => Lifetime.FailsFirst sampleWire.hooks σ e) tr σ ∧ σ.closed = true ∧
      (closes tr ≤ 1 ∧ closeds tr ≤ 1) := by
  obtain ⟨r, hexec, hclosed⟩ : ∃ r ∈ (Lifetime.machine (β := UserBuffer) sampleWire.hooks true).exec
      (fun _ σ e => decide (Lifetime.FailsFirst sampleWire.hooks σ e)) []
      (Lifetime.machine sampleWire.hooks true).init
      [.readDone none, .run false, .run false, .run false], r.2.closed = true := by
    decide +kernel
  have hrun := Machine.run_of_exec (fun tr σ e h => of_decide_eq_true h) hexec
  exact ⟨r.1, r.2, hrun, hclosed, (close_once sampleWire).1 _ _ _ _ hrun⟩

/-- The peer resets the connection while a frame is being written: the read fails, and so does the
write. -/
theorem close_once_fails : ¬ ∀ (hooks : Session.Hooks UserBuffer) (connected : Bool)
    (tr : List (Session.Signal UserBuffer UserBuffer)) (σ : Lifetime UserBuffer UserBuffer),
    (Lifetime.machine hooks connected).Reach tr σ → closes tr ≤ 1 ∧ closeds tr ≤ 1 := by
  intro h
  obtain ⟨r, hexec, hcloses⟩ : ∃ r ∈ (Lifetime.machine sampleWire.hooks true).exec
      (fun _ _ _ => true) [] (Lifetime.machine sampleWire.hooks true).init
      [.write (sampleWire.sendMsg ⟨.kLoginResSuccess⟩), .run false, .readDone none,
        .writeDone false, .run false, .run false], closes r.1 = 2 := by
    decide +kernel
  have honce := (h _ _ _ _ (Machine.run_of_exec (fun _ _ _ _ => trivial) hexec)).1
  omega

end GameServer

end FightingCard
