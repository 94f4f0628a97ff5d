import Mathlib.Order.Interval.Finset.Nat
import FightingCard.Server.Logic

set_option relaxedAutoImplicit false
set_option autoImplicit false

/-!
# Session ids

`UserSessionManager` gives every session an id from a 32-bit counter that skips `0`
(`server/user_session_manager.cpp`). The ids repeat with the period `2 ^ 32 - 1`, and nothing
compares a new id with those in use: `std::map::insert` keeps the old entry. This file follows
the manager over runs of any length in which every session is added once and deleted at most
once, and says in which of them the ids stay unambiguous.

## Main definitions

* `FightingCard.SessionTable` — the manager with the ids of the sessions that were added.
* `FightingCard.SessionTable.Unambiguous` — the ids of the registered sessions tell them apart.
* `FightingCard.SessionTable.SlotFree` — the id that a new session gets is not in use.

## Main results

* `FightingCard.SessionTable.unambiguous_iff_slotFree` — the ids stay unambiguous exactly in the
  runs in which no id is given out again while it is in use.
* `FightingCard.SessionTable.unambiguous_fails` — a session that outlives `2 ^ 32 - 2` others
  shares its id with the next one.
-/

namespace FightingCard

/-- The manager and the sessions, which are named by the order in which they are added: how many
were added, `session_id_` of each of them, and which ones were deleted. -/
structure SessionTable where
  manager : UserSessionManager := {}
  added : ℕ := 0
  sessionId : ℕ → ℕ := fun _ => 0
  deleted : ℕ → Bool := fun _ => false

namespace SessionTable

/-- `AddSession` of a fresh session, or `DelSession` with the id of a registered one. -/
inductive Event where
  | addSession
  | delSession (s : ℕ)
  deriving DecidableEq

/-- The sessions that are added and not yet deleted. -/
def Registered (σ : SessionTable) (s : ℕ) : Prop := s < σ.added ∧ σ.deleted s = false

instance {σ : SessionTable} {s : ℕ} : Decidable (σ.Registered s) := by
  unfold Registered
  infer_instance

/-- One call, with the id that it gives out. -/
def step (σ : SessionTable) : Event → Option (SessionTable × List ℕ)
  | .addSession =>
    let (manager, sessionId) := σ.manager.addSession σ.added
    some ({ σ with
      manager
      added := σ.added + 1
      sessionId := Function.update σ.sessionId σ.added sessionId }, [sessionId])
  | .delSession s =>
    if σ.Registered s then
      some ({ σ with
        manager := σ.manager.delSession (σ.sessionId s)
        deleted := Function.update σ.deleted s true }, [])
    else none

/-- The calls as a machine. -/
def machine : Machine SessionTable Event ℕ := ⟨{}, step⟩

/-- The ids tell the registered sessions apart: they are not `0`, no two are the same, and
`GetSession` finds every registered session under its id. -/
structure Unambiguous (σ : SessionTable) : Prop where
  nonzero : ∀ s, σ.Registered s → σ.sessionId s ≠ 0
  distinct : ∀ s t, σ.Registered s → σ.Registered t → σ.sessionId s = σ.sessionId t → s = t
  found : ∀ s, σ.Registered s → σ.manager.getSession (σ.sessionId s) = some s

/-- The number of ids: all 32-bit numbers but `0`. -/
def idCount : ℕ := 2 ^ 32 - 1

/-- A session is added only after the session that was added `idCount` additions before it has
been deleted. -/
def SlotFree (σ : SessionTable) (e : Event) : Prop :=
  e = .addSession → idCount ≤ σ.added → σ.deleted (σ.added - idCount) = true

instance {σ : SessionTable} {e : Event} : Decidable (σ.SlotFree e) := by
  unfold SlotFree
  infer_instance

/-- A call leaves the ids unambiguous. -/
def StaysUnambiguous (σ : SessionTable) (e : Event) : Prop :=
  ∀ σ' out, σ.step e = some (σ', out) → σ'.Unambiguous

/-! ## The ids of a run -/

/-- The id of the session that is added after `n` others. -/
def idOf (n : ℕ) : ℕ := n % idCount + 1

/-- No id is 0. -/
lemma idOf_pos (n : ℕ) : idOf n ≠ 0 := Nat.succ_ne_zero _

/-- The ids repeat. -/
lemma idOf_add_idCount (n : ℕ) : idOf (n + idCount) = idOf n := by
  rw [idOf, Nat.add_mod_right, idOf]

/-- The counter passes from the id of one session to the id of the next. -/
lemma next_idOf (n : ℕ) : (if (idOf n + 1) % 2 ^ 32 = 0 then ((idOf n + 1) % 2 ^ 32 + 1) % 2 ^ 32
    else (idOf n + 1) % 2 ^ 32) = idOf (n + 1) := by
  have hperiod : idCount = 4294967295 := by decide
  simp only [idOf, hperiod]
  by_cases hlast : (n % 4294967295 + 1 + 1) % 2 ^ 32 = 0
  · rw [if_pos hlast]
    omega
  · rw [if_neg hlast]
    omega

/-- Sessions that are fewer than `idCount` additions apart have different ids. -/
lemma idOf_injOn_window {n s t : ℕ} (hs : s ∈ Finset.Ico n (n + idCount))
    (ht : t ∈ Finset.Ico n (n + idCount)) (h : idOf s = idOf t) : s = t :=
  Nat.mod_injOn_Ico n idCount hs ht (Nat.succ_injective h)

/-- What holds along every run: the counter has the id of the last session, the sessions have the
ids in order, and only sessions that were added have been deleted. -/
structure Numbered (σ : SessionTable) : Prop where
  counter : σ.manager.counter = if σ.added = 0 then 0 else idOf (σ.added - 1)
  sessionId : ∀ s < σ.added, σ.sessionId s = idOf s
  fresh : ∀ s, σ.added ≤ s → σ.deleted s = false

variable {σ σ' : SessionTable} {e : Event} {out tr : List ℕ} {s : ℕ}

/-- What `AddSession` does when its counter moves on to `sessionId`. -/
lemma addSession_eq {m : UserSessionManager} {sessionId : ℕ}
    (h : (if (m.counter + 1) % 2 ^ 32 = 0 then ((m.counter + 1) % 2 ^ 32 + 1) % 2 ^ 32
      else (m.counter + 1) % 2 ^ 32) = sessionId) : m.addSession s =
        (⟨sessionId, Function.update m.userSessions sessionId
          (some ((m.userSessions sessionId).getD s))⟩, sessionId) := by
  simp only [UserSessionManager.addSession, h]
  cases hfind : m.userSessions sessionId with
  | none => rfl
  | some t => simp [hfind]

/-- The manager after the next session has been added under its id, unless the id is in use. -/
lemma Numbered.addSession (h : σ.Numbered) : σ.manager.addSession σ.added =
    (⟨idOf σ.added, Function.update σ.manager.userSessions (idOf σ.added)
      (some ((σ.manager.userSessions (idOf σ.added)).getD σ.added))⟩, idOf σ.added) := by
  apply addSession_eq
  rw [h.counter]
  by_cases hzero : σ.added = 0
  · rw [if_pos hzero, hzero]
    decide
  · obtain ⟨n, hn⟩ := Nat.exists_eq_succ_of_ne_zero hzero
    rw [if_neg hzero, hn, Nat.succ_sub_one, next_idOf]

/-- What a call does: the next session gets the id in order and is entered unless the id is in
use, or a registered session is deleted. -/
inductive Step (σ : SessionTable) : Event → SessionTable → Prop
  | addSession : Step σ .addSession
      { manager := ⟨idOf σ.added, Function.update σ.manager.userSessions (idOf σ.added)
          (some ((σ.manager.userSessions (idOf σ.added)).getD σ.added))⟩
        added := σ.added + 1
        sessionId := Function.update σ.sessionId σ.added (idOf σ.added)
        deleted := σ.deleted }
  | delSession {s : ℕ} (hs : σ.Registered s) : Step σ (.delSession s)
      { σ with
        manager := σ.manager.delSession (σ.sessionId s)
        deleted := Function.update σ.deleted s true }

/-- **What a call does.** -/
lemma Numbered.step_cases (h : σ.Numbered) (hstep : σ.step e = some (σ', out)) :
    Step σ e σ' := by
  cases e with
  | addSession =>
    simp only [step, h.addSession] at hstep
    cases hstep
    exact .addSession
  | delSession s =>
    simp only [step] at hstep
    split at hstep
    · cases hstep
      exact .delSession ‹_›
    · cases hstep

/-- At first nothing has been added. -/
lemma numbered_init : machine.init.Numbered :=
  ⟨rfl, fun _ hs => absurd hs (Nat.not_lt_zero _), fun _ _ => rfl⟩

/-- A call keeps the numbering. -/
lemma Numbered.step (h : σ.Numbered) (hstep : Step σ e σ') : σ'.Numbered := by
  cases hstep with
  | addSession =>
    refine ⟨by simp, fun s (hs : s < σ.added + 1) => ?_, fun s (hs : σ.added + 1 ≤ s) => ?_⟩
    · by_cases hnew : s = σ.added
      · simp [hnew]
      · simpa [hnew] using h.sessionId s (by omega)
    · exact h.fresh s (by omega)
  | @delSession s hs =>
    refine ⟨h.counter, h.sessionId, fun t (ht : σ.added ≤ t) => ?_⟩
    have hne : t ≠ s := by
      have := hs.1
      omega
    simpa [hne] using h.fresh t ht

/-! ## Runs in which no id is given out twice at a time -/

/-- What holds along such a run as well: the registered sessions are among the last `idCount` that
were added, and `user_sessions_` has exactly the registered sessions, under their ids. -/
structure Tracked (σ : SessionTable) : Prop extends Numbered σ where
  window : ∀ s, σ.Registered s → σ.added ≤ s + idCount
  table : ∀ id s, σ.manager.getSession id = some s ↔ σ.Registered s ∧ idOf s = id

/-- Registered sessions have different ids. -/
lemma Tracked.idOf_inj (h : σ.Tracked) {t : ℕ} (hs : σ.Registered s) (ht : σ.Registered t)
    (heq : idOf s = idOf t) : s = t := by
  have hslt := hs.1
  have htlt := ht.1
  have hswin := h.window s hs
  have htwin := h.window t ht
  apply idOf_injOn_window (n := σ.added - idCount) _ _ heq <;> rw [Finset.mem_Ico] <;> omega

/-- Where all sessions are tracked, the ids tell them apart. -/
lemma Tracked.unambiguous (h : σ.Tracked) : σ.Unambiguous := by
  refine ⟨fun s hs => ?_, fun s t hs ht heq => ?_, fun s hs => ?_⟩
  · rw [h.sessionId s hs.1]
    exact idOf_pos s
  · rw [h.sessionId s hs.1, h.sessionId t ht.1] at heq
    exact h.idOf_inj hs ht heq
  · rw [h.sessionId s hs.1]
    exact (h.table _ s).mpr ⟨hs, rfl⟩

/-- No registered session has the id of the next one if the slot of the next one is free. -/
lemma Tracked.unused (h : σ.Tracked) (hfree : σ.SlotFree .addSession) (hs : σ.Registered s) :
    σ.added < s + idCount ∧ idOf s ≠ idOf σ.added := by
  have hwindow := h.window s hs
  have hlt : σ.added < s + idCount := by
    by_contra hge
    have hdeleted := hfree rfl (by omega)
    rw [show σ.added - idCount = s by omega, hs.2] at hdeleted
    cases hdeleted
  refine ⟨hlt, fun heq => ?_⟩
  have hsame := idOf_injOn_window (n := s) (by rw [Finset.mem_Ico, idCount]; omega)
    (Finset.mem_Ico.mpr ⟨hs.1.le, hlt⟩) heq
  exact absurd hs.1 (by omega)

/-- The sessions that are registered after the next one was added. -/
lemma Numbered.registered_addSession (h : σ.Numbered) (hstep : Step σ .addSession σ') (t : ℕ) :
    σ'.Registered t ↔ t = σ.added ∨ σ.Registered t := by
  cases hstep
  have hfresh := h.fresh σ.added le_rfl
  simp only [Registered]
  constructor
  · rintro ⟨hlt, hdel⟩
    by_cases hnew : t = σ.added
    · exact .inl hnew
    · exact .inr ⟨by omega, hdel⟩
  · rintro (rfl | ⟨hlt, hdel⟩)
    · exact ⟨by omega, hfresh⟩
    · exact ⟨by omega, hdel⟩

/-- The sessions that are registered after a session was deleted. -/
lemma registered_delSession (hstep : Step σ (.delSession s) σ') (t : ℕ) :
    σ'.Registered t ↔ t ≠ s ∧ σ.Registered t := by
  cases hstep
  by_cases ht : t = s <;> simp [Registered, ht]

/-- Adding a session under an id that is not in use keeps track of the sessions.

**Proof sketch.** No registered session has the id of the new one (`Tracked.unused`), so that
`insert` enters it (`hnone`). The lookups are then those from before but for the new id (`hfind`),
and the window moves on by one, past the session whose slot is free. -/
lemma Tracked.addSession (h : σ.Tracked) (hfree : σ.SlotFree .addSession)
    (hstep : Step σ .addSession σ') : σ'.Tracked := by
  have hreg := h.toNumbered.registered_addSession hstep
  -- the id of the new session is not in the map, so the session is entered under it
  have hnone : σ.manager.userSessions (idOf σ.added) = none := by
    by_contra hne
    obtain ⟨t, ht⟩ := Option.ne_none_iff_exists'.mp hne
    obtain ⟨hreg, heq⟩ := (h.table _ t).mp ht
    exact (h.unused hfree hreg).2 heq
  have hadded : σ'.added = σ.added + 1 := by cases hstep; rfl
  have hfind : ∀ id, σ'.manager.getSession id =
      if id = idOf σ.added then some σ.added else σ.manager.getSession id := by
    intro id
    cases hstep
    by_cases hid : id = idOf σ.added <;> simp [UserSessionManager.getSession, hid, hnone]
  refine ⟨h.toNumbered.step hstep, fun s hs => ?_, fun id s => ?_⟩
  · rcases (hreg s).mp hs with rfl | hs
    · rw [hadded, idCount]
      omega
    · have := (h.unused hfree hs).1
      omega
  · rw [hfind, hreg]
    by_cases hid : id = idOf σ.added
    · rw [if_pos hid, hid]
      constructor
      · rintro ⟨rfl⟩
        exact ⟨.inl rfl, rfl⟩
      · rintro ⟨rfl | hs, heq⟩
        · rfl
        · exact absurd heq (h.unused hfree hs).2
    · rw [if_neg hid, h.table]
      constructor
      · rintro ⟨hs, heq⟩
        exact ⟨.inr hs, heq⟩
      · rintro ⟨rfl | hs, heq⟩
        · exact absurd heq.symm hid
        · exact ⟨hs, heq⟩

/-- Deleting a registered session keeps track of the others. -/
lemma Tracked.delSession (h : σ.Tracked) (hstep : Step σ (.delSession s) σ') : σ'.Tracked := by
  have hreg := registered_delSession hstep
  have hs : σ.Registered s := by cases hstep; assumption
  have hadded : σ'.added = σ.added := by cases hstep; rfl
  have hfind : ∀ id, σ'.manager.getSession id =
      if id = idOf s then none else σ.manager.getSession id := by
    intro id
    cases hstep
    rw [← h.sessionId s hs.1]
    by_cases hid : id = σ.sessionId s <;>
      simp [UserSessionManager.getSession, UserSessionManager.delSession, hid]
  refine ⟨h.toNumbered.step hstep, fun t ht => ?_, fun id t => ?_⟩
  · rw [hadded]
    exact h.window t ((hreg t).mp ht).2
  · rw [hfind, hreg]
    by_cases hid : id = idOf s
    · rw [if_pos hid, hid]
      constructor
      · rintro ⟨⟩
      · rintro ⟨⟨hne, ht⟩, heq⟩
        exact absurd (h.idOf_inj ht hs heq) hne
    · rw [if_neg hid, h.table]
      constructor
      · rintro ⟨ht, heq⟩
        exact ⟨⟨by rintro rfl; exact hid heq.symm, ht⟩, heq⟩
      · rintro ⟨⟨-, ht⟩, heq⟩
        exact ⟨ht, heq⟩

/-- **The run lemma.** A run in which no id is given out while it is in use keeps track of the
sessions. -/
lemma tracked_of_run (h : machine.Run (fun _ => SlotFree) tr σ) : σ.Tracked := by
  refine h.invariant (fun _ => Tracked)
    ⟨numbered_init, fun _ hs => absurd hs.1 (Nat.not_lt_zero _), fun _ s => ?_⟩ ?_
  · constructor
    · rintro ⟨⟩
    · rintro ⟨hs, -⟩
      exact absurd hs.1 (Nat.not_lt_zero _)
  · intro _ σ e σ' out _ h hfree hstep
    have hcases := h.toNumbered.step_cases hstep
    cases e with
    | addSession => exact h.addSession hfree hcases
    | delSession s => exact h.delSession hcases

/-- An id that is given out while it is in use makes the ids ambiguous. -/
lemma Tracked.slotFree (h : σ.Tracked) (hstays : σ.StaysUnambiguous e) : σ.SlotFree e := by
  rintro rfl hfull
  by_contra hused
  have hlive : σ.Registered (σ.added - idCount) := ⟨by rw [idCount] at hfull ⊢; omega,
    eq_false_of_ne_true hused⟩
  obtain ⟨σ', out, hstep⟩ : ∃ σ' out, σ.step .addSession = some (σ', out) := ⟨_, _, rfl⟩
  have hcases := h.toNumbered.step_cases hstep
  have hnum := h.toNumbered.step hcases
  have hreg := h.toNumbered.registered_addSession hcases
  have hold := (hreg _).mpr (.inr hlive)
  have hnew := (hreg _).mpr (.inl rfl)
  -- the old session and the new one have the same id
  have hsame := (hstays σ' out hstep).distinct _ _ hold hnew (by
    rw [hnum.sessionId _ hold.1, hnum.sessionId _ hnew.1, ← idOf_add_idCount,
      Nat.sub_add_cancel hfull])
  rw [idCount] at hsame hfull
  omega

/-! ## A session that outlives others -/

/-- Before `idCount` sessions were added a further one can be added to a run. -/
lemma exists_run_addSession (hrun : machine.Run (fun _ => SlotFree) tr σ)
    (hroom : σ.added < idCount) : ∃ tr' σ', machine.Run (fun _ => SlotFree) tr' σ' ∧
      σ'.added = σ.added + 1 ∧ ∀ t, σ'.Registered t ↔ t = σ.added ∨ σ.Registered t := by
  obtain ⟨σ', out, hstep⟩ : ∃ σ' out, σ.step .addSession = some (σ', out) := ⟨_, _, rfl⟩
  have hnum := (tracked_of_run hrun).toNumbered
  have hcases := hnum.step_cases hstep
  refine ⟨_, σ', .snoc (e := Event.addSession) hrun (fun _ hfull => ?_) hstep, ?_,
    hnum.registered_addSession hcases⟩
  · exact absurd hfull (Nat.not_le.mpr hroom)
  · cases hcases
    rfl

/-- A registered session can be deleted in a run. -/
lemma exists_run_delSession (hrun : machine.Run (fun _ => SlotFree) tr σ) (hs : σ.Registered s) :
    ∃ tr' σ', machine.Run (fun _ => SlotFree) tr' σ' ∧ σ'.added = σ.added ∧
      ∀ t, σ'.Registered t ↔ t ≠ s ∧ σ.Registered t := by
  have hfree : σ.SlotFree (.delSession s) := by rintro ⟨⟩
  refine ⟨_, _, .snoc hrun hfree (if_pos hs), rfl, registered_delSession (.delSession hs)⟩

/-- The first session stays registered while `k` others come and go. -/
lemma exists_run_churn (k : ℕ) (hk : k < idCount) :
    ∃ tr σ, machine.Run (fun _ => SlotFree) tr σ ∧ σ.added = k + 1 ∧
      ∀ s, σ.Registered s ↔ s = 0 := by
  induction k with
  | zero =>
    obtain ⟨tr, σ, hrun, hadded, hreg⟩ := exists_run_addSession Machine.Run.nil hk
    refine ⟨tr, σ, hrun, hadded, fun s => (hreg s).trans ?_⟩
    exact or_iff_left fun hs => absurd hs.1 (Nat.not_lt_zero _)
  | succ k ih =>
    obtain ⟨_, σ₀, hrun₀, hadded₀, hreg₀⟩ := ih (by omega)
    obtain ⟨_, σ₁, hrun₁, hadded₁, hreg₁⟩ := exists_run_addSession hrun₀ (by omega)
    obtain ⟨tr, σ₂, hrun₂, hadded₂, hreg₂⟩ :=
      exists_run_delSession hrun₁ ((hreg₁ _).mpr (.inl rfl))
    refine ⟨tr, σ₂, hrun₂, by omega, fun s => ?_⟩
    rw [hreg₂, hreg₁, hreg₀]
    omega

/-! ## The ids of all runs -/

/-- **Unambiguous ids.** The ids are unambiguous after every run in which each session is added
only after the session `idCount` additions before it has been deleted, and in no other run do
they stay unambiguous.

**Proof sketch.** The id of a session is given by the number of additions before it, with period
`idCount` (`Numbered`). If the slot of every new session is free, the registered sessions are
among the last `idCount`, whose ids differ, and the map has exactly these (`tracked_of_run`). If a
slot is not free, its session and the new one share their id (`Tracked.slotFree`). -/
theorem unambiguous_iff_slotFree (tr : List ℕ) (σ : SessionTable) :
    (machine.Run (fun _ => SlotFree) tr σ → σ.Unambiguous) ∧
      (machine.Run (fun _ => StaysUnambiguous) tr σ ↔ machine.Run (fun _ => SlotFree) tr σ) := by
  refine ⟨fun h => (tracked_of_run h).unambiguous, fun h => ?_, fun h => ?_⟩
  · induction h with
    | nil => exact .nil
    | snoc _ hstays hstep ih => exact .snoc ih ((tracked_of_run ih).slotFree hstays) hstep
  · induction h with
    | nil => exact .nil
    | snoc hrun hfree hstep ih =>
      refine .snoc ih (fun σ' out hstep' => ?_) hstep
      exact (tracked_of_run (.snoc hrun hfree hstep')).unambiguous

/-- One of three sessions is deleted before the last is added, and the other two have different
ids. -/
theorem unambiguous_two : ∃ tr σ, machine.Run (fun _ => StaysUnambiguous) tr σ ∧
    σ.Registered 1 ∧ σ.Registered 2 ∧ σ.Unambiguous := by
  obtain ⟨r, hexec, hreg1, hreg2⟩ : ∃ r ∈ machine.exec (fun _ σ e => decide (σ.SlotFree e)) []
      machine.init [.addSession, .addSession, .delSession 0, .addSession],
      r.2.Registered 1 ∧ r.2.Registered 2 := by decide +kernel
  have hrun := Machine.run_of_exec (G := fun _ => SlotFree)
    (fun _ _ _ h => of_decide_eq_true h) hexec
  exact ⟨r.1, r.2, (unambiguous_iff_slotFree r.1 r.2).2.mpr hrun, hreg1, hreg2,
    (unambiguous_iff_slotFree r.1 r.2).1 hrun⟩

/-- After `2 ^ 32 - 2` sessions that came and went, the next one gets the id of the first
session. -/
theorem unambiguous_fails : ¬ ∀ tr σ, machine.Reach tr σ → σ.Unambiguous := by
  intro h
  obtain ⟨tr, σ, hrun, hadded, hreg⟩ := exists_run_churn (idCount - 1) (by decide)
  have hstays : σ.StaysUnambiguous .addSession := fun σ' out hstep =>
    h _ _ (.snoc (e := Event.addSession) hrun.reach trivial hstep)
  have hfree := (tracked_of_run hrun).slotFree hstays rfl (by rw [hadded]; decide)
  have hzero := ((hreg 0).mpr rfl).2
  rw [hadded, show idCount - 1 + 1 - idCount = 0 by decide, hzero] at hfree
  cases hfree

end SessionTable

end FightingCard
