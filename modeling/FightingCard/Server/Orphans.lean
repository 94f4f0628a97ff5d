import FightingCard.Server.Closing

set_option relaxedAutoImplicit false
set_option autoImplicit false

/-!
# Entries left behind

A session that has logged in has an entry in `users_`, and its close task is to delete it. The
task deletes one uid, so a session that has logged in under two leaves an entry behind; and a
login that runs after the close task adds an entry that this task does not see. The second case
mends itself as a rule: the answer to the login is written to a closed socket, the write fails,
and the failure closes the session again. It does not when an earlier answer was still on its way
as the socket was closed: then no later one is written.

## Main definitions

* `FightingCard.GameServer.Gone` — the session is closed and has nothing left to do.
* `FightingCard.LogicTask.KeepsEntry`, `FightingCard.GameServer.AnswersAlone` — the two conditions
  on the login requests that are run.

## Main results

* `FightingCard.GameServer.endings_of_run` — the socket of a closed session is closed or about to
  be.
* `FightingCard.GameServer.no_orphan`, `FightingCard.GameServer.no_orphan_fails` — entries left
  behind.
-/

namespace FightingCard

/-- A login that is accepted comes from a session that has no entry under another uid. -/
def LogicTask.KeepsEntry (done : List Done) (p : Presence) : LogicTask → Prop
  | .loginReq s req => (req.type = .kLoginTypeQueued ∨ p.registered req.uid = false) →
      holder done (p.userId s) = some s → p.userId s = req.uid
  | .addSession _ | .ping _ | .onClose _ | .onClosed _ => True

instance (done : List Done) (p : Presence) : (t : LogicTask) → Decidable (t.KeepsEntry done p)
  | .loginReq .. => inferInstanceAs (Decidable (_ → _ → _))
  | .addSession _ | .ping _ | .onClose _ | .onClosed _ => inferInstanceAs (Decidable True)

namespace LogicIo

/-- Every entry is that of the uid its session has now. -/
def Owned (done : List Done) (σ : LogicIo) : Prop :=
  ∀ uid s, holder done uid = some s → σ.presence.userId s = uid

variable {done : List Done} {σ σ' : LogicIo}

/-- **One task.**

**Proof sketch.** By cases on the task. A login of the normal kind makes its session the holder of a
free uid and writes the uid to it. It overwrites no uid that its session holds, since the guard asks
for that, and neither does a queued login. A close task takes a holder away. -/
lemma Owned.run {t : LogicTask} {d : Done} (hσ : σ.Owned done)
    (hran : σ.presence.Ran t σ'.presence d) (hg : t.KeepsEntry done σ.presence) :
    σ'.Owned (done ++ [d]) := by
  intro uid s h
  generalize σ'.presence = p at hran
  cases hran with
  | refused =>
    rw [holder_other Done.lease_login_logined] at h
    exact hσ uid s h
  | @registered u req htype hreg =>
    rw [holder_registered htype] at h
    split at h
    · -- the entry just added
      obtain rfl := Option.some.inj h
      exact (Function.update_self ..).trans (Eq.symm ‹_›)
    · rename_i hne
      have hid := hσ uid s h
      have hsu : s ≠ u := by
        rintro rfl
        exact hne (hid.symm.trans (hg (.inr hreg) (hid ▸ h)))
      exact (Function.update_of_ne hsu _ _).trans hid
  | @queued u req htype =>
    rw [holder_other (Done.lease_login_queued htype)] at h
    have hid := hσ uid s h
    by_cases hsu : s = u
    · subst hsu
      exact (Function.update_self ..).trans ((hg (.inl htype) (hid ▸ h)).symm.trans hid)
    · exact (Function.update_of_ne hsu _ _).trans hid
  | @deleted u =>
    rw [holder_deleted] at h
    split at h
    · cases h
    · exact hσ uid s h
  | quiet _ _ hnologin hnodel =>
    rw [holder_other (Done.lease_quiet hnologin hnodel)] at h
    exact hσ uid s h

/-- In every run whose logins keep the entries of their sessions, all entries are owned. -/
lemma owned_of_run {D : LogicIo → ℕ → UserMsg → Prop}
    (h : machine.Run (guard D fun done σ t => t.KeepsEntry done σ.presence) done σ) :
    σ.Owned done := by
  refine h.invariant (fun done σ => σ.Owned done) (fun uid s h => by cases h) ?_
  intro tr σ e σ' out _ ih hg hstep
  cases step_cases hstep with
  | accept hpres | dispatch _ hpres | onClosed _ hpres | close _ hpres =>
    rw [List.append_nil]
    intro uid s h
    rw [hpres]
    exact ih uid s h
  | run hran htasks => exact ih.run hran (hg _ (by simp [htasks]))

end LogicIo

namespace GameServer

open Session

variable {β φ : Type} {w : Wire β φ} {tr : List (Obs β φ)} {σ σ' : GameServer β φ} {s : ℕ}

/-- A login that adds an entry for a closed session runs while a close task of the session is
queued, or while the session has no other frame to send. -/
def AnswersAlone (σ : GameServer β φ) : LogicTask → Prop
  | .loginReq s req => req.type = .kLoginTypeNormal → σ.logic.presence.registered req.uid = false →
      σ.logic.presence.closed s = true →
      .onClose s ∈ σ.logic.tasks ∨ (σ.io s).writeBufs = [] ∧ posted (σ.io s).queue = []
  | .addSession _ | .ping _ | .onClose _ | .onClosed _ => True

instance : (t : LogicTask) → Decidable (σ.AnswersAlone t)
  | .loginReq .. => inferInstanceAs (Decidable (_ → _ → _ → _ ∨ _ ∧ _))
  | .addSession _ | .ping _ | .onClose _ | .onClosed _ => inferInstanceAs (Decidable True)

/-- The condition on the login requests that are run. -/
abbrev KeepsEntries : List (Obs β φ) → GameServer β φ → Event φ → Prop :=
  onTask fun done σ t => t.KeepsEntry done σ.logic.presence ∧ σ.AnswersAlone t

/-- The session `s` is closed, a close task of it has run, and no task of it is pending on any
queue. -/
structure Gone (s : ℕ) (tr : List (Obs β φ)) (σ : GameServer β φ) : Prop where
  closed : (σ.logic.sessions s).closed = true
  closeRan : ∃ uid, .delUser s uid ∈ dones tr
  logicIdle : ∀ t ∈ σ.logic.tasks, t.session ≠ s
  ioIdle : (σ.io s).queue = []

/-- The logic thread does no more to a connection than to post to it. -/
lemma extends_reply {τ : LogicIo} (d : Done) :
    (σ.io s).Extends (({ σ with logic := τ }.reply w d).io s) := by
  cases d with
  | login t req res => exact extends_setIo (σ := { σ with logic := τ }) (extends_post _) s
  | addSession | ping | delUser | onClosed => exact .refl

/-! ## The way to a close task -/

section Signalled

variable {x : Session β φ} {xs : List (Signal β φ)} {τ τ' : LogicIo} {t : ℕ}

/-- Only a call of `Close()` closes a session. -/
lemma Signalled.closed_cases (h : Signalled w s x xs τ τ') (ht : τ'.presence.closed t = true) :
    τ.presence.closed t = true ∨ t = s ∧ .onClose ∈ xs := by
  cases h with
  | quiet | dispatch | onClosed => exact .inl ht
  | close hxs =>
    by_cases hts : t = s
    · exact .inr ⟨hts, hxs⟩
    · simp only [LogicIo.presence, LogicIo.close, LogicIo.post, LogicIo.setSession,
        Function.update_of_ne hts] at ht
      exact .inl ht

/-- The signals of a handler take no task away. -/
lemma Signalled.mem_tasks (h : Signalled w s x xs τ τ') {u : LogicTask} (hu : u ∈ τ.tasks) :
    u ∈ τ'.tasks := by
  cases h with
  | quiet => exact hu
  | dispatch | close | onClosed => exact List.mem_append_left _ hu

/-- A call of `Close()` posts the close task. -/
lemma Signalled.onClose_mem (h : Signalled w s x xs τ τ') (hxs : .onClose ∈ xs) :
    .onClose s ∈ τ'.tasks := by
  cases h with
  | quiet h | dispatch _ _ h | onClosed h => exact absurd hxs h
  | close => simp [LogicIo.close, LogicIo.post]

end Signalled

/-- The socket of a closed session is closed or about to be. -/
def Endings (σ : GameServer β φ) : Prop :=
  ∀ s, σ.logic.presence.closed s = true → (σ.io s).Ending

/-- The entry of a closed session is about to be deleted: a close task of the session is queued,
or a failing write is going to post one. -/
def Cleared (tr : List (Obs β φ)) (σ : GameServer β φ) : Prop :=
  ∀ uid s, holder (dones tr) uid = some s → σ.logic.presence.closed s = true →
    .onClose s ∈ σ.logic.tasks ∨ (σ.io s).Failing

section Handler

variable {now : ℕ} {h : Handler β φ} {rest : List (Handler β φ)} {y : Session β φ}
  {xs : List (Signal β φ)} {out : List (Obs β φ)}

/-- **One handler.** -/
lemma Endings.io (hσ : σ.Endings) (hqueue : (σ.io s).queue = h :: rest)
    (hout : Outcome w.hooks { σ.io s with queue := rest } h y xs)
    (hadv : Advances { σ.io s with queue := rest } h y xs)
    (hsig : (σ.setIo s y).signals w s now xs = (σ', out)) : σ'.Endings := by
  intro t ht
  rw [(signals_records (t := t) hsig).1]
  rcases (signalled hqueue hout hsig).1.closed_cases ht with hc | ⟨rfl, hxs⟩
  · by_cases hts : t = s
    · subst hts
      simpa [setIo] using (hσ t hc).handle hqueue hadv
    · simpa [setIo, hts] using hσ t hc
  · simp only [setIo, Function.update_self]
    exact fun _ => hadv.closing hxs

/-- **One handler.** -/
lemma Cleared.io (hσ : Cleared tr σ) (hqueue : (σ.io s).queue = h :: rest)
    (hout : Outcome w.hooks { σ.io s with queue := rest } h y xs)
    (hadv : Advances { σ.io s with queue := rest } h y xs)
    (hsig : (σ.setIo s y).signals w s now xs = (σ', out)) : Cleared (tr ++ out) σ' := by
  intro uid t hholder ht
  obtain ⟨hsignal, hdones⟩ := signalled hqueue hout hsig
  rw [dones_append, hdones, List.append_nil] at hholder
  rw [(signals_records (t := t) hsig).1]
  rcases hsignal.closed_cases ht with hc | ⟨rfl, hxs⟩
  · rcases hσ uid t hholder hc with hmem | hfail
    · exact .inl (hsignal.mem_tasks hmem)
    · by_cases hts : t = s
      · subst hts
        rcases hfail.handle hqueue hout hadv with hfail | hxs
        · exact .inr (by simpa [setIo] using hfail)
        · exact .inl (hsignal.onClose_mem hxs)
      · exact .inr (by simpa [setIo, hts] using hfail)
  · exact .inl (hsignal.onClose_mem hxs)

end Handler

/-- In every run the socket of a closed session is closed or about to be. -/
lemma endings_of_run {G : List (Obs β φ) → GameServer β φ → Event φ → Prop}
    (h : (machine w).Run G tr σ) : σ.Endings := by
  refine h.invariant (fun _ σ => σ.Endings) (fun s hs => by cases hs) ?_
  intro tr σ e σ' out _ ih _ hstep
  cases step_cases hstep with
  | accept hlogic _ hext =>
    intro s hs
    rw [hlogic] at hs
    exact (ih s hs).extends (hext s)
  | readDone _ hlogic _ _ hext | writeDone hlogic _ hext | timerDone hlogic _ hext =>
    exact fun s hs => (ih s (hlogic ▸ hs)).extends (hext s)
  | io _ hqueue hout hadv hsig => exact ih.io hqueue hout hadv hsig
  | @logic t ts _ _ htasks hrun hreply =>
    intro s hs
    have hran := LogicIo.ran_runTask (σ := { σ.logic with tasks := ts }) t
    rw [hrun] at hran
    rw [hran.closed_eq] at hs
    rw [hreply]
    exact (ih s hs).extends (extends_reply _)

/-- **One task.**

**Proof sketch.** By cases on the task. The holder of an entry that was there before is the same
session, whose close task or failing write is still to come, unless it is the close task that runs
now, which takes the entry away. The holder of a new entry is the session of the request. If it is
closed, the guard says that its close task is queued, or that the answer is its only frame: then it
is going to fail. -/
lemma Cleared.logic {t : LogicTask} {ts : List LogicTask} {d : Done} (hσ : Cleared tr σ)
    (hend : σ.Endings) (howned : σ.logic.Owned (dones tr)) (htasks : σ.logic.tasks = t :: ts)
    (hrun : { σ.logic with tasks := ts }.runTask t = (σ'.logic, d))
    (hreply : σ' = { σ with logic := σ'.logic }.reply w d) (hg : σ.AnswersAlone t) :
    Cleared (tr ++ [.ran d]) σ' := by
  have hran := LogicIo.ran_runTask (σ := { σ.logic with tasks := ts }) t
  have hqueue := (LogicIo.runTask_queue (σ := { σ.logic with tasks := ts }) t).1
  rw [hrun] at hran hqueue
  intro uid s hholder hs
  have hdones : dones (tr ++ [.ran d]) = dones tr ++ [d] := dones_append
  rw [hdones] at hholder
  rw [hran.closed_eq] at hs
  have hmem : .onClose s ∈ σ.logic.tasks → t ≠ .onClose s → .onClose s ∈ σ'.logic.tasks := by
    intro hmem ht
    rw [htasks, List.mem_cons] at hmem
    rw [hqueue]
    exact hmem.resolve_left (Ne.symm ht)
  have hold : holder (dones tr) uid = some s → t ≠ .onClose s →
      .onClose s ∈ σ'.logic.tasks ∨ (σ'.io s).Failing := by
    intro hh ht
    have hext : (σ.io s).Extends (σ'.io s) := by
      rw [hreply]
      exact extends_reply d
    exact (hσ uid s hh hs).imp (fun h => hmem h ht) fun h => h.extends hext
  generalize σ'.logic.presence = p at hran
  cases hran with
  | refused =>
    rw [holder_other Done.lease_login_logined] at hholder
    exact hold hholder (by simp)
  | @registered u req htype hreg =>
    rw [holder_registered htype] at hholder
    split at hholder
    · -- the entry just added: the answer is the only frame, or a close task is queued
      obtain rfl := Option.some.inj hholder
      rcases hg htype hreg hs with hclose | ⟨hbufs, hposted⟩
      · exact .inl (hmem hclose (by simp))
      · rw [hreply]
        simp only [reply, setIo, Function.update_self]
        exact .inr ((hend u hs).failing_write hbufs hposted _)
    · exact hold hholder (by simp)
  | queued htype =>
    rw [holder_other (Done.lease_login_queued htype)] at hholder
    exact hold hholder (by simp)
  | @deleted u =>
    rw [holder_deleted] at hholder
    split at hholder
    · cases hholder
    · rename_i hne
      refine hold hholder fun heq => hne ?_
      rw [LogicTask.onClose.injEq] at heq
      subst heq
      exact (howned uid u hholder).symm
  | quiet _ hclose hnologin hnodel =>
    rw [holder_other (Done.lease_quiet hnologin hnodel)] at hholder
    exact hold hholder (hclose s)

/-- The entries of a run whose logins keep them are owned. -/
lemma owned_of_run (h : (machine w).Run KeepsEntries tr σ) : σ.logic.Owned (dones tr) :=
  LogicIo.owned_of_run (D := fun _ _ _ => True) (logic_of_run (fun _ _ _ _ _ _ _ _ _ _ => trivial)
    (fun _ _ t _ hg ht => (hg t ht).1) h)

/-- In every run whose logins keep the entries, those of closed sessions are about to be
deleted. -/
lemma cleared_of_run (h : (machine w).Run KeepsEntries tr σ) : Cleared tr σ := by
  refine h.invariant (fun tr σ => Cleared tr σ) (fun uid s h => by cases h) ?_
  intro tr σ e σ' out hrun ih hg hstep
  cases step_cases hstep with
  | accept hlogic _ hext =>
    rw [List.append_nil]
    intro uid s hholder hs
    rw [hlogic] at hs ⊢
    exact (ih uid s hholder hs).imp (List.mem_append_left _) fun h => h.extends (hext s)
  | readDone _ hlogic _ _ hext =>
    intro uid s hholder hs
    rw [dones_append, dones_arrived, List.append_nil] at hholder
    rw [hlogic] at hs ⊢
    exact (ih uid s hholder hs).imp_right fun h => h.extends (hext s)
  | writeDone hlogic _ hext | timerDone hlogic _ hext =>
    rw [List.append_nil]
    intro uid s hholder hs
    rw [hlogic] at hs ⊢
    exact (ih uid s hholder hs).imp_right fun h => h.extends (hext s)
  | io _ hqueue hout hadv hsig => exact ih.io hqueue hout hadv hsig
  | logic htasks hrunTask hreply =>
    exact ih.logic (endings_of_run hrun) (owned_of_run hrun) htasks hrunTask hreply
      (hg _ (by simp [htasks])).2

/-- **No orphaned registration.** In every run whose logins keep the entries, `users_` has no
entry that was added by a login of a session that is gone.

**Proof sketch.** An entry is owned by the session that added it, which still has its uid; once
the session is closed, the task that deletes the entry is in the queue of the logic thread, or an
answer to the session is going to fail, which posts that task (`Cleared`). A session that is gone
has neither. -/
theorem no_orphan (h : (machine w).Run KeepsEntries tr σ) (hs : Gone s tr σ) {uid : Bytes}
    (huid : (σ.logic.users.findUser uid).isSome) : ∃ t ≠ s, holder (dones tr) uid = some t := by
  have htracks := LogicIo.tracks_of_run (logic_reach h) uid
  obtain ⟨t, ht⟩ := Option.isSome_iff_exists.mp (htracks.symm.trans huid)
  refine ⟨t, ?_, ht⟩
  rintro rfl
  rcases cleared_of_run h uid t ht hs.closed with hmem | hfail
  · exact hs.logicIdle _ hmem rfl
  · rcases hfail with hmem | ⟨-, before, buf, after, hqueue, -⟩
    · simp [hs.ioIdle] at hmem
    · simp [hs.ioIdle] at hqueue

/-- A session logs in after its close task, its answer fails, and another session takes over the
uid. -/
theorem no_orphan_takeover : ∃ tr σ, (machine sampleWire).Run KeepsEntries tr σ ∧ Gone 0 tr σ ∧
    .login 0 ⟨.kLoginTypeNormal, [117]⟩ .kLoginResSuccess ∈ dones tr ∧
      ∃ t ≠ 0, holder (dones tr) [117] = some t := by
  obtain ⟨r, hexec, hclosed, hran, hlogic, hio, hlogin, huid⟩ :
      ∃ r ∈ (machine sampleWire).exec (fun tr σ e => decide (KeepsEntries tr σ e)) []
        (machine sampleWire).init ([.accept 0, .accept 0, .logic, .logic,
            .readDone 0 (some (sampleLogin [117])), .io 0 1, .timerDone 0,
            .readDone 0 (some (sampleLogin [117])), .io 0 5, .io 0 5, .logic, .logic, .io 0 5,
            .io 0 5, .io 0 5, .io 0 5, .io 0 5, .io 0 5, .logic, .logic, .logic] ++
          sampleReceive 1 6 (sampleLogin [117]) ++ [.logic]),
        (r.2.logic.sessions 0).closed = true ∧ .delUser 0 [117] ∈ dones r.1 ∧
          (∀ t ∈ r.2.logic.tasks, t.session ≠ 0) ∧ (r.2.io 0).queue = [] ∧
          .login 0 ⟨.kLoginTypeNormal, [117]⟩ .kLoginResSuccess ∈ dones r.1 ∧
          (r.2.logic.users.findUser [117]).isSome = true := by decide +kernel
  have hgone : Gone 0 r.1 r.2 := ⟨hclosed, ⟨_, hran⟩, hlogic, hio⟩
  have hrun := Machine.run_of_exec (fun tr σ e h => of_decide_eq_true h) hexec
  exact ⟨r.1, r.2, hrun, hgone, hlogin, no_orphan hrun hgone huid⟩

/-- **The defect.** The close task deletes the last uid of its session only: a session that
logs in twice, under different uids, leaves its first entry behind. -/
theorem no_orphan_fails : ¬ ∀ (tr : List (Obs UserBuffer UserBuffer))
    (σ : GameServer UserBuffer UserBuffer) (s : ℕ), (machine sampleWire).Reach tr σ →
    Gone s tr σ → ∀ uid, (σ.logic.users.findUser uid).isSome →
      ∃ t ≠ s, holder (dones tr) uid = some t := by
  obtain ⟨r, hexec, hclosed, hran, hlogic, hio, huid, hholder⟩ :
      ∃ r ∈ (machine sampleWire).exec (fun _ _ _ => true) [] (machine sampleWire).init
        ([.accept 0] ++ sampleReceive 0 1 (sampleLogin [117]) ++
          sampleReceive 0 1 (sampleLogin [118]) ++ [.logic, .logic, .logic, .io 0 1, .io 0 1,
            .writeDone 0 true, .io 0 1, .writeDone 0 true, .io 0 1, .readDone 0 none, .io 0 2,
            .io 0 2, .io 0 2, .logic, .logic]),
        (r.2.logic.sessions 0).closed = true ∧ .delUser 0 [118] ∈ dones r.1 ∧
          (∀ t ∈ r.2.logic.tasks, t.session ≠ 0) ∧ (r.2.io 0).queue = [] ∧
          (r.2.logic.users.findUser [117]).isSome = true ∧
          holder (dones r.1) [117] = some 0 := by decide +kernel
  intro h
  obtain ⟨t, ht, hother⟩ := h _ _ 0 (Machine.run_of_exec (fun _ _ _ _ => trivial) hexec)
    ⟨hclosed, ⟨_, hran⟩, hlogic, hio⟩ _ huid
  exact ht (Option.some.inj (hother.symm.trans hholder))

end GameServer

end FightingCard
