import FightingCard.Server.Presence

set_option relaxedAutoImplicit false
set_option autoImplicit false

/-!
# Who may log in

Two questions about `LoginReqHandle`. The first is what it answers: the answer to a normal
login is determined by the history of its uid, whatever the sessions have done in between. The
second is whether a uid can be present twice. It can: a queued login skips the registration,
and a close task deletes the entry of whoever has the uid. Away from these two it cannot.

## Main definitions

* `FightingCard.Admitted` — the uid was admitted and its entry has not been deleted since.
* `FightingCard.LogicIo.SingleLogin` — no two online sessions have the same uid.
* `FightingCard.LogicTask.KeepsLogins` — the tasks that cannot break this.

## Main results

* `FightingCard.admission_law` — the answer to a normal login, by history.
* `FightingCard.single_login` — runs of tasks with `LogicTask.KeepsLogins` have single logins.
* `FightingCard.single_login_fails` — a queued login breaks it.
-/

namespace FightingCard

open History LogicIo

/-! ## The admission law -/

/-- A normal login for `uid` was answered with success, and no `DelUser(uid)` has been executed
since. -/
def Admitted (done : List Done) (uid : Bytes) : Prop :=
  Since (fun d => ∃ s, d = .login s ⟨.kLoginTypeNormal, uid⟩ .kLoginResSuccess)
    (fun d => ∃ s, d = .delUser s uid) done

variable {σ : LogicIo} {done : List Done} {s : ℕ} {uid : Bytes}

/-- A uid is granted by a login that succeeds. -/
lemma lease_eq_grant {d : Done} {a : ℕ} : d.lease = some (.grant uid a) ↔
    d = .login a ⟨.kLoginTypeNormal, uid⟩ .kLoginResSuccess := by
  cases d with
  | login s req res =>
    obtain ⟨type, u⟩ := req
    cases type <;> cases res <;> simp [Done.lease, and_comm]
  | addSession | ping | delUser | onClosed => simp [Done.lease]

/-- A uid is revoked by its deletion. -/
lemma lease_eq_revoke {d : Done} : d.lease = some (.revoke uid) ↔ ∃ s, d = .delUser s uid := by
  cases d with
  | login s req res =>
    obtain ⟨type, u⟩ := req
    cases type <;> cases res <;> simp [Done.lease]
  | addSession | ping | delUser | onClosed => simp [Done.lease]

/-- A uid has a holder exactly when it is admitted. -/
lemma isSome_holder_iff : (holder done uid).isSome ↔ Admitted done uid := by
  rw [holder, isSome_holders_iff, since_filterMap, Admitted]
  simp only [Option.mem_def, exists_eq_right, ← lease_eq_grant, ← lease_eq_revoke]
  have hgrant : ∀ d : Done, (∃ x, d.lease = some x ∧ ∃ a, x = .grant uid a) ↔
      ∃ a, d.lease = some (.grant uid a) := by
    intro d
    constructor
    · rintro ⟨_, h, a, rfl⟩
      exact ⟨a, h⟩
    · rintro ⟨a, h⟩
      exact ⟨_, h, a, rfl⟩
  simp only [hgrant]

/-- `users_` stays in step with the history along a sequence of tasks. -/
lemma tracks_runTasks (ts : List LogicTask) (hσ : σ.presence.Tracks done) :
    (σ.runTasks ts).1.presence.Tracks (done ++ (σ.runTasks ts).2) := by
  induction ts generalizing σ done with
  | nil => simpa [runTasks] using hσ
  | cons t ts ih =>
    have h := ih ((ran_runTask t).tracks hσ)
    rwa [List.append_assoc] at h

/-- What `LoginReqHandle` answers to a normal login depends on the registration of its uid
only. -/
lemma answer_normal : σ.answer s ⟨.kLoginTypeNormal, uid⟩ =
    if σ.presence.registered uid then .kLoginResLogined else .kLoginResSuccess := by
  cases hfind : σ.users.findUser uid <;> simp [answer, loginReqHandle, presence, hfind]

/-- A refused login leaves the logic thread as it was. -/
lemma runTask_of_answer_logined {req : LoginReq} (h : σ.answer s req = .kLoginResLogined) :
    (σ.runTask (.loginReq s req)).1 = σ := by
  obtain ⟨type, uid⟩ := req
  cases type with
  | kLoginTypeNormal =>
    cases hfind : σ.users.findUser uid with
    | some user => simp [runTask, loginReqHandle, hfind, setSession]
    | none => simp [answer, loginReqHandle, hfind] at h
  | kLoginTypeQueued => simp [answer, loginReqHandle] at h

/-- **The admission law.** After any sequence of tasks, a normal login for `uid` is answered with
success exactly when no normal login for `uid` was since the last `DelUser(uid)`, and with
`kLoginResLogined` otherwise; a login of any type that is answered with `kLoginResLogined`
changes neither `users_` nor its session.

**Proof sketch.** `users_` has an entry for `uid` exactly when the history of leases has a holder
for it (`tracks_runTasks`), that is, when `uid` was admitted and not deleted since. -/
theorem admission_law (ts : List LogicTask) (s : ℕ) (uid : Bytes) :
    ((runTasks {} ts).1.answer s ⟨.kLoginTypeNormal, uid⟩ = .kLoginResSuccess ↔
        ¬ Admitted (runTasks {} ts).2 uid) ∧
      ((runTasks {} ts).1.answer s ⟨.kLoginTypeNormal, uid⟩ = .kLoginResLogined ↔
        Admitted (runTasks {} ts).2 uid) ∧
      ∀ req, (runTasks {} ts).1.answer s req = .kLoginResLogined →
        ((runTasks {} ts).1.runTask (.loginReq s req)).1.users = (runTasks {} ts).1.users ∧
        ((runTasks {} ts).1.runTask (.loginReq s req)).1.sessions s =
          (runTasks {} ts).1.sessions s := by
  have htracks : (runTasks {} ts).1.presence.Tracks ([] ++ (runTasks {} ts).2) :=
    tracks_runTasks ts fun _ => rfl
  rw [List.nil_append] at htracks
  rw [answer_normal, htracks uid, ← isSome_holder_iff]
  refine ⟨?_, ?_, fun req h => ?_⟩
  · split <;> simp_all
  · split <;> simp_all
  · rw [runTask_of_answer_logined h]
    exact ⟨rfl, rfl⟩

/-- Two sessions ask for the same uid: the second one is refused and nothing changes. -/
theorem admission_law_second :
    ((runTasks {} [.loginReq 0 ⟨.kLoginTypeNormal, [117]⟩]).1.runTask
        (.loginReq 1 ⟨.kLoginTypeNormal, [117]⟩)).1.sessions 1 =
      (runTasks {} [.loginReq 0 ⟨.kLoginTypeNormal, [117]⟩]).1.sessions 1 :=
  ((admission_law [.loginReq 0 ⟨.kLoginTypeNormal, [117]⟩] 1 [117]).2.2
    ⟨.kLoginTypeNormal, [117]⟩ (by decide)).2

/-! ## Single login -/

namespace Presence

variable (p : Presence) (n : ℕ)

/-- Of `n` accepted sessions, `s` is one that is authenticated and not closed. -/
def Online (s : ℕ) : Prop := s < n ∧ p.authed s = true ∧ p.closed s = false

instance (s : ℕ) : Decidable (p.Online n s) := inferInstanceAs (Decidable (_ ∧ _ ∧ _))

/-- The online sessions have distinct uids, and all these uids are registered. -/
structure Single : Prop where
  distinct : ∀ s t, s ≠ t → p.Online n s → p.Online n t → p.userId s ≠ p.userId t
  registered : ∀ s, p.Online n s → p.registered (p.userId s) = true

end Presence

/-- The task leaves the online sessions alone: a queued login of an open session asks for a uid
that is registered and that no other online session has, and a close task runs when no online
session has the uid it deletes. -/
def LogicTask.KeepsLogins (p : Presence) (n : ℕ) : LogicTask → Prop
  | .loginReq s req =>
    req.type = .kLoginTypeQueued → p.closed s = false →
      p.registered req.uid = true ∧ ∀ t < n, t ≠ s → p.Online n t → p.userId t ≠ req.uid
  | .onClose s => ∀ t < n, p.Online n t → p.userId t ≠ p.userId s
  | _ => True

instance (p : Presence) (n : ℕ) : (t : LogicTask) → Decidable (t.KeepsLogins p n)
  | .loginReq .. => inferInstanceAs (Decidable (_ → _ → _ ∧ ∀ t < _, _))
  | .onClose _ => inferInstanceAs (Decidable (∀ t < _, _))
  | .addSession _ | .ping _ | .onClosed _ => inferInstanceAs (Decidable True)

section Single

variable {p p' : Presence} {n : ℕ} {t : LogicTask} {d : Done}

/-- A session that is online after the authentication of `s` is `s` itself, open, or was online
before. -/
lemma Presence.Online.of_authenticate {r : Bytes → Bool} {t : ℕ}
    (h : Presence.Online ⟨r, Function.update p.userId s uid, Function.update p.authed s true,
      p.closed⟩ n t) : t = s ∧ p.closed s = false ∨ t ≠ s ∧ p.Online n t := by
  by_cases hts : t = s
  · exact .inl ⟨hts, hts ▸ h.2.2⟩
  · exact .inr ⟨hts, h.1, (Function.update_of_ne hts _ _).symm.trans h.2.1, h.2.2⟩

/-- The authentication of `s` as `uid` keeps the uids apart if no other online session has
`uid` and `uid` ends up registered. -/
lemma Presence.Single.authenticate {r : Bytes → Bool} (hp : p.Single n)
    (hr : ∀ u, p.registered u = true → r u = true)
    (hnew : p.closed s = false →
      r uid = true ∧ ∀ t, t ≠ s → p.Online n t → p.userId t ≠ uid) :
    Presence.Single ⟨r, Function.update p.userId s uid, Function.update p.authed s true,
      p.closed⟩ n where
  distinct a b hab ha hb := by
    rcases ha.of_authenticate with ⟨rfl, hopen⟩ | ⟨has, ha'⟩
    · rcases hb.of_authenticate with ⟨rfl, -⟩ | ⟨hbs, hb'⟩
      · exact absurd rfl hab
      · simp only [Function.update_self, Function.update_of_ne hbs]
        exact ((hnew hopen).2 b hbs hb').symm
    · rcases hb.of_authenticate with ⟨rfl, hopen⟩ | ⟨hbs, hb'⟩
      · simp only [Function.update_self, Function.update_of_ne has]
        exact (hnew hopen).2 a has ha'
      · simp only [Function.update_of_ne has, Function.update_of_ne hbs]
        exact hp.distinct a b hab ha' hb'
  registered a ha := by
    rcases ha.of_authenticate with ⟨rfl, hopen⟩ | ⟨has, ha'⟩
    · simp only [Function.update_self]
      exact (hnew hopen).1
    · simp only [Function.update_of_ne has]
      exact hr _ (hp.registered a ha')

/-- **One task.** A task that leaves the online sessions alone keeps their uids apart. -/
lemma Presence.Ran.single (h : p.Ran t p' d) (hp : p.Single n) (ht : t.KeepsLogins p n) :
    p'.Single n := by
  cases h with
  | refused | quiet => exact hp
  | @registered s req htype hreg =>
    refine hp.authenticate (fun u hu => ?_) fun _ => ⟨by simp, fun t hts hon heq => ?_⟩
    · rw [Function.update_apply]
      split
      · rfl
      · exact hu
    · -- the uid of an online session is registered, that of the request is not
      have hthis := hp.registered t hon
      rw [heq, hreg] at hthis
      cases hthis
  | @queued s req htype =>
    refine hp.authenticate (fun u hu => hu) fun hopen => ?_
    obtain ⟨hreg, hothers⟩ := ht htype hopen
    exact ⟨hreg, fun t hts hon => hothers t hon.1 hts hon⟩
  | @deleted s =>
    refine ⟨hp.distinct, fun a ha => ?_⟩
    exact (Function.update_of_ne (ht a ha.1 ha) _ _).trans (hp.registered a ha)

end Single

namespace LogicIo

/-- `s` is accepted, authenticated and not closed. -/
def Online (σ : LogicIo) (s : ℕ) : Prop :=
  s < σ.accepted ∧ (σ.sessions s).authed = true ∧ (σ.sessions s).closed = false

instance (σ : LogicIo) (s : ℕ) : Decidable (σ.Online s) :=
  inferInstanceAs (Decidable (_ ∧ _ ∧ _))

/-- No two distinct online sessions have the same uid. -/
def SingleLogin (σ : LogicIo) : Prop :=
  ∀ s t, s ≠ t → σ.Online s → σ.Online t → (σ.sessions s).userId ≠ (σ.sessions t).userId

/-- Every task that is run leaves the online sessions alone. -/
abbrev KeepsLogins : List Done → LogicIo → Event → Prop :=
  guard (fun _ _ _ => True) fun _ σ t => t.KeepsLogins σ.presence σ.accepted

/-- **One step.**

**Proof sketch.** By cases on the step. A session that was just accepted is not authenticated, so
that it is not online; a closed one is not online any more. The others leave the presence as it is,
but for a task (`Presence.Ran.single`). -/
lemma Step.single {σ' : LogicIo} {e : Event} {out : List Done} (h : σ.Step e σ' out)
    (hσ : σ.WellFormed) (hg : KeepsLogins done σ e) (hp : σ.presence.Single σ.accepted) :
    σ'.presence.Single σ'.accepted := by
  cases h with
  | accept hpres _ hacc =>
    rw [hpres, hacc]
    -- the session just accepted is not authenticated
    have hold : ∀ s, σ.presence.Online (σ.accepted + 1) s → σ.presence.Online σ.accepted s :=
      fun s hs => by
        refine ⟨?_, hs.2⟩
        by_contra hlt
        have hblank := hσ.blank s (by omega)
        rw [hs.2.1] at hblank
        cases hblank
    exact ⟨fun s t hne hs ht => hp.distinct s t hne (hold s hs) (hold t ht),
      fun s hs => hp.registered s (hold s hs)⟩
  | dispatch _ hpres _ hacc | onClosed _ hpres _ hacc =>
    rwa [hpres, hacc]
  | @close c _ _ hpres _ hacc =>
    rw [hpres, hacc]
    have hold : ∀ s, Presence.Online { σ.presence with
        closed := Function.update σ.presence.closed c true } σ.accepted s →
        σ.presence.Online σ.accepted s := fun s hs => by
      refine ⟨hs.1, hs.2.1, ?_⟩
      have hc := hs.2.2
      simp only [Function.update_apply] at hc
      split at hc
      · cases hc
      · exact hc
    exact ⟨fun s t hne hs ht => hp.distinct s t hne (hold s hs) (hold t ht),
      fun s hs => hp.registered s (hold s hs)⟩
  | @run t _ _ hran htasks hacc =>
    rw [hacc]
    exact hran.single hp (hg t (by simp [htasks]))

end LogicIo

/-- **Single login.** In every run whose tasks leave the online sessions alone, no two online
sessions have the same uid.

**Proof sketch.** Induction on the run: the online sessions have distinct and registered uids.
An accepted normal login brings in a uid that is not registered, hence one that no online
session has. The guard takes care of queued logins and of close tasks. -/
theorem single_login (h : LogicIo.machine.Run LogicIo.KeepsLogins done σ) : σ.SingleLogin := by
  have hsingle : σ.presence.Single σ.accepted := by
    refine h.invariant (fun _ σ => σ.presence.Single σ.accepted) ?_ ?_
    · exact ⟨fun s t _ hs => absurd hs.1 (by simp [machine]),
        fun s hs => absurd hs.1 (by simp [machine])⟩
    · intro tr σ e σ' out hrun ih hg hstep
      exact (step_cases hstep).single (wellFormed_of_run hrun) hg ih
  exact hsingle.distinct

/-- Two clients log in under different uids, the first one leaves, and a third one takes over
its uid. -/
theorem single_login_takeover :
    ∃ done σ, LogicIo.machine.Run LogicIo.KeepsLogins done σ ∧ σ.SingleLogin ∧
      σ.Online 1 ∧ σ.Online 2 := by
  obtain ⟨r, hexec, honline⟩ : ∃ r ∈ machine.exec (fun tr σ e => decide (KeepsLogins tr σ e)) []
      machine.init [.accept, .accept, .accept, .dispatch 0 (.loginReq ⟨.kLoginTypeNormal, [117]⟩),
        .dispatch 1 (.loginReq ⟨.kLoginTypeNormal, [118]⟩), .run, .run, .run, .run, .run, .close 0,
        .run, .dispatch 2 (.loginReq ⟨.kLoginTypeNormal, [117]⟩), .run],
      r.2.Online 1 ∧ r.2.Online 2 := by decide
  have hrun := Machine.run_of_exec (fun tr σ e h => of_decide_eq_true h) hexec
  exact ⟨r.1, r.2, hrun, single_login hrun, honline⟩

/-- **The defect.** A queued login is not checked against `users_`: two sessions are online
under one uid. -/
theorem single_login_fails : ¬ ∀ done σ, LogicIo.machine.Reach done σ → σ.SingleLogin := by
  obtain ⟨r, hexec, hs, ht, heq⟩ : ∃ r ∈ machine.exec (fun _ _ _ => true) [] machine.init
      [.accept, .accept, .dispatch 0 (.loginReq ⟨.kLoginTypeNormal, [117]⟩),
        .dispatch 1 (.loginReq ⟨.kLoginTypeQueued, [117]⟩), .run, .run, .run, .run],
      r.2.Online 0 ∧ r.2.Online 1 ∧ (r.2.sessions 0).userId = (r.2.sessions 1).userId := by decide
  intro h
  exact h _ _ (Machine.run_of_exec (fun _ _ _ _ => trivial) hexec) 0 1 (by simp) hs ht heq

end FightingCard
