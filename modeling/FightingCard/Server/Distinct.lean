import FightingCard.Server.Closing
import FightingCard.Server.Login

set_option relaxedAutoImplicit false
set_option autoImplicit false

/-!
# Users with uids of their own

What the logic thread does when no uid is asked for twice and every login is a normal one, as it
is when every client has a uid of its own. Every login is answered with success, the sessions that
are online have distinct uids, and each of them has the entry of its uid: the close task of a
session deletes the uid that the session itself has logged in with, or no entry at all.

## Main definitions

* `FightingCard.LogicTask.Fresh` — the task is no login for a uid that has been asked for.
* `FightingCard.Presence.Apart` — the invariant.

## Main results

* `FightingCard.LogicIo.apart_of_run` — it holds in every run of fresh tasks.
* `FightingCard.LogicIo.singleLogin_of_apart` — then every session is online alone.
-/

namespace FightingCard

/-- A login request is as the client of the repository sends it, under a uid for which no login has
been answered. -/
def LogicTask.Fresh (done : List Done) : LogicTask → Prop
  | .loginReq _ req => req.FromClient ∧ ∀ s req' res, .login s req' res ∈ done → req'.uid ≠ req.uid
  | .addSession _ | .ping _ | .onClose _ | .onClosed _ => True

namespace Presence

variable {p p' : Presence} {done : List Done} {t : LogicTask} {d : Done}

/-- Every login was answered with success, no two sessions have asked for one uid, an authenticated
session has a uid that it has logged in with, the others have none, and the entries are those of
uids that were asked for, among them the uid of every session that is authenticated and open. -/
structure Apart (p : Presence) (done : List Done) : Prop where
  success : ∀ s req res, .login s req res ∈ done → res = .kLoginResSuccess
  named : ∀ s req res, .login s req res ∈ done → req.uid ≠ []
  owner : ∀ s s' req req' res res', .login s req res ∈ done → .login s' req' res' ∈ done →
    req.uid = req'.uid → s = s'
  authed : ∀ s, p.authed s = true →
    ∃ req res, .login s req res ∈ done ∧ req.uid = p.userId s
  blank : ∀ s, p.authed s = false → p.userId s = []
  asked : ∀ uid, p.registered uid = true → ∃ s req res, .login s req res ∈ done ∧ req.uid = uid
  entry : ∀ s, p.authed s = true → p.closed s = false → p.registered (p.userId s) = true

/-- Two authenticated sessions with one uid are one session. -/
lemma Apart.eq_of_userId (hp : p.Apart done) {s s' : ℕ} (hs : p.authed s = true)
    (hs' : p.authed s' = true) (huid : p.userId s = p.userId s') : s = s' := by
  obtain ⟨req, res, hlogin, hreq⟩ := hp.authed s hs
  obtain ⟨req', res', hlogin', hreq'⟩ := hp.authed s' hs'
  exact hp.owner _ _ _ _ _ _ hlogin hlogin' (hreq.trans (huid.trans hreq'.symm))

/-- The uid of an authenticated session is not empty. -/
lemma Apart.userId_ne_nil (hp : p.Apart done) {s : ℕ} (hs : p.authed s = true) :
    p.userId s ≠ [] := by
  obtain ⟨req, res, hlogin, hreq⟩ := hp.authed s hs
  exact hreq ▸ hp.named _ _ _ hlogin

/-- What is done is no login: the presence stays apart if the sessions and the uids that they
have asked for stay as they are and no open session loses its entry. -/
lemma Apart.of_quiet (hp : p.Apart done) (hnologin : ∀ s req res, d ≠ .login s req res)
    (huserId : p'.userId = p.userId) (hauthed : p'.authed = p.authed)
    (hasked : ∀ uid, p'.registered uid = true → p.registered uid = true)
    (hentry : ∀ s, p.authed s = true → p'.closed s = false → p'.registered (p.userId s) = true) :
    p'.Apart (done ++ [d]) := by
  have hold : ∀ {s req res}, .login s req res ∈ done ++ [d] → .login s req res ∈ done := by
    intro s req res h
    rcases List.mem_append.mp h with h | h
    · exact h
    · exact absurd (List.mem_singleton.mp h).symm (hnologin s req res)
  refine ⟨fun s req res h => hp.success s req res (hold h),
    fun s req res h => hp.named s req res (hold h),
    fun s s' req req' res res' h h' => hp.owner s s' req req' res res' (hold h) (hold h'),
    fun s h => ?_, fun s h => ?_, fun uid h => ?_, fun s h hopen => ?_⟩
  · rw [hauthed] at h
    obtain ⟨req, res, hlogin, hreq⟩ := hp.authed s h
    exact ⟨req, res, List.mem_append_left _ hlogin, huserId ▸ hreq⟩
  · rw [huserId]
    exact hp.blank s (hauthed ▸ h)
  · obtain ⟨s, req, res, hlogin, hreq⟩ := hp.asked uid (hasked uid h)
    exact ⟨s, req, res, List.mem_append_left _ hlogin, hreq⟩
  · rw [hauthed] at h
    rw [huserId]
    exact hentry s h hopen

/-- A login for a uid that has not been asked for is answered with success.

**Proof sketch.** Every part of the invariant, for the new login and for the old ones (`hcases`). No
two logins share a uid, since the uid of the new one has not been asked for, and the session of the
new one gets its uid and the flag at the same time. -/
lemma Apart.login {u : ℕ} {req : LoginReq} (hp : p.Apart done) (huid : req.uid ≠ [])
    (hfresh : ∀ s req' res, .login s req' res ∈ done → req'.uid ≠ req.uid) :
    Apart ⟨Function.update p.registered req.uid true, Function.update p.userId u req.uid,
      Function.update p.authed u true, p.closed⟩ (done ++ [.login u req .kLoginResSuccess]) := by
  have hcases : ∀ {s req' res}, .login s req' res ∈ done ++ [.login u req .kLoginResSuccess] →
      .login s req' res ∈ done ∨ s = u ∧ req' = req ∧ res = .kLoginResSuccess := by
    intro s req' res h
    rcases List.mem_append.mp h with h | h
    · exact .inl h
    · exact .inr (Done.login.inj (List.mem_singleton.mp h))
  have hnew : .login u req .kLoginResSuccess ∈ done ++ [.login u req .kLoginResSuccess] := by simp
  refine ⟨fun s req' res h => ?_, fun s req' res h => ?_,
    fun s s' req₁ req₂ res res' h h' heq => ?_, fun s h => ?_, fun s h => ?_,
    fun uid h => ?_, fun s h hopen => ?_⟩
  · rcases hcases h with h | ⟨-, -, rfl⟩
    · exact hp.success s req' res h
    · rfl
  · rcases hcases h with h | ⟨-, rfl, -⟩
    · exact hp.named s req' res h
    · exact huid
  · rcases hcases h with h | ⟨hs, hreq, -⟩
    · rcases hcases h' with h' | ⟨-, hreq', -⟩
      · exact hp.owner s s' req₁ req₂ res res' h h' heq
      · exact absurd (hreq' ▸ heq) (hfresh s req₁ res h)
    · rcases hcases h' with h' | ⟨hs', -, -⟩
      · exact absurd (hreq ▸ heq).symm (hfresh s' req₂ res' h')
      · exact hs.trans hs'.symm
  · by_cases hsu : s = u
    · subst hsu
      exact ⟨req, _, hnew, by simp⟩
    · simp only [Function.update_of_ne hsu] at h ⊢
      obtain ⟨req', res, hlogin, hreq⟩ := hp.authed s h
      exact ⟨req', res, List.mem_append_left _ hlogin, hreq⟩
  · by_cases hsu : s = u
    · simp [hsu] at h
    · simp only [Function.update_of_ne hsu] at h ⊢
      exact hp.blank s h
  · by_cases hreq : uid = req.uid
    · exact ⟨u, req, _, hnew, hreq.symm⟩
    · simp only [Function.update_of_ne hreq] at h
      obtain ⟨s, req', res, hlogin, heq⟩ := hp.asked uid h
      exact ⟨s, req', res, List.mem_append_left _ hlogin, heq⟩
  · by_cases hsu : s = u
    · simp [hsu]
    · simp only [Function.update_of_ne hsu] at h ⊢
      rw [Function.update_apply]
      split
      · rfl
      · exact hp.entry s h hopen

/-- **One task.** A task that is fresh keeps the sessions apart; the session of a close task is
closed. -/
lemma Ran.apart (h : p.Ran t p' d) (hp : p.Apart done) (hfresh : t.Fresh done)
    (hclosed : ∀ s, t = .onClose s → p.closed s = true) : p'.Apart (done ++ [d]) := by
  cases h with
  | @refused s req htype hreg =>
    -- an entry is there only if its uid has been asked for
    obtain ⟨u, req', res, hlogin, heq⟩ := hp.asked _ hreg
    exact absurd heq (hfresh.2 u req' res hlogin)
  | registered => exact hp.login hfresh.1.2 hfresh.2
  | queued htype =>
    have hnormal := hfresh.1.1
    rw [htype] at hnormal
    cases hnormal
  | @deleted u =>
    refine hp.of_quiet (by simp) rfl rfl (fun uid h => ?_) fun s hs hopen => ?_
    · simp only [Function.update_apply] at h
      split at h
      · cases h
      · exact h
    · have hne : p.userId s ≠ p.userId u := by
        intro heq
        -- the uid is that of the closed session `u`, or `u` has never logged in
        cases hu : p.authed u with
        | true =>
          have hsu := hp.eq_of_userId hs hu heq
          simp only [hsu, hclosed u rfl] at hopen
          cases hopen
        | false => exact hp.userId_ne_nil hs (heq.trans (hp.blank u hu))
      exact (Function.update_of_ne hne _ _).trans (hp.entry s hs hopen)
  | quiet _ _ hnologin => exact hp.of_quiet hnologin rfl rfl (fun _ h => h) hp.entry

end Presence

namespace LogicIo

variable {done : List Done} {σ : LogicIo} {D : LogicIo → ℕ → UserMsg → Prop}

/-- **The run lemma.** In every run of fresh tasks the sessions are apart. -/
theorem apart_of_run (h : machine.Run (guard D fun done _ t => t.Fresh done) done σ) :
    σ.presence.Apart done := by
  refine h.invariant (fun done σ => σ.presence.Apart done) ?_ ?_
  · exact ⟨by simp, by simp, by simp, fun s h => absurd h (by simp [machine, presence]),
      fun _ _ => rfl, fun uid h => absurd h (by simp [machine, presence, UserManager.findUser]),
      fun s h => absurd h (by simp [machine, presence])⟩
  · intro tr σ e σ' out hrun ih hg hstep
    have hwf := wellFormed_of_run hrun
    cases step_cases hstep with
    | accept hpres | dispatch _ hpres | onClosed _ hpres =>
      rw [List.append_nil, hpres]
      exact ih
    | @close s _ _ hpres =>
      rw [List.append_nil, hpres]
      refine ⟨ih.success, ih.named, ih.owner, ih.authed, ih.blank, ih.asked, fun u hu hopen => ?_⟩
      refine ih.entry u hu ?_
      simp only [Function.update_apply] at hopen
      split at hopen
      · cases hopen
      · exact hopen
    | @run t _ _ hran htasks =>
      refine hran.apart ih (hg t (by simp [htasks])) fun s hs => ?_
      exact hwf.closes s (by simp [htasks, hs])

/-- Sessions that are apart have single logins. -/
lemma singleLogin_of_apart (h : σ.presence.Apart done) : σ.SingleLogin :=
  fun _ _ hne hs ht huid => hne (h.eq_of_userId hs.2.1 ht.2.1 huid)

end LogicIo

end FightingCard
