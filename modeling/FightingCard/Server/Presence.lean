import FightingCard.Server.Logic
import FightingCard.Lib.History

set_option relaxedAutoImplicit false
set_option autoImplicit false

/-!
# Presence: the logic thread, abstractly

What the logic thread is for is to know who is present: which uids are registered, and for
every session its uid, whether it is authenticated and whether it is closed. This file gives
that abstract state and the five things a task can do to it, and shows that the tasks and the
steps of `FightingCard.LogicIo` do no more. Everything proved about runs of the server
afterwards argues by these cases and does not look into the handlers again.

## Main definitions

* `FightingCard.Presence` — the abstract state; `FightingCard.LogicIo.presence` — its value.
* `FightingCard.Presence.Ran` — the effect of a task on it.
* `FightingCard.LogicIo.Step` — the effect of a step of the machine on it and on the queue.
* `FightingCard.Done.lease`, `FightingCard.holder` — the history of `users_` as a history of
  leases, and the session that added the entry of a uid.

## Main results

* `FightingCard.LogicIo.ran_runTask`, `FightingCard.LogicIo.step_cases` — the tasks and the
  machine refine the abstract effects.
* `FightingCard.Presence.Ran.tracks` — `users_` answers as the history of leases does.
-/

namespace FightingCard

/-- Which uids are registered, and for every session its `user_id_`, `authed_` and whether
`Close()` has been called on it. -/
structure Presence where
  registered : Bytes → Bool
  userId : ℕ → Bytes
  authed : ℕ → Bool
  closed : ℕ → Bool

/-- The effect of a task on the presence: a normal login is refused because its uid is
registered, or registers it; a queued login only authenticates; a close task deletes the uid
that its session has at that moment; the other tasks do not touch it. -/
inductive Presence.Ran (p : Presence) : LogicTask → Presence → Done → Prop
  | refused {s req} (htype : req.type = .kLoginTypeNormal)
      (hreg : p.registered req.uid = true) :
      Ran p (.loginReq s req) p (.login s req .kLoginResLogined)
  | registered {s req} (htype : req.type = .kLoginTypeNormal)
      (hreg : p.registered req.uid = false) :
      Ran p (.loginReq s req)
        { p with
          registered := Function.update p.registered req.uid true
          userId := Function.update p.userId s req.uid
          authed := Function.update p.authed s true }
        (.login s req .kLoginResSuccess)
  | queued {s req} (htype : req.type = .kLoginTypeQueued) :
      Ran p (.loginReq s req)
        { p with
          userId := Function.update p.userId s req.uid
          authed := Function.update p.authed s true }
        (.login s req .kLoginResSuccess)
  | deleted {s} :
      Ran p (.onClose s)
        { p with registered := Function.update p.registered (p.userId s) false }
        (.delUser s (p.userId s))
  | quiet {t d} (hlogin : ∀ s req, t ≠ .loginReq s req) (hclose : ∀ s, t ≠ .onClose s)
      (hnologin : ∀ s req res, d ≠ .login s req res) (hnodel : ∀ s uid, d ≠ .delUser s uid) :
      Ran p t p d

variable {p p' : Presence} {t : LogicTask} {s : ℕ}

/-- No task closes a session or opens it again. -/
lemma Presence.Ran.closed_eq {d : Done} (h : p.Ran t p' d) : p'.closed = p.closed := by
  cases h <;> rfl

/-- Only a login request logs in. -/
lemma Presence.Ran.task_of_login {req : LoginReq} {res : LoginRes}
    (h : p.Ran t p' (.login s req res)) : t = .loginReq s req := by
  cases h with
  | refused | registered | queued => rfl
  | quiet _ _ hnologin => exact absurd rfl (hnologin _ _ _)

/-- Only a close task deletes, and it deletes the uid of its session. -/
lemma Presence.Ran.task_of_delUser {uid : Bytes} (h : p.Ran t p' (.delUser s uid)) :
    t = .onClose s ∧ uid = p.userId s := by
  cases h with
  | deleted => exact ⟨rfl, rfl⟩
  | quiet _ _ _ hnodel => exact absurd rfl (hnodel _ _)

namespace LogicIo

/-- The presence that a state of the logic thread stands for. -/
def presence (σ : LogicIo) : Presence where
  registered uid := (σ.users.findUser uid).isSome
  userId s := (σ.sessions s).userId
  authed s := (σ.sessions s).authed
  closed s := (σ.sessions s).closed

/-- What one step of the logic thread or of its environment does to the presence, to the queue
and to the number of accepted sessions. -/
inductive Step (σ : LogicIo) : Event → LogicIo → List Done → Prop
  | accept {σ'} (hpres : σ'.presence = σ.presence)
      (htasks : σ'.tasks = σ.tasks ++ [.addSession σ.accepted])
      (hacc : σ'.accepted = σ.accepted + 1) : Step σ .accept σ' []
  | dispatch {s msg σ'} (hs : s < σ.accepted) (hpres : σ'.presence = σ.presence)
      (htasks : σ'.tasks = σ.tasks ++ [msg.task s]) (hacc : σ'.accepted = σ.accepted) :
      Step σ (.dispatch s msg) σ' []
  | close {s σ'} (hs : s < σ.accepted)
      (hpres : σ'.presence =
        { σ.presence with closed := Function.update σ.presence.closed s true })
      (htasks : σ'.tasks = σ.tasks ++ [.onClose s]) (hacc : σ'.accepted = σ.accepted) :
      Step σ (.close s) σ' []
  | onClosed {s σ'} (hs : s < σ.accepted) (hpres : σ'.presence = σ.presence)
      (htasks : σ'.tasks = σ.tasks ++ [.onClosed s]) (hacc : σ'.accepted = σ.accepted) :
      Step σ (.onClosed s) σ' []
  | run {t σ' d} (hran : σ.presence.Ran t σ'.presence d) (htasks : σ.tasks = t :: σ'.tasks)
      (hacc : σ'.accepted = σ.accepted) : Step σ .run σ' [d]

variable {σ σ' : LogicIo} {s : ℕ} {uid : Bytes}

/-- Replacing a session by one with the same uid and flags does not change the presence. -/
lemma presence_setSession {session : UserSession} (hid : session.userId = (σ.sessions s).userId)
    (hauthed : session.authed = (σ.sessions s).authed)
    (hclosed : session.closed = (σ.sessions s).closed) :
    (σ.setSession s session).presence = σ.presence := by
  simp only [presence, setSession, Presence.mk.injEq, true_and]
  refine ⟨?_, ?_, ?_⟩ <;> funext t <;> by_cases h : t = s <;> simp [h, hid, hauthed, hclosed]

/-- Authenticating a session as `uid`. -/
lemma presence_authenticate {users : UserManager} :
    ({ σ with users }.setSession s { σ.sessions s with userId := uid, authed := true }).presence =
      { σ.presence with
        registered := fun uid => (users.findUser uid).isSome
        userId := Function.update σ.presence.userId s uid
        authed := Function.update σ.presence.authed s true } := by
  simp only [presence, setSession, Presence.mk.injEq, true_and]
  refine ⟨?_, ?_, ?_⟩ <;> funext t <;> by_cases h : t = s <;> simp [h]

/-- **The tasks refine their abstract effect.**

**Proof sketch.** By cases on the task. A login of the normal kind looks its uid up: if it is found,
nothing changes, and otherwise it is added and the session is authenticated. A queued login
authenticates without looking. A close task takes the uid of its session away. -/
theorem ran_runTask (t : LogicTask) :
    σ.presence.Ran t (σ.runTask t).1.presence (σ.runTask t).2 := by
  cases t with
  | addSession s =>
    have h : (σ.runTask (.addSession s)).1.presence = σ.presence :=
      presence_setSession (σ := { σ with userSessions := _ }) rfl rfl rfl
    rw [h]
    exact .quiet (by simp) (by simp) (by simp [runTask]) (by simp [runTask])
  | loginReq s req =>
    obtain ⟨type, uid⟩ := req
    cases type with
    | kLoginTypeNormal =>
      cases hfind : σ.users.findUser uid with
      | some user =>
        have h : (σ.runTask (.loginReq s ⟨.kLoginTypeNormal, uid⟩)).1.presence = σ.presence := by
          simp only [runTask, loginReqHandle, if_true, hfind]
          exact presence_setSession rfl rfl rfl
        rw [h]
        simp only [runTask, loginReqHandle, if_true, hfind]
        exact .refused rfl (by simp [presence, hfind])
      | none =>
        have hadd : (fun u => ((σ.users.addUser ⟨uid⟩).1.findUser u).isSome) =
            Function.update σ.presence.registered uid true := by
          funext u
          rw [UserManager.findUser] at hfind
          by_cases hu : u = uid <;>
            simp [UserManager.addUser, hfind, UserManager.findUser, presence, hu]
        simp only [runTask, loginReqHandle, if_true, hfind]
        rw [presence_authenticate, hadd]
        exact .registered rfl (by simp [presence, hfind])
    | kLoginTypeQueued =>
      simp only [runTask, loginReqHandle, reduceCtorEq, if_false]
      rw [presence_authenticate]
      exact .queued rfl
  | ping s => exact .quiet (by simp) (by simp) (by simp [runTask]) (by simp [runTask])
  | onClose s =>
    have h : (σ.runTask (.onClose s)).1.presence =
        { σ.presence with
          registered := Function.update σ.presence.registered (σ.presence.userId s) false } := by
      simp only [runTask, presence, Presence.mk.injEq, and_true]
      funext u
      by_cases hu : u = (σ.sessions s).userId <;>
        simp [UserManager.delUser, UserManager.findUser, hu]
    rw [h]
    exact .deleted
  | onClosed s => exact .quiet (by simp) (by simp) (by simp [runTask]) (by simp [runTask])

/-- Tasks post nothing to their own queue and accept no connection. -/
lemma runTask_queue (t : LogicTask) :
    (σ.runTask t).1.tasks = σ.tasks ∧ (σ.runTask t).1.accepted = σ.accepted := by
  cases t <;> exact ⟨rfl, rfl⟩

/-- **What a step can do.**

**Proof sketch.** By cases on the event: each guard of `step` is what the constructor asks for, and
a task is `ran_runTask`. -/
theorem step_cases {e : Event} {out : List Done} (h : σ.step e = some (σ', out)) :
    σ.Step e σ' out := by
  cases e with
  | accept =>
    cases h
    exact .accept rfl rfl rfl
  | dispatch s msg =>
    simp only [step] at h
    split at h
    · cases h
      exact .dispatch ‹_› rfl rfl rfl
    · cases h
  | close s =>
    simp only [step] at h
    split at h
    · cases h
      refine .close ‹_› ?_ rfl rfl
      simp only [presence, close, setSession, post, Presence.mk.injEq, true_and]
      refine ⟨?_, ?_, ?_⟩ <;> funext t <;> by_cases ht : t = s <;> simp [ht]
    · cases h
  | onClosed s =>
    simp only [step] at h
    split at h
    · cases h
      exact .onClosed ‹_› rfl rfl rfl
    · cases h
  | run =>
    simp only [step] at h
    split at h
    · cases h
    · rename_i t ts htasks
      cases h
      obtain ⟨h1, h2⟩ := runTask_queue (σ := { σ with tasks := ts }) t
      exact .run (ran_runTask (σ := { σ with tasks := ts }) t) (by rw [h1, htasks]) h2

/-- What holds of every state of the logic thread: tasks belong to accepted sessions, a session
not accepted yet is blank, and a close task is posted on a closed session only. -/
structure WellFormed (σ : LogicIo) : Prop where
  tasks : ∀ t ∈ σ.tasks, t.session < σ.accepted
  blank : ∀ s, σ.accepted ≤ s → σ.presence.authed s = false
  closes : ∀ s, .onClose s ∈ σ.tasks → σ.presence.closed s = true

/-- Posting a task of an accepted session other than a close task. -/
lemma WellFormed.post {t : LogicTask} (hσ : σ.WellFormed) (hpres : σ'.presence = σ.presence)
    (htasks : σ'.tasks = σ.tasks ++ [t]) (hacc : σ.accepted ≤ σ'.accepted)
    (hs : t.session < σ'.accepted) (ht : ∀ s, t ≠ .onClose s) : σ'.WellFormed where
  tasks u hu := by
    rw [htasks, List.mem_append, List.mem_singleton] at hu
    rcases hu with hu | rfl
    · exact (hσ.tasks u hu).trans_le hacc
    · exact hs
  blank s hs := hpres ▸ hσ.blank s (hacc.trans hs)
  closes s hs := by
    rw [htasks, List.mem_append, List.mem_singleton] at hs
    rcases hs with hs | hs
    · exact hpres ▸ hσ.closes s hs
    · exact absurd hs.symm (ht s)

/-- Every step keeps the logic thread well formed.

**Proof sketch.** By cases on the step. What is posted belongs to an accepted session, and a close
task to one that was closed in the same step. A task that runs is about its own session, and a
session that has not been accepted has none. -/
theorem Step.wellFormed {e : Event} {out : List Done} (h : σ.Step e σ' out)
    (hσ : σ.WellFormed) : σ'.WellFormed := by
  cases h with
  | accept hpres htasks hacc =>
    exact hσ.post hpres htasks (by omega) (by simp [LogicTask.session, hacc]) (by simp)
  | @dispatch s msg _ hs hpres htasks hacc =>
    exact hσ.post hpres htasks hacc.ge (by simpa [hacc] using hs)
      (by cases msg <;> simp [UserMsg.task])
  | onClosed hs hpres htasks hacc =>
    exact hσ.post hpres htasks hacc.ge (by simpa [LogicTask.session, hacc] using hs) (by simp)
  | close hs hpres htasks hacc =>
    refine ⟨fun u hu => ?_, fun s h => ?_, fun s h => ?_⟩
    · rw [htasks, List.mem_append, List.mem_singleton] at hu
      rcases hu with hu | rfl
      · exact hacc ▸ hσ.tasks u hu
      · exact hacc ▸ hs
    · rw [hpres]
      exact hσ.blank s (hacc ▸ h)
    · rw [hpres]
      simp only [Function.update_apply]
      split
      · rfl
      · rename_i hne
        rw [htasks, List.mem_append, List.mem_singleton, LogicTask.onClose.injEq] at h
        exact hσ.closes s (h.resolve_right hne)
  | @run t _ _ hran htasks hacc =>
    have hmem : ∀ u ∈ σ'.tasks, u ∈ σ.tasks := fun u hu => htasks ▸ List.mem_cons_of_mem _ hu
    have ht : t.session < σ.accepted := hσ.tasks t (htasks ▸ List.mem_cons_self)
    refine ⟨fun u hu => hacc ▸ hσ.tasks u (hmem u hu), fun s h => ?_, fun s h => ?_⟩
    · have hb := hσ.blank s (hacc ▸ h)
      have hne : t.session ≠ s := by omega
      generalize σ'.presence = p at hran
      cases hran with
      | registered | queued => exact (Function.update_of_ne hne.symm _ _).trans hb
      | refused | deleted | quiet => exact hb
    · rw [hran.closed_eq]
      exact hσ.closes s (hmem _ h)

/-- Every reachable state of the logic thread is well formed. -/
theorem wellFormed_of_run {G : List Done → LogicIo → Event → Prop} {done : List Done}
    (h : machine.Run G done σ) : σ.WellFormed :=
  h.invariant (fun _ σ => σ.WellFormed) ⟨by simp [machine], fun _ _ => rfl, by simp [machine]⟩
    fun _ _ _ _ _ _ ih _ hstep => (step_cases hstep).wellFormed ih

end LogicIo

/-! ## The history of `users_` -/

open History

/-- What a task did to `users_`: a normal login answered with success has added the entry of its
uid, a close task has deleted the entry of the uid it was called for. -/
def Done.lease : Done → Option (Lease Bytes ℕ)
  | .login s ⟨.kLoginTypeNormal, uid⟩ .kLoginResSuccess => some (.grant uid s)
  | .delUser _ uid => some (.revoke uid)
  | _ => none

/-- The session whose login added the current entry of a uid, if the uid has an entry. -/
def holder (done : List Done) (uid : Bytes) : Option ℕ := holders (done.filterMap Done.lease) uid

variable {done : List Done} {uid uid' : Bytes} {s : ℕ}

/-- A login of the normal kind that succeeds takes the uid over. -/
lemma holder_registered {req : LoginReq} (h : req.type = .kLoginTypeNormal) :
    holder (done ++ [.login s req .kLoginResSuccess]) uid' =
      if uid' = req.uid then some s else holder done uid' := by
  obtain ⟨type, uid⟩ := req
  obtain rfl : type = .kLoginTypeNormal := h
  rw [holder, List.filterMap_append]
  exact holders_grant

/-- After a deletion nobody holds the uid. -/
lemma holder_deleted :
    holder (done ++ [.delUser s uid]) uid' = if uid' = uid then none else holder done uid' := by
  rw [holder, List.filterMap_append]
  exact holders_revoke

/-- Any other task leaves the holders. -/
lemma holder_other {d : Done} (h : d.lease = none) :
    holder (done ++ [d]) uid' = holder done uid' := by
  simp [holder, List.filterMap_append, h]

/-- A login that is refused as a second one grants nothing. -/
lemma Done.lease_login_logined {req : LoginReq} :
    (Done.login s req .kLoginResLogined).lease = none := by
  obtain ⟨type, uid⟩ := req
  cases type <;> rfl

/-- Nor does a queued login. -/
lemma Done.lease_login_queued {req : LoginReq} {res : LoginRes}
    (h : req.type = .kLoginTypeQueued) : (Done.login s req res).lease = none := by
  obtain ⟨type, uid⟩ := req
  obtain rfl : type = .kLoginTypeQueued := h
  rfl

/-- Nor do the tasks that are neither logins nor deletions. -/
lemma Done.lease_quiet {d : Done} (hnologin : ∀ s req res, d ≠ .login s req res)
    (hnodel : ∀ s uid, d ≠ .delUser s uid) : d.lease = none := by
  cases d with
  | login s req res => exact absurd rfl (hnologin s req res)
  | delUser s uid => exact absurd rfl (hnodel s uid)
  | addSession | ping | onClosed => rfl

/-- `users_` answers as the history does: a uid is registered exactly when the history names
the session that holds it. -/
def Presence.Tracks (p : Presence) (done : List Done) : Prop :=
  ∀ uid, p.registered uid = (holder done uid).isSome

/-- **Every task keeps `users_` in step with the history.** -/
theorem Presence.Ran.tracks {p p' : Presence} {t : LogicTask} {d : Done} (h : p.Ran t p' d)
    (hp : p.Tracks done) : p'.Tracks (done ++ [d]) := by
  intro uid
  cases h with
  | refused =>
    rw [holder_other Done.lease_login_logined]
    exact hp uid
  | registered htype =>
    simp only [holder_registered htype, Function.update_apply]
    split
    · rfl
    · exact hp uid
  | queued htype =>
    rw [holder_other (Done.lease_login_queued htype)]
    exact hp uid
  | deleted =>
    simp only [holder_deleted, Function.update_apply]
    split
    · rfl
    · exact hp uid
  | quiet _ _ hnologin hnodel =>
    rw [holder_other (Done.lease_quiet hnologin hnodel)]
    exact hp uid

/-- In every run of the logic thread `users_` answers as the history does. -/
theorem LogicIo.tracks_of_run {G : List Done → LogicIo → LogicIo.Event → Prop} {σ : LogicIo}
    (h : LogicIo.machine.Run G done σ) : σ.presence.Tracks done := by
  refine h.invariant (fun done σ => σ.presence.Tracks done) (fun uid => rfl) ?_
  intro tr σ e σ' out _ ih _ hstep
  cases step_cases hstep with
  | accept hpres | dispatch _ hpres | onClosed _ hpres =>
    rw [List.append_nil, hpres]
    exact ih
  | close _ hpres =>
    rw [List.append_nil, hpres]
    exact ih
  | run hran => exact hran.tracks ih

end FightingCard
