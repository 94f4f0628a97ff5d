import FightingCard.Server.Replies

set_option relaxedAutoImplicit false
set_option autoImplicit false

/-!
# What a close leaves behind

`Close()` posts a task to the logic thread that deletes the uid of its session from `users_`.
Two things are expected of it: that the session is not authenticated again, and that no other
session loses its entry. Neither holds in all runs. A body that was read before the close is
still dispatched after it, and `Close()` may be called again, which posts the task again.

For each expectation this file gives the condition on the steps of a run under which it is met,
and a run in which it is not.

## Main definitions

* `FightingCard.GameServer.onTask`, `FightingCard.GameServer.onArrival` — conditions on the tasks
  that are run and on the bodies that arrive.
* `FightingCard.GameServer.HandlesOpen`, `FightingCard.LogicTask.RepeatsIdly` — the two conditions.

## Main results

* `FightingCard.GameServer.no_login_after_close`,
  `FightingCard.GameServer.no_login_after_close_fails` — logins after the close task.
* `FightingCard.GameServer.close_spares_others`,
  `FightingCard.GameServer.close_spares_others_fails` — entries of other sessions.
-/

namespace FightingCard

namespace GameServer

variable {β φ : Type}

/-- A condition on the tasks that the logic thread runs. -/
def onTask (R : List Done → GameServer β φ → LogicTask → Prop) (tr : List (Obs β φ))
    (σ : GameServer β φ) : Event φ → Prop
  | .logic => ∀ t ∈ σ.logic.tasks.head?, R (dones tr) σ t
  | .accept _ | .readDone .. | .writeDone .. | .timerDone _ | .io .. => True

instance {R : List Done → GameServer β φ → LogicTask → Prop} [∀ done σ t, Decidable (R done σ t)]
    {tr : List (Obs β φ)} {σ : GameServer β φ} : (e : Event φ) → Decidable (onTask R tr σ e)
  | .logic => inferInstanceAs (Decidable (∀ t ∈ σ.logic.tasks.head?, R (dones tr) σ t))
  | .accept _ | .readDone .. | .writeDone .. | .timerDone _ | .io .. =>
    inferInstanceAs (Decidable True)

/-- A condition on the bodies that arrive on each connection. -/
def onArrival (A : List φ → Prop) (tr : List (Obs β φ)) (σ : GameServer β φ) : Event φ → Prop
  | .readDone s result => ∀ f ∈ (σ.io s).arrival result, A (arrivedOn s tr ++ [f])
  | .accept _ | .writeDone .. | .timerDone _ | .io .. | .logic => True

instance {A : List φ → Prop} [DecidablePred A] {tr : List (Obs β φ)} {σ : GameServer β φ} :
    (e : Event φ) → Decidable (onArrival A tr σ e)
  | .readDone _ _ => inferInstanceAs (Decidable (∀ f ∈ Session.arrival _ _, A _))
  | .accept _ | .writeDone .. | .timerDone _ | .io .. | .logic =>
    inferInstanceAs (Decidable True)

end GameServer

/-! ## Logins after the close task -/

namespace LogicIo

/-- A login request is dispatched only while its session is open. -/
def DispatchesOpen (σ : LogicIo) (s : ℕ) (msg : UserMsg) : Prop :=
  ∀ req, msg = .loginReq req → σ.presence.closed s = false

/-- The close task of a session cuts its logins off: a session that was deleted is closed, and
no login request of it follows a close task of it, neither in the queue nor in the history. -/
structure CutsOff (done : List Done) (σ : LogicIo) : Prop where
  closed : ∀ s uid, .delUser s uid ∈ done → σ.presence.closed s = true
  pending : ∀ s uid req, .delUser s uid ∈ done → .loginReq s req ∉ σ.tasks
  queue : σ.tasks.Pairwise fun t t' => ∀ s req, t = .onClose s → t' ≠ .loginReq s req
  history : done.Pairwise fun d d' => ∀ s uid req res, d = .delUser s uid → d' ≠ .login s req res

variable {done : List Done} {σ σ' : LogicIo}

/-- Posting a task that is no login request of a closed session. -/
lemma CutsOff.post {t : LogicTask} (hσ : σ.CutsOff done) (hwf : σ.WellFormed)
    (hclosed : ∀ s, σ.presence.closed s = true → σ'.presence.closed s = true)
    (htasks : σ'.tasks = σ.tasks ++ [t])
    (ht : ∀ s req, t = .loginReq s req → σ.presence.closed s = false) : σ'.CutsOff done where
  closed s uid h := hclosed s (hσ.closed s uid h)
  pending s uid req h := by
    rw [htasks, List.mem_append, List.mem_singleton, not_or]
    refine ⟨hσ.pending s uid req h, fun heq => ?_⟩
    have hopen := ht s req heq.symm
    rw [hσ.closed s uid h] at hopen
    cases hopen
  queue := by
    rw [htasks, List.pairwise_append]
    refine ⟨hσ.queue, List.pairwise_singleton _ _, fun u hu v hv s req hclose heq => ?_⟩
    obtain rfl := List.mem_singleton.mp hv
    have hopen := ht s req heq
    rw [hwf.closes s (hclose ▸ hu)] at hopen
    cases hopen
  history := hσ.history

/-- **One task.** -/
lemma CutsOff.run {t : LogicTask} {d : Done} (hσ : σ.CutsOff done) (hwf : σ.WellFormed)
    (hran : σ.presence.Ran t σ'.presence d) (htasks : σ.tasks = t :: σ'.tasks) :
    σ'.CutsOff (done ++ [d]) := by
  have hqueue := hσ.queue
  rw [htasks, List.pairwise_cons] at hqueue
  have ht : t ∈ σ.tasks := htasks ▸ List.mem_cons_self
  -- a deletion is the close task at the front, whose session is closed
  have hdel : ∀ s uid, .delUser s uid ∈ done ++ [d] → .delUser s uid ∈ done ∨ t = .onClose s :=
    fun s uid h => by
      rw [List.mem_append, List.mem_singleton] at h
      exact h.imp_right fun h => (h ▸ hran).task_of_delUser.1
  refine ⟨fun s uid h => ?_, fun s uid req h => ?_, hqueue.2, ?_⟩
  · rw [hran.closed_eq]
    rcases hdel s uid h with h | rfl
    · exact hσ.closed s uid h
    · exact hwf.closes s ht
  · rcases hdel s uid h with h | rfl
    · exact fun hmem => hσ.pending s uid req h (htasks ▸ List.mem_cons_of_mem _ hmem)
    · exact fun hmem => hqueue.1 _ hmem s req rfl rfl
  · rw [List.pairwise_append]
    refine ⟨hσ.history, List.pairwise_singleton _ _, fun d' hd' e he s uid req res h heq => ?_⟩
    obtain rfl := List.mem_singleton.mp he
    obtain rfl := (heq ▸ hran).task_of_login
    exact hσ.pending s uid req (h ▸ hd') ht

/-- In every run that dispatches login requests of open sessions only, close tasks cut the logins
off. -/
lemma cutsOff_of_run {R : List Done → LogicIo → LogicTask → Prop}
    (h : machine.Run (guard DispatchesOpen R) done σ) : σ.CutsOff done := by
  refine h.invariant (fun done σ => σ.CutsOff done)
    ⟨by simp, by simp, List.Pairwise.nil, List.Pairwise.nil⟩ ?_
  intro tr σ e σ' out hrun ih hg hstep
  have hwf := wellFormed_of_run hrun
  cases step_cases hstep with
  | accept hpres htasks | onClosed _ hpres htasks =>
    rw [List.append_nil]
    exact ih.post hwf (by simp [hpres]) htasks (by simp)
  | @dispatch s msg _ _ hpres htasks =>
    rw [List.append_nil]
    refine ih.post hwf (by simp [hpres]) htasks fun u req heq => ?_
    cases msg with
    | ping => cases heq
    | loginReq req' =>
      cases heq
      exact hg req rfl
  | close _ hpres htasks =>
    rw [List.append_nil]
    refine ih.post hwf (fun s hs => ?_) htasks (by simp)
    rw [hpres]
    simp only [Function.update_apply]
    split
    · rfl
    · exact hs
  | run hran htasks => exact ih.run hwf hran htasks

end LogicIo

namespace GameServer

variable {β φ : Type} {w : Wire β φ} {tr : List (Obs β φ)} {σ : GameServer β φ} {s : ℕ}

/-- A body with a login request is handled only while its session is open. -/
def HandlesOpen (w : Wire β φ) (_ : List (Obs β φ)) (σ : GameServer β φ) : Event φ → Prop
  | .io s _ => ∀ f ∈ Session.frontBody (σ.io s).queue,
      (w.loginReq f).isSome → (σ.logic.sessions s).closed = false
  | .accept _ | .readDone .. | .writeDone .. | .timerDone _ | .logic => True

instance {tr : List (Obs β φ)} : (e : Event φ) → Decidable (HandlesOpen w tr σ e)
  | .io _ _ => inferInstanceAs (Decidable (∀ f ∈ Session.frontBody _, _))
  | .accept _ | .readDone .. | .writeDone .. | .timerDone _ | .logic =>
    inferInstanceAs (Decidable True)

/-- Once a close task of a session has run, no later task authenticates the session. -/
def NoLoginAfterClose (tr : List (Obs β φ)) : Prop :=
  (dones tr).Pairwise fun d d' =>
    ∀ s uid req, d = .delUser s uid → d' ≠ .login s req .kLoginResSuccess

/-- **A closed session is never authenticated.** In every run that handles bodies with login
requests while their sessions are open only, no login is answered with success after a close
task of its session.

**Proof sketch.** Both tasks go through the queue of the logic thread, and `Close()` is what
posts the close task: a request that was dispatched before it is in front of that task. -/
theorem no_login_after_close (h : (machine w).Run (HandlesOpen w) tr σ) :
    NoLoginAfterClose tr := by
  have hrun := logic_of_run (D := LogicIo.DispatchesOpen) (R := fun _ _ _ => True) ?_
    (fun _ _ _ _ _ _ => trivial) h
  · exact (LogicIo.cutsOff_of_run hrun).history.imp fun hd s uid req heq =>
      hd s uid req .kLoginResSuccess heq
  · intro tr σ s now f rest msg hg hqueue hmsg req heq
    exact hg f (by simp [hqueue, Session.frontBody]) (by simp [Wire.loginReq, hmsg, heq])

/-- A session logs in and is closed. -/
theorem no_login_after_close_login : ∃ (tr : List (Obs UserBuffer UserBuffer)) (uid : Bytes),
    .delUser 0 uid ∈ dones tr ∧ uid ≠ [] ∧ NoLoginAfterClose tr := by
  obtain ⟨r, hexec, hran⟩ :
      ∃ r ∈ (machine sampleWire).exec (fun tr σ e => decide (HandlesOpen sampleWire tr σ e)) []
        (machine sampleWire).init ([.accept 0] ++ sampleReceive 0 1 (sampleLogin [117]) ++
          [.readDone 0 none, .io 0 2, .logic, .logic, .logic]),
        .delUser 0 [117] ∈ dones r.1 := by decide +kernel
  exact ⟨r.1, [117], hran, by simp,
    no_login_after_close (Machine.run_of_exec (fun tr σ e h => of_decide_eq_true h) hexec)⟩

/-- The bodies have at most one login request. -/
def OneLogin (w : Wire β φ) (fs : List φ) : Prop := (fs.filterMap w.loginReq).length ≤ 1

instance : DecidablePred (OneLogin w) := fun _ => inferInstanceAs (Decidable (_ ≤ _))

/-- **The defect.** A body that was read before `CheckAlive` closes the session is dispatched
after it: the session, which sends one login request only, is authenticated once its close task
has run. -/
theorem no_login_after_close_fails : ¬ ∀ (tr : List (Obs UserBuffer UserBuffer))
    (σ : GameServer UserBuffer UserBuffer),
    (machine sampleWire).Run (onArrival (OneLogin sampleWire)) tr σ → NoLoginAfterClose tr := by
  obtain ⟨r, hexec, hlate⟩ :
      ∃ r ∈ (machine sampleWire).exec
        (fun tr σ e => decide (onArrival (OneLogin sampleWire) tr σ e)) []
        (machine sampleWire).init [.accept 0, .logic, .readDone 0 (some (sampleLogin [117])),
          .io 0 1, .timerDone 0, .readDone 0 (some (sampleLogin [117])), .io 0 5, .io 0 5, .logic,
          .logic],
        dones r.1 = [.addSession 0, .delUser 0 [],
          .login 0 ⟨.kLoginTypeNormal, [117]⟩ .kLoginResSuccess] := by decide +kernel
  intro h
  have hpairs := h _ _ (Machine.run_of_exec (fun tr σ e h => of_decide_eq_true h) hexec)
  rw [NoLoginAfterClose, hlate] at hpairs
  simp only [List.pairwise_cons, List.mem_cons, List.not_mem_nil, or_false, forall_eq] at hpairs
  exact hpairs.2.1 0 [] _ rfl rfl

end GameServer

/-! ## Entries of other sessions -/

/-- A login request as the client of the repository sends it: a normal one with a uid. -/
def LoginReq.FromClient (req : LoginReq) : Prop :=
  req.type = .kLoginTypeNormal ∧ req.uid ≠ []

/-- A close task that deletes the uid of its session for the second time finds no entry. -/
def LogicTask.RepeatsIdly (done : List Done) (p : Presence) : LogicTask → Prop
  | .onClose s => .delUser s (p.userId s) ∉ done ∨ p.registered (p.userId s) = false
  | .addSession _ | .loginReq .. | .ping _ | .onClosed _ => True

instance (done : List Done) (p : Presence) : (t : LogicTask) → Decidable (t.RepeatsIdly done p)
  | .onClose _ => inferInstanceAs (Decidable (_ ∨ _))
  | .addSession _ | .loginReq .. | .ping _ | .onClosed _ => inferInstanceAs (Decidable True)

namespace Presence

variable {p p' : Presence} {done : List Done} {t : LogicTask} {d : Done}

/-- A session with a uid has the entry of that uid until its close task deletes it, and the empty
uid has no entry. -/
structure Keeps (p : Presence) (done : List Done) : Prop where
  entry : ∀ s, p.userId s ≠ [] →
    holder done (p.userId s) = some s ∨ .delUser s (p.userId s) ∈ done
  empty : holder done [] = none

/-- **One task** of a client keeps the entries, unless it is a second close task that finds an
entry.

**Proof sketch.** By cases on the task. A login takes over a uid that was free, so that it takes no
entry from another session. A close task takes the entry of its uid away; the entry belongs to its
own session, since a second close task finds none, and a session without a uid is not in `users_`.
The others change no entry. -/
lemma Ran.keeps (h : p.Ran t p' d) (hp : p.Keeps done) (htracks : p.Tracks done)
    (hlogin : ∀ s req, t = .loginReq s req → req.FromClient) (hclose : t.RepeatsIdly done p) :
    p'.Keeps (done ++ [d]) := by
  -- what held of a uid still holds, if the task does not change the entry of that uid
  have hkeep : ∀ s uid, holder (done ++ [d]) uid = holder done uid →
      holder done uid = some s ∨ .delUser s uid ∈ done →
      holder (done ++ [d]) uid = some s ∨ .delUser s uid ∈ done ++ [d] := fun s uid hsame h =>
    h.imp hsame.trans (List.mem_append_left _)
  cases h with
  | refused =>
    exact ⟨fun s hne => hkeep s _ (holder_other Done.lease_login_logined) (hp.entry s hne),
      (holder_other Done.lease_login_logined).trans hp.empty⟩
  | @registered u req htype hreg =>
    have hfree : holder done req.uid = none := by
      simpa [hreg] using htracks req.uid
    refine ⟨fun s hne => ?_, ?_⟩
    · by_cases hsu : s = u
      · subst hsu
        simp only [Function.update_self]
        exact .inl ((holder_registered htype).trans (if_pos rfl))
      · simp only [Function.update_of_ne hsu] at hne ⊢
        by_cases huid : p.userId s = req.uid
        · -- the uid was free, so the close task of `s` has run
          have hdel := (hp.entry s hne).resolve_left (by simp [huid, hfree])
          exact .inr (List.mem_append_left _ hdel)
        · exact hkeep s _ ((holder_registered htype).trans (if_neg huid)) (hp.entry s hne)
    · rw [holder_registered htype, if_neg (Ne.symm (hlogin u req rfl).2)]
      exact hp.empty
  | @queued u req htype =>
    have hnormal := (hlogin u req rfl).1
    rw [htype] at hnormal
    cases hnormal
  | @deleted u =>
    refine ⟨fun s hne => ?_, ?_⟩
    · by_cases huid : p.userId s = p.userId u
      · by_cases hsu : s = u
        · subst hsu
          exact .inr (by simp)
        · refine .inr (List.mem_append_left _ ((hp.entry s hne).resolve_left fun hs => ?_))
          -- otherwise the entry of `s` is there, and `u`, whose close task this is, has it
          rw [huid] at hs
          have hreg : p.registered (p.userId u) = true := by simp [htracks _, hs]
          have hfirst := hclose.resolve_right (by simp [hreg])
          have hu := (hp.entry u (huid ▸ hne)).resolve_right hfirst
          exact hsu (Option.some.inj (hs.symm.trans hu))
      · exact hkeep s _ (holder_deleted.trans (if_neg huid)) (hp.entry s hne)
    · rw [holder_deleted]
      split
      · rfl
      · exact hp.empty
  | quiet _ _ hnologin hnodel =>
    have hsame : ∀ uid, holder (done ++ [d]) uid = holder done uid := fun uid =>
      holder_other (Done.lease_quiet hnologin hnodel)
    exact ⟨fun s hne => hkeep s _ (hsame _) (hp.entry s hne), (hsame _).trans hp.empty⟩

end Presence

/-- In every run of client tasks whose second close tasks find no entry, the sessions keep their
entries. -/
lemma LogicIo.keeps_of_run {D : LogicIo → ℕ → UserMsg → Prop} {done : List Done} {σ : LogicIo}
    (h : machine.Run (guard D fun done σ t => (∀ s req, t = .loginReq s req → req.FromClient) ∧
      t.RepeatsIdly done σ.presence) done σ) : σ.presence.Keeps done := by
  refine h.invariant (fun done σ => σ.presence.Keeps done) ⟨fun s hne => absurd rfl hne, rfl⟩ ?_
  intro tr σ e σ' out hrun ih hg hstep
  have htracks := tracks_of_run hrun
  cases step_cases hstep with
  | accept hpres | dispatch _ hpres | onClosed _ hpres =>
    rw [List.append_nil, hpres]
    exact ih
  | close _ hpres =>
    rw [List.append_nil, hpres]
    exact ⟨ih.entry, ih.empty⟩
  | @run t _ _ hran htasks =>
    obtain ⟨hlogin, hclose⟩ := hg t (by simp [htasks])
    exact hran.keeps ih htracks hlogin hclose

namespace GameServer

variable {β φ : Type} {w : Wire β φ} {tr : List (Obs β φ)} {σ : GameServer β φ} {s : ℕ}

/-- The bodies that the client of the repository sends: a normal login request with a uid, then
pings. -/
def ClientLike (w : Wire β φ) : List φ → Prop
  | [] => True
  | f :: fs => (∃ req ∈ w.loginReq f, req.FromClient) ∧ ∀ g ∈ fs, w.message g = some .ping

instance : DecidablePred (ClientLike w)
  | [] => inferInstanceAs (Decidable True)
  | _ :: _ => inferInstanceAs (Decidable ((∃ req ∈ _, _ ∧ _) ∧ ∀ g ∈ _, _))

/-- Running the close task of a session leaves the entry of every other open session alone. -/
def CloseSpares (tr : List (Obs β φ)) (σ : GameServer β φ) : Prop :=
  ∀ a b uid, σ.logic.tasks.head? = some (.onClose a) → a ≠ b →
    holder (dones tr) uid = some b → (σ.logic.sessions b).closed = false →
    ((σ.logic.runTask (.onClose a)).1.users.findUser uid).isSome

/-- What the guard says of every arrival holds of all that has arrived. -/
lemma arrived_of_run {G : List (Obs β φ) → GameServer β φ → Event φ → Prop}
    {A : List φ → Prop} (hnil : A []) (hG : ∀ tr σ e, G tr σ e → onArrival A tr σ e)
    (h : (machine w).Run G tr σ) (s : ℕ) : A (arrivedOn s tr) := by
  refine h.invariant (fun tr _ => A (arrivedOn s tr)) hnil ?_
  intro tr σ e σ' out _ ih hg hstep
  cases step_cases hstep with
  | accept | writeDone | timerDone | logic => simpa [arrivedOn] using ih
  | io _ _ _ _ hsig => simpa [(signals_records (t := s) hsig).2.1] using ih
  | @readDone u result =>
    rw [arrivedOn_append, arrivedOn_arrived]
    split
    · subst ‹u = s›
      cases harr : (σ.io u).arrival result with
      | none => simpa using ih
      | some f => exact hG _ _ _ hg f harr
    · simpa using ih

/-- A login request among the bodies of a client is as the client sends it. -/
lemma ClientLike.fromClient {fs : List φ} (h : ClientLike w fs) {req : LoginReq}
    (hreq : req ∈ fs.filterMap w.loginReq) : req.FromClient := by
  cases fs with
  | nil => simp at hreq
  | cons f fs =>
    obtain ⟨⟨req', hf, hclient⟩, hpings⟩ := h
    obtain ⟨g, hg, hgreq⟩ := List.mem_filterMap.mp hreq
    rcases List.mem_cons.mp hg with rfl | hg
    · exact Option.mem_unique hf hgreq ▸ hclient
    · simp [Wire.loginReq, hpings g hg] at hgreq

/-- A login request that waits for the logic thread has arrived on its session. -/
lemma mem_arrived_of_mem_tasks (h : (machine w).Reach tr σ) {req : LoginReq}
    (hreq : .loginReq s req ∈ σ.logic.tasks) :
    req ∈ (arrivedOn s tr).filterMap w.loginReq := by
  rw [← (conserves_of_run h s).requests, List.mem_append, List.mem_append]
  exact .inl (.inr (List.mem_filterMap.mpr ⟨_, hreq, by simp⟩))

/-- **Closing one session spares the others.** In every run of clients in which a close task that
deletes the uid of its session again finds no entry, running the next close task, if it is no
repetition that finds an entry either, leaves the entries of the other open sessions alone.

**Proof sketch.** A session keeps the entry of its uid until its own close task deletes it
(`Presence.Keeps`). So a first close task deletes an entry of its own session. -/
theorem close_spares_others
    (h : (machine w).Run (fun tr σ e => onArrival (ClientLike w) tr σ e ∧
      onTask (fun done σ t => t.RepeatsIdly done σ.logic.presence) tr σ e) tr σ)
    (hnext : onTask (fun done σ t => t.RepeatsIdly done σ.logic.presence) tr σ .logic) :
    CloseSpares tr σ := by
  have hrun := logic_of_run (D := fun _ _ _ => True)
    (R := fun done σ t => (∀ s req, t = .loginReq s req → req.FromClient) ∧
      t.RepeatsIdly done σ.presence) (fun _ _ _ _ _ _ _ _ _ _ => trivial) ?_ h
  · have htracks := LogicIo.tracks_of_run hrun
    have hkeeps := LogicIo.keeps_of_run hrun
    intro a b uid hhead hab hholder _
    -- the uid deleted is another one
    have hne : uid ≠ (σ.logic.sessions a).userId := by
      rintro rfl
      have hempty : σ.logic.presence.userId a ≠ [] := fun heq => by
        have hnone := hkeeps.empty
        rw [← heq] at hnone
        exact absurd (hholder.symm.trans hnone) (by simp)
      have hfirst := (hnext _ hhead).resolve_right fun hnone => by
        have hreg := htracks (σ.logic.sessions a).userId
        rw [hholder] at hreg
        exact absurd (hreg.symm.trans hnone) (by simp)
      have hmine := (hkeeps.entry a hempty).resolve_right hfirst
      exact hab (Option.some.inj (hmine.symm.trans hholder))
    have hreg : (σ.logic.users.findUser uid).isSome = true := by
      rw [show (σ.logic.users.findUser uid).isSome = σ.logic.presence.registered uid from rfl,
        htracks uid, hholder]
      rfl
    simpa [LogicIo.runTask, UserManager.delUser, UserManager.findUser, hne] using hreg
  · intro tr σ t hrun hg ht
    refine ⟨fun s req heq => ?_, hg.2 t ht⟩
    have hmem : .loginReq s req ∈ σ.logic.tasks := heq ▸ List.mem_of_mem_head? ht
    have harrived : ClientLike w (arrivedOn s tr) :=
      arrived_of_run trivial (fun _ _ _ hg => hg.1) hrun s
    exact harrived.fromClient (mem_arrived_of_mem_tasks hrun.reach hmem)

/-- Two clients log in, and the first one disconnects. -/
theorem close_spares_others_two : ∃ (tr : List (Obs UserBuffer UserBuffer))
    (σ : GameServer UserBuffer UserBuffer), σ.logic.tasks.head? = some (.onClose 0) ∧
      holder (dones tr) [118] = some 1 ∧ CloseSpares tr σ := by
  obtain ⟨r, hexec, hhead, hholder, hnext⟩ :
      ∃ r ∈ (machine sampleWire).exec (fun tr σ e => decide (onArrival (ClientLike sampleWire)
          tr σ e ∧ onTask (fun done σ t => t.RepeatsIdly done σ.logic.presence) tr σ e)) []
        (machine sampleWire).init ([.accept 0, .accept 0] ++
          sampleReceive 0 1 (sampleLogin [117]) ++ sampleReceive 1 1 (sampleLogin [118]) ++
          [.readDone 0 none, .io 0 2, .logic, .logic, .logic, .logic]),
        r.2.logic.tasks.head? = some (.onClose 0) ∧ holder (dones r.1) [118] = some 1 ∧
          onTask (fun done σ t => t.RepeatsIdly done σ.logic.presence) r.1 r.2
            (.logic : Event UserBuffer) := by decide +kernel
  exact ⟨r.1, r.2, hhead, hholder, close_spares_others
    (Machine.run_of_exec (fun tr σ e h => of_decide_eq_true h) hexec) hnext⟩

/-- **The defect.** `Close()` has no guard against a second call. The connection of a client is
reset while its login waits for the logic thread; the answer is written to the closed socket,
which closes the session again, and the second close task deletes the entry that another client
has got in the meantime. -/
theorem close_spares_others_fails : ¬ ∀ (tr : List (Obs UserBuffer UserBuffer))
    (σ : GameServer UserBuffer UserBuffer),
    (machine sampleWire).Run (onArrival (ClientLike sampleWire)) tr σ → CloseSpares tr σ := by
  obtain ⟨r, hexec, hhead, hholder, hopen, hgone⟩ :
      ∃ r ∈ (machine sampleWire).exec
        (fun tr σ e => decide (onArrival (ClientLike sampleWire) tr σ e)) []
        (machine sampleWire).init ([.accept 0, .accept 0] ++
          sampleReceive 0 1 (sampleLogin [117]) ++ [.logic, .logic, .readDone 0 none, .io 0 2,
            .logic, .io 0 2, .io 0 2, .logic] ++ sampleReceive 1 3 (sampleLogin [117]) ++
          [.logic, .logic, .io 0 3, .io 0 3]),
        r.2.logic.tasks.head? = some (.onClose 0) ∧ holder (dones r.1) [117] = some 1 ∧
          (r.2.logic.sessions 1).closed = false ∧
          ((r.2.logic.runTask (.onClose 0)).1.users.findUser [117]).isSome = false := by
    decide +kernel
  intro h
  have hspared := h _ _ (Machine.run_of_exec (fun tr σ e h => of_decide_eq_true h) hexec) 0 1 _
    hhead (by decide) hholder hopen
  rw [hgone] at hspared
  cases hspared

end GameServer

end FightingCard
