import FightingCard.Server.Closing
import FightingCard.Server.SessionIds

set_option relaxedAutoImplicit false
set_option autoImplicit false

/-!
# The registry of sessions

`UserSessionManager` in the running server. `OnAccept` posts the registration of a session before
anything else can be posted for it, and the logic thread runs its tasks in the order in which
they were posted, so that a session is registered once, before its first message is handled and
before its close task runs; the close task itself may run several times.

`FightingCard.SessionTable` follows the manager on its own, with every session deleted at most
once. Here it becomes a view of the logic thread: a repeated close task does not change it as
long as no id has been given out twice.

## Main definitions

* `FightingCard.LogicTask.register` — the order in which the tasks of a session come.
* `FightingCard.LogicIo.table` — the manager as a `FightingCard.SessionTable`.

## Main results

* `FightingCard.LogicIo.register_of_run` — the tasks of every session come in order.
* `FightingCard.GameServer.registry` — `user_sessions_` has the sessions that were registered and
  not closed.
-/

namespace FightingCard

/-! ## The order of the tasks -/

/-- The task that has done this. -/
def Done.task : Done → LogicTask
  | .addSession s => .addSession s
  | .login s req _ => .loginReq s req
  | .ping s => .ping s
  | .delUser s _ => .onClose s
  | .onClosed s => .onClosed s

/-- The session that a task registers. -/
def LogicTask.added : LogicTask → Option ℕ
  | .addSession s => some s
  | .loginReq .. | .ping _ | .onClose _ | .onClosed _ => none

/-- The number of sessions that are registered after a task, from their number before it: a task
registers the next session, or it works on a registered one. -/
def LogicTask.register (n : ℕ) (t : LogicTask) : Option ℕ :=
  match t.added with
  | some s => if s = n then some (n + 1) else none
  | none => if t.session < n then some n else none

namespace LogicTask

variable {k n m : ℕ} {t : LogicTask} {ts before after : List LogicTask}

/-- What a task in order does. -/
lemma register_cases (h : t.register n = some m) :
    t = .addSession n ∧ m = n + 1 ∨ t.added = none ∧ t.session < n ∧ m = n := by
  cases t with
  | addSession s =>
    simp only [register, added] at h
    split at h
    · rename_i hs
      cases h
      exact .inl ⟨congrArg _ hs, rfl⟩
    · cases h
  | loginReq | ping | onClose | onClosed =>
    simp only [register, added] at h
    split at h
    · rename_i hs
      cases h
      exact .inr ⟨rfl, hs, rfl⟩
    · cases h

/-- A task of a registered session is in order. -/
lemma register_of_lt (hadded : t.added = none) (hs : t.session < n) : t.register n = some n := by
  simp [register, hadded, hs]

/-- Tasks in order register the sessions one after the other. -/
lemma filterMap_added (h : ts.foldlM register k = some m) :
    ts.filterMap added = List.range' k (m - k) ∧ k ≤ m := by
  induction ts generalizing k with
  | nil =>
    cases h
    simp
  | cons t ts ih =>
    obtain ⟨n, hn, hrest⟩ := Option.bind_eq_some_iff.mp h
    obtain ⟨hih, hle⟩ := ih hrest
    rcases register_cases hn with ⟨rfl, rfl⟩ | ⟨hnone, -, rfl⟩
    · have hsub : m - k = m - (k + 1) + 1 := by omega
      have hadded : (addSession k).added = some k := rfl
      refine ⟨?_, by omega⟩
      rw [List.filterMap_cons_some hadded, hih, hsub, List.range'_succ]
    · exact ⟨(List.filterMap_cons_none hnone).trans hih, hle⟩

/-- A session is registered before any other task of it. -/
lemma added_mem (h : (before ++ t :: after).foldlM register 0 = some m) (ht : t.added = none) :
    t.session ∈ before.filterMap added := by
  rw [List.foldlM_append] at h
  obtain ⟨n, hbefore, hrest⟩ := Option.bind_eq_some_iff.mp h
  obtain ⟨n', hn', -⟩ := Option.bind_eq_some_iff.mp hrest
  rcases register_cases hn' with ⟨rfl, -⟩ | ⟨-, hlt, -⟩
  · cases ht
  · rw [(filterMap_added hbefore).1, List.mem_range']
    exact ⟨t.session, by omega, by omega⟩

end LogicTask

namespace LogicIo

variable {σ σ' : LogicIo} {s : ℕ} {e : Event} {done out : List Done}

/-- The record of a task tells the task. -/
lemma task_runTask (t : LogicTask) : (σ.runTask t).2.task = t := by
  cases t <;> rfl

/-- The tasks that were run and those in the queue are in order, and register the sessions that
were accepted. -/
def InOrder (done : List Done) (σ : LogicIo) : Prop :=
  (done.map Done.task ++ σ.tasks).foldlM LogicTask.register 0 = some σ.accepted

/-- A task is posted in order. -/
lemma InOrder.post {t : LogicTask} {n : ℕ} (h : InOrder done σ)
    (htasks : σ'.tasks = σ.tasks ++ [t]) (hacc : σ'.accepted = n)
    (ht : t.register σ.accepted = some n) : InOrder (done ++ []) σ' := by
  rw [InOrder, List.append_nil, htasks, ← List.append_assoc, List.foldlM_append, h, hacc]
  simp [ht]

/-- A step keeps the order. -/
lemma InOrder.step (h : InOrder done σ) (hstep : σ.step e = some (σ', out)) :
    InOrder (done ++ out) σ' := by
  have hcases := step_cases hstep
  cases e with
  | accept =>
    cases hcases with
    | accept _ htasks hacc => exact h.post htasks hacc (if_pos rfl)
  | dispatch s msg =>
    cases hcases with
    | dispatch hs _ htasks hacc =>
      have hadded : (msg.task s).added = none := by cases msg <;> rfl
      exact h.post htasks hacc (LogicTask.register_of_lt hadded (by simpa using hs))
  | close s =>
    cases hcases with
    | close hs _ htasks hacc => exact h.post htasks hacc (LogicTask.register_of_lt rfl hs)
  | onClosed s =>
    cases hcases with
    | onClosed hs _ htasks hacc => exact h.post htasks hacc (LogicTask.register_of_lt rfl hs)
  | run =>
    simp only [LogicIo.step] at hstep
    split at hstep
    · cases hstep
    · rename_i t ts htasks
      cases hstep
      obtain ⟨hqueue, hacc⟩ := runTask_queue (σ := { σ with tasks := ts }) t
      rw [InOrder, hqueue, hacc, List.map_append, List.map_singleton, task_runTask,
        List.append_assoc, List.singleton_append]
      rw [InOrder, htasks] at h
      exact h

/-- **The order of the tasks.** -/
theorem register_of_run {G : List Done → LogicIo → Event → Prop} (h : machine.Run G done σ) :
    InOrder done σ := by
  refine h.invariant InOrder ?_ fun _ _ _ _ _ _ ih _ hstep => ih.step hstep
  rfl

/-! ## The manager -/

/-- The sessions that were registered, in order. -/
def registrations (done : List Done) : List ℕ := done.filterMap fun d => d.task.added

/-- The manager with the sessions that were registered, and those of which a close task has run. -/
def table (done : List Done) (σ : LogicIo) : SessionTable where
  manager := σ.userSessions
  added := (registrations done).length
  sessionId s := (σ.sessions s).sessionId
  deleted s := done.any fun
    | .delUser t _ => t = s
    | _ => false

/-- The sessions are registered in the order in which they were accepted. -/
lemma InOrder.registrations_eq (h : InOrder done σ) : ∃ n ≤ σ.accepted,
    (done.map Done.task).foldlM LogicTask.register 0 = some n ∧
      registrations done = List.range n := by
  rw [InOrder, List.foldlM_append] at h
  obtain ⟨n, hdone, htasks⟩ := Option.bind_eq_some_iff.mp h
  refine ⟨n, (LogicTask.filterMap_added htasks).2, hdone, ?_⟩
  have hadded := (LogicTask.filterMap_added hdone).1
  rw [List.filterMap_map, Nat.sub_zero, ← List.range_eq_range'] at hadded
  exact hadded

/-- The task that runs next registers the next session, or works on a registered one. -/
lemma InOrder.next {t : LogicTask} {ts : List LogicTask} (h : InOrder done σ)
    (htasks : σ.tasks = t :: ts) :
    t = .addSession (registrations done).length ∧ (registrations done).length < σ.accepted ∨
      t.added = none ∧ t.session < (registrations done).length := by
  obtain ⟨n, -, hdone, hreg⟩ := h.registrations_eq
  rw [InOrder, List.foldlM_append, hdone, htasks] at h
  have hrest : List.foldlM LogicTask.register n (t :: ts) = some σ.accepted := h
  obtain ⟨m, hm, hts⟩ := Option.bind_eq_some_iff.mp hrest
  have hlen : (registrations done).length = n := by rw [hreg, List.length_range]
  rw [hlen]
  rcases LogicTask.register_cases hm with ⟨ht, rfl⟩ | ⟨hnone, hlt, -⟩
  · exact .inl ⟨ht, (LogicTask.filterMap_added hts).2⟩
  · exact .inr ⟨hnone, hlt⟩

/-- The registrations of more tasks. -/
@[simp] lemma registrations_append {done' : List Done} :
    registrations (done ++ done') = registrations done ++ registrations done' :=
  List.filterMap_append

/-- What has been done neither registers a session nor closes one. -/
lemma table_eq {d : Done} (hd : d.task.added = none) (hclose : ∀ s uid, d ≠ .delUser s uid)
    (hmanager : σ'.userSessions = σ.userSessions)
    (hid : ∀ s, (σ'.sessions s).sessionId = (σ.sessions s).sessionId) :
    table (done ++ [d]) σ' = table done σ := by
  have hreg : registrations [d] = [] := by simp [registrations, hd]
  simp only [table, registrations_append, hreg, List.append_nil, hmanager, hid, List.any_append]
  congr 1
  funext s
  cases d with
  | delUser t uid => exact absurd rfl (hclose t uid)
  | addSession | login | ping | onClosed => simp

/-- A login does not change the id of its session. -/
lemma sessionId_loginReqHandle {users : UserManager} {session : UserSession} {req : LoginReq} :
    (loginReqHandle users session req).2.1.sessionId = session.sessionId := by
  unfold loginReqHandle
  split
  · split <;> rfl
  · rfl

/-- A task that neither registers a session nor closes one is not seen in the view. -/
lemma table_quiet {t : LogicTask} {ts : List LogicTask} (hadded : t.added = none)
    (hclose : ∀ s, t ≠ .onClose s) :
    table (done ++ [({ σ with tasks := ts }.runTask t).2]) ({ σ with tasks := ts }.runTask t).1 =
      table done σ := by
  cases t with
  | addSession => cases hadded
  | onClose s => exact absurd rfl (hclose s)
  | ping | onClosed => exact table_eq rfl (by simp [runTask]) rfl fun _ => rfl
  | loginReq s req =>
    refine table_eq rfl (by simp [runTask]) rfl fun u => ?_
    by_cases hu : u = s <;> simp [runTask, setSession, hu, sessionId_loginReqHandle]

/-- The environment of the logic thread neither registers nor closes. -/
lemma table_of_step (he : e ≠ .run) (h : σ.step e = some (σ', out)) :
    table (done ++ out) σ' = table done σ := by
  cases e with
  | accept =>
    cases h
    rw [List.append_nil]
    rfl
  | dispatch s msg | onClosed s =>
    simp only [LogicIo.step] at h
    split at h
    · cases h
      rw [List.append_nil]
      rfl
    · cases h
  | close s =>
    simp only [LogicIo.step] at h
    split at h
    · cases h
      rw [List.append_nil]
      simp only [table, LogicIo.close, LogicIo.post, setSession]
      congr 1
      funext t
      by_cases ht : t = s <;> simp [ht]
    · cases h
  | run => exact absurd rfl he

/-- The next session is registered. -/
lemma table_addSession (ts : List LogicTask) : ∃ id, (table done σ).step .addSession =
    some (table (done ++ [.addSession (registrations done).length])
      (({ σ with tasks := ts }).runTask (.addSession (registrations done).length)).1, [id]) := by
  refine ⟨(σ.userSessions.addSession (registrations done).length).2, ?_⟩
  have hreg : registrations [.addSession (registrations done).length] =
    [(registrations done).length] := rfl
  simp only [SessionTable.step, table, runTask, setSession, registrations_append, hreg,
    List.length_append, List.length_singleton, List.any_append, Option.some.injEq, Prod.mk.injEq,
    SessionTable.mk.injEq, and_true, true_and]
  refine ⟨funext fun s => ?_, funext fun s => by simp⟩
  by_cases hs : s = (registrations done).length <;> simp [hs]

/-- A close task of a registered session. -/
lemma table_delSession {ts : List LogicTask} {uid : Bytes} (hs : (table done σ).Registered s) :
    (table done σ).step (.delSession s) =
      some (table (done ++ [.delUser s uid]) (({ σ with tasks := ts }).runTask (.onClose s)).1,
        []) := by
  have hreg : registrations [.delUser s uid] = [] := rfl
  rw [SessionTable.step, if_pos hs]
  simp only [table, runTask, registrations_append, hreg, List.append_nil, List.any_append,
    Option.some.injEq, Prod.mk.injEq, SessionTable.mk.injEq, and_true, true_and]
  funext t
  by_cases ht : t = s <;> simp [ht, eq_comm]

/-- A close task of a session that has been closed already does nothing, as long as its id has
not been given out again. -/
lemma table_closed {ts : List LogicTask} {uid : Bytes} (hσ : (table done σ).Tracked)
    (hfew : (registrations done).length ≤ SessionTable.idCount)
    (hs : s < (registrations done).length) (hclosed : (table done σ).deleted s = true) :
    table (done ++ [.delUser s uid]) (({ σ with tasks := ts }).runTask (.onClose s)).1 =
      table done σ := by
  have hreg : registrations [.delUser s uid] = [] := rfl
  have hid : (σ.sessions s).sessionId = SessionTable.idOf s := hσ.sessionId s hs
  -- no registered session has the id of the closed one
  have hnone : σ.userSessions.userSessions (SessionTable.idOf s) = none := by
    by_contra hne
    obtain ⟨t, ht⟩ := Option.ne_none_iff_exists'.mp hne
    obtain ⟨⟨hlt, hopen⟩, heq⟩ := (hσ.table _ t).mp ht
    have hlt' : t < (registrations done).length := hlt
    obtain rfl := SessionTable.idOf_injOn_window (n := 0)
      (Finset.mem_Ico.mpr ⟨Nat.zero_le _, by omega⟩) (Finset.mem_Ico.mpr ⟨Nat.zero_le _, by omega⟩)
      heq
    rw [hclosed] at hopen
    cases hopen
  simp only [table, runTask, registrations_append, hreg, List.append_nil, List.any_append,
    SessionTable.mk.injEq, true_and]
  refine ⟨?_, funext fun t => ?_⟩
  · rw [UserSessionManager.delSession, hid, Function.update_eq_self_iff.mpr hnone.symm]
  · by_cases ht : t = s
    · subst ht
      simpa [table] using hclosed
    · simp [Ne.symm ht]

/-- The task that runs next keeps track of the sessions. -/
lemma tracked_runTask {t : LogicTask} {ts : List LogicTask} (hσ : (table done σ).Tracked)
    (horder : InOrder done σ) (htasks : σ.tasks = t :: ts)
    (hfew : σ.accepted ≤ SessionTable.idCount) :
    (table (done ++ [({ σ with tasks := ts }.runTask t).2])
      ({ σ with tasks := ts }.runTask t).1).Tracked := by
  rcases horder.next htasks with ⟨rfl, hlast⟩ | ⟨hadded, hlt⟩
  · have hfree : (table done σ).SlotFree .addSession := fun _ hfull =>
      absurd (show SessionTable.idCount ≤ (registrations done).length from hfull) (by omega)
    obtain ⟨id, hstep⟩ := table_addSession ts
    exact hσ.addSession hfree (hσ.toNumbered.step_cases hstep)
  · obtain ⟨n, hn, -, hreg⟩ := horder.registrations_eq
    have hlen : (registrations done).length = n := by rw [hreg, List.length_range]
    cases t with
    | addSession s => cases hadded
    | loginReq | ping | onClosed => exact (table_quiet hadded (by simp)).symm ▸ hσ
    | onClose s =>
      by_cases hclosed : (table done σ).deleted s = true
      · exact (table_closed hσ (by omega) hlt hclosed).symm ▸ hσ
      · have hs : (table done σ).Registered s := ⟨hlt, eq_false_of_ne_true hclosed⟩
        exact hσ.delSession (hσ.toNumbered.step_cases (table_delSession hs))

/-- The number of accepted sessions does not decrease. -/
lemma accepted_le_of_step (h : σ.step e = some (σ', out)) : σ.accepted ≤ σ'.accepted := by
  cases step_cases h with
  | accept _ _ hacc => omega
  | dispatch _ _ _ hacc | close _ _ _ hacc | onClosed _ _ _ hacc | run _ _ hacc => exact hacc.ge

/-- **The run lemma.** As long as no id has been given out twice, the manager has exactly the
sessions that were registered and not closed. -/
lemma tracked_of_run {G : List Done → LogicIo → Event → Prop} (h : machine.Run G done σ)
    (hfew : σ.accepted ≤ SessionTable.idCount) : (table done σ).Tracked := by
  refine h.invariant (fun done σ => σ.accepted ≤ SessionTable.idCount → (table done σ).Tracked)
    (fun _ => SessionTable.tracked_of_run .nil)
    (fun done σ e σ' out hrun ih _ hstep hfew => ?_) hfew
  have htracked := ih ((accepted_le_of_step hstep).trans hfew)
  by_cases he : e = .run
  · subst he
    simp only [machine, LogicIo.step] at hstep
    split at hstep
    · cases hstep
    · rename_i t ts htasks
      cases hstep
      have hacc := (runTask_queue (σ := { σ with tasks := ts }) t).2
      exact tracked_runTask htracked (register_of_run hrun) htasks (hacc ▸ hfew)
  · rw [table_of_step he hstep]
    exact htracked

end LogicIo

namespace GameServer

variable {β φ : Type} {w : Wire β φ} {tr : List (Obs β φ)} {σ : GameServer β φ}

/-- **The registry.** In every run of the server the sessions are registered in the order in which
they were accepted, each of them once and before any other task of it is run; and as long as no
more than `2 ^ 32 - 1` connections have been accepted, `user_sessions_` has exactly the sessions
that were registered and of which no close task has run, however often `Close()` was called.

**Proof sketch.** The tasks are run in the order in which they were posted, and the first task
that is posted for a session registers it (`LogicIo.InOrder`). The manager refines
`SessionTable`: a repeated close task deletes an id that no registered session has. -/
theorem registry (h : (machine w).Reach tr σ) :
    (∃ n ≤ σ.logic.accepted, LogicIo.registrations (dones tr) = List.range n) ∧
      (∀ before d after, dones tr = before ++ d :: after → d.task.added = none →
        d.task.session ∈ LogicIo.registrations before) ∧
      (σ.logic.accepted ≤ SessionTable.idCount → ∀ id s,
        σ.logic.userSessions.getSession id = some s ↔
          id = s + 1 ∧ s ∈ LogicIo.registrations (dones tr) ∧
            ∀ uid, .delUser s uid ∉ dones tr) := by
  have hlogic := logic_reach h
  have horder := LogicIo.register_of_run hlogic
  obtain ⟨n, hn, -, hreg⟩ := horder.registrations_eq
  refine ⟨⟨n, hn, hreg⟩, fun before d after hsplit hd => ?_, fun hfew id s => ?_⟩
  · rw [LogicIo.InOrder, hsplit, List.map_append, List.map_cons, List.append_assoc,
      List.cons_append] at horder
    have hmem := LogicTask.added_mem horder hd
    rwa [List.filterMap_map] at hmem
  · have htracked := LogicIo.tracked_of_run hlogic hfew
    have hid : ∀ t < n, SessionTable.idOf t = t + 1 := fun t ht => by
      rw [SessionTable.idOf, Nat.mod_eq_of_lt (by omega)]
    have hregistered : (LogicIo.table (dones tr) σ.logic).Registered s ↔
        s < n ∧ ∀ uid, .delUser s uid ∉ dones tr := by
      have hlen : (LogicIo.registrations (dones tr)).length = n := by rw [hreg, List.length_range]
      rw [SessionTable.Registered, LogicIo.table, hlen, List.any_eq_false]
      refine and_congr_right fun _ => ⟨fun hopen uid hmem => ?_, fun hopen d hd => ?_⟩
      · simpa using hopen _ hmem
      · cases d with
        | delUser t uid =>
          by_cases ht : t = s
          · exact absurd (ht ▸ hd) (hopen uid)
          · simp [ht]
        | addSession | login | ping | onClosed => simp
    have htable := htracked.table id s
    rw [hregistered] at htable
    rw [hreg, List.mem_range]
    refine htable.trans ⟨fun hs => ?_, fun hs => ?_⟩
    · exact ⟨hs.2 ▸ hid s hs.1.1, hs.1⟩
    · exact ⟨hs.2, hs.1 ▸ hid s hs.2.1⟩

/-- Two sessions are registered, and the first one is closed. -/
theorem registry_two : ∃ (tr : List (Obs UserBuffer UserBuffer))
    (σ : GameServer UserBuffer UserBuffer), (machine sampleWire).Reach tr σ ∧
      .delUser 0 [] ∈ dones tr ∧ σ.logic.userSessions.getSession 1 ≠ some 0 ∧
      σ.logic.userSessions.getSession 2 = some 1 := by
  obtain ⟨r, hexec, hacc, hone, htwo, hopen⟩ :
      ∃ r ∈ (machine sampleWire).exec (fun _ _ _ => true) [] (machine sampleWire).init
        [.accept 0, .accept 0, .logic, .logic, .readDone 0 none, .io 0 0, .logic],
        r.2.logic.accepted = 2 ∧ .delUser 0 [] ∈ dones r.1 ∧
          1 ∈ LogicIo.registrations (dones r.1) ∧
          ∀ d ∈ dones r.1, d = .delUser 0 [] ∨ d.task ≠ .onClose 1 := by
    decide +kernel
  have hrun := Machine.run_of_exec (G := fun _ _ _ => True) (fun _ _ _ _ => trivial) hexec
  have htable := (registry hrun).2.2 (by rw [hacc]; decide)
  refine ⟨r.1, r.2, hrun, hone, fun h => ?_, (htable 2 1).mpr ⟨rfl, htwo, fun uid hmem => ?_⟩⟩
  · exact ((htable 1 0).mp h).2.2 [] hone
  · rcases hopen _ hmem with heq | hne
    · cases heq
    · exact hne rfl

end GameServer

end FightingCard
