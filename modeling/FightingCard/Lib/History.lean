import Mathlib.Data.List.Induction
import Mathlib.Logic.Function.Basic

set_option relaxedAutoImplicit false
set_option autoImplicit false

/-!
# Histories and exclusive leases

A history is the list of what has happened so far, oldest first. `History.Since p q` says that
something with `p` has happened and nothing with `q` since, the past operator "not `q` since
`p`" of temporal logic.

A component that hands out keys to holders, one holder at a time, is described by the history
of its grants and revocations alone: the holder of a key is the one named by its last grant,
unless the key has been revoked since. A table kept by a program is correct when it answers as
this history does, whatever it forgets about the holders.

## Main definitions

* `History.Since` — some `p` has happened and no `q` since.
* `History.Silent` — nothing with `a` has happened from some `p` to the next `q`.
* `History.Lease` — a key is granted to a holder, or revoked.
* `History.holders` — the holder of every key after a history of leases.

## Main results

* `History.since_concat` — how one more event changes `Since`.
* `History.isSome_holders_iff` — a key has a holder exactly when it was granted and not revoked
  since.
-/

namespace History

section Since

variable {α β : Type*} {p q : α → Prop} {h : List α} {x : α}

/-- Some event with `p` has happened, and none with `q` after it. -/
def Since (p q : α → Prop) (h : List α) : Prop :=
  ∃ pre x post, h = pre ++ x :: post ∧ p x ∧ ∀ y ∈ post, ¬ q y

/-- Nothing has happened yet. -/
@[simp] lemma not_since_nil : ¬ Since p q [] := by
  rintro ⟨pre, x, post, h, -⟩
  simp at h

/-- One more event starts the period if it has `p`, and otherwise ends it if it has `q`. -/
lemma since_concat : Since p q (h ++ [x]) ↔ p x ∨ Since p q h ∧ ¬ q x := by
  constructor
  · rintro ⟨pre, y, post, heq, hp, hpost⟩
    rcases List.eq_nil_or_concat post with rfl | ⟨post', z, rfl⟩
    · obtain ⟨-, hxy⟩ := List.append_inj' heq rfl
      exact .inl (List.singleton_inj.mp hxy ▸ hp)
    · rw [List.concat_eq_append, ← List.cons_append, ← List.append_assoc] at heq
      obtain ⟨rfl, hz⟩ := List.append_inj' heq rfl
      obtain rfl := List.singleton_inj.mp hz
      simp only [List.concat_eq_append, List.mem_append, List.mem_singleton] at hpost
      exact .inr ⟨⟨pre, y, post', rfl, hp, fun w hw => hpost w (.inl hw)⟩, hpost x (.inr rfl)⟩
  · rintro (hp | ⟨⟨pre, y, post, rfl, hp, hpost⟩, hq⟩)
    · exact ⟨h, x, [], rfl, hp, by simp⟩
    · refine ⟨pre, y, post ++ [x], by simp, hp, fun w hw => ?_⟩
      rcases List.mem_append.mp hw with hw | hw
      · exact hpost w hw
      · exact List.mem_singleton.mp hw ▸ hq

/-- The events that a filter keeps tell whether a period is open, if the filter keeps every
event that starts or ends it. -/
lemma since_filterMap {f : β → Option α} {h : List β} :
    Since p q (h.filterMap f) ↔ Since (fun y => ∃ x ∈ f y, p x) (fun y => ∃ x ∈ f y, q x) h := by
  induction h using List.reverseRecOn with
  | nil => simp
  | append_singleton h y ih =>
    rw [List.filterMap_append, since_concat, ← ih]
    cases hy : f y with
    | none => simp [hy]
    | some x =>
      rw [show [y].filterMap f = [x] by simp [hy], since_concat]
      simp

/-- No event with `a` has happened between one with `p` and the next one with `q`. -/
def Silent (p q a : α → Prop) (h : List α) : Prop :=
  ∀ pre x post, h = pre ++ x :: post → a x → ¬ Since p q pre

variable {a : α → Prop} {h' : List α}

/-- An empty history is silent. -/
@[simp] lemma silent_nil : Silent p q a [] := by
  intro pre x post h
  simp at h

/-- One more event keeps the silence if it does not have `a`, or comes at another time. -/
lemma silent_concat : Silent p q a (h ++ [x]) ↔ Silent p q a h ∧ (a x → ¬ Since p q h) := by
  constructor
  · exact fun hs => ⟨fun pre y post heq => hs pre y (post ++ [x]) (by simp [heq]),
      hs h x [] rfl⟩
  · rintro ⟨hs, hx⟩ pre y post heq
    rcases List.eq_nil_or_concat post with rfl | ⟨post', z, rfl⟩
    · obtain ⟨rfl, hxy⟩ := List.append_inj' heq rfl
      exact List.singleton_inj.mp hxy ▸ hx
    · rw [List.concat_eq_append, ← List.cons_append, ← List.append_assoc] at heq
      exact hs pre y post' (List.append_inj' heq rfl).1

/-- Events that do not start a period leave none open if none was. -/
lemma not_since_append (hs : ¬ Since p q h) (hp : ∀ x ∈ h', ¬ p x) : ¬ Since p q (h ++ h') := by
  induction h' using List.reverseRecOn with
  | nil => simpa using hs
  | append_singleton h' y ih =>
    rw [← List.append_assoc, since_concat]
    rintro (hy | ⟨hs', -⟩)
    · exact hp y (by simp) hy
    · exact ih (fun x hx => hp x (List.mem_append_left _ hx)) hs'

/-- Events outside of a period may have `a`. -/
lemma Silent.append_of_not_since (hsilent : Silent p q a h) (hs : ¬ Since p q h)
    (hp : ∀ x ∈ h', ¬ p x) : Silent p q a (h ++ h') := by
  induction h' using List.reverseRecOn with
  | nil => simpa using hsilent
  | append_singleton h' y ih =>
    have hp' : ∀ x ∈ h', ¬ p x := fun x hx => hp x (List.mem_append_left _ hx)
    rw [← List.append_assoc, silent_concat]
    exact ⟨ih hp', fun _ => not_since_append hs hp'⟩

end Since

/-! ## Leases -/

/-- A change of a lease table. -/
inductive Lease (κ α : Type*) where
  | grant (k : κ) (a : α)
  | revoke (k : κ)

variable {κ α : Type*} [DecidableEq κ]

/-- A lease table after one change. -/
def Lease.apply (t : κ → Option α) : Lease κ α → κ → Option α
  | .grant k a => Function.update t k (some a)
  | .revoke k => Function.update t k none

/-- The lease table after a history, from the empty table. -/
def holders (h : List (Lease κ α)) : κ → Option α := h.foldl Lease.apply fun _ => none

variable {h : List (Lease κ α)} {k k' : κ} {a : α}

/-- At first nothing is held. -/
@[simp] lemma holders_nil : holders ([] : List (Lease κ α)) k = none := rfl

/-- A grant makes its owner the holder of its key. -/
lemma holders_grant : holders (h ++ [.grant k a]) k' = if k' = k then some a else holders h k' := by
  simp [holders, Lease.apply, Function.update_apply]

/-- After a revocation nobody holds the key. -/
lemma holders_revoke : holders (h ++ [.revoke k]) k' = if k' = k then none else holders h k' := by
  simp [holders, Lease.apply, Function.update_apply]

/-- **The table answers as the history does.** A key has a holder exactly when it was granted
and has not been revoked since. -/
theorem isSome_holders_iff :
    (holders h k).isSome ↔ Since (fun e => ∃ a, e = .grant k a) (· = .revoke k) h := by
  induction h using List.reverseRecOn with
  | nil => simp
  | append_singleton h e ih =>
    rw [since_concat, ← ih]
    cases e with
    | grant k' a =>
      rw [holders_grant]
      by_cases hk : k = k'
      · simp [hk]
      · simp [hk, Ne.symm hk]
    | revoke k' =>
      rw [holders_revoke]
      by_cases hk : k = k'
      · simp [hk]
      · simp [hk, Ne.symm hk]

end History
