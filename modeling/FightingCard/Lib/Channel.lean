import Mathlib.Data.List.Forall2

set_option relaxedAutoImplicit false
set_option autoImplicit false

/-!
# Ordered channels

What has been received on a channel that neither loses nor swaps anything, against what has been
handed to it. An element is received in some form of itself, for instance as a buffer that starts
with its encoding; which forms there are is a relation.

## Main definitions

* `Channel.InOrder` — what was received are the first elements handed over, in their order.

## Main results

* `Channel.InOrder.snoc` — the next element is received.
* `Channel.InOrder.filterMap` — what a receiver makes of it.
-/

namespace Channel

variable {α β γ : Type*} {R : α → β → Prop} {got : List α} {sent sent' : List β}

/-- A longer list has the same elements at the same places. -/
lemma getElem?_of_prefix {xs ys : List α} {i : ℕ} {a : α} (h : xs <+: ys)
    (ha : xs[i]? = some a) : ys[i]? = some a := by
  obtain ⟨zs, rfl⟩ := h
  exact (List.getElem?_append_left (List.getElem?_eq_some_iff.mp ha).1).trans ha

/-- What was received is, one by one, related to the first elements of what was handed over. -/
def InOrder (R : α → β → Prop) (got : List α) (sent : List β) : Prop :=
  ∃ front, front <+: sent ∧ List.Forall₂ R got front

/-- Nothing has arrived yet. -/
lemma inOrder_nil : InOrder R [] sent := ⟨[], List.nil_prefix, .nil⟩

/-- Handing over more changes nothing. -/
lemma InOrder.mono (h : InOrder R got sent) (hsent : sent <+: sent') : InOrder R got sent' := by
  obtain ⟨front, hfront, hrel⟩ := h
  exact ⟨front, hfront.trans hsent, hrel⟩

/-- **The next element is received.** -/
lemma InOrder.snoc {a : α} {b : β} (h : InOrder R got sent) (hb : sent[got.length]? = some b)
    (hab : R a b) : InOrder R (got ++ [a]) sent := by
  obtain ⟨front, ⟨rest, rfl⟩, hrel⟩ := h
  rw [hrel.length_eq, List.getElem?_append_right (Nat.le_refl _), Nat.sub_self] at hb
  obtain ⟨rest', rfl⟩ : ∃ rest', rest = b :: rest' := by
    cases rest with
    | nil => cases hb
    | cons c rest' => exact ⟨rest', by rw [Option.some.inj hb]⟩
  exact ⟨front ++ [b], ⟨rest', by simp⟩, List.rel_append hrel (.cons hab .nil)⟩

/-- No more is received than was handed over. -/
lemma InOrder.length_le (h : InOrder R got sent) : got.length ≤ sent.length := by
  obtain ⟨front, hfront, hrel⟩ := h
  exact hrel.length_eq ▸ hfront.length_le

/-- The first element that is received is the first one handed over. -/
lemma InOrder.head {a : α} (h : InOrder R got sent) (ha : got.head? = some a) :
    ∃ b, sent.head? = some b ∧ R a b := by
  obtain ⟨front, ⟨rest, rfl⟩, hrel⟩ := h
  cases hrel with
  | nil => cases ha
  | @cons a' b as bs hab =>
    cases ha
    exact ⟨b, rfl, hab⟩

/-- **What a receiver makes of it** is what it would make of the first elements handed over, in
their order. -/
lemma InOrder.filterMap {f : α → Option γ} {g : β → Option γ} (h : InOrder R got sent)
    (hfg : ∀ a, ∀ b ∈ sent, R a b → f a = g b) : got.filterMap f <+: sent.filterMap g := by
  obtain ⟨front, hfront, hrel⟩ := h
  have heq : got.filterMap f = front.filterMap g := by
    have hmem : ∀ b ∈ front, b ∈ sent := fun b hb => hfront.subset hb
    clear hfront
    induction hrel with
    | nil => rfl
    | @cons a b as bs hab _ ih =>
      have hhead := hfg a b (hmem b List.mem_cons_self) hab
      rw [List.filterMap_cons, List.filterMap_cons, hhead,
        ih fun c hc => hmem c (List.mem_cons_of_mem _ hc)]
  rw [heq]
  exact hfront.filterMap g

end Channel
