import Mathlib.Order.Defs.LinearOrder
import Mathlib.Data.Set.Insert
import Mathlib.Data.Set.Finite.Lemmas

set_option relaxedAutoImplicit false
set_option autoImplicit false

/-!
# Points on a ring

A linear order closed to a ring: after the greatest point comes the least one. The points of a set
`S` divide the ring into arcs. Going clockwise from any place one comes to a *first* point of `S`,
the end of the arc of that place. A new point divides one arc, and a point that is taken away leaves
its arc to the next point.

## Main definitions

* `Clockwise.First` — the first point of a set clockwise from a place.
* `Clockwise.Pred`, `Clockwise.Succ` — the points of a set next to a place.
* `Clockwise.OnArc` — a place is on an arc.

## Main results

* `Clockwise.first_insert_of_not_onArc`, `Clockwise.first_insert_of_onArc` — what a new point
  changes.
* `Clockwise.first_diff_of_ne`, `Clockwise.first_diff_self` — what a point that is taken away
  changes.
-/

namespace Clockwise

variable {α : Type*} [LinearOrder α]

/-- `k` is the first point of `S` clockwise from `h`: the least one that is not below `h`, or if
there is none the least of all. -/
def First (S : Set α) (h k : α) : Prop :=
  k ∈ S ∧ (h ≤ k ∧ (∀ q ∈ S, h ≤ q → k ≤ q) ∨ (∀ q ∈ S, q < h) ∧ ∀ q ∈ S, k ≤ q)

/-- `p` is the last point of `S` before `k`: the greatest one below `k`, or if there is none the
greatest of all. -/
def Pred (S : Set α) (k p : α) : Prop :=
  p ∈ S ∧ (p < k ∧ (∀ q ∈ S, q < k → q ≤ p) ∨ (∀ q ∈ S, k ≤ q) ∧ ∀ q ∈ S, q ≤ p)

/-- `s` is the next point of `S` after `k`: the least one above `k`, or if there is none the least
of all. -/
def Succ (S : Set α) (k s : α) : Prop :=
  s ∈ S ∧ (k < s ∧ (∀ q ∈ S, k < q → s ≤ q) ∨ (∀ q ∈ S, q ≤ k) ∧ ∀ q ∈ S, s ≤ q)

/-- `h` is on the arc from `p`, exclusive, to `k`, inclusive. The arc from a point to itself is the
whole ring. -/
def OnArc (p k h : α) : Prop := if p < k then p < h ∧ h ≤ k else p < h ∨ h ≤ k

variable {S : Set α} {h k p r s : α}

/-- A finite set has a point before every place. -/
lemma exists_pred (hS : S.Finite) (hne : S.Nonempty) : ∃ p, Pred S k p := by
  by_cases hbelow : (S ∩ {q | q < k}).Nonempty
  · obtain ⟨p, ⟨hpS, hpk⟩, hmax⟩ :=
      Set.exists_max_image _ id (hS.subset Set.inter_subset_left) hbelow
    exact ⟨p, hpS, .inl ⟨hpk, fun q hq hqk => hmax q ⟨hq, hqk⟩⟩⟩
  · obtain ⟨p, hpS, hmax⟩ := Set.exists_max_image S id hS hne
    exact ⟨p, hpS, .inr ⟨fun q hq => le_of_not_gt fun hlt => hbelow ⟨q, hq, hlt⟩, hmax⟩⟩

/-- A finite set has a point after every place. -/
lemma exists_succ (hS : S.Finite) (hne : S.Nonempty) : ∃ s, Succ S k s :=
  exists_pred (α := αᵒᵈ) (S := S) hS hne

/-- A new point does not concern the places that are not on its arc. -/
lemma first_insert_of_not_onArc (hp : Pred S k p) (harc : ¬ OnArc p k h) (hr : First S h r) :
    First (insert k S) h r := by
  obtain ⟨hpS, hp⟩ := hp
  obtain ⟨hrS, hr⟩ := hr
  refine ⟨Set.mem_insert_of_mem k hrS, ?_⟩
  rcases hp with ⟨hpk, -⟩ | ⟨hleast, -⟩
  · rw [OnArc, if_pos hpk, not_and, not_le] at harc
    rcases hr with ⟨hhr, hr⟩ | ⟨hlt, hr⟩
    · refine .inl ⟨hhr, Set.forall_mem_insert.mpr ⟨fun hhk => ?_, hr⟩⟩
      -- the place is not behind `p`, which is a point before `k`
      have hhp : h ≤ p := le_of_not_gt fun hph => (harc hph).not_ge hhk
      exact (hr p hpS hhp).trans hpk.le
    · exact .inr ⟨Set.forall_mem_insert.mpr ⟨harc (hlt p hpS), hlt⟩,
        Set.forall_mem_insert.mpr ⟨(hr p hpS).trans hpk.le, hr⟩⟩
  · rw [OnArc, if_neg (hleast p hpS).not_gt, not_or, not_lt, not_le] at harc
    obtain ⟨hhp, hkh⟩ := harc
    rcases hr with ⟨hhr, hr⟩ | ⟨hlt, -⟩
    · exact .inl ⟨hhr, Set.forall_mem_insert.mpr ⟨fun hhk => absurd hhk hkh.not_ge, hr⟩⟩
    · exact absurd hhp (hlt p hpS).not_ge

/-- A new point is the first one from the places on its arc. -/
lemma first_insert_of_onArc (hp : Pred S k p) (harc : OnArc p k h) : First (insert k S) h k := by
  obtain ⟨hpS, hp⟩ := hp
  refine ⟨Set.mem_insert k S, ?_⟩
  rcases hp with ⟨hpk, hmax⟩ | ⟨hleast, hmax⟩
  · rw [OnArc, if_pos hpk] at harc
    refine .inl ⟨harc.2, Set.forall_mem_insert.mpr ⟨fun _ => le_rfl, fun q hq hhq => ?_⟩⟩
    -- there is no point between `p` and `k`
    exact le_of_not_gt fun hqk => (harc.1.trans_le hhq).not_ge (hmax q hq hqk)
  · rw [OnArc, if_neg (hleast p hpS).not_gt] at harc
    have hleast' : ∀ q ∈ insert k S, k ≤ q := Set.forall_mem_insert.mpr ⟨le_rfl, hleast⟩
    rcases harc with hph | hhk
    · exact .inr ⟨Set.forall_mem_insert.mpr ⟨(hleast p hpS).trans_lt hph,
        fun q hq => (hmax q hq).trans_lt hph⟩, hleast'⟩
    · exact .inl ⟨hhk, fun q hq _ => hleast' q hq⟩

/-- A point that is taken away does not concern the places for which it was not the first. -/
lemma first_diff_of_ne (hr : First S h r) (hne : r ≠ k) : First (S \ {k}) h r := by
  obtain ⟨hrS, hr⟩ := hr
  refine ⟨⟨hrS, hne⟩, ?_⟩
  rcases hr with ⟨hhr, hr⟩ | ⟨hlt, hr⟩
  · exact .inl ⟨hhr, fun q hq => hr q hq.1⟩
  · exact .inr ⟨fun q hq => hlt q hq.1, fun q hq => hr q hq.1⟩

/-- The places for which it was the first go to the next point. -/
lemma first_diff_self (hk : First S h k) (hs : Succ (S \ {k}) k s) : First (S \ {k}) h s := by
  obtain ⟨-, hk⟩ := hk
  obtain ⟨hsS, hs⟩ := hs
  refine ⟨hsS, ?_⟩
  rcases hk with ⟨hhk, hk⟩ | ⟨hlt, hk⟩
  · -- the points that are not below the place are above `k`
    have habove : ∀ q ∈ S \ {k}, h ≤ q → k < q := fun q hq hhq =>
      lt_of_le_of_ne (hk q hq.1 hhq) (Ne.symm hq.2)
    rcases hs with ⟨hks, hs⟩ | ⟨hbelow, hs⟩
    · exact .inl ⟨hhk.trans hks.le, fun q hq hhq => hs q hq (habove q hq hhq)⟩
    · exact .inr ⟨fun q hq => lt_of_not_ge fun hhq =>
        (habove q hq hhq).not_ge (hbelow q hq), hs⟩
  · refine .inr ⟨fun q hq => hlt q hq.1, ?_⟩
    rcases hs with ⟨-, hs⟩ | ⟨-, hs⟩
    · exact fun q hq => hs q hq (lt_of_le_of_ne (hk q hq.1) (Ne.symm hq.2))
    · exact hs

end Clockwise
