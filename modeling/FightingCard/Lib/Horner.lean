import Mathlib.Algebra.BigOperators.Fin
import Mathlib.Data.List.GetD
import Mathlib.Data.List.Induction
import Mathlib.Data.Nat.Digits.Lemmas
import Mathlib.Data.Nat.ModEq

set_option relaxedAutoImplicit false
set_option autoImplicit false

/-!
# Horner's rule in machine words

The value of a list of digits in a base `b`, computed by Horner's rule: exactly, and with a
reduction modulo `m` after every digit. In exact arithmetic the second gives the first modulo `m`.
In words with `w` values it need not. A step that does not fit into a word takes a multiple of `w`
away, and after a right result this is seen in the next one unless it is a multiple of `m`.

## Main definitions

* `Horner.value` — Horner's rule.
* `Horner.reduced` — Horner's rule in words, with a reduction after every digit.
* `Horner.carry` — what the word takes away in a step.

## Main results

* `Horner.value_eq_sum` — Horner's rule computes the polynomial.
* `Horner.forall_prefix_iff` — when a result is right together with those of all prefixes.
* `Horner.reduced_eq`, `Horner.exists_reduced_ne` — the moduli for which every result is right.
-/

namespace Horner

variable (b w m : ℕ)

/-- Horner's rule. -/
def value (ds : List ℕ) : ℕ := ds.foldl (fun r d => b * r + d) 0

/-- Horner's rule in words with `w` values, where every step ends with a reduction modulo `m`. -/
def reduced (ds : List ℕ) : ℕ := ds.foldl (fun r d => (b * r + d) % w % m) 0

/-- What the word takes away in the step from `r` with the digit `d`. -/
def carry (r d : ℕ) : ℕ := w * ((b * r + d) / w)

variable {b w m} {ds : List ℕ} {d n k : ℕ}

/-! ## One digit more -/

/-- Horner's rule multiplies what it has and adds the digit. -/
lemma value_concat : value b (ds ++ [d]) = b * value b ds + d := by
  simp [value, List.foldl_append]

/-- The reduction comes after the word. -/
lemma reduced_concat : reduced b w m (ds ++ [d]) = (b * reduced b w m ds + d) % w % m := by
  simp [reduced, List.foldl_append]

/-- **The polynomial.** The first digit has the highest power. -/
theorem value_eq_sum :
    value b ds = ∑ i ∈ Finset.range ds.length, ds.getD i 0 * b ^ (ds.length - 1 - i) := by
  induction ds using List.reverseRecOn with
  | nil => rfl
  | append_singleton ds d ih =>
    rw [value_concat, ih, List.length_append, List.length_singleton, Finset.sum_range_succ,
      Finset.mul_sum]
    congr 1
    · refine Finset.sum_congr rfl fun i hi => ?_
      rw [Finset.mem_range] at hi
      have hpow : ds.length + 1 - 1 - i = ds.length - 1 - i + 1 := by omega
      rw [List.getD_append _ _ _ _ hi, hpow, pow_succ]
      ring
    · simp

/-! ## Right results -/

/-- After a right result, the next one is right if the step takes a multiple of `m` away. -/
lemma reduced_concat_eq_iff (h : reduced b w m ds = value b ds % m) :
    reduced b w m (ds ++ [d]) = value b (ds ++ [d]) % m ↔
      m ∣ carry b w (value b ds % m) d := by
  -- the word keeps the step but for the carry
  have hcarry : b * (value b ds % m) + d - (b * (value b ds % m) + d) % w =
      carry b w (value b ds % m) d := by
    rw [carry]
    have hdiv := Nat.div_add_mod (b * (value b ds % m) + d) w
    omega
  have hvalue : value b (ds ++ [d]) % m = (b * (value b ds % m) + d) % m := by
    rw [value_concat, Nat.add_mod, Nat.mul_mod, ← Nat.mod_mod (value b ds) m, ← Nat.mul_mod,
      ← Nat.add_mod, Nat.mod_mod]
  rw [reduced_concat, h, hvalue, ← hcarry]
  exact Nat.modEq_iff_dvd' (Nat.mod_le _ w)

/-- **When all prefixes have right results**: every step takes a multiple of `m` away. -/
theorem forall_prefix_iff : (∀ t, t <+: ds → reduced b w m t = value b t % m) ↔
    ∀ t d, t ++ [d] <+: ds → m ∣ carry b w (value b t % m) d := by
  constructor
  · intro h t d hd
    have ht : t <+: ds := (List.prefix_append t [d]).trans hd
    exact (reduced_concat_eq_iff (h t ht)).mp (h _ hd)
  · intro h t ht
    induction t using List.reverseRecOn with
    | nil => simp [reduced, value]
    | append_singleton t d ih =>
      exact (reduced_concat_eq_iff (ih ((List.prefix_append t [d]).trans ht))).mpr (h t d ht)

/-! ## Moduli for which every result is right -/

/-- Every number is the value of some digits. -/
lemma exists_digits (hb : 1 < b) (hn : n < b ^ k) :
    ∃ ds : List ℕ, ds.length ≤ k ∧ (∀ d ∈ ds, d < b) ∧ value b ds = n := by
  refine ⟨(Nat.digits b n).reverse, ?_, fun d hd => ?_, ?_⟩
  · rw [List.length_reverse]
    exact (Nat.digits_length_le_iff hb n).mpr hn
  · exact Nat.digits_lt_base hb (List.mem_reverse.mp hd)
  · have hdigits := Nat.ofDigits_digits b n
    rw [Nat.ofDigits_eq_foldr] at hdigits
    rw [value, List.foldl_reverse]
    conv_rhs => rw [← hdigits]
    simp [Nat.add_comm]

variable {D : ℕ}

/-- The results are right if no step leaves the word, or if `w` is a multiple of `m`. -/
theorem reduced_eq (hm : 0 < m) (hsafe : b * (m - 1) + D < w ∨ m ∣ w) (hds : ∀ d ∈ ds, d ≤ D) :
    reduced b w m ds = value b ds % m := by
  refine forall_prefix_iff.mpr (fun t d ht => ?_) ds List.prefix_rfl
  rcases hsafe with hfits | hdvd
  · have hd : d ≤ D := hds d (ht.subset (by simp))
    have hr : value b t % m ≤ m - 1 := Nat.le_sub_one_of_lt (Nat.mod_lt _ hm)
    have hlt : b * (value b t % m) + d < w :=
      lt_of_le_of_lt (Nat.add_le_add (Nat.mul_le_mul_left b hr) hd) hfits
    rw [carry, Nat.div_eq_of_lt hlt, Nat.mul_zero]
    exact Nat.dvd_zero m
  · exact hdvd.mul_right _

/-- The first `r` for which `b * r + D` is not a word. -/
lemma exists_overflow (hb : 0 < b) (hDw : D ≤ w) : ∃ r, w ≤ b * r + D ∧ b * r < w - D + b := by
  refine ⟨(w - D + (b - 1)) / b, ?_, ?_⟩
  · have hsucc := Nat.lt_mul_div_succ (w - D + (b - 1)) hb
    rw [Nat.mul_add, Nat.mul_one] at hsucc
    omega
  · have hle := Nat.mul_div_le (w - D + (b - 1)) b
    omega

/-- Otherwise some result is wrong: of the least number that leaves the word in the next step. -/
theorem exists_reduced_ne (hm : 0 < m) (hb : 1 < b) (hbw : b ≤ w) (hbD : b ≤ D + 1) (hDw : D < w)
    (hk : w ≤ b ^ k) (hleaves : w ≤ b * (m - 1) + D) (hdvd : ¬ m ∣ w) :
    ∃ ds : List ℕ, ds.length ≤ k + 1 ∧ (∀ d ∈ ds, d ≤ D) ∧
      reduced b w m ds ≠ value b ds % m := by
  obtain ⟨r, hr, hfirst⟩ : ∃ r, w ≤ b * r + D ∧ b * r < w - D + b :=
    exists_overflow (by omega) hDw.le
  have hrm : r < m := by
    by_contra hge
    have hmul : b * (m - 1) + b ≤ b * r := by
      rw [← Nat.mul_succ]
      exact Nat.mul_le_mul_left b (by omega)
    omega
  have hrw : r < w := by
    have hmul : 2 * r ≤ b * r := Nat.mul_le_mul_right r hb
    omega
  obtain ⟨ds, hlen, hdigits, hvalue⟩ := exists_digits hb (lt_of_lt_of_le hrw hk)
  by_contra hall
  have hright : ∀ t : List ℕ, t.length ≤ k + 1 → (∀ d ∈ t, d ≤ D) →
      reduced b w m t = value b t % m := fun t ht hd =>
    not_not.mp fun hne => hall ⟨t, ht, hd, hne⟩
  have hds : ∀ d ∈ ds, d ≤ D := fun d hd => by
    have := hdigits d hd
    omega
  have hcarry := (reduced_concat_eq_iff (d := D) (hright ds (by omega) hds)).mp
    (hright (ds ++ [D]) (by simpa using hlen) (by simpa [or_imp, forall_and] using hds))
  rw [hvalue, Nat.mod_eq_of_lt hrm, carry,
    Nat.div_eq_of_lt_le (k := 1) (by omega) (by omega), Nat.mul_one] at hcarry
  exact hdvd hcarry

end Horner
