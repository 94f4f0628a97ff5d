import Mathlib.Algebra.Group.Int.Defs
import Mathlib.Algebra.Group.Nat.Defs
import Mathlib.Data.List.Basic

set_option relaxedAutoImplicit false
set_option autoImplicit false

/-!
# Padded decimals

Decimal numerals that are padded with zeros to a width, as text formats print them, and texts in
which such numerals are followed by a separator. A numeral is read back from such a text whatever
its width, since the separator is not a digit.

## Main definitions

* `Decimal.pad` — a number in decimal with at least a given number of digits.
* `Decimal.int` — an integer in decimal.

## Main results

* `Decimal.pad_injective` — the padded numeral determines the number.
* `Decimal.pad_append_inj` — so does a text that starts with it, up to the separator.
* `Decimal.int_injective` — the numeral of an integer determines it.
-/

namespace Decimal

/-- The decimal numeral of `n`, padded with zeros to the width `w`. -/
def pad (w n : ℕ) : List Char :=
  List.replicate (w - (Nat.toDigits 10 n).length) '0' ++ Nat.toDigits 10 n

variable {w n m : ℕ} {c : Char} {xs ys : List Char}

/-- Padded numbers consist of digits. -/
lemma isDigit_of_mem_pad (h : c ∈ pad w n) : c.isDigit = true := by
  rcases List.mem_append.mp h with h | h
  · rw [(List.mem_replicate.mp h).2]
    decide
  · exact Nat.isDigit_of_mem_toDigits (by decide) (by decide) h

/-- The zeros do not count. -/
lemma ofDigitChars_pad : Nat.ofDigitChars 10 (pad w n) 0 = n := by
  rw [pad, Nat.ofDigitChars_append, Nat.ofDigitChars_replicate_zero, Nat.mul_zero]
  exact Nat.ofDigitChars_toDigits (by decide) (by decide)

/-- Padding loses nothing. -/
lemma pad_injective (h : pad w n = pad w m) : n = m := by
  rw [← ofDigitChars_pad (w := w) (n := n), h, ofDigitChars_pad]

/-- **A numeral ends at the separator.** -/
lemma pad_append_inj (hc : c.isDigit = false) (h : pad w n ++ c :: xs = pad w m ++ c :: ys) :
    n = m ∧ xs = ys := by
  have hspan : ∀ {k : ℕ} {zs : List Char},
      (pad w k ++ c :: zs).takeWhile (·.isDigit) = pad w k := fun {k zs} => by
    rw [List.takeWhile_append_of_pos fun x hx => isDigit_of_mem_pad hx,
      List.takeWhile_cons_of_neg (by simp [hc]), List.append_nil]
  obtain rfl : n = m := pad_injective (by rw [← hspan, h, hspan])
  exact ⟨rfl, (List.cons.inj (List.append_cancel_left h)).2⟩

/-! ## Integers -/

/-- The decimal numeral of an integer. -/
def int (i : ℤ) : List Char :=
  if i < 0 then '-' :: Nat.toDigits 10 i.natAbs else Nat.toDigits 10 i.natAbs

variable {i j : ℤ}

/-- The digits tell the number. -/
lemma toDigits_injective (h : Nat.toDigits 10 n = Nat.toDigits 10 m) : n = m :=
  pad_injective (w := 0) (by simpa [pad] using h)

/-- No digit is a sign. -/
lemma cons_ne_toDigits : '-' :: xs ≠ Nat.toDigits 10 n := by
  intro h
  have hmem : '-' ∈ Nat.toDigits 10 n := h ▸ List.mem_cons_self
  have hdigit := Nat.isDigit_of_mem_toDigits (by decide) (by decide) hmem
  exact absurd hdigit (by decide)

/-- The text of an integer tells the integer. -/
lemma int_injective : Function.Injective int := by
  intro i j h
  unfold int at h
  split at h
  · split at h
    · have habs := toDigits_injective (List.cons.inj h).2
      omega
    · exact absurd h cons_ne_toDigits
  · split at h
    · exact absurd h.symm cons_ne_toDigits
    · have habs := toDigits_injective h
      omega

/-- The text of an integer is not empty. -/
lemma int_ne_nil : int i ≠ [] := by
  unfold int
  split
  · exact List.cons_ne_nil _ _
  · exact Nat.toDigits_ne_nil

/-- The length of the text of an integer: its digits and a sign. -/
lemma length_int_le {k : ℕ} (hk : 0 < k) (h : i.natAbs < 10 ^ k) : (int i).length ≤ k + 1 := by
  have hlen := (Nat.length_toDigits_le_iff (by decide) hk).mpr h
  unfold int
  split
  · rw [List.length_cons]
    omega
  · omega

/-- A numeral is plain text. -/
lemma toNat_lt_of_mem_int (h : c ∈ int i) : c.toNat < 256 := by
  have hdigit : ∀ d ∈ Nat.toDigits 10 i.natAbs, d.toNat < 256 := by
    intro d hd
    have h9 := Nat.isDigit_of_mem_toDigits (by decide) (by decide) hd
    exact Nat.lt_of_le_of_lt (Char.isDigit_iff_toNat.mp h9).2 (by decide)
  unfold int at h
  split at h
  · rcases List.mem_cons.mp h with rfl | h
    · decide
    · exact hdigit c h
  · exact hdigit c h

end Decimal
