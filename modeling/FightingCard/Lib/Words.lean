import Mathlib.Data.List.Basic
import Mathlib.Data.Nat.Basic
import Mathlib.Logic.Function.Basic

set_option relaxedAutoImplicit false
set_option autoImplicit false

/-!
# Mixing words

The operations of which hash functions are made, on words of a fixed width: the product with an odd
constant, the exclusive or with a word, the exclusive or of a word with itself shifted to the right,
and the word that packs some bytes. None of them loses anything.

## Main definitions

* `Words.xorShift` — a word mixed with its own high bits.
* `Words.pack` — the word with given bytes, the first one lowest.

## Main results

* `Words.mul_injective`, `Words.xor_injective`, `Words.xorShift_injective` — the mixing steps are
  injective.
* `Words.getLsbD_pack` — every byte has its own bits.
* `Words.pack_injective` — the bytes are determined by the word.
-/

namespace Words

variable {w : ℕ}

/-- A word times a constant with an inverse. -/
lemma mul_injective {m inv : BitVec w} (hm : m * inv = 1#w) :
    Function.Injective fun x : BitVec w => x * m := by
  intro x y h
  have hinv := congrArg (· * inv) h
  simpa only [BitVec.mul_assoc, hm, BitVec.mul_one] using hinv

/-- A word xor another one, as a function of the one. -/
lemma xor_injective (k : BitVec w) : Function.Injective fun x : BitVec w => x ^^^ k :=
  fun _ _ h => (BitVec.xor_left_inj k).mp h

/-- A word with its high bits mixed into its low bits. -/
def xorShift (r : ℕ) (x : BitVec w) : BitVec w := x ^^^ (x >>> r)

/-- A word that is its own shift is zero. -/
lemma eq_zero_of_eq_ushiftRight {r : ℕ} {x : BitVec w} (hr : 0 < r) (h : x = x >>> r) : x = 0 := by
  have hnat := congrArg BitVec.toNat h
  rw [BitVec.toNat_ushiftRight, Nat.shiftRight_eq_div_pow] at hnat
  refine BitVec.eq_of_toNat_eq ?_
  by_contra hne
  have hpos : 0 < x.toNat := Nat.pos_of_ne_zero (by simpa using hne)
  have hlt : x.toNat / 2 ^ r < x.toNat :=
    Nat.div_lt_self hpos (Nat.one_lt_two_pow (Nat.pos_iff_ne_zero.mp hr))
  omega

/-- A shift that is mixed in with exclusive or can be undone. -/
lemma xorShift_injective {r : ℕ} (hr : 0 < r) :
    Function.Injective (xorShift r : BitVec w → BitVec w) := by
  intro x y h
  have hswap : ∀ a b c d : Bool, (a ^^ b) = (c ^^ d) → (a ^^ c) = (b ^^ d) := by decide
  -- what the two words differ in is its own shift
  have hdiff : x ^^^ y = (x ^^^ y) >>> r := by
    refine BitVec.eq_of_getLsbD_eq fun i hi => ?_
    have hbit := congrArg (·.getLsbD i) h
    simp only [xorShift, BitVec.getLsbD_xor, BitVec.getLsbD_ushiftRight] at hbit ⊢
    exact hswap _ _ _ _ hbit
  exact BitVec.xor_eq_zero_iff.mp (eq_zero_of_eq_ushiftRight hr hdiff)

/-- The word with the `n` bytes `bs 0`, `bs 1`, …, from its low bits upwards. -/
def pack (bs : ℕ → UInt8) : ℕ → BitVec w
  | 0 => 0
  | n + 1 => ((bs n).toBitVec.setWidth w <<< (8 * n)) ^^^ pack bs n

variable {bs cs : ℕ → UInt8} {n i j : ℕ}

/-- **Every byte has its own bits.** -/
lemma getLsbD_pack (hn : 8 * n ≤ w) : (pack bs n : BitVec w).getLsbD j =
    (decide (j < 8 * n) && (bs (j / 8)).toBitVec.getLsbD (j % 8)) := by
  induction n with
  | zero => simp [pack]
  | succ n ih =>
    rw [pack, BitVec.getLsbD_xor, ih (by omega), BitVec.getLsbD_shiftLeft, BitVec.getLsbD_setWidth]
    rcases lt_or_ge j (8 * n) with hlow | hlow
    · simp [hlow, show j < 8 * (n + 1) by omega]
    · rcases lt_or_ge j (8 * (n + 1)) with hhigh | hhigh
      · -- the bits of the last byte
        have hbyte : j / 8 = n := by omega
        have hbit : j % 8 = j - 8 * n := by omega
        simp [hhigh, hbyte, hbit, show ¬ j < 8 * n by omega, show j < w by omega,
          show j - 8 * n < w by omega]
      · have hzero : (bs n).toBitVec.getLsbD (j - 8 * n) = false :=
          BitVec.getLsbD_of_ge _ _ (by omega)
        simp [hzero, show ¬ j < 8 * n by omega, show ¬ j < 8 * (n + 1) by omega]

/-- The bytes are determined by the word. -/
lemma pack_injective (hn : 8 * n ≤ w) (h : (pack bs n : BitVec w) = pack cs n) (hi : i < n) :
    bs i = cs i := by
  refine UInt8.toBitVec_inj.mp (BitVec.eq_of_getLsbD_eq fun t ht => ?_)
  have hbit := congrArg (·.getLsbD (8 * i + t)) h
  have hbyte : (8 * i + t) / 8 = i := by omega
  have hmod : (8 * i + t) % 8 = t := by omega
  simpa [getLsbD_pack hn, hbyte, hmod, show 8 * i + t < 8 * n by omega] using hbit

end Words
