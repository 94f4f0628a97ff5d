import FightingCard.Lib.Bytes
import FightingCard.Lib.Horner
import FightingCard.Lib.Words

set_option relaxedAutoImplicit false
set_option autoImplicit false

/-!
# Hashing

The hash functions of `common/utility.h` and `common/utility.cpp`. `MurmurHash64` runs over the key
in blocks of eight bytes, read as little-endian words, and ends with the bytes that are left and
with a last mixing. A key is the list of its bytes, and its length fits into an `int`.

`HashCode` is documented to be a polynomial in the characters of a string, modulo `mod`. It computes
Horner's rule in words of 32 bits and reduces at every step, which is too late if the step does not
fit into the word.

## Main definitions

* `FightingCard.murmurHash64` — the hash of a key, with a seed.
* `FightingCard.hash` — the hash of a number.
* `FightingCard.hashCode`, `FightingCard.polynomial` — the hash code of a string, and its documented
  value.

## Main results

* `FightingCard.murmurHash64_ne` — keys that differ in one block have different hashes.
* `FightingCard.hash_injective` — and so have numbers.
* `FightingCard.hashCode_eq_iff` — when a hash code has its documented value.
-/

namespace FightingCard

namespace Murmur

/-- The constant `m`. -/
def m : BitVec 64 := 0xc6a4a7935bd1e995

/-- The constant `r`. -/
def r : ℕ := 47

/-- The mixing of a block `k`. -/
def mix (k : BitVec 64) : BitVec 64 :=
  let k := k * m
  let k := k ^^^ (k >>> r)
  k * m

/-- The body of the `while` loop: the block `k` goes into `h`. -/
def body (h k : BitVec 64) : BitVec 64 :=
  let h := h ^^^ mix k
  h * m

/-- `*data`: the block at the front of `data`. -/
def block (data : List UInt8) : BitVec 64 := BitVec.ofNat 64 (ByteMem.leNat (data.take 8))

/-- The `while` loop over the next `n` blocks, with the bytes that are left. -/
def loop (h : BitVec 64) (data : List UInt8) : ℕ → BitVec 64 × List UInt8
  | 0 => (h, data)
  | n + 1 => loop (body h (block data)) (data.drop 8) n

/-- The `switch`, entered at the label `n`; there is no `break` in it. -/
def switch (h : BitVec 64) (data2 : ℕ → UInt8) : ℕ → BitVec 64
  | 0 => h
  | 1 => (h ^^^ (data2 0).toBitVec.setWidth 64) * m
  | n + 2 => switch (h ^^^ ((data2 (n + 1)).toBitVec.setWidth 64 <<< (8 * (n + 1)))) data2 (n + 1)

/-- The last mixing. -/
def finish (h : BitVec 64) : BitVec 64 :=
  let h := h ^^^ (h >>> r)
  let h := h * m
  h ^^^ (h >>> r)

end Murmur

/-- `MurmurHash64(key, len, seed)`, for a key of `len` bytes. -/
def murmurHash64 (key : List UInt8) (seed : BitVec 32) : BitVec 64 :=
  let len := key.length
  let h := seed.setWidth 64 ^^^ (BitVec.ofNat 64 len * Murmur.m)
  let (h, data2) := Murmur.loop h key (len / 8)
  Murmur.finish (Murmur.switch h (fun i => data2.getD i 0) (len % 8))

/-- `Hash(n)`. -/
def hash (n : BitVec 64) : BitVec 64 := murmurHash64 (ByteMem.leBytes 8 n.toNat) 0xEE6B27EB

namespace Murmur

open Function (Injective)

variable {h h' : BitVec 64} {x y : List UInt8} {n i : ℕ}

/-! ## Every step is a bijection -/

/-- The factor is odd. -/
lemma mul_m_injective : Injective fun x : BitVec 64 => x * m :=
  Words.mul_injective (show m * 0x5f7a0ea7e59b19bd = 1#64 by decide)

/-- Mixing a block can be undone. -/
lemma mix_injective : Injective mix :=
  mul_m_injective.comp ((Words.xorShift_injective (r := r) (by decide)).comp mul_m_injective)

/-- A block can be taken out of the hash again. -/
lemma body_injective_left (k : BitVec 64) : Injective fun h => body h k :=
  mul_m_injective.comp (Words.xor_injective (mix k))

/-- Different blocks make different hashes. -/
lemma body_injective_right (h : BitVec 64) : Injective (body h) := by
  have hxor : Injective fun k : BitVec 64 => h ^^^ k := fun k k' heq =>
    (BitVec.xor_right_inj h).mp heq
  exact mul_m_injective.comp (hxor.comp mix_injective)

/-- The last mixing can be undone. -/
lemma finish_injective : Injective finish := by
  have hshift := Words.xorShift_injective (w := 64) (r := r) (by decide)
  exact hshift.comp (mul_m_injective.comp hshift)

/-- The `switch` adds the word packed of the bytes that are left. -/
lemma switch_eq {data2 : ℕ → UInt8} (hn : n ≠ 0) :
    switch h data2 n = (h ^^^ Words.pack data2 n) * m := by
  obtain ⟨n, rfl⟩ := Nat.exists_eq_succ_of_ne_zero hn
  clear hn
  induction n generalizing h with
  | zero => simp [switch, Words.pack]
  | succ n ih =>
    rw [switch, ih, BitVec.xor_assoc]
    rfl

/-- The bytes that are left can be taken out of the hash again. -/
lemma switch_injective (data2 : ℕ → UInt8) (n : ℕ) : Injective fun h => switch h data2 n := by
  cases n with
  | zero => exact Function.injective_id
  | succ n =>
    intro h h' heq
    simp only [switch_eq (Nat.succ_ne_zero n)] at heq
    exact Words.xor_injective _ (mul_m_injective heq)

/-! ## The loop -/

/-- The loop leaves the bytes behind its blocks. -/
lemma loop_snd : (loop h x n).2 = x.drop (8 * n) := by
  induction n generalizing h x with
  | zero => rfl
  | succ n ih =>
    rw [loop, ih, List.drop_drop]
    congr 1
    omega

/-- A difference in `h` is not lost in the loop. -/
lemma loop_injective (x : List UInt8) (n : ℕ) : Injective fun h => (loop h x n).1 := by
  induction n generalizing x with
  | zero => exact Function.injective_id
  | succ n ih => exact (ih (x.drop 8)).comp (body_injective_left (block x))

/-- A block is its eight bytes. -/
lemma block_inj (hx : 8 ≤ x.length) (hy : 8 ≤ y.length) (h : block x = block y) :
    x.take 8 = y.take 8 := by
  have hlen : ∀ {z : List UInt8}, 8 ≤ z.length → (z.take 8).length = 8 := fun hz => by
    rw [List.length_take, Nat.min_eq_left hz]
  have hlt : ∀ {z : List UInt8}, 8 ≤ z.length → ByteMem.leNat (z.take 8) < 2 ^ 64 := by
    intro z hz
    have := ByteMem.leNat_lt (z.take 8)
    rw [hlen hz] at this
    omega
  have hnat := congrArg BitVec.toNat h
  simp only [block, BitVec.toNat_ofNat, Nat.mod_eq_of_lt (hlt hx),
    Nat.mod_eq_of_lt (hlt hy)] at hnat
  rw [← ByteMem.leBytes_leNat (x.take 8), ← ByteMem.leBytes_leNat (y.take 8), hnat, hlen hx,
    hlen hy]

/-- The bytes of `x` and `y` are the same outside of the block `i`. -/
def AgreeOutside (i : ℕ) (x y : List UInt8) : Prop := ∀ j, j / 8 ≠ i → x[j]? = y[j]?

/-- Behind the first block there is no difference if it is there. -/
lemma AgreeOutside.drop_eq (hagree : AgreeOutside 0 x y) : x.drop 8 = y.drop 8 :=
  List.ext_getElem? fun j => by
    rw [List.getElem?_drop, List.getElem?_drop]
    exact hagree _ (by omega)

/-- There is no difference in the first block if it is in another one. -/
lemma AgreeOutside.take_eq (hagree : AgreeOutside (i + 1) x y) : x.take 8 = y.take 8 :=
  List.ext_getElem? fun j => by
    rcases lt_or_ge j 8 with hj | hj
    · rw [List.getElem?_take_of_lt hj, List.getElem?_take_of_lt hj]
      exact hagree _ (by omega)
    · rw [List.getElem?_take_eq_none hj, List.getElem?_take_eq_none hj]

/-- The blocks are counted from behind the first one. -/
lemma AgreeOutside.drop (hagree : AgreeOutside (i + 1) x y) :
    AgreeOutside i (x.drop 8) (y.drop 8) := by
  intro j hj
  rw [List.getElem?_drop, List.getElem?_drop]
  exact hagree _ (by omega)

/-- Keys that differ in the block `i` leave the loop with different values of `h` if the loop comes
to this block, and with different bytes that are left otherwise. -/
lemma loop_of_agreeOutside (hn : 8 * n ≤ x.length) (hlen : x.length = y.length)
    (hagree : AgreeOutside i x y) (hne : x ≠ y) :
    (i < n → (loop h x n).1 ≠ (loop h y n).1 ∧ x.drop (8 * n) = y.drop (8 * n)) ∧
      (n ≤ i → (loop h x n).1 = (loop h y n).1 ∧ x.drop (8 * n) ≠ y.drop (8 * n)) := by
  induction n generalizing h x y i with
  | zero => exact ⟨fun hi => absurd hi (Nat.not_lt_zero i), fun _ => ⟨rfl, hne⟩⟩
  | succ n ih =>
    have hdrop : ∀ z : List UInt8, z.drop (8 * (n + 1)) = (z.drop 8).drop (8 * n) := fun z => by
      rw [List.drop_drop]
      congr 1
      omega
    cases i with
    | zero =>
      have hrest : x.drop 8 = y.drop 8 := hagree.drop_eq
      have hblock : block x ≠ block y := fun heq => hne <| by
        rw [← List.take_append_drop 8 x, block_inj (by omega) (by omega) heq, hrest,
          List.take_append_drop]
      refine ⟨fun _ => ⟨fun heq => ?_, by rw [hdrop, hdrop, hrest]⟩, fun hi => absurd hi (by omega)⟩
      rw [loop, loop, hrest] at heq
      exact hblock (body_injective_right h (loop_injective _ n heq))
    | succ i =>
      have hfront : x.take 8 = y.take 8 := hagree.take_eq
      have hne' : x.drop 8 ≠ y.drop 8 := fun heq => hne <| by
        rw [← List.take_append_drop 8 x, hfront, heq, List.take_append_drop]
      have hblock : block x = block y := by rw [block, block, hfront]
      obtain ⟨hlt, hge⟩ := ih (h := body h (block x)) (by rw [List.length_drop]; omega)
        (by rw [List.length_drop, List.length_drop, hlen]) hagree.drop hne'
      rw [loop, loop, ← hblock, hdrop, hdrop]
      exact ⟨fun hi => hlt (by omega), fun hi => hge (by omega)⟩

/-- The bytes that are left go into the hash, each at its own place. -/
lemma switch_ne (hx : x.length = n) (hy : y.length = n) (hn : n < 8) (hne : x ≠ y) :
    switch h (fun j => x.getD j 0) n ≠ switch h (fun j => y.getD j 0) n := by
  intro heq
  rcases Nat.eq_zero_or_pos n with rfl | hpos
  · exact hne (by rw [List.length_eq_zero_iff.mp hx, List.length_eq_zero_iff.mp hy])
  · rw [switch_eq hpos.ne', switch_eq hpos.ne'] at heq
    have hpack := (BitVec.xor_right_inj h).mp (mul_m_injective heq)
    refine hne (List.ext_getElem (hx.trans hy.symm) fun j hjx hjy => ?_)
    have hj := Words.pack_injective (i := j) (by omega) hpack (hx ▸ hjx)
    rwa [List.getD_eq_getElem _ _ hjx, List.getD_eq_getElem _ _ hjy] at hj

/-- Keys of one length that differ in one block have different hashes. -/
lemma murmurHash64_ne_of_agreeOutside {seed : BitVec 32} (hlen : x.length = y.length)
    (hagree : AgreeOutside i x y) (hne : x ≠ y) : murmurHash64 x seed ≠ murmurHash64 y seed := by
  intro heq
  obtain ⟨hlt, hge⟩ := loop_of_agreeOutside (n := x.length / 8)
    (h := seed.setWidth 64 ^^^ (BitVec.ofNat 64 x.length * m)) (by omega) hlen hagree hne
  simp only [murmurHash64, ← hlen, loop_snd] at heq
  have hswitch := finish_injective heq
  rcases lt_or_ge i (x.length / 8) with hi | hi
  · -- the difference is in a block, and stays in `h`
    obtain ⟨hstate, hrest⟩ := hlt hi
    rw [hrest] at hswitch
    exact hstate (switch_injective _ _ hswitch)
  · -- the difference is in the bytes that are left
    obtain ⟨hstate, hrest⟩ := hge hi
    rw [hstate] at hswitch
    refine switch_ne ?_ ?_ (Nat.mod_lt _ (by decide)) hrest hswitch
    · rw [List.length_drop]
      omega
    · rw [List.length_drop, ← hlen]
      omega

end Murmur

/-- The bytes of a number are one block, so that different numbers have different hashes. -/
lemma hash_injective : Function.Injective hash := by
  intro n n' heq
  by_contra hne
  have hagree : Murmur.AgreeOutside 0 (ByteMem.leBytes 8 n.toNat) (ByteMem.leBytes 8 n'.toNat) := by
    intro j hj
    rw [List.getElem?_eq_none (by simp; omega), List.getElem?_eq_none (by simp; omega)]
  have hbytes : ByteMem.leBytes 8 n.toNat ≠ ByteMem.leBytes 8 n'.toNat := fun hbytes => by
    have hnat := congrArg ByteMem.leNat hbytes
    rw [ByteMem.leNat_leBytes_of_lt n.isLt, ByteMem.leNat_leBytes_of_lt n'.isLt] at hnat
    exact hne (BitVec.eq_of_toNat_eq hnat)
  exact Murmur.murmurHash64_ne_of_agreeOutside (by simp) hagree hbytes heq

/-- **`MurmurHash64` is injective in each block.** Keys of one length that differ in one of their
blocks of eight bytes, or in the bytes that are left, have different hashes; and different numbers
have different hashes. -/
theorem murmurHash64_ne :
    (∀ (seed : BitVec 32) (x y : List UInt8) (i : ℕ), x.length = y.length → x.length < 2 ^ 31 →
      (∀ j, j / 8 ≠ i → x[j]? = y[j]?) → x ≠ y → murmurHash64 x seed ≠ murmurHash64 y seed) ∧
    Function.Injective hash := by
  refine ⟨fun seed x y i hlen _ hagree hne => ?_, hash_injective⟩
  exact Murmur.murmurHash64_ne_of_agreeOutside hlen hagree hne

/-! ## Hash codes -/

/-- `input[i]` in an expression of type `uint32_t`: a `char` has a sign. -/
def charCode (c : UInt8) : BitVec 32 := c.toBitVec.signExtend 32

/-- The constant `radis`. -/
def radis : BitVec 32 := 31

/-- The loop body of `HashCode`. -/
def hashCodeStep (mod result : BitVec 32) (c : UInt8) : BitVec 32 :=
  (radis * result + charCode c) % mod

/-- The loop of `HashCode` over the characters from the place `i` on. The counter is an `int`, and
there is no result if it overflows. -/
def hashCodeFrom (mod result : BitVec 32) (i : ℕ) : List UInt8 → Option (BitVec 32)
  | [] => some result
  | c :: cs =>
    if i + 1 < 2 ^ 31 then hashCodeFrom mod (hashCodeStep mod result c) (i + 1) cs else none

/-- `HashCode(input, mod)`, for a `mod` that is not 0. -/
def hashCode (input : List UInt8) (mod : BitVec 32) : Option (BitVec 32) :=
  hashCodeFrom mod 0 0 input

/-- The documented value: `s[0]*31^(n-1) + s[1]*31^(n-2) + ... + s[n-1]`. -/
def polynomial (s : List UInt8) : ℕ :=
  ∑ i ∈ Finset.range s.length, (s.getD i 0).toNat * 31 ^ (s.length - 1 - i)

/-- A string of ASCII characters. -/
def Ascii (s : List UInt8) : Prop := ∀ c ∈ s, c.toNat < 128

instance {s : List UInt8} : Decidable (Ascii s) :=
  List.decidableBAll (fun c : UInt8 => c.toNat < 128) s

/-- `HashCode` computes the documented value. -/
def HashesTo (s : List UInt8) (mod : BitVec 32) : Prop :=
  (hashCode s mod).map BitVec.toNat = some (polynomial s % mod.toNat)

instance {s : List UInt8} {mod : BitVec 32} : Decidable (HashesTo s mod) :=
  inferInstanceAs (Decidable (_ = _))

/-- The digits of a string. -/
def charDigits (s : List UInt8) : List ℕ := s.map UInt8.toNat

variable {s : List UInt8} {mod : BitVec 32}

/-- The documented value is what Horner's rule computes in exact arithmetic. -/
lemma polynomial_eq_value : polynomial s = Horner.value 31 (charDigits s) := by
  rw [Horner.value_eq_sum, polynomial, charDigits, List.length_map]
  refine Finset.sum_congr rfl fun i hi => ?_
  rw [Finset.mem_range] at hi
  rw [List.getD_eq_getElem _ _ hi, List.getD_eq_getElem _ _ (by rwa [List.length_map]),
    List.getElem_map]

/-- An ASCII character has no sign. -/
lemma toNat_charCode {c : UInt8} (hc : c.toNat < 128) : (charCode c).toNat = c.toNat := by
  have hmsb : c.toBitVec.msb = false := by
    rw [BitVec.msb_eq_false_iff_two_mul_lt]
    change 2 * c.toNat < 2 ^ 8
    omega
  rw [charCode, BitVec.signExtend_eq_setWidth_of_msb_false hmsb, BitVec.toNat_setWidth]
  change c.toNat % 2 ^ 32 = c.toNat
  omega

/-- The loop computes Horner's rule in words of 32 bits. -/
lemma toNat_hashCodeStep {result : BitVec 32} {c : UInt8} (hc : c.toNat < 128) :
    (hashCodeStep mod result c).toNat = (31 * result.toNat + c.toNat) % 2 ^ 32 % mod.toNat := by
  rw [hashCodeStep, BitVec.toNat_umod, BitVec.toNat_add, BitVec.toNat_mul, toNat_charCode hc,
    Nat.mod_add_mod]
  rfl

/-- All steps together are Horner's rule in words of 32 bits. -/
lemma toNat_foldl_hashCodeStep (hs : Ascii s) (result : BitVec 32) :
    (s.foldl (hashCodeStep mod) result).toNat =
      (charDigits s).foldl (fun r d => (31 * r + d) % 2 ^ 32 % mod.toNat) result.toNat := by
  induction s generalizing result with
  | nil => rfl
  | cons c s ih =>
    have hc : c.toNat < 128 := hs c List.mem_cons_self
    rw [List.foldl_cons, ih (fun d hd => hs d (List.mem_cons_of_mem c hd)),
      toNat_hashCodeStep hc]
    rfl

/-- The loop ends as long as the counter can count. -/
lemma hashCodeFrom_eq {result : BitVec 32} {i : ℕ} (hi : i < 2 ^ 31) :
    hashCodeFrom mod result i s =
      if i + s.length < 2 ^ 31 then some (s.foldl (hashCodeStep mod) result) else none := by
  induction s generalizing result i with
  | nil => rw [hashCodeFrom, List.length_nil, Nat.add_zero, if_pos hi, List.foldl_nil]
  | cons c s ih =>
    rw [hashCodeFrom, List.length_cons, List.foldl_cons]
    by_cases hnext : i + 1 < 2 ^ 31
    · rw [if_pos hnext, ih hnext, Nat.add_right_comm, Nat.add_assoc]
    · rw [if_neg hnext, if_neg (by omega)]

/-- A string is hashed right if its length is an `int` and Horner's rule in words is right. -/
lemma hashesTo_iff_reduced (hs : Ascii s) : HashesTo s mod ↔ s.length < 2 ^ 31 ∧
    Horner.reduced 31 (2 ^ 32) mod.toNat (charDigits s) =
      Horner.value 31 (charDigits s) % mod.toNat := by
  rw [HashesTo, hashCode, hashCodeFrom_eq (by decide), Nat.zero_add, polynomial_eq_value]
  by_cases hlen : s.length < 2 ^ 31
  · rw [if_pos hlen, Option.map_some, Option.some.injEq, toNat_foldl_hashCodeStep hs]
    exact (and_iff_right hlen).symm
  · rw [if_neg hlen]
    constructor
    · intro h
      cases h
    · exact fun h => absurd h.1 hlen

/-- A string is hashed right with all its prefixes if and only if every step takes a multiple of
`mod` away. -/
lemma forall_prefix_hashesTo_iff (hs : Ascii s) : (∀ t, t <+: s → HashesTo t mod) ↔
    s.length < 2 ^ 31 ∧ ∀ t c, t ++ [c] <+: s →
      mod.toNat ∣ Horner.carry 31 (2 ^ 32) (polynomial t % mod.toNat) c.toNat := by
  have hstart : ∀ t, t <+: s → Ascii t := fun t ht c hc => hs c (ht.subset hc)
  have hreduced : (∀ t, t <+: s → HashesTo t mod) ↔ s.length < 2 ^ 31 ∧
      ∀ ds, ds <+: charDigits s →
        Horner.reduced 31 (2 ^ 32) mod.toNat ds = Horner.value 31 ds % mod.toNat := by
    constructor
    · intro h
      refine ⟨((hashesTo_iff_reduced hs).mp (h s List.prefix_rfl)).1, fun ds hds => ?_⟩
      obtain ⟨t, ht, rfl⟩ := List.prefix_map_iff.mp hds
      exact ((hashesTo_iff_reduced (hstart t ht)).mp (h t ht)).2
    · rintro ⟨hlen, h⟩ t ht
      exact (hashesTo_iff_reduced (hstart t ht)).mpr
        ⟨lt_of_le_of_lt ht.length_le hlen, h _ (ht.map _)⟩
  rw [hreduced, Horner.forall_prefix_iff]
  refine and_congr_right fun _ => ⟨fun h t c ht => ?_, fun h ds d hds => ?_⟩
  · rw [polynomial_eq_value]
    exact h (charDigits t) c.toNat (by simpa [charDigits] using ht.map UInt8.toNat)
  · obtain ⟨u, hu, heq⟩ := List.prefix_map_iff.mp hds
    obtain ⟨t, cs, rfl, rfl, hcs⟩ := List.map_eq_append_iff.mp heq.symm
    obtain ⟨c, rfl, rfl⟩ := List.map_eq_singleton_iff.mp hcs
    have hcarry := h t c hu
    rwa [polynomial_eq_value] at hcarry

/-- The values of `mod` for which every string is hashed right: no step leaves the word, or the
words do no harm.

**Proof sketch.** If `mod` is neither, there are seven digits at most, each of an ASCII character,
with a wrong result (`Horner.exists_reduced_ne`). If it is one of the two, every result is right
(`Horner.reduced_eq`). -/
lemma forall_hashesTo_iff (hmod : 0 < mod.toNat) :
    (∀ s, Ascii s → s.length < 2 ^ 31 → HashesTo s mod) ↔
      mod.toNat ≤ 138547329 ∨ mod.toNat ∣ 2 ^ 32 := by
  have hfits : mod.toNat ≤ 138547329 ↔ 31 * (mod.toNat - 1) + 127 < 2 ^ 32 := by omega
  rw [hfits]
  constructor
  · intro h
    by_contra hsafe
    rw [not_or, not_lt] at hsafe
    obtain ⟨ds, hlen, hds, hne⟩ := Horner.exists_reduced_ne (k := 7) hmod (by decide) (by decide)
      (by decide) (by decide) (by decide) hsafe.1 hsafe.2
    -- the digits are those of a string
    obtain ⟨s, rfl⟩ : ∃ s, charDigits s = ds := by
      refine ⟨ds.map UInt8.ofNat, ?_⟩
      rw [charDigits, List.map_map]
      conv_rhs => rw [← List.map_id ds]
      refine List.map_congr_left fun d hd => ?_
      have hd127 := hds d hd
      show d % 2 ^ 8 = d
      omega
    have hs : Ascii s := fun c hc => by
      have := hds c.toNat (List.mem_map_of_mem hc)
      omega
    rw [charDigits, List.length_map] at hlen
    exact hne ((hashesTo_iff_reduced hs).mp (h s hs (by omega))).2
  · intro hsafe s hs hlen
    refine (hashesTo_iff_reduced hs).mpr ⟨hlen, Horner.reduced_eq hmod hsafe fun d hd => ?_⟩
    obtain ⟨c, hc, rfl⟩ := List.mem_map.mp hd
    have := hs c hc
    omega

/-- **When `HashCode` computes the documented value.** An ASCII string is hashed right together with
all its prefixes if and only if its length is an `int` and the word takes a multiple of `mod` away
in every step from the documented value of a prefix. All strings of such a length are hashed right
if and only if `mod` is so small that no step leaves the word, or a power of two.

**Proof sketch.** The loop is Horner's rule in words of 32 bits (`hashesTo_iff_reduced`), and the
rest is a fact about this rule (`Horner.forall_prefix_iff`). For the last part, the digits of the
number 138547329 and the character 127 leave the word for the first time, by `2 ^ 32`
(`Horner.exists_reduced_ne`). -/
theorem hashCode_eq_iff (mod : BitVec 32) (hmod : 0 < mod.toNat) :
    (∀ s, Ascii s → ((∀ t, t <+: s → HashesTo t mod) ↔ s.length < 2 ^ 31 ∧
      ∀ t c, t ++ [c] <+: s →
        mod.toNat ∣ Horner.carry 31 (2 ^ 32) (polynomial t % mod.toNat) c.toNat)) ∧
    ((∀ s, Ascii s → s.length < 2 ^ 31 → HashesTo s mod) ↔
      mod.toNat ≤ 138547329 ∨ mod.toNat ∣ 2 ^ 32) :=
  ⟨fun _ => forall_prefix_hashesTo_iff, forall_hashesTo_iff hmod⟩

/-- The string `card` for a small prime, and with its prefixes for a large one. -/
theorem hashCode_eq_card : HashesTo [99, 97, 114, 100] 1000003 ∧
    ∀ t, t <+: [99, 97, 114, 100] → HashesTo t 1000000007 := by
  refine ⟨(hashCode_eq_iff 1000003 (by decide)).2.mpr (.inl (by decide)) _ (by decide) (by decide),
    ((hashCode_eq_iff 1000000007 (by decide)).1 _ (by decide)).mpr ⟨by decide, fun t c ht => ?_⟩⟩
  -- four characters do not leave the word
  rcases t with _ | ⟨c₁, _ | ⟨c₂, _ | ⟨c₃, _ | ⟨c₄, t⟩⟩⟩⟩ <;>
    simp only [List.nil_append, List.cons_append, List.cons_prefix_cons, List.nil_prefix,
      and_true, List.prefix_nil, List.append_eq_nil_iff, List.cons_ne_nil, and_false] at ht
  · subst ht
    decide +kernel
  · obtain ⟨rfl, rfl⟩ := ht
    decide +kernel
  · obtain ⟨rfl, rfl, rfl⟩ := ht
    decide +kernel
  · obtain ⟨rfl, rfl, rfl, rfl⟩ := ht
    decide +kernel

/-- The string `fighting` for a large prime. -/
theorem hashCode_eq_fails : ¬ ∀ (s : List UInt8) (mod : BitVec 32), Ascii s → 0 < mod.toNat →
    HashesTo s mod := by
  intro h
  have hright := h [102, 105, 103, 104, 116, 105, 110, 103] 1000000007 (by decide) (by decide)
  exact absurd hright (by decide +kernel)

end FightingCard
