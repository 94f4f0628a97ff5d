import Mathlib.Data.List.GetD
import Mathlib.Tactic.Ring
import Mathlib.Tactic.NormNum

set_option relaxedAutoImplicit false
set_option autoImplicit false

/-!
# Byte memories

A byte memory assigns a byte to every address. Code that fills a buffer through pointers is
a chain of writes into one memory, and code that parses it is a chain of reads. This file has
the reads and writes of byte blocks, the laws that relate them, little-endian integers of a
fixed width, and NUL-terminated strings.

The two laws used most are `ByteMem.write_write_append`, which glues two adjacent writes into
one, and `ByteMem.read_eq_append_iff`, which takes a block that is read apart.

## Main definitions

* `ByteMem.Mem` — a byte for every address.
* `ByteMem.read`, `ByteMem.write` — the block of `n` bytes at an address, and its update.
* `ByteMem.leBytes`, `ByteMem.leNat` — a number as `w` little-endian bytes, and back.
* `ByteMem.cStr`, `ByteMem.cString` — a string with its terminator, and the string a
  terminated block holds.

## Main results

* `ByteMem.read_write_self`, `ByteMem.read_write_of_disjoint` — a read sees the write at its
  own address and no write elsewhere.
* `ByteMem.leNat_leBytes`, `ByteMem.leBytes_leNat` — the two directions of the integer codec.
* `ByteMem.cString_cStr` — a NUL-free string is recovered from its terminated block.
-/

namespace ByteMem

/-- A byte memory: the byte held at every address. -/
abbrev Mem := ℕ → UInt8

/-- The block of `n` bytes at address `a`. -/
def read (m : Mem) : ℕ → ℕ → List UInt8
  | _, 0 => []
  | a, n + 1 => m a :: read m (a + 1) n

/-- The memory after the block `bs` has been stored at address `a`. -/
def write (m : Mem) (a : ℕ) (bs : List UInt8) : Mem := fun i =>
  if a ≤ i then bs.getD (i - a) (m i) else m i

variable {m m' : Mem} {a b n k i : ℕ} {bs cs : List UInt8}

/-! ## Reads -/

/-- An empty block. -/
@[simp] lemma read_zero : read m a 0 = [] := rfl

/-- A block has the length that is asked for. -/
@[simp] lemma length_read : (read m a n).length = n := by
  induction n generalizing a with
  | zero => rfl
  | succ n ih => simp [read, ih]

/-- A block is its first `n` bytes followed by the rest. -/
lemma read_add : read m a (n + k) = read m a n ++ read m (a + n) k := by
  induction n generalizing a with
  | zero => simp
  | succ n ih =>
    rw [show n + 1 + k = n + k + 1 by omega]
    simp only [read, List.cons_append, ih]
    rw [show a + 1 + n = a + (n + 1) by omega]

/-- A block of one byte. -/
lemma read_one : read m a 1 = [m a] := rfl

/-- The bytes of a block are those in memory. -/
lemma getElem_read (h : i < (read m a n).length) : (read m a n)[i] = m (a + i) := by
  induction n generalizing a i with
  | zero => simp at h
  | succ n ih =>
    cases i with
    | zero => rfl
    | succ i =>
      simp only [read, List.getElem_cons_succ, ih]
      congr 1
      omega

/-- Two memories hold the same block exactly when they agree on its addresses. -/
lemma read_eq_read_iff : read m a n = read m' b n ↔ ∀ i < n, m (a + i) = m' (b + i) := by
  constructor
  · intro h i hi
    have h' := List.getElem_of_eq h (i := i) (by simpa using hi)
    simpa [getElem_read] using h'
  · intro h
    refine List.ext_getElem (by simp) fun i h₁ _ => ?_
    rw [getElem_read, getElem_read]
    exact h i (by simpa using h₁)

/-- A block depends on its own bytes only. -/
lemma read_congr (h : ∀ i < n, m (a + i) = m' (a + i)) : read m a n = read m' a n :=
  read_eq_read_iff.mpr h

/-- The members of a block. -/
lemma mem_read {x : UInt8} : x ∈ read m a n ↔ ∃ i < n, m (a + i) = x := by
  rw [List.mem_iff_getElem]
  constructor
  · rintro ⟨i, hi, rfl⟩
    exact ⟨i, by simpa using hi, (getElem_read hi).symm⟩
  · rintro ⟨i, hi, rfl⟩
    exact ⟨i, by simpa using hi, getElem_read _⟩

/-! ## Writes -/

/-- Writing leaves the bytes before the block. -/
lemma write_apply_of_lt (h : i < a) : write m a bs i = m i := by
  simp [write, Nat.not_le.mpr h]

/-- Writing leaves the bytes after the block. -/
lemma write_apply_of_ge (h : a + bs.length ≤ i) : write m a bs i = m i := by
  rw [write, if_pos (by omega), List.getD_eq_default _ _ (by omega)]

/-- Writing stores the bytes of the block. -/
lemma write_apply_add (h : i < bs.length) : write m a bs (a + i) = bs[i] := by
  rw [write, if_pos (by omega), Nat.add_sub_cancel_left, List.getD_eq_getElem _ _ h]

/-- A block is read back at the address it was stored at. -/
@[simp] lemma read_write_self : read (write m a bs) a bs.length = bs := by
  refine List.ext_getElem (by simp) fun i h₁ h₂ => ?_
  rw [getElem_read, write_apply_add h₂]

/-- A read elsewhere does not see the stored block. -/
lemma read_write_of_disjoint (h : a + bs.length ≤ b ∨ b + n ≤ a) :
    read (write m a bs) b n = read m b n := by
  refine read_congr fun i hi => ?_
  rcases h with h | h
  · exact write_apply_of_ge (by omega)
  · exact write_apply_of_lt (by omega)

/-- Two adjacent stores, the left one first, are one store. -/
lemma write_write_append : write (write m a bs) (a + bs.length) cs = write m a (bs ++ cs) := by
  funext i
  rcases Nat.lt_or_ge i (a + bs.length) with h | h
  · rw [write_apply_of_lt h]
    by_cases ha : a ≤ i
    · simp only [write, if_pos ha]
      rw [List.getD_append _ _ _ _ (by omega)]
    · rw [write_apply_of_lt (by omega), write_apply_of_lt (by omega)]
  · rw [write, if_pos h, write_apply_of_ge h]
    simp only [write, if_pos (show a ≤ i by omega)]
    rw [List.getD_append_right _ _ _ _ (by omega)]
    congr 1
    omega

/-- A store right behind another one extends it. -/
lemma write_write_at (hb : b = a + bs.length) :
    write (write m a bs) b cs = write m a (bs ++ cs) := by
  rw [hb, write_write_append]

/-- Two adjacent stores, the right one first, are one store. -/
lemma write_write_prepend : write (write m (a + bs.length) cs) a bs = write m a (bs ++ cs) := by
  funext i
  rcases Nat.lt_or_ge i (a + bs.length) with h | h
  · by_cases ha : a ≤ i
    · obtain ⟨j, rfl⟩ : ∃ j, i = a + j := ⟨i - a, by omega⟩
      rw [write_apply_add (show j < bs.length by omega), write_apply_add (by simp; omega),
        List.getElem_append_left]
    · rw [write_apply_of_lt (by omega), write_apply_of_lt (by omega), write_apply_of_lt (by omega)]
  · rw [write_apply_of_ge h, ← write_write_append]
    simp only [write, if_pos h]
    congr 1
    rw [if_pos (by omega), List.getD_eq_default _ _ (by omega)]

/-- A store right before another one extends it. -/
lemma write_write_before (hb : b = a + bs.length) :
    write (write m b cs) a bs = write m a (bs ++ cs) := by
  rw [hb, write_write_prepend]

/-- A store forgets what was at its address. -/
lemma write_congr (h : ∀ i, i < a ∨ a + bs.length ≤ i → m i = m' i) :
    write m a bs = write m' a bs := by
  funext i
  rcases Nat.lt_or_ge i a with hi | hi
  · rw [write_apply_of_lt hi, write_apply_of_lt hi, h i (.inl hi)]
  · rcases Nat.lt_or_ge i (a + bs.length) with hj | hj
    · obtain ⟨j, rfl⟩ : ∃ j, i = a + j := ⟨i - a, by omega⟩
      rw [write_apply_add (show j < bs.length by omega), write_apply_add (by omega)]
    · rw [write_apply_of_ge hj, write_apply_of_ge hj, h i (.inr hj)]

/-- Storing over a block of the same length forgets the old block. -/
lemma write_write_self (h : bs.length = cs.length) : write (write m a bs) a cs = write m a cs := by
  apply write_congr
  rintro i (hi | hi)
  · exact write_apply_of_lt hi
  · exact write_apply_of_ge (by omega)

/-- Storing the block that is already there changes nothing. -/
lemma write_eq_self (h : read m a bs.length = bs) : write m a bs = m := by
  funext i
  rcases Nat.lt_or_ge i a with hi | hi
  · exact write_apply_of_lt hi
  · rcases Nat.lt_or_ge i (a + bs.length) with hj | hj
    · obtain ⟨j, rfl⟩ : ∃ j, i = a + j := ⟨i - a, by omega⟩
      have hj' : j < bs.length := by omega
      rw [write_apply_add hj', ← getElem_read (m := m) (a := a) (n := bs.length) (by simpa)]
      exact (List.getElem_of_eq h _).symm
    · exact write_apply_of_ge hj

/-- Repeating the store of a prefix changes nothing. -/
lemma write_write_prefix : write (write m a (bs ++ cs)) a bs = write m a (bs ++ cs) := by
  refine write_eq_self ?_
  rw [← write_write_append, read_write_of_disjoint (.inr le_rfl), read_write_self]

/-- Storing zeros behind a block in a memory of zeros changes nothing. -/
lemma write_append_zeros :
    write (fun _ => 0) a (bs ++ List.replicate n 0) = write (fun _ => 0) a bs := by
  rw [← write_write_append]
  apply write_eq_self
  rw [read_write_of_disjoint (.inl le_rfl)]
  refine List.ext_getElem (by simp) fun i _ _ => ?_
  rw [getElem_read, List.getElem_replicate]

/-- The first one of two blocks stored together is read back at its own address. -/
lemma read_write_left (hn : n = bs.length) : read (write m a (bs ++ cs)) a n = bs := by
  subst hn
  rw [← write_write_append, read_write_of_disjoint (.inr le_rfl), read_write_self]

/-- A store behind a block extends what is read at the address of the block. -/
lemma read_write_behind :
    read (write m (a + n) bs) a (n + bs.length) = read m a n ++ bs := by
  rw [read_add, read_write_of_disjoint (.inr le_rfl), read_write_self]

/-- Two blocks lie at an address exactly when the first one does and the second one follows. -/
lemma read_eq_append_iff {xs ys : List UInt8} :
    read m a (xs ++ ys).length = xs ++ ys ↔
      read m a xs.length = xs ∧ read m (a + xs.length) ys.length = ys := by
  rw [List.length_append, read_add]
  exact ⟨fun h => List.append_inj h (by simp), fun ⟨hx, hy⟩ => by rw [hx, hy]⟩

/-! ## Little-endian integers -/

/-- The `w` little-endian bytes of `n`; higher bytes are dropped. -/
def leBytes : ℕ → ℕ → List UInt8
  | 0, _ => []
  | w + 1, n => UInt8.ofNat (n % 256) :: leBytes w (n / 256)

/-- The number whose little-endian bytes are `bs`. -/
def leNat : List UInt8 → ℕ
  | [] => 0
  | x :: xs => x.toNat + 256 * leNat xs

/-- A word of `w` bytes has `w` bytes. -/
@[simp] lemma length_leBytes (w n : ℕ) : (leBytes w n).length = w := by
  induction w generalizing n with
  | zero => rfl
  | succ w ih => simp [leBytes, ih]

/-- Writing a number in `w` bytes keeps it modulo `256 ^ w`. -/
lemma leNat_leBytes (w n : ℕ) : leNat (leBytes w n) = n % 256 ^ w := by
  induction w generalizing n with
  | zero => simp [leBytes, leNat, Nat.mod_one]
  | succ w ih =>
    simp only [leBytes, leNat, ih]
    rw [UInt8.toNat_ofNat', Nat.mod_mod, pow_succ', Nat.mod_mul]

/-- A number that fits into a word comes out as it went in. -/
lemma leNat_leBytes_of_lt {w n : ℕ} (h : n < 256 ^ w) : leNat (leBytes w n) = n := by
  rw [leNat_leBytes, Nat.mod_eq_of_lt h]

/-- A word bounds its value. -/
lemma leNat_lt (bs : List UInt8) : leNat bs < 256 ^ bs.length := by
  induction bs with
  | nil => simp [leNat]
  | cons x xs ih =>
    have hx : x.toNat < 256 := x.toNat_lt
    simp only [leNat, List.length_cons, pow_succ]
    omega

/-- Every block of bytes is the block of the number it stands for. -/
lemma leBytes_leNat (bs : List UInt8) : leBytes bs.length (leNat bs) = bs := by
  induction bs with
  | nil => rfl
  | cons x xs ih =>
    have hx := x.toNat_lt
    have hlow : (x.toNat + 256 * leNat xs) % 256 = x.toNat := by omega
    have hhigh : (x.toNat + 256 * leNat xs) / 256 = leNat xs := by omega
    simp [leBytes, leNat, hlow, hhigh, ih]

/-! ## Terminated strings -/

/-- The bytes of a string followed by its terminator. -/
def cStr (s : List UInt8) : List UInt8 := s ++ [0]

/-- The string held by a block: its bytes before the first NUL. -/
def cString (bs : List UInt8) : List UInt8 := bs.takeWhile (· != 0)

/-- A C string is one byte longer, for its NUL. -/
@[simp] lemma length_cStr (s : List UInt8) : (cStr s).length = s.length + 1 := by simp [cStr]

/-- The byte behind a terminated string is its terminator. -/
lemma apply_terminator {s : List UInt8} (h : read m a (s.length + 1) = cStr s) :
    m (a + s.length) = 0 := by
  rw [read_add, cStr] at h
  exact List.singleton_inj.mp (List.append_inj' h rfl).2

/-- Storing the terminator of a stored string again changes nothing. -/
lemma write_write_terminator {s : List UInt8} (hb : b = a + s.length) :
    write (write m a (cStr s)) b [0] = write m a (cStr s) := by
  rw [hb, cStr, ← write_write_append, write_write_self rfl]

/-- A NUL-free string is recovered from a block that starts with its terminated bytes. -/
lemma cString_cStr_append {s : List UInt8} (hs : 0 ∉ s) (rest : List UInt8) :
    cString (cStr s ++ rest) = s := by
  have hall : ∀ x ∈ s, (x != 0) = true := fun x hx => by
    simpa using fun h : x = 0 => hs (h ▸ hx)
  rw [cString, cStr, List.append_assoc, List.takeWhile_append_of_pos hall]
  simp

/-- A string without NUL comes out of its C string. -/
lemma cString_cStr {s : List UInt8} (hs : 0 ∉ s) : cString (cStr s) = s := by
  simpa using cString_cStr_append hs []

end ByteMem
