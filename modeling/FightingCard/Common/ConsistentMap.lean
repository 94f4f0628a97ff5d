import FightingCard.Lib.Clockwise
import FightingCard.Lib.OrderedMap

set_option relaxedAutoImplicit false
set_option autoImplicit false

/-!
# Consistent maps

The consistent hash map of `common/consistent_map.h`: nodes on the ring of the hashes, each of which
serves the hashes on the arc that ends in it. The map is a template over the type of the hashes,
here the unsigned integers of `w` bits, but `erase` takes an `uint32_t`. A longer hash loses its
high bits on the way, and what is removed is the node at the number that is left.

## Main definitions

* `FightingCard.ConsistentMap` — the nodes with their hashes.
* `FightingCard.ConsistentMap.trace`, `FightingCard.ConsistentMap.Reference.trace` — the results and
  the contents after a sequence of operations, for the map and for a finite map.

## Main results

* `FightingCard.ConsistentMap.stable` — which lookups an insertion and a removal change.
* `FightingCard.ConsistentMap.refines_iff` — when the map is a finite map.
-/

namespace FightingCard

/-- `ConsistentMap<K, V>` for a `K` of `w` bits. -/
structure ConsistentMap (w : ℕ) (V : Type) where
  data : OrderedMap (Fin (2 ^ w)) V := {}

namespace ConsistentMap

open Clockwise

variable {w : ℕ} {V : Type}

/-- An unsigned integer of `n` bits for one of `w` bits, modulo `2 ^ n`. -/
def convert {n : ℕ} (k : Fin (2 ^ w)) : Fin (2 ^ n) := Fin.ofNat (2 ^ n) k

section Operations

variable (m : ConsistentMap w V) (hash : Fin (2 ^ w)) (node : V)

/-- `insert(hash, node)`. -/
def insert : ConsistentMap w V × Bool :=
  let (data, inserted) := m.data.insert hash node
  (⟨data⟩, inserted)

/-- `update(hash, node)`. -/
def update : ConsistentMap w V := ⟨m.data.assign hash node⟩

/-- `find(hash, &node)`: the node, if the result is `true`. -/
def find : Option V :=
  if m.data.empty then none
  else
    match m.data.lowerBound hash with
    | some it => some it.2
    | none => m.data.begin.map Prod.snd

/-- `erase(hash)`, whose argument is an `uint32_t` whatever the type of the keys. -/
def erase (hash : Fin (2 ^ 32)) : ConsistentMap w V × ℕ :=
  let (data, erased) := m.data.erase (convert hash)
  (⟨data⟩, erased)

/-- `empty()`. -/
def empty : Bool := m.data.empty

/-- `size()`. -/
def size : ℕ := m.data.size

/-- The node at a hash. -/
def contents : Fin (2 ^ w) → Option V := m.data.get?

/-- The hashes with a node. -/
def keys : Set (Fin (2 ^ w)) := {k | (m.contents k).isSome}

end Operations

variable {m : ConsistentMap w V} {h k k' : Fin (2 ^ w)} {v : V}

/-! ## Lookups -/

/-- A map has finitely many keys. -/
lemma keys_finite (m : ConsistentMap w V) : m.keys.Finite := Set.toFinite _

/-- The keys are those of the entries. -/
lemma mem_keys_iff : k ∈ m.keys ↔ ∃ v, (k, v) ∈ m.data.entries := by
  simp [keys, contents, Option.isSome_iff_exists, OrderedMap.get?_eq_some_iff]

/-- What holds of all keys holds of the entries. -/
lemma forall_keys_iff {P : Fin (2 ^ w) → Prop} :
    (∀ q ∈ m.keys, P q) ↔ ∀ f ∈ m.data.entries, P f.1 := by
  simp only [mem_keys_iff]
  exact ⟨fun h f hf => h _ ⟨f.2, hf⟩, fun h q hq => hq.elim fun v hv => h _ hv⟩

/-- A map is empty if it has no keys. -/
lemma empty_iff : m.empty = true ↔ m.keys = ∅ := by
  rw [empty, OrderedMap.empty_eq_true_iff, Set.eq_empty_iff_forall_notMem]
  simp [keys, contents]

/-- The search of a lookup ends at the first node clockwise. -/
lemma search_eq_some_iff {e : Fin (2 ^ w) × V} :
    (m.data.lowerBound h).or m.data.begin = some e ↔
      First m.keys h e.1 ∧ m.contents e.1 = some e.2 := by
  have hmem : m.contents e.1 = some e.2 ↔ e ∈ m.data.entries := OrderedMap.get?_eq_some_iff
  have hkey : e ∈ m.data.entries → e.1 ∈ m.keys := fun he => mem_keys_iff.mpr ⟨e.2, he⟩
  have hleast := forall_keys_iff (m := m) (P := fun q => h ≤ q → e.1 ≤ q)
  have hbelow := forall_keys_iff (m := m) (P := fun q => q < h)
  have hfirst := forall_keys_iff (m := m) (P := fun q => e.1 ≤ q)
  rw [Option.or_eq_some_iff, OrderedMap.lowerBound_eq_some_iff, OrderedMap.lowerBound_eq_none_iff,
    OrderedMap.begin_eq_some_iff, hmem, First, hleast, hbelow, hfirst]
  constructor
  · rintro (⟨he, hle⟩ | ⟨hlt, he, hmin⟩)
    · exact ⟨⟨hkey he, .inl hle⟩, he⟩
    · exact ⟨⟨hkey he, .inr ⟨hlt, hmin⟩⟩, he⟩
  · rintro ⟨⟨-, hle | ⟨hlt, hmin⟩⟩, he⟩
    · exact .inl ⟨he, hle⟩
    · exact .inr ⟨hlt, he, hmin⟩

/-- `Find` looks for the lower bound and wraps around. -/
lemma find_eq_search : m.find h = ((m.data.lowerBound h).or m.data.begin).map Prod.snd := by
  unfold find
  split
  · rename_i hempty
    have hentries : m.data.entries = [] := List.isEmpty_iff.mp hempty
    simp [OrderedMap.lowerBound, OrderedMap.begin, hentries]
  · cases m.data.lowerBound h <;> rfl

/-- **A lookup finds the first node clockwise.** -/
lemma find_eq_some_iff : m.find h = some v ↔ ∃ k, First m.keys h k ∧ m.contents k = some v := by
  rw [find_eq_search, Option.map_eq_some_iff]
  constructor
  · rintro ⟨e, he, rfl⟩
    exact ⟨e.1, search_eq_some_iff.mp he⟩
  · rintro ⟨k, hk⟩
    exact ⟨(k, v), search_eq_some_iff.mpr hk, rfl⟩

/-- A lookup finds nothing in the empty map only. -/
lemma find_eq_none_iff : m.find h = none ↔ m.empty = true := by
  have hnone : m.data.begin = none → m.data.lowerBound h = none := fun hbegin => by
    simp [OrderedMap.lowerBound, OrderedMap.begin_eq_none_iff.mp hbegin]
  rw [find_eq_search, Option.map_eq_none_iff, Option.or_eq_none_iff, and_iff_right_of_imp hnone,
    OrderedMap.begin_eq_none_iff, empty, OrderedMap.empty, List.isEmpty_iff]

/-- Maps with the same first node clockwise, at which they agree, answer the same. -/
lemma find_congr {m' : ConsistentMap w V} (hk : First m.keys h k) (hk' : First m'.keys h k)
    (hcontents : m'.contents k = m.contents k) : m'.find h = m.find h := by
  obtain ⟨v, hv⟩ := Option.isSome_iff_exists.mp hk.1
  rw [find_eq_some_iff.mpr ⟨k, hk, hv⟩, find_eq_some_iff.mpr ⟨k, hk', hcontents.trans hv⟩]

/-- In a map with nodes there is a first one clockwise. -/
lemma exists_first (hne : m.keys.Nonempty) (h : Fin (2 ^ w)) : ∃ k, First m.keys h k := by
  cases hfind : m.find h with
  | none =>
    rw [find_eq_none_iff, empty_iff] at hfind
    exact absurd hfind hne.ne_empty
  | some v =>
    obtain ⟨k, hk, -⟩ := find_eq_some_iff.mp hfind
    exact ⟨k, hk⟩

/-! ## Updates -/

/-- An update changes the value of its key. -/
lemma contents_update : (m.update k v).contents = Function.update m.contents k (some v) := by
  ext1 k'
  rw [Function.update_apply]
  exact OrderedMap.get?_assign

/-- A hash that has no node gets one. -/
lemma insert_of_notMem (hk : k ∉ m.keys) : m.insert k v = (m.update k v, true) := by
  have hnone : m.data.get? k = none := by simpa [keys, contents] using hk
  simp [insert, OrderedMap.insert, hnone, update]

/-- A hash that has a node keeps it. -/
lemma insert_of_mem (hk : k ∈ m.keys) : m.insert k v = (m, false) := by
  obtain ⟨v', hv'⟩ := Option.isSome_iff_exists.mp hk
  have hsome : m.data.get? k = some v' := hv'
  simp [insert, OrderedMap.insert, hsome]

/-- An update adds its key. -/
lemma keys_update : (m.update k v).keys = Insert.insert k m.keys := by
  ext q
  by_cases hq : q = k <;> simp [keys, contents_update, Function.update_apply, hq]

/-- What is removed is the node at the number that is left of the argument. -/
lemma contents_erase {hash : Fin (2 ^ 32)} :
    (m.erase hash).1.contents = Function.update m.contents (convert hash) none := by
  ext1 k'
  rw [Function.update_apply]
  exact OrderedMap.get?_erase

/-- An erasure takes its key away. -/
lemma keys_erase {hash : Fin (2 ^ 32)} : (m.erase hash).1.keys = m.keys \ {convert hash} := by
  ext q
  by_cases hq : q = convert hash <;> simp [keys, contents_erase, Function.update_apply, hq]

/-- A map is what it contains. -/
lemma ext_contents {m' : ConsistentMap w V} (hm : m.contents = m'.contents) : m = m' := by
  cases m
  cases m'
  exact congrArg _ (OrderedMap.ext_get? (congrFun hm))

/-- A number that fits is kept. -/
lemma convert_self : (convert k : Fin (2 ^ w)) = k := Fin.ext (Nat.mod_eq_of_lt k.isLt)

/-! ## Stability -/

section Stability

variable {m : ConsistentMap 32 V} {h k : Fin (2 ^ 32)}

/-- An insertion moves no hash outside of the arc before its key. -/
lemma find_insert_of_not_onArc {p : Fin (2 ^ 32)} (hk : k ∉ m.keys) (hp : Pred m.keys k p)
    (harc : ¬ OnArc p k h) : (m.insert k v).1.find h = m.find h := by
  rw [insert_of_notMem hk]
  obtain ⟨r, hr⟩ := exists_first ⟨p, hp.1⟩ h
  have hne : r ≠ k := fun heq => hk (heq ▸ hr.1)
  refine find_congr hr (keys_update ▸ first_insert_of_not_onArc hp harc hr) ?_
  rw [contents_update, Function.update_of_ne hne]

/-- The hashes on the arc go to the new key. -/
lemma find_insert_of_onArc {p : Fin (2 ^ 32)} (hk : k ∉ m.keys) (hp : Pred m.keys k p)
    (harc : OnArc p k h) : (m.insert k v).1.find h = some v := by
  rw [insert_of_notMem hk]
  refine find_eq_some_iff.mpr ⟨k, keys_update ▸ first_insert_of_onArc hp harc, ?_⟩
  rw [contents_update, Function.update_self]

/-- An erasure moves no hash of another key. -/
lemma find_erase_of_not_first (hk : ¬ First m.keys h k) : (m.erase k).1.find h = m.find h := by
  have hkeys : (m.erase k).1.keys = m.keys \ {k} := by rw [keys_erase, convert_self]
  rcases m.keys.eq_empty_or_nonempty with hempty | hne
  · have hnone : ∀ m' : ConsistentMap 32 V, m'.keys = ∅ → m'.find h = none :=
      fun m' hm' => find_eq_none_iff.mpr (empty_iff.mpr hm')
    rw [hnone m hempty, hnone _ (by rw [hkeys, hempty, Set.empty_sdiff])]
  · obtain ⟨r, hr⟩ := exists_first hne h
    have hrk : r ≠ k := fun heq => hk (heq ▸ hr)
    refine find_congr hr (hkeys ▸ first_diff_of_ne hr hrk) ?_
    rw [contents_erase, convert_self, Function.update_of_ne hrk]

/-- The hashes of the erased key go to the next one. -/
lemma find_erase_of_first {s : Fin (2 ^ 32)} (hk : First m.keys h k)
    (hs : Succ (m.keys \ {k}) k s) : (m.erase k).1.find h = m.contents s := by
  have hkeys : (m.erase k).1.keys = m.keys \ {k} := by rw [keys_erase, convert_self]
  obtain ⟨v, hv⟩ := Option.isSome_iff_exists.mp hs.1.1
  rw [hv, find_eq_some_iff]
  refine ⟨s, hkeys ▸ first_diff_self hk hs, ?_⟩
  rwa [contents_erase, convert_self, Function.update_of_ne hs.1.2]

/-- Erasing a new key restores the map. -/
lemma erase_insert (hk : k ∉ m.keys) : ((m.insert k v).1.erase k).1 = m := by
  rw [insert_of_notMem hk]
  refine ext_contents ?_
  have hnone : m.contents k = none := by simpa [keys] using hk
  rw [contents_erase, contents_update, convert_self, Function.update_idem, ← hnone,
    Function.update_eq_self]

end Stability

/-- **Stability**, for hashes of 32 bits. A lookup finds the first node clockwise. A new node serves
the hashes on the arc to it from the node before; for the others nothing changes. A removed node
leaves its hashes to the node after it; for the others nothing changes. A new node that is removed
leaves no trace. An update with a new node is an insertion. -/
theorem stable (m : ConsistentMap 32 V) :
    (∀ h, (m.find h = none ↔ m.empty = true) ∧
      ∀ v, m.find h = some v ↔ ∃ k, First m.keys h k ∧ m.contents k = some v) ∧
    (∀ k v, k ∉ m.keys → m.keys.Nonempty → ∃ p, Pred m.keys k p ∧
      ∀ h, (OnArc p k h → (m.insert k v).1.find h = some v) ∧
        (¬ OnArc p k h → (m.insert k v).1.find h = m.find h)) ∧
    (∀ k h, ¬ First m.keys h k → (m.erase k).1.find h = m.find h) ∧
    (∀ k, (m.keys \ {k}).Nonempty → ∃ s, Succ (m.keys \ {k}) k s ∧
      ∀ h, First m.keys h k → (m.erase k).1.find h = m.contents s) ∧
    ∀ k v, k ∉ m.keys → ((m.insert k v).1.erase k).1 = m ∧ m.update k v = (m.insert k v).1 := by
  refine ⟨fun h => ⟨find_eq_none_iff, fun v => find_eq_some_iff⟩, fun k v hk hne => ?_,
    fun k h => find_erase_of_not_first, fun k hne => ?_,
    fun k v hk => ⟨erase_insert hk, by rw [insert_of_notMem hk]⟩⟩
  · obtain ⟨p, hp⟩ := exists_pred m.keys_finite hne
    exact ⟨p, hp, fun h => ⟨find_insert_of_onArc hk hp, find_insert_of_not_onArc hk hp⟩⟩
  · obtain ⟨s, hs⟩ := exists_succ (m.keys_finite.subset Set.sdiff_subset) hne
    exact ⟨s, hs, fun h hk => find_erase_of_first hk hs⟩

/-! ## Refinement -/

/-- The operations of a map, but for the lookups. -/
inductive Op (w : ℕ) (V : Type) where
  | insert (hash : Fin (2 ^ w)) (node : V)
  | update (hash : Fin (2 ^ w)) (node : V)
  | erase (hash : Fin (2 ^ w))
  | empty
  | size

/-- What an operation returns. -/
inductive Result where
  | insert (inserted : Bool)
  | update
  | erase (erased : ℕ)
  | empty (isEmpty : Bool)
  | size (n : ℕ)
  deriving DecidableEq

/-- A call of an operation. The argument of `erase` is converted to an `uint32_t`. -/
def step (m : ConsistentMap w V) : Op w V → ConsistentMap w V × Result
  | .insert hash node => ((m.insert hash node).1, .insert (m.insert hash node).2)
  | .update hash node => (m.update hash node, .update)
  | .erase hash => ((m.erase (convert hash)).1, .erase (m.erase (convert hash)).2)
  | .empty => (m, .empty m.empty)
  | .size => (m, .size m.size)

/-- The results of a sequence of operations, and the contents after each of them. -/
def trace (m : ConsistentMap w V) : List (Op w V) → List ((Fin (2 ^ w) → Option V) × Result)
  | [] => []
  | op :: ops => ((m.step op).1.contents, (m.step op).2) :: trace (m.step op).1 ops

/-- What the map stands for: a finite map, which binds, overwrites and unbinds exactly the keys it
is asked for. -/
structure Reference (w : ℕ) (V : Type) where
  contents : Fin (2 ^ w) → Option V

namespace Reference

/-- An operation on a finite map. -/
noncomputable def step (f : Reference w V) : Op w V → Reference w V × Result
  | .insert hash node =>
    if (f.contents hash).isSome then (f, .insert false)
    else (⟨Function.update f.contents hash (some node)⟩, .insert true)
  | .update hash node => (⟨Function.update f.contents hash (some node)⟩, .update)
  | .erase hash =>
    (⟨Function.update f.contents hash none⟩, .erase (if (f.contents hash).isSome then 1 else 0))
  | .empty => (f, .empty (decide (∀ k, f.contents k = none)))
  | .size => (f, .size {k | (f.contents k).isSome}.ncard)

/-- The results of a sequence of operations, and the contents after each of them. -/
noncomputable def trace (f : Reference w V) :
    List (Op w V) → List ((Fin (2 ^ w) → Option V) × Result)
  | [] => []
  | op :: ops => ((f.step op).1.contents, (f.step op).2) :: trace (f.step op).1 ops

/-- The hash `k` can be erased: it fits into 32 bits, or neither the hash nor what is left of it in
32 bits has a node. -/
def Erasable (f : Reference w V) (k : Fin (2 ^ w)) : Prop :=
  k.val < 2 ^ 32 ∨ f.contents k = none ∧ f.contents (Fin.ofNat (2 ^ w) (k.val % 2 ^ 32)) = none

/-- Every hash that is erased can be erased. -/
def Erases (f : Reference w V) : List (Op w V) → Prop
  | [] => True
  | op :: ops => (∀ k, op = .erase k → f.Erasable k) ∧ Erases (f.step op).1 ops

end Reference

/-- What is removed is the hash itself if it fits, and another one otherwise. -/
lemma convert_convert_eq_iff :
    (convert (convert k : Fin (2 ^ 32)) : Fin (2 ^ w)) = k ↔ k.val < 2 ^ 32 := by
  rw [Fin.ext_iff]
  change k.val % 2 ^ 32 % 2 ^ w = k.val ↔ _
  rw [Nat.mod_eq_of_lt (lt_of_le_of_lt (Nat.mod_le _ _) k.isLt)]
  omega

/-- What is removed is what a finite map would remove, if the hash can be erased. -/
lemma contents_erase_eq_iff : (m.erase (convert k)).1.contents = Function.update m.contents k none ↔
    (⟨m.contents⟩ : Reference w V).Erasable k := by
  have hleft : Fin.ofNat (2 ^ w) (k.val % 2 ^ 32) = convert (convert k : Fin (2 ^ 32)) := rfl
  rw [contents_erase, Reference.Erasable, hleft]
  by_cases hlt : k.val < 2 ^ 32
  · rw [convert_convert_eq_iff.mpr hlt]
    exact ⟨fun _ => .inl hlt, fun _ => rfl⟩
  · have hne : convert (convert k : Fin (2 ^ 32)) ≠ k := mt convert_convert_eq_iff.mp hlt
    constructor
    · -- the contents differ at the hash or at what is left of it
      intro hcontents
      have hhash := congrFun hcontents k
      have hother := congrFun hcontents (convert (convert k : Fin (2 ^ 32)))
      rw [Function.update_of_ne hne.symm, Function.update_self] at hhash
      rw [Function.update_self, Function.update_of_ne hne] at hother
      exact .inr ⟨hhash, hother.symm⟩
    · rintro (hlt' | ⟨hhash, hother⟩)
      · exact absurd hlt' hlt
      · rw [← hother, Function.update_eq_self, hother, ← hhash, Function.update_eq_self]

/-- The number of nodes that are removed is that of a finite map, if the hash can be erased. -/
lemma erase_snd_of_erasable (h : (⟨m.contents⟩ : Reference w V).Erasable k) :
    (m.erase (convert k)).2 = if (m.contents k).isSome then 1 else 0 := by
  have hcount : (m.erase (convert k)).2 =
      if (m.contents (convert (convert k : Fin (2 ^ 32)))).isSome then 1 else 0 := rfl
  rw [hcount]
  rcases h with hlt | ⟨hhash, hother⟩
  · rw [convert_convert_eq_iff.mpr hlt]
  · have hleft : m.contents (convert (convert k : Fin (2 ^ 32))) = none := hother
    have hnone : m.contents k = none := hhash
    rw [hleft, hnone]

/-- An operation does what it does to a finite map, unless it is an `erase` of the wrong hash. -/
lemma step_eq_iff {op : Op w V} :
    ((m.step op).1.contents = ((⟨m.contents⟩ : Reference w V).step op).1.contents ∧
      (m.step op).2 = ((⟨m.contents⟩ : Reference w V).step op).2) ↔
      ∀ k, op = .erase k → (⟨m.contents⟩ : Reference w V).Erasable k := by
  cases op with
  | insert hash node =>
    by_cases hk : hash ∈ m.keys
    · have hsome : (m.contents hash).isSome = true := hk
      simp [step, Reference.step, insert_of_mem hk, hsome]
    · have hnone : (m.contents hash).isSome = false := Bool.eq_false_of_not_eq_true hk
      simp [step, Reference.step, insert_of_notMem hk, hnone, contents_update]
  | update hash node => simp [step, Reference.step, contents_update]
  | erase hash =>
    simp only [step, Reference.step, contents_erase_eq_iff, Op.erase.injEq, Result.erase.injEq,
      forall_eq', and_iff_left_iff_imp]
    exact erase_snd_of_erasable
  | empty =>
    have hempty : m.empty = true ↔ ∀ k, m.contents k = none := OrderedMap.empty_eq_true_iff
    have hdecide : m.empty = decide (∀ k, m.contents k = none) := by
      rw [Bool.eq_iff_iff, decide_eq_true_iff, hempty]
    simp [step, Reference.step, hdecide]
  | size => simp [step, Reference.step, size, contents, OrderedMap.size_eq_ncard]

/-- A sequence of operations does what it does to a finite map if every hash that is erased can
be erased. -/
lemma trace_eq_iff {ops : List (Op w V)} :
    m.trace ops = (⟨m.contents⟩ : Reference w V).trace ops ↔
      (⟨m.contents⟩ : Reference w V).Erases ops := by
  induction ops generalizing m with
  | nil => simp [trace, Reference.trace, Reference.Erases]
  | cons op ops ih =>
    rw [trace, Reference.trace, List.cons_eq_cons, Prod.mk.injEq, step_eq_iff, Reference.Erases]
    refine and_congr_right fun hop => ?_
    have hnext : (⟨(m.step op).1.contents⟩ : Reference w V) =
        ((⟨m.contents⟩ : Reference w V).step op).1 := congrArg _ (step_eq_iff.mpr hop).1
    rw [← hnext, ih]

/-- **When the map is a finite map**, for hashes of 64 bits: exactly if every hash that is erased
fits into 32 bits, or neither the hash nor what is left of it has a node at that time. No lookup
answers with a node that was so erased, and the others are all there. -/
theorem refines_iff (V : Type) :
    (∀ ops : List (Op 64 V), trace {} ops = Reference.trace ⟨fun _ => none⟩ ops ↔
      Reference.Erases ⟨fun _ => none⟩ ops) ∧
    ∀ (m : ConsistentMap 64 V) (k : Fin (2 ^ 64)), Reference.Erasable ⟨m.contents⟩ k →
      (∀ h, ¬ First (m.erase (convert k)).1.keys h k) ∧
        ∀ k', k' ≠ k → (m.erase (convert k)).1.contents k' = m.contents k' := by
  refine ⟨fun ops => trace_eq_iff (m := {}), fun m k hk => ?_⟩
  have hstep := (step_eq_iff (m := m)).mpr fun k' (heq : Op.erase k = .erase k') =>
    Op.erase.inj heq ▸ hk
  have hcontents : (m.erase (convert k)).1.contents = Function.update m.contents k none := hstep.1
  refine ⟨fun h hfirst => ?_, fun k' hne => ?_⟩
  · have hmem := hfirst.1
    simp [keys, hcontents] at hmem
  · rw [hcontents, Function.update_of_ne hne]

/-- A node at `2 ^ 32` cannot be removed. -/
theorem refines_fails : ¬ ∀ ops : List (Op 64 Unit),
    trace {} ops = Reference.trace ⟨fun _ => none⟩ ops := by
  intro h
  let node : Fin (2 ^ 64) := ⟨2 ^ 32, by decide⟩
  have herases := trace_eq_iff.mp (h [.insert node (), .erase node])
  have hcontents : (({} : ConsistentMap 64 Unit).contents node).isSome = false := rfl
  have herasable := herases.2.1 node rfl
  simp only [Reference.Erasable, Reference.step, hcontents, Bool.false_eq_true, if_false,
    Function.update_self, reduceCtorEq, false_and, or_false] at herasable
  exact absurd herasable (by decide)

end ConsistentMap

end FightingCard
