import Mathlib.Data.List.Sort
import Mathlib.Data.Set.Card

set_option relaxedAutoImplicit false
set_option autoImplicit false

/-!
# Ordered maps

Finite maps over a linear order, as the ordered containers of a standard library: an entry is found
by its key, by a bound for it, or as the first one. The entries are kept in the order of their keys,
and this order is part of the value, so that a map is determined by what it binds.

## Main definitions

* `OrderedMap` — the entries of a map in the order of their keys.
* `OrderedMap.get?` — what a key is bound to.
* `OrderedMap.insert`, `OrderedMap.assign`, `OrderedMap.erase` — the updates.
* `OrderedMap.lowerBound`, `OrderedMap.begin` — the ordered searches.

## Main results

* `OrderedMap.ext_get?` — maps that bind the same are the same.
* `OrderedMap.get?_assign`, `OrderedMap.get?_erase` — what is bound after an update.
* `OrderedMap.lowerBound_eq_some_iff`, `OrderedMap.begin_eq_some_iff` — what a search finds.
* `OrderedMap.size_eq_ncard` — the size of a map is the number of its keys.
-/

/-- A finite map: its entries, whose keys increase. -/
@[ext]
structure OrderedMap (K V : Type*) [LinearOrder K] where
  entries : List (K × V) := []
  sorted : entries.Pairwise (fun e f => e.1 < f.1) := by exact .nil

namespace OrderedMap

variable {K V : Type*} [LinearOrder K]

/-- The entries with the key `k` bound to `v`, in its place among them. -/
def put (k : K) (v : V) (es : List (K × V)) : List (K × V) :=
  es.filter (·.1 < k) ++ (k, v) :: es.filter (k < ·.1)

/-- The entries after a `put`: the new one, and the old ones of other keys. -/
lemma mem_put {k : K} {v : V} {es : List (K × V)} {e : K × V} :
    e ∈ put k v es ↔ e = (k, v) ∨ e ∈ es ∧ e.1 ≠ k := by
  simp only [put, List.mem_append, List.mem_cons, List.mem_filter, decide_eq_true_eq,
    ← lt_or_lt_iff_ne]
  rw [or_left_comm, ← and_or_left]

/-- A `put` keeps the entries sorted. -/
lemma pairwise_put (k : K) (v : V) {es : List (K × V)}
    (hes : es.Pairwise fun e f => e.1 < f.1) : (put k v es).Pairwise fun e f => e.1 < f.1 := by
  refine List.pairwise_append.mpr ⟨hes.filter _, List.pairwise_cons.mpr ⟨?_, hes.filter _⟩, ?_⟩
  · simp
  · simp only [List.mem_filter, decide_eq_true_eq, List.mem_cons]
    rintro e ⟨-, he⟩ f (rfl | ⟨-, hf⟩)
    · exact he
    · exact lt_trans he hf

variable (m : OrderedMap K V)

/-- What the key `k` is bound to. -/
def get? (k : K) : Option V := (m.entries.find? (·.1 = k)).map Prod.snd

/-- `m[k] = v`. -/
def assign (k : K) (v : V) : OrderedMap K V := ⟨put k v m.entries, pairwise_put k v m.sorted⟩

/-- A key that is not bound is bound; the result tells whether this was so. -/
def insert (k : K) (v : V) : OrderedMap K V × Bool :=
  match m.get? k with
  | some _ => (m, false)
  | none => (m.assign k v, true)

/-- The key `k` is unbound; the result is the number of entries that this removes. -/
def erase (k : K) : OrderedMap K V × ℕ :=
  (⟨m.entries.filter (·.1 ≠ k), m.sorted.filter _⟩, if (m.get? k).isSome then 1 else 0)

/-- The first entry whose key is not below `k`. -/
def lowerBound (k : K) : Option (K × V) := m.entries.find? (k ≤ ·.1)

/-- The first entry. -/
def begin : Option (K × V) := m.entries.head?

/-- There are no entries. -/
def empty : Bool := m.entries.isEmpty

/-- The number of entries. -/
def size : ℕ := m.entries.length

variable {m} {m' : OrderedMap K V} {k k' : K} {v : V} {e : K × V}

/-! ## What is bound -/

/-- No key occurs twice. -/
lemma nodup_keys : (m.entries.map Prod.fst).Nodup :=
  List.pairwise_map.mpr (m.sorted.imp fun h => h.ne)

/-- A lookup finds what is an entry. -/
lemma get?_eq_some_iff : m.get? k = some v ↔ (k, v) ∈ m.entries := by
  constructor
  · intro h
    obtain ⟨e, he, rfl⟩ := Option.map_eq_some_iff.mp h
    obtain rfl : e.1 = k := by simpa using List.find?_some he
    exact List.mem_of_find?_eq_some he
  · intro h
    obtain ⟨e, he⟩ : ∃ e, m.entries.find? (·.1 = k) = some e :=
      Option.isSome_iff_exists.mp (List.find?_isSome.mpr ⟨_, h, by simp⟩)
    have hkey : e.1 = k := by simpa using List.find?_some he
    -- the keys are all different
    obtain rfl : e = (k, v) :=
      List.inj_on_of_nodup_map m.nodup_keys (List.mem_of_find?_eq_some he) h hkey
    rw [get?, he]
    rfl

/-- The keys are those for which a lookup finds something. -/
lemma mem_keys_iff : k ∈ m.entries.map Prod.fst ↔ (m.get? k).isSome := by
  simp [Option.isSome_iff_exists, get?_eq_some_iff]

/-- **Extensionality.** A map is what it binds. -/
theorem ext_get? (h : ∀ k, m.get? k = m'.get? k) : m = m' := by
  have hmem : ∀ e, e ∈ m.entries ↔ e ∈ m'.entries := fun e => by
    rw [← get?_eq_some_iff, ← get?_eq_some_iff, h]
  have hperm : m.entries.Perm m'.entries :=
    (List.perm_ext_iff_of_nodup (.of_map _ m.nodup_keys) (.of_map _ m'.nodup_keys)).mpr hmem
  exact OrderedMap.ext
    (hperm.eq_of_pairwise (fun _ _ _ _ h h' => absurd h h'.asymm) m.sorted m'.sorted)

/-- A lookup after an assignment. -/
lemma get?_assign : (m.assign k v).get? k' = if k' = k then some v else m.get? k' := by
  ext v'
  rw [get?_eq_some_iff, assign, mem_put]
  by_cases hk : k' = k
  · simp [hk, eq_comm]
  · simp [hk, ← get?_eq_some_iff]

/-- A lookup after an erasure. -/
lemma get?_erase : (m.erase k).1.get? k' = if k' = k then none else m.get? k' := by
  ext v'
  rw [get?_eq_some_iff, erase, List.mem_filter]
  by_cases hk : k' = k
  · simp [hk]
  · simp [hk, ← get?_eq_some_iff]

/-! ## What a search finds -/

/-- Two entries with the same key are the same. -/
lemma eq_of_mem {f : K × V} (he : e ∈ m.entries) (hf : f ∈ m.entries) (h : e.1 = f.1) : e = f :=
  List.inj_on_of_nodup_map m.nodup_keys he hf h

/-- There is no lower bound if all keys are smaller. -/
lemma lowerBound_eq_none_iff : m.lowerBound k = none ↔ ∀ f ∈ m.entries, f.1 < k := by
  simp [lowerBound]

/-- The search finds the entry with the least key that is not below the bound. -/
lemma lowerBound_eq_some_iff : m.lowerBound k = some e ↔
    e ∈ m.entries ∧ k ≤ e.1 ∧ ∀ f ∈ m.entries, k ≤ f.1 → e.1 ≤ f.1 := by
  have hleast : ∀ e, m.lowerBound k = some e →
      e ∈ m.entries ∧ k ≤ e.1 ∧ ∀ f ∈ m.entries, k ≤ f.1 → e.1 ≤ f.1 := fun e h => by
    obtain ⟨hkey, before, after, hentries, hbefore⟩ := List.find?_eq_some_iff_append.mp h
    refine ⟨by simp [hentries], by simpa using hkey, fun f hf hkf => ?_⟩
    have hsorted := m.sorted
    rw [hentries] at hf hsorted
    rcases List.mem_append.mp hf with hf | hf
    · exact absurd hkf (by simpa using hbefore f hf)
    · rcases List.mem_cons.mp hf with rfl | hf
      · exact le_rfl
      · exact ((List.pairwise_cons.mp (List.pairwise_append.mp hsorted).2.1).1 f hf).le
  refine ⟨hleast e, ?_⟩
  rintro ⟨he, hkey, hmin⟩
  cases h : m.lowerBound k with
  | none => exact absurd hkey (lowerBound_eq_none_iff.mp h e he).not_ge
  | some f =>
    obtain ⟨hf, hkf, hminf⟩ := hleast f h
    rw [eq_of_mem hf he (le_antisymm (hminf e he hkey) (hmin f hf hkf))]

/-- Only the empty map has no first entry. -/
lemma begin_eq_none_iff : m.begin = none ↔ m.entries = [] := List.head?_eq_none_iff

/-- The first entry is the one with the least key. -/
lemma begin_eq_some_iff : m.begin = some e ↔ e ∈ m.entries ∧ ∀ f ∈ m.entries, e.1 ≤ f.1 := by
  have hleast : ∀ e, m.begin = some e → e ∈ m.entries ∧ ∀ f ∈ m.entries, e.1 ≤ f.1 :=
    fun e h => by
      obtain ⟨after, hentries⟩ := List.head?_eq_some_iff.mp h
      have hsorted := m.sorted
      rw [hentries] at hsorted ⊢
      refine ⟨List.mem_cons_self, fun f hf => ?_⟩
      rcases List.mem_cons.mp hf with rfl | hf
      · exact le_rfl
      · exact ((List.pairwise_cons.mp hsorted).1 f hf).le
  refine ⟨hleast e, ?_⟩
  rintro ⟨he, hmin⟩
  cases h : m.begin with
  | none => simp [begin_eq_none_iff.mp h] at he
  | some f =>
    obtain ⟨hf, hminf⟩ := hleast f h
    rw [eq_of_mem hf he (le_antisymm (hminf e he) (hmin f hf))]

/-! ## Sizes -/

/-- In an empty map no lookup finds anything. -/
lemma empty_eq_true_iff : m.empty = true ↔ ∀ k, m.get? k = none := by
  rw [empty, List.isEmpty_iff, List.eq_nil_iff_forall_not_mem]
  constructor
  · intro h k
    by_contra hne
    obtain ⟨v, hv⟩ := Option.ne_none_iff_exists'.mp hne
    exact h _ (get?_eq_some_iff.mp hv)
  · rintro h ⟨k, v⟩ hmem
    exact absurd (get?_eq_some_iff.mpr hmem) (by simp [h k])

/-- The size of a map is the number of its keys. -/
theorem size_eq_ncard : m.size = {k | (m.get? k).isSome}.ncard := by
  have hkeys : {k | (m.get? k).isSome} = (m.entries.map Prod.fst).toFinset := by
    ext k
    simp [← mem_keys_iff]
  rw [hkeys, Set.ncard_coe_finset, List.toFinset_card_of_nodup m.nodup_keys, List.length_map, size]

end OrderedMap
