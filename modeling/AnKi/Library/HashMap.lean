import Mathlib.Algebra.BigOperators.Group.Finset.Basic
import Mathlib.Data.Finmap

/-!
# Hash maps

A finite map with extensional equality, and the operations programs use on one.
The order in which a hash map lists its entries is not determined by its
contents, so every operation that iterates takes the order as an argument, and
`IterationOrder` says which lists of keys are possible.
-/

set_option autoImplicit false

def HashMap (K V : Type) := Finmap (fun _ : K => V)

namespace HashMap

variable {K V : Type}

instance : EmptyCollection (HashMap K V) := inferInstanceAs (EmptyCollection (Finmap _))

variable [DecidableEq K]

instance [DecidableEq V] : DecidableEq (HashMap K V) := inferInstanceAs (DecidableEq (Finmap _))

def get (m : HashMap K V) (k : K) : Option V := Finmap.lookup k m

def insert (m : HashMap K V) (k : K) (v : V) : HashMap K V := Finmap.insert k v m

def remove (m : HashMap K V) (k : K) : HashMap K V := Finmap.erase k m

def modify (m : HashMap K V) (k : K) (f : V → V) : HashMap K V :=
  match m.get k with
  | some v => m.insert k (f v)
  | none => m

def union (m n : HashMap K V) : HashMap K V := Finmap.union m n

omit [DecidableEq K] in
def keys (m : HashMap K V) : Finset K := Finmap.keys m

theorem ext {m n : HashMap K V} (h : ∀ k, m.get k = n.get k) : m = n := Finmap.ext_lookup h

@[simp] theorem get_empty (k : K) : (∅ : HashMap K V).get k = none := Finmap.lookup_empty k

theorem get_insert (m : HashMap K V) (k i : K) (v : V) :
    (m.insert k v).get i = if i = k then some v else m.get i := by
  split
  · rename_i h
    subst h
    exact Finmap.lookup_insert m
  · rename_i h
    exact Finmap.lookup_insert_of_ne m h

@[simp] theorem get_insert_self (m : HashMap K V) (k : K) (v : V) :
    (m.insert k v).get k = some v := by
  simp [get_insert]

theorem get_remove (m : HashMap K V) (k i : K) :
    (m.remove k).get i = if i = k then none else m.get i := by
  split
  · rename_i h
    subst h
    exact Finmap.lookup_erase i m
  · rename_i h
    exact Finmap.lookup_erase_ne h

@[simp] theorem get_remove_self (m : HashMap K V) (k : K) : (m.remove k).get k = none := by
  simp [get_remove]

theorem get_modify (m : HashMap K V) (k i : K) (f : V → V) :
    (m.modify k f).get i = if i = k then (m.get i).map f else m.get i := by
  by_cases hi : i = k
  · subst hi
    cases h : m.get i with
    | none => simp [modify, h]
    | some v => simp [modify, h]
  · cases h : m.get k with
    | none => simp [modify, h, hi]
    | some v => simp [modify, h, hi, get_insert]

theorem get_union (m n : HashMap K V) (k : K) :
    (m.union n).get k = (m.get k).or (n.get k) := by
  cases h : m.get k with
  | none =>
    have hk : k ∉ (show Finmap (fun _ : K => V) from m) := Finmap.lookup_eq_none.mp h
    exact Finmap.lookup_union_right hk
  | some v =>
    have hk : k ∈ (show Finmap (fun _ : K => V) from m) := Finmap.mem_of_lookup_eq_some h
    exact (Finmap.lookup_union_left hk).trans h

theorem mem_keys (m : HashMap K V) (k : K) : k ∈ m.keys ↔ (m.get k).isSome :=
  Finmap.mem_keys.trans Finmap.lookup_isSome.symm

theorem remove_of_get_none {m : HashMap K V} {k : K} (h : m.get k = none) : m.remove k = m := by
  apply ext
  intro i
  rw [get_remove]
  split
  · rename_i hi
    rw [hi, h]
  · rfl

theorem union_eq_left_iff (m n : HashMap K V) :
    m.union n = m ↔ ∀ k, (n.get k).isSome → (m.get k).isSome := by
  constructor
  · intro h k hk
    rw [← h, get_union]
    simp [hk]
  · intro h
    apply ext
    intro k
    rw [get_union]
    cases hm : m.get k with
    | some v => rfl
    | none =>
      cases hn : n.get k with
      | none => rfl
      | some v =>
        have hsome := h k (by simp [hn])
        simp [hm] at hsome

/-! ## Values that carry their key -/

/-- Every value is stored under its own key. -/
def KeyedBy (key : V → K) (m : HashMap K V) : Prop := ∀ k v, m.get k = some v → key v = k

theorem keyedBy_empty (key : V → K) : KeyedBy key (∅ : HashMap K V) := by
  intro k v hv
  simp at hv

theorem KeyedBy.insert {key : V → K} {m : HashMap K V} (h : m.KeyedBy key) (v : V) :
    (m.insert (key v) v).KeyedBy key := by
  intro k w hw
  rw [get_insert] at hw
  split at hw
  · rename_i hk
    rw [← Option.some.inj hw, hk]
  · exact h k w hw

theorem KeyedBy.remove {key : V → K} {m : HashMap K V} (h : m.KeyedBy key) (k : K) :
    (m.remove k).KeyedBy key := by
  intro i v hv
  rw [get_remove] at hv
  split at hv
  · simp at hv
  · exact h i v hv

/-! ## Totals -/

def total (f : V → Nat) (m : HashMap K V) : Nat := m.keys.sum fun k => (m.get k).elim 0 f

theorem keys_insert_of_isSome {m : HashMap K V} {k : K} (h : (m.get k).isSome) (v : V) :
    (m.insert k v).keys = m.keys := by
  ext i
  rw [mem_keys, mem_keys, get_insert]
  split
  · rename_i hi
    simp [hi, h]
  · rfl

theorem keys_eq_empty_iff (m : HashMap K V) : m.keys = ∅ ↔ m = ∅ := by
  constructor
  · intro h
    apply ext
    intro k
    rw [get_empty, ← Option.not_isSome_iff_eq_none, ← mem_keys, h]
    exact Finset.notMem_empty k
  · intro h
    rw [h]
    exact Finmap.keys_empty

theorem total_insert (f : V → Nat) {m : HashMap K V} {k : K} {v : V} (h : m.get k = some v)
    (w : V) : (m.insert k w).total f + f v = m.total f + f w := by
  have hsome : (m.get k).isSome := by simp [h]
  have hmem : k ∈ m.keys := (mem_keys m k).mpr hsome
  unfold total
  rw [keys_insert_of_isSome hsome, ← Finset.add_sum_erase _ _ hmem,
    ← Finset.add_sum_erase m.keys (fun i => (m.get i).elim 0 f) hmem]
  have hrest : (m.keys.erase k).sum (fun i => ((m.insert k w).get i).elim 0 f) =
      (m.keys.erase k).sum fun i => (m.get i).elim 0 f := by
    apply Finset.sum_congr rfl
    intro i hi
    simp [get_insert, Finset.ne_of_mem_erase hi]
  simp only [hrest, get_insert_self, h, Option.elim_some]
  omega

/-! ## Values -/

def values (m : HashMap K V) : Multiset V := m.keys.val.filterMap m.get

theorem mem_values (m : HashMap K V) (v : V) : v ∈ m.values ↔ ∃ k, m.get k = some v := by
  simp only [values, Multiset.mem_filterMap, Finset.mem_val, mem_keys]
  constructor
  · intro hmem
    rcases hmem with ⟨k, _, hk⟩
    exact ⟨k, hk⟩
  · intro hget
    rcases hget with ⟨k, hk⟩
    exact ⟨k, by simp [hk], hk⟩

/-- One value takes the place of another. -/
theorem values_insert {m : HashMap K V} {k : K} {v : V} (h : m.get k = some v) (w : V) :
    v ::ₘ (m.insert k w).values = w ::ₘ m.values := by
  have hsome : (m.get k).isSome := by simp [h]
  have hkeys : m.keys.val = k ::ₘ (m.keys.erase k).val := by
    rw [Finset.erase_val]
    exact (Multiset.cons_erase ((mem_keys m k).mpr hsome)).symm
  have hrest : (m.keys.erase k).val.filterMap (m.insert k w).get =
      (m.keys.erase k).val.filterMap m.get := by
    rw [← Finset.coe_toList, Multiset.filterMap_coe, Multiset.filterMap_coe,
      List.filterMap_congr]
    intro i hi
    simp [get_insert, Finset.ne_of_mem_erase (Finset.mem_toList.mp hi)]
  rw [values, values, keys_insert_of_isSome hsome, hkeys,
    Multiset.filterMap_cons_some _ _ _ (get_insert_self m k w),
    Multiset.filterMap_cons_some _ _ _ h, hrest, Multiset.cons_swap]

/-! ## Iteration -/

/-- The lists of keys a hash map may iterate in: every key once. -/
def IterationOrder (order : List K) (m : HashMap K V) : Prop :=
  order.Nodup ∧ ∀ k, k ∈ order ↔ (m.get k).isSome

def entriesIn (m : HashMap K V) (order : List K) : List (K × V) :=
  order.filterMap fun k => (m.get k).map (Prod.mk k)

def valuesIn (m : HashMap K V) (order : List K) : List V := order.filterMap m.get

def ofEntries (entries : List (K × V)) : HashMap K V :=
  entries.foldl (fun m e => m.insert e.1 e.2) ∅

instance (order : List K) (m : HashMap K V) : Decidable (IterationOrder order m) :=
  decidable_of_iff (order.Nodup ∧ order.toFinset = m.keys) (by
    unfold IterationOrder
    simp [Finset.ext_iff, mem_keys])

theorem exists_iterationOrder (m : HashMap K V) : ∃ order, IterationOrder order m := by
  refine ⟨m.keys.toList, m.keys.nodup_toList, ?_⟩
  intro k
  rw [Finset.mem_toList, mem_keys]

variable {m : HashMap K V} {order : List K} (h : IterationOrder order m)
include h

theorem mem_entriesIn (k : K) (v : V) : (k, v) ∈ m.entriesIn order ↔ m.get k = some v := by
  simp only [entriesIn, List.mem_filterMap, Option.map_eq_some_iff, Prod.mk.injEq]
  constructor
  · intro hmem
    rcases hmem with ⟨i, _, w, hw, rfl, rfl⟩
    exact hw
  · intro hv
    exact ⟨k, (h.2 k).mpr (by simp [hv]), v, hv, rfl, rfl⟩

theorem mem_valuesIn (v : V) : v ∈ m.valuesIn order ↔ ∃ k, m.get k = some v := by
  simp only [valuesIn, List.mem_filterMap]
  constructor
  · intro hmem
    rcases hmem with ⟨k, _, hk⟩
    exact ⟨k, hk⟩
  · intro hget
    rcases hget with ⟨k, hk⟩
    exact ⟨k, (h.2 k).mpr (by simp [hk]), hk⟩

omit h in
/-- Entries of `m` that are written over `start`, whatever they are listed as. -/
theorem get_foldl_insert {A : Type} {key : A → K} {value : A → V} {as : List A}
    (hm : ∀ a ∈ as, m.get (key a) = some (value a)) (start : HashMap K V) (i : K) :
    (as.foldl (fun acc a => acc.insert (key a) (value a)) start).get i =
      if i ∈ as.map key then m.get i else start.get i := by
  induction as generalizing start with
  | nil => simp
  | cons a as ih =>
    have ha := hm a List.mem_cons_self
    rw [List.foldl_cons, ih (fun b hb => hm b (List.mem_cons_of_mem a hb)), get_insert]
    by_cases hi : i = key a
    · simp [hi, ha]
    · simp only [hi, List.map_cons, List.mem_cons, if_false, false_or]

theorem ofEntries_entriesIn : ofEntries (m.entriesIn order) = m := by
  apply ext
  intro i
  have hentries : ∀ e ∈ m.entriesIn order, m.get e.1 = some e.2 :=
    fun e he => (mem_entriesIn h e.1 e.2).mp he
  rw [ofEntries, get_foldl_insert hentries]
  split
  · rfl
  · rename_i hi
    cases hv : m.get i with
    | none => simp
    | some v =>
      have hmem := (mem_entriesIn h i v).mpr hv
      exact absurd (List.mem_map_of_mem hmem) hi

theorem map_valuesIn {key : V → K} (hkeyed : m.KeyedBy key) :
    (m.valuesIn order).map key = order := by
  have hall : ∀ l : List K, (∀ k ∈ l, (m.get k).isSome) → (l.filterMap m.get).map key = l := by
    intro l
    induction l with
    | nil => exact fun _ => rfl
    | cons k l ih =>
      intro hsome
      obtain ⟨v, hv⟩ := Option.isSome_iff_exists.mp (hsome k List.mem_cons_self)
      rw [List.filterMap_cons_some hv, List.map_cons, hkeyed k v hv,
        ih fun i hi => hsome i (List.mem_cons_of_mem k hi)]
  exact hall order fun k hk => (h.2 k).mp hk

omit h in
/-- How one hash map iterates, whatever is in it. -/
structure Listing (K V : Type) [DecidableEq K] where
  order : HashMap K V → List K
  covers : ∀ m, IterationOrder (order m) m

omit h in
theorem Listing.order_empty (listing : Listing K V) : listing.order ∅ = [] := by
  rw [List.eq_nil_iff_forall_not_mem]
  intro k
  rw [(listing.covers ∅).2 k]
  simp

omit h in
theorem Listing.order_single (listing : Listing K V) (k : K) (v : V) :
    listing.order ((∅ : HashMap K V).insert k v) = [k] := by
  have hcovers := listing.covers ((∅ : HashMap K V).insert k v)
  have hmem : ∀ i, i ∈ listing.order ((∅ : HashMap K V).insert k v) ↔ i = k := by
    intro i
    rw [hcovers.2 i, get_insert]
    by_cases hi : i = k <;> simp [hi]
  exact (List.perm_ext_iff_of_nodup hcovers.1 (List.nodup_singleton k)).mpr
    (by simpa using hmem) |>.eq_singleton

end HashMap
