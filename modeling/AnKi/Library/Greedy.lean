import AnKi.Library.Runs
import Mathlib.Algebra.Order.BigOperators.Group.Finset
import Mathlib.Data.Finset.Lattice.Fold
import Mathlib.Data.Multiset.Sort
import Mathlib.Order.Bounds.Basic
import Mathlib.Order.Lattice.Nat

/-!
# Giving to the least

Units are given out one by one, each to a place that has least at that moment.
Whichever of several least places is taken, the places that were given something
end level with the others up to one unit, which makes the highest load as low as
it can be, and the loads end as the same multiset.
-/

namespace Greedy
set_option autoImplicit false

universe u v

section Loads
variable {K : Type u} [DecidableEq K]

def give (load : K → Nat) (k : K) : K → Nat := Function.update load k (load k + 1)

structure Least (s : Finset K) (load : K → Nat) (k : K) : Prop where
  mem : k ∈ s
  le : ∀ i ∈ s, load k ≤ load i

theorem run_give (load : K → Nat) (ks : List K) (k : K) :
    Runs.run give load ks k = load k + ks.count k := by
  induction ks using List.reverseRecOn with
  | nil => rfl
  | append_singleton ks c ih =>
    rw [Runs.run_concat, List.count_append, List.count_singleton, give]
    by_cases hk : k = c
    · subst hk
      simp [ih, Nat.add_assoc]
    · have hne : ¬ (c == k) = true := by
        rw [beq_iff_eq]
        exact fun h => hk h.symm
      simp [hk, hne, ih]

variable {s : Finset K} {load : K → Nat} {ks : List K}

theorem sum_count (hks : ∀ k ∈ ks, k ∈ s) : s.sum (fun k => ks.count k) = ks.length := by
  have hcard := Multiset.sum_count_eq_card (s := s) (m := (ks : Multiset K)) hks
  simpa using hcard

theorem sum_run_give (hks : ∀ k ∈ ks, k ∈ s) :
    s.sum (Runs.run give load ks) = s.sum load + ks.length := by
  have hrun : Runs.run give load ks = fun k => load k + ks.count k := funext (run_give load ks)
  rw [hrun, Finset.sum_add_distrib, sum_count hks]

theorem mem_of_along (h : Runs.Along give (Least s) load ks) : ∀ k ∈ ks, k ∈ s := by
  induction ks generalizing load with
  | nil => simp
  | cons c ks ih =>
    intro k hk
    rcases List.mem_cons.mp hk with rfl | hk
    · exact h.1.mem
    · exact ih h.2 k hk

/-- A place that was given something stands at most one above every place. -/
theorem level (h : Runs.Along give (Least s) load ks) {k i : K} (hk : k ∈ ks) (hi : i ∈ s) :
    Runs.run give load ks k ≤ Runs.run give load ks i + 1 := by
  induction ks using List.reverseRecOn with
  | nil => simp at hk
  | append_singleton ks c ih =>
    obtain ⟨hks, hleast, _⟩ := (Runs.along_append load ks [c]).mp h
    rw [Runs.run_concat]
    have hgrows : Runs.run give load ks i ≤ give (Runs.run give load ks) c i := by
      unfold give
      by_cases hic : i = c
      · subst hic
        simp
      · simp [hic]
    by_cases hkc : k = c
    · -- the last unit went to a least place
      subst hkc
      have hle := hleast.le i hi
      simp only [give, Function.update_self] at hgrows ⊢
      omega
    · have hbefore : k ∈ ks := by
        rcases List.mem_append.mp hk with hk | hk
        · exact hk
        · exact absurd (List.mem_singleton.mp hk) hkc
      have hle := ih hks hbefore
      have hsame : give (Runs.run give load ks) c k = Runs.run give load ks k := by
        simp [give, hkc]
      omega

/-- Whatever else is done with as many units, some place ends as high as any place here. -/
theorem exists_as_high (h : Runs.Along give (Least s) load ks) {extra : K → Nat}
    (hextra : s.sum extra = ks.length) {k : K} (hk : k ∈ s) :
    ∃ i ∈ s, Runs.run give load ks k ≤ load i + extra i := by
  by_contra hnone
  have hlow : ∀ i ∈ s, load i + extra i < Runs.run give load ks k := by
    intro i hi
    by_contra hhigh
    exact hnone ⟨i, hi, Nat.le_of_not_lt hhigh⟩
  have hgiven : k ∈ ks := by
    by_contra hkept
    have hsame := run_give load ks k
    rw [List.count_eq_zero_of_not_mem hkept] at hsame
    have hkLow := hlow k hk
    omega
  -- then all places are as high as in the other way, and `k` is higher
  have hle : ∀ i ∈ s, load i + extra i ≤ Runs.run give load ks i := by
    intro i hi
    have hlevel := level h hgiven hi
    have hiLow := hlow i hi
    omega
  have hsum := Finset.sum_lt_sum hle ⟨k, hk, hlow k hk⟩
  rw [Finset.sum_add_distrib, hextra, sum_run_give (mem_of_along h)] at hsum
  exact Nat.lt_irrefl _ hsum

/-- The highest load is the least possible over all ways to give out as many units. -/
theorem peak_isLeast (h : Runs.Along give (Least s) load ks) :
    IsLeast {peak | ∃ extra : K → Nat, s.sum extra = ks.length ∧
      peak = s.sup fun k => load k + extra k} (s.sup (Runs.run give load ks)) := by
  constructor
  · refine ⟨fun k => ks.count k, sum_count (mem_of_along h), ?_⟩
    exact Finset.sup_congr rfl fun k _ => run_give load ks k
  · intro peak hpeak
    obtain ⟨extra, hextra, rfl⟩ := hpeak
    apply Finset.sup_le
    intro k hk
    obtain ⟨i, hi, hle⟩ := exists_as_high h hextra hk
    exact hle.trans (Finset.le_sup (f := fun k => load k + extra k) hi)

end Loads

section Values
variable {V : Type v} [LinearOrder V] (g : V → V)

/-- One of the least values is replaced by its image. -/
def raiseLeast (values : Multiset V) : Multiset V :=
  match values.sort with
  | [] => 0
  | least :: rest => g least ::ₘ (rest : Multiset V)

@[simp] theorem raiseLeast_zero : raiseLeast g 0 = 0 := by
  simp [raiseLeast]

theorem raiseLeast_cons {least : V} {rest : Multiset V} (h : ∀ w ∈ rest, least ≤ w) :
    raiseLeast g (least ::ₘ rest) = g least ::ₘ rest := by
  rw [raiseLeast, Multiset.sort_cons (r := (· ≤ ·)) least rest h]
  simp

/-- However a least value is replaced, the result is the same. -/
theorem eq_raiseLeast {values values' : Multiset V} {least : V} (hmem : least ∈ values)
    (hle : ∀ w ∈ values, least ≤ w) (h : least ::ₘ values' = g least ::ₘ values) :
    values' = raiseLeast g values := by
  obtain ⟨rest, rfl⟩ := Multiset.exists_cons_of_mem hmem
  rw [raiseLeast_cons g fun w hw => hle w (Multiset.mem_cons_of_mem hw)]
  rw [Multiset.cons_swap] at h
  exact (Multiset.cons_inj_right least).mp h

end Values

end Greedy
