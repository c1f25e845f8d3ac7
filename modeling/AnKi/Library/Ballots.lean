import Mathlib.Algebra.BigOperators.Group.Finset.Basic
import Mathlib.Algebra.Order.BigOperators.Group.Finset
import Mathlib.Data.Fintype.Card

/-!
# Counting ballots

A voter has at most one ballot, so the supporters of two choices are different
voters and at most one choice has more than half of them. Where a voter may be
counted several times, the multiplicity bounds how far a count can be off.
-/

namespace Ballots
set_option autoImplicit false

variable {Voter Choice : Type} [DecidableEq Choice]

section Supporters
variable [Fintype Voter]

def supporters (ballot : Voter → Option Choice) (p : Choice) : Finset Voter :=
  Finset.univ.filter fun v => ballot v = some p

@[simp] theorem mem_supporters (ballot : Voter → Option Choice) (p : Choice) (v : Voter) :
    v ∈ supporters ballot p ↔ ballot v = some p := by
  simp [supporters]

theorem supporters_disjoint (ballot : Voter → Option Choice) {p q : Choice} (hpq : p ≠ q) :
    Disjoint (supporters ballot p) (supporters ballot q) := by
  apply Finset.disjoint_left.mpr
  intro v hp hq
  rw [mem_supporters] at hp hq
  rw [hp] at hq
  exact hpq (Option.some.inj hq)

theorem supporters_subset {ballot later : Voter → Option Choice}
    (h : ∀ v p, ballot v = some p → later v = some p) (p : Choice) :
    supporters ballot p ⊆ supporters later p := by
  intro v hv
  rw [mem_supporters] at hv ⊢
  exact h v p hv

/-- Two choices with more than half of the voters each are the same choice. -/
theorem eq_of_majority (ballot : Voter → Option Choice) {p q : Choice} {t : Nat}
    (ht : Fintype.card Voter < 2 * t) (hp : t ≤ (supporters ballot p).card)
    (hq : t ≤ (supporters ballot q).card) : p = q := by
  classical
  by_contra hpq
  have hunion : (supporters ballot p ∪ supporters ballot q).card ≤ Fintype.card Voter :=
    Finset.card_le_univ _
  rw [Finset.card_union_of_disjoint (supporters_disjoint ballot hpq)] at hunion
  omega

end Supporters

/-- No ballot counts for two choices. -/
theorem count_add_count_le {p q : Choice} (hpq : p ≠ q) (ballots : List Choice) :
    ballots.count p + ballots.count q ≤ ballots.length := by
  induction ballots with
  | nil => simp
  | cons choice ballots ih =>
    rw [List.count_cons, List.count_cons, List.length_cons]
    by_cases hp : choice = p
    · have hq : choice ≠ q := fun h => hpq (hp.symm.trans h)
      simp only [hp, beq_self_eq_true, if_true, beq_iff_eq, hpq, if_false]
      omega
    · simp only [beq_iff_eq, hp, if_false]
      split <;> omega

theorem length_le_mul_card [DecidableEq Voter] {votes : List Voter} {k : Nat}
    (h : ∀ v, votes.count v ≤ k) : votes.length ≤ k * votes.toFinset.card := by
  calc votes.length = ∑ v ∈ votes.toFinset, votes.count v :=
        (List.sum_toFinset_count_eq_length votes).symm
    _ ≤ votes.toFinset.card • k := Finset.sum_le_card_nsmul _ _ _ fun v _ => h v
    _ = k * votes.toFinset.card := by simp [Nat.mul_comm]

end Ballots
