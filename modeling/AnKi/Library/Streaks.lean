import Mathlib.Data.List.DropRight

/-!
# Streaks

The streak of a predicate is the number of observations at the end of a list
that satisfy it without a break. A counter that is reset by every other
observation computes it, and it tells whether the last few are all of the kind.
-/

namespace Streaks
set_option autoImplicit false

universe u
variable {A : Type u} (p : A → Bool)

def streak (l : List A) : Nat := (l.rtakeWhile p).length

/-- The last `n` observations exist and satisfy the predicate. -/
def LastAll (n : Nat) (l : List A) : Prop := n ≤ l.length ∧ ∀ x ∈ l.rtake n, p x = true

@[simp] theorem streak_nil : streak p [] = 0 := by simp [streak]

theorem streak_concat (l : List A) (x : A) :
    streak p (l ++ [x]) = if p x then streak p l + 1 else 0 := by
  unfold streak
  rw [List.rtakeWhile_concat]
  split
  · simp
  · rfl

theorem streak_le_length (l : List A) : streak p l ≤ l.length :=
  (List.rtakeWhile_suffix p l).length_le

theorem streak_append {l' : List A} (h : ∀ x ∈ l', p x = true) (l : List A) :
    streak p (l ++ l') = streak p l + l'.length := by
  induction l' using List.reverseRecOn with
  | nil => simp
  | append_singleton l' x ih =>
    have hx : p x = true := h x (by simp)
    have hl' : ∀ y ∈ l', p y = true := fun y hy => h y (List.mem_append_left _ hy)
    rw [← List.append_assoc, streak_concat, if_pos hx, ih hl', List.length_append,
      List.length_singleton, Nat.add_assoc]

theorem le_length_takeWhile_iff (n : Nat) (l : List A) :
    n ≤ (l.takeWhile p).length ↔ n ≤ l.length ∧ ∀ x ∈ l.take n, p x = true := by
  induction l generalizing n with
  | nil => simp
  | cons y l ih =>
    cases n with
    | zero => simp
    | succ n =>
      by_cases hy : p y = true
      · simp [hy, ih]
      · simp [hy]

theorem lastAll_iff (n : Nat) (l : List A) : LastAll p n l ↔ n ≤ streak p l := by
  unfold LastAll streak
  rw [List.rtakeWhile, List.rtake_eq_reverse_take_reverse, List.length_reverse,
    le_length_takeWhile_iff]
  simp

instance (n : Nat) (l : List A) : Decidable (LastAll p n l) :=
  decidable_of_iff _ (lastAll_iff p n l).symm

/-! ## Since the last one of a kind -/

/-- The last observation that satisfies the predicate, and those after it. -/
def sinceLast : List A → Option (A × List A)
  | [] => none
  | x :: l =>
    match sinceLast l with
    | some found => some found
    | none => if p x then some (x, l) else none

@[simp] theorem sinceLast_nil : sinceLast p [] = none := rfl

theorem sinceLast_concat (l : List A) (x : A) : sinceLast p (l ++ [x]) =
    if p x then some (x, []) else (sinceLast p l).map fun found => (found.1, found.2 ++ [x]) := by
  induction l with
  | nil => simp [sinceLast]
  | cons y l ih =>
    rw [List.cons_append, sinceLast, ih]
    by_cases hx : p x = true
    · simp [hx]
    · cases hl : sinceLast p l with
      | none => by_cases hy : p y = true <;> simp [sinceLast, hx, hl, hy]
      | some found => simp [sinceLast, hx, hl]

end Streaks
