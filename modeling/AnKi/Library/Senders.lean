import Mathlib.Data.List.Perm.Basic
import Mathlib.Data.List.Count

/-!
# Messages that arrive in order from each sender

Two receivers get the same messages, and each sender's own ones in the order they
were sent; how the senders are mixed is up to the network. Only what does not
depend on the mixture is common to both.
-/

namespace Senders
set_option autoImplicit false

universe u v
variable {A : Type u} {K : Type v} [DecidableEq K] (sender : A → K)

def ofSender (k : K) (l : List A) : List A := l.filter fun a => sender a = k

/-- The same messages of every sender, in the same order. -/
def SameStreams (l m : List A) : Prop := ∀ k, ofSender sender k l = ofSender sender k m

/-- The messages of `k` arrive after all others. -/
def last (k : K) (l : List A) : List A :=
  (l.filter fun a => sender a ≠ k) ++ ofSender sender k l

variable {sender}

theorem SameStreams.mem_iff {l m : List A} (h : SameStreams sender l m) (a : A) :
    a ∈ l ↔ a ∈ m := by
  have hmem := congrArg (a ∈ ·) (h (sender a))
  simpa [ofSender] using hmem

theorem SameStreams.perm [DecidableEq A] {l m : List A} (h : SameStreams sender l m) :
    l.Perm m := by
  rw [List.perm_iff_count]
  intro a
  have hcount : ∀ l : List A, (ofSender sender (sender a) l).count a = l.count a :=
    fun l => List.count_filter (by simp)
  rw [← hcount l, ← hcount m, h (sender a)]

theorem SameStreams.filter {l m : List A} (h : SameStreams sender l m) (p : A → Bool) :
    SameStreams sender (l.filter p) (m.filter p) := by
  intro k
  have hk := congrArg (List.filter p) (h k)
  simpa only [ofSender, List.filter_filter, Bool.and_comm] using hk

theorem last_sameStreams (k : K) (l : List A) : SameStreams sender (last sender k l) l := by
  intro i
  by_cases hi : i = k
  · subst hi
    simp [last, ofSender, List.filter_filter]
  · have hothers : ofSender sender i (ofSender sender k l) = [] := by
      rw [ofSender, List.filter_eq_nil_iff]
      intro a ha
      have hk : sender a = k := by simpa [ofSender] using (List.mem_filter.mp ha).2
      have hne : k ≠ i := fun hki => hi hki.symm
      simp [hk, hne]
    rw [last, ofSender, List.filter_append]
    have hrest : ((l.filter fun a => sender a ≠ k).filter fun a => sender a = i) =
        ofSender sender i l := by
      rw [List.filter_filter, ofSender]
      apply List.filter_congr
      intro a _
      by_cases ha : sender a = i
      · simp [ha, hi]
      · simp [ha]
    rw [hrest]
    simpa [ofSender] using hothers

theorem last_filter (k : K) (l : List A) (p : A → Bool) :
    (last sender k l).filter p = last sender k (l.filter p) := by
  simp only [last, ofSender, List.filter_append, List.filter_filter, Bool.and_comm]

theorem getLast?_last {k : K} {l : List A} {a : A} (ha : a ∈ l) (hk : sender a = k) :
    (last sender k l).getLast?.map sender = some k := by
  have hmem : a ∈ ofSender sender k l := by simp [ofSender, ha, hk]
  have hne : ofSender sender k l ≠ [] := List.ne_nil_of_mem hmem
  have hlast := (List.mem_filter.mp (List.getLast_mem hne)).2
  rw [last, List.getLast?_append_of_ne_nil _ hne, List.getLast?_eq_getLast_of_ne_nil hne,
    Option.map_some, Option.some.injEq]
  exact of_decide_eq_true hlast

/-- The sender of the last message is the same for every mixture exactly when there is one
sender at most. -/
theorem last_sender_agree_iff (sent : List A) (p : A → Bool) :
    (∀ l m, SameStreams sender l sent → SameStreams sender m sent →
        (l.filter p).getLast?.map sender = (m.filter p).getLast?.map sender) ↔
      ∀ a ∈ sent.filter p, ∀ b ∈ sent.filter p, sender a = sender b := by
  constructor
  · intro h a ha b hb
    have hagree := h _ _ (last_sameStreams (sender a) sent) (last_sameStreams (sender b) sent)
    rw [last_filter, last_filter, getLast?_last ha rfl, getLast?_last hb rfl] at hagree
    exact Option.some.inj hagree
  · intro h l m hl hm
    have hmem : ∀ {x : List A}, SameStreams sender x sent → ∀ a ∈ x.filter p,
        a ∈ sent.filter p := fun hx a ha => ((hx.filter p).mem_iff a).mp ha
    cases hl' : (l.filter p).getLast? with
    | none =>
      have hnil : l.filter p = [] := List.getLast?_eq_none_iff.mp hl'
      have hnone : m.filter p = [] := by
        apply List.eq_nil_iff_forall_not_mem.mpr
        intro b hb
        have hin := ((hl.filter p).mem_iff b).mpr (hmem hm b hb)
        simp [hnil] at hin
      simp [hnone]
    | some a =>
      cases hm' : (m.filter p).getLast? with
      | none =>
        have hnil : m.filter p = [] := List.getLast?_eq_none_iff.mp hm'
        have hin := ((hm.filter p).mem_iff a).mpr (hmem hl a (List.mem_of_getLast? hl'))
        simp [hnil] at hin
      | some b =>
        have hab := h a (hmem hl a (List.mem_of_getLast? hl')) b
          (hmem hm b (List.mem_of_getLast? hm'))
        simp [hab]

end Senders
