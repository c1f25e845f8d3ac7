import Mathlib.Data.List.Infix

/-!
# Runs of an event-driven component

`step` handles one event. A run folds it over the events received, oldest first.
`Along` speaks about every step of a run, `Always` about every state of it. The
two are tied by the invariant rule and by the rule for exact conditions, where a
step keeps the property exactly when the condition holds of it.
-/

namespace Runs
set_option autoImplicit false

universe u v
variable {S : Type u} {E : Type v} (step : S → E → S)

def run (s : S) (es : List E) : S := es.foldl step s

/-- Every step of the run starts in a state and handles an event related by `G`. -/
def Along (G : S → E → Prop) : S → List E → Prop
  | _, [] => True
  | s, e :: es => G s e ∧ Along G (step s e) es

/-- `P` holds in every state of the run, the first and the last included. -/
def Always (P : S → Prop) (s : S) (es : List E) : Prop :=
  ∀ past, past <+: es → P (run step s past)

@[simp] theorem run_nil (s : S) : run step s [] = s := rfl

@[simp] theorem run_cons (s : S) (e : E) (es : List E) :
    run step s (e :: es) = run step (step s e) es := rfl

theorem run_append (s : S) (es fs : List E) :
    run step s (es ++ fs) = run step (run step s es) fs := List.foldl_append

theorem run_concat (s : S) (es : List E) (e : E) :
    run step s (es ++ [e]) = step (run step s es) e := by
  simp [run_append]

variable {step}
variable {G H : S → E → Prop} {I P : S → Prop}

@[simp] theorem along_nil (s : S) : Along step G s [] := trivial

@[simp] theorem along_cons (s : S) (e : E) (es : List E) :
    Along step G s (e :: es) ↔ G s e ∧ Along step G (step s e) es := Iff.rfl

theorem along_append (s : S) (es fs : List E) :
    Along step G s (es ++ fs) ↔ Along step G s es ∧ Along step G (run step s es) fs := by
  induction es generalizing s with
  | nil => simp
  | cons e es ih => simp [ih, and_assoc]

theorem along_of_forall (h : ∀ s e, G s e) (s : S) (es : List E) : Along step G s es := by
  induction es generalizing s with
  | nil => trivial
  | cons e es ih => exact ⟨h s e, ih (step s e)⟩

theorem Along.mono (hGH : ∀ s e, G s e → H s e) {s : S} {es : List E}
    (h : Along step G s es) : Along step H s es := by
  induction es generalizing s with
  | nil => trivial
  | cons e es ih => exact ⟨hGH s e h.1, ih h.2⟩

theorem Along.and {s : S} {es : List E} (hG : Along step G s es) (hH : Along step H s es) :
    Along step (fun s e => G s e ∧ H s e) s es := by
  induction es generalizing s with
  | nil => trivial
  | cons e es ih => exact ⟨⟨hG.1, hH.1⟩, ih hG.2 hH.2⟩

theorem along_mem (s : S) (es : List E) : Along step (fun _ e => e ∈ es) s es := by
  induction es generalizing s with
  | nil => trivial
  | cons e es ih =>
    refine ⟨List.mem_cons_self, (ih (step s e)).mono ?_⟩
    intro _ f hf
    exact List.mem_cons_of_mem e hf

theorem along_congr {Q : S → E → Prop} (hQH : ∀ s e, G s e → (Q s e ↔ H s e)) {s : S} {es : List E}
    (h : Along step G s es) : Along step Q s es ↔ Along step H s es := by
  induction es generalizing s with
  | nil => exact Iff.rfl
  | cons e es ih => exact and_congr (hQH s e h.1) (ih h.2)

/-- A run is along `G` when each of its steps is. -/
theorem along_iff_forall {s : S} {es : List E} : Along step G s es ↔
    ∀ past e rest, es = past ++ e :: rest → G (run step s past) e := by
  constructor
  · rintro h past e rest rfl
    exact ((along_append s past (e :: rest)).mp h).2.1
  · intro h
    induction es generalizing s with
    | nil => trivial
    | cons e es ih =>
      refine ⟨h [] e es rfl, ih ?_⟩
      rintro past f rest rfl
      exact h (e :: past) f rest rfl

theorem Along.take {s : S} {past es : List E} (hpast : past <+: es)
    (h : Along step G s es) : Along step G s past := by
  obtain ⟨rest, rfl⟩ := hpast
  exact ((along_append s past rest).mp h).1

theorem Along.invariant (hstep : ∀ s e, I s → G s e → I (step s e)) {s : S} {es : List E}
    (hs : I s) (h : Along step G s es) : I (run step s es) := by
  induction es generalizing s with
  | nil => exact hs
  | cons e es ih => exact ih (hstep s e hs h.1) h.2

theorem Along.always (hstep : ∀ s e, I s → G s e → I (step s e)) {s : S} {es : List E}
    (hs : I s) (h : Along step G s es) : Always step I s es :=
  fun _ hpast => (h.take hpast).invariant hstep hs

theorem invariant (hstep : ∀ s e, I s → I (step s e)) {s : S} (hs : I s) (es : List E) :
    I (run step s es) :=
  Along.invariant (G := fun _ _ => True) (fun s e hI _ => hstep s e hI) hs
    (along_of_forall (fun _ _ => trivial) s es)

theorem along_of_invariant (hstep : ∀ s e, I s → I (step s e)) {s : S} (hs : I s) (es : List E) :
    Along step (fun s _ => I s) s es := by
  induction es generalizing s with
  | nil => trivial
  | cons e es ih => exact ⟨hs, ih (hstep s e hs)⟩

theorem always_of_invariant (hstep : ∀ s e, I s → I (step s e)) {s : S} (hs : I s) (es : List E) :
    Always step I s es :=
  fun past _ => invariant hstep hs past

theorem simulation {A : Type*} {other : A → E → A} {R : S → A → Prop}
    (hstep : ∀ s a e, R s a → R (step s e) (other a e)) {s : S} {a : A} (h : R s a)
    (es : List E) : R (run step s es) (run other a es) := by
  induction es generalizing s a with
  | nil => exact h
  | cons e es ih => exact ih (hstep s a e h)

theorem Always.head {s : S} {es : List E} (h : Always step P s es) : P s := h [] (by simp)

theorem always_cons (s : S) (e : E) (es : List E) :
    Always step P s (e :: es) ↔ P s ∧ Always step P (step s e) es := by
  constructor
  · intro h
    refine ⟨h.head, ?_⟩
    intro past hpast
    exact h (e :: past) (by simpa using hpast)
  · intro h past hpast
    rcases h with ⟨hs, h⟩
    cases past with
    | nil => exact hs
    | cons f past =>
      obtain ⟨rfl, htail⟩ := List.cons_prefix_cons.mp hpast
      exact h past htail

section Exact
variable {Q : S → E → Prop}

/-- The rule for exact conditions: on the steps allowed by `G`, the property `P` of states and
the property `Q` of steps survive a step exactly when the condition `H` holds of that step. -/
theorem along_and_always_iff
    (hexact : ∀ s e, P s → G s e → (Q s e ∧ P (step s e) ↔ H s e)) {s : S} {es : List E} (hs : P s)
    (hG : Along step G s es) :
    Along step Q s es ∧ Always step P s es ↔ Along step H s es := by
  induction es generalizing s with
  | nil =>
    refine ⟨fun _ => trivial, ?_⟩
    intro _
    refine ⟨trivial, ?_⟩
    intro past hpast
    rw [List.prefix_nil.mp hpast]
    exact hs
  | cons e es ih =>
    have hiff := hexact s e hs hG.1
    rw [always_cons, along_cons, along_cons]
    constructor
    · intro hall
      rcases hall with ⟨⟨hQ, hQs⟩, _, htail⟩
      have hnext := htail.head
      exact ⟨hiff.mp ⟨hQ, hnext⟩, (ih hnext hG.2).mp ⟨hQs, htail⟩⟩
    · intro hall
      rcases hall with ⟨hH, hrest⟩
      have hnext := hiff.mpr hH
      have htail := (ih hnext.2 hG.2).mpr hrest
      exact ⟨⟨hnext.1, htail.1⟩, hs, htail.2⟩

theorem always_iff_along (hexact : ∀ s e, P s → G s e → (P (step s e) ↔ H s e))
    {s : S} {es : List E} (hs : P s) (hG : Along step G s es) :
    Always step P s es ↔ Along step H s es := by
  have hboth := along_and_always_iff (Q := fun _ _ => True)
    (fun s e hP hGe => (and_iff_right trivial).trans (hexact s e hP hGe)) hs hG
  rw [← hboth]
  exact (and_iff_right (along_of_forall (fun _ _ => trivial) s es)).symm

theorem always_iff_along_of_step (hexact : ∀ s e, P s → (P (step s e) ↔ H s e)) {s : S}
    (hs : P s) (es : List E) : Always step P s es ↔ Along step H s es :=
  always_iff_along (G := fun _ _ => True) (fun s e hP _ => hexact s e hP) hs
    (along_of_forall (fun _ _ => trivial) s es)

end Exact

/-! ## What a run puts out -/

section Outputs
variable {O : Type*} (step) (out : S → E → List O)

/-- What the steps of a run put out, oldest first. -/
def outputs : S → List E → List O
  | _, [] => []
  | s, e :: es => out s e ++ outputs (step s e) es

@[simp] theorem outputs_nil (s : S) : outputs step out s [] = [] := rfl

@[simp] theorem outputs_cons (s : S) (e : E) (es : List E) :
    outputs step out s (e :: es) = out s e ++ outputs step out (step s e) es := rfl

theorem outputs_append (s : S) (es fs : List E) :
    outputs step out s (es ++ fs) =
      outputs step out s es ++ outputs step out (run step s es) fs := by
  induction es generalizing s with
  | nil => rfl
  | cons e es ih => simp [ih]

variable {step out}

/-- Everything that was put out was put out by one of the steps. -/
theorem exists_step_of_outputs {s : S} {es : List E} {before after : List O} {o : O}
    (h : outputs step out s es = before ++ o :: after) : ∃ past e rest left right,
      es = past ++ e :: rest ∧ before = outputs step out s past ++ left ∧
        out (run step s past) e = left ++ o :: right := by
  induction es generalizing s before with
  | nil => simp at h
  | cons e es ih =>
    rw [outputs_cons] at h
    rcases List.append_eq_append_iff.mp h with ⟨more, hmore, htail⟩ | ⟨more, hmore, htail⟩
    · obtain ⟨past, f, rest, left, right, rfl, hbefore, hf⟩ := ih htail
      refine ⟨e :: past, f, rest, left, right, rfl, ?_, hf⟩
      rw [hmore, hbefore, outputs_cons, List.append_assoc]
    · cases more with
      | nil =>
        have hnil : outputs step out (step s e) es = [] ++ o :: after := by simpa using htail.symm
        obtain ⟨past, f, rest, left, right, rfl, hbefore, hf⟩ := ih hnil
        refine ⟨e :: past, f, rest, left, right, rfl, ?_, hf⟩
        rw [outputs_cons, List.append_assoc, ← hbefore, List.append_nil, hmore, List.append_nil]
      | cons first right =>
        obtain ⟨rfl, -⟩ := List.cons.inj htail
        exact ⟨[], e, es, before, right, rfl, rfl, hmore⟩

/-- The invariant rule for what holds of a state and of what was put out until then. -/
theorem outputs_invariant {I : S → List O → Prop}
    (hstep : ∀ s e os, I s os → I (step s e) (os ++ out s e)) {s : S} (hs : I s [])
    (es : List E) : I (run step s es) (outputs step out s es) := by
  have hall : ∀ (s : S) (os : List O), I s os →
      I (run step s es) (os ++ outputs step out s es) := by
    induction es with
    | nil =>
      intro s os h
      simpa using h
    | cons e es ih =>
      intro s os h
      rw [run_cons, outputs_cons, ← List.append_assoc]
      exact ih (step s e) _ (hstep s e os h)
  exact hall s [] hs

end Outputs

end Runs
