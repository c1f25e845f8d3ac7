import Mathlib.Data.Fintype.Basic
import Mathlib.Logic.Relation
import Mathlib.Logic.Function.Basic

/-!
# Threads that share read-write locks

Every thread is at a program point, and `instr` says what happens there: it takes
or drops a guard, acts on the shared data in one step, or has finished. The locks
are not reentrant. With `writersFirst` a waiting writer also keeps new readers out.

A profile says which guards are held at each program point. Guards taken
in the order of a rank exclude every deadlock, for any number of threads.
-/

namespace Locks
set_option autoImplicit false

inductive Mode where
  | read
  | write
  deriving Repr, DecidableEq

inductive Instr (L D P : Type) where
  | halt
  | acquire (lock : L) (mode : Mode) (next : P)
  | release (lock : L) (next : P)
  | act (perform : D → D × P)

/-- Nothing can happen here but that the thread asks for a guard. -/
def Instr.Asks {L D P : Type} : Instr L D P → Prop
  | .halt | .acquire _ _ _ => True
  | .release _ _ | .act _ => False

@[simp] theorem Instr.Asks.ne_release {L D P : Type} {i : Instr L D P} (h : i.Asks) (lock : L)
    (next : P) : i ≠ .release lock next := by
  rintro rfl
  exact h

@[simp] theorem Instr.Asks.ne_act {L D P : Type} {i : Instr L D P} (h : i.Asks)
    (perform : D → D × P) : i ≠ .act perform := by
  rintro rfl
  exact h

structure Config (T L D P : Type) where
  data : D
  held : T → List (L × Mode)
  point : T → P

section Semantics
variable {T L D P : Type} [DecidableEq T] [DecidableEq L]
variable (instr : P → Instr L D P) (writersFirst : Bool)

def WaitsFor (c : Config T L D P) (i : T) (lock : L) (mode : Mode) : Prop :=
  ∃ next, instr (c.point i) = .acquire lock mode next

/-- A guard is granted to `i` when the guards held, its own included, are compatible with it. -/
def Grantable (c : Config T L D P) (i : T) (lock : L) : Mode → Prop
  | .write => ∀ j mode, (lock, mode) ∉ c.held j
  | .read => (∀ j, (lock, .write) ∉ c.held j) ∧
      (writersFirst = true → ∀ j, j ≠ i → ¬ WaitsFor instr c j lock .write)

def dropGuard (lock : L) (guards : List (L × Mode)) : List (L × Mode) :=
  guards.eraseP fun g => g.1 = lock

inductive Step (c : Config T L D P) : Config T L D P → Prop where
  | acquire (i : T) {lock : L} {mode : Mode} {next : P}
      (h : instr (c.point i) = .acquire lock mode next)
      (grant : Grantable instr writersFirst c i lock mode) :
      Step c ⟨c.data, Function.update c.held i ((lock, mode) :: c.held i),
        Function.update c.point i next⟩
  | release (i : T) {lock : L} {next : P} (h : instr (c.point i) = .release lock next) :
      Step c ⟨c.data, Function.update c.held i (dropGuard lock (c.held i)),
        Function.update c.point i next⟩
  | act (i : T) {perform : D → D × P} (h : instr (c.point i) = .act perform) :
      Step c ⟨(perform c.data).1, c.held, Function.update c.point i (perform c.data).2⟩

abbrev Reach := Relation.ReflTransGen (Step (T := T) instr writersFirst)

def SelfWait (c : Config T L D P) (i : T) : Prop :=
  ∃ lock mode, WaitsFor instr c i lock mode ∧ ∃ own, (lock, own) ∈ c.held i

def Unfinished (c : Config T L D P) (i : T) : Prop := instr (c.point i) ≠ .halt

omit [DecidableEq T] in
instance decidableWaitsFor (c : Config T L D P) (i : T) (lock : L) (mode : Mode) :
    Decidable (WaitsFor instr c i lock mode) :=
  match h : instr (c.point i) with
  | .acquire lock' mode' next =>
    decidable_of_iff (lock' = lock ∧ mode' = mode) (by simp [WaitsFor, h])
  | .halt | .release _ _ | .act _ => isFalse (by simp [WaitsFor, h])

/-- No reachable state has a thread waiting for itself, and none is stuck. -/
def DeadlockFree (c₀ : Config T L D P) : Prop :=
  ∀ c, Reach instr writersFirst c₀ c →
    (∀ i, ¬ SelfWait instr c i) ∧
      ((∃ i, Unfinished instr c i) → ∃ c', Step instr writersFirst c c')

/-- Nobody waits for itself, and all have finished or somebody can go on. This is so whether or
not waiting writers keep readers out: the states are those reachable when they never do, and the
step is one that is granted when they always do. -/
def NeverStuck (c₀ : Config T L D P) : Prop :=
  ∀ c, Reach instr false c₀ c →
    (∀ i, ¬ SelfWait instr c i) ∧
      ((∀ i, ¬ Unfinished instr c i) ∨ ∃ c', Step instr true c c')

variable {instr writersFirst} in
/-- What every action keeps holds of the shared data in every reachable state. -/
theorem Reach.data {I : D → Prop} {c₀ c : Config T L D P}
    (hact : ∀ p perform, instr p = .act perform → ∀ d, I d → I (perform d).1)
    (hreach : Reach instr writersFirst c₀ c) (h₀ : I c₀.data) : I c.data := by
  induction hreach with
  | refl => exact h₀
  | tail _ hstep ih =>
    cases hstep with
    | acquire | release => exact ih
    | act i h => exact hact _ _ h _ ih

section Points
variable {instr writersFirst} {Q : P → Prop} {c c' : Config T L D P}

/-- What is true of the program point of every thread stays so when it is of the next ones. -/
theorem Step.points
    (hacquire : ∀ i lock mode next, instr (c.point i) = .acquire lock mode next → Q next)
    (hrelease : ∀ i lock next, instr (c.point i) = .release lock next → Q next)
    (hact : ∀ i perform, instr (c.point i) = .act perform → Q (perform c.data).2)
    (hstep : Step instr writersFirst c c') (h : ∀ i, Q (c.point i)) (j : T) : Q (c'.point j) := by
  have hupdate : ∀ {i : T} {next : P}, Q next → Q (Function.update c.point i next j) := by
    intro i next hnext
    by_cases hj : j = i
    · subst hj
      simpa using hnext
    · simpa [hj] using h j
  cases hstep with
  | acquire i hinstr _ => exact hupdate (hacquire i _ _ _ hinstr)
  | release i hinstr => exact hupdate (hrelease i _ _ hinstr)
  | act i hinstr => exact hupdate (hact i _ hinstr)

/-- An invariant of the data and one of the program points, where an action needs both. -/
theorem Reach.points {I : D → Prop} {c₀ : Config T L D P}
    (hacquire : ∀ p lock mode next, Q p → instr p = .acquire lock mode next → Q next)
    (hrelease : ∀ p lock next, Q p → instr p = .release lock next → Q next)
    (hact : ∀ p perform d, Q p → I d → instr p = .act perform →
      Q (perform d).2 ∧ I (perform d).1)
    (hreach : Reach instr writersFirst c₀ c) (hpoint : ∀ i, Q (c₀.point i)) (hdata : I c₀.data) :
    (∀ i, Q (c.point i)) ∧ I c.data := by
  induction hreach with
  | refl => exact ⟨hpoint, hdata⟩
  | tail _ hstep ih =>
    refine ⟨hstep.points (fun i _ _ _ => hacquire _ _ _ _ (ih.1 i))
      (fun i _ _ => hrelease _ _ _ (ih.1 i)) (fun i _ h => (hact _ _ _ (ih.1 i) ih.2 h).1) ih.1, ?_⟩
    cases hstep with
    | acquire | release => exact ih.2
    | act i h => exact (hact _ _ _ (ih.1 i) ih.2 h).2

end Points

/-! ## Waiting writers -/

section Writers
variable {instr writersFirst}

omit [DecidableEq T] [DecidableEq L] in
theorem Grantable.of_writersFirst {c : Config T L D P} {i : T} {lock : L} {mode : Mode}
    (h : Grantable instr true c i lock mode) : Grantable instr writersFirst c i lock mode := by
  cases mode with
  | write => exact h
  | read => exact ⟨h.1, fun _ => h.2 rfl⟩

omit [DecidableEq T] [DecidableEq L] in
theorem Grantable.without {c : Config T L D P} {i : T} {lock : L} {mode : Mode}
    (h : Grantable instr writersFirst c i lock mode) : Grantable instr false c i lock mode := by
  cases mode with
  | write => exact h
  | read => exact ⟨h.1, by simp⟩

theorem Step.of_writersFirst {c c' : Config T L D P} (h : Step instr true c c') :
    Step instr writersFirst c c' := by
  cases h with
  | acquire i h grant => exact .acquire i h grant.of_writersFirst
  | release i h => exact .release i h
  | act i h => exact .act i h

theorem Reach.without {c₀ c : Config T L D P} (h : Reach instr writersFirst c₀ c) :
    Reach instr false c₀ c := by
  induction h with
  | refl => exact .refl
  | tail _ hstep ih =>
    apply ih.tail
    cases hstep with
    | acquire i h grant => exact .acquire i h grant.without
    | release i h => exact .release i h
    | act i h => exact .act i h

theorem NeverStuck.deadlockFree {c₀ : Config T L D P} (h : NeverStuck instr c₀) :
    DeadlockFree instr writersFirst c₀ := by
  intro c hreach
  obtain ⟨hself, hgo⟩ := h c hreach.without
  refine ⟨hself, ?_⟩
  intro hunfinished
  rcases hunfinished with ⟨i, hi⟩
  rcases hgo with hdone | ⟨c', hstep⟩
  · exact absurd hi (hdone i)
  · exact ⟨c', hstep.of_writersFirst⟩

end Writers

/-! ## Mutual exclusion -/

section Exclusion
variable {instr writersFirst}

/-- Nobody holds a guard of a lock that another one writes under. -/
def Exclusive (c : Config T L D P) : Prop :=
  ∀ i j lock mode, i ≠ j → (lock, .write) ∈ c.held i → (lock, mode) ∉ c.held j

omit [DecidableEq L] in
theorem mem_update_held {held : T → List (L × Mode)} {i j : T} {guards : List (L × Mode)}
    {g : L × Mode} (h : g ∈ Function.update held i guards j) :
    (j = i ∧ g ∈ guards) ∨ (j ≠ i ∧ g ∈ held j) := by
  by_cases hj : j = i
  · subst hj
    exact Or.inl ⟨rfl, by simpa using h⟩
  · exact Or.inr ⟨hj, by simpa [hj] using h⟩

theorem Exclusive.step {c c' : Config T L D P} (hc : Exclusive c)
    (hstep : Step instr writersFirst c c') : Exclusive c' := by
  cases hstep with
  | acquire k h grant =>
    intro i j lock mode hne hi hj
    rcases mem_update_held hi with ⟨rfl, hwrite⟩ | ⟨_, hwrite⟩
    · rcases mem_update_held hj with ⟨rfl, _⟩ | ⟨_, hother⟩
      · exact hne rfl
      · rcases List.mem_cons.mp hwrite with heq | hwrite
        · obtain ⟨rfl, rfl⟩ := Prod.mk.inj heq
          exact grant j mode hother
        · exact hc i j lock mode hne hwrite hother
    · rcases mem_update_held hj with ⟨rfl, hother⟩ | ⟨_, hother⟩
      · rcases List.mem_cons.mp hother with heq | hother
        · obtain ⟨rfl, rfl⟩ := Prod.mk.inj heq
          cases mode with
          | write => exact grant i .write hwrite
          | read => exact grant.1 i hwrite
        · exact hc i j lock mode hne hwrite hother
      · exact hc i j lock mode hne hwrite hother
  | @release k released _ h =>
    have hsub : ∀ {j g}, g ∈ Function.update c.held k (dropGuard released (c.held k)) j →
        g ∈ c.held j := by
      intro j g hg
      rcases mem_update_held hg with ⟨rfl, hg⟩ | ⟨_, hg⟩
      · exact List.eraseP_subset hg
      · exact hg
    intro i j lock mode hne hi hj
    exact hc i j lock mode hne (hsub hi) (hsub hj)
  | act k h => exact hc

theorem Exclusive.reach {c₀ c : Config T L D P} (h₀ : Exclusive c₀)
    (hreach : Reach instr writersFirst c₀ c) : Exclusive c := by
  induction hreach with
  | refl => exact h₀
  | tail _ hstep ih => exact ih.step hstep

end Exclusion

/-! ## Waiting for oneself -/

section Blocked
variable {instr writersFirst} {lock : L} {i : T}

variable (instr) in
/-- The thread waits for a lock that it writes under. -/
structure Blocked (lock : L) (i : T) (c : Config T L D P) : Prop where
  waits : ∃ mode, WaitsFor instr c i lock mode
  writes : (lock, .write) ∈ c.held i

omit [DecidableEq T] [DecidableEq L] in
theorem Blocked.not_grantable {c : Config T L D P} (h : Blocked instr lock i c) (j : T)
    (mode : Mode) : ¬ Grantable instr writersFirst c j lock mode := by
  intro grant
  cases mode with
  | read => exact grant.1 i h.writes
  | write => exact grant i .write h.writes

theorem Blocked.step {c c' : Config T L D P} (h : Blocked instr lock i c)
    (hstep : Step instr writersFirst c c') :
    Blocked instr lock i c' ∧ c'.point i = c.point i := by
  obtain ⟨mode, next, hwaits⟩ := h.waits
  -- the thread that moves is another one
  have hsame : c'.point i = c.point i ∧ c'.held i = c.held i := by
    cases hstep with
    | acquire j hacquire grant =>
      have hne : i ≠ j := by
        rintro rfl
        rw [hwaits] at hacquire
        cases hacquire
        exact h.not_grantable i mode grant
      exact ⟨Function.update_of_ne hne _ _, Function.update_of_ne hne _ _⟩
    | release j hrelease =>
      have hne : i ≠ j := by
        rintro rfl
        rw [hwaits] at hrelease
        cases hrelease
      exact ⟨Function.update_of_ne hne _ _, Function.update_of_ne hne _ _⟩
    | act j hact =>
      have hne : i ≠ j := by
        rintro rfl
        rw [hwaits] at hact
        cases hact
      exact ⟨Function.update_of_ne hne _ _, rfl⟩
  refine ⟨⟨⟨mode, next, ?_⟩, ?_⟩, hsame.1⟩
  · rw [hsame.1]
    exact hwaits
  · rw [hsame.2]
    exact h.writes

end Blocked

end Semantics

/-! ## Schedules -/

section Schedules
variable {T L D P : Type} [DecidableEq T] [Fintype T] [DecidableEq L]
variable (instr : P → Instr L D P) (writersFirst : Bool)

instance decidableGrantable (c : Config T L D P) (i : T) (lock : L) :
    (mode : Mode) → Decidable (Grantable instr writersFirst c i lock mode)
  | .write => decidable_of_iff (∀ j, lock ∉ (c.held j).map Prod.fst) (by simp [Grantable])
  | .read => inferInstanceAs (Decidable (_ ∧ _))

def tryStep (c : Config T L D P) (i : T) : Option (Config T L D P) :=
  match instr (c.point i) with
  | .halt => none
  | .acquire lock mode next =>
    if Grantable instr writersFirst c i lock mode then
      some ⟨c.data, Function.update c.held i ((lock, mode) :: c.held i),
        Function.update c.point i next⟩
    else none
  | .release lock next =>
    some ⟨c.data, Function.update c.held i (dropGuard lock (c.held i)),
      Function.update c.point i next⟩
  | .act perform =>
    some ⟨(perform c.data).1, c.held, Function.update c.point i (perform c.data).2⟩

/-- The run in which the threads move in this order, unless one of them cannot. -/
def runSchedule : List T → Config T L D P → Option (Config T L D P)
  | [], c => some c
  | i :: schedule, c => (tryStep instr writersFirst c i).bind (runSchedule schedule)

variable {instr writersFirst}

theorem step_of_tryStep {c c' : Config T L D P} {i : T}
    (h : tryStep instr writersFirst c i = some c') : Step instr writersFirst c c' := by
  unfold tryStep at h
  split at h
  · simp at h
  · rename_i lock mode next hinstr
    split at h
    · rename_i hgrant
      obtain rfl := Option.some.inj h
      exact .acquire i hinstr hgrant
    · simp at h
  · rename_i lock next hinstr
    obtain rfl := Option.some.inj h
    exact .release i hinstr
  · rename_i perform hinstr
    obtain rfl := Option.some.inj h
    exact .act i hinstr

theorem reach_of_runSchedule {schedule : List T} {c c' : Config T L D P}
    (h : runSchedule instr writersFirst schedule c = some c') : Reach instr writersFirst c c' := by
  induction schedule generalizing c with
  | nil =>
    obtain rfl := Option.some.inj h
    exact .refl
  | cons i schedule ih =>
    obtain ⟨next, hstep, hrest⟩ := Option.bind_eq_some_iff.mp h
    exact .head (step_of_tryStep hstep) (ih hrest)

end Schedules

theorem exists_holder {T L D P : Type} [DecidableEq T] [DecidableEq L]
    {instr : P → Instr L D P} {writersFirst : Bool} {c : Config T L D P}
    (hstuck : ∀ c', ¬ Step instr writersFirst c c') {i : T} {lock : L} {mode : Mode} {next : P}
    (h : instr (c.point i) = .acquire lock mode next) : ∃ j own, (lock, own) ∈ c.held j := by
  by_contra hnone
  have hfree : ∀ j own, (lock, own) ∉ c.held j := fun j own hj => hnone ⟨j, own, hj⟩
  have hwrite : ∀ j, ¬ WaitsFor instr c j lock .write := by
    intro j hwaits
    rcases hwaits with ⟨after, hj⟩
    exact hstuck _ (.acquire j hj hfree)
  cases mode with
  | write => exact hwrite i ⟨next, h⟩
  | read => exact hstuck _ (.acquire i h ⟨fun j => hfree j .write, fun _ j _ => hwrite j⟩)

/-! ## The order of the locks -/

/-- Which locks are held at each program point, in whatever mode. -/
structure LockUse {L D P : Type} [DecidableEq L] (instr : P → Instr L D P) where
  locks : P → List L
  halt : ∀ {p}, instr p = .halt → locks p = []
  acquire : ∀ {p lock mode next}, instr p = .acquire lock mode next →
    locks next = lock :: locks p
  release : ∀ {p lock next}, instr p = .release lock next → locks next = (locks p).erase lock
  act : ∀ {p perform}, instr p = .act perform → ∀ d, locks (perform d).2 = locks p

theorem map_dropGuard {L : Type} [DecidableEq L] (lock : L) (guards : List (L × Mode)) :
    (dropGuard lock guards).map Prod.fst = (guards.map Prod.fst).erase lock := by
  induction guards with
  | nil => rfl
  | cons g guards ih =>
    rw [dropGuard, List.eraseP_cons, List.map_cons, List.erase_cons]
    by_cases hg : g.1 = lock
    · simp [hg]
    · simpa [hg, dropGuard] using ih

namespace LockUse
variable {T L D P : Type} [DecidableEq T] [DecidableEq L]
variable {instr : P → Instr L D P} {writersFirst : Bool} (usage : LockUse instr)

def Tracks (c : Config T L D P) : Prop :=
  ∀ i, (c.held i).map Prod.fst = usage.locks (c.point i)

/-- Whoever asks for a guard holds only guards of lower rank. -/
def Ordered (rank : L → Nat) (c : Config T L D P) : Prop :=
  ∀ i lock mode next, instr (c.point i) = .acquire lock mode next →
    ∀ own ∈ usage.locks (c.point i), rank own < rank lock

variable {usage}

theorem Tracks.update {c : Config T L D P} (hc : usage.Tracks c) {i : T} {p : P}
    {guards : List (L × Mode)} {d : D} (hguards : guards.map Prod.fst = usage.locks p) :
    usage.Tracks ⟨d, Function.update c.held i guards, Function.update c.point i p⟩ := by
  intro j
  by_cases hj : j = i
  · subst hj
    simpa using hguards
  · simpa [hj] using hc j

theorem Tracks.step {c c' : Config T L D P} (hc : usage.Tracks c)
    (hstep : Step instr writersFirst c c') : usage.Tracks c' := by
  cases hstep with
  | acquire i h _ =>
    apply hc.update
    rw [usage.acquire h, ← hc i, List.map_cons]
  | release i h =>
    apply hc.update
    rw [usage.release h, ← hc i, map_dropGuard]
  | act i h =>
    have hheld : c.held = Function.update c.held i (c.held i) := by simp
    rw [hheld]
    apply hc.update
    rw [usage.act h c.data, hc i]

theorem Tracks.reach {c₀ c : Config T L D P} (h₀ : usage.Tracks c₀)
    (hreach : Reach instr writersFirst c₀ c) : usage.Tracks c := by
  induction hreach with
  | refl => exact h₀
  | tail _ hstep ih => exact ih.step hstep

omit [DecidableEq T] in
theorem Tracks.mem_locks {c : Config T L D P} (hc : usage.Tracks c) {i : T} {lock : L} {own : Mode}
    (h : (lock, own) ∈ c.held i) : lock ∈ usage.locks (c.point i) := by
  rw [← hc i]
  exact List.mem_map_of_mem h

omit [DecidableEq T] in
theorem Tracks.not_selfWait {rank : L → Nat} {c : Config T L D P} (hc : usage.Tracks c)
    (hord : usage.Ordered rank c) (i : T) : ¬ SelfWait instr c i := by
  intro hself
  rcases hself with ⟨lock, mode, ⟨next, h⟩, own, hown⟩
  exact absurd (hord i lock mode next h lock (hc.mem_locks hown)) (Nat.lt_irrefl _)

section Ranked
variable {rank : L → Nat} {bound : Nat}

/-- In a stuck state nobody waits: a chain of waiting threads would climb the ranks for ever. -/
theorem Tracks.not_waiting {c : Config T L D P} (hc : usage.Tracks c) (hord : usage.Ordered rank c)
    (hbound : ∀ lock, rank lock < bound) (hstuck : ∀ c', ¬ Step instr writersFirst c c')
    (gap : Nat) : ∀ {i : T} {lock : L} {mode : Mode} {next : P},
      instr (c.point i) = .acquire lock mode next → bound - rank lock ≠ gap := by
  induction gap using Nat.strongRecOn with
  | _ gap ih =>
    intro i lock mode next h hgap
    obtain ⟨j, own, hj⟩ := exists_holder hstuck h
    have hheld := hc.mem_locks hj
    cases hinstr : instr (c.point j) with
    | halt =>
      rw [usage.halt hinstr] at hheld
      simp at hheld
    | release lock' next' => exact hstuck _ (.release j hinstr)
    | act perform => exact hstuck _ (.act j hinstr)
    | acquire lock' mode' next' =>
      have hrank : rank lock < rank lock' := hord j lock' mode' next' hinstr lock hheld
      have hlt := hbound lock'
      exact ih (bound - rank lock') (by omega) hinstr rfl

theorem Tracks.progress {c : Config T L D P} (hc : usage.Tracks c) (hord : usage.Ordered rank c)
    (hbound : ∀ lock, rank lock < bound) {i : T} (hi : Unfinished instr c i) :
    ∃ c', Step instr writersFirst c c' := by
  by_contra hnone
  have hstuck : ∀ c', ¬ Step instr writersFirst c c' := fun c' hstep => hnone ⟨c', hstep⟩
  cases hinstr : instr (c.point i) with
  | halt => exact hi hinstr
  | release lock next => exact hstuck _ (.release i hinstr)
  | act perform => exact hstuck _ (.act i hinstr)
  | acquire lock mode next => exact hc.not_waiting hord hbound hstuck _ hinstr rfl

/-- The rule: threads that take their guards in the order of a rank never deadlock. -/
theorem Tracks.deadlockFree {c₀ : Config T L D P} (h₀ : usage.Tracks c₀)
    (hbound : ∀ lock, rank lock < bound)
    (hord : ∀ c, Reach instr writersFirst c₀ c → usage.Ordered rank c) :
    DeadlockFree instr writersFirst c₀ := by
  intro c hreach
  have hc := h₀.reach hreach
  refine ⟨hc.not_selfWait (hord c hreach), ?_⟩
  intro hunfinished
  rcases hunfinished with ⟨i, hi⟩
  exact hc.progress (hord c hreach) hbound hi

/-- The same however the waiting writers are treated. -/
theorem Tracks.neverStuck {c₀ : Config T L D P} (h₀ : usage.Tracks c₀)
    (hbound : ∀ lock, rank lock < bound)
    (hord : ∀ c, Reach instr false c₀ c → usage.Ordered rank c) : NeverStuck instr c₀ := by
  intro c hreach
  have hc := h₀.reach hreach
  refine ⟨hc.not_selfWait (hord c hreach), ?_⟩
  by_cases hdone : ∀ i, ¬ Unfinished instr c i
  · exact Or.inl hdone
  · obtain ⟨i, hi⟩ := not_forall_not.mp hdone
    exact Or.inr (hc.progress (hord c hreach) hbound hi)

end Ranked

end LockUse

/-! ## The guards in their modes -/

structure LockProfile {L D P : Type} [DecidableEq L] (instr : P → Instr L D P) where
  holds : P → List (L × Mode)
  halt : ∀ {p}, instr p = .halt → holds p = []
  acquire : ∀ {p lock mode next}, instr p = .acquire lock mode next →
    holds next = (lock, mode) :: holds p
  release : ∀ {p lock next}, instr p = .release lock next →
    holds next = dropGuard lock (holds p)
  act : ∀ {p perform}, instr p = .act perform → ∀ d, holds (perform d).2 = holds p

namespace LockProfile
variable {T L D P : Type} [DecidableEq T] [DecidableEq L]
variable {instr : P → Instr L D P} {writersFirst : Bool} (profile : LockProfile instr)

def Held (c : Config T L D P) : Prop := ∀ i, c.held i = profile.holds (c.point i)

/-- Whoever asks for a guard holds only guards of lower rank. -/
def Ordered (rank : L → Nat) (c : Config T L D P) : Prop :=
  ∀ i lock mode next, instr (c.point i) = .acquire lock mode next →
    ∀ g ∈ profile.holds (c.point i), rank g.1 < rank lock

variable {profile}

theorem Held.update {c : Config T L D P} (hc : profile.Held c) {i : T} {p : P}
    {guards : List (L × Mode)} {d : D} (hguards : guards = profile.holds p) :
    profile.Held ⟨d, Function.update c.held i guards, Function.update c.point i p⟩ := by
  intro j
  by_cases hj : j = i
  · subst hj
    simpa using hguards
  · simpa [hj] using hc j

theorem Held.step {c c' : Config T L D P} (hc : profile.Held c)
    (hstep : Step instr writersFirst c c') : profile.Held c' := by
  cases hstep with
  | acquire i h _ =>
    apply hc.update
    rw [profile.acquire h, hc i]
  | release i h =>
    apply hc.update
    rw [profile.release h, hc i]
  | act i h =>
    have hheld : c.held = Function.update c.held i (c.held i) := by simp
    rw [hheld]
    apply hc.update
    rw [profile.act h c.data, hc i]

theorem Held.reach {c₀ c : Config T L D P} (h₀ : profile.Held c₀)
    (hreach : Reach instr writersFirst c₀ c) : profile.Held c := by
  induction hreach with
  | refl => exact h₀
  | tail _ hstep ih => exact ih.step hstep

variable (profile) in
/-- What a profile says of the locks alone. -/
def usage : LockUse instr where
  locks p := (profile.holds p).map Prod.fst
  halt h := by rw [profile.halt h, List.map_nil]
  acquire h := by rw [profile.acquire h, List.map_cons]
  release h := by rw [profile.release h, map_dropGuard]
  act h d := by rw [profile.act h d]

omit [DecidableEq T] in
theorem Held.tracks {c : Config T L D P} (hc : profile.Held c) : profile.usage.Tracks c := by
  intro i
  rw [hc i]
  rfl

omit [DecidableEq T] in
theorem Ordered.usage {rank : L → Nat} {c : Config T L D P} (h : profile.Ordered rank c) :
    profile.usage.Ordered rank c := by
  intro i lock mode next hinstr own hown
  obtain ⟨g, hg, rfl⟩ := List.mem_map.mp hown
  exact h i lock mode next hinstr g hg

/-- With a single lock the rule is exact: nobody may ask for a guard while holding one. -/
theorem Held.deadlockFree_iff [Subsingleton L] {c₀ : Config T L D P} (h₀ : profile.Held c₀) :
    DeadlockFree instr writersFirst c₀ ↔ ∀ c, Reach instr writersFirst c₀ c →
      ∀ i lock mode next, instr (c.point i) = .acquire lock mode next →
        profile.holds (c.point i) = [] := by
  constructor
  · intro hfree c hreach i lock mode next h
    apply List.eq_nil_iff_forall_not_mem.mpr
    intro g hown
    rcases g with ⟨lock', own⟩
    apply (hfree c hreach).1 i
    rw [← h₀.reach hreach i] at hown
    exact ⟨lock, mode, ⟨next, h⟩, own, Subsingleton.elim lock' lock ▸ hown⟩
  · intro hempty
    have hbound : ∀ lock : L, (fun _ => 0 : L → Nat) lock < 1 := fun _ => Nat.one_pos
    apply h₀.tracks.deadlockFree hbound
    intro c hreach
    apply Ordered.usage
    intro i lock mode next h
    simp [hempty c hreach i lock mode next h]

/-! ## Data behind a lock -/

/-- `inv` holds of the data while nobody writes under `lock`. At each program point `stage` is what
the thread there knows of the data. It may know something only while it holds a guard of `lock`,
and only then does it act on the data. -/
structure Protects (profile : LockProfile instr) (lock : L) (inv : D → Prop)
    (stage : P → D → Prop) : Prop where
  enter : ∀ {p mode next d}, instr p = .acquire lock mode next → stage p d → inv d → stage next d
  leave : ∀ {p next d}, instr p = .release lock next → stage p d →
    stage next d ∧ ((lock, .write) ∈ profile.holds p → inv d)
  pass : ∀ {p other next d}, other ≠ lock →
    ((∃ mode, instr p = .acquire other mode next) ∨ instr p = .release other next) →
      stage p d → stage next d
  inside : ∀ {p perform d}, instr p = .act perform → stage p d →
    ∃ mode, (lock, mode) ∈ profile.holds p
  outside : ∀ {p d}, (∀ mode, (lock, mode) ∉ profile.holds p) → stage p d → ∀ d', stage p d'
  write : ∀ {p perform d}, instr p = .act perform → (lock, .write) ∈ profile.holds p →
    stage p d → stage (perform d).2 (perform d).1
  read : ∀ {p perform d}, instr p = .act perform → (lock, .write) ∉ profile.holds p →
    stage p d → inv d → stage (perform d).2 (perform d).1 ∧ inv (perform d).1 ∧
      ∀ q, (lock, .write) ∉ profile.holds q → stage q d → stage q (perform d).1

section Protects
variable {lock : L} {inv : D → Prop} {stage : P → D → Prop}

/-- Every thread knows its stage, and the invariant holds unless somebody writes. -/
structure Protected (lock : L) (inv : D → Prop) (stage : P → D → Prop) (c : Config T L D P) :
    Prop where
  stage : ∀ i, stage (c.point i) c.data
  inv : (∀ i, (lock, .write) ∉ c.held i) → inv c.data

omit [DecidableEq L] in
/-- When only the point of one thread changes, only its stage is to be shown. -/
theorem stage_update {c : Config T L D P} {d : D} {i : T} {next : P} (hnext : stage next d)
    (hothers : ∀ j, j ≠ i → stage (c.point j) d) :
    ∀ j, stage (Function.update c.point i next j) d := by
  intro j
  by_cases hj : j = i
  · subst hj
    simpa using hnext
  · simpa [hj] using hothers j hj

omit [DecidableEq L] in
theorem not_mem_of_update {c : Config T L D P} {i : T} {guards : List (L × Mode)} {g : L × Mode}
    (hown : g ∈ c.held i → g ∈ guards) (h : ∀ j, g ∉ Function.update c.held i guards j) :
    ∀ j, g ∉ c.held j := by
  intro j hj
  apply h j
  by_cases hji : j = i
  · subst hji
    simpa using hown hj
  · simpa [hji] using hj

theorem mem_dropGuard_of_ne {other : L} (hne : other ≠ lock) {guards : List (L × Mode)}
    {mode : Mode} (h : (lock, mode) ∈ guards) : (lock, mode) ∈ dropGuard other guards := by
  unfold dropGuard
  rw [List.mem_eraseP_of_neg]
  · exact h
  · simpa using hne.symm

theorem Protects.act_step (hp : profile.Protects lock inv stage) {c : Config T L D P}
    (hc : profile.Held c) (hexclusive : Exclusive c) (hprot : Protected lock inv stage c)
    {i : T} {perform : D → D × P} (h : instr (c.point i) = .act perform) :
    Protected lock inv stage (⟨(perform c.data).1, c.held,
      Function.update c.point i (perform c.data).2⟩ : Config T L D P) := by
  obtain ⟨mode, hmode⟩ := hp.inside h (hprot.stage i)
  by_cases hwrite : (lock, .write) ∈ profile.holds (c.point i)
  · -- nobody else has a guard, so nobody else knows anything
    rw [← hc i] at hwrite
    refine ⟨stage_update (hp.write h (hc i ▸ hwrite) (hprot.stage i)) ?_, ?_⟩
    · intro j hj
      apply hp.outside _ (hprot.stage j)
      intro mode'
      rw [← hc j]
      exact hexclusive i j lock mode' hj.symm hwrite
    · intro hnobody
      exact absurd hwrite (hnobody i)
  · have hnobody : ∀ j, (lock, .write) ∉ c.held j := by
      intro j hj
      by_cases hji : j = i
      · subst hji
        exact hwrite (hc j ▸ hj)
      · rw [← hc i] at hmode
        exact hexclusive j i lock mode hji hj hmode
    obtain ⟨hnext, hinv, hothers⟩ := hp.read h hwrite (hprot.stage i) (hprot.inv hnobody)
    refine ⟨stage_update hnext ?_, fun _ => hinv⟩
    intro j _
    exact hothers _ (hc j ▸ hnobody j) (hprot.stage j)

theorem Protects.step (hp : profile.Protects lock inv stage) {c c' : Config T L D P}
    (hc : profile.Held c) (hexclusive : Exclusive c) (hprot : Protected lock inv stage c)
    (hstep : Step instr writersFirst c c') : Protected lock inv stage c' := by
  cases hstep with
  | @acquire i other mode next h grant =>
    by_cases hlock : other = lock
    · subst hlock
      have hnobody : ∀ j, (other, .write) ∉ c.held j := by
        intro j
        cases mode with
        | write => exact grant j .write
        | read => exact grant.1 j
      have hinv := hprot.inv hnobody
      exact ⟨stage_update (hp.enter h (hprot.stage i) hinv) fun j _ => hprot.stage j,
        fun _ => hinv⟩
    · refine ⟨stage_update (hp.pass hlock (Or.inl ⟨mode, h⟩) (hprot.stage i))
        fun j _ => hprot.stage j, ?_⟩
      intro hnobody
      exact hprot.inv (not_mem_of_update (List.mem_cons_of_mem _) hnobody)
  | @release i other next h =>
    by_cases hlock : other = lock
    · subst hlock
      obtain ⟨hnext, hleft⟩ := hp.leave h (hprot.stage i)
      refine ⟨stage_update hnext fun j _ => hprot.stage j, ?_⟩
      intro hnobody
      by_cases hwrite : (other, .write) ∈ profile.holds (c.point i)
      · exact hleft hwrite
      · apply hprot.inv
        apply not_mem_of_update _ hnobody
        intro hown
        exact absurd (hc i ▸ hown) hwrite
    · refine ⟨stage_update (hp.pass hlock (Or.inr h) (hprot.stage i))
        fun j _ => hprot.stage j, ?_⟩
      intro hnobody
      exact hprot.inv (not_mem_of_update (mem_dropGuard_of_ne hlock) hnobody)
  | act i h => exact hp.act_step hc hexclusive hprot h

/-- The rule for data behind a lock. -/
theorem Protects.reach (hp : profile.Protects lock inv stage) {c₀ c : Config T L D P}
    (h₀ : profile.Held c₀) (hexclusive : Exclusive c₀) (hprot : Protected lock inv stage c₀)
    (hreach : Reach instr writersFirst c₀ c) : Protected lock inv stage c := by
  induction hreach with
  | refl => exact hprot
  | tail hreach hstep ih => exact hp.step (h₀.reach hreach) (hexclusive.reach hreach) ih hstep

end Protects

/-- The rule for a lock that is never released: from then on the data behind it stays as it is. -/
theorem Blocked.frozen {lock : L} {i : T}
    (houtside : ∀ p perform, instr p = .act perform → (∀ mode, (lock, mode) ∉ profile.holds p) →
      ∀ d, (perform d).1 = d)
    {c c' : Config T L D P} (hc : profile.Held c) (hexclusive : Exclusive c)
    (h : Blocked instr lock i c) (hreach : Reach instr writersFirst c c') :
    Blocked instr lock i c' ∧ c'.point i = c.point i ∧ c'.data = c.data := by
  induction hreach with
  | refl => exact ⟨h, rfl, rfl⟩
  | @tail c₁ c₂ hreach hstep ih =>
    obtain ⟨hblocked, hpoint, hdata⟩ := ih
    obtain ⟨hnext, hsame⟩ := hblocked.step hstep
    refine ⟨hnext, hsame.trans hpoint, ?_⟩
    rw [← hdata]
    cases hstep with
    | acquire _ _ _ => rfl
    | release _ _ => rfl
    | act j hact =>
      have hne : i ≠ j := by
        rintro rfl
        obtain ⟨mode, next, hwaits⟩ := hblocked.waits
        rw [hwaits] at hact
        cases hact
      apply houtside _ _ hact
      intro mode
      rw [← hc.reach hreach j]
      exact hexclusive.reach hreach i j lock mode hne hblocked.writes

end LockProfile

end Locks
