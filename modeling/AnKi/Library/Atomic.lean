import AnKi.Library.Locks
import AnKi.Library.Runs
import Mathlib.Algebra.Order.BigOperators.Group.Finset

/-!
# Objects behind one lock

Each thread makes its calls one after another. A call takes the guard of the
object, works on the data in several stages and returns before it drops the guard.
Whatever the threads do in between, the returned calls have a sequential history:
made one after another in the order of their returns they give the same results
and the same data.
-/

namespace Atomic
open Locks
set_option autoImplicit false

variable {T C D V : Type}

abbrev Stage (D V : Type) := D → V → D × V

/-- `enter` is what a call has before it asks for the guard. Each stage sees the data and what
the call has so far, which is its result in the end. -/
structure Object (C D V : Type) where
  mode : C → Mode
  enter : C → V
  stages : C → List (Stage D V)
  reads : ∀ {call}, mode call = .read → ∀ stage ∈ stages call, ∀ d v, (stage d v).1 = d

structure Returned (T C V : Type) where
  thread : T
  call : C
  result : V
  deriving DecidableEq

/-- The data, and the calls that have returned. -/
structure Shared (T C D V : Type) where
  data : D
  log : List (Returned T C V)

inductive Spot (C D V : Type) where
  | idle
  | inside (call : C) (todo : List (Stage D V)) (value : V)
  | leaving (mode : Mode)

structure Point (T C D V : Type) where
  thread : T
  spot : Spot C D V
  rest : List C

def runStages (todo : List (Stage D V)) (d : D) (v : V) : D × V :=
  match todo with
  | [] => (d, v)
  | stage :: todo => runStages todo (stage d v).1 (stage d v).2

namespace Object
variable (object : Object C D V)

/-- A call with nobody else at work. -/
def perform (call : C) (d : D) : D × V := runStages (object.stages call) d (object.enter call)

def instr : Point T C D V → Instr Unit (Shared T C D V) (Point T C D V)
  | ⟨_, .idle, []⟩ => .halt
  | ⟨i, .idle, call :: rest⟩ =>
    .acquire () (object.mode call) ⟨i, .inside call (object.stages call) (object.enter call), rest⟩
  | ⟨i, .inside call (stage :: todo) v, rest⟩ => .act fun s =>
    (⟨(stage s.data v).1, s.log⟩, ⟨i, .inside call todo (stage s.data v).2, rest⟩)
  | ⟨i, .inside call [] v, rest⟩ => .act fun s =>
    (⟨s.data, s.log ++ [⟨i, call, v⟩]⟩, ⟨i, .leaving (object.mode call), rest⟩)
  | ⟨i, .leaving _, rest⟩ => .release () ⟨i, .idle, rest⟩

def apply (d : D) (returned : Returned T C V) : D := (object.perform returned.call d).1

def Answered (d : D) (returned : Returned T C V) : Prop :=
  returned.result = (object.perform returned.call d).2

/-- The history `log` is one of calls made one after another. -/
def Sequential (d₀ : D) (log : List (Returned T C V)) : Prop :=
  Runs.Along object.apply object.Answered d₀ log

end Object

def start (d₀ : D) (program : T → List C) :
    Config T Unit (Shared T C D V) (Point T C D V) :=
  ⟨⟨d₀, []⟩, fun _ => [], fun i => ⟨i, .idle, program i⟩⟩

/-- The calls of a thread that have not returned. -/
def Point.pending (point : Point T C D V) : List C :=
  match point.spot with
  | .inside call _ _ => call :: point.rest
  | .idle | .leaving _ => point.rest

def callsOf [DecidableEq T] (i : T) (log : List (Returned T C V)) : List C :=
  (log.filter fun returned => returned.thread = i).map Returned.call

variable {object : Object C D V}

/-! ## What an instruction can be -/

theorem instr_acquire {point : Point T C D V} {lock : Unit} {mode : Mode} {next : Point T C D V}
    (h : object.instr point = .acquire lock mode next) : ∃ i call rest,
      point = ⟨i, .idle, call :: rest⟩ ∧ mode = object.mode call ∧
        next = ⟨i, .inside call (object.stages call) (object.enter call), rest⟩ := by
  obtain ⟨i, spot, rest⟩ := point
  cases spot with
  | idle =>
    cases rest with
    | nil => cases h
    | cons call rest =>
      obtain ⟨-, rfl, rfl⟩ := Instr.acquire.inj h
      exact ⟨i, call, rest, rfl, rfl, rfl⟩
  | inside call todo v => cases todo <;> cases h
  | leaving mode => cases h

theorem instr_release {point : Point T C D V} {lock : Unit} {next : Point T C D V}
    (h : object.instr point = .release lock next) : ∃ i mode rest,
      point = ⟨i, .leaving mode, rest⟩ ∧ next = ⟨i, .idle, rest⟩ := by
  obtain ⟨i, spot, rest⟩ := point
  cases spot with
  | idle => cases rest <;> cases h
  | inside call todo v => cases todo <;> cases h
  | leaving mode =>
    obtain ⟨-, rfl⟩ := Instr.release.inj h
    exact ⟨i, mode, rest, rfl, rfl⟩

theorem instr_act {point : Point T C D V}
    {perform : Shared T C D V → Shared T C D V × Point T C D V}
    (h : object.instr point = .act perform) : ∃ i call v rest,
      (∃ stage todo, point = ⟨i, .inside call (stage :: todo) v, rest⟩ ∧ perform = fun s =>
        (⟨(stage s.data v).1, s.log⟩, ⟨i, .inside call todo (stage s.data v).2, rest⟩)) ∨
      (point = ⟨i, .inside call [] v, rest⟩ ∧ perform = fun s =>
        (⟨s.data, s.log ++ [⟨i, call, v⟩]⟩, ⟨i, .leaving (object.mode call), rest⟩)) := by
  obtain ⟨i, spot, rest⟩ := point
  cases spot with
  | idle => cases rest <;> cases h
  | leaving mode => cases h
  | inside call todo v =>
    refine ⟨i, call, v, rest, ?_⟩
    cases todo with
    | nil =>
      obtain rfl := Instr.act.inj h
      exact Or.inr ⟨rfl, rfl⟩
    | cons stage todo =>
      obtain rfl := Instr.act.inj h
      exact Or.inl ⟨stage, todo, rfl, rfl⟩

variable (object) in
def guards (point : Point T C D V) : List (Unit × Mode) :=
  match point.spot with
  | .idle => []
  | .inside call _ _ => [((), object.mode call)]
  | .leaving mode => [((), mode)]

theorem instr_halt {point : Point T C D V} (h : object.instr point = .halt) :
    point.spot = .idle ∧ point.rest = [] := by
  obtain ⟨i, spot, rest⟩ := point
  cases spot with
  | idle =>
    cases rest with
    | nil => exact ⟨rfl, rfl⟩
    | cons call rest => cases h
  | inside call todo v => cases todo <;> cases h
  | leaving mode => cases h

variable (object) in
def lockProfile : LockProfile (object.instr (T := T)) where
  holds := guards object
  halt h := by simp [guards, (instr_halt h).1]
  acquire h := by
    obtain ⟨i, call, rest, rfl, rfl, rfl⟩ := instr_acquire h
    rfl
  release h := by
    obtain ⟨i, mode, rest, rfl, rfl⟩ := instr_release h
    simp [guards, dropGuard]
  act h s := by
    obtain ⟨i, call, v, rest, ⟨stage, todo, rfl, rfl⟩ | ⟨rfl, rfl⟩⟩ := instr_act h
    · rfl
    · rfl

variable [DecidableEq T] {writersFirst : Bool}

omit [DecidableEq T] in
theorem start_held (d₀ : D) (program : T → List C) :
    (lockProfile object).Held (start (V := V) d₀ program) := fun _ => rfl

/-- No thread asks for the guard while it has it, so the threads cannot block each other. -/
theorem start_neverStuck (d₀ : D) (program : T → List C) :
    NeverStuck object.instr (start d₀ program) := by
  have hbound : ∀ lock : Unit, (fun _ => 0 : Unit → Nat) lock < 1 := fun _ => Nat.one_pos
  apply (start_held d₀ program).tracks.neverStuck hbound
  intro c _
  apply LockProfile.Ordered.usage
  intro i lock mode next h g hg
  obtain ⟨j, call, rest, hpoint, -, -⟩ := instr_acquire h
  rw [hpoint] at hg
  cases hg

/-! ## The sequential history -/

section History
variable {d₀ : D}

variable (object d₀) in
/-- The data are those after the history. -/
structure Explained (s : Shared T C D V) : Prop where
  sequential : object.Sequential d₀ s.log
  data : s.data = Runs.run object.apply d₀ s.log

variable (object d₀) in
/-- A writer inside has what it would have if it were alone; so has a reader, and the data stay
as they are as long as it reads. -/
def stage (point : Point T C D V) (s : Shared T C D V) : Prop :=
  match point.spot with
  | .idle => True
  | .inside call todo v =>
    match object.mode call with
    | .write => object.Sequential d₀ s.log ∧
        runStages todo s.data v = object.perform call (Runs.run object.apply d₀ s.log)
    | .read => (∀ stage ∈ todo, ∀ d w, (stage d w).1 = d) ∧
        runStages todo s.data v = object.perform call s.data
  | .leaving .write => Explained object d₀ s
  | .leaving .read => True

omit [DecidableEq T] in
/-- A call that returns what it would return alone goes to the end of the history. -/
theorem Explained.concat {s : Shared T C D V} {i : T} {call : C} {v : V}
    (hsequential : object.Sequential d₀ s.log)
    (h : (s.data, v) = object.perform call (Runs.run object.apply d₀ s.log)) :
    Explained object d₀ ⟨s.data, s.log ++ [⟨i, call, v⟩]⟩ := by
  constructor
  · exact (Runs.along_append _ _ _).mpr ⟨hsequential, congrArg Prod.snd h, trivial⟩
  · rw [Runs.run_concat]
    exact congrArg Prod.fst h

section Stages
variable {s : Shared T C D V} {i : T} {call : C} {todo : List (Stage D V)} {v : V} {rest : List C}

omit [DecidableEq T] in
theorem stage_write (hmode : object.mode call = .write) :
    stage object d₀ ⟨i, .inside call todo v, rest⟩ s ↔ object.Sequential d₀ s.log ∧
      runStages todo s.data v = object.perform call (Runs.run object.apply d₀ s.log) := by
  simp only [stage, hmode]

omit [DecidableEq T] in
theorem stage_read (hmode : object.mode call = .read) :
    stage object d₀ ⟨i, .inside call todo v, rest⟩ s ↔
      (∀ stage ∈ todo, ∀ d w, (stage d w).1 = d) ∧
        runStages todo s.data v = object.perform call s.data := by
  simp only [stage, hmode]

omit [DecidableEq T] in
theorem write_mem_iff :
    ((), Mode.write) ∈ (lockProfile object).holds ⟨i, .inside call todo v, rest⟩ ↔
      object.mode call = .write := by
  simp [lockProfile, guards, eq_comm]

omit [DecidableEq T] in
theorem mode_of_not_mem
    (h : ((), Mode.write) ∉ (lockProfile object).holds ⟨i, .inside call todo v, rest⟩) :
    object.mode call = .read := by
  cases hmode : object.mode call with
  | read => rfl
  | write => exact absurd (write_mem_iff.mpr hmode) h

end Stages

omit [DecidableEq T] in
/-- What is known outside of a write is about the data alone. -/
theorem stage_congr {point : Point T C D V}
    (hread : ((), Mode.write) ∉ (lockProfile object).holds point) {s s' : Shared T C D V}
    (hdata : s'.data = s.data) (h : stage object d₀ point s) :
    stage object d₀ point s' := by
  obtain ⟨i, spot, rest⟩ := point
  cases spot with
  | idle => trivial
  | inside call todo v =>
    have hmode := mode_of_not_mem hread
    rw [stage_read hmode] at h ⊢
    rwa [hdata]
  | leaving mode =>
    cases mode with
    | read => trivial
    | write => exact absurd (List.mem_singleton_self _) hread

omit [DecidableEq T] in
theorem stage_enter {i : T} {call : C} {rest : List C} {s : Shared T C D V}
    (hs : Explained object d₀ s) :
    stage object d₀ ⟨i, .inside call (object.stages call) (object.enter call), rest⟩ s := by
  cases hmode : object.mode call with
  | read => exact (stage_read hmode).mpr ⟨object.reads hmode, rfl⟩
  | write =>
    refine (stage_write hmode).mpr ⟨hs.sequential, ?_⟩
    rw [← hs.data]
    rfl

omit [DecidableEq T] in
theorem protects :
    (lockProfile (T := T) object).Protects () (Explained object d₀) (stage object d₀) where
  enter {p mode next s} h _ hs := by
    obtain ⟨i, call, rest, rfl, rfl, rfl⟩ := instr_acquire h
    exact stage_enter hs
  leave {p next s} h hstage := by
    obtain ⟨i, mode, rest, rfl, rfl⟩ := instr_release h
    refine ⟨trivial, ?_⟩
    intro hwrite
    obtain rfl : mode = .write := by simpa [lockProfile, guards, eq_comm] using hwrite
    exact hstage
  pass hne := absurd rfl hne
  inside {p perform s} h _ := by
    obtain ⟨i, call, v, rest, ⟨_, _, rfl, _⟩ | ⟨rfl, _⟩⟩ := instr_act h
    · exact ⟨object.mode call, List.mem_singleton_self _⟩
    · exact ⟨object.mode call, List.mem_singleton_self _⟩
  outside {p s} hnone hstage s' := by
    obtain ⟨i, spot, rest⟩ := p
    cases spot with
    | idle => trivial
    | inside call todo v => exact absurd (List.mem_singleton_self _) (hnone (object.mode call))
    | leaving mode => exact absurd (List.mem_singleton_self _) (hnone mode)
  write {p perform s} h hwrite hstage := by
    obtain ⟨i, call, v, rest, ⟨next, todo, rfl, rfl⟩ | ⟨rfl, rfl⟩⟩ := instr_act h
    · have hmode := write_mem_iff.mp hwrite
      rw [stage_write hmode] at hstage ⊢
      exact hstage
    · have hmode := write_mem_iff.mp hwrite
      rw [stage_write hmode] at hstage
      simp only [stage, hmode]
      exact Explained.concat hstage.1 hstage.2
  read {p perform s} h hread hstage hs := by
    obtain ⟨i, call, v, rest, ⟨next, todo, rfl, rfl⟩ | ⟨rfl, rfl⟩⟩ := instr_act h
    · have hmode := mode_of_not_mem hread
      rw [stage_read hmode] at hstage
      obtain ⟨hkeeps, hruns⟩ := hstage
      have hdata := hkeeps next List.mem_cons_self s.data v
      rw [runStages, hdata] at hruns
      have hsame : (⟨(next s.data v).1, s.log⟩ : Shared T C D V) = s := by rw [hdata]
      refine ⟨(stage_read hmode).mpr ⟨?_, ?_⟩, ?_, fun q hq => stage_congr hq hdata⟩
      · exact fun later hlater => hkeeps later (List.mem_cons_of_mem _ hlater)
      · simp only [hdata]
        exact hruns
      · simp only [hsame]
        exact hs
    · have hmode := mode_of_not_mem hread
      have hruns := ((stage_read hmode).mp hstage).2
      rw [runStages, hs.data] at hruns
      refine ⟨?_, Explained.concat hs.sequential ?_, fun q hq => stage_congr hq rfl⟩
      · simp only [stage, hmode]
      · rw [hs.data]
        exact hruns

/-- The calls have returned what they return when they are made one after another. -/
structure Linearized (object : Object C D V) (d₀ : D) (program : T → List C)
    (c : Config T Unit (Shared T C D V) (Point T C D V)) : Prop where
  sequential : object.Sequential d₀ c.data.log
  data : (∀ i, ((), .write) ∉ c.held i) → c.data.data = Runs.run object.apply d₀ c.data.log
  order : ∀ i, callsOf i c.data.log ++ (c.point i).pending = program i

theorem reach_protected {program : T → List C}
    {c : Config T Unit (Shared T C D V) (Point T C D V)}
    (hreach : Reach object.instr writersFirst (start d₀ program) c) :
    LockProfile.Protected () (Explained object d₀) (stage object d₀) c := by
  apply protects.reach (start_held d₀ program) _ _ hreach
  · intro i j lock mode _ hi
    cases hi
  · exact ⟨fun _ => trivial, fun _ => ⟨trivial, rfl⟩⟩

end History

/-! ## The order of the calls -/

omit [DecidableEq T] in
theorem callsOf_concat [DecidableEq T] (i : T) (log : List (Returned T C V))
    (returned : Returned T C V) : callsOf i (log ++ [returned]) =
      callsOf i log ++ if returned.thread = i then [returned.call] else [] := by
  by_cases h : returned.thread = i
  · simp [callsOf, h]
  · simp [callsOf, h]

/-- Each thread makes the calls of its program, in their order. -/
structure Ordered (program : T → List C) (c : Config T Unit (Shared T C D V) (Point T C D V)) :
    Prop where
  thread : ∀ i, (c.point i).thread = i
  calls : ∀ i, callsOf i c.data.log ++ (c.point i).pending = program i

theorem Ordered.update {program : T → List C}
    {c : Config T Unit (Shared T C D V) (Point T C D V)} (hc : Ordered program c) {i : T}
    {held : T → List (Unit × Mode)} {s : Shared T C D V} {next : Point T C D V}
    (hthread : next.thread = i) (hlog : ∀ j, j ≠ i → callsOf j s.log = callsOf j c.data.log)
    (hcalls : callsOf i s.log ++ next.pending =
      callsOf i c.data.log ++ (c.point i).pending) :
    Ordered program ⟨s, held, Function.update c.point i next⟩ := by
  constructor
  · intro j
    by_cases hj : j = i
    · subst hj
      simpa using hthread
    · simpa [hj] using hc.thread j
  · intro j
    by_cases hj : j = i
    · subst hj
      simp only [Function.update_self]
      rw [hcalls, hc.calls j]
    · simp only [Function.update_of_ne hj]
      rw [hlog j hj, hc.calls j]

theorem Ordered.step {program : T → List C}
    {c c' : Config T Unit (Shared T C D V) (Point T C D V)} (hc : Ordered program c)
    (hstep : Step object.instr writersFirst c c') : Ordered program c' := by
  cases hstep with
  | acquire i h _ =>
    obtain ⟨j, call, rest, hpoint, -, rfl⟩ := instr_acquire h
    have hthread := hc.thread i
    rw [hpoint] at hthread
    refine hc.update hthread (fun _ _ => rfl) ?_
    rw [hpoint]
    rfl
  | release i h =>
    obtain ⟨j, mode, rest, hpoint, rfl⟩ := instr_release h
    have hthread := hc.thread i
    rw [hpoint] at hthread
    refine hc.update hthread (fun _ _ => rfl) ?_
    rw [hpoint]
    rfl
  | act i h =>
    obtain ⟨j, call, v, rest, ⟨stage, todo, hpoint, rfl⟩ | ⟨hpoint, rfl⟩⟩ := instr_act h
    · have hthread := hc.thread i
      rw [hpoint] at hthread
      refine hc.update hthread (fun _ _ => rfl) ?_
      rw [hpoint]
      rfl
    · have hthread := hc.thread i
      rw [hpoint] at hthread
      obtain rfl : j = i := hthread
      refine hc.update rfl ?_ ?_
      · intro k hk
        rw [callsOf_concat, if_neg (Ne.symm hk), List.append_nil]
      · rw [callsOf_concat, if_pos rfl, hpoint, List.append_assoc]
        rfl

theorem reach_ordered {d₀ : D} {program : T → List C}
    {c : Config T Unit (Shared T C D V) (Point T C D V)}
    (hreach : Reach object.instr writersFirst (start d₀ program) c) : Ordered program c := by
  induction hreach with
  | refl => exact ⟨fun _ => rfl, fun _ => rfl⟩
  | tail _ hstep ih => exact ih.step hstep

/-- However the threads are interleaved, their calls have a sequential history. -/
theorem reach_linearized {d₀ : D} {program : T → List C}
    {c : Config T Unit (Shared T C D V) (Point T C D V)}
    (hreach : Reach object.instr writersFirst (start d₀ program) c) :
    Linearized object d₀ program c := by
  have hprotected := reach_protected hreach
  have hheld : (lockProfile object).Held c := (start_held d₀ program).reach hreach
  refine ⟨?_, fun hnobody => (hprotected.inv hnobody).data, (reach_ordered hreach).calls⟩
  by_cases hwriter : ∃ i, ((), .write) ∈ c.held i
  · obtain ⟨i, hi⟩ := hwriter
    rw [hheld i] at hi
    have hstage := hprotected.stage i
    generalize c.point i = point at hi hstage
    obtain ⟨j, spot, rest⟩ := point
    cases spot with
    | idle => cases hi
    | inside call todo v => exact ((stage_write (write_mem_iff.mp hi)).mp hstage).1
    | leaving mode =>
      obtain rfl : mode = .write := by simpa [lockProfile, guards, eq_comm] using hi
      exact Explained.sequential hstage
  · exact (hprotected.inv (not_exists.mp hwriter)).sequential

omit [DecidableEq T] in
theorem Object.Sequential.answered {d₀ : D} {log before : List (Returned T C V)}
    {returned : Returned T C V} (h : object.Sequential d₀ log)
    (hbefore : before ++ [returned] <+: log) :
    returned.result = (object.perform returned.call (Runs.run object.apply d₀ before)).2 :=
  ((Runs.along_append _ _ _).mp (Runs.Along.take hbefore h)).2.1

omit [DecidableEq T] in
theorem run_apply (d₀ : D) (log : List (Returned T C V)) : Runs.run object.apply d₀ log =
    Runs.run (fun d call => (object.perform call d).1) d₀ (log.map Returned.call) := by
  rw [Runs.run, Runs.run, List.foldl_map]
  rfl

/-- The returned calls are those of all threads together. -/
theorem length_log [Fintype T] (log : List (Returned T C V)) :
    log.length = Finset.univ.sum fun i => (callsOf i log).length := by
  induction log using List.reverseRecOn with
  | nil => simp [callsOf]
  | append_singleton log returned ih =>
    have hlast : Finset.univ.sum (fun i : T =>
        (if returned.thread = i then [returned.call] else []).length) = 1 := by
      rw [Finset.sum_eq_single returned.thread]
      · rw [if_pos rfl, List.length_singleton]
      · intro i _ hi
        rw [if_neg (Ne.symm hi), List.length_nil]
      · intro hnot
        exact absurd (Finset.mem_univ _) hnot
    simp only [callsOf_concat, List.length_append, Finset.sum_add_distrib, ← ih, hlast,
      List.length_singleton]

theorem mem_program {d₀ : D} {program : T → List C}
    {c : Config T Unit (Shared T C D V) (Point T C D V)} (hc : Linearized object d₀ program c)
    {returned : Returned T C V} (hmem : returned ∈ c.data.log) :
    returned.call ∈ program returned.thread := by
  rw [← hc.order returned.thread]
  apply List.mem_append_left
  exact List.mem_map_of_mem (List.mem_filter.mpr ⟨hmem, by simp⟩)

omit [DecidableEq T] in
theorem not_unfinished_pending {c : Config T Unit (Shared T C D V) (Point T C D V)} {i : T}
    (h : ¬ Unfinished object.instr c i) : (c.point i).pending = [] := by
  obtain ⟨hspot, hrest⟩ := instr_halt (not_not.mp h)
  rw [Point.pending, hspot, hrest]

end Atomic
