import AnKi.ConsensusLocks
import AnKi.Election

/-!
# The locks on `current_leader` and `node_status`

The operations of `Election` and the tick of `run_leader_election`, cut at the
points where a lock is taken or dropped and a field is written. `set_leader` and
the tick keep their guard of `current_leader` to the end and take the one of
`node_status` under it.
-/

namespace AnKi
open Locks
set_option autoImplicit false

namespace ElectionLocks

inductive Lock where
  | currentLeader
  | nodeStatus
  deriving DecidableEq

inductive Call where
  | setLeader (leaderId : Uuid)
  | startElection
  | tick
  deriving DecidableEq

/-- The guard of `current_leader` that is still held when the one of `node_status` is dropped. -/
abbrev Outer := Option Mode

inductive Spot where
  | idle
  | storeLeader (leaderId : Uuid)
  | lockStatus (leaderId : Uuid)
  | storeIsLeader (leaderId : Uuid)
  | clearCandidate
  | checkLeader
  | lockCandidate
  | raiseCandidate (outer : Outer)
  | unlockStatus (outer : Outer)
  | unlockLeader (mode : Mode)
  deriving DecidableEq

abbrev Point := Spot × List Call

def storeLeader (leaderId : Uuid) (s : Election) : Election :=
  { s with currentLeader := some leaderId }

def storeIsLeader (leaderId : Uuid) (s : Election) : Election :=
  { s with nodeStatus := { s.nodeStatus with isLeader := s.nodeStatus.nodeId = leaderId } }

def clearCandidate (s : Election) : Election :=
  { s with nodeStatus := { s.nodeStatus with isCandidate := false } }

def enter (rest : List Call) : Call → Instr Lock Election Point
  | .setLeader leaderId => .acquire .currentLeader .write (.storeLeader leaderId, rest)
  | .startElection => .acquire .nodeStatus .write (.raiseCandidate none, rest)
  | .tick => .acquire .currentLeader .read (.checkLeader, rest)

def instr : Point → Instr Lock Election Point
  | (.idle, []) => .halt
  | (.idle, call :: rest) => enter rest call
  | (.storeLeader leaderId, rest) =>
    .act fun s => (storeLeader leaderId s, (.lockStatus leaderId, rest))
  | (.lockStatus leaderId, rest) => .acquire .nodeStatus .write (.storeIsLeader leaderId, rest)
  | (.storeIsLeader leaderId, rest) =>
    .act fun s => (storeIsLeader leaderId s, (.clearCandidate, rest))
  | (.clearCandidate, rest) => .act fun s => (clearCandidate s, (.unlockStatus (some .write), rest))
  | (.checkLeader, rest) => .act fun s =>
    if s.currentLeader.isNone then (s, (.lockCandidate, rest))
    else (s, (.unlockLeader .read, rest))
  | (.lockCandidate, rest) => .acquire .nodeStatus .write (.raiseCandidate (some .read), rest)
  | (.raiseCandidate outer, rest) => .act fun s => (s.startElection, (.unlockStatus outer, rest))
  | (.unlockStatus (some mode), rest) => .release .nodeStatus (.unlockLeader mode, rest)
  | (.unlockStatus none, rest) => .release .nodeStatus (.idle, rest)
  | (.unlockLeader _, rest) => .release .currentLeader (.idle, rest)

def start {T : Type} (nodeId : Uuid) (program : T → List Call) : Config T Lock Election Point :=
  ⟨Election.new nodeId, fun _ => [], fun i => (.idle, program i)⟩

def outerGuards (outer : Outer) : List (Lock × Mode) :=
  outer.toList.map fun mode => (.currentLeader, mode)

def guards : Point → List (Lock × Mode)
  | (.idle, _) => []
  | (.storeLeader _, _) | (.lockStatus _, _) => [(.currentLeader, .write)]
  | (.storeIsLeader _, _) | (.clearCandidate, _) =>
    [(.nodeStatus, .write), (.currentLeader, .write)]
  | (.checkLeader, _) | (.lockCandidate, _) => [(.currentLeader, .read)]
  | (.raiseCandidate outer, _) | (.unlockStatus outer, _) =>
    (.nodeStatus, .write) :: outerGuards outer
  | (.unlockLeader mode, _) => [(.currentLeader, mode)]

/-! ## The operations in one piece -/

theorem setLeader_pieces (leaderId : Uuid) (s : Election) :
    clearCandidate (storeIsLeader leaderId (storeLeader leaderId s)) = s.setLeader leaderId := rfl

theorem tick_pieces (s : Election) : Election.runLeaderElection s .tick =
    if s.currentLeader.isNone then s.startElection else s := rfl

/-! ## The guards of a thread -/

@[simp] theorem instr_unlockStatus (outer : Outer) (rest : List Call) :
    instr (.unlockStatus outer, rest) =
      .release .nodeStatus (outer.elim .idle .unlockLeader, rest) := by
  cases outer <;> rfl

/-- Between two calls. -/
@[simp] theorem idle_asks (rest : List Call) : (instr (.idle, rest)).Asks := by
  cases rest with
  | nil => trivial
  | cons call rest => cases call <;> trivial

theorem instr_halt {point : Point} (h : instr point = .halt) : guards point = [] := by
  obtain ⟨spot, rest⟩ := point
  cases spot with
  | idle => rfl
  | unlockStatus => simp at h
  | _ => simp [instr] at h

/-- A guard of `current_leader` is asked for with none in hand, and one of `node_status` with none
or with that of `current_leader`. -/
theorem instr_acquire {point : Point} {lock : Lock} {mode : Mode} {next : Point}
    (h : instr point = .acquire lock mode next) :
    guards next = (lock, mode) :: guards point ∧
      (guards point = [] ∨ (lock = .nodeStatus ∧ ∃ outer, guards point = outerGuards outer)) := by
  obtain ⟨spot, rest⟩ := point
  cases spot with
  | idle =>
    cases rest with
    | nil => simp [instr] at h
    | cons call rest =>
      refine ⟨?_, Or.inl rfl⟩
      cases call <;>
        · simp only [instr, enter, Instr.acquire.injEq] at h
          obtain ⟨rfl, rfl, rfl⟩ := h
          rfl
  | lockStatus leaderId =>
    simp only [instr, Instr.acquire.injEq] at h
    obtain ⟨rfl, rfl, rfl⟩ := h
    exact ⟨rfl, Or.inr ⟨rfl, some .write, rfl⟩⟩
  | lockCandidate =>
    simp only [instr, Instr.acquire.injEq] at h
    obtain ⟨rfl, rfl, rfl⟩ := h
    exact ⟨rfl, Or.inr ⟨rfl, some .read, rfl⟩⟩
  | unlockStatus => simp at h
  | _ => simp [instr] at h

theorem instr_release {point : Point} {lock : Lock} {next : Point}
    (h : instr point = .release lock next) : guards next = dropGuard lock (guards point) := by
  obtain ⟨spot, rest⟩ := point
  cases spot with
  | idle => simp at h
  | unlockStatus outer =>
    rw [instr_unlockStatus, Instr.release.injEq] at h
    obtain ⟨rfl, rfl⟩ := h
    cases outer <;> rfl
  | unlockLeader mode =>
    simp only [instr, Instr.release.injEq] at h
    obtain ⟨rfl, rfl⟩ := h
    simp [guards, dropGuard]
  | _ => simp [instr] at h

theorem instr_act {point : Point} {perform : Election → Election × Point}
    (h : instr point = .act perform) (s : Election) : guards (perform s).2 = guards point := by
  obtain ⟨spot, rest⟩ := point
  cases spot with
  | idle | unlockStatus => simp at h
  | checkLeader =>
    simp only [instr, Instr.act.injEq] at h
    subst h
    simp only
    split <;> rfl
  | lockStatus | lockCandidate | unlockLeader => simp [instr] at h
  | storeLeader | storeIsLeader | clearCandidate | raiseCandidate =>
    obtain rfl := Instr.act.inj h
    rfl

def lockProfile : LockProfile instr where
  holds := guards
  halt := instr_halt
  acquire h := (instr_acquire h).1
  release := instr_release
  act := instr_act

/-! ## The order of the locks -/

def rank : Lock → Nat
  | .currentLeader => 0
  | .nodeStatus => 1

theorem instr_acquire_rank {point : Point} {lock : Lock} {mode : Mode} {next : Point}
    (h : instr point = .acquire lock mode next) : ∀ g ∈ guards point, rank g.1 < rank lock := by
  intro g hg
  rcases (instr_acquire h).2 with hnone | ⟨rfl, outer, houter⟩
  · simp [hnone] at hg
  · rw [houter, outerGuards, List.mem_map] at hg
    obtain ⟨_, _, rfl⟩ := hg
    exact Nat.zero_lt_one

/-! ## The state behind `current_leader` -/

/-- The node leads exactly when it is the recorded leader, and runs only while there is none. -/
structure Consistent (s : Election) : Prop where
  isLeader : s.nodeStatus.isLeader = true ↔ s.currentLeader = some s.nodeStatus.nodeId
  isCandidate : s.nodeStatus.isCandidate = true → s.currentLeader = none

/-- What a thread knows at each spot; nothing but the two arms of the loop runs. -/
def spotStage : Spot → Election → Prop
  | .idle, _ | .storeLeader _, _ | .checkLeader, _ => True
  | .lockStatus leaderId, s | .storeIsLeader leaderId, s => s.currentLeader = some leaderId
  | .clearCandidate, s => s.nodeStatus.isLeader = true ↔ s.currentLeader = some s.nodeStatus.nodeId
  | .lockCandidate, s | .raiseCandidate (some .read), s => s.currentLeader = none
  | .unlockStatus (some .write), s | .unlockLeader .write, s => Consistent s
  | .unlockStatus (some .read), _ | .unlockLeader .read, _ => True
  | .raiseCandidate _, _ | .unlockStatus none, _ => False

def stage (point : Point) (s : Election) : Prop :=
  .startElection ∉ point.2 ∧ spotStage point.1 s

theorem new_consistent (nodeId : Uuid) : Consistent (Election.new nodeId) := by
  constructor <;> simp [Election.new]

theorem stage_enter {point : Point} {mode : Mode} {next : Point} {s : Election}
    (h : instr point = .acquire .currentLeader mode next) (hstage : stage point s) :
    stage next s := by
  obtain ⟨spot, rest⟩ := point
  cases spot with
  | idle =>
    cases rest with
    | nil => simp [instr] at h
    | cons call rest =>
      have hrest : .startElection ∉ rest := fun hmem => hstage.1 (List.mem_cons_of_mem call hmem)
      cases call with
      | startElection => simp [instr, enter] at h
      | setLeader | tick =>
        simp only [instr, enter, Instr.acquire.injEq, true_and] at h
        obtain ⟨_, rfl⟩ := h
        exact ⟨hrest, trivial⟩
  | unlockStatus => simp at h
  | _ => simp [instr] at h

theorem stage_leave {point next : Point} {s : Election}
    (h : instr point = .release .currentLeader next) (hstage : stage point s) :
    stage next s ∧ ((.currentLeader, .write) ∈ guards point → Consistent s) := by
  obtain ⟨spot, rest⟩ := point
  cases spot with
  | idle => simp at h
  | unlockStatus outer => cases outer <;> simp [instr] at h
  | unlockLeader mode =>
    simp only [instr, Instr.release.injEq, true_and] at h
    subst h
    refine ⟨⟨hstage.1, trivial⟩, ?_⟩
    intro hwrite
    cases mode with
    | read => simp [guards] at hwrite
    | write => exact hstage.2
  | _ => simp [instr] at h

theorem stage_pass {point : Point} {other : Lock} {next : Point} {s : Election}
    (hne : other ≠ .currentLeader)
    (h : (∃ mode, instr point = .acquire other mode next) ∨ instr point = .release other next)
    (hstage : stage point s) : stage next s := by
  obtain ⟨spot, rest⟩ := point
  cases spot with
  | idle =>
    cases rest with
    | nil => simp [instr] at h
    | cons call rest =>
      cases call with
      | startElection => exact absurd List.mem_cons_self hstage.1
      | setLeader | tick =>
        simp only [instr, enter, Instr.acquire.injEq, reduceCtorEq, or_false] at h
        obtain ⟨_, hlock, _⟩ := h
        exact absurd hlock.symm hne
  | lockStatus leaderId =>
    simp only [instr, Instr.acquire.injEq, reduceCtorEq, or_false] at h
    obtain ⟨_, _, _, rfl⟩ := h
    exact ⟨hstage.1, hstage.2⟩
  | lockCandidate =>
    simp only [instr, Instr.acquire.injEq, reduceCtorEq, or_false] at h
    obtain ⟨_, _, _, rfl⟩ := h
    exact ⟨hstage.1, hstage.2⟩
  | unlockStatus outer =>
    cases outer with
    | none => exact hstage.2.elim
    | some mode =>
      simp only [instr, Instr.release.injEq, reduceCtorEq, exists_false, false_or] at h
      obtain ⟨_, rfl⟩ := h
      refine ⟨hstage.1, ?_⟩
      cases mode with
      | read => trivial
      | write => exact hstage.2
  | unlockLeader mode =>
    simp only [instr, Instr.release.injEq, reduceCtorEq, exists_false, false_or] at h
    exact absurd h.1.symm hne
  | _ => simp [instr] at h

/-- The spots at which a thread of the loop acts, with the mode of its guard. -/
theorem instr_act_guard {point : Point} {perform : Election → Election × Point} {s : Election}
    (h : instr point = .act perform) (hstage : stage point s) :
    ∃ mode, (.currentLeader, mode) ∈ guards point := by
  obtain ⟨spot, rest⟩ := point
  cases spot with
  | idle | unlockStatus => simp at h
  | storeLeader | storeIsLeader | clearCandidate => exact ⟨.write, by simp [guards]⟩
  | checkLeader => exact ⟨.read, by simp [guards]⟩
  | raiseCandidate outer =>
    cases outer with
    | none => exact hstage.2.elim
    | some mode => exact ⟨mode, by simp [guards, outerGuards]⟩
  | _ => simp [instr] at h

theorem stage_outside {point : Point} {s : Election}
    (hfree : ∀ mode, (.currentLeader, mode) ∉ guards point) (hstage : stage point s)
    (s' : Election) : stage point s' := by
  obtain ⟨spot, rest⟩ := point
  cases spot with
  | idle => exact ⟨hstage.1, trivial⟩
  | storeLeader | lockStatus | storeIsLeader | clearCandidate =>
    exact absurd (by simp [guards]) (hfree .write)
  | checkLeader | lockCandidate => exact absurd (by simp [guards]) (hfree .read)
  | raiseCandidate outer | unlockStatus outer =>
    cases outer with
    | none => exact hstage.2.elim
    | some mode => exact absurd (by simp [guards, outerGuards]) (hfree mode)
  | unlockLeader mode => exact absurd (by simp [guards]) (hfree mode)

/-- The three writes of `set_leader`. -/
theorem stage_write {point : Point} {perform : Election → Election × Point} {s : Election}
    (h : instr point = .act perform) (hwrite : (.currentLeader, .write) ∈ guards point)
    (hstage : stage point s) : stage (perform s).2 (perform s).1 := by
  obtain ⟨spot, rest⟩ := point
  cases spot with
  | idle => simp [guards] at hwrite
  | checkLeader => simp [guards] at hwrite
  | raiseCandidate outer =>
    rcases outer with _ | mode
    · exact hstage.2.elim
    · cases mode with
      | read => simp [guards, outerGuards] at hwrite
      | write => exact hstage.2.elim
  | storeLeader leaderId =>
    obtain rfl := Instr.act.inj h
    exact ⟨hstage.1, rfl⟩
  | storeIsLeader leaderId =>
    obtain rfl := Instr.act.inj h
    have hleader : s.currentLeader = some leaderId := hstage.2
    refine ⟨hstage.1, ?_⟩
    simp [spotStage, storeIsLeader, hleader, eq_comm]
  | clearCandidate =>
    obtain rfl := Instr.act.inj h
    exact ⟨hstage.1, hstage.2, by simp [clearCandidate]⟩
  | unlockStatus => simp at h
  | lockStatus | lockCandidate | unlockLeader => simp [instr] at h

/-- The check and the candidacy of a tick, which others may do at the same time. -/
theorem stage_read {point : Point} {perform : Election → Election × Point} {s : Election}
    (h : instr point = .act perform) (hread : (.currentLeader, .write) ∉ guards point)
    (hstage : stage point s) (hs : Consistent s) :
    stage (perform s).2 (perform s).1 ∧ Consistent (perform s).1 ∧
      ∀ other, (.currentLeader, .write) ∉ guards other → stage other s →
        stage other (perform s).1 := by
  obtain ⟨spot, rest⟩ := point
  cases spot with
  | idle | unlockStatus => simp at h
  | storeLeader | storeIsLeader | clearCandidate => exact absurd (by simp [guards]) hread
  | checkLeader =>
    obtain rfl := Instr.act.inj h
    cases hleader : s.currentLeader with
    | none =>
      simp only [hleader, Option.isNone_none, if_true]
      exact ⟨⟨hstage.1, hleader⟩, hs, fun other _ hother => hother⟩
    | some leaderId =>
      simp only [hleader, Option.isNone_some, Bool.false_eq_true, if_false]
      exact ⟨⟨hstage.1, trivial⟩, hs, fun other _ hother => hother⟩
  | raiseCandidate outer =>
    obtain rfl := Instr.act.inj h
    rcases outer with _ | mode
    · exact hstage.2.elim
    · cases mode with
      | write => exact hstage.2.elim
      | read =>
        have hleader : s.currentLeader = none := hstage.2
        refine ⟨⟨hstage.1, trivial⟩, ⟨hs.isLeader, fun _ => hleader⟩, ?_⟩
        intro other hother hknown
        refine ⟨hknown.1, ?_⟩
        obtain ⟨spot, rest⟩ := other
        -- the candidacy is no concern of the others that read
        cases spot with
        | idle | checkLeader => trivial
        | storeLeader | lockStatus | storeIsLeader | clearCandidate =>
          exact absurd (by simp [guards]) hother
        | lockCandidate => exact hknown.2
        | raiseCandidate outer | unlockStatus outer =>
          cases outer with
          | none => exact hknown.2.elim
          | some mode =>
            cases mode with
            | read => exact hknown.2
            | write => exact absurd (by simp [guards, outerGuards]) hother
        | unlockLeader mode =>
          cases mode with
          | read => trivial
          | write => exact absurd (by simp [guards]) hother
  | lockStatus | lockCandidate | unlockLeader => simp [instr] at h

theorem protects : lockProfile.Protects .currentLeader Consistent stage where
  enter h hstage _ := stage_enter h hstage
  leave := stage_leave
  pass := stage_pass
  inside := instr_act_guard
  outside := stage_outside
  write := stage_write
  read := stage_read

section Threads
variable {T : Type}

theorem start_held (nodeId : Uuid) (program : T → List Call) :
    lockProfile.Held (start nodeId program) := fun _ => rfl

variable [DecidableEq T]

theorem start_neverStuck (nodeId : Uuid) (program : T → List Call) :
    NeverStuck instr (start nodeId program) := by
  have hbound : ∀ lock, rank lock < 2 := by
    intro lock
    cases lock <;> decide
  apply (start_held nodeId program).tracks.neverStuck hbound
  intro c _
  apply LockProfile.Ordered.usage
  intro i lock mode next h
  exact instr_acquire_rank h

/-- The threads run nothing but `set_leader` and the tick of the loop. -/
def ArmsOnly (program : T → List Call) : Prop := ∀ i, Call.startElection ∉ program i

/-- However the threads are scheduled, the state is consistent whenever no guard is held. -/
theorem consistent_of_unlocked (writersFirst : Bool) (nodeId : Uuid) {program : T → List Call}
    (harms : ArmsOnly program) {c : Config T Lock Election Point}
    (hreach : Reach instr writersFirst (start nodeId program) c) (hfree : ∀ i, c.held i = []) :
    Consistent c.data := by
  have hexclusive : Exclusive (start nodeId program) := by
    intro i j lock mode _ hi
    simp [start] at hi
  have hprotected : LockProfile.Protected .currentLeader Consistent stage
      (start nodeId program) :=
    ⟨fun i => ⟨harms i, trivial⟩, fun _ => new_consistent nodeId⟩
  apply (protects.reach (start_held nodeId program) hexclusive hprotected hreach).inv
  intro i
  simp [hfree i]

end Threads

/-- One thread becomes a candidate, and the other hears that the node is elected. -/
def twoThreads : Option (Config Bool Lock Election Point) :=
  runSchedule instr false (List.replicate 6 false ++ List.replicate 7 true) (start 3 fun
    | true => [.setLeader 3]
    | false => [.tick])

theorem consistent_twoThreads :
    ∃ c, twoThreads = some c ∧ c.data = ⟨some 3, ⟨3, true, false⟩⟩ ∧ Consistent c.data := by
  cases h : twoThreads with
  | none => exact absurd h (by decide)
  | some c =>
    have hend : twoThreads.map (fun c => (c.data, c.held true, c.held false)) =
        some (⟨some 3, ⟨3, true, false⟩⟩, [], []) := by decide
    rw [h, Option.map_some, Option.some.injEq] at hend
    obtain ⟨hdata, htrue, hfalse⟩ := Prod.mk.inj hend |>.imp_right Prod.mk.inj
    refine ⟨c, rfl, hdata, ?_⟩
    apply consistent_of_unlocked false 3 _ (reach_of_runSchedule h)
    · intro i
      cases i
      · exact hfalse
      · exact htrue
    · intro i
      cases i <;> decide

end ElectionLocks

/-- Any number of threads on one `Election`, and any number on one `ConsensusState`, always finish
or can go on. -/
theorem twoLocks_neverStuck {T : Type} [DecidableEq T] :
    (∀ nodeId (program : T → List ElectionLocks.Call),
        NeverStuck ElectionLocks.instr (ElectionLocks.start nodeId program)) ∧
      ∀ program : T → List ConsensusLocks.Call,
        NeverStuck ConsensusLocks.instr (ConsensusLocks.start program) :=
  ⟨ElectionLocks.start_neverStuck, ConsensusLocks.start_neverStuck⟩

end AnKi
