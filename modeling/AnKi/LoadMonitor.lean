import AnKi.Health
import AnKi.LoadReports

/-!
# The loop of monitor_node_load, and the bounds of the counters

`while let Ok(..)` ends at the first error, and a receiver that only lagged gets
one too. The reports that are handled set the counters to whatever they carry, so
they decide whether a later task can be counted.
-/

namespace AnKi.LoadMonitor
open LoadBalancer
set_option autoImplicit false

/-! ## Lag -/

abbrev Outcome := Except Health.RecvError NodeLoadInfo

def monitor : List Outcome → LoadBalancer → LoadBalancer
  | .ok nodeLoad :: outcomes, self => monitor outcomes (self.monitorNodeLoad nodeLoad)
  | .error _ :: _, self => self
  | [], self => self

/-- What a receiver gets before the channel is closed. -/
inductive Reception where
  | report (nodeLoad : NodeLoadInfo)
  | lagged (skipped : UInt64)
  deriving DecidableEq

def Reception.outcome : Reception → Outcome
  | .report nodeLoad => .ok nodeLoad
  | .lagged skipped => .error (.lagged skipped)

def Reception.isReport : Reception → Bool
  | .report _ => true
  | .lagged _ => false

def outcomes (receptions : List Reception) : List Outcome :=
  receptions.map Reception.outcome ++ [.error .closed]

def countFor (nodeId : Uuid) : Reception → Option UInt64
  | .report nodeLoad => if nodeId = nodeLoad.nodeId then some nodeLoad.taskCount else none
  | .lagged _ => none

def lastReport (nodeId : Uuid) (receptions : List Reception) : Option UInt64 :=
  (receptions.filterMap (countFor nodeId)).getLast?

def beforeLag (receptions : List Reception) : List Reception :=
  receptions.takeWhile Reception.isReport

def afterLag (receptions : List Reception) : List Reception :=
  receptions.dropWhile Reception.isReport

/-- Every count is the last one reported, and the registered nodes are the same. -/
def FollowsReports (self : LoadBalancer) (receptions : List Reception) : Prop :=
  ∀ nodeId, (monitor (outcomes receptions) self).nodes.get nodeId =
    (self.nodes.get nodeId).map fun nodeInfo =>
      { nodeInfo with taskCount := (lastReport nodeId receptions).getD nodeInfo.taskCount }

/-- The last report for a node after the first lag carries the count the node had before it. -/
def LagHarmless (self : LoadBalancer) (receptions : List Reception) : Prop :=
  ∀ nodeId nodeInfo, self.nodes.get nodeId = some nodeInfo →
    ∀ count, lastReport nodeId (afterLag receptions) = some count →
      count = (lastReport nodeId (beforeLag receptions)).getD nodeInfo.taskCount

theorem monitorNodeLoad_get (self : LoadBalancer) (nodeLoad : NodeLoadInfo) (nodeId : Uuid) :
    (self.monitorNodeLoad nodeLoad).nodes.get nodeId =
      (self.nodes.get nodeId).map fun nodeInfo =>
        { nodeInfo with
          taskCount := (countFor nodeId (.report nodeLoad)).getD nodeInfo.taskCount } := by
  unfold monitorNodeLoad countFor
  cases hget : self.nodes.get nodeLoad.nodeId with
  | none =>
    by_cases hid : nodeId = nodeLoad.nodeId
    · simp [hid, hget]
    · simp [hid]
  | some nodeInfo =>
    by_cases hid : nodeId = nodeLoad.nodeId
    · simp [hid, hget]
    · simp [hid, HashMap.get_insert]

theorem lastReport_append (nodeId : Uuid) (first second : List Reception) :
    lastReport nodeId (first ++ second) =
      (lastReport nodeId second).or (lastReport nodeId first) := by
  rw [lastReport, List.filterMap_append, List.getLast?_append]
  rfl

theorem lastReport_cons (nodeId : Uuid) (reception : Reception) (receptions : List Reception) :
    lastReport nodeId (reception :: receptions) =
      (lastReport nodeId receptions).or (countFor nodeId reception) := by
  have hsplit := lastReport_append nodeId [reception] receptions
  rw [List.singleton_append] at hsplit
  rw [hsplit]
  cases hcount : countFor nodeId reception <;> simp [lastReport, hcount]

/-- The loop handles the reports before the first lag. -/
theorem monitor_get (self : LoadBalancer) (receptions : List Reception) (nodeId : Uuid) :
    (monitor (outcomes receptions) self).nodes.get nodeId =
      (self.nodes.get nodeId).map fun nodeInfo =>
        { nodeInfo with
          taskCount := (lastReport nodeId (beforeLag receptions)).getD nodeInfo.taskCount } := by
  induction receptions generalizing self with
  | nil => simp [monitor, outcomes, beforeLag, lastReport]
  | cons reception receptions ih =>
    cases reception with
    | lagged skipped =>
      simp [monitor, outcomes, beforeLag, Reception.outcome, Reception.isReport, lastReport]
    | report nodeLoad =>
      have hmonitor : monitor (outcomes (.report nodeLoad :: receptions)) self =
          monitor (outcomes receptions) (self.monitorNodeLoad nodeLoad) := rfl
      have hbefore : beforeLag (.report nodeLoad :: receptions) =
          .report nodeLoad :: beforeLag receptions := rfl
      rw [hmonitor, ih, monitorNodeLoad_get, hbefore, lastReport_cons, Option.map_map]
      congr 1
      funext nodeInfo
      cases lastReport nodeId (beforeLag receptions) <;> rfl

/-- The counts end as they were last reported exactly when nothing but repetitions was reported
after the first lag. -/
theorem followsReports_iff (self : LoadBalancer) (receptions : List Reception) :
    FollowsReports self receptions ↔ LagHarmless self receptions := by
  have hsplit : ∀ nodeId, lastReport nodeId receptions =
      (lastReport nodeId (afterLag receptions)).or
        (lastReport nodeId (beforeLag receptions)) := by
    intro nodeId
    rw [← lastReport_append, beforeLag, afterLag, List.takeWhile_append_dropWhile]
  constructor
  · intro h nodeId nodeInfo hget count hcount
    have hfollows := h nodeId
    rw [monitor_get, hsplit, hcount, hget] at hfollows
    simpa using hfollows.symm
  · intro h nodeId
    rw [monitor_get, hsplit]
    cases hget : self.nodes.get nodeId with
    | none => rfl
    | some nodeInfo =>
      cases hcount : lastReport nodeId (afterLag receptions) with
      | none => rfl
      | some count =>
        have hsame := h nodeId nodeInfo hget count hcount
        simp [← hsame]

def MonitorSurvivesLag : Prop := ∀ self receptions, FollowsReports self receptions

/-- A report that comes after a lag is not handled. -/
theorem not_monitorSurvivesLag : ¬ MonitorSurvivesLag := by
  intro h
  have hfollows := h (LoadBalancer.new.addNode 7) [.lagged 1, .report ⟨7, 5⟩] 7
  exact absurd hfollows (by decide)

/-! ## The bounds of the counters -/

inductive Operation where
  | addNode (nodeId : Uuid)
  | removeNode (nodeId : Uuid)
  | assignTask (order : List Uuid)
  | completeTask (nodeId : Uuid)
  | monitorNodeLoad (nodeLoad : NodeLoadInfo)
  deriving DecidableEq

def step (self : LoadBalancer) : Operation → LoadBalancer
  | .addNode nodeId => self.addNode nodeId
  | .removeNode nodeId => self.removeNode nodeId
  | .assignTask order => (self.assignTask order).2
  | .completeTask nodeId => self.completeTask nodeId
  | .monitorNodeLoad nodeLoad => self.monitorNodeLoad nodeLoad

def Possible (self : LoadBalancer) : Operation → Prop
  | .assignTask order => HashMap.IterationOrder order self.nodes
  | _ => True

/-- A count that wrapped below zero would be higher than before. -/
def NoUnderflow (self : LoadBalancer) (nodeId : Uuid) : Prop :=
  ∀ before after, self.nodes.get nodeId = some before →
    (self.completeTask nodeId).nodes.get nodeId = some after →
      after.taskCount.toNat ≤ before.taskCount.toNat

/-- The counter that the operation raises or lowers stays in its range. -/
def InRange (self : LoadBalancer) : Operation → Prop
  | .assignTask order => self.NoOverflow order
  | .completeTask nodeId => NoUnderflow self nodeId
  | .addNode _ | .removeNode _ | .monitorNodeLoad _ => True

/-- A task is assigned while there is no node, or some node that can count it. -/
def Roomy (self : LoadBalancer) : Operation → Prop
  | .assignTask _ => self.nodes = ∅ ∨ self.HasRoom
  | _ => True

theorem noUnderflow (self : LoadBalancer) (nodeId : Uuid) : NoUnderflow self nodeId := by
  intro before after hbefore hafter
  obtain ⟨info, hinfo, hcount⟩ := LoadReports.completeTask_get hafter
  rw [hbefore, Option.some.injEq] at hinfo
  subst hinfo
  omega

theorem inRange_iff {self : LoadBalancer} {operation : Operation}
    (hpossible : Possible self operation) : InRange self operation ↔ Roomy self operation := by
  cases operation with
  | assignTask order => exact noOverflow_iff hpossible
  | completeTask nodeId => exact iff_of_true (noUnderflow self nodeId) trivial
  | addNode | removeNode | monitorNodeLoad => exact Iff.rfl

/-- No counter leaves its range in a run exactly when no task is assigned while every node is
full. -/
theorem inRange_iff_roomy {operations : List Operation}
    (hpossible : Runs.Along step Possible LoadBalancer.new operations) :
    Runs.Along step InRange LoadBalancer.new operations ↔
      Runs.Along step Roomy LoadBalancer.new operations :=
  Runs.along_congr (fun _ _ => inRange_iff) hpossible

theorem inRange_reported : Runs.Along step InRange LoadBalancer.new
    [.addNode 7, .monitorNodeLoad ⟨7, 5⟩, .assignTask [7], .completeTask 7] := by
  have hpossible : Runs.Along step Possible LoadBalancer.new
      [.addNode 7, .monitorNodeLoad ⟨7, 5⟩, .assignTask [7], .completeTask 7] := by
    simp only [Runs.along_cons, Runs.along_nil, Possible]
    decide
  refine (inRange_iff_roomy hpossible).mpr ⟨trivial, trivial, Or.inr ⟨7, ⟨7, 5⟩, ?_, ?_⟩,
    trivial, trivial⟩
  all_goals decide

def CountersInRange : Prop :=
  ∀ operations, Runs.Along step Possible LoadBalancer.new operations →
    Runs.Along step InRange LoadBalancer.new operations

/-- The only node reports the largest count there is. -/
theorem not_countersInRange : ¬ CountersInRange := by
  intro h
  have hpossible : Runs.Along step Possible LoadBalancer.new
      [.addNode 7, .monitorNodeLoad ⟨7, 18446744073709551615⟩, .assignTask [7]] := by
    simp only [Runs.along_cons, Runs.along_nil, Possible]
    decide
  have hoverflow := (h _ hpossible).2.2.1 7 ⟨7, 18446744073709551615⟩ (by decide) (by decide)
  exact absurd hoverflow (by decide)

/-! ## Bounded reports -/

def isAssign : Operation → Bool
  | .assignTask _ => true
  | _ => false

def ReportsUpTo (bound : Nat) (operations : List Operation) : Prop :=
  ∀ nodeLoad, .monitorNodeLoad nodeLoad ∈ operations → nodeLoad.taskCount.toNat ≤ bound

def CountsUpTo (bound : Nat) (self : LoadBalancer) : Prop :=
  ∀ nodeId nodeInfo, self.nodes.get nodeId = some nodeInfo → nodeInfo.taskCount.toNat ≤ bound

theorem CountsUpTo.step {bound : Nat} {self : LoadBalancer} (h : CountsUpTo bound self)
    {operation : Operation} (hpossible : Possible self operation)
    (hreport : ∀ nodeLoad, operation = .monitorNodeLoad nodeLoad →
      nodeLoad.taskCount.toNat ≤ bound) :
    CountsUpTo (if isAssign operation then bound + 1 else bound) (step self operation) := by
  intro nodeId nodeInfo hget
  cases operation with
  | addNode added =>
    simp only [LoadMonitor.step, addNode_nodes, HashMap.get_insert] at hget
    split at hget
    · obtain rfl := Option.some.inj hget
      exact Nat.zero_le _
    · exact h nodeId nodeInfo hget
  | removeNode removed =>
    simp only [LoadMonitor.step, removeNode_nodes, HashMap.get_remove] at hget
    split at hget
    · simp at hget
    · exact h nodeId nodeInfo hget
  | assignTask order =>
    simp only [isAssign, if_true]
    obtain ⟨_, hassign⟩ | ⟨chosen, chosenInfo, hleast, hassign⟩ := assignTask_cases hpossible
    · simp only [LoadMonitor.step, hassign] at hget
      exact (h nodeId nodeInfo hget).trans (Nat.le_succ bound)
    · simp only [LoadMonitor.step, hassign, HashMap.get_insert] at hget
      split at hget
      · obtain rfl := Option.some.inj hget
        have hle := h chosen chosenInfo hleast.registered
        rw [UInt64.toNat_add, UInt64.toNat_one]
        exact (Nat.mod_le _ _).trans (Nat.succ_le_succ hle)
      · exact (h nodeId nodeInfo hget).trans (Nat.le_succ bound)
  | completeTask completed =>
    by_cases hid : nodeId = completed
    · subst hid
      obtain ⟨before, hbefore, hcount⟩ := LoadReports.completeTask_get hget
      have hle := h nodeId before hbefore
      simp only [isAssign, Bool.false_eq_true, if_false]
      omega
    · simp only [LoadMonitor.step, LoadReports.completeTask_get_of_ne hid] at hget
      exact h nodeId nodeInfo hget
  | monitorNodeLoad nodeLoad =>
    simp only [LoadMonitor.step, monitorNodeLoad_get, Option.map_eq_some_iff] at hget
    obtain ⟨before, hbefore, rfl⟩ := hget
    simp only [countFor, isAssign, Bool.false_eq_true, if_false]
    split
    · exact hreport nodeLoad rfl
    · exact h nodeId before hbefore

/-- There is room for every task when the reports leave room for as many as are assigned. -/
theorem roomy_of_reportsUpTo {bound : Nat} {operations : List Operation} {self : LoadBalancer}
    (hself : CountsUpTo bound self) (hreports : ReportsUpTo bound operations)
    (hbound : bound + operations.countP isAssign < 2 ^ 64)
    (hpossible : Runs.Along step Possible self operations) :
    Runs.Along step Roomy self operations := by
  induction operations generalizing self bound with
  | nil => trivial
  | cons operation operations ih =>
    have hnext := hself.step hpossible.1 fun nodeLoad hoperation =>
      hreports nodeLoad (hoperation ▸ List.mem_cons_self)
    rw [List.countP_cons] at hbound
    refine ⟨?_, ih hnext ?_ ?_ hpossible.2⟩
    · cases operation with
      | assignTask order =>
        simp only [isAssign, if_true] at hbound
        by_cases hempty : self.nodes = ∅
        · exact Or.inl hempty
        · obtain ⟨hnodes, _⟩ | ⟨nodeId, nodeInfo, hleast, _⟩ := assignTask_cases hpossible.1
          · exact absurd hnodes hempty
          · have hle := hself nodeId nodeInfo hleast.registered
            exact Or.inr (hleast.hasRoom_iff.mpr (by omega))
      | _ => trivial
    · intro nodeLoad hmem
      have hle := hreports nodeLoad (List.mem_cons_of_mem _ hmem)
      split <;> omega
    · cases hassign : isAssign operation with
      | true =>
        simp only [hassign, if_true] at hbound ⊢
        omega
      | false => simpa [hassign] using hbound

end AnKi.LoadMonitor
