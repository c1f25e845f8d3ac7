import AnKi.Library.HashMap
import AnKi.Library.Runs
import AnKi.Wire
import Mathlib.Data.List.MinMax

/-!
# load_balancer.rs: the least loaded node

`assign_task` takes the first node of least load in the order the hash map lists
them. The counters are `usize`: the increment wraps, and the decrement stops at
zero. The ledger keeps the balancer together with what its callers know, the
tasks assigned to each node and not yet completed.
-/

namespace AnKi
set_option autoImplicit false

structure NodeLoadInfo where
  nodeId : Uuid
  taskCount : UInt64
  deriving DecidableEq

structure LoadBalancer where
  nodes : HashMap Uuid NodeLoadInfo
  deriving DecidableEq

namespace LoadBalancer

def new : LoadBalancer := ⟨∅⟩

def addNode (nodeId : Uuid) (self : LoadBalancer) : LoadBalancer :=
  ⟨self.nodes.insert nodeId ⟨nodeId, 0⟩⟩

def removeNode (nodeId : Uuid) (self : LoadBalancer) : LoadBalancer :=
  ⟨self.nodes.remove nodeId⟩

/-- The entry of least load, the first one of several. -/
def leastLoaded (order : List Uuid) (self : LoadBalancer) : Option (Uuid × NodeLoadInfo) :=
  (self.nodes.entriesIn order).argmin fun entry => entry.2.taskCount.toNat

def assignTask (order : List Uuid) (self : LoadBalancer) : Option Uuid × LoadBalancer :=
  if self.nodes = ∅ then (none, self)
  else match self.leastLoaded order with
    | some (nodeId, nodeInfo) =>
      (some nodeId,
        ⟨self.nodes.insert nodeId { nodeInfo with taskCount := nodeInfo.taskCount + 1 }⟩)
    | none => (none, self)

def completeTask (nodeId : Uuid) (self : LoadBalancer) : LoadBalancer :=
  match self.nodes.get nodeId with
  | some nodeInfo =>
    if nodeInfo.taskCount > 0 then
      ⟨self.nodes.insert nodeId { nodeInfo with taskCount := nodeInfo.taskCount - 1 }⟩
    else self
  | none => self

/-- One report handled by `monitor_node_load`. -/
def monitorNodeLoad (nodeLoad : NodeLoadInfo) (self : LoadBalancer) : LoadBalancer :=
  match self.nodes.get nodeLoad.nodeId with
  | some nodeInfo =>
    ⟨self.nodes.insert nodeLoad.nodeId { nodeInfo with taskCount := nodeLoad.taskCount }⟩
  | none => self

@[simp] theorem new_nodes : new.nodes = ∅ := rfl

@[simp] theorem addNode_nodes (nodeId : Uuid) (self : LoadBalancer) :
    (self.addNode nodeId).nodes = self.nodes.insert nodeId ⟨nodeId, 0⟩ := rfl

@[simp] theorem removeNode_nodes (nodeId : Uuid) (self : LoadBalancer) :
    (self.removeNode nodeId).nodes = self.nodes.remove nodeId := rfl

structure Least (balancer : LoadBalancer) (nodeId : Uuid) (nodeInfo : NodeLoadInfo) : Prop where
  registered : balancer.nodes.get nodeId = some nodeInfo
  le : ∀ other info, balancer.nodes.get other = some info →
    nodeInfo.taskCount.toNat ≤ info.taskCount.toNat

theorem leastLoaded_least {self : LoadBalancer} {order : List Uuid}
    (horder : HashMap.IterationOrder order self.nodes) {nodeId : Uuid} {nodeInfo : NodeLoadInfo}
    (h : self.leastLoaded order = some (nodeId, nodeInfo)) : self.Least nodeId nodeInfo := by
  constructor
  · exact (HashMap.mem_entriesIn horder nodeId nodeInfo).mp (List.argmin_mem h)
  · intro other info hother
    have hmem := (HashMap.mem_entriesIn horder other info).mpr hother
    exact List.le_of_mem_argmin (f := fun entry => entry.2.taskCount.toNat) hmem h

/-- All that `assign_task` can do: nothing without nodes, else one more task on a least node. -/
theorem assignTask_cases {self : LoadBalancer} {order : List Uuid}
    (horder : HashMap.IterationOrder order self.nodes) :
    (self.nodes = ∅ ∧ self.assignTask order = (none, self)) ∨
      ∃ nodeId nodeInfo, self.Least nodeId nodeInfo ∧ self.assignTask order = (some nodeId,
        ⟨self.nodes.insert nodeId { nodeInfo with taskCount := nodeInfo.taskCount + 1 }⟩) := by
  by_cases hempty : self.nodes = ∅
  · exact Or.inl ⟨hempty, by simp [assignTask, hempty]⟩
  · right
    cases hleast : self.leastLoaded order with
    | none =>
      have hentries : self.nodes.entriesIn order = [] := List.argmin_eq_none.mp hleast
      -- a list without a minimum is empty, and so is then the map
      apply absurd _ hempty
      rw [← HashMap.ofEntries_entriesIn horder, hentries]
      rfl
    | some entry =>
      obtain ⟨nodeId, nodeInfo⟩ := entry
      refine ⟨nodeId, nodeInfo, leastLoaded_least horder hleast, ?_⟩
      simp [assignTask, hempty, hleast]

/-- Some node can count one more task. -/
def HasRoom (self : LoadBalancer) : Prop :=
  ∃ nodeId nodeInfo, self.nodes.get nodeId = some nodeInfo ∧
    nodeInfo.taskCount.toNat + 1 < 2 ^ 64

/-- The counter that the call raises can be raised. -/
def NoOverflow (self : LoadBalancer) (order : List Uuid) : Prop :=
  ∀ nodeId nodeInfo, (self.assignTask order).1 = some nodeId →
    self.nodes.get nodeId = some nodeInfo → nodeInfo.taskCount.toNat + 1 < 2 ^ 64

theorem Least.hasRoom_iff {balancer : LoadBalancer} {nodeId : Uuid} {nodeInfo : NodeLoadInfo}
    (hleast : balancer.Least nodeId nodeInfo) :
    balancer.HasRoom ↔ nodeInfo.taskCount.toNat + 1 < 2 ^ 64 := by
  constructor
  · intro hroom
    rcases hroom with ⟨other, info, hother, hbound⟩
    have hle := hleast.le other info hother
    omega
  · intro hbound
    exact ⟨nodeId, nodeInfo, hleast.registered, hbound⟩

theorem Least.nodes_ne {balancer : LoadBalancer} {nodeId : Uuid} {nodeInfo : NodeLoadInfo}
    (hleast : balancer.Least nodeId nodeInfo) : balancer.nodes ≠ ∅ := by
  intro hempty
  have hnone := hleast.registered
  simp [hempty] at hnone

/-- The node chosen overflows only when every node would. -/
theorem noOverflow_iff {self : LoadBalancer} {order : List Uuid}
    (horder : HashMap.IterationOrder order self.nodes) :
    self.NoOverflow order ↔ self.nodes = ∅ ∨ self.HasRoom := by
  obtain ⟨hempty, hassign⟩ | ⟨nodeId, nodeInfo, hleast, hassign⟩ := assignTask_cases horder
  · refine iff_of_true ?_ (Or.inl hempty)
    intro nodeId nodeInfo hassigned
    simp [hassign] at hassigned
  · simp only [hleast.nodes_ne, false_or, hleast.hasRoom_iff]
    constructor
    · intro h
      exact h nodeId nodeInfo (by rw [hassign]) hleast.registered
    · intro hbound other info hassigned hget
      rw [hassign, Option.some.injEq] at hassigned
      subst hassigned
      rw [hleast.registered, Option.some.injEq] at hget
      subst hget
      exact hbound

end LoadBalancer

/-! ## The ledger -/

namespace Ledger
open LoadBalancer

inductive Operation where
  | addNode (nodeId : Uuid)
  | removeNode (nodeId : Uuid)
  | assignTask (order : List Uuid)
  | completeTask (nodeId : Uuid)

/-- The balancer, and the tasks it assigned to each node that are not completed. -/
structure Account where
  balancer : LoadBalancer
  outstanding : Uuid → Nat

def start : Account := ⟨LoadBalancer.new, fun _ => 0⟩

def step (s : Account) : Operation → Account
  | .addNode nodeId => { s with balancer := s.balancer.addNode nodeId }
  | .removeNode nodeId => { s with balancer := s.balancer.removeNode nodeId }
  | .assignTask order =>
    match s.balancer.assignTask order with
    | (some nodeId, balancer) =>
      ⟨balancer, Function.update s.outstanding nodeId (s.outstanding nodeId + 1)⟩
    | (none, balancer) => { s with balancer := balancer }
  | .completeTask nodeId =>
    ⟨s.balancer.completeTask nodeId,
      Function.update s.outstanding nodeId (s.outstanding nodeId - 1)⟩

/-- The nodes come in some order of the map, and only assigned tasks are completed. -/
def Possible (s : Account) : Operation → Prop
  | .assignTask order => HashMap.IterationOrder order s.balancer.nodes
  | .completeTask nodeId => 0 < s.outstanding nodeId
  | .addNode _ | .removeNode _ => True

/-- The count of every registered node is its outstanding tasks. -/
def Balanced (s : Account) : Prop :=
  ∀ nodeId nodeInfo, s.balancer.nodes.get nodeId = some nodeInfo →
    nodeInfo.taskCount.toNat = s.outstanding nodeId

/-- A node is registered while it has no task outstanding, and a task is assigned while some
registered node can still count it. -/
def Accountable (s : Account) : Operation → Prop
  | .addNode nodeId => s.outstanding nodeId = 0
  | .assignTask _ => s.balancer.nodes = ∅ ∨
      ∃ nodeId, (s.balancer.nodes.get nodeId).isSome ∧ s.outstanding nodeId + 1 < 2 ^ 64
  | .removeNode _ | .completeTask _ => True

theorem balanced_addNode {s : Account} (hs : Balanced s) (nodeId : Uuid) :
    Balanced (step s (.addNode nodeId)) ↔ s.outstanding nodeId = 0 := by
  constructor
  · intro h
    have hnew := h nodeId ⟨nodeId, 0⟩ (by simp [step])
    simpa [step] using hnew.symm
  · intro hzero other info hother
    simp only [step, addNode_nodes, HashMap.get_insert] at hother
    split at hother
    · rename_i heq
      obtain rfl := Option.some.inj hother
      simp [step, heq, hzero]
    · exact hs other info hother

theorem balanced_removeNode {s : Account} (hs : Balanced s) (nodeId : Uuid) :
    Balanced (step s (.removeNode nodeId)) := by
  intro other info hother
  simp only [step, removeNode_nodes, HashMap.get_remove] at hother
  split at hother
  · simp at hother
  · exact hs other info hother

theorem balanced_update {s : Account} (hs : Balanced s) {nodeId : Uuid} {nodeInfo : NodeLoadInfo}
    {tasks : Nat} : Balanced ⟨⟨s.balancer.nodes.insert nodeId nodeInfo⟩,
      Function.update s.outstanding nodeId tasks⟩ ↔ nodeInfo.taskCount.toNat = tasks := by
  constructor
  · intro h
    simpa using h nodeId nodeInfo (HashMap.get_insert_self _ _ _)
  · intro htasks other info hother
    simp only [HashMap.get_insert] at hother
    split at hother
    · rename_i heq
      obtain rfl := Option.some.inj hother
      simpa [heq] using htasks
    · rename_i hne
      simpa [hne] using hs other info hother

theorem balanced_assignTask {s : Account} (hs : Balanced s) {order : List Uuid}
    (horder : HashMap.IterationOrder order s.balancer.nodes) :
    Balanced (step s (.assignTask order)) ↔ Accountable s (.assignTask order) := by
  obtain ⟨hempty, hassign⟩ | ⟨nodeId, nodeInfo, hleast, hassign⟩ := assignTask_cases horder
  · simp only [step, hassign, Accountable, hempty, true_or, iff_true]
    exact hs
  · have hcount := hs nodeId nodeInfo hleast.registered
    simp only [step, hassign, balanced_update hs, ← hcount, Accountable]
    -- the least count wraps only when no registered node has room
    have hlt := nodeInfo.taskCount.toNat_lt
    constructor
    · intro hnext
      refine Or.inr ⟨nodeId, by simp [hleast.registered], ?_⟩
      rw [UInt64.toNat_add] at hnext
      simp only [UInt64.toNat_one] at hnext
      omega
    · intro hroom
      rcases hroom with hempty | ⟨other, hother, hbound⟩
      · have hnone := hleast.registered
        simp [hempty] at hnone
      · obtain ⟨info, hinfo⟩ := Option.isSome_iff_exists.mp hother
        have hle := hleast.le other info hinfo
        have hinfoCount := hs other info hinfo
        rw [UInt64.toNat_add]
        simp only [UInt64.toNat_one]
        omega

theorem balanced_completeTask {s : Account} (hs : Balanced s) {nodeId : Uuid}
    (hassigned : 0 < s.outstanding nodeId) : Balanced (step s (.completeTask nodeId)) := by
  cases hget : s.balancer.nodes.get nodeId with
  | none =>
    intro other info hother
    simp only [step, completeTask, hget] at hother ⊢
    have hne : other ≠ nodeId := by
      intro heq
      rw [heq, hget] at hother
      simp at hother
    simpa [hne] using hs other info hother
  | some nodeInfo =>
    have hcount := hs nodeId nodeInfo hget
    have hpos : nodeInfo.taskCount > 0 := by
      rw [gt_iff_lt, UInt64.lt_iff_toNat_lt, hcount]
      simpa using hassigned
    simp only [step, completeTask, hget, hpos, if_true, balanced_update hs]
    have hone : (1 : UInt64) ≤ nodeInfo.taskCount := by
      rw [UInt64.le_iff_toNat_le, hcount]
      exact hassigned
    rw [UInt64.toNat_sub_of_le _ _ hone, hcount]
    rfl

theorem balanced_step {s : Account} (hs : Balanced s) {operation : Operation}
    (hpossible : Possible s operation) :
    Balanced (step s operation) ↔ Accountable s operation := by
  cases operation with
  | addNode nodeId => exact balanced_addNode hs nodeId
  | removeNode nodeId => exact iff_of_true (balanced_removeNode hs nodeId) trivial
  | assignTask order => exact balanced_assignTask hs hpossible
  | completeTask nodeId => exact iff_of_true (balanced_completeTask hs hpossible) trivial

theorem start_balanced : Balanced start := by
  intro nodeId nodeInfo h
  simp [start] at h

/-- The counts are the outstanding tasks in every state of a run exactly when no node is registered
with tasks outstanding and no task is assigned that its node cannot count. -/
theorem always_balanced_iff {operations : List Operation}
    (hpossible : Runs.Along step Possible start operations) :
    Runs.Always step Balanced start operations ↔
      Runs.Along step Accountable start operations :=
  Runs.always_iff_along (fun _ _ hs hp => balanced_step hs hp) start_balanced hpossible

theorem always_balanced_readded : Runs.Always step Balanced start
    [.addNode 7, .assignTask [7], .completeTask 7, .removeNode 7, .addNode 7, .assignTask [7]] := by
  have hpossible : Runs.Along step Possible start [.addNode 7, .assignTask [7], .completeTask 7,
      .removeNode 7, .addNode 7, .assignTask [7]] := by
    simp only [Runs.along_cons, Runs.along_nil, Possible]
    decide
  exact (always_balanced_iff hpossible).mpr ⟨rfl, Or.inr ⟨7, by decide, by decide⟩, trivial,
    trivial, rfl, Or.inr ⟨7, by decide, by decide⟩, trivial⟩

def LoadLedger : Prop :=
  ∀ operations, Runs.Along step Possible start operations →
    Runs.Always step Balanced start operations

/-- Registering a node again forgets the task it has. -/
theorem not_loadLedger : ¬ LoadLedger := by
  intro h
  have hpossible : Runs.Along step Possible start [.addNode 7, .assignTask [7], .addNode 7] := by
    simp only [Runs.along_cons, Runs.along_nil, Possible]
    decide
  have hbalanced := h _ hpossible _ (List.prefix_refl _) 7 ⟨7, 0⟩ (by decide)
  exact absurd hbalanced (by decide)

end Ledger

end AnKi
