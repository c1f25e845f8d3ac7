import AnKi.Library.Greedy
import AnKi.LoadBalancer

/-!
# Tasks assigned one after another

Consecutive calls of `assign_task` give to the least loaded node, in whatever
order the hash map lists the nodes at each call. The counts they lead to do not
depend on those orders, and are as even as the counts at the start allow.
-/

namespace AnKi
set_option autoImplicit false

namespace LoadBalancer

/-- The count of a registered node. -/
def load (self : LoadBalancer) (nodeId : Uuid) : Nat :=
  (self.nodes.get nodeId).elim 0 fun nodeInfo => nodeInfo.taskCount.toNat

def totalLoad (self : LoadBalancer) : Nat := self.nodes.keys.sum self.load

def maxLoad (self : LoadBalancer) : Nat := self.nodes.keys.sup self.load

def taskCounts (self : LoadBalancer) : Multiset UInt64 :=
  self.nodes.values.map NodeLoadInfo.taskCount

end LoadBalancer

namespace Assignment
open LoadBalancer

/-- The balancer, and the nodes that `assign_task` returned, in order. -/
structure Dispatch where
  balancer : LoadBalancer
  assigned : List Uuid

def assignTask (s : Dispatch) (order : List Uuid) : Dispatch :=
  match s.balancer.assignTask order with
  | (nodeId, balancer) => ⟨balancer, s.assigned ++ nodeId.toList⟩

def after (balancer : LoadBalancer) (orders : List (List Uuid)) : Dispatch :=
  Runs.run assignTask ⟨balancer, []⟩ orders

def Possible (s : Dispatch) (order : List Uuid) : Prop :=
  HashMap.IterationOrder order s.balancer.nodes

def Countable (s : Dispatch) (order : List Uuid) : Prop := s.balancer.NoOverflow order

/-! ## Ties -/

/-- A count after one more task. -/
def next (count : Nat) : Nat := (count + 1) % 2 ^ 64

theorem taskCounts_assignTask {s : Dispatch} {order : List Uuid} (hpossible : Possible s order) :
    (assignTask s order).balancer.taskCounts.map UInt64.toNat =
      Greedy.raiseLeast next (s.balancer.taskCounts.map UInt64.toNat) := by
  obtain ⟨hempty, hassign⟩ | ⟨nodeId, nodeInfo, hleast, hassign⟩ := assignTask_cases hpossible
  · have hvalues : s.balancer.nodes.values = 0 := by
      apply Multiset.eq_zero_of_forall_notMem
      intro nodeInfo hmem
      rw [HashMap.mem_values, hempty] at hmem
      simp at hmem
    simp [assignTask, hassign, taskCounts, hvalues]
  · have hvalues := HashMap.values_insert hleast.registered
      { nodeInfo with taskCount := nodeInfo.taskCount + 1 }
    have hcounts := congrArg (Multiset.map fun info : NodeLoadInfo => info.taskCount.toNat) hvalues
    simp only [assignTask, hassign, taskCounts, Multiset.map_map, Function.comp_def]
    have hmem : nodeInfo.taskCount.toNat ∈
        s.balancer.nodes.values.map fun info : NodeLoadInfo => info.taskCount.toNat :=
      Multiset.mem_map_of_mem _ ((HashMap.mem_values _ _).mpr ⟨nodeId, hleast.registered⟩)
    refine Greedy.eq_raiseLeast next hmem ?_ ?_
    · intro count hcount
      obtain ⟨info, hinfo, rfl⟩ := Multiset.mem_map.mp hcount
      obtain ⟨other, hother⟩ := (HashMap.mem_values _ _).mp hinfo
      exact hleast.le other info hother
    · simpa [next, UInt64.toNat_add] using hcounts

theorem taskCounts_run {s : Dispatch} {orders : List (List Uuid)}
    (hpossible : Runs.Along assignTask Possible s orders) :
    (Runs.run assignTask s orders).balancer.taskCounts.map UInt64.toNat =
      (Greedy.raiseLeast next)^[orders.length] (s.balancer.taskCounts.map UInt64.toNat) := by
  induction orders generalizing s with
  | nil => rfl
  | cons order orders ih =>
    rw [Runs.run_cons, ih hpossible.2, taskCounts_assignTask hpossible.1, List.length_cons,
      Function.iterate_succ_apply]

/-- As many calls lead to the same counts, whichever least loaded nodes they choose. -/
theorem taskCounts_after_eq {balancer : LoadBalancer} {orders orders' : List (List Uuid)}
    (hlength : orders.length = orders'.length)
    (hpossible : Runs.Along assignTask Possible ⟨balancer, []⟩ orders)
    (hpossible' : Runs.Along assignTask Possible ⟨balancer, []⟩ orders') :
    (after balancer orders).balancer.taskCounts = (after balancer orders').balancer.taskCounts := by
  have hinjective : Function.Injective UInt64.toNat := fun _ _ h => UInt64.toNat_inj.mp h
  apply Multiset.map_injective hinjective
  rw [after, after, taskCounts_run hpossible, taskCounts_run hpossible', hlength]

/-- Two nodes without tasks, listed one way or the other. -/
theorem taskCounts_after_twoNodes :
    (after ((LoadBalancer.new.addNode 1).addNode 2) [[1, 2]]).balancer.taskCounts =
      (after ((LoadBalancer.new.addNode 1).addNode 2) [[2, 1]]).balancer.taskCounts := by
  have hpossible : ∀ order ∈ [[1, 2], [2, 1]], Runs.Along assignTask Possible
      ⟨(LoadBalancer.new.addNode 1).addNode 2, []⟩ [order] := by
    simp only [Runs.along_cons, Runs.along_nil, Possible]
    decide
  exact taskCounts_after_eq rfl (hpossible [1, 2] (by simp)) (hpossible [2, 1] (by simp))

/-! ## Even counts -/

/-- What was given to the nodes explains their counts, and each time it was a least one. -/
structure Follows (balancer : LoadBalancer) (s : Dispatch) : Prop where
  registered : s.balancer.nodes.keys = balancer.nodes.keys
  least : Runs.Along Greedy.give (Greedy.Least balancer.nodes.keys) balancer.load s.assigned
  load : s.balancer.load = Runs.run Greedy.give balancer.load s.assigned

theorem load_of_get {balancer : LoadBalancer} {nodeId : Uuid} {nodeInfo : NodeLoadInfo}
    (h : balancer.nodes.get nodeId = some nodeInfo) :
    balancer.load nodeId = nodeInfo.taskCount.toNat := by
  simp [load, h]

theorem load_assign {balancer : LoadBalancer} {nodeId : Uuid} {nodeInfo : NodeLoadInfo}
    (h : balancer.nodes.get nodeId = some nodeInfo)
    (hbound : nodeInfo.taskCount.toNat + 1 < 2 ^ 64) :
    load ⟨balancer.nodes.insert nodeId { nodeInfo with taskCount := nodeInfo.taskCount + 1 }⟩ =
      Greedy.give balancer.load nodeId := by
  funext other
  rw [load, HashMap.get_insert, Greedy.give]
  split
  · rename_i hid
    rw [hid, Function.update_self, load_of_get h, Option.elim_some, UInt64.toNat_add,
      UInt64.toNat_one, Nat.mod_eq_of_lt hbound]
  · rename_i hid
    rw [Function.update_of_ne hid]
    rfl

theorem least_load {balancer : LoadBalancer} {nodeId : Uuid} {nodeInfo : NodeLoadInfo}
    (hleast : balancer.Least nodeId nodeInfo) :
    Greedy.Least balancer.nodes.keys balancer.load nodeId := by
  constructor
  · rw [HashMap.mem_keys, hleast.registered]
    rfl
  · intro other hother
    obtain ⟨info, hinfo⟩ := Option.isSome_iff_exists.mp ((HashMap.mem_keys _ _).mp hother)
    rw [load_of_get hleast.registered, load_of_get hinfo]
    exact hleast.le other info hinfo

theorem start_follows (balancer : LoadBalancer) : Follows balancer ⟨balancer, []⟩ :=
  ⟨rfl, trivial, rfl⟩

theorem Follows.assignTask {balancer : LoadBalancer} (hnodes : balancer.nodes ≠ ∅) {s : Dispatch}
    (hs : Follows balancer s) {order : List Uuid} (hpossible : Possible s order)
    (hcountable : Countable s order) : Follows balancer (assignTask s order) ∧
      (assignTask s order).assigned.length = s.assigned.length + 1 := by
  obtain ⟨hempty, _⟩ | ⟨nodeId, nodeInfo, hleast, hassign⟩ := assignTask_cases hpossible
  · have hkeys := hs.registered
    rw [hempty, (HashMap.keys_eq_empty_iff _).mpr rfl] at hkeys
    exact absurd ((HashMap.keys_eq_empty_iff _).mp hkeys.symm) hnodes
  · have hbound := hcountable nodeId nodeInfo (by rw [hassign]) hleast.registered
    have hload := load_assign hleast.registered hbound
    have hnode := least_load hleast
    have hsome : (s.balancer.nodes.get nodeId).isSome := by simp [hleast.registered]
    simp only [Assignment.assignTask, hassign, Option.toList_some, List.length_append,
      List.length_singleton, and_true]
    refine ⟨?_, ?_, ?_⟩
    · rw [HashMap.keys_insert_of_isSome hsome, hs.registered]
    · rw [hs.registered, hs.load] at hnode
      exact (Runs.along_append _ _ _).mpr ⟨hs.least, hnode, trivial⟩
    · rw [hload, hs.load, Runs.run_concat]

theorem Follows.run {balancer : LoadBalancer} (hnodes : balancer.nodes ≠ ∅) {s : Dispatch}
    (hs : Follows balancer s) {orders : List (List Uuid)}
    (hpossible : Runs.Along Assignment.assignTask Possible s orders)
    (hcountable : Runs.Along Assignment.assignTask Countable s orders) :
    Follows balancer (Runs.run Assignment.assignTask s orders) ∧
      (Runs.run Assignment.assignTask s orders).assigned.length =
        s.assigned.length + orders.length := by
  induction orders generalizing s with
  | nil => exact ⟨hs, rfl⟩
  | cons order orders ih =>
    obtain ⟨hnext, hlength⟩ := hs.assignTask hnodes hpossible.1 hcountable.1
    obtain ⟨hfinal, hlengths⟩ := ih hnext hpossible.2 hcountable.2
    refine ⟨hfinal, ?_⟩
    rw [Runs.run_cons, hlengths, hlength, List.length_cons]
    omega

/-- The outcome of `k` calls: the total grew by `k`, no node that got a task is more than one above
another, and no way to distribute `k` tasks has a lower maximum. -/
structure Optimal (balancer : LoadBalancer) (k : Nat) (s : Dispatch) : Prop where
  total : s.balancer.totalLoad = balancer.totalLoad + k
  level : ∀ nodeId ∈ s.assigned, ∀ other ∈ s.balancer.nodes.keys,
    s.balancer.load nodeId ≤ s.balancer.load other + 1
  peak : IsLeast {peak | ∃ extra : Uuid → Nat, balancer.nodes.keys.sum extra = k ∧
    peak = balancer.nodes.keys.sup fun nodeId => balancer.load nodeId + extra nodeId}
      s.balancer.maxLoad

theorem Follows.optimal {balancer : LoadBalancer} {s : Dispatch} (hs : Follows balancer s) :
    Optimal balancer s.assigned.length s := by
  refine ⟨?_, ?_, ?_⟩
  · rw [totalLoad, hs.registered, hs.load]
    exact Greedy.sum_run_give (Greedy.mem_of_along hs.least)
  · intro nodeId hnode other hother
    rw [hs.registered] at hother
    rw [hs.load]
    exact Greedy.level hs.least hnode hother
  · rw [maxLoad, hs.registered, hs.load]
    exact Greedy.peak_isLeast hs.least

/-- Greedy assignment is optimal, as long as the counters can count. -/
theorem after_optimal {balancer : LoadBalancer} (hnodes : balancer.nodes ≠ ∅)
    {orders : List (List Uuid)}
    (hpossible : Runs.Along assignTask Possible ⟨balancer, []⟩ orders)
    (hcountable : Runs.Along assignTask Countable ⟨balancer, []⟩ orders) :
    Optimal balancer orders.length (after balancer orders) := by
  obtain ⟨hfollows, hlength⟩ := (start_follows balancer).run hnodes hpossible hcountable
  simp only [List.length_nil, Nat.zero_add] at hlength
  have hoptimal := hfollows.optimal
  rwa [hlength] at hoptimal

/-- Two nodes, one of them with a task, get two more. -/
theorem after_optimal_twoNodes :
    Optimal ⟨((LoadBalancer.new.addNode 1).addNode 2).nodes.insert 1 ⟨1, 1⟩⟩ 2
      (after ⟨((LoadBalancer.new.addNode 1).addNode 2).nodes.insert 1 ⟨1, 1⟩⟩
        [[1, 2], [2, 1]]) := by
  have hpossible : Runs.Along assignTask Possible
      ⟨⟨((LoadBalancer.new.addNode 1).addNode 2).nodes.insert 1 ⟨1, 1⟩⟩, []⟩
      [[1, 2], [2, 1]] := by
    simp only [Runs.along_cons, Runs.along_nil, Possible]
    decide
  apply after_optimal _ hpossible
  · refine ⟨(noOverflow_iff hpossible.1).mpr (Or.inr ⟨2, ⟨2, 0⟩, ?_, ?_⟩),
      (noOverflow_iff hpossible.2.1).mpr (Or.inr ⟨2, ⟨2, 1⟩, ?_, ?_⟩), trivial⟩
    all_goals decide
  · intro hempty
    have hnone := congrArg (fun nodes => HashMap.get nodes 2) hempty
    exact absurd hnone (by decide)

end Assignment

end AnKi
