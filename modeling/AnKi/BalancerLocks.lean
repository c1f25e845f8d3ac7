import AnKi.Assignment
import AnKi.Library.Atomic
import AnKi.Library.Streaks

/-!
# The lock of the load balancer

The operations of the balancer cut at their accesses to the map. All of them hold
a guard throughout, `assign_task` the write guard from the test for emptiness to
the increment. Any number of threads that assign tasks therefore spread them as
evenly as one thread would.
-/

namespace AnKi
open Atomic Locks
set_option autoImplicit false

namespace BalancerLocks
open LoadBalancer

inductive Call where
  | addNode (nodeId : Uuid)
  | removeNode (nodeId : Uuid)
  | assignTask (listing : HashMap.Listing Uuid NodeLoadInfo)
  | completeTask (nodeId : Uuid)
  | report (nodeLoad : NodeLoadInfo)
  | randomNode (listing : HashMap.Listing Uuid NodeLoadInfo) (index : Nat)

/-- What a call has: nothing, an entry of the map, or the node it returns. -/
inductive Value where
  | pending
  | entry (found : Option (Uuid × NodeLoadInfo))
  | returned (nodeId : Option Uuid)
  deriving DecidableEq

def isEmpty : Stage LoadBalancer Value := fun self _ =>
  if self.nodes = ∅ then (self, .returned none) else (self, .pending)

/-- `values_mut().min_by_key(..)` -/
def minByKey (listing : HashMap.Listing Uuid NodeLoadInfo) : Stage LoadBalancer Value
  | self, .pending => (self, .entry (self.leastLoaded (listing.order self.nodes)))
  | self, value => (self, value)

def increment : Stage LoadBalancer Value
  | self, .entry (some (nodeId, nodeInfo)) =>
    (⟨self.nodes.insert nodeId { nodeInfo with taskCount := nodeInfo.taskCount + 1 }⟩,
      .returned (some nodeId))
  | self, .returned nodeId => (self, .returned nodeId)
  | self, _ => (self, .returned none)

/-- `get_mut(node_id)` -/
def getMut (nodeId : Uuid) : Stage LoadBalancer Value := fun self _ =>
  (self, .entry ((self.nodes.get nodeId).map (Prod.mk nodeId)))

def decrement : Stage LoadBalancer Value
  | self, .entry (some (nodeId, nodeInfo)) =>
    if nodeInfo.taskCount > 0 then
      (⟨self.nodes.insert nodeId { nodeInfo with taskCount := nodeInfo.taskCount - 1 }⟩, .pending)
    else (self, .pending)
  | self, _ => (self, .pending)

def setCount (taskCount : UInt64) : Stage LoadBalancer Value
  | self, .entry (some (nodeId, nodeInfo)) =>
    (⟨self.nodes.insert nodeId { nodeInfo with taskCount := taskCount }⟩, .pending)
  | self, _ => (self, .pending)

/-- `keys().choose(..)`, where `index` is what the generator came up with. -/
def choose (listing : HashMap.Listing Uuid NodeLoadInfo) (index : Nat) :
    Stage LoadBalancer Value := fun self _ =>
  let keys := listing.order self.nodes
  (self, .returned keys[index % keys.length]?)

def Call.mode : Call → Mode
  | .randomNode _ _ => .read
  | _ => .write

def Call.stages : Call → List (Stage LoadBalancer Value)
  | .addNode nodeId => [fun self _ => (self.addNode nodeId, .pending)]
  | .removeNode nodeId => [fun self _ => (self.removeNode nodeId, .pending)]
  | .assignTask listing => [isEmpty, minByKey listing, increment]
  | .completeTask nodeId => [getMut nodeId, decrement]
  | .report nodeLoad => [getMut nodeLoad.nodeId, setCount nodeLoad.taskCount]
  | .randomNode listing index => [choose listing index]

def loadBalancer : Object Call LoadBalancer Value where
  mode := Call.mode
  enter _ := .pending
  stages := Call.stages
  reads {call} hmode stage hstage self value := by
    cases call with
    | randomNode listing index =>
      obtain rfl := List.mem_singleton.mp hstage
      rfl
    | addNode | removeNode | assignTask | completeTask | report => cases hmode

/-! ## The operations in one piece -/

theorem perform_assignTask (listing : HashMap.Listing Uuid NodeLoadInfo) (self : LoadBalancer) :
    loadBalancer.perform (.assignTask listing) self =
      ((self.assignTask (listing.order self.nodes)).2,
        .returned (self.assignTask (listing.order self.nodes)).1) := by
  simp only [Object.perform, loadBalancer, Call.stages, runStages, isEmpty, LoadBalancer.assignTask]
  by_cases hempty : self.nodes = ∅
  · simp only [hempty, if_true]
    rfl
  · simp only [hempty, if_false, minByKey]
    cases self.leastLoaded (listing.order self.nodes) with
    | none => rfl
    | some entry => rfl

section Registered

/-- The calls that decide alone whether the node is registered afterwards. -/
def Call.resets (nodeId : Uuid) : Call → Bool
  | .addNode other | .removeNode other => other = nodeId
  | .assignTask _ | .completeTask _ | .report _ | .randomNode _ _ => false

/-- The balancer after these calls, one after another. -/
def afterCalls (calls : List Call) : LoadBalancer :=
  Runs.run (fun self call => (loadBalancer.perform call self).1) new calls

end Registered

/-! ## Tasks assigned by many threads -/

section Assignments
variable {T : Type} {balancer : LoadBalancer}

def assigned? : Value → Option Uuid
  | .returned nodeId => nodeId
  | .pending | .entry _ => none

/-- The nodes that the calls returned, in the order of the history. -/
def assigned (log : List (Returned T Call Value)) : List Uuid :=
  log.filterMap fun returned => assigned? returned.result

theorem Follows.answered {log : List (Returned T Call Value)} {returned : Returned T Call Value}
    {listing : HashMap.Listing Uuid NodeLoadInfo} {self : LoadBalancer}
    (hfollows : Assignment.Follows balancer ⟨self, assigned log⟩) (hnodes : balancer.nodes ≠ ∅)
    (hcall : returned.call = .assignTask listing)
    (hresult : loadBalancer.Answered self returned)
    (hcountable : self.NoOverflow (listing.order self.nodes)) :
    Assignment.Follows balancer ⟨loadBalancer.apply self returned, assigned (log ++ [returned])⟩ ∧
      (assigned (log ++ [returned])).length = (assigned log).length + 1 := by
  have hnext := hfollows.assignTask hnodes (listing.covers self.nodes) hcountable
  rw [Object.Answered, hcall, perform_assignTask] at hresult
  have happly : loadBalancer.apply self returned =
      (self.assignTask (listing.order self.nodes)).2 := by
    rw [Object.apply, hcall, perform_assignTask]
  have hassigned : assigned (log ++ [returned]) =
      assigned log ++ (self.assignTask (listing.order self.nodes)).1.toList := by
    rw [assigned, List.filterMap_append, List.filterMap_cons, List.filterMap_nil, hresult]
    cases (self.assignTask (listing.order self.nodes)).1 <;> rfl
  rw [happly, hassigned]
  exact hnext

/-- Tasks assigned in a history, as long as some node can count all of them. -/
theorem follows_of_sequential {log : List (Returned T Call Value)} {nodeId : Uuid}
    {nodeInfo : NodeLoadInfo} (hget : balancer.nodes.get nodeId = some nodeInfo)
    (hroom : nodeInfo.taskCount.toNat + log.length < 2 ^ 64)
    (hcalls : ∀ returned ∈ log, ∃ listing, returned.call = .assignTask listing)
    (hsequential : loadBalancer.Sequential balancer log) :
    Assignment.Follows balancer ⟨Runs.run loadBalancer.apply balancer log, assigned log⟩ ∧
      (assigned log).length = log.length := by
  have hnodes : balancer.nodes ≠ ∅ := by
    intro hempty
    rw [hempty, HashMap.get_empty] at hget
    cases hget
  induction log using List.reverseRecOn with
  | nil => exact ⟨Assignment.start_follows balancer, rfl⟩
  | append_singleton log returned ih =>
    rw [List.length_append, List.length_singleton] at hroom ⊢
    obtain ⟨hbefore, hanswered, _⟩ := (Runs.along_append _ _ _).mp hsequential
    obtain ⟨hfollows, hlength⟩ := ih (by omega)
      (fun other hother => hcalls other (List.mem_append_left _ hother)) hbefore
    obtain ⟨listing, hcall⟩ := hcalls returned (by simp)
    have hcountable : (Runs.run loadBalancer.apply balancer log).NoOverflow
        (listing.order (Runs.run loadBalancer.apply balancer log).nodes) := by
      apply (noOverflow_iff (listing.covers _)).mpr
      -- the node with room got no more than all of the tasks
      have hload := congrFun hfollows.load nodeId
      rw [Greedy.run_give, Assignment.load_of_get hget] at hload
      have hcount := List.count_le_length (a := nodeId) (l := assigned log)
      have hkey : nodeId ∈ (Runs.run loadBalancer.apply balancer log).nodes.keys := by
        rw [hfollows.registered, HashMap.mem_keys, hget]
        rfl
      obtain ⟨info, hinfo⟩ := Option.isSome_iff_exists.mp ((HashMap.mem_keys _ _).mp hkey)
      rw [Assignment.load_of_get hinfo] at hload
      dsimp only at hload
      exact Or.inr ⟨nodeId, info, hinfo, by omega⟩
    obtain ⟨hnext, hnextLength⟩ := Follows.answered hfollows hnodes hcall hanswered hcountable
    rw [Runs.run_concat, hnextLength, hlength]
    exact ⟨hnext, rfl⟩

/-- Threads that only assign tasks, at a moment when none of them is in the middle of it: every
call got a node, the total grew by exactly the number of calls, and no way to distribute as many
tasks has a lower maximum. -/
theorem threads_assign_evenly [DecidableEq T] [Fintype T] {writersFirst : Bool}
    {program : T → List (HashMap.Listing Uuid NodeLoadInfo)}
    {c : Config T Unit (Shared T Call LoadBalancer Value) (Point T Call LoadBalancer Value)}
    (hreach : Reach loadBalancer.instr writersFirst
      (start balancer fun i => (program i).map Call.assignTask) c)
    (hidle : ∀ i, ((), .write) ∉ c.held i) {nodeId : Uuid} {nodeInfo : NodeLoadInfo}
    (hget : balancer.nodes.get nodeId = some nodeInfo)
    (hroom : nodeInfo.taskCount.toNat + c.data.log.length < 2 ^ 64) :
    Assignment.Optimal balancer c.data.log.length ⟨c.data.data, assigned c.data.log⟩ ∧
      (assigned c.data.log).length = c.data.log.length ∧
      ((∀ i, ¬ Unfinished loadBalancer.instr c i) →
        c.data.log.length = Finset.univ.sum fun i => (program i).length) := by
  have hlinearized := reach_linearized hreach
  have hcalls : ∀ returned ∈ c.data.log, ∃ listing, returned.call = .assignTask listing := by
    intro returned hmem
    obtain ⟨listing, _, hcall⟩ := List.mem_map.mp (mem_program hlinearized hmem)
    exact ⟨listing, hcall.symm⟩
  obtain ⟨hfollows, hlength⟩ :=
    follows_of_sequential hget hroom hcalls hlinearized.sequential
  refine ⟨?_, hlength, ?_⟩
  · have hoptimal := hfollows.optimal
    rw [hlength, ← hlinearized.data hidle] at hoptimal
    exact hoptimal
  · intro hfinished
    rw [length_log]
    apply Finset.sum_congr rfl
    intro i _
    have horder := hlinearized.order i
    rw [not_unfinished_pending (hfinished i), List.append_nil] at horder
    rw [horder, List.length_map]

end Assignments

/-- The nodes 1 and 2 in this order, as long as there are no others. -/
def oneThenTwo : HashMap.Listing Uuid NodeLoadInfo where
  order m := if m.keys = {1, 2} then [1, 2] else Wire.keyOrder m
  covers m := by
    split
    · rename_i hkeys
      refine ⟨by decide, ?_⟩
      intro nodeId
      rw [← HashMap.mem_keys, hkeys]
      simp
    · exact Wire.keyOrder_iterationOrder m

def twoNodes : LoadBalancer := (new.addNode 1).addNode 2

/-- Two threads assign a task each, and the second of them waits for the guard of the first. -/
def twoThreads : Option (Config Bool Unit (Shared Bool Call LoadBalancer Value)
    (Point Bool Call LoadBalancer Value)) :=
  runSchedule loadBalancer.instr true (List.replicate 6 false ++ List.replicate 6 true)
    (start twoNodes fun _ => [oneThenTwo].map Call.assignTask)

theorem threads_assign_evenly_twoThreads : ∃ c, twoThreads = some c ∧
    Assignment.Optimal twoNodes 2 ⟨c.data.data, [1, 2]⟩ := by
  have hrun : twoThreads.map (fun c =>
      (c.data.log.map Returned.result, c.held false, c.held true)) =
      some ([.returned (some 1), .returned (some 2)], [], []) := by
    decide +kernel
  obtain ⟨c, hc, hvalues⟩ := Option.map_eq_some_iff.mp hrun
  obtain ⟨hresults, hheld⟩ := Prod.mk.inj hvalues
  have hlength : c.data.log.length = 2 := by simpa using congrArg List.length hresults
  have hassigned : assigned c.data.log = [1, 2] := by
    have hmap := congrArg (List.filterMap assigned?) hresults
    rwa [List.filterMap_map] at hmap
  have hidle : ∀ i, ((), .write) ∉ c.held i := by
    obtain ⟨hfalse, htrue⟩ := Prod.mk.inj hheld
    intro i
    cases i <;> simp [hfalse, htrue]
  have hget : twoNodes.nodes.get 2 = some ⟨2, 0⟩ := HashMap.get_insert_self _ _ _
  have hroom : (⟨2, 0⟩ : NodeLoadInfo).taskCount.toNat + c.data.log.length < 2 ^ 64 := by
    rw [hlength]
    decide
  refine ⟨c, hc, ?_⟩
  have hoptimal := (threads_assign_evenly (reach_of_runSchedule hc) hidle hget hroom).1
  rwa [hlength, hassigned] at hoptimal

end BalancerLocks

end AnKi
