import AnKi.Library.Atomic
import AnKi.Library.Streaks
import AnKi.Wire

/-!
# node_registry.rs: the registry that the threads share

`register_node` reads the clock before it takes the lock, `update_last_seen` while
it has it, so a registration may enter an older time than the one it replaces.
What the registry says of a node is read off the history of the calls: the role
given last, and the time of the last update since.
-/

namespace AnKi
open Atomic Locks
set_option autoImplicit false

namespace Registry

structure NodeInfo where
  nodeId : Uuid
  lastSeen : Int
  role : String
  deriving DecidableEq

abbrev Nodes := HashMap Uuid NodeInfo

/-- A call, with the time that the clock shows where it reads it. -/
inductive Call where
  | registerNode (nodeId : Uuid) (role : String) (now : Int)
  | updateLastSeen (nodeId : Uuid) (now : Int)
  | removeNode (nodeId : Uuid)
  | listActiveNodes (listing : HashMap.Listing Uuid NodeInfo)
  | getNodeInfo (nodeId : Uuid)

inductive Answer where
  | done
  | entry (nodeInfo : Option NodeInfo)
  | nodes (nodeInfos : List NodeInfo)
  deriving DecidableEq

def insertEntry : Stage Nodes Answer
  | nodes, .entry (some nodeInfo) => (nodes.insert nodeInfo.nodeId nodeInfo, .done)
  | nodes, _ => (nodes, .done)

def lookup (nodeId : Uuid) : Stage Nodes Answer := fun nodes _ => (nodes, .entry (nodes.get nodeId))

/-- Through the reference that `get_mut` returned. -/
def touch (nodeId : Uuid) (now : Int) : Stage Nodes Answer
  | nodes, .entry (some nodeInfo) =>
    (nodes.insert nodeId { nodeInfo with lastSeen := now }, .done)
  | nodes, _ => (nodes, .done)

def values (listing : HashMap.Listing Uuid NodeInfo) : Stage Nodes Answer := fun nodes _ =>
  (nodes, .nodes (nodes.valuesIn (listing.order nodes)))

def Call.mode : Call → Mode
  | .registerNode _ _ _ | .updateLastSeen _ _ | .removeNode _ => .write
  | .listActiveNodes _ | .getNodeInfo _ => .read

def Call.enter : Call → Answer
  | .registerNode nodeId role now => .entry (some ⟨nodeId, now, role⟩)
  | .updateLastSeen _ _ | .removeNode _ | .listActiveNodes _ | .getNodeInfo _ => .done

def Call.stages : Call → List (Stage Nodes Answer)
  | .registerNode _ _ _ => [insertEntry]
  | .updateLastSeen nodeId now => [lookup nodeId, touch nodeId now]
  | .removeNode nodeId => [fun nodes _ => (nodes.remove nodeId, .done)]
  | .listActiveNodes listing => [values listing]
  | .getNodeInfo nodeId => [lookup nodeId]

def nodeRegistry : Object Call Nodes Answer where
  mode := Call.mode
  enter := Call.enter
  stages := Call.stages
  reads {call} hmode stage hstage nodes answer := by
    cases call with
    | registerNode | updateLastSeen | removeNode => cases hmode
    | listActiveNodes | getNodeInfo =>
      obtain rfl := List.mem_singleton.mp hstage
      rfl

/-! ## What the history says -/

/-- The calls that decide alone what is said of the node afterwards. -/
def Call.resets (nodeId : Uuid) : Call → Bool
  | .registerNode other _ _ | .removeNode other => other = nodeId
  | .updateLastSeen _ _ | .listActiveNodes _ | .getNodeInfo _ => false

def Call.seen? (nodeId : Uuid) : Call → Option Int
  | .updateLastSeen other now => if other = nodeId then some now else none
  | .registerNode _ _ _ | .removeNode _ | .listActiveNodes _ | .getNodeInfo _ => none

def recordedSince (nodeId : Uuid) : Call → List Call → Option NodeInfo
  | .registerNode _ role now, later =>
    some ⟨nodeId, (later.filterMap (Call.seen? nodeId)).getLast?.getD now, role⟩
  | _, _ => none

/-- The role is the one of the last registration, the time that of the last update since. -/
def recorded (nodeId : Uuid) (calls : List Call) : Option NodeInfo :=
  (Streaks.sinceLast (Call.resets nodeId) calls).bind fun found =>
    recordedSince nodeId found.1 found.2

/-- What one call makes of an entry. -/
def Call.record (nodeId : Uuid) (before : Option NodeInfo) : Call → Option NodeInfo
  | .registerNode other role now => if other = nodeId then some ⟨nodeId, now, role⟩ else before
  | .updateLastSeen other now =>
    if other = nodeId then before.map fun nodeInfo => { nodeInfo with lastSeen := now } else before
  | .removeNode other => if other = nodeId then none else before
  | .listActiveNodes _ | .getNodeInfo _ => before

theorem record_of_not_resets {nodeId : Uuid} {call : Call} (h : call.resets nodeId = false)
    (before : Option NodeInfo) : call.record nodeId before =
      before.map fun nodeInfo =>
        { nodeInfo with lastSeen := (call.seen? nodeId).getD nodeInfo.lastSeen } := by
  cases call with
  | registerNode other role now =>
    have hid : other ≠ nodeId := by simpa [Call.resets] using h
    simp [Call.record, Call.seen?, hid]
  | updateLastSeen other now =>
    by_cases hid : other = nodeId
    · simp [Call.record, Call.seen?, hid]
    · simp [Call.record, Call.seen?, hid]
  | removeNode other =>
    have hid : other ≠ nodeId := by simpa [Call.resets] using h
    simp [Call.record, Call.seen?, hid]
  | listActiveNodes | getNodeInfo => simp [Call.record, Call.seen?]

theorem recordedSince_concat {nodeId : Uuid} {call : Call} (h : call.resets nodeId = false)
    (first : Call) (later : List Call) : recordedSince nodeId first (later ++ [call]) =
      call.record nodeId (recordedSince nodeId first later) := by
  rw [record_of_not_resets h]
  cases first with
  | registerNode other role now =>
    rw [recordedSince, recordedSince, Option.map_some, List.filterMap_append, List.getLast?_append]
    cases hseen : call.seen? nodeId with
    | none => simp [hseen]
    | some seen => simp [hseen]
  | updateLastSeen | removeNode | listActiveNodes | getNodeInfo => rfl

theorem recorded_concat (nodeId : Uuid) (calls : List Call) (call : Call) :
    recorded nodeId (calls ++ [call]) = call.record nodeId (recorded nodeId calls) := by
  rw [recorded, Streaks.sinceLast_concat]
  cases hresets : call.resets nodeId with
  | true =>
    rw [if_pos rfl, Option.bind_some]
    cases call with
    | registerNode other role now =>
      have hid : other = nodeId := by simpa [Call.resets] using hresets
      simp [recordedSince, Call.record, hid]
    | removeNode other =>
      have hid : other = nodeId := by simpa [Call.resets] using hresets
      simp [recordedSince, Call.record, hid]
    | updateLastSeen | listActiveNodes | getNodeInfo => cases hresets
  | false =>
    rw [if_neg Bool.false_ne_true, recorded]
    cases Streaks.sinceLast (Call.resets nodeId) calls with
    | none => simp [record_of_not_resets hresets]
    | some found => exact recordedSince_concat hresets found.1 found.2

/-! ## What the registry answers -/

/-- The registry after these calls, one after another. -/
def afterCalls (calls : List Call) : Nodes :=
  Runs.run (fun nodes call => (nodeRegistry.perform call nodes).1) ∅ calls

theorem get_perform (nodes : Nodes) (call : Call) (nodeId : Uuid) :
    (nodeRegistry.perform call nodes).1.get nodeId = call.record nodeId (nodes.get nodeId) := by
  cases call with
  | registerNode other role now =>
    simp only [Object.perform, nodeRegistry, Call.stages, Call.enter, runStages, insertEntry,
      HashMap.get_insert, Call.record]
    by_cases hid : nodeId = other
    · simp [hid]
    · simp [hid, Ne.symm hid]
  | updateLastSeen other now =>
    simp only [Object.perform, nodeRegistry, Call.stages, Call.enter, runStages, lookup,
      Call.record]
    cases hget : nodes.get other with
    | none =>
      by_cases hid : other = nodeId
      · simp [touch, ← hid, hget]
      · simp [touch, hid]
    | some nodeInfo =>
      by_cases hid : other = nodeId
      · simp [touch, ← hid, hget]
      · simp [touch, hid, HashMap.get_insert, Ne.symm hid]
  | removeNode other =>
    simp only [Object.perform, nodeRegistry, Call.stages, Call.enter, runStages,
      HashMap.get_remove, Call.record]
    by_cases hid : nodeId = other
    · simp [hid]
    · simp [hid, Ne.symm hid]
  | listActiveNodes | getNodeInfo => rfl

theorem get_afterCalls (calls : List Call) (nodeId : Uuid) :
    (afterCalls calls).get nodeId = recorded nodeId calls := by
  induction calls using List.reverseRecOn with
  | nil => rfl
  | append_singleton calls call ih =>
    rw [recorded_concat, ← ih, afterCalls, Runs.run_concat, get_perform]
    rfl

theorem nodeId_of_recorded {nodeId : Uuid} {calls : List Call} {nodeInfo : NodeInfo}
    (h : recorded nodeId calls = some nodeInfo) : nodeInfo.nodeId = nodeId := by
  obtain ⟨found, _, hsince⟩ := Option.bind_eq_some_iff.mp h
  obtain ⟨first, later⟩ := found
  cases first with
  | registerNode other role now =>
    obtain rfl := Option.some.inj hsince
    rfl
  | updateLastSeen | removeNode | listActiveNodes | getNodeInfo => cases hsince

theorem keyed_afterCalls (calls : List Call) : (afterCalls calls).KeyedBy NodeInfo.nodeId := by
  intro nodeId nodeInfo hget
  rw [get_afterCalls] at hget
  exact nodeId_of_recorded hget

/-- The answers of a history, each one against the calls before it. -/
structure Truthful {T : Type} (log : List (Returned T Call Answer)) : Prop where
  entry : ∀ before returned, before ++ [returned] <+: log →
    ∀ nodeId, returned.call = .getNodeInfo nodeId →
      returned.result = .entry (recorded nodeId (before.map Returned.call))
  nodes : ∀ before returned, before ++ [returned] <+: log →
    ∀ listing, returned.call = .listActiveNodes listing →
      ∃ nodeInfos, returned.result = .nodes nodeInfos ∧ (nodeInfos.map NodeInfo.nodeId).Nodup ∧
        ∀ nodeInfo, nodeInfo ∈ nodeInfos ↔
          recorded nodeInfo.nodeId (before.map Returned.call) = some nodeInfo

theorem truthful_of_sequential {T : Type} {log : List (Returned T Call Answer)}
    (h : nodeRegistry.Sequential ∅ log) : Truthful log := by
  constructor
  · intro before returned hbefore nodeId hcall
    have hresult := h.answered hbefore
    rw [hcall, run_apply] at hresult
    rw [← get_afterCalls]
    exact hresult
  · intro before returned hbefore listing hcall
    have hresult := h.answered hbefore
    rw [hcall, run_apply] at hresult
    have horder := listing.covers (afterCalls (before.map Returned.call))
    refine ⟨_, hresult, ?_, ?_⟩
    · have hids := HashMap.map_valuesIn horder (keyed_afterCalls (before.map Returned.call))
      rw [← hids] at horder
      exact horder.1
    · intro nodeInfo
      rw [← get_afterCalls]
      refine (HashMap.mem_valuesIn horder nodeInfo).trans ?_
      constructor
      · intro hget
        obtain ⟨nodeId, hget⟩ := hget
        have hid := keyed_afterCalls _ nodeId nodeInfo hget
        rwa [hid]
      · exact fun hget => ⟨_, hget⟩

/-- The calls of each thread take effect one by one in their order, and every answer is that of
the history so far. -/
structure Consistent {T : Type} [DecidableEq T] (program : T → List Call)
    (c : Config T Unit (Shared T Call Nodes Answer) (Point T Call Nodes Answer)) : Prop where
  order : ∀ i, callsOf i c.data.log ++ (c.point i).pending = program i
  truthful : Truthful c.data.log
  data : (∀ i, ((), .write) ∉ c.held i) → ∀ nodeId,
    c.data.data.get nodeId = recorded nodeId (c.data.log.map Returned.call)

/-- However many threads share a registry, they never block each other, and what any of them is
told of a node is the role given last and the last time it was seen since. -/
theorem registry_consistent {T : Type} [DecidableEq T] (program : T → List Call) :
    NeverStuck nodeRegistry.instr (start ∅ program) ∧ ∀ writersFirst c,
      Reach nodeRegistry.instr writersFirst (start ∅ program) c → Consistent program c := by
  refine ⟨start_neverStuck ∅ program, ?_⟩
  intro writersFirst c hreach
  have hlinearized := reach_linearized hreach
  refine ⟨hlinearized.order, truthful_of_sequential hlinearized.sequential, ?_⟩
  intro hnobody nodeId
  rw [hlinearized.data hnobody, run_apply, ← get_afterCalls]
  rfl

end Registry

end AnKi
