import AnKi.Election
import AnKi.Library.Broadcast

/-!
# election.rs: a cluster on one status channel

The nodes of a cluster listen to one broadcast channel, which gives the statuses
one order. `start_election` sends nothing, so every status on the channel comes
from outside of the loops. A node that has caught up follows the last claim, if it
could not miss it.
-/

namespace AnKi
open Broadcast
set_option autoImplicit false

namespace Election

def claim? (nodeStatus : NodeStatus) : Option Uuid :=
  if nodeStatus.isLeader then some nodeStatus.nodeId else none

theorem lastClaim_eq_lastOf (events : List Event) :
    lastClaim events = Receiver.lastOf claim? (statusesOf events) := by
  unfold lastClaim Receiver.lastOf claims
  induction statusesOf events using List.reverseRecOn with
  | nil => rfl
  | append_singleton statuses nodeStatus ih =>
    cases h : nodeStatus.isLeader with
    | true => simp [h, claim?]
    | false => simpa [h, claim?] using ih

/-- A node is a candidate when it ticked and has never seen a claim. -/
theorem after_isCandidate (nodeId : Uuid) (events : List Event) :
    (after nodeId events).nodeStatus.isCandidate = true ↔
      (after nodeId events).currentLeader = none ∧ .tick ∈ events := by
  unfold after
  induction events using List.reverseRecOn with
  | nil => simp [new]
  | append_singleton events event ih =>
    rw [Runs.run_concat]
    cases event with
    | tick =>
      cases hleader : (Runs.run runLeaderElection (new nodeId) events).currentLeader with
      | none => simp [runLeaderElection, startElection, hleader]
      | some leaderId => simpa [runLeaderElection, hleader] using ih
    | status nodeStatus =>
      cases hclaim : nodeStatus.isLeader with
      | true => simp [runLeaderElection, setLeader, hclaim]
      | false => simpa [runLeaderElection, hclaim] using ih
    | failed => simpa [runLeaderElection] using ih

end Election

namespace Elections
open Election
variable {N : Type}

/-- `handled` is the history of what each node's loop dealt with since it was started. -/
structure Cluster (N : Type) where
  channel : Channel N NodeStatus
  election : N → Election
  handled : N → List Election.Event

inductive Event (N : Type) where
  | start (node : N)
  | tick (node : N)
  | recv (node : N)
  | send (nodeStatus : NodeStatus)
  | close
  deriving DecidableEq

def incoming : Reception NodeStatus → Election.Event
  | .message nodeStatus => .status nodeStatus
  | .lagged _ | .closed => .failed

section Steps
variable (nodeId : N → Uuid)

def start (capacity : Nat) : Cluster N :=
  ⟨Channel.start capacity, fun node => Election.new (nodeId node), fun _ => []⟩

variable [DecidableEq N]

def Cluster.handle (c : Cluster N) (node : N) (event : Election.Event) : Cluster N :=
  { c with
    election := Function.update c.election node (runLeaderElection (c.election node) event)
    handled := Function.update c.handled node (c.handled node ++ [event]) }

def step (c : Cluster N) : Event N → Cluster N
  | .start node =>
    ⟨c.channel.step (.subscribe node), Function.update c.election node (Election.new (nodeId node)),
      Function.update c.handled node []⟩
  | .tick node => c.handle node .tick
  | .recv node =>
    match c.channel.recv node with
    | some (reception, _) =>
      { c.handle node (incoming reception) with channel := c.channel.step (.recv node) }
    | none => c
  | .send nodeStatus => { c with channel := c.channel.step (.send nodeStatus) }
  | .close => { c with channel := c.channel.step .close }

def after (capacity : Nat) (events : List (Event N)) : Cluster N :=
  Runs.run (step nodeId) (start nodeId capacity) events

end Steps

/-! ## The state of a node is what it has received -/

variable [DecidableEq N] {nodeId : N → Uuid}

/-- The channel keeps what it promises, and each node is where its history leads. -/
structure Consistent (nodeId : N → Uuid) (c : Cluster N) : Prop where
  faithful : c.channel.Faithful
  election : ∀ node, c.election node = Election.after (nodeId node) (c.handled node)
  received : ∀ node, statusesOf (c.handled node) = (c.channel.receiver node).messages

omit [DecidableEq N] in
theorem start_consistent (nodeId : N → Uuid) (capacity : Nat) :
    Consistent nodeId (start nodeId capacity) :=
  ⟨Channel.start_faithful capacity, fun _ => rfl, fun _ => rfl⟩

theorem incoming_status? (reception : Reception NodeStatus) :
    (incoming reception).status? = reception.message? := by
  cases reception <;> rfl

theorem Consistent.step {c : Cluster N} (h : Consistent nodeId c) (event : Event N) :
    Consistent nodeId (step nodeId c event) := by
  have hreceived : c.channel.Received Event.status? c.handled := h.received
  cases event with
  | start node =>
    exact ⟨h.faithful.step _, after_restart h.election node, hreceived.restart node⟩
  | tick node =>
    exact ⟨h.faithful, after_update h.election node .tick, hreceived.handle rfl node⟩
  | recv node =>
    cases hrecv : c.channel.recv node with
    | none => simpa [Elections.step, hrecv] using h
    | some taken =>
      obtain ⟨reception, next⟩ := taken
      simp only [Elections.step, hrecv]
      exact ⟨h.faithful.step _, after_update h.election node (incoming reception),
        hreceived.recv hrecv (incoming_status? reception)⟩
  | send nodeStatus => exact ⟨h.faithful.step _, h.election, hreceived.send nodeStatus⟩
  | close => exact ⟨h.faithful.step _, h.election, hreceived⟩

theorem after_consistent (nodeId : N → Uuid) (capacity : Nat) (events : List (Event N)) :
    Consistent nodeId (after nodeId capacity events) :=
  Runs.invariant (fun _ event h => h.step event) (start_consistent nodeId capacity) events

omit [DecidableEq N] in
/-- A node follows the last claim it received. -/
theorem Consistent.follows {c : Cluster N} (h : Consistent nodeId c) (node : N) :
    Follows (nodeId node) (Receiver.lastOf claim? (c.channel.receiver node).messages)
      (c.election node) := by
  rw [h.election node, ← h.received node, ← lastClaim_eq_lastOf]
  exact after_follows _ _

/-! ## Agreement -/

/-- The node has caught up with the channel, and cannot have missed the last claim. -/
def Cluster.Informed (c : Cluster N) (node : N) : Prop :=
  (c.channel.receiver node).Drained c.channel.sent ∧
    (c.channel.receiver node).Within claim? c.channel.capacity c.channel.sent

omit [DecidableEq N] in
theorem Consistent.informed_follows {c : Cluster N} (h : Consistent nodeId c) {node : N}
    (hinformed : c.Informed node) :
    Follows (nodeId node) (Receiver.lastOf claim? c.channel.sent) (c.election node) := by
  have hlast := (h.faithful node).lastOf_eq hinformed.1 hinformed.2
  rw [← hlast]
  exact h.follows node

/-- Whatever they missed and however often they were restarted, informed nodes have the sender
of the last claim for their leader, and no two of them lead. -/
theorem informed_nodes_agree {nodeId : N → Uuid} (hids : Function.Injective nodeId)
    (capacity : Nat) (events : List (Event N)) {node other : N}
    (hnode : (after nodeId capacity events).Informed node)
    (hother : (after nodeId capacity events).Informed other) :
    ((after nodeId capacity events).election node).currentLeader =
        Receiver.lastOf claim? (after nodeId capacity events).channel.sent ∧
      ((after nodeId capacity events).election node).currentLeader =
        ((after nodeId capacity events).election other).currentLeader ∧
      (((after nodeId capacity events).election node).nodeStatus.isLeader = true →
        ((after nodeId capacity events).election other).nodeStatus.isLeader = true →
          node = other) := by
  have hfollows := (after_consistent nodeId capacity events).informed_follows hnode
  have hfollows' := (after_consistent nodeId capacity events).informed_follows hother
  refine ⟨hfollows.currentLeader, hfollows.currentLeader.trans hfollows'.currentLeader.symm, ?_⟩
  intro hleads hleads'
  rw [hfollows.isLeader, decide_eq_true_eq] at hleads
  rw [hfollows'.isLeader, decide_eq_true_eq] at hleads'
  exact hids (Option.some.inj (hleads.symm.trans hleads'))

/-- The second node lags behind a claim, and catches up with the one after it. -/
theorem informed_nodes_agree_lagging :
    let cluster := after (fun node : Bool => if node then 1 else 2) 1
      [.send ⟨5, true, false⟩, .recv true, .send ⟨3, true, false⟩, .recv true, .tick false,
        .recv false, .recv false]
    (cluster.channel.receiver false).skipped = 1 ∧
      (cluster.election true).currentLeader = some 3 ∧
      (cluster.election true).currentLeader = (cluster.election false).currentLeader := by
  intro cluster
  have hretained : (Receiver.lastOf claim? (cluster.channel.sent.drop 1)).isSome := by decide
  have hagree := @informed_nodes_agree Bool _ (fun node : Bool => if node then 1 else 2)
    (by decide) 1 [.send ⟨5, true, false⟩, .recv true, .send ⟨3, true, false⟩, .recv true,
      .tick false, .recv false, .recv false] true false
    ⟨rfl, Or.inr hretained⟩ ⟨rfl, Or.inr hretained⟩
  exact ⟨rfl, hagree.1.trans rfl, hagree.2.1⟩

/-! ## Where leaders come from -/

theorem sent_of_mem {capacity : Nat} {events : List (Event N)} {nodeStatus : NodeStatus}
    (hmem : nodeStatus ∈ (after nodeId capacity events).channel.sent) :
    .send nodeStatus ∈ events := by
  induction events using List.reverseRecOn with
  | nil => simp [after, start, Channel.start] at hmem
  | append_singleton events event ih =>
    rw [after, Runs.run_concat] at hmem
    by_cases hearlier : nodeStatus ∈ (after nodeId capacity events).channel.sent
    · exact List.mem_append_left _ (ih hearlier)
    · apply List.mem_append_right
      rw [after] at hearlier
      cases event with
      | start | tick | close => exact absurd hmem hearlier
      | recv node =>
        simp only [step] at hmem
        split at hmem
        · exact absurd hmem hearlier
        · exact absurd hmem hearlier
      | send sent =>
        simp only [step, Channel.step] at hmem
        split at hmem
        · exact absurd hmem hearlier
        · rcases List.mem_append.mp hmem with hmem | hmem
          · exact absurd hmem hearlier
          · rw [List.mem_singleton] at hmem ⊢
            rw [hmem]

/-- The loops elect nobody: a leader is somebody whose claim was put on the channel from
outside. A node is a candidate as long as it ticked and knows of no leader. -/
theorem leader_was_announced (nodeId : N → Uuid) (capacity : Nat) (events : List (Event N))
    (node : N) :
    (∀ leaderId, ((after nodeId capacity events).election node).currentLeader = some leaderId →
        ∃ nodeStatus, .send nodeStatus ∈ events ∧ nodeStatus.isLeader = true ∧
          nodeStatus.nodeId = leaderId) ∧
      (((after nodeId capacity events).election node).nodeStatus.isCandidate = true ↔
        ((after nodeId capacity events).election node).currentLeader = none ∧
          .tick ∈ (after nodeId capacity events).handled node) ∧
      (((after nodeId capacity events).election node).nodeStatus.isLeader = true ↔
        ((after nodeId capacity events).election node).currentLeader = some (nodeId node)) := by
  have hconsistent := after_consistent nodeId capacity events
  have hfollows := hconsistent.follows node
  refine ⟨?_, ?_, ?_⟩
  · intro leaderId hleader
    rw [hfollows.currentLeader, Receiver.lastOf] at hleader
    obtain ⟨nodeStatus, hmem, hclaim⟩ := List.mem_filterMap.mp (List.mem_of_getLast? hleader)
    simp only [claim?, Option.ite_none_right_eq_some, Option.some.injEq] at hclaim
    exact ⟨nodeStatus, sent_of_mem ((hconsistent.faithful node).mem_sent hmem), hclaim⟩
  · rw [hconsistent.election node]
    exact after_isCandidate _ _
  · rw [hfollows.isLeader, hfollows.currentLeader, decide_eq_true_eq]

end Elections

end AnKi
