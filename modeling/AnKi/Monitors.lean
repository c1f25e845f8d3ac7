import AnKi.Library.Broadcast
import AnKi.LoadMonitor

/-!
# health.rs, load_balancer.rs: the monitors on their channels

`start_heartbeat` reports its node healthy at every tick, and a node that stopped
sends nothing. The monitor of the loads ends at the first error it receives, so it
has handled the beginning of what was sent and nothing after that.
-/

namespace AnKi
open Broadcast
set_option autoImplicit false

/-! ## Heartbeats -/

namespace Heartbeats
open Health Streaks
variable {R : Type}

/-- What `start_heartbeat` sends at each tick. -/
def startHeartbeat (nodeId : String) : HealthCheck := ⟨nodeId, true⟩

/-- Any number of heartbeats, of monitors in `R` and of others that send checks; a node that
stops has no more ticks. -/
inductive Event (R : Type) where
  | tick (nodeId : String)
  | report (healthCheck : HealthCheck)
  | subscribe (monitor : R)
  | recv (monitor : R)
  | close
  deriving DecidableEq

def Event.onChannel : Event R → Broadcast.Event R HealthCheck
  | .tick nodeId => .send (startHeartbeat nodeId)
  | .report healthCheck => .send healthCheck
  | .subscribe monitor => .subscribe monitor
  | .recv monitor => .recv monitor
  | .close => .close

def outcome : Reception HealthCheck → Outcome
  | .message healthCheck => .ok healthCheck
  | .lagged skipped => .error (.lagged (UInt64.ofNat skipped))
  | .closed => .error .closed

variable [DecidableEq R]

def channel (capacity : Nat) (events : List (Event R)) : Channel R HealthCheck :=
  Runs.run Channel.step (Channel.start capacity) (events.map Event.onChannel)

/-- What `monitor_health` got from its receiver. -/
def outcomes (capacity : Nat) (events : List (Event R)) (monitor : R) : List Outcome :=
  ((channel capacity events).receiver monitor).taken.map outcome

end Heartbeats

/-! ## Load reports -/

namespace LoadChannel
open LoadBalancer LoadMonitor
variable {R : Type} [DecidableEq R]

def outcome : Broadcast.Reception NodeLoadInfo → LoadMonitor.Outcome
  | .message nodeLoad => .ok nodeLoad
  | .lagged skipped => .error (.lagged (UInt64.ofNat skipped))
  | .closed => .error .closed

/-- What `monitor_node_load` has made of a balancer with what it got from its receiver. -/
def monitored (self : LoadBalancer) (receiver : Receiver NodeLoadInfo) : LoadBalancer :=
  monitor (receiver.taken.map outcome) self

def channel (capacity : Nat) (events : List (Broadcast.Event R NodeLoadInfo)) :
    Channel R NodeLoadInfo :=
  Runs.run Channel.step (Channel.start capacity) events

def lastLoad (nodeId : Uuid) (reports : List NodeLoadInfo) : Option UInt64 :=
  Receiver.lastOf (fun nodeLoad => countFor nodeId (.report nodeLoad)) reports

/-- The balancer after these reports: every registered node has the last count reported. -/
def SetBy (reports : List NodeLoadInfo) (before after : LoadBalancer) : Prop :=
  ∀ nodeId, after.nodes.get nodeId = (before.nodes.get nodeId).map fun nodeInfo =>
    { nodeInfo with taskCount := (lastLoad nodeId reports).getD nodeInfo.taskCount }

omit [DecidableEq R] in
theorem monitored_eq (self : LoadBalancer) (receiver : Receiver NodeLoadInfo) :
    monitored self receiver =
      receiver.unbroken.foldl (fun balancer nodeLoad => balancer.monitorNodeLoad nodeLoad)
        self := by
  unfold monitored Receiver.unbroken
  induction receiver.taken generalizing self with
  | nil => rfl
  | cons reception taken ih =>
    cases reception with
    | message nodeLoad => exact ih (self.monitorNodeLoad nodeLoad)
    | lagged skipped => rfl
    | closed => rfl

theorem setBy_foldl (reports : List NodeLoadInfo) (self : LoadBalancer) :
    SetBy reports self
      (reports.foldl (fun balancer nodeLoad => balancer.monitorNodeLoad nodeLoad) self) := by
  intro nodeId
  induction reports using List.reverseRecOn with
  | nil => simp [lastLoad, Receiver.lastOf]
  | append_singleton reports nodeLoad ih =>
    have hlast : lastLoad nodeId (reports ++ [nodeLoad]) =
        (countFor nodeId (.report nodeLoad)).or (lastLoad nodeId reports) := by
      rw [lastLoad, Receiver.lastOf, List.filterMap_append, List.getLast?_append]
      cases hcount : countFor nodeId (.report nodeLoad) <;>
        simp [lastLoad, Receiver.lastOf, hcount]
    rw [List.foldl_append, List.foldl_cons, List.foldl_nil, monitorNodeLoad_get, ih, hlast,
      Option.map_map]
    congr 1
    funext nodeInfo
    cases countFor nodeId (.report nodeLoad) <;> rfl

/-- How far the monitor got with the reports sent since it subscribed. -/
structure Handles (channel : Channel R NodeLoadInfo) (monitor : R) (self : LoadBalancer) :
    Prop where
  gapless : (channel.receiver monitor).unbroken <+:
    channel.sent.drop (channel.receiver monitor).joined
  setBy : SetBy (channel.receiver monitor).unbroken self
    (monitored self (channel.receiver monitor))
  keepsUp : ¬ (channel.receiver monitor).Broken →
    (channel.receiver monitor).Drained channel.sent →
      SetBy (channel.sent.drop (channel.receiver monitor).joined) self
        (monitored self (channel.receiver monitor))
  stops : (channel.receiver monitor).Broken → ∀ more, .subscribe monitor ∉ more →
    monitored self ((Runs.run Channel.step channel more).receiver monitor) =
      monitored self (channel.receiver monitor)

/-- The monitor applies a gapless piece of the reports, from its subscription on. As long as it
never lags, the counts are the last ones sent when it has caught up; after the first error
nothing that is sent changes a count any more. -/
theorem monitor_handles (capacity : Nat) (events : List (Broadcast.Event R NodeLoadInfo))
    (monitor : R) (self : LoadBalancer) : Handles (channel capacity events) monitor self := by
  have hfaithful : (channel capacity events).Faithful := Channel.faithful_run capacity events
  have hset : SetBy ((channel capacity events).receiver monitor).unbroken self
      (monitored self ((channel capacity events).receiver monitor)) := by
    rw [monitored_eq]
    exact setBy_foldl _ self
  refine ⟨Channel.unbroken_run capacity events monitor, hset, ?_, ?_⟩
  · intro hbroken hdrained
    have hall := (hfaithful monitor).messages_eq (Receiver.skipped_of_not_broken hbroken)
    rw [← Receiver.unbroken_of_not_broken hbroken, hdrained, List.take_length] at hall
    rw [hall] at hset
    exact hset
  · intro hbroken more hmore
    rw [monitored_eq, monitored_eq, Channel.broken_run hbroken hmore]

end LoadChannel

end AnKi
