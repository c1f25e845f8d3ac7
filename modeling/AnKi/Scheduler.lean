import AnKi.Library.Channels
import AnKi.LoadBalancer

/-!
# scheduler.rs: a task is assigned before it is sent

`schedule_task` counts the task on a node and then sends it, which may fail or be
cut short. Nothing takes the count back. The record `Task` of the file is the one
of `AnKi.Wire`.
-/

namespace AnKi
open Channels
set_option autoImplicit false

structure Scheduler where
  loadBalancer : LoadBalancer
  taskTx : Channel Task

namespace Scheduler

inductive ScheduleError where
  | send (task : Task)
  | message (text : String)
  deriving DecidableEq

/-- The result is `none` when the call is dropped while it waits; `turns` is what the receiver
does in that time. -/
def scheduleTask (task : Task) (order : List Uuid) (turns : List Turn) (self : Scheduler) :
    Option (Except ScheduleError Unit) × Scheduler :=
  match self.loadBalancer.assignTask order with
  | (some _, loadBalancer) =>
    match self.taskTx.send task turns with
    | (.accepted, taskTx) => (some (.ok ()), ⟨loadBalancer, taskTx⟩)
    | (.refused, taskTx) => (some (.error (.send task)), ⟨loadBalancer, taskTx⟩)
    | (.dropped, taskTx) => (none, ⟨loadBalancer, taskTx⟩)
  | (none, loadBalancer) =>
    (some (.error (.message "No available nodes")), { self with loadBalancer := loadBalancer })

inductive Event where
  | call (task : Task) (order : List Uuid) (turns : List Turn)
  | turn (t : Turn)

/-- A tick of `run_scheduler`, which logs the error of the call. -/
def runScheduler (taskId : Uuid) (order : List Uuid) (turns : List Turn) : Event :=
  .call ⟨taskId, "Sample task data"⟩ order turns

def step (s : Scheduler) : Event → Scheduler
  | .call task order turns => (s.scheduleTask task order turns).2
  | .turn t => { s with taskTx := s.taskTx.turn t }

def Possible (s : Scheduler) : Event → Prop
  | .call _ order _ => HashMap.IterationOrder order s.loadBalancer.nodes
  | .turn _ => True

def totalCount (s : Scheduler) : Nat :=
  s.loadBalancer.nodes.total fun nodeInfo => nodeInfo.taskCount.toNat

/-- All that a call can do: without nodes nothing, else it counts the task on a least node and
then tries to send it. -/
theorem scheduleTask_cases {self : Scheduler} {order : List Uuid}
    (horder : HashMap.IterationOrder order self.loadBalancer.nodes) (task : Task)
    (turns : List Turn) :
    (self.loadBalancer.nodes = ∅ ∧ self.scheduleTask task order turns =
        (some (.error (.message "No available nodes")), self)) ∨
      ∃ nodeId nodeInfo, self.loadBalancer.Least nodeId nodeInfo ∧
        (self.scheduleTask task order turns).2 =
          ⟨⟨self.loadBalancer.nodes.insert nodeId
            { nodeInfo with taskCount := nodeInfo.taskCount + 1 }⟩,
            (self.taskTx.send task turns).2⟩ ∧
        ((self.scheduleTask task order turns).1 = some (.ok ()) ↔ self.taskTx.Accepts turns) := by
  obtain ⟨hempty, hassign⟩ | ⟨nodeId, nodeInfo, hleast, hassign⟩ :=
    LoadBalancer.assignTask_cases horder
  · exact Or.inl ⟨hempty, by simp [scheduleTask, hassign]⟩
  · refine Or.inr ⟨nodeId, nodeInfo, hleast, ?_⟩
    rw [← Channel.send_accepted_iff task]
    cases hsend : self.taskTx.send task turns with
    | mk sent taskTx => cases sent <;> simp [scheduleTask, hassign, hsend]

/-- The total counts the new task unless the counter of the node wraps. -/
theorem totalCount_assign_iff {s : Scheduler} {nodeId : Uuid} {nodeInfo : NodeLoadInfo}
    (h : s.loadBalancer.nodes.get nodeId = some nodeInfo) (taskTx : Channel Task) :
    totalCount ⟨⟨s.loadBalancer.nodes.insert nodeId
        { nodeInfo with taskCount := nodeInfo.taskCount + 1 }⟩, taskTx⟩ = s.totalCount + 1 ↔
      nodeInfo.taskCount.toNat + 1 < 2 ^ 64 := by
  have htotal : totalCount ⟨⟨s.loadBalancer.nodes.insert nodeId
      { nodeInfo with taskCount := nodeInfo.taskCount + 1 }⟩, taskTx⟩ +
        nodeInfo.taskCount.toNat = s.totalCount + (nodeInfo.taskCount + 1).toNat :=
    HashMap.total_insert (fun nodeInfo => nodeInfo.taskCount.toNat) h _
  rw [UInt64.toNat_add, UInt64.toNat_one] at htotal
  have hlt := nodeInfo.taskCount.toNat_lt
  omega

def oneNode (taskTx : Channel Task) : Scheduler := ⟨LoadBalancer.new.addNode 7, taskTx⟩

/-- A channel with one place, and nothing in it. -/
def onePlace (closed : Bool) : Channel Task := ⟨1, [], [], closed, by decide, by decide⟩

def IsTick (event : Event) : Prop :=
  ∃ taskId order turns, event = runScheduler taskId order turns

theorem runScheduler_closed_step {s : Scheduler} (hclosed : s.taskTx.closed = true)
    (hroom : s.loadBalancer.HasRoom) {event : Event} (htick : IsTick event)
    (hpossible : Possible s event) :
    (step s event).taskTx = s.taskTx ∧ (step s event).totalCount = s.totalCount + 1 := by
  obtain ⟨taskId, order, turns, rfl⟩ := htick
  obtain ⟨hempty, _⟩ | ⟨nodeId, nodeInfo, hleast, hnext, _⟩ :=
    scheduleTask_cases hpossible ⟨taskId, "Sample task data"⟩ turns
  · obtain ⟨nodeId, nodeInfo, hnode, _⟩ := hroom
    simp [hempty] at hnode
  · have hbound := hleast.hasRoom_iff.mp hroom
    rw [Channel.send_of_closed _ hclosed] at hnext
    simp only [step, runScheduler, hnext]
    exact ⟨trivial, (totalCount_assign_iff hleast.registered _).mpr hbound⟩

/-- Once the receiver is gone, `run_scheduler` counts one more task at every tick and sends none. -/
theorem runScheduler_closed {s : Scheduler} (hclosed : s.taskTx.closed = true)
    {events : List Event}
    (hticks : Runs.Along step
      (fun s event => IsTick event ∧ Possible s event ∧ s.loadBalancer.HasRoom) s events) :
    (Runs.run step s events).taskTx = s.taskTx ∧
      (Runs.run step s events).totalCount = s.totalCount + events.length := by
  induction events generalizing s with
  | nil => exact ⟨rfl, rfl⟩
  | cons event events ih =>
    obtain ⟨⟨htick, hpossible, hroom⟩, hrest⟩ := hticks
    obtain ⟨htx, htotal⟩ := runScheduler_closed_step hclosed hroom htick hpossible
    obtain ⟨htxs, htotals⟩ := ih (htx ▸ hclosed) hrest
    refine ⟨htxs.trans htx, ?_⟩
    rw [Runs.run_cons, htotals, htotal, List.length_cons]
    omega

end Scheduler

end AnKi
