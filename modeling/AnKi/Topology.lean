import AnKi.Library.Deliveries
import AnKi.Nodes

/-!
# principal.rs, an_node.rs, ki_node.rs: a cluster and its queues

Any number of nodes of each kind run against one broker. A node declares the queue
it consumes and no other; results and role assignments are published to queues
that no node declares and no node consumes. Messages are routed by queue name, and
one for a queue that does not exist is dropped by the broker.
-/

namespace AnKi
open Broker Exchange
set_option autoImplicit false

namespace Topology

/-- How the records that travel through the queues are written and read. -/
structure Formats where
  task : SerdeSlice TaskMessage
  result : SerdeSlice ResultMessage
  update : SerdeSlice UpdateRequest
  roleAssignment : SerdeSlice RoleAssignment

/-- What the argument of `main` says a node is. -/
inductive NodeType where
  | principal
  | an
  | ki
  deriving DecidableEq

namespace NodeType

def Incoming : NodeType → Type
  | principal => UpdateRequest
  | an | ki => TaskMessage

def queueName : NodeType → String
  | principal => "principal_update_queue"
  | an => "an_task_queue"
  | ki => "ki_task_queue"

def consumer (formats : Formats) : (type : NodeType) → Consumer type.Incoming Publication
  | principal => Principal.consumer formats.update
  | an => AnNode.consumer formats.task
  | ki => KiNode.consumer formats.task formats.result

end NodeType

def roleQueue : String := "role_assignment_queue"

section Cluster
variable {N : Type} (formats : Formats) (type : N → NodeType)

def setup : Setup String N (fun i => (type i).Incoming) Publication where
  queue i := (type i).queueName
  consumer i := (type i).consumer formats
  route publication := (publication.routingKey, publication.payload)

variable [DecidableEq N]

def after (events : List (Exchange.Event String N)) :
    Exchange.Cluster String N (fun i => (type i).Incoming) Publication :=
  Runs.run (Cluster.step (setup formats type)) Cluster.start events

/-- `assign_role` is called by nobody here; it publishes to a queue of its own. -/
def assignRole (nodeId role : String) : Exchange.Event String N :=
  .arrive roleQueue (formats.roleAssignment.toVec ⟨nodeId, role⟩)

end Cluster

section Runs
variable {N : Type} [DecidableEq N] [Fintype N]
variable (formats : Formats) (type : N → NodeType) (events : List (Exchange.Event String N))

theorem after_conserved : (after formats type events).Conserved (setup formats type) :=
  Cluster.conserved_run _ _

/-! ## Where messages come from -/

/-- Only a Ki node publishes anything. -/
def NodeType.Publishes (nodeType : NodeType) (data : Files.Bytes) (sent : Publication) : Prop :=
  nodeType = .ki ∧ KiNode.IsResult formats.task formats.result data sent

omit [DecidableEq N] [Fintype N] in
theorem NodeType.consumer_all (nodeType : NodeType) (data : Files.Bytes) :
    ((nodeType.consumer formats).onDelivery data).All (nodeType.Publishes formats data) := by
  cases nodeType with
  | principal =>
    simp only [NodeType.consumer, Principal.consumer, Principal.onDelivery]
    cases formats.update.fromSlice data with
    | none => trivial
    | some update =>
      intro granted
      cases granted <;> trivial
  | an =>
    simp only [NodeType.consumer, AnNode.consumer, AnNode.onDelivery]
    cases formats.task.fromSlice data with
    | none => exact fun _ => trivial
    | some task => exact fun _ => trivial
  | ki =>
    simp only [NodeType.consumer, KiNode.consumer, KiNode.onDelivery]
    cases h : formats.task.fromSlice data with
    | none => trivial
    | some task =>
      refine ⟨⟨rfl, task, h, rfl⟩, ?_⟩
      intro published granted
      cases granted <;> trivial

omit [DecidableEq N] [Fintype N] in
/-- No node publishes more than once for a delivery. -/
theorem NodeType.consumer_once (nodeType : NodeType) (data : Files.Bytes) :
    Once ((nodeType.consumer formats).onDelivery data) := by
  cases nodeType with
  | principal =>
    simp only [NodeType.consumer, Principal.consumer, Principal.onDelivery]
    cases formats.update.fromSlice data with
    | none => trivial
    | some update =>
      intro granted
      cases granted <;> trivial
  | an =>
    simp only [NodeType.consumer, AnNode.consumer, AnNode.onDelivery]
    cases formats.task.fromSlice data with
    | none => exact fun _ => trivial
    | some task => exact fun _ => trivial
  | ki =>
    simp only [NodeType.consumer, KiNode.consumer, KiNode.onDelivery]
    cases formats.task.fromSlice data with
    | none => trivial
    | some task =>
      -- what follows the publication is the acknowledgement
      intro granted
      rfl

omit [DecidableEq N] [Fintype N] in
theorem type_of_queue {i : N} {nodeType : NodeType}
    (h : (setup formats type).queue i = nodeType.queueName) : type i = nodeType := by
  have hinjective : ∀ a b : NodeType, a.queueName = b.queueName → a = b := by
    intro a b hname
    cases a <;> cases b <;> first
      | rfl
      | exact absurd hname (by decide)
  exact hinjective _ _ h

omit [DecidableEq N] [Fintype N] in
theorem setup_once (i : N) (data : Files.Bytes) :
    Once (((setup formats type).consumer i).onDelivery data) :=
  (type i).consumer_once formats data

/-- The invariants behind the origin of messages. -/
structure Sound (c : Exchange.Cluster String N (fun i => (type i).Incoming) Publication) :
    Prop where
  conserved : c.Conserved (setup formats type)
  grounded : c.Grounded (setup formats type)
  attributed : c.Attributed (setup formats type) (fun i => (type i).Publishes formats)

theorem after_sound : Sound formats type (after formats type events) := by
  refine Runs.invariant (fun c event hc => ?_) ⟨Cluster.start_conserved _,
    Cluster.start_grounded _, Cluster.start_attributed _ _⟩ events
  exact ⟨hc.conserved.step event, hc.grounded.step hc.conserved event,
    hc.attributed.step (fun i => (type i).consumer_all formats) event⟩

/-- Where the messages in the queues come from. -/
structure FromOutside (c : Exchange.Cluster String N (fun i => (type i).Incoming) Publication) :
    Prop where
  /-- What is in any other queue than that of the results arrived from outside, in this order. -/
  arrived : ∀ queue, queue ≠ KiNode.resultQueue →
    (c.enqueued queue).map Message.data = Cluster.arrivals queue false events
  /-- Each message in the queue of the results has an arrival or a publication of its own. -/
  results : ((c.enqueued KiNode.resultQueue).map Message.data : Multiset Files.Bytes) ≤
    (Cluster.arrivals KiNode.resultQueue false events : Multiset Files.Bytes) +
      ∑ i, ((c.node i).published.map fun entry => entry.2.payload : Multiset Files.Bytes)
  /-- What is published is the result of a task in the queue of the Ki nodes, by one of these. -/
  published : ∀ i source sent, (source, sent) ∈ (c.node i).published → type i = .ki ∧
    source ∈ c.enqueued NodeType.ki.queueName ∧
      KiNode.IsResult formats.task formats.result source.data sent
  /-- Each publication has a delivery of its own. -/
  single : ∀ i, ((c.node i).published.map Prod.fst).Sublist
    (Cluster.takes (setup formats type) i events)

omit [DecidableEq N] [Fintype N] in
theorem sentTo_sublist (queue : String) (published : List (Message × Publication)) :
    (Cluster.sentTo (setup formats type) queue published).Sublist
      (published.map fun entry => entry.2.payload) := by
  induction published with
  | nil => exact List.Sublist.refl _
  | cons entry published ih =>
    have hcons : Cluster.sentTo (setup formats type) queue (entry :: published) =
        Cluster.sentTo (setup formats type) queue [entry] ++
          Cluster.sentTo (setup formats type) queue published := Cluster.sentTo_append [entry] _
    have hentry : (Cluster.sentTo (setup formats type) queue [entry]).Sublist
        [entry.2.payload] := by
      by_cases hqueue : entry.2.routingKey = queue <;> simp [Cluster.sentTo, setup, hqueue]
    rw [hcons]
    exact hentry.append ih

/-- No node makes up or forwards a task, and each result belongs to a delivery of its task. -/
theorem after_fromOutside :
    FromOutside formats type events (after formats type events) := by
  have hsound := after_sound formats type events
  refine ⟨?_, ?_, ?_, ?_⟩
  · intro queue hqueue
    refine Cluster.payloads_eq_arrivals (fun i data => ?_) events
    refine ((type i).consumer_all formats data).mono ?_
    rintro sent ⟨-, task, -, rfl⟩
    exact Ne.symm hqueue
  · refine (Cluster.payloads_le KiNode.resultQueue events).trans (add_le_add_right ?_ _)
    apply Finset.sum_le_sum
    intro i _
    exact Multiset.coe_le.mpr (sentTo_sublist formats type _ _).subperm
  · intro i source sent hmem
    obtain ⟨hki, hresult⟩ := (hsound.attributed i).published source sent hmem
    have hsource := hsound.grounded.published i source sent hmem
    have hqueue : (setup formats type).queue i = NodeType.ki.queueName := by
      simp [setup, hki]
    rw [hqueue] at hsource
    exact ⟨hki, hsource, hresult⟩
  · intro i
    exact (Cluster.run_single (setup_once formats type) i events).published

/-! ## Duplicates -/

/-- The results that the Ki nodes published for a message of their queue. -/
def resultsFor (c : Exchange.Cluster String N (fun i => (type i).Incoming) Publication)
    (message : Message) : Nat :=
  ∑ i with type i = .ki, ((c.node i).published.map Prod.fst).count message

/-- A task is answered at most once more than it came back to its queue, because a node that held
it crashed or ended. -/
theorem resultsFor_le (message : Message) :
    resultsFor type (after formats type events) message ≤
      1 + (Cluster.handedBack (setup formats type) NodeType.ki.queueName events).count message := by
  have hconsumers : Cluster.consumers (setup formats type) NodeType.ki.queueName =
      Finset.univ.filter fun i => type i = .ki := by
    ext i
    simp only [Cluster.consumers, Finset.mem_filter, Finset.mem_univ, true_and]
    constructor
    · exact type_of_queue formats type
    · intro hki
      simp [setup, hki]
  rw [resultsFor, ← hconsumers]
  exact Cluster.count_published_le (setup_once formats type) _ message events

/-! ## Malformed messages -/

/-- A message that does not parse waits in its queue or is held by a node; nothing takes it out. -/
def StaysUnsettled (c : Exchange.Cluster String N (fun i => (type i).Incoming) Publication)
    (nodeType : NodeType) (parses : Files.Bytes → Bool) : Prop :=
  ∀ message ∈ c.enqueued nodeType.queueName, parses message.data = false →
    message ∈ c.queued nodeType.queueName ∨
      ∃ i, type i = nodeType ∧ message ∈ (c.node i).unacked

theorem staysUnsettled_of_stop {nodeType : NodeType} {parses : Files.Bytes → Bool}
    (hstop : ∀ data, parses data = false → (nodeType.consumer formats).onDelivery data = .stop) :
    StaysUnsettled type (after formats type events) nodeType parses := by
  have hbody : ∀ i, (setup formats type).queue i = nodeType.queueName → ∀ data,
      parses data = false → Owes true (fun _ => False)
        (((setup formats type).consumer i).onDelivery data) := by
    intro i hqueue data hdata
    obtain rfl := type_of_queue formats type hqueue
    rw [show ((setup formats type).consumer i).onDelivery data = .stop from hstop data hdata]
    trivial
  have hanswers : (after formats type events).Answers (setup formats type) true
      (fun data => parses data = false) (fun _ _ => False) nodeType.queueName :=
    Runs.invariant (fun _ event hc => hc.step hbody (Or.inl rfl)) Cluster.start_answers events
  intro message hmem hmalformed
  obtain ⟨place, hat⟩ := ((after_conserved formats type events).mem_iff _ _).mp hmem
  cases place with
  | queued => exact Or.inl hat
  | held i => exact Or.inr ⟨i, type_of_queue formats type hat.1, hat.2⟩
  | settled =>
    obtain ⟨_, _, _, _, hfalse⟩ := hanswers.settled message hat hmalformed
    exact hfalse.elim

/-- A malformed task or update request is never removed from its queue: each node that takes it
stops, and the broker keeps it for the next one. -/
theorem malformed_staysUnsettled :
    StaysUnsettled type (after formats type events) .ki
        (fun data => (formats.task.fromSlice data).isSome) ∧
      StaysUnsettled type (after formats type events) .principal
        (fun data => (formats.update.fromSlice data).isSome) := by
  constructor
  · apply staysUnsettled_of_stop
    intro data hdata
    have hnone : formats.task.fromSlice data = none := by simpa using hdata
    simp only [NodeType.consumer, KiNode.consumer, KiNode.onDelivery, hnone]
    rfl
  · apply staysUnsettled_of_stop
    intro data hdata
    have hnone : formats.update.fromSlice data = none := by simpa using hdata
    simp only [NodeType.consumer, Principal.consumer, Principal.onDelivery, hnone]
    rfl

/-! ## Answered tasks -/

/-- The results of settled tasks are in the queue of the results. -/
def AllAnswered (c : Exchange.Cluster String N (fun i => (type i).Incoming) Publication) : Prop :=
  ∀ message ∈ c.settled NodeType.ki.queueName, ∀ task,
    formats.task.fromSlice message.data = some task →
      ∃ answer ∈ c.enqueued KiNode.resultQueue,
        answer.data = formats.result.toVec (KiNode.performComputation task)

omit [Fintype N] in
/-- If the queue of the results exists from the start and no publication is refused, a task is
settled by any of the Ki nodes only when its result has been stored. -/
theorem settled_tasks_answered {events : List (Exchange.Event String N)}
    (hgrants : Runs.Along (Cluster.step (setup formats type)) (Cluster.Grants false)
      Cluster.start (.declare KiNode.resultQueue :: events)) :
    AllAnswered formats type (after formats type (.declare KiNode.resultQueue :: events)) := by
  have hbody : ∀ i, (setup formats type).queue i = NodeType.ki.queueName → ∀ data,
      (formats.task.fromSlice data).isSome = true →
        Owes false (KiNode.IsResult formats.task formats.result data)
          (((setup formats type).consumer i).onDelivery data) := by
    intro i hqueue data hdata
    obtain ⟨task, htask⟩ := Option.isSome_iff_exists.mp hdata
    have howes : Owes false (KiNode.IsResult formats.task formats.result data)
        (KiNode.onDelivery formats.task formats.result data) := by
      simp only [KiNode.onDelivery, htask, KiNode.sendResult, Owes]
      exact ⟨Or.inl ⟨task, htask, rfl⟩, by simp⟩
    have hki := type_of_queue formats type hqueue
    have hconsumer : ∀ nodeType : NodeType, nodeType = .ki →
        Owes false (KiNode.IsResult formats.task formats.result data)
          ((nodeType.consumer formats).onDelivery data) := by
      rintro _ rfl
      exact howes
    exact hconsumer (type i) hki
  have hanswers : (after formats type (.declare KiNode.resultQueue :: events)).Answers
      (setup formats type) false (fun data => (formats.task.fromSlice data).isSome = true)
      (KiNode.IsResult formats.task formats.result) NodeType.ki.queueName :=
    hgrants.invariant (fun _ _ hc hg => hc.step hbody hg) Cluster.start_answers
  have hstored : (after formats type (.declare KiNode.resultQueue :: events)).Stored
      (setup formats type) KiNode.resultQueue := by
    refine Runs.invariant (fun _ event hc => hc.step event) ?_ events
    exact ⟨by simp [Cluster.step], by simp [Cluster.step, Cluster.start]⟩
  intro message hmem task htask
  obtain ⟨i, result, _, hpublished, task', htask', rfl⟩ :=
    hanswers.settled message hmem (by simp [htask])
  rw [htask, Option.some.injEq] at htask'
  subst htask'
  exact hstored.published i message _ hpublished rfl

/-- A task that is put into the queue and taken, computed, answered and acknowledged. -/
def oneTask (data : Files.Bytes) : List (Exchange.Event String Unit) :=
  [.declare NodeType.ki.queueName, .arrive NodeType.ki.queueName data, .node () .deliver,
    .node () .take, .node () (.perform true), .node () (.perform true), .node () (.perform true)]

def Formats.wire : Formats :=
  ⟨Wire.taskMessageSlice, Wire.resultMessageSlice, Wire.updateRequestSlice,
    Wire.roleAssignmentSlice⟩

theorem settled_tasks_answered_oneTask :
    AllAnswered Formats.wire (fun _ => .ki) (after Formats.wire (fun _ => .ki)
        (.declare KiNode.resultQueue :: oneTask (Wire.taskMessageSlice.toVec ⟨"1", "x"⟩))) ∧
      (after Formats.wire (fun _ => .ki) (.declare KiNode.resultQueue ::
        oneTask (Wire.taskMessageSlice.toVec ⟨"1", "x"⟩))).settled NodeType.ki.queueName =
          [⟨0, Wire.taskMessageSlice.toVec ⟨"1", "x"⟩⟩] := by
  constructor
  · apply settled_tasks_answered
    refine (Runs.along_mem _ _).mono ?_
    intro c event hmem
    right
    rintro i rfl
    simp [oneTask] at hmem
  · simp [after, oneTask, Cluster.step, Cluster.act, Cluster.enqueue, Cluster.start, Cluster.view,
      Cluster.replace, setup, sent, System.step, System.perform, System.settle, Action.event,
      NodeType.consumer, KiNode.consumer, KiNode.onDelivery, KiNode.sendResult, ackOrReturn,
      NodeType.queueName, KiNode.resultQueue, Formats.wire]

/-! ## Queues that nobody reads -/

/-- What is in the queue stays there, and without a declaration from outside of the nodes nothing
is in it. -/
structure Unread (queue : String)
    (c : Exchange.Cluster String N (fun i => (type i).Incoming) Publication) : Prop where
  unsettled : c.settled queue = []
  waiting : (c.queued queue).Perm (c.enqueued queue)
  declared : c.declared queue = true → .declare queue ∈ events
  dropped : .declare queue ∉ events → c.enqueued queue = []

theorem after_unread {queue : String} (hqueue : ∀ nodeType : NodeType, nodeType.queueName ≠ queue) :
    Unread type events queue (after formats type events) := by
  have hnone : ∀ i, (setup formats type).queue i ≠ queue := fun i => hqueue (type i)
  have hconserved := after_conserved formats type events
  have hsettled : (after formats type events).settled queue = [] :=
    Runs.invariant (I := fun c : Exchange.Cluster String N _ Publication => c.settled queue = [])
      (fun c event hc => (Cluster.step_settled hnone event).trans hc) rfl events
  have hdeclared : (after formats type events).declared queue = true →
      .declare queue ∈ events := by
    have hall : Runs.Along (Cluster.step (setup formats type)) (fun _ event => event ∈ events)
        Cluster.start events := Runs.along_mem _ _
    refine hall.invariant (I := fun c : Exchange.Cluster String N _ Publication =>
      c.declared queue = true → .declare queue ∈ events) ?_ (by simp [Cluster.start])
    intro c event hc hmem h
    rcases Cluster.step_declared event h with h | rfl
    · exact hc h
    · exact hmem
  refine ⟨hsettled, hconserved.queued_of_unconsumed hnone hsettled, hdeclared, ?_⟩
  intro hnot
  apply hconserved.undeclared
  cases h : (after formats type events).declared queue with
  | false => rfl
  | true => exact absurd (hdeclared h) hnot

theorem roleQueue_unread : Unread type events roleQueue (after formats type events) := by
  apply after_unread
  intro nodeType
  cases nodeType <;> decide

/-- Neither a result nor a role assignment ever reaches a node. -/
theorem results_and_roles_unread :
    Unread type events KiNode.resultQueue (after formats type events) ∧
      Unread type events roleQueue (after formats type events) := by
  refine ⟨?_, roleQueue_unread formats type events⟩
  apply after_unread
  intro nodeType
  cases nodeType <;> decide

omit [Fintype N] in
theorem after_append (events more : List (Exchange.Event String N)) :
    after formats type (events ++ more) =
      Runs.run (Cluster.step (setup formats type)) (after formats type events) more :=
  Runs.run_append _ _ _ _

/-- `assign_role` succeeds in any case; the assignment is dropped, or it waits in its queue from
then on. -/
theorem assignRole_waits (nodeId role : String) (more : List (Exchange.Event String N)) :
    (.declare roleQueue ∉ events →
        after formats type (events ++ [assignRole formats nodeId role]) =
          after formats type events) ∧
      ((after formats type events).declared roleQueue = true →
        ∃ message ∈ (after formats type
            (events ++ assignRole formats nodeId role :: more)).queued roleQueue,
          message.data = formats.roleAssignment.toVec ⟨nodeId, role⟩) := by
  have hunread := roleQueue_unread formats type events
  constructor
  · intro hnot
    have hundeclared : (after formats type events).declared roleQueue = false := by
      cases h : (after formats type events).declared roleQueue with
      | false => rfl
      | true => exact absurd (hunread.declared h) hnot
    rw [after_append]
    simp [assignRole, Cluster.step, Cluster.enqueue, hundeclared]
  · intro hdeclared
    let message : Message := ⟨((after formats type events).enqueued roleQueue).length,
      formats.roleAssignment.toVec ⟨nodeId, role⟩⟩
    have hmem : message ∈ (after formats type
        (events ++ assignRole formats nodeId role :: more)).enqueued roleQueue := by
      rw [after_append, Runs.run_cons]
      refine Runs.invariant (I := fun c : Exchange.Cluster String N _ Publication =>
        message ∈ c.enqueued roleQueue) (fun c event hc =>
          c.enqueued_subset_step (setup formats type) event roleQueue hc) ?_ more
      simp [assignRole, Cluster.step, Cluster.enqueue, hdeclared, message]
    have hwaiting := (roleQueue_unread formats type
      (events ++ assignRole formats nodeId role :: more)).waiting
    exact ⟨message, hwaiting.mem_iff.mpr hmem, rfl⟩

end Runs

end Topology

end AnKi
