import AnKi.Library.Broker
import AnKi.Wire

/-!
# ki_node.rs, principal.rs, an_node.rs: the three consumer loops

Each loop parses a delivery, works on it and acknowledges it. A delivery that
cannot be parsed ends the loops of the Ki node and of the principal, while the An
node rejects it and goes on. A Ki node that cannot send its result logs the error
and acknowledges the task all the same.
-/

namespace AnKi
open Broker
set_option autoImplicit false

/-- What `basic_publish` is given: the queue it routes to and the payload. -/
structure Publication where
  routingKey : String
  payload : Files.Bytes
  deriving DecidableEq

/-- `delivery.ack(..).await?` at the end of an iteration. -/
def ackOrReturn {M : Type} : Handler M Publication :=
  .ack fun acknowledged => if acknowledged then .next else .stop

namespace KiNode
variable (taskSlice : SerdeSlice TaskMessage) (resultSlice : SerdeSlice ResultMessage)

def performComputation (task : TaskMessage) : ResultMessage :=
  ⟨task.taskId, "Processed data: " ++ task.data⟩

def resultQueue : String := "an_result_queue"

def sendResult (result : ResultMessage) (rest : Bool → Handler TaskMessage Publication) :
    Handler TaskMessage Publication :=
  .publish ⟨resultQueue, resultSlice.toVec result⟩ rest

def onDelivery (data : Files.Bytes) : Handler TaskMessage Publication :=
  match taskSlice.fromSlice data with
  | none => .stop
  | some taskMessage =>
    -- an error of `send_result` is logged, and the acknowledgement follows either way
    .process taskMessage (sendResult resultSlice (performComputation taskMessage) fun _ =>
      ackOrReturn)

def consumer : Consumer TaskMessage Publication := ⟨onDelivery taskSlice resultSlice, false⟩

end KiNode

namespace Principal
variable (updateSlice : SerdeSlice UpdateRequest)

/-- `process_update_request` only logs, and returns no error. -/
def onDelivery (data : Files.Bytes) : Handler UpdateRequest Publication :=
  match updateSlice.fromSlice data with
  | none => .stop
  | some updateRequest => .process updateRequest ackOrReturn

def consumer : Consumer UpdateRequest Publication := ⟨onDelivery updateSlice, false⟩

end Principal

namespace AnNode
variable (taskSlice : SerdeSlice TaskMessage)

/-- `process_task` only logs, and so do the error branches of `ack` and `nack`. -/
def onDelivery (data : Files.Bytes) : Handler TaskMessage Publication :=
  match taskSlice.fromSlice data with
  | some taskMessage => .process taskMessage (.ack fun _ => .next)
  | none => .nack fun _ => .next

def consumer : Consumer TaskMessage Publication := ⟨onDelivery taskSlice, true⟩

end AnNode

/-! ## No task lost by a Ki node -/

namespace KiNode
open System
variable (taskSlice : SerdeSlice TaskMessage) (resultSlice : SerdeSlice ResultMessage)

abbrev Node := System TaskMessage Publication

/-- Every task is queued or unacknowledged, or its result was published. -/
def NoTaskLost (s : Node) : Prop :=
  ∀ message ∈ s.enqueued, ∀ task, taskSlice.fromSlice message.data = some task →
    (message ∈ s.queued ∨ message ∈ s.unacked) ∨
      ∃ result : ResultMessage, result.taskId = task.taskId ∧
        (message, ⟨resultQueue, resultSlice.toVec result⟩) ∈ s.published

/-- Where the broker grants an acknowledgement right after it refused the publication, it had
granted an earlier publication for the same task. -/
def RefusedOnlyAgain (answers : List Answer) : Prop :=
  ∀ before message after,
    answers = before ++ ⟨message, .publish, false⟩ :: ⟨message, .ack, true⟩ :: after →
      ⟨message, .publish, true⟩ ∈ before

def IsResult (data : Files.Bytes) (sent : Publication) : Prop :=
  ∃ task, taskSlice.fromSlice data = some task ∧
    sent = ⟨resultQueue, resultSlice.toVec (performComputation task)⟩

theorem onDelivery_all (data : Files.Bytes) :
    (onDelivery taskSlice resultSlice data).All (IsResult taskSlice resultSlice data) := by
  unfold onDelivery
  cases h : taskSlice.fromSlice data with
  | none => trivial
  | some task =>
    refine ⟨⟨task, h, rfl⟩, ?_⟩
    intro sent acknowledged
    cases acknowledged <;> trivial

variable {taskSlice resultSlice}

theorem noTaskLost_iff_noneLost {s : Node} (hs : s.Attributed (IsResult taskSlice resultSlice)) :
    NoTaskLost taskSlice resultSlice s ↔
      s.NoneLost fun data => (taskSlice.fromSlice data).isSome := by
  constructor
  · intro h message hmem hsome
    obtain ⟨task, htask⟩ := Option.isSome_iff_exists.mp hsome
    rcases h message hmem task htask with hheld | ⟨result, _, hsent⟩
    · exact Or.inl hheld
    · exact Or.inr ⟨_, hsent⟩
  · intro h message hmem task htask
    rcases h message hmem (by simp [htask]) with hheld | ⟨sent, hsent⟩
    · exact Or.inl hheld
    · obtain ⟨task', htask', rfl⟩ := hs.published message sent hsent
      rw [htask, Option.some.injEq] at htask'
      subst htask'
      exact Or.inr ⟨performComputation task, rfl, hsent⟩

/-- With every request granted a held task is answered, and then acknowledged. -/
theorem run_answers {s : Node} {message : Message} {task : TaskMessage}
    (htask : taskSlice.fromSlice message.data = some task) (hheld : message ∈ s.unacked)
    (hcurrent : s.current = some (message, onDelivery taskSlice resultSlice message.data)) :
    Handled message [.processed task,
        .published ⟨resultQueue, resultSlice.toVec (performComputation task)⟩, .acked] s
      (Runs.run (step (consumer taskSlice resultSlice)) s (List.replicate 4 (.perform true))) := by
  have hbody : onDelivery taskSlice resultSlice message.data =
      .process task (sendResult resultSlice (performComputation task) fun _ => ackOrReturn) := by
    simp [onDelivery, htask]
  rw [hbody] at hcurrent
  exact run_granted (consumer taskSlice resultSlice) rfl hcurrent (Or.inl hheld)

variable (taskSlice resultSlice) in
/-- Where the iteration for a message is, after the broker has given these answers. -/
inductive Stage (s : Node) (given : List Answer) (message : Message) :
    Handler TaskMessage Publication → Prop where
  | begins (hheld : message ∈ s.unacked) :
      Stage s given message (onDelivery taskSlice resultSlice message.data)
  | sends (task : TaskMessage) (hparses : taskSlice.fromSlice message.data = some task)
      (hheld : message ∈ s.unacked) :
      Stage s given message (sendResult resultSlice (performComputation task) fun _ => ackOrReturn)
  | acks (task : TaskMessage) (hparses : taskSlice.fromSlice message.data = some task)
      (hheld : message ∈ s.unacked) (before : List Answer) (published : Bool)
      (hgiven : given = before ++ [⟨message, .publish, published⟩]) :
      Stage s given message ackOrReturn
  | ends (acknowledged : Bool) : Stage s given message (if acknowledged then .next else .stop)

/-- An iteration goes on from the broker's answer to its last request. -/
theorem Stage.perform {s : Node} {given : List Answer} {message : Message}
    {handler after : Handler TaskMessage Publication}
    (h : Stage taskSlice resultSlice s given message handler) (granted : Bool) {other : Message}
    (hafter : (s.perform message granted handler).current = some (other, after)) :
    Stage taskSlice resultSlice (s.perform message granted handler)
      (given ++ (handler.request.map fun request => ⟨message, request, granted⟩).toList)
      other after := by
  cases h with
  | begins hheld =>
    unfold onDelivery at hafter ⊢
    cases hparses : taskSlice.fromSlice message.data with
    | none => simp [hparses, System.perform, requeue] at hafter
    | some task =>
      simp only [hparses, System.perform, Option.some.injEq, Prod.mk.injEq] at hafter
      obtain ⟨rfl, rfl⟩ := hafter
      exact .sends task hparses hheld
  | sends task hparses hheld =>
    simp only [sendResult, System.perform, Option.some.injEq, Prod.mk.injEq] at hafter
    obtain ⟨rfl, rfl⟩ := hafter
    exact .acks task hparses hheld given granted rfl
  | acks task hparses hheld before published hgiven =>
    simp only [ackOrReturn, System.perform, Option.some.injEq, Prod.mk.injEq] at hafter
    obtain ⟨rfl, rfl⟩ := hafter
    exact .ends granted
  | ends acknowledged => cases acknowledged <;> simp [System.perform, requeue] at hafter

/-- Other steps of the system leave an iteration where it is. -/
theorem Stage.mono {s s' : Node} {given : List Answer} {message : Message}
    {handler : Handler TaskMessage Publication}
    (h : Stage taskSlice resultSlice s given message handler) (hheld : s.unacked ⊆ s'.unacked) :
    Stage taskSlice resultSlice s' given message handler := by
  cases h with
  | begins hmem => exact .begins (hheld hmem)
  | sends task hparses hmem => exact .sends task hparses (hheld hmem)
  | acks task hparses hmem before published hgiven =>
    exact .acks task hparses (hheld hmem) before published hgiven
  | ends acknowledged => exact .ends acknowledged

variable (taskSlice resultSlice) in
structure Staged (s : Node) (given : List Answer) : Prop where
  conserved : s.Conserved
  handed : s.Handed
  stage : ∀ message handler, s.current = some (message, handler) →
    Stage taskSlice resultSlice s given message handler

theorem Staged.step {s : Node} {given : List Answer} (h : Staged taskSlice resultSlice s given)
    (event : Event) : Staged taskSlice resultSlice (step (consumer taskSlice resultSlice) s event)
      (given ++ (s.answer event).toList) := by
  refine ⟨h.conserved.step _ event, h.handed.step h.conserved _ event, ?_⟩
  intro message handler hcurrent
  cases event with
  | enqueue data =>
    simp only [System.step, answer, Option.toList_none, List.append_nil] at hcurrent ⊢
    exact (h.stage message handler hcurrent).mono (List.Subset.refl _)
  | deliver =>
    simp only [System.step, answer, Option.toList_none, List.append_nil] at hcurrent ⊢
    split at hcurrent
    · exact h.stage message handler hcurrent
    · exact (h.stage message handler hcurrent).mono (List.subset_append_left _ _)
  | take =>
    simp only [System.step, answer, Option.toList_none, List.append_nil] at hcurrent ⊢
    split at hcurrent
    · rename_i head rest _ hinbox
      obtain ⟨rfl, rfl⟩ := Prod.mk.inj (Option.some.inj hcurrent)
      exact .begins (h.handed.mem_unacked hinbox)
    · exact h.stage message handler hcurrent
  | fail =>
    simp only [System.step, answer, Option.toList_none, List.append_nil] at hcurrent ⊢
    split at hcurrent
    · simp [consumer, requeue] at hcurrent
    · exact h.stage message handler hcurrent
  | crash => simp [System.step, requeue] at hcurrent
  | perform granted =>
    cases hbefore : s.current with
    | none => simp [System.step, hbefore] at hcurrent
    | some current =>
      obtain ⟨other, before⟩ := current
      rw [step_perform _ hbefore] at hcurrent ⊢
      rw [answer_perform hbefore]
      exact (h.stage other before hbefore).perform granted hcurrent

theorem run_staged (events : List Event) :
    Staged taskSlice resultSlice (Runs.run (step (consumer taskSlice resultSlice)) start events)
      (answers (consumer taskSlice resultSlice) start events) :=
  Runs.outputs_invariant (fun _ event _ h => h.step event)
    ⟨start_conserved, start_handed, by simp [start]⟩ events

/-- A Ki node that asks for an acknowledgement has just had an answer to its publication. -/
theorem Staged.before_ack {s : Node} {given : List Answer}
    (h : Staged taskSlice resultSlice s given) {message : Message}
    {handler : Handler TaskMessage Publication} (hcurrent : s.current = some (message, handler))
    (hrequest : handler.request = some .ack) :
    message ∈ s.unacked ∧ (taskSlice.fromSlice message.data).isSome ∧
      ∃ before published, given = before ++ [⟨message, .publish, published⟩] := by
  cases h.stage message handler hcurrent with
  | begins hheld =>
    unfold onDelivery at hrequest
    cases hparses : taskSlice.fromSlice message.data <;> simp [hparses, Handler.request] at hrequest
  | sends => simp [sendResult, Handler.request] at hrequest
  | acks task hparses hheld before published hgiven =>
    exact ⟨hheld, by simp [hparses], before, published, hgiven⟩
  | ends acknowledged => cases acknowledged <;> simp [Handler.request] at hrequest

/-- A Ki node never asks for a rejection. -/
theorem Staged.request_ne_nack {s : Node} {given : List Answer}
    (h : Staged taskSlice resultSlice s given) {message : Message}
    {handler : Handler TaskMessage Publication} (hcurrent : s.current = some (message, handler)) :
    handler.request ≠ some .nack := by
  intro hrequest
  cases h.stage message handler hcurrent with
  | begins hheld =>
    unfold onDelivery at hrequest
    cases hparses : taskSlice.fromSlice message.data <;> simp [hparses, Handler.request] at hrequest
  | sends => simp [sendResult, Handler.request] at hrequest
  | acks => simp [ackOrReturn, Handler.request] at hrequest
  | ends acknowledged => cases acknowledged <;> simp [Handler.request] at hrequest

theorem settledAfterAnswer_iff (taskSlice : SerdeSlice TaskMessage)
    (resultSlice : SerdeSlice ResultMessage) (events : List Event) :
    Runs.Along (step (consumer taskSlice resultSlice))
        (SettledAfterAnswer fun data => (taskSlice.fromSlice data).isSome) start events ↔
      RefusedOnlyAgain (answers (consumer taskSlice resultSlice) start events) := by
  rw [Runs.along_iff_forall]
  constructor
  · intro h before message after hanswers
    have hsplit : answers (consumer taskSlice resultSlice) start events =
        (before ++ [⟨message, .publish, false⟩]) ++ ⟨message, .ack, true⟩ :: after := by
      simp [hanswers]
    obtain ⟨past, event, rest, hevents, hgiven, hanswer⟩ :=
      exists_step_of_answers (consumer taskSlice resultSlice) start hsplit
    obtain ⟨rfl, handler, hcurrent, hrequest⟩ := answer_eq_some _ hanswer
    have hstaged : Staged taskSlice resultSlice _ _ := run_staged past
    obtain ⟨hheld, hparses, -⟩ := hstaged.before_ack hcurrent hrequest
    have hsettles : (Runs.run (step (consumer taskSlice resultSlice)) start past).Settles
        (.perform true) message := by
      cases handler with
      | ack onAnswer => exact ⟨hheld, onAnswer, Or.inl hcurrent⟩
      | next | stop | process | publish | nack => simp [Handler.request] at hrequest
    have hpublished := h past _ rest hevents message hsettles hparses
    rw [exists_published_iff, ← hgiven] at hpublished
    simpa using hpublished
  · intro h past event rest hevents message hsettles _
    have hstaged : Staged taskSlice resultSlice _ _ := run_staged past
    cases event with
    | enqueue | deliver | take | fail | crash => exact hsettles.elim
    | perform granted =>
      cases granted with
      | false => exact hsettles.elim
      | true =>
        obtain ⟨_, onAnswer, hcurrent | hcurrent⟩ := hsettles
        · obtain ⟨_, _, before, published, hgiven⟩ := hstaged.before_ack hcurrent rfl
          rw [exists_published_iff, hgiven]
          cases published with
          | true => simp
          | false =>
            obtain ⟨after, hafter⟩ := answers_of_step (consumer taskSlice resultSlice) start
              (answer_perform hcurrent true) rest
            apply List.mem_append_left
            apply h before message after
            rw [hevents, hafter, hgiven, List.append_assoc]
            rfl
        · exact absurd rfl (hstaged.request_ne_nack hcurrent)

/-- A Ki node loses no task exactly when the broker never grants the acknowledgement after a
refused publication, unless the task was answered already. -/
theorem always_noTaskLost_iff (taskSlice : SerdeSlice TaskMessage)
    (resultSlice : SerdeSlice ResultMessage) (events : List Event) :
    Runs.Always (step (consumer taskSlice resultSlice)) (NoTaskLost taskSlice resultSlice) start
        events ↔
      RefusedOnlyAgain (answers (consumer taskSlice resultSlice) start events) := by
  have hattributed : Runs.Always (step (consumer taskSlice resultSlice))
      (Attributed (IsResult taskSlice resultSlice)) start events :=
    Runs.always_of_invariant
      (fun _ event hs => hs.step (onDelivery_all taskSlice resultSlice) event)
      start_attributed events
  rw [← settledAfterAnswer_iff, ← always_noneLost_iff (consumer taskSlice resultSlice)
    (fun data => (taskSlice.fromSlice data).isSome) events]
  constructor
  · intro h past hpast
    exact (noTaskLost_iff_noneLost (hattributed past hpast)).mp (h past hpast)
  · intro h past hpast
    exact (noTaskLost_iff_noneLost (hattributed past hpast)).mpr (h past hpast)

/-- However the broker answers and wherever the node crashes, tasks are not lost. -/
def LosesNoTask (taskSlice : SerdeSlice TaskMessage) (resultSlice : SerdeSlice ResultMessage) :
    Prop :=
  ∀ events, (∀ data, .enqueue data ∈ events → (taskSlice.fromSlice data).isSome) →
    Runs.Always (step (consumer taskSlice resultSlice)) (NoTaskLost taskSlice resultSlice) start
      events

/-- The publish is refused and the acknowledgement granted. -/
theorem not_losesNoTask : ¬ LosesNoTask Wire.taskMessageSlice Wire.resultMessageSlice := by
  intro h
  let data := Wire.taskMessageSlice.toVec ⟨"1", "x"⟩
  have hdata : Wire.taskMessageSlice.fromSlice data = some ⟨"1", "x"⟩ :=
    Wire.taskMessageSlice.fromSlice_toVec _
  have hlost := h [.enqueue data, .deliver, .take, .perform true, .perform false, .perform true]
    (by simp [hdata]) _ (List.prefix_refl _) ⟨0, data⟩ (by
      simp [step, start, consumer, onDelivery, hdata, perform, sendResult, ackOrReturn, settle])
    ⟨"1", "x"⟩ hdata
  simp [step, start, consumer, onDelivery, hdata, perform, sendResult, ackOrReturn, settle]
    at hlost

end KiNode

/-! ## Malformed deliveries -/

section Malformed
variable (taskSlice : SerdeSlice TaskMessage) (resultSlice : SerdeSlice ResultMessage)
variable (updateSlice : SerdeSlice UpdateRequest)

theorem AnNode.onDelivery_sound (data : Files.Bytes) :
    Sound taskSlice.fromSlice data (AnNode.onDelivery taskSlice data) := by
  unfold AnNode.onDelivery
  cases h : taskSlice.fromSlice data with
  | none => exact ⟨rfl, rfl, by simp [h]⟩
  | some taskMessage => exact ⟨rfl, rfl, by simp [h, Handler.granted]⟩

theorem KiNode.onDelivery_sound_iff (data : Files.Bytes) :
    Sound taskSlice.fromSlice data (KiNode.onDelivery taskSlice resultSlice data) ↔
      (taskSlice.fromSlice data).isSome := by
  unfold KiNode.onDelivery
  cases h : taskSlice.fromSlice data with
  | none =>
    refine iff_of_false ?_ (by simp)
    intro hsound
    exact absurd hsound.continues (by simp [Handler.continues])
  | some taskMessage =>
    exact iff_of_true ⟨rfl, rfl, by simp [h, Handler.granted]⟩ rfl

theorem Principal.onDelivery_sound_iff (data : Files.Bytes) :
    Sound updateSlice.fromSlice data (Principal.onDelivery updateSlice data) ↔
      (updateSlice.fromSlice data).isSome := by
  unfold Principal.onDelivery
  cases h : updateSlice.fromSlice data with
  | none =>
    refine iff_of_false ?_ (by simp)
    intro hsound
    exact absurd hsound.continues (by simp [Handler.continues])
  | some updateRequest =>
    exact iff_of_true ⟨rfl, rfl, by simp [h, Handler.granted]⟩ rfl

/-- Malformed deliveries leave the An node's loop alone; the other two get through a stream
exactly when every payload in it parses. -/
theorem robust_loops (payloads : List Files.Bytes) :
    Robust taskSlice.fromSlice (AnNode.consumer taskSlice) payloads ∧
      (Robust taskSlice.fromSlice (KiNode.consumer taskSlice resultSlice) payloads ↔
        ∀ data ∈ payloads, (taskSlice.fromSlice data).isSome) ∧
      (Robust updateSlice.fromSlice (Principal.consumer updateSlice) payloads ↔
        ∀ data ∈ payloads, (updateSlice.fromSlice data).isSome) := by
  simp only [robust_iff]
  refine ⟨?_, ?_, ?_⟩
  · intro data _
    exact AnNode.onDelivery_sound taskSlice data
  · exact forall₂_congr fun data _ => KiNode.onDelivery_sound_iff taskSlice resultSlice data
  · exact forall₂_congr fun data _ => Principal.onDelivery_sound_iff updateSlice data

/-- No sequence of payloads stops one of the loops or makes it skip a message. -/
def MalformedTolerated : Prop :=
  ∀ payloads, Robust taskSlice.fromSlice (AnNode.consumer taskSlice) payloads ∧
    Robust taskSlice.fromSlice (KiNode.consumer taskSlice resultSlice) payloads ∧
    Robust updateSlice.fromSlice (Principal.consumer updateSlice) payloads

end Malformed

/-- An empty payload ends the loop of a Ki node. -/
theorem not_malformedTolerated : ¬ MalformedTolerated Wire.taskMessageSlice Wire.resultMessageSlice
    Wire.updateRequestSlice := by
  intro h
  have hending := (h [[]]).2.1.ending
  simp [serve, KiNode.consumer, KiNode.onDelivery, Wire.taskMessageSlice_nil, Handler.continues]
    at hending

end AnKi
