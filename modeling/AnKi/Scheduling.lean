import AnKi.Scheduler

/-!
# scheduler.rs: calls under way at the same time

Any number of `schedule_task` calls wait on the channel together. Each has counted
its task on a node by then, and may be accepted, fail when the receiver is gone, or
be dropped. Calls are numbered, and every task counted is on one list from then on:
of the calls that wait, of those that returned `Ok`, or of those that were lost.
-/

namespace AnKi
open Channels
set_option autoImplicit false

namespace Scheduling
open LoadBalancer Scheduler

structure Ticket where
  call : Nat
  task : Task
  deriving DecidableEq

structure Desk where
  scheduler : Scheduler
  /-- The tasks of all calls so far. -/
  started : List Task
  /-- The calls whose task was counted on a node. -/
  counted : List Ticket
  waiting : List Ticket
  accepted : List Ticket
  /-- Failed or dropped after their task was counted. -/
  lost : List Ticket

inductive Event where
  | start (task : Task) (order : List Uuid)
  | send (ticket : Ticket)
  | drop (ticket : Ticket)
  | turn (t : Turn)

def Desk.fresh (scheduler : Scheduler) : Desk := ⟨scheduler, [], [], [], [], []⟩

/-- The first part of `schedule_task`, up to the `await`. -/
def Desk.start (s : Desk) (task : Task) (order : List Uuid) : Desk :=
  match s.scheduler.loadBalancer.assignTask order with
  | (some _, loadBalancer) =>
    { s with
      scheduler := { s.scheduler with loadBalancer := loadBalancer }
      started := s.started ++ [task]
      counted := s.counted ++ [⟨s.started.length, task⟩]
      waiting := s.waiting ++ [⟨s.started.length, task⟩] }
  | (none, loadBalancer) =>
    { s with
      scheduler := { s.scheduler with loadBalancer := loadBalancer }
      started := s.started ++ [task] }

/-- A waiting call is polled: it gets its place in the channel, fails, or waits on. -/
def Desk.send (s : Desk) (ticket : Ticket) : Desk :=
  match s.scheduler.taskTx.send ticket.task [] with
  | (.accepted, taskTx) =>
    { s with
      scheduler := { s.scheduler with taskTx := taskTx }
      waiting := s.waiting.erase ticket
      accepted := s.accepted ++ [ticket] }
  | (.refused, taskTx) =>
    { s with
      scheduler := { s.scheduler with taskTx := taskTx }
      waiting := s.waiting.erase ticket
      lost := s.lost ++ [ticket] }
  | (.dropped, taskTx) => { s with scheduler := { s.scheduler with taskTx := taskTx } }

def step (s : Desk) : Event → Desk
  | .start task order => s.start task order
  | .send ticket => if ticket ∈ s.waiting then s.send ticket else s
  | .drop ticket =>
    if ticket ∈ s.waiting then
      { s with waiting := s.waiting.erase ticket, lost := s.lost ++ [ticket] }
    else s
  | .turn t => { s with scheduler := { s.scheduler with taskTx := s.scheduler.taskTx.turn t } }

/-- The nodes come in some order of the map. -/
def Possible (s : Desk) : Event → Prop
  | .start _ order => HashMap.IterationOrder order s.scheduler.loadBalancer.nodes
  | .send _ | .drop _ | .turn _ => True

/-- A call that finds a node finds one that can count its task. -/
def Countable (s : Desk) : Event → Prop
  | .start _ _ => s.scheduler.loadBalancer.nodes = ∅ ∨ s.scheduler.loadBalancer.HasRoom
  | .send _ | .drop _ | .turn _ => True

/-- Where the messages come from. -/
structure Accounted (first : Scheduler) (s : Desk) : Prop where
  /-- Every counted task is on exactly one of the lists, whatever became of its call. -/
  parted : (s.accepted ++ s.waiting ++ s.lost).Perm s.counted
  once : (s.counted.map Ticket.call).Nodup
  own : ∀ ticket ∈ s.counted, s.started[ticket.call]? = some ticket.task
  channel : s.scheduler.taskTx.accepted = first.taskTx.accepted ++ s.accepted.map Ticket.task

/-- Every task counted raised the total. -/
def Counted (first : Scheduler) (s : Desk) : Prop :=
  s.scheduler.totalCount = first.totalCount + s.counted.length

theorem fresh_accounted (first : Scheduler) : Accounted first (Desk.fresh first) :=
  ⟨List.Perm.refl _, List.nodup_nil, by simp [Desk.fresh], by simp [Desk.fresh]⟩

theorem Accounted.call_lt {first : Scheduler} {s : Desk} (h : Accounted first s) {ticket : Ticket}
    (hmem : ticket ∈ s.counted) : ticket.call < s.started.length := by
  have hown := h.own ticket hmem
  rw [List.getElem?_eq_some_iff] at hown
  exact hown.1

theorem Accounted.start {first : Scheduler} {s : Desk} (h : Accounted first s) (task : Task)
    {order : List Uuid} (hpossible : Possible s (.start task order)) :
    Accounted first (s.start task order) := by
  have hown : ∀ ticket ∈ s.counted, (s.started ++ [task])[ticket.call]? = some ticket.task := by
    intro ticket hmem
    rw [List.getElem?_append_left (h.call_lt hmem)]
    exact h.own ticket hmem
  obtain ⟨hempty, hassign⟩ | ⟨nodeId, nodeInfo, hleast, hassign⟩ := assignTask_cases hpossible
  · simp only [Desk.start, hassign]
    exact ⟨h.parted, h.once, hown, h.channel⟩
  · simp only [Desk.start, hassign]
    refine ⟨?_, ?_, ?_, h.channel⟩
    · rw [← List.append_assoc, List.append_assoc]
      refine (List.Perm.append_left _ List.perm_append_comm).trans ?_
      rw [← List.append_assoc]
      exact h.parted.append_right _
    · rw [List.map_append, List.map_singleton, List.nodup_append]
      refine ⟨h.once, List.nodup_singleton _, ?_⟩
      intro call hcall other hother
      obtain ⟨ticket, hmem, rfl⟩ := List.mem_map.mp hcall
      rw [List.mem_singleton.mp hother]
      exact Nat.ne_of_lt (h.call_lt hmem)
    · intro ticket hmem
      rcases List.mem_append.mp hmem with hmem | hmem
      · exact hown ticket hmem
      · obtain rfl := List.mem_singleton.mp hmem
        simp

theorem parted_accept {accepted waiting lost : List Ticket} {ticket : Ticket}
    (hmem : ticket ∈ waiting) : (accepted ++ [ticket] ++ waiting.erase ticket ++ lost).Perm
      (accepted ++ waiting ++ lost) := by
  rw [List.append_assoc accepted]
  exact ((List.perm_cons_erase hmem).symm.append_left accepted).append_right lost

theorem parted_lose {accepted waiting lost : List Ticket} {ticket : Ticket}
    (hmem : ticket ∈ waiting) : (accepted ++ waiting.erase ticket ++ (lost ++ [ticket])).Perm
      (accepted ++ waiting ++ lost) := by
  rw [List.append_assoc, List.append_assoc]
  refine List.Perm.append_left accepted ?_
  calc (waiting.erase ticket ++ (lost ++ [ticket])).Perm
        (waiting.erase ticket ++ ([ticket] ++ lost)) :=
        List.perm_append_comm.append_left _
    _ = waiting.erase ticket ++ [ticket] ++ lost := (List.append_assoc _ _ _).symm
    List.Perm _ ([ticket] ++ waiting.erase ticket ++ lost) :=
        List.perm_append_comm.append_right _
    List.Perm _ (waiting ++ lost) := (List.perm_cons_erase hmem).symm.append_right _

theorem Accounted.send {first : Scheduler} {s : Desk} (h : Accounted first s) {ticket : Ticket}
    (hmem : ticket ∈ s.waiting) : Accounted first (s.send ticket) := by
  have hchannel := Channel.send_accepted ticket.task s.scheduler.taskTx []
  unfold Desk.send
  cases hsend : s.scheduler.taskTx.send ticket.task [] with
  | mk sent taskTx =>
    rw [hsend] at hchannel
    cases sent with
    | accepted =>
      refine ⟨(parted_accept hmem).trans h.parted, h.once, h.own, ?_⟩
      rw [List.map_append, List.map_singleton, ← List.append_assoc, ← h.channel]
      exact hchannel
    | refused =>
      exact ⟨(parted_lose hmem).trans h.parted, h.once, h.own, hchannel.trans h.channel⟩
    | dropped => exact ⟨h.parted, h.once, h.own, hchannel.trans h.channel⟩

theorem Accounted.step {first : Scheduler} {s : Desk} (h : Accounted first s) {event : Event}
    (hpossible : Possible s event) : Accounted first (step s event) := by
  cases event with
  | start task order => exact h.start task hpossible
  | send ticket =>
    rw [Scheduling.step]
    split
    · rename_i hmem
      exact h.send hmem
    · exact h
  | drop ticket =>
    rw [Scheduling.step]
    split
    · rename_i hmem
      exact ⟨(parted_lose hmem).trans h.parted, h.once, h.own, h.channel⟩
    · exact h
  | turn t =>
    exact ⟨h.parted, h.once, h.own, (Channel.turn_accepted _ t).trans h.channel⟩

theorem Counted.start {first : Scheduler} {s : Desk} (h : Counted first s) {task : Task}
    {order : List Uuid} (hpossible : Possible s (.start task order))
    (hcountable : Countable s (.start task order)) : Counted first (s.start task order) := by
  obtain ⟨hempty, hassign⟩ | ⟨nodeId, nodeInfo, hleast, hassign⟩ := assignTask_cases hpossible
  · simp only [Desk.start, hassign]
    exact h
  · have hroom := hleast.hasRoom_iff.mp (hcountable.resolve_left hleast.nodes_ne)
    have htotal := (totalCount_assign_iff hleast.registered s.scheduler.taskTx).mpr hroom
    simp only [Desk.start, hassign]
    unfold Counted at h ⊢
    rw [List.length_append, List.length_singleton, ← Nat.add_assoc, ← h]
    exact htotal

/-- Only a call that starts changes a count. -/
theorem Counted.step {first : Scheduler} {s : Desk} (h : Counted first s) {event : Event}
    (hpossible : Possible s event) (hcountable : Countable s event) :
    Counted first (step s event) := by
  cases event with
  | start task order => exact h.start hpossible hcountable
  | send ticket =>
    rw [Scheduling.step]
    split
    · unfold Desk.send
      split <;> exact h
    · exact h
  | drop ticket =>
    rw [Scheduling.step]
    split <;> exact h
  | turn t => exact h

/-- What the channel shows of the calls, and where each of them stands. -/
structure Exact (first : Scheduler) (s : Desk) : Prop where
  delivered : s.scheduler.taskTx.received ++ s.scheduler.taskTx.buffer =
    first.taskTx.received ++ first.taskTx.buffer ++ s.accepted.map Ticket.task
  once : ((s.accepted ++ s.waiting ++ s.lost).map Ticket.call).Nodup
  own : ∀ ticket ∈ s.accepted ++ s.waiting ++ s.lost,
    s.started[ticket.call]? = some ticket.task

/-- However the calls interleave, the receiver gets the tasks of the calls that returned `Ok`, each
of them once and in their order; and unless a counter overflows, the counts exceed these tasks by
one for every call that waits and one for every call that was lost. -/
theorem calls_accounted {first : Scheduler} {events : List Event}
    (hpossible : Runs.Along step Possible (Desk.fresh first) events) :
    Exact first (Runs.run step (Desk.fresh first) events) ∧
      (Runs.Along step Countable (Desk.fresh first) events →
        let s := Runs.run step (Desk.fresh first) events
        s.scheduler.totalCount =
          first.totalCount + s.accepted.length + s.waiting.length + s.lost.length) := by
  have haccounted : Accounted first (Runs.run step (Desk.fresh first) events) :=
    hpossible.invariant (fun _ _ h hp => h.step hp) (fresh_accounted first)
  refine ⟨⟨haccounted.channel, ?_, ?_⟩, ?_⟩
  · exact (haccounted.parted.map Ticket.call).nodup_iff.mpr haccounted.once
  · intro ticket hmem
    exact haccounted.own ticket (haccounted.parted.mem_iff.mp hmem)
  · intro hcountable s
    have hcounted : Counted first s :=
      (hpossible.and hcountable).invariant (fun _ _ h hp => h.step hp.1 hp.2) rfl
    have hlength : (s.accepted ++ s.waiting ++ s.lost).length = s.counted.length :=
      haccounted.parted.length_eq
    rw [List.length_append, List.length_append] at hlength
    unfold Counted at hcounted
    omega

/-- Two calls on a channel of one place; one of them is dropped while it waits. -/
theorem calls_accounted_twoCalls :
    let events := [.start ⟨1, "x"⟩ [7], .start ⟨2, "y"⟩ [7], .send ⟨1, ⟨2, "y"⟩⟩,
      .send ⟨0, ⟨1, "x"⟩⟩, .drop ⟨0, ⟨1, "x"⟩⟩, .turn .receive]
    let s := Runs.run step (Desk.fresh (oneNode (onePlace false))) events
    Exact (oneNode (onePlace false)) s ∧ s.scheduler.totalCount = 2 := by
  intro events s
  have hpossible : Runs.Along step Possible (Desk.fresh (oneNode (onePlace false))) events := by
    simp only [events, Runs.along_cons, Runs.along_nil, Possible]
    decide
  obtain ⟨hexact, htotal⟩ := calls_accounted hpossible
  refine ⟨hexact, (htotal ?_).trans (by decide)⟩
  simp only [events, Runs.along_cons, Runs.along_nil, Countable]
  exact ⟨Or.inr ⟨7, ⟨7, 0⟩, by decide, by decide⟩, Or.inr ⟨7, ⟨7, 1⟩, by decide, by decide⟩,
    trivial, trivial, trivial, trivial, trivial⟩

end Scheduling

end AnKi
