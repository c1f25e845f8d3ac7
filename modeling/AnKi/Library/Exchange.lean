import AnKi.Library.Broker
import Mathlib.Algebra.BigOperators.Group.Finset.Basic
import Mathlib.Data.Fintype.Defs

/-!
# Consumers that share the queues of a broker

Any number of consumer loops, each on one queue; several may share a queue, and
what they publish is routed to a queue in turn, or dropped where no such queue was
declared. A loop sees its queue as in `Broker.System`, with what the other loops
hold out of its reach.
-/

namespace Exchange
open Files Broker
set_option autoImplicit false

variable {Q N R : Type} {M : N → Type}

/-- The queue each loop consumes, its body, and where a result goes. -/
structure Setup (Q N : Type) (M : N → Type) (R : Type) where
  queue : N → Q
  consumer : (i : N) → Consumer (M i) R
  route : R → Q × Bytes

/-- The part of a `Broker.System` that is a loop's own. -/
structure Node (M R : Type) where
  unacked : List Message
  inbox : List Message
  current : Option (Message × Handler M R)
  published : List (Message × R)

structure Cluster (Q N : Type) (M : N → Type) (R : Type) where
  declared : Q → Bool
  enqueued : Q → List Message
  queued : Q → List Message
  settled : Q → List Message
  node : (i : N) → Node (M i) R

inductive Action where
  | deliver
  | take
  | fail
  | perform (granted : Bool)
  | crash
  deriving DecidableEq

def Action.event : Action → Broker.Event
  | .deliver => .deliver
  | .take => .take
  | .fail => .fail
  | .perform granted => .perform granted
  | .crash => .crash

/-- `declare` and `arrive` are requests of anybody; a loop that starts declares its queue. -/
inductive Event (Q N : Type) where
  | declare (queue : Q)
  | arrive (queue : Q) (data : Bytes)
  | node (i : N) (action : Action)
  deriving DecidableEq

/-- The result that a system publishes with this action. -/
def sent {M R : Type} (s : System M R) : Action → Option (Message × R)
  | .perform true =>
    match s.current with
    | some (message, .publish result _) => some (message, result)
    | _ => none
  | _ => none

namespace Cluster

def start : Cluster Q N M R :=
  ⟨fun _ => false, fun _ => [], fun _ => [], fun _ => [], fun _ => ⟨[], [], none, []⟩⟩

variable (setup : Setup Q N M R)

/-- What the loop `i` sees of the broker. -/
def view (c : Cluster Q N M R) (i : N) : System (M i) R :=
  ⟨c.enqueued (setup.queue i), c.queued (setup.queue i), (c.node i).unacked,
    c.settled (setup.queue i), (c.node i).published, (c.node i).inbox, (c.node i).current⟩

variable [DecidableEq Q] [DecidableEq N]

def replace (c : Cluster Q N M R) (i : N) (s : System (M i) R) : Cluster Q N M R :=
  { c with
    queued := Function.update c.queued (setup.queue i) s.queued
    settled := Function.update c.settled (setup.queue i) s.settled
    node := Function.update c.node i ⟨s.unacked, s.inbox, s.current, s.published⟩ }

/-- A message for a queue that was not declared is dropped. -/
def enqueue (c : Cluster Q N M R) (queue : Q) (data : Bytes) : Cluster Q N M R :=
  if c.declared queue then
    { c with
      enqueued := Function.update c.enqueued queue
        (c.enqueued queue ++ [⟨(c.enqueued queue).length, data⟩])
      queued := Function.update c.queued queue
        (c.queued queue ++ [⟨(c.enqueued queue).length, data⟩]) }
  else c

def act (c : Cluster Q N M R) (i : N) (action : Action) : Cluster Q N M R :=
  c.replace setup i (System.step (setup.consumer i) (c.view setup i) action.event)

def step (c : Cluster Q N M R) : Event Q N → Cluster Q N M R
  | .declare queue => { c with declared := Function.update c.declared queue true }
  | .arrive queue data => c.enqueue queue data
  | .node i action =>
    match sent (c.view setup i) action with
    | some (_, result) =>
      (c.act setup i action).enqueue (setup.route result).1 (setup.route result).2
    | none => c.act setup i action

end Cluster

namespace Cluster
variable [DecidableEq Q] [DecidableEq N]
variable (setup : Setup Q N M R) (c : Cluster Q N M R)

omit [DecidableEq N] in
@[simp] theorem enqueue_node (queue : Q) (data : Bytes) : (c.enqueue queue data).node = c.node := by
  unfold enqueue
  split <;> rfl

omit [DecidableEq N] in
@[simp] theorem enqueue_settled (queue : Q) (data : Bytes) :
    (c.enqueue queue data).settled = c.settled := by
  unfold enqueue
  split <;> rfl

omit [DecidableEq N] in
@[simp] theorem enqueue_declared (queue : Q) (data : Bytes) :
    (c.enqueue queue data).declared = c.declared := by
  unfold enqueue
  split <;> rfl

omit [DecidableEq N] in
theorem enqueued_subset (queue : Q) (data : Bytes) (other : Q) :
    c.enqueued other ⊆ (c.enqueue queue data).enqueued other := by
  unfold enqueue
  split
  · by_cases hother : other = queue
    · subst hother
      simp
    · simp [hother]
  · exact List.Subset.refl _

@[simp] theorem act_enqueued (i : N) (action : Action) :
    (c.act setup i action).enqueued = c.enqueued := rfl

@[simp] theorem act_declared (i : N) (action : Action) :
    (c.act setup i action).declared = c.declared := rfl

theorem act_node_self (i : N) (action : Action) : (c.act setup i action).node i =
    let s := System.step (setup.consumer i) (c.view setup i) action.event
    ⟨s.unacked, s.inbox, s.current, s.published⟩ := by
  simp [act, replace]

theorem act_node_ne {i j : N} (h : j ≠ i) (action : Action) :
    (c.act setup i action).node j = c.node j := by
  simp [act, replace, h]

theorem act_settled_self (i : N) (action : Action) :
    (c.act setup i action).settled (setup.queue i) =
      (System.step (setup.consumer i) (c.view setup i) action.event).settled := by
  simp [act, replace]

theorem act_settled_ne {i : N} {queue : Q} (h : queue ≠ setup.queue i) (action : Action) :
    (c.act setup i action).settled queue = c.settled queue := by
  simp [act, replace, h]

/-- What a loop has published, it publishes in this action or it published before. -/
theorem mem_act_published {i j : N} {action : Action} {message : Message} {result : R}
    (h : (message, result) ∈ ((c.act setup i action).node j).published) :
    (message, result) ∈ (c.node j).published ∨
      (j = i ∧ (c.view setup i).Publishes action.event message result) := by
  by_cases hj : j = i
  · subst hj
    rw [act_node_self] at h
    rcases (System.mem_published_step _ _ _ _ _).mp h with h | h
    · exact Or.inl h
    · exact Or.inr ⟨rfl, h⟩
  · rw [act_node_ne setup c hj] at h
    exact Or.inl h

theorem published_subset_act (i j : N) (action : Action) :
    (c.node j).published ⊆ ((c.act setup i action).node j).published := by
  intro entry hmem
  by_cases hj : j = i
  · subst hj
    rw [act_node_self]
    exact (System.mem_published_step _ _ _ _ _).mpr (Or.inl hmem)
  · rwa [act_node_ne setup c hj]

theorem published_subset_step (event : Event Q N) (j : N) :
    (c.node j).published ⊆ ((c.step setup event).node j).published := by
  cases event with
  | declare queue => exact List.Subset.refl _
  | arrive queue data => simp [step]
  | node i action =>
    simp only [step]
    split
    · rw [enqueue_node]
      exact published_subset_act setup c i j action
    · exact published_subset_act setup c i j action

theorem enqueued_subset_step (event : Event Q N) (queue : Q) :
    c.enqueued queue ⊆ (c.step setup event).enqueued queue := by
  cases event with
  | declare other => exact List.Subset.refl _
  | arrive other data => exact c.enqueued_subset other data queue
  | node i action =>
    simp only [step]
    split
    · exact (c.act setup i action).enqueued_subset _ _ queue
    · exact List.Subset.refl _

end Cluster

/-! ## What the other loops hold -/

section Framed
variable {M R : Type}

/-- The system, when `others` are held by other loops: out of reach, as settled messages are. -/
def framed (others : List Message) (s : System M R) : System M R :=
  { s with settled := others ++ s.settled }

theorem settle_framed (others : List Message) (s : System M R) (message : Message) :
    (framed others s).settle message = framed others (s.settle message) := by
  unfold System.settle framed
  by_cases hmem : message ∈ s.unacked
  · simp [hmem]
  · simp [hmem]

/-- What the others hold makes no difference to a loop. -/
theorem step_framed (consumer : Consumer M R) (others : List Message) (s : System M R)
    (event : Broker.Event) :
    System.step consumer (framed others s) event =
      framed others (System.step consumer s event) := by
  have hcurrent : (framed others s).current = s.current := rfl
  cases event with
  | enqueue data => rfl
  | deliver =>
    have hqueued : (framed others s).queued = s.queued := rfl
    simp only [System.step, hqueued]
    cases s.queued <;> rfl
  | take =>
    have hinbox : (framed others s).inbox = s.inbox := rfl
    simp only [System.step, hcurrent, hinbox]
    cases s.current <;> cases s.inbox <;> rfl
  | fail =>
    simp only [System.step, hcurrent]
    cases s.current with
    | some current => rfl
    | none => cases consumer.survivesError <;> rfl
  | crash => rfl
  | perform granted =>
    simp only [System.step, hcurrent]
    cases s.current with
    | none => rfl
    | some current =>
      obtain ⟨message, handler⟩ := current
      cases handler with
      | ack rest | nack rest =>
        cases granted with
        | false => rfl
        | true =>
          simp only [System.perform, if_true, settle_framed]
          rfl
      | next | stop | process | publish => rfl

theorem step_enqueued (consumer : Consumer M R) (s : System M R) (action : Action) :
    (System.step consumer s action.event).enqueued = s.enqueued := by
  cases action with
  | deliver => cases hqueued : s.queued <;> simp [Action.event, System.step, hqueued]
  | take =>
    cases hcurrent : s.current with
    | none => cases hinbox : s.inbox <;> simp [Action.event, System.step, hcurrent, hinbox]
    | some current => simp [Action.event, System.step, hcurrent]
  | fail =>
    cases hcurrent : s.current with
    | none =>
      cases hsurvives : consumer.survivesError <;>
        simp [Action.event, System.step, System.requeue, hcurrent, hsurvives]
    | some current => simp [Action.event, System.step, hcurrent]
  | crash => rfl
  | perform granted =>
    cases hcurrent : s.current with
    | none => simp [Action.event, System.step, hcurrent]
    | some current =>
      obtain ⟨message, handler⟩ := current
      simp only [Action.event, System.step, hcurrent]
      cases handler with
      | ack rest | nack rest => cases granted <;> simp [System.perform]
      | next | stop | process | publish => rfl

end Framed

/-! ## Every message has one place -/

namespace Cluster
variable [DecidableEq Q] [DecidableEq N] [Fintype N]
variable {setup : Setup Q N M R} {c : Cluster Q N M R}

def consumers (setup : Setup Q N M R) (queue : Q) : Finset N :=
  Finset.univ.filter fun i => setup.queue i = queue

/-- The messages of a queue that its loops have not settled. -/
def held (setup : Setup Q N M R) (c : Cluster Q N M R) (queue : Q) : Multiset Message :=
  ∑ i ∈ consumers setup queue, ((c.node i).unacked : Multiset Message)

/-- Each queue accounts for all that was put into it. -/
structure Conserved (setup : Setup Q N M R) (c : Cluster Q N M R) : Prop where
  sum : ∀ queue, (c.queued queue : Multiset Message) + c.held setup queue + c.settled queue =
    (c.enqueued queue : Multiset Message)
  fresh : ∀ queue, ∀ message ∈ c.enqueued queue, message.id < (c.enqueued queue).length
  nodup : ∀ queue, (c.enqueued queue).Nodup
  undeclared : ∀ queue, c.declared queue = false → c.enqueued queue = []

omit [DecidableEq N] in
theorem start_conserved (setup : Setup Q N M R) :
    (start : Cluster Q N M R).Conserved setup := by
  refine ⟨?_, ?_, ?_, ?_⟩
  · intro queue
    simp [start, held]
  · intro queue message hmem
    simp [start] at hmem
  · intro queue
    exact List.nodup_nil
  · intro queue _
    rfl

theorem held_eq_add (c : Cluster Q N M R) (i : N) :
    c.held setup (setup.queue i) = ((c.node i).unacked : Multiset Message) +
      ∑ j ∈ (consumers setup (setup.queue i)).erase i, ((c.node j).unacked : Multiset Message) := by
  have hmem : i ∈ consumers setup (setup.queue i) := by simp [consumers]
  exact (Finset.add_sum_erase _ (fun j => ((c.node j).unacked : Multiset Message)) hmem).symm

/-- The broker accounts for everything in the eyes of each loop. -/
theorem Conserved.framed (h : c.Conserved setup) (i : N) : ∃ others : List Message,
    (others : Multiset Message) =
        ∑ j ∈ (consumers setup (setup.queue i)).erase i, ((c.node j).unacked : Multiset Message) ∧
      (framed others (c.view setup i)).Conserved := by
  refine ⟨Multiset.toList _, Multiset.coe_toList _, ?_, h.fresh _, h.nodup _⟩
  apply Multiset.coe_eq_coe.mp
  have hsum := h.sum (setup.queue i)
  rw [held_eq_add] at hsum
  simp only [Exchange.framed, view, ← Multiset.coe_add, Multiset.coe_toList]
  rw [← hsum]
  ac_rfl

theorem Conserved.act (h : c.Conserved setup) (i : N) (action : Action) :
    (c.act setup i action).Conserved setup := by
  obtain ⟨others, hothers, hframed⟩ := h.framed i
  let next := System.step (setup.consumer i) (c.view setup i) action.event
  have hnext : (Exchange.framed others next).Conserved := by
    rw [← step_framed]
    exact hframed.step _ _
  refine ⟨?_, h.fresh, h.nodup, h.undeclared⟩
  intro queue
  by_cases hqueue : queue = setup.queue i
  · subst hqueue
    have hperm := Multiset.coe_eq_coe.mpr hnext.perm
    have henqueued : (Exchange.framed others next).enqueued = c.enqueued (setup.queue i) :=
      step_enqueued _ _ _
    have hrest : ∑ j ∈ (consumers setup (setup.queue i)).erase i,
        (((c.act setup i action).node j).unacked : Multiset Message) = others := by
      rw [hothers]
      apply Finset.sum_congr rfl
      intro j hj
      simp [Cluster.act, replace, Finset.ne_of_mem_erase hj]
    rw [henqueued] at hperm
    rw [held_eq_add, hrest]
    simp only [Exchange.framed, ← Multiset.coe_add] at hperm
    simp only [Cluster.act, replace, Function.update_self]
    rw [← hperm]
    ac_rfl
  · have hheld : (c.act setup i action).held setup queue = c.held setup queue := by
      apply Finset.sum_congr rfl
      intro j hj
      have hne : j ≠ i := by
        rintro rfl
        simp only [consumers, Finset.mem_filter] at hj
        exact hqueue hj.2.symm
      simp [Cluster.act, replace, hne]
    rw [hheld]
    simpa [Cluster.act, replace, hqueue] using h.sum queue

omit [DecidableEq N] in
theorem Conserved.enqueue (h : c.Conserved setup) (queue : Q) (data : Bytes) :
    (c.enqueue queue data).Conserved setup := by
  unfold Cluster.enqueue
  split
  · rename_i hdeclared
    -- a single loop that holds what all of them hold
    let whole : System Unit Unit := ⟨c.enqueued queue, c.queued queue,
      (c.held setup queue).toList, c.settled queue, [], [], none⟩
    have hwhole : whole.Conserved := by
      refine ⟨?_, h.fresh queue, h.nodup queue⟩
      apply Multiset.coe_eq_coe.mp
      simp only [whole, ← Multiset.coe_add, Multiset.coe_toList]
      exact h.sum queue
    have hnext := hwhole.enqueue ⟨fun _ => .next, true⟩ data
    refine ⟨?_, ?_, ?_, ?_⟩
    · intro other
      by_cases hother : other = queue
      · subst hother
        have hperm := Multiset.coe_eq_coe.mpr hnext.perm
        simp only [System.step, whole, ← Multiset.coe_add, Multiset.coe_toList] at hperm
        simp only [Function.update_self, ← Multiset.coe_add]
        exact hperm
      · simpa [held, hother] using h.sum other
    · intro other
      by_cases hother : other = queue
      · subst hother
        simpa [System.step, whole] using hnext.fresh
      · simpa [hother] using h.fresh other
    · intro other
      by_cases hother : other = queue
      · subst hother
        simpa [System.step, whole] using hnext.nodup
      · simpa [hother] using h.nodup other
    · intro other hundeclared
      have hother : other ≠ queue := by
        rintro rfl
        rw [hdeclared] at hundeclared
        cases hundeclared
      simpa [hother] using h.undeclared other hundeclared
  · exact h

theorem Conserved.step (h : c.Conserved setup) (event : Event Q N) :
    (c.step setup event).Conserved setup := by
  cases event with
  | declare queue =>
    refine ⟨h.sum, h.fresh, h.nodup, ?_⟩
    intro other hundeclared
    apply h.undeclared
    by_cases hother : other = queue
    · subst hother
      simp [Cluster.step] at hundeclared
    · simpa [Cluster.step, hother] using hundeclared
  | arrive queue data => exact h.enqueue queue data
  | node i action =>
    simp only [Cluster.step]
    split
    · exact (h.act i action).enqueue _ _
    · exact h.act i action

theorem conserved_run (setup : Setup Q N M R) (events : List (Event Q N)) :
    (Runs.run (Cluster.step setup) start events).Conserved setup :=
  Runs.invariant (fun _ event h => h.step event) (start_conserved setup) events

end Cluster

/-- Where a message can be. -/
inductive Place (N : Type) where
  | queued
  | held (i : N)
  | settled
  deriving DecidableEq

namespace Cluster
variable {setup : Setup Q N M R} {c : Cluster Q N M R}

def At (setup : Setup Q N M R) (c : Cluster Q N M R) (queue : Q) (message : Message) :
    Place N → Prop
  | .queued => message ∈ c.queued queue
  | .held i => setup.queue i = queue ∧ message ∈ (c.node i).unacked
  | .settled => message ∈ c.settled queue

section Places
variable [DecidableEq Q] [Fintype N]

theorem mem_held_iff (queue : Q) (message : Message) :
    message ∈ c.held setup queue ↔ ∃ i, setup.queue i = queue ∧ message ∈ (c.node i).unacked := by
  simp [held, consumers, Multiset.mem_sum]

theorem Conserved.mem_iff (h : c.Conserved setup) (queue : Q) (message : Message) :
    message ∈ c.enqueued queue ↔ ∃ place, c.At setup queue message place := by
  rw [← Multiset.mem_coe, ← h.sum queue, Multiset.mem_add, Multiset.mem_add, mem_held_iff,
    Multiset.mem_coe, Multiset.mem_coe]
  constructor
  · intro hmem
    rcases hmem with (hqueued | ⟨i, hi⟩) | hsettled
    · exact ⟨.queued, hqueued⟩
    · exact ⟨.held i, hi⟩
    · exact ⟨.settled, hsettled⟩
  · intro hplace
    rcases hplace with ⟨place, hat⟩
    cases place with
    | queued => exact Or.inl (Or.inl hat)
    | held i => exact Or.inl (Or.inr ⟨i, hat⟩)
    | settled => exact Or.inr hat

/-- What no loop consumes stays in its queue. -/
theorem Conserved.queued_of_unconsumed (h : c.Conserved setup) {queue : Q}
    (hnone : ∀ i, setup.queue i ≠ queue) (hsettled : c.settled queue = []) :
    (c.queued queue).Perm (c.enqueued queue) := by
  have hheld : c.held setup queue = 0 := by
    have hempty : consumers setup queue = ∅ := by
      rw [consumers, Finset.filter_eq_empty_iff]
      exact fun i _ => hnone i
    rw [held, hempty, Finset.sum_empty]
  have hsum := h.sum queue
  rw [hheld, hsettled, add_zero, Multiset.coe_nil, add_zero] at hsum
  exact Multiset.coe_eq_coe.mp hsum

end Places

end Cluster

/-! ## What one action of a loop does -/

section Inversion
variable {M R : Type}

/-- One request of a handler, granted or not. -/
inductive Next (granted : Bool) : Handler M R → Handler M R → Prop where
  | process (message : M) (rest : Handler M R) : Next granted (.process message rest) rest
  | publish (result : R) (rest : Bool → Handler M R) :
    Next granted (.publish result rest) (rest granted)
  | ack (rest : Bool → Handler M R) : Next granted (.ack rest) (rest granted)
  | nack (rest : Bool → Handler M R) : Next granted (.nack rest) (rest granted)

/-- The message that the loop takes from its stream in a step. -/
def taken (s : System M R) : Broker.Event → Option Message
  | .take =>
    match s.current, s.inbox with
    | none, message :: _ => some message
    | _, _ => none
  | _ => none

theorem mem_inbox_of_taken {s : System M R} {event : Broker.Event} {message : Message}
    (h : taken s event = some message) : message ∈ s.inbox := by
  cases event with
  | take =>
    simp only [taken] at h
    split at h
    · rename_i hinbox
      obtain rfl := Option.some.inj h
      rw [hinbox]
      exact List.mem_cons_self
    · cases h
  | enqueue | deliver | fail | crash | perform => cases h

/-- A loop is where it was, or it took a message from its stream, or its handler went on. -/
theorem current_step (consumer : Consumer M R) {s : System M R} {event : Broker.Event}
    {message : Message} {handler : Handler M R}
    (h : (System.step consumer s event).current = some (message, handler)) :
    s.current = some (message, handler) ∨
      (taken s event = some message ∧ handler = consumer.onDelivery message.data) ∨
      ∃ before granted, event = .perform granted ∧ s.current = some (message, before) ∧
        Next granted before handler := by
  cases event with
  | enqueue data => exact Or.inl h
  | deliver =>
    left
    simp only [System.step] at h
    cases hqueued : s.queued with
    | nil => simpa [hqueued] using h
    | cons head rest => simpa [hqueued] using h
  | take =>
    simp only [System.step] at h
    split at h
    · rename_i hcurrent hinbox
      obtain ⟨rfl, rfl⟩ := Prod.mk.inj (Option.some.inj h)
      exact Or.inr (Or.inl ⟨by simp [taken, hcurrent, hinbox], rfl⟩)
    · exact Or.inl h
  | fail =>
    simp only [System.step] at h
    split at h
    · split at h
      · exact Or.inl h
      · cases h
    · exact Or.inl h
  | crash => cases h
  | perform granted =>
    simp only [System.step] at h
    split at h
    · rename_i current before hcurrent
      right
      right
      cases before with
      | next | stop => cases h
      | process task rest =>
        obtain ⟨rfl, rfl⟩ := Prod.mk.inj (Option.some.inj h)
        exact ⟨_, granted, rfl, hcurrent, .process task rest⟩
      | publish result rest =>
        obtain ⟨rfl, rfl⟩ := Prod.mk.inj (Option.some.inj h)
        exact ⟨_, granted, rfl, hcurrent, .publish result rest⟩
      | ack rest =>
        obtain ⟨rfl, rfl⟩ := Prod.mk.inj (Option.some.inj h)
        exact ⟨_, granted, rfl, hcurrent, .ack rest⟩
      | nack rest =>
        obtain ⟨rfl, rfl⟩ := Prod.mk.inj (Option.some.inj h)
        exact ⟨_, granted, rfl, hcurrent, .nack rest⟩
    · exact Or.inl h

theorem mem_inbox_step (consumer : Consumer M R) {s : System M R} {event : Broker.Event}
    {message : Message} (h : message ∈ (System.step consumer s event).inbox) :
    message ∈ s.inbox ∨ message ∈ s.queued := by
  cases event with
  | enqueue data => exact Or.inl h
  | deliver =>
    simp only [System.step] at h
    cases hqueued : s.queued with
    | nil =>
      rw [hqueued] at h
      exact Or.inl h
    | cons head rest =>
      simp only [hqueued, List.mem_append, List.mem_singleton] at h
      rcases h with h | rfl
      · exact Or.inl h
      · exact Or.inr List.mem_cons_self
  | take =>
    left
    simp only [System.step] at h
    split at h
    · rename_i hinbox
      rw [hinbox]
      exact List.mem_cons_of_mem _ h
    · exact h
  | fail =>
    simp only [System.step] at h
    split at h
    · split at h
      · exact Or.inl h
      · cases h
    · exact Or.inl h
  | crash => cases h
  | perform granted =>
    simp only [System.step] at h
    split at h
    · rename_i current before hcurrent
      cases before with
      | next | process | publish => exact Or.inl h
      | stop => cases h
      | ack rest | nack rest =>
        left
        simp only [System.perform, System.settle] at h
        split at h
        · split at h
          · exact h
          · exact h
        · exact h
    · exact Or.inl h

theorem sent_eq_some_iff {s : System M R} {action : Action} {message : Message} {result : R} :
    sent s action = some (message, result) ↔ s.Publishes action.event message result := by
  cases action with
  | deliver | take | fail | crash => simp [sent, Action.event, System.Publishes]
  | perform granted =>
    cases granted with
    | false => simp [sent, Action.event, System.Publishes]
    | true =>
      simp only [sent, Action.event, System.Publishes]
      split
      · rename_i current published rest hcurrent
        constructor
        · intro h
          obtain ⟨rfl, rfl⟩ := Prod.mk.inj (Option.some.inj h)
          exact ⟨rest, hcurrent⟩
        · intro h
          obtain ⟨rest', hcurrent'⟩ := h
          rw [hcurrent, Option.some.injEq, Prod.mk.injEq, Handler.publish.injEq] at hcurrent'
          rw [hcurrent'.1, hcurrent'.2.1]
      · rename_i hother
        refine iff_of_false (by simp) ?_
        intro h
        obtain ⟨rest, hcurrent⟩ := h
        exact hother _ _ _ hcurrent

end Inversion

/-! ## Where messages come from -/

namespace Cluster
variable [DecidableEq Q] [DecidableEq N] {setup : Setup Q N M R} {c : Cluster Q N M R}

/-- Loops handle and answer only messages that were put into their queue. -/
structure Grounded (setup : Setup Q N M R) (c : Cluster Q N M R) : Prop where
  inbox : ∀ i, (c.node i).inbox ⊆ c.enqueued (setup.queue i)
  current : ∀ i message handler, (c.node i).current = some (message, handler) →
    message ∈ c.enqueued (setup.queue i)
  published : ∀ i message result, (message, result) ∈ (c.node i).published →
    message ∈ c.enqueued (setup.queue i)

omit [DecidableEq Q] [DecidableEq N] in
theorem start_grounded (setup : Setup Q N M R) : (start : Cluster Q N M R).Grounded setup :=
  ⟨fun _ => List.nil_subset _, by simp [start], by simp [start]⟩

omit [DecidableEq N] in
theorem Grounded.enqueue (h : c.Grounded setup) (queue : Q) (data : Bytes) :
    (c.enqueue queue data).Grounded setup := by
  have hsub := c.enqueued_subset queue data
  refine ⟨?_, ?_, ?_⟩
  · intro i
    rw [enqueue_node]
    exact fun message hmem => hsub _ (h.inbox i hmem)
  · intro i message handler hcurrent
    rw [enqueue_node] at hcurrent
    exact hsub _ (h.current i message handler hcurrent)
  · intro i message result hmem
    rw [enqueue_node] at hmem
    exact hsub _ (h.published i message result hmem)

theorem Grounded.act [Fintype N] (hc : c.Conserved setup) (h : c.Grounded setup) (i : N)
    (action : Action) : (c.act setup i action).Grounded setup := by
  have hqueued : c.queued (setup.queue i) ⊆ c.enqueued (setup.queue i) :=
    fun message hmem => (hc.mem_iff _ _).mpr ⟨.queued, hmem⟩
  refine ⟨?_, ?_, ?_⟩
  · intro j
    by_cases hj : j = i
    · subst hj
      intro message hmem
      rw [act_node_self] at hmem
      rcases mem_inbox_step _ hmem with hmem | hmem
      · exact h.inbox j hmem
      · exact hqueued hmem
    · rw [act_node_ne setup c hj]
      exact h.inbox j
  · intro j message handler hcurrent
    by_cases hj : j = i
    · subst hj
      rw [act_node_self] at hcurrent
      rcases current_step _ hcurrent with hsame | ⟨htaken, _⟩ | ⟨before, granted, _, hbefore, _⟩
      · exact h.current j message handler hsame
      · exact h.inbox j (mem_inbox_of_taken htaken)
      · exact h.current j message before hbefore
    · rw [act_node_ne setup c hj] at hcurrent
      exact h.current j message handler hcurrent
  · intro j message result hmem
    rcases mem_act_published setup c hmem with hmem | ⟨rfl, hpublishes⟩
    · exact h.published j message result hmem
    · cases action with
      | perform granted =>
        cases granted with
        | false => exact hpublishes.elim
        | true =>
          obtain ⟨rest, hcurrent⟩ := hpublishes
          exact h.current j message _ hcurrent
      | deliver | take | fail | crash => exact hpublishes.elim

theorem Grounded.step [Fintype N] (hc : c.Conserved setup) (h : c.Grounded setup)
    (event : Event Q N) : (c.step setup event).Grounded setup := by
  cases event with
  | declare queue => exact ⟨h.inbox, h.current, h.published⟩
  | arrive queue data => exact h.enqueue queue data
  | node i action =>
    simp only [Cluster.step]
    split
    · exact (h.act hc i action).enqueue _ _
    · exact h.act hc i action

/-- What the loops publish for a message is a result of it. -/
def Attributed (setup : Setup Q N M R) (φ : (i : N) → Bytes → R → Prop) (c : Cluster Q N M R) :
    Prop := ∀ i, (c.view setup i).Attributed (φ i)

omit [DecidableEq Q] [DecidableEq N] in
theorem start_attributed (setup : Setup Q N M R) (φ : (i : N) → Bytes → R → Prop) :
    (start : Cluster Q N M R).Attributed setup φ :=
  fun _ => ⟨by simp [start, view], by simp [start, view]⟩

omit [DecidableEq N] in
theorem Attributed.enqueue {φ : (i : N) → Bytes → R → Prop} (h : c.Attributed setup φ)
    (queue : Q) (data : Bytes) : (c.enqueue queue data).Attributed setup φ := by
  intro i
  refine ⟨?_, ?_⟩
  · simpa [view] using (h i).published
  · simpa [view] using (h i).current

theorem Attributed.act {φ : (i : N) → Bytes → R → Prop}
    (hbody : ∀ i data, ((setup.consumer i).onDelivery data).All (φ i data))
    (h : c.Attributed setup φ) (i : N) (action : Action) :
    (c.act setup i action).Attributed setup φ := by
  intro j
  by_cases hj : j = i
  · subst hj
    have hnext := (h j).step (hbody j) action.event
    refine ⟨?_, ?_⟩
    · simpa [view, act_node_self] using hnext.published
    · simpa [view, act_node_self] using hnext.current
  · refine ⟨?_, ?_⟩
    · simpa [view, act_node_ne setup c hj] using (h j).published
    · simpa [view, act_node_ne setup c hj] using (h j).current

theorem Attributed.step {φ : (i : N) → Bytes → R → Prop}
    (hbody : ∀ i data, ((setup.consumer i).onDelivery data).All (φ i data))
    (h : c.Attributed setup φ) (event : Event Q N) :
    (c.step setup event).Attributed setup φ := by
  cases event with
  | declare other => exact h
  | arrive other data => exact h.enqueue other data
  | node i action =>
    simp only [Cluster.step]
    split
    · exact (h.act hbody i action).enqueue _ _
    · exact h.act hbody i action

/-- Only a loop settles anything, and only in its own queue. -/
theorem step_settled {queue : Q} (hnone : ∀ i, setup.queue i ≠ queue) (event : Event Q N) :
    (c.step setup event).settled queue = c.settled queue := by
  cases event with
  | declare other => rfl
  | arrive other data => simp [Cluster.step]
  | node i action =>
    simp only [Cluster.step]
    split
    · rw [enqueue_settled, act_settled_ne setup c (Ne.symm (hnone i))]
    · exact act_settled_ne setup c (Ne.symm (hnone i)) action

theorem step_declared {queue : Q} (event : Event Q N)
    (h : (c.step setup event).declared queue = true) :
    c.declared queue = true ∨ event = .declare queue := by
  cases event with
  | declare other =>
    by_cases hother : queue = other
    · exact Or.inr (by rw [hother])
    · exact Or.inl (by simpa [Cluster.step, hother] using h)
  | arrive other data => exact Or.inl (by simpa [Cluster.step] using h)
  | node i action =>
    left
    simp only [Cluster.step] at h
    split at h
    · simpa using h
    · simpa using h

/-- Whatever is published for a queue that is declared ends up in it. -/
structure Stored (setup : Setup Q N M R) (queue : Q) (c : Cluster Q N M R) : Prop where
  declared : c.declared queue = true
  published : ∀ i source result, (source, result) ∈ (c.node i).published →
    (setup.route result).1 = queue →
      ∃ message ∈ c.enqueued queue, message.data = (setup.route result).2

theorem Stored.step {queue : Q} (h : c.Stored setup queue) (event : Event Q N) :
    (c.step setup event).Stored setup queue := by
  refine ⟨?_, ?_⟩
  · cases event with
    | declare other =>
      by_cases hother : queue = other
      · subst hother
        simp [Cluster.step]
      · simpa [Cluster.step, hother] using h.declared
    | arrive other data => simpa [Cluster.step] using h.declared
    | node i action =>
      simp only [Cluster.step]
      split
      · simpa using h.declared
      · simpa using h.declared
  · intro j source result hmem hroute
    by_cases hold : (source, result) ∈ (c.node j).published
    · obtain ⟨message, hmessage, hdata⟩ := h.published j source result hold hroute
      exact ⟨message, c.enqueued_subset_step setup event _ hmessage, hdata⟩
    · cases event with
      | declare other => exact absurd hmem hold
      | arrive other data =>
        rw [Cluster.step, enqueue_node] at hmem
        exact absurd hmem hold
      | node i action =>
        have hact : (source, result) ∈ ((c.act setup i action).node j).published := by
          simp only [Cluster.step] at hmem
          split at hmem
          · rwa [enqueue_node] at hmem
          · exact hmem
        rcases mem_act_published setup c hact with hearlier | ⟨rfl, hpublishes⟩
        · exact absurd hearlier hold
        · simp only [Cluster.step, sent_eq_some_iff.mpr hpublishes]
          refine ⟨⟨(c.enqueued queue).length, (setup.route result).2⟩, ?_, rfl⟩
          simp [Cluster.enqueue, hroute, h.declared]

end Cluster

/-! ## Answered before it is settled -/

/-- The handler settles nothing before it published a result that satisfies `φ`, provided that
its publications are granted, or in any case with `mayRefuse`. -/
def Owes {M R : Type} (mayRefuse : Bool) (φ : R → Prop) : Handler M R → Prop
  | .next | .stop => True
  | .process _ rest => Owes mayRefuse φ rest
  | .publish result rest =>
    (φ result ∨ Owes mayRefuse φ (rest true)) ∧ (mayRefuse = true → Owes mayRefuse φ (rest false))
  | .ack _ | .nack _ => False

namespace Cluster
variable [DecidableEq Q] [DecidableEq N] {setup : Setup Q N M R} {c : Cluster Q N M R}

/-- A result of the message that satisfies `φ` was published by one of the loops of its queue. -/
def Answered (setup : Setup Q N M R) (φ : Bytes → R → Prop) (c : Cluster Q N M R) (queue : Q)
    (message : Message) : Prop :=
  ∃ i result, setup.queue i = queue ∧ (message, result) ∈ (c.node i).published ∧
    φ message.data result

/-- A publication is refused only where it may be. -/
def Grants (mayRefuse : Bool) (c : Cluster Q N M R) (event : Event Q N) : Prop :=
  mayRefuse = true ∨ ∀ i, event = .node i (.perform false) →
    ∀ message result rest, (c.node i).current ≠ some (message, .publish result rest)

/-- Of the wanted messages of a queue, those that are settled are answered, and one that is being
handled is answered before it will be settled. -/
structure Answers (setup : Setup Q N M R) (mayRefuse : Bool) (wanted : Bytes → Prop)
    (φ : Bytes → R → Prop) (queue : Q) (c : Cluster Q N M R) : Prop where
  settled : ∀ message ∈ c.settled queue, wanted message.data → c.Answered setup φ queue message
  current : ∀ i message handler, setup.queue i = queue →
    (c.node i).current = some (message, handler) → wanted message.data →
      c.Answered setup φ queue message ∨ Owes mayRefuse (φ message.data) handler

variable {mayRefuse : Bool} {wanted : Bytes → Prop} {φ : Bytes → R → Prop} {queue : Q}

omit [DecidableEq Q] [DecidableEq N] in
theorem start_answers : (start : Cluster Q N M R).Answers setup mayRefuse wanted φ queue :=
  ⟨by simp [start], by simp [start]⟩

theorem Answered.step {message : Message} (h : c.Answered setup φ queue message)
    (event : Event Q N) : (c.step setup event).Answered setup φ queue message := by
  obtain ⟨i, result, hqueue, hmem, hφ⟩ := h
  exact ⟨i, result, hqueue, c.published_subset_step setup event i hmem, hφ⟩

theorem Answered.act {message : Message} (h : c.Answered setup φ queue message) (i : N)
    (action : Action) : (c.act setup i action).Answered setup φ queue message := by
  obtain ⟨j, result, hqueue, hmem, hφ⟩ := h
  exact ⟨j, result, hqueue, published_subset_act setup c i j action hmem, hφ⟩

omit [DecidableEq N] in
theorem Answers.enqueue (h : c.Answers setup mayRefuse wanted φ queue) (other : Q)
    (data : Bytes) : (c.enqueue other data).Answers setup mayRefuse wanted φ queue := by
  refine ⟨?_, ?_⟩
  · simpa [Answered] using h.settled
  · simpa [Answered] using h.current

theorem Answers.act (hbody : ∀ i, setup.queue i = queue → ∀ data, wanted data →
      Owes mayRefuse (φ data) ((setup.consumer i).onDelivery data))
    (h : c.Answers setup mayRefuse wanted φ queue) {i : N} {action : Action}
    (hgrants : c.Grants mayRefuse (.node i action)) :
    (c.act setup i action).Answers setup mayRefuse wanted φ queue := by
  refine ⟨?_, ?_⟩
  · intro message hmem hwanted
    by_cases hqueue : queue = setup.queue i
    · subst hqueue
      rw [act_settled_self] at hmem
      rcases (System.mem_settled_step _ _ _ _).mp hmem with hmem | hsettles
      · exact (h.settled message hmem hwanted).act i action
      · cases action with
        | perform granted =>
          cases granted with
          | false => exact hsettles.elim
          | true =>
            -- a handler that settles owes nothing
            obtain ⟨_, rest, hcurrent | hcurrent⟩ := hsettles
            · rcases h.current i message _ rfl hcurrent hwanted with hanswered | howes
              · exact hanswered.act i _
              · exact howes.elim
            · rcases h.current i message _ rfl hcurrent hwanted with hanswered | howes
              · exact hanswered.act i _
              · exact howes.elim
        | deliver | take | fail | crash => exact hsettles.elim
    · rw [act_settled_ne setup c hqueue] at hmem
      exact (h.settled message hmem hwanted).act i action
  · intro j message handler hqueue hcurrent hwanted
    by_cases hj : j = i
    · subst hj
      rw [act_node_self] at hcurrent
      rcases current_step _ hcurrent with
        hsame | ⟨_, rfl⟩ | ⟨before, granted, hevent, hbefore, hnext⟩
      · rcases h.current j message handler hqueue hsame hwanted with hanswered | howes
        · exact Or.inl (hanswered.act j action)
        · exact Or.inr howes
      · exact Or.inr (hbody j hqueue message.data hwanted)
      · rcases h.current j message before hqueue hbefore hwanted with hanswered | howes
        · exact Or.inl (hanswered.act j action)
        · cases hnext with
          | process task => exact Or.inr howes
          | ack | nack => exact howes.elim
          | publish result rest =>
            cases action with
            | deliver | take | fail | crash => cases hevent
            | perform performed =>
              obtain rfl := Broker.Event.perform.inj hevent
              cases performed with
              | true =>
                rcases howes.1 with hφ | howes
                · refine Or.inl ⟨j, result, hqueue, ?_, hφ⟩
                  rw [act_node_self]
                  exact (System.mem_published_step _ _ _ _ _).mpr (Or.inr ⟨rest, hbefore⟩)
                · exact Or.inr howes
              | false =>
                rcases hgrants with hrefuse | hgrants
                · exact Or.inr (howes.2 hrefuse)
                · exact absurd hbefore (hgrants j rfl message result rest)
    · rw [act_node_ne setup c hj] at hcurrent
      rcases h.current j message handler hqueue hcurrent hwanted with hanswered | howes
      · exact Or.inl (hanswered.act i action)
      · exact Or.inr howes

/-- The rule for answers: what holds of the body of each loop of a queue holds of the queue,
however many loops share it and wherever they crash. -/
theorem Answers.step (hbody : ∀ i, setup.queue i = queue → ∀ data, wanted data →
      Owes mayRefuse (φ data) ((setup.consumer i).onDelivery data))
    (h : c.Answers setup mayRefuse wanted φ queue) {event : Event Q N}
    (hgrants : c.Grants mayRefuse event) :
    (c.step setup event).Answers setup mayRefuse wanted φ queue := by
  cases event with
  | declare other => exact ⟨h.settled, h.current⟩
  | arrive other data => exact h.enqueue other data
  | node i action =>
    simp only [Cluster.step]
    split
    · exact (h.act hbody hgrants).enqueue _ _
    · exact h.act hbody hgrants

end Cluster

end Exchange
