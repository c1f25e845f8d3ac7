import AnKi.Library.Exchange
import Mathlib.Algebra.Order.BigOperators.Group.Finset
import Mathlib.Algebra.Order.Group.Multiset

/-!
# What comes into a queue, and how often

Messages are counted here: those that arrive from outside against those that are
in a queue, results against the deliveries they are for, and deliveries against
the times that the broker had to put a message back. The loops are ones that
publish at most once for a delivery.
-/

namespace Exchange
open Files Broker
set_option autoImplicit false

section Handlers
variable {M R : Type}

/-- The handler may still publish something. -/
def publishes : Handler M R → Bool
  | .next | .stop => false
  | .process _ rest => publishes rest
  | .publish _ _ => true
  | .ack rest | .nack rest => publishes (rest true) || publishes (rest false)

/-- Whatever the broker answers, the handler asks for one publication at most. -/
def Once : Handler M R → Prop
  | .next | .stop => True
  | .process _ rest => Once rest
  | .publish _ rest => ∀ granted, publishes (rest granted) = false
  | .ack rest | .nack rest => ∀ granted, Once (rest granted)

theorem once_of_silent {handler : Handler M R} (h : publishes handler = false) :
    Once handler := by
  induction handler with
  | next | stop => trivial
  | process task rest ih => exact ih h
  | publish result rest ih => cases h
  | ack rest ih | nack rest ih =>
    obtain ⟨htrue, hfalse⟩ := Bool.or_eq_false_iff.mp h
    intro granted
    cases granted with
    | true => exact ih true htrue
    | false => exact ih false hfalse

theorem publishes_of_next {granted : Bool} {before handler : Handler M R}
    (hnext : Next granted before handler) (h : publishes handler = true) :
    publishes before = true := by
  cases hnext with
  | process task => exact h
  | publish result rest => rfl
  | ack rest | nack rest =>
    cases granted with
    | true => simp [publishes, h]
    | false => simp [publishes, h]

theorem Once.next {granted : Bool} {before handler : Handler M R} (h : Once before)
    (hnext : Next granted before handler) : Once handler := by
  cases hnext with
  | process task => exact h
  | publish result rest => exact once_of_silent (h granted)
  | ack rest | nack rest => exact h granted

end Handlers

/-! ## One delivery, one result -/

section Deliveries
variable {M R : Type} {s : System M R} {takes : List Message}

theorem step_published (consumer : Consumer M R) (s : System M R) (action : Action) :
    (System.step consumer s action.event).published = s.published ++ (sent s action).toList := by
  cases action with
  | deliver | take | fail | crash =>
    rw [(System.step_histories consumer s (by simp [Action.event])).2]
    simp [sent]
  | perform granted =>
    cases hcurrent : s.current with
    | none => cases granted <;> simp [Action.event, System.step, sent, hcurrent]
    | some current =>
      obtain ⟨message, handler⟩ := current
      rw [Action.event, System.step_perform consumer hcurrent]
      cases handler with
      | next | stop | process =>
        cases granted <;> simp [System.perform, sent, hcurrent, System.requeue]
      | publish result rest => cases granted <;> simp [System.perform, sent, hcurrent]
      | ack rest | nack rest => cases granted <;> simp [System.perform, sent, hcurrent]

/-- The loop took the messages `takes` from its stream, and each result it published was for one
of these deliveries, no two for the same. -/
structure Single (s : System M R) (takes : List Message) : Prop where
  published : (s.published.map Prod.fst).Sublist takes
  once : ∀ message handler, s.current = some (message, handler) → Once handler
  pending : ∀ message handler, s.current = some (message, handler) →
    publishes handler = true → (s.published.map Prod.fst ++ [message]).Sublist takes

theorem Single.congr {s' : System M R} (h : Single s takes)
    (hpublished : s'.published = s.published) (hcurrent : s'.current = s.current) :
    Single s' takes := by
  refine ⟨?_, ?_, ?_⟩
  · rw [hpublished]
    exact h.published
  · rw [hcurrent]
    exact h.once
  · rw [hpublished, hcurrent]
    exact h.pending

theorem Single.step {consumer : Consumer M R} (hbody : ∀ data, Once (consumer.onDelivery data))
    (h : Single s takes) (action : Action) :
    Single (System.step consumer s action.event) (takes ++ (taken s action.event).toList) := by
  have honce : ∀ message handler,
      (System.step consumer s action.event).current = some (message, handler) → Once handler := by
    intro message handler hcurrent
    rcases current_step consumer hcurrent with hsame | ⟨_, rfl⟩ | ⟨before, _, _, hbefore, hnext⟩
    · exact h.once message handler hsame
    · exact hbody message.data
    · exact (h.once message before hbefore).next hnext
  cases hsent : sent s action with
  | some entry =>
    obtain ⟨message, result⟩ := entry
    obtain ⟨granted, rfl⟩ : ∃ granted, action = .perform granted := by
      cases action with
      | perform granted => exact ⟨granted, rfl⟩
      | deliver | take | fail | crash => cases hsent
    cases granted with
    | false => cases hsent
    | true =>
      obtain ⟨rest, hcurrent⟩ := sent_eq_some_iff.mp hsent
      have hsilent := h.once message _ hcurrent
      have hpublished := step_published consumer s (.perform true)
      rw [hsent, Option.toList_some] at hpublished
      refine ⟨?_, honce, ?_⟩
      · rw [hpublished, List.map_append]
        simpa [taken, Action.event] using h.pending message _ hcurrent rfl
      · intro other handler hother hpublishes
        rw [Action.event, System.step_perform consumer hcurrent] at hother
        obtain ⟨-, rfl⟩ := Prod.mk.inj (Option.some.inj hother)
        rw [hsilent true] at hpublishes
        cases hpublishes
  | none =>
    have hpublished := step_published consumer s action
    rw [hsent, Option.toList_none, List.append_nil] at hpublished
    refine ⟨?_, honce, ?_⟩
    · rw [hpublished]
      exact h.published.trans (List.sublist_append_left _ _)
    · intro message handler hcurrent hpublishes
      rw [hpublished]
      rcases current_step consumer hcurrent with
        hsame | ⟨htaken, -⟩ | ⟨before, _, _, hbefore, hnext⟩
      · exact (h.pending message handler hsame hpublishes).trans (List.sublist_append_left _ _)
      · rw [htaken]
        exact h.published.append (List.Sublist.refl _)
      · exact (h.pending message before hbefore (publishes_of_next hnext hpublishes)).trans
          (List.sublist_append_left _ _)

end Deliveries

/-! ## Handed out again -/

section PutBack
variable {M R : Type} (consumer : Consumer M R) (message : Message)

/-- The messages that a step puts back into the queue. -/
def putBack (s : System M R) : Broker.Event → List Message
  | .crash => s.unacked
  | .fail =>
    match s.current with
    | none => if consumer.survivesError then [] else s.unacked
    | some _ => []
  | .perform _ =>
    match s.current with
    | some (_, .stop) => s.unacked
    | _ => []
  | .enqueue _ | .deliver | .take => []

/-- Whether an iteration for the message may still publish. -/
def pending : Option (Message × Handler M R) → Nat
  | some (other, handler) => if other = message ∧ publishes handler = true then 1 else 0
  | none => 0

/-- How often the loop published for the message or may do so before it is handed out again. -/
def chances (s : System M R) : Nat :=
  s.inbox.count message + pending message s.current + (s.published.map Prod.fst).count message

theorem pending_le_count (other : Message) (handler : Handler M R) :
    pending message (some (other, handler)) ≤ [other].count message := by
  by_cases hother : other = message
  · subst hother
    simp only [pending, List.count_singleton_self]
    split
    · exact Nat.le_refl 1
    · exact Nat.zero_le 1
  · simp [pending, hother]

theorem pending_next_le {granted : Bool} {before handler : Handler M R}
    (hnext : Next granted before handler) (other : Message) :
    pending message (some (other, handler)) ≤ pending message (some (other, before)) := by
  simp only [pending]
  by_cases h : other = message ∧ publishes handler = true
  · rw [if_pos h, if_pos ⟨h.1, publishes_of_next hnext h.2⟩]
  · rw [if_neg h]
    exact Nat.zero_le _

theorem chances_requeue_le (s : System M R) :
    s.requeue.queued.count message + chances message s.requeue ≤
      s.queued.count message + chances message s + s.unacked.count message := by
  simp only [chances, System.requeue, List.count_append, pending, List.count_nil]
  omega

/-- Only a message that is put back gets another chance to be answered. -/
theorem chances_step_le {s : System M R}
    (honce : ∀ other handler, s.current = some (other, handler) → Once handler) (action : Action) :
    (System.step consumer s action.event).queued.count message +
        chances message (System.step consumer s action.event) ≤
      s.queued.count message + chances message s +
        (putBack consumer s action.event).count message := by
  cases action with
  | deliver =>
    cases hqueued : s.queued with
    | nil => simp [Action.event, System.step, hqueued]
    | cons head rest =>
      simp only [Action.event, System.step, hqueued, chances, List.count_append, List.count_cons,
        List.count_nil]
      omega
  | take =>
    cases hcurrent : s.current with
    | some current => simp [Action.event, System.step, hcurrent]
    | none =>
      cases hinbox : s.inbox with
      | nil => simp [Action.event, System.step, hcurrent, hinbox]
      | cons head rest =>
        have hpending := pending_le_count message head (consumer.onDelivery head.data)
        have hcount : (head :: rest).count message = [head].count message + rest.count message := by
          rw [← List.singleton_append, List.count_append]
        simp only [Action.event, System.step, hcurrent, hinbox, chances, hcount]
        omega
  | fail =>
    cases hcurrent : s.current with
    | some current => simp [Action.event, System.step, hcurrent]
    | none =>
      cases hsurvives : consumer.survivesError with
      | true => simp [Action.event, System.step, hcurrent, hsurvives]
      | false =>
        simpa [Action.event, System.step, putBack, hcurrent, hsurvives] using
          chances_requeue_le message s
  | crash => exact chances_requeue_le message s
  | perform granted =>
    cases hcurrent : s.current with
    | none => simp [Action.event, System.step, hcurrent]
    | some current =>
      obtain ⟨other, handler⟩ := current
      simp only [Action.event, System.step_perform consumer hcurrent, putBack, hcurrent]
      cases handler with
      | next => simp [System.perform, chances, pending]
      | stop => exact chances_requeue_le message s
      | process task rest =>
        have hnext : Next granted (.process task rest) rest := .process task rest
        have hpending := pending_next_le message hnext other
        simp only [System.perform, chances, hcurrent, List.count_nil]
        omega
      | ack rest =>
        have hnext : Next granted (.ack rest) (rest granted : Handler M R) := .ack rest
        have hpending := pending_next_le message hnext other
        cases granted <;>
          simp only [System.perform, if_true, if_false, Bool.false_eq_true, System.settle_queued,
            System.settle_inbox, System.settle_published, chances, hcurrent, List.count_nil] <;>
          omega
      | nack rest =>
        have hnext : Next granted (.nack rest) (rest granted : Handler M R) := .nack rest
        have hpending := pending_next_le message hnext other
        cases granted <;>
          simp only [System.perform, if_true, if_false, Bool.false_eq_true, System.settle_queued,
            System.settle_inbox, System.settle_published, chances, hcurrent, List.count_nil] <;>
          omega
      | publish result rest =>
        have hsilent : pending message (some (other, rest granted)) = 0 := by
          have hrest := honce other _ hcurrent granted
          simp [pending, hrest]
        have hbefore : pending message (some (other, .publish result rest)) =
            [other].count message := by
          simp [pending, publishes, List.count_singleton]
        simp only [System.perform, chances, hcurrent, hsilent, hbefore, List.count_nil]
        cases granted with
        | true =>
          simp only [if_true, List.map_append, List.map_cons, List.map_nil, List.count_append]
          omega
        | false =>
          simp only [Bool.false_eq_true, if_false]
          omega

end PutBack

/-! ## The loops of a cluster -/

variable {Q N R : Type} {M : N → Type}

namespace Cluster
variable [DecidableEq Q] [DecidableEq N] (setup : Setup Q N M R) (c : Cluster Q N M R)

theorem step_node_self (i : N) (action : Action) : (c.step setup (.node i action)).node i =
    let s := System.step (setup.consumer i) (c.view setup i) action.event
    ⟨s.unacked, s.inbox, s.current, s.published⟩ := by
  simp only [step]
  split
  · rw [enqueue_node, act_node_self]
  · rw [act_node_self]

theorem step_node_ne {i j : N} (h : j ≠ i) (action : Action) :
    (c.step setup (.node i action)).node j = c.node j := by
  simp only [step]
  split
  · rw [enqueue_node, act_node_ne setup c h]
  · rw [act_node_ne setup c h]

/-- The message that the loop takes from its stream in a step. -/
def taking (i : N) (c : Cluster Q N M R) : Event Q N → List Message
  | .node j action => if j = i then (taken (c.view setup i) action.event).toList else []
  | .declare _ | .arrive _ _ => []

/-- The messages that the loop takes in a run. -/
def takes (i : N) (events : List (Event Q N)) : List Message :=
  Runs.outputs (step setup) (taking setup i) start events

variable {setup}

theorem run_single (hbody : ∀ i data, Once ((setup.consumer i).onDelivery data)) (i : N)
    (events : List (Event Q N)) :
    Single ((Runs.run (step setup) start events).view setup i) (takes setup i events) := by
  have hstart : Single ((start : Cluster Q N M R).view setup i) [] :=
    ⟨List.Sublist.refl _, by simp [start, view], by simp [start, view]⟩
  refine Runs.outputs_invariant (I := fun (c : Cluster Q N M R) messages =>
    Single (c.view setup i) messages) ?_ hstart events
  intro c event messages h
  cases event with
  | declare queue =>
    rw [taking, List.append_nil]
    exact h.congr rfl rfl
  | arrive queue data =>
    rw [taking, List.append_nil]
    exact h.congr (by simp [step, view]) (by simp [step, view])
  | node j action =>
    by_cases hj : j = i
    · subst hj
      rw [taking, if_pos rfl]
      refine (h.step (hbody j) action).congr ?_ ?_
      · simp only [view, step_node_self]
      · simp only [view, step_node_self]
    · rw [taking, if_neg hj, List.append_nil]
      refine h.congr ?_ ?_
      · simp only [view, step_node_ne setup c (Ne.symm hj)]
      · simp only [view, step_node_ne setup c (Ne.symm hj)]

/-! ## Messages that come back -/

section Back
variable (setup) (queue : Q) (message : Message)

/-- The messages that a step puts back into the queue. -/
def puttingBack (c : Cluster Q N M R) : Event Q N → List Message
  | .node i action =>
    if setup.queue i = queue then putBack (setup.consumer i) (c.view setup i) action.event else []
  | .declare _ | .arrive _ _ => []

/-- The messages that come back to the queue in a run, as often as they do. -/
def handedBack (events : List (Event Q N)) : List Message :=
  Runs.outputs (step setup) (puttingBack setup queue) start events

variable [Fintype N]

/-- How often the loops of the queue published for the message or may do so before it comes
back. -/
def allChances (c : Cluster Q N M R) : Nat :=
  (c.queued queue).count message + ∑ i ∈ consumers setup queue, chances message (c.view setup i)

variable {setup queue message c}

omit [DecidableEq N] in
theorem allChances_eq_zero (hc : c.Conserved setup) (hgrounded : c.Grounded setup)
    (h : message ∉ c.enqueued queue) : allChances setup queue message c = 0 := by
  have hqueued : message ∉ c.queued queue := fun hmem =>
    h ((hc.mem_iff _ _).mpr ⟨.queued, hmem⟩)
  rw [allChances, List.count_eq_zero_of_not_mem hqueued, Nat.zero_add]
  apply Finset.sum_eq_zero
  intro i hi
  obtain rfl : setup.queue i = queue := by simpa [consumers] using hi
  have hinbox : message ∉ (c.node i).inbox := fun hmem => h (hgrounded.inbox i hmem)
  have hpublished : message ∉ (c.node i).published.map Prod.fst := by
    intro hmem
    obtain ⟨entry, hentry, rfl⟩ := List.mem_map.mp hmem
    exact h (hgrounded.published i entry.1 entry.2 hentry)
  have hpending : pending message (c.node i).current = 0 := by
    cases hcurrent : (c.node i).current with
    | none => rfl
    | some current =>
      obtain ⟨other, handler⟩ := current
      have hother : other ≠ message := by
        rintro rfl
        exact h (hgrounded.current i other handler hcurrent)
      simp [pending, hother]
  simp only [chances, view, hpending, List.count_eq_zero_of_not_mem hinbox,
    List.count_eq_zero_of_not_mem hpublished, Nat.add_zero]

theorem allChances_act_le (honce : ∀ i other handler,
      (c.node i).current = some (other, handler) → Once handler) (i : N) (action : Action) :
    allChances setup queue message (c.act setup i action) ≤
      allChances setup queue message c +
        (puttingBack setup queue c (.node i action)).count message := by
  by_cases hqueue : setup.queue i = queue
  · subst hqueue
    have hi : i ∈ consumers setup (setup.queue i) := by simp [consumers]
    have hown : chances message ((c.act setup i action).view setup i) = chances message
        (System.step (setup.consumer i) (c.view setup i) action.event) := by
      simp only [chances, view, act_node_self]
    have hothers : ∑ j ∈ (consumers setup (setup.queue i)).erase i,
        chances message ((c.act setup i action).view setup j) =
          ∑ j ∈ (consumers setup (setup.queue i)).erase i, chances message (c.view setup j) := by
      apply Finset.sum_congr rfl
      intro j hj
      simp only [chances, view, act_node_ne setup c (Finset.ne_of_mem_erase hj)]
    have hqueued : (c.act setup i action).queued (setup.queue i) =
        (System.step (setup.consumer i) (c.view setup i) action.event).queued := by
      simp [act, replace]
    have hstep := chances_step_le (setup.consumer i) message (s := c.view setup i) (honce i) action
    have hbefore : (c.view setup i).queued = c.queued (setup.queue i) := rfl
    rw [hbefore] at hstep
    rw [allChances, allChances, ← Finset.add_sum_erase _ _ hi, ← Finset.add_sum_erase _ _ hi, hown,
      hothers, hqueued, puttingBack, if_pos rfl]
    omega
  · have hsame : allChances setup queue message (c.act setup i action) =
        allChances setup queue message c := by
      have hqueued : (c.act setup i action).queued queue = c.queued queue := by
        simp [act, replace, Ne.symm hqueue]
      rw [allChances, allChances, hqueued]
      apply congrArg
      apply Finset.sum_congr rfl
      intro j hj
      have hne : j ≠ i := by
        rintro rfl
        exact hqueue (by simpa [consumers] using hj)
      simp only [chances, view, act_node_ne setup c hne]
    rw [hsame]
    exact Nat.le_add_right _ _

/-- A message has its chance when it is put into the queue, and one more whenever it comes back. -/
structure Bounded (setup : Setup Q N M R) (queue : Q) (message : Message) (c : Cluster Q N M R)
    (back : List Message) : Prop where
  conserved : c.Conserved setup
  grounded : c.Grounded setup
  once : ∀ i other handler, (c.node i).current = some (other, handler) → Once handler
  chances : allChances setup queue message c ≤ 1 + back.count message

omit [DecidableEq N] in
theorem Bounded.enqueue {back : List Message} (h : Bounded setup queue message c back) (other : Q)
    (data : Bytes) : Bounded setup queue message (c.enqueue other data) back := by
  refine ⟨h.conserved.enqueue other data, h.grounded.enqueue other data, ?_, ?_⟩
  · rw [enqueue_node]
    exact h.once
  · by_cases hnew : (c.enqueue other data).queued queue = c.queued queue
    · have hsame : allChances setup queue message (c.enqueue other data) =
          allChances setup queue message c := by simp [allChances, Exchange.chances, view, hnew]
      rw [hsame]
      exact h.chances
    · have hdeclared : c.declared other = true := by
        by_contra hnot
        exact hnew (by rw [Cluster.enqueue, if_neg hnot])
      have hother : queue = other := by
        by_contra hne
        exact hnew (by simp [Cluster.enqueue, hdeclared, hne])
      subst hother
      let new : Message := ⟨(c.enqueued queue).length, data⟩
      have hqueued : (c.enqueue queue data).queued queue = c.queued queue ++ [new] := by
        simp [Cluster.enqueue, hdeclared, new]
      have hgrown : allChances setup queue message (c.enqueue queue data) =
          allChances setup queue message c + [new].count message := by
        simp only [allChances, Exchange.chances, view, enqueue_node, hqueued, List.count_append]
        omega
      have hone : [new].count message ≤ 1 := List.count_le_length
      rw [hgrown]
      by_cases hmem : message ∈ c.enqueued queue
      · -- the message has an older number than the new one
        have hne : new ≠ message := by
          rintro rfl
          exact absurd (h.conserved.fresh queue new hmem) (Nat.lt_irrefl _)
        have hzero : [new].count message = 0 := by simp [hne]
        have hchances := h.chances
        omega
      · rw [allChances_eq_zero h.conserved h.grounded hmem]
        omega

theorem Bounded.step (hbody : ∀ i data, Once ((setup.consumer i).onDelivery data))
    {back : List Message} (h : Bounded setup queue message c back) (event : Event Q N) :
    Bounded setup queue message (c.step setup event)
      (back ++ puttingBack setup queue c event) := by
  cases event with
  | declare other =>
    rw [puttingBack, List.append_nil]
    exact ⟨h.conserved.step _, h.grounded.step h.conserved (.declare other), h.once, h.chances⟩
  | arrive other data =>
    rw [puttingBack, List.append_nil]
    exact h.enqueue other data
  | node i action =>
    have hact : Bounded setup queue message (c.act setup i action)
        (back ++ puttingBack setup queue c (.node i action)) := by
      refine ⟨h.conserved.act i action, h.grounded.act h.conserved i action, ?_, ?_⟩
      · intro j other handler hcurrent
        by_cases hj : j = i
        · subst hj
          rw [act_node_self] at hcurrent
          rcases current_step _ hcurrent with hsame | ⟨_, rfl⟩ | ⟨before, _, _, hbefore, hnext⟩
          · exact h.once j other handler hsame
          · exact hbody j other.data
          · exact (h.once j other before hbefore).next hnext
        · rw [act_node_ne setup c hj] at hcurrent
          exact h.once j other handler hcurrent
      · have hle : allChances setup queue message (c.act setup i action) ≤ _ :=
          allChances_act_le h.once i action
        have hchances := h.chances
        rw [List.count_append]
        omega
    simp only [Cluster.step]
    split
    · exact hact.enqueue _ _
    · exact hact

/-- The rule for duplicates: loops that publish at most once for a delivery publish for a message
at most once more than it came back to its queue. -/
theorem count_published_le (hbody : ∀ i data, Once ((setup.consumer i).onDelivery data))
    (queue : Q) (message : Message) (events : List (Event Q N)) :
    ∑ i ∈ consumers setup queue,
        (((Runs.run (Cluster.step setup) start events).node i).published.map Prod.fst).count
          message ≤ 1 + (handedBack setup queue events).count message := by
  have hbounded : Bounded setup queue message (Runs.run (Cluster.step setup) start events)
      (handedBack setup queue events) := by
    refine Runs.outputs_invariant (fun c event back h => h.step hbody event) ?_ events
    refine ⟨start_conserved setup, start_grounded setup, by simp [start], ?_⟩
    rw [allChances_eq_zero (start_conserved setup) (start_grounded setup) (by simp [start])]
    exact Nat.zero_le _
  have hle := hbounded.chances
  rw [allChances] at hle
  refine le_trans ?_ (le_trans (Nat.le_add_left _ _) hle)
  apply Finset.sum_le_sum
  intro i _
  exact Nat.le_add_left _ _

end Back

/-! ## What comes into a queue -/

section Payloads
variable (setup) (queue : Q)

/-- The payloads that arrive at the queue from outside, from its declaration on. -/
def arrivals : Bool → List (Event Q N) → List Bytes
  | _, [] => []
  | declared, .declare other :: events => arrivals (declared || decide (queue = other)) events
  | declared, .arrive other data :: events =>
    (if queue = other ∧ declared = true then [data] else []) ++ arrivals declared events
  | declared, .node _ _ :: events => arrivals declared events

/-- What a step lets in from outside. -/
def accepted (c : Cluster Q N M R) : Event Q N → List Bytes
  | .arrive other data => if queue = other ∧ c.declared queue = true then [data] else []
  | .declare _ | .node _ _ => []

/-- What a loop has published for the queue. -/
def sentTo (published : List (Message × R)) : List Bytes :=
  published.filterMap fun entry =>
    if (setup.route entry.2).1 = queue then some (setup.route entry.2).2 else none

theorem outputs_accepted (events : List (Event Q N)) (c : Cluster Q N M R) :
    Runs.outputs (step setup) (accepted queue) c events =
      arrivals queue (c.declared queue) events := by
  induction events generalizing c with
  | nil => rfl
  | cons event events ih =>
    rw [Runs.outputs_cons, ih]
    cases event with
    | declare other =>
      by_cases hother : queue = other
      · subst hother
        simp [accepted, arrivals, step]
      · simp [accepted, arrivals, step, hother]
    | arrive other data => simp [accepted, arrivals, step]
    | node i action =>
      have hdeclared : (c.step setup (.node i action)).declared queue = c.declared queue := by
        simp only [step]
        split <;> simp
      simp [accepted, arrivals, hdeclared]

variable {queue c}

omit [DecidableEq N] in
theorem enqueue_payloads (other : Q) (data : Bytes) :
    ((c.enqueue other data).enqueued queue).map Message.data =
      (c.enqueued queue).map Message.data ++
        if queue = other ∧ c.declared other = true then [data] else [] := by
  by_cases hdeclared : c.declared other = true
  · by_cases hother : queue = other
    · subst hother
      simp [enqueue, hdeclared]
    · simp [enqueue, hdeclared, hother]
  · simp [enqueue, hdeclared]

variable {setup}

/-- A queue that no loop publishes to has exactly what arrived from outside, in this order. -/
theorem payloads_eq_arrivals (hbody : ∀ i data,
      ((setup.consumer i).onDelivery data).All fun result => (setup.route result).1 ≠ queue)
    (events : List (Event Q N)) :
    ((Runs.run (Cluster.step setup) start events).enqueued queue).map Message.data =
      arrivals queue false events := by
  have hdeclared : (start : Cluster Q N M R).declared queue = false := rfl
  rw [← hdeclared, ← outputs_accepted setup queue]
  refine (Runs.outputs_invariant (I := fun (c : Cluster Q N M R) payloads =>
    c.Attributed setup (fun _ _ result => (setup.route result).1 ≠ queue) ∧
      (c.enqueued queue).map Message.data = payloads) ?_
        ⟨start_attributed setup _, rfl⟩ events).2
  rintro c event payloads ⟨hattributed, rfl⟩
  refine ⟨hattributed.step hbody event, ?_⟩
  cases event with
  | declare other => simp [Cluster.step, accepted]
  | arrive other data =>
    rw [Cluster.step, enqueue_payloads, accepted]
    by_cases hother : queue = other
    · subst hother
      rfl
    · simp [hother]
  | node i action =>
    rw [accepted, List.append_nil]
    simp only [Cluster.step]
    split
    · rename_i source result hsent
      have hne : queue ≠ (setup.route result).1 := by
        cases action with
        | perform granted =>
          cases granted with
          | false => cases hsent
          | true =>
            obtain ⟨rest, hcurrent⟩ := sent_eq_some_iff.mp hsent
            exact Ne.symm ((hattributed i).current source _ hcurrent).1
        | deliver | take | fail | crash => cases hsent
      rw [enqueue_payloads, if_neg (fun h => hne h.1), List.append_nil, act_enqueued]
    · rw [act_enqueued]

omit [DecidableEq N] in
theorem sentTo_append (published more : List (Message × R)) :
    sentTo setup queue (published ++ more) =
      sentTo setup queue published ++ sentTo setup queue more := List.filterMap_append

omit [DecidableEq N] in
/-- A result that comes into the queue was sent to it. -/
theorem stored_le_sentTo (source : Message) (result : R) :
    ((if queue = (setup.route result).1 ∧ c.declared (setup.route result).1 = true then
        [(setup.route result).2] else [] : List Bytes) : Multiset Bytes) ≤
      sentTo setup queue [(source, result)] := by
  by_cases hqueue : (setup.route result).1 = queue
  · subst hqueue
    by_cases hdeclared : c.declared (setup.route result).1 = true
    · simp [sentTo, hdeclared]
    · simp [hdeclared]
  · simp [Ne.symm hqueue]

variable [Fintype N]

/-- What a step sends is what the loop that acts sends. -/
theorem sum_sentTo_act (i : N) (action : Action) :
    ∑ j, (sentTo setup queue ((c.act setup i action).node j).published : Multiset Bytes) =
      ∑ j, (sentTo setup queue (c.node j).published : Multiset Bytes) +
        sentTo setup queue (sent (c.view setup i) action).toList := by
  have hi : i ∈ Finset.univ := Finset.mem_univ i
  have hown : ((c.act setup i action).node i).published =
      (c.node i).published ++ (sent (c.view setup i) action).toList := by
    rw [act_node_self]
    exact step_published _ _ action
  have hothers : ∑ j ∈ Finset.univ.erase i,
      (sentTo setup queue ((c.act setup i action).node j).published : Multiset Bytes) =
        ∑ j ∈ Finset.univ.erase i,
          (sentTo setup queue (c.node j).published : Multiset Bytes) := by
    apply Finset.sum_congr rfl
    intro j hj
    rw [act_node_ne setup c (Finset.ne_of_mem_erase hj)]
  rw [← Finset.add_sum_erase _ _ hi, ← Finset.add_sum_erase _ _ hi, hothers, hown, sentTo_append,
    ← Multiset.coe_add]
  ac_rfl

/-- Each message in a queue has an arrival from outside or a publication of its own. -/
theorem payloads_le (queue : Q) (events : List (Event Q N)) :
    (((Runs.run (Cluster.step setup) start events).enqueued queue).map Message.data :
        Multiset Bytes) ≤
      (arrivals queue false events : Multiset Bytes) + ∑ i,
        (sentTo setup queue ((Runs.run (Cluster.step setup) start events).node i).published :
          Multiset Bytes) := by
  have hdeclared : (start : Cluster Q N M R).declared queue = false := rfl
  rw [← hdeclared, ← outputs_accepted setup queue]
  refine Runs.outputs_invariant (I := fun (c : Cluster Q N M R) (payloads : List Bytes) =>
    ((c.enqueued queue).map Message.data : Multiset Bytes) ≤ (payloads : Multiset Bytes) +
      ∑ i, (sentTo setup queue (c.node i).published : Multiset Bytes)) ?_ ?_ events
  · intro c event payloads h
    cases event with
    | declare other => simpa [Cluster.step, accepted] using h
    | arrive other data =>
      have hpayloads : ((c.step setup (.arrive other data)).enqueued queue).map Message.data =
          (c.enqueued queue).map Message.data ++ accepted queue c (.arrive other data) := by
        rw [Cluster.step, enqueue_payloads, accepted]
        by_cases hother : queue = other
        · subst hother
          rfl
        · simp [hother]
      have hnodes : (c.step setup (.arrive other data)).node = c.node := c.enqueue_node other data
      rw [hpayloads, hnodes, ← Multiset.coe_add, ← Multiset.coe_add, add_right_comm]
      exact add_le_add_left h _
    | node i action =>
      rw [accepted, List.append_nil]
      have hact : ((c.enqueued queue).map Message.data : Multiset Bytes) +
          sentTo setup queue (sent (c.view setup i) action).toList ≤ (payloads : Multiset Bytes) +
            ∑ j, (sentTo setup queue ((c.act setup i action).node j).published :
              Multiset Bytes) := by
        rw [sum_sentTo_act, ← add_assoc]
        exact add_le_add_left h _
      simp only [Cluster.step]
      split
      · rename_i source result hsent
        rw [hsent, Option.toList_some] at hact
        rw [enqueue_payloads, enqueue_node, act_enqueued, act_declared, ← Multiset.coe_add]
        exact le_trans (add_le_add_right (stored_le_sentTo source result) _) hact
      · rw [act_enqueued]
        exact le_trans (Multiset.le_add_right _ _) hact
  · simp [start]

end Payloads

end Cluster

end Exchange
