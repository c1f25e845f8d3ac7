import AnKi.Library.Files
import AnKi.Library.Runs
import Mathlib.Data.List.Perm.Basic

/-!
# Consumers of a message queue

The body of a consumer loop is a tree of requests that branches on the answers of
the broker. The broker keeps every message until it is settled, and hands out
again what a consumer left unsettled when it went away. `System` runs one loop
request by request, with a crash possible between any two; `serve` is the loop on
a finite stream when every request is granted.
-/

namespace Broker
open Files
set_option autoImplicit false

/-- The rest of one iteration: `next` goes back to the head of the loop, `stop` leaves it. -/
inductive Handler (M R : Type) where
  | next
  | stop
  | process (message : M) (rest : Handler M R)
  | publish (result : R) (rest : Bool → Handler M R)
  | ack (rest : Bool → Handler M R)
  | nack (rest : Bool → Handler M R)

/-- What a handler may ask of the broker. -/
inductive Request where
  | publish
  | ack
  | nack
  deriving DecidableEq

/-- The request that the handler comes to next. -/
def Handler.request {M R : Type} : Handler M R → Option Request
  | .next | .stop | .process _ _ => none
  | .publish _ _ => some .publish
  | .ack _ => some .ack
  | .nack _ => some .nack

/-- A consumer loop: its body, and whether it goes on after an error of the stream itself. -/
structure Consumer (M R : Type) where
  onDelivery : Bytes → Handler M R
  survivesError : Bool

structure Message where
  id : Nat
  data : Bytes
  deriving DecidableEq

/-- The broker's answer to a request that a handler made for this message. -/
structure Answer where
  message : Message
  request : Request
  granted : Bool
  deriving DecidableEq

/-- `enqueued`, `settled` and `published` are histories; the consumer has taken the message
of `current` from its stream and has those of `inbox` still to take. -/
structure System (M R : Type) where
  enqueued : List Message
  queued : List Message
  unacked : List Message
  settled : List Message
  published : List (Message × R)
  inbox : List Message
  current : Option (Message × Handler M R)

inductive Event where
  | enqueue (data : Bytes)
  | deliver
  | take
  | fail
  | perform (granted : Bool)
  | crash
  deriving DecidableEq

namespace System
variable {M R : Type}

def start : System M R := ⟨[], [], [], [], [], [], none⟩

def requeue (s : System M R) : System M R :=
  { s with queued := s.unacked ++ s.queued, unacked := [], inbox := [], current := none }

def settle (message : Message) (s : System M R) : System M R :=
  if message ∈ s.unacked then
    { s with unacked := s.unacked.erase message, settled := s.settled ++ [message] }
  else s

def perform (s : System M R) (message : Message) (granted : Bool) : Handler M R → System M R
  | .next => { s with current := none }
  -- the connection is closed with the loop
  | .stop => s.requeue
  | .process _ rest => { s with current := some (message, rest) }
  | .publish result rest =>
    { s with
      published := if granted then s.published ++ [(message, result)] else s.published
      current := some (message, rest granted) }
  | .ack rest | .nack rest =>
    { (if granted then s.settle message else s) with current := some (message, rest granted) }

def step (consumer : Consumer M R) (s : System M R) : Event → System M R
  | .enqueue data =>
    { s with
      enqueued := s.enqueued ++ [⟨s.enqueued.length, data⟩]
      queued := s.queued ++ [⟨s.enqueued.length, data⟩] }
  | .deliver =>
    match s.queued with
    | [] => s
    | message :: rest =>
      { s with
        queued := rest, unacked := s.unacked ++ [message], inbox := s.inbox ++ [message] }
  | .take =>
    match s.current, s.inbox with
    | none, message :: rest =>
      { s with inbox := rest, current := some (message, consumer.onDelivery message.data) }
    | _, _ => s
  | .fail =>
    match s.current with
    | none => if consumer.survivesError then s else s.requeue
    | some _ => s
  | .perform granted =>
    match s.current with
    | some (message, handler) => s.perform message granted handler
    | none => s
  | .crash => s.requeue

/-- What a step settles. -/
def Settles (s : System M R) : Event → Message → Prop
  | .perform true, message => message ∈ s.unacked ∧
      ∃ rest, s.current = some (message, .ack rest) ∨ s.current = some (message, .nack rest)
  | _, _ => False

def Publishes (s : System M R) : Event → Message → R → Prop
  | .perform true, message, result => ∃ rest, s.current = some (message, .publish result rest)
  | _, _, _ => False

/-- What the broker answers in a step. -/
def answer (s : System M R) : Event → Option Answer
  | .perform granted =>
    match s.current with
    | some (message, handler) => handler.request.map fun request => ⟨message, request, granted⟩
    | none => none
  | _ => none

/-- All that the broker answers in a run, oldest first. -/
def answers (consumer : Consumer M R) (s : System M R) (events : List Event) : List Answer :=
  Runs.outputs (step consumer) (fun s event => (s.answer event).toList) s events

section Steps
variable (consumer : Consumer M R) (s : System M R)

@[simp] theorem requeue_settled : s.requeue.settled = s.settled := rfl

@[simp] theorem requeue_published : s.requeue.published = s.published := rfl

@[simp] theorem settle_published (message : Message) :
    (s.settle message).published = s.published := by
  unfold settle
  split <;> rfl

@[simp] theorem settle_enqueued (message : Message) :
    (s.settle message).enqueued = s.enqueued := by
  unfold settle
  split <;> rfl

@[simp] theorem settle_queued (message : Message) :
    (s.settle message).queued = s.queued := by
  unfold settle
  split <;> rfl

@[simp] theorem settle_inbox (message : Message) :
    (s.settle message).inbox = s.inbox := by
  unfold settle
  split <;> rfl

theorem mem_settle_settled (message other : Message) :
    other ∈ (s.settle message).settled ↔
      other ∈ s.settled ∨ (other = message ∧ message ∈ s.unacked) := by
  unfold settle
  split
  · rename_i hmem
    simp [hmem]
  · rename_i hmem
    simp [hmem]

theorem step_perform {s : System M R} {message : Message} {handler : Handler M R}
    (h : s.current = some (message, handler)) (granted : Bool) :
    step consumer s (.perform granted) = s.perform message granted handler := by
  simp [step, h]

theorem step_perform_idle {s : System M R} (h : s.current = none) (granted : Bool) :
    step consumer s (.perform granted) = s := by
  simp [step, h]

/-- Only a request of the handler settles or publishes. -/
theorem step_histories {event : Event} (h : ∀ granted, event ≠ .perform granted) :
    (step consumer s event).settled = s.settled ∧
      (step consumer s event).published = s.published := by
  cases event with
  | enqueue data => exact ⟨rfl, rfl⟩
  | deliver => cases hqueued : s.queued <;> simp [step, hqueued]
  | take =>
    cases hcurrent : s.current with
    | none => cases hinbox : s.inbox <;> simp [step, hcurrent, hinbox]
    | some current => simp [step, hcurrent]
  | fail =>
    cases hcurrent : s.current with
    | none => cases hsurvives : consumer.survivesError <;> simp [step, hcurrent, hsurvives]
    | some current => simp [step, hcurrent]
  | crash => exact ⟨rfl, rfl⟩
  | perform granted => exact absurd rfl (h granted)

theorem mem_settled_step (event : Event) (message : Message) :
    message ∈ (step consumer s event).settled ↔ message ∈ s.settled ∨ s.Settles event message := by
  cases event with
  | enqueue | deliver | take | fail | crash =>
    rw [(step_histories consumer s (by simp)).1]
    simp [Settles]
  | perform granted =>
    cases h : s.current with
    | none =>
      rw [step_perform_idle consumer h]
      cases granted <;> simp [Settles, h]
    | some current =>
      obtain ⟨other, handler⟩ := current
      rw [step_perform consumer h]
      cases granted with
      | false => cases handler <;> simp [perform, Settles]
      | true =>
        cases handler with
        | ack rest | nack rest =>
          simp only [perform, if_true, mem_settle_settled, Settles, h]
          constructor
          · intro hmem
            rcases hmem with hmem | ⟨rfl, hmem⟩
            · exact Or.inl hmem
            · exact Or.inr ⟨hmem, rest, by simp⟩
          · intro hmem
            rcases hmem with hmem | ⟨hmem, rest', hrest⟩
            · exact Or.inl hmem
            · right
              simp at hrest
              exact ⟨hrest.1.symm, hrest.1 ▸ hmem⟩
        | next | stop | process | publish => simp [perform, Settles, h]

theorem mem_published_step (event : Event) (message : Message) (result : R) :
    (message, result) ∈ (step consumer s event).published ↔
      (message, result) ∈ s.published ∨ s.Publishes event message result := by
  cases event with
  | enqueue | deliver | take | fail | crash =>
    rw [(step_histories consumer s (by simp)).2]
    simp [Publishes]
  | perform granted =>
    cases h : s.current with
    | none =>
      rw [step_perform_idle consumer h]
      cases granted <;> simp [Publishes, h]
    | some current =>
      obtain ⟨other, handler⟩ := current
      rw [step_perform consumer h]
      cases granted with
      | false => cases handler <;> simp [perform, Publishes]
      | true =>
        cases handler with
        | publish sent rest =>
          simp only [h, perform, if_true, List.mem_append, List.mem_singleton, Publishes,
            Prod.mk.injEq, Option.some.injEq, Handler.publish.injEq]
          apply or_congr Iff.rfl
          constructor
          · intro heq
            exact ⟨rest, heq.1.symm, heq.2.symm, rfl⟩
          · intro hpublish
            rcases hpublish with ⟨_, hmessage, hsent, _⟩
            exact ⟨hmessage.symm, hsent.symm⟩
        | next | stop | process | ack | nack => simp [perform, Publishes, h]

theorem Settles.not_publishes {s : System M R} {event : Event} {message : Message}
    (h : s.Settles event message) (other : Message) (result : R) :
    ¬ s.Publishes event other result := by
  cases event with
  | perform granted =>
    cases granted with
    | false => exact h.elim
    | true =>
      intro hpublish
      rcases h with ⟨_, rest, hcurrent⟩
      rcases hpublish with ⟨rest', hpublish⟩
      simp [hpublish] at hcurrent
  | enqueue | deliver | take | fail | crash => exact h.elim

theorem answer_perform {s : System M R} {message : Message} {handler : Handler M R}
    (h : s.current = some (message, handler)) (granted : Bool) :
    s.answer (.perform granted) =
      handler.request.map fun request => ⟨message, request, granted⟩ := by
  simp [answer, h]

theorem answer_eq_some {event : Event} {answer : Answer} (h : s.answer event = some answer) :
    event = .perform answer.granted ∧ ∃ handler, s.current = some (answer.message, handler) ∧
      handler.request = some answer.request := by
  cases event with
  | perform granted =>
    cases hcurrent : s.current with
    | none => simp [System.answer, hcurrent] at h
    | some current =>
      obtain ⟨message, handler⟩ := current
      rw [answer_perform hcurrent] at h
      obtain ⟨request, hrequest, rfl⟩ := Option.map_eq_some_iff.mp h
      exact ⟨rfl, handler, rfl, hrequest⟩
  | enqueue | deliver | take | fail | crash => cases h

theorem answers_of_step {past : List Event} {event : Event} {given : Answer}
    (h : (Runs.run (step consumer) s past).answer event = some given) (rest : List Event) :
    ∃ after, answers consumer s (past ++ event :: rest) =
      answers consumer s past ++ given :: after := by
  rw [answers, Runs.outputs_append, Runs.outputs_cons, h]
  exact ⟨_, rfl⟩

/-- Every answer was given in one of the steps. -/
theorem exists_step_of_answers {events : List Event} {before after : List Answer}
    {given : Answer} (h : answers consumer s events = before ++ given :: after) :
    ∃ past event rest, events = past ++ event :: rest ∧ before = answers consumer s past ∧
      (Runs.run (step consumer) s past).answer event = some given := by
  obtain ⟨past, event, rest, left, right, hevents, hbefore, hgiven⟩ :=
    Runs.exists_step_of_outputs h
  refine ⟨past, event, rest, hevents, ?_⟩
  cases hanswer : (Runs.run (step consumer) s past).answer event with
  | none => simp [hanswer] at hgiven
  | some answer =>
    rw [hanswer, Option.toList_some] at hgiven
    cases left with
    | nil =>
      obtain ⟨rfl, -⟩ := List.cons.inj hgiven
      rw [hbefore, List.append_nil]
      exact ⟨rfl, rfl⟩
    | cons first left => simp at hgiven

/-- Publishing is being granted a publication. -/
theorem exists_publishes_iff (event : Event) (message : Message) :
    (∃ result, s.Publishes event message result) ↔
      s.answer event = some ⟨message, .publish, true⟩ := by
  constructor
  · rintro ⟨result, hpublishes⟩
    cases event with
    | perform granted =>
      cases granted with
      | false => exact hpublishes.elim
      | true =>
        obtain ⟨rest, hcurrent⟩ := hpublishes
        rw [answer_perform hcurrent]
        rfl
    | enqueue | deliver | take | fail | crash => exact hpublishes.elim
  · intro h
    obtain ⟨rfl, handler, hcurrent, hrequest⟩ := answer_eq_some s h
    cases handler with
    | publish result rest => exact ⟨result, rest, hcurrent⟩
    | next | stop | process | ack | nack => simp [Handler.request] at hrequest

/-- The messages with a result are those for which a publication was granted. -/
theorem exists_published_iff (events : List Event) (message : Message) :
    (∃ result, (message, result) ∈ (Runs.run (step consumer) start events).published) ↔
      ⟨message, .publish, true⟩ ∈ answers consumer start events := by
  have hstart : (∃ result : R, (message, result) ∈ (start : System M R).published) ↔
      ⟨message, .publish, true⟩ ∈ ([] : List Answer) := by simp [start]
  refine Runs.outputs_invariant (I := fun (s : System M R) (given : List Answer) =>
    (∃ result, (message, result) ∈ s.published) ↔ ⟨message, .publish, true⟩ ∈ given)
      ?_ hstart events
  intro s event given hs
  simp only [mem_published_step, exists_or, List.mem_append, Option.mem_toList]
  exact or_congr hs (exists_publishes_iff s event message)

end Steps

/-! ## Every message is queued, unsettled or settled -/

/-- The broker accounts for every message, and each has its own number. -/
structure Conserved (s : System M R) : Prop where
  perm : (s.queued ++ s.unacked ++ s.settled).Perm s.enqueued
  fresh : ∀ message ∈ s.enqueued, message.id < s.enqueued.length
  nodup : s.enqueued.Nodup

theorem start_conserved : (start : System M R).Conserved :=
  ⟨List.Perm.refl _, by simp [start], List.nodup_nil⟩

/-- A settlement moves one message, and everything else stays. -/
theorem settle_perm (s : System M R) (message : Message) :
    ((s.settle message).queued ++ (s.settle message).unacked ++ (s.settle message).settled).Perm
      (s.queued ++ s.unacked ++ s.settled) := by
  unfold settle
  split
  · rename_i hmem
    have herase := List.perm_cons_erase hmem
    have hunacked : ((s.unacked.erase message) ++ (s.settled ++ [message])).Perm
        (s.unacked ++ s.settled) := by
      rw [← List.append_assoc]
      apply List.perm_append_comm.trans
      exact (herase.append_right s.settled).symm
    simpa [List.append_assoc] using hunacked.append_left s.queued
  · exact List.Perm.refl _

theorem Conserved.of_perm {s s' : System M R} (hs : s.Conserved)
    (henqueued : s'.enqueued = s.enqueued)
    (hperm : (s'.queued ++ s'.unacked ++ s'.settled).Perm (s.queued ++ s.unacked ++ s.settled)) :
    s'.Conserved := by
  refine ⟨?_, ?_, ?_⟩
  · rw [henqueued]
    exact hperm.trans hs.perm
  · rw [henqueued]
    exact hs.fresh
  · rw [henqueued]
    exact hs.nodup

theorem Conserved.requeue {s : System M R} (hs : s.Conserved) : s.requeue.Conserved := by
  have henqueued : s.requeue.enqueued = s.enqueued := rfl
  apply hs.of_perm henqueued
  simpa [System.requeue] using List.perm_append_comm.append_right s.settled

theorem Conserved.settle {s : System M R} (hs : s.Conserved) (message : Message) :
    (s.settle message).Conserved :=
  hs.of_perm (settle_enqueued s message) (settle_perm s message)

theorem Conserved.enqueue {s : System M R} (hs : s.Conserved) (consumer : Consumer M R)
    (data : Bytes) : (step consumer s (.enqueue data)).Conserved := by
  let new : Message := ⟨s.enqueued.length, data⟩
  have hnew : new ∉ s.enqueued := by
    intro hmem
    exact absurd (hs.fresh new hmem) (Nat.lt_irrefl _)
  refine ⟨?_, ?_, ?_⟩
  · simp only [step]
    have hmove : (s.queued ++ [new] ++ s.unacked ++ s.settled).Perm
        (s.queued ++ s.unacked ++ s.settled ++ [new]) := by
      simp only [List.append_assoc]
      apply List.Perm.append_left
      rw [← List.append_assoc s.unacked]
      exact List.perm_append_comm
    exact hmove.trans (hs.perm.append_right _)
  · intro message hmem
    simp only [step, List.mem_append, List.mem_singleton, List.length_append,
      List.length_singleton] at hmem ⊢
    rcases hmem with hmem | rfl
    · have hlt := hs.fresh message hmem
      omega
    · exact Nat.lt_succ_self _
  · simp only [step]
    rw [List.nodup_append]
    refine ⟨hs.nodup, List.nodup_singleton _, ?_⟩
    intro message hmem other hother heq
    rw [List.mem_singleton] at hother
    have hequal : message = new := heq.trans hother
    rw [hequal] at hmem
    exact hnew hmem

theorem Conserved.step {s : System M R} (hs : s.Conserved) (consumer : Consumer M R)
    (event : Event) : (step consumer s event).Conserved := by
  cases event with
  | enqueue data => exact hs.enqueue consumer data
  | deliver =>
    cases h : s.queued with
    | nil => simpa [System.step, h] using hs
    | cons message rest =>
      apply hs.of_perm
      · simp [System.step, h]
      · simp only [System.step, h]
        have hmove : (rest ++ (s.unacked ++ [message])).Perm (message :: rest ++ s.unacked) := by
          rw [← List.append_assoc]
          exact List.perm_append_singleton _ _
        simpa [List.append_assoc] using hmove.append_right s.settled
  | take =>
    cases h : s.current with
    | none =>
      simp only [System.step, h]
      cases s.inbox with
      | nil => exact hs
      | cons message rest => exact hs.of_perm rfl (.refl _)
    | some current => simpa [System.step, h] using hs
  | fail =>
    cases h : s.current with
    | none =>
      cases hsurvives : consumer.survivesError with
      | true => simpa [System.step, h, hsurvives] using hs
      | false => simpa [System.step, h, hsurvives] using hs.requeue
    | some current => simpa [System.step, h] using hs
  | crash => exact hs.requeue
  | perform granted =>
    cases h : s.current with
    | none => simpa [System.step, h] using hs
    | some current =>
      obtain ⟨message, handler⟩ := current
      simp only [System.step, h]
      cases handler with
      | next | process | publish => exact hs.of_perm rfl (.refl _)
      | stop => exact hs.requeue
      | ack rest | nack rest =>
        cases granted with
        | false => exact hs.of_perm rfl (.refl _)
        | true => exact (hs.settle message).of_perm rfl (.refl _)

/-- The broker loses nothing: a message is held until it is settled. -/
theorem Conserved.held_iff {s : System M R} (hs : s.Conserved) {message : Message}
    (hmem : message ∈ s.enqueued) :
    (message ∈ s.queued ∨ message ∈ s.unacked) ↔ message ∉ s.settled := by
  have hnodup := hs.perm.nodup_iff.mpr hs.nodup
  rw [List.nodup_append] at hnodup
  constructor
  · intro hheld hsettled
    exact hnodup.2.2 message (List.mem_append.mpr hheld) message hsettled rfl
  · intro hsettled
    have hall := hs.perm.mem_iff.mpr hmem
    rcases List.mem_append.mp hall with hheld | hmem'
    · exact List.mem_append.mp hheld
    · exact absurd hmem' hsettled

/-- What a consumer still has to take comes last among the messages it holds. -/
def Handed (s : System M R) : Prop :=
  ∃ kept, s.unacked = kept ++ s.inbox ∧ ∀ message handler,
    s.current = some (message, handler) → message ∈ kept ∨ message ∈ s.settled

theorem start_handed : (start : System M R).Handed := ⟨[], rfl, by simp [start]⟩

theorem requeue_handed (s : System M R) : s.requeue.Handed := ⟨[], rfl, by simp [requeue]⟩

/-- A step that moves on in the handler and leaves the rest alone. -/
theorem Handed.moved {s : System M R} (h : s.Handed) {message : Message} {handler : Handler M R}
    (hcurrent : s.current = some (message, handler)) (published : List (Message × R))
    (rest : Handler M R) :
    ({ s with published := published, current := some (message, rest) } : System M R).Handed := by
  obtain ⟨kept, hkept, hmem⟩ := h
  refine ⟨kept, hkept, ?_⟩
  intro other handler' hother
  obtain ⟨rfl, -⟩ := Prod.mk.inj (Option.some.inj hother)
  exact hmem _ handler hcurrent

theorem Handed.settle {s : System M R} (h : s.Handed) (hs : s.Conserved) {message : Message}
    {handler : Handler M R} (hcurrent : s.current = some (message, handler))
    (rest : Handler M R) :
    ({ s.settle message with current := some (message, rest) } : System M R).Handed := by
  obtain ⟨kept, hkept, hmem⟩ := h
  by_cases hunacked : message ∈ s.unacked
  · have hnot : message ∉ s.settled := by
      have hnodup := hs.perm.nodup_iff.mpr hs.nodup
      intro hsettled
      exact (List.nodup_append.mp hnodup).2.2 message
        (List.mem_append_right _ hunacked) message hsettled rfl
    have hin : message ∈ kept := (hmem message handler hcurrent).resolve_right hnot
    rw [System.settle, if_pos hunacked]
    refine ⟨kept.erase message, ?_, ?_⟩
    · simp only [hkept]
      exact List.erase_append_left _ hin
    · intro other handler' hother
      obtain ⟨rfl, -⟩ := Prod.mk.inj (Option.some.inj hother)
      exact Or.inr (List.mem_append_right _ (List.mem_singleton_self _))
  · rw [System.settle, if_neg hunacked]
    exact Handed.moved ⟨kept, hkept, hmem⟩ hcurrent s.published rest

theorem Handed.step {s : System M R} (h : s.Handed) (hs : s.Conserved) (consumer : Consumer M R)
    (event : Event) : (step consumer s event).Handed := by
  cases event with
  | enqueue data => exact h
  | deliver =>
    obtain ⟨kept, hkept, hmem⟩ := h
    cases hqueued : s.queued with
    | nil => simpa [System.step, hqueued] using ⟨kept, hkept, hmem⟩
    | cons message rest =>
      simp only [System.step, hqueued]
      exact ⟨kept, by simp [hkept], hmem⟩
  | take =>
    obtain ⟨kept, hkept, hmem⟩ := h
    cases hcurrent : s.current with
    | some current => simpa [System.step, hcurrent] using ⟨kept, hkept, hmem⟩
    | none =>
      cases hinbox : s.inbox with
      | nil => simpa [System.step, hcurrent, hinbox] using ⟨kept, hkept, hmem⟩
      | cons message rest =>
        simp only [System.step, hcurrent, hinbox]
        refine ⟨kept ++ [message], by simp [hkept, hinbox], ?_⟩
        intro other handler hother
        obtain ⟨rfl, -⟩ := Prod.mk.inj (Option.some.inj hother)
        exact Or.inl (List.mem_append_right _ (List.mem_singleton_self _))
  | fail =>
    cases hcurrent : s.current with
    | some current => simpa [System.step, hcurrent] using h
    | none =>
      cases hsurvives : consumer.survivesError with
      | true => simpa [System.step, hcurrent, hsurvives] using h
      | false => simpa [System.step, hcurrent, hsurvives] using requeue_handed s
  | crash => exact requeue_handed s
  | perform granted =>
    cases hcurrent : s.current with
    | none => simpa [System.step, hcurrent] using h
    | some current =>
      obtain ⟨message, handler⟩ := current
      rw [step_perform consumer hcurrent]
      cases handler with
      | next =>
        obtain ⟨kept, hkept, -⟩ := h
        exact ⟨kept, hkept, by simp [perform]⟩
      | stop => exact requeue_handed s
      | process task rest => exact h.moved hcurrent s.published rest
      | publish result rest => exact h.moved hcurrent _ (rest granted)
      | ack rest | nack rest =>
        cases granted with
        | false => exact h.moved hcurrent s.published (rest false)
        | true => exact h.settle hs hcurrent (rest true)

/-- A message that the loop takes is held by its consumer. -/
theorem Handed.mem_unacked {s : System M R} (h : s.Handed) {message : Message}
    {rest : List Message} (hinbox : s.inbox = message :: rest) : message ∈ s.unacked := by
  obtain ⟨kept, hkept, -⟩ := h
  simp [hkept, hinbox]

/-! ## Every result belongs to its message -/

end System

/-- Every result the handler may still publish satisfies `φ`. -/
def Handler.All {M R : Type} (φ : R → Prop) : Handler M R → Prop
  | .next | .stop => True
  | .process _ rest => rest.All φ
  | .publish result rest => φ result ∧ ∀ granted, (rest granted).All φ
  | .ack rest | .nack rest => ∀ granted, (rest granted).All φ

theorem Handler.All.mono {M R : Type} {φ ψ : R → Prop} (h : ∀ result, φ result → ψ result)
    {handler : Handler M R} (hall : handler.All φ) : handler.All ψ := by
  induction handler with
  | next | stop => trivial
  | process task rest ih => exact ih hall
  | publish result rest ih => exact ⟨h result hall.1, fun granted => ih granted (hall.2 granted)⟩
  | ack rest ih | nack rest ih => exact fun granted => ih granted (hall granted)

namespace System
variable {M R : Type}

/-- What was published for a message, and what may still be, is a result of it. -/
structure Attributed (φ : Bytes → R → Prop) (s : System M R) : Prop where
  published : ∀ message result, (message, result) ∈ s.published → φ message.data result
  current : ∀ message handler, s.current = some (message, handler) →
    handler.All (φ message.data)

variable {φ : Bytes → R → Prop} {consumer : Consumer M R}

theorem start_attributed : (start : System M R).Attributed φ :=
  ⟨by simp [start], by simp [start]⟩

theorem Attributed.step (hbody : ∀ data, (consumer.onDelivery data).All (φ data)) {s : System M R}
    (hs : s.Attributed φ) (event : Event) : (step consumer s event).Attributed φ := by
  constructor
  · intro message result hmem
    rcases (mem_published_step consumer s event message result).mp hmem with hmem | hpublish
    · exact hs.published message result hmem
    · cases event with
      | perform granted =>
        cases granted with
        | false => exact hpublish.elim
        | true =>
          obtain ⟨rest, hcurrent⟩ := hpublish
          exact (hs.current message _ hcurrent).1
      | enqueue | deliver | take | fail | crash => exact hpublish.elim
  · intro message handler hcurrent
    cases event with
    | enqueue data => exact hs.current message handler hcurrent
    | deliver =>
      simp only [System.step] at hcurrent
      cases h : s.queued with
      | nil => exact hs.current message handler (by simpa [h] using hcurrent)
      | cons head rest => exact hs.current message handler (by simpa [h] using hcurrent)
    | take =>
      simp only [System.step] at hcurrent
      split at hcurrent
      · simp only [Option.some.injEq, Prod.mk.injEq] at hcurrent
        obtain ⟨rfl, rfl⟩ := hcurrent
        exact hbody _
      · exact hs.current message handler hcurrent
    | fail =>
      simp only [System.step] at hcurrent
      split at hcurrent
      · split at hcurrent
        · exact hs.current message handler hcurrent
        · simp [requeue] at hcurrent
      · exact hs.current message handler hcurrent
    | crash => simp [System.step, requeue] at hcurrent
    | perform granted =>
      simp only [System.step] at hcurrent
      cases h : s.current with
      | none => simp [h] at hcurrent
      | some now =>
        obtain ⟨other, now⟩ := now
        have hnow := hs.current other now h
        simp only [h] at hcurrent
        cases now with
        | next => simp [perform] at hcurrent
        | stop => simp [perform, requeue] at hcurrent
        | process task rest =>
          obtain ⟨rfl, rfl⟩ := Prod.mk.inj (Option.some.inj hcurrent)
          exact hnow
        | publish result rest =>
          obtain ⟨rfl, rfl⟩ := Prod.mk.inj (Option.some.inj hcurrent)
          exact hnow.2 granted
        | ack rest | nack rest =>
          obtain ⟨rfl, rfl⟩ := Prod.mk.inj (Option.some.inj hcurrent)
          exact hnow granted

/-! ## At least once -/

/-- Each wanted message is held by the broker or has been answered. -/
def NoneLost (wanted : Bytes → Prop) (s : System M R) : Prop :=
  ∀ message ∈ s.enqueued, wanted message.data →
    (message ∈ s.queued ∨ message ∈ s.unacked) ∨ ∃ result, (message, result) ∈ s.published

def SettledAfterAnswer (wanted : Bytes → Prop) (s : System M R) (event : Event) : Prop :=
  ∀ message, s.Settles event message → wanted message.data →
    ∃ result, (message, result) ∈ s.published

theorem noneLost_iff {wanted : Bytes → Prop} {s : System M R} (hs : s.Conserved) :
    s.NoneLost wanted ↔ ∀ message ∈ s.settled, wanted message.data →
      ∃ result, (message, result) ∈ s.published := by
  constructor
  · intro h message hsettled hwanted
    have hmem : message ∈ s.enqueued :=
      hs.perm.mem_iff.mp (List.mem_append_right _ hsettled)
    rcases h message hmem hwanted with hheld | hanswer
    · exact absurd hsettled ((hs.held_iff hmem).mp hheld)
    · exact hanswer
  · intro h message hmem hwanted
    by_cases hsettled : message ∈ s.settled
    · exact Or.inr (h message hsettled hwanted)
    · exact Or.inl ((hs.held_iff hmem).mpr hsettled)

theorem noneLost_step {wanted : Bytes → Prop} {s : System M R} (hs : s.Conserved)
    (hlost : s.NoneLost wanted) (event : Event) :
    (step consumer s event).NoneLost wanted ↔ s.SettledAfterAnswer wanted event := by
  rw [noneLost_iff hs] at hlost
  rw [noneLost_iff (hs.step consumer event)]
  constructor
  · intro h message hsettles hwanted
    have hsettled := (mem_settled_step consumer s event message).mpr (Or.inr hsettles)
    obtain ⟨result, hresult⟩ := h message hsettled hwanted
    rcases (mem_published_step consumer s event message result).mp hresult with hresult | hpublish
    · exact ⟨result, hresult⟩
    · exact absurd hpublish (hsettles.not_publishes message result)
  · intro h message hsettled hwanted
    have hanswer : ∃ result, (message, result) ∈ s.published := by
      rcases (mem_settled_step consumer s event message).mp hsettled with hsettled | hsettles
      · exact hlost message hsettled hwanted
      · exact h message hsettles hwanted
    obtain ⟨result, hresult⟩ := hanswer
    exact ⟨result, (mem_published_step consumer s event message result).mpr (Or.inl hresult)⟩

/-- The rule for consumers: in a run, whatever crashes and refusals it has, no message is lost
exactly when none is settled before it was answered. -/
theorem always_noneLost_iff (consumer : Consumer M R) (wanted : Bytes → Prop)
    (events : List Event) :
    Runs.Always (step consumer) (NoneLost wanted) start events ↔
      Runs.Along (step consumer) (SettledAfterAnswer wanted) start events := by
  have hconserved : Runs.Along (step consumer) (fun s _ => s.Conserved) start events :=
    Runs.along_of_invariant (fun _ e hs => hs.step consumer e) start_conserved events
  apply Runs.always_iff_along (P := NoneLost wanted) _ _ hconserved
  · intro s event hlost hs
    exact noneLost_step hs hlost event
  · intro message hmem
    simp [start] at hmem

end System

/-! ## The loop on a stream that ends -/

inductive Incoming where
  | error
  | delivery (data : Bytes)
  deriving DecidableEq

inductive Action (M R : Type) where
  | processed (message : M)
  | published (result : R)
  | acked
  | nacked
  deriving DecidableEq

inductive Ending where
  | streamEnded
  | stopped
  deriving DecidableEq

section Serve
variable {M R : Type}

/-- What the handler does when every request is granted. -/
def Handler.granted : Handler M R → List (Action M R)
  | .next | .stop => []
  | .process message rest => .processed message :: rest.granted
  | .publish result rest => .published result :: (rest true).granted
  | .ack rest => .acked :: (rest true).granted
  | .nack rest => .nacked :: (rest true).granted

def Handler.continues : Handler M R → Bool
  | .next => true
  | .stop => false
  | .process _ rest => rest.continues
  | .publish _ rest | .ack rest | .nack rest => (rest true).continues

def Action.settles : Action M R → Bool
  | .acked | .nacked => true
  | .processed _ | .published _ => false

@[simp] theorem settles_processed (message : M) :
    (.processed message : Action M R).settles = false := rfl

@[simp] theorem settles_published (result : R) :
    (.published result : Action M R).settles = false := rfl

@[simp] theorem settles_acked : (.acked : Action M R).settles = true := rfl

@[simp] theorem settles_nacked : (.nacked : Action M R).settles = true := rfl

/-- The deliveries taken from the stream with what was done for each, and how the loop ended. -/
def serve (consumer : Consumer M R) :
    List Incoming → List (Bytes × List (Action M R)) × Ending
  | [] => ([], .streamEnded)
  | .error :: stream =>
    if consumer.survivesError then serve consumer stream else ([], .stopped)
  | .delivery data :: stream =>
    let entry := (data, (consumer.onDelivery data).granted)
    if (consumer.onDelivery data).continues then
      (entry :: (serve consumer stream).1, (serve consumer stream).2)
    else ([entry], .stopped)

/-- The loop outlives the stream, takes all of it, settles every delivery once and processes
every message in it. -/
structure Robust (parse : Bytes → Option M) (consumer : Consumer M R) (payloads : List Bytes) :
    Prop where
  ending : (serve consumer (payloads.map .delivery)).2 = .streamEnded
  taken : (serve consumer (payloads.map .delivery)).1.map Prod.fst = payloads
  settled : ∀ entry ∈ (serve consumer (payloads.map .delivery)).1,
    entry.2.countP Action.settles = 1
  processed : ∀ entry ∈ (serve consumer (payloads.map .delivery)).1,
    ∀ message, parse entry.1 = some message → .processed message ∈ entry.2

/-- One iteration that goes on, having settled its delivery once and processed what it held. -/
structure Sound (parse : Bytes → Option M) (data : Bytes) (handler : Handler M R) : Prop where
  continues : handler.continues = true
  settled : handler.granted.countP Action.settles = 1
  processed : ∀ message, parse data = some message → .processed message ∈ handler.granted

variable {parse : Bytes → Option M} {consumer : Consumer M R}

theorem robust_nil : Robust parse consumer [] :=
  ⟨rfl, rfl, by simp [serve], by simp [serve]⟩

theorem robust_cons (data : Bytes) (payloads : List Bytes) :
    Robust parse consumer (data :: payloads) ↔
      Sound parse data (consumer.onDelivery data) ∧ Robust parse consumer payloads := by
  cases hgo : (consumer.onDelivery data).continues with
  | false =>
    constructor
    · intro h
      have hending := h.ending
      simp [serve, hgo] at hending
    · intro h
      exact absurd h.1.continues (by simp [hgo])
  | true =>
    have hserve : serve consumer ((data :: payloads).map .delivery) =
        ((data, (consumer.onDelivery data).granted) ::
          (serve consumer (payloads.map .delivery)).1,
          (serve consumer (payloads.map .delivery)).2) := by
      simp [serve, hgo]
    constructor
    · intro h
      rcases h with ⟨hending, htaken, hsettled, hprocessed⟩
      rw [hserve] at hending htaken hsettled hprocessed
      refine ⟨⟨hgo, ?_, ?_⟩, ⟨hending, ?_, ?_, ?_⟩⟩
      · exact hsettled _ List.mem_cons_self
      · exact hprocessed _ List.mem_cons_self
      · simpa using htaken
      · exact fun entry hmem => hsettled entry (List.mem_cons_of_mem _ hmem)
      · exact fun entry hmem => hprocessed entry (List.mem_cons_of_mem _ hmem)
    · intro h
      rcases h with ⟨hsound, hrest⟩
      constructor
      · rw [hserve]
        exact hrest.ending
      · rw [hserve]
        simpa using hrest.taken
      · rw [hserve]
        intro entry hmem
        rcases List.mem_cons.mp hmem with rfl | hmem
        · exact hsound.settled
        · exact hrest.settled entry hmem
      · rw [hserve]
        intro entry hmem
        rcases List.mem_cons.mp hmem with rfl | hmem
        · exact hsound.processed
        · exact hrest.processed entry hmem

/-- A stream is served well exactly when every delivery in it is. -/
theorem robust_iff (payloads : List Bytes) :
    Robust parse consumer payloads ↔
      ∀ data ∈ payloads, Sound parse data (consumer.onDelivery data) := by
  induction payloads with
  | nil => simp [robust_nil]
  | cons data payloads ih => rw [robust_cons, ih, List.forall_mem_cons]

end Serve

/-! ## The two runs of a loop -/

namespace System
variable {M R : Type}

theorem mem_settled_settle {s : System M R} {message : Message}
    (h : message ∈ s.unacked ∨ message ∈ s.settled) : message ∈ (s.settle message).settled := by
  rw [mem_settle_settled]
  rcases h with hunacked | hsettled
  · exact Or.inr ⟨rfl, hunacked⟩
  · exact Or.inl hsettled

/-- From `s` to `s'` the message was dealt with by these actions. -/
structure Handled (message : Message) (actions : List (Action M R)) (s s' : System M R) :
    Prop where
  current : s'.current = none
  settled : message ∈ s.settled ∨ 0 < actions.countP Action.settles → message ∈ s'.settled
  published : ∀ result, (message, result) ∈ s.published ∨ .published result ∈ actions →
    (message, result) ∈ s'.published

/-- With every request granted the system does for a delivery what `serve` records of it. -/
theorem run_granted (consumer : Consumer M R) {handler : Handler M R}
    (hgo : handler.continues = true) {s : System M R} {message : Message}
    (hcurrent : s.current = some (message, handler))
    (hheld : message ∈ s.unacked ∨ message ∈ s.settled) :
    Handled message handler.granted s (Runs.run (step consumer) s
      (List.replicate (handler.granted.length + 1) (.perform true))) := by
  induction handler generalizing s with
  | next =>
    rw [Handler.granted, List.length_nil, List.replicate_one, Runs.run_cons, Runs.run_nil,
      step_perform consumer hcurrent]
    exact ⟨rfl, by simp [perform], by simp [perform]⟩
  | stop => simp [Handler.continues] at hgo
  | process task rest ih =>
    rw [Handler.granted, List.length_cons, List.replicate_succ, Runs.run_cons,
      step_perform consumer hcurrent]
    have h := ih hgo (s := { s with current := some (message, rest) }) rfl hheld
    refine ⟨h.current, ?_, ?_⟩
    · intro hsettled
      apply h.settled
      simpa using hsettled
    · intro result hresult
      apply h.published result
      simpa using hresult
  | publish sent rest ih =>
    rw [Handler.granted, List.length_cons, List.replicate_succ, Runs.run_cons,
      step_perform consumer hcurrent]
    have h := ih true hgo (s := { s with
      published := s.published ++ [(message, sent)], current := some (message, rest true) })
      rfl hheld
    refine ⟨h.current, ?_, ?_⟩
    · intro hsettled
      apply h.settled
      simpa using hsettled
    · intro result hresult
      apply h.published result
      simp only [List.mem_cons, Action.published.injEq] at hresult
      simp only [List.mem_append, List.mem_singleton, Prod.mk.injEq, true_and]
      rw [or_assoc]
      exact hresult
  | ack rest ih | nack rest ih =>
    rw [Handler.granted, List.length_cons, List.replicate_succ, Runs.run_cons,
      step_perform consumer hcurrent]
    have hsettled := mem_settled_settle hheld
    have h := ih true hgo (s := { s.settle message with current := some (message, rest true) }) rfl
      (Or.inr hsettled)
    refine ⟨h.current, fun _ => h.settled (Or.inl hsettled), ?_⟩
    intro result hresult
    apply h.published result
    simpa using hresult

end System

end Broker
