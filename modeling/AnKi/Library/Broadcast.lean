import AnKi.Library.Runs
import Mathlib.Algebra.GroupWithZero.Nat
import Mathlib.Data.List.Infix
import Mathlib.Data.List.TakeWhile

/-!
# Broadcast channels of bounded capacity

Everything sent goes to every receiver, in one order. The channel retains the last
`capacity` messages: a receiver that fell further behind is told how many it
missed and goes on with the oldest one retained. A message that nobody listens to
is sent to nobody, so it makes no difference whether it is kept.
-/

namespace Broadcast
set_option autoImplicit false

variable {R A B : Type}

/-- What a receiver gets. -/
inductive Reception (A : Type) where
  | message (a : A)
  | lagged (skipped : Nat)
  | closed
  deriving DecidableEq

def Reception.message? : Reception A → Option A
  | .message a => some a
  | .lagged _ | .closed => none

def Reception.isMessage : Reception A → Bool
  | .message _ => true
  | .lagged _ | .closed => false

def Reception.skipped : Reception A → Nat
  | .lagged skipped => skipped
  | .message _ | .closed => 0

/-- `joined` is the number of messages sent before the receiver subscribed, `next` the position
of the message it takes next, and `taken` the history of what it got. -/
structure Receiver (A : Type) where
  joined : Nat
  next : Nat
  taken : List (Reception A)
  deriving DecidableEq

namespace Receiver

def subscribe (sent : List A) : Receiver A := ⟨sent.length, sent.length, []⟩

def messages (r : Receiver A) : List A := r.taken.filterMap Reception.message?

def skipped (r : Receiver A) : Nat := (r.taken.map Reception.skipped).sum

/-- What a loop gets that ends at the first error. -/
def unbroken (r : Receiver A) : List A :=
  (r.taken.takeWhile Reception.isMessage).filterMap Reception.message?

/-- The receiver got an error, from its lag or from the end of the channel. -/
def Broken (r : Receiver A) : Prop := ∃ reception ∈ r.taken, reception.isMessage = false

/-- What the next call of `recv` gives, and where the receiver is after it. While nothing is
there the call waits. -/
def recv (capacity : Nat) (sent : List A) (closed : Bool) (r : Receiver A) :
    Option (Reception A × Nat) :=
  if r.next + capacity < sent.length then
    some (.lagged (sent.length - capacity - r.next), sent.length - capacity)
  else match sent[r.next]? with
    | some a => some (.message a, r.next + 1)
    | none => if closed then some (.closed, r.next) else none

def take (r : Receiver A) : Option (Reception A × Nat) → Receiver A
  | some (reception, next) => { r with next := next, taken := r.taken ++ [reception] }
  | none => r

/-- Everything sent has been taken or missed. -/
def Drained (sent : List A) (r : Receiver A) : Prop := r.next = sent.length

/-- The oldest position that is both retained and after the subscription. -/
def oldest (capacity : Nat) (sent : List A) (r : Receiver A) : Nat :=
  max r.joined (sent.length - capacity)

end Receiver

structure Channel (R A : Type) where
  capacity : Nat
  sent : List A
  closed : Bool
  receiver : R → Receiver A

inductive Event (R A : Type) where
  | send (a : A)
  | subscribe (r : R)
  | recv (r : R)
  | close
  deriving DecidableEq

namespace Channel
variable [DecidableEq R]

/-- A channel as it is made: every receiver in `R` listens from the first message on. -/
def start (capacity : Nat) : Channel R A := ⟨capacity, [], false, fun _ => ⟨0, 0, []⟩⟩

def recv (c : Channel R A) (r : R) : Option (Reception A × Nat) :=
  (c.receiver r).recv c.capacity c.sent c.closed

def step (c : Channel R A) : Event R A → Channel R A
  | .send a => if c.closed then c else { c with sent := c.sent ++ [a] }
  | .subscribe r => { c with receiver := Function.update c.receiver r (.subscribe c.sent) }
  | .recv r => { c with receiver := Function.update c.receiver r ((c.receiver r).take (c.recv r)) }
  | .close => { c with closed := true }

end Channel

/-! ## What a receiver gets is what was sent -/

namespace Receiver
variable {capacity : Nat} {sent : List A} {r : Receiver A}

@[simp] theorem subscribe_messages (sent : List A) : (subscribe sent).messages = [] := rfl

/-- The messages taken are those sent since the subscription, less the ones announced as missed;
of the messages still retained none is missed. -/
structure Faithful (capacity : Nat) (sent : List A) (r : Receiver A) : Prop where
  joined_le : r.joined ≤ r.next
  next_le : r.next ≤ sent.length
  count : r.joined + r.messages.length + r.skipped = r.next
  sub : r.messages.Sublist ((sent.take r.next).drop r.joined)
  recent : (sent.take r.next).drop (r.oldest capacity sent) <:+ r.messages

theorem subscribe_faithful (capacity : Nat) (sent : List A) :
    (subscribe sent).Faithful capacity sent := by
  refine ⟨Nat.le_refl _, Nat.le_refl _, rfl, List.nil_sublist _, ?_⟩
  have hnil : (sent.take sent.length).drop ((subscribe sent).oldest capacity sent) = [] := by
    rw [List.take_length, List.drop_eq_nil_iff]
    exact Nat.le_max_left _ _
  exact hnil ▸ List.nil_suffix

theorem Faithful.send (h : r.Faithful capacity sent) (a : A) :
    r.Faithful capacity (sent ++ [a]) := by
  have htake : (sent ++ [a]).take r.next = sent.take r.next :=
    List.take_append_of_le_length h.next_le
  refine ⟨h.joined_le, ?_, h.count, ?_, ?_⟩
  · have hle := h.next_le
    rw [List.length_append]
    omega
  · rw [htake]
    exact h.sub
  · rw [htake]
    have hoff : r.oldest capacity sent ≤ r.oldest capacity (sent ++ [a]) := by
      simp only [oldest, List.length_append]
      omega
    exact (List.drop_suffix_drop_left _ hoff).trans h.recent

theorem Faithful.take_message (h : r.Faithful capacity sent)
    (hretained : ¬ r.next + capacity < sent.length) {a : A} (ha : sent[r.next]? = some a) :
    (r.take (some (.message a, r.next + 1))).Faithful capacity sent := by
  have hmessages : (r.take (some (.message a, r.next + 1))).messages = r.messages ++ [a] := by
    simp [take, messages, Reception.message?]
  have hskipped : (r.take (some (.message a, r.next + 1))).skipped = r.skipped := by
    simp [take, skipped, Reception.skipped]
  have hlt : r.next < sent.length := (List.getElem?_eq_some_iff.mp ha).1
  have htake : sent.take (r.next + 1) = sent.take r.next ++ [a] := by
    rw [List.take_add_one, ha]
    rfl
  have hdrop : ∀ n, n ≤ r.next → (sent.take (r.next + 1)).drop n =
      (sent.take r.next).drop n ++ [a] := by
    intro n hn
    rw [htake, List.drop_append_of_le_length]
    rw [List.length_take]
    omega
  have holdest : r.oldest capacity sent ≤ r.next := by
    have hle := h.joined_le
    simp only [oldest]
    omega
  refine ⟨Nat.le_succ_of_le h.joined_le, hlt, ?_, ?_, ?_⟩
  · have hcount := h.count
    rw [hmessages, hskipped]
    simp only [take, List.length_append, List.length_singleton]
    omega
  · rw [hmessages]
    simp only [take]
    rw [hdrop _ h.joined_le]
    exact h.sub.append (List.Sublist.refl [a])
  · rw [hmessages]
    simp only [take, oldest] at holdest ⊢
    rw [hdrop _ holdest]
    obtain ⟨old, hold⟩ := h.recent
    refine ⟨old, ?_⟩
    rw [← hold, List.append_assoc]
    rfl

theorem Faithful.take_lagged (h : r.Faithful capacity sent)
    (hlagged : r.next + capacity < sent.length) :
    (r.take (some (.lagged (sent.length - capacity - r.next), sent.length - capacity))).Faithful
      capacity sent := by
  have hmessages : (r.take (some (.lagged (sent.length - capacity - r.next),
      sent.length - capacity))).messages = r.messages := by
    simp [take, messages, Reception.message?]
  have hskipped : (r.take (some (.lagged (sent.length - capacity - r.next),
      sent.length - capacity))).skipped = r.skipped + (sent.length - capacity - r.next) := by
    simp [take, skipped, Reception.skipped]
  have hjoined := h.joined_le
  refine ⟨?_, Nat.sub_le _ _, ?_, ?_, ?_⟩
  · simp only [take]
    omega
  · have hcount := h.count
    rw [hmessages, hskipped]
    simp only [take]
    omega
  · rw [hmessages]
    have hpre : sent.take r.next <+: sent.take (sent.length - capacity) :=
      List.take_prefix_take_left (by omega)
    exact h.sub.trans (hpre.sublist.drop _)
  · -- nothing retained has been taken yet
    rw [hmessages]
    simp only [take]
    have hnil : (sent.take (sent.length - capacity)).drop (max r.joined (sent.length - capacity)) =
        [] := by
      rw [List.drop_eq_nil_iff, List.length_take]
      omega
    rw [oldest, hnil]
    exact List.nil_suffix

theorem Faithful.take_closed (h : r.Faithful capacity sent) :
    (r.take (some (.closed, r.next))).Faithful capacity sent := by
  have hmessages : (r.take (some (.closed, r.next))).messages = r.messages := by
    simp [take, messages, Reception.message?]
  have hskipped : (r.take (some (.closed, r.next))).skipped = r.skipped := by
    simp [take, skipped, Reception.skipped]
  refine ⟨h.joined_le, h.next_le, ?_, ?_, ?_⟩
  · rw [hmessages, hskipped]
    exact h.count
  · rw [hmessages]
    exact h.sub
  · rw [hmessages]
    exact h.recent

theorem Faithful.recv (h : r.Faithful capacity sent) (closed : Bool) :
    (r.take (r.recv capacity sent closed)).Faithful capacity sent := by
  unfold Receiver.recv
  split
  · rename_i hlagged
    exact h.take_lagged hlagged
  · rename_i hretained
    split
    · rename_i a ha
      exact h.take_message hretained ha
    · split
      · exact h.take_closed
      · exact h

/-- A receiver that missed nothing has got all that was sent since it subscribed, up to where
it is. -/
theorem Faithful.messages_eq (h : r.Faithful capacity sent) (hskipped : r.skipped = 0) :
    r.messages = (sent.take r.next).drop r.joined := by
  apply h.sub.eq_of_length
  have hcount := h.count
  have hle := h.next_le
  rw [List.length_drop, List.length_take]
  omega

theorem Faithful.mem_sent (h : r.Faithful capacity sent) {a : A} (ha : a ∈ r.messages) :
    a ∈ sent :=
  List.mem_of_mem_take (List.mem_of_mem_drop (h.sub.subset ha))

theorem Faithful.countP_le (h : r.Faithful capacity sent) (p : A → Bool) :
    r.messages.countP p ≤ sent.countP p :=
  (h.sub.trans ((List.drop_sublist _ _).trans (List.take_sublist _ _))).countP_le

/-- Once it has caught up, the last messages it got are the last ones sent. -/
theorem Faithful.drained_recent (h : r.Faithful capacity sent) (hdrained : r.Drained sent) :
    sent.drop (r.oldest capacity sent) <:+ r.messages := by
  have hrecent := h.recent
  rw [hdrained, List.take_length] at hrecent
  exact hrecent

/-! ## A loop that ends at the first error -/

@[simp] theorem subscribe_unbroken (sent : List A) : (subscribe sent).unbroken = [] := rfl

theorem takeWhile_of_broken (h : r.Broken) (more : List (Reception A)) :
    (r.taken ++ more).takeWhile Reception.isMessage = r.taken.takeWhile Reception.isMessage := by
  obtain ⟨reception, hmem, hbreak⟩ := h
  have hne : r.taken.takeWhile Reception.isMessage ≠ r.taken := by
    intro heq
    have hall := List.takeWhile_eq_self_iff.mp heq reception hmem
    rw [hbreak] at hall
    cases hall
  rw [List.takeWhile_append, if_neg]
  intro hlength
  exact hne ((List.takeWhile_prefix _).eq_of_length hlength)

theorem unbroken_of_not_broken (h : ¬ r.Broken) : r.unbroken = r.messages := by
  have hall : r.taken.takeWhile Reception.isMessage = r.taken := by
    rw [List.takeWhile_eq_self_iff]
    intro reception hmem
    by_contra hbreak
    exact h ⟨reception, hmem, by simpa using hbreak⟩
  rw [unbroken, messages, hall]

theorem skipped_of_not_broken (h : ¬ r.Broken) : r.skipped = 0 := by
  rw [skipped, List.sum_eq_zero_iff_forall_eq_nat]
  intro n hn
  obtain ⟨reception, hmem, rfl⟩ := List.mem_map.mp hn
  cases reception with
  | lagged skipped => exact absurd ⟨_, hmem, rfl⟩ h
  | message a => rfl
  | closed => rfl

/-- Once the loop has ended, nothing it could be given changes what it got. -/
theorem take_unbroken_of_broken (h : r.Broken) (reception : Option (Reception A × Nat)) :
    (r.take reception).Broken ∧ (r.take reception).unbroken = r.unbroken := by
  cases reception with
  | none => exact ⟨h, rfl⟩
  | some taken =>
    refine ⟨?_, ?_⟩
    · obtain ⟨broken, hmem, hbreak⟩ := h
      exact ⟨broken, List.mem_append_left _ hmem, hbreak⟩
    · rw [unbroken, unbroken]
      exact congrArg _ (takeWhile_of_broken h [taken.1])

/-- The loop gets what was sent since the subscription, without a gap, up to where it ends. -/
theorem Faithful.take_unbroken {reception : Reception A} {next : Nat}
    (h : (r.take (some (reception, next))).Faithful capacity sent)
    (hpre : r.unbroken <+: sent.drop r.joined) :
    (r.take (some (reception, next))).unbroken <+: sent.drop r.joined := by
  by_cases hbroken : (r.take (some (reception, next))).Broken
  · by_cases hbefore : r.Broken
    · rw [(take_unbroken_of_broken hbefore _).2]
      exact hpre
    · -- the error ends the loop here
      have hbreak : reception.isMessage = false := by
        obtain ⟨broken, hmem, hbreak⟩ := hbroken
        rcases List.mem_append.mp hmem with hmem | hmem
        · exact absurd ⟨broken, hmem, hbreak⟩ hbefore
        · rw [List.mem_singleton.mp hmem] at hbreak
          exact hbreak
      have hsame : (r.take (some (reception, next))).unbroken = r.unbroken := by
        simp only [unbroken, take, List.takeWhile_append]
        split
        · rename_i hlength
          rw [(List.takeWhile_prefix _).eq_of_length hlength]
          simp [hbreak]
        · rfl
      rw [hsame]
      exact hpre
  · rw [unbroken_of_not_broken hbroken, h.messages_eq (skipped_of_not_broken hbroken)]
    exact (List.take_prefix _ _).drop _

/-! ## The last message of a kind -/

/-- The last value that `f` finds in a list. -/
def lastOf (f : A → Option B) (l : List A) : Option B := (l.filterMap f).getLast?

theorem lastOf_of_suffix {f : A → Option B} {l m : List A} (h : l <:+ m)
    (hsome : (lastOf f l).isSome) : lastOf f m = lastOf f l := by
  obtain ⟨older, rfl⟩ := h
  obtain ⟨b, hb⟩ := Option.isSome_iff_exists.mp hsome
  rw [lastOf, List.filterMap_append, List.getLast?_append]
  unfold lastOf at hb ⊢
  rw [hb]
  rfl

/-- Something of the kind was sent that a receiver can have missed only by lagging: the
receiver never lagged, or it is among the messages retained. -/
def Within (f : A → Option B) (capacity : Nat) (sent : List A) (r : Receiver A) : Prop :=
  (r.skipped = 0 ∧ (lastOf f (sent.drop r.joined)).isSome) ∨
    (lastOf f (sent.drop (r.oldest capacity sent))).isSome

/-- Receivers that have caught up agree on the last message of a kind with the sender, whatever
they missed before it. -/
theorem Faithful.lastOf_eq (h : r.Faithful capacity sent) (hdrained : r.Drained sent)
    {f : A → Option B} (hwithin : r.Within f capacity sent) :
    lastOf f r.messages = lastOf f sent := by
  rcases hwithin with ⟨hskipped, hsome⟩ | hsome
  · have hmessages := h.messages_eq hskipped
    rw [hdrained, List.take_length] at hmessages
    rw [hmessages]
    exact (lastOf_of_suffix (List.drop_suffix _ _) hsome).symm
  · rw [lastOf_of_suffix (h.drained_recent hdrained) hsome]
    exact (lastOf_of_suffix (List.drop_suffix _ _) hsome).symm

end Receiver

/-! ## Runs -/

namespace Channel
variable [DecidableEq R] {c : Channel R A}

def Faithful (c : Channel R A) : Prop := ∀ r, (c.receiver r).Faithful c.capacity c.sent

omit [DecidableEq R] in
theorem start_faithful (capacity : Nat) : (start capacity : Channel R A).Faithful := by
  intro r
  exact Receiver.subscribe_faithful capacity []

theorem Faithful.step (h : c.Faithful) (event : Event R A) : (c.step event).Faithful := by
  cases event with
  | send a =>
    simp only [Channel.step]
    split
    · exact h
    · exact fun r => (h r).send a
  | subscribe r =>
    intro i
    by_cases hi : i = r
    · subst hi
      simpa [Channel.step] using Receiver.subscribe_faithful c.capacity c.sent
    · simpa [Channel.step, hi] using h i
  | recv r =>
    intro i
    by_cases hi : i = r
    · subst hi
      simpa [Channel.step, Channel.recv] using (h i).recv c.closed
    · simpa [Channel.step, hi] using h i
  | close => exact h

theorem faithful_run (capacity : Nat) (events : List (Event R A)) :
    (Runs.run step (start capacity : Channel R A) events).Faithful :=
  Runs.invariant (fun _ event hc => hc.step event) (start_faithful capacity) events

/-- Every loop that ends at the first error got a gapless piece of what was sent. -/
def Unbroken (c : Channel R A) : Prop :=
  ∀ r, (c.receiver r).unbroken <+: c.sent.drop (c.receiver r).joined

theorem Unbroken.step (h : c.Faithful) (hunbroken : c.Unbroken) (event : Event R A) :
    (c.step event).Unbroken := by
  cases event with
  | send a =>
    simp only [Channel.step]
    split
    · exact hunbroken
    · intro r
      have hle := (h r).joined_le.trans (h r).next_le
      simp only [List.drop_append_of_le_length hle]
      exact (hunbroken r).trans (List.prefix_append _ _)
  | subscribe r =>
    intro i
    by_cases hi : i = r
    · subst hi
      simp [Channel.step]
    · simpa [Channel.step, hi] using hunbroken i
  | recv r =>
    intro i
    by_cases hi : i = r
    · subst hi
      have hnext := h.step (.recv i) i
      simp only [Channel.step, Function.update_self] at hnext ⊢
      cases hrecv : c.recv i with
      | none => exact hunbroken i
      | some taken =>
        rw [hrecv] at hnext
        exact hnext.take_unbroken (hunbroken i)
    · simpa [Channel.step, hi] using hunbroken i
  | close => exact hunbroken

theorem unbroken_run (capacity : Nat) (events : List (Event R A)) :
    (Runs.run step (start capacity : Channel R A) events).Unbroken := by
  have hboth : (Runs.run step (start capacity : Channel R A) events).Faithful ∧
      (Runs.run step (start capacity : Channel R A) events).Unbroken := by
    have hstep : ∀ (c : Channel R A) event, c.Faithful ∧ c.Unbroken →
        (c.step event).Faithful ∧ (c.step event).Unbroken :=
      fun c event hc => ⟨hc.1.step event, hc.2.step hc.1 event⟩
    exact Runs.invariant hstep ⟨start_faithful capacity, fun r => List.nil_prefix⟩ events
  exact hboth.2

/-- A loop that has ended gets nothing more unless it is started again. -/
theorem broken_run {r : R} (h : (c.receiver r).Broken) {events : List (Event R A)}
    (hevents : .subscribe r ∉ events) :
    ((Runs.run step c events).receiver r).unbroken = (c.receiver r).unbroken := by
  induction events generalizing c with
  | nil => rfl
  | cons event events ih =>
    have hstep : ((c.step event).receiver r).Broken ∧
        ((c.step event).receiver r).unbroken = (c.receiver r).unbroken := by
      cases event with
      | send a =>
        simp only [step]
        split
        · exact ⟨h, rfl⟩
        · exact ⟨h, rfl⟩
      | subscribe i =>
        have hi : r ≠ i := by
          intro heq
          exact hevents (heq ▸ List.mem_cons_self)
        simpa [step, hi] using h
      | recv i =>
        by_cases hi : r = i
        · subst hi
          simpa [step] using Receiver.take_unbroken_of_broken h (c.recv r)
        · simpa [step, hi] using h
      | close => exact ⟨h, rfl⟩
    rw [Runs.run_cons, ih hstep.1 (fun hmem => hevents (List.mem_cons_of_mem _ hmem)), hstep.2]

end Channel

/-! ## Loops with a history of what they handled -/

section Loops
variable {S E : Type} [DecidableEq R] {handled : R → List E}

theorem after_update {step : S → E → S} {init state : R → S}
    (h : ∀ r, state r = Runs.run step (init r) (handled r)) (r : R) (e : E) (i : R) :
    Function.update state r (step (state r) e) i =
      Runs.run step (init i) (Function.update handled r (handled r ++ [e]) i) := by
  by_cases hi : i = r
  · subst hi
    rw [Function.update_self, Function.update_self, Runs.run_concat, h i]
  · rw [Function.update_of_ne hi, Function.update_of_ne hi]
    exact h i

theorem after_restart {step : S → E → S} {init state : R → S}
    (h : ∀ r, state r = Runs.run step (init r) (handled r)) (r i : R) :
    Function.update state r (init r) i =
      Runs.run step (init i) (Function.update handled r [] i) := by
  by_cases hi : i = r
  · subst hi
    rw [Function.update_self, Function.update_self, Runs.run_nil]
  · rw [Function.update_of_ne hi, Function.update_of_ne hi]
    exact h i

namespace Channel

/-- What `f` finds in the history of a loop are the messages its receiver got. -/
def Received (f : E → Option A) (c : Channel R A) (handled : R → List E) : Prop :=
  ∀ r, (handled r).filterMap f = (c.receiver r).messages

variable {f : E → Option A} {c : Channel R A}

theorem Received.handle (h : c.Received f handled) {e : E} (he : f e = none) (r : R) :
    c.Received f (Function.update handled r (handled r ++ [e])) := by
  intro i
  by_cases hi : i = r
  · subst hi
    rw [Function.update_self, List.filterMap_append, h i, List.filterMap_cons, he]
    exact List.append_nil _
  · rw [Function.update_of_ne hi]
    exact h i

theorem Received.recv (h : c.Received f handled) {r : R} {reception : Reception A} {next : Nat}
    (hrecv : c.recv r = some (reception, next)) {e : E} (he : f e = reception.message?) :
    (c.step (.recv r)).Received f (Function.update handled r (handled r ++ [e])) := by
  intro i
  by_cases hi : i = r
  · subst hi
    simp only [step, Function.update_self, hrecv, Receiver.take, Receiver.messages,
      List.filterMap_append]
    rw [h i, List.filterMap_cons, List.filterMap_cons, he]
    rfl
  · simpa [step, hi] using h i

theorem Received.restart (h : c.Received f handled) (r : R) :
    (c.step (.subscribe r)).Received f (Function.update handled r []) := by
  intro i
  by_cases hi : i = r
  · subst hi
    simp [step]
  · simpa [step, hi] using h i

theorem Received.send (h : c.Received f handled) (a : A) :
    (c.step (.send a)).Received f handled := by
  simp only [step]
  split
  · exact h
  · exact h

end Channel

end Loops

end Broadcast
