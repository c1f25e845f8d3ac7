import AnKi.Consensus
import AnKi.Library.Broadcast

/-!
# consensus.rs: nodes on one vote channel

Every node runs the protocol on a queue of proposals of its own and on one
broadcast channel of votes. It may lag behind the votes, stop, and start again on
a fresh state. The voters are outside of the loops.
-/

namespace AnKi
open Broadcast
set_option autoImplicit false

namespace VoteChannel
open Consensus
variable {V N : Type}

/-- `handled` is the history of what each node's loop dealt with since it was started. -/
structure Cluster (N : Type) where
  votes : Channel N Uuid
  proposals : N → List ConsensusProposal
  protocol : N → Protocol
  handled : N → List Consensus.Event

inductive Event (V N : Type) where
  | start (node : N)
  | submit (node : N) (proposal : ConsensusProposal)
  | recvProposal (node : N)
  | recvVote (node : N)
  | vote (voter : V) (proposalId : Uuid)
  | close
  deriving DecidableEq

def Event.voter? : Event V N → Option V
  | .vote voter _ => some voter
  | _ => none

def Event.choice? : Event V N → Option Uuid
  | .vote _ proposalId => some proposalId
  | _ => none

def incoming : Reception Uuid → Consensus.Event
  | .message proposalId => .vote proposalId
  | .lagged _ | .closed => .failed

def start (capacity : Nat) : Cluster N :=
  ⟨Channel.start capacity, fun _ => [], fun _ => Protocol.start, fun _ => []⟩

section Steps
variable (consensusThreshold : UInt64) [DecidableEq N]

def Cluster.handle (c : Cluster N) (node : N) (event : Consensus.Event) : Cluster N :=
  { c with
    protocol := Function.update c.protocol node
      (runConsensusProtocol consensusThreshold (c.protocol node) event)
    handled := Function.update c.handled node (c.handled node ++ [event]) }

def step (c : Cluster N) : Event V N → Cluster N
  | .start node =>
    ⟨c.votes.step (.subscribe node), Function.update c.proposals node [],
      Function.update c.protocol node Protocol.start, Function.update c.handled node []⟩
  | .submit node proposal =>
    { c with
      proposals := Function.update c.proposals node (c.proposals node ++ [proposal]) }
  | .recvProposal node =>
    match c.proposals node with
    | proposal :: rest =>
      { c.handle consensusThreshold node (.proposal proposal) with
        proposals := Function.update c.proposals node rest }
    | [] => c
  | .recvVote node =>
    match c.votes.recv node with
    | some (reception, _) =>
      { c.handle consensusThreshold node (incoming reception) with
        votes := c.votes.step (.recv node) }
    | none => c
  | .vote _ proposalId => { c with votes := c.votes.step (.send proposalId) }
  | .close => { c with votes := c.votes.step .close }

def after (capacity : Nat) (events : List (Event V N)) : Cluster N :=
  Runs.run (step consensusThreshold) (start capacity) events

end Steps

/-! ## Counts and messages -/

theorem tally_le_count {p : Uuid} {events : List Consensus.Event} {k : Nat}
    (h : tally p events = some k) : k ≤ (votesOf events).count p := by
  induction events using List.reverseRecOn generalizing k with
  | nil => cases h
  | append_singleton events event ih =>
    simp only [tally, Runs.run_concat] at h ih
    rw [votesOf, List.filterMap_append, List.count_append]
    cases event with
    | proposal proposal =>
      simp only [tallyStep] at h
      split at h
      · obtain rfl := Option.some.inj h
        exact Nat.zero_le _
      · exact (ih h).trans (Nat.le_add_right _ _)
    | vote proposalId =>
      simp only [tallyStep] at h
      by_cases hid : proposalId = p
      · simp only [hid, if_true, Option.map_eq_some_iff] at h
        obtain ⟨before, hbefore, rfl⟩ := h
        have hle := ih hbefore
        have hone : (List.filterMap Consensus.Event.vote? [.vote proposalId]).count p = 1 := by
          rw [hid]
          exact List.count_cons_self
        rw [hone]
        exact Nat.add_le_add_right hle 1
      · simp only [hid, if_false] at h
        exact (ih h).trans (Nat.le_add_right _ _)
    | failed => exact (ih h).trans (Nat.le_add_right _ _)

/-- A consensus is reported on as many votes as the threshold asks for. -/
theorem reached_le_count {consensusThreshold : UInt64} {p : Uuid} {events : List Consensus.Event}
    (h : p ∈ (Consensus.after consensusThreshold events).reached) :
    consensusThreshold.toNat ≤ (votesOf events).count p := by
  induction events using List.reverseRecOn with
  | nil => cases h
  | append_singleton events event ih =>
    have hgrows : (votesOf events).count p ≤ (votesOf (events ++ [event])).count p := by
      rw [votesOf, votesOf, List.filterMap_append, List.count_append]
      exact Nat.le_add_right _ _
    by_cases hbefore : p ∈ (Consensus.after consensusThreshold events).reached
    · exact (ih hbefore).trans hgrows
    · have hafter := hasConsensus_iff consensusThreshold (events ++ [event]) p consensusThreshold
      rw [Consensus.after, Runs.run_concat] at h hafter
      rw [Consensus.after] at hbefore
      cases event with
      | proposal proposal => exact absurd h hbefore
      | failed => exact absurd h hbefore
      | vote proposalId =>
        rw [runConsensusProtocol_vote] at hafter
        simp only [runConsensusProtocol] at h
        split at h
        · rename_i hconsensus
          -- the vote just counted is the one that reported
          rcases List.mem_append.mp h with h | h
          · exact absurd h hbefore
          · obtain rfl := List.mem_singleton.mp h
            obtain ⟨k, htally, hle⟩ := hafter.mp hconsensus
            exact (hle.trans (Nat.mod_le _ _)).trans (tally_le_count htally)
        · exact absurd h hbefore

theorem incoming_vote? (reception : Reception Uuid) :
    (incoming reception).vote? = reception.message? := by
  cases reception <;> rfl

/-! ## What a node has handled came over the channel -/

variable [DecidableEq N] {consensusThreshold : UInt64}

structure Consistent (consensusThreshold : UInt64) (c : Cluster N) : Prop where
  faithful : c.votes.Faithful
  protocol : ∀ node, c.protocol node = Consensus.after consensusThreshold (c.handled node)
  received : ∀ node, votesOf (c.handled node) = (c.votes.receiver node).messages

omit [DecidableEq N] in
theorem start_consistent (consensusThreshold : UInt64) (capacity : Nat) :
    Consistent consensusThreshold (start capacity : Cluster N) :=
  ⟨Channel.start_faithful capacity, fun _ => rfl, fun _ => rfl⟩

theorem Consistent.step {c : Cluster N} (h : Consistent consensusThreshold c)
    (event : Event V N) : Consistent consensusThreshold (step consensusThreshold c event) := by
  have hreceived : c.votes.Received Consensus.Event.vote? c.handled := h.received
  cases event with
  | start node =>
    exact ⟨h.faithful.step _, after_restart h.protocol node, hreceived.restart node⟩
  | submit node proposal => exact ⟨h.faithful, h.protocol, hreceived⟩
  | recvProposal node =>
    simp only [VoteChannel.step]
    split
    · rename_i proposal rest hqueue
      exact ⟨h.faithful, after_update h.protocol node (.proposal proposal),
        hreceived.handle rfl node⟩
    · exact h
  | recvVote node =>
    cases hrecv : c.votes.recv node with
    | none => simpa [VoteChannel.step, hrecv] using h
    | some taken =>
      obtain ⟨reception, next⟩ := taken
      simp only [VoteChannel.step, hrecv]
      exact ⟨h.faithful.step _, after_update h.protocol node (incoming reception),
        hreceived.recv hrecv (incoming_vote? reception)⟩
  | vote voter proposalId => exact ⟨h.faithful.step _, h.protocol, hreceived.send proposalId⟩
  | close => exact ⟨h.faithful.step _, h.protocol, hreceived⟩

theorem after_consistent (consensusThreshold : UInt64) (capacity : Nat)
    (events : List (Event V N)) :
    Consistent consensusThreshold (after consensusThreshold capacity events) :=
  Runs.invariant (fun _ event h => h.step event) (start_consistent consensusThreshold capacity)
    events

theorem sent_sublist (consensusThreshold : UInt64) (capacity : Nat) (events : List (Event V N)) :
    (after consensusThreshold capacity events).votes.sent.Sublist
      (events.filterMap Event.choice?) := by
  induction events using List.reverseRecOn with
  | nil => exact List.nil_sublist _
  | append_singleton events event ih =>
    rw [after] at ih
    rw [after, Runs.run_concat, List.filterMap_append]
    have hkept := ih.trans (List.sublist_append_left _ (List.filterMap Event.choice? [event]))
    cases event with
    | start | submit | close => exact hkept
    | recvProposal node =>
      simp only [step]
      split
      · exact hkept
      · exact hkept
    | recvVote node =>
      simp only [step]
      split
      · exact hkept
      · exact hkept
    | vote voter proposalId =>
      simp only [step, Channel.step]
      split
      · exact hkept
      · exact ih.append (List.Sublist.refl _)

/-- The votes that a report stands for were cast. -/
theorem reached_cast {capacity : Nat} {past events : List (Event V N)} (hpast : past <+: events)
    {node : N} {p : Uuid}
    (h : p ∈ ((after consensusThreshold capacity past).protocol node).reached) :
    consensusThreshold.toNat ≤ (events.filterMap Event.choice?).count p := by
  have hconsistent := after_consistent consensusThreshold capacity past
  rw [hconsistent.protocol node] at h
  calc consensusThreshold.toNat
      ≤ ((after consensusThreshold capacity past).votes.receiver node).messages.count p := by
        rw [← hconsistent.received node]
        exact reached_le_count h
    _ ≤ (after consensusThreshold capacity past).votes.sent.count p :=
        (hconsistent.faithful node).countP_le _
    _ ≤ (past.filterMap Event.choice?).count p :=
        (sent_sublist consensusThreshold capacity past).count_le p
    _ ≤ (events.filterMap Event.choice?).count p :=
        (hpast.filterMap Event.choice?).sublist.count_le p

omit [DecidableEq N] in
theorem length_choices (events : List (Event V N)) :
    (events.filterMap Event.choice?).length = (events.filterMap Event.voter?).length := by
  induction events with
  | nil => rfl
  | cons event events ih =>
    cases event with
    | vote voter proposalId => exact congrArg (· + 1) ih
    | start | submit | recvProposal | recvVote | close => exact ih

/-- However the nodes lag and whenever they are restarted: where every voter votes at most once
and the threshold is above half of the voters, no two reports are for different proposals. -/
theorem reports_agree [Fintype V] {consensusThreshold : UInt64}
    (hthreshold : Fintype.card V < 2 * consensusThreshold.toNat) (capacity : Nat)
    {past past' events : List (Event V N)} (hvoters : (events.filterMap Event.voter?).Nodup)
    (hpast : past <+: events) (hpast' : past' <+: events) {node node' : N} {p q : Uuid}
    (hp : p ∈ ((after consensusThreshold capacity past).protocol node).reached)
    (hq : q ∈ ((after consensusThreshold capacity past').protocol node').reached) : p = q := by
  by_contra hne
  have hcast := reached_cast hpast hp
  have hcast' := reached_cast hpast' hq
  have hboth := Ballots.count_add_count_le hne (events.filterMap Event.choice?)
  have hcard := hvoters.length_le_card
  rw [length_choices] at hboth
  omega

/-- Three of five voters are for one proposal. The second node lags, so it loses the vote for its
rival. -/
def fiveVoters : List (Event (Fin 5) Bool) :=
  [.submit true ⟨7, "x", 9⟩, .submit true ⟨8, "y", 9⟩, .submit false ⟨7, "x", 9⟩,
    .submit false ⟨8, "y", 9⟩, .recvProposal true, .recvProposal true, .recvProposal false,
    .recvProposal false, .vote 4 8, .recvVote true, .vote 0 7, .recvVote true, .vote 1 7,
    .recvVote true, .vote 3 7, .recvVote true, .recvVote false, .recvVote false, .recvVote false,
    .recvVote false]

theorem reports_agree_fiveVoters :
    (∃ p q, p ∈ ((after 3 3 (fiveVoters.take 16)).protocol true).reached ∧
        q ∈ ((after 3 3 fiveVoters).protocol false).reached ∧ p = q) ∧
      8 ∉ ((after 3 3 fiveVoters).protocol false).reached := by
  have hfirst : 7 ∈ ((after 3 3 (fiveVoters.take 16)).protocol true).reached := by decide
  have hsecond : 7 ∈ ((after 3 3 fiveVoters).protocol false).reached := by decide
  refine ⟨⟨7, 7, hfirst, hsecond, ?_⟩, ?_⟩
  · exact reports_agree (by decide) 3 (by decide) (List.take_prefix 16 _) (List.prefix_refl _)
      hfirst hsecond
  · intro hrival
    have heq : (7 : Uuid) = 8 := reports_agree (by decide) 3 (by decide) (List.take_prefix 16 _)
      (List.prefix_refl _) hfirst hrival
    exact absurd heq (by decide)

end VoteChannel

end AnKi
