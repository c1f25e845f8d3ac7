import AnKi.Library.Ballots
import AnKi.Library.Runs
import AnKi.Wire

/-!
# consensus.rs: proposals, votes and the protocol loop

A vote for a proposal that is not stored is logged and dropped, and storing a
proposal again starts its count anew. The counters are `usize`, so they wrap.
The loop takes proposals and votes as `select!` yields them.
-/

namespace AnKi
set_option autoImplicit false

structure ConsensusProposal where
  proposalId : Uuid
  content : String
  proposerId : Uuid
  deriving DecidableEq

structure ConsensusState where
  proposals : HashMap Uuid ConsensusProposal
  votes : HashMap Uuid UInt64
  deriving DecidableEq

namespace ConsensusState

def new : ConsensusState := ⟨∅, ∅⟩

/-- The first update of `add_proposal`. -/
def storeProposal (proposal : ConsensusProposal) (self : ConsensusState) : ConsensusState :=
  { self with proposals := self.proposals.insert proposal.proposalId proposal }

def startCount (proposalId : Uuid) (self : ConsensusState) : ConsensusState :=
  { self with votes := self.votes.insert proposalId 0 }

def addProposal (proposal : ConsensusProposal) (self : ConsensusState) : ConsensusState :=
  (self.storeProposal proposal).startCount proposal.proposalId

def castVote (proposalId : Uuid) (self : ConsensusState) : ConsensusState :=
  { self with votes := self.votes.modify proposalId (· + 1) }

def hasConsensus (proposalId : Uuid) (threshold : UInt64) (self : ConsensusState) : Bool :=
  match self.votes.get proposalId with
  | some voteCount => voteCount ≥ threshold
  | none => false

def votesFor (proposalId : Uuid) (self : ConsensusState) : Nat :=
  (self.votes.get proposalId).elim 0 UInt64.toNat

@[simp] theorem new_votes : new.votes = ∅ := rfl

@[simp] theorem storeProposal_votes (proposal : ConsensusProposal) (self : ConsensusState) :
    (self.storeProposal proposal).votes = self.votes := rfl

@[simp] theorem startCount_votes (proposalId : Uuid) (self : ConsensusState) :
    (self.startCount proposalId).votes = self.votes.insert proposalId 0 := rfl

@[simp] theorem addProposal_votes (proposal : ConsensusProposal) (self : ConsensusState) :
    (self.addProposal proposal).votes = self.votes.insert proposal.proposalId 0 := rfl

@[simp] theorem castVote_votes (proposalId : Uuid) (self : ConsensusState) :
    (self.castVote proposalId).votes = self.votes.modify proposalId (· + 1) := rfl

theorem votesFor_lt (p : Uuid) (s : ConsensusState) : s.votesFor p < 2 ^ 64 := by
  unfold votesFor
  cases s.votes.get p with
  | none => simp
  | some count => exact count.toNat_lt

theorem votesFor_castVote {s : ConsensusState} {p : Uuid} (h : (s.votes.get p).isSome) :
    (s.castVote p).votesFor p = (s.votesFor p + 1) % 2 ^ 64 := by
  obtain ⟨count, hcount⟩ := Option.isSome_iff_exists.mp h
  simp [votesFor, HashMap.get_modify, hcount, UInt64.toNat_add]

theorem hasConsensus_iff_votesFor {s : ConsensusState} {p : Uuid} {t : UInt64} (ht : t ≠ 0) :
    s.hasConsensus p t = true ↔ t.toNat ≤ s.votesFor p := by
  have hpos : t.toNat ≠ 0 := fun h => ht (UInt64.toNat_inj.mp h)
  unfold hasConsensus votesFor
  cases s.votes.get p with
  | none =>
    simp only [Option.elim_none, Nat.le_zero, hpos, iff_false]
    decide
  | some count => simp [UInt64.le_iff_toNat_le]

theorem votes_eq_iff {s s' : ConsensusState} :
    s.votes = s'.votes ↔ ∀ p t, s.hasConsensus p t = s'.hasConsensus p t := by
  constructor
  · intro h p t
    simp only [hasConsensus, h]
  · intro h
    apply HashMap.ext
    intro p
    simp only [hasConsensus] at h
    cases hs : s.votes.get p with
    | none =>
      cases hs' : s'.votes.get p with
      | none => rfl
      | some count' => simpa [hs, hs'] using h p 0
    | some count =>
      cases hs' : s'.votes.get p with
      | none => simpa [hs, hs'] using h p 0
      | some count' =>
        have hle := h p count
        have hge := h p count'
        simp only [hs, hs', ge_iff_le, UInt64.le_refl, decide_true] at hle hge
        have hle' : count ≤ count' := of_decide_eq_true hle.symm
        have hge' : count' ≤ count := of_decide_eq_true hge
        rw [UInt64.le_antisymm hle' hge']

end ConsensusState

namespace Consensus
open ConsensusState

inductive Event where
  | proposal (proposal : ConsensusProposal)
  | vote (proposalId : Uuid)
  | failed
  deriving DecidableEq

/-- The shared state and the proposals for which consensus was handled, in order. -/
structure Protocol where
  consensusState : ConsensusState
  reached : List Uuid
  deriving DecidableEq

def Protocol.start : Protocol := ⟨ConsensusState.new, []⟩

def runConsensusProtocol (consensusThreshold : UInt64) (s : Protocol) : Event → Protocol
  | .proposal proposal => { s with consensusState := s.consensusState.addProposal proposal }
  | .vote proposalId =>
    let consensusState := s.consensusState.castVote proposalId
    if consensusState.hasConsensus proposalId consensusThreshold then
      ⟨consensusState, s.reached ++ [proposalId]⟩
    else { s with consensusState := consensusState }
  -- a receive error is logged
  | .failed => s

@[simp] theorem runConsensusProtocol_vote (consensusThreshold : UInt64) (s : Protocol)
    (proposalId : Uuid) :
    (runConsensusProtocol consensusThreshold s (.vote proposalId)).consensusState =
      s.consensusState.castVote proposalId := by
  simp only [runConsensusProtocol]
  split <;> rfl

def after (consensusThreshold : UInt64) (events : List Event) : Protocol :=
  Runs.run (runConsensusProtocol consensusThreshold) Protocol.start events

/-! ## Tallies -/

/-- The votes for `p` since `p` was last stored, if it was. -/
def tallyStep (p : Uuid) (tally : Option Nat) : Event → Option Nat
  | .proposal proposal => if proposal.proposalId = p then some 0 else tally
  | .vote proposalId => if proposalId = p then tally.map (· + 1) else tally
  | .failed => tally

def tally (p : Uuid) (events : List Event) : Option Nat := Runs.run (tallyStep p) none events

/-- The votes map is the tallies, as far as `usize` can count. -/
def Counts (p : Uuid) (s : Protocol) (tally : Option Nat) : Prop :=
  s.consensusState.votes.get p = tally.map UInt64.ofNat

theorem Counts.step {p : Uuid} {s : Protocol} {tally : Option Nat} (h : Counts p s tally)
    (consensusThreshold : UInt64) (event : Event) :
    Counts p (runConsensusProtocol consensusThreshold s event) (tallyStep p tally event) := by
  unfold Counts at h ⊢
  cases event with
  | proposal proposal =>
    simp only [runConsensusProtocol, tallyStep, addProposal_votes, HashMap.get_insert]
    by_cases hp : proposal.proposalId = p
    · simp [hp]
    · have hne : p ≠ proposal.proposalId := fun he => hp he.symm
      simp [hp, hne, h]
  | vote proposalId =>
    rw [runConsensusProtocol_vote, castVote_votes, HashMap.get_modify, h, tallyStep]
    by_cases hp : proposalId = p
    · simp [hp, Function.comp_def]
    · have hne : p ≠ proposalId := fun he => hp he.symm
      simp [hp, hne]
  | failed => exact h

theorem votes_get (consensusThreshold : UInt64) (events : List Event) (p : Uuid) :
    (after consensusThreshold events).consensusState.votes.get p =
      (tally p events).map UInt64.ofNat :=
  Runs.simulation (R := Counts p) (fun _ _ event h => h.step consensusThreshold event)
    (by simp [Counts, Protocol.start]) events

theorem hasConsensus_iff (consensusThreshold : UInt64) (events : List Event) (p : Uuid)
    (t : UInt64) : (after consensusThreshold events).consensusState.hasConsensus p t = true ↔
      ∃ k, tally p events = some k ∧ t.toNat ≤ k % 2 ^ 64 := by
  rw [hasConsensus, votes_get]
  cases tally p events with
  | none => simp
  | some k => simp [UInt64.le_iff_toNat_le]

/-! ## The order of delivery -/

def Event.proposal? : Event → Option ConsensusProposal
  | .proposal received => some received
  | _ => none

def Event.vote? : Event → Option Uuid
  | .vote proposalId => some proposalId
  | _ => none

def proposalsOf (events : List Event) : List ConsensusProposal := events.filterMap Event.proposal?

def votesOf (events : List Event) : List Uuid := events.filterMap Event.vote?

section Streams
variable (proposal : ConsensusProposal) (proposalId : Uuid) (events : List Event)

@[simp] theorem proposalsOf_proposal :
    proposalsOf (.proposal proposal :: events) = proposal :: proposalsOf events := rfl

@[simp] theorem proposalsOf_vote : proposalsOf (.vote proposalId :: events) = proposalsOf events :=
  rfl

@[simp] theorem proposalsOf_failed : proposalsOf (.failed :: events) = proposalsOf events := rfl

@[simp] theorem votesOf_proposal : votesOf (.proposal proposal :: events) = votesOf events := rfl

@[simp] theorem votesOf_vote :
    votesOf (.vote proposalId :: events) = proposalId :: votesOf events := rfl

@[simp] theorem votesOf_failed : votesOf (.failed :: events) = votesOf events := rfl

end Streams

structure Interleaving (proposals : List ConsensusProposal) (votes : List Uuid)
    (events : List Event) : Prop where
  proposals : proposalsOf events = proposals
  votes : votesOf events = votes

def Proposed (p : Uuid) (proposals : List ConsensusProposal) : Prop :=
  ∃ proposal ∈ proposals, proposal.proposalId = p

/-- The votes for `p` handled before `p` was stored. -/
def droppedVotes (p : Uuid) : List Event → Nat
  | [] => 0
  | .proposal proposal :: events => if proposal.proposalId = p then 0 else droppedVotes p events
  | .vote proposalId :: events => droppedVotes p events + if proposalId = p then 1 else 0
  | .failed :: events => droppedVotes p events

theorem tally_of_not_proposed {p : Uuid} {events : List Event}
    (h : ¬ Proposed p (proposalsOf events)) : tally p events = none := by
  unfold tally
  induction events with
  | nil => rfl
  | cons event events ih =>
    cases event with
    | proposal proposal =>
      simp only [Proposed, proposalsOf_proposal, List.exists_mem_cons_iff, not_or] at h
      simpa [tallyStep, h.1] using ih h.2
    | vote proposalId =>
      rw [proposalsOf_vote] at h
      simpa [tallyStep] using ih h
    | failed =>
      rw [proposalsOf_failed] at h
      exact ih h

theorem run_tally_some {p : Uuid} {events : List Event}
    (h : ¬ Proposed p (proposalsOf events)) (k : Nat) :
    Runs.run (tallyStep p) (some k) events = some (k + (votesOf events).count p) := by
  induction events generalizing k with
  | nil => rfl
  | cons event events ih =>
    cases event with
    | proposal proposal =>
      simp only [Proposed, proposalsOf_proposal, List.exists_mem_cons_iff, not_or] at h
      simpa [tallyStep, h.1] using ih h.2 k
    | vote proposalId =>
      rw [proposalsOf_vote] at h
      by_cases hp : proposalId = p
      · have hrun := ih h (k + 1)
        simp only [Runs.run_cons, tallyStep, hp, if_true, Option.map_some, hrun, votesOf_vote,
          List.count_cons_self, Option.some.injEq]
        omega
      · simpa [tallyStep, hp] using ih h k
    | failed =>
      rw [proposalsOf_failed] at h
      exact ih h k

/-- Of the votes for a proposal that arrives once, exactly those before it are missing. -/
theorem tally_add_droppedVotes {p : Uuid} {events : List Event}
    (hnodup : ((proposalsOf events).map ConsensusProposal.proposalId).Nodup)
    (hp : Proposed p (proposalsOf events)) :
    ∃ k, tally p events = some k ∧ k + droppedVotes p events = (votesOf events).count p := by
  unfold tally
  induction events with
  | nil => simp [Proposed, proposalsOf] at hp
  | cons event events ih =>
    cases event with
    | proposal proposal =>
      simp only [proposalsOf_proposal, List.map_cons, List.nodup_cons] at hnodup
      by_cases hid : proposal.proposalId = p
      · have hrest : ¬ Proposed p (proposalsOf events) := by
          intro hproposed
          rcases hproposed with ⟨again, hmem, hagain⟩
          apply hnodup.1
          rw [hid, ← hagain]
          exact List.mem_map_of_mem hmem
        refine ⟨(votesOf events).count p, ?_, ?_⟩
        · simpa [tallyStep, hid] using run_tally_some hrest 0
        · simp [droppedVotes, hid]
      · simp only [Proposed, proposalsOf_proposal, List.exists_mem_cons_iff, hid, false_or] at hp
        simpa [tallyStep, droppedVotes, hid] using ih hnodup.2 hp
    | vote proposalId =>
      rw [proposalsOf_vote] at hnodup hp
      obtain ⟨k, htally, hcount⟩ := ih hnodup hp
      refine ⟨k, by simpa [tallyStep] using htally, ?_⟩
      by_cases hid : proposalId = p
      · simp only [droppedVotes, hid, if_true, votesOf_vote, List.count_cons_self]
        omega
      · simpa [droppedVotes, hid] using hcount
    | failed =>
      rw [proposalsOf_failed] at hnodup hp
      exact ih hnodup hp

section TwoNodes
variable {proposals : List ConsensusProposal} {votes : List Uuid} {events events' : List Event}

theorem Interleaving.tally_add (h : Interleaving proposals votes events)
    (hnodup : (proposals.map ConsensusProposal.proposalId).Nodup) {p : Uuid}
    (hp : Proposed p proposals) :
    ∃ k, tally p events = some k ∧ k + droppedVotes p events = votes.count p := by
  obtain ⟨rfl, rfl⟩ := h
  exact tally_add_droppedVotes hnodup hp

theorem Interleaving.votes_get_of_not_proposed (h : Interleaving proposals votes events) {p : Uuid}
    (hp : ¬ Proposed p proposals) (consensusThreshold : UInt64) :
    (after consensusThreshold events).consensusState.votes.get p = none := by
  obtain ⟨rfl, rfl⟩ := h
  rw [votes_get, tally_of_not_proposed hp]
  rfl

theorem Interleaving.votes_get_eq_iff (h : Interleaving proposals votes events)
    (h' : Interleaving proposals votes events')
    (hnodup : (proposals.map ConsensusProposal.proposalId).Nodup) {p : Uuid}
    (hp : Proposed p proposals) (t t' : UInt64) :
    (after t events).consensusState.votes.get p = (after t' events').consensusState.votes.get p ↔
      droppedVotes p events % 2 ^ 64 = droppedVotes p events' % 2 ^ 64 := by
  obtain ⟨k, htally, hcount⟩ := h.tally_add hnodup hp
  obtain ⟨k', htally', hcount'⟩ := h'.tally_add hnodup hp
  rw [votes_get, votes_get, htally, htally']
  simp only [Option.map_some, Option.some.injEq, ← UInt64.toNat_inj, UInt64.toNat_ofNat']
  omega

theorem Interleaving.votes_eq_iff (h : Interleaving proposals votes events)
    (h' : Interleaving proposals votes events')
    (hnodup : (proposals.map ConsensusProposal.proposalId).Nodup) (t t' : UInt64) :
    (after t events).consensusState.votes = (after t' events').consensusState.votes ↔
      ∀ proposal ∈ proposals, droppedVotes proposal.proposalId events % 2 ^ 64 =
        droppedVotes proposal.proposalId events' % 2 ^ 64 := by
  constructor
  · intro heq proposal hmem
    apply (h.votes_get_eq_iff h' hnodup ⟨proposal, hmem, rfl⟩ t t').mp
    rw [heq]
  · intro hdropped
    apply HashMap.ext
    intro p
    by_cases hp : Proposed p proposals
    · apply (h.votes_get_eq_iff h' hnodup hp t t').mpr
      obtain ⟨proposal, hmem, rfl⟩ := hp
      exact hdropped proposal hmem
    · rw [h.votes_get_of_not_proposed hp, h'.votes_get_of_not_proposed hp]

/-- Two nodes that receive the same streams agree on every verdict, and on the votes, exactly when
they dropped equally many votes of each proposal. All other votes are counted. -/
theorem agreement_iff_droppedVotes (h : Interleaving proposals votes events)
    (h' : Interleaving proposals votes events')
    (hnodup : (proposals.map ConsensusProposal.proposalId).Nodup) (t t' : UInt64) :
    ((after t events).consensusState.votes = (after t' events').consensusState.votes ↔
        ∀ proposal ∈ proposals, droppedVotes proposal.proposalId events % 2 ^ 64 =
          droppedVotes proposal.proposalId events' % 2 ^ 64) ∧
      ((∀ p threshold, (after t events).consensusState.hasConsensus p threshold =
          (after t' events').consensusState.hasConsensus p threshold) ↔
        ∀ proposal ∈ proposals, droppedVotes proposal.proposalId events % 2 ^ 64 =
          droppedVotes proposal.proposalId events' % 2 ^ 64) ∧
      ∀ proposal ∈ proposals,
        (after t events).consensusState.votes.get proposal.proposalId = some (UInt64.ofNat
          (votes.count proposal.proposalId - droppedVotes proposal.proposalId events)) := by
  refine ⟨h.votes_eq_iff h' hnodup t t', ?_, ?_⟩
  · rw [← ConsensusState.votes_eq_iff]
    exact h.votes_eq_iff h' hnodup t t'
  · intro proposal hmem
    obtain ⟨k, htally, hcount⟩ := h.tally_add hnodup ⟨proposal, hmem, rfl⟩
    rw [votes_get, htally, ← hcount, Nat.add_sub_cancel]
    rfl

end TwoNodes

theorem agreement_of_second_proposal :
    (after 1 [.proposal ⟨7, "x", 9⟩, .vote 7, .proposal ⟨8, "y", 9⟩]).consensusState.votes =
      (after 2 [.proposal ⟨7, "x", 9⟩, .proposal ⟨8, "y", 9⟩, .vote 7]).consensusState.votes := by
  have h : Interleaving [⟨7, "x", 9⟩, ⟨8, "y", 9⟩] [7]
      [.proposal ⟨7, "x", 9⟩, .vote 7, .proposal ⟨8, "y", 9⟩] := ⟨rfl, rfl⟩
  have h' : Interleaving [⟨7, "x", 9⟩, ⟨8, "y", 9⟩] [7]
      [.proposal ⟨7, "x", 9⟩, .proposal ⟨8, "y", 9⟩, .vote 7] := ⟨rfl, rfl⟩
  exact (agreement_iff_droppedVotes h h' (by decide) 1 2).1.mpr (by decide)

def OrderIndependent : Prop :=
  ∀ (proposals : List ConsensusProposal) (votes : List Uuid) (events events' : List Event)
    (t t' : UInt64), (proposals.map ConsensusProposal.proposalId).Nodup →
    Interleaving proposals votes events → Interleaving proposals votes events' →
      (after t events).consensusState.votes = (after t' events').consensusState.votes ∧
      (∀ p threshold, (after t events).consensusState.hasConsensus p threshold =
        (after t' events').consensusState.hasConsensus p threshold) ∧
      ∀ proposal ∈ proposals, (after t events).consensusState.votes.get proposal.proposalId =
        some (UInt64.ofNat (votes.count proposal.proposalId))

/-- A vote that is handled before its proposal is gone. -/
theorem not_orderIndependent : ¬ OrderIndependent := by
  intro h
  have hagree := h [⟨7, "x", 9⟩] [7] [.proposal ⟨7, "x", 9⟩, .vote 7]
    [.vote 7, .proposal ⟨7, "x", 9⟩] 1 1 (by decide) ⟨rfl, rfl⟩ ⟨rfl, rfl⟩
  exact absurd hagree.1 (by decide)

end Consensus

end AnKi
