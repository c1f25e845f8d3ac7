import AnKi.Consensus

/-!
# Voters and the nodes that count their votes

A vote carries the id of a proposal and nothing of its sender. The senders are
put back here to say what a consensus means: in a network that delivers each
vote at most once to a node, and in one that does not.
-/

namespace AnKi.Consensus
open ConsensusState
set_option autoImplicit false

/-! ## Each vote at most once -/

structure Network (Voter Node : Type) where
  ballot : Voter → Option Uuid
  node : Node → Protocol
  received : Node → Finset Voter

inductive NetworkEvent (Voter Node : Type) where
  | broadcast (voter : Voter) (proposalId : Uuid)
  | deliver (node : Node) (voter : Voter)
  | receive (node : Node) (proposal : ConsensusProposal)
  | fail (node : Node)

section Network
variable {Voter Node : Type}

def Network.start : Network Voter Node := ⟨fun _ => none, fun _ => Protocol.start, fun _ => ∅⟩

/-- A voter votes once, and a node receives each vote at most once; it may never receive it. -/
def NetworkEvent.Enabled (s : Network Voter Node) : NetworkEvent Voter Node → Prop
  | .broadcast voter _ => s.ballot voter = none
  | .deliver node voter => (s.ballot voter).isSome ∧ voter ∉ s.received node
  | .receive _ _ | .fail _ => True

variable [DecidableEq Voter] [DecidableEq Node]

def Network.handle (t : UInt64) (s : Network Voter Node) (node : Node) (event : Event) :
    Network Voter Node :=
  { s with node := Function.update s.node node (runConsensusProtocol t (s.node node) event) }

def Network.step (t : UInt64) (s : Network Voter Node) :
    NetworkEvent Voter Node → Network Voter Node
  | .broadcast voter proposalId =>
    { s with ballot := Function.update s.ballot voter (some proposalId) }
  | .deliver node voter =>
    match s.ballot voter with
    | some proposalId =>
      { s.handle t node (.vote proposalId) with
        received := Function.update s.received node (insert voter (s.received node)) }
    | none => s
  | .receive node proposal => s.handle t node (.proposal proposal)
  | .fail node => s.handle t node .failed

def Backed (ballot : Voter → Option Uuid) (node : Protocol) (received : Finset Voter) : Prop :=
  ∀ p count, node.consensusState.votes.get p = some count →
    count.toNat ≤ (received.filter fun v => ballot v = some p).card

omit [DecidableEq Voter] in
theorem Backed.proposal {ballot : Voter → Option Uuid} {node : Protocol} {received : Finset Voter}
    (h : Backed ballot node received) (t : UInt64) (proposal : ConsensusProposal) :
    Backed ballot (runConsensusProtocol t node (.proposal proposal)) received := by
  intro p count hcount
  simp only [runConsensusProtocol, addProposal_votes, HashMap.get_insert] at hcount
  split at hcount
  · obtain rfl := Option.some.inj hcount
    simp
  · exact h p count hcount

theorem Backed.vote {ballot : Voter → Option Uuid} {node : Protocol} {received : Finset Voter}
    (h : Backed ballot node received) (t : UInt64) {voter : Voter} {proposalId : Uuid}
    (hballot : ballot voter = some proposalId) (hnew : voter ∉ received) :
    Backed ballot (runConsensusProtocol t node (.vote proposalId)) (insert voter received) := by
  intro p count hcount
  rw [runConsensusProtocol_vote, castVote_votes, HashMap.get_modify] at hcount
  rw [Finset.filter_insert, hballot]
  by_cases hp : p = proposalId
  · subst hp
    simp only [if_true, Option.map_eq_some_iff] at hcount ⊢
    obtain ⟨before, hbefore, rfl⟩ := hcount
    have hle := h p before hbefore
    have hwrap : (before + 1).toNat ≤ before.toNat + 1 := by
      rw [UInt64.toNat_add]
      exact Nat.mod_le _ _
    rw [Finset.card_insert_of_notMem (by simp [hnew])]
    omega
  · have hne : ¬ some proposalId = some p := fun he => hp (Option.some.inj he).symm
    simp only [hp, hne, if_false] at hcount ⊢
    exact h p count hcount

omit [DecidableEq Voter] in
theorem Backed.mono {ballot later : Voter → Option Uuid} {node : Protocol}
    {received : Finset Voter} (h : Backed ballot node received)
    (hballot : ∀ v p, ballot v = some p → later v = some p) : Backed later node received := by
  intro p count hcount
  refine (h p count hcount).trans (Finset.card_le_card ?_)
  exact Finset.monotone_filter_right received fun v _ hv => hballot v p hv

theorem ballot_step (t : UInt64) {s : Network Voter Node} (event : NetworkEvent Voter Node)
    (henabled : event.Enabled s) {v : Voter} {p : Uuid} (h : s.ballot v = some p) :
    (s.step t event).ballot v = some p := by
  cases event with
  | broadcast voter proposalId =>
    have hne : v ≠ voter := by
      intro heq
      subst heq
      have hnone : s.ballot v = none := henabled
      rw [hnone] at h
      simp at h
    simpa [Network.step, hne] using h
  | deliver node voter =>
    cases hballot : s.ballot voter with
    | none => simpa [Network.step, hballot] using h
    | some proposalId => simpa [Network.step, Network.handle, hballot] using h
  | receive node proposal => exact h
  | fail node => exact h

def Network.Backed (s : Network Voter Node) : Prop :=
  ∀ i, Consensus.Backed s.ballot (s.node i) (s.received i)

theorem Network.Backed.step (t : UInt64) {s : Network Voter Node}
    {event : NetworkEvent Voter Node} (hs : s.Backed) (henabled : event.Enabled s) :
    (s.step t event).Backed := by
  intro i
  cases event with
  | broadcast voter proposalId =>
    exact (hs i).mono fun v p h => ballot_step t (.broadcast voter proposalId) henabled h
  | deliver node voter =>
    obtain ⟨hsome, hnew⟩ := henabled
    obtain ⟨proposalId, hballot⟩ := Option.isSome_iff_exists.mp hsome
    simp only [Network.step, Network.handle, hballot]
    by_cases hi : i = node
    · subst hi
      simpa using (hs i).vote t hballot hnew
    · simpa [hi] using hs i
  | receive node proposal =>
    simp only [Network.step, Network.handle]
    by_cases hi : i = node
    · subst hi
      simpa using (hs i).proposal t proposal
    · simpa [hi] using hs i
  | fail node =>
    simp only [Network.step, Network.handle]
    by_cases hi : i = node
    · subst hi
      simpa [runConsensusProtocol] using hs i
    · simpa [hi] using hs i

variable [Fintype Voter]

omit [DecidableEq Voter] [DecidableEq Node] in
theorem Network.Backed.supporters {s : Network Voter Node} (hs : s.Backed) {i : Node} {p : Uuid}
    {t : UInt64} (h : (s.node i).consensusState.hasConsensus p t = true) :
    t.toNat ≤ (Ballots.supporters s.ballot p).card := by
  unfold hasConsensus at h
  cases hcount : (s.node i).consensusState.votes.get p with
  | none => simp [hcount] at h
  | some count =>
    simp only [hcount, ge_iff_le, decide_eq_true_eq, UInt64.le_iff_toNat_le] at h
    refine (h.trans (hs i p count hcount)).trans (Finset.card_le_card ?_)
    exact Finset.filter_subset_filter _ (Finset.subset_univ _)

omit [Fintype Voter] [DecidableEq Voter] [DecidableEq Node] in
theorem Network.start_backed : (Network.start : Network Voter Node).Backed := by
  intro i p count hcount
  simp [Network.start, Protocol.start] at hcount

theorem supporters_of_hasConsensus {t : UInt64} {past events : List (NetworkEvent Voter Node)}
    (hpast : past <+: events)
    (henabled : Runs.Along (Network.step t) (fun s e => e.Enabled s) Network.start events)
    {i : Node} {p : Uuid} (h : ((Runs.run (Network.step t) Network.start past).node
      i).consensusState.hasConsensus p t = true) :
    t.toNat ≤ (Ballots.supporters
      (Runs.run (Network.step t) Network.start events).ballot p).card := by
  obtain ⟨rest, rfl⟩ := hpast
  obtain ⟨hbefore, hafter⟩ := (Runs.along_append _ past rest).mp henabled
  have hbacked := hbefore.invariant (fun s e hs he => hs.step t he) Network.start_backed
  -- the supporters of the earlier moment are still there at the end
  have hkept := hafter.invariant (I := fun s => ∀ v p,
      (Runs.run (Network.step t) Network.start past).ballot v = some p → s.ballot v = some p)
    (fun s e hs he v p hv => ballot_step t e he (hs v p hv)) (fun v p hv => hv)
  rw [Runs.run_append]
  exact (hbacked.supporters h).trans (Finset.card_le_card (Ballots.supporters_subset hkept p))

/-- With a threshold above half of the voters no two nodes ever agree on different proposals. -/
theorem hasConsensus_unique {t : UInt64} (ht : Fintype.card Voter < 2 * t.toNat)
    {events past past' : List (NetworkEvent Voter Node)}
    (henabled : Runs.Along (Network.step t) (fun s e => e.Enabled s) Network.start events)
    (hpast : past <+: events) (hpast' : past' <+: events) {i j : Node} {p q : Uuid}
    (hp : ((Runs.run (Network.step t) Network.start past).node
      i).consensusState.hasConsensus p t = true)
    (hq : ((Runs.run (Network.step t) Network.start past').node
      j).consensusState.hasConsensus q t = true) : p = q :=
  Ballots.eq_of_majority _ ht (supporters_of_hasConsensus hpast henabled hp)
    (supporters_of_hasConsensus hpast' henabled hq)

end Network

/-- Two of three voters are for one proposal, and the third is for its rival. -/
def threeVoters : List (NetworkEvent (Fin 3) Bool) :=
  [.receive true ⟨7, "x", 9⟩, .receive true ⟨8, "y", 9⟩, .receive false ⟨8, "y", 9⟩,
    .receive false ⟨7, "x", 9⟩, .broadcast 0 7, .broadcast 2 8, .deliver false 2, .deliver true 0,
    .broadcast 1 7, .deliver true 1, .deliver false 1, .deliver true 2, .deliver false 0]

theorem hasConsensus_unique_threeVoters :
    let early := Runs.run (Network.step 2) Network.start (threeVoters.take 10)
    let late := Runs.run (Network.step 2) Network.start threeVoters
    (∃ p q, (early.node true).consensusState.hasConsensus p 2 = true ∧
        (late.node false).consensusState.hasConsensus q 2 = true ∧ p = q) ∧
      (late.node false).consensusState.hasConsensus 8 2 = false := by
  intro early late
  have hearly : (early.node true).consensusState.hasConsensus 7 2 = true := by decide
  have hlate : (late.node false).consensusState.hasConsensus 7 2 = true := by decide
  have henabled : Runs.Along (Network.step 2) (fun s e => e.Enabled s) Network.start
      threeVoters := by
    simp [threeVoters, NetworkEvent.Enabled, Network.step, Network.start, Network.handle]
  refine ⟨⟨7, 7, hearly, hlate, ?_⟩, ?_⟩
  · exact hasConsensus_unique (by decide) henabled (List.take_prefix 10 _) (List.prefix_refl _)
      hearly hlate
  · rw [Bool.eq_false_iff]
    intro hrival
    have heq : (7 : Uuid) = 8 := hasConsensus_unique (by decide) henabled (List.take_prefix 10 _)
      (List.prefix_refl _) hearly hrival
    exact absurd heq (by decide)

/-! ## Votes without voters -/

inductive Message (Voter : Type) where
  | proposal (proposal : ConsensusProposal)
  | vote (voter : Voter) (proposalId : Uuid)
  | failed

section Deliveries
variable {Voter : Type}

/-- The node sees nothing of the voter. -/
def Message.event : Message Voter → Event
  | .proposal received => .proposal received
  | .vote _ proposalId => .vote proposalId
  | .failed => .failed

def Message.voterFor (p : Uuid) : Message Voter → Option Voter
  | .vote voter proposalId => if proposalId = p then some voter else none
  | _ => none

def votersFor (p : Uuid) (messages : List (Message Voter)) : List Voter :=
  messages.filterMap (Message.voterFor p)

theorem tally_le_votersFor (p : Uuid) (messages : List (Message Voter)) {k : Nat}
    (h : tally p (messages.map Message.event) = some k) : k ≤ (votersFor p messages).length := by
  induction messages using List.reverseRecOn generalizing k with
  | nil => simp [tally] at h
  | append_singleton messages message ih =>
    simp only [tally, List.map_append, List.map_cons, List.map_nil, Runs.run_concat] at h ih
    simp only [votersFor, List.filterMap_append, List.length_append] at ih ⊢
    cases message with
    | proposal received =>
      simp only [Message.event, tallyStep] at h
      split at h
      · obtain rfl := Option.some.inj h
        exact Nat.zero_le _
      · exact (ih h).trans (Nat.le_add_right _ _)
    | vote voter proposalId =>
      simp only [Message.event, tallyStep] at h
      by_cases hid : proposalId = p
      · simp only [hid, if_true, Option.map_eq_some_iff] at h
        obtain ⟨before, hbefore, rfl⟩ := h
        have hle := ih hbefore
        simp only [Message.voterFor, hid, if_true, List.filterMap_cons, List.filterMap_nil,
          List.length_singleton]
        omega
      · simp only [hid, if_false] at h
        exact (ih h).trans (Nat.le_add_right _ _)
    | failed => exact (ih h).trans (Nat.le_add_right _ _)

variable [DecidableEq Voter]

/-- A consensus stands for that many deliveries, and so for that many voters as far as nobody's
vote was delivered more than once. -/
theorem hasConsensus_deliveries (consensusThreshold : UInt64) (messages : List (Message Voter))
    (p : Uuid) (t : UInt64) (h : (after consensusThreshold
      (messages.map Message.event)).consensusState.hasConsensus p t = true) :
    t.toNat ≤ (votersFor p messages).length ∧
      ∀ k, (∀ v, (votersFor p messages).count v ≤ k) →
        t.toNat ≤ k * (votersFor p messages).toFinset.card := by
  obtain ⟨count, htally, hle⟩ := (hasConsensus_iff _ _ p t).mp h
  have hlength : t.toNat ≤ (votersFor p messages).length :=
    (hle.trans (Nat.mod_le _ _)).trans (tally_le_votersFor p messages htally)
  refine ⟨hlength, ?_⟩
  intro k hk
  exact hlength.trans (Ballots.length_le_mul_card hk)

end Deliveries

theorem hasConsensus_deliveries_two : (2 : UInt64).toNat ≤ 1 *
    (votersFor 7 [.proposal ⟨7, "x", 9⟩, .vote true 7, .vote false 7]).toFinset.card :=
  (hasConsensus_deliveries 2 [.proposal ⟨7, "x", 9⟩, .vote true 7, .vote false 7] 7 2
    (by decide)).2 1 (by decide)

/-- Consensus at `t` means that `t` different voters voted for the proposal. -/
def OneVoterOneVote (Voter : Type) [DecidableEq Voter] : Prop :=
  ∀ (consensusThreshold : UInt64) (messages : List (Message Voter)) (p : Uuid) (t : UInt64),
    (after consensusThreshold (messages.map Message.event)).consensusState.hasConsensus p t =
      true → t.toNat ≤ (votersFor p messages).toFinset.card

/-- A single voter that votes twice makes two. -/
theorem not_oneVoterOneVote : ¬ OneVoterOneVote Unit := by
  intro h
  have hvoters := h 2 [.proposal ⟨7, "x", 9⟩, .vote () 7, .vote () 7] 7 2 (by decide)
  exact absurd hvoters (by decide)

end AnKi.Consensus
