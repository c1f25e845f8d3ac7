import AnKi.Consensus
import Mathlib.Data.Nat.Count

/-!
# How often a consensus is handled, and how long it stands

The loop looks at the count after every vote, so it handles a proposal again at
each vote beyond the threshold. A proposal that is added again starts from no
votes, also when nothing about it changed.
-/

namespace AnKi.Consensus
open ConsensusState
set_option autoImplicit false

/-! ## Handlings -/

/-- How many of the first `votes` values of the counter meet the threshold. -/
def handlings (t : UInt64) (votes : Nat) : Nat :=
  Nat.count (fun k => t.toNat ≤ (k + 1) % 2 ^ 64) votes

/-- The tally at which the counter meets the threshold for the second time: the next one, unless
the counter wraps there. -/
def secondMeeting (t : UInt64) : Nat :=
  if t.toNat + 1 < 2 ^ 64 then t.toNat + 1 else 2 ^ 64 + t.toNat

theorem handlings_succ (t : UInt64) (votes : Nat) : handlings t (votes + 1) =
    handlings t votes + if t.toNat ≤ (votes + 1) % 2 ^ 64 then 1 else 0 :=
  Nat.count_succ _ _

theorem handlings_of_lt {t : UInt64} {votes : Nat} (h : votes < t.toNat) :
    handlings t votes = 0 := by
  induction votes with
  | zero => exact Nat.count_zero _
  | succ votes ih =>
    have hlt := t.toNat_lt
    rw [handlings_succ, ih (by omega), if_neg (by omega)]

theorem handlings_of_between {t : UInt64} (ht : 1 ≤ t.toNat) {votes : Nat}
    (hle : t.toNat ≤ votes) (hlt : votes < secondMeeting t) : handlings t votes = 1 := by
  have hbound := t.toNat_lt
  unfold secondMeeting at hlt
  induction votes with
  | zero => omega
  | succ votes ih =>
    rw [handlings_succ]
    by_cases heq : t.toNat = votes + 1
    · rw [handlings_of_lt (by omega), if_pos (by omega)]
    · -- the counter has wrapped, and is below the threshold
      rw [if_neg, ih (by omega) (by omega)]
      split at hlt <;> omega

theorem handlings_of_ge {t : UInt64} (ht : 1 ≤ t.toNat) {votes : Nat}
    (hle : secondMeeting t ≤ votes) : 1 < handlings t votes := by
  have hbound := t.toNat_lt
  obtain ⟨before, hbefore⟩ : ∃ before, secondMeeting t = before + 1 :=
    Nat.exists_eq_succ_of_ne_zero (by unfold secondMeeting; split <;> omega)
  have hmono : handlings t (before + 1) ≤ handlings t votes :=
    Nat.count_monotone _ (hbefore ▸ hle)
  rw [handlings_succ, handlings_of_between ht, if_pos] at hmono
  · omega
  · unfold secondMeeting at hbefore
    split at hbefore <;> omega
  · unfold secondMeeting at hbefore
    split at hbefore <;> omega
  · omega

/-- Each proposal is received at most once. -/
def Distinct (events : List Event) : Prop :=
  ((proposalsOf events).map ConsensusProposal.proposalId).Nodup

instance (events : List Event) : Decidable (Distinct events) :=
  inferInstanceAs (Decidable (List.Nodup _))

theorem Distinct.past {past rest : List Event} (h : Distinct (past ++ rest)) : Distinct past := by
  unfold Distinct proposalsOf at h ⊢
  rw [List.filterMap_append, List.map_append] at h
  exact (List.nodup_append.mp h).1

theorem Distinct.not_proposed {past rest : List Event} (h : Distinct (past ++ rest)) {p : Uuid}
    (hp : Proposed p (proposalsOf past)) : ¬ Proposed p (proposalsOf rest) := by
  intro hrest
  unfold Distinct proposalsOf at h
  rw [List.filterMap_append, List.map_append] at h
  obtain ⟨first, hfirst, rfl⟩ := hp
  obtain ⟨second, hsecond, hid⟩ := hrest
  have hmem := List.mem_map_of_mem (f := ConsensusProposal.proposalId) hfirst
  have hmem' := List.mem_map_of_mem (f := ConsensusProposal.proposalId) hsecond
  exact (List.nodup_append.mp h).2.2 _ hmem _ hmem' hid.symm

theorem after_concat (t : UInt64) (events : List Event) (event : Event) :
    after t (events ++ [event]) = runConsensusProtocol t (after t events) event :=
  Runs.run_concat _ _ _ _

theorem tally_concat (p : Uuid) (events : List Event) (event : Event) :
    tally p (events ++ [event]) = tallyStep p (tally p events) event :=
  Runs.run_concat _ _ _ _

theorem reached_vote (t : UInt64) (events : List Event) (p : Uuid) :
    (after t (events ++ [.vote p])).reached =
      (after t events).reached ++ if (∃ k, tally p (events ++ [.vote p]) = some k ∧
        t.toNat ≤ k % 2 ^ 64) then [p] else [] := by
  simp only [← hasConsensus_iff t, after_concat, runConsensusProtocol_vote]
  simp only [runConsensusProtocol]
  split <;> simp

/-- A proposal is handled once for each vote after which its count meets the threshold. -/
theorem reached_count (t : UInt64) {events : List Event} (hdistinct : Distinct events) (p : Uuid) :
    (after t events).reached.count p = handlings t ((tally p events).getD 0) := by
  induction events using List.reverseRecOn with
  | nil => rfl
  | append_singleton events event ih =>
    have hcount := ih hdistinct.past
    cases event with
    | proposal proposal =>
      rw [after_concat, tally_concat]
      simp only [runConsensusProtocol, tallyStep, hcount]
      by_cases hid : proposal.proposalId = p
      · -- the first proposal with this id, so nothing was counted before it
        have hnone : tally p events = none := by
          apply tally_of_not_proposed
          intro hproposed
          exact hdistinct.not_proposed hproposed ⟨proposal, by simp, hid⟩
        simp [hid, hnone]
      · simp [hid]
    | vote q =>
      rw [reached_vote, List.count_append, hcount, tally_concat, tally_concat]
      simp only [tallyStep, if_true]
      by_cases hid : q = p
      · subst hid
        cases htally : tally q events with
        | none => simp
        | some k =>
          simp only [if_true, Option.map_some, Option.some.injEq, exists_eq_left',
            Option.getD_some, handlings_succ]
          split <;> simp
      · have hne : ∀ c : Prop, [Decidable c] → (if c then [q] else []).count p = 0 := by
          intro c _
          split <;> simp [hid]
        simp [hid, hne]
    | failed =>
      rw [after_concat, tally_concat]
      exact hcount

/-! ## Exactly once -/

/-- The tally of `p` reaches the threshold at some moment of the run. -/
def Reaches (t : UInt64) (p : Uuid) (events : List Event) : Prop :=
  ∃ past, past <+: events ∧ ∃ k, tally p past = some k ∧ t.toNat ≤ k

theorem proposed_of_tally {p : Uuid} {events : List Event} {k : Nat}
    (h : tally p events = some k) : Proposed p (proposalsOf events) := by
  by_contra hnot
  rw [tally_of_not_proposed hnot] at h
  simp at h

theorem reaches_iff {t : UInt64} {p : Uuid} {events : List Event} (hdistinct : Distinct events) :
    Reaches t p events ↔ ∃ k, tally p events = some k ∧ t.toNat ≤ k := by
  constructor
  · intro h
    rcases h with ⟨past, ⟨rest, rfl⟩, k, htally, hle⟩
    have hrest := hdistinct.not_proposed (proposed_of_tally htally)
    refine ⟨k + (votesOf rest).count p, ?_, by omega⟩
    calc tally p (past ++ rest) = Runs.run (tallyStep p) (tally p past) rest := Runs.run_append ..
      _ = some (k + (votesOf rest).count p) := by rw [htally, run_tally_some hrest]
  · intro h
    exact ⟨events, List.prefix_refl _, h⟩

/-- Consensus is handled exactly once for the proposals that reach it, and for no other. -/
def ExactlyOnce (t : UInt64) (events : List Event) : Prop :=
  ∀ p, (Reaches t p events → (after t events).reached.count p = 1) ∧
    (¬ Reaches t p events → (after t events).reached.count p = 0)

/-- Consensus is handled exactly once just when no proposal collects enough votes for its count
to meet the threshold again. -/
theorem exactlyOnce_iff {t : UInt64} (ht : 1 ≤ t) {events : List Event}
    (hdistinct : Distinct events) :
    ExactlyOnce t events ↔ ∀ p k, tally p events = some k → k < secondMeeting t := by
  have hpos : 1 ≤ t.toNat := UInt64.le_iff_toNat_le.mp ht
  unfold ExactlyOnce
  simp only [reached_count t hdistinct, reaches_iff hdistinct]
  constructor
  · intro h p k htally
    by_contra hge
    have hlt := handlings_of_ge hpos (Nat.not_lt.mp hge)
    have hle : t.toNat ≤ k := by
      by_contra hnot
      rw [handlings_of_lt (Nat.not_le.mp hnot)] at hlt
      omega
    have hone := (h p).1 ⟨k, htally, hle⟩
    rw [htally, Option.getD_some] at hone
    omega
  · intro h p
    constructor
    · intro hreaches
      rcases hreaches with ⟨k, htally, hle⟩
      rw [htally, Option.getD_some]
      exact handlings_of_between hpos hle (h p k htally)
    · intro hreaches
      cases htally : tally p events with
      | none => exact handlings_of_lt hpos
      | some k =>
        apply handlings_of_lt
        by_contra hnot
        exact hreaches ⟨k, htally, Nat.not_lt.mp hnot⟩

theorem exactlyOnce_oneVote : ExactlyOnce 1 [.proposal ⟨7, "x", 9⟩, .vote 8, .vote 7] := by
  apply (exactlyOnce_iff (by decide) (by decide)).mpr
  intro p k htally
  have hsecond : secondMeeting 1 = 2 := rfl
  by_cases hp : p = 7
  · subst hp
    have hone : tally 7 [.proposal ⟨7, "x", 9⟩, .vote 8, .vote 7] = some 1 := by decide
    rw [hone, Option.some.injEq] at htally
    omega
  · have hnone : tally p [.proposal ⟨7, "x", 9⟩, .vote 8, .vote 7] = none := by
      apply tally_of_not_proposed
      intro hproposed
      rcases hproposed with ⟨proposal, hmem, rfl⟩
      have hx : proposal = ⟨7, "x", 9⟩ := List.mem_singleton.mp hmem
      exact hp (by rw [hx])
    simp [hnone] at htally

def HandledExactlyOnce : Prop :=
  ∀ (t : UInt64) (events : List Event), 1 ≤ t → Distinct events → ExactlyOnce t events

/-- The vote after the decisive one handles the consensus again. -/
theorem not_handledExactlyOnce : ¬ HandledExactlyOnce := by
  intro h
  have honce := h 1 [.proposal ⟨7, "x", 9⟩, .vote 7, .vote 7] (by decide) (by decide) 7
  have hreaches : Reaches 1 7 [.proposal ⟨7, "x", 9⟩, .vote 7, .vote 7] :=
    ⟨_, List.prefix_refl _, 2, by decide, by decide⟩
  exact absurd (honce.1 hreaches) (by decide)

/-! ## How long a consensus stands -/

/-- The calls that change a consensus state. -/
inductive Call where
  | addProposal (proposal : ConsensusProposal)
  | castVote (proposalId : Uuid)
  deriving DecidableEq

def call (s : ConsensusState) : Call → ConsensusState
  | .addProposal proposal => s.addProposal proposal
  | .castVote proposalId => s.castVote proposalId

def NotAdded (p : Uuid) (calls : List Call) : Prop :=
  ∀ proposal, .addProposal proposal ∈ calls → proposal.proposalId ≠ p

theorem votes_get_call {s : ConsensusState} {p : Uuid} {c : Call}
    (hadd : ∀ proposal, c = .addProposal proposal → proposal.proposalId ≠ p)
    (hvote : c ≠ .castVote p) : (call s c).votes.get p = s.votes.get p := by
  cases c with
  | addProposal proposal =>
    have hne : p ≠ proposal.proposalId := fun h => hadd proposal rfl h.symm
    simp [call, HashMap.get_insert, hne]
  | castVote q =>
    have hne : p ≠ q := fun h => hvote (by rw [h])
    simp [call, HashMap.get_modify, hne]

theorem hasConsensus_zero_call {s : ConsensusState} {p : Uuid} (h : s.hasConsensus p 0 = true)
    (c : Call) : (call s c).hasConsensus p 0 = true := by
  have hiff : ∀ s : ConsensusState, s.hasConsensus p 0 = true ↔ (s.votes.get p).isSome := by
    intro s
    unfold hasConsensus
    cases s.votes.get p with
    | none => simp
    | some count => simp [UInt64.le_iff_toNat_le]
  rw [hiff] at h ⊢
  cases c with
  | addProposal proposal =>
    simp only [call, addProposal_votes, HashMap.get_insert]
    split
    · rfl
    · exact h
  | castVote q =>
    simp only [call, castVote_votes, HashMap.get_modify]
    split
    · simpa using h
    · exact h

theorem isSome_of_hasConsensus {s : ConsensusState} {p : Uuid} {t : UInt64}
    (h : s.hasConsensus p t = true) : (s.votes.get p).isSome := by
  cases hget : s.votes.get p with
  | none => simp [hasConsensus, hget] at h
  | some count => rfl

/-- The call neither starts the count of `p` again nor makes it wrap. -/
def Kept (p : Uuid) (s : ConsensusState) : Call → Prop
  | .addProposal proposal => proposal.proposalId ≠ p
  | .castVote proposalId => proposalId = p → s.votesFor p + 1 < 2 ^ 64

theorem kept_castVote (p : Uuid) (s : ConsensusState) :
    Kept p s (.castVote p) ↔ s.votesFor p + 1 < 2 ^ 64 := by
  simp [Kept]

theorem votesFor_addProposal (proposal : ConsensusProposal) (s : ConsensusState) :
    (call s (.addProposal proposal)).votesFor proposal.proposalId = 0 := by
  simp [votesFor, call]

theorem hasConsensus_call_iff {s : ConsensusState} {p : Uuid} {t : UInt64} (ht : t ≠ 0)
    (h : s.hasConsensus p t = true) (c : Call) :
    (call s c).hasConsensus p t = true ↔ Kept p s c := by
  have hpos : t.toNat ≠ 0 := fun hz => ht (UInt64.toNat_inj.mp hz)
  have hvotes := (hasConsensus_iff_votesFor ht).mp h
  cases c with
  | addProposal proposal =>
    by_cases hid : proposal.proposalId = p
    · subst hid
      rw [hasConsensus_iff_votesFor ht, votesFor_addProposal]
      exact iff_of_false (by omega) (fun hkept => hkept rfl)
    · refine iff_of_true ?_ hid
      rw [hasConsensus, votes_get_call (by simp [hid]) (by simp)]
      exact h
  | castVote q =>
    by_cases hid : q = p
    · subst hid
      have hcast : (call s (.castVote q)).votesFor q = (s.votesFor q + 1) % 2 ^ 64 :=
        votesFor_castVote (isSome_of_hasConsensus h)
      have hlt := votesFor_lt q s
      -- the count wraps to zero when there is no room for the vote
      rw [hasConsensus_iff_votesFor ht, hcast, kept_castVote]
      omega
    · refine iff_of_true ?_ (fun heq => absurd heq hid)
      rw [hasConsensus, votes_get_call (by simp) (by simp [hid])]
      exact h

theorem along_kept_iff {s : ConsensusState} {p : Uuid} (hsome : (s.votes.get p).isSome)
    (calls : List Call) : Runs.Along call (Kept p) s calls ↔
      NotAdded p calls ∧ s.votesFor p + calls.count (.castVote p) < 2 ^ 64 := by
  induction calls generalizing s with
  | nil => exact iff_of_true trivial ⟨by simp [NotAdded], by simpa using votesFor_lt p s⟩
  | cons c calls ih =>
    rw [Runs.along_cons]
    cases c with
    | addProposal proposal =>
      have hnotAdded : NotAdded p (.addProposal proposal :: calls) ↔
          proposal.proposalId ≠ p ∧ NotAdded p calls := by
        simp [NotAdded]
      rw [hnotAdded, and_assoc]
      apply and_congr_right
      intro hid
      have hne : proposal.proposalId ≠ p := hid
      have hget : (call s (.addProposal proposal)).votes.get p = s.votes.get p :=
        votes_get_call (by simpa using hne) (by simp)
      rw [ih (hget ▸ hsome), votesFor, hget, List.count_cons_of_ne (by simp)]
      rfl
    | castVote q =>
      have hnotAdded : NotAdded p (.castVote q :: calls) ↔ NotAdded p calls := by
        simp [NotAdded]
      rw [hnotAdded]
      by_cases hid : q = p
      · subst hid
        have hcast : (call s (.castVote q)).votesFor q = (s.votesFor q + 1) % 2 ^ 64 :=
          votesFor_castVote hsome
        have hnext : ((call s (.castVote q)).votes.get q).isSome := by
          simpa [call, HashMap.get_modify] using hsome
        rw [ih hnext, hcast, kept_castVote, List.count_cons_self]
        constructor
        · intro hall
          obtain ⟨hroom, hadded, hcount⟩ := hall
          rw [Nat.mod_eq_of_lt hroom] at hcount
          exact ⟨hadded, by omega⟩
        · intro hall
          obtain ⟨hadded, hcount⟩ := hall
          have hroom : s.votesFor q + 1 < 2 ^ 64 := by omega
          rw [Nat.mod_eq_of_lt hroom]
          exact ⟨hroom, hadded, by omega⟩
      · have hget : (call s (.castVote q)).votes.get p = s.votes.get p :=
          votes_get_call (by simp) (by simpa using hid)
        have hkept : Kept p s (.castVote q) := fun heq => absurd heq hid
        rw [and_iff_right hkept, ih (hget ▸ hsome), votesFor, hget,
          List.count_cons_of_ne (by simpa using hid)]
        rfl

/-- A consensus stands as long as its proposal is not added again and its count does not wrap. -/
theorem always_hasConsensus_iff {s : ConsensusState} {p : Uuid} {t : UInt64}
    (h : s.hasConsensus p t = true) (calls : List Call) :
    Runs.Always call (fun s => s.hasConsensus p t = true) s calls ↔
      t = 0 ∨ (NotAdded p calls ∧ s.votesFor p + calls.count (.castVote p) < 2 ^ 64) := by
  by_cases ht : t = 0
  · subst ht
    simp only [true_or, iff_true]
    exact Runs.always_of_invariant (I := fun s => hasConsensus p 0 s = true)
      (fun _ c hs => hasConsensus_zero_call hs c) h calls
  · have hexact := Runs.always_iff_along_of_step
      (P := fun s : ConsensusState => s.hasConsensus p t = true)
      (fun _ c hs => hasConsensus_call_iff ht hs c) h calls
    rw [hexact, along_kept_iff (isSome_of_hasConsensus h)]
    simp only [ht, false_or]

theorem always_hasConsensus_voted : Runs.Always call (fun s => s.hasConsensus 7 1 = true)
    ((new.addProposal ⟨7, "x", 9⟩).castVote 7) [.addProposal ⟨8, "y", 9⟩, .castVote 7] :=
  (always_hasConsensus_iff (by decide) _).mpr
    (Or.inr ⟨by simp [NotAdded], by decide⟩)

/-- Whatever is added again is what was added before. -/
def Redelivered (calls : List Call) : Prop :=
  ∀ proposal proposal', .addProposal proposal ∈ calls → .addProposal proposal' ∈ calls →
    proposal.proposalId = proposal'.proposalId → proposal = proposal'

def ConsensusStable : Prop :=
  ∀ (past calls : List Call) (p : Uuid) (t : UInt64), Redelivered (past ++ calls) →
    (Runs.run call new past).hasConsensus p t = true →
      Runs.Always call (fun s => s.hasConsensus p t = true) (Runs.run call new past) calls

/-- The same proposal is delivered once more, and its vote is gone. -/
theorem not_consensusStable : ¬ ConsensusStable := by
  intro h
  have hstands := h [.addProposal ⟨7, "x", 9⟩, .castVote 7] [.addProposal ⟨7, "x", 9⟩] 7 1
    (by simp [Redelivered]) (by decide) _ (List.prefix_refl _)
  exact absurd hstands (by decide)

end AnKi.Consensus
