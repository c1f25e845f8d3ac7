import AnKi.Consensus
import AnKi.Library.Locks

/-!
# The locks on `proposals` and `votes`

The operations of `ConsensusState` cut at the points where a lock is taken or
dropped. `add_proposal` keeps its guard of `proposals` to the end and takes the
one of `votes` after the first update, so that a thread that needs `votes` only
can come between its two updates.
-/

namespace AnKi
open Locks
set_option autoImplicit false

namespace ConsensusLocks

inductive Lock where
  | proposals
  | votes
  deriving DecidableEq

inductive Call where
  | addProposal (proposal : ConsensusProposal)
  | castVote (proposalId : Uuid)
  | hasConsensus (proposalId : Uuid) (threshold : UInt64)
  deriving DecidableEq

/-- An answer of `has_consensus` with what was true of the proposal at that moment. -/
structure Verdict where
  proposalId : Uuid
  threshold : UInt64
  returned : Bool
  votesSince : Nat
  carried : Option Nat
  deriving DecidableEq

/-- `votesSince` counts the votes for a proposal since its content was stored. Between the two
updates of `add_proposal`, `carried` is the count that the earlier content had. -/
structure Shared where
  consensusState : ConsensusState
  votesSince : Uuid → Nat
  carried : Uuid → Option Nat
  verdicts : List Verdict

namespace Shared

def start : Shared := ⟨ConsensusState.new, fun _ => 0, fun _ => none, []⟩

def storeProposal (proposal : ConsensusProposal) (s : Shared) : Shared :=
  { s with
    consensusState := s.consensusState.storeProposal proposal
    votesSince := Function.update s.votesSince proposal.proposalId 0
    carried := Function.update s.carried proposal.proposalId
      (some (s.consensusState.votesFor proposal.proposalId)) }

def startCount (proposalId : Uuid) (s : Shared) : Shared :=
  { s with
    consensusState := s.consensusState.startCount proposalId
    carried := Function.update s.carried proposalId none }

def castVote (proposalId : Uuid) (s : Shared) : Shared :=
  { s with
    consensusState := s.consensusState.castVote proposalId
    votesSince :=
      if (s.consensusState.votes.get proposalId).isSome then
        Function.update s.votesSince proposalId (s.votesSince proposalId + 1)
      else s.votesSince }

def verdict (proposalId : Uuid) (threshold : UInt64) (s : Shared) : Verdict :=
  ⟨proposalId, threshold, s.consensusState.hasConsensus proposalId threshold,
    s.votesSince proposalId, s.carried proposalId⟩

def hasConsensus (proposalId : Uuid) (threshold : UInt64) (s : Shared) : Shared :=
  { s with verdicts := s.verdicts ++ [s.verdict proposalId threshold] }

end Shared

inductive Spot where
  | idle
  | storeProposal (proposal : ConsensusProposal)
  | lockVotes (proposalId : Uuid)
  | startCount (proposalId : Uuid)
  | unlockVotes
  | unlockProposals
  | castVote (proposalId : Uuid)
  | hasConsensus (proposalId : Uuid) (threshold : UInt64)
  | done
  deriving DecidableEq

abbrev Point := Spot × List Call

def enter (rest : List Call) : Call → Instr Lock Shared Point
  | .addProposal proposal => .acquire .proposals .write (.storeProposal proposal, rest)
  | .castVote proposalId => .acquire .votes .write (.castVote proposalId, rest)
  | .hasConsensus proposalId threshold =>
    .acquire .votes .read (.hasConsensus proposalId threshold, rest)

def instr : Point → Instr Lock Shared Point
  | (.idle, []) => .halt
  | (.idle, call :: rest) => enter rest call
  | (.storeProposal proposal, rest) =>
    .act fun s => (s.storeProposal proposal, (.lockVotes proposal.proposalId, rest))
  | (.lockVotes proposalId, rest) => .acquire .votes .write (.startCount proposalId, rest)
  | (.startCount proposalId, rest) => .act fun s => (s.startCount proposalId, (.unlockVotes, rest))
  | (.unlockVotes, rest) => .release .votes (.unlockProposals, rest)
  | (.unlockProposals, rest) => .release .proposals (.idle, rest)
  | (.castVote proposalId, rest) => .act fun s => (s.castVote proposalId, (.done, rest))
  | (.hasConsensus proposalId threshold, rest) =>
    .act fun s => (s.hasConsensus proposalId threshold, (.done, rest))
  | (.done, rest) => .release .votes (.idle, rest)

def start {T : Type} (program : T → List Call) : Config T Lock Shared Point :=
  ⟨Shared.start, fun _ => [], fun i => (.idle, program i)⟩

/-- Between two calls. -/
@[simp] theorem idle_asks (rest : List Call) : (instr (.idle, rest)).Asks := by
  cases rest with
  | nil => trivial
  | cons call rest => cases call <;> trivial

/-! ## What a verdict stands for -/

/-- An answer of `true` has the threshold's number of votes for the stored content behind it. -/
def Verdict.Backed (v : Verdict) : Prop := v.returned = true → v.threshold.toNat ≤ v.votesSince

/-- The answer came between the two updates of `add_proposal`, and the votes for the earlier
content make up what the new content lacks. -/
def Verdict.Stale (v : Verdict) : Prop :=
  ∃ earlier, v.carried = some earlier ∧ v.votesSince < v.threshold.toNat ∧
    v.threshold.toNat ≤ (earlier + v.votesSince) % 2 ^ 64

/-- The count is made of the votes for the stored content and of those carried over. -/
def Consistent (p : Uuid) (s : Shared) : Prop :=
  match s.carried p with
  | some earlier => s.consensusState.votesFor p = (earlier + s.votesSince p) % 2 ^ 64
  | none => s.consensusState.votesFor p ≤ s.votesSince p

theorem Consistent.backed_iff {p : Uuid} {s : Shared} (h : Consistent p s) (t : UInt64) :
    (s.verdict p t).Backed ↔ ¬ (s.verdict p t).Stale := by
  unfold Consistent at h
  simp only [Verdict.Backed, Verdict.Stale, Shared.verdict]
  by_cases ht : t = 0
  · simp [ht]
  · rw [ConsensusState.hasConsensus_iff_votesFor ht]
    cases hcarried : s.carried p with
    | none =>
      simp only [hcarried] at h
      refine iff_of_true (fun hle => hle.trans h) ?_
      simp
    | some earlier =>
      simp only [hcarried] at h
      simp only [h, Option.some.injEq, exists_eq_left']
      omega

theorem consistent_start (p : Uuid) : Consistent p Shared.start := by
  simp [Consistent, Shared.start, ConsensusState.votesFor]

theorem Consistent.storeProposal {p : Uuid} {s : Shared} (h : Consistent p s)
    (proposal : ConsensusProposal) : Consistent p (s.storeProposal proposal) := by
  unfold Consistent at h ⊢
  by_cases hp : p = proposal.proposalId
  · have hlt := s.consensusState.votesFor_lt p
    subst hp
    simpa [Shared.storeProposal, ConsensusState.votesFor] using (Nat.mod_eq_of_lt hlt).symm
  · simpa [Shared.storeProposal, ConsensusState.votesFor, hp] using h

theorem Consistent.startCount {p : Uuid} {s : Shared} (h : Consistent p s) (proposalId : Uuid) :
    Consistent p (s.startCount proposalId) := by
  unfold Consistent at h ⊢
  by_cases hp : p = proposalId
  · simp [Shared.startCount, ConsensusState.votesFor, hp]
  · simpa [Shared.startCount, ConsensusState.votesFor, HashMap.get_insert, hp] using h

theorem Consistent.castVote {p : Uuid} {s : Shared} (h : Consistent p s) (proposalId : Uuid) :
    Consistent p (s.castVote proposalId) := by
  unfold Consistent at h ⊢
  by_cases hp : p = proposalId
  · subst hp
    cases hsome : (s.consensusState.votes.get p).isSome with
    | false =>
      -- the vote is dropped
      have hnone : s.consensusState.votes.get p = none := by simpa using hsome
      simpa [Shared.castVote, ConsensusState.votesFor, HashMap.get_modify, hnone] using h
    | true =>
      have hvotes := ConsensusState.votesFor_castVote hsome
      simp only [Shared.castVote, hsome, if_true, hvotes, Function.update_self]
      cases hcarried : s.carried p with
      | none =>
        simp only [hcarried] at h ⊢
        omega
      | some earlier =>
        simp only [hcarried] at h ⊢
        omega
  · have hvotes : (s.consensusState.castVote proposalId).votesFor p =
        s.consensusState.votesFor p := by
      simp [ConsensusState.votesFor, HashMap.get_modify, hp]
    have hsince : (s.castVote proposalId).votesSince p = s.votesSince p := by
      simp only [Shared.castVote]
      split
      · simp [hp]
      · rfl
    rw [hsince]
    simpa [Shared.castVote, hvotes] using h

/-- What every action keeps: the counts are consistent, and so was each answer. -/
structure Sound (s : Shared) : Prop where
  consistent : ∀ p, Consistent p s
  verdicts : ∀ v ∈ s.verdicts, v.Backed ↔ ¬ v.Stale

theorem start_sound : Sound Shared.start := ⟨consistent_start, by simp [Shared.start]⟩

theorem Sound.act {point : Point} {perform : Shared → Shared × Point}
    (hinstr : instr point = .act perform) {s : Shared} (hs : Sound s) : Sound (perform s).1 := by
  obtain ⟨spot, rest⟩ := point
  cases spot with
  | idle => simp at hinstr
  | lockVotes | unlockVotes | unlockProposals | done => simp [instr] at hinstr
  | storeProposal proposal =>
    obtain rfl := Instr.act.inj hinstr
    exact ⟨fun p => (hs.consistent p).storeProposal proposal, hs.verdicts⟩
  | startCount proposalId =>
    obtain rfl := Instr.act.inj hinstr
    exact ⟨fun p => (hs.consistent p).startCount proposalId, hs.verdicts⟩
  | castVote proposalId =>
    obtain rfl := Instr.act.inj hinstr
    exact ⟨fun p => (hs.consistent p).castVote proposalId, hs.verdicts⟩
  | hasConsensus proposalId threshold =>
    obtain rfl := Instr.act.inj hinstr
    refine ⟨hs.consistent, ?_⟩
    intro v hv
    rcases List.mem_append.mp hv with hv | hv
    · exact hs.verdicts v hv
    · rw [List.mem_singleton.mp hv]
      exact (hs.consistent proposalId).backed_iff threshold

def VotesBelong (s : Shared) : Prop := ∀ v ∈ s.verdicts, v.Backed

def NoneStale (s : Shared) : Prop := ∀ v ∈ s.verdicts, ¬ v.Stale

section Threads
variable {T : Type} [DecidableEq T]

/-- However the threads are scheduled, every consensus found stands on votes for the content that
is stored, unless `has_consensus` ran between the two updates of `add_proposal` at a threshold that
the votes for the earlier content make up. -/
theorem votesBelong_iff_noneStale (writersFirst : Bool) (program : T → List Call)
    {c : Config T Lock Shared Point} (hreach : Reach instr writersFirst (start program) c) :
    VotesBelong c.data ↔ NoneStale c.data := by
  have hsound : Sound c.data :=
    Reach.data (I := Sound) (fun _ _ hinstr _ hs => hs.act hinstr) hreach start_sound
  exact forall₂_congr hsound.verdicts

end Threads

/-- Two threads vote for one proposal, and each asks for the consensus at its own threshold. -/
def twoVoters : Option (Config Bool Lock Shared Point) :=
  runSchedule instr true
    (List.replicate 9 true ++ List.replicate 4 false ++ [true, false, true, true, false]) (start fun
    | true => [.addProposal ⟨7, "x", 9⟩, .castVote 7, .hasConsensus 7 2]
    | false => [.castVote 7, .hasConsensus 7 3])

theorem votesBelong_twoVoters :
    ∃ c, twoVoters = some c ∧
      c.data.verdicts = [⟨7, 3, false, 2, none⟩, ⟨7, 2, true, 2, none⟩] ∧ VotesBelong c.data := by
  cases h : twoVoters with
  | none => exact absurd h (by decide)
  | some c =>
    have hverdicts : twoVoters.map (fun c => c.data.verdicts) =
        some [⟨7, 3, false, 2, none⟩, ⟨7, 2, true, 2, none⟩] := by decide
    rw [h, Option.map_some, Option.some.injEq] at hverdicts
    refine ⟨c, rfl, hverdicts, ?_⟩
    apply (votesBelong_iff_noneStale true _ (reach_of_runSchedule h)).mpr
    simp [NoneStale, hverdicts, Verdict.Stale]

/-- Nothing but the guards that are held restricts the order of the threads here. -/
def VotesBelongToContent : Prop :=
  ∀ (T : Type) (_ : DecidableEq T) (program : T → List Call) (c : Config T Lock Shared Point),
    Reach instr false (start program) c → VotesBelong c.data

/-- One thread stores a new content, and the other asks before the count is started anew. -/
def twoThreads : Option (Config Bool Lock Shared Point) :=
  runSchedule instr false (List.replicate 11 true ++ [false, false]) (start fun
    | true => [.addProposal ⟨7, "x", 9⟩, .castVote 7, .addProposal ⟨7, "y", 9⟩]
    | false => [.hasConsensus 7 1])

theorem not_votesBelongToContent : ¬ VotesBelongToContent := by
  intro h
  cases hrun : twoThreads with
  | none => exact absurd hrun (by decide)
  | some c =>
    have hverdicts : twoThreads.map (fun c => c.data.verdicts) =
        some [⟨7, 1, true, 0, some 1⟩] := by decide
    rw [hrun, Option.map_some, Option.some.injEq] at hverdicts
    have hbelong := h Bool _ _ c (reach_of_runSchedule hrun) ⟨7, 1, true, 0, some 1⟩
      (by simp [hverdicts]) rfl
    exact absurd hbelong (by decide)

/-! ## The order of the locks -/

def locks : Point → List Lock
  | (.idle, _) => []
  | (.storeProposal _, _) | (.lockVotes _, _) | (.unlockProposals, _) => [.proposals]
  | (.startCount _, _) | (.unlockVotes, _) => [.votes, .proposals]
  | (.castVote _, _) | (.hasConsensus _ _, _) | (.done, _) => [.votes]

def rank : Lock → Nat
  | .proposals => 0
  | .votes => 1

theorem instr_acquire {point : Point} {lock : Lock} {mode : Mode} {next : Point}
    (h : instr point = .acquire lock mode next) :
    locks next = lock :: locks point ∧ ∀ own ∈ locks point, rank own < rank lock := by
  obtain ⟨spot, rest⟩ := point
  cases spot with
  | idle =>
    refine ⟨?_, by simp [locks]⟩
    cases rest with
    | nil => simp [instr] at h
    | cons call rest =>
      cases call <;>
        · simp only [instr, enter, Instr.acquire.injEq] at h
          obtain ⟨rfl, rfl, rfl⟩ := h
          rfl
  | lockVotes proposalId =>
    simp only [instr, Instr.acquire.injEq] at h
    obtain ⟨rfl, rfl, rfl⟩ := h
    simp [locks, rank]
  | _ => simp [instr] at h

theorem instr_release {point : Point} {lock : Lock} {next : Point}
    (h : instr point = .release lock next) : locks next = (locks point).erase lock := by
  obtain ⟨spot, rest⟩ := point
  cases spot with
  | idle => simp at h
  | unlockVotes | unlockProposals | done =>
    simp only [instr, Instr.release.injEq] at h
    obtain ⟨rfl, rfl⟩ := h
    rfl
  | _ => simp [instr] at h

theorem instr_act {point : Point} {perform : Shared → Shared × Point}
    (h : instr point = .act perform) (s : Shared) : locks (perform s).2 = locks point := by
  obtain ⟨spot, rest⟩ := point
  cases spot with
  | idle => simp at h
  | storeProposal | startCount | castVote | hasConsensus =>
    obtain rfl := Instr.act.inj h
    rfl
  | lockVotes | unlockVotes | unlockProposals | done => simp [instr] at h

theorem instr_halt {point : Point} (h : instr point = .halt) : locks point = [] := by
  obtain ⟨spot, rest⟩ := point
  cases spot with
  | idle => rfl
  | _ => simp [instr] at h

def lockUse : LockUse instr where
  locks := locks
  halt := instr_halt
  acquire h := (instr_acquire h).1
  release := instr_release
  act := instr_act

theorem start_neverStuck {T : Type} [DecidableEq T] (program : T → List Call) :
    NeverStuck instr (start program) := by
  have htracks : lockUse.Tracks (start program) := fun _ => rfl
  have hbound : ∀ lock, rank lock < 2 := by
    intro lock
    cases lock <;> decide
  apply htracks.neverStuck hbound
  intro c _ i lock mode next h
  exact (instr_acquire h).2

end ConsensusLocks

end AnKi
