import AnKi.Library.Runs
import AnKi.Library.Senders
import AnKi.Wire

/-!
# election.rs: the current leader

A node takes the sender of every status with `is_leader` set for the leader, and
becomes a candidate at a tick that finds none. Claims carry no term, so the last
one handled stands.
-/

namespace AnKi
set_option autoImplicit false

structure NodeStatus where
  nodeId : Uuid
  isLeader : Bool
  isCandidate : Bool
  deriving DecidableEq

structure Election where
  currentLeader : Option Uuid
  nodeStatus : NodeStatus
  deriving DecidableEq

namespace Election

def new (nodeId : Uuid) : Election := ⟨none, ⟨nodeId, false, false⟩⟩

def startElection (self : Election) : Election :=
  { self with nodeStatus := { self.nodeStatus with isCandidate := true } }

def setLeader (leaderId : Uuid) (self : Election) : Election :=
  ⟨some leaderId, { self.nodeStatus with
    isLeader := self.nodeStatus.nodeId = leaderId, isCandidate := false }⟩

inductive Event where
  | tick
  | status (nodeStatus : NodeStatus)
  | failed
  deriving DecidableEq

def runLeaderElection (s : Election) : Event → Election
  | .tick => if s.currentLeader.isNone then s.startElection else s
  | .status nodeStatus => if nodeStatus.isLeader then s.setLeader nodeStatus.nodeId else s
  -- a receive error is logged
  | .failed => s

def after (nodeId : Uuid) (events : List Event) : Election :=
  Runs.run runLeaderElection (new nodeId) events

/-! ## The last claim stands -/

def Event.status? : Event → Option NodeStatus
  | .status nodeStatus => some nodeStatus
  | _ => none

def statusesOf (events : List Event) : List NodeStatus := events.filterMap Event.status?

def claims (statuses : List NodeStatus) : List NodeStatus := statuses.filter NodeStatus.isLeader

def lastClaim (events : List Event) : Option Uuid :=
  (claims (statusesOf events)).getLast?.map NodeStatus.nodeId

/-- The state of node `own` when it saw this claim last. -/
structure Follows (own : Uuid) (claim : Option Uuid) (s : Election) : Prop where
  currentLeader : s.currentLeader = claim
  nodeId : s.nodeStatus.nodeId = own
  isLeader : s.nodeStatus.isLeader = decide (claim = some own)

theorem statusesOf_concat (events : List Event) (event : Event) :
    statusesOf (events ++ [event]) = statusesOf events ++ event.status?.toList := by
  cases event <;> simp [statusesOf, Event.status?, List.filterMap_cons]

theorem lastClaim_concat (events : List Event) (event : Event) :
    lastClaim (events ++ [event]) = match event with
      | .status nodeStatus =>
        if nodeStatus.isLeader then some nodeStatus.nodeId else lastClaim events
      | _ => lastClaim events := by
  rw [lastClaim, statusesOf_concat]
  cases event with
  | status nodeStatus =>
    cases h : nodeStatus.isLeader <;> simp [lastClaim, claims, Event.status?, h]
  | tick | failed => simp [lastClaim, Event.status?]

theorem after_follows (nodeId : Uuid) (events : List Event) :
    Follows nodeId (lastClaim events) (after nodeId events) := by
  unfold after
  induction events using List.reverseRecOn with
  | nil => exact ⟨rfl, rfl, rfl⟩
  | append_singleton events event ih =>
    rw [Runs.run_concat, lastClaim_concat]
    cases event with
    | tick =>
      simp only [runLeaderElection]
      split
      · exact ⟨ih.currentLeader, ih.nodeId, ih.isLeader⟩
      · exact ih
    | status nodeStatus =>
      simp only [runLeaderElection]
      split
      · refine ⟨rfl, ih.nodeId, ?_⟩
        simp [setLeader, ih.nodeId, eq_comm]
      · exact ih
    | failed => exact ih

/-! ## Two nodes -/

/-- The events of a node that gets the statuses in `sent`, each sender's own in order. -/
def Receives (sent : List NodeStatus) (events : List Event) : Prop :=
  Senders.SameStreams NodeStatus.nodeId (statusesOf events) sent

/-- No status is lost or handled twice. -/
theorem Receives.perm {sent : List NodeStatus} {events : List Event} (h : Receives sent events) :
    (statusesOf events).Perm sent :=
  Senders.SameStreams.perm h

def SameLeader (nodeId nodeId' : Uuid) (events events' : List Event) : Prop :=
  (after nodeId events).currentLeader = (after nodeId' events').currentLeader

def OneLeader (nodeId nodeId' : Uuid) (events events' : List Event) : Prop :=
  ¬ ((after nodeId events).nodeStatus.isLeader = true ∧
    (after nodeId' events').nodeStatus.isLeader = true)

def SingleClaimant (sent : List NodeStatus) : Prop :=
  ∀ status ∈ claims sent, ∀ status' ∈ claims sent, status.nodeId = status'.nodeId

theorem statusesOf_map (statuses : List NodeStatus) :
    statusesOf (statuses.map .status) = statuses := by
  simp [statusesOf, List.filterMap_map, Function.comp_def, Event.status?]

theorem sameLeader_iff (nodeId nodeId' : Uuid) (events events' : List Event) :
    SameLeader nodeId nodeId' events events' ↔ lastClaim events = lastClaim events' := by
  rw [SameLeader, (after_follows nodeId events).currentLeader,
    (after_follows nodeId' events').currentLeader]

theorem oneLeader_of_sameLeader {nodeId nodeId' : Uuid} (hne : nodeId ≠ nodeId')
    {events events' : List Event} (h : SameLeader nodeId nodeId' events events') :
    OneLeader nodeId nodeId' events events' := by
  intro hboth
  rcases hboth with ⟨hfirst, hsecond⟩
  rw [(after_follows nodeId events).isLeader, decide_eq_true_eq] at hfirst
  rw [(after_follows nodeId' events').isLeader, decide_eq_true_eq] at hsecond
  rw [sameLeader_iff, hfirst, hsecond, Option.some.injEq] at h
  exact hne h

/-- Two nodes agree when their last claims do, and then at most one of them leads. They agree in
every order of delivery exactly when only one node ever claims to lead. -/
theorem leaderAgreement_iff {nodeId nodeId' : Uuid} (hne : nodeId ≠ nodeId')
    (sent : List NodeStatus) :
    (∀ events events', Receives sent events → Receives sent events' →
        (SameLeader nodeId nodeId' events events' ↔ lastClaim events = lastClaim events') ∧
        (SameLeader nodeId nodeId' events events' → OneLeader nodeId nodeId' events events')) ∧
      ((∀ events events', Receives sent events → Receives sent events' →
        SameLeader nodeId nodeId' events events' ∧ OneLeader nodeId nodeId' events events') ↔
        SingleClaimant sent) := by
  constructor
  · intro events events' _ _
    exact ⟨sameLeader_iff nodeId nodeId' events events', oneLeader_of_sameLeader hne⟩
  · unfold SingleClaimant claims
    rw [← Senders.last_sender_agree_iff]
    constructor
    · intro h l m hl hm
      have hevents : Receives sent (l.map .status) := by rwa [Receives, statusesOf_map]
      have hevents' : Receives sent (m.map .status) := by rwa [Receives, statusesOf_map]
      have hsame := (sameLeader_iff _ _ _ _).mp (h _ _ hevents hevents').1
      simpa only [lastClaim, claims, statusesOf_map] using hsame
    · intro h events events' hevents hevents'
      have hsame := (sameLeader_iff nodeId nodeId' events events').mpr (h _ _ hevents hevents')
      exact ⟨hsame, oneLeader_of_sameLeader hne hsame⟩

theorem leaderAgreement_one :
    (1 : Uuid) ≠ 2 ∧ (SameLeader 1 2 [.tick, .status ⟨3, true, false⟩] [.status ⟨3, true, false⟩] ∧
      OneLeader 1 2 [.tick, .status ⟨3, true, false⟩] [.status ⟨3, true, false⟩]) := by
  have hne : (1 : Uuid) ≠ 2 := by decide
  refine ⟨hne, (leaderAgreement_iff hne [⟨3, true, false⟩]).2.mpr ?_ _ _ ?_ ?_⟩
  · intro status hmem status' hmem'
    simp only [claims, List.filter_cons_of_pos, List.filter_nil, List.mem_singleton] at hmem hmem'
    rw [hmem, hmem']
  · intro sender
    rfl
  · intro sender
    rfl

/-- Two nodes that get the same statuses end with one leader. -/
def LeaderAgreement : Prop :=
  ∀ (nodeId nodeId' : Uuid) (sent : List NodeStatus) (events events' : List Event),
    nodeId ≠ nodeId' → Receives sent events → Receives sent events' →
      SameLeader nodeId nodeId' events events' ∧ OneLeader nodeId nodeId' events events'

/-- Both nodes claim to lead, and each hears of its own claim last. -/
theorem not_leaderAgreement : ¬ LeaderAgreement := by
  intro h
  let sent : List NodeStatus := [⟨1, true, false⟩, ⟨2, true, false⟩]
  have hswap : Senders.SameStreams NodeStatus.nodeId (Senders.last NodeStatus.nodeId 1 sent) sent :=
    Senders.last_sameStreams 1 sent
  have hagree := h 1 2 sent [.status ⟨2, true, false⟩, .status ⟨1, true, false⟩]
    [.status ⟨1, true, false⟩, .status ⟨2, true, false⟩] (by decide) hswap (fun _ => rfl)
  have hlast := (sameLeader_iff _ _ _ _).mp hagree.1
  exact absurd hlast (by decide)

/-! ## A leader that no longer claims to lead -/

def lastFrom (nodeId : Uuid) (events : List Event) : Option NodeStatus :=
  ((statusesOf events).filter fun nodeStatus => nodeStatus.nodeId = nodeId).getLast?

/-- The last status from the recorded leader claims leadership. -/
def LeaderClaims (own : Uuid) (events : List Event) : Prop :=
  ∀ leaderId, (after own events).currentLeader = some leaderId →
    ∃ nodeStatus, lastFrom leaderId events = some nodeStatus ∧ nodeStatus.isLeader = true

/-- The sender of the last claim sends no status without one. -/
def KeepsClaiming (past : List Event) (nodeStatus : NodeStatus) : Prop :=
  lastClaim past = some nodeStatus.nodeId → nodeStatus.isLeader = true

theorem lastFrom_concat (nodeId : Uuid) (events : List Event) (event : Event) :
    lastFrom nodeId (events ++ [event]) = match event with
      | .status nodeStatus =>
        if nodeStatus.nodeId = nodeId then some nodeStatus else lastFrom nodeId events
      | _ => lastFrom nodeId events := by
  rw [lastFrom, statusesOf_concat]
  cases event with
  | status nodeStatus =>
    by_cases hid : nodeStatus.nodeId = nodeId <;> simp [lastFrom, Event.status?, hid]
  | tick | failed => simp [lastFrom, Event.status?]

theorem leaderClaims_iff_lastClaim (own : Uuid) (events : List Event) :
    LeaderClaims own events ↔ ∀ leaderId, lastClaim events = some leaderId →
      ∃ nodeStatus, lastFrom leaderId events = some nodeStatus ∧ nodeStatus.isLeader = true := by
  rw [LeaderClaims, (after_follows own events).currentLeader]

theorem leaderClaims_concat {own : Uuid} {past : List Event} (hpast : LeaderClaims own past)
    (event : Event) : LeaderClaims own (past ++ [event]) ↔
      ∀ nodeStatus, event = .status nodeStatus → KeepsClaiming past nodeStatus := by
  rw [leaderClaims_iff_lastClaim] at hpast ⊢
  cases event with
  | tick | failed =>
    refine iff_of_true ?_ (by simp)
    intro leaderId hleader
    rw [lastClaim_concat] at hleader
    rw [lastFrom_concat]
    exact hpast leaderId hleader
  | status nodeStatus =>
    simp only [Event.status.injEq, forall_eq', KeepsClaiming]
    constructor
    · intro h hleader
      by_contra hsilent
      obtain ⟨last, hlast, hclaims⟩ := h nodeStatus.nodeId (by
        rw [lastClaim_concat]
        simpa [hsilent] using hleader)
      rw [lastFrom_concat] at hlast
      simp only [if_true, Option.some.injEq] at hlast
      exact hsilent (hlast ▸ hclaims)
    · intro hkeeps leaderId hleader
      rw [lastClaim_concat] at hleader
      rw [lastFrom_concat]
      by_cases hclaims : nodeStatus.isLeader = true
      · simp only [hclaims, if_true, Option.some.injEq] at hleader
        exact ⟨nodeStatus, by simp [hleader], hclaims⟩
      · have hother : nodeStatus.nodeId ≠ leaderId := by
          intro hid
          simp only [hclaims, Bool.false_eq_true, if_false, ← hid] at hleader
          exact hclaims (hkeeps hleader)
        simp only [hclaims, Bool.false_eq_true, if_false] at hleader
        simpa [hother] using hpast leaderId hleader

/-- In every state the recorded leader still claims leadership exactly when nobody whose claim was
the last one sends a status without a claim. -/
theorem leaderClaims_iff (own : Uuid) (events : List Event) :
    (∀ past, past <+: events → LeaderClaims own past) ↔
      ∀ past nodeStatus, past ++ [.status nodeStatus] <+: events →
        KeepsClaiming past nodeStatus := by
  constructor
  · intro h past nodeStatus hprefix
    have hpast := h past ((List.prefix_append _ _).trans hprefix)
    exact (leaderClaims_concat hpast _).mp (h _ hprefix) nodeStatus rfl
  · intro h past
    induction past using List.reverseRecOn with
    | nil =>
      intro _ leaderId hleader
      simp [after, new] at hleader
    | append_singleton past event ih =>
      intro hprefix
      have hpast := ih ((List.prefix_append _ _).trans hprefix)
      apply (leaderClaims_concat hpast event).mpr
      rintro nodeStatus rfl
      exact h past nodeStatus hprefix

def LeaderStillClaims : Prop := ∀ own events, LeaderClaims own events

/-- The leader reports that it leads no longer, and stays recorded. -/
theorem not_leaderStillClaims : ¬ LeaderStillClaims := by
  intro h
  obtain ⟨last, hlast, hclaims⟩ :=
    h 1 [.status ⟨3, true, false⟩, .status ⟨3, false, false⟩] 3 (by decide)
  have hsilent : lastFrom 3 [.status ⟨3, true, false⟩, .status ⟨3, false, false⟩] =
      some ⟨3, false, false⟩ := by decide
  rw [hsilent, Option.some.injEq] at hlast
  subst hlast
  exact absurd hclaims (by decide)

end Election

end AnKi
