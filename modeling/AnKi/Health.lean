import AnKi.Library.Runs
import AnKi.Library.Streaks
import Mathlib.Algebra.Group.Nat.Defs

/-!
# health.rs: the monitor of the health checks

One counter serves the checks of all nodes: an unhealthy check of any node
raises it and a healthy one of any node resets it. The counter is a `u32` and
wraps.
-/

namespace AnKi
set_option autoImplicit false

structure HealthCheck where
  nodeId : String
  isHealthy : Bool
  deriving DecidableEq

namespace Health
open Streaks

inductive RecvError where
  | lagged (skipped : UInt64)
  | closed
  deriving DecidableEq

abbrev Outcome := Except RecvError HealthCheck

/-- One iteration: the new count, and the node for which corrective action is taken. -/
def monitorHealth (unhealthyThreshold unhealthyCount : UInt32) : Outcome → UInt32 × Option String
  | .ok healthCheck =>
    let unhealthyCount := if !healthCheck.isHealthy then unhealthyCount + 1 else 0
    (unhealthyCount,
      if unhealthyCount ≥ unhealthyThreshold then some healthCheck.nodeId else none)
  | .error _ => (unhealthyCount, none)

def countAfter (unhealthyThreshold : UInt32) (outcomes : List Outcome) : UInt32 :=
  Runs.run (fun count outcome => (monitorHealth unhealthyThreshold count outcome).1) 0 outcomes

def actionOn (unhealthyThreshold : UInt32) (past : List Outcome) (outcome : Outcome) :
    Option String :=
  (monitorHealth unhealthyThreshold (countAfter unhealthyThreshold past) outcome).2

def received (outcomes : List Outcome) : List HealthCheck := outcomes.filterMap Except.toOption

def checksFrom (nodeId : String) (outcomes : List Outcome) : List HealthCheck :=
  (received outcomes).filter fun healthCheck => healthCheck.nodeId = nodeId

def unhealthy (healthCheck : HealthCheck) : Bool := !healthCheck.isHealthy

/-- Corrective action is taken for a node on its own checks, whenever its last
`unhealthyThreshold` checks are all unhealthy. -/
def VerdictsPerNode (unhealthyThreshold : UInt32) (outcomes : List Outcome) : Prop :=
  ∀ past outcome, past ++ [outcome] <+: outcomes → ∀ nodeId,
    actionOn unhealthyThreshold past outcome = some nodeId ↔
      ∃ healthCheck, outcome = .ok healthCheck ∧ healthCheck.nodeId = nodeId ∧
        LastAll unhealthy unhealthyThreshold.toNat (checksFrom nodeId (past ++ [outcome]))

/-- At every check the last ones received from anywhere are all unhealthy exactly when the last
ones from its sender are. -/
def Unmixed (unhealthyThreshold : UInt32) (outcomes : List Outcome) : Prop :=
  ∀ past healthCheck, past ++ [.ok healthCheck] <+: outcomes →
    (LastAll unhealthy unhealthyThreshold.toNat (received (past ++ [.ok healthCheck])) ↔
      LastAll unhealthy unhealthyThreshold.toNat
        (checksFrom healthCheck.nodeId (past ++ [.ok healthCheck])))

def Countable (outcomes : List Outcome) : Prop :=
  ∀ past, past <+: outcomes → streak unhealthy (received past) < 2 ^ 32

theorem received_concat_ok (past : List Outcome) (healthCheck : HealthCheck) :
    received (past ++ [.ok healthCheck]) = received past ++ [healthCheck] := by
  simp [received, Except.toOption]

theorem received_concat_error (past : List Outcome) (e : RecvError) :
    received (past ++ [.error e]) = received past := by
  simp [received, Except.toOption, List.filterMap_cons]

/-- The counter is the streak over all nodes, as far as `u32` can count. -/
theorem countAfter_eq (unhealthyThreshold : UInt32) (outcomes : List Outcome) :
    countAfter unhealthyThreshold outcomes =
      UInt32.ofNat (streak unhealthy (received outcomes)) := by
  induction outcomes using List.reverseRecOn with
  | nil => simp [countAfter, received]
  | append_singleton past outcome ih =>
    unfold countAfter at ih ⊢
    rw [Runs.run_concat, ih]
    cases outcome with
    | error e =>
      rw [received_concat_error]
      rfl
    | ok healthCheck =>
      rw [received_concat_ok, streak_concat]
      cases hhealthy : healthCheck.isHealthy with
      | true => simp [monitorHealth, unhealthy, hhealthy]
      | false => simp [monitorHealth, unhealthy, hhealthy]

theorem actionOn_ok (unhealthyThreshold : UInt32) (past : List Outcome)
    (healthCheck : HealthCheck) : actionOn unhealthyThreshold past (.ok healthCheck) =
      if countAfter unhealthyThreshold (past ++ [.ok healthCheck]) ≥ unhealthyThreshold then
        some healthCheck.nodeId else none := by
  unfold countAfter
  rw [Runs.run_concat]
  rfl

theorem actionOn_eq_some_iff {unhealthyThreshold : UInt32} {past : List Outcome}
    {healthCheck : HealthCheck}
    (hcount : streak unhealthy (received (past ++ [.ok healthCheck])) < 2 ^ 32)
    (nodeId : String) : actionOn unhealthyThreshold past (.ok healthCheck) = some nodeId ↔
      healthCheck.nodeId = nodeId ∧ LastAll unhealthy unhealthyThreshold.toNat
        (received (past ++ [.ok healthCheck])) := by
  have hle : countAfter unhealthyThreshold (past ++ [.ok healthCheck]) ≥ unhealthyThreshold ↔
      unhealthyThreshold.toNat ≤ streak unhealthy (received (past ++ [.ok healthCheck])) := by
    rw [countAfter_eq, ge_iff_le, UInt32.le_iff_toNat_le, UInt32.toNat_ofNat_of_lt' hcount]
  rw [actionOn_ok, lastAll_iff, ← hle]
  split
  · rename_i hreached
    simp [hreached]
  · rename_i hreached
    simp [hreached]

/-- Below the limit of the counter the verdicts are per node on exactly the unmixed streams. -/
theorem verdictsPerNode_iff (unhealthyThreshold : UInt32) {outcomes : List Outcome}
    (hcount : Countable outcomes) :
    VerdictsPerNode unhealthyThreshold outcomes ↔ Unmixed unhealthyThreshold outcomes := by
  constructor
  · intro h past healthCheck hpast
    have haction := h past (.ok healthCheck) hpast healthCheck.nodeId
    rw [actionOn_eq_some_iff (hcount _ hpast)] at haction
    simpa using haction
  · intro h past outcome hpast nodeId
    cases outcome with
    | error e => simp [actionOn, monitorHealth]
    | ok healthCheck =>
      rw [actionOn_eq_some_iff (hcount _ hpast), h past healthCheck hpast]
      constructor
      · intro haction
        rcases haction with ⟨rfl, hlast⟩
        exact ⟨healthCheck, rfl, rfl, hlast⟩
      · intro hverdict
        rcases hverdict with ⟨_, heq, rfl, hlast⟩
        obtain rfl := Except.ok.inj heq
        exact ⟨rfl, hlast⟩

theorem unmixed_one (outcomes : List Outcome) : Unmixed 1 outcomes := by
  intro past healthCheck _
  have hown : checksFrom healthCheck.nodeId (past ++ [.ok healthCheck]) =
      checksFrom healthCheck.nodeId past ++ [healthCheck] := by
    simp [checksFrom, received_concat_ok]
  rw [hown, received_concat_ok, lastAll_iff, lastAll_iff, streak_concat, streak_concat]
  split <;> simp

theorem unmixed_of_single (unhealthyThreshold : UInt32) (nodeId : String) {outcomes : List Outcome}
    (h : ∀ healthCheck, .ok healthCheck ∈ outcomes → healthCheck.nodeId = nodeId) :
    Unmixed unhealthyThreshold outcomes := by
  intro past healthCheck hpast
  have hall : ∀ other ∈ received (past ++ [.ok healthCheck]), other.nodeId = nodeId := by
    intro other hother
    obtain ⟨outcome, hmem, hok⟩ := List.mem_filterMap.mp hother
    cases outcome with
    | error e => simp [Except.toOption] at hok
    | ok check =>
      obtain rfl := Option.some.inj hok
      exact h check (hpast.subset hmem)
  have hself : healthCheck.nodeId = nodeId := h healthCheck (hpast.subset (by simp))
  have hown : checksFrom healthCheck.nodeId (past ++ [.ok healthCheck]) =
      received (past ++ [.ok healthCheck]) := by
    apply List.filter_eq_self.mpr
    intro other hother
    simp [hself, hall other hother]
  rw [hown]

theorem countable_of_length {outcomes : List Outcome} (h : outcomes.length < 2 ^ 32) :
    Countable outcomes := by
  intro past hpast
  have hlength : (received past).length ≤ outcomes.length :=
    (List.length_filterMap_le _ _).trans hpast.length_le
  exact ((streak_le_length _ _).trans hlength).trans_lt h

theorem Unmixed.concat {unhealthyThreshold : UInt32} {outcomes : List Outcome}
    (h : Unmixed unhealthyThreshold outcomes) (healthCheck : HealthCheck)
    (hlast : LastAll unhealthy unhealthyThreshold.toNat
        (received (outcomes ++ [.ok healthCheck])) ↔
      LastAll unhealthy unhealthyThreshold.toNat
        (checksFrom healthCheck.nodeId (outcomes ++ [.ok healthCheck]))) :
    Unmixed unhealthyThreshold (outcomes ++ [.ok healthCheck]) := by
  intro past other hpast
  rcases List.prefix_concat_iff.mp hpast with heq | hearlier
  · obtain ⟨rfl, hother⟩ := List.append_inj' heq rfl
    obtain rfl := Except.ok.inj (List.singleton_injective hother)
    exact hlast
  · exact h past other hearlier

/-- A second node recovers before it fails in its turn. -/
theorem verdictsPerNode_twoNodes :
    let outcomes : List Outcome := [.ok ⟨"a", false⟩, .ok ⟨"a", false⟩, .ok ⟨"b", true⟩,
      .ok ⟨"b", false⟩, .ok ⟨"b", false⟩]
    VerdictsPerNode 2 outcomes ∧ actionOn 2 (outcomes.take 4) (.ok ⟨"b", false⟩) = some "b" := by
  intro outcomes
  have hfirst : Unmixed 2 [.ok ⟨"a", false⟩, .ok ⟨"a", false⟩] :=
    unmixed_of_single 2 "a" (by simp)
  have hunmixed : Unmixed 2 outcomes :=
    ((hfirst.concat ⟨"b", true⟩ (by decide)).concat ⟨"b", false⟩ (by decide)).concat ⟨"b", false⟩
      (by decide)
  exact ⟨(verdictsPerNode_iff 2 (countable_of_length (by decide))).mpr hunmixed, by decide⟩

/-- One unhealthy check of each of two nodes brings action against the second. -/
theorem not_verdictsPerNode :
    ¬ VerdictsPerNode 2 [.ok ⟨"a", false⟩, .ok ⟨"b", false⟩] := by
  intro h
  have haction := h [.ok ⟨"a", false⟩] (.ok ⟨"b", false⟩) (List.prefix_refl _) "b"
  obtain ⟨_, _, _, hlast⟩ := haction.mp (by decide)
  exact absurd hlast (by decide)

/-! ## An alarm that lasts -/

/-- While the checks after one that brought corrective action are all unhealthy, each of them
brings it too. -/
def AlarmLasts (unhealthyThreshold : UInt32) (outcomes : List Outcome) : Prop :=
  ∀ past alarm since check, past ++ .ok alarm :: since ++ [.ok check] <+: outcomes →
    actionOn unhealthyThreshold past (.ok alarm) = some alarm.nodeId →
    (∀ healthCheck ∈ received (since ++ [.ok check]), unhealthy healthCheck = true) →
      actionOn unhealthyThreshold (past ++ .ok alarm :: since) (.ok check) = some check.nodeId

/-- The increment at an unhealthy check stays below the limit of the counter. -/
def NoOverflow (unhealthyThreshold : UInt32) (outcomes : List Outcome) : Prop :=
  ∀ past check, past ++ [.ok check] <+: outcomes → unhealthy check = true →
    (countAfter unhealthyThreshold past).toNat + 1 < 2 ^ 32

theorem toNat_countAfter (unhealthyThreshold : UInt32) (outcomes : List Outcome) :
    (countAfter unhealthyThreshold outcomes).toNat =
      streak unhealthy (received outcomes) % 2 ^ 32 := by
  rw [countAfter_eq, UInt32.toNat_ofNat']

theorem actionOn_self_iff (unhealthyThreshold : UInt32) (past : List Outcome)
    (check : HealthCheck) : actionOn unhealthyThreshold past (.ok check) = some check.nodeId ↔
      unhealthyThreshold.toNat ≤ streak unhealthy (received (past ++ [.ok check])) % 2 ^ 32 := by
  rw [actionOn_ok, ← toNat_countAfter unhealthyThreshold, ← UInt32.le_iff_toNat_le]
  split
  · rename_i hreached
    exact iff_of_true rfl hreached
  · rename_i hreached
    exact iff_of_false (by simp) hreached

theorem received_append (past since : List Outcome) :
    received (past ++ since) = received past ++ received since := List.filterMap_append

/-- The last check received, with nothing but errors after it. -/
theorem exists_last_received {past : List Outcome} (h : received past ≠ []) :
    ∃ before check errors, past = before ++ .ok check :: errors ∧ received errors = [] := by
  induction past using List.reverseRecOn with
  | nil => exact absurd rfl h
  | append_singleton past outcome ih =>
    cases outcome with
    | ok check => exact ⟨past, check, [], rfl, rfl⟩
    | error e =>
      rw [received_concat_error] at h
      obtain ⟨before, check, errors, rfl, herrors⟩ := ih h
      refine ⟨before, check, errors ++ [.error e], by simp, ?_⟩
      rw [received_concat_error, herrors]

/-- Streaks grow by one, so they stay countable when none of them reaches the limit. -/
theorem countable_of_ne {outcomes : List Outcome}
    (h : ∀ past check, past ++ [.ok check] <+: outcomes → unhealthy check = true →
      streak unhealthy (received past) + 1 ≠ 2 ^ 32) : Countable outcomes := by
  intro past
  induction past using List.reverseRecOn with
  | nil => simp [received]
  | append_singleton past outcome ih =>
    intro hpast
    have hlt := ih ((List.prefix_append past [outcome]).trans hpast)
    cases outcome with
    | error e =>
      rw [received_concat_error]
      exact hlt
    | ok check =>
      rw [received_concat_ok, streak_concat]
      split
      · rename_i hunhealthy
        have hne := h past check hpast hunhealthy
        omega
      · exact Nat.two_pow_pos 32

theorem Countable.alarmLasts {outcomes : List Outcome} (h : Countable outcomes)
    (unhealthyThreshold : UInt32) : AlarmLasts unhealthyThreshold outcomes := by
  intro past alarm since check hprefix halarm hsince
  have hsplit : past ++ .ok alarm :: since ++ [.ok check] =
      (past ++ [.ok alarm]) ++ (since ++ [.ok check]) := by simp
  have hbefore := h (past ++ [.ok alarm]) ((List.prefix_append _ _).trans (hsplit ▸ hprefix))
  have hafter := h _ hprefix
  rw [actionOn_self_iff, Nat.mod_eq_of_lt hbefore] at halarm
  rw [actionOn_self_iff, Nat.mod_eq_of_lt hafter, hsplit, received_append,
    streak_append unhealthy hsince]
  exact Nat.le_add_right_of_le halarm

theorem Countable.noOverflow {outcomes : List Outcome} (h : Countable outcomes)
    (unhealthyThreshold : UInt32) : NoOverflow unhealthyThreshold outcomes := by
  intro past check hprefix hunhealthy
  have hpast := h past ((List.prefix_append past _).trans hprefix)
  have hnext := h _ hprefix
  rw [received_concat_ok, streak_concat, if_pos hunhealthy] at hnext
  rw [toNat_countAfter, Nat.mod_eq_of_lt hpast]
  exact hnext

theorem NoOverflow.countable {unhealthyThreshold : UInt32} {outcomes : List Outcome}
    (h : NoOverflow unhealthyThreshold outcomes) : Countable outcomes := by
  apply countable_of_ne
  intro past check hprefix hunhealthy hstreak
  have hcount := h past check hprefix hunhealthy
  rw [toNat_countAfter] at hcount
  omega

/-- The counter is zero after `2 ^ 32` unhealthy checks, and there is no action at the last. -/
theorem AlarmLasts.countable {unhealthyThreshold : UInt32} (hpos : 1 ≤ unhealthyThreshold)
    {outcomes : List Outcome} (h : AlarmLasts unhealthyThreshold outcomes) :
    Countable outcomes := by
  apply countable_of_ne
  intro past check hprefix hunhealthy hstreak
  have hreceived : received past ≠ [] := by
    intro hnil
    simp [hnil] at hstreak
  obtain ⟨before, alarm, errors, rfl, herrors⟩ := exists_last_received hreceived
  have hsame : received (before ++ .ok alarm :: errors) = received (before ++ [.ok alarm]) := by
    rw [List.append_cons, received_append, herrors, List.append_nil]
  have halarm : actionOn unhealthyThreshold before (.ok alarm) = some alarm.nodeId := by
    rw [actionOn_self_iff, ← hsame]
    have hthreshold := unhealthyThreshold.toNat_lt
    omega
  have hsince : ∀ healthCheck ∈ received (errors ++ [.ok check]),
      unhealthy healthCheck = true := by
    rw [received_concat_ok, herrors]
    simpa using hunhealthy
  have haction := h before alarm errors check hprefix halarm hsince
  rw [actionOn_self_iff, received_concat_ok, streak_concat, if_pos hunhealthy, hstreak,
    Nat.mod_self] at haction
  have hthreshold := UInt32.le_iff_toNat_le.mp hpos
  rw [UInt32.toNat_one] at hthreshold
  omega

/-- The alarm lasts in exactly the streams without `2 ^ 32` unhealthy checks in a row, and in
exactly these the counter does not overflow. -/
theorem alarmLasts_iff_countable {unhealthyThreshold : UInt32} (hpos : 1 ≤ unhealthyThreshold)
    (outcomes : List Outcome) : (AlarmLasts unhealthyThreshold outcomes ↔ Countable outcomes) ∧
      (NoOverflow unhealthyThreshold outcomes ↔ Countable outcomes) :=
  ⟨⟨fun h => h.countable hpos, fun h => h.alarmLasts unhealthyThreshold⟩,
    ⟨fun h => h.countable, fun h => h.noOverflow unhealthyThreshold⟩⟩

theorem alarmLasts_two : AlarmLasts 1 [.ok ⟨"a", false⟩, .ok ⟨"a", false⟩] :=
  (alarmLasts_iff_countable (by decide) _).1.mpr (countable_of_length (by decide))

theorem not_countable_replicate {healthCheck : HealthCheck} (h : unhealthy healthCheck = true) :
    ¬ Countable (List.replicate (2 ^ 32) (.ok healthCheck)) := by
  intro hcount
  have hlt := hcount _ (List.prefix_refl _)
  have hreceived : received (List.replicate (2 ^ 32) (.ok healthCheck)) =
      List.replicate (2 ^ 32) healthCheck := by
    have hok : Except.toOption (.ok healthCheck : Outcome) = some healthCheck := rfl
    rw [received, List.filterMap_replicate_of_some hok]
  have hall : ∀ check ∈ List.replicate (2 ^ 32) healthCheck, unhealthy check = true := by
    intro check hcheck
    rw [List.eq_of_mem_replicate hcheck]
    exact h
  have hstreak := streak_append unhealthy hall []
  rw [List.nil_append, streak_nil, List.length_replicate, Nat.zero_add] at hstreak
  rw [hreceived, hstreak] at hlt
  exact Nat.lt_irrefl _ hlt

/-- The alarm raised by the first of `2 ^ 32` unhealthy checks lapses at the last of them. -/
theorem not_alarmLasts : ¬ AlarmLasts 1 (List.replicate (2 ^ 32) (.ok ⟨"a", false⟩)) ∧
    ¬ NoOverflow 1 (List.replicate (2 ^ 32) (.ok ⟨"a", false⟩)) := by
  constructor
  · intro h
    exact not_countable_replicate rfl (h.countable (by decide))
  · intro h
    exact not_countable_replicate rfl h.countable

end Health

end AnKi
