import AnKi.LoadBalancer

/-!
# Load reports and the counts they replace

A node reports its outstanding tasks, and the report is handled some time later,
in the order of sending. It replaces the count whatever was assigned or completed
in between, so the count is as good as the last report was when it was handled.
-/

namespace AnKi.LoadReports
open LoadBalancer Ledger
set_option autoImplicit false

inductive Event where
  | assignTask (order : List Uuid)
  | completeTask (nodeId : Uuid)
  | send (nodeId : Uuid)
  | deliver
  deriving DecidableEq

/-- `standing` is how the count of a node compares with its outstanding tasks, as far as this can
be told from the reports: it is set when one is handled. -/
structure State where
  account : Account
  inFlight : List NodeLoadInfo
  standing : Uuid → Ordering

def start (nodes : List Uuid) : State :=
  ⟨⟨nodes.foldl (fun balancer nodeId => balancer.addNode nodeId) LoadBalancer.new, fun _ => 0⟩,
    [], fun _ => .eq⟩

/-- The count of the node cannot be raised. -/
def Full (s : State) (nodeId : Uuid) : Prop :=
  (s.account.balancer.nodes.get nodeId).map (fun nodeInfo => nodeInfo.taskCount.toNat) =
    some (2 ^ 64 - 1)

instance (s : State) (nodeId : Uuid) : Decidable (Full s nodeId) :=
  inferInstanceAs (Decidable (_ = _))

/-- A count that wraps to zero is too low. -/
def assigned (s : State) (nodeId : Uuid) : Ordering :=
  if Full s nodeId then .lt else s.standing nodeId

/-- A count that is too low is right again when the last task is completed, since it stops at
zero. -/
def completed (s : State) (nodeId : Uuid) : Ordering :=
  if s.standing nodeId = .lt ∧ s.account.outstanding nodeId = 1 then .eq else s.standing nodeId

def step (s : State) : Event → State
  | .assignTask order =>
    { s with
      account := Ledger.step s.account (.assignTask order)
      standing := match (s.account.balancer.assignTask order).1 with
        | some nodeId => Function.update s.standing nodeId (assigned s nodeId)
        | none => s.standing }
  | .completeTask nodeId =>
    { s with
      account := Ledger.step s.account (.completeTask nodeId)
      standing := Function.update s.standing nodeId (completed s nodeId) }
  | .send nodeId =>
    { s with inFlight := s.inFlight ++ [⟨nodeId, UInt64.ofNat (s.account.outstanding nodeId)⟩] }
  | .deliver =>
    match s.inFlight with
    | [] => s
    | report :: rest =>
      { account := { s.account with balancer := s.account.balancer.monitorNodeLoad report }
        inFlight := rest
        standing := Function.update s.standing report.nodeId
          (compare report.taskCount.toNat (s.account.outstanding report.nodeId)) }

def Possible (s : State) : Event → Prop
  | .assignTask order => Ledger.Possible s.account (.assignTask order)
  | .completeTask nodeId => Ledger.Possible s.account (.completeTask nodeId)
  | .send _ | .deliver => True

/-- The count of every registered node compares with its outstanding tasks as it stands. -/
def Tracked (s : State) : Prop :=
  ∀ nodeId nodeInfo, s.account.balancer.nodes.get nodeId = some nodeInfo →
    compare nodeInfo.taskCount.toNat (s.account.outstanding nodeId) = s.standing nodeId

theorem foldl_addNode_count {nodes : List Uuid} {balancer : LoadBalancer}
    (h : ∀ nodeId nodeInfo, balancer.nodes.get nodeId = some nodeInfo → nodeInfo.taskCount = 0)
    {nodeId : Uuid} {nodeInfo : NodeLoadInfo}
    (hget : (nodes.foldl (fun balancer nodeId => balancer.addNode nodeId) balancer).nodes.get
      nodeId = some nodeInfo) : nodeInfo.taskCount = 0 := by
  induction nodes generalizing balancer with
  | nil => exact h nodeId nodeInfo hget
  | cons added nodes ih =>
    apply ih _ hget
    intro other info hother
    rw [addNode_nodes, HashMap.get_insert] at hother
    split at hother
    · obtain rfl := Option.some.inj hother
      rfl
    · exact h other info hother

theorem start_tracked (nodes : List Uuid) : Tracked (start nodes) := by
  intro nodeId nodeInfo hget
  have hzero : nodeInfo.taskCount = 0 := foldl_addNode_count (by simp) hget
  rw [hzero]
  rfl

theorem Tracked.assignTask {s : State} (hs : Tracked s) {order : List Uuid}
    (horder : HashMap.IterationOrder order s.account.balancer.nodes) :
    Tracked (step s (.assignTask order)) := by
  intro other info hother
  obtain ⟨_, hassign⟩ | ⟨nodeId, nodeInfo, hleast, hassign⟩ := assignTask_cases horder
  · simp only [step, Ledger.step, hassign] at hother ⊢
    exact hs other info hother
  · simp only [step, Ledger.step, hassign, HashMap.get_insert] at hother ⊢
    by_cases hid : other = nodeId
    · subst hid
      simp only [if_true, Option.some.injEq] at hother
      subst hother
      have hcount := hs other nodeInfo hleast.registered
      have hlt := nodeInfo.taskCount.toNat_lt
      simp only [Function.update_self, assigned, Full, hleast.registered, Option.map_some,
        Option.some.injEq, UInt64.toNat_add, UInt64.toNat_one, ← hcount]
      split
      · rename_i hfull
        rw [Nat.compare_eq_lt]
        omega
      · rename_i hroom
        rw [Nat.mod_eq_of_lt (by omega)]
        simp [compare, compareOfLessAndEq]
    · simp only [hid, if_false] at hother
      simpa [hid] using hs other info hother

theorem completeTask_get_of_ne {balancer : LoadBalancer} {nodeId other : Uuid}
    (hne : other ≠ nodeId) :
    (balancer.completeTask nodeId).nodes.get other = balancer.nodes.get other := by
  unfold completeTask
  split
  · split
    · simp [HashMap.get_insert, hne]
    · rfl
  · rfl

/-- The count goes down by one and stops at zero. -/
theorem completeTask_get {balancer : LoadBalancer} {nodeId : Uuid} {after : NodeLoadInfo}
    (h : (balancer.completeTask nodeId).nodes.get nodeId = some after) :
    ∃ before, balancer.nodes.get nodeId = some before ∧
      after.taskCount.toNat = before.taskCount.toNat - 1 := by
  unfold completeTask at h
  cases hget : balancer.nodes.get nodeId with
  | none => simp [hget] at h
  | some before =>
    refine ⟨before, rfl, ?_⟩
    simp only [hget] at h
    split at h
    · rename_i hpos
      have hone : (1 : UInt64) ≤ before.taskCount := by
        rw [UInt64.le_iff_toNat_le]
        exact UInt64.lt_iff_toNat_lt.mp hpos
      simp only [HashMap.get_insert_self, Option.some.injEq] at h
      subst h
      exact UInt64.toNat_sub_of_le _ _ hone
    · rename_i hzero
      rw [hget, Option.some.injEq] at h
      subst h
      rw [gt_iff_lt, UInt64.lt_iff_toNat_lt] at hzero
      simp only [UInt64.toNat_zero] at hzero
      omega

theorem Tracked.completeTask {s : State} (hs : Tracked s) {nodeId : Uuid}
    (hassigned : 0 < s.account.outstanding nodeId) :
    Tracked (step s (.completeTask nodeId)) := by
  intro other info hother
  simp only [step, Ledger.step] at hother ⊢
  by_cases hid : other = nodeId
  · subst hid
    obtain ⟨before, hbefore, hcount⟩ := completeTask_get hother
    have hstanding := hs other before hbefore
    simp only [Function.update_self, completed, ← hstanding, hcount, Nat.compare_eq_lt]
    split
    · rename_i hlast
      rw [Nat.compare_eq_eq]
      omega
    · rename_i hmore
      rcases Nat.lt_trichotomy before.taskCount.toNat (s.account.outstanding other) with h | h | h
      · rw [Nat.compare_eq_lt.mpr h, Nat.compare_eq_lt]
        omega
      · rw [Nat.compare_eq_eq.mpr h, Nat.compare_eq_eq]
        omega
      · rw [Nat.compare_eq_gt.mpr h, Nat.compare_eq_gt]
        omega
  · rw [completeTask_get_of_ne hid] at hother
    simpa [hid] using hs other info hother

theorem Tracked.deliver {s : State} (hs : Tracked s) : Tracked (step s .deliver) := by
  unfold step
  cases hflight : s.inFlight with
  | nil => exact hs
  | cons report rest =>
    intro other info hother
    simp only [monitorNodeLoad] at hother
    by_cases hid : other = report.nodeId
    · subst hid
      cases hget : s.account.balancer.nodes.get report.nodeId with
      | none => simp [hget] at hother
      | some nodeInfo =>
        simp only [hget, HashMap.get_insert_self, Option.some.injEq] at hother
        subst hother
        simp
    · have hbefore : s.account.balancer.nodes.get other = some info := by
        cases hget : s.account.balancer.nodes.get report.nodeId with
        | none => simpa [hget] using hother
        | some nodeInfo => simpa [hget, HashMap.get_insert, hid] using hother
      simpa [hid] using hs other info hbefore

theorem Tracked.step {s : State} (hs : Tracked s) {event : Event} (hpossible : Possible s event) :
    Tracked (step s event) := by
  cases event with
  | assignTask order => exact hs.assignTask hpossible
  | completeTask nodeId => exact hs.completeTask hpossible
  | send nodeId => exact hs
  | deliver => exact hs.deliver

theorem Tracked.balanced_iff {s : State} (hs : Tracked s) : Balanced s.account ↔
    ∀ nodeId, (s.account.balancer.nodes.get nodeId).isSome → s.standing nodeId = .eq := by
  constructor
  · intro h nodeId hsome
    obtain ⟨nodeInfo, hget⟩ := Option.isSome_iff_exists.mp hsome
    rw [← hs nodeId nodeInfo hget, Nat.compare_eq_eq]
    exact h nodeId nodeInfo hget
  · intro h nodeId nodeInfo hget
    have hstanding := hs nodeId nodeInfo hget
    rw [h nodeId (by simp [hget])] at hstanding
    exact Nat.compare_eq_eq.mp hstanding

/-- The counts are off just where the reports left them off. -/
def AsReported (s : State) : Prop :=
  Tracked s ∧ (Balanced s.account ↔
    ∀ nodeId, (s.account.balancer.nodes.get nodeId).isSome → s.standing nodeId = .eq)

/-- In every state of every run the count of a node compares with its outstanding tasks as the
last report handled for it did, but for a count too low that a node without tasks puts right. -/
theorem counts_follow_reports {nodes : List Uuid} {events : List Event}
    (hpossible : Runs.Along step Possible (start nodes) events) :
    Runs.Always step AsReported (start nodes) events := by
  intro past hpast
  have htracked : Tracked (Runs.run step (start nodes) past) :=
    (hpossible.take hpast).invariant (fun _ _ hs he => hs.step he) (start_tracked nodes)
  exact ⟨htracked, htracked.balanced_iff⟩

theorem counts_follow_reports_timely :
    Runs.Always step AsReported (start [7]) [.assignTask [7], .send 7, .deliver] := by
  have hpossible : Runs.Along step Possible (start [7]) [.assignTask [7], .send 7, .deliver] := by
    simp only [Runs.along_cons, Runs.along_nil, Possible, Ledger.Possible]
    decide
  exact counts_follow_reports hpossible

/-- With no report in flight the counts are the outstanding tasks. -/
def ReportsKeepCounts : Prop :=
  ∀ (nodes : List Uuid) (events : List Event),
    Runs.Along step Possible (start nodes) events →
      Runs.Always step (fun s => s.inFlight = [] → Balanced s.account) (start nodes) events

/-- A task is assigned between the sending of a report and its handling. -/
theorem not_reportsKeepCounts : ¬ ReportsKeepCounts := by
  intro h
  have hpossible : Runs.Along step Possible (start [7]) [.send 7, .assignTask [7], .deliver] := by
    simp only [Runs.along_cons, Runs.along_nil, Possible, Ledger.Possible]
    decide
  have hbalanced := h [7] _ hpossible _ (List.prefix_refl _) rfl 7 ⟨7, 0⟩ (by decide)
  exact absurd hbalanced (by decide)

end AnKi.LoadReports
