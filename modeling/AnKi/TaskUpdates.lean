import AnKi.TaskLocks

/-!
# task_recovery.rs: what becomes of an update

`persist_tasks` is private, so other modules come to it through `add_task` and
`remove_task` only, and these two still write under the lock when they call it.
-/

namespace AnKi
open Files Locks
set_option autoImplicit false

namespace TaskUpdates
open TaskLocks

def Public : Call → Prop
  | .addTask _ _ | .removeTask _ _ | .recoverTasks | .getTask _ => True
  | .persistTasks _ => False

def Adds : Call → Prop
  | .addTask _ _ => True
  | .removeTask _ _ | .recoverTasks | .persistTasks _ | .getTask _ => False

section States
variable (json : TaskMapJson) (store : Store)

def UpdateOf (m tasks : TaskMap) : Prop :=
  (∃ task : Task, tasks = m.insert task.taskId task) ∨ ∃ taskId, tasks = m.remove taskId

/-- Spots that come after a `persist_tasks` call got its guard are never reached. -/
def AtSpot : Spot → Prop
  | .nestedWrite _ | .nestedUnlock | .persistWrite _ => False
  | .recoverLock recoveredTasks | .recoverStore recoveredTasks =>
    store.readFile json = some recoveredTasks
  | .idle | .addInsert _ _ | .removeErase _ _ | .nestedLock _ | .getLookup _ | .unlock _ => True

def Adding : Spot → Prop
  | .addInsert _ _ | .nestedLock _ => True
  | _ => False

/-- The calls begun so far are the ones missing from `calls`. An `add_task` among them is the one
the thread is in. -/
def AtPoint (calls : List Call) (point : Point) : Prop :=
  AtSpot json store point.1 ∧
    ∃ begun, calls = begun ++ point.2 ∧ (Adding point.1 ∨ ∀ call ∈ begun, ¬ Adds call)

variable {T : Type} [DecidableEq T]

structure Quiet (program : T → List Call) (c : Config T Unit Store Point) : Prop where
  disk : c.data.disk = store.disk
  storageFile : c.data.taskManager.storageFile = store.taskManager.storageFile
  point : ∀ i, AtPoint json store (program i) (c.point i)
  sourced : (∀ i, NotNested (c.point i)) → Sourced json store c.data.taskManager.tasks
  updated : ∃ m, Sourced json store m ∧
    (c.data.taskManager.tasks = m ∨ UpdateOf m c.data.taskManager.tasks)

/-- No `add_task` has returned, the file is as it was, and at most one update was made. Nobody
looks a task up after it, and a thread that made it waits for ever while the data stay as they are
and nobody else gets the lock. -/
structure Stalls (parseStr : String → Option Uuid) (writersFirst : Bool)
    (program : T → List Call) (c : Config T Unit Store Point) : Prop where
  disk : c.data.disk = store.disk
  updated : ∃ m, Sourced json store m ∧
    (c.data.taskManager.tasks = m ∨ UpdateOf m c.data.taskManager.tasks)
  returned : ∀ i rest, c.point i = (.idle, rest) →
    ∃ returned, program i = returned ++ rest ∧ ∀ call ∈ returned, ¬ Adds call
  seen : ∀ i taskId rest, c.point i = (.getLookup taskId, rest) →
    Sourced json store c.data.taskManager.tasks
  stalled : ∀ i writing rest, c.point i = (.nestedLock writing, rest) →
    ∀ c', Reach (instr json parseStr) writersFirst c c' →
      c'.point i = c.point i ∧ c'.data = c.data ∧ ∀ j, j ≠ i → c'.held j = []

end States

/-! ## The points of one thread -/

section Points
variable {json : TaskMapJson} {parseStr : String → Option Uuid} {store : Store}
variable {calls : List Call}

theorem AtPoint.next {spot next : Spot} {rest : List Call}
    (h : AtPoint json store calls (spot, rest)) (hnext : AtSpot json store next)
    (hadding : Adding spot → Adding next) : AtPoint json store calls (next, rest) := by
  obtain ⟨_, begun, hbegun, hadds⟩ := h
  exact ⟨hnext, begun, hbegun, hadds.imp_left hadding⟩

theorem AtPoint.enter {next : Spot} {call : Call} {rest : List Call}
    (h : AtPoint json store calls (.idle, call :: rest)) (hnext : AtSpot json store next)
    (hadds : Adds call → Adding next) : AtPoint json store calls (next, rest) := by
  obtain ⟨_, begun, hbegun, hidle | hbefore⟩ := h
  · cases hidle
  · refine ⟨hnext, begun ++ [call], by simp [hbegun], ?_⟩
    by_cases hcall : Adds call
    · exact Or.inl (hadds hcall)
    · right
      intro other hother
      rcases List.mem_append.mp hother with hother | hother
      · exact hbefore other hother
      · rw [List.mem_singleton.mp hother]
        exact hcall

theorem AtPoint.acquire {point next : Point} {mode : Mode}
    (hpublic : ∀ call ∈ calls, Public call) (h : AtPoint json store calls point)
    (hpoint : NotNested point) (hacquires : Acquires parseStr point mode next) :
    AtPoint json store calls next := by
  cases hacquires with
  | add task writing rest => exact h.enter trivial fun _ => trivial
  | remove taskId writing rest => exact h.enter trivial False.elim
  | persist writing rest =>
    -- the call is private
    obtain ⟨_, begun, hbegun, _⟩ := h
    have hcall : Public (.persistTasks writing) := hpublic _ (by simp [hbegun])
    exact hcall.elim
  | get hparse rest => exact h.enter trivial False.elim
  | nested writing rest => exact absurd rfl (hpoint writing)
  | recover recoveredTasks rest => exact h.next h.1 id

theorem AtPoint.release {point next : Point} (h : AtPoint json store calls point)
    (hreleases : Releases point next) : AtPoint json store calls next := by
  cases hreleases with
  | nested rest => exact h.1.elim
  | unlock mode rest => exact h.next trivial id

/-- What an action can do to the store. -/
structure Acts (json : TaskMapJson) (store : Store) (calls : List Call) (point : Point)
    (d d' : Store) (next : Point) : Prop where
  disk : d'.disk = d.disk
  storageFile : d'.taskManager.storageFile = d.taskManager.storageFile
  reached : AtPoint json store calls next
  tasks : d'.taskManager.tasks = d.taskManager.tasks ∨
    ((), .write) ∈ guards point ∧
      (Sourced json store d'.taskManager.tasks ∨
        UpdateOf d.taskManager.tasks d'.taskManager.tasks ∧ ¬ NotNested next)

theorem readFile_eq {d : Store} (hdisk : d.disk = store.disk)
    (hfile : d.taskManager.storageFile = store.taskManager.storageFile) :
    d.readFile json = store.readFile json := by
  simp only [Store.readFile, hdisk, hfile]

theorem AtPoint.act {point next : Point} {d d' : Store} (h : AtPoint json store calls point)
    (heffect : Effect json d point d' next) (hdisk : d.disk = store.disk)
    (hfile : d.taskManager.storageFile = store.taskManager.storageFile) :
    Acts json store calls point d d' next := by
  cases heffect with
  | reads hread rest =>
    have hspot : AtSpot json store (.recoverLock _) := (readFile_eq hdisk hfile).symm.trans hread
    exact ⟨rfl, rfl, h.enter hspot False.elim, Or.inl rfl⟩
  | readsNothing rest | refuses text rest =>
    exact ⟨rfl, rfl, h.enter trivial False.elim, Or.inl rfl⟩
  | inserts task writing rest =>
    refine ⟨rfl, rfl, h.next trivial fun _ => trivial, Or.inr ⟨by simp [guards], Or.inr ?_⟩⟩
    exact ⟨Or.inl ⟨task, rfl⟩, fun hnot => hnot writing rfl⟩
  | @erases taskId task hget writing rest =>
    refine ⟨rfl, rfl, h.next trivial fun _ => trivial, Or.inr ⟨by simp [guards], Or.inr ?_⟩⟩
    exact ⟨Or.inr ⟨taskId, rfl⟩, fun hnot => hnot writing rfl⟩
  | erasesNothing hget writing rest => exact ⟨rfl, rfl, h.next trivial False.elim, Or.inl rfl⟩
  | stores recoveredTasks rest =>
    exact ⟨rfl, rfl, h.next trivial id, Or.inr ⟨by simp [guards], Or.inl (Or.inr h.1)⟩⟩
  | looksUp taskId rest => exact ⟨rfl, rfl, h.next trivial id, Or.inl rfl⟩
  | persistsNested writing rest | persists writing rest => exact h.1.elim

end Points

/-! ## All threads -/

section Threads
variable {json : TaskMapJson} {parseStr : String → Option Uuid} {store : Store}
variable {T : Type} [DecidableEq T] {writersFirst : Bool} {program : T → List Call}

omit [DecidableEq T] in
theorem blocked_of_nested {c : Config T Unit Store Point}
    (hheld : (lockProfile json parseStr).Held c) {i : T} {writing : Writing} {rest : List Call}
    (hpoint : c.point i = (.nestedLock writing, rest)) :
    Blocked (instr json parseStr) () i c := by
  refine ⟨⟨.read, (.nestedWrite writing, rest), ?_⟩, ?_⟩
  · rw [hpoint]
    rfl
  · rw [hheld i, hpoint]
    exact List.mem_singleton_self _

/-- Where somebody has a guard that the lock is to be taken for, nobody is in a nested call. -/
theorem notNested_of_guard {c : Config T Unit Store Point}
    (hheld : (lockProfile json parseStr).Held c) (hexclusive : Exclusive c) {i : T} {mode : Mode}
    (hguard : ((), mode) ∈ c.held i) (hi : NotNested (c.point i)) :
    ∀ j, NotNested (c.point j) := by
  intro j
  by_cases hj : j = i
  · rw [hj]
    exact hi
  · intro writing hnested
    have hblocked : Blocked (instr json parseStr) () j c :=
      blocked_of_nested hheld (Prod.ext hnested rfl)
    exact hexclusive j i () mode hj hblocked.writes hguard

omit [DecidableEq T] in
theorem start_quiet (program : T → List Call) : Quiet json store program (start store program) :=
  ⟨rfl, rfl, fun _ => ⟨trivial, [], rfl, Or.inr (by simp)⟩, fun _ => Or.inl rfl,
    store.taskManager.tasks, Or.inl rfl, Or.inl rfl⟩

/-- A step that leaves the data alone. -/
theorem Quiet.moved {c : Config T Unit Store Point} (h : Quiet json store program c) {i : T}
    {next : Point} {held : T → List (Unit × Mode)} (hnext : AtPoint json store (program i) next)
    (hi : NotNested (c.point i)) :
    Quiet json store program ⟨c.data, held, Function.update c.point i next⟩ := by
  refine ⟨h.disk, h.storageFile, ?_, ?_, h.updated⟩
  · intro j
    by_cases hj : j = i
    · subst hj
      simpa using hnext
    · simpa [hj] using h.point j
  · intro hall
    apply h.sourced
    intro j
    by_cases hj : j = i
    · rw [hj]
      exact hi
    · simpa [hj] using hall j

theorem Quiet.act {c : Config T Unit Store Point} (h : Quiet json store program c)
    (hheld : (lockProfile json parseStr).Held c) (hexclusive : Exclusive c) {i : T}
    {perform : Store → Store × Point} (hinstr : instr json parseStr (c.point i) = .act perform) :
    Quiet json store program ⟨(perform c.data).1, c.held,
      Function.update c.point i (perform c.data).2⟩ := by
  have hacts := (h.point i).act (effect_of_act hinstr c.data) h.disk h.storageFile
  have hi : NotNested (c.point i) := by
    intro writing hnested
    rw [show c.point i = (.nestedLock writing, (c.point i).2) from Prod.ext hnested rfl] at hinstr
    cases hinstr
  have hmoved : Quiet json store program ⟨c.data, c.held, _⟩ := h.moved hacts.reached hi
  refine ⟨hacts.disk.trans h.disk, hacts.storageFile.trans h.storageFile, hmoved.point, ?_, ?_⟩
  · intro hall
    rcases hacts.tasks with hsame | ⟨_, hsourced | ⟨_, hnested⟩⟩
    · rw [hsame]
      exact hmoved.sourced hall
    · exact hsourced
    · have hnext := hall i
      simp only [Function.update_self] at hnext
      exact absurd hnext hnested
  · rcases hacts.tasks with hsame | ⟨hwrite, hsourced | ⟨hupdate, _⟩⟩
    · rw [hsame]
      exact h.updated
    · exact ⟨_, hsourced, Or.inl rfl⟩
    · -- the thread writes, so nobody has made an update yet
      have hguard : ((), .write) ∈ c.held i := (hheld i).symm ▸ hwrite
      exact ⟨_, h.sourced (notNested_of_guard hheld hexclusive hguard hi), Or.inr hupdate⟩

theorem Quiet.step (hpublic : ∀ i, ∀ call ∈ program i, Public call)
    {c c' : Config T Unit Store Point} (h : Quiet json store program c)
    (hheld : (lockProfile json parseStr).Held c) (hexclusive : Exclusive c)
    (hstep : Step (instr json parseStr) writersFirst c c') : Quiet json store program c' := by
  cases hstep with
  | @acquire i lock mode next hinstr grant =>
    have hi : NotNested (c.point i) := by
      intro writing hnested
      have hblocked : Blocked (instr json parseStr) () i c :=
        blocked_of_nested hheld (Prod.ext hnested rfl)
      exact hblocked.not_grantable i mode grant
    exact h.moved ((h.point i).acquire (hpublic i) hi (acquires_of_instr hinstr)) hi
  | @release i lock next hinstr =>
    apply h.moved ((h.point i).release (releases_of_instr hinstr))
    intro writing hnested
    rw [show c.point i = (.nestedLock writing, (c.point i).2) from Prod.ext hnested rfl] at hinstr
    cases hinstr
  | act i hinstr => exact h.act hheld hexclusive hinstr

theorem reach_quiet (hpublic : ∀ i, ∀ call ∈ program i, Public call)
    {c : Config T Unit Store Point}
    (hreach : Reach (instr json parseStr) writersFirst (start store program) c) :
    Quiet json store program c ∧ (lockProfile json parseStr).Held c ∧ Exclusive c := by
  have hstart : Exclusive (start store program) := by simp [Exclusive, start]
  induction hreach with
  | refl => exact ⟨start_quiet program, start_held store program, hstart⟩
  | tail hbefore hstep ih =>
    obtain ⟨hquiet, hheld, hexclusive⟩ := ih
    exact ⟨hquiet.step hpublic hheld hexclusive hstep, hheld.step hstep, hexclusive.step hstep⟩

/-- An action without a guard does nothing to the store. -/
theorem act_outside {point next : Point} {d d' : Store} (heffect : Effect json d point d' next)
    (houtside : ∀ mode, ((), mode) ∉ guards point) : d' = d := by
  cases heffect with
  | reads | readsNothing | refuses | erasesNothing | looksUp => rfl
  | inserts | erases | stores => exact absurd (List.mem_singleton_self _) (houtside .write)
  | persistsNested => exact absurd List.mem_cons_self (houtside .read)
  | persists => exact absurd (List.mem_singleton_self _) (houtside .read)

theorem updates_stall (hpublic : ∀ i, ∀ call ∈ program i, Public call)
    {c : Config T Unit Store Point}
    (hreach : Reach (instr json parseStr) writersFirst (start store program) c) :
    Stalls json store parseStr writersFirst program c := by
  obtain ⟨hquiet, hheld, hexclusive⟩ := reach_quiet hpublic hreach
  refine ⟨hquiet.disk, hquiet.updated, ?_, ?_, ?_⟩
  · intro i rest hpoint
    obtain ⟨_, begun, hbegun, hadds⟩ := hquiet.point i
    rw [hpoint] at hbegun hadds
    exact ⟨begun, hbegun, hadds.resolve_left id⟩
  · intro i taskId rest hpoint
    have hguard : ((), .read) ∈ c.held i := by
      rw [hheld i, hpoint]
      exact List.mem_singleton_self _
    apply hquiet.sourced
    apply notNested_of_guard hheld hexclusive hguard
    rw [hpoint]
    simp [NotNested]
  · intro i writing rest hpoint c' hlater
    obtain ⟨hblocked, hsame, hdata⟩ := LockProfile.Blocked.frozen
      (fun _ _ hinstr houtside d => act_outside (effect_of_act hinstr d) houtside) hheld hexclusive
      (blocked_of_nested hheld hpoint) hlater
    refine ⟨hsame, hdata, ?_⟩
    intro j hj
    apply List.eq_nil_iff_forall_not_mem.mpr
    intro guard
    exact hexclusive.reach hlater i j () guard.2 hj.symm hblocked.writes

end Threads

def addAndGet : Bool → List Call
  | true => [.addTask ⟨1, "data"⟩ ⟨default, .completes⟩]
  | false => [.getTask "00000000-0000-0000-0000-000000000001"]

/-- One thread that adds a task, and one that waits to look it up. -/
theorem updates_stall_addAndGet : ∃ c writing,
    c.point true = (.nestedLock writing, []) ∧
      Stalls Wire.taskMapJson ⟨TaskRecoveryManager.new "tasks.json", ∅⟩ Wire.parseHyphenated true
        addAndGet c := by
  let store : Store := ⟨TaskRecoveryManager.new "tasks.json", ∅⟩
  let writing : Writing := ⟨default, .completes⟩
  have hgrant : Grantable (instr Wire.taskMapJson Wire.parseHyphenated) true
      (start store addAndGet) true () .write := by
    intro j mode hheld
    simp [start] at hheld
  let added : Config Bool Unit Store Point := ⟨store,
    Function.update (fun _ => []) true [((), .write)],
    Function.update (fun i => (.idle, addAndGet i)) true (.addInsert ⟨1, "data"⟩ writing, [])⟩
  have hfirst : Step (instr Wire.taskMapJson Wire.parseHyphenated) true (start store addAndGet)
      added := .acquire true rfl hgrant
  have hsecond : Step (instr Wire.taskMapJson Wire.parseHyphenated) true added _ := .act true rfl
  refine ⟨_, writing, ?_, updates_stall ?_ ((Relation.ReflTransGen.single hfirst).tail hsecond)⟩
  · simp
  · intro i call hcall
    cases i <;> obtain rfl := List.mem_singleton.mp hcall <;> exact trivial

end TaskUpdates

end AnKi
