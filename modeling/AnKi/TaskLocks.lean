import AnKi.Library.Locks
import AnKi.TaskApi

/-!
# The lock on `tasks`

The operations of `TaskRecoveryManager` and the handler that reads the map, cut
at the points where the lock on `tasks` is taken and dropped. A guard lives to
the end of the block that declares it: `add_task` and `remove_task` still hold
theirs when `persist_tasks` asks for one of its own.
-/

namespace AnKi
open Files Locks
set_option autoImplicit false

namespace TaskLocks

/-- One operation, with the writing of the file accesses of `persist_tasks` in it. -/
inductive Call where
  | addTask (task : Task) (writing : Writing)
  | removeTask (taskId : Uuid) (writing : Writing)
  | recoverTasks
  | persistTasks (writing : Writing)
  | getTask (taskId : String)

inductive Spot where
  | idle
  | addInsert (task : Task) (writing : Writing)
  | removeErase (taskId : Uuid) (writing : Writing)
  | nestedLock (writing : Writing)
  | nestedWrite (writing : Writing)
  | nestedUnlock
  | persistWrite (writing : Writing)
  | recoverLock (recoveredTasks : TaskMap)
  | recoverStore (recoveredTasks : TaskMap)
  | getLookup (taskId : Uuid)
  | unlock (mode : Mode)

abbrev Point := Spot × List Call

abbrev Store := Api.Server

section Program
variable (json : TaskMapJson) (parseStr : String → Option Uuid)

def Store.persist (store : Store) (writing : Writing) : Store :=
  { store with disk := (store.taskManager.persistTasks json writing store.disk).2 }

/-- The map `recover_tasks` stores, unless it fails or has nothing to store. -/
def Store.readFile (store : Store) : Option TaskMap :=
  match readToString store.taskManager.storageFile store.disk with
  | .error _ => none
  | .ok content => if content = "" then none else json.fromStr content

def enter (rest : List Call) : Call → Instr Unit Store Point
  | .addTask task writing => .acquire () .write (.addInsert task writing, rest)
  | .removeTask taskId writing => .acquire () .write (.removeErase taskId writing, rest)
  | .persistTasks writing => .acquire () .read (.persistWrite writing, rest)
  | .recoverTasks => .act fun store =>
    match store.readFile json with
    | some recoveredTasks => (store, (.recoverLock recoveredTasks, rest))
    | none => (store, (.idle, rest))
  | .getTask taskId =>
    match parseStr taskId with
    | some taskId => .acquire () .read (.getLookup taskId, rest)
    | none => .act fun store => (store, (.idle, rest))

def instr : Point → Instr Unit Store Point
  | (.idle, []) => .halt
  | (.idle, call :: rest) => enter json parseStr rest call
  | (.addInsert task writing, rest) => .act fun store =>
    ({ store with taskManager := store.taskManager.insertTask task }, (.nestedLock writing, rest))
  | (.removeErase taskId writing, rest) => .act fun store =>
    match store.taskManager.tasks.get taskId with
    | some _ =>
      ({ store with taskManager := store.taskManager.eraseTask taskId },
        (.nestedLock writing, rest))
    | none => (store, (.unlock .write, rest))
  | (.nestedLock writing, rest) => .acquire () .read (.nestedWrite writing, rest)
  | (.nestedWrite writing, rest) => .act fun store =>
    (store.persist json writing, (.nestedUnlock, rest))
  | (.nestedUnlock, rest) => .release () (.unlock .write, rest)
  | (.persistWrite writing, rest) => .act fun store =>
    (store.persist json writing, (.unlock .read, rest))
  | (.recoverLock recoveredTasks, rest) => .acquire () .write (.recoverStore recoveredTasks, rest)
  | (.recoverStore recoveredTasks, rest) => .act fun store =>
    ({ store with taskManager := { store.taskManager with tasks := recoveredTasks } },
      (.unlock .write, rest))
  | (.getLookup _, rest) => .act fun store => (store, (.unlock .read, rest))
  | (.unlock _, rest) => .release () (.idle, rest)

def start {T : Type} (store : Store) (program : T → List Call) : Config T Unit Store Point :=
  ⟨store, fun _ => [], fun i => (.idle, program i)⟩

/-- The actions that do not end in a call of `persist_tasks` with the caller's guard held. -/
def NoNestedPersist : Point → Store → Prop
  | (.addInsert _ _, _), _ => False
  | (.removeErase taskId _, _), store => store.taskManager.tasks.get taskId = none
  | _, _ => True

/-- The tasks at the start, or those in the storage file. -/
def Sourced (store : Store) (tasks : TaskMap) : Prop :=
  tasks = store.taskManager.tasks ∨ store.readFile json = some tasks

/-- Neither an `add_task` nor a `remove_task` of a task that could be there. -/
def AbsentOnly (store : Store) : Call → Prop
  | .addTask _ _ => False
  | .removeTask taskId _ => ∀ tasks, Sourced json store tasks → tasks.get taskId = none
  | .recoverTasks | .persistTasks _ | .getTask _ => True

def NotNested (point : Point) : Prop := ∀ writing, point.1 ≠ .nestedLock writing

def guards : Point → List (Unit × Mode)
  | (.idle, _) | (.recoverLock _, _) => []
  | (.addInsert _ _, _) | (.removeErase _ _, _) | (.nestedLock _, _) | (.recoverStore _, _) =>
    [((), .write)]
  | (.nestedWrite _, _) | (.nestedUnlock, _) => [((), .read), ((), .write)]
  | (.persistWrite _, _) | (.getLookup _, _) => [((), .read)]
  | (.unlock mode, _) => [((), mode)]

end Program

/-! ## The operations in one piece -/

section Pieces
open TaskRecoveryManager
variable (json : TaskMapJson)

theorem addTask_pieces (task : Task) (writing : Writing) (store : Store) :
    Store.persist json { store with taskManager := store.taskManager.insertTask task } writing =
      ⟨(store.taskManager.addTask json task writing store.disk).1,
        (store.taskManager.addTask json task writing store.disk).2⟩ := rfl

theorem removeTask_pieces {taskId : Uuid} {task : Task} (writing : Writing) {store : Store}
    (h : store.taskManager.tasks.get taskId = some task) :
    Store.persist json { store with taskManager := store.taskManager.eraseTask taskId } writing =
      ⟨(store.taskManager.removeTask json taskId writing store.disk).1,
        (store.taskManager.removeTask json taskId writing store.disk).2⟩ := by
  rw [removeTask_of_some h]
  rfl

/-- The map read from the file is the one `recover_tasks` stores, if it stores one. -/
theorem recoverTasks_pieces (store : Store) :
    (store.taskManager.recoverTasks json store.disk).2 =
      match store.readFile json with
      | some recoveredTasks => { store.taskManager with tasks := recoveredTasks }
      | none => store.taskManager := by
  unfold recoverTasks Store.readFile
  cases readToString store.taskManager.storageFile store.disk with
  | error e => rfl
  | ok content =>
    by_cases hempty : content = ""
    · simp [hempty]
    · simp only [hempty, if_false]
      cases json.fromStr content with
      | none => rfl
      | some recoveredTasks => rfl

variable {json}

theorem mem_readFile_iff {self : TaskRecoveryManager} {disk : Disk} {m : TaskMap} :
    m ∈ Store.readFile json ⟨self, disk⟩ ↔ ∃ content, disk.get self.storageFile = some content ∧
      content ≠ [] ∧ (ofUtf8 content).bind json.fromStr = some m := by
  unfold Store.readFile readToString
  cases disk.get self.storageFile with
  | none => simp
  | some content =>
    cases htext : ofUtf8 content with
    | none => simp [htext]
    | some text =>
      have hcontent := utf8_of_ofUtf8 htext
      have hempty : content = [] ↔ text = "" := by rw [← hcontent, utf8_eq_nil]
      by_cases hnil : text = "" <;> simp [htext, hempty, hnil]

/-- A call of `persist_tasks` that stops leaves the old file, no map at all or the new one. -/
theorem readFile_persistTasks (hcut : json.RejectsCut) {self : TaskRecoveryManager}
    {writing : Writing} {disk : Disk} {m : TaskMap}
    (h : m ∈ Store.readFile json ⟨self, (self.persistTasks json writing disk).2⟩) :
    m = self.tasks ∨ m ∈ Store.readFile json ⟨self, disk⟩ := by
  cases hfile : disk.get self.storageFile with
  | none =>
    rw [(persistTasks_absent json self hfile writing).1] at h
    exact Or.inr h
  | some old =>
    obtain ⟨listing, fate⟩ := writing
    have hwhole : ∀ content, content = utf8 (json.toString listing self.tasks) →
        (ofUtf8 content).bind json.fromStr = some m → m = self.tasks := by
      intro content hcontent hread
      rw [hcontent, ofUtf8_utf8, Option.bind_some, json.fromStr_toString] at hread
      exact (Option.some.inj hread).symm
    cases fate with
    | openFails =>
      rw [persistTasks_openFails] at h
      exact Or.inr h
    | completes =>
      obtain ⟨content, hget, _, hread⟩ := mem_readFile_iff.mp h
      rw [persistTasks_completes json listing hfile] at hget
      exact Or.inl (hwhole content (Option.some.inj hget).symm hread)
    | stopsAfter written =>
      obtain ⟨content, hget, hne, hread⟩ := mem_readFile_iff.mp h
      rw [persistTasks_stopsAfter json listing hfile] at hget
      have hcontent := Option.some.inj hget
      have hsplit := List.take_append_drop written (utf8 (json.toString listing self.tasks))
      rw [hcontent] at hsplit
      by_cases hrest : (utf8 (json.toString listing self.tasks)).drop written = []
      · rw [hrest, List.append_nil] at hsplit
        exact Or.inl (hwhole content hsplit hread)
      · rw [SerdeJson.ofUtf8_cut hcut hsplit.symm hne hrest] at hread
        simp at hread

end Pieces

/-! ## The guards of a thread -/

section Guards
variable {json : TaskMapJson} {parseStr : String → Option Uuid}

/-- What a thread asks a guard for. -/
inductive Acquires (parseStr : String → Option Uuid) : Point → Mode → Point → Prop where
  | add (task : Task) (writing : Writing) (rest : List Call) :
      Acquires parseStr (.idle, .addTask task writing :: rest) .write
        (.addInsert task writing, rest)
  | remove (taskId : Uuid) (writing : Writing) (rest : List Call) :
      Acquires parseStr (.idle, .removeTask taskId writing :: rest) .write
        (.removeErase taskId writing, rest)
  | persist (writing : Writing) (rest : List Call) :
      Acquires parseStr (.idle, .persistTasks writing :: rest) .read (.persistWrite writing, rest)
  | get {text : String} {taskId : Uuid} (hparse : parseStr text = some taskId)
      (rest : List Call) :
      Acquires parseStr (.idle, .getTask text :: rest) .read (.getLookup taskId, rest)
  | nested (writing : Writing) (rest : List Call) :
      Acquires parseStr (.nestedLock writing, rest) .read (.nestedWrite writing, rest)
  | recover (recoveredTasks : TaskMap) (rest : List Call) :
      Acquires parseStr (.recoverLock recoveredTasks, rest) .write
        (.recoverStore recoveredTasks, rest)

inductive Releases : Point → Point → Prop where
  | nested (rest : List Call) : Releases (.nestedUnlock, rest) (.unlock .write, rest)
  | unlock (mode : Mode) (rest : List Call) : Releases (.unlock mode, rest) (.idle, rest)

/-- What an action does to the store. -/
inductive Effect (json : TaskMapJson) (store : Store) : Point → Store → Point → Prop where
  | reads {recoveredTasks : TaskMap} (hread : store.readFile json = some recoveredTasks)
      (rest : List Call) :
      Effect json store (.idle, .recoverTasks :: rest) store (.recoverLock recoveredTasks, rest)
  | readsNothing (rest : List Call) :
      Effect json store (.idle, .recoverTasks :: rest) store (.idle, rest)
  | refuses (text : String) (rest : List Call) :
      Effect json store (.idle, .getTask text :: rest) store (.idle, rest)
  | inserts (task : Task) (writing : Writing) (rest : List Call) :
      Effect json store (.addInsert task writing, rest)
        { store with taskManager := store.taskManager.insertTask task } (.nestedLock writing, rest)
  | erases {taskId : Uuid} {task : Task} (hget : store.taskManager.tasks.get taskId = some task)
      (writing : Writing) (rest : List Call) :
      Effect json store (.removeErase taskId writing, rest)
        { store with taskManager := store.taskManager.eraseTask taskId } (.nestedLock writing, rest)
  | erasesNothing {taskId : Uuid} (hget : store.taskManager.tasks.get taskId = none)
      (writing : Writing) (rest : List Call) :
      Effect json store (.removeErase taskId writing, rest) store (.unlock .write, rest)
  | persistsNested (writing : Writing) (rest : List Call) :
      Effect json store (.nestedWrite writing, rest) (store.persist json writing)
        (.nestedUnlock, rest)
  | persists (writing : Writing) (rest : List Call) :
      Effect json store (.persistWrite writing, rest) (store.persist json writing)
        (.unlock .read, rest)
  | stores (recoveredTasks : TaskMap) (rest : List Call) :
      Effect json store (.recoverStore recoveredTasks, rest)
        { store with taskManager := { store.taskManager with tasks := recoveredTasks } }
        (.unlock .write, rest)
  | looksUp (taskId : Uuid) (rest : List Call) :
      Effect json store (.getLookup taskId, rest) store (.unlock .read, rest)

theorem acquires_of_instr {point next : Point} {lock : Unit} {mode : Mode}
    (h : instr json parseStr point = .acquire lock mode next) :
    Acquires parseStr point mode next := by
  obtain ⟨spot, rest⟩ := point
  cases spot with
  | idle =>
    cases rest with
    | nil => cases h
    | cons call rest =>
      cases call with
      | addTask task writing =>
        obtain ⟨-, rfl, rfl⟩ := Instr.acquire.inj h
        exact .add task writing rest
      | removeTask taskId writing =>
        obtain ⟨-, rfl, rfl⟩ := Instr.acquire.inj h
        exact .remove taskId writing rest
      | recoverTasks => cases h
      | persistTasks writing =>
        obtain ⟨-, rfl, rfl⟩ := Instr.acquire.inj h
        exact .persist writing rest
      | getTask text =>
        cases hparse : parseStr text with
        | none => simp [instr, enter, hparse] at h
        | some taskId =>
          simp only [instr, enter, hparse, Instr.acquire.injEq] at h
          obtain ⟨-, rfl, rfl⟩ := h
          exact .get hparse rest
  | nestedLock writing =>
    obtain ⟨-, rfl, rfl⟩ := Instr.acquire.inj h
    exact .nested writing rest
  | recoverLock recoveredTasks =>
    obtain ⟨-, rfl, rfl⟩ := Instr.acquire.inj h
    exact .recover recoveredTasks rest
  | _ => cases h

theorem releases_of_instr {point next : Point} {lock : Unit}
    (h : instr json parseStr point = .release lock next) : Releases point next := by
  obtain ⟨spot, rest⟩ := point
  cases spot with
  | idle =>
    cases rest with
    | nil => cases h
    | cons call rest =>
      cases call with
      | getTask text => cases hparse : parseStr text <;> simp [instr, enter, hparse] at h
      | _ => cases h
  | nestedUnlock =>
    obtain ⟨-, rfl⟩ := Instr.release.inj h
    exact .nested rest
  | unlock mode =>
    obtain ⟨-, rfl⟩ := Instr.release.inj h
    exact .unlock mode rest
  | _ => cases h

theorem effect_of_act {point : Point} {perform : Store → Store × Point}
    (h : instr json parseStr point = .act perform) (store : Store) :
    Effect json store point (perform store).1 (perform store).2 := by
  obtain ⟨spot, rest⟩ := point
  cases spot with
  | idle =>
    cases rest with
    | nil => cases h
    | cons call rest =>
      cases call with
      | recoverTasks =>
        obtain rfl := Instr.act.inj h
        cases hread : store.readFile json with
        | none =>
          simp only [hread]
          exact .readsNothing rest
        | some recoveredTasks =>
          simp only [hread]
          exact .reads hread rest
      | getTask text =>
        cases hparse : parseStr text with
        | some taskId => simp [instr, enter, hparse] at h
        | none =>
          simp only [instr, enter, hparse, Instr.act.injEq] at h
          subst h
          exact .refuses text rest
      | _ => cases h
  | addInsert task writing =>
    obtain rfl := Instr.act.inj h
    exact .inserts task writing rest
  | removeErase taskId writing =>
    obtain rfl := Instr.act.inj h
    cases hget : store.taskManager.tasks.get taskId with
    | none =>
      simp only [hget]
      exact .erasesNothing hget writing rest
    | some task =>
      simp only [hget]
      exact .erases hget writing rest
  | nestedWrite writing =>
    obtain rfl := Instr.act.inj h
    exact .persistsNested writing rest
  | persistWrite writing =>
    obtain rfl := Instr.act.inj h
    exact .persists writing rest
  | recoverStore recoveredTasks =>
    obtain rfl := Instr.act.inj h
    exact .stores recoveredTasks rest
  | getLookup taskId =>
    obtain rfl := Instr.act.inj h
    exact .looksUp taskId rest
  | _ => cases h

theorem instr_halt {point : Point} (h : instr json parseStr point = .halt) :
    guards point = [] := by
  rcases point with ⟨spot, rest⟩
  cases spot <;> first
    | rfl
    | simp [instr] at h

/-- A guard is asked for with none in hand, except by a nested call. -/
theorem Acquires.guards_eq {point next : Point} {mode : Mode}
    (h : Acquires parseStr point mode next) :
    guards next = ((), mode) :: guards point ∧ NotNested next ∧
      (NotNested point → guards point = []) := by
  cases h with
  | add | remove | persist | get | recover => exact ⟨rfl, by simp [NotNested], fun _ => rfl⟩
  | nested writing =>
    -- the caller's write guard is still in hand
    exact ⟨rfl, by simp [NotNested], fun hpoint => absurd rfl (hpoint writing)⟩

theorem Releases.guards_eq {point next : Point} (h : Releases point next) :
    guards next = dropGuard () (guards point) ∧ NotNested next := by
  cases h with
  | nested | unlock => simp [guards, dropGuard, NotNested]

/-- An action leaves the guards alone, and a nested call is entered by no other action. -/
theorem Effect.guards_eq {store store' : Store} {point next : Point}
    (h : Effect json store point store' next) :
    guards next = guards point ∧ (NotNested next ↔ NoNestedPersist point store) := by
  cases h with
  | reads | readsNothing | refuses | inserts | persistsNested | persists | stores | looksUp =>
    simp [guards, NotNested, NoNestedPersist]
  | erases hget | erasesNothing hget => simp [guards, NotNested, NoNestedPersist, hget]

variable (json parseStr)

def lockProfile : LockProfile (instr json parseStr) where
  holds := guards
  halt := instr_halt
  acquire h := (acquires_of_instr h).guards_eq.1
  release h := (releases_of_instr h).guards_eq.1
  act h store := (effect_of_act h store).guards_eq.1

variable {json parseStr}
variable {T : Type} [DecidableEq T] {writersFirst : Bool}

omit [DecidableEq T] in
theorem start_held (store : Store) (program : T → List Call) :
    (lockProfile json parseStr).Held (start store program) := fun _ => rfl

/-! ## Nested calls of `persist_tasks` -/

theorem step_notNested {c c' : Config T Unit Store Point}
    (hstep : Step (instr json parseStr) writersFirst c c')
    (hallowed : ∀ i, NoNestedPersist (c.point i) c.data)
    (hc : ∀ i, NotNested (c.point i)) : ∀ i, NotNested (c'.point i) :=
  hstep.points (fun _ _ _ _ h => (acquires_of_instr h).guards_eq.2.1)
    (fun _ _ _ h => (releases_of_instr h).guards_eq.2)
    (fun i _ h => (effect_of_act h c.data).guards_eq.2.mpr (hallowed i)) hc

theorem reach_notNested {store : Store} {program : T → List Call} {c : Config T Unit Store Point}
    (hallowed : ∀ c, Reach (instr json parseStr) writersFirst (start store program) c →
      ∀ i, NoNestedPersist (c.point i) c.data)
    (hreach : Reach (instr json parseStr) writersFirst (start store program) c) :
    ∀ i, NotNested (c.point i) := by
  induction hreach with
  | refl => simp [start, NotNested]
  | tail hprev hstep ih => exact step_notNested hstep (hallowed _ hprev) ih

theorem deadlockFree_of_noNestedPersist {store : Store} {program : T → List Call}
    (hallowed : ∀ c, Reach (instr json parseStr) writersFirst (start store program) c →
      ∀ i, NoNestedPersist (c.point i) c.data) :
    DeadlockFree (instr json parseStr) writersFirst (start store program) := by
  rw [(start_held store program).deadlockFree_iff]
  intro c hreach i lock mode next h
  exact (acquires_of_instr h).guards_eq.2.2 (reach_notNested hallowed hreach i)

theorem exists_nested_step (json : TaskMapJson) (parseStr : String → Option Uuid)
    (writersFirst : Bool) {c : Config T Unit Store Point} {i : T}
    (h : ¬ NoNestedPersist (c.point i) c.data) :
    ∃ writing rest c', Step (instr json parseStr) writersFirst c c' ∧
      c'.point i = (.nestedLock writing, rest) := by
  have hact : ∃ perform, instr json parseStr (c.point i) = .act perform := by
    revert h
    generalize c.point i = point
    intro h
    obtain ⟨spot, rest⟩ := point
    cases spot with
    | addInsert task writing => exact ⟨_, rfl⟩
    | removeErase taskId writing => exact ⟨_, rfl⟩
    | _ => exact absurd trivial h
  obtain ⟨perform, hperform⟩ := hact
  have hnested : ¬ NotNested (perform c.data).2 := fun hnot =>
    h ((effect_of_act hperform c.data).guards_eq.2.mp hnot)
  simp only [NotNested, not_forall, not_not] at hnested
  obtain ⟨writing, hfate⟩ := hnested
  refine ⟨writing, (perform c.data).2.2, _, .act i hperform, ?_⟩
  simp [← hfate]

theorem not_deadlockFree_of_nested {store : Store} {program : T → List Call}
    {c : Config T Unit Store Point}
    (hreach : Reach (instr json parseStr) writersFirst (start store program) c) (i : T)
    (hnested : ¬ NoNestedPersist (c.point i) c.data) :
    ¬ DeadlockFree (instr json parseStr) writersFirst (start store program) := by
  rw [(start_held store program).deadlockFree_iff]
  intro hempty
  obtain ⟨writing, rest, c', hstep, hpoint⟩ :=
    exists_nested_step json parseStr writersFirst hnested
  have hguards := hempty c' (hreach.tail hstep) i () .read (.nestedWrite writing, rest)
  rw [hpoint] at hguards
  exact absurd (hguards rfl) (by simp [lockProfile, guards])

/-- Nothing deadlocks exactly when no caller that holds a guard goes on to `persist_tasks`. -/
theorem deadlockFree_iff_noNestedPersist (json : TaskMapJson)
    (parseStr : String → Option Uuid) (writersFirst : Bool) (store : Store)
    (program : T → List Call) :
    DeadlockFree (instr json parseStr) writersFirst (start store program) ↔
      ∀ c, Reach (instr json parseStr) writersFirst (start store program) c →
        ∀ i, NoNestedPersist (c.point i) c.data := by
  constructor
  · intro hfree c hreach i
    by_contra hnested
    exact not_deadlockFree_of_nested hreach i hnested hfree
  · exact deadlockFree_of_noNestedPersist

/-! ## Programs that change nothing -/

variable (json) in
/-- A thread of such a program holds no map but those that were there at the start. -/
def AtMost (store : Store) (point : Point) : Prop :=
  (∀ call ∈ point.2, AbsentOnly json store call) ∧
    match point.1 with
    | .removeErase taskId writing => AbsentOnly json store (.removeTask taskId writing)
    | .recoverLock tasks | .recoverStore tasks => Sourced json store tasks
    | .addInsert _ _ | .nestedLock _ | .nestedWrite _ | .nestedUnlock => False
    | .idle | .persistWrite _ | .getLookup _ | .unlock _ => True

variable (json) in
structure Unchanged (store : Store) (d : Store) : Prop where
  tasks : Sourced json store d.taskManager.tasks
  file : ∀ tasks ∈ d.readFile json, Sourced json store tasks

theorem AtMost.noNestedPersist {store d : Store} {point : Point} (h : AtMost json store point)
    (hd : Unchanged json store d) : NoNestedPersist point d := by
  obtain ⟨spot, rest⟩ := point
  cases spot with
  | addInsert task writing => exact h.2.elim
  | removeErase taskId writing => exact h.2 _ hd.tasks
  | _ => trivial

theorem AtMost.acquire {store : Store} {point next : Point} {mode : Mode}
    (h : AtMost json store point) (hacquires : Acquires parseStr point mode next) :
    AtMost json store next := by
  have hrest : ∀ {call : Call} {rest : List Call},
      (∀ other ∈ call :: rest, AbsentOnly json store other) →
        ∀ other ∈ rest, AbsentOnly json store other :=
    fun hall other hmem => hall other (List.mem_cons_of_mem _ hmem)
  obtain ⟨hcalls, hspot⟩ := h
  cases hacquires with
  | add task writing rest => exact (hcalls _ List.mem_cons_self).elim
  | remove taskId writing rest => exact ⟨hrest hcalls, hcalls _ List.mem_cons_self⟩
  | persist writing rest | get hparse rest => exact ⟨hrest hcalls, trivial⟩
  | nested writing rest => exact hspot.elim
  | recover recoveredTasks rest => exact ⟨hcalls, hspot⟩

theorem AtMost.release {store : Store} {point next : Point} (h : AtMost json store point)
    (hreleases : Releases point next) : AtMost json store next := by
  cases hreleases with
  | nested rest => exact h.2.elim
  | unlock mode rest => exact ⟨h.1, trivial⟩

theorem AtMost.act (hcut : json.RejectsCut) {store d d' : Store} {point next : Point}
    (h : AtMost json store point) (hd : Unchanged json store d)
    (heffect : Effect json d point d' next) :
    AtMost json store next ∧ Unchanged json store d' := by
  obtain ⟨hcalls, hspot⟩ := h
  cases heffect with
  | reads hread rest =>
    exact ⟨⟨fun call hmem => hcalls call (List.mem_cons_of_mem _ hmem), hd.file _ hread⟩, hd⟩
  | readsNothing rest | refuses text rest =>
    exact ⟨⟨fun call hmem => hcalls call (List.mem_cons_of_mem _ hmem), trivial⟩, hd⟩
  | inserts task writing rest | persistsNested writing rest => exact hspot.elim
  | erases hget writing rest =>
    have hnone := hspot _ hd.tasks
    rw [hget] at hnone
    cases hnone
  | erasesNothing hget writing rest => exact ⟨⟨hcalls, trivial⟩, hd⟩
  | persists writing rest =>
    refine ⟨⟨hcalls, trivial⟩, hd.tasks, ?_⟩
    intro tasks hread
    rcases readFile_persistTasks hcut hread with rfl | hold
    · exact hd.tasks
    · exact hd.file tasks hold
  | stores recoveredTasks rest => exact ⟨⟨hcalls, trivial⟩, hspot, hd.file⟩
  | looksUp taskId rest => exact ⟨⟨hcalls, trivial⟩, hd⟩

/-- Programs without `add_task` that remove nothing there could be deadlock nowhere. -/
theorem deadlockFree_of_absentOnly (hcut : json.RejectsCut) {store : Store}
    {program : T → List Call} (h : ∀ i, ∀ call ∈ program i, AbsentOnly json store call) :
    DeadlockFree (instr json parseStr) writersFirst (start store program) := by
  have hreached : ∀ c, Reach (instr json parseStr) writersFirst (start store program) c →
      (∀ i, AtMost json store (c.point i)) ∧ Unchanged json store c.data := by
    intro c hreach
    exact Reach.points (fun _ _ _ _ hpoint hinstr => hpoint.acquire (acquires_of_instr hinstr))
      (fun _ _ _ hpoint hinstr => hpoint.release (releases_of_instr hinstr))
      (fun _ _ d hpoint hdata hinstr => hpoint.act hcut hdata (effect_of_act hinstr d)) hreach
      (fun i => ⟨h i, trivial⟩) ⟨Or.inl rfl, fun _ hread => Or.inr hread⟩
  have hallowed : ∀ c, Reach (instr json parseStr) writersFirst (start store program) c →
      ∀ i, NoNestedPersist (c.point i) c.data :=
    fun c hreach i => ((hreached c hreach).1 i).noNestedPersist (hreached c hreach).2
  exact deadlockFree_of_noNestedPersist hallowed

end Guards

def addOne : Config Unit Unit Store Point :=
  start ⟨TaskRecoveryManager.new "tasks.json", ∅⟩ fun _ =>
    [.addTask ⟨1, "data"⟩ ⟨default, .completes⟩]

/-- One thread that adds one task waits for the guard it holds. -/
theorem not_deadlockFree_addOne :
    ¬ DeadlockFree (instr Wire.taskMapJson Wire.parseHyphenated) false addOne := by
  have hgrant : Grantable (instr Wire.taskMapJson Wire.parseHyphenated) false addOne ()
      () .write := by
    intro j mode hheld
    simp [addOne, start] at hheld
  have hstep : Step (instr Wire.taskMapJson Wire.parseHyphenated) false addOne _ :=
    .acquire () rfl hgrant
  exact not_deadlockFree_of_nested (.single hstep) () fun h => h

end TaskLocks

end AnKi
