import AnKi.Library.Runs
import AnKi.TaskRecovery

/-!
# api.rs: requests, restarts and the tasks that survive them

A history is a list of requests and process restarts. Next to the server runs the
map its clients are entitled to: the requests answered with a success status,
applied in order. `parseStr` is `Uuid::parse_str`.
-/

namespace AnKi
open Files
set_option autoImplicit false

namespace Api

inductive StatusCode where
  | ok
  | created
  | badRequest
  | notFound
  deriving Repr, DecidableEq

def StatusCode.isSuccess : StatusCode → Bool
  | .ok | .created => true
  | .badRequest | .notFound => false

inductive Body where
  | text (s : String)
  | json (task : Task)
  deriving DecidableEq

structure Reply where
  body : Body
  status : StatusCode
  deriving DecidableEq

section Handlers
variable (json : TaskMapJson) (parseStr : String → Option Uuid)

def getTaskHandler (taskId : String) (taskManager : TaskRecoveryManager) : Reply :=
  match parseStr taskId with
  | none => ⟨.text "Invalid UUID", .badRequest⟩
  | some taskId =>
    match taskManager.tasks.get taskId with
    | some task => ⟨.json task, .ok⟩
    | none => ⟨.text "Task not found", .notFound⟩

def addTaskHandler (newTask : Task) (writing : Writing) (taskManager : TaskRecoveryManager)
    (disk : Disk) : Reply × TaskRecoveryManager × Disk :=
  (⟨.text "Task added", .created⟩, taskManager.addTask json newTask writing disk)

def deleteTaskHandler (taskId : String) (writing : Writing) (taskManager : TaskRecoveryManager)
    (disk : Disk) : Reply × TaskRecoveryManager × Disk :=
  match parseStr taskId with
  | none => (⟨.text "Invalid UUID", .badRequest⟩, taskManager, disk)
  | some taskId => (⟨.text "Task deleted", .ok⟩, taskManager.removeTask json taskId writing disk)

end Handlers

/-! ## Histories -/

inductive Request where
  | post (newTask : Task) (writing : Writing)
  | delete (taskId : String) (writing : Writing)
  | restart

structure Server where
  taskManager : TaskRecoveryManager
  disk : Disk

section History
variable (json : TaskMapJson) (parseStr : String → Option Uuid)

/-- A restart is a new manager on the same storage file that recovers from it. -/
def serve (server : Server) : Request → Server × Option Reply
  | .post newTask writing =>
    let (reply, taskManager, disk) :=
      addTaskHandler json newTask writing server.taskManager server.disk
    (⟨taskManager, disk⟩, some reply)
  | .delete taskId writing =>
    let (reply, taskManager, disk) :=
      deleteTaskHandler json parseStr taskId writing server.taskManager server.disk
    (⟨taskManager, disk⟩, some reply)
  | .restart =>
    let fresh := TaskRecoveryManager.new server.taskManager.storageFile
    (⟨(fresh.recoverTasks json server.disk).2, server.disk⟩, none)

def Request.apply (m : TaskMap) : Request → TaskMap
  | .post newTask _ => m.insert newTask.taskId newTask
  | .delete taskId _ =>
    match parseStr taskId with
    | some taskId => m.remove taskId
    | none => m
  | .restart => m

/-- A request counts once it has been answered with a success status. -/
def acknowledge (m : TaskMap) (request : Request) : Option Reply → TaskMap
  | some reply => if reply.status.isSuccess then request.apply parseStr m else m
  | none => m

/-- The fate of the `persist_tasks` call a request leads to, if it leads to one. -/
def persistCall (server : Server) : Request → Option WriteFate
  | .post _ writing => some writing.fate
  | .delete taskId writing =>
    match parseStr taskId with
    | some taskId =>
      if (server.taskManager.tasks.get taskId).isSome then some writing.fate else none
    | none => none
  | .restart => none

/-- The server, the map acknowledged to its clients, and whether the last call of
`persist_tasks`, if there was any, found the storage file and was not stopped. -/
structure Session where
  server : Server
  acked : TaskMap
  persisted : Bool

def Session.step (s : Session) (request : Request) : Session where
  server := (serve json parseStr s.server request).1
  acked := acknowledge parseStr s.acked request (serve json parseStr s.server request).2
  persisted :=
    match persistCall parseStr s.server request with
    | some fate => fate == .completes && (s.server.disk.get s.server.taskManager.storageFile).isSome
    | none => s.persisted

/-- The storage file has the tasks `m`, or is absent and there are none. -/
def Stored (disk : Disk) (path : String) (m : TaskMap) : Prop :=
  (∃ listing, disk.get path = some (utf8 (json.toString listing m))) ∨
    disk.get path = none ∧ m = ∅

def Session.start (path : String) (m : TaskMap) (disk : Disk) : Session :=
  ⟨⟨⟨m, path⟩, disk⟩, m, true⟩

/-- After each restart the manager holds exactly the acknowledged tasks. -/
def DurableAtRestarts (s : Session) (history : List Request) : Prop :=
  ∀ past, past ++ [.restart] <+: history →
    (Runs.run (Session.step json parseStr) s (past ++ [.restart])).server.taskManager.tasks =
      (Runs.run (Session.step json parseStr) s past).acked

/-- A restart comes only when the last `persist_tasks` call went through. -/
def PersistedAtRestart (s : Session) (request : Request) : Prop :=
  request = .restart → s.persisted = true

structure Session.Sound (s : Session) : Prop where
  memory : s.server.taskManager.tasks = s.acked
  file : s.persisted = true → Stored json s.server.disk s.server.taskManager.storageFile s.acked

end History

section Soundness
open TaskRecoveryManager
variable {json : TaskMapJson} {parseStr : String → Option Uuid}

theorem stored_of_persisted (json : TaskMapJson) (taskManager : TaskRecoveryManager)
    {writing : Writing} {disk : Disk}
    (h : (writing.fate == .completes && (disk.get taskManager.storageFile).isSome) = true) :
    Stored json (taskManager.persistTasks json writing disk).2 taskManager.storageFile
      taskManager.tasks := by
  obtain ⟨listing, fate⟩ := writing
  simp only [Bool.and_eq_true, beq_iff_eq] at h
  obtain ⟨rfl, hfile⟩ := h
  obtain ⟨content, hcontent⟩ := Option.isSome_iff_exists.mp hfile
  exact Or.inl ⟨listing, persistTasks_completes json listing hcontent⟩

theorem recoverTasks_of_stored (hempty : json.RejectsEmpty) {path : String} {m : TaskMap}
    {disk : Disk} (h : Stored json disk path m) :
    ((new path).recoverTasks json disk).2 = ⟨m, path⟩ := by
  rcases h with ⟨listing, hfile⟩ | ⟨hnone, rfl⟩
  · rw [recoverTasks_encoding hempty hfile]
    rfl
  · rw [recoverTasks_absent json _ hnone]
    rfl

theorem Session.Sound.post {s : Session} (hs : s.Sound json) (newTask : Task) (writing : Writing) :
    (s.step json parseStr (.post newTask writing)).Sound json := by
  constructor
  · show s.server.taskManager.tasks.insert newTask.taskId newTask = _
    rw [hs.memory]
    rfl
  · intro hpersisted
    have hfile := stored_of_persisted json (s.server.taskManager.insertTask newTask) hpersisted
    rw [insertTask_tasks, hs.memory] at hfile
    exact hfile

/-- A request with an id that does not parse changes nothing. -/
theorem step_delete_of_parse_none {s : Session} {text : String} (hparse : parseStr text = none)
    (writing : Writing) : s.step json parseStr (.delete text writing) = s := by
  simp [Session.step, serve, deleteTaskHandler, hparse, acknowledge, StatusCode.isSuccess,
    persistCall]

theorem Session.Sound.delete {s : Session} (hs : s.Sound json) {text : String} {taskId : Uuid}
    (hparse : parseStr text = some taskId) (writing : Writing) :
    (s.step json parseStr (.delete text writing)).Sound json := by
  have hacked : (s.step json parseStr (.delete text writing)).acked = s.acked.remove taskId := by
    simp [Session.step, serve, deleteTaskHandler, hparse, acknowledge, StatusCode.isSuccess,
      Request.apply]
  constructor
  · rw [hacked, ← hs.memory]
    simp only [Session.step, serve, deleteTaskHandler, hparse]
    rw [removeTask_tasks]
    rfl
  · intro hpersisted
    rw [hacked]
    simp only [Session.step, persistCall, hparse] at hpersisted
    simp only [Session.step, serve, deleteTaskHandler, hparse]
    cases hget : s.server.taskManager.tasks.get taskId with
    | some task =>
      simp only [hget, Option.isSome_some, if_true] at hpersisted
      rw [removeTask_of_some hget]
      have hfile := stored_of_persisted json (s.server.taskManager.eraseTask taskId) hpersisted
      rw [eraseTask_tasks, hs.memory] at hfile
      exact hfile
    | none =>
      -- no persist_tasks call: the file still has the map, which had no such task
      simp only [hget, Option.isSome_none, Bool.false_eq_true, if_false] at hpersisted
      rw [removeTask_of_none hget]
      rw [hs.memory] at hget
      rw [HashMap.remove_of_get_none hget]
      exact hs.file hpersisted

theorem Session.Sound.restart (hempty : json.RejectsEmpty) {s : Session} (hs : s.Sound json)
    (hpersisted : s.persisted = true) : (s.step json parseStr .restart).Sound json := by
  have hfile := hs.file hpersisted
  have hrecovered := recoverTasks_of_stored hempty hfile
  constructor
  · show ((new s.server.taskManager.storageFile).recoverTasks json s.server.disk).2.tasks = _
    rw [hrecovered]
    rfl
  · intro _
    show Stored json s.server.disk ((new s.server.taskManager.storageFile).recoverTasks json
      s.server.disk).2.storageFile s.acked
    rw [hrecovered]
    exact hfile

theorem Session.Sound.step (hempty : json.RejectsEmpty) {s : Session} (hs : s.Sound json)
    {request : Request} (hrestart : PersistedAtRestart s request) :
    (s.step json parseStr request).Sound json := by
  cases request with
  | post newTask writing => exact hs.post newTask writing
  | delete text writing =>
    cases hparse : parseStr text with
    | none =>
      rw [step_delete_of_parse_none hparse]
      exact hs
    | some taskId => exact hs.delete hparse writing
  | restart => exact hs.restart hempty (hrestart rfl)

theorem Session.start_sound {path : String} {m : TaskMap} {disk : Disk}
    (h : Stored json disk path m) : (Session.start path m disk).Sound json :=
  ⟨rfl, fun _ => h⟩

theorem restart_acked (s : Session) : (s.step json parseStr .restart).acked = s.acked := rfl

/-- Histories in which every restart comes after a `persist_tasks` call that went through lose
nothing that was acknowledged. -/
theorem durableAtRestarts_of_persisted (hempty : json.RejectsEmpty) {path : String} {m : TaskMap}
    {disk : Disk} (hstart : Stored json disk path m) {history : List Request}
    (h : Runs.Along (Session.step json parseStr) PersistedAtRestart (Session.start path m disk)
      history) :
    DurableAtRestarts json parseStr (Session.start path m disk) history := by
  intro past hpast
  have hsound := h.always (fun s e hs he => hs.step hempty he) (Session.start_sound hstart)
    (past ++ [.restart]) hpast
  rw [hsound.memory, Runs.run_concat, restart_acked]

def Session.Absent (path : String) (s : Session) : Prop :=
  s.server.taskManager.storageFile = path ∧ s.server.disk.get path = none

theorem Session.Absent.step {path : String} {s : Session} (hs : s.Absent path)
    (request : Request) : (s.step json parseStr request).Absent path := by
  obtain ⟨rfl, hnone⟩ := hs
  cases request with
  | post newTask writing =>
    refine ⟨rfl, ?_⟩
    have habsent := persistTasks_absent json (s.server.taskManager.insertTask newTask) hnone writing
    simpa [Session.step, serve, addTaskHandler, addTask, habsent.1] using hnone
  | delete text writing =>
    cases hparse : parseStr text with
    | none =>
      rw [step_delete_of_parse_none hparse]
      exact ⟨rfl, hnone⟩
    | some taskId =>
      have habsent := persistTasks_absent json (s.server.taskManager.eraseTask taskId) hnone writing
      cases hget : s.server.taskManager.tasks.get taskId with
      | none =>
        simpa [Session.Absent, Session.step, serve, deleteTaskHandler, hparse,
          removeTask_of_none hget] using hnone
      | some task =>
        simpa [Session.Absent, Session.step, serve, deleteTaskHandler, hparse,
          removeTask_of_some hget, habsent.1] using hnone
  | restart =>
    have hrecover := recoverTasks_absent json (new s.server.taskManager.storageFile) hnone
    simp [Session.Absent, Session.step, serve, hrecover, hnone]

theorem restart_of_absent {path : String} {disk : Disk} (hnone : disk.get path = none)
    (past : List Request) :
    (Runs.run (Session.step json parseStr) (Session.start path ∅ disk)
      (past ++ [.restart])).server.taskManager.tasks = ∅ := by
  let s := Runs.run (Session.step json parseStr) (Session.start path ∅ disk) past
  have hstart : (Session.start path ∅ disk).Absent path := ⟨rfl, hnone⟩
  have habsent : s.Absent path := Runs.invariant (fun _ e hs => hs.step e) hstart past
  have hfile : s.server.disk.get s.server.taskManager.storageFile = none := by
    rw [habsent.1]
    exact habsent.2
  have hrecover := recoverTasks_absent json (new s.server.taskManager.storageFile) hfile
  rw [Runs.run_concat]
  show ((new s.server.taskManager.storageFile).recoverTasks json s.server.disk).2.tasks = ∅
  rw [hrecover]
  rfl

end Soundness

theorem durableAtRestarts_post :
    DurableAtRestarts Wire.taskMapJson Wire.parseHyphenated
      (Session.start "tasks.json" ∅
        ((∅ : Disk).insert "tasks.json" (utf8 (Wire.taskMapJson.toString default ∅))))
      [.post ⟨1, "data"⟩ ⟨default, .completes⟩, .restart] :=
  durableAtRestarts_of_persisted Wire.taskMapJson_rejectsEmpty
    (Or.inl ⟨default, HashMap.get_insert_self _ _ _⟩)
    ⟨fun h => absurd h (by simp), fun _ => by
      simp [Session.step, persistCall, Session.start], trivial⟩

def AcknowledgedDurable (json : TaskMapJson) (parseStr : String → Option Uuid) : Prop :=
  ∀ (path : String) (m : TaskMap) (disk : Disk) (history : List Request),
    Stored json disk path m →
      DurableAtRestarts json parseStr (Session.start path m disk) history

/-- A task posted to a server without a storage file is acknowledged and gone after a restart. -/
theorem not_acknowledgedDurable : ¬ AcknowledgedDurable Wire.taskMapJson Wire.parseHyphenated := by
  intro h
  have hdurable := h "tasks.json" ∅ ∅ [.post ⟨1, "data"⟩ ⟨default, .completes⟩, .restart]
    (Or.inr ⟨rfl, rfl⟩) [.post ⟨1, "data"⟩ ⟨default, .completes⟩] (List.prefix_refl _)
  rw [restart_of_absent (HashMap.get_empty _)] at hdurable
  have hacked : (∅ : TaskMap) = (∅ : TaskMap).insert 1 ⟨1, "data"⟩ := hdurable
  exact absurd hacked (by decide)

end Api

end AnKi
