import AnKi.TaskLocks
import AnKi.Backup

/-!
# task_recovery.rs and backup.rs: the keys of the task map

`add_task` stores a task under its own id. The two decoders take the map of a
file as it is, and a file may store a task under any id. Whoever else writes to
the disk is the event `others`.
-/

namespace AnKi
open Files
set_option autoImplicit false

namespace TaskKeys
open TaskLocks

def Keyed (tasks : TaskMap) : Prop := tasks.KeyedBy Task.taskId

theorem keyed_getD_iff {tasks : TaskMap} (h : Keyed tasks) (found : Option TaskMap) :
    Keyed (found.getD tasks) ↔ ∀ m ∈ found, Keyed m := by
  cases found with
  | none => simpa using h
  | some m => simp

/-! ## What the decoders take over -/

section Decoders
variable (json : TaskMapJson)

/-- The map that `restore_backup` stores, unless it fails. -/
def restored (backupFile : String) (disk : Disk) : Option TaskMap :=
  match readToString backupFile disk with
  | .error _ => none
  | .ok content => json.fromStr content

variable {json}

theorem recoverTasks_manager (s : Api.Server) :
    (s.taskManager.recoverTasks json s.disk).2 =
      { s.taskManager with tasks := (Store.readFile json s).getD s.taskManager.tasks } := by
  rw [recoverTasks_pieces]
  cases Store.readFile json s <;> rfl

theorem readFile_congr {self other : TaskRecoveryManager}
    (h : self.storageFile = other.storageFile) (disk : Disk) :
    Store.readFile json ⟨self, disk⟩ = Store.readFile json ⟨other, disk⟩ := by
  simp only [Store.readFile, h]

theorem restoreBackup_manager (backupFile : String) (self : BackupManager) (disk : Disk) :
    (self.restoreBackup json backupFile disk).2 =
      { self with tasks := (restored json backupFile disk).getD self.tasks } := by
  unfold BackupManager.restoreBackup restored
  cases readToString backupFile disk with
  | error e => rfl
  | ok content => cases hread : json.fromStr content <;> simp [hread]

end Decoders

/-! ## The task manager -/

inductive RecoveryEvent where
  | addTask (task : Task) (writing : Writing)
  | removeTask (taskId : Uuid) (writing : Writing)
  | recoverTasks
  | others (disk : Disk)

/-- A task in an answer of `get_task_handler` has the id asked for. -/
def AnswersOwn (parseStr : String → Option Uuid) (taskManager : TaskRecoveryManager) : Prop :=
  ∀ taskId task status, Api.getTaskHandler parseStr taskId taskManager = ⟨.json task, status⟩ →
    parseStr taskId = some task.taskId

section Recovery
variable (json : TaskMapJson)

def recoveryStep (s : Api.Server) : RecoveryEvent → Api.Server
  | .addTask task writing =>
    let (taskManager, disk) := s.taskManager.addTask json task writing s.disk
    ⟨taskManager, disk⟩
  | .removeTask taskId writing =>
    let (taskManager, disk) := s.taskManager.removeTask json taskId writing s.disk
    ⟨taskManager, disk⟩
  | .recoverTasks => { s with taskManager := (s.taskManager.recoverTasks json s.disk).2 }
  | .others disk => { s with disk := disk }

def RecoversKeyed (s : Api.Server) : RecoveryEvent → Prop
  | .recoverTasks => ∀ m ∈ Store.readFile json s, Keyed m
  | .addTask _ _ | .removeTask _ _ | .others _ => True

variable {json}

theorem recoveryStep_recoverTasks (s : Api.Server) :
    (recoveryStep json s .recoverTasks).taskManager =
      (s.taskManager.recoverTasks json s.disk).2 := rfl

theorem answersOwn_of_keyed {parseStr : String → Option Uuid} {taskManager : TaskRecoveryManager}
    (h : Keyed taskManager.tasks) : AnswersOwn parseStr taskManager := by
  intro text task status hanswer
  unfold Api.getTaskHandler at hanswer
  cases hparse : parseStr text with
  | none => simp [hparse] at hanswer
  | some taskId =>
    cases hget : taskManager.tasks.get taskId with
    | none => simp [hparse, hget] at hanswer
    | some found =>
      simp only [hparse, hget, Api.Reply.mk.injEq, Api.Body.json.injEq] at hanswer
      rw [← hanswer.1, h taskId found hget]

theorem keyed_recoveryStep_iff {s : Api.Server} (h : Keyed s.taskManager.tasks)
    (event : RecoveryEvent) :
    Keyed (recoveryStep json s event).taskManager.tasks ↔ RecoversKeyed json s event := by
  cases event with
  | addTask task writing => exact iff_of_true (h.insert task) trivial
  | removeTask taskId writing =>
    refine iff_of_true ?_ trivial
    show Keyed (s.taskManager.removeTask json taskId writing s.disk).1.tasks
    rw [TaskRecoveryManager.removeTask_tasks]
    exact h.remove taskId
  | recoverTasks =>
    rw [recoveryStep_recoverTasks, recoverTasks_manager, keyed_getD_iff h]
    rfl
  | others disk => exact iff_of_true h trivial

end Recovery

/-! ## The backup manager -/

inductive BackupEvent where
  | insert (task : Task)
  | createBackup (timestamp : String) (writing : Writing)
  | restoreBackup (backupFile : String)
  | others (disk : Disk)

section Backup
variable (json : TaskMapJson)

def backupStep (s : Backups.Archive) : BackupEvent → Backups.Archive
  | .insert task =>
    { s with manager := { s.manager with tasks := s.manager.tasks.insert task.taskId task } }
  | .createBackup timestamp writing =>
    { s with disk := (s.manager.createBackup json timestamp writing s.disk).2 }
  | .restoreBackup backupFile =>
    { s with manager := (s.manager.restoreBackup json backupFile s.disk).2 }
  | .others disk => { s with disk := disk }

def RestoresKeyed (s : Backups.Archive) : BackupEvent → Prop
  | .restoreBackup backupFile => ∀ m ∈ restored json backupFile s.disk, Keyed m
  | .insert _ | .createBackup _ _ | .others _ => True

variable {json}

theorem keyed_backupStep_iff {s : Backups.Archive} (h : Keyed s.manager.tasks)
    (event : BackupEvent) :
    Keyed (backupStep json s event).manager.tasks ↔ RestoresKeyed json s event := by
  cases event with
  | insert task => exact iff_of_true (h.insert task) trivial
  | createBackup timestamp writing => exact iff_of_true h trivial
  | restoreBackup backupFile =>
    show Keyed (s.manager.restoreBackup json backupFile s.disk).2.tasks ↔ _
    rw [restoreBackup_manager, keyed_getD_iff h]
    rfl
  | others disk => exact iff_of_true h trivial

end Backup

/-- The task map is keyed in every state exactly when every map taken over from a file is, and
then `get_task_handler` answers with the task asked for. -/
theorem keyed_iff_filesKeyed (json : TaskMapJson) (parseStr : String → Option Uuid) :
    (∀ storageFile disk events,
      Runs.Always (recoveryStep json)
          (fun s => Keyed s.taskManager.tasks ∧ AnswersOwn parseStr s.taskManager)
          ⟨TaskRecoveryManager.new storageFile, disk⟩ events ↔
        Runs.Along (recoveryStep json) (RecoversKeyed json)
          ⟨TaskRecoveryManager.new storageFile, disk⟩ events) ∧
      ∀ backupDir disk events,
        Runs.Always (backupStep json) (fun s => Keyed s.manager.tasks)
            ⟨BackupManager.new backupDir, disk⟩ events ↔
          Runs.Along (backupStep json) (RestoresKeyed json)
            ⟨BackupManager.new backupDir, disk⟩ events := by
  constructor
  · intro storageFile disk events
    apply Runs.always_iff_along_of_step
    · intro s event h
      rw [← keyed_recoveryStep_iff h.1]
      exact and_iff_left_of_imp answersOwn_of_keyed
    · have hstart : Keyed (TaskRecoveryManager.new storageFile).tasks := HashMap.keyedBy_empty _
      exact ⟨hstart, answersOwn_of_keyed hstart⟩
  · intro backupDir disk events
    apply Runs.always_iff_along_of_step
    · intro s event h
      exact keyed_backupStep_iff h event
    · exact HashMap.keyedBy_empty _

/-! ## A storage file of its own -/

section OwnFile
open TaskRecoveryManager
variable {json : TaskMapJson}

/-- Nothing but a keyed map can be recovered from the storage file. -/
def FileKeyed (json : TaskMapJson) (s : Api.Server) : Prop :=
  ∀ m ∈ Store.readFile json s, Keyed m

def RecoveryEvent.Own : RecoveryEvent → Prop
  | .addTask _ _ | .removeTask _ _ | .recoverTasks => True
  | .others _ => False

theorem FileKeyed.persistTasks (hcut : json.RejectsCut) {self : TaskRecoveryManager} {disk : Disk}
    (hself : Keyed self.tasks) (h : FileKeyed json ⟨self, disk⟩) (writing : Writing) :
    FileKeyed json ⟨self, (self.persistTasks json writing disk).2⟩ := by
  intro m hm
  rcases readFile_persistTasks hcut hm with rfl | hold
  · exact hself
  · exact h m hold

theorem keyed_and_fileKeyed_step (hcut : json.RejectsCut) {s : Api.Server}
    (h : Keyed s.taskManager.tasks ∧ FileKeyed json s) {event : RecoveryEvent} (hown : event.Own) :
    Keyed (recoveryStep json s event).taskManager.tasks ∧
      FileKeyed json (recoveryStep json s event) := by
  have hkeyed : Keyed (recoveryStep json s event).taskManager.tasks ↔ RecoversKeyed json s event :=
    keyed_recoveryStep_iff h.1 event
  cases event with
  | addTask task writing =>
    have hinsert : Keyed (s.taskManager.insertTask task).tasks := h.1.insert task
    exact ⟨hkeyed.mpr trivial, FileKeyed.persistTasks hcut hinsert h.2 writing⟩
  | removeTask taskId writing =>
    have herase : Keyed (s.taskManager.eraseTask taskId).tasks := h.1.remove taskId
    refine ⟨hkeyed.mpr trivial, ?_⟩
    cases hget : s.taskManager.tasks.get taskId with
    | none =>
      rw [recoveryStep, removeTask_of_none hget]
      exact h.2
    | some task =>
      rw [recoveryStep, removeTask_of_some hget]
      exact FileKeyed.persistTasks hcut herase h.2 writing
  | recoverTasks =>
    refine ⟨hkeyed.mpr h.2, ?_⟩
    intro m hm
    have hsame : Store.readFile json ⟨(s.taskManager.recoverTasks json s.disk).2, s.disk⟩ =
        Store.readFile json s := by
      rw [recoverTasks_manager]
      exact readFile_congr rfl s.disk
    exact h.2 m (hsame ▸ hm)
  | others disk => exact absurd hown id

/-- A manager that alone writes its storage file keeps the map keyed, wherever its writes stop. -/
theorem keyed_of_own_file (hcut : json.RejectsCut) {storageFile : String} {disk : Disk}
    (hfile : FileKeyed json ⟨new storageFile, disk⟩) {events : List RecoveryEvent}
    (hown : Runs.Along (recoveryStep json) (fun _ event => event.Own) ⟨new storageFile, disk⟩
      events) :
    Runs.Always (recoveryStep json) (fun s => Keyed s.taskManager.tasks ∧ FileKeyed json s)
      ⟨new storageFile, disk⟩ events :=
  hown.always (fun _ _ h => keyed_and_fileKeyed_step hcut h) ⟨HashMap.keyedBy_empty _, hfile⟩

end OwnFile

/-! ## A foreign file -/

/-- Task 2 is stored under the id 1. -/
def misfiled : TaskMap := (∅ : TaskMap).insert 1 ⟨2, "data"⟩

def misfiledDisk : Disk :=
  (∅ : Disk).insert "tasks.json" (utf8 (Wire.taskMapJson.toString default misfiled))

theorem get_misfiled : misfiled.get 1 = some ⟨2, "data"⟩ := HashMap.get_insert_self _ _ _

theorem not_keyed_misfiled : ¬ Keyed misfiled := by
  intro h
  exact absurd (h 1 ⟨2, "data"⟩ get_misfiled) (by decide)

theorem get_misfiledDisk : misfiledDisk.get "tasks.json" =
    some (utf8 (Wire.taskMapJson.toString default misfiled)) := HashMap.get_insert_self _ _ _

theorem recover_misfiled :
    (recoveryStep Wire.taskMapJson ⟨TaskRecoveryManager.new "tasks.json", misfiledDisk⟩
      .recoverTasks).taskManager = ⟨misfiled, "tasks.json"⟩ := by
  rw [recoveryStep_recoverTasks,
    TaskRecoveryManager.recoverTasks_encoding Wire.taskMapJson_rejectsEmpty get_misfiledDisk]
  rfl

theorem restore_misfiled :
    (backupStep Wire.taskMapJson ⟨BackupManager.new "backups", misfiledDisk⟩
      (.restoreBackup "tasks.json")).manager = ⟨misfiled, "backups"⟩ := by
  have hrestore := (BackupManager.restoreBackup_eq_iff get_misfiledDisk
    (BackupManager.new "backups") misfiled).mpr
      (by rw [ofUtf8_utf8, Option.bind_some, Wire.taskMapJson.fromStr_toString])
  rw [backupStep, hrestore]
  rfl

/-- Both decoders take over the map, and the request for task 1 is answered with task 2. -/
theorem not_always_keyed :
    ¬ Runs.Always (recoveryStep Wire.taskMapJson) (fun s => Keyed s.taskManager.tasks)
        ⟨TaskRecoveryManager.new "tasks.json", misfiledDisk⟩ [.recoverTasks] ∧
      ¬ Runs.Always (recoveryStep Wire.taskMapJson)
        (fun s => AnswersOwn Wire.parseHyphenated s.taskManager)
        ⟨TaskRecoveryManager.new "tasks.json", misfiledDisk⟩ [.recoverTasks] ∧
      ¬ Runs.Always (backupStep Wire.taskMapJson) (fun s => Keyed s.manager.tasks)
        ⟨BackupManager.new "backups", misfiledDisk⟩ [.restoreBackup "tasks.json"] := by
  refine ⟨?_, ?_, ?_⟩
  · intro h
    have hlast := h [.recoverTasks] (List.prefix_refl _)
    rw [Runs.run_cons, Runs.run_nil, recover_misfiled] at hlast
    exact not_keyed_misfiled hlast
  · intro h
    have hlast := h [.recoverTasks] (List.prefix_refl _)
    rw [Runs.run_cons, Runs.run_nil, recover_misfiled] at hlast
    have hanswer : Api.getTaskHandler Wire.parseHyphenated (Wire.hyphenated 1)
        ⟨misfiled, "tasks.json"⟩ = ⟨.json ⟨2, "data"⟩, .ok⟩ := by
      simp [Api.getTaskHandler, Wire.parseHyphenated_hyphenated, get_misfiled]
    have hid := hlast _ _ _ hanswer
    rw [Wire.parseHyphenated_hyphenated] at hid
    exact absurd hid (by decide)
  · intro h
    have hlast := h [.restoreBackup "tasks.json"] (List.prefix_refl _)
    rw [Runs.run_cons, Runs.run_nil, restore_misfiled] at hlast
    exact not_keyed_misfiled hlast

end TaskKeys

end AnKi
