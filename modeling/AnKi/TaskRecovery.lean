import AnKi.Wire

/-!
# task_recovery.rs: the task map and its storage file

Every operation runs with the lock on `tasks` already granted; the locks are the
subject of `AnKi.TaskLocks`. The disk is passed along because `persist_tasks`
writes it, and each call of it is given the order in which it finds the tasks
listed and the fate of its open and its write.
-/

namespace AnKi
open Files
set_option autoImplicit false

structure TaskRecoveryManager where
  tasks : TaskMap
  storageFile : String
  deriving DecidableEq

inductive RecoverError where
  | io (e : IoError)
  | json
  deriving Repr, DecidableEq

/-- The order in which a call that writes the tasks finds them listed, and how far it gets. -/
structure Writing where
  listing : TaskListing
  fate : WriteFate

namespace TaskRecoveryManager
variable (json : TaskMapJson)

def new (storageFile : String) : TaskRecoveryManager := ⟨∅, storageFile⟩

/-- The file is opened for writing and truncated, but not created. -/
def persistOptions : OpenOptions := { write := true, truncate := true }

def persistTasks (writing : Writing) (self : TaskRecoveryManager) (disk : Disk) :
    Except IoError Unit × Disk :=
  openAndWrite persistOptions writing.fate self.storageFile
    (utf8 (json.toString writing.listing self.tasks)) disk

def insertTask (task : Task) (self : TaskRecoveryManager) : TaskRecoveryManager :=
  { self with tasks := self.tasks.insert task.taskId task }

def eraseTask (taskId : Uuid) (self : TaskRecoveryManager) : TaskRecoveryManager :=
  { self with tasks := self.tasks.remove taskId }

/-- An error of `persist_tasks` is logged, and the caller learns nothing of it. -/
def addTask (task : Task) (writing : Writing) (self : TaskRecoveryManager) (disk : Disk) :
    TaskRecoveryManager × Disk :=
  (self.insertTask task, ((self.insertTask task).persistTasks json writing disk).2)

def removeTask (taskId : Uuid) (writing : Writing) (self : TaskRecoveryManager) (disk : Disk) :
    TaskRecoveryManager × Disk :=
  match self.tasks.get taskId with
  | some _ => (self.eraseTask taskId, ((self.eraseTask taskId).persistTasks json writing disk).2)
  | none => (self, disk)

/-- An empty file counts as a recovery that had nothing to do. -/
def recoverTasks (self : TaskRecoveryManager) (disk : Disk) :
    Except RecoverError Unit × TaskRecoveryManager :=
  match readToString self.storageFile disk with
  | .error e => (.error (.io e), self)
  | .ok content =>
    if content = "" then (.ok (), self)
    else match json.fromStr content with
      | none => (.error .json, self)
      | some recoveredTasks => (.ok (), { self with tasks := recoveredTasks })

/-! ## What each operation does -/

@[simp] theorem new_tasks (path : String) : (new path).tasks = ∅ := rfl

@[simp] theorem new_storageFile (path : String) : (new path).storageFile = path := rfl

@[simp] theorem insertTask_tasks (task : Task) (self : TaskRecoveryManager) :
    (self.insertTask task).tasks = self.tasks.insert task.taskId task := rfl

@[simp] theorem insertTask_storageFile (task : Task) (self : TaskRecoveryManager) :
    (self.insertTask task).storageFile = self.storageFile := rfl

@[simp] theorem eraseTask_tasks (taskId : Uuid) (self : TaskRecoveryManager) :
    (self.eraseTask taskId).tasks = self.tasks.remove taskId := rfl

@[simp] theorem eraseTask_storageFile (taskId : Uuid) (self : TaskRecoveryManager) :
    (self.eraseTask taskId).storageFile = self.storageFile := rfl

variable {json}
variable {self : TaskRecoveryManager} {disk : Disk} {content : Bytes} {m : TaskMap}

theorem removeTask_of_some {taskId : Uuid} {task : Task} (h : self.tasks.get taskId = some task)
    (writing : Writing) : self.removeTask json taskId writing disk =
      (self.eraseTask taskId, ((self.eraseTask taskId).persistTasks json writing disk).2) := by
  simp only [removeTask, h]

theorem removeTask_of_none {taskId : Uuid} (h : self.tasks.get taskId = none) (writing : Writing) :
    self.removeTask json taskId writing disk = (self, disk) := by
  simp only [removeTask, h]

theorem removeTask_tasks (taskId : Uuid) (writing : Writing) :
    (self.removeTask json taskId writing disk).1 = self.eraseTask taskId := by
  cases h : self.tasks.get taskId with
  | some task => rw [removeTask_of_some h]
  | none => rw [removeTask_of_none h, eraseTask, HashMap.remove_of_get_none h]

theorem openFile_persist (h : disk.get self.storageFile = some content) :
    openFile persistOptions self.storageFile disk = .ok [] := by
  simp [openFile, h, persistOptions]

/-- Without the file nothing can be persisted, because the open does not create it. -/
theorem persistTasks_absent (json : TaskMapJson) (self : TaskRecoveryManager)
    (h : disk.get self.storageFile = none) (writing : Writing) :
    (self.persistTasks json writing disk).2 = disk ∧
      (self.persistTasks json writing disk).1 ≠ .ok () := by
  have hopen : openFile persistOptions self.storageFile disk = .error .notFound := by
    simp [openFile, h, persistOptions]
  exact openAndWrite_of_error hopen

theorem persistTasks_openFails (listing : TaskListing) :
    (self.persistTasks json ⟨listing, .openFails⟩ disk).2 = disk := by
  simp [persistTasks]

theorem persistTasks_stopsAfter (json : TaskMapJson) (listing : TaskListing)
    (h : disk.get self.storageFile = some content) (written : Nat) :
    (self.persistTasks json ⟨listing, .stopsAfter written⟩ disk).2.get self.storageFile =
      some ((utf8 (json.toString listing self.tasks)).take written) := by
  rw [persistTasks, openAndWrite_stopsAfter (openFile_persist h)]
  simp

theorem persistTasks_completes (json : TaskMapJson) (listing : TaskListing)
    (h : disk.get self.storageFile = some content) :
    (self.persistTasks json ⟨listing, .completes⟩ disk).2.get self.storageFile =
      some (utf8 (json.toString listing self.tasks)) := by
  rw [persistTasks, openAndWrite_completes (openFile_persist h)]
  simp

theorem recoverTasks_absent (json : TaskMapJson) (self : TaskRecoveryManager)
    (h : disk.get self.storageFile = none) :
    self.recoverTasks json disk = (.error (.io .notFound), self) := by
  simp [recoverTasks, readToString_none h]

theorem recoverTasks_emptied (h : disk.get self.storageFile = some []) :
    self.recoverTasks json disk = (.ok (), self) := by
  have hread : readToString self.storageFile disk = .ok "" := readToString_utf8 (by simpa using h)
  simp [recoverTasks, hread]

theorem recoverTasks_encoding (hempty : json.RejectsEmpty) {listing : TaskListing}
    (h : disk.get self.storageFile = some (utf8 (json.toString listing m))) :
    self.recoverTasks json disk = (.ok (), { self with tasks := m }) := by
  have hne : json.toString listing m ≠ "" := SerdeJson.toString_ne_empty hempty m
  simp [recoverTasks, readToString_utf8 h, hne, json.fromStr_toString]

theorem recoverTasks_cut (hcut : json.RejectsCut) {listing : TaskListing} {more : Bytes}
    (h : disk.get self.storageFile = some content)
    (hm : utf8 (json.toString listing m) = content ++ more) (hne : content ≠ [])
    (hmore : more ≠ []) : ∃ e, self.recoverTasks json disk = (.error e, self) := by
  have hread := SerdeJson.ofUtf8_cut hcut hm hne hmore
  cases hs : ofUtf8 content with
  | none => exact ⟨.io .invalidData, by simp [recoverTasks, readToString, h, hs]⟩
  | some s =>
    have hs' : s ≠ "" := by
      intro heq
      subst heq
      exact hne (utf8_of_ofUtf8 hs ▸ utf8_empty)
    have hjson : json.fromStr s = none := by simpa [hs] using hread
    exact ⟨.json, by simp [recoverTasks, readToString, h, hs, hs', hjson]⟩

end TaskRecoveryManager

/-! ## A stop inside persist_tasks -/

open TaskRecoveryManager

inductive LeftInFile where
  | untouched
  | emptied
  | cut
  | whole
  deriving Repr, DecidableEq

def leftInFile (size : Nat) : WriteFate → LeftInFile
  | .openFails => .untouched
  | .stopsAfter written =>
    if written = 0 then .emptied else if written < size then .cut else .whole
  | .completes => .whole

def persistThenRecover (json : TaskMapJson) (path : String) (m1 : TaskMap) (writing : Writing)
    (disk : Disk) : Except RecoverError Unit × TaskRecoveryManager :=
  (new path).recoverTasks json ((persistTasks json writing ⟨m1, path⟩ disk).2)

/-- A stopped `persist_tasks` leaves the old map or the new one to be recovered. -/
def CrashAtomic (json : TaskMapJson) : Prop :=
  ∀ (path : String) (m0 m1 : TaskMap) (listing : TaskListing) (writing : Writing) (disk : Disk),
    disk.get path = some (utf8 (json.toString listing m0)) →
      (persistThenRecover json path m1 writing disk).1 = .ok () ∧
        ((persistThenRecover json path m1 writing disk).2.tasks = m0 ∨
          (persistThenRecover json path m1 writing disk).2.tasks = m1)

/-- What the call leaves, by the length of the text that it writes. -/
def leftBy (json : TaskMapJson) (m1 : TaskMap) (writing : Writing) : LeftInFile :=
  leftInFile (utf8 (json.toString writing.listing m1)).length writing.fate

theorem persistThenRecover_cases {json : TaskMapJson} (hempty : json.RejectsEmpty)
    (hcut : json.RejectsCut) (path : String) (m0 m1 : TaskMap) {listing : TaskListing}
    (writing : Writing) (disk : Disk)
    (hdisk : disk.get path = some (utf8 (json.toString listing m0))) :
    match leftBy json m1 writing with
    | .untouched => persistThenRecover json path m1 writing disk = (.ok (), ⟨m0, path⟩)
    | .emptied => persistThenRecover json path m1 writing disk = (.ok (), ⟨∅, path⟩)
    | .cut => ∃ e, persistThenRecover json path m1 writing disk = (.error e, ⟨∅, path⟩)
    | .whole => persistThenRecover json path m1 writing disk = (.ok (), ⟨m1, path⟩) := by
  let self : TaskRecoveryManager := ⟨m1, path⟩
  have hself : disk.get self.storageFile = some (utf8 (json.toString listing m0)) := hdisk
  obtain ⟨order, fate⟩ := writing
  cases fate with
  | openFails =>
    apply recoverTasks_encoding hempty
    rw [persistTasks_openFails]
    exact hdisk
  | completes =>
    apply recoverTasks_encoding hempty
    exact persistTasks_completes json order hself
  | stopsAfter written =>
    have hleft := persistTasks_stopsAfter json order hself written
    simp only [leftBy, leftInFile]
    split_ifs with hzero hlt
    -- the reader takes the emptied file for a recovery with nothing to do
    · subst hzero
      apply recoverTasks_emptied
      simpa using hleft
    · have hsplit := List.take_append_drop written (utf8 (json.toString order m1))
      refine recoverTasks_cut hcut hleft hsplit.symm ?_ ?_
      · rw [Ne, List.take_eq_nil_iff]
        intro hnil
        rcases hnil with h | h
        · exact hzero h
        · exact SerdeJson.utf8_toString_ne_nil hempty m1 h
      · rw [Ne, List.drop_eq_nil_iff]
        omega
    · apply recoverTasks_encoding hempty
      rw [List.take_of_length_le (by simpa [self] using Nat.le_of_not_lt hlt)] at hleft
      exact hleft

/-- Wherever `persist_tasks` stops, the next start has the old map, the new one or none at all,
and it reports an error exactly when a proper part of the new encoding was written. -/
theorem recover_after_stopped_persist {json : TaskMapJson} (hempty : json.RejectsEmpty)
    (hcut : json.RejectsCut) (path : String) (m0 m1 : TaskMap) (listing : TaskListing)
    (writing : Writing) (disk : Disk)
    (hdisk : disk.get path = some (utf8 (json.toString listing m0))) :
    (persistThenRecover json path m1 writing disk).2.tasks =
        (match leftBy json m1 writing with
          | .untouched => m0
          | .emptied => ∅
          | .cut => ∅
          | .whole => m1) ∧
      ((persistThenRecover json path m1 writing disk).1 = .ok () ↔
        leftBy json m1 writing ≠ .cut) := by
  have hcases := persistThenRecover_cases hempty hcut path m0 m1 writing disk hdisk
  cases hleft : leftBy json m1 writing with
  | untouched =>
    simp only [hleft] at hcases
    simp [hcases]
  | emptied =>
    simp only [hleft] at hcases
    simp [hcases]
  | cut =>
    simp only [hleft] at hcases
    obtain ⟨e, he⟩ := hcases
    simp [he]
  | whole =>
    simp only [hleft] at hcases
    simp [hcases]

theorem recover_after_stopped_persist_emptied :
    (persistThenRecover Wire.taskMapJson "tasks.json" ((∅ : TaskMap).insert 2 ⟨2, "new"⟩)
      ⟨default, .stopsAfter 0⟩ ((∅ : Disk).insert "tasks.json" (utf8
        (Wire.taskMapJson.toString default ((∅ : TaskMap).insert 1 ⟨1, "old"⟩))))).2.tasks = ∅ :=
  (recover_after_stopped_persist Wire.taskMapJson_rejectsEmpty Wire.taskMapJson_rejectsCut
    "tasks.json" ((∅ : TaskMap).insert 1 ⟨1, "old"⟩) ((∅ : TaskMap).insert 2 ⟨2, "new"⟩)
    default ⟨default, .stopsAfter 0⟩ _ (HashMap.get_insert_self _ _ _)).1

/-- The task stored before and the task being stored are both lost to a stop right after the
truncating open. -/
theorem not_crashAtomic : ¬ CrashAtomic Wire.taskMapJson := by
  intro h
  let m0 : TaskMap := (∅ : TaskMap).insert 1 ⟨1, "old"⟩
  let m1 : TaskMap := (∅ : TaskMap).insert 2 ⟨2, "new"⟩
  let writing : Writing := ⟨default, .stopsAfter 0⟩
  let disk : Disk :=
    (∅ : Disk).insert "tasks.json" (utf8 (Wire.taskMapJson.toString default m0))
  have hdisk : disk.get "tasks.json" = some (utf8 (Wire.taskMapJson.toString default m0)) :=
    HashMap.get_insert_self _ _ _
  have hlost := persistThenRecover_cases Wire.taskMapJson_rejectsEmpty
    Wire.taskMapJson_rejectsCut "tasks.json" m0 m1 writing disk hdisk
  have hleft : leftBy Wire.taskMapJson m1 writing = .emptied := rfl
  simp only [hleft] at hlost
  have hclaim := (h "tasks.json" m0 m1 default writing disk hdisk).2
  rw [hlost] at hclaim
  rcases hclaim with hold | hnew
  · exact absurd hold (by decide)
  · exact absurd hnew (by decide)

end AnKi
