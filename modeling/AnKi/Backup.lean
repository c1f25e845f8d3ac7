import AnKi.Library.Runs
import AnKi.TaskRecovery

/-!
# backup.rs: timestamped backup files

The name of a backup file is the time of the call to the second. The file is
created when it is not there and not truncated when it is, so a second backup
within a second is written over the first one and may be the shorter of the two.
-/

namespace AnKi
open Files
set_option autoImplicit false

structure BackupManager where
  tasks : TaskMap
  backupDir : String
  deriving DecidableEq

namespace BackupManager
variable (json : TaskMapJson)

def new (backupDir : String) : BackupManager := ⟨∅, backupDir⟩

def backupFilePath (backupDir timestamp : String) : String :=
  backupDir ++ "/backup_" ++ timestamp ++ ".json"

/-- The file is opened for writing and created, but not truncated. -/
def backupOptions : OpenOptions := { write := true, create := true }

def createBackup (timestamp : String) (writing : Writing) (self : BackupManager) (disk : Disk) :
    Except IoError Unit × Disk :=
  openAndWrite backupOptions writing.fate (backupFilePath self.backupDir timestamp)
    (utf8 (json.toString writing.listing self.tasks)) disk

def restoreBackup (backupFile : String) (self : BackupManager) (disk : Disk) :
    Except RecoverError Unit × BackupManager :=
  match readToString backupFile disk with
  | .error e => (.error (.io e), self)
  | .ok content =>
    match json.fromStr content with
    | none => (.error .json, self)
    | some recoveredTasks => (.ok (), { self with tasks := recoveredTasks })

def oldContent (path : String) (disk : Disk) : Bytes := (disk.get path).getD []

theorem openFile_backup (path : String) (disk : Disk) :
    openFile backupOptions path disk = .ok (oldContent path disk) := by
  cases h : disk.get path <;> simp [openFile, h, backupOptions, oldContent]

variable {json}

theorem createBackup_ok_iff {timestamp : String} {writing : Writing} {self : BackupManager}
    {disk : Disk} :
    (self.createBackup json timestamp writing disk).1 = .ok () ↔ writing.fate = .completes := by
  rw [createBackup, openAndWrite_ok_iff]
  simp [openFile_backup]

/-- A completed backup keeps what an older file of the name had beyond it. -/
theorem createBackup_completes (json : TaskMapJson) (timestamp : String) (listing : TaskListing)
    (self : BackupManager) (disk : Disk) :
    (self.createBackup json timestamp ⟨listing, .completes⟩ disk).2.get
        (backupFilePath self.backupDir timestamp) =
      some (utf8 (json.toString listing self.tasks) ++
        (oldContent (backupFilePath self.backupDir timestamp) disk).drop
          (utf8 (json.toString listing self.tasks)).length) := by
  rw [createBackup, openAndWrite_completes (openFile_backup _ disk)]
  simp [overwrite]

theorem oldContent_createBackup (json : TaskMapJson) (timestamp : String) (listing : TaskListing)
    (self : BackupManager) {disk : Disk}
    (h : disk.get (backupFilePath self.backupDir timestamp) = none) :
    oldContent (backupFilePath self.backupDir timestamp)
        (self.createBackup json timestamp ⟨listing, .completes⟩ disk).2 =
      utf8 (json.toString listing self.tasks) := by
  rw [oldContent, createBackup_completes, oldContent, h]
  simp

theorem restoreBackup_eq_iff {path : String} {disk : Disk} {content : Bytes}
    (h : disk.get path = some content) (self : BackupManager) (m : TaskMap) :
    self.restoreBackup json path disk = (.ok (), { self with tasks := m }) ↔
      (ofUtf8 content).bind json.fromStr = some m := by
  unfold restoreBackup readToString
  simp only [h]
  cases ofUtf8 content with
  | none => simp
  | some s =>
    cases hread : json.fromStr s with
    | none => simp [hread]
    | some recovered => simp [hread]

end BackupManager

/-! ## Histories -/

namespace Backups
open BackupManager

inductive Event where
  | change (tasks : TaskMap)
  | backup (now : Nat) (writing : Writing)

structure Archive where
  manager : BackupManager
  disk : Disk

section History
variable (json : TaskMapJson) (format : Nat → String)

def Archive.path (s : Archive) (now : Nat) : String :=
  backupFilePath s.manager.backupDir (format now)

def Archive.step (s : Archive) : Event → Archive
  | .change tasks => { s with manager := { s.manager with tasks := tasks } }
  | .backup now writing =>
    { s with disk := (s.manager.createBackup json (format now) writing s.disk).2 }

/-- After a successful backup any manager restores exactly the backed up tasks from its file. -/
def Restorable (s : Archive) : Event → Prop
  | .change _ => True
  | .backup now writing =>
    (s.manager.createBackup json (format now) writing s.disk).1 = .ok () →
      ∀ other : BackupManager, other.restoreBackup json (s.path format now)
        (s.step json format (.backup now writing)).disk =
          (.ok (), { other with tasks := s.manager.tasks })

/-- What an older file of the name has beyond the length of the new encoding is white space. -/
def NoLeftover (s : Archive) : Event → Prop
  | .change _ => True
  | .backup now writing => writing.fate = .completes →
    ∃ w : String, w.toList.all TextCodec.white = true ∧
      (oldContent (s.path format now) s.disk).drop
        (utf8 (json.toString writing.listing s.manager.tasks)).length = utf8 w

variable {json}

theorem restorable_iff_noLeftover (htrail : json.RejectsTrailing) (hwhite : json.SkipsWhite)
    (s : Archive) (event : Event) :
    Restorable json format s event ↔ NoLeftover json format s event := by
  cases event with
  | change tasks => exact Iff.rfl
  | backup now writing =>
    simp only [Restorable, NoLeftover, createBackup_ok_iff]
    apply imp_congr_right
    intro hfate
    obtain ⟨listing, fate⟩ := writing
    subst hfate
    have hfile := createBackup_completes json (format now) listing s.manager s.disk
    rw [← SerdeJson.ofUtf8_trailing_iff htrail hwhite]
    constructor
    · intro h
      exact (restoreBackup_eq_iff hfile s.manager s.manager.tasks).mp (h s.manager)
    · intro h other
      exact (restoreBackup_eq_iff hfile other s.manager.tasks).mpr h

/-- Every backup of a history can be restored exactly when none leaves a rest of an older file. -/
theorem restorable_iff_noLeftover_along (htrail : json.RejectsTrailing) (hwhite : json.SkipsWhite)
    (s : Archive) (history : List Event) :
    Runs.Along (Archive.step json format) (Restorable json format) s history ↔
      Runs.Along (Archive.step json format) (NoLeftover json format) s history := by
  constructor
  · exact Runs.Along.mono fun s e => (restorable_iff_noLeftover format htrail hwhite s e).mp
  · exact Runs.Along.mono fun s e => (restorable_iff_noLeftover format htrail hwhite s e).mpr

end History

def InOrder (history : List Event) : Prop :=
  (history.filterMap fun event => match event with
    | .backup now _ => some now
    | .change _ => none).Pairwise (· ≤ ·)

def RoundTrip (json : TaskMapJson) (format : Nat → String) : Prop :=
  ∀ (backupDir : String) (disk : Disk) (history : List Event), InOrder history →
    Runs.Along (Archive.step json format) (Restorable json format)
      ⟨BackupManager.new backupDir, disk⟩ history

theorem toString_empty (listing : TaskListing) : Wire.taskMapJson.toString listing ∅ = "{}" := by
  simp only [Wire.taskMapJson, SerdeJson.ofCodecs, Wire.taskMapText, Wire.mapText,
    TextCodec.convert, listing.order_empty]
  decide +kernel

def beyond : String :=
  "00000000-0000-0000-0000-000000000001\":\x7b\"task_id\":" ++
    "\"00000000-0000-0000-0000-000000000001\",\"data\":\"data\"\x7d\x7d"

theorem toString_single (listing : TaskListing) :
    Wire.taskMapJson.toString listing ((∅ : TaskMap).insert 1 ⟨1, "data"⟩) =
      "\x7b\"" ++ beyond := by
  simp only [Wire.taskMapJson, SerdeJson.ofCodecs, Wire.taskMapText, Wire.mapText,
    TextCodec.convert, listing.order_single]
  decide +kernel

def oneSecond : Nat → String := fun _ => "19700101000000"

/-- Two backups of one second, the second of them longer than the first. -/
theorem restorable_twoBackups :
    Runs.Along (Archive.step Wire.taskMapJson oneSecond) (Restorable Wire.taskMapJson oneSecond)
      ⟨BackupManager.new "backups", ∅⟩ [.backup 0 ⟨default, .completes⟩,
        .change ((∅ : TaskMap).insert 1 ⟨1, "data"⟩), .backup 0 ⟨default, .completes⟩] := by
  apply (restorable_iff_noLeftover_along _ Wire.taskMapJson_rejectsTrailing
    Wire.taskMapJson_skipsWhite _ _).mpr
  refine ⟨?_, trivial, ?_, trivial⟩
  · intro _
    exact ⟨"", rfl, by simp [oldContent]⟩
  · intro _
    have hold := oldContent_createBackup Wire.taskMapJson "19700101000000" default
      ⟨∅, "backups"⟩ (HashMap.get_empty _)
    rw [toString_empty] at hold
    have hrest : (utf8 "{}").drop (utf8 ("\x7b\"" ++ beyond)).length = utf8 "" := by
      decide +kernel
    rw [← toString_single default, ← hold] at hrest
    exact ⟨"", rfl, hrest⟩

/-- The second backup within a second is shorter and leaves a rest of the first. -/
theorem not_backupRoundTrip : ¬ RoundTrip Wire.taskMapJson fun _ => "19700101000000" := by
  intro h
  have hrestorable := h "backups" ∅ [.change ((∅ : TaskMap).insert 1 ⟨1, "data"⟩),
    .backup 0 ⟨default, .completes⟩, .change ∅, .backup 0 ⟨default, .completes⟩]
    (by simp [InOrder])
  have hlast := (restorable_iff_noLeftover _ Wire.taskMapJson_rejectsTrailing
    Wire.taskMapJson_skipsWhite _ _).mp hrestorable.2.2.2.1
  obtain ⟨w, hwhite, hw⟩ := hlast rfl
  have hrest : (utf8 ("\x7b\"" ++ beyond)).drop (utf8 "{}").length = utf8 w := by
    rw [← toString_single default, ← toString_empty default,
      ← oldContent_createBackup Wire.taskMapJson "19700101000000" default
        ⟨(∅ : TaskMap).insert 1 ⟨1, "data"⟩, "backups"⟩ (HashMap.get_empty _)]
    exact hw
  have hbeyond : utf8 beyond = utf8 w := by
    rw [← hrest, utf8_append]
    rfl
  rw [← utf8_injective hbeyond] at hwhite
  exact absurd hwhite (by decide)

/-! ## An archive of many backups -/

section Archives
variable {json : TaskMapJson} {format : Nat → String}

variable (format) in
def Event.path? (backupDir : String) : Event → Option String
  | .change _ => none
  | .backup now _ => some (backupFilePath backupDir (format now))

variable (format) in
/-- No two backups have the same name, and no file has one of the names. -/
structure FreshNames (s : Archive) (history : List Event) : Prop where
  nodup : (history.filterMap (Event.path? format s.manager.backupDir)).Nodup
  absent : ∀ path ∈ history.filterMap (Event.path? format s.manager.backupDir),
    s.disk.get path = none

variable (json) in
/-- Restoring the file gives these tasks to any manager. Only where the backup did not complete
may it fail instead, and then it leaves the manager as it was. -/
def RestoresOnly (tasks : TaskMap) (fate : WriteFate) (path : String) (disk : Disk) : Prop :=
  ∀ other : BackupManager,
    other.restoreBackup json path disk = (.ok (), { other with tasks := tasks }) ∨
      (fate ≠ .completes ∧ ∃ e, other.restoreBackup json path disk = (.error e, other))

theorem run_backupDir (s : Archive) (history : List Event) :
    (Runs.run (Archive.step json format) s history).manager.backupDir = s.manager.backupDir :=
  Runs.invariant (I := fun after : Archive => after.manager.backupDir = s.manager.backupDir)
    (fun after event h => by cases event <;> exact h) rfl history

theorem step_get {s : Archive} {event : Event} {path : String}
    (h : event.path? format s.manager.backupDir ≠ some path) :
    (s.step json format event).disk.get path = s.disk.get path := by
  cases event with
  | change tasks => rfl
  | backup now writing =>
    obtain ⟨listing, fate⟩ := writing
    have hne : path ≠ backupFilePath s.manager.backupDir (format now) := by
      intro hpath
      exact h (by rw [hpath, Event.path?])
    simp only [Archive.step, createBackup]
    cases fate with
    | openFails => rw [openAndWrite_openFails]
    | stopsAfter written =>
      rw [openAndWrite_stopsAfter (openFile_backup _ _), HashMap.get_insert, if_neg hne]
    | completes =>
      rw [openAndWrite_completes (openFile_backup _ _), HashMap.get_insert, if_neg hne]

theorem run_get {s : Archive} {history : List Event} {path : String}
    (h : path ∉ history.filterMap (Event.path? format s.manager.backupDir)) :
    (Runs.run (Archive.step json format) s history).disk.get path = s.disk.get path := by
  induction history using List.reverseRecOn with
  | nil => rfl
  | append_singleton history event ih =>
    rw [List.filterMap_append, List.mem_append, not_or] at h
    rw [Runs.run_concat, step_get, ih h.1]
    rw [run_backupDir]
    intro hpath
    exact h.2 (List.mem_filterMap.mpr ⟨event, List.mem_singleton_self _, hpath⟩)

theorem restoreBackup_error {path : String} {disk : Disk} (other : BackupManager)
    (h : ∀ content, disk.get path = some content → (ofUtf8 content).bind json.fromStr = none) :
    ∃ e, other.restoreBackup json path disk = (.error e, other) := by
  cases hget : disk.get path with
  | none => exact ⟨.io .notFound, by simp [restoreBackup, readToString, hget]⟩
  | some content =>
    have hread := h content hget
    cases hs : ofUtf8 content with
    | none => exact ⟨.io .invalidData, by simp [restoreBackup, readToString, hget, hs]⟩
    | some text =>
      rw [hs, Option.bind_some] at hread
      exact ⟨.json, by simp [restoreBackup, readToString, hget, hs, hread]⟩

/-- A beginning of an encoding restores to what was encoded, or does not restore. -/
theorem restoreBackup_beginning (hempty : json.RejectsEmpty) (hcut : json.RejectsCut)
    {listing : TaskListing} {path : String} {disk : Disk} {m : TaskMap} {content : Bytes}
    (hget : disk.get path = some content) (hpre : content <+: utf8 (json.toString listing m))
    (other : BackupManager) :
    other.restoreBackup json path disk = (.ok (), { other with tasks := m }) ∨
      (content ≠ utf8 (json.toString listing m) ∧
        ∃ e, other.restoreBackup json path disk = (.error e, other)) := by
  obtain ⟨more, hmore⟩ := hpre
  by_cases hnil : more = []
  · left
    rw [hnil, List.append_nil] at hmore
    apply (restoreBackup_eq_iff hget other m).mpr
    rw [hmore, ofUtf8_utf8, Option.bind_some, json.fromStr_toString]
  · right
    refine ⟨?_, restoreBackup_error other ?_⟩
    · rintro rfl
      exact hnil (List.append_right_eq_self.mp hmore)
    · intro read hread
      obtain rfl := Option.some.inj (hget.symm.trans hread)
      by_cases hcontent : content = []
      · rw [hcontent]
        exact SerdeJson.ofUtf8_nil hempty
      · exact SerdeJson.ofUtf8_cut hcut hmore.symm hcontent hnil

/-- The file of a backup that was not there before holds a beginning of the encoding. -/
theorem restoresOnly_backup (hempty : json.RejectsEmpty) (hcut : json.RejectsCut) {s : Archive}
    {now : Nat} (writing : Writing) (habsent : s.disk.get (s.path format now) = none) :
    RestoresOnly json s.manager.tasks writing.fate (s.path format now)
      (s.step json format (.backup now writing)).disk := by
  have hopen : openFile backupOptions (s.path format now) s.disk = .ok [] := by
    rw [openFile_backup, oldContent, habsent]
    rfl
  intro other
  obtain ⟨listing, fate⟩ := writing
  cases fate with
  | openFails =>
    refine Or.inr ⟨by simp, restoreBackup_error other ?_⟩
    intro content hcontent
    simp only [Archive.step, createBackup, openAndWrite_openFails, habsent] at hcontent
    cases hcontent
  | completes =>
    left
    have hfile : (s.step json format (.backup now ⟨listing, .completes⟩)).disk.get
        (s.path format now) = some (utf8 (json.toString listing s.manager.tasks)) := by
      rw [Archive.path] at hopen ⊢
      simp [Archive.step, createBackup, openAndWrite_completes hopen]
    rcases restoreBackup_beginning hempty hcut hfile (List.prefix_refl _) other with hok | ⟨hne, _⟩
    · exact hok
    · exact absurd rfl hne
  | stopsAfter written =>
    have hfile : (s.step json format (.backup now ⟨listing, .stopsAfter written⟩)).disk.get
        (s.path format now) =
          some ((utf8 (json.toString listing s.manager.tasks)).take written) := by
      rw [Archive.path] at hopen ⊢
      simp [Archive.step, createBackup, openAndWrite_stopsAfter hopen]
    rcases restoreBackup_beginning hempty hcut hfile (List.take_prefix _ _) other with
      hok | ⟨_, herror⟩
    · exact Or.inl hok
    · exact Or.inr ⟨by simp, herror⟩

/-- As long as no name is used twice, every backup of a history still restores exactly what it was
taken of at the end of it; one that was cut short may fail, and none restores anything else. -/
theorem archive_restores (hempty : json.RejectsEmpty) (hcut : json.RejectsCut) {s : Archive}
    {past later : List Event} {now : Nat} {writing : Writing}
    (hfresh : FreshNames format s (past ++ .backup now writing :: later)) :
    RestoresOnly json (Runs.run (Archive.step json format) s past).manager.tasks writing.fate
      (s.path format now)
      (Runs.run (Archive.step json format) s (past ++ .backup now writing :: later)).disk := by
  have hnames : (past ++ .backup now writing :: later).filterMap
      (Event.path? format s.manager.backupDir) =
        past.filterMap (Event.path? format s.manager.backupDir) ++ s.path format now ::
          later.filterMap (Event.path? format s.manager.backupDir) := by
    rw [List.filterMap_append]
    rfl
  have hnodup := hfresh.nodup
  rw [hnames] at hnodup
  have hpast : s.path format now ∉ past.filterMap (Event.path? format s.manager.backupDir) := by
    intro hmem
    exact (List.nodup_append.mp hnodup).2.2 _ hmem _ List.mem_cons_self rfl
  have hlater : s.path format now ∉ later.filterMap (Event.path? format s.manager.backupDir) :=
    (List.nodup_cons.mp (List.nodup_append.mp hnodup).2.1).1
  have habsent : s.disk.get (s.path format now) = none := by
    apply hfresh.absent
    rw [hnames]
    exact List.mem_append_right _ List.mem_cons_self
  -- the name is the same in every state of the history
  have hpath : (Runs.run (Archive.step json format) s past).path format now =
      s.path format now := by
    rw [Archive.path, run_backupDir, Archive.path]
  have habsentThen : (Runs.run (Archive.step json format) s past).disk.get
      ((Runs.run (Archive.step json format) s past).path format now) = none := by
    rw [hpath, run_get hpast, habsent]
  have hrestores := restoresOnly_backup hempty hcut writing habsentThen
  rw [hpath] at hrestores
  intro other
  have hrest := hrestores other
  have hsame : ∀ disk disk' : Disk, disk.get (s.path format now) = disk'.get (s.path format now) →
      other.restoreBackup json (s.path format now) disk =
        other.restoreBackup json (s.path format now) disk' := by
    intro disk disk' h
    simp only [restoreBackup, readToString, h]
  rw [Runs.run_append, Runs.run_cons, hsame]
  · exact hrest
  · apply run_get
    rw [← @run_backupDir json format s (past ++ [.backup now writing]), Runs.run_concat] at hlater
    exact hlater

end Archives

def emptyArchive : Archive := ⟨BackupManager.new "backups", ∅⟩

/-- A backup, and a later one that is cut short. -/
theorem archive_restores_twoBackups :
    RestoresOnly Wire.taskMapJson
      (Runs.run (Archive.step Wire.taskMapJson toString) emptyArchive
        [.change ((∅ : TaskMap).insert 1 ⟨1, "data"⟩)]).manager.tasks .completes
      (emptyArchive.path toString 0)
      (Runs.run (Archive.step Wire.taskMapJson toString) emptyArchive
        ([.change ((∅ : TaskMap).insert 1 ⟨1, "data"⟩)] ++ .backup 0 ⟨default, .completes⟩ ::
          [.change ∅, .backup 1 ⟨default, .stopsAfter 1⟩])).disk := by
  have hfresh : FreshNames toString emptyArchive
      ([.change ((∅ : TaskMap).insert 1 ⟨1, "data"⟩)] ++ .backup 0 ⟨default, .completes⟩ ::
        [.change ∅, .backup 1 ⟨default, .stopsAfter 1⟩]) := by
    constructor
    · decide
    · intro path _
      exact HashMap.get_empty path
  exact archive_restores Wire.taskMapJson_rejectsEmpty Wire.taskMapJson_rejectsCut hfresh

end Backups

end AnKi
