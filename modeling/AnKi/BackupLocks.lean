import AnKi.Library.Locks
import AnKi.TaskKeys

/-!
# backup.rs: backups beside other threads

`create_backup` keeps its guard while it writes, one byte after the other. Calls
within one second have the same file and may write it at the same time, but then
they all hold read guards on one hash map, find it listed in one order and write
the same bytes.
-/

namespace AnKi
open Files Locks
set_option autoImplicit false

namespace BackupLocks
open BackupManager

/-- A hash map of tasks in memory: what is in it and the order in which it is listed. -/
structure Snapshot where
  tasks : TaskMap
  listing : TaskListing

def Snapshot.text (json : TaskMapJson) (snapshot : Snapshot) : Bytes :=
  utf8 (json.toString snapshot.listing snapshot.tasks)

/-- A map that is read from a file is built anew and has the order `listing`. -/
inductive Call where
  | createBackup (timestamp : String) (fate : WriteFate)
  | restoreBackup (backupFile : String) (listing : TaskListing)
  /-- Code that writes to the public field. -/
  | change (changed : Snapshot)

inductive Spot where
  | idle
  | openFile (timestamp : String) (fate : WriteFate)
  | write (path : String) (data : Bytes) (pos : Nat) (fate : WriteFate)
  | storeLock (stored : Snapshot)
  | store (stored : Snapshot)
  | unlock (mode : Mode)

abbrev Point := Spot × List Call

/-- `taken` has the file and the map of every backup that opened its file, and `completed` the
files of the backups that were written to the end. -/
structure Vault where
  manager : BackupManager
  listing : TaskListing
  disk : Disk
  taken : List (String × Snapshot)
  completed : List String

/-- The map as it is now. -/
def Vault.snapshot (s : Vault) : Snapshot := ⟨s.manager.tasks, s.listing⟩

def Vault.store (stored : Snapshot) (s : Vault) : Vault :=
  { s with manager := { s.manager with tasks := stored.tasks }, listing := stored.listing }

def Vault.writeByte (path : String) (pos : Nat) (byte : UInt8) (s : Vault) : Vault :=
  { s with disk := s.disk.insert path (writeAt (oldContent path s.disk) pos byte) }

section Program
variable (json : TaskMapJson)

/-- The file is created here if need be. -/
def Vault.openFile (path : String) (s : Vault) : Vault :=
  { s with
    disk := s.disk.insert path (oldContent path s.disk)
    taken := s.taken ++ [(path, s.snapshot)] }

def Vault.complete (path : String) (s : Vault) : Vault :=
  { s with completed := s.completed ++ [path] }

def enter (rest : List Call) : Call → Instr Unit Vault Point
  | .createBackup timestamp fate => .acquire () .read (.openFile timestamp fate, rest)
  | .restoreBackup backupFile listing => .act fun s =>
    match TaskKeys.restored json backupFile s.disk with
    | some recoveredTasks => (s, (.storeLock ⟨recoveredTasks, listing⟩, rest))
    | none => (s, (.idle, rest))
  | .change changed => .acquire () .write (.store changed, rest)

def instr : Point → Instr Unit Vault Point
  | (.idle, []) => .halt
  | (.idle, call :: rest) => enter json rest call
  | (.openFile timestamp fate, rest) => .act fun s =>
    if fate = .openFails then (s, (.unlock .read, rest))
    else (s.openFile (backupFilePath s.manager.backupDir timestamp),
      (.write (backupFilePath s.manager.backupDir timestamp) (s.snapshot.text json) 0 fate, rest))
  | (.write path data pos fate, rest) => .act fun s =>
    if fate = .stopsAfter pos then (s, (.unlock .read, rest))
    else match data[pos]? with
      | some byte => (s.writeByte path pos byte, (.write path data (pos + 1) fate, rest))
      | none =>
        if fate = .completes then (s.complete path, (.unlock .read, rest))
        else (s, (.unlock .read, rest))
  | (.storeLock stored, rest) => .acquire () .write (.store stored, rest)
  | (.store stored, rest) => .act fun s => (s.store stored, (.unlock .write, rest))
  | (.unlock _, rest) => .release () (.idle, rest)

def start {T : Type} (manager : BackupManager) (listing : TaskListing) (disk : Disk)
    (program : T → List Call) : Config T Unit Vault Point :=
  ⟨⟨manager, listing, disk, [], []⟩, fun _ => [], fun i => (.idle, program i)⟩

def guards : Point → List (Unit × Mode)
  | (.idle, _) | (.storeLock _, _) => []
  | (.openFile _ _, _) | (.write _ _ _ _, _) => [((), .read)]
  | (.store _, _) => [((), .write)]
  | (.unlock mode, _) => [((), mode)]

end Program

/-! ## The call in one piece -/

section Pieces
variable {path : String} {data : Bytes}

/-- The first `count` bytes of `data` written to an open file. -/
def writeBytes (path : String) (data : Bytes) (s : Vault) (count : Nat) : Vault :=
  (data.take count).zipIdx.foldl (fun s byte => s.writeByte path byte.2 byte.1) s

theorem writeBytes_succ {count : Nat} {byte : UInt8} (h : data[count]? = some byte) (s : Vault) :
    writeBytes path data s (count + 1) =
      (writeBytes path data s count).writeByte path count byte := by
  have hlt : count < data.length := (List.getElem?_eq_some_iff.mp h).1
  rw [writeBytes, List.take_add_one, h, Option.toList_some, List.zipIdx_append, List.foldl_append,
    List.length_take_of_le hlt.le]
  simp [writeBytes]

/-- The writes of a call that nobody disturbs leave what `create_backup` leaves. -/
theorem writeBytes_disk (s : Vault) {count : Nat} (hcount : count ≤ data.length) :
    (writeBytes path data (s.openFile path) count).disk =
      s.disk.insert path (overwrite (oldContent path s.disk) (data.take count)) := by
  induction count with
  | zero => simp [writeBytes, Vault.openFile, overwrite]
  | succ count ih =>
    have hbyte : data[count]? = some data[count] := List.getElem?_eq_getElem hcount
    have hold : oldContent path (s.disk.insert path
        (overwrite (oldContent path s.disk) (data.take count))) =
        overwrite (oldContent path s.disk) (data.take count) := by
      rw [oldContent, HashMap.get_insert_self]
      rfl
    rw [writeBytes_succ hbyte, Vault.writeByte, ih (Nat.le_of_succ_le hcount), hold,
      writeAt_overwrite hbyte]
    apply HashMap.ext
    intro other
    simp only [HashMap.get_insert]
    split <;> rfl

theorem createBackup_pieces (json : TaskMapJson) (timestamp : String) (s : Vault) :
    (writeBytes (backupFilePath s.manager.backupDir timestamp)
      (s.snapshot.text json) (s.openFile (backupFilePath s.manager.backupDir timestamp))
      (s.snapshot.text json).length).disk =
        (s.manager.createBackup json timestamp ⟨s.listing, .completes⟩ s.disk).2 := by
  rw [writeBytes_disk s (Nat.le_refl _), List.take_length, createBackup,
    openAndWrite_completes (openFile_backup _ _)]
  rfl

end Pieces

/-! ## What an instruction can be -/

section Instructions
variable {json : TaskMapJson}

theorem instr_halt {point : Point} (h : instr json point = .halt) : guards point = [] := by
  obtain ⟨spot, rest⟩ := point
  cases spot with
  | idle => rfl
  | storeLock stored => rfl
  | _ => cases h

theorem instr_acquire {point next : Point} {lock : Unit} {mode : Mode}
    (h : instr json point = .acquire lock mode next) :
    guards point = [] ∧ guards next = [(lock, mode)] ∧
      ∀ path data pos fate, next.1 ≠ .write path data pos fate := by
  obtain ⟨spot, rest⟩ := point
  cases spot with
  | idle =>
    cases rest with
    | nil => cases h
    | cons call rest =>
      cases call with
      | createBackup timestamp fate =>
        obtain ⟨rfl, rfl, rfl⟩ := Instr.acquire.inj h
        exact ⟨rfl, rfl, by simp⟩
      | restoreBackup backupFile listing => cases h
      | change changed =>
        obtain ⟨rfl, rfl, rfl⟩ := Instr.acquire.inj h
        exact ⟨rfl, rfl, by simp⟩
  | storeLock stored =>
    obtain ⟨rfl, rfl, rfl⟩ := Instr.acquire.inj h
    exact ⟨rfl, rfl, by simp⟩
  | _ => cases h

theorem instr_release {point next : Point} {lock : Unit}
    (h : instr json point = .release lock next) : ∃ mode rest,
      point = (.unlock mode, rest) ∧ next = (.idle, rest) := by
  obtain ⟨spot, rest⟩ := point
  cases spot with
  | idle =>
    cases rest with
    | nil => cases h
    | cons call rest => cases call <;> cases h
  | unlock mode =>
    obtain ⟨-, rfl⟩ := Instr.release.inj h
    exact ⟨mode, rest, rfl, rfl⟩
  | _ => cases h

variable (json) in
/-- What an action does to the vault. -/
inductive Effect (s : Vault) : Point → Vault → Point → Prop where
  | moves {point next : Point} (hguards : guards next = guards point)
      (hnext : ∀ path data pos fate, next.1 ≠ .write path data pos fate) : Effect s point s next
  | opens (timestamp : String) (fate : WriteFate) (rest : List Call) :
      Effect s (.openFile timestamp fate, rest)
        (s.openFile (backupFilePath s.manager.backupDir timestamp))
        (.write (backupFilePath s.manager.backupDir timestamp) (s.snapshot.text json) 0 fate, rest)
  | writes (path : String) {data : Bytes} {pos : Nat} {byte : UInt8} (fate : WriteFate)
      (rest : List Call) (hbyte : data[pos]? = some byte) :
      Effect s (.write path data pos fate, rest) (s.writeByte path pos byte)
        (.write path data (pos + 1) fate, rest)
  | completes (path : String) {data : Bytes} {pos : Nat} (fate : WriteFate) (rest : List Call)
      (hend : data[pos]? = none) :
      Effect s (.write path data pos fate, rest) (s.complete path) (.unlock .read, rest)
  | stores (stored : Snapshot) (rest : List Call) :
      Effect s (.store stored, rest) (s.store stored) (.unlock .write, rest)

theorem effect_of_act {point : Point} {perform : Vault → Vault × Point}
    (h : instr json point = .act perform) (s : Vault) :
    Effect json s point (perform s).1 (perform s).2 := by
  obtain ⟨spot, rest⟩ := point
  cases spot with
  | idle =>
    cases rest with
    | nil => cases h
    | cons call rest =>
      cases call with
      | createBackup timestamp fate => cases h
      | change changed => cases h
      | restoreBackup backupFile listing =>
        obtain rfl := Instr.act.inj h
        cases hread : TaskKeys.restored json backupFile s.disk with
        | none =>
          simp only [hread]
          exact .moves rfl (by simp)
        | some recoveredTasks =>
          simp only [hread]
          exact .moves rfl (by simp)
  | openFile timestamp fate =>
    obtain rfl := Instr.act.inj h
    by_cases hfate : fate = .openFails
    · simp only [hfate, if_true]
      exact .moves rfl (by simp)
    · simp only [hfate, if_false]
      exact .opens timestamp fate rest
  | write path data pos fate =>
    obtain rfl := Instr.act.inj h
    by_cases hstop : fate = .stopsAfter pos
    · simp only [hstop, if_true]
      exact .moves rfl (by simp)
    · simp only [hstop, if_false]
      cases hbyte : data[pos]? with
      | some byte => exact .writes path fate rest hbyte
      | none =>
        by_cases hfate : fate = .completes
        · simp only [hfate, if_true]
          exact .completes path .completes rest hbyte
        · simp only [hfate, if_false]
          exact .moves rfl (by simp)
  | store stored =>
    obtain rfl := Instr.act.inj h
    exact .stores stored rest
  | storeLock stored => cases h
  | unlock mode => cases h

theorem Effect.guards_eq {s s' : Vault} {point next : Point} (h : Effect json s point s' next) :
    guards next = guards point := by
  cases h with
  | moves hguards _ => exact hguards
  | opens | writes | completes | stores => rfl

variable (json) in
def lockProfile : LockProfile (instr json) where
  holds := guards
  halt h := instr_halt h
  acquire h := by
    obtain ⟨hbefore, hnext, -⟩ := instr_acquire h
    rw [hbefore, hnext]
  release h := by
    obtain ⟨mode, rest, rfl, rfl⟩ := instr_release h
    simp [guards, dropGuard]
  act h s := (effect_of_act h s).guards_eq

end Instructions

/-! ## What is in a file -/

section Files
variable {json : TaskMapJson}

variable (json) in
/-- A call that writes does so with the map as it is, and it is inside its file. -/
def AtPoint (s : Vault) (point : Point) : Prop :=
  ∀ path data pos fate, point.1 = .write path data pos fate →
    data = s.snapshot.text json ∧ (path, s.snapshot) ∈ s.taken ∧
      pos ≤ (oldContent path s.disk).length

variable (json) in
/-- All backups that opened the file had this text to write. -/
def Only (path : String) (text : Bytes) (s : Vault) : Prop :=
  ∀ taken ∈ s.taken, taken.1 = path → taken.2.text json = text

/-- A file that the backups made has a beginning of the text, and all of it once one of them
has completed. -/
structure Beginning (path : String) (text : Bytes) (s : Vault) : Prop where
  absent : (∀ taken ∈ s.taken, taken.1 ≠ path) → s.disk.get path = none
  present : (∃ taken ∈ s.taken, taken.1 = path) → ∃ content, s.disk.get path = some content ∧
    content <+: text ∧ (path ∈ s.completed → content = text)

structure Grows (s s' : Vault) : Prop where
  snapshot : s'.snapshot = s.snapshot
  taken : ∀ taken ∈ s.taken, taken ∈ s'.taken
  length : ∀ path, (oldContent path s.disk).length ≤ (oldContent path s'.disk).length

theorem atPoint_of_not_write {s : Vault} {point : Point}
    (h : ∀ path data pos fate, point.1 ≠ .write path data pos fate) : AtPoint json s point :=
  fun path data pos fate hpoint => absurd hpoint (h path data pos fate)

theorem AtPoint.grows {s s' : Vault} {point : Point} (h : AtPoint json s point)
    (hgrows : Grows s s') : AtPoint json s' point := by
  intro path data pos fate hpoint
  obtain ⟨hdata, htaken, hpos⟩ := h path data pos fate hpoint
  rw [hgrows.snapshot]
  exact ⟨hdata, hgrows.taken _ htaken, hpos.trans (hgrows.length path)⟩

theorem oldContent_openFile (path other : String) (s : Vault) :
    oldContent other (s.openFile path).disk = oldContent other s.disk := by
  rw [oldContent, Vault.openFile, HashMap.get_insert]
  split
  · rename_i hother
    rw [hother]
    rfl
  · rfl

theorem length_writeAt_ge (content : Bytes) (pos : Nat) (byte : UInt8) :
    content.length ≤ (writeAt content pos byte).length := by
  rw [writeAt, List.length_append, List.length_cons, List.length_take, List.length_drop]
  omega

theorem openFile_grows (path : String) (s : Vault) : Grows s (s.openFile path) :=
  ⟨rfl, fun _ htaken => List.mem_append_left _ htaken,
    fun other => (congrArg List.length (oldContent_openFile path other s)).ge⟩

theorem writeByte_grows (path : String) (pos : Nat) (byte : UInt8) (s : Vault) :
    Grows s (s.writeByte path pos byte) := by
  refine ⟨rfl, fun _ htaken => htaken, ?_⟩
  intro other
  rw [oldContent, oldContent, Vault.writeByte, HashMap.get_insert]
  split
  · rename_i hother
    rw [hother]
    exact length_writeAt_ge _ pos byte
  · exact Nat.le_refl _

theorem complete_grows (path : String) (s : Vault) : Grows s (s.complete path) :=
  ⟨rfl, fun _ htaken => htaken, fun _ => Nat.le_refl _⟩

theorem Effect.atPoint {s s' : Vault} {point next : Point} (h : Effect json s point s' next)
    (hpoint : AtPoint json s point) : AtPoint json s' next := by
  cases h with
  | moves _ hnext => exact atPoint_of_not_write hnext
  | opens timestamp fate rest =>
    intro path data pos fate' hwrite
    cases hwrite
    exact ⟨rfl, List.mem_append_right _ (List.mem_singleton_self _), Nat.zero_le _⟩
  | @writes path data pos byte fate rest hbyte =>
    intro path' data' pos' fate' hwrite
    cases hwrite
    obtain ⟨hdata, htaken, hpos⟩ := hpoint path data pos fate rfl
    refine ⟨hdata, htaken, ?_⟩
    have hfile : oldContent path (s.writeByte path pos byte).disk =
        writeAt (oldContent path s.disk) pos byte := by
      rw [oldContent, Vault.writeByte, HashMap.get_insert_self]
      rfl
    rw [hfile, writeAt, List.length_append, List.length_cons, List.length_take, List.length_drop]
    omega
  | completes | stores => exact atPoint_of_not_write (by simp)

/-- Unless the tasks are stored anew, what others know stays true. -/
theorem Effect.grows {s s' : Vault} {point next : Point} (h : Effect json s point s' next) :
    Grows s s' ∨ ((), .write) ∈ guards point := by
  cases h with
  | moves => exact Or.inl ⟨rfl, fun _ htaken => htaken, fun _ => Nat.le_refl _⟩
  | opens => exact Or.inl (openFile_grows _ s)
  | writes => exact Or.inl (writeByte_grows _ _ _ s)
  | completes => exact Or.inl (complete_grows _ s)
  | stores => exact Or.inr (List.mem_singleton_self _)

theorem Effect.only {s s' : Vault} {point next : Point} (h : Effect json s point s' next)
    {path : String} {text : Bytes} (honly : Only json path text s') : Only json path text s := by
  cases h with
  | moves => exact honly
  | opens => exact fun taken htaken => honly taken (List.mem_append_left _ htaken)
  | writes => exact honly
  | completes => exact honly
  | stores => exact honly

theorem Beginning.opens {s : Vault} {path : String} {text : Bytes} (h : Beginning path text s)
    (other : String) (hcompleted : ∀ done ∈ s.completed, ∃ taken ∈ s.taken, taken.1 = done) :
    Beginning path text (s.openFile other) := by
  have hlast : (other, s.snapshot) ∈ (s.openFile other).taken :=
    List.mem_append_right _ (List.mem_singleton_self _)
  by_cases hother : other = path
  · subst hother
    constructor
    · intro habsent
      exact absurd rfl (habsent _ hlast)
    · intro _
      have hfile : (s.openFile other).disk.get other = some (oldContent other s.disk) :=
        HashMap.get_insert_self _ _ _
      refine ⟨_, hfile, ?_⟩
      by_cases htaken : ∃ taken ∈ s.taken, taken.1 = other
      · obtain ⟨content, hget, hpre, hall⟩ := h.present htaken
        rw [oldContent, hget]
        exact ⟨hpre, hall⟩
      · -- the file is new
        have hnone : ∀ taken ∈ s.taken, taken.1 ≠ other := fun taken hmem hpath =>
          htaken ⟨taken, hmem, hpath⟩
        rw [oldContent, h.absent hnone]
        refine ⟨List.nil_prefix, ?_⟩
        intro hdone
        exact absurd (hcompleted other hdone) htaken
  · have hget : (s.openFile other).disk.get path = s.disk.get path := by
      rw [Vault.openFile, HashMap.get_insert, if_neg (Ne.symm hother)]
    constructor
    · intro habsent
      rw [hget]
      exact h.absent fun taken htaken => habsent taken (List.mem_append_left _ htaken)
    · rintro ⟨taken, hmem, hpath⟩
      rw [hget]
      apply h.present
      rcases List.mem_append.mp hmem with hmem | hmem
      · exact ⟨taken, hmem, hpath⟩
      · rw [List.mem_singleton.mp hmem] at hpath
        exact absurd hpath hother

theorem Beginning.writes {s : Vault} {path : String} {text : Bytes} (h : Beginning path text s)
    (honly : Only json path text s) {other : String} {pos : Nat} {byte : UInt8}
    (htaken : (other, s.snapshot) ∈ s.taken) (hbyte : (s.snapshot.text json)[pos]? = some byte)
    (hpos : pos ≤ (oldContent other s.disk).length) :
    Beginning path text (s.writeByte other pos byte) := by
  by_cases hother : other = path
  · subst hother
    rw [show s.snapshot.text json = text from honly _ htaken rfl] at hbyte
    constructor
    · intro habsent
      exact absurd rfl (habsent _ htaken)
    · intro _
      obtain ⟨content, hget, hpre, hall⟩ := h.present ⟨_, htaken, rfl⟩
      have hold : oldContent other s.disk = content := by rw [oldContent, hget]; rfl
      rw [hold] at hpos
      refine ⟨writeAt content pos byte, ?_, ?_, ?_⟩
      · rw [Vault.writeByte, HashMap.get_insert_self, hold]
      · rw [List.prefix_iff_eq_take.mp hpre, writeAt_take hbyte hpos]
        exact List.take_prefix _ _
      · intro hdone
        have hwhole := hall hdone
        have hlt : pos < text.length := (List.getElem?_eq_some_iff.mp hbyte).1
        rw [List.prefix_iff_eq_take.mp hpre, writeAt_take hbyte hpos, hwhole]
        exact List.take_of_length_le (Nat.le_max_left _ _)
  · have hget : (s.writeByte other pos byte).disk.get path = s.disk.get path := by
      rw [Vault.writeByte, HashMap.get_insert, if_neg (Ne.symm hother)]
    constructor
    · rw [hget]
      exact h.absent
    · rw [hget]
      exact h.present

theorem Beginning.completes {s : Vault} {path : String} {text : Bytes} (h : Beginning path text s)
    (honly : Only json path text s) {other : String} {pos : Nat}
    (htaken : (other, s.snapshot) ∈ s.taken) (hend : (s.snapshot.text json)[pos]? = none)
    (hpos : pos ≤ (oldContent other s.disk).length) :
    Beginning path text (s.complete other) := by
  refine ⟨h.absent, ?_⟩
  intro hsome
  obtain ⟨content, hget, hpre, hall⟩ := h.present hsome
  refine ⟨content, hget, hpre, ?_⟩
  intro hdone
  rcases List.mem_append.mp hdone with hdone | hdone
  · exact hall hdone
  · obtain rfl := List.mem_singleton.mp hdone
    have hold : oldContent path s.disk = content := by rw [oldContent, hget]; rfl
    rw [show s.snapshot.text json = text from honly _ htaken rfl] at hend
    rw [hold] at hpos
    exact hpre.eq_of_length_le ((List.getElem?_eq_none_iff.mp hend).trans hpos)

theorem Effect.completed {s s' : Vault} {point next : Point} (h : Effect json s point s' next)
    (hpoint : AtPoint json s point)
    (hcompleted : ∀ done ∈ s.completed, ∃ taken ∈ s.taken, taken.1 = done) :
    ∀ done ∈ s'.completed, ∃ taken ∈ s'.taken, taken.1 = done := by
  cases h with
  | moves => exact hcompleted
  | opens =>
    intro done hdone
    obtain ⟨taken, hmem, hpath⟩ := hcompleted done hdone
    exact ⟨taken, List.mem_append_left _ hmem, hpath⟩
  | writes => exact hcompleted
  | stores => exact hcompleted
  | @completes path data pos fate rest hend =>
    intro done hdone
    rcases List.mem_append.mp hdone with hdone | hdone
    · exact hcompleted done hdone
    · obtain rfl := List.mem_singleton.mp hdone
      exact ⟨_, (hpoint done data pos fate rfl).2.1, rfl⟩

theorem Effect.beginning {s s' : Vault} {point next : Point} (h : Effect json s point s' next)
    (hpoint : AtPoint json s point)
    (hcompleted : ∀ done ∈ s.completed, ∃ taken ∈ s.taken, taken.1 = done)
    {path : String} {text : Bytes} (honly : Only json path text s')
    (hbefore : Beginning path text s) : Beginning path text s' := by
  cases h with
  | moves => exact hbefore
  | opens => exact hbefore.opens _ hcompleted
  | @writes other data pos byte fate rest hbyte =>
    obtain ⟨rfl, htaken, hpos⟩ := hpoint other data pos fate rfl
    exact hbefore.writes honly htaken hbyte hpos
  | @completes other data pos fate rest hend =>
    obtain ⟨rfl, htaken, hpos⟩ := hpoint other data pos fate rfl
    exact hbefore.completes honly htaken hend hpos
  | stores => exact ⟨hbefore.absent, hbefore.present⟩

end Files

/-! ## All threads -/

section Threads
variable {json : TaskMapJson} {T : Type} [DecidableEq T] {writersFirst : Bool}

variable (json) in
structure Sound (disk : Disk) (c : Config T Unit Vault Point) : Prop where
  point : ∀ i, AtPoint json c.data (c.point i)
  completed : ∀ done ∈ c.data.completed, ∃ taken ∈ c.data.taken, taken.1 = done
  beginning : ∀ path text, disk.get path = none → Only json path text c.data →
    Beginning path text c.data

theorem Sound.act {disk : Disk} {c : Config T Unit Vault Point} (h : Sound json disk c)
    (hheld : (lockProfile json).Held c) (hexclusive : Exclusive c) {i : T} {s' : Vault}
    {next : Point} (heffect : Effect json c.data (c.point i) s' next) :
    Sound json disk ⟨s', c.held, Function.update c.point i next⟩ := by
  have hnext := heffect.atPoint (h.point i)
  refine ⟨?_, ?_, ?_⟩
  · intro j
    by_cases hj : j = i
    · subst hj
      simpa using hnext
    · simp only [Function.update_of_ne hj]
      rcases heffect.grows with hgrows | hwrite
      · exact (h.point j).grows hgrows
      · -- a thread that writes a file has a guard
        apply atPoint_of_not_write
        intro path data pos fate hpoint
        have hguard : ((), .read) ∈ c.held j := by
          rw [hheld j, show c.point j = (.write path data pos fate, (c.point j).2) from
            Prod.ext hpoint rfl]
          exact List.mem_singleton_self _
        exact hexclusive i j () .read (Ne.symm hj) ((hheld i).symm ▸ hwrite) hguard
  · exact heffect.completed (h.point i) h.completed
  · intro path text habsent honly
    exact heffect.beginning (h.point i) h.completed honly
      (h.beginning path text habsent (heffect.only honly))

theorem Sound.moved {disk : Disk} {c : Config T Unit Vault Point} (h : Sound json disk c) {i : T}
    {next : Point} {held : T → List (Unit × Mode)}
    (hnext : ∀ path data pos fate, next.1 ≠ .write path data pos fate) :
    Sound json disk ⟨c.data, held, Function.update c.point i next⟩ := by
  refine ⟨?_, h.completed, h.beginning⟩
  intro j
  by_cases hj : j = i
  · subst hj
    simpa using atPoint_of_not_write hnext
  · simpa [hj] using h.point j

theorem Sound.step {disk : Disk} {c c' : Config T Unit Vault Point} (h : Sound json disk c)
    (hheld : (lockProfile json).Held c) (hexclusive : Exclusive c)
    (hstep : Step (instr json) writersFirst c c') : Sound json disk c' := by
  cases hstep with
  | acquire i hinstr _ => exact h.moved (instr_acquire hinstr).2.2
  | release i hinstr =>
    obtain ⟨mode, rest, -, rfl⟩ := instr_release hinstr
    exact h.moved (by simp)
  | act i hinstr => exact h.act hheld hexclusive (effect_of_act hinstr c.data)

section Start
variable (manager : BackupManager) (listing : TaskListing) (disk : Disk) (program : T → List Call)

omit [DecidableEq T] in
theorem start_sound : Sound json disk (start manager listing disk program) := by
  refine ⟨fun i => atPoint_of_not_write (by simp [start]), by simp [start], ?_⟩
  intro path text habsent _
  exact ⟨fun _ => habsent, by simp [start]⟩

omit [DecidableEq T] in
theorem start_held : (lockProfile json).Held (start manager listing disk program) := fun _ => rfl

variable {manager listing disk program}

theorem reach_sound {c : Config T Unit Vault Point}
    (hreach : Reach (instr json) writersFirst (start manager listing disk program) c) :
    Sound json disk c := by
  have hexclusive : Exclusive (start manager listing disk program) := by simp [Exclusive, start]
  have hheld : (lockProfile json).Held (start manager listing disk program) :=
    start_held manager listing disk program
  induction hreach with
  | refl => exact start_sound manager listing disk program
  | tail hbefore hstep ih =>
    exact ih.step (hheld.reach hbefore) (hexclusive.reach hbefore) hstep

theorem start_neverStuck : NeverStuck (instr json) (start manager listing disk program) := by
  have hbound : ∀ lock : Unit, (fun _ => 0 : Unit → Nat) lock < 1 := fun _ => Nat.one_pos
  apply (start_held manager listing disk program).tracks.neverStuck hbound
  intro c _
  apply LockProfile.Ordered.usage
  intro i lock mode next hinstr g hg
  rw [show (lockProfile json).holds (c.point i) = [] from (instr_acquire hinstr).1] at hg
  cases hg

end Start

variable (json) in
/-- A backup file that was not there at the start, and whose backups all had the same text to
write, restores to the tasks of these, or fails to restore while no backup of it has completed. -/
def SnapshotsRestore (disk : Disk) (s : Vault) : Prop :=
  ∀ path snapshot, disk.get path = none → (path, snapshot) ∈ s.taken →
    Only json path (snapshot.text json) s → ∀ other : BackupManager,
      other.restoreBackup json path s.disk = (.ok (), { other with tasks := snapshot.tasks }) ∨
        (path ∉ s.completed ∧ ∃ e, other.restoreBackup json path s.disk = (.error e, other))

/-- Backups do not block the threads beside them, and each one is of the tasks as they were at one
moment, also where several of them write one file at the same time. -/
theorem snapshots_restore (hempty : json.RejectsEmpty) (hcut : json.RejectsCut)
    (manager : BackupManager) (listing : TaskListing) (disk : Disk) (program : T → List Call) :
    NeverStuck (instr json) (start manager listing disk program) ∧
      ∀ c, Reach (instr json) writersFirst (start manager listing disk program) c →
        SnapshotsRestore json disk c.data := by
  refine ⟨start_neverStuck, ?_⟩
  intro c hreach path snapshot habsent htaken honly other
  obtain ⟨content, hget, hpre, hall⟩ :=
    ((reach_sound hreach).beginning path _ habsent honly).present ⟨_, htaken, rfl⟩
  rcases Backups.restoreBackup_beginning hempty hcut hget hpre other with hok | ⟨hne, herror⟩
  · exact Or.inl hok
  · exact Or.inr ⟨fun hdone => hne (hall hdone), herror⟩

end Threads

/-- Two backups within one second, one of them cut short, beside a change of the tasks. -/
def sameSecond : Option Bool → List Call
  | some cut =>
    [.createBackup "20240101000000" (bif cut then .stopsAfter 1 else .completes)]
  | none => [.change ⟨(∅ : TaskMap).insert 1 ⟨1, "data"⟩, default⟩]

theorem snapshots_restore_sameSecond :
    NeverStuck (instr Wire.taskMapJson)
        (start (BackupManager.new "backups") default ∅ sameSecond) ∧
      ∀ c, Reach (instr Wire.taskMapJson) true
        (start (BackupManager.new "backups") default ∅ sameSecond) c →
          SnapshotsRestore Wire.taskMapJson ∅ c.data :=
  snapshots_restore Wire.taskMapJson_rejectsEmpty Wire.taskMapJson_rejectsCut _ _ _ _

end BackupLocks

end AnKi
