import AnKi.Library.HashMap

/-!
# Files, open flags and interrupted writes

The contents of a file are bytes. Text goes through its UTF-8 encoding, so a cut
in the middle of a character is a file that cannot be read as text. A call that
opens a file and writes it may stop at any point, by an error or a crash: the
`WriteFate` given to it says where.
-/

namespace Files
set_option autoImplicit false

abbrev Bytes := List UInt8

/-! ## Text and its bytes -/

def utf8 (s : String) : Bytes := s.toList.flatMap String.utf8EncodeChar

def ofUtf8 (b : Bytes) : Option String := String.fromUTF8? b.toByteArray

theorem toByteArray_utf8 (s : String) : (utf8 s).toByteArray = s.toByteArray := by
  rw [← String.utf8Encode_toList]
  rfl

@[simp] theorem utf8_ofList (l : List Char) :
    utf8 (String.ofList l) = l.flatMap String.utf8EncodeChar := by
  simp [utf8]

@[simp] theorem utf8_append (s t : String) : utf8 (s ++ t) = utf8 s ++ utf8 t := by
  simp [utf8]

theorem utf8_injective : Function.Injective utf8 := by
  intro s t h
  apply String.toByteArray_inj.mp
  rw [← toByteArray_utf8, ← toByteArray_utf8, h]

@[simp] theorem utf8_empty : utf8 "" = [] := by simp [utf8]

@[simp] theorem utf8_eq_nil (s : String) : utf8 s = [] ↔ s = "" := by
  constructor
  · intro h
    exact utf8_injective (h.trans utf8_empty.symm)
  · intro h
    subst h
    exact utf8_empty

@[simp] theorem ofUtf8_utf8 (s : String) : ofUtf8 (utf8 s) = some s := by
  unfold ofUtf8 String.fromUTF8?
  have hvalid : (utf8 s).toByteArray.IsValidUTF8 := by
    rw [toByteArray_utf8]
    exact s.isValidUTF8
  rw [dif_pos hvalid, Option.some.injEq]
  apply String.toByteArray_inj.mp
  exact toByteArray_utf8 s

theorem utf8_of_ofUtf8 {b : Bytes} {s : String} (h : ofUtf8 b = some s) : utf8 s = b := by
  unfold ofUtf8 String.fromUTF8? at h
  split at h
  · have hs := Option.some.inj h
    subst hs
    apply List.toByteArray_inj.mp
    exact toByteArray_utf8 _
  · simp at h

theorem utf8Encode_append_valid (l : List Char) {b : ByteArray}
    (h : (l.utf8Encode ++ b).IsValidUTF8) : b.IsValidUTF8 := by
  induction l with
  | nil => simpa using h
  | cons c l ih =>
    rw [List.utf8Encode_cons, ByteArray.append_assoc] at h
    exact ih (ByteArray.isValidUTF8_utf8Encode_singleton_append_iff.mp h)

/-- A text that starts with the bytes of another text starts with that text. -/
theorem utf8_split {s t : String} {rest : Bytes} (h : utf8 s = utf8 t ++ rest) :
    ∃ u, s = t ++ u ∧ utf8 u = rest := by
  have hbytes : s.toByteArray = t.toByteArray ++ rest.toByteArray := by
    rw [← toByteArray_utf8, h, List.toByteArray_append, toByteArray_utf8]
  have hvalid : rest.toByteArray.IsValidUTF8 := by
    apply utf8Encode_append_valid t.toList
    rw [String.utf8Encode_toList, ← hbytes]
    exact s.isValidUTF8
  have hrest : utf8 (String.fromUTF8 rest.toByteArray hvalid) = rest := by
    apply List.toByteArray_inj.mp
    exact toByteArray_utf8 _
  refine ⟨String.fromUTF8 rest.toByteArray hvalid, ?_, hrest⟩
  apply utf8_injective
  rw [utf8_append, hrest, h]

/-! ## The disk -/

abbrev Disk := HashMap String Bytes

inductive IoError where
  | notFound
  | refused
  | writeFailed
  | invalidData
  deriving Repr, DecidableEq

structure OpenOptions where
  write : Bool := false
  create : Bool := false
  truncate : Bool := false
  deriving Repr, DecidableEq

/-- How far a call that opens a file and then writes it gets. -/
inductive WriteFate where
  | openFails
  | stopsAfter (written : Nat)
  | completes
  deriving Repr, DecidableEq

/-- Bytes written from the start of a file replace what they cover and leave the rest. -/
def overwrite (content data : Bytes) : Bytes := data ++ content.drop data.length

def openFile (options : OpenOptions) (path : String) (disk : Disk) : Except IoError Bytes :=
  match disk.get path with
  | some content => .ok (if options.truncate then [] else content)
  | none => if options.create then .ok [] else .error .notFound

/-- Open a file and write all of `data` from its start. -/
def openAndWrite (options : OpenOptions) (fate : WriteFate) (path : String) (data : Bytes)
    (disk : Disk) : Except IoError Unit × Disk :=
  match fate, openFile options path disk with
  | .openFails, _ => (.error .refused, disk)
  | _, .error e => (.error e, disk)
  | .stopsAfter written, .ok content =>
    (.error .writeFailed, disk.insert path (overwrite content (data.take written)))
  | .completes, .ok content => (.ok (), disk.insert path (overwrite content data))

def readToString (path : String) (disk : Disk) : Except IoError String :=
  match disk.get path with
  | none => .error .notFound
  | some content =>
    match ofUtf8 content with
    | none => .error .invalidData
    | some s => .ok s

@[simp] theorem overwrite_nil (data : Bytes) : overwrite [] data = data := by
  simp [overwrite]

section Write
variable {options : OpenOptions} {fate : WriteFate} {path other : String} {data : Bytes}
variable {disk : Disk}

theorem openAndWrite_of_error {e : IoError} (h : openFile options path disk = .error e) :
    (openAndWrite options fate path data disk).2 = disk ∧
      (openAndWrite options fate path data disk).1 ≠ .ok () := by
  cases fate <;> simp [openAndWrite, h]

@[simp] theorem openAndWrite_openFails :
    openAndWrite options .openFails path data disk = (.error .refused, disk) := by
  simp [openAndWrite]

theorem openAndWrite_stopsAfter {written : Nat} {content : Bytes}
    (h : openFile options path disk = .ok content) :
    openAndWrite options (.stopsAfter written) path data disk =
      (.error .writeFailed, disk.insert path (overwrite content (data.take written))) := by
  simp [openAndWrite, h]

theorem openAndWrite_completes {content : Bytes} (h : openFile options path disk = .ok content) :
    openAndWrite options .completes path data disk =
      (.ok (), disk.insert path (overwrite content data)) := by
  simp [openAndWrite, h]

theorem openAndWrite_ok_iff : (openAndWrite options fate path data disk).1 = .ok () ↔
    fate = .completes ∧ ∃ content, openFile options path disk = .ok content := by
  cases fate <;> cases h : openFile options path disk <;> simp [openAndWrite, h]

end Write

theorem readToString_utf8 {path : String} {disk : Disk} {s : String}
    (h : disk.get path = some (utf8 s)) : readToString path disk = .ok s := by
  simp [readToString, h]

theorem readToString_none {path : String} {disk : Disk} (h : disk.get path = none) :
    readToString path disk = .error .notFound := by
  simp [readToString, h]

/-! ## One byte after the other -/

/-- A byte written inside a file or right behind it. -/
def writeAt (content : Bytes) (pos : Nat) (byte : UInt8) : Bytes :=
  content.take pos ++ byte :: content.drop (pos + 1)

section Bytewise
variable {data : Bytes} {pos : Nat} {byte : UInt8}

theorem writeAt_overwrite (h : data[pos]? = some byte) (content : Bytes) :
    writeAt (overwrite content (data.take pos)) pos byte =
      overwrite content (data.take (pos + 1)) := by
  have hlt : pos < data.length := (List.getElem?_eq_some_iff.mp h).1
  have hlength : (data.take pos).length = pos := List.length_take_of_le hlt.le
  have hlength' : (data.take (pos + 1)).length = pos + 1 := List.length_take_of_le hlt
  have htake : data.take (pos + 1) = data.take pos ++ [byte] := by
    rw [List.take_add_one, h]
    rfl
  rw [writeAt, overwrite, overwrite, hlength, hlength']
  have hbefore : (data.take pos ++ content.drop pos).take pos = data.take pos := by
    rw [List.take_append_of_le_length hlength.ge, List.take_take, min_self]
  have hbehind : (data.take pos ++ content.drop pos).drop (pos + 1) = content.drop (pos + 1) := by
    rw [List.drop_append, hlength, List.drop_drop]
    simp
  rw [hbefore, hbehind, htake, List.append_assoc]
  rfl

/-- A byte of `data` written at its place into a beginning of `data`. -/
theorem writeAt_take (h : data[pos]? = some byte) {length : Nat} (hpos : pos ≤ length) :
    writeAt (data.take length) pos byte = data.take (max length (pos + 1)) := by
  rcases Nat.lt_or_eq_of_le hpos with hlt | rfl
  · have hmem : (data.take length)[pos]? = some byte := by
      rw [List.getElem?_take_of_lt hlt]
      exact h
    obtain ⟨hbound, hbyte⟩ := List.getElem?_eq_some_iff.mp hmem
    rw [max_eq_left hlt, writeAt, ← hbyte, ← List.drop_eq_getElem_cons hbound,
      List.take_append_drop]
  · rw [max_eq_right (Nat.le_succ pos), List.take_add_one, h, writeAt, List.take_take, min_self,
      List.drop_eq_nil_of_le]
    · rfl
    · exact (List.length_take_le _ _).trans (Nat.le_succ pos)

end Bytewise

end Files
