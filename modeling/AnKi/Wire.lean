import AnKi.Library.Json
import Mathlib.Algebra.GroupWithZero.Nat
import Mathlib.Data.Finset.Sort
import Mathlib.Data.Fin.SuccPred

/-!
# Identifiers, stored records and their text

`Uuid` is the 128-bit identifier of the `uuid` crate, written in its hyphenated
lower-case form. The records here are the ones that are stored or sent as JSON. A
hash map is written in the order in which it happens to be listed.
-/

namespace AnKi
set_option autoImplicit false

abbrev Uuid := Fin (2 ^ 128)

instance uuid_neZero : NeZero (2 ^ 128) := ⟨by decide⟩

/-- `Task` of task_recovery.rs; backup.rs declares the same record again. -/
structure Task where
  taskId : Uuid
  data : String
  deriving DecidableEq

abbrev TaskMap := HashMap Uuid Task

abbrev TaskListing := HashMap.Listing Uuid Task

abbrev TaskMapJson := SerdeJson TaskMap TaskListing

/-- `NodeInfo` of dht.rs. -/
structure NodeInfo where
  id : Uuid
  address : String
  role : String
  deriving DecidableEq

/-- `TaskMessage` of ki_node.rs and of an_node.rs. -/
structure TaskMessage where
  taskId : String
  data : String
  deriving DecidableEq

structure ResultMessage where
  taskId : String
  result : String
  deriving DecidableEq

structure UpdateRequest where
  updateId : String
  content : String
  deriving DecidableEq

structure RoleAssignment where
  nodeId : String
  role : String
  deriving DecidableEq

namespace Wire
open TextCodec

theorem uuid_groups : 16 ^ 8 * 16 ^ 4 * 16 ^ 4 * 16 ^ 4 * 16 ^ 12 = 2 ^ 128 := by decide

def uuidText : TextCodec Uuid :=
  let join {m n : Nat} (c : TextCodec (Fin m)) (d : TextCodec (Fin n)) : TextCodec (Fin (m * n)) :=
    (c.both (after ['-'] d)).convert finProdFinEquiv finProdFinEquiv.symm
      finProdFinEquiv.apply_symm_apply
  (join (join (join (join (hexNumber 8) (hexNumber 4)) (hexNumber 4)) (hexNumber 4))
    (hexNumber 12)).convert (Fin.cast uuid_groups) (Fin.cast uuid_groups.symm) fun _ => rfl

def hyphenated (id : Uuid) : String := String.ofList (uuidText.print id)

def parseHyphenated (s : String) : Option Uuid :=
  match uuidText.parse s.toList with
  | some (id, []) => some id
  | _ => none

theorem parseHyphenated_hyphenated (id : Uuid) : parseHyphenated (hyphenated id) = some id := by
  have hparse := uuidText.parse_print id []
  rw [List.append_nil] at hparse
  unfold parseHyphenated hyphenated
  rw [String.toList_ofList, hparse]

theorem hyphenated_injective : Function.Injective hyphenated := by
  intro i j h
  have hi := parseHyphenated_hyphenated i
  rw [h, parseHyphenated_hyphenated] at hi
  exact (Option.some.inj hi).symm

def field {α : Type} (mark : Char) (name : String) (c : TextCodec α) : TextCodec α :=
  after (mark :: '"' :: name.toList ++ ['"', ':']) c

def taskText : TextCodec Task :=
  (((field '{' "task_id" uuidText.quoted).both (field ',' "data" jsonString)).before ['}']).convert
    (fun p => ⟨p.1, p.2⟩) (fun t => (t.taskId, t.data)) fun _ => rfl

def nodeInfoText : TextCodec NodeInfo :=
  (((field '{' "id" uuidText.quoted).both ((field ',' "address" jsonString).both
    (field ',' "role" jsonString))).before ['}']).convert
      (fun p => ⟨p.1, p.2.1, p.2.2⟩) (fun n => (n.id, n.address, n.role)) fun _ => rfl

def keyOrder {V : Type} (m : HashMap Uuid V) : List Uuid := m.keys.sort

theorem keyOrder_iterationOrder {V : Type} (m : HashMap Uuid V) :
    HashMap.IterationOrder (keyOrder m) m := by
  refine ⟨m.keys.sort_nodup _, ?_⟩
  intro k
  rw [keyOrder, Finset.mem_sort, HashMap.mem_keys]

def keyListing (V : Type) : HashMap.Listing Uuid V := ⟨keyOrder, keyOrder_iterationOrder⟩

instance listing_inhabited (V : Type) : Inhabited (HashMap.Listing Uuid V) := ⟨keyListing V⟩

/-- A hash map with `Uuid` keys is an object whose field names are the keys. -/
def mapText {V : Type} (c : TextCodec V) (listing : HashMap.Listing Uuid V) :
    TextCodec (HashMap Uuid V) :=
  (after ['{'] ((uuidText.quoted.both (after [':'] c)).commaList '}'
    (fun e => ⟨'"', uuidText.print e.1 ++ ['"'] ++ (':' :: c.print e.2),
      by simp [both, quoted], by decide⟩) (by decide))).convert
    HashMap.ofEntries (fun m => m.entriesIn (listing.order m))
    fun m => HashMap.ofEntries_entriesIn (listing.covers m)

theorem mapText_ne_nil {V : Type} (c : TextCodec V) (listing : HashMap.Listing Uuid V)
    (m : HashMap Uuid V) : (mapText c listing).print m ≠ [] := by
  simp [mapText, convert]

def taskMapText : TaskListing → TextCodec TaskMap := mapText taskText

theorem taskMapText_parse (listing : TaskListing) :
    (taskMapText listing).parse = (taskMapText default).parse := rfl

/-- An object of two string fields. -/
def pairText (first second : String) : TextCodec (String × String) :=
  ((field '{' first jsonString).both (field ',' second jsonString)).before ['}']

def taskMessageText : TextCodec TaskMessage :=
  (pairText "task_id" "data").convert (fun p => ⟨p.1, p.2⟩) (fun m => (m.taskId, m.data))
    fun _ => rfl

def resultMessageText : TextCodec ResultMessage :=
  (pairText "task_id" "result").convert (fun p => ⟨p.1, p.2⟩) (fun m => (m.taskId, m.result))
    fun _ => rfl

def updateRequestText : TextCodec UpdateRequest :=
  (pairText "update_id" "content").convert (fun p => ⟨p.1, p.2⟩)
    (fun m => (m.updateId, m.content)) fun _ => rfl

def roleAssignmentText : TextCodec RoleAssignment :=
  (pairText "node_id" "role").convert (fun p => ⟨p.1, p.2⟩) (fun m => (m.nodeId, m.role))
    fun _ => rfl

def taskMessageSlice : SerdeSlice TaskMessage := .ofJson (.ofCodec taskMessageText)

def resultMessageSlice : SerdeSlice ResultMessage := .ofJson (.ofCodec resultMessageText)

def updateRequestSlice : SerdeSlice UpdateRequest := .ofJson (.ofCodec updateRequestText)

def roleAssignmentSlice : SerdeSlice RoleAssignment := .ofJson (.ofCodec roleAssignmentText)

theorem taskMessageSlice_nil : taskMessageSlice.fromSlice [] = none :=
  SerdeJson.ofUtf8_nil (SerdeJson.ofCodec_rejectsEmpty taskMessageText ⟨"", ""⟩
    (by simp [taskMessageText, pairText, convert, both, before, field]))

def nodeInfoJson : SerdeJson NodeInfo := .ofCodec nodeInfoText

def taskMapJson : TaskMapJson := .ofCodecs taskMapText taskMapText_parse

theorem taskMapJson_rejectsEmpty : taskMapJson.RejectsEmpty :=
  SerdeJson.ofCodecs_rejectsEmpty taskMapText_parse ∅ (mapText_ne_nil taskText _ ∅)

theorem taskMapJson_rejectsCut : taskMapJson.RejectsCut :=
  SerdeJson.ofCodecs_rejectsCut taskMapText_parse

theorem taskMapJson_rejectsTrailing : taskMapJson.RejectsTrailing :=
  SerdeJson.ofCodecs_rejectsTrailing taskMapText_parse

theorem taskMapJson_skipsWhite : taskMapJson.SkipsWhite :=
  SerdeJson.ofCodecs_skipsWhite taskMapText_parse

end Wire

end AnKi
