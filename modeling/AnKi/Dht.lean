import AnKi.Library.Runs
import AnKi.Wire

/-!
# dht.rs: the node table and its copy in the database

Nodes are kept under their own ids. `store_dht_in_db` upserts one row for each
node and deletes none, so the database table holds the last stored version of
every node that was ever stored. `Stands` ties the rows to that map.
-/

namespace AnKi
set_option autoImplicit false

/-- Nothing but `add_node` fills the map, so every node is under its own id. -/
structure DHT where
  nodes : HashMap Uuid NodeInfo
  keyed : ∀ id node, nodes.get id = some node → node.id = id

namespace DHT

def new : DHT := ⟨∅, by simp⟩

def addNode (nodeInfo : NodeInfo) (self : DHT) : DHT where
  nodes := self.nodes.insert nodeInfo.id nodeInfo
  keyed := by
    intro id node h
    rw [HashMap.get_insert] at h
    split at h
    · rename_i hid
      rw [← Option.some.inj h, hid]
    · exact self.keyed id node h

def removeNode (nodeId : Uuid) (self : DHT) : DHT where
  nodes := self.nodes.remove nodeId
  keyed := by
    intro id node h
    rw [HashMap.get_remove] at h
    split at h
    · simp at h
    · exact self.keyed id node h

def listNodes (order : List Uuid) (self : DHT) : List NodeInfo := self.nodes.valuesIn order

@[simp] theorem new_nodes : new.nodes = ∅ := rfl

@[simp] theorem addNode_nodes (nodeInfo : NodeInfo) (self : DHT) :
    (self.addNode nodeInfo).nodes = self.nodes.insert nodeInfo.id nodeInfo := rfl

@[simp] theorem removeNode_nodes (nodeId : Uuid) (self : DHT) :
    (self.removeNode nodeId).nodes = self.nodes.remove nodeId := rfl

theorem mem_listNodes {self : DHT} {order : List Uuid}
    (horder : HashMap.IterationOrder order self.nodes) (node : NodeInfo) :
    node ∈ self.listNodes order ↔ self.nodes.get node.id = some node := by
  rw [listNodes, HashMap.mem_valuesIn horder]
  constructor
  · intro hmem
    rcases hmem with ⟨id, hid⟩
    rw [self.keyed id node hid]
    exact hid
  · intro h
    exact ⟨node.id, h⟩

end DHT

namespace Database
open DHT

/-- The table `dht`, with `node_info` under the primary key `node_id`. -/
abbrev Table := HashMap String String

inductive RowFate where
  | serializeFails
  | executeFails
  | completes
  deriving DecidableEq

inductive StoreError where
  | json
  | execute
  deriving DecidableEq

section Rows
variable (json : SerdeJson NodeInfo)

/-- `INSERT INTO dht .. ON CONFLICT (node_id) DO UPDATE` for one node. -/
def upsert (node : NodeInfo) (table : Table) : Table :=
  table.insert (Wire.hyphenated node.id) (json.toString () node)

def storeRows (fate : NodeInfo → RowFate) : List NodeInfo → Table →
    Except StoreError Unit × Table
  | [], table => (.ok (), table)
  | node :: nodes, table =>
    match fate node with
    | .serializeFails => (.error .json, table)
    | .executeFails => (.error .execute, table)
    | .completes => storeRows fate nodes (upsert json node table)

def storeDhtInDb (fate : NodeInfo → RowFate) (order : List Uuid) (dht : DHT) (table : Table) :
    Except StoreError Unit × Table := storeRows json fate (dht.listNodes order) table

/-- The rows one by one; the first that does not parse ends the load. -/
def loadRows : List (String × String) → DHT → Option DHT
  | [], dht => some dht
  | (_, nodeInfoStr) :: rows, dht =>
    match json.fromStr nodeInfoStr with
    | none => none
    | some nodeInfo => loadRows rows (dht.addNode nodeInfo)

/-- `SELECT node_id, node_info FROM dht` lists the rows in some order. -/
def loadDhtFromDb (rowOrder : List String) (table : Table) : Option DHT :=
  loadRows json (table.entriesIn rowOrder) DHT.new

/-- The rows of the table are exactly the nodes of the map. -/
structure Stands (table : Table) (m : HashMap Uuid NodeInfo) : Prop where
  row : ∀ id, table.get (Wire.hyphenated id) = (m.get id).map (json.toString ())
  id : ∀ nodeId, (table.get nodeId).isSome → ∃ id, nodeId = Wire.hyphenated id
  keyed : ∀ id node, m.get id = some node → node.id = id

variable {json}

theorem Stands.empty : Stands json ∅ ∅ := ⟨by simp, by simp, by simp⟩

theorem Stands.upsert {table : Table} {m : HashMap Uuid NodeInfo} (h : Stands json table m)
    (node : NodeInfo) : Stands json (Database.upsert json node table) (m.insert node.id node) where
  row := by
    intro id
    simp only [Database.upsert, HashMap.get_insert, Wire.hyphenated_injective.eq_iff]
    split
    · rfl
    · exact h.row id
  id := by
    intro nodeId hrow
    simp only [Database.upsert, HashMap.get_insert] at hrow
    split at hrow
    · rename_i hid
      exact ⟨node.id, hid⟩
    · exact h.id nodeId hrow
  keyed := by
    have hm : m.KeyedBy NodeInfo.id := h.keyed
    exact hm.insert node

theorem storeRows_completes (nodes : List NodeInfo) (table : Table) :
    storeRows json (fun _ => .completes) nodes table =
      (.ok (), nodes.foldl (fun table node => upsert json node table) table) := by
  induction nodes generalizing table with
  | nil => rfl
  | cons node nodes ih => exact ih (upsert json node table)

theorem Stands.upserts {table : Table} {m : HashMap Uuid NodeInfo} (h : Stands json table m)
    (nodes : List NodeInfo) :
    Stands json (nodes.foldl (fun table node => Database.upsert json node table) table)
      (nodes.foldl (fun m node => m.insert node.id node) m) := by
  induction nodes generalizing table m with
  | nil => exact h
  | cons node nodes ih => exact ih (h.upsert node)

theorem foldl_listNodes {dht : DHT} {order : List Uuid}
    (horder : HashMap.IterationOrder order dht.nodes) (m : HashMap Uuid NodeInfo) :
    (dht.listNodes order).foldl (fun m node => m.insert node.id node) m = dht.nodes.union m := by
  have hnodes : ∀ node ∈ dht.listNodes order, dht.nodes.get node.id = some node :=
    fun node hnode => (mem_listNodes horder node).mp hnode
  apply HashMap.ext
  intro id
  rw [HashMap.get_foldl_insert hnodes, HashMap.get_union]
  split
  · rename_i hmem
    obtain ⟨node, hnode, rfl⟩ := List.mem_map.mp hmem
    simp [hnodes node hnode]
  · rename_i hmem
    cases hget : dht.nodes.get id with
    | none => rfl
    | some node =>
      obtain rfl := dht.keyed id node hget
      exact absurd (List.mem_map_of_mem ((mem_listNodes horder node).mpr hget)) hmem

theorem Stands.storeDhtInDb {table : Table} {m : HashMap Uuid NodeInfo}
    (h : Stands json table m) {dht : DHT} {order : List Uuid}
    (horder : HashMap.IterationOrder order dht.nodes) :
    Stands json (Database.storeDhtInDb json (fun _ => .completes) order dht table).2
      (dht.nodes.union m) := by
  rw [Database.storeDhtInDb, storeRows_completes, ← foldl_listNodes horder m]
  exact h.upserts (dht.listNodes order)

theorem loadRows_of_encoded {rows : List (String × String)} {nodes : List NodeInfo}
    (h : rows.map Prod.snd = nodes.map (json.toString ())) (dht : DHT) :
    loadRows json rows dht = some (nodes.foldl (fun dht node => dht.addNode node) dht) := by
  induction rows generalizing nodes dht with
  | nil =>
    rw [List.map_nil, eq_comm, List.map_eq_nil_iff] at h
    subst h
    rfl
  | cons row rows ih =>
    cases nodes with
    | nil => simp at h
    | cons node nodes =>
      simp only [List.map_cons, List.cons.injEq] at h
      obtain ⟨_, nodeInfoStr⟩ := row
      obtain rfl : nodeInfoStr = json.toString () node := h.1
      simp only [loadRows, json.fromStr_toString, List.foldl_cons]
      exact ih h.2 (dht.addNode node)

theorem foldl_addNode_nodes (nodes : List NodeInfo) (dht : DHT) :
    (nodes.foldl (fun dht node => dht.addNode node) dht).nodes =
      nodes.foldl (fun m node => m.insert node.id node) dht.nodes := by
  induction nodes generalizing dht with
  | nil => rfl
  | cons node nodes ih => exact ih (dht.addNode node)

theorem Stands.exists_nodes {table : Table} {m : HashMap Uuid NodeInfo} (h : Stands json table m)
    {rows : List (String × String)} (hrows : ∀ row ∈ rows, table.get row.1 = some row.2) :
    ∃ nodes : List NodeInfo, rows.map Prod.snd = nodes.map (json.toString ()) ∧
      ∀ node ∈ nodes, m.get node.id = some node := by
  induction rows with
  | nil => exact ⟨[], rfl, by simp⟩
  | cons row rows ih =>
    obtain ⟨nodes, hmap, hnodes⟩ := ih fun row hrow => hrows row (List.mem_cons_of_mem _ hrow)
    have hrow := hrows row List.mem_cons_self
    obtain ⟨id, hid⟩ := h.id row.1 (by simp [hrow])
    rw [hid, h.row id, Option.map_eq_some_iff] at hrow
    obtain ⟨node, hget, hnode⟩ := hrow
    obtain rfl := h.keyed id node hget
    refine ⟨node :: nodes, by simp [hmap, hnode], ?_⟩
    intro other hother
    rcases List.mem_cons.mp hother with rfl | hother
    · exact hget
    · exact hnodes other hother

theorem Stands.loadDhtFromDb {table : Table} {m : HashMap Uuid NodeInfo} (h : Stands json table m)
    {rowOrder : List String} (horder : HashMap.IterationOrder rowOrder table) :
    ∃ dht, Database.loadDhtFromDb json rowOrder table = some dht ∧ dht.nodes = m := by
  obtain ⟨nodes, hmap, hnodes⟩ := h.exists_nodes fun row hrow =>
    (HashMap.mem_entriesIn horder row.1 row.2).mp hrow
  refine ⟨_, loadRows_of_encoded hmap DHT.new, ?_⟩
  apply HashMap.ext
  intro id
  rw [foldl_addNode_nodes, DHT.new_nodes, HashMap.get_foldl_insert hnodes]
  split
  · rfl
  · rename_i hmem
    cases hget : m.get id with
    | none => simp
    | some node =>
      -- the row of the node was read, and no other node has its text
      have hrow : (Wire.hyphenated id, json.toString () node) ∈ table.entriesIn rowOrder :=
        (HashMap.mem_entriesIn horder _ _).mpr (by rw [h.row id, hget, Option.map_some])
      have htext : json.toString () node ∈ nodes.map (json.toString ()) :=
        hmap ▸ List.mem_map_of_mem hrow
      obtain ⟨other, hother, hsame⟩ := List.mem_map.mp htext
      obtain rfl := json.eq_of_toString_eq hsame
      exact absurd (h.keyed id other hget ▸ List.mem_map_of_mem hother) hmem

end Rows

/-! ## Histories -/

inductive Event where
  | addNode (nodeInfo : NodeInfo)
  | removeNode (nodeId : Uuid)
  | store (order : List Uuid)

/-- The DHT, the table, and the last stored version of every node stored so far. -/
structure Session where
  dht : DHT
  table : Table
  stored : HashMap Uuid NodeInfo

def Session.start : Session := ⟨DHT.new, ∅, ∅⟩

section History
variable (json : SerdeJson NodeInfo)

def Session.step (s : Session) : Event → Session
  | .addNode nodeInfo => { s with dht := s.dht.addNode nodeInfo }
  | .removeNode nodeId => { s with dht := s.dht.removeNode nodeId }
  | .store order =>
    -- every statement of the store succeeds
    { s with
      table := (storeDhtInDb json (fun _ => .completes) order s.dht s.table).2
      stored := s.dht.nodes.union s.stored }

def Possible (s : Session) : Event → Prop
  | .store order => HashMap.IterationOrder order s.dht.nodes
  | .addNode _ | .removeNode _ => True

def Session.Stored (s : Session) : Prop := Stands json s.table s.stored

variable {json}

theorem Session.Stored.step {s : Session} (hs : s.Stored json) {event : Event}
    (hpossible : Possible s event) : (s.step json event).Stored json := by
  cases event with
  | addNode nodeInfo => exact hs
  | removeNode nodeId => exact hs
  | store order => exact Stands.storeDhtInDb hs hpossible

def after (json : SerdeJson NodeInfo) (events : List Event) : Session :=
  Runs.run (Session.step json) Session.start events

theorem loadDhtFromDb_after {past : List Event} {order : List Uuid}
    (hpossible : Runs.Along (Session.step json) Possible Session.start (past ++ [.store order]))
    {rowOrder : List String}
    (hrows : HashMap.IterationOrder rowOrder (after json (past ++ [.store order])).table) :
    ∃ loaded, loadDhtFromDb json rowOrder (after json (past ++ [.store order])).table =
        some loaded ∧
      loaded.nodes = (after json past).dht.nodes.union (after json past).stored := by
  have hstored : (after json (past ++ [.store order])).Stored json :=
    hpossible.invariant (I := fun s => s.Stored json)
      (fun s e hs he => Session.Stored.step hs he) Stands.empty
  obtain ⟨loaded, hload, hnodes⟩ := Stands.loadDhtFromDb hstored hrows
  refine ⟨loaded, hload, ?_⟩
  rw [hnodes, after, Runs.run_concat]
  rfl

/-- A load after a store returns the last stored version of every node ever stored. That is the
DHT just stored exactly when it still has every node stored before. -/
theorem load_after_store {past : List Event} {order : List Uuid}
    (hpossible : Runs.Along (Session.step json) Possible Session.start (past ++ [.store order]))
    {rowOrder : List String}
    (hrows : HashMap.IterationOrder rowOrder (after json (past ++ [.store order])).table) :
    ∃ loaded, loadDhtFromDb json rowOrder (after json (past ++ [.store order])).table =
        some loaded ∧
      loaded.nodes = (after json past).dht.nodes.union (after json past).stored ∧
      (loaded.nodes = (after json past).dht.nodes ↔
        ∀ id, ((after json past).stored.get id).isSome →
          ((after json past).dht.nodes.get id).isSome) := by
  obtain ⟨loaded, hload, hnodes⟩ := loadDhtFromDb_after hpossible hrows
  refine ⟨loaded, hload, hnodes, ?_⟩
  rw [hnodes]
  exact HashMap.union_eq_left_iff _ _

end History

/-- One node is removed and another one replaced between two stores. -/
def changedBetween : List Event :=
  [.addNode ⟨7, "an", "ki"⟩, .addNode ⟨8, "bn", "ki"⟩, .store [8, 7], .removeNode 7,
    .addNode ⟨8, "cn", "ki"⟩]

theorem load_after_store_changedBetween : ∃ rowOrder loaded,
    loadDhtFromDb Wire.nodeInfoJson rowOrder
        (after Wire.nodeInfoJson (changedBetween ++ [.store [8]])).table = some loaded ∧
      loaded.nodes.get 7 = some ⟨7, "an", "ki"⟩ ∧ loaded.nodes.get 8 = some ⟨8, "cn", "ki"⟩ ∧
      loaded.nodes ≠ (after Wire.nodeInfoJson changedBetween).dht.nodes := by
  obtain ⟨rowOrder, hrows⟩ := HashMap.exists_iterationOrder
    (after Wire.nodeInfoJson (changedBetween ++ [.store [8]])).table
  have hpossible : Runs.Along (Session.step Wire.nodeInfoJson) Possible Session.start
      (changedBetween ++ [.store [8]]) := by
    simp only [changedBetween, List.cons_append, List.nil_append, Runs.along_cons, Runs.along_nil,
      Possible]
    decide
  obtain ⟨loaded, hload, hnodes, hsame⟩ := load_after_store hpossible hrows
  refine ⟨rowOrder, loaded, hload, ?_, ?_, ?_⟩
  · rw [hnodes]
    decide
  · rw [hnodes]
    decide
  · intro heq
    exact absurd (hsame.mp heq 7) (by decide)

def RoundTrip (json : SerdeJson NodeInfo) : Prop :=
  ∀ (past : List Event) (order : List Uuid),
    Runs.Along (Session.step json) Possible Session.start (past ++ [.store order]) →
      ∀ rowOrder, HashMap.IterationOrder rowOrder (after json (past ++ [.store order])).table →
        ∃ loaded, loadDhtFromDb json rowOrder (after json (past ++ [.store order])).table =
            some loaded ∧ loaded.nodes = (after json past).dht.nodes

/-- A node that is removed between two stores comes back with the load. -/
theorem not_storeRoundTrip : ¬ RoundTrip Wire.nodeInfoJson := by
  intro h
  have hpossible : Runs.Along (Session.step Wire.nodeInfoJson) Possible Session.start
      ([.addNode ⟨7, "an", "ki"⟩, .store [7], .removeNode 7] ++ [.store []]) := by
    simp only [List.cons_append, List.nil_append, Runs.along_cons, Runs.along_nil, Possible]
    decide
  obtain ⟨rowOrder, hrows⟩ := HashMap.exists_iterationOrder (after Wire.nodeInfoJson
    ([.addNode ⟨7, "an", "ki"⟩, .store [7], .removeNode 7] ++ [.store []])).table
  obtain ⟨loaded, hload, hnodes⟩ := loadDhtFromDb_after hpossible hrows
  obtain ⟨same, hsame, hsameNodes⟩ := h _ _ hpossible rowOrder hrows
  rw [hload] at hsame
  rw [← Option.some.inj hsame, hnodes] at hsameNodes
  have hkept := (HashMap.union_eq_left_iff _ _).mp hsameNodes 7
  exact absurd hkept (by decide)

end Database

end AnKi
