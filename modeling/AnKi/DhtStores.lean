import AnKi.Dht
import AnKi.Library.Locks

/-!
# Stores that fail, and stores that run together

`store_dht_in_db` runs one statement for each node and no transaction around
them. A store that fails leaves the rows it has written, and the statements of
several stores may come in any order.
-/

namespace AnKi
open Locks
set_option autoImplicit false

namespace Database
open DHT

section Stores
variable {json : SerdeJson NodeInfo}

/-! ## A failing store -/

/-- The rows of `done` are written, and every other row is as before. -/
structure Written (json : SerdeJson NodeInfo) (done : List NodeInfo) (table table' : Table) :
    Prop where
  written : ∀ node ∈ done, table'.get (Wire.hyphenated node.id) = some (json.toString () node)
  kept : ∀ nodeId, (∀ node ∈ done, nodeId ≠ Wire.hyphenated node.id) →
    table'.get nodeId = table.get nodeId

theorem storeRows_error {fate : NodeInfo → RowFate} {nodes : List NodeInfo} {table table' : Table}
    {e : StoreError} (h : storeRows json fate nodes table = (.error e, table')) :
    ∃ done failed rest, nodes = done ++ failed :: rest ∧
      (∀ node ∈ done, fate node = .completes) ∧ fate failed ≠ .completes ∧
      table' = done.foldl (fun table node => upsert json node table) table := by
  induction nodes generalizing table with
  | nil => simp [storeRows] at h
  | cons node nodes ih =>
    cases hfate : fate node with
    | completes =>
      simp only [storeRows, hfate] at h
      obtain ⟨done, failed, rest, rfl, hdone, hfailed, htable⟩ := ih h
      refine ⟨node :: done, failed, rest, rfl, ?_, hfailed, htable⟩
      intro other hother
      rcases List.mem_cons.mp hother with rfl | hother
      · exact hfate
      · exact hdone other hother
    | serializeFails | executeFails =>
      simp only [storeRows, hfate, Prod.mk.injEq] at h
      exact ⟨[], node, nodes, rfl, by simp, by simp [hfate], h.2.symm⟩

theorem written_upserts {dht : DHT} {order : List Uuid}
    (horder : HashMap.IterationOrder order dht.nodes) {done : List NodeInfo}
    (hdone : ∀ node ∈ done, node ∈ dht.listNodes order) (table : Table) :
    Written json done table
      (done.foldl (fun table node => Database.upsert json node table) table) := by
  -- the table of a complete store tells what is written
  have hempty : Stands json ∅ ∅ := .empty
  have hstands := hempty.storeDhtInDb horder
  have hrow : ∀ node ∈ done,
      (storeDhtInDb json (fun _ => .completes) order dht ∅).2.get (Wire.hyphenated node.id) =
        some (json.toString () node) := by
    intro node hnode
    rw [hstands.row, HashMap.get_union, (mem_listNodes horder node).mp (hdone node hnode)]
    rfl
  constructor
  · intro node hnode
    have hmem : Wire.hyphenated node.id ∈ done.map fun node => Wire.hyphenated node.id :=
      List.mem_map_of_mem hnode
    rw [← hrow node hnode]
    exact (HashMap.get_foldl_insert hrow table _).trans (if_pos hmem)
  · intro nodeId hother
    have hmem : nodeId ∉ done.map fun node => Wire.hyphenated node.id := by
      intro hmem
      obtain ⟨node, hnode, rfl⟩ := List.mem_map.mp hmem
      exact hother node hnode rfl
    exact (HashMap.get_foldl_insert hrow table _).trans (if_neg hmem)

theorem Written.eq_iff {done : List NodeInfo} {table table' : Table}
    (h : Written json done table table') : table' = table ↔
      ∀ node ∈ done, table.get (Wire.hyphenated node.id) = some (json.toString () node) := by
  constructor
  · intro heq node hnode
    rw [← heq]
    exact h.written node hnode
  · intro hrows
    apply HashMap.ext
    intro nodeId
    by_cases hnode : ∃ node ∈ done, nodeId = Wire.hyphenated node.id
    · obtain ⟨node, hnode, rfl⟩ := hnode
      rw [h.written node hnode, hrows node hnode]
    · apply h.kept
      intro node hmem heq
      exact hnode ⟨node, hmem, heq⟩

/-- A store that fails has written the nodes listed before the one it failed at, and nothing else.
The table is as before exactly when their rows already were. -/
theorem storeDhtInDb_error {fate : NodeInfo → RowFate} {order : List Uuid} {dht : DHT}
    (horder : HashMap.IterationOrder order dht.nodes) {table table' : Table} {e : StoreError}
    (h : storeDhtInDb json fate order dht table = (.error e, table')) :
    ∃ done failed rest, dht.listNodes order = done ++ failed :: rest ∧
      (∀ node ∈ done, fate node = .completes) ∧ fate failed ≠ .completes ∧
      Written json done table table' ∧ (table' = table ↔
        ∀ node ∈ done, table.get (Wire.hyphenated node.id) = some (json.toString () node)) := by
  obtain ⟨done, failed, rest, hlist, hdone, hfailed, rfl⟩ := storeRows_error h
  have hwritten : Written json done table
      (done.foldl (fun table node => Database.upsert json node table) table) := by
    apply written_upserts horder
    intro node hnode
    rw [hlist]
    exact List.mem_append_left _ hnode
  exact ⟨done, failed, rest, hlist, hdone, hfailed, hwritten, hwritten.eq_iff⟩

end Stores

def twoNodes : DHT := (DHT.new.addNode ⟨7, "an", "ki"⟩).addNode ⟨8, "bn", "ki"⟩

/-- The statement for the second node fails. -/
def secondFails (node : NodeInfo) : RowFate := if node.id = 8 then .executeFails else .completes

theorem listNodes_twoNodes :
    twoNodes.listNodes [7, 8] = [⟨7, "an", "ki"⟩, ⟨8, "bn", "ki"⟩] := by decide

theorem storeDhtInDb_secondFails :
    storeDhtInDb Wire.nodeInfoJson secondFails [7, 8] twoNodes ∅ =
      (.error .execute, upsert Wire.nodeInfoJson ⟨7, "an", "ki"⟩ ∅) := by
  rw [storeDhtInDb, listNodes_twoNodes]
  rfl

theorem storeDhtInDb_error_second : ∃ done failed rest table',
    twoNodes.listNodes [7, 8] = done ++ failed :: rest ∧
      Written Wire.nodeInfoJson done ∅ table' := by
  have horder : HashMap.IterationOrder [7, 8] twoNodes.nodes := by decide
  obtain ⟨done, failed, rest, hsplit, _, _, hwritten, _⟩ :=
    storeDhtInDb_error horder storeDhtInDb_secondFails
  exact ⟨done, failed, rest, _, hsplit, hwritten⟩

/-- A store that returns an error has changed nothing. -/
def StoreAtomic (json : SerdeJson NodeInfo) : Prop :=
  ∀ fate order (dht : DHT) table e table', HashMap.IterationOrder order dht.nodes →
    storeDhtInDb json fate order dht table = (.error e, table') → table' = table

/-- The row of the first node stays when the second fails. -/
theorem not_storeAtomic : ¬ StoreAtomic Wire.nodeInfoJson := by
  intro h
  have horder : HashMap.IterationOrder [7, 8] twoNodes.nodes := by decide
  have hrow := congrArg (HashMap.get · (Wire.hyphenated 7))
    (h _ _ _ _ _ _ horder storeDhtInDb_secondFails)
  simp [upsert] at hrow

/-! ## Stores side by side -/

section Concurrent
variable {ι : Type} [DecidableEq ι] {json : SerdeJson NodeInfo}
variable {dhts : ι → DHT} {orders : ι → List Uuid}

/-- One statement of a store, which is at the nodes still to be written. It takes no lock. -/
def storeInstr (json : SerdeJson NodeInfo) : List NodeInfo → Instr Empty Table (List NodeInfo)
  | [] => .halt
  | node :: nodes => .act fun table => (upsert json node table, nodes)

/-- Every store has listed its nodes, and the table is empty. -/
def storeStart (dhts : ι → DHT) (orders : ι → List Uuid) :
    Config ι Empty Table (List NodeInfo) where
  data := ∅
  held := fun _ => []
  point := fun i => (dhts i).listNodes (orders i)

/-- The DHTs have the same node under every id that they share. -/
def Agree (dhts : ι → DHT) : Prop :=
  ∀ i j id node other, (dhts i).nodes.get id = some node →
    (dhts j).nodes.get id = some other → node = other

/-- The statements of one store, with no other between them, are `store_dht_in_db`. -/
theorem reach_storeRows (c : Config ι Empty Table (List NodeInfo)) (i : ι) :
    Reach (storeInstr json) false c
      ⟨(storeRows json (fun _ => .completes) (c.point i) c.data).2, c.held,
        Function.update c.point i []⟩ := by
  generalize hpoint : c.point i = nodes
  induction nodes generalizing c with
  | nil =>
    rw [← hpoint, Function.update_eq_self, hpoint]
    exact .refl
  | cons node nodes ih =>
    have hinstr : storeInstr json (c.point i) =
        .act fun table => (upsert json node table, nodes) := by
      rw [hpoint, storeInstr]
    have hrest := ih ⟨upsert json node c.data, c.held, Function.update c.point i nodes⟩
      (Function.update_self i nodes c.point)
    rw [Function.update_idem] at hrest
    exact .head (.act i hinstr) hrest

/-- The stores that are under way can all be completed, whatever has been written so far. -/
theorem exists_reach_completed [Finite ι] (json : SerdeJson NodeInfo)
    (c : Config ι Empty Table (List NodeInfo)) :
    ∃ c', Reach (storeInstr json) false c c' ∧ ∀ i, c'.point i = [] := by
  have hstores : ∀ stores : List ι,
      ∃ c', Reach (storeInstr json) false c c' ∧ ∀ i ∈ stores, c'.point i = [] := by
    intro stores
    induction stores with
    | nil => exact ⟨c, .refl, by simp⟩
    | cons i stores ih =>
      obtain ⟨c', hreach, hdone⟩ := ih
      refine ⟨_, hreach.trans (reach_storeRows c' i), ?_⟩
      intro j hj
      by_cases hji : j = i
      · simp [hji]
      · simpa [hji] using hdone j ((List.mem_cons.mp hj).resolve_left hji)
  have := Fintype.ofFinite ι
  obtain ⟨c', hreach, hdone⟩ := hstores Finset.univ.toList
  exact ⟨c', hreach, fun i => hdone i (Finset.mem_toList.mpr (Finset.mem_univ i))⟩

/-- The table stands for nodes of the DHTs. A node is in it already, or its store is still to
come to it. -/
structure Merged (json : SerdeJson NodeInfo) (dhts : ι → DHT) (table : Table)
    (point : ι → List NodeInfo) (m : HashMap Uuid NodeInfo) : Prop where
  stands : Stands json table m
  stored : ∀ id node, m.get id = some node → ∃ i, (dhts i).nodes.get id = some node
  pending : ∀ i, ∀ node ∈ point i, (dhts i).nodes.get node.id = some node
  reached : ∀ i id node, (dhts i).nodes.get id = some node →
    m.get id = some node ∨ node ∈ point i

omit [DecidableEq ι] in
theorem Merged.start (horder : ∀ i, HashMap.IterationOrder (orders i) (dhts i).nodes) :
    Merged json dhts ∅ (fun i => (dhts i).listNodes (orders i)) ∅ where
  stands := .empty
  stored := by simp
  pending := by
    intro i node hnode
    exact (mem_listNodes (horder i) node).mp hnode
  reached := by
    intro i id node hget
    obtain rfl := (dhts i).keyed id node hget
    exact Or.inr ((mem_listNodes (horder i) node).mpr hget)

/-- What one statement keeps. The DHTs agree, so it replaces no node that counts. -/
theorem Merged.upsert {table : Table} {point : ι → List NodeInfo} {m : HashMap Uuid NodeInfo}
    (h : Merged json dhts table point m) (hagree : Agree dhts) {i : ι} {node : NodeInfo}
    {nodes : List NodeInfo} (hpoint : point i = node :: nodes) :
    Merged json dhts (Database.upsert json node table) (Function.update point i nodes)
      (m.insert node.id node) := by
  have hnode : (dhts i).nodes.get node.id = some node := h.pending i node (by simp [hpoint])
  constructor
  · exact h.stands.upsert node
  · intro id other hget
    rw [HashMap.get_insert] at hget
    split at hget
    · rename_i hid
      rw [hid, ← Option.some.inj hget]
      exact ⟨i, hnode⟩
    · exact h.stored id other hget
  · intro j other hother
    by_cases hj : j = i
    · subst hj
      rw [Function.update_self] at hother
      apply h.pending j other
      rw [hpoint]
      exact List.mem_cons_of_mem _ hother
    · rw [Function.update_of_ne hj] at hother
      exact h.pending j other hother
  · intro j id other hget
    rw [HashMap.get_insert]
    by_cases hid : id = node.id
    · subst hid
      rw [if_pos rfl, hagree i j node.id node other hnode hget]
      exact Or.inl rfl
    · rw [if_neg hid]
      rcases h.reached j id other hget with hstored | hother
      · exact Or.inl hstored
      · right
        by_cases hj : j = i
        · subst hj
          rw [Function.update_self]
          -- the statement is for a node under another id
          have hkey : other.id = id := (dhts j).keyed id other hget
          rw [hpoint] at hother
          rcases List.mem_cons.mp hother with rfl | hother
          · exact absurd hkey.symm hid
          · exact hother
        · rw [Function.update_of_ne hj]
          exact hother

theorem Merged.reach {c : Config ι Empty Table (List NodeInfo)}
    (hreach : Reach (storeInstr json) false (storeStart dhts orders) c)
    (horder : ∀ i, HashMap.IterationOrder (orders i) (dhts i).nodes) (hagree : Agree dhts) :
    ∃ m, Merged json dhts c.data c.point m := by
  induction hreach with
  | refl => exact ⟨∅, Merged.start horder⟩
  | @tail c c' _ hstep ih =>
    obtain ⟨m, hm⟩ := ih
    cases hstep with
    | acquire i h | release i h => cases hpoint : c.point i <;> simp [hpoint, storeInstr] at h
    | act i h =>
      cases hpoint : c.point i with
      | nil => simp [hpoint, storeInstr] at h
      | cons node nodes =>
        rw [hpoint, storeInstr, Instr.act.injEq] at h
        subst h
        exact ⟨_, hm.upsert hagree hpoint⟩

/-- Stores of DHTs that agree merge, in whatever order their statements come: a load gives the
nodes of all of them, each under its own id. -/
theorem loadDhtFromDb_merged {c : Config ι Empty Table (List NodeInfo)}
    (horder : ∀ i, HashMap.IterationOrder (orders i) (dhts i).nodes) (hagree : Agree dhts)
    (hreach : Reach (storeInstr json) false (storeStart dhts orders) c)
    (hdone : ∀ i, c.point i = [])
    {rowOrder : List String} (hrows : HashMap.IterationOrder rowOrder c.data) :
    ∃ loaded, loadDhtFromDb json rowOrder c.data = some loaded ∧
      (∀ id node, loaded.nodes.get id = some node ↔
        ∃ i, (dhts i).nodes.get id = some node) ∧
      ∀ id node, loaded.nodes.get id = some node → node.id = id := by
  obtain ⟨m, hm⟩ := Merged.reach hreach horder hagree
  obtain ⟨loaded, hload, rfl⟩ := hm.stands.loadDhtFromDb hrows
  refine ⟨loaded, hload, ?_, loaded.keyed⟩
  intro id node
  constructor
  · exact hm.stored id node
  · intro hnode
    obtain ⟨i, hget⟩ := hnode
    rcases hm.reached i id node hget with hstored | hpending
    · exact hstored
    · rw [hdone i] at hpending
      exact absurd hpending List.not_mem_nil

end Concurrent

/-- Two stores share node 8, and one of them has a node of its own. -/
def sharedNode (i : Bool) : DHT := bif i then twoNodes else DHT.new.addNode ⟨8, "bn", "ki"⟩

def sharedOrder (i : Bool) : List Uuid := bif i then [7, 8] else [8]

theorem loadDhtFromDb_merged_sharedNode : ∃ c rowOrder loaded,
    Reach (storeInstr Wire.nodeInfoJson) false (storeStart sharedNode sharedOrder) c ∧
      (∀ i, c.point i = []) ∧ loadDhtFromDb Wire.nodeInfoJson rowOrder c.data = some loaded ∧
      loaded.nodes.get 7 = some ⟨7, "an", "ki"⟩ ∧ loaded.nodes.get 8 = some ⟨8, "bn", "ki"⟩ ∧
      ∀ id node, loaded.nodes.get id = some node ↔
        ∃ i, (sharedNode i).nodes.get id = some node := by
  have horder : ∀ i, HashMap.IterationOrder (sharedOrder i) (sharedNode i).nodes := by
    intro i
    cases i <;> decide
  have hagree : Agree sharedNode := by
    intro i j id node other
    cases i <;> cases j <;> simp only [sharedNode, cond_true, cond_false, twoNodes, addNode_nodes,
      new_nodes, HashMap.get_insert, HashMap.get_empty] <;> grind
  obtain ⟨c, hreach, hdone⟩ := exists_reach_completed Wire.nodeInfoJson
    (storeStart sharedNode sharedOrder)
  obtain ⟨rowOrder, hrows⟩ := HashMap.exists_iterationOrder c.data
  obtain ⟨loaded, hload, hnodes, _⟩ := loadDhtFromDb_merged horder hagree hreach hdone hrows
  exact ⟨c, rowOrder, loaded, hreach, hdone, hload, (hnodes 7 _).mpr ⟨true, by decide⟩,
    (hnodes 8 _).mpr ⟨false, by decide⟩, hnodes⟩

end Database

end AnKi
