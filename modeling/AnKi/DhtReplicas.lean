import AnKi.DhtStores

/-!
# dht.rs: several processes on one table

Each process has a DHT of its own. A store lists it and then writes row by row,
beside the rows of other stores, and may stop at any row. A process that starts
takes over what it loads. A row is never deleted, so what a load returns is pieced
together from the DHTs that were stored so far.
-/

namespace AnKi
set_option autoImplicit false

namespace Database
open DHT

namespace Replicas
variable {ι κ : Type}

inductive Event (ι κ : Type) where
  | addNode (i : ι) (nodeInfo : NodeInfo)
  | removeNode (i : ι) (nodeId : Uuid)
  | storeDhtInDb (i : ι) (k : κ) (order : List Uuid)
  | storeRow (k : κ) (fate : NodeInfo → RowFate)
  | loadDhtFromDb (i : ι) (rowOrder : List String)

/-- The DHT as it was listed, the rows to come, and the times of the begin and of the end, with
whether it returned `Ok`. -/
structure StoreCall where
  dht : DHT
  rows : List NodeInfo
  began : Nat
  ended : Option (Nat × Bool)

structure Processes (ι κ : Type) where
  dht : ι → DHT
  table : Table
  calls : κ → Option StoreCall
  clock : Nat

def start : Processes ι κ := ⟨fun _ => DHT.new, ∅, fun _ => none, 0⟩

/-- The next row of a store, or its end. -/
def StoreCall.next (json : SerdeJson NodeInfo) (fate : NodeInfo → RowFate) (now : Nat)
    (call : StoreCall) (table : Table) : StoreCall × Table :=
  if call.ended.isSome then (call, table)
  else match call.rows with
    | [] => ({ call with ended := some (now, true) }, table)
    | node :: rows =>
      match fate node with
      | .completes => ({ call with rows := rows }, upsert json node table)
      | .serializeFails | .executeFails => ({ call with ended := some (now, false) }, table)

section Steps
variable (json : SerdeJson NodeInfo) [DecidableEq ι] [DecidableEq κ]

def effect (s : Processes ι κ) : Event ι κ → Processes ι κ
  | .addNode i nodeInfo =>
    { s with dht := Function.update s.dht i ((s.dht i).addNode nodeInfo) }
  | .removeNode i nodeId =>
    { s with dht := Function.update s.dht i ((s.dht i).removeNode nodeId) }
  | .storeDhtInDb i k order =>
    { s with
      calls := Function.update s.calls k
        (some ⟨s.dht i, (s.dht i).listNodes order, s.clock, none⟩) }
  | .storeRow k fate =>
    match s.calls k with
    | some call =>
      { s with
        table := (call.next json fate s.clock s.table).2
        calls := Function.update s.calls k (some (call.next json fate s.clock s.table).1) }
    | none => s
  | .loadDhtFromDb i rowOrder =>
    match Database.loadDhtFromDb json rowOrder s.table with
    | some dht => { s with dht := Function.update s.dht i dht }
    | none => s

def step (s : Processes ι κ) (event : Event ι κ) : Processes ι κ :=
  { effect json s event with clock := (effect json s event).clock + 1 }

end Steps

/-- The maps are listed in some order, and every store has a name of its own. -/
def Possible (s : Processes ι κ) : Event ι κ → Prop
  | .storeDhtInDb i k order => s.calls k = none ∧ HashMap.IterationOrder order (s.dht i).nodes
  | .loadDhtFromDb _ rowOrder => HashMap.IterationOrder rowOrder s.table
  | .addNode _ _ | .removeNode _ _ | .storeRow _ _ => True

/-- The rows of a store that nobody disturbs are those of `store_dht_in_db`. -/
theorem next_iterate (json : SerdeJson NodeInfo) (fate : NodeInfo → RowFate) (now : Nat)
    {call : StoreCall} (hrunning : call.ended = none) (table : Table) :
    ((fun s : StoreCall × Table => s.1.next json fate now s.2)^[call.rows.length + 1]
        (call, table)).2 = (storeRows json fate call.rows table).2 := by
  obtain ⟨dht, rows, began, ended⟩ := call
  obtain rfl : ended = none := hrunning
  have hended : ∀ count (call : StoreCall) (table : Table), call.ended.isSome →
      (fun s : StoreCall × Table => s.1.next json fate now s.2)^[count] (call, table) =
        (call, table) := by
    intro count call table hsome
    apply Function.iterate_fixed
    simp [StoreCall.next, hsome]
  induction rows generalizing table with
  | nil => rfl
  | cons node rows ih =>
    rw [List.length_cons, Function.iterate_succ_apply]
    cases hfate : fate node with
    | completes =>
      have hnext : StoreCall.next json fate now ⟨dht, node :: rows, began, none⟩ table =
          (⟨dht, rows, began, none⟩, upsert json node table) := by simp [StoreCall.next, hfate]
      rw [hnext, storeRows, hfate]
      exact ih (upsert json node table)
    | serializeFails | executeFails =>
      have hnext : StoreCall.next json fate now ⟨dht, node :: rows, began, none⟩ table =
          (⟨dht, node :: rows, began, some (now, false)⟩, table) := by
        simp [StoreCall.next, hfate]
      rw [hnext, storeRows, hfate, hended _ _ _ rfl]

/-! ## What is in the table -/

def StoreCall.EndedBefore (time : Nat) (call : StoreCall) : Prop :=
  ∃ ended ok, call.ended = some (ended, ok) ∧ ended < time

/-- The node under `id` is from a store that had not ended at the time. -/
def UpToDate (calls : κ → Option StoreCall) (m : HashMap Uuid NodeInfo) (id : Uuid)
    (time : Nat) : Prop :=
  ∃ node, m.get id = some node ∧ ∃ k call, calls k = some call ∧
    call.dht.nodes.get id = some node ∧ ¬ call.EndedBefore time

/-- Every node comes from a store. The nodes that a store has written and returned are there, in
the version of a store that had not ended when this one began. -/
structure Fresh (calls : κ → Option StoreCall) (m : HashMap Uuid NodeInfo) : Prop where
  stored : ∀ id node, m.get id = some node →
    ∃ k call, calls k = some call ∧ call.dht.nodes.get id = some node
  current : ∀ k call ended, calls k = some call → call.ended = some (ended, true) →
    ∀ id, (call.dht.nodes.get id).isSome → UpToDate calls m id call.began

/-- The node was passed to `add_node` of some process. -/
def Added (events : List (Event ι κ)) (node : NodeInfo) : Prop := ∃ i, .addNode i node ∈ events

/-- One store and the table. -/
structure InTable (calls : κ → Option StoreCall) (m : HashMap Uuid NodeInfo) (clock : Nat)
    (call : StoreCall) : Prop where
  rows : ∀ node ∈ call.rows, call.dht.nodes.get node.id = some node
  written : ∀ id node, call.dht.nodes.get id = some node →
    node ∈ call.rows ∨ UpToDate calls m id call.began
  complete : ∀ ended, call.ended = some (ended, true) → call.rows = []
  began : call.began ≤ clock

structure Sound (json : SerdeJson NodeInfo) (events : List (Event ι κ)) (s : Processes ι κ)
    (m : HashMap Uuid NodeInfo) : Prop where
  stands : Stands json s.table m
  stored : ∀ id node, m.get id = some node →
    ∃ k call, s.calls k = some call ∧ call.dht.nodes.get id = some node
  calls : ∀ k call, s.calls k = some call → InTable s.calls m s.clock call
  held : ∀ i id node, (s.dht i).nodes.get id = some node → Added events node
  recorded : ∀ k call, s.calls k = some call →
    ∀ id node, call.dht.nodes.get id = some node → Added events node

section Calls
variable [DecidableEq κ] {calls : κ → Option StoreCall} {m : HashMap Uuid NodeInfo} {k : κ}
variable {call call' : StoreCall} {id : Uuid} {time clock : Nat}

/-- Another state of the same store. -/
theorem UpToDate.update (h : UpToDate calls m id time) (hk : calls k = some call)
    (hdht : call'.dht = call.dht) (hended : call'.EndedBefore time → call.EndedBefore time) :
    UpToDate (Function.update calls k (some call')) m id time := by
  obtain ⟨node, hnode, k', other, hother, hget, hnot⟩ := h
  refine ⟨node, hnode, k', ?_⟩
  by_cases hsame : k' = k
  · subst hsame
    obtain rfl := Option.some.inj (hk.symm.trans hother)
    exact ⟨call', Function.update_self _ _ _, hdht ▸ hget, fun hbefore => hnot (hended hbefore)⟩
  · exact ⟨other, by rw [Function.update_of_ne hsame, hother], hget, hnot⟩

/-- A store that was not there before. -/
theorem UpToDate.begin (h : UpToDate calls m id time) (hk : calls k = none) :
    UpToDate (Function.update calls k (some call)) m id time := by
  obtain ⟨node, hnode, k', other, hother, hget, hnot⟩ := h
  have hne : k' ≠ k := by
    rintro rfl
    rw [hk] at hother
    cases hother
  exact ⟨node, hnode, k', other, by rw [Function.update_of_ne hne, hother], hget, hnot⟩

theorem upToDate_written (hrunning : call.ended = none) {node : NodeInfo}
    (hnode : call.dht.nodes.get node.id = some node) :
    UpToDate (Function.update calls k (some call)) (m.insert node.id node) node.id time := by
  refine ⟨node, HashMap.get_insert_self _ _ _, k, call, Function.update_self _ _ _, hnode, ?_⟩
  rintro ⟨ended, ok, hsome, -⟩
  rw [hrunning] at hsome
  cases hsome

/-- A row of a running store is written. -/
theorem UpToDate.insert (h : UpToDate calls m id time) (hk : calls k = some call)
    (hdht : call'.dht = call.dht) (hrunning : call'.ended = none) {node : NodeInfo}
    (hnode : call'.dht.nodes.get node.id = some node) :
    UpToDate (Function.update calls k (some call')) (m.insert node.id node) id time := by
  by_cases hid : id = node.id
  · rw [hid]
    exact upToDate_written hrunning hnode
  · have hbefore : call'.EndedBefore time → call.EndedBefore time := by
      rintro ⟨ended, ok, hsome, -⟩
      rw [hrunning] at hsome
      cases hsome
    obtain ⟨old, hold, hfrom⟩ := h.update hk hdht hbefore
    refine ⟨old, ?_, hfrom⟩
    rw [HashMap.get_insert, if_neg hid]
    exact hold

omit [DecidableEq κ] in
theorem InTable.mono {calls' : κ → Option StoreCall} {m' : HashMap Uuid NodeInfo} {clock' : Nat}
    (h : InTable calls m clock call) (hclock : clock ≤ clock')
    (hup : ∀ id, UpToDate calls m id call.began → UpToDate calls' m' id call.began) :
    InTable calls' m' clock' call :=
  ⟨h.rows, fun id node hnode => (h.written id node hnode).imp_right (hup id), h.complete,
    h.began.trans hclock⟩

end Calls

section Runs
variable [DecidableEq ι] [DecidableEq κ] {json : SerdeJson NodeInfo}
variable {events : List (Event ι κ)} {s : Processes ι κ} {m : HashMap Uuid NodeInfo}
variable {k : κ} {call : StoreCall}

omit [DecidableEq ι] [DecidableEq κ] in
theorem Added.mono {node : NodeInfo} (h : Added events node) (event : Event ι κ) :
    Added (events ++ [event]) node := by
  obtain ⟨i, hmem⟩ := h
  exact ⟨i, List.mem_append_left _ hmem⟩

omit [DecidableEq ι] [DecidableEq κ] in
theorem Sound.mono (h : Sound json events s m) (event : Event ι κ) :
    Sound json (events ++ [event]) s m :=
  ⟨h.stands, h.stored, h.calls, fun i id node hnode => (h.held i id node hnode).mono event,
    fun k call hk id node hnode => (h.recorded k call hk id node hnode).mono event⟩

omit [DecidableEq ι] [DecidableEq κ] in
theorem Sound.tick (h : Sound json events s m) :
    Sound json events { s with clock := s.clock + 1 } m :=
  ⟨h.stands, h.stored, fun k call hk => (h.calls k call hk).mono (Nat.le_succ _) fun _ hup => hup,
    h.held, h.recorded⟩

omit [DecidableEq κ] in
/-- A process gets another DHT, and the table is left alone. -/
theorem Sound.update (h : Sound json events s m) (i : ι) {dht : DHT}
    (hdht : ∀ id node, dht.nodes.get id = some node → Added events node) :
    Sound json events { s with dht := Function.update s.dht i dht } m := by
  refine ⟨h.stands, h.stored, h.calls, ?_, h.recorded⟩
  intro j id node hnode
  by_cases hj : j = i
  · subst hj
    simp only [Function.update_self] at hnode
    exact hdht id node hnode
  · simp only [Function.update_of_ne hj] at hnode
    exact h.held j id node hnode

theorem Sound.begins (h : Sound json events s m) {i : ι} {order : List Uuid}
    (hk : s.calls k = none) (horder : HashMap.IterationOrder order (s.dht i).nodes) :
    Sound json events (effect json s (.storeDhtInDb i k order)) m := by
  refine ⟨h.stands, ?_, ?_, h.held, ?_⟩
  · intro id node hnode
    obtain ⟨k', other, hother, hget⟩ := h.stored id node hnode
    have hne : k' ≠ k := by
      rintro rfl
      rw [hk] at hother
      cases hother
    exact ⟨k', other, by simpa [effect, hne] using hother, hget⟩
  · intro k' other hother
    by_cases hsame : k' = k
    · subst hsame
      simp only [effect, Function.update_self] at hother
      obtain rfl := Option.some.inj hother
      refine ⟨?_, ?_, by simp, Nat.le_refl _⟩
      · exact fun node hnode => (mem_listNodes horder node).mp hnode
      · intro id node hnode
        obtain rfl := (s.dht i).keyed id node hnode
        exact Or.inl ((mem_listNodes horder node).mpr hnode)
    · simp only [effect, Function.update_of_ne hsame] at hother
      exact (h.calls k' other hother).mono (Nat.le_refl _) fun id hup => hup.begin hk
  · intro k' other hother id node hnode
    by_cases hsame : k' = k
    · subst hsame
      simp only [effect, Function.update_self] at hother
      obtain rfl := Option.some.inj hother
      exact h.held i id node hnode
    · simp only [effect, Function.update_of_ne hsame] at hother
      exact h.recorded k' other hother id node hnode

omit [DecidableEq ι] in
/-- What of the invariant says nothing of the rows. -/
theorem Sound.recorded_update (h : Sound json events s m) (hk : s.calls k = some call)
    {call' : StoreCall} (hdht : call'.dht = call.dht) :
    ∀ k' other, Function.update s.calls k (some call') k' = some other →
      ∀ id node, other.dht.nodes.get id = some node → Added events node := by
  intro k' other hother id node hnode
  by_cases hsame : k' = k
  · subst hsame
    rw [Function.update_self] at hother
    obtain rfl := Option.some.inj hother
    exact h.recorded k' call hk id node (hdht ▸ hnode)
  · rw [Function.update_of_ne hsame] at hother
    exact h.recorded k' other hother id node hnode

omit [DecidableEq ι] in
theorem Sound.ends (h : Sound json events s m) (hk : s.calls k = some call) {ok : Bool}
    (hok : ok = true → call.rows = []) :
    Sound json events { s with
      calls := Function.update s.calls k (some { call with ended := some (s.clock, ok) }) } m := by
  -- it ends now, and so not before any store began
  have hup : ∀ id time, time ≤ s.clock → UpToDate s.calls m id time →
      UpToDate (Function.update s.calls k (some { call with ended := some (s.clock, ok) })) m
        id time := by
    intro id time htime hbefore
    have hdht : ({ call with ended := some (s.clock, ok) } : StoreCall).dht = call.dht := rfl
    apply hbefore.update hk hdht
    rintro ⟨ended, ok', hsome, hlt⟩
    obtain ⟨rfl, -⟩ := Prod.mk.inj (Option.some.inj hsome)
    exact absurd htime (Nat.not_le_of_lt hlt)
  have hcall := h.calls k call hk
  refine ⟨h.stands, ?_, ?_, h.held, h.recorded_update hk rfl⟩
  · intro id node hnode
    obtain ⟨k', other, hother, hget⟩ := h.stored id node hnode
    by_cases hsame : k' = k
    · subst hsame
      obtain rfl := Option.some.inj (hk.symm.trans hother)
      exact ⟨k', _, Function.update_self _ _ _, hget⟩
    · exact ⟨k', other, by simpa [hsame] using hother, hget⟩
  · intro k' other hother
    by_cases hsame : k' = k
    · subst hsame
      simp only [Function.update_self] at hother
      obtain rfl := Option.some.inj hother
      refine ⟨hcall.rows, ?_, ?_, hcall.began⟩
      · exact fun id node hnode => (hcall.written id node hnode).imp_right (hup id _ hcall.began)
      · intro ended hsome
        obtain ⟨-, rfl⟩ := Prod.mk.inj (Option.some.inj hsome)
        exact hok rfl
    · simp only [Function.update_of_ne hsame] at hother
      have hthis := h.calls k' other hother
      exact hthis.mono (Nat.le_refl _) fun id => hup id _ hthis.began

omit [DecidableEq ι] in
theorem Sound.writes (h : Sound json events s m) (hk : s.calls k = some call)
    (hrunning : call.ended = none) {node : NodeInfo} {rows : List NodeInfo}
    (hrows : call.rows = node :: rows) :
    Sound json events { s with
      table := upsert json node s.table
      calls := Function.update s.calls k (some { call with rows := rows }) }
      (m.insert node.id node) := by
  have hcall := h.calls k call hk
  have hnode : call.dht.nodes.get node.id = some node :=
    hcall.rows node (hrows ▸ List.mem_cons_self)
  have hup : ∀ id time, UpToDate s.calls m id time →
      UpToDate (Function.update s.calls k (some { call with rows := rows }))
        (m.insert node.id node) id time := by
    intro id time hbefore
    have hdht : ({ call with rows := rows } : StoreCall).dht = call.dht := rfl
    exact hbefore.insert hk hdht hrunning hnode
  refine ⟨h.stands.upsert node, ?_, ?_, h.held, h.recorded_update hk rfl⟩
  · intro id found hfound
    rw [HashMap.get_insert] at hfound
    split at hfound
    · rename_i hid
      obtain rfl := Option.some.inj hfound
      exact ⟨k, _, Function.update_self _ _ _, hid ▸ hnode⟩
    · obtain ⟨k', other, hother, hget⟩ := h.stored id found hfound
      by_cases hsame : k' = k
      · subst hsame
        obtain rfl := Option.some.inj (hk.symm.trans hother)
        exact ⟨k', _, Function.update_self _ _ _, hget⟩
      · exact ⟨k', other, by simpa [hsame] using hother, hget⟩
  · intro k' other hother
    by_cases hsame : k' = k
    · subst hsame
      simp only [Function.update_self] at hother
      obtain rfl := Option.some.inj hother
      refine ⟨?_, ?_, ?_, hcall.began⟩
      · exact fun later hlater => hcall.rows later (hrows ▸ List.mem_cons_of_mem _ hlater)
      · intro id found hfound
        rcases hcall.written id found hfound with hmem | hbefore
        · rw [hrows] at hmem
          rcases List.mem_cons.mp hmem with rfl | hmem
          · obtain rfl := call.dht.keyed id found hfound
            right
            apply upToDate_written
            · exact hrunning
            · exact hnode
          · exact Or.inl hmem
        · exact Or.inr (hup id _ hbefore)
      · intro ended hsome
        rw [show call.ended = some (ended, true) from hsome] at hrunning
        cases hrunning
    · simp only [Function.update_of_ne hsame] at hother
      exact (h.calls k' other hother).mono (Nat.le_refl _) fun id => hup id _

theorem Sound.row (h : Sound json events s m) (k : κ) (fate : NodeInfo → RowFate) :
    ∃ m', Sound json events (effect json s (.storeRow k fate)) m' := by
  cases hk : s.calls k with
  | none => exact ⟨m, by simpa [effect, hk] using h⟩
  | some call =>
    simp only [effect, hk]
    cases hended : call.ended with
    | some ended =>
      refine ⟨m, ?_⟩
      have hnext : call.next json fate s.clock s.table = (call, s.table) := by
        simp [StoreCall.next, hended]
      rw [hnext, ← hk, Function.update_eq_self]
      exact h
    | none =>
      cases hrows : call.rows with
      | nil =>
        refine ⟨m, ?_⟩
        simp only [StoreCall.next, hended, hrows, Option.isSome_none, Bool.false_eq_true, if_false]
        have hends := h.ends hk fun _ : true = true => hrows
        simpa [hrows] using hends
      | cons node rows =>
        cases hfate : fate node with
        | completes =>
          refine ⟨m.insert node.id node, ?_⟩
          simp only [StoreCall.next, hended, hrows, hfate, Option.isSome_none, Bool.false_eq_true,
            if_false]
          have hwrites := h.writes hk hended hrows
          simpa [hended] using hwrites
        | serializeFails | executeFails =>
          refine ⟨m, ?_⟩
          simp only [StoreCall.next, hended, hrows, hfate, Option.isSome_none, Bool.false_eq_true,
            if_false]
          have hends := h.ends hk fun hok : false = true => Bool.noConfusion hok
          simpa [hrows] using hends

theorem Sound.step (h : Sound json events s m) {event : Event ι κ} (hpossible : Possible s event) :
    ∃ m', Sound json (events ++ [event]) (step json s event) m' := by
  have hlater := h.mono event
  cases event with
  | addNode i nodeInfo =>
    refine ⟨m, (hlater.update i ?_).tick⟩
    intro id node hnode
    rw [addNode_nodes, HashMap.get_insert] at hnode
    split at hnode
    · obtain rfl := Option.some.inj hnode
      exact ⟨i, by simp⟩
    · exact hlater.held i id node hnode
  | removeNode i nodeId =>
    refine ⟨m, (hlater.update i ?_).tick⟩
    intro id node hnode
    rw [removeNode_nodes, HashMap.get_remove] at hnode
    split at hnode
    · cases hnode
    · exact hlater.held i id node hnode
  | storeDhtInDb i k order => exact ⟨m, (hlater.begins hpossible.1 hpossible.2).tick⟩
  | storeRow k fate =>
    obtain ⟨m', hm'⟩ := hlater.row k fate
    exact ⟨m', hm'.tick⟩
  | loadDhtFromDb i rowOrder =>
    obtain ⟨loaded, hload, hnodes⟩ := h.stands.loadDhtFromDb hpossible
    refine ⟨m, ?_⟩
    simp only [Replicas.step, effect, hload]
    apply (hlater.update i _).tick
    intro id node hnode
    rw [hnodes] at hnode
    obtain ⟨k, call, hk, hget⟩ := hlater.stored id node hnode
    exact hlater.recorded k call hk id node hget

theorem sound_run (hpossible : Runs.Along (step json) Possible start events) :
    ∃ m, Sound json events (Runs.run (step json) start events) m := by
  induction events using List.reverseRecOn with
  | nil => exact ⟨∅, Stands.empty, by simp, by simp [start], by simp [start], by simp [start]⟩
  | append_singleton events event ih =>
    obtain ⟨hbefore, hlast, _⟩ := (Runs.along_append _ _ _).mp hpossible
    obtain ⟨m, hm⟩ := ih hbefore
    rw [Runs.run_concat]
    exact hm.step hlast

omit [DecidableEq ι] [DecidableEq κ] in
theorem Sound.fresh (h : Sound json events s m) : Fresh s.calls m := by
  refine ⟨h.stored, ?_⟩
  intro k call ended hk hended id hsome
  obtain ⟨node, hnode⟩ := Option.isSome_iff_exists.mp hsome
  have hcall := h.calls k call hk
  rcases hcall.written id node hnode with hmem | hup
  · rw [hcall.complete ended hended] at hmem
    cases hmem
  · exact hup

/-- However the rows of stores mix and wherever stores stop, a load succeeds. Each node it gives is
one that some process added and that a store listed; and of a node that a returned store wrote it
gives the version of that store, or of one that had not ended when that store began. -/
theorem load_is_fresh (hpossible : Runs.Along (step json) Possible start events)
    {rowOrder : List String}
    (hrows : HashMap.IterationOrder rowOrder (Runs.run (step json) start events).table) :
    ∃ loaded, Database.loadDhtFromDb json rowOrder (Runs.run (step json) start events).table =
        some loaded ∧
      (∀ id node, loaded.nodes.get id = some node → node.id = id ∧ Added events node) ∧
      Fresh (Runs.run (step json) start events).calls loaded.nodes := by
  obtain ⟨m, hm⟩ := sound_run hpossible
  obtain ⟨loaded, hload, rfl⟩ := hm.stands.loadDhtFromDb hrows
  refine ⟨loaded, hload, ?_, hm.fresh⟩
  intro id node hnode
  obtain ⟨k, call, hk, hget⟩ := hm.stored id node hnode
  exact ⟨loaded.keyed id node hnode, hm.recorded k call hk id node hget⟩

end Runs

/-- Two processes store different versions of a node, row by row at the same time, and one of them
stops at its second row. -/
def twoProcesses : List (Event Bool Bool) :=
  [.addNode true ⟨7, "an", "ki"⟩, .addNode true ⟨8, "bn", "ki"⟩, .addNode false ⟨7, "cn", "ki"⟩,
    .addNode false ⟨9, "dn", "ki"⟩, .storeDhtInDb true true [7, 8],
    .storeDhtInDb false false [7, 9], .storeRow false fun _ => .completes,
    .storeRow true fun _ => .completes, .storeRow true fun _ => .completes,
    .storeRow false fun _ => .executeFails, .storeRow true fun _ => .completes]

theorem load_is_fresh_twoProcesses : ∃ rowOrder loaded,
    Database.loadDhtFromDb Wire.nodeInfoJson rowOrder
      (Runs.run (step Wire.nodeInfoJson) start twoProcesses).table = some loaded ∧
      (∀ id node, loaded.nodes.get id = some node → node.id = id ∧ Added twoProcesses node) ∧
      Fresh (Runs.run (step Wire.nodeInfoJson) start twoProcesses).calls loaded.nodes := by
  have hpossible : Runs.Along (step Wire.nodeInfoJson) Possible start twoProcesses := by
    refine ⟨trivial, trivial, trivial, trivial, ⟨rfl, ?_⟩, ⟨rfl, ?_⟩, trivial, trivial, trivial,
      trivial, trivial, trivial⟩
    · show HashMap.IterationOrder _ _
      decide
    · show HashMap.IterationOrder _ _
      decide
  obtain ⟨rowOrder, hrows⟩ :=
    HashMap.exists_iterationOrder (Runs.run (step Wire.nodeInfoJson) start twoProcesses).table
  exact ⟨rowOrder, load_is_fresh hpossible hrows⟩

end Replicas

end Database

end AnKi
