import AnKi.Library.HashMap
import AnKi.Library.Runs
import AnKi.Library.Streaks
import Mathlib.Data.List.Basic

/-!
# network.rs: connections with retries

`connect_to_node` tries at most `retry_count` times and stops at the first
success, when it puts the address in the set. The lock is held for the insertion
alone: attempts of several calls, and disconnections, come in any order between.
-/

namespace AnKi
set_option autoImplicit false

inductive SocketAddr where
  | v4 (ip : UInt32) (port : UInt16)
  | v6 (ip : BitVec 128) (port : UInt16) (flowinfo scopeId : UInt32)
  deriving DecidableEq

/-- A hash set is a hash map to the unit type. -/
structure NetworkManager where
  connectedNodes : HashMap SocketAddr Unit

namespace Network

/-- How one attempt of `connect_to_node` ends. -/
inductive Outcome where
  | connected
  | refused
  | timedOut
  deriving DecidableEq

/-- A call of `connect_to_node`, with the attempts it has made. -/
structure Connecting where
  address : SocketAddr
  retryCount : UInt32
  tried : List Outcome
  result : Option (Except String Unit)

def gaveUp : Except String Unit := .error "Failed to connect after retries"

/-- The head of the loop: another attempt, or the error. -/
def Connecting.next (call : Connecting) : Connecting :=
  { call with result := if call.tried.length < call.retryCount.toNat then none else some gaveUp }

def Connecting.attempt (call : Connecting) (outcome : Outcome) : Connecting :=
  match outcome with
  | .connected => { call with tried := call.tried ++ [outcome], result := some (.ok ()) }
  | .refused | .timedOut => Connecting.next { call with tried := call.tried ++ [outcome] }

/-- What was done to the set. -/
inductive Effect where
  | connected (address : SocketAddr)
  | disconnected (address : SocketAddr)
  deriving DecidableEq

structure Connections where
  manager : NetworkManager
  calls : List Connecting
  effects : List Effect

def start : Connections := ⟨⟨∅⟩, [], []⟩

inductive Event where
  | connectToNode (address : SocketAddr) (retryCount : UInt32)
  | attempt (call : Nat) (outcome : Outcome)
  | disconnectNode (address : SocketAddr)

def step (s : Connections) : Event → Connections
  | .connectToNode address retryCount =>
    { s with calls := s.calls ++ [Connecting.next ⟨address, retryCount, [], none⟩] }
  | .attempt i outcome =>
    match s.calls[i]? with
    | some call =>
      if call.result.isSome then s
      else match outcome with
        | .connected =>
          ⟨⟨s.manager.connectedNodes.insert call.address ()⟩, s.calls.set i (call.attempt outcome),
            s.effects ++ [.connected call.address]⟩
        | .refused | .timedOut => { s with calls := s.calls.set i (call.attempt outcome) }
    | none => s
  | .disconnectNode address =>
    { s with
      manager := ⟨s.manager.connectedNodes.remove address⟩
      effects := s.effects ++ [.disconnected address] }

def listConnectedNodes (listing : HashMap.Listing SocketAddr Unit) (self : NetworkManager) :
    List SocketAddr := listing.order self.connectedNodes

/-! ## One call -/

/-- A call ends with the first attempt that succeeds, or when all of them have failed. -/
structure Connecting.Sound (call : Connecting) : Prop where
  bounded : call.tried.length ≤ call.retryCount.toNat
  failedBefore : .connected ∉ call.tried.dropLast
  ok_iff : call.result = some (.ok ()) ↔ .connected ∈ call.tried
  error_iff : call.result = some gaveUp ↔
    .connected ∉ call.tried ∧ call.tried.length = call.retryCount.toNat

theorem Connecting.next_sound {call : Connecting} (hfailed : .connected ∉ call.tried)
    (hbounded : call.tried.length ≤ call.retryCount.toNat) : call.next.Sound := by
  unfold Connecting.next
  refine ⟨hbounded, fun hmem => hfailed (List.dropLast_subset _ hmem), ?_, ?_⟩
  · refine iff_of_false ?_ hfailed
    dsimp only
    split <;> simp [gaveUp]
  · dsimp only
    split
    · rename_i hless
      exact iff_of_false (by simp) fun hall => absurd hall.2 (Nat.ne_of_lt hless)
    · rename_i hless
      exact iff_of_true rfl ⟨hfailed, by omega⟩

/-- A call that has not returned has an attempt left. -/
theorem Connecting.Sound.running {call : Connecting} (h : call.Sound)
    (hresult : call.result.isSome = false) :
    .connected ∉ call.tried ∧ call.tried.length < call.retryCount.toNat := by
  have hnone : call.result = none := by simpa using hresult
  have hfailed : .connected ∉ call.tried := by
    rw [← h.ok_iff, hnone]
    simp
  refine ⟨hfailed, Nat.lt_of_le_of_ne h.bounded ?_⟩
  intro hall
  have herror := h.error_iff.mpr ⟨hfailed, hall⟩
  rw [hnone] at herror
  cases herror

theorem Connecting.Sound.attempt {call : Connecting} (h : call.Sound)
    (hresult : call.result.isSome = false) (outcome : Outcome) : (call.attempt outcome).Sound := by
  obtain ⟨hfailed, hleft⟩ := h.running hresult
  have hbounded : (call.tried ++ [outcome]).length ≤ call.retryCount.toNat := by
    rw [List.length_append, List.length_singleton]
    omega
  cases outcome with
  | connected =>
    refine ⟨hbounded, ?_, ?_, ?_⟩
    · simpa [Connecting.attempt] using hfailed
    · simp [Connecting.attempt]
    · simp [Connecting.attempt, gaveUp]
  | refused | timedOut =>
    apply Connecting.next_sound _ hbounded
    simpa using hfailed

/-! ## All calls together -/

def Effect.address : Effect → SocketAddr
  | .connected address | .disconnected address => address

def Effect.isConnected : Effect → Bool
  | .connected _ => true
  | .disconnected _ => false

/-- The last thing done for the address was to connect to it. -/
def LastConnected (address : SocketAddr) (effects : List Effect) : Prop :=
  ∃ found ∈ Streaks.sinceLast (fun effect => effect.address = address) effects,
    found.1.isConnected = true

theorem lastConnected_concat (address : SocketAddr) (effects : List Effect) (effect : Effect) :
    LastConnected address (effects ++ [effect]) ↔
      if effect.address = address then effect.isConnected = true
      else LastConnected address effects := by
  rw [LastConnected, Streaks.sinceLast_concat]
  by_cases haddress : effect.address = address
  · simp [haddress]
  · simp [haddress, LastConnected]

def Connecting.succeeded (call : Connecting) : Bool := call.tried.contains .connected

structure Consistent (s : Connections) : Prop where
  sound : ∀ call ∈ s.calls, call.Sound
  listed : ∀ address, (s.manager.connectedNodes.get address).isSome ↔
    LastConnected address s.effects
  successes : s.calls.countP Connecting.succeeded = s.effects.countP Effect.isConnected

theorem start_consistent : Consistent start := by
  refine ⟨by simp [start], ?_, rfl⟩
  intro address
  simp [start, LastConnected]

theorem listed_concat {nodes : HashMap SocketAddr Unit} {effects : List Effect}
    (h : ∀ address, (nodes.get address).isSome ↔ LastConnected address effects)
    (effect : Effect) (after : HashMap SocketAddr Unit)
    (hafter : ∀ address, (after.get address).isSome ↔
      if effect.address = address then effect.isConnected = true
      else (nodes.get address).isSome) :
    ∀ address, (after.get address).isSome ↔ LastConnected address (effects ++ [effect]) := by
  intro address
  rw [hafter address, lastConnected_concat]
  split
  · exact Iff.rfl
  · exact h address

/-- The call number `i` makes its attempt. -/
theorem sound_set {calls : List Connecting} (h : ∀ call ∈ calls, call.Sound) {i : Nat}
    {after : Connecting} (hafter : after.Sound) : ∀ other ∈ calls.set i after, other.Sound := by
  intro other hmem
  rcases List.mem_or_eq_of_mem_set hmem with hmem | rfl
  · exact h other hmem
  · exact hafter

theorem Consistent.step {s : Connections} (h : Consistent s) (event : Event) :
    Consistent (step s event) := by
  cases event with
  | connectToNode address retryCount =>
    refine ⟨?_, h.listed, ?_⟩
    · intro call hmem
      rcases List.mem_append.mp hmem with hmem | hmem
      · exact h.sound call hmem
      · obtain rfl := List.mem_singleton.mp hmem
        exact Connecting.next_sound List.not_mem_nil (Nat.zero_le _)
    · simp only [Network.step, List.countP_append, h.successes]
      simp [Connecting.succeeded, Connecting.next]
  | disconnectNode address =>
    refine ⟨h.sound, listed_concat h.listed _ _ ?_, ?_⟩
    · intro other
      simp only [Network.step, HashMap.get_remove]
      by_cases haddress : other = address
      · simp [Effect.address, Effect.isConnected, haddress]
      · simp [Effect.address, haddress, Ne.symm haddress]
    · simp only [Network.step, List.countP_append, h.successes]
      simp [Effect.isConnected]
  | attempt i outcome =>
    rw [Network.step]
    cases hcall : s.calls[i]? with
    | none => exact h
    | some call =>
      have hsound := h.sound call (List.mem_of_getElem? hcall)
      by_cases hresult : call.result.isSome = true
      · simp only [hresult, if_true]
        exact h
      · have hrunning : call.result.isSome = false := by simpa using hresult
        have hfailed := (hsound.running hrunning).1
        have hattempt := hsound.attempt hrunning outcome
        obtain ⟨hi, hget⟩ := List.getElem?_eq_some_iff.mp hcall
        have hcount := List.countP_set (p := Connecting.succeeded) (a := call.attempt outcome) hi
        have hbefore : call.succeeded = false := by simpa [Connecting.succeeded] using hfailed
        rw [hget, hbefore, h.successes] at hcount
        simp only [hrunning, Bool.false_eq_true, if_false]
        cases outcome with
        | connected =>
          refine ⟨sound_set h.sound hattempt, listed_concat h.listed _ _ ?_, ?_⟩
          · intro other
            simp only [HashMap.get_insert]
            by_cases haddress : other = call.address
            · simp [Effect.address, Effect.isConnected, haddress]
            · simp [Effect.address, haddress, Ne.symm haddress]
          · rw [hcount, List.countP_append]
            simp [Connecting.succeeded, Connecting.attempt, Effect.isConnected]
        | refused | timedOut =>
          refine ⟨sound_set h.sound hattempt, h.listed, ?_⟩
          rw [hcount]
          simpa [Connecting.succeeded, Connecting.attempt, Connecting.next] using hfailed

/-- What a caller of the manager can rely on. -/
structure Reliable (s : Connections) : Prop where
  /-- A call returned `Ok` if its last attempt succeeded, and an error if all it had failed. -/
  sound : ∀ call ∈ s.calls, call.Sound
  /-- The calls that returned `Ok` are the insertions. -/
  successes : s.calls.countP (fun call => call.result = some (.ok ())) =
    s.effects.countP Effect.isConnected
  /-- An address is listed once if the last thing done for it was to connect, else not at all. -/
  listed : ∀ listing, (listConnectedNodes listing s.manager).Nodup ∧
    ∀ address, address ∈ listConnectedNodes listing s.manager ↔ LastConnected address s.effects

/-- Whatever the attempts of all calls come to, and whenever nodes are disconnected. -/
theorem connections_reliable (events : List Event) : Reliable (Runs.run step start events) := by
  have hconsistent : Consistent (Runs.run step start events) :=
    Runs.invariant (fun _ event h => h.step event) start_consistent events
  refine ⟨hconsistent.sound, ?_, ?_⟩
  · rw [← hconsistent.successes]
    apply List.countP_congr
    intro call hmem
    simp [Connecting.succeeded, (hconsistent.sound call hmem).ok_iff]
  · intro listing
    obtain ⟨hnodup, hmem⟩ := listing.covers (Runs.run step start events).manager.connectedNodes
    exact ⟨hnodup, fun address => (hmem address).trans (hconsistent.listed address)⟩

end Network

end AnKi
