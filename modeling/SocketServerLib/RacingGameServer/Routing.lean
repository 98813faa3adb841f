import SocketServerLib.Lib.LabelledRun
import SocketServerLib.RacingGameServer.Define
import Mathlib.Logic.Function.Basic

/-
  The index of a connection on its way through a completion: from `CreateConnections` to
  `m_ClientIndex`, from there to the overlapped of a request, and back by `GetConnection`.

  A pointer to a connection is its place in `m_Connections`. `Init` clears the receive
  overlapped, and `SendTCPIO` that of sends, before it writes the index again; both are done
  in two steps, so that other threads can come between. The completions of a connection may
  come at any time, and be handled by any number of threads; a handler looks its connection up,
  reports the index, or disconnects, which may follow from the entry alone. `resolved` lists
  what each index resolves to, with the connection that has posted the completion; this and
  `written` are ghosts.

  What is proved:
    1. `clientIndex_getConnection` — an index of 16 bits resolves to its connection if and only
       if the place is less than 2^16.
    2. `step_good`, `step_strays` — what the steps that stay in range keep, and that no other
       step does.
    3. `routed_iff` — all indices of a run resolve to the connection that has posted, if and
       only if all its steps are in range.
    4. `traffic_mixed` — the receives of connection 65541 go to connection 5.

  What is assumed: `m_Connections` stays as `CreateConnections` has made it, and a field is read
  and written in one step.
-/
namespace RacingGameServer
namespace Routing
open LabelledRun

/-- The requests that a connection posts. -/
inductive Posted where
  | ACCEPT | TCPRECV | TCPSEND
  deriving DecidableEq

/-- The two overlappeds of a connection. -/
inductive Side where
  | recv | send
  deriving DecidableEq

/-- `AcceptEx` uses the overlapped of receives. -/
def Posted.side : Posted → Side
  | .ACCEPT => .recv
  | .TCPRECV => .recv
  | .TCPSEND => .send

/-- `m_userIndex`, and whether it has been written since the overlapped was cleared. -/
structure Overlapped where
  userIndex : Nat
  written : Bool

structure Connection where
  clientIndex : Nat
  overlapped : Side → Overlapped

/-- The constructor: `m_ClientIndex` is a `uint16_t`. -/
def Connection.new (index_ : Int) : Connection :=
  { clientIndex := (index_ % 2 ^ 16).toNat
    overlapped := fun _ => { userIndex := 0, written := false } }

/-- A completion in the hands of a thread: who has posted it, and `pConnection`. -/
structure Handler where
  slot : Nat
  op : Posted
  pConnection : Option Nat

structure Core where
  connections : Nat → Option Connection
  handlers : List Handler
  resolved : List (Nat × Option Nat)

inductive RouteAct where
  | zeroMemory (i : Nat) (o : Side)
  | setUserIndex (i : Nat) (o : Side)
  | dequeue (i : Nat) (op : Posted)
  | lookUp (t : Nat)
  | report (t : Nat)
  | disconnect (t : Nat)

/-- `CreateConnections`: there is memory for the first `allocated` of them, and a null pointer
ends the loop. The loop counter is passed for an `int`. -/
def createConnections (uMaxClient_ : UInt32) (allocated : Nat) : Nat → Option Connection :=
  fun i => if i < min uMaxClient_.toNat allocated then some (.new (toInt32 i)) else none

namespace Core

def init (uMaxClient_ : UInt32) (allocated : Nat) : Core :=
  { connections := createConnections uMaxClient_ allocated, handlers := [], resolved := [] }

def getConnection (s : Core) (uClientIndex_ : Nat) : Option Nat :=
  (s.connections uClientIndex_).map fun _ => uClientIndex_

/-- An overlapped of a connection is written. -/
def setOverlapped (s : Core) (i : Nat) (c : Connection) (o : Side) (v : Overlapped) : Core :=
  { s with
    connections := Function.update s.connections i
      (some { c with overlapped := Function.update c.overlapped o v }) }

/-- The overlapped that a handler reads. -/
def overlappedOf (s : Core) (h : Handler) : Option Overlapped :=
  (s.connections h.slot).map fun c => c.overlapped h.op.side

/-- An index is used by a handler. -/
def use (s : Core) (h : Handler) (index : Nat) : Core :=
  { s with resolved := s.resolved ++ [(h.slot, s.getConnection index)] }

def step (s : Core) : RouteAct → Option Core
  | .zeroMemory i o =>
    (s.connections i).map fun c => s.setOverlapped i c o { userIndex := 0, written := false }
  | .setUserIndex i o =>
    (s.connections i).map fun c =>
      s.setOverlapped i c o { userIndex := c.clientIndex, written := true }
  | .dequeue i op =>
    -- the key of an accept is that of the listen socket
    (s.connections i).map fun _ =>
      { s with
        handlers := s.handlers ++
          [{ slot := i, op := op, pConnection := if op = .ACCEPT then none else some i }] }
  | .lookUp t =>
    (s.handlers[t]?).bind fun h => (s.overlappedOf h).map fun v =>
      { s.use h v.userIndex with
        handlers := s.handlers.set t { h with pConnection := s.getConnection v.userIndex } }
  | .report t =>
    (s.handlers[t]?).bind fun h => (s.overlappedOf h).map fun v => s.use h v.userIndex
  | .disconnect t =>
    (s.handlers[t]?).bind fun h => h.pConnection.bind fun j => (s.connections j).map fun c =>
      s.use h c.clientIndex

/-- Every index resolves to the connection that has posted the completion. -/
def Routed (s : Core) : Prop := ∀ r ∈ s.resolved, r.2 = some r.1

/-- A handler that reads `m_userIndex`: it has been written, and the place fits 16 bits. -/
def ReadsInRange (s : Core) (h : Handler) : Prop :=
  ∀ v, s.overlappedOf h = some v → if v.written = true then h.slot < 2 ^ 16 else h.slot = 0

instance (s : Core) (h : Handler) : Decidable (s.ReadsInRange h) :=
  inferInstanceAs (Decidable
    (∀ v ∈ s.overlappedOf h, if v.written = true then h.slot < 2 ^ 16 else h.slot = 0))

/-- A handler that uses `m_userIndex` does so in range, and one that disconnects is for a place
that fits 16 bits. -/
def InRange (s : Core) : RouteAct → Prop
  | .lookUp t | .report t => ∀ h, s.handlers[t]? = some h → s.ReadsInRange h
  | .disconnect t => ∀ h, s.handlers[t]? = some h → h.slot < 2 ^ 16
  | _ => True

instance (s : Core) : DecidablePred s.InRange
  | .lookUp t => inferInstanceAs (Decidable (∀ h ∈ s.handlers[t]?, s.ReadsInRange h))
  | .report t => inferInstanceAs (Decidable (∀ h ∈ s.handlers[t]?, s.ReadsInRange h))
  | .disconnect t => inferInstanceAs (Decidable (∀ h ∈ s.handlers[t]?, h.slot < 2 ^ 16))
  | .zeroMemory _ _ | .setUserIndex _ _ | .dequeue _ _ => .isTrue trivial

variable {s s' : Core} {i j : Nat} {c : Connection} {h : Handler} {v : Overlapped} {a : RouteAct}
  {uMaxClient_ : UInt32} {allocated : Nat}

/-! ## One index -/

theorem getConnection_eq_some :
    s.getConnection j = some i ↔ j = i ∧ (s.connections i).isSome := by
  unfold getConnection
  constructor
  · intro hsome
    obtain ⟨c, hc, rfl⟩ := Option.map_eq_some_iff.mp hsome
    exact ⟨rfl, hc ▸ rfl⟩
  · intro hboth
    obtain ⟨rfl, hsome⟩ := hboth
    obtain ⟨c, hc⟩ := Option.isSome_iff_exists.mp hsome
    rw [hc, Option.map_some]

/-- An index of 16 bits resolves to its connection if and only if its place fits them. -/
theorem clientIndex_getConnection (hi : (s.connections i).isSome) :
    s.getConnection (i % 2 ^ 16) = some i ↔ i < 2 ^ 16 := by
  rw [getConnection_eq_some, and_iff_left hi]
  omega

/-- `index_` loses its upper half, whether or not it is negative as an `int`. -/
theorem new_clientIndex (i : Nat) : (Connection.new (toInt32 i)).clientIndex = i % 2 ^ 16 := by
  simp only [Connection.new, toInt32]
  split <;> omega

/-! ## What the steps keep -/

/-- A connection has the index of its place, as far as it fits 16 bits, and so have its
overlappeds where it has been written. -/
structure Indexed (i : Nat) (c : Connection) : Prop where
  client : c.clientIndex = i % 2 ^ 16
  user : ∀ o, (c.overlapped o).userIndex =
    if (c.overlapped o).written = true then c.clientIndex else 0

/-- A handler is for a connection, and has found no other. -/
structure Handles (s : Core) (h : Handler) : Prop where
  exist : (s.connections h.slot).isSome
  found : ∀ j ∈ h.pConnection, j = h.slot

/-- Only the connections matter. -/
theorem Handles.of_connections (hh : s.Handles h) (hconn : s'.connections = s.connections) :
    s'.Handles h where
  exist := hconn ▸ hh.exist
  found := hh.found

structure Good (s : Core) : Prop where
  indexed : ∀ i c, s.connections i = some c → Indexed i c
  handles : ∀ h ∈ s.handlers, s.Handles h
  routed : s.Routed

theorem good_init (uMaxClient_ : UInt32) (allocated : Nat) : Good (init uMaxClient_ allocated) where
  indexed i c hc := by
    simp only [init, createConnections] at hc
    split at hc
    · rw [← Option.some.inj hc]
      exact ⟨new_clientIndex i, fun _ => rfl⟩
    · cases hc
  handles h hh := by cases hh
  routed r hr := by cases hr

/-- What a handler reads resolves to its connection if and only if it reads in range. -/
theorem Good.getConnection_read (hs : s.Good) (hh : s.Handles h) (hv : s.overlappedOf h = some v) :
    s.getConnection v.userIndex = some h.slot ↔ s.ReadsInRange h := by
  have hread : s.ReadsInRange h ↔ if v.written = true then h.slot < 2 ^ 16 else h.slot = 0 := by
    constructor
    · exact fun hall => hall v hv
    · intro hone w hw
      obtain rfl := Option.some.inj (hv.symm.trans hw)
      exact hone
  obtain ⟨c, hc, rfl⟩ := Option.map_eq_some_iff.mp hv
  have hindexed := hs.indexed h.slot c hc
  rw [hread, hindexed.user]
  split
  · rw [hindexed.client]
    exact clientIndex_getConnection hh.exist
  · rw [getConnection_eq_some, and_iff_left hh.exist]
    exact eq_comm

/-- So does what `DoDisconnect` is given, if and only if the place fits 16 bits. -/
theorem Good.getConnection_index (hs : s.Good) (hh : s.Handles h) (hj : h.pConnection = some j)
    (hc : s.connections j = some c) :
    s.getConnection c.clientIndex = some h.slot ↔ h.slot < 2 ^ 16 := by
  obtain rfl := hh.found j hj
  rw [(hs.indexed h.slot c hc).client]
  exact clientIndex_getConnection hh.exist

theorem isSome_setOverlapped (hc : s.connections i = some c) (o : Side) (v : Overlapped)
    (k : Nat) :
    ((s.setOverlapped i c o v).connections k).isSome = (s.connections k).isSome := by
  by_cases hk : k = i
  · subst hk
    simp only [setOverlapped, Function.update_self, hc, Option.isSome_some]
  · simp only [setOverlapped, Function.update_of_ne hk]

theorem Good.setOverlapped (hs : s.Good) (hc : s.connections i = some c) {o : Side}
    (hv : v.userIndex = if v.written = true then c.clientIndex else 0) :
    (s.setOverlapped i c o v).Good where
  indexed k d hd := by
    by_cases hk : k = i
    · subst hk
      simp only [Core.setOverlapped, Function.update_self] at hd
      rw [← Option.some.inj hd]
      have hindexed := hs.indexed k c hc
      refine ⟨hindexed.client, fun p => ?_⟩
      by_cases hp : p = o
      · subst hp
        simp only [Function.update_self]
        exact hv
      · simp only [Function.update_of_ne hp]
        exact hindexed.user p
    · simp only [Core.setOverlapped, Function.update_of_ne hk] at hd
      exact hs.indexed k d hd
  handles h hh :=
    ⟨(isSome_setOverlapped hc o v h.slot).trans (hs.handles h hh).exist, (hs.handles h hh).found⟩
  routed := hs.routed

/-- The list has one more entry. -/
theorem routed_use (hs : s.Routed) (h : Handler) (index : Nat) :
    (s.use h index).Routed ↔ s.getConnection index = some h.slot := by
  constructor
  · intro hall
    exact hall (h.slot, s.getConnection index) (List.mem_append_right _ (List.mem_singleton_self _))
  · intro hroute r hr
    rcases List.mem_append.mp hr with hr | hr
    · exact hs r hr
    · obtain rfl := List.mem_singleton.mp hr
      exact hroute

theorem Good.use (hs : s.Good) {index : Nat} (hroute : s.getConnection index = some h.slot) :
    (s.use h index).Good where
  indexed := hs.indexed
  handles h' hh' := (hs.handles h' hh').of_connections rfl
  routed := (routed_use hs.routed h index).mpr hroute

/-- What a step can do: write an overlapped, dequeue an entry, or use an index, which may change
the `pConnection` of its handler. -/
theorem step_cases (hs : s.Good) (h : step s a = some s') :
    (∃ i c o v, s.connections i = some c ∧
      (v.userIndex = if v.written = true then c.clientIndex else 0) ∧ InRange s a ∧
      s' = s.setOverlapped i c o v) ∨
    (∃ h, s.Handles h ∧ InRange s a ∧ s' = { s with handlers := s.handlers ++ [h] }) ∨
    ∃ t h index handlers, s.handlers[t]? = some h ∧ s.Handles h ∧
      (InRange s a ↔ s.getConnection index = some h.slot) ∧
      s' = { s.use h index with handlers := handlers } ∧
      (handlers = s.handlers ∨
        handlers = s.handlers.set t { h with pConnection := s.getConnection index }) := by
  have hhandles : ∀ {t : Nat} {g : Handler}, s.handlers[t]? = some g → s.Handles g := fun ht =>
    hs.handles _ (List.mem_of_getElem? ht)
  have hrange : ∀ {t : Nat} {g : Handler} {P : Handler → Prop}, s.handlers[t]? = some g →
      ((∀ g', s.handlers[t]? = some g' → P g') ↔ P g) := by
    intro t g P ht
    constructor
    · exact fun hall => hall g ht
    · intro hone g' ht'
      obtain rfl := Option.some.inj (ht.symm.trans ht')
      exact hone
  cases a with
  | zeroMemory i o =>
    obtain ⟨c, hc, rfl⟩ := Option.map_eq_some_iff.mp h
    exact .inl ⟨i, c, o, _, hc, rfl, trivial, rfl⟩
  | setUserIndex i o =>
    obtain ⟨c, hc, rfl⟩ := Option.map_eq_some_iff.mp h
    exact .inl ⟨i, c, o, _, hc, rfl, trivial, rfl⟩
  | dequeue i op =>
    obtain ⟨c, hc, rfl⟩ := Option.map_eq_some_iff.mp h
    refine .inr (.inl ⟨_, ⟨Option.isSome_iff_exists.mpr ⟨c, hc⟩, fun j hj => ?_⟩, trivial, rfl⟩)
    split at hj
    · cases hj
    · exact (Option.some.inj hj).symm
  | lookUp t =>
    obtain ⟨g, ht, h⟩ := Option.bind_eq_some_iff.mp h
    obtain ⟨v, hv, rfl⟩ := Option.map_eq_some_iff.mp h
    refine .inr (.inr ⟨t, g, v.userIndex, _, ht, hhandles ht, ?_, rfl, .inr rfl⟩)
    exact (hrange ht).trans (hs.getConnection_read (hhandles ht) hv).symm
  | report t =>
    obtain ⟨g, ht, h⟩ := Option.bind_eq_some_iff.mp h
    obtain ⟨v, hv, rfl⟩ := Option.map_eq_some_iff.mp h
    refine .inr (.inr ⟨t, g, v.userIndex, _, ht, hhandles ht, ?_, rfl, .inl rfl⟩)
    exact (hrange ht).trans (hs.getConnection_read (hhandles ht) hv).symm
  | disconnect t =>
    obtain ⟨g, ht, h⟩ := Option.bind_eq_some_iff.mp h
    obtain ⟨j, hj, h⟩ := Option.bind_eq_some_iff.mp h
    obtain ⟨c, hc, rfl⟩ := Option.map_eq_some_iff.mp h
    refine .inr (.inr ⟨t, g, c.clientIndex, _, ht, hhandles ht, ?_, rfl, .inl rfl⟩)
    exact (hrange ht).trans (hs.getConnection_index (hhandles ht) hj hc).symm

theorem step_good (hs : s.Good) (hc : InRange s a) (h : step s a = some s') : s'.Good := by
  rcases step_cases hs h with ⟨i, c, o, v, hconn, hv, -, rfl⟩ | ⟨g, hg, -, rfl⟩ |
    ⟨t, g, index, handlers, ht, hg, hiff, rfl, hhandlers⟩
  · exact hs.setOverlapped hconn hv
  · refine ⟨hs.indexed, fun h' hh' => ?_, hs.routed⟩
    rcases List.mem_append.mp hh' with hh' | hh'
    · exact (hs.handles h' hh').of_connections rfl
    · obtain rfl := List.mem_singleton.mp hh'
      exact hg.of_connections rfl
  · have hroute := hiff.mp hc
    have hused := hs.use hroute
    refine ⟨hused.indexed, fun h' hh' => ?_, hused.routed⟩
    rcases hhandlers with rfl | rfl
    · exact (hs.handles h' hh').of_connections rfl
    · rcases List.mem_or_eq_of_mem_set hh' with hh' | rfl
      · exact (hs.handles h' hh').of_connections rfl
      · refine ⟨hg.exist, fun j hj => ?_⟩
        exact Option.some.inj (hj.symm.trans hroute)

/-- A step out of range uses an index of another connection. -/
theorem step_strays (hs : s.Good) (hc : ¬ InRange s a) (h : step s a = some s') : ¬ s'.Routed := by
  rcases step_cases hs h with ⟨i, c, o, v, -, -, hin, -⟩ | ⟨g, -, hin, -⟩ |
    ⟨t, g, index, handlers, -, -, hiff, rfl, -⟩
  · exact absurd hin hc
  · exact absurd hin hc
  · intro hrouted
    have hroute := (routed_use hs.routed g index).mp hrouted
    exact hc (hiff.mpr hroute)

/-- All along a run every index resolves to the connection that has posted the completion, if and
only if the handlers use indices in range: those of the first 2^16 places, and where
`m_userIndex` is read, written, or that of the first place. -/
theorem routed_iff {acts : List RouteAct}
    (hr : run step (init uMaxClient_ allocated) acts = some s) :
    Always step Routed (init uMaxClient_ allocated) acts ↔
      Meets step InRange (init uMaxClient_ allocated) acts :=
  always_iff_meets (fun _ hs => hs.routed) (fun _ _ _ => step_good) (fun _ _ _ => step_strays)
    (good_init uMaxClient_ allocated) hr

/-- Connection `i` is initialised, and a receive of it completes and is handled. -/
def received (i : Nat) : List RouteAct :=
  [.zeroMemory i .recv, .setUserIndex i .recv, .dequeue i .TCPRECV, .lookUp 0, .report 0,
    .disconnect 0]

theorem received_routed : Always step Routed (init 65536 65536) (received 65535) := by
  have hsome : (run step (init 65536 65536) (received 65535)).isSome = true := by decide +kernel
  obtain ⟨s, hr⟩ := Option.isSome_iff_exists.mp hsome
  refine (routed_iff hr).mpr ?_
  decide +kernel

/-- In a server for 65542 clients a receive of connection 65541 is stored in connection 5, and
reported and disconnected as one of it. -/
theorem traffic_mixed :
    (run step (init 65542 65542) (received 65541)).map (fun s => s.resolved) =
      some [(65541, some 5), (65541, some 5), (65541, some 5)] := by
  decide +kernel

end Core

end Routing
end RacingGameServer
