import SocketServerLib.RacingGameServer.Dispatch
import SocketServerLib.Lib.LabelledRun

/-
  The receives the server keeps outstanding: one `WSARecvFrom` on the UDP socket, and one
  `WSARecv` on the socket of each connection that is connected.

  A run is a sequence of completion entries handled by `WorkerThread` while the server
  runs. `Close` closes the socket, so a receive on it is no longer outstanding, but its entry
  is still to come. That entry is `late`, and where `BindAcceptEx` has written over the shared
  `m_RecvOverlapped` since, it says `ACCEPT` (`reused`). The entries of a null connection stop
  the server and are no step.

  What is proved:
    1. `handled_udpRecv`, `handled_tcpRecv` — the calls made for each receive entry.
    2. `rearmed_iff` — after every entry for a receive the receives are as they should be,
       if and only if no UDPRECV entry has a status other than 0, no TCPRECV entry with
       bytes is dropped or has its I/O requested again, and no TCPRECV entry with bytes of
       an earlier socket is handled as one of the connected socket.
    3. `udp_recv_dropped` — a datagram that did not fit, after which nothing is outstanding.

  What is assumed: the entries are handled one after the other, every post succeeds, and the
  overlapped of an entry says what was posted with it, but for the receives that are `reused`.
-/
namespace RacingGameServer

open LabelledRun

/-! ## Entries for a receive -/

/-- The calls that post the receive an entry was for once more. -/
def Call.PostsRecv : Call → Prop
  | .bindRecv _ => True
  | .bindUDPRecv => True
  | .doTCPRecv _ => True
  | .doUDPRecv _ => True
  | _ => False

section Handled

variable {bound : Bool} {e : Entry} {calls : List Call}

theorem not_postsRecv_operationSwitch {op : EIOOperation} (h₁ : op ≠ .TCPRECV) (h₂ : op ≠ .UDPRECV)
    (n : Nat) : ¬ (operationSwitch n op).PostsRecv := by
  cases op with
  | TCPRECV => exact absurd rfl h₁
  | UDPRECV => exact absurd rfl h₂
  | _ => exact id

/-- They are made for receive entries only. -/
theorem not_postsRecv (h₁ : e.op ≠ .TCPRECV) (h₂ : e.op ≠ .UDPRECV) (h : Handled bound e calls) :
    ∀ c ∈ calls, ¬ c.PostsRecv := by
  have hlast := not_postsRecv_operationSwitch h₁ h₂ e.iosize
  have hclean : ∀ c ∈ udpCleanUp e.op, ¬ c.PostsRecv := by
    intro c hc
    unfold udpCleanUp at hc
    split at hc
    · obtain rfl := List.mem_singleton.mp hc
      exact id
    · cases hc
  have hafter : opAfterDisconnect bound e.op = e.op := by
    unfold opAfterDisconnect
    split
    · next hop => exact absurd hop h₁
    · rfl
  intro c hc
  cases h with
  | empty i => exact List.mem_singleton.mp hc ▸ id
  | good => exact List.mem_singleton.mp hc ▸ hlast
  | dropped => exact hclean c hc
  | gone i =>
    rw [hafter] at hc
    rcases List.mem_cons.mp hc with rfl | hc
    · exact id
    · rcases List.mem_append.mp hc with hc | hc
      · exact hclean c hc
      · exact List.mem_singleton.mp hc ▸ hlast
  | unknown i =>
    rw [hafter] at hc
    rcases List.mem_cons.mp hc with rfl | hc
    · exact id
    · exact List.mem_singleton.mp hc ▸ hlast
  | retry rs _ _ hrs =>
    rcases List.mem_append.mp hc with hc | hc
    · unfold RacingGameServer.retry at hrs
      split at hrs
      · obtain ⟨i, -, rfl⟩ := Option.map_eq_some_iff.mp hrs
        exact List.mem_singleton.mp hc ▸ id
      · obtain rfl := Option.some.inj hrs
        exact List.mem_singleton.mp hc ▸ id
      · next hop => exact absurd hop h₁
      · next hop => exact absurd hop h₂
      · obtain ⟨i, -, rfl⟩ := Option.map_eq_some_iff.mp hrs
        exact List.mem_singleton.mp hc ▸ id
    · exact List.mem_singleton.mp hc ▸ hlast

/-- The calls for an entry of the UDP socket's receive: `DoUDPRecv`, nothing, or two posts. -/
theorem handled_udpRecv {e : PostedEntry} (hop : e.op = .UDPRECV)
    (h : Handled bound e.toEntry calls) :
    (e.internal = 0 ∧ calls = [.doUDPRecv e.iosize]) ∨ (dropped e.internal ∧ calls = []) ∨
      (retryable e.internal ∧ calls = [.bindUDPRecv, .doUDPRecv e.iosize]) := by
  -- the key of the UDP socket is 0
  have hkey : ∀ i, e.key ≠ some i := by
    intro i hi
    have hclient : e.op.OnClient := e.registered.mp (by rw [hi]; rfl)
    rw [hop] at hclient
    exact hclient
  cases h with
  | empty i _ _ hi => exact absurd hi (hkey i)
  | good _ hz => exact .inl ⟨hz, by rw [hop]; rfl⟩
  | dropped _ hd => exact .inr (.inl ⟨hd, by rw [hop]; rfl⟩)
  | gone i _ _ hi => exact absurd hi (hkey i)
  | retry rs _ hretry hrs =>
    unfold RacingGameServer.retry at hrs
    rw [hop] at hrs ⊢
    obtain rfl := Option.some.inj hrs
    exact .inr (.inr ⟨hretry, rfl⟩)
  | unknown i _ _ _ _ hi => exact absurd hi (hkey i)

/-- The calls for an entry of a connection's receive. -/
theorem handled_tcpRecv {i : Nat} (hop : e.op = .TCPRECV) (hkey : e.key = some i)
    (h : Handled bound e calls) :
    (e.iosize = 0 ∧ calls = [.doDisconnect i true]) ∨
      (e.iosize ≠ 0 ∧ e.internal = 0 ∧ calls = [.doTCPRecv e.iosize]) ∨
      (e.iosize ≠ 0 ∧ dropped e.internal ∧ calls = []) ∨
      (e.iosize ≠ 0 ∧ retryable e.internal ∧ calls = [.bindRecv i, .doTCPRecv e.iosize]) ∨
      (¬ (dropped e.internal ∨ retryable e.internal) ∧ e.internal ≠ 0 ∧ ∃ b,
        calls = [.doDisconnect i b,
          operationSwitch e.iosize (opAfterDisconnect bound .TCPRECV)]) := by
  have hsize : (e.iosize = 0 → e.op = .ACCEPT) → e.iosize ≠ 0 := by
    intro h hz
    rw [hop] at h
    cases h hz
  cases h with
  | empty j hz _ hj =>
    obtain rfl := Option.some.inj (hkey.symm.trans hj)
    exact .inl ⟨hz, rfl⟩
  | good hn hz => exact .inr (.inl ⟨hsize hn, hz, by rw [hop]; rfl⟩)
  | dropped hn hd => exact .inr (.inr (.inl ⟨hsize hn, hd, by rw [hop]; rfl⟩))
  | gone j _ hgone hj =>
    obtain rfl := Option.some.inj (hkey.symm.trans hj)
    refine .inr (.inr (.inr (.inr ⟨?_, ?_, true, by rw [hop]; rfl⟩)))
    · exact fun h => h.elim hgone.not_dropped hgone.not_retryable
    · rcases hgone with hg | hg <;> rw [hg] <;> decide
  | retry rs hn hretry hrs =>
    unfold RacingGameServer.retry at hrs
    rw [hop] at hrs ⊢
    simp only [hkey, Option.map_some, Option.some.injEq] at hrs
    subst hrs
    exact .inr (.inr (.inr (.inl ⟨hsize hn, hretry, rfl⟩)))
  | unknown j _ hz hd hretry hj =>
    obtain rfl := Option.some.inj (hkey.symm.trans hj)
    exact .inr (.inr (.inr (.inr ⟨fun h => h.elim hd hretry, hz, false, by rw [hop]⟩)))

end Handled

/-- The receives of one connection: `isConnected` is `m_IsConnected`, `associated` says that
the socket is tied to the completion port, `recvs` counts the `WSARecv` posts outstanding on the
socket, and `closed` the entries still to come for receives on sockets closed since. -/
structure Receives where
  isConnected : Bool
  associated : Bool
  recvs : Nat
  closed : Nat
  deriving DecidableEq, Repr

namespace Receives

/-- After `ResetConnection` at the start. -/
def init : Receives := { isConnected := false, associated := false, recvs := 0, closed := 0 }

/-- `DoDisconnect`: the socket is closed and replaced by a new one. -/
def doDisconnect (c : Receives) : Receives :=
  { isConnected := false, associated := false, recvs := 0, closed := c.closed + c.recvs }

/-- `BindIOCP`: a socket is associated with a completion port once. -/
def bindIOCP (c : Receives) (associates : Bool) : Receives × Bool :=
  if c.associated = true ∨ associates = false then (c, false)
  else ({ c with isConnected := true, associated := true }, true)

def bindRecv (c : Receives) : Receives × Bool :=
  if c.isConnected = false then (c, false) else ({ c with recvs := c.recvs + 1 }, true)

def doAccept (c : Receives) (associates : Bool) : Receives :=
  match c.bindIOCP associates with
  | (c', false) => c'.doDisconnect
  | (c', true) =>
    match c'.bindRecv with
    | (c'', false) => c''.doDisconnect
    | (c'', true) => c''

def doTCPRecv (c : Receives) : Receives :=
  match c.bindRecv with
  | (c', false) => c'.doDisconnect
  | (c', true) => c'

/-- The entry of a receive is dequeued. -/
def dequeue (c : Receives) (late : Bool) : Receives :=
  if late then { c with closed := c.closed - 1 } else { c with recvs := c.recvs - 1 }

/-- The receives whose entry may be dequeued. -/
def pending (c : Receives) (late : Bool) : Nat := if late then c.closed else c.recvs

/-- Connected with one receive, or not connected with none. -/
def Settled (c : Receives) : Prop :=
  if c.isConnected then c.associated = true ∧ c.recvs = 1 else c.recvs = 0

/-- What the entry of a receive should leave: one receive at most, and one if connected. -/
def Rearmed (c : Receives) : Prop := c.recvs ≤ 1 ∧ (c.isConnected = true → c.recvs = 1)

instance (c : Receives) : Decidable c.Rearmed := by unfold Rearmed; infer_instance

variable {c : Receives}

theorem Settled.rearmed (h : c.Settled) : c.Rearmed := by
  unfold Settled at h
  unfold Rearmed
  split at h
  · exact ⟨Nat.le_of_eq h.2, fun _ => h.2⟩
  · next hc => exact ⟨by omega, fun h' => absurd h' hc⟩

theorem settled_doDisconnect (c : Receives) : c.doDisconnect.Settled := rfl

theorem Settled.doAccept (h : c.Settled) (associates : Bool) : (c.doAccept associates).Settled := by
  unfold Receives.doAccept bindIOCP
  by_cases ha : c.associated = true ∨ associates = false
  · rw [if_pos ha]
    exact settled_doDisconnect c
  · -- a socket of its own, so not connected before
    have hconn : ¬ c.isConnected = true := by
      intro hc
      unfold Settled at h
      rw [if_pos hc] at h
      exact ha (.inl h.1)
    unfold Settled at h
    rw [if_neg hconn] at h
    rw [if_neg ha]
    simp [bindRecv, Settled, h]

/-- A receive is requested again where none is outstanding. -/
theorem settled_doTCPRecv (hassoc : c.isConnected = true → c.associated = true)
    (hrecvs : c.recvs = 0) : c.doTCPRecv.Settled := by
  unfold doTCPRecv bindRecv
  by_cases hc : c.isConnected = false
  · rw [if_pos hc]
    exact settled_doDisconnect c
  · have hc' : c.isConnected = true := by simpa using hc
    rw [if_neg hc]
    simp [Settled, hc', hassoc hc', hrecvs]

theorem bindRecv_connected (hc : c.isConnected = true) :
    c.bindRecv = ({ c with recvs := c.recvs + 1 }, true) := by
  rw [bindRecv, if_neg (by simp [hc])]

theorem doTCPRecv_connected (hc : c.isConnected = true) :
    c.doTCPRecv = { c with recvs := c.recvs + 1 } := by
  rw [doTCPRecv, bindRecv_connected hc]

/-- The one receive of a connection is dequeued only where it is connected. -/
theorem Settled.dequeue (h : c.Settled) (hp : c.pending false ≠ 0) :
    c.isConnected = true ∧ c.associated = true ∧ (c.dequeue false).recvs = 0 := by
  unfold Settled at h
  split at h
  · next hc => exact ⟨hc, h.1, by simp [Receives.dequeue, h.2]⟩
  · exact absurd h hp

/-- A late receive leaves those of the socket as they are. -/
theorem Settled.dequeue_late (h : c.Settled) : (c.dequeue true).Settled := h

end Receives

/-- What the outside answers while an entry is handled: whether `BindAcceptEx` gets a socket,
whether `CreateIoCompletionPort` associates the accepted one, and what `m_UDPTokens.find` gives. -/
structure Outcome where
  bound : Bool
  associates : Bool
  found : Option Nat

/-- `last` is the connection of the last TCPRECV entry, and `none` if it was for the UDP socket;
the outer option is empty behind any other entry. -/
structure Rearm where
  connections : Nat
  udpRecvs : Nat
  conn : Nat → Receives
  last : Option (Option Nat)

/-- An entry: `user` is the `m_userIndex` of an ACCEPT entry. `reused` is the entry of a late
receive of connection `i` whose overlapped `BindAcceptEx` has made an ACCEPT. -/
inductive RearmAct where
  | entry (e : PostedEntry) (user : Nat) (late : Bool) (o : Outcome)
  | reused (i iosize internal : Nat) (o : Outcome)

namespace Rearm

def init (n : Nat) : Rearm :=
  { connections := n, udpRecvs := 1, conn := fun _ => .init, last := none }

def setConn (s : Rearm) (i : Nat) (c : Receives) : Rearm :=
  { s with conn := Function.update s.conn i c }

def bindUDPRecv (s : Rearm) : Rearm := { s with udpRecvs := s.udpRecvs + 1 }

/-- `DoUDPRecv`, with its three exits. -/
def doUDPRecv (s : Rearm) (found : Option Nat) : Rearm :=
  match found with
  | none => s.bindUDPRecv
  | some i =>
    if ¬ i < s.connections then s.bindUDPRecv
    -- `SetUDPIP` and `OnUDPReceive` post no receive
    else s.bindUDPRecv

def call (user : Nat) (o : Outcome) (s : Rearm) : Call → Rearm
  | .doDisconnect i _ => s.setConn i (s.conn i).doDisconnect
  | .bindRecv i => s.setConn i (s.conn i).bindRecv.1
  | .bindUDPRecv => s.bindUDPRecv
  | .doAccept => s.setConn user ((s.conn user).doAccept o.associates)
  | .doTCPRecv _ => s.setConn user (s.conn user).doTCPRecv
  | .doUDPRecv _ => s.doUDPRecv o.found
  | .reSendTCP _ => s
  | .udpResend => s
  | .doTCPSend _ => s
  | .doUDPSend => s

/-- The receive an entry is for is dequeued, if there is one. -/
def dequeue (s : Rearm) (e : PostedEntry) (late : Bool) : Option Rearm :=
  match e.op, e.key with
  | .UDPRECV, _ =>
    if s.udpRecvs = 0 then none
    else some { s with udpRecvs := s.udpRecvs - 1, last := some none }
  | .TCPRECV, some i =>
    if (s.conn i).pending late = 0 then none
    else some { s.setConn i ((s.conn i).dequeue late) with last := some (some i) }
  | _, _ => some { s with last := none }

def step (s : Rearm) : RearmAct → Option Rearm
  | .entry e user late o =>
    match s.dequeue e late, dispatch true o.bound e.toEntry with
    | some s', some calls => some (calls.foldl (call (e.key.getD user) o) s')
    | _, _ => none
  | .reused i iosize internal o =>
    if (s.conn i).closed = 0 then none
    else
      some ((dispatchReused o.bound i iosize internal).foldl (call i o)
        { s.setConn i ((s.conn i).dequeue true) with last := none })

/-- After the entry of a receive, the receives are as they should be. -/
def Rearmed (s : Rearm) : Prop :=
  match s.last with
  | none => True
  | some none => s.udpRecvs = 1
  | some (some i) => (s.conn i).Rearmed

/-- The condition on a TCPRECV entry. -/
def RecvOk (c : Receives) (e : PostedEntry) (late : Bool) : Prop :=
  e.iosize = 0 ∨
    if late then c.isConnected = false ∨ ¬ (e.internal = 0 ∨ retryable e.internal)
    else ¬ (dropped e.internal ∨ retryable e.internal)

/-- The condition on an entry. -/
def EntryOk (s : Rearm) : RearmAct → Prop
  | .entry e _ late _ =>
    match e.op, e.key with
    | .UDPRECV, _ => e.internal = 0
    | .TCPRECV, some i => RecvOk (s.conn i) e late
    | _, _ => True
  | .reused .. => True

instance (c : Receives) (e : PostedEntry) (late : Bool) : Decidable (RecvOk c e late) := by
  unfold RecvOk; infer_instance

instance (s : Rearm) : DecidablePred s.EntryOk := fun l => by
  unfold EntryOk
  split
  · split <;> infer_instance
  · infer_instance

/-! ## What every entry keeps -/

structure Settled (s : Rearm) : Prop where
  udp : s.udpRecvs = 1
  conn : ∀ i, (s.conn i).Settled

variable {s s' : Rearm} {i user n : Nat} {o : Outcome} {e : PostedEntry} {c : Receives}

theorem settled_init (n : Nat) : Settled (init n) := ⟨rfl, fun _ => rfl⟩

theorem Settled.rearmed (h : Settled s) : Rearmed s := by
  unfold Rearmed
  split
  · trivial
  · exact h.udp
  · next i _ => exact (h.conn i).rearmed

theorem doUDPRecv_eq (s : Rearm) (found : Option Nat) : s.doUDPRecv found = s.bindUDPRecv := by
  unfold doUDPRecv
  cases found with
  | none => rfl
  | some i => exact ite_self _

@[simp] theorem conn_setConn_self (s : Rearm) (i : Nat) (c : Receives) :
    (s.setConn i c).conn i = c :=
  Function.update_self ..

@[simp] theorem setConn_setConn (s : Rearm) (i : Nat) (c c' : Receives) :
    (s.setConn i c).setConn i c' = s.setConn i c' := by
  simp only [setConn, Function.update_idem]

/-- The receives of one connection are settled again. -/
theorem settled_setConn (hudp : s.udpRecvs = 1) (hrest : ∀ j ≠ i, (s.conn j).Settled)
    (hc : c.Settled) : Settled (s.setConn i c) := by
  refine ⟨hudp, fun j => ?_⟩
  by_cases hj : j = i
  · subst hj
    rwa [conn_setConn_self]
  · show (Function.update s.conn i c j).Settled
    rw [Function.update_of_ne hj]
    exact hrest j hj

theorem Settled.setConn (h : Settled s) (hc : c.Settled) : Settled (s.setConn i c) :=
  settled_setConn h.udp (fun j _ => h.conn j) hc

/-- The calls that post no receive for the entry itself. -/
theorem Settled.call (h : Settled s) {cl : Call} (hcl : ¬ cl.PostsRecv) :
    Settled (call user o s cl) := by
  cases cl with
  | doDisconnect i b => exact h.setConn (Receives.settled_doDisconnect _)
  | doAccept => exact h.setConn ((h.conn user).doAccept _)
  | bindRecv i => exact absurd trivial hcl
  | bindUDPRecv => exact absurd trivial hcl
  | doTCPRecv n => exact absurd trivial hcl
  | doUDPRecv n => exact absurd trivial hcl
  | _ => exact h

theorem Settled.calls (h : Settled s) {calls : List Call} (hcalls : ∀ c ∈ calls, ¬ c.PostsRecv) :
    Settled (calls.foldl (Rearm.call user o) s) := by
  induction calls generalizing s with
  | nil => exact h
  | cons c cs ih =>
    exact ih (h.call (hcalls c List.mem_cons_self)) fun c' hc' =>
      hcalls c' (List.mem_cons_of_mem c hc')

/-- A receive entry whose connection is disconnected, and then accepted anew or refused. -/
theorem settled_disconnected (hudp : s.udpRecvs = 1) (hrest : ∀ j ≠ i, (s.conn j).Settled)
    (b bound : Bool) (n : Nat) :
    Settled ([.doDisconnect i b, operationSwitch n (opAfterDisconnect bound .TCPRECV)].foldl
      (Rearm.call i o) s) := by
  have hdis : Settled (s.setConn i (s.conn i).doDisconnect) :=
    settled_setConn hudp hrest (Receives.settled_doDisconnect _)
  cases bound with
  | true => exact hdis.setConn ((hdis.conn i).doAccept _)
  | false =>
    apply hdis.setConn
    show ((s.setConn i (s.conn i).doDisconnect).conn i).doTCPRecv.Settled
    rw [conn_setConn_self]
    exact Receives.settled_doTCPRecv nofun rfl

theorem step_entry {late : Bool} (hs : step s (.entry e user late o) = some s') :
    ∃ s₁ calls, s.dequeue e late = some s₁ ∧ Handled o.bound e.toEntry calls ∧
      s' = calls.foldl (Rearm.call (e.key.getD user) o) s₁ := by
  simp only [step] at hs
  split at hs
  · next s₁ calls hdeq hcalls =>
    exact ⟨s₁, calls, hdeq, handled_of_dispatch hcalls, (Option.some.inj hs).symm⟩
  · cases hs

theorem dequeue_cases {late : Bool} {s₁ : Rearm} (hd : s.dequeue e late = some s₁) :
    (e.op = .UDPRECV ∧ s.udpRecvs ≠ 0 ∧
      s₁ = { s with udpRecvs := s.udpRecvs - 1, last := some none }) ∨
    (∃ i, e.op = .TCPRECV ∧ e.key = some i ∧ (s.conn i).pending late ≠ 0 ∧
      s₁ = { s.setConn i ((s.conn i).dequeue late) with last := some (some i) }) ∨
    (e.op ≠ .TCPRECV ∧ e.op ≠ .UDPRECV ∧ s₁ = { s with last := none }) := by
  unfold dequeue at hd
  split at hd
  · next hop =>
    split at hd
    · cases hd
    · next hn => exact .inl ⟨hop, hn, (Option.some.inj hd).symm⟩
  · next i hop hkey =>
    split at hd
    · cases hd
    · next hn => exact .inr (.inl ⟨i, hop, hkey, hn, (Option.some.inj hd).symm⟩)
  · next hudp htcp =>
    refine .inr (.inr ⟨fun hop => ?_, fun hop => hudp hop, (Option.some.inj hd).symm⟩)
    have hkey : e.key.isSome := e.registered.mpr (by rw [hop]; trivial)
    obtain ⟨i, hi⟩ := Option.isSome_iff_exists.mp hkey
    exact htcp i hop hi

/-- An entry for the UDP socket's receive leaves one outstanding if its status is 0, and none
or two otherwise. -/
theorem udpRecv_spec {calls : List Call} (h : Settled s) (hop : e.op = .UDPRECV)
    (hcalls : Handled o.bound e.toEntry calls)
    (hs : s' = calls.foldl (Rearm.call user o)
      { s with udpRecvs := s.udpRecvs - 1, last := some none }) :
    (e.internal = 0 → Settled s') ∧ (e.internal ≠ 0 → ¬ Rearmed s') := by
  subst hs
  rcases handled_udpRecv hop hcalls with ⟨hz, rfl⟩ | ⟨hd, rfl⟩ | ⟨hr, rfl⟩
  · refine ⟨fun _ => ⟨?_, fun i => ?_⟩, fun hne => absurd hz hne⟩
    · simp [Rearm.call, doUDPRecv_eq, bindUDPRecv, h.udp]
    · simpa [Rearm.call, doUDPRecv_eq, bindUDPRecv] using h.conn i
  · have hne : e.internal ≠ 0 := by
      rcases hd with hd | hd <;> rw [hd] <;> decide
    refine ⟨fun hz => absurd hz hne, fun _ hre => ?_⟩
    simp [Rearmed, h.udp] at hre
  · have hne : e.internal ≠ 0 := by
      rcases hr with hr | hr | hr <;> rw [hr] <;> decide
    refine ⟨fun hz => absurd hz hne, fun _ hre => ?_⟩
    simp [Rearmed, Rearm.call, doUDPRecv_eq, bindUDPRecv, h.udp] at hre

theorem not_rearmed (hlast : s.last = some (some i))
    (h : 2 ≤ c.recvs ∨ c.isConnected = true ∧ c.recvs = 0) : ¬ Rearmed (s.setConn i c) := by
  intro hre
  have hre : ((s.setConn i c).conn i).Rearmed := by
    simpa only [Rearmed, show (s.setConn i c).last = some (some i) from hlast] using hre
  rw [conn_setConn_self] at hre
  obtain ⟨hle, hone⟩ := hre
  rcases h with h | ⟨hc, hz⟩
  · omega
  · have := hone hc
    omega

/-- The calls that request the receive again, on the connection. -/
theorem call_doTCPRecv (s : Rearm) (i m : Nat) (o : Outcome) (c : Receives) :
    Rearm.call i o (s.setConn i c) (.doTCPRecv m) = s.setConn i c.doTCPRecv := by
  simp [Rearm.call]

theorem calls_requested (s : Rearm) (i m : Nat) (o : Outcome) (c : Receives) :
    [.bindRecv i, .doTCPRecv m].foldl (Rearm.call i o) (s.setConn i c) =
      s.setConn i c.bindRecv.1.doTCPRecv := by
  simp [Rearm.call]

/-- The I/O is requested again, and then the entry is handled as if it were complete. -/
theorem calls_requested_connected (hc : c.isConnected = true) (s : Rearm) (i m : Nat)
    (o : Outcome) :
    [.bindRecv i, .doTCPRecv m].foldl (Rearm.call i o) (s.setConn i c) =
      s.setConn i { c with recvs := c.recvs + 2 } := by
  have hc' : ({ c with recvs := c.recvs + 1 } : Receives).isConnected = true := hc
  rw [calls_requested, Receives.bindRecv_connected hc]
  show s.setConn i ({ c with recvs := c.recvs + 1 } : Receives).doTCPRecv = _
  rw [Receives.doTCPRecv_connected hc']

section TCPRecv

variable {calls : List Call} (h : Settled s) (hlast : s.last = some (some i))
  (hop : e.op = .TCPRECV) (hkey : e.key = some i) (hcalls : Handled o.bound e.toEntry calls)
include h hlast hop hkey hcalls

/-- An entry for the receive outstanding on the socket: dropped it leaves none, and requested
again two. -/
theorem current_spec (hp : (s.conn i).pending false ≠ 0)
    (hs : s' = calls.foldl (Rearm.call i o) (s.setConn i ((s.conn i).dequeue false))) :
    (RecvOk (s.conn i) e false → Settled s') ∧ (¬ RecvOk (s.conn i) e false → ¬ Rearmed s') := by
  obtain ⟨hconn, hassoc, hzero⟩ := (h.conn i).dequeue hp
  have hconn₁ : ((s.conn i).dequeue false).isConnected = true := hconn
  have hrest : ∀ c, ∀ j ≠ i, ((s.setConn i c).conn j).Settled := by
    intro c j hj
    show (Function.update s.conn i c j).Settled
    rw [Function.update_of_ne hj]
    exact h.conn j
  subst hs
  obtain ⟨hz, rfl⟩ | ⟨hn, hz, rfl⟩ | ⟨hn, hd, rfl⟩ | ⟨hn, hr, rfl⟩ | ⟨hno, hne, b, rfl⟩ :=
    handled_tcpRecv hop hkey hcalls
  · refine ⟨fun _ => ?_, fun hok => absurd (.inl hz) hok⟩
    exact settled_setConn (s := s.setConn i _) h.udp (hrest _) (Receives.settled_doDisconnect _)
  · refine ⟨fun _ => ?_, fun hok => absurd (.inr ?_) hok⟩
    · rw [List.foldl_cons, call_doTCPRecv]
      exact h.setConn (Receives.settled_doTCPRecv (fun _ => hassoc) hzero)
    · show ¬ (dropped e.internal ∨ retryable e.internal)
      rw [hz]
      decide
  · refine ⟨fun hok => (hok.resolve_left hn (.inl hd)).elim, fun _ => ?_⟩
    exact not_rearmed hlast (.inr ⟨hconn, hzero⟩)
  · refine ⟨fun hok => (hok.resolve_left hn (.inr hr)).elim, fun _ => ?_⟩
    rw [calls_requested_connected hconn₁]
    exact not_rearmed hlast (.inl (Nat.le_add_left ..))
  · refine ⟨fun _ => ?_, fun hok => absurd (.inr hno) hok⟩
    exact settled_disconnected (s := s.setConn i _) h.udp (hrest _) b o.bound e.iosize

/-- An entry for a receive on an earlier socket: handled as one of a connected socket it leaves
two receives or more. -/
theorem late_spec (hs : s' = calls.foldl (Rearm.call i o) (s.setConn i ((s.conn i).dequeue true))) :
    (RecvOk (s.conn i) e true → Settled s') ∧ (¬ RecvOk (s.conn i) e true → ¬ Rearmed s') := by
  have h₁ : Settled (s.setConn i ((s.conn i).dequeue true)) :=
    h.setConn (h.conn i).dequeue_late
  have hkeep : ((s.conn i).dequeue true).isConnected = (s.conn i).isConnected := rfl
  subst hs
  by_cases hconn : (s.conn i).isConnected = true
  · -- one receive is outstanding, and one more is posted for this entry
    have hone : ((s.conn i).dequeue true).recvs = 1 := ((h.conn i).dequeue_late.rearmed).2 hconn
    obtain ⟨hz, rfl⟩ | ⟨hn, hz, rfl⟩ | ⟨hn, hd, rfl⟩ | ⟨hn, hr, rfl⟩ | ⟨hno, hne, b, rfl⟩ :=
      handled_tcpRecv hop hkey hcalls
    · exact ⟨fun _ => h₁.calls fun c hc => List.mem_singleton.mp hc ▸ id,
        fun hok => absurd (.inl hz) hok⟩
    · have hbad : ¬ RecvOk (s.conn i) e true := by
        intro hok
        rcases hok.resolve_left hn with hok | hok
        · rw [hconn] at hok
          cases hok
        · exact hok (.inl hz)
      refine ⟨fun hok => absurd hok hbad, fun _ => ?_⟩
      rw [List.foldl_cons, call_doTCPRecv, Receives.doTCPRecv_connected (hkeep.trans hconn)]
      exact not_rearmed hlast (.inl (Nat.succ_le_succ (Nat.le_of_eq hone.symm)))
    · refine ⟨fun _ => h₁, fun hok => absurd (.inr (.inr ?_)) hok⟩
      intro hor
      rcases hor with hz | hr
      · rw [hz] at hd
        exact absurd hd (by decide)
      · exact hr.not_dropped hd
    · have hbad : ¬ RecvOk (s.conn i) e true := by
        intro hok
        rcases hok.resolve_left hn with hok | hok
        · rw [hconn] at hok
          cases hok
        · exact hok (.inr hr)
      refine ⟨fun hok => absurd hok hbad, fun _ => ?_⟩
      rw [calls_requested_connected (hkeep.trans hconn)]
      exact not_rearmed hlast (.inl (Nat.le_add_left ..))
    · refine ⟨fun _ => settled_disconnected h₁.udp (fun j _ => h₁.conn j) b o.bound e.iosize,
        fun hok => absurd (.inr (.inr ?_)) hok⟩
      exact fun hor => hor.elim hne fun hr => hno (.inr hr)
  · -- no receive is outstanding, and none is posted
    have hfalse : (s.conn i).isConnected = false := by simpa using hconn
    refine ⟨fun _ => ?_, fun hok => absurd (.inr (.inl hfalse)) hok⟩
    have hnone : ((s.conn i).dequeue true).recvs = 0 := by
      have := (h.conn i).dequeue_late
      unfold Receives.Settled at this
      rwa [if_neg (by rw [hkeep]; exact hconn)] at this
    have htcp : ((s.conn i).dequeue true).doTCPRecv.Settled :=
      Receives.settled_doTCPRecv (fun hc => absurd (hkeep ▸ hc) hconn) hnone
    obtain ⟨-, rfl⟩ | ⟨-, -, rfl⟩ | ⟨-, -, rfl⟩ | ⟨-, -, rfl⟩ | ⟨-, -, b, rfl⟩ :=
      handled_tcpRecv hop hkey hcalls
    · exact h₁.calls fun c hc => List.mem_singleton.mp hc ▸ id
    · rw [List.foldl_cons, call_doTCPRecv]
      exact h.setConn htcp
    · exact h₁
    · rw [calls_requested]
      apply h.setConn
      rwa [Receives.bindRecv, if_pos (hkeep.trans hfalse)]
    · exact settled_disconnected h₁.udp (fun j _ => h₁.conn j) b o.bound e.iosize

end TCPRecv

/-- A late receive that says ACCEPT is handled without posting a receive for it. -/
theorem settled_reused (h : Settled s) (i n internal : Nat) (o : Outcome) :
    Settled ((dispatchReused o.bound i n internal).foldl (Rearm.call i o) s) := by
  unfold dispatchReused
  split
  · exact h.setConn ((h.conn i).doAccept _)
  · split
    · exact h
    · split
      · exact settled_disconnected h.udp (fun j _ => h.conn j) true o.bound n
      · exact settled_disconnected h.udp (fun j _ => h.conn j) false o.bound n

/-- One entry: what holds of all receives holds again if the entry meets the condition, and
otherwise the receives it is for are not as they should be. -/
theorem step_spec {l : RearmAct} (h : Settled s) (hs : step s l = some s') :
    (EntryOk s l → Settled s') ∧ (¬ EntryOk s l → ¬ Rearmed s') := by
  have hlast : ∀ x, Settled { s with last := x } := fun x => ⟨h.udp, h.conn⟩
  cases l with
  | entry e user late o =>
    obtain ⟨s₁, calls, hd, hcalls, hs⟩ := step_entry hs
    rcases dequeue_cases hd with ⟨hop, -, rfl⟩ | ⟨i, hop, hkey, hp, rfl⟩ | ⟨hop₁, hop₂, rfl⟩
    · have hok : EntryOk s (.entry e user late o) ↔ e.internal = 0 := by
        simp only [EntryOk, hop]
      rw [hok]
      exact udpRecv_spec h hop hcalls hs
    · have hok : EntryOk s (.entry e user late o) ↔ RecvOk (s.conn i) e late := by
        simp only [EntryOk, hop, hkey]
      rw [hok]
      rw [hkey, Option.getD_some] at hs
      cases late with
      | false =>
        exact current_spec (s := { s with last := some (some i) }) (hlast _) rfl hop hkey hcalls
          hp hs
      | true =>
        exact late_spec (s := { s with last := some (some i) }) (hlast _) rfl hop hkey hcalls hs
    · have hok : EntryOk s (.entry e user late o) := by
        simp only [EntryOk]
        split
        · next hop => exact absurd hop hop₂
        · next hop hkey => exact absurd hop hop₁
        · trivial
      subst hs
      exact ⟨fun _ => (hlast none).calls (not_postsRecv hop₁ hop₂ hcalls), fun hn => absurd hok hn⟩
  | reused i n internal o =>
    simp only [step] at hs
    split at hs
    · cases hs
    · obtain rfl := Option.some.inj hs
      refine ⟨fun _ => ?_, fun hn => absurd trivial hn⟩
      apply settled_reused
      exact (hlast none).setConn (h.conn i).dequeue_late

/-- Whatever entries are handled, the receives an entry was for are as they should be after it
if and only if every entry meets its condition. -/
theorem rearmed_iff {n : Nat} {s : Rearm} {ls : List RearmAct}
    (hr : run step (init n) ls = some s) :
    Always step Rearmed (init n) ls ↔ Meets step EntryOk (init n) ls :=
  always_iff_meets (fun _ h => h.rearmed) (fun _ _ _ h hok hs => (step_spec h hs).1 hok)
    (fun _ _ _ h hok hs => (step_spec h hs).2 hok) (settled_init n) hr

/-! ## Two runs -/

def answered : Outcome := { bound := true, associates := true, found := some 2 }

/-- Client 2 connects, sends, and is disconnected with a receive outstanding, whose entry is
handled after it has connected again; a datagram arrives in between. -/
theorem rearmed_iff_reconnected :
    Always step Rearmed (init 4)
      [.entry ⟨acceptEntry, by decide⟩ 2 false answered,
        .entry ⟨tcpRecvEntry 2 12 0, by decide⟩ 0 false answered,
        .entry ⟨sendEntry 2 0 0, by decide⟩ 0 false answered,
        .entry ⟨acceptEntry, by decide⟩ 2 false answered,
        .entry ⟨udpRecvEntry 40 0, by decide⟩ 0 false answered,
        .entry ⟨tcpRecvEntry 2 0 errorConnectionAborted, by decide⟩ 0 true answered] :=
  (rearmed_iff rfl).mpr (by decide +kernel)

/-- A datagram that did not fit the buffer: its entry is dropped, and no `WSARecvFrom` is
outstanding any more. -/
theorem udp_recv_dropped :
    ¬ ∀ (n : Nat) (ls : List RearmAct) (s : Rearm), run step (init n) ls = some s →
      Always step Rearmed (init n) ls := by
  intro h
  have h' :=
    (h 4 [.entry ⟨udpRecvEntry 1024 errorMoreData, by decide⟩ 0 false answered] _ rfl).2 _ rfl
  exact absurd (show (0 : Nat) = 1 from h') (by decide)

end Rearm

end RacingGameServer
