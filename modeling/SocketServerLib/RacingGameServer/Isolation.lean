import SocketServerLib.RacingGameServer.HandleReq
import SocketServerLib.Lib.LabelledRun
import Mathlib.Data.Fintype.Basic

/-
  Sessions that follow each other on one `Connection` object, with everything that can
  put bytes on its socket: workers in `HandleReq(i)`, jobs of UDP datagrams, completions
  of sends and retried sends. `SendMsgTCP` is two steps, the look at `m_IsConnected` and
  the part under `m_TCPSpinLock`, so that a disconnect and an accept can fall between.

  `handed` logs every gather list given to `WSASend` with the session whose socket it
  went to, and `stored` the sessions the bytes in the receive buffer come from; both are
  ghosts, as the `origin` of jobs and packets is.

  What is proved:
    1. `sessions_isolated` — if the slot is drained at every `ResetConnection` and nothing
       of an earlier session arrives afterwards, a session's socket is handed packets of
       responses to that session's requests only.
    2. `response_leaks` — `DoDisconnect` does not drain the slot: a response suspended
       before the post goes to the next session.

  What is assumed: what `Sessions` assumes, and what `SendMsgTCP` does under its lock,
  `TCPSendCompleted` and `ReSendTCP` are one step each.
-/
namespace RacingGameServer

open LabelledRun

/-! ## Rings with packets of one kind -/

namespace SendBuffer

/-- The ring holds only packets with `P`. -/
def HoldsOnly (P : PacketData → Prop) (b : SendBuffer) : Prop := ∃ q, b.Holds q ∧ ∀ p ∈ q, P p

theorem forall_gather {P : PacketData → Prop} {q : List PacketData} (h : ∀ p ∈ q, P p)
    {bufcnt_ : Nat} : ∀ w ∈ gather bufcnt_ 0 0 q, P w.buf :=
  fun _ hw => h _ ((gather_front bufcnt_ 0 0 q).subset (List.mem_map_of_mem hw))

end SendBuffer

namespace Connection
open SendBuffer

variable {c : Connection} {P : PacketData → Prop}

/-- What a send operation leaves in the ring and what it hands to `WSASend`. -/
def SendsOnly (P : PacketData → Prop) (r : Connection) (posted : Option (List WSABUF)) : Prop :=
  r.sendBuffer.HoldsOnly P ∧ ∀ ws ∈ posted, ∀ w ∈ ws, P w.buf

theorem sendMsgTCPLocked_only (h : c.sendBuffer.HoldsOnly P) {pData_ : Option PacketData}
    (hp : ∀ p ∈ pData_, P p) (post : Bool) :
    SendsOnly P (c.sendMsgTCPLocked pData_ post).1 (c.sendMsgTCPLocked pData_ post).2.2 := by
  cases pData_ with
  | none =>
    simp only [sendMsgTCPLocked, push_null]
    exact ⟨h, fun ws hws => (by cases hws)⟩
  | some p =>
  obtain ⟨q, hq, hP⟩ := h
  have hP' : ∀ x ∈ q ++ [p], P x := by
    intro x hx
    rcases List.mem_append.mp hx with hx | hx
    · exact hP x hx
    · exact List.mem_singleton.mp hx ▸ hp p rfl
  rcases sendMsgTCPLocked_spec hq p post with ⟨-, he⟩ | ⟨ring, hring, -, -, ⟨-, he⟩ | ⟨-, he⟩⟩ <;>
    rw [he]
  · exact ⟨⟨q, hq, hP⟩, fun ws hws => (by cases hws)⟩
  · exact ⟨⟨_, hring, hP'⟩, fun ws hws => (by cases hws)⟩
  · refine ⟨⟨_, hring, hP'⟩, fun ws hws => ?_⟩
    obtain rfl := Option.some.inj hws
    exact forall_gather hP'

theorem tcpSendCompleted_only (h : c.sendBuffer.HoldsOnly P) (hpop : ∀ p n, P p → P (p.pop n))
    (n : Nat) (post : Bool) :
    SendsOnly P (c.tcpSendCompleted n post).1 (c.tcpSendCompleted n post).2.2 := by
  obtain ⟨q, hq, hP⟩ := h
  have hP' : ∀ p ∈ (dropBytes n q).1, P p := dropBytes_forall (fun p m hp _ => hpop p m hp) n hP
  obtain ⟨ring, hring, ⟨-, he⟩ | ⟨-, he⟩⟩ := tcpSendCompleted_spec hq n post <;> rw [he]
  · exact ⟨⟨_, hring, hP'⟩, fun ws hws => (by cases hws)⟩
  · refine ⟨⟨_, hring, hP'⟩, fun ws hws => ?_⟩
    obtain rfl := Option.some.inj hws
    exact forall_gather hP'

theorem reSendTCP_only (h : c.sendBuffer.HoldsOnly P) (post : Bool) :
    SendsOnly P (c.reSendTCP post).1 (c.reSendTCP post).2.2 := by
  obtain ⟨q, hq, hP⟩ := h
  refine ⟨⟨q, hq, hP⟩, fun ws hws => ?_⟩
  obtain rfl := Option.some.inj hws
  rw [getWSABUF_spec hq (by decide : maxWsabufs ≠ 0)]
  exact forall_gather hP

end Connection

/-! ## The system -/

/-- The call has a view of the receive buffer. -/
def Pc.HasView : Pc → Prop
  | .createJob _ _ => True
  | _ => False

instance : DecidablePred Pc.HasView
  | .createJob _ _ => .isTrue trivial
  | .tryLock | .getJobProcess | .switch _ | .popReqMsg _ => .isFalse id
  | .setJobProcess _ _ | .unlock _ | .ret _ => .isFalse id

/-- Where the task of a UDP datagram stands: before `Execute`, before the look at
`m_IsConnected`, before `m_TCPSpinLock`. -/
inductive UdpPc where
  | execute
  | check
  | locked
  deriving DecidableEq, Repr

/-- `passed w`: worker `w`, in `SendMsgTCP`, has found the connection connected. -/
structure Isolation (W U : Type*) where
  slot : Slot
  pcs : W → Option Pc
  passed : W → Bool
  udp : U → Option (UdpPc × Job)
  handed : List (Nat × List WSABUF)
  stored : List Nat

/-- `post` is the outcome of `WSASend`, if it is called. `recv o chunk`: bytes received in
session `o` are stored. `udpReceive u j`: `CreateUDPJob` has made `j` of a datagram for the
slot; `j.origin` is the session its token was given to. -/
inductive IsolationAct (W U : Type*) where
  | call (w : W)
  | move (w : W) (a : Answers) (post : Bool)
  | recv (o : Nat) (chunk : Bytes)
  | udpReceive (u : U) (j : Job)
  | udpMove (u : U) (a : Answers) (post : Bool)
  | tcpSendCompleted (ioSize_ : Nat) (post : Bool)
  | reSendTCP (post : Bool)
  | close
  | reset
  | accept

namespace Isolation

variable {W U : Type*} [DecidableEq W] [DecidableEq U] (i : Nat)

def init : Isolation W U :=
  { slot := .new, pcs := fun _ => none, passed := fun _ => false, udp := fun _ => none
    handed := [], stored := [] }

/-- A send operation has changed the connection, and perhaps called `WSASend`. -/
def sent (s : Isolation W U) (c : Connection) (posted : Option (List WSABUF)) : Isolation W U :=
  { s with
    slot := { s.slot with conn := c }
    handed := s.handed ++ (posted.map fun ws => (s.slot.session, ws)).toList }

/-- Worker `w` takes the step of `HandleReq` at `pc`. -/
def advance (s : Isolation W U) (w : W) (a : Answers) (pc : Pc) : Isolation W U :=
  { s with
    slot := (s.slot.step i a pc).1
    pcs := Function.update s.pcs w (some (s.slot.step i a pc).2)
    passed := Function.update s.passed w false }

/-- The packet a job's `SendRes` gives to `SendMsgTCP`. -/
def tcpPacket (j : Job) : Option PacketData := if j.kind.protocol = .TCP then j.packet else none

def step (s : Isolation W U) : IsolationAct W U → Option (Isolation W U)
  | .call w =>
    match s.pcs w with
    | none | some (.ret _) => some { s with pcs := Function.update s.pcs w (some .tryLock) }
    | _ => none
  | .move w a post =>
    match s.pcs w with
    | none => none
    | some (.switch .SEND) =>
      match s.slot.job.bind tcpPacket with
      -- no packet, or one for `SendMsgUDP`
      | none => some (s.advance i w a (.switch .SEND))
      | some p =>
        if s.passed w then
          let r := s.slot.conn.sendMsgTCPLocked (some p) post
          some ((s.sent r.1 r.2.2).advance i w { a with sent := r.2.1 } (.switch .SEND))
        else if s.slot.conn.isConnected then
          some { s with passed := Function.update s.passed w true }
        else some (s.advance i w { a with sent := false } (.switch .SEND))
    | some pc => some (s.advance i w a pc)
  | .recv o chunk =>
    if 0 < chunk.length ∧ chunk.length ≤ maxSockbuf then
      some { s with
        slot := (s.slot.recv chunk).1
        stored := if (s.slot.recv chunk).2 then o :: s.stored else s.stored }
    else none
  | .udpReceive u j =>
    if (s.udp u).isNone ∧ j.packet = none then
      some { s with udp := Function.update s.udp u (some (.execute, j)) }
    else none
  | .udpMove u a post =>
    match s.udp u with
    | none => none
    | some (.execute, j) =>
      match j.execute a with
      | (_, false, _) => some { s with udp := Function.update s.udp u none }
      | (j', true, _) => some { s with udp := Function.update s.udp u (some (.check, j')) }
    | some (.check, j) =>
      if (tcpPacket j).isSome ∧ s.slot.conn.isConnected then
        some { s with udp := Function.update s.udp u (some (.locked, j)) }
      else some { s with udp := Function.update s.udp u none }
    | some (.locked, j) =>
      let r := s.slot.conn.sendMsgTCPLocked (tcpPacket j) post
      some { s.sent r.1 r.2.2 with udp := Function.update s.udp u none }
  | .tcpSendCompleted n post =>
    let r := s.slot.conn.tcpSendCompleted n post
    some (s.sent r.1 r.2.2)
  | .reSendTCP post =>
    let r := s.slot.conn.reSendTCP post
    some (s.sent r.1 r.2.2)
  | .close =>
    some { s with slot := { s.slot with conn := { s.slot.conn with isConnected := false } } }
  | .reset => some { s with slot := s.slot.disconnect, stored := [] }
  | .accept => some { s with slot := s.slot.accept }

/-- Each gather list holds packets that answer requests of the session it is sent on, and the
bytes requests are made of were received in the current one. -/
structure Isolated (s : Isolation W U) : Prop where
  handed : ∀ h ∈ s.handed, ∀ b ∈ h.2, b.buf.origin = h.1
  stored : ∀ o ∈ s.stored, o = s.slot.session

/-- The slot holds nothing: no packet in the ring, no job, no call with a view of the receive
buffer, no task of a datagram. -/
structure Drained (s : Isolation W U) : Prop where
  ring : s.slot.conn.sendBuffer.isEmpty = true
  job : s.slot.job = none
  view : ∀ w, ∀ pc ∈ s.pcs w, ¬ pc.HasView
  udp : ∀ u, s.udp u = none

/-- The packet would be pushed and its post would fail. -/
def PushFails (c : Connection) (post : Bool) : Prop :=
  c.sendBuffer.isFull = false ∧ c.sendLen = 0 ∧ post = false

/-- The condition on a step. After a failed post the packet is in the ring and in the job at
once, so that what is said of packets held in one place does not cover it. -/
def Separate (s : Isolation W U) : IsolationAct W U → Prop
  | .move w _ post => s.passed w = true → ¬ PushFails s.slot.conn post
  | .udpMove u _ post => ∀ x ∈ s.udp u, x.1 = .locked → ¬ PushFails s.slot.conn post
  | .recv o _ => o = s.slot.session
  | .udpReceive _ j => j.origin = s.slot.session
  | .reset => Drained s
  | _ => True

omit [DecidableEq W] [DecidableEq U] in
instance [Fintype W] [Fintype U] (s : Isolation W U) : Decidable (Drained s) :=
  decidable_of_iff (s.slot.conn.sendBuffer.isEmpty = true ∧ s.slot.job = none ∧
      (∀ w, ∀ pc ∈ s.pcs w, ¬ pc.HasView) ∧ ∀ u, s.udp u = none)
    ⟨fun h => ⟨h.1, h.2.1, h.2.2.1, h.2.2.2⟩, fun h => ⟨h.ring, h.job, h.view, h.udp⟩⟩

instance (c : Connection) (post : Bool) : Decidable (PushFails c post) :=
  inferInstanceAs (Decidable (_ ∧ _ ∧ _))

omit [DecidableEq W] [DecidableEq U] in
instance [Fintype W] [Fintype U] (s : Isolation W U) : DecidablePred (Separate s) := fun l => by
  cases l <;> simp only [Separate] <;> infer_instance

variable {i} {s s' : Isolation W U} {w : W} {u : U} {a : Answers} {n : Nat} {pc : Pc}

/-! ## What a step of a call does to the origins -/

/-- The job, and its packet if it has one, belong to session `n`. -/
def JobOf (n : Nat) (j : Job) : Prop := j.origin = n ∧ ∀ p ∈ j.packet, p.origin = n

theorem jobOf_tcpPacket {j : Job} (h : JobOf n j) : ∀ p ∈ tcpPacket j, p.origin = n := by
  intro p hp
  unfold tcpPacket at hp
  split at hp
  · exact h.2 p hp
  · cases hp

/-- `Execute` gives the job a packet of its own session. -/
theorem jobOf_execute {j : Job} (h : JobOf n j) (a : Answers) : JobOf n (j.execute a).1 := by
  rcases j.execute_cases a with ⟨p, freed, he, ho⟩ | ⟨freed, he⟩ <;> rw [he]
  · refine ⟨h.1, fun p' hp' => ?_⟩
    obtain rfl := Option.some.inj hp'
    exact ho.trans h.1
  · exact h

/-- A call sends through the answer `sent` only, and takes its views in the current session. -/
theorem slot_step_frame (i : Nat) (a : Answers) (s : Slot) (pc : Pc) :
    (s.step i a pc).1.conn.sendBuffer = s.conn.sendBuffer ∧
      (s.step i a pc).1.session = s.session ∧
        ∀ len o, (s.step i a pc).2 = .createJob len o → o = s.session := by
  cases pc with
  | tryLock => simp only [Slot.step]; split <;> exact ⟨rfl, rfl, fun _ _ h => (by cases h)⟩
  | createJob len o =>
    rcases Slot.createReq_cases (i := i) a len o s with ⟨-, h⟩ | ⟨j, -, h⟩ <;>
      simp only [Slot.step, h] <;> exact ⟨trivial, trivial, fun _ _ h => (by cases h)⟩
  | switch e =>
    cases e with
    | PARSING =>
      simp only [Slot.step]
      split
      · exact ⟨rfl, rfl, fun _ _ h => (by cases h)⟩
      · exact ⟨rfl, rfl, fun _ _ h => (by cases h; rfl)⟩
    | EXECUTE =>
      rcases Slot.executeReq_cases a s with ⟨j, p, freed, -, -, -, h⟩ | h <;>
        simp only [Slot.step, h] <;> exact ⟨trivial, trivial, fun _ _ h => (by cases h)⟩
    | SEND =>
      rcases Slot.sendRes_cases a.sent s with ⟨j, p, -, -, -, h⟩ | ⟨-, h⟩ <;>
        simp only [Slot.step, h] <;> exact ⟨trivial, trivial, fun _ _ h => (by cases h)⟩
  | _ => exact ⟨rfl, rfl, fun _ _ h => (by cases h)⟩

theorem slot_step_jobOf {s : Slot} (h : ∀ j ∈ s.job, JobOf n j)
    (hview : ∀ len o, pc = .createJob len o → o = n) : ∀ j ∈ (s.step i a pc).1.job, JobOf n j := by
  cases pc with
  | tryLock => simp only [Slot.step]; split <;> exact h
  | createJob len o =>
    rcases Slot.createReq_cases (i := i) a len o s with ⟨-, he⟩ | ⟨j, hj, he⟩ <;>
      simp only [Slot.step, he]
    · exact h
    · intro j' hj'
      obtain rfl := Option.some.inj hj'
      obtain ⟨hp, -, ho⟩ := createJob_fresh hj
      exact ⟨ho.trans (hview len o rfl), fun p hp' => by rw [hp] at hp'; cases hp'⟩
  | switch e =>
    cases e with
    | PARSING => simp only [Slot.step]; split <;> exact h
    | EXECUTE =>
      rcases Slot.executeReq_cases a s with ⟨j, p, freed, hj, hrun, -, he⟩ | he <;>
        simp only [Slot.step, he]
      · intro j' hj'
        obtain rfl := Option.some.inj hj'
        have := jobOf_execute (h j hj) a
        rwa [hrun] at this
      · exact h
    | SEND =>
      rcases Slot.sendRes_cases a.sent s with ⟨j, p, -, -, -, he⟩ | ⟨-, he⟩ <;>
        simp only [Slot.step, he]
      · intro j' hj'
        cases hj'
      · exact h
  | _ => exact h

/-! ## What every step keeps -/

/-- Everything on the slot belongs to the current session. -/
structure Own (s : Isolation W U) : Prop where
  isolated : Isolated s
  ring : s.slot.conn.sendBuffer.HoldsOnly (·.origin = s.slot.session)
  job : ∀ j ∈ s.slot.job, JobOf s.slot.session j
  view : ∀ w len o, s.pcs w = some (.createJob len o) → o = s.slot.session
  udp : ∀ u, ∀ x ∈ s.udp u, JobOf s.slot.session x.2

omit [DecidableEq W] [DecidableEq U] in
theorem own_init : Own (init : Isolation W U) where
  isolated := ⟨fun _ h => (by cases h), fun _ h => (by cases h)⟩
  ring := ⟨[], SendBuffer.holds_allocated (by decide), fun _ h => (by cases h)⟩
  job := fun _ h => (by cases h)
  view := fun _ _ _ h => (by cases h)
  udp := fun _ _ h => (by cases h)

omit [DecidableEq W] [DecidableEq U] in
theorem Own.sent (h : Own s) {c : Connection} {posted : Option (List WSABUF)}
    (hs : Connection.SendsOnly (·.origin = s.slot.session) c posted) : Own (s.sent c posted) := by
  refine ⟨⟨fun x hx => ?_, h.isolated.stored⟩, hs.1, h.job, h.view, h.udp⟩
  rcases List.mem_append.mp hx with hx | hx
  · exact h.isolated.handed x hx
  · cases posted with
    | none => cases hx
    | some ws =>
      obtain rfl := List.mem_singleton.mp hx
      exact hs.2 ws rfl

omit [DecidableEq U] in
theorem Own.advance (h : Own s) (hw : s.pcs w = some pc) (a : Answers) :
    Own (s.advance i w a pc) := by
  obtain ⟨hring, hsession, hview⟩ := slot_step_frame i a s.slot pc
  have hjob := slot_step_jobOf (i := i) (a := a) h.job (fun len o hpc => h.view w len o (hpc ▸ hw))
  refine ⟨⟨h.isolated.handed, ?_⟩, ?_, ?_, fun w' len o hw' => ?_, ?_⟩
  · simp only [Isolation.advance, hsession]
    exact h.isolated.stored
  · simp only [Isolation.advance, hsession, hring]
    exact h.ring
  · simp only [Isolation.advance, hsession]
    exact hjob
  · simp only [Isolation.advance, hsession, Function.update_apply] at hw' ⊢
    split at hw'
    · exact hview len o (Option.some.inj hw')
    · exact h.view w' len o hw'
  · simp only [Isolation.advance, hsession]
    exact h.udp

omit [DecidableEq W] in
theorem Own.setUdp (h : Own s) {x : Option (UdpPc × Job)}
    (hx : ∀ y ∈ x, JobOf s.slot.session y.2) :
    Own { s with udp := Function.update s.udp u x } := by
  refine ⟨⟨h.isolated.handed, h.isolated.stored⟩, h.ring, h.job, h.view, fun u' y hy => ?_⟩
  simp only [Function.update_apply] at hy
  split at hy
  · exact hx y hy
  · exact h.udp u' y hy

omit [DecidableEq W] [DecidableEq U] in
/-- A drained slot has nothing that could belong to another session. -/
theorem Own.reset (h : Own s) (hd : Drained s) :
    Own { s with slot := s.slot.disconnect, stored := [] } := by
  refine ⟨⟨h.isolated.handed, fun _ h => (by cases h)⟩, ?_, fun j hj => ?_, fun w len o hw => ?_,
    fun u x hx => ?_⟩
  · obtain ⟨q, hq, -⟩ := h.ring
    obtain rfl := hq.isEmpty_iff.mp hd.ring
    exact ⟨[], hq, fun _ h => (by cases h)⟩
  · exact absurd (hd.job ▸ hj) (by simp)
  · exact absurd trivial (hd.view w _ hw)
  · exact absurd (hd.udp u ▸ hx) (by simp)

theorem own_move {post : Bool} (h : Own s) (hs : step i s (.move w a post) = some s') :
    Own s' := by
  simp only [step] at hs
  split at hs
  · cases hs
  · next hw =>
    split at hs
    · exact Option.some.inj hs ▸ h.advance hw a
    · next p hp =>
      obtain ⟨j, hj, hp⟩ := Option.bind_eq_some_iff.mp hp
      -- under the lock, at the look at `m_IsConnected`, or refused by it
      split at hs
      · have horigin : ∀ p' ∈ some p, p'.origin = s.slot.session :=
          fun p' hp' => jobOf_tcpPacket (h.job j hj) p' (hp.trans hp')
        have hsent := h.sent (Connection.sendMsgTCPLocked_only h.ring horigin post)
        exact Option.some.inj hs ▸ hsent.advance hw _
      · split at hs
        · exact Option.some.inj hs ▸
            ⟨⟨h.isolated.handed, h.isolated.stored⟩, h.ring, h.job, h.view, h.udp⟩
        · exact Option.some.inj hs ▸ h.advance hw _
  · next pc _ hw => exact Option.some.inj hs ▸ h.advance hw a

theorem own_udpMove {post : Bool} (h : Own s) (hs : step i s (.udpMove u a post) = some s') :
    Own s' := by
  have hnone : ∀ y ∈ (none : Option (UdpPc × Job)), JobOf s.slot.session y.2 :=
    fun _ hy => (by cases hy)
  simp only [step] at hs
  split at hs
  · cases hs
  · next j hu =>
    have hj := jobOf_execute (h.udp u _ hu) a
    split at hs
    · exact Option.some.inj hs ▸ h.setUdp hnone
    · next j' freed he =>
      rw [he] at hj
      exact Option.some.inj hs ▸ h.setUdp fun y hy => by cases hy; exact hj
  · next j hu =>
    split at hs
    · exact Option.some.inj hs ▸ h.setUdp fun y hy => by cases hy; exact h.udp u (.check, j) hu
    · exact Option.some.inj hs ▸ h.setUdp hnone
  · next j hu =>
    have hsent := h.sent
      (Connection.sendMsgTCPLocked_only h.ring (jobOf_tcpPacket (h.udp u _ hu)) post)
    exact Option.some.inj hs ▸ hsent.setUdp (fun _ hy => by cases hy)

theorem step_own (h : Own s) {l : IsolationAct W U} (hl : Separate s l)
    (hs : step i s l = some s') : Own s' := by
  have hpop : ∀ (p : PacketData) (k : Nat), p.origin = s.slot.session →
      (p.pop k).origin = s.slot.session := fun p k hp => (p.origin_pop k).trans hp
  cases l with
  | call w =>
    have hview : ∀ w' len o, Function.update s.pcs w (some .tryLock) w' = some (.createJob len o) →
        o = s.slot.session := by
      intro w' len o hw'
      rw [Function.update_apply] at hw'
      split at hw'
      · cases hw'
      · exact h.view w' len o hw'
    simp only [step] at hs
    split at hs
    · exact Option.some.inj hs ▸
        ⟨⟨h.isolated.handed, h.isolated.stored⟩, h.ring, h.job, hview, h.udp⟩
    · exact Option.some.inj hs ▸
        ⟨⟨h.isolated.handed, h.isolated.stored⟩, h.ring, h.job, hview, h.udp⟩
    · cases hs
  | move w a post => exact own_move h hs
  | recv o chunk =>
    simp only [step] at hs
    split at hs
    · have hstored : ∀ x ∈ (if (s.slot.recv chunk).2 then o :: s.stored else s.stored),
          x = s.slot.session := by
        intro x hx
        split at hx
        · rcases List.mem_cons.mp hx with rfl | hx
          · exact hl
          · exact h.isolated.stored x hx
        · exact h.isolated.stored x hx
      exact Option.some.inj hs ▸
        ⟨⟨h.isolated.handed, hstored⟩, h.ring, h.job, h.view, h.udp⟩
    · cases hs
  | udpReceive u j =>
    simp only [step] at hs
    split at hs
    · next hu =>
      refine Option.some.inj hs ▸ h.setUdp fun y hy => ?_
      cases hy
      exact ⟨hl, fun p hp => by rw [hu.2] at hp; cases hp⟩
    · cases hs
  | udpMove u a post => exact own_udpMove h hs
  | tcpSendCompleted n post =>
    cases hs
    exact h.sent (Connection.tcpSendCompleted_only h.ring hpop n post)
  | reSendTCP post =>
    cases hs
    exact h.sent (Connection.reSendTCP_only h.ring post)
  | close =>
    cases hs
    exact ⟨⟨h.isolated.handed, h.isolated.stored⟩, h.ring, h.job, h.view, h.udp⟩
  | reset =>
    cases hs
    exact h.reset hl
  | accept =>
    cases hs
    exact ⟨⟨h.isolated.handed, h.isolated.stored⟩, h.ring, h.job, h.view, h.udp⟩

/-- Over any number of sessions: as long as the slot is drained at each reset and nothing of an
earlier session comes in behind it, each session's socket is handed its own responses only. -/
theorem sessions_isolated {ls : List (IsolationAct W U)} (hC : Meets (step i) Separate init ls)
    (hr : run (step i) init ls = some s) : Isolated s :=
  (run_invariant (fun _ _ _ h hl hs => step_own h hl hs) own_init hC hr).isolated

/-! ## Two sessions -/

def moves (n : Nat) : List (IsolationAct Unit Unit) :=
  List.replicate n (.move () (.pooled true) true)

/-- The first session says nothing; the second asks for a token and is answered. -/
def secondAnswered : List (IsolationAct Unit Unit) :=
  [.accept, .close, .reset, .accept, .recv 1 tokenFrame, .call ()] ++ moves 8

theorem sessions_isolated_second : ∃ s : Isolation Unit Unit,
    run (step 0) init secondAnswered = some s ∧ s.handed.length = 1 ∧ Isolated s := by
  have hrun : (run (step 0) init secondAnswered).map
      (fun s : Isolation Unit Unit => s.handed.length) = some 1 := by decide +kernel
  obtain ⟨s, hs, hhanded⟩ := Option.map_eq_some_iff.mp hrun
  exact ⟨s, hs, hhanded, sessions_isolated (by decide +kernel) hs⟩

/-- The first session asks for a token and is closed after `Execute`, so that `SendMsgTCP`
refuses the response; `HandleReq` runs again in the second session, and is about to push. -/
def firstLeft : List (IsolationAct Unit Unit) :=
  [.accept, .recv 0 tokenFrame, .call ()] ++ moves 6 ++ [.close] ++ moves 3 ++
    [.reset, .accept, .call ()] ++ moves 3

/-- A packet of one segment, pushed with nothing in the ring and nothing in flight, is handed to
`WSASend` at once. -/
theorem step_hands (a : Answers) (post : Bool) {p : PacketData}
    (hw : s.pcs w = some (.switch .SEND)) (hp : s.slot.job.bind tcpPacket = some p)
    (hpassed : s.passed w = true)
    (hq : s.slot.conn.sendBuffer.Holds []) (hroom : s.slot.conn.sendBuffer.isFull = false)
    (hlen : s.slot.conn.sendLen = 0) (hsize : p.size ≤ maxTcpSegmentSize) :
    ∃ s' ws, step i s (.move w a post) = some s' ∧ s'.stored = s.stored ∧
      (s.slot.session, ws) ∈ s'.handed ∧ ∃ b ∈ ws, b.buf = p := by
  obtain ⟨hfull, -⟩ | ⟨ring, -, -, -, ⟨hne, -⟩ | ⟨-, he⟩⟩ :=
    Connection.sendMsgTCPLocked_spec hq p post
  · cases hroom.symm.trans hfull
  · exact absurd hlen hne
  · rw [List.nil_append, SendBuffer.gather_cons hsize (by decide)] at he
    have hstep : step i s (.move w a post) =
        some ((s.sent (s.slot.conn.sendMsgTCPLocked (some p) post).1
          (s.slot.conn.sendMsgTCPLocked (some p) post).2.2).advance i w
            { a with sent := (s.slot.conn.sendMsgTCPLocked (some p) post).2.1 }
              (.switch .SEND)) := by
      simp only [step, hw, hp, hpassed, if_true]
    rw [he] at hstep
    refine ⟨_, { len := p.size, buf := p } :: SendBuffer.gather maxWsabufs 1 p.size [],
      hstep, rfl, ?_, { len := p.size, buf := p }, List.mem_cons_self, rfl⟩
    exact List.mem_append_right _ List.mem_cons_self

/-- The second session has received nothing, and its socket is handed the first one's response. -/
theorem response_leaks : ∃ s : Isolation Unit Unit,
    run (step 0) init (firstLeft ++ moves 1) = some s ∧ s.stored = [] ∧ ¬ Isolated s := by
  have hrun : (run (step 0) init firstLeft).map (fun s : Isolation Unit Unit =>
      (s.pcs (), s.passed (), (s.slot.job.bind tcpPacket).map fun p => (p.origin, p.size))) =
      some (some (.switch .SEND), true, some (0, 20)) := by decide +kernel
  have hconn : (run (step 0) init firstLeft).map
      (fun s : Isolation Unit Unit =>
        (s.slot.conn.sendBuffer, s.slot.conn.sendWsaBuf, s.slot.session, s.stored)) =
      some (.allocated maxSendSlideBufferSize, [], 1, []) := rfl
  obtain ⟨s, hs, hend⟩ := Option.map_eq_some_iff.mp hrun
  rw [hs, Option.map_some] at hconn
  simp only [Option.some.injEq, Prod.mk.injEq] at hconn
  simp only [Prod.mk.injEq, Option.map_eq_some_iff] at hend
  obtain ⟨hring, hwsa, hsession, hstored⟩ := hconn
  obtain ⟨hpc, hpassed, p, hp, horigin, hsize⟩ := hend
  obtain ⟨s', ws, hs', hsame, hmem, b, hb, rfl⟩ := step_hands (i := 0) (.pooled true) true
    hpc hp hpassed (hring ▸ SendBuffer.holds_allocated (by decide))
    (by rw [hring]; decide) (by rw [Connection.sendLen, hwsa]) (by rw [hsize]; decide)
  refine ⟨s', ?_, hsame.trans hstored, fun h => ?_⟩
  · rw [run_append, hs, Option.bind_some, moves, List.replicate_one, run_cons, hs']
    rfl
  · have := h.handed _ hmem b hb
    rw [horigin, hsession] at this
    cases this

end Isolation

end RacingGameServer
