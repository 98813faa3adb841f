import SocketServerLib.Lib.LabelledRun
import SocketServerLib.EpollServer.ClientContext

/-
  The epoll interest of one connection: `EpollServer::SendMsg` on the job thread and
  `EpollServer::ResumeSend` on the read thread.

  Each takes up to three steps: the call of the context under `m_SendLock`, the assignment
  to `events` of the shared `ep_ev`, and `EPOLL_CTL_MOD`, which hands over what `ep_ev` says
  then. `events` and `armed` say whether `EPOLLOUT` is in `ep_ev` and in the epoll set.
  `ResumeSend` may be called at any time.

  What is proved:
    1. `step_scheduled` — what every step keeps: what is buffered is armed, or `SendMsg` is
       about to arm it.
    2. `buffered_is_armed` — between the calls, what is buffered is armed, if the first
       `send()` of a packet does not fail, `ResumeSend` does not take `EPOLLOUT` away after
       `SendMsg` has buffered more, and `SendMsg`'s `EPOLL_CTL_MOD` succeeds.
    3. `buffered_unarmed` — `ResumeSend` empties the buffer, `SendMsg` fills it and arms,
       and `ResumeSend` disarms.

  What is assumed: one job thread and one read thread, which see the steps in one order; a packet
  has at most `PACKET_SIZE` bytes, and `send()` takes no more than it is offered.
-/
namespace EpollServer
open RacingGameServer LabelledRun ClientContext

/-- Where a thread stands: outside its call, before the assignment to `events`, or before
`EPOLL_CTL_MOD`. -/
inductive CallPoint where
  | idle | assign | modify
  deriving DecidableEq

structure Interest where
  context : ClientContext
  events : Bool
  armed : Bool
  job : CallPoint
  read : CallPoint

/-- `sendMsg` and `resumeSend` are the calls of the context, with the answer of `send()`; `job`
and `read` are the next steps behind them, with the answer of `EPOLL_CTL_MOD`. -/
inductive InterestAct where
  | sendMsg (data : Bytes) (nRet : Option Nat)
  | job (bMod_ : Bool)
  | resumeSend (nRet : Option Nat)
  | read (bMod_ : Bool)

namespace Interest

/-- `CreateContext` registers the socket with `EPOLLIN`. -/
def init (fd_ : Nat) : Interest :=
  { context := .init fd_, events := false, armed := false, job := .idle, read := .idle }

def step (s : Interest) : InterestAct → Option Interest
  | .sendMsg data nRet =>
    match s.job with
    | .idle =>
      if data.length ≤ packetSize ∧ Offered (s.context.stored data) nRet then
        some
          { s with
            context := (s.context.sendMsg (some data) nRet).1
            job :=
              if (s.context.sendMsg (some data) nRet).2.1 = .PARTIAL_SUCCESS then .assign
              else .idle }
      else none
    | _ => none
  | .job bMod_ =>
    match s.job with
    | .idle => none
    | .assign => some { s with events := true, job := .modify }
    | .modify =>
      some { s with armed := if bMod_ = true then s.events else s.armed, job := .idle }
  | .resumeSend nRet =>
    match s.read with
    | .idle =>
      if Offered s.context.sendBuffer nRet then
        some
          { s with
            context := (s.context.resumeSend nRet).1
            read := if (s.context.resumeSend nRet).2.1 = .WHOLE_SUCCESS then .assign else .idle }
      else none
    | _ => none
  | .read bMod_ =>
    match s.read with
    | .idle => none
    | .assign => some { s with events := false, read := .modify }
    | .modify =>
      some { s with armed := if bMod_ = true then s.events else s.armed, read := .idle }

/-- Between the calls, what is buffered is armed. -/
def Armed (s : Interest) : Prop :=
  s.job = .idle → s.read = .idle → s.context.sendBuffer.size ≠ 0 → s.armed = true

/-- `send()` takes a packet that finds the buffer empty at least in part; `ResumeSend` takes
`EPOLLOUT` out of `events` while the buffer is empty or `SendMsg` is to put it back; and
`EPOLL_CTL_MOD` of `SendMsg` succeeds, or finds `EPOLLOUT` armed. -/
def Ordered (s : Interest) : InterestAct → Prop
  | .sendMsg data nRet => s.context.sendBuffer.size = 0 → data ≠ [] → nRet ≠ none
  | .job bMod_ => s.job = .modify → s.context.sendBuffer.size ≠ 0 → bMod_ = true ∨ s.armed = true
  | .read _ => s.read = .assign → s.context.sendBuffer.size ≠ 0 → s.job = .assign
  | .resumeSend _ => True

instance (s : Interest) : DecidablePred s.Ordered := fun a => by
  unfold Ordered
  split <;> infer_instance

instance (s : Interest) : Decidable s.Armed := by
  unfold Armed; infer_instance

/-! ## What every step keeps -/

/-- What is buffered is armed, and `ResumeSend` is not to disarm it; or `SendMsg` is to arm it. -/
def Scheduled (s : Interest) : Prop :=
  match s.job with
  | .assign => True
  | .modify => s.events = true
  | .idle => s.armed = true ∧ (s.read = .modify → s.events = true)

structure Keeps (s : Interest) : Prop where
  live : s.context.Live
  scheduled : s.context.sendBuffer.size ≠ 0 → Scheduled s

variable {s s' : Interest} {data : Bytes} {nRet : Option Nat} {bMod_ : Bool}

theorem keeps_init (fd_ : Nat) : Keeps (init fd_) where
  live := live_init fd_
  scheduled h := absurd rfl h

/-- An empty packet is stored as nothing. -/
theorem stored_nil_size (h : s.context.Live) :
    (s.context.stored []).size = s.context.sendBuffer.size := by
  have hf : s.context.Fits [] := h.wf.size_le
  obtain ⟨hbytes, hwf⟩ := stored_fits h hf
  rw [← hwf.bytes_length, hbytes, List.append_nil, h.wf.bytes_length]

theorem Keeps.sendMsg (h : Keeps s) (hj : s.job = .idle) (hdata : data.length ≤ packetSize)
    (ha : s.Ordered (.sendMsg data nRet)) :
    Keeps
      { s with
        context := (s.context.sendMsg (some data) nRet).1
        job :=
          if (s.context.sendMsg (some data) nRet).2.1 = .PARTIAL_SUCCESS then .assign
          else .idle } := by
  refine ⟨h.live.sendMsg hdata nRet, ?_⟩
  have hscheduled := h.scheduled
  rw [sendMsg_eq h.live]
  intro hne
  cases hstatus : (sendBuffered (s.context.stored data) nRet).2.1 with
  | PARTIAL_SUCCESS => exact trivial
  | WHOLE_SUCCESS => exact absurd (sendBuffered_whole hstatus) hne
  | FAILED =>
    -- the packet is stored all the same: the buffer was not empty before
    obtain rfl := (sendBuffered_failed _ _).mp hstatus
    have hbefore : s.context.sendBuffer.size ≠ 0 := by
      intro hzero
      by_cases hnil : data = []
      · apply hne
        subst hnil
        exact (stored_nil_size h.live).trans hzero
      · exact ha hzero hnil rfl
    have hs := hscheduled hbefore
    simp only [Scheduled, hj] at hs
    exact hs

theorem Keeps.job (h : Keeps s) (ha : s.Ordered (.job bMod_))
    (hs : step s (.job bMod_) = some s') : Keeps s' := by
  simp only [step] at hs
  split at hs
  · cases hs
  · obtain rfl := Option.some.inj hs
    exact ⟨h.live, fun _ => rfl⟩
  · next hj =>
    obtain rfl := Option.some.inj hs
    refine ⟨h.live, fun hne => ?_⟩
    have hevents := h.scheduled hne
    simp only [Scheduled, hj] at hevents
    show (if bMod_ = true then s.events else s.armed) = true ∧ (s.read = .modify → s.events = true)
    refine ⟨?_, fun _ => hevents⟩
    split
    · exact hevents
    · next hfails => exact (ha hj hne).resolve_left hfails

theorem Keeps.resumeSend (h : Keeps s) (hread : s.read = .idle)
    (hn : Offered s.context.sendBuffer nRet) :
    Keeps
      { s with
        context := (s.context.resumeSend nRet).1
        read := if (s.context.resumeSend nRet).2.1 = .WHOLE_SUCCESS then .assign else .idle } := by
  refine ⟨h.live.resumeSend nRet, fun hne => ?_⟩
  have hne : (sendBuffered s.context.sendBuffer nRet).1.size ≠ 0 := hne
  have hbefore : s.context.sendBuffer.size ≠ 0 := by
    have := sendBuffered_size_le h.live.wf hn
    omega
  have hstatus : (s.context.resumeSend nRet).2.1 ≠ .WHOLE_SUCCESS :=
    fun hwhole => hne (sendBuffered_whole hwhole)
  rw [if_neg hstatus, ← hread]
  exact h.scheduled hbefore

theorem Keeps.read (h : Keeps s) (ha : s.Ordered (.read bMod_))
    (hs : step s (.read bMod_) = some s') : Keeps s' := by
  simp only [step] at hs
  split at hs
  · cases hs
  · next hread =>
    obtain rfl := Option.some.inj hs
    refine ⟨h.live, fun hne => ?_⟩
    have hj : s.job = .assign := ha hread hne
    rw [Scheduled, hj]
    trivial
  · next hread =>
    obtain rfl := Option.some.inj hs
    refine ⟨h.live, fun hne => ?_⟩
    have hsch := h.scheduled hne
    cases hj : s.job with
    | assign => exact trivial
    | modify =>
      simp only [Scheduled, hj] at hsch ⊢
      exact hsch
    | idle =>
      simp only [Scheduled, hj] at hsch ⊢
      obtain ⟨harmed, hevents⟩ := hsch
      refine ⟨?_, nofun⟩
      split
      · exact hevents hread
      · exact harmed

theorem step_scheduled {a : InterestAct} (h : Keeps s) (ha : s.Ordered a)
    (hs : step s a = some s') : Keeps s' := by
  cases a with
  | sendMsg data nRet =>
    simp only [step] at hs
    split at hs
    · next hj =>
      split at hs
      · next hn =>
        obtain rfl := Option.some.inj hs
        exact h.sendMsg hj hn.1 ha
      · cases hs
    · cases hs
  | job bMod_ => exact h.job ha hs
  | resumeSend nRet =>
    simp only [step] at hs
    split at hs
    · next hread =>
      split at hs
      · next hn =>
        obtain rfl := Option.some.inj hs
        exact h.resumeSend hread hn
      · cases hs
    · cases hs
  | read bMod_ => exact h.read ha hs

/-! ## Every run -/

/-- Whenever neither call is in progress, what is buffered is armed. -/
theorem buffered_is_armed {fd_ : Nat} {acts : List InterestAct}
    (ha : Meets step Ordered (init fd_) acts) (hr : run step (init fd_) acts = some s) :
    Armed s := by
  have h : Keeps s :=
    run_invariant (fun _ _ _ h ha hs => step_scheduled h ha hs) (keeps_init fd_) ha hr
  intro hj _ hne
  have hscheduled := h.scheduled hne
  simp only [Scheduled, hj] at hscheduled
  exact hscheduled.1

/-- A packet as long as an echo response. -/
def echoPacket : Bytes := List.replicate 96 65

/-- `SendMsg` buffers part of a packet and arms, `ResumeSend` sends the rest, and `SendMsg`
buffers part of the next one. -/
def sendTwice : List InterestAct :=
  [.sendMsg echoPacket (some 50), .job true, .job true, .resumeSend (some 46),
    .sendMsg echoPacket (some 95)]

/-- `ResumeSend` takes `EPOLLOUT` out of `events` before `SendMsg` puts it there. -/
theorem buffered_is_armed_twice : ∃ s : Interest,
    run step (init 4) (sendTwice ++ [.read true, .job true, .read true, .job true]) = some s ∧
      Armed s ∧ s.job = .idle ∧ s.read = .idle ∧ s.context.sendBuffer.size = 1 := by
  have hrun : ((run step (init 4) (sendTwice ++ [.read true, .job true, .read true,
      .job true])).map fun s => (s.job, s.read, s.context.sendBuffer.size)) =
      some (.idle, .idle, 1) := by decide +kernel
  obtain ⟨s, hs, hend⟩ := Option.map_eq_some_iff.mp hrun
  obtain ⟨hj, hend⟩ := Prod.mk.inj hend
  obtain ⟨hread, hsize⟩ := Prod.mk.inj hend
  exact ⟨s, hs, buffered_is_armed (by decide +kernel) hs, hj, hread, hsize⟩

/-- `SendMsg` is through before it does: nothing sends the rest of the packet then. -/
theorem buffered_unarmed :
    ¬ ∀ (fd_ : Nat) (acts : List InterestAct) (s : Interest),
      run step (init fd_) acts = some s → Armed s := by
  intro h
  have hrun : ((run step (init 4) (sendTwice ++ [.job true, .job true, .read true,
      .read true])).map fun s => decide (Armed s)) = some false := by decide +kernel
  obtain ⟨s, hs, hnot⟩ := Option.map_eq_some_iff.mp hrun
  exact of_decide_eq_false hnot (h 4 _ s hs)

end Interest

end EpollServer
