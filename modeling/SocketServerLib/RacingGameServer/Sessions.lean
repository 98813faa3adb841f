import SocketServerLib.RacingGameServer.HandleReq
import SocketServerLib.Lib.LabelledRun
import Mathlib.Data.List.Forall2

/-
  One client slot over its sessions: any number of workers in `HandleReq(i)`,
  receives, disconnects and accepts, interleaved.

  What is proved:
    1. `phase_guarded` — in every reachable state, whatever `CreateJob`, `Execute`
       and `sendFunc` answer, the stored phase matches the pending job while the
       lock is free, and the holder's program point matches it otherwise.
    2. `responses_in_order` — a session that begins on a slot holding nothing of an
       earlier one answers its frames in order, each once.
    3. `responses_out_of_order` — the condition is needed: `DoDisconnect` leaves the
       stored phase and `m_Jobs[i]` behind, and the next session begins by sending
       the response of the session before.

  What is assumed: the accesses to the slot are seen in one order, every one a step, and so is the
  store of a receive.
-/
namespace RacingGameServer

open TryLock LabelledRun
open Connection (reqFraming)

/-- A slot and the workers in a call of `HandleReq(i)` on it. -/
structure Sessions (W : Type*) where
  slot : Slot
  pcs : W → Option Pc

/-- `call w`: worker `w` calls `HandleReq(i)`. `move w a`: its next step. `recv chunk`: a
completed receive is stored. `disconnect`, `accept`: the session ends, another begins. -/
inductive SessionAct (W : Type*) where
  | call (w : W)
  | move (w : W) (a : Answers)
  | recv (chunk : Bytes)
  | disconnect
  | accept

namespace Sessions

variable {W : Type*} [DecidableEq W] (i : Nat)

def init : Sessions W := { slot := .new, pcs := fun _ => none }

def step (s : Sessions W) : SessionAct W → Option (Sessions W)
  | .call w =>
    -- what the pool does with a returned code is left open: any worker may call again
    match s.pcs w with
    | none | some (.ret _) => some { s with pcs := Function.update s.pcs w (some .tryLock) }
    | _ => none
  | .move w a =>
    match s.pcs w with
    | none => none
    | some pc =>
      some { slot := (s.slot.step i a pc).1
             pcs := Function.update s.pcs w (some (s.slot.step i a pc).2) }
  | .recv chunk =>
    if 0 < chunk.length ∧ chunk.length ≤ maxSockbuf then
      some { s with slot := (s.slot.recv chunk).1 }
    else none
  | .disconnect => some { s with slot := s.slot.disconnect }
  | .accept => some { s with slot := s.slot.accept }

variable {i} {s s' : Sessions W} {w : W} {a : Answers}

theorem step_call (h : step i s (.call w) = some s') :
    (∀ pc, s.pcs w = some pc → ¬ pc.Critical) ∧
      s' = { s with pcs := Function.update s.pcs w (some .tryLock) } := by
  simp only [step] at h
  split at h
  · next hw => exact ⟨fun pc hpc => (by rw [hw] at hpc; cases hpc), (Option.some.inj h).symm⟩
  · next c hw =>
    exact ⟨fun pc hpc => (by rw [hw] at hpc; cases hpc; exact id), (Option.some.inj h).symm⟩
  · cases h

theorem step_move (h : step i s (.move w a) = some s') :
    ∃ pc, s.pcs w = some pc ∧
      s' = { slot := (s.slot.step i a pc).1
             pcs := Function.update s.pcs w (some (s.slot.step i a pc).2) } := by
  simp only [step] at h
  split at h
  · cases h
  · next pc hw => exact ⟨pc, hw, (Option.some.inj h).symm⟩

theorem step_recv {chunk : Bytes} (h : step i s (.recv chunk) = some s') :
    0 < chunk.length ∧ chunk.length ≤ maxSockbuf ∧
      s' = { s with slot := (s.slot.recv chunk).1 } := by
  simp only [step] at h
  split at h
  · next hlen => exact ⟨hlen.1, hlen.2, (Option.some.inj h).symm⟩
  · cases h

/-! ## The stored phase matches the pending job -/

/-- The phase a call would resume in, against the pending job. -/
def Matches (job : Option Job) : JobProcess → Prop
  | .PARSING => job = none
  | .EXECUTE => ∃ j, job = some j
  | .SEND => ∃ j p, job = some j ∧ j.packet = some p

/-- While the lock is free. -/
def PhaseFree (s : Slot) : Prop := s.conn.RecvWf ∧ Matches s.job s.conn.jobProcess

/-- At the holder's program point. -/
def PhaseAt (s : Slot) (pc : Pc) : Prop :=
  s.conn.RecvWf ∧
    match pc with
    | .getJobProcess | .unlock _ => Matches s.job s.conn.jobProcess
    | .switch e | .setJobProcess e _ => Matches s.job e
    | .createJob _ _ => s.job = none
    | .popReqMsg _ => ∃ j, s.job = some j
    | .tryLock | .ret _ => True

theorem phaseAt_step {s : Slot} {pc : Pc} (hc : pc.Critical) (hu : ∀ c, pc ≠ .unlock c)
    (h : PhaseAt s pc) : PhaseAt (s.step i a pc).1 (s.step i a pc).2 := by
  obtain ⟨hwf, h⟩ := h
  cases pc with
  | tryLock => exact absurd hc id
  | ret c => exact absurd hc id
  | unlock c => exact absurd rfl (hu c)
  | getJobProcess => exact ⟨hwf, h⟩
  | setJobProcess e c => exact ⟨⟨hwf.buffer, hwf.capacity_eq⟩, h⟩
  | popReqMsg len => exact ⟨hwf.pop len, h⟩
  | createJob len o =>
    rcases Slot.createReq_cases (i := i) a len o s with ⟨-, he⟩ | ⟨j, -, he⟩ <;>
      simp only [Slot.step, he]
    · exact ⟨hwf, h⟩
    · exact ⟨hwf, j, rfl⟩
  | switch e =>
    cases e with
    | PARSING =>
      simp only [Slot.step]
      split <;> exact ⟨hwf, h⟩
    | EXECUTE =>
      rcases Slot.executeReq_cases a s with ⟨j, p, freed, -, -, -, he⟩ | he <;>
        simp only [Slot.step, he]
      · exact ⟨hwf, _, p, rfl, rfl⟩
      · exact ⟨hwf, h⟩
    | SEND =>
      rcases Slot.sendRes_cases a.sent s with ⟨j, p, -, -, -, he⟩ | ⟨-, he⟩ <;>
        simp only [Slot.step, he]
      · exact ⟨hwf, rfl⟩
      · exact ⟨hwf, h⟩

/-- What every reachable state satisfies. -/
def Phases (s : Sessions W) : Prop :=
  Guarded Slot.flag Pc.Critical PhaseFree PhaseAt s.slot s.pcs

omit [DecidableEq W] in
theorem phases_init : Phases (init : Sessions W) :=
  .init rfl ⟨Connection.recvWf_new, rfl⟩ fun _ => rfl

theorem phases_step (h : Phases s) {l : SessionAct W} (hs : step i s l = some s') :
    Phases s' := by
  cases l with
  | call w =>
    obtain ⟨hw, rfl⟩ := step_call hs
    exact h.idle hw fun pc hpc => by cases hpc; exact id
  | move w a =>
    obtain ⟨pc, hw, rfl⟩ := step_move hs
    apply Slot.guarded_step h hw (fun _ _ h0 => h0) phaseAt_step
    intro c he hR
    subst he
    exact hR
  | recv chunk =>
    obtain ⟨-, hlen, rfl⟩ := step_recv hs
    refine h.outside rfl (fun h0 => ⟨h0.1.store_wf hlen, h0.2⟩) ?_
    intro pc _ hR
    exact ⟨hR.1.store_wf hlen, hR.2⟩
  | disconnect =>
    cases hs
    exact h.outside rfl (fun h0 => ⟨h0.1.reset, h0.2⟩) fun pc _ hR => ⟨hR.1.reset, hR.2⟩
  | accept =>
    cases hs
    exact h.outside rfl (fun h0 => ⟨⟨h0.1.buffer, h0.1.capacity_eq⟩, h0.2⟩)
      fun pc _ hR => ⟨⟨hR.1.buffer, hR.1.capacity_eq⟩, hR.2⟩

theorem phase_guarded {ls : List (SessionAct W)} (hr : run (step i) init ls = some s) : Phases s :=
  run_stable (fun _ _ _ h hs => phases_step h hs) phases_init hr

/-! ## A session from its accept on -/

/-- `p` answers the frame `f`: it is what a successful `Execute` builds for the job
`CreateJob` makes of it. -/
def IsResponse (i : Nat) (f : Bytes) (p : PacketData) : Prop :=
  ∃ a o j b freed, createJob a i o f = some j ∧
    j.execute b = ({ j with packet := some p }, true, freed)

/-- The session so far, read off its history: the packets `sendFunc` took answer the first
complete frames of the stream, one each and in order, the successful `Execute` calls too, and
at most one of these is still to be sent. -/
structure Ordered (i : Nat) (h : History) : Prop where
  sent : List.Forall₂ (IsResponse i) ((reqFraming.frames h.received).take h.sent.length) h.sent
  executed :
    List.Forall₂ (IsResponse i) ((reqFraming.frames h.received).take h.executed.length) h.executed
  prefix_executed : h.sent <+: h.executed
  pending : h.executed.length ≤ h.sent.length + 1

/-- What a call that resumes in this phase finds. -/
def Stage (i : Nat) (s : Slot) : JobProcess → Prop
  | .PARSING => ∃ fs, reqFraming.Splits s.hist.received fs s.conn.recvBuffer.bytes ∧
      List.Forall₂ (IsResponse i) fs s.hist.executed ∧ s.hist.sent = s.hist.executed ∧ s.job = none
  | .EXECUTE => ∃ fs f a o j,
      reqFraming.Splits s.hist.received (fs ++ [f]) s.conn.recvBuffer.bytes ∧
      List.Forall₂ (IsResponse i) fs s.hist.executed ∧ s.hist.sent = s.hist.executed ∧
      s.job = some j ∧ createJob a i o f = some j
  | .SEND => ∃ fs j p, reqFraming.Splits s.hist.received fs s.conn.recvBuffer.bytes ∧
      List.Forall₂ (IsResponse i) fs s.hist.executed ∧ s.hist.executed = s.hist.sent ++ [p] ∧
      s.job = some j ∧ j.packet = some p

/-- While the lock is free. -/
def SessionFree (i : Nat) (s : Slot) : Prop := s.conn.RecvWf ∧ Stage i s s.conn.jobProcess

/-- At the holder's program point. -/
def SessionAt (i : Nat) (s : Slot) (pc : Pc) : Prop :=
  s.conn.RecvWf ∧
    match pc with
    | .getJobProcess | .unlock _ => Stage i s s.conn.jobProcess
    | .switch e | .setJobProcess e _ => Stage i s e
    | .createJob len _ => Stage i s .PARSING ∧ reqFraming.next s.conn.recvBuffer.bytes = some len
    | .popReqMsg len => reqFraming.next s.conn.recvBuffer.bytes = some len ∧
        Stage i (s.popReqMsg len) .EXECUTE
    | .tryLock | .ret _ => True

/-- The steps of a session: it does not end, its bytes are stored, and `CreateJob` makes a job of
each frame. -/
def SessionStep (i : Nat) (s : Sessions W) : SessionAct W → Prop
  | .call _ => True
  | .move w a => ∀ pc ∈ s.pcs w, s.slot.Accepts i a pc
  | .recv chunk => (s.slot.recv chunk).2 = true
  | .disconnect => False
  | .accept => False

instance (s : Sessions W) : DecidablePred (SessionStep i s) := fun l => by
  cases l <;> simp only [SessionStep] <;> infer_instance

/-- The slot holds nothing of an earlier session: no job, no bytes, and no call is about to
hand a view of the buffer to `CreateJob`. -/
structure Clean (s : Sessions W) : Prop where
  job : s.slot.job = none
  bytes : s.slot.conn.recvBuffer.bytes = []
  view : ∀ w len o, s.pcs w ≠ some (.createJob len o)

theorem stage_recv {s : Slot} (hwf : s.conn.RecvWf) {chunk : Bytes}
    (hlen : chunk.length ≤ maxSockbuf) (hok : (s.recv chunk).2 = true) {e : JobProcess}
    (h : Stage i s e) : Stage i (s.recv chunk).1 e := by
  have hb := (Slot.recv_ok hwf hlen hok).2
  cases e with
  | PARSING =>
    obtain ⟨fs, hs, hex, hsent, hj⟩ := h
    exact ⟨fs, by rw [hb]; exact hs.append chunk, hex, hsent, hj⟩
  | EXECUTE =>
    obtain ⟨fs, f, b, o, j, hs, hex, hsent, hj⟩ := h
    exact ⟨fs, f, b, o, j, by rw [hb]; exact hs.append chunk, hex, hsent, hj⟩
  | SEND =>
    obtain ⟨fs, j, p, hs, hex, hsent, hj⟩ := h
    exact ⟨fs, j, p, by rw [hb]; exact hs.append chunk, hex, hsent, hj⟩

theorem sessionAt_recv {s : Slot} {chunk : Bytes} (hlen : chunk.length ≤ maxSockbuf)
    (hok : (s.recv chunk).2 = true) {pc : Pc} (h : SessionAt i s pc) :
    SessionAt i (s.recv chunk).1 pc := by
  obtain ⟨hwf, h⟩ := h
  obtain ⟨hwf', hb⟩ := Slot.recv_ok hwf hlen hok
  refine ⟨hwf', ?_⟩
  have hnext : ∀ {n}, reqFraming.next s.conn.recvBuffer.bytes = some n →
      reqFraming.next (s.recv chunk).1.conn.recvBuffer.bytes = some n := by
    intro n hn
    rw [hb]
    exact reqFraming.stable chunk hn
  cases pc with
  | tryLock => trivial
  | ret c => trivial
  | getJobProcess => exact stage_recv hwf hlen hok h
  | unlock c => exact stage_recv hwf hlen hok h
  | switch e => exact stage_recv hwf hlen hok h
  | setJobProcess e c => exact stage_recv hwf hlen hok h
  | createJob len o => exact ⟨stage_recv hwf hlen hok h.1, hnext h.2⟩
  | popReqMsg len =>
    -- storing and popping commute, since the frame to pop is complete
    obtain ⟨hn, fs, f, b, o, j, hs, hrest⟩ := h
    refine ⟨hnext hn, fs, f, b, o, j, ?_, hrest⟩
    have hpop : ((s.recv chunk).1.popReqMsg len).conn.recvBuffer.bytes =
        (s.popReqMsg len).conn.recvBuffer.bytes ++ chunk := by
      have hpop := hwf'.bytes_pop (hnext hn)
      rw [hb, PrefixFraming.drop_append_of_next hn] at hpop
      exact hpop.trans (congrArg (· ++ chunk) (hwf.bytes_pop hn).symm)
    rw [hpop]
    exact hs.append chunk

theorem sessionAt_step {s : Slot} {pc : Pc} (hc : pc.Critical) (hu : ∀ c, pc ≠ .unlock c)
    (hjob : s.Accepts i a pc)
    (h : SessionAt i s pc) : SessionAt i (s.step i a pc).1 (s.step i a pc).2 := by
  obtain ⟨hwf, h⟩ := h
  cases pc with
  | tryLock => exact absurd hc id
  | ret c => exact absurd hc id
  | unlock c => exact absurd rfl (hu c)
  | getJobProcess => exact ⟨hwf, h⟩
  | setJobProcess e c => exact ⟨⟨hwf.buffer, hwf.capacity_eq⟩, h⟩
  | popReqMsg len => exact ⟨hwf.pop len, h.2⟩
  | createJob len o =>
    -- the frame is counted as cut from here on; the pop that follows makes it so
    obtain ⟨⟨fs, hs, hex, hsent, -⟩, hn⟩ := h
    rcases Slot.createReq_cases (i := i) a len o s with ⟨hnone, -⟩ | ⟨j, hj, he⟩
    · rw [Slot.Accepts, hnone] at hjob
      cases hjob
    · simp only [Slot.step, he]
      refine ⟨hwf, hn, fs, s.conn.recvBuffer.bytes.take len, a, o, j, ?_, hex, hsent, rfl, ?_⟩
      · have hpop := hwf.bytes_pop hn
        simp only [Slot.popReqMsg] at hpop ⊢
        rw [show (s.conn.popRecvBuffer len).recvBuffer.bytes = _ from hpop]
        exact hs.snoc hn
      · rwa [← Connection.view_eq hwf hn]
  | switch e =>
    cases e with
    | PARSING =>
      obtain ⟨fs, hs, hex, hsent, hj⟩ := h
      simp only [Slot.step]
      split
      · exact ⟨hwf, fs, hs, hex, hsent, hj⟩
      · next len hn =>
        exact ⟨hwf, ⟨fs, hs, hex, hsent, hj⟩, (Connection.getReqMessage_eq hwf) ▸ hn⟩
    | EXECUTE =>
      obtain ⟨fs, f, b, o, j, hs, hex, hsent, hj, hcr⟩ := h
      -- a failed `Execute` leaves the stage, a successful one adds a response to be sent
      rcases Slot.executeReq_cases a s with ⟨j', p, freed, hj', hrun, -, he⟩ | he <;>
        simp only [Slot.step, he]
      · obtain rfl : j = j' := Option.some.inj (hj.symm.trans hj')
        refine ⟨hwf, fs ++ [f], _, p, hs, ?_, ?_, rfl, rfl⟩
        · exact List.rel_append hex (.cons ⟨b, o, j, a, freed, hcr, hrun⟩ .nil)
        · exact congrArg (· ++ [p]) hsent.symm
      · exact ⟨hwf, fs, f, b, o, j, hs, hex, hsent, hj, hcr⟩
    | SEND =>
      obtain ⟨fs, j, p, hs, hex, hsent, hj, hp⟩ := h
      rcases Slot.sendRes_cases a.sent s with ⟨j', p', hj', hp', -, he⟩ | ⟨-, he⟩ <;>
        simp only [Slot.step, he]
      · obtain rfl : j = j' := Option.some.inj (hj.symm.trans hj')
        obtain rfl : p = p' := Option.some.inj (hp.symm.trans hp')
        exact ⟨hwf, fs, hs, hex, hsent.symm, rfl⟩
      · exact ⟨hwf, fs, j, p, hs, hex, hsent, hj, hp⟩

/-- What every state of a session that began clean satisfies. -/
def InSession (i : Nat) (s : Sessions W) : Prop :=
  Guarded Slot.flag Pc.Critical (SessionFree i) (SessionAt i) s.slot s.pcs

theorem inSession_step (h : InSession i s) {l : SessionAct W} (hC : SessionStep i s l)
    (hs : step i s l = some s') : InSession i s' := by
  cases l with
  | call w =>
    obtain ⟨hw, rfl⟩ := step_call hs
    exact h.idle hw fun pc hpc => by cases hpc; exact id
  | move w a =>
    obtain ⟨pc, hw, rfl⟩ := step_move hs
    refine Slot.guarded_step h hw (fun _ _ h0 => h0) (fun hc hu hR => ?_) ?_
    · exact sessionAt_step hc hu (hC pc hw) hR
    · intro c he hR
      subst he
      exact hR
  | recv chunk =>
    obtain ⟨-, hlen, rfl⟩ := step_recv hs
    refine h.outside rfl (fun h0 => ?_) fun pc _ hR => sessionAt_recv hlen hC hR
    exact ⟨h0.1.store_wf hlen, stage_recv h0.1 hlen hC h0.2⟩
  | disconnect => exact absurd hC id
  | accept => exact absurd hC id

/-- Responses for the frames cut so far, the last of them perhaps not sent yet. -/
theorem ordered_of_splits {h : History} {fs : List Bytes} {r : Bytes} (gs : List Bytes)
    (ps : List PacketData)
    (hs : reqFraming.Splits h.received (fs ++ gs) r)
    (hex : List.Forall₂ (IsResponse i) fs h.executed) (hsent : h.executed = h.sent ++ ps)
    (hps : ps.length ≤ 1) : Ordered i h := by
  have hlen := hex.length_eq
  have hle : h.sent.length ≤ fs.length := by
    rw [hlen, hsent, List.length_append]
    omega
  -- later frames do not change which come first
  have hframes : ∀ k ≤ fs.length, (reqFraming.frames h.received).take k = fs.take k := by
    intro k hk
    rw [hs.frames_eq, List.append_assoc, List.take_append_of_le_length hk]
  refine ⟨?_, ?_, ⟨ps, hsent.symm⟩, ?_⟩
  · rw [hframes _ hle]
    exact List.forall₂_take_append fs h.sent ps (hsent ▸ hex)
  · rw [hframes _ (Nat.le_of_eq hlen.symm), ← hlen, List.take_length]
    exact hex
  · rw [hsent, List.length_append]
    omega

theorem Stage.ordered {s : Slot} {e : JobProcess} (h : Stage i s e) : Ordered i s.hist := by
  cases e with
  | PARSING =>
    obtain ⟨fs, hs, hex, hsent, -⟩ := h
    exact ordered_of_splits [] [] (by rwa [List.append_nil]) hex
      (by rw [hsent, List.append_nil]) (Nat.zero_le 1)
  | EXECUTE =>
    obtain ⟨fs, f, b, o, j, hs, hex, hsent, -⟩ := h
    exact ordered_of_splits [f] [] hs hex (by rw [hsent, List.append_nil]) (Nat.zero_le 1)
  | SEND =>
    obtain ⟨fs, j, p, hs, hex, hsent, -⟩ := h
    exact ordered_of_splits [] [p] (by rwa [List.append_nil]) hex hsent (Nat.le_refl 1)

theorem SessionAt.ordered {s : Slot} {pc : Pc} (hc : pc.Critical) (h : SessionAt i s pc) :
    Ordered i s.hist := by
  obtain ⟨-, h⟩ := h
  cases pc with
  | tryLock => exact absurd hc id
  | ret c => exact absurd hc id
  | createJob len o => exact h.1.ordered
  | popReqMsg len => exact Stage.ordered (s := s.popReqMsg len) h.2
  | _ => exact Stage.ordered h

omit [DecidableEq W] in
theorem InSession.ordered (h : InSession i s) : Ordered i s.slot.hist := by
  cases hf : s.slot.flag with
  | true => exact (h.free hf).2.ordered
  | false =>
    obtain ⟨w, pc, hw, hc⟩ := h.someone hf
    exact (h.held w pc hw hc).2.ordered hc

theorem stage_of_clean {s : Slot} (hj : s.job = none) (hb : s.conn.recvBuffer.bytes = [])
    (hh : s.hist = .empty) {e : JobProcess} (h : Matches s.job e) : Stage i s e := by
  cases e with
  | PARSING =>
    refine ⟨[], ?_, ?_, ?_, hj⟩
    · rw [hh, hb]; exact .nil _
    · rw [hh]; exact .nil
    · rw [hh]; rfl
  | EXECUTE =>
    obtain ⟨j, hj'⟩ := h
    rw [hj] at hj'; cases hj'
  | SEND =>
    obtain ⟨j, p, hj', -⟩ := h
    rw [hj] at hj'; cases hj'

omit [DecidableEq W] in
/-- A session accepted on a clean slot begins in its invariant. -/
theorem inSession_of_clean (h : Phases s) (hclean : Clean s) (hh : s.slot.hist = .empty) :
    InSession i s := by
  have hst : ∀ {e}, Matches s.slot.job e → Stage i s.slot e :=
    stage_of_clean hclean.job hclean.bytes hh
  refine h.imp (fun _ h0 => ⟨h0.1, hst h0.2⟩) fun w pc hw hc hR => ⟨hR.1, ?_⟩
  have hR := hR.2
  cases pc with
  | tryLock => trivial
  | ret c => trivial
  | createJob len o => exact absurd hw (hclean.view w len o)
  | popReqMsg len =>
    obtain ⟨j, hj⟩ := hR
    rw [hclean.job] at hj; cases hj
  | _ => exact hst hR

/-- Whatever happened on the slot before: a session accepted while the slot holds nothing of
an earlier one answers its frames in order, each once. -/
theorem responses_in_order {pre ls : List (SessionAct W)} {s₀ : Sessions W}
    (hpre : run (step i) init (pre ++ [.accept]) = some s₀) (hclean : Clean s₀)
    (hsession : Meets (step i) (SessionStep i) s₀ ls) (hr : run (step i) s₀ ls = some s) :
    Ordered i s.slot.hist := by
  have hh : s₀.slot.hist = .empty := by
    rw [run_append, Option.bind_eq_some_iff] at hpre
    obtain ⟨s₁, -, h₁⟩ := hpre
    cases h₁
    rfl
  have h₀ : InSession i s₀ := inSession_of_clean (phase_guarded hpre) hclean hh
  exact (run_invariant (fun _ _ _ h hC hs => inSession_step h hC hs) h₀ hsession hr).ordered

/-! ## Two sessions of one client -/

/-- One call, from `try_lock` through the phases to the return. -/
def wholeCall (moves : Nat) (sent : Bool) : List (SessionAct Unit) :=
  .call () :: List.replicate moves (.move () (.pooled sent))

/-- A request, answered at once. -/
def answeredRequest : List (SessionAct Unit) := .recv tokenFrame :: wholeCall 10 true

theorem responses_in_order_first : ∃ s : Sessions Unit,
    run (step 0) init ([.accept] ++ answeredRequest) = some s ∧ s.slot.hist.sent.length = 1 ∧
      Ordered 0 s.slot.hist := by
  have hrun : (run (step 0) init ([.accept] ++ answeredRequest)).map
      (fun s : Sessions Unit => s.slot.hist.sent.length) = some 1 := by decide +kernel
  obtain ⟨s, hs, hsent⟩ := Option.map_eq_some_iff.mp hrun
  refine ⟨s, hs, hsent, ?_⟩
  rw [run_append] at hs
  obtain ⟨s₀, hs₀, hs⟩ := Option.bind_eq_some_iff.mp hs
  obtain rfl := Option.some.inj hs₀
  have hpre : run (step 0) (init : Sessions Unit) ([] ++ [.accept]) = some _ := rfl
  refine responses_in_order hpre ⟨rfl, rfl, fun w len o h => (by cases h)⟩ ?_ hs
  decide +kernel

/-- A session asks for a token and ends after `sendFunc` has refused its response. -/
def firstSession : List (SessionAct Unit) :=
  .accept :: .recv tokenFrame :: wholeCall 9 false ++ [.disconnect]

/-- The next session, before any byte of its own has arrived. -/
def nextCall : List (SessionAct Unit) := wholeCall 3 true

/-- The next session on the slot sends a response before it has received anything. -/
theorem responses_out_of_order : ∃ s₀ s : Sessions Unit,
    run (step 0) init (firstSession ++ [.accept]) = some s₀ ∧
      Meets (step 0) (SessionStep 0) s₀ nextCall ∧ run (step 0) s₀ nextCall = some s ∧
      ¬ Ordered 0 s.slot.hist := by
  have hrun : (run (step 0) init (firstSession ++ [.accept])).bind (fun s₀ : Sessions Unit =>
      (run (step 0) s₀ nextCall).bind fun s =>
        if Meets (step 0) (SessionStep 0) s₀ nextCall then
          some (s.slot.hist.received, s.slot.hist.sent.length)
        else none) = some ([], 1) := by decide +kernel
  obtain ⟨s₀, hs₀, hrun⟩ := Option.bind_eq_some_iff.mp hrun
  obtain ⟨s, hs, hrun⟩ := Option.bind_eq_some_iff.mp hrun
  obtain ⟨hmeets, hend⟩ := Option.ite_none_right_eq_some.mp hrun
  refine ⟨s₀, s, hs₀, hmeets, hs, fun h => ?_⟩
  obtain ⟨hreceived, hsent⟩ := Prod.mk.inj (Option.some.inj hend)
  have hlen := h.sent.length_eq
  rw [hreceived, PrefixFraming.frames_of_none rfl, hsent] at hlen
  cases hlen

end Sessions

end RacingGameServer
