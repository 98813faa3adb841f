import SocketServerLib.RacingGameServer.HandleReq
import SocketServerLib.Lib.LabelledRun
import Mathlib.Data.Fintype.Basic

/-
  The thread pool and the receive path of one client: `DoTCPRecv` stores the bytes
  and then enqueues one `HandleReq(i)` call, workers run queued calls, and a call
  that returns `NOT_FINISHED` is enqueued again. Every other code is dropped, a
  failed `try_lock` (`NOT_MY_TURN`) too.

  What is proved:
    1. `no_lost_wakeup` — as long as no call finds the lock taken in the window
       between the holder's last look at the buffer and its unlock (with a frame
       stored meanwhile and no other call to come), the pool never comes to rest
       over a complete frame.
    2. `missed_frame_stays` — a frame missed so stays in the buffer until more bytes
       arrive.
    3. `lost_wakeup` — the window is real: a frame stored in it, whose own call
       fails its `try_lock` there, stays in the buffer with nobody to look at it.

  What is assumed: `Enqueue` succeeds, and the client stays connected.
-/
namespace RacingGameServer

open TryLock LabelledRun
open Connection (reqFraming)

/-- `storing` counts the `DoTCPRecv` calls between their store and their enqueue, `queued`
the `HandleReq(i)` calls in the queue. -/
structure WakeUp (W : Type*) where
  slot : Slot
  storing : Nat
  queued : Nat
  pcs : W → Option Pc

/-- `store`, `push`: the two halves of `DoTCPRecv`. `take w`: worker `w` pops a call off the
queue. `move w a`: the call's next step. `finish w`: the worker looks at what it returned. -/
inductive WakeUpAct (W : Type*) where
  | store (chunk : Bytes)
  | push
  | take (w : W)
  | move (w : W) (a : Answers)
  | finish (w : W)

namespace WakeUp

variable {W : Type*} [DecidableEq W] (i : Nat)

def init : WakeUp W := { slot := .new, storing := 0, queued := 0, pcs := fun _ => none }

def step (s : WakeUp W) : WakeUpAct W → Option (WakeUp W)
  | .store chunk =>
    if 0 < chunk.length ∧ chunk.length ≤ maxSockbuf then
      some { s with slot := (s.slot.recv chunk).1, storing := s.storing + 1 }
    else none
  | .push =>
    if 0 < s.storing then some { s with storing := s.storing - 1, queued := s.queued + 1 } else none
  | .take w =>
    if 0 < s.queued ∧ s.pcs w = none then
      some { s with queued := s.queued - 1, pcs := Function.update s.pcs w (some .tryLock) }
    else none
  | .move w a =>
    match s.pcs w with
    | none | some (.ret _) => none
    | some pc =>
      some { s with
        slot := (s.slot.step i a pc).1
        pcs := Function.update s.pcs w (some (s.slot.step i a pc).2) }
  | .finish w =>
    match s.pcs w with
    | some (.ret c) =>
      some { s with
        queued := if c = .NOT_FINISHED then s.queued + 1 else s.queued
        pcs := Function.update s.pcs w none }
    | _ => none

variable {i} {s s' : WakeUp W} {w : W} {a : Answers}

theorem step_store {chunk : Bytes} (h : step i s (.store chunk) = some s') :
    chunk.length ≤ maxSockbuf ∧
      s' = { s with slot := (s.slot.recv chunk).1, storing := s.storing + 1 } := by
  obtain ⟨hlen, h⟩ := Option.ite_none_right_eq_some.mp h
  exact ⟨hlen.2, (Option.some.inj h).symm⟩

theorem step_push (h : step i s .push = some s') :
    s' = { s with storing := s.storing - 1, queued := s.queued + 1 } := by
  obtain ⟨-, h⟩ := Option.ite_none_right_eq_some.mp h
  exact (Option.some.inj h).symm

theorem step_take (h : step i s (.take w) = some s') : s.pcs w = none ∧
    s' = { s with queued := s.queued - 1, pcs := Function.update s.pcs w (some .tryLock) } := by
  obtain ⟨⟨-, hw⟩, h⟩ := Option.ite_none_right_eq_some.mp h
  exact ⟨hw, (Option.some.inj h).symm⟩

theorem step_move (h : step i s (.move w a) = some s') :
    ∃ pc, s.pcs w = some pc ∧ (∀ c, pc ≠ .ret c) ∧
      s' = { s with
        slot := (s.slot.step i a pc).1
        pcs := Function.update s.pcs w (some (s.slot.step i a pc).2) } := by
  simp only [step] at h
  split at h
  · cases h
  · cases h
  · next pc hne hw => exact ⟨pc, hw, hne, (Option.some.inj h).symm⟩

theorem step_finish (h : step i s (.finish w) = some s') :
    ∃ c, s.pcs w = some (.ret c) ∧
      s' = { s with
        queued := if c = .NOT_FINISHED then s.queued + 1 else s.queued
        pcs := Function.update s.pcs w none } := by
  simp only [step] at h
  split at h
  · next c hw => exact ⟨c, hw, (Option.some.inj h).symm⟩
  · cases h

/-! ## Who will still look at the buffer -/

/-- A call at this point looks at the buffer again, or is enqueued again when it returns. A
call at `tryLock` looks if it gets the lock. -/
def Awake : Pc → Prop
  | .setJobProcess _ c | .unlock c | .ret c => c = .NOT_FINISHED
  | _ => True

instance : DecidablePred Awake
  | .setJobProcess _ c | .unlock c | .ret c => inferInstanceAs (Decidable (c = .NOT_FINISHED))
  | .tryLock | .getJobProcess | .switch _ | .createJob _ _ | .popReqMsg _ => .isTrue trivial

/-- A look at the buffer is to come, by a call other than those in `excl`. -/
def Pending (s : WakeUp W) (excl : W → Prop) : Prop :=
  0 < s.storing ∨ 0 < s.queued ∨ ∃ w, ¬ excl w ∧ ∃ pc ∈ s.pcs w, Awake pc

/-- No call is queued or running, and no `DoTCPRecv` is about to enqueue one. -/
def AtRest (s : WakeUp W) : Prop := s.storing = 0 ∧ s.queued = 0 ∧ ∀ w, s.pcs w = none

/-- The steps for which `CreateJob` makes a job of the frame it is given. -/
def Accepts (i : Nat) (s : WakeUp W) : WakeUpAct W → Prop
  | .move w a => ∀ pc ∈ s.pcs w, s.slot.Accepts i a pc
  | _ => True

/-- The steps whose phase, if they run one, succeeds. -/
def Succeeds (i : Nat) (s : WakeUp W) : WakeUpAct W → Prop
  | .move w a => ∀ pc ∈ s.pcs w, s.slot.Succeeds i a pc
  | _ => True

instance (s : WakeUp W) : DecidablePred (Accepts i s) := fun l => by
  cases l <;> simp only [Accepts] <;> infer_instance

instance (s : WakeUp W) : DecidablePred (Succeeds i s) := fun l => by
  cases l <;> simp only [Succeeds] <;> infer_instance

/-- A call fails its `try_lock` while a complete frame is stored, the holder has had its last
look at the buffer, and no other look is to come. -/
def Misses (s : WakeUp W) : WakeUpAct W → Prop
  | .move w _ => s.pcs w = some .tryLock ∧ reqFraming.next s.slot.conn.recvBuffer.bytes ≠ none ∧
      (∃ v, ∃ pc ∈ s.pcs v, pc.Critical ∧ ¬ Awake pc) ∧ ¬ Pending s (· = w)
  | _ => False

instance [Fintype W] (s : WakeUp W) (excl : W → Prop) [DecidablePred excl] :
    Decidable (Pending s excl) :=
  inferInstanceAs (Decidable (_ ∨ _ ∨ ∃ w, ¬ excl w ∧ ∃ pc ∈ s.pcs w, Awake pc))

instance [Fintype W] (s : WakeUp W) : DecidablePred (Misses s) := fun l => by
  cases l <;> simp only [Misses] <;> infer_instance

instance [Fintype W] (s : WakeUp W) : Decidable (AtRest s) :=
  inferInstanceAs (Decidable (_ ∧ _ ∧ ∀ w, s.pcs w = none))

/-- A complete frame never waits without a look to come. -/
structure Watched (s : WakeUp W) : Prop where
  lock : Guarded Slot.flag Pc.Critical (fun _ => True) (fun _ _ => True) s.slot s.pcs
  wf : s.slot.conn.RecvWf
  pending : reqFraming.next s.slot.conn.recvBuffer.bytes ≠ none → Pending s fun _ => False

omit [DecidableEq W] in
theorem watched_init : Watched (init : WakeUp W) where
  lock := .init rfl trivial fun _ => rfl
  wf := Connection.recvWf_new
  pending h := absurd rfl h

omit [DecidableEq W] in
theorem Pending.mono {s : WakeUp W} {excl excl' : W → Prop} (h : Pending s excl)
    (hle : ∀ w, excl' w → excl w) : Pending s excl' := by
  rcases h with h | h | ⟨w, hw, hpc⟩
  · exact .inl h
  · exact .inr (.inl h)
  · exact .inr (.inr ⟨w, fun h' => hw (hle w h'), hpc⟩)

/-- A worker moves: a look is to come from the point it moves to, or from elsewhere. -/
theorem pending_update {s : WakeUp W} {o : Option Pc} {slot : Slot} :
    Pending { s with slot := slot, pcs := Function.update s.pcs w o } (fun _ => False) ↔
      (∃ pc ∈ o, Awake pc) ∨ Pending s (· = w) := by
  constructor
  · intro hcase
    rcases hcase with h | h | ⟨v, -, pc, hv, hpc⟩
    · exact .inr (.inl h)
    · exact .inr (.inr (.inl h))
    · rcases Guarded.update_eq_some hv with ⟨-, h⟩ | ⟨hne, h⟩
      · exact .inl ⟨pc, h, hpc⟩
      · exact .inr (.inr (.inr ⟨v, hne, pc, h, hpc⟩))
  · intro hcase
    rcases hcase with ⟨pc, rfl, hpc⟩ | h | h | ⟨v, hne, pc, hv, hpc⟩
    · exact .inr (.inr ⟨w, id, pc, Function.update_self .., hpc⟩)
    · exact .inl h
    · exact .inr (.inl h)
    · exact .inr (.inr ⟨v, id, pc, (Function.update_of_ne hne _ _).trans hv, hpc⟩)

omit [DecidableEq W] in
/-- A call that is not awake is not the one whose look is to come. -/
theorem Pending.excl {s : WakeUp W} (h : Pending s fun _ => False)
    (hw : ∀ pc, s.pcs w = some pc → ¬ Awake pc) : Pending s (· = w) := by
  rcases h with h | h | ⟨v, -, pc, hv, hpc⟩
  · exact .inl h
  · exact .inr (.inl h)
  · exact .inr (.inr ⟨v, fun he => hw pc (he ▸ hv) hpc, pc, hv, hpc⟩)

/-- What a step of a call does to its being awake: it stays so, or the buffer holds no
complete frame, or `CreateJob` refused one, or its `try_lock` failed. -/
theorem awake_step {s : Slot} {pc : Pc} (hwf : s.conn.RecvWf) (hpc : Awake pc) :
    Awake (s.step i a pc).2 ∨
      reqFraming.next s.conn.recvBuffer.bytes = none ∧ (s.step i a pc).1 = s ∨
      ¬ s.Accepts i a pc ∨
      (pc = .tryLock ∧ s.flag = false ∧ (s.step i a pc).1 = s) := by
  cases pc with
  | tryLock =>
    cases hf : s.flag with
    | true => exact .inl (by simp only [Slot.step, hf, if_true]; trivial)
    | false =>
      refine .inr (.inr (.inr ⟨rfl, rfl, ?_⟩))
      simp only [Slot.step, hf, Bool.false_eq_true, if_false]
  | createJob len o =>
    rcases Slot.createReq_cases (i := i) a len o s with ⟨hnone, -⟩ | ⟨j, -, he⟩
    · exact .inr (.inr (.inl (by simp only [Slot.Accepts, hnone]; exact Bool.false_ne_true)))
    · exact .inl (by simp only [Slot.step, he]; trivial)
  | switch e =>
    cases e with
    | PARSING =>
      cases hn : s.conn.getReqMessage with
      | none =>
        refine .inr (.inl ⟨by rw [← Connection.getReqMessage_eq hwf, hn], ?_⟩)
        simp only [Slot.step, hn]
      | some len => exact .inl (by simp only [Slot.step, hn]; trivial)
    | EXECUTE =>
      left
      simp only [Slot.step]
      split
      · rfl
      · trivial
    | SEND =>
      left
      simp only [Slot.step]
      split
      · rfl
      · trivial
  | getJobProcess => exact .inl trivial
  | popReqMsg len => exact .inl trivial
  | setJobProcess e c => exact .inl hpc
  | unlock c => exact .inl hpc
  | ret c => exact .inl hpc

/-- A call that is not awake stays so and leaves the buffer alone. -/
theorem asleep_step {s : Slot} {pc : Pc} (hpc : ¬ Awake pc) :
    (s.step i a pc).1.conn.recvBuffer = s.conn.recvBuffer ∧ ¬ Awake (s.step i a pc).2 := by
  cases pc with
  | setJobProcess e c => exact ⟨rfl, hpc⟩
  | unlock c => exact ⟨rfl, hpc⟩
  | ret c => exact ⟨rfl, hpc⟩
  | _ => exact absurd trivial hpc

theorem watched_move (h : Watched s) (hacc : Accepts i s (.move w a))
    (hmiss : ¬ Misses s (.move w a)) (hs : step i s (.move w a) = some s') : Watched s' := by
  obtain ⟨pc, hw, -, rfl⟩ := step_move hs
  refine ⟨?_, Slot.step_recvWf h.wf, fun hn => pending_update.mpr ?_⟩
  · exact Slot.guarded_step h.lock hw (fun _ _ _ => trivial) (fun _ _ _ => trivial)
      fun _ _ _ => trivial
  by_cases hpc : Awake pc
  · rcases awake_step (i := i) (a := a) h.wf hpc with hpc' | ⟨hnone, he⟩ | hrefused | ⟨rfl, hf, he⟩
    · exact .inl ⟨_, rfl, hpc'⟩
    · rw [he] at hn
      exact absurd hnone hn
    · exact absurd (hacc pc hw) hrefused
    · -- the lock is taken: its holder looks again, or this is the window
      rw [he] at hn
      obtain ⟨v, pc, hv, hc⟩ := h.lock.someone hf
      by_cases hvpc : Awake pc
      · refine .inr (.inr (.inr ⟨v, ?_, pc, hv, hvpc⟩))
        intro he
        subst he
        cases hw.symm.trans hv
        exact hc
      · right
        by_contra hp
        exact hmiss ⟨hw, hn, ⟨v, pc, hv, hc, hvpc⟩, hp⟩
  · -- the buffer is as it was, and the look to come is another call's
    have hbuf := (asleep_step (i := i) (a := a) (s := s.slot) hpc).1
    rw [hbuf] at hn
    refine .inr ((h.pending hn).excl fun x hx => ?_)
    cases hw.symm.trans hx
    exact hpc

theorem watched_step (h : Watched s) {l : WakeUpAct W} (hC : Accepts i s l ∧ ¬ Misses s l)
    (hs : step i s l = some s') : Watched s' := by
  cases l with
  | store chunk =>
    obtain ⟨hlen, rfl⟩ := step_store hs
    -- the store that completes a frame is followed by its push
    exact ⟨h.lock.outside rfl id fun _ _ => id, h.wf.store_wf hlen, fun _ => .inl (Nat.succ_pos _)⟩
  | push =>
    rw [step_push hs]
    exact ⟨h.lock, h.wf, fun _ => .inr (.inl (Nat.succ_pos _))⟩
  | take w =>
    obtain ⟨hw, rfl⟩ := step_take hs
    refine ⟨h.lock.idle (fun x hx => by rw [hw] at hx; cases hx) fun x hx => ?_, h.wf, fun _ => ?_⟩
    · cases hx
      exact id
    · exact .inr (.inr ⟨w, id, .tryLock, Function.update_self .., trivial⟩)
  | move w a => exact watched_move h hC.1 hC.2 hs
  | finish w =>
    obtain ⟨c, hw, rfl⟩ := step_finish hs
    refine ⟨h.lock.idle (fun x hx => ?_) (fun x hx => by cases hx), h.wf, fun hn => ?_⟩
    · cases hw.symm.trans hx
      exact id
    · -- an unfinished call is back in the queue; of the others none was awake
      by_cases hc : c = .NOT_FINISHED
      · exact .inr (.inl (by simp only [hc, if_true]; exact Nat.succ_pos _))
      · simp only [if_neg hc]
        refine pending_update.mpr (.inr ((h.pending hn).excl fun x hx => ?_))
        cases hw.symm.trans hx
        exact hc

/-- The pool never comes to rest over a complete frame, unless some call missed one. -/
theorem no_lost_wakeup {ls : List (WakeUpAct W)} (hr : run (step i) init ls = some s)
    (hC : Meets (step i) (fun s l => Accepts i s l ∧ ¬ Misses s l) init ls) (hrest : AtRest s) :
    s.slot.conn.getReqMessage = none := by
  have h := run_invariant (fun _ _ _ h hC hs => watched_step h hC hs) watched_init hC hr
  rw [Connection.getReqMessage_eq h.wf]
  by_contra hn
  obtain ⟨hstoring, hqueued, hidle⟩ := hrest
  rcases h.pending hn with hp | hp | ⟨w, -, pc, hw, -⟩
  · omega
  · omega
  · rw [hidle w] at hw
    cases hw

/-! ## After a miss -/

/-- A complete frame is stored, and no look is to come. -/
def Lost (s : WakeUp W) : Prop :=
  s.slot.conn.RecvWf ∧ reqFraming.next s.slot.conn.recvBuffer.bytes ≠ none ∧
    ¬ Pending s fun _ => False

theorem lost_of_misses (hwf : s.slot.conn.RecvWf) (hf : s.slot.flag = false) {l : WakeUpAct W}
    (hmiss : Misses s l) (hs : step i s l = some s') : Lost s' := by
  cases l with
  | move w a =>
    obtain ⟨hw, hn, -, hp⟩ := hmiss
    obtain ⟨pc, hw', -, rfl⟩ := step_move hs
    obtain rfl := Option.some.inj (hw.symm.trans hw')
    simp only [Slot.step, hf, Bool.false_eq_true, if_false]
    refine ⟨hwf, hn, fun h => ?_⟩
    rcases pending_update.mp h with ⟨pc, hpc, hawake⟩ | h
    · cases hpc
      cases hawake
    · exact hp h
  | _ => exact absurd hmiss id

theorem lost_step (h : Lost s) {l : WakeUpAct W} (hl : ∀ chunk, l ≠ .store chunk)
    (hs : step i s l = some s') : Lost s' := by
  obtain ⟨hwf, hn, hp⟩ := h
  have hasleep : ∀ w pc, s.pcs w = some pc → ¬ Awake pc :=
    fun w pc hw hpc => hp (.inr (.inr ⟨w, id, pc, hw, hpc⟩))
  cases l with
  | store chunk => exact absurd rfl (hl chunk)
  | push => exact absurd (Option.ite_none_right_eq_some.mp hs).1 fun h => hp (.inl h)
  | take w => exact absurd (Option.ite_none_right_eq_some.mp hs).1.1 fun h => hp (.inr (.inl h))
  | move w a =>
    obtain ⟨pc, hw, -, rfl⟩ := step_move hs
    obtain ⟨hbuf, hpc⟩ := asleep_step (i := i) (a := a) (s := s.slot) (hasleep w pc hw)
    refine ⟨Slot.step_recvWf hwf, by rwa [hbuf], fun h => ?_⟩
    rcases pending_update.mp h with ⟨pc', hpc', hawake⟩ | h
    · cases hpc'
      exact hpc hawake
    · exact hp (h.mono fun _ => False.elim)
  | finish w =>
    obtain ⟨c, hw, rfl⟩ := step_finish hs
    have hc : c ≠ .NOT_FINISHED := hasleep w _ hw
    rw [if_neg hc]
    refine ⟨hwf, hn, fun h => ?_⟩
    rcases pending_update.mp h with ⟨pc', hpc', -⟩ | h
    · cases hpc'
    · exact hp (h.mono fun _ => False.elim)

/-- The condition of `no_lost_wakeup` is needed: a frame that was missed stays in the buffer
until more bytes arrive, whatever the workers do. -/
theorem missed_frame_stays {ls ls' : List (WakeUpAct W)} {t : WakeUp W} {l : WakeUpAct W}
    (hr : run (step i) init ls = some s)
    (hC : Meets (step i) (fun s l => Accepts i s l ∧ ¬ Misses s l) init ls)
    (hmiss : Misses s l) (hs : step i s l = some s') (hr' : run (step i) s' ls' = some t)
    (hls : ∀ l ∈ ls', ∀ chunk, l ≠ .store chunk) : t.slot.conn.getReqMessage ≠ none := by
  have h := run_invariant (fun _ _ _ h hC hs => watched_step h hC hs) watched_init hC hr
  have hf : s.slot.flag = false := by
    cases l with
    | move w a =>
      obtain ⟨-, -, ⟨v, pc, hv, hc, -⟩, -⟩ := hmiss
      exact (h.lock.held v pc hv hc).1
    | _ => exact absurd hmiss id
  have hlost : Lost t := run_invariant (fun _ _ _ h hl hs => lost_step h hl hs)
    (lost_of_misses h.wf hf hmiss hs) (meets_of_forall_mem fun l hl _ => hls l hl) hr'
  rw [Connection.getReqMessage_eq hlost.1]
  exact hlost.2.1

/-! ## Two frames, two calls -/

/-- One frame is received and its call takes `moves` steps. Then another frame is received,
that frame's call fails its `try_lock`, and the first call takes `rest` steps to its return. -/
def twoFrames (moves rest : Nat) : List (WakeUpAct Bool) :=
  [.store tokenFrame, .push, .take false] ++ List.replicate moves (.move false (.pooled true)) ++
    [.store tokenFrame, .push, .take true, .move true (.pooled true), .finish true] ++
    List.replicate rest (.move false (.pooled true)) ++ [.finish false]

/-- The second `try_lock` fails while the holder is about to send. -/
theorem no_lost_wakeup_two : ∃ s : WakeUp Bool, run (step 0) init (twoFrames 6 9) = some s ∧
    AtRest s ∧ s.slot.conn.getReqMessage = none := by
  have hrun : ((run (step 0) init (twoFrames 6 9)).map fun s : WakeUp Bool =>
      decide (AtRest s)) = some true := by decide +kernel
  obtain ⟨s, hs, hrest⟩ := Option.map_eq_some_iff.mp hrun
  have hrest : AtRest s := of_decide_eq_true hrest
  exact ⟨s, hs, hrest, no_lost_wakeup hs (by decide +kernel) hrest⟩

/-- The second `try_lock` fails after the holder's last look: every frame parses, executes and is
sent at once, and yet the pool comes to rest over a complete frame. -/
theorem lost_wakeup : ∃ s : WakeUp Bool, run (step 0) init (twoFrames 8 2) = some s ∧
    Meets (step 0) (Succeeds 0) init (twoFrames 8 2) ∧ AtRest s ∧
      s.slot.conn.getReqMessage = some 12 := by
  have hrun : ((run (step 0) init (twoFrames 8 2)).map fun s : WakeUp Bool =>
      (decide (AtRest s), s.slot.conn.getReqMessage)) = some (true, some 12) := by decide +kernel
  obtain ⟨s, hs, hend⟩ := Option.map_eq_some_iff.mp hrun
  obtain ⟨hrest, hframe⟩ := Prod.mk.inj hend
  exact ⟨s, hs, by decide +kernel, of_decide_eq_true hrest, hframe⟩

end WakeUp

end RacingGameServer
