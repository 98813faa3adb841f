import SocketServerLib.CSServer.RecvLoop
import SocketServerLib.Lib.Counting
import SocketServerLib.Lib.LabelledRun
import SocketServerLib.Lib.TryLock

/-
  `ClientContext.SendMsg` from any number of flows, interleaved at its awaits.

  `TryLockAsync` is called without `await`: `handle` is the task, which is never null, and
  `using` disposes the task and not the lock in it. `SendAsync` takes one or more of the bytes
  offered, as they stand in the array then. `sent` is what it has taken, `accepted` the
  messages in the order in which `Enqueue` stored them; both are ghosts.

  What is proved:
    1. `step_clean` — a step keeps the stream clean if no flow reaches the lock while another
       is in the loop.
    2. `clean_iff` — in every run the flows take turns in the loop, the bytes are sent in
       order, and the buffer is empty when all have returned, if and only if every step
       is of that kind.
    3. `two_in_loop` — two flows in the loop.

  What is assumed: the socket is there all the time, and `SendAsync` does not throw; what a flow
  does between two awaits is one step.
-/
namespace CSServer
open RacingGameServer (Bytes)
open LabelledRun TryLock SlideBuffer

/-- A task that has completed. -/
structure Task (α : Type*) where
  result : α

/-- `new Handler(_semaphore)`. -/
structure Handler where

/-- `TryLockAsync` on the count of the semaphore: `WaitAsync(0)` completes at once. -/
def tryLockAsync (semaphore : Nat) : Nat × Task (Option Handler) :=
  if 0 < semaphore then (semaphore - 1, { result := some {} }) else (semaphore, { result := none })

/-- Where a flow is in `SendMsg`. -/
inductive Flow where
  | enqueue (msg : Bytes) (size_ : Nat)
  | tryLock
  | getSize
  | sendAsync (msgSize : Nat)
  | pop (sent : Nat)
  | returned (bRet : Bool)
  deriving DecidableEq

/-- Inside the loop of `SendMsg`. -/
def Flow.InLoop : Flow → Prop
  | .getSize | .sendAsync _ | .pop _ => True
  | _ => False

/-- `SendMsg` is not in progress. -/
def Flow.Done : Flow → Prop
  | .returned _ => True
  | _ => False

/-- On its way to the loop or in it. -/
def Flow.Coming (f : Flow) : Prop := f = .tryLock ∨ f.InLoop

instance : DecidablePred Flow.InLoop
  | .enqueue _ _ => .isFalse id
  | .tryLock => .isFalse id
  | .getSize => .isTrue trivial
  | .sendAsync _ => .isTrue trivial
  | .pop _ => .isTrue trivial
  | .returned _ => .isFalse id

structure SendState where
  sendBuffer : SlideBuffer
  semaphore : Nat
  flows : List Flow
  sent : Bytes
  accepted : Bytes

/-- Flow `i` takes the step it is at; `SendAsync` takes `sent` bytes. -/
inductive SendAct where
  | call (msg : Bytes) (size_ : Nat)
  | enqueue (i : Nat)
  | tryLock (i : Nat)
  | getSize (i : Nat)
  | sendAsync (i sent : Nat)
  | pop (i : Nat)

namespace SendState

def init : SendState :=
  { sendBuffer := .new sendBufferSize, semaphore := 1, flows := [], sent := [], accepted := [] }

def move (s : SendState) (i : Nat) (f : Flow) : SendState := { s with flows := s.flows.set i f }

/-- `Enqueue` under the lock of the buffer. -/
def enqueue (s : SendState) (i : Nat) (msg : Bytes) (size_ : Nat) : SendState :=
  let r := s.sendBuffer.enqueue msg size_
  if r.2 = false then { s with sendBuffer := r.1 }.move i (.returned false)
  else
    { s with sendBuffer := r.1, accepted := s.accepted ++ msg.take size_ }.move i .tryLock

def tryLock (s : SendState) (i : Nat) : SendState :=
  let r := tryLockAsync s.semaphore
  let handle : Option (Task (Option Handler)) := some r.2
  match handle with
  | none => { s with semaphore := r.1 }.move i (.returned true)
  | some _ => { s with semaphore := r.1 }.move i .getSize

/-- The top of the loop. -/
def getSize (s : SendState) (i : Nat) : SendState :=
  let msgSize := s.sendBuffer.size
  if msgSize = 0 then s.move i (.returned true)
  else s.move i (.sendAsync (if msgSize > maxSegmentSize then maxSegmentSize else msgSize))

def sendAsync (s : SendState) (i sent : Nat) : SendState :=
  { s with sent := s.sent ++ s.sendBuffer.segment sent }.move i (.pop sent)

def pop (s : SendState) (i sent : Nat) : SendState :=
  { s with sendBuffer := (s.sendBuffer.pop sent).1 }.move i .getSize

def step (s : SendState) : SendAct → Option SendState
  | .call msg size_ => some { s with flows := s.flows ++ [.enqueue msg size_] }
  | .enqueue i =>
    match s.flows[i]? with
    | some (.enqueue msg size_) => some (s.enqueue i msg size_)
    | _ => none
  | .tryLock i => if s.flows[i]? = some .tryLock then some (s.tryLock i) else none
  | .getSize i => if s.flows[i]? = some .getSize then some (s.getSize i) else none
  | .sendAsync i sent =>
    match s.flows[i]? with
    | some (.sendAsync msgSize) =>
      if 1 ≤ sent ∧ sent ≤ msgSize then some (s.sendAsync i sent) else none
    | _ => none
  | .pop i =>
    match s.flows[i]? with
    | some (.pop sent) => some (s.pop i sent)
    | _ => none

/-- At most one flow is in the loop, what is sent is in order, and when no flow is on its way the
buffer is empty. -/
structure Clean (s : SendState) : Prop where
  alone : ∀ (i j : Nat) (f g : Flow), s.flows[i]? = some f → s.flows[j]? = some g →
    f.InLoop → g.InLoop → i = j
  stream : s.sent <+: s.accepted
  empty : (∀ f ∈ s.flows, f.Done) → s.sendBuffer.size = 0

/-- A flow does not reach the lock while another is in the loop. -/
def TakesTurn (s : SendState) : SendAct → Prop
  | .tryLock _ => ∀ f ∈ s.flows, ¬ f.InLoop
  | _ => True

instance (s : SendState) : DecidablePred s.TakesTurn
  | .tryLock _ => inferInstanceAs (Decidable (∀ f ∈ s.flows, ¬ f.InLoop))
  | .call _ _ => .isTrue trivial
  | .enqueue _ => .isTrue trivial
  | .getSize _ => .isTrue trivial
  | .sendAsync _ _ => .isTrue trivial
  | .pop _ => .isTrue trivial

/-! ## The invariant -/

/-- All but the first `k` bytes of the buffer are still to be sent. -/
def Unsent (s : SendState) (k : Nat) : Prop :=
  k ≤ s.sendBuffer.size ∧ s.accepted = s.sent ++ s.sendBuffer.bytes.drop k

/-- What holds at a point of the loop. -/
def Holds (p : SendState × Bool) : Flow → Prop
  | .sendAsync msgSize => p.1.Unsent 0 ∧ msgSize ≤ p.1.sendBuffer.size
  | .pop sent => p.1.Unsent sent
  | _ => p.1.Unsent 0

/-- The flows take turns as under a lock that is `free` while nobody is in the loop. -/
def Turns (s : SendState) (free : Bool) (flows : Nat → Option Flow) : Prop :=
  Guarded Prod.snd Flow.InLoop (fun p => p.1.Unsent 0) Holds (s, free) flows

/-- The flows take turns, and somebody comes for what is in the buffer. -/
structure Inv (s : SendState) : Prop where
  wf : s.sendBuffer.Wf
  guarded : ∃ free, s.Turns free fun i : Nat => s.flows[i]?
  coming : s.sendBuffer.size ≠ 0 → ∃ (i : Nat) (f : Flow), s.flows[i]? = some f ∧ f.Coming

variable {s s' : SendState} {i : Nat} {f g : Flow} {a : SendAct}

theorem flows_move (hi : s.flows[i]? = some f) (g : Flow) :
    (fun j : Nat => (s.move i g).flows[j]?) =
      Function.update (fun j : Nat => s.flows[j]?) i (some g) :=
  Counting.set_eq_update hi g

theorem flows_call (s : SendState) (f : Flow) :
    (fun j : Nat => (s.flows ++ [f])[j]?) =
      Function.update (fun j : Nat => s.flows[j]?) s.flows.length (some f) := by
  funext j
  by_cases he : j = s.flows.length
  · subst he
    simp
  · rw [Function.update_of_ne he, List.getElem?_append]
    split
    · rfl
    · next hlt =>
      rw [List.getElem?_eq_none (by simp; omega), List.getElem?_eq_none (by omega)]

theorem Inv.unsent (h : s.Inv) : ∃ k, s.Unsent k := by
  obtain ⟨free, hg⟩ := h.guarded
  cases free with
  | true => exact ⟨0, hg.free rfl⟩
  | false =>
    obtain ⟨i, f, hf, hcrit⟩ := hg.someone rfl
    obtain ⟨-, hholds⟩ := hg.held i f hf hcrit
    cases f with
    | sendAsync msgSize => exact ⟨0, hholds.1⟩
    | pop sent => exact ⟨sent, hholds⟩
    | _ => exact ⟨0, hholds⟩

theorem Inv.clean (h : s.Inv) : s.Clean := by
  obtain ⟨k, -, hbytes⟩ := h.unsent
  obtain ⟨free, hg⟩ := h.guarded
  refine ⟨fun i j f g hf hg' => hg.unique i j f g hf hg', ⟨_, hbytes.symm⟩, fun hdone => ?_⟩
  by_contra hsize
  obtain ⟨i, f, hf, hcoming⟩ := h.coming hsize
  have hf : f.Done := hdone f (List.mem_of_getElem? hf)
  rcases hcoming with rfl | hloop
  · exact hf
  · cases f <;> first | exact hf | exact hloop

/-! ## One step -/

theorem Unsent.congr {k : Nat} (h : s.Unsent k) (hb : s'.sendBuffer = s.sendBuffer)
    (hsent : s'.sent = s.sent) (hacc : s'.accepted = s.accepted) : s'.Unsent k := by
  rw [Unsent, hb, hsent, hacc]
  exact h

/-- What holds at a point of the loop does not depend on the other flows. -/
theorem Holds.congr {b b' : Bool} (hb : s'.sendBuffer = s.sendBuffer) (hsent : s'.sent = s.sent)
    (hacc : s'.accepted = s.accepted) (h : Holds (s, b) f) : Holds (s', b') f := by
  cases f with
  | sendAsync msgSize => exact ⟨h.1.congr hb hsent hacc, hb ▸ h.2⟩
  | pop sent => exact Unsent.congr (s := s) h hb hsent hacc
  | _ => exact Unsent.congr (s := s) h hb hsent hacc

/-- A flow outside the loop changes what the others do not see, or leave as it is. -/
theorem Turns.outside {free : Bool} {flows : Nat → Option Flow} (h : s.Turns free flows)
    (s' : SendState) (h0 : s.Unsent 0 → s'.Unsent 0)
    (hR : ∀ f, f.InLoop → Holds (s, free) f → Holds (s', free) f) : s'.Turns free flows :=
  Guarded.outside h rfl h0 hR

theorem Turns.congr {free : Bool} {flows : Nat → Option Flow} (h : s.Turns free flows)
    (s' : SendState) (hb : s'.sendBuffer = s.sendBuffer) (hsent : s'.sent = s.sent)
    (hacc : s'.accepted = s.accepted) : s'.Turns free flows :=
  h.outside s' (fun hu => hu.congr hb hsent hacc) fun _ _ hf => Holds.congr hb hsent hacc hf

theorem coming_move (hi : s.flows[i]? = some f) (hg : g.Coming) :
    ∃ (j : Nat) (f : Flow), (s.move i g).flows[j]? = some f ∧ f.Coming := by
  obtain ⟨hlt, -⟩ := List.getElem?_eq_some_iff.mp hi
  exact ⟨i, g, List.getElem?_set_self hlt, hg⟩

/-- A flow that is not coming yet leaves those that are. -/
theorem coming_others (hi : s.flows[i]? = some f) (hf : ¬ f.Coming) (g : Flow)
    (h : ∃ (j : Nat) (f : Flow), s.flows[j]? = some f ∧ f.Coming) :
    ∃ (j : Nat) (f : Flow), (s.move i g).flows[j]? = some f ∧ f.Coming := by
  obtain ⟨j, f', hj, hcoming⟩ := h
  have hne : i ≠ j := by
    rintro rfl
    exact hf (Option.some.inj (hi.symm.trans hj) ▸ hcoming)
  exact ⟨j, f', (List.getElem?_set_ne hne).trans hj, hcoming⟩

theorem Inv.call (h : s.Inv) (msg : Bytes) (size_ : Nat) :
    Inv { s with flows := s.flows ++ [.enqueue msg size_] } := by
  obtain ⟨free, hg⟩ := h.guarded
  refine ⟨h.wf, ⟨free, ?_⟩, fun hsize => ?_⟩
  · rw [flows_call]
    refine (hg.congr { s with flows := s.flows ++ [.enqueue msg size_] } rfl rfl rfl).idle ?_ ?_
    · intro f hf
      rw [List.getElem?_eq_none (Nat.le_refl _)] at hf
      cases hf
    · intro f hf
      obtain rfl := Option.some.inj hf
      exact id
  · obtain ⟨j, f, hj, hcoming⟩ := h.coming hsize
    obtain ⟨hlt, -⟩ := List.getElem?_eq_some_iff.mp hj
    exact ⟨j, f, (List.getElem?_append_left hlt).trans hj, hcoming⟩

/-- What is stored behind the buffer is still to be sent. -/
theorem Unsent.append {k : Nat} {m : Bytes} (h : s.Unsent k) (hwf : s.sendBuffer.Wf)
    (hwf' : s'.sendBuffer.Wf) (hb : s'.sendBuffer.bytes = s.sendBuffer.bytes ++ m)
    (hsent : s'.sent = s.sent) (hacc : s'.accepted = s.accepted ++ m) : s'.Unsent k := by
  obtain ⟨hk, hbytes⟩ := h
  have hlen := congrArg List.length hb
  rw [List.length_append, hwf.bytes_length, hwf'.bytes_length] at hlen
  refine ⟨by omega, ?_⟩
  have hk' : k ≤ s.sendBuffer.bytes.length := by
    rw [hwf.bytes_length]
    exact hk
  calc s'.accepted = s.sent ++ (s.sendBuffer.bytes.drop k ++ m) := by
        rw [hacc, hbytes, List.append_assoc]
    _ = s.sent ++ (s.sendBuffer.bytes ++ m).drop k := by
        rw [List.drop_append_of_le_length hk']
    _ = s'.sent ++ s'.sendBuffer.bytes.drop k := by rw [hsent, hb]

theorem Inv.enqueue (h : s.Inv) {msg : Bytes} {size_ : Nat}
    (hi : s.flows[i]? = some (.enqueue msg size_)) : (s.enqueue i msg size_).Inv := by
  obtain ⟨free, hg⟩ := h.guarded
  have hout : ∀ f, (fun j : Nat => s.flows[j]?) i = some f → ¬ f.InLoop := by
    intro f hf
    obtain rfl := Option.some.inj (hi.symm.trans hf)
    exact id
  rcases enqueue_cases h.wf msg size_ with he | ⟨hok, hb, hwf⟩
  · simp only [SendState.enqueue, he, if_true]
    refine ⟨h.wf, ⟨free, ?_⟩, fun hsize => ?_⟩
    · rw [flows_move (s := { s with sendBuffer := s.sendBuffer }) hi]
      refine (hg.congr (s.move i (.returned false)) rfl rfl rfl).idle hout ?_
      intro f hf
      obtain rfl := Option.some.inj hf
      exact id
    · apply coming_others (s := { s with sendBuffer := s.sendBuffer }) hi _ _ (h.coming hsize)
      intro hcoming
      rcases hcoming with hno | hno
      · cases hno
      · exact hno
  · simp only [SendState.enqueue, hok, Bool.true_eq_false, if_false]
    generalize hs : ({ s with
      sendBuffer := (s.sendBuffer.enqueue msg size_).1
      accepted := s.accepted ++ msg.take size_ } : SendState) = t
    have hflows : t.flows = s.flows := by rw [← hs]
    have hti : t.flows[i]? = some (.enqueue msg size_) := by rw [hflows]; exact hi
    have hbuffer : t.sendBuffer.Wf := by rw [← hs]; exact hwf
    have hbytes : t.sendBuffer.bytes = s.sendBuffer.bytes ++ msg.take size_ := by
      rw [← hs]; exact hb
    have hsent : t.sent = s.sent := by rw [← hs]
    have hacc : t.accepted = s.accepted ++ msg.take size_ := by rw [← hs]
    have hunsent : ∀ k, s.Unsent k → (t.move i .tryLock).Unsent k := fun k hk =>
      hk.append h.wf hbuffer hbytes hsent hacc
    have hlen := congrArg List.length hbytes
    rw [List.length_append, h.wf.bytes_length, hbuffer.bytes_length] at hlen
    have hsize : s.sendBuffer.size ≤ t.sendBuffer.size := by omega
    refine ⟨hbuffer, ⟨free, ?_⟩, fun _ => coming_move hti (.inl rfl)⟩
    rw [flows_move hti, hflows]
    refine (hg.outside (t.move i .tryLock) (hunsent 0) fun f _ hf => ?_).idle hout ?_
    · cases f with
      | sendAsync msgSize =>
        have hle : msgSize ≤ s.sendBuffer.size := hf.2
        exact ⟨hunsent 0 hf.1, Nat.le_trans hle hsize⟩
      | pop sent => exact hunsent sent hf
      | _ => exact hunsent 0 hf
    · intro f hf
      obtain rfl := Option.some.inj hf
      exact id

/-- The task is not null, so the flow goes into the loop. -/
theorem tryLock_eq (s : SendState) (i : Nat) :
    s.tryLock i = { s with semaphore := (tryLockAsync s.semaphore).1 }.move i .getSize := rfl

theorem Inv.tryLock (h : s.Inv) (hi : s.flows[i]? = some .tryLock)
    (hturn : ∀ f ∈ s.flows, ¬ f.InLoop) : (s.tryLock i).Inv := by
  obtain ⟨free, hg⟩ := h.guarded
  have hfree : free = true := by
    by_contra hno
    obtain ⟨j, f, hf, hcrit⟩ := hg.someone (Bool.eq_false_iff.mpr hno)
    exact hturn f (List.mem_of_getElem? hf) hcrit
  subst hfree
  rw [tryLock_eq]
  refine ⟨h.wf, ⟨false, ?_⟩, fun _ => coming_move (f := .tryLock) hi (.inr trivial)⟩
  rw [flows_move (s := { s with semaphore := (tryLockAsync s.semaphore).1 }) hi]
  exact hg.acquire rfl rfl (Unsent.congr (hg.free rfl) rfl rfl rfl) trivial

theorem Inv.getSize (h : s.Inv) (hi : s.flows[i]? = some .getSize) : (s.getSize i).Inv := by
  obtain ⟨free, hg⟩ := h.guarded
  obtain ⟨-, hunsent⟩ := hg.held i .getSize hi trivial
  have hunsent : s.Unsent 0 := hunsent
  by_cases hzero : s.sendBuffer.size = 0
  · simp only [SendState.getSize, if_pos hzero]
    refine ⟨h.wf, ⟨true, ?_⟩, fun hsize => absurd hzero hsize⟩
    rw [flows_move hi]
    exact hg.release hi trivial rfl (Unsent.congr hunsent rfl rfl rfl) id
  · simp only [SendState.getSize, if_neg hzero]
    refine ⟨h.wf, ⟨false, ?_⟩, fun _ => coming_move hi (.inr trivial)⟩
    rw [flows_move hi]
    refine hg.inside hi trivial rfl ⟨Unsent.congr hunsent rfl rfl rfl, ?_⟩ trivial
    show (if s.sendBuffer.size > maxSegmentSize then maxSegmentSize else s.sendBuffer.size) ≤
      s.sendBuffer.size
    split <;> omega

theorem Inv.sendAsync (h : s.Inv) {msgSize sent : Nat}
    (hi : s.flows[i]? = some (.sendAsync msgSize)) (hsent : sent ≤ msgSize) :
    (s.sendAsync i sent).Inv := by
  obtain ⟨free, hg⟩ := h.guarded
  obtain ⟨-, ⟨-, hbytes⟩, hle⟩ := hg.held i _ hi trivial
  have hle : msgSize ≤ s.sendBuffer.size := hle
  have hbytes : s.accepted = s.sent ++ s.sendBuffer.bytes.drop 0 := hbytes
  refine ⟨h.wf, ⟨false, ?_⟩, fun _ => coming_move (f := .sendAsync msgSize) hi (.inr trivial)⟩
  rw [SendState.sendAsync, flows_move (s := { s with
    sent := s.sent ++ s.sendBuffer.segment sent }) hi]
  refine hg.inside hi trivial rfl ⟨Nat.le_trans hsent hle, ?_⟩ trivial
  -- what is sent are the first bytes of the buffer
  calc s.accepted = s.sent ++ s.sendBuffer.bytes := by rw [hbytes, List.drop_zero]
    _ = s.sent ++ (s.sendBuffer.bytes.take sent ++ s.sendBuffer.bytes.drop sent) := by
        rw [List.take_append_drop]
    _ = s.sent ++ s.sendBuffer.segment sent ++ s.sendBuffer.bytes.drop sent := by
        rw [segment_eq (Nat.le_trans hsent hle), List.append_assoc]

theorem Inv.pop (h : s.Inv) {sent : Nat} (hi : s.flows[i]? = some (.pop sent)) :
    (s.pop i sent).Inv := by
  obtain ⟨free, hg⟩ := h.guarded
  obtain ⟨-, hle, hbytes⟩ := hg.held i _ hi trivial
  have hle : sent ≤ s.sendBuffer.size := hle
  have hbytes : s.accepted = s.sent ++ s.sendBuffer.bytes.drop sent := hbytes
  obtain ⟨-, hpop, hwf⟩ := pop_spec h.wf hle
  refine ⟨hwf, ⟨false, ?_⟩, fun _ => coming_move (f := .pop sent) hi (.inr trivial)⟩
  rw [SendState.pop, flows_move (s := { s with sendBuffer := (s.sendBuffer.pop sent).1 }) hi]
  refine hg.inside hi trivial rfl ⟨Nat.zero_le _, ?_⟩ trivial
  show s.accepted = s.sent ++ (s.sendBuffer.pop sent).1.bytes.drop 0
  rw [List.drop_zero, hpop, hbytes]

/-- A step keeps the stream clean if the flow takes its turn. -/
theorem step_clean (h : s.Inv) (ha : s.TakesTurn a) (hs : step s a = some s') : s'.Inv := by
  cases a with
  | call msg size_ =>
    obtain rfl := Option.some.inj hs
    exact h.call msg size_
  | enqueue i =>
    simp only [step] at hs
    split at hs
    · next hi =>
      obtain rfl := Option.some.inj hs
      exact h.enqueue hi
    · cases hs
  | tryLock i =>
    simp only [step] at hs
    split at hs
    · next hi =>
      obtain rfl := Option.some.inj hs
      exact h.tryLock hi ha
    · cases hs
  | getSize i =>
    simp only [step] at hs
    split at hs
    · next hi =>
      obtain rfl := Option.some.inj hs
      exact h.getSize hi
    · cases hs
  | sendAsync i sent =>
    simp only [step] at hs
    split at hs
    · next hi =>
      split at hs
      · next hle =>
        obtain rfl := Option.some.inj hs
        exact h.sendAsync hi hle.2
      · cases hs
    · cases hs
  | pop i =>
    simp only [step] at hs
    split at hs
    · next hi =>
      obtain rfl := Option.some.inj hs
      exact h.pop hi
    · cases hs

/-- A flow that reaches the lock while another is in the loop goes in beside it. -/
theorem step_unclean (ha : ¬ s.TakesTurn a) (hs : step s a = some s') : ¬ s'.Clean := by
  intro hclean
  cases a with
  | tryLock i =>
    simp only [step] at hs
    split at hs
    · next hi =>
      obtain rfl := Option.some.inj hs
      simp only [TakesTurn, not_forall, not_not] at ha
      obtain ⟨f, hf, hloop⟩ := ha
      obtain ⟨j, hj⟩ := List.mem_iff_getElem?.mp hf
      have hne : i ≠ j := by
        rintro rfl
        obtain rfl := Option.some.inj (hi.symm.trans hj)
        exact hloop
      obtain ⟨hlt, -⟩ := List.getElem?_eq_some_iff.mp hi
      have hj' : (s.tryLock i).flows[j]? = some f := (List.getElem?_set_ne hne).trans hj
      exact hne (hclean.alone i j .getSize f (List.getElem?_set_self hlt) hj' trivial hloop)
    · cases hs
  | _ => exact ha trivial

theorem inv_init : Inv init := by
  refine ⟨wf_new _, ⟨true, ?_⟩, fun hsize => absurd rfl hsize⟩
  exact Guarded.init rfl ⟨Nat.le_refl 0, rfl⟩ fun _ => rfl

/-- Every state of a run is clean if and only if no flow reaches the lock while another is in the
loop. -/
theorem clean_iff {acts : List SendAct} (hr : run step init acts = some s) :
    Always step Clean init acts ↔ Meets step TakesTurn init acts :=
  always_iff_meets (P := Clean) (I := Inv) (fun _ h => h.clean)
    (fun _ _ _ h ha hs => step_clean h ha hs) (fun _ _ _ _ ha hs => step_unclean ha hs) inv_init hr

/-- One message is stored while the other is being sent, and sent after it. -/
def takingTurns : List SendAct :=
  [.call [65, 66, 67] 3, .enqueue 0, .tryLock 0, .getSize 0, .call [68] 1, .sendAsync 0 2,
    .enqueue 1, .pop 0, .getSize 0, .sendAsync 0 2, .pop 0, .getSize 0, .tryLock 1, .getSize 1]

theorem clean_iff_turns : Always step Clean init takingTurns := by
  have hrun : (run step init takingTurns).isSome = true := by decide +kernel
  obtain ⟨s, hs⟩ := Option.isSome_iff_exists.mp hrun
  exact (clean_iff hs).mpr (by decide +kernel)

/-- Two messages are stored, and both flows send them: four bytes for two. -/
theorem two_in_loop : ¬ ∀ (acts : List SendAct) (s : SendState),
    run step init acts = some s → s.Clean := by
  intro h
  have hrun : (run step init [.call [65] 1, .call [66] 1, .enqueue 0, .enqueue 1, .tryLock 0,
      .tryLock 1, .getSize 0, .getSize 1, .sendAsync 0 2, .sendAsync 1 2]).map
      (fun s => (s.sent, s.accepted)) = some ([65, 66, 65, 66], [65, 66]) := by decide +kernel
  obtain ⟨s, hs, hend⟩ := Option.map_eq_some_iff.mp hrun
  obtain ⟨hsent, hacc⟩ := Prod.mk.inj hend
  have hstream := (h _ s hs).stream
  rw [hsent, hacc] at hstream
  exact absurd hstream.length_le (by decide)

end SendState

end CSServer
