import SocketServerLib.RacingGameServer.JobBlocks
import Mathlib.Data.List.Perm.Lattice

/-
  Who has the jobs that `JobFactory` makes: a slot of `m_Jobs` with the `HandleReq` that has its
  lock, or the closure of `OnUDPReceive` on its way through the thread pool.

  Any number of slots, and of datagrams. A pointer is the number of the call that has returned it
  (`JobFactory.calls`), so that a `DeallocateJob` of a job that has been destroyed already would
  not be enabled. A step of a slot is one access to `m_Jobs` or to the phase, with the call of
  `Execute`, `SendRes` or `DeallocateJob` before it; of a closure, one operation on the queue or
  the body of the lambda up to `DeallocateJob`. What `Execute` and `SendRes` answer is free.
  A closure is `lost` when `Enqueue` fails or the pool is destroyed with it in the queue.

  What is proved:
    1. `slotStep_held`, `datagramStep_held` — what one step does to the jobs of its owner; the
       jobs of the others are as they were.
    2. `pointers_live` — in every run a pointer in `m_Jobs` or in a closure that is not lost is to
       a job, no two of them are to one job, and each block is in the free list, or in a job that
       has one owner.
    3. `blocks_back_iff` — at rest all blocks are in the free list, if and only if no closure has
       been lost.

  What is assumed: what `JobBlocks` assumes, of the messages on every slot and of every datagram.
-/
namespace RacingGameServer
open LabelledRun Counting JobFactory

/-- What an owner may do with a pointer: wait for the call that is to return it, use it, or
overwrite it. -/
inductive Right where
  | pending
  | job
  | gone
  deriving DecidableEq

/-- Where `HandleReq` stands in a slot: nobody has the lock; at the `switch`; in `CreateJob`;
before `m_Jobs[i] = pJob` with the old job destroyed; behind the `DeallocateJob` of `SendRes`. -/
inductive SlotHand where
  | unlocked
  | atSwitch (eRet : JobProcess)
  | creating (pJob : Nat)
  | storing (pJob : Nat)
  | clearing
  deriving DecidableEq

/-- An entry of `m_Jobs`, with the phase of its connection. -/
structure JobSlot where
  jobProcess : JobProcess
  job : Option Nat
  hand : SlotHand

/-- `req` is the message of the slot that is complete, if there is one. -/
inductive SlotAct where
  | lock
  | parse (req : Option Bytes)
  | parsed
  | store
  | execute (bRet : Bool)
  | sendRes (bRet : Bool)
  | clear

/-- A datagram: in `CreateUDPJob`, its closure in the queue, in a worker, through, or lost. -/
inductive UDPClosure where
  | creating (pJob : Nat)
  | queued (pJob : Nat)
  | running (pJob : Nat)
  | finished
  | lost (pJob : Nat)
  deriving DecidableEq

/-- `pushed` is whether `Enqueue` has the memory. -/
inductive ClosureAct where
  | enqueue (pushed : Bool)
  | take
  | run
  | destroy

namespace JobSlot

def new : JobSlot := { jobProcess := .PARSING, job := none, hand := .unlocked }

/-- The pointers of the slot. -/
def holds (s : JobSlot) : List (Nat × Right) :=
  match s.hand with
  | .creating pJob => (pJob, .pending) :: s.job.toList.map (·, .job)
  | .storing pJob => (pJob, .job) :: s.job.toList.map (·, .gone)
  | .clearing => s.job.toList.map (·, .gone)
  | _ => s.job.toList.map (·, .job)

/-- `SetJobProcess`, and the lock is released. -/
def leave (s : JobSlot) (eJobProcess : JobProcess) : JobSlot :=
  { s with jobProcess := eJobProcess, hand := .unlocked }

end JobSlot

/-- The pointers of the closure. -/
def UDPClosure.holds : UDPClosure → List (Nat × Right)
  | .creating pJob => [(pJob, .pending)]
  | .queued pJob => [(pJob, .job)]
  | .running pJob => [(pJob, .job)]
  | .finished => []
  | .lost pJob => [(pJob, .job)]

/-- A message of a stream or a datagram, whose type is not negative. -/
def requestOf (fn : CreateFn) (i : Nat) (sv : Bytes) : Option Request :=
  if h : headerSize ≤ sv.length → 0 ≤ toInt32 (readU32 sv 4) then
    some { fn := fn, uUserIndex_ := i, sv := sv, nonneg := h }
  else none

/-- `GameServer`, as far as it has jobs. -/
structure JobOwners where
  factory : JobFactory
  m_Jobs : List JobSlot
  datagrams : List UDPClosure

inductive OwnersAct where
  | slot (i : Nat) (a : SlotAct)
  | create (c : Nat) (allocated : Bool)
  | udpReceive (uClientIndex_ : Nat) (msg_ : Bytes)
  | datagram (k : Nat) (a : ClosureAct)

namespace JobOwners

/-- What is left of `HandleReq` in slot `i`. -/
def slotStep (i : Nat) (f : JobFactory) (s : JobSlot) : SlotAct → Option (JobFactory × JobSlot)
  | .lock =>
    match s.hand with
    | .unlocked => some (f, { s with hand := .atSwitch s.jobProcess })
    | _ => none
  | .parse req =>
    match s.hand with
    | .atSwitch .PARSING =>
      match req with
      | none => some (f, s.leave .PARSING)
      | some sv =>
        (requestOf .createJob i sv).bind fun r =>
          (f.step (.create r)).map fun f' => (f', { s with hand := .creating f.calls.length })
    | _ => none
  | .parsed =>
    match s.hand with
    | .creating pJob =>
      match f.calls[pJob]? with
      | some (.returned none) => some (f, s.leave .PARSING)
      | some (.returned (some _)) =>
        match s.job with
        | none => some (f, { s with job := some pJob, hand := .atSwitch .EXECUTE })
        | some old =>
          (f.step (.deallocateJob old)).map fun f' => (f', { s with hand := .storing pJob })
      | _ => none
    | _ => none
  | .store =>
    match s.hand with
    | .storing pJob => some (f, { s with job := some pJob, hand := .atSwitch .EXECUTE })
    | _ => none
  | .execute bRet =>
    match s.hand with
    | .atSwitch .EXECUTE =>
      if s.job.isSome = true ∧ bRet = true then some (f, { s with hand := .atSwitch .SEND })
      else some (f, s.leave .EXECUTE)
    | _ => none
  | .sendRes bRet =>
    match s.hand with
    | .atSwitch .SEND =>
      match s.job with
      | none => some (f, s.leave .SEND)
      | some pJob =>
        if bRet = true then
          (f.step (.deallocateJob pJob)).map fun f' => (f', { s with hand := .clearing })
        else some (f, s.leave .SEND)
    | _ => none
  | .clear =>
    match s.hand with
    | .clearing => some (f, { s with job := none, hand := .atSwitch .PARSING })
    | _ => none

/-- What is left of a datagram. -/
def datagramStep (f : JobFactory) : UDPClosure → ClosureAct → Option (JobFactory × UDPClosure)
  | .creating pJob, .enqueue pushed =>
    match f.calls[pJob]? with
    | some (.returned none) => some (f, .finished)
    | some (.returned (some _)) => some (f, if pushed = true then .queued pJob else .lost pJob)
    | _ => none
  | .queued pJob, .take => some (f, .running pJob)
  | .running pJob, .run => (f.step (.deallocateJob pJob)).map fun f' => (f', .finished)
  | .queued pJob, .destroy => some (f, .lost pJob)
  | _, _ => none

/-- The pool of `JobFactory` has got `n` blocks, and there are `uMaxClient_` slots. -/
def init (n uMaxClient_ : Nat) : JobOwners :=
  { factory := .init n, m_Jobs := List.replicate uMaxClient_ .new, datagrams := [] }

def step (s : JobOwners) : OwnersAct → Option JobOwners
  | .slot i a =>
    (s.m_Jobs[i]?).bind fun slot =>
      (slotStep i s.factory slot a).map fun (f, slot') =>
        { s with factory := f, m_Jobs := s.m_Jobs.set i slot' }
  | .create c allocated =>
    (s.factory.step (.go c allocated)).map fun f => { s with factory := f }
  | .udpReceive uClientIndex_ msg_ =>
    (requestOf .createUDPJob uClientIndex_ msg_).bind fun r =>
      (s.factory.step (.create r)).map fun f =>
        { s with factory := f, datagrams := s.datagrams ++ [.creating s.factory.calls.length] }
  | .datagram k a =>
    (s.datagrams[k]?).bind fun d =>
      (datagramStep s.factory d a).map fun (f, d') =>
        { s with factory := f, datagrams := s.datagrams.set k d' }

/-- All pointers. -/
def holds (s : JobOwners) : List (Nat × Right) :=
  s.m_Jobs.flatMap JobSlot.holds ++ s.datagrams.flatMap UDPClosure.holds

end JobOwners

/-! ## Pointers with one owner -/

/-- What the right to a pointer says of the call that is to return it. -/
def Right.Of : Right → CreateCall → Prop
  | .pending, p => p ≠ .deallocated
  | .job, p => ∃ b, p = .returned (some b)
  | .gone, p => p = .deallocated

/-- The owners have a pointer each, and all that a call is to return or has returned has one. -/
structure Held (f : JobFactory) (holds : List (Nat × Right)) : Prop where
  inv : f.Inv
  nodup : (holds.map Prod.fst).Nodup
  right : ∀ x ∈ holds, ∃ p, f.calls[x.1]? = some p ∧ x.2.Of p
  covers : ∀ c p, f.calls[c]? = some p → p ≠ .returned none → p ≠ .deallocated →
    c ∈ holds.map Prod.fst

namespace Held

variable {f f' : JobFactory} {holds holds' : List (Nat × Right)} {c b : Nat} {r r' : Right}
  {p : CreateCall}

theorem perm (h : Held f holds) (hperm : List.Perm holds' holds) : Held f holds' where
  inv := h.inv
  nodup := (hperm.map Prod.fst).nodup_iff.mpr h.nodup
  right x hx := h.right x (hperm.mem_iff.mp hx)
  covers c p hc hnull hgone := (hperm.map Prod.fst).mem_iff.mpr (h.covers c p hc hnull hgone)

/-- Another owner has another pointer. -/
theorem ne_of_mem (h : Held f ((c, r) :: holds)) {x : Nat × Right} (hx : x ∈ holds) :
    x.1 ≠ c := by
  intro he
  apply (List.nodup_cons.mp h.nodup).1
  exact List.mem_map.mpr ⟨x, hx, he⟩

theorem call (h : Held f ((c, r) :: holds)) : ∃ p, f.calls[c]? = some p ∧ r.Of p :=
  h.right _ List.mem_cons_self

/-- Another call of `CreateJob` or `CreateUDPJob`. -/
theorem create (h : Held f holds) {q : Request} (hs : f.step (.create q) = some f') :
    Held f' ((f.calls.length, .pending) :: holds) := by
  have hinv := step_inv h.inv hs
  obtain rfl := Option.some.inj hs
  have hold : ∀ (c : Nat) (p : CreateCall), f.calls[c]? = some p →
      (f.calls ++ [q.enter])[c]? = some p := by
    intro c p hc
    obtain ⟨hlt, -⟩ := List.getElem?_eq_some_iff.mp hc
    rw [List.getElem?_append_left hlt]
    exact hc
  refine ⟨hinv, ?_, ?_, ?_⟩
  · rw [List.map_cons, List.nodup_cons]
    refine ⟨fun hmem => ?_, h.nodup⟩
    obtain ⟨x, hx, hxc⟩ := List.mem_map.mp hmem
    obtain ⟨p, hp, -⟩ := h.right x hx
    obtain ⟨hlt, -⟩ := List.getElem?_eq_some_iff.mp hp
    exact Nat.ne_of_lt hlt hxc
  · intro x hx
    rcases List.mem_cons.mp hx with rfl | hx
    · refine ⟨q.enter, ?_, ?_⟩
      · show (f.calls ++ [q.enter])[f.calls.length]? = some q.enter
        rw [List.getElem?_append_right (Nat.le_refl _), Nat.sub_self]
        rfl
      · show q.enter ≠ .deallocated
        unfold Request.enter
        split <;> exact fun he => by cases he
    · obtain ⟨p, hp, hright⟩ := h.right x hx
      exact ⟨p, hold _ p hp, hright⟩
  · intro c p hc hnull hgone
    rw [List.map_cons, List.mem_cons]
    by_cases he : c < f.calls.length
    · right
      have hc : (f.calls ++ [q.enter])[c]? = some p := hc
      rw [List.getElem?_append_left he] at hc
      exact h.covers c p hc hnull hgone
    · left
      obtain ⟨hlt, -⟩ := List.getElem?_eq_some_iff.mp hc
      have hlt : c < (f.calls ++ [q.enter]).length := hlt
      rw [List.length_append, List.length_singleton] at hlt
      show c = f.calls.length
      omega

/-- What `go` leaves of a call is not the end of a job. -/
theorem go_calls {allocated : Bool} (h : f.go c allocated p = some f') :
    ∃ p', f'.calls = f.calls.set c p' ∧ p' ≠ .deallocated := by
  cases p with
  | tryPop q k =>
    simp only [go] at h
    split at h
    · obtain rfl := Option.some.inj h
      exact ⟨_, rfl, fun he => by cases he⟩
    · obtain rfl := Option.some.inj h
      exact ⟨_, rfl, fun he => by cases he⟩
  | operatorNew q k =>
    simp only [go] at h
    split at h
    · obtain rfl := Option.some.inj h
      exact ⟨_, rfl, fun he => by cases he⟩
    · obtain rfl := Option.some.inj h
      exact ⟨_, rfl, fun he => by cases he⟩
  | parse q pRet =>
    obtain ⟨job, -, hparse⟩ := Option.map_eq_some_iff.mp h
    split at hparse
    · obtain rfl := hparse
      exact ⟨_, rfl, fun he => by cases he⟩
    · obtain rfl := hparse
      exact ⟨_, rfl, fun he => by cases he⟩
  | deallocate pRet =>
    obtain rfl := Option.some.inj h
    exact ⟨_, rfl, fun he => by cases he⟩
  | returned pRet => cases h
  | deallocated => cases h

/-- Nobody but its owner waits for a call that goes on. -/
theorem go {allocated : Bool} (h : Held f holds)
    (hs : f.step (.go c allocated) = some f') : Held f' holds := by
  have hinv := step_inv h.inv hs
  obtain ⟨p, hc, hgo⟩ := Option.bind_eq_some_iff.mp hs
  obtain ⟨p', hcalls, hne⟩ := go_calls hgo
  have hunfinished : (∀ pRet, p ≠ .returned pRet) ∧ p ≠ .deallocated := by
    refine ⟨fun pRet he => ?_, fun he => ?_⟩
    · subst he
      cases hgo
    · subst he
      cases hgo
  obtain ⟨hlt, -⟩ := List.getElem?_eq_some_iff.mp hc
  refine ⟨hinv, h.nodup, fun x hx => ?_, fun d q hd hnull hgone => ?_⟩
  · obtain ⟨q, hq, hright⟩ := h.right x hx
    rw [hcalls]
    by_cases he : x.1 = c
    · rw [he, List.getElem?_set_self hlt]
      refine ⟨p', rfl, ?_⟩
      obtain rfl := Option.some.inj (hc.symm.trans (he ▸ hq))
      cases hr : x.2 with
      | pending => exact hne
      | job =>
        rw [hr] at hright
        obtain ⟨b, hb⟩ := hright
        exact absurd hb (hunfinished.1 (some b))
      | gone =>
        rw [hr] at hright
        exact absurd hright hunfinished.2
    · rw [List.getElem?_set_ne (Ne.symm he)]
      exact ⟨q, hq, hright⟩
  · rw [hcalls] at hd
    by_cases he : d = c
    · subst he
      exact h.covers d p hc (hunfinished.1 none) hunfinished.2
    · rw [List.getElem?_set_ne (Ne.symm he)] at hd
      exact h.covers d q hd hnull hgone

/-- A pointer that its owner has no more use for: the call has returned a null pointer, or the job
is destroyed. -/
theorem drop (h : Held f ((c, r) :: holds)) (hc : f.calls[c]? = some p)
    (hp : p = .returned none ∨ p = .deallocated) : Held f holds where
  inv := h.inv
  nodup := (List.nodup_cons.mp h.nodup).2
  right x hx := h.right x (List.mem_cons_of_mem _ hx)
  covers d q hd hnull hgone := by
    refine (List.mem_cons.mp (h.covers d q hd hnull hgone)).resolve_left ?_
    rintro rfl
    obtain rfl := Option.some.inj (hc.symm.trans hd)
    rcases hp with rfl | rfl
    · exact hnull rfl
    · exact hgone rfl

/-- The owner learns what its call has returned. -/
theorem change (h : Held f ((c, r) :: holds)) (hc : f.calls[c]? = some p) (hright : r'.Of p) :
    Held f ((c, r') :: holds) where
  inv := h.inv
  nodup := h.nodup
  right x hx := by
    rcases List.mem_cons.mp hx with rfl | hx
    · exact ⟨p, hc, hright⟩
    · exact h.right x (List.mem_cons_of_mem _ hx)
  covers := h.covers

/-- `DeallocateJob` for the owner of a job. -/
theorem deallocateJob (h : Held f ((c, .job) :: holds))
    (hs : f.step (.deallocateJob c) = some f') : Held f' ((c, .gone) :: holds) := by
  have hinv := step_inv h.inv hs
  obtain ⟨p, hc, b, rfl⟩ := h.call
  obtain ⟨hlt, -⟩ := List.getElem?_eq_some_iff.mp hc
  have hc : f.calls[c]? = some (.returned (some b)) := hc
  simp only [step, hc] at hs
  obtain rfl := Option.some.inj hs
  have hcalls : ((f.deallocateJob (some b)).move c .deallocated).calls =
      f.calls.set c .deallocated := rfl
  refine ⟨hinv, h.nodup, fun x hx => ?_, fun d q hd hnull hgone => ?_⟩
  · rw [hcalls]
    rcases List.mem_cons.mp hx with rfl | hx
    · exact ⟨.deallocated, List.getElem?_set_self hlt, rfl⟩
    · rw [List.getElem?_set_ne (Ne.symm (h.ne_of_mem hx))]
      exact h.right x (List.mem_cons_of_mem _ hx)
  · rw [hcalls] at hd
    by_cases he : d = c
    · exact List.mem_cons.mpr (.inl he)
    · rw [List.getElem?_set_ne (Ne.symm he)] at hd
      exact h.covers d q hd hnull hgone

/-- And it is there to be destroyed. -/
theorem deallocateJob_isSome (h : Held f ((c, .job) :: holds)) :
    (f.step (.deallocateJob c)).isSome := by
  obtain ⟨p, hc, b, rfl⟩ := h.call
  have hc : f.calls[c]? = some (.returned (some b)) := hc
  simp only [step, hc, Option.isSome_some]

end Held

namespace JobOwners

variable {f f' : JobFactory} {rest : List (Nat × Right)} {i n uMaxClient_ : Nat}

/-- A job that its owner has destroyed. -/
theorem Held.clear {c : Nat} (h : Held f ((c, .gone) :: rest)) : Held f rest := by
  obtain ⟨p, hc, rfl⟩ := h.call
  exact h.drop hc (.inr rfl)

/-- Two pointers change places. -/
theorem Held.swap {x y : Nat × Right} (h : Held f (x :: y :: rest)) : Held f (y :: x :: rest) :=
  h.perm (List.Perm.swap x y rest)

/-- What a step of a slot does to its jobs, with those of the others as they were. -/
theorem slotStep_held {s s' : JobSlot} {a : SlotAct} (h : Held f (s.holds ++ rest))
    (hs : slotStep i f s a = some (f', s')) : Held f' (s'.holds ++ rest) := by
  obtain ⟨jobProcess, job, hand⟩ := s
  cases a with
  | lock =>
    simp only [slotStep] at hs
    split at hs
    · obtain ⟨rfl, rfl⟩ := Prod.mk.inj (Option.some.inj hs)
      exact h
    · cases hs
  | parse req =>
    simp only [slotStep] at hs
    split at hs
    · split at hs
      · obtain ⟨rfl, rfl⟩ := Prod.mk.inj (Option.some.inj hs)
        exact h
      · obtain ⟨q, -, hs⟩ := Option.bind_eq_some_iff.mp hs
        obtain ⟨f₁, hcreate, hs⟩ := Option.map_eq_some_iff.mp hs
        obtain ⟨rfl, rfl⟩ := Prod.mk.inj hs
        exact h.create hcreate
    · cases hs
  | parsed =>
    simp only [slotStep] at hs
    split at hs
    · next c =>
      split at hs
      · next hc =>
        obtain ⟨rfl, rfl⟩ := Prod.mk.inj (Option.some.inj hs)
        exact h.drop hc (.inl rfl)
      · next b hc =>
        have hjob : Held f ((c, .job) :: _) := h.change hc ⟨b, rfl⟩
        split at hs
        · obtain ⟨rfl, rfl⟩ := Prod.mk.inj (Option.some.inj hs)
          exact hjob
        · obtain ⟨f₁, hdealloc, hs⟩ := Option.map_eq_some_iff.mp hs
          obtain ⟨rfl, rfl⟩ := Prod.mk.inj hs
          exact Held.swap ((Held.swap hjob).deallocateJob hdealloc)
      · cases hs
    · cases hs
  | store =>
    simp only [slotStep] at hs
    split at hs
    · next c =>
      obtain ⟨rfl, rfl⟩ := Prod.mk.inj (Option.some.inj hs)
      cases job with
      | none => exact h
      | some old => exact Held.clear (Held.swap h)
    · cases hs
  | execute bRet =>
    simp only [slotStep] at hs
    split at hs
    · split at hs
      · obtain ⟨rfl, rfl⟩ := Prod.mk.inj (Option.some.inj hs)
        exact h
      · obtain ⟨rfl, rfl⟩ := Prod.mk.inj (Option.some.inj hs)
        exact h
    · cases hs
  | sendRes bRet =>
    simp only [slotStep] at hs
    split at hs
    · split at hs
      · obtain ⟨rfl, rfl⟩ := Prod.mk.inj (Option.some.inj hs)
        exact h
      · split at hs
        · obtain ⟨f₁, hdealloc, hs⟩ := Option.map_eq_some_iff.mp hs
          obtain ⟨rfl, rfl⟩ := Prod.mk.inj hs
          exact h.deallocateJob hdealloc
        · obtain ⟨rfl, rfl⟩ := Prod.mk.inj (Option.some.inj hs)
          exact h
    · cases hs
  | clear =>
    simp only [slotStep] at hs
    split at hs
    · obtain ⟨rfl, rfl⟩ := Prod.mk.inj (Option.some.inj hs)
      cases job with
      | none => exact h
      | some c => exact Held.clear h
    · cases hs

/-- What a step of a datagram does to its job, with those of the others as they were. -/
theorem datagramStep_held {d d' : UDPClosure} {a : ClosureAct} (h : Held f (d.holds ++ rest))
    (hs : datagramStep f d a = some (f', d')) : Held f' (d'.holds ++ rest) := by
  unfold datagramStep at hs
  split at hs
  · next c pushed =>
    split at hs
    · next hc =>
      obtain ⟨rfl, rfl⟩ := Prod.mk.inj (Option.some.inj hs)
      exact h.drop hc (.inl rfl)
    · next b hc =>
      obtain ⟨rfl, rfl⟩ := Prod.mk.inj (Option.some.inj hs)
      have hjob : Held f ((c, .job) :: _) := h.change hc ⟨b, rfl⟩
      split
      · exact hjob
      · exact hjob
    · cases hs
  · obtain ⟨rfl, rfl⟩ := Prod.mk.inj (Option.some.inj hs)
    exact h
  · obtain ⟨f₁, hdealloc, hs⟩ := Option.map_eq_some_iff.mp hs
    obtain ⟨rfl, rfl⟩ := Prod.mk.inj hs
    exact Held.clear (h.deallocateJob hdealloc)
  · obtain ⟨rfl, rfl⟩ := Prod.mk.inj (Option.some.inj hs)
    exact h
  · cases hs

variable {s s' : JobOwners} {a : OwnersAct}

/-- What one slot has, and what all others have. -/
theorem holds_slot {slot : JobSlot} (hslot : s.m_Jobs[i]? = some slot) :
    ∃ rest, List.Perm s.holds (slot.holds ++ rest) ∧ ∀ f slot',
      List.Perm ({ s with factory := f, m_Jobs := s.m_Jobs.set i slot' } : JobOwners).holds
        (slot'.holds ++ rest) := by
  obtain ⟨rest, hself, hset⟩ := flatMap_set_perm JobSlot.holds hslot
  refine ⟨rest ++ s.datagrams.flatMap UDPClosure.holds, ?_, fun f slot' => ?_⟩
  · rw [← List.append_assoc]
    exact hself.append_right _
  · rw [← List.append_assoc]
    exact (hset slot').append_right _

/-- What one datagram has, and what all others have. -/
theorem holds_datagram {k : Nat} {d : UDPClosure} (hd : s.datagrams[k]? = some d) :
    ∃ rest, List.Perm s.holds (d.holds ++ rest) ∧ ∀ f d',
      List.Perm ({ s with factory := f, datagrams := s.datagrams.set k d' } : JobOwners).holds
        (d'.holds ++ rest) := by
  obtain ⟨rest, hself, hset⟩ := flatMap_set_perm UDPClosure.holds hd
  refine ⟨s.m_Jobs.flatMap JobSlot.holds ++ rest, ?_, fun f d' => ?_⟩
  · exact (hself.append_left _).trans (List.perm_append_comm_assoc ..)
  · exact ((hset d').append_left _).trans (List.perm_append_comm_assoc ..)

theorem step_slot {a : SlotAct} (h : step s (.slot i a) = some s') :
    ∃ slot f slot', s.m_Jobs[i]? = some slot ∧ slotStep i s.factory slot a = some (f, slot') ∧
      s' = { s with factory := f, m_Jobs := s.m_Jobs.set i slot' } := by
  obtain ⟨slot, hslot, h⟩ := Option.bind_eq_some_iff.mp h
  obtain ⟨⟨f, slot'⟩, hstep, h⟩ := Option.map_eq_some_iff.mp h
  exact ⟨slot, f, slot', hslot, hstep, h.symm⟩

theorem step_datagram {k : Nat} {a : ClosureAct} (h : step s (.datagram k a) = some s') :
    ∃ d f d', s.datagrams[k]? = some d ∧ datagramStep s.factory d a = some (f, d') ∧
      s' = { s with factory := f, datagrams := s.datagrams.set k d' } := by
  obtain ⟨d, hd, h⟩ := Option.bind_eq_some_iff.mp h
  obtain ⟨⟨f, d'⟩, hstep, h⟩ := Option.map_eq_some_iff.mp h
  exact ⟨d, f, d', hd, hstep, h.symm⟩

theorem step_held (h : Held s.factory s.holds) (hs : step s a = some s') :
    Held s'.factory s'.holds := by
  cases a with
  | slot i a =>
    obtain ⟨slot, f, slot', hslot, hstep, rfl⟩ := step_slot hs
    obtain ⟨rest, hself, hset⟩ := holds_slot hslot
    exact (slotStep_held (h.perm hself.symm) hstep).perm (hset f slot')
  | create c allocated =>
    obtain ⟨f, hgo, rfl⟩ := Option.map_eq_some_iff.mp hs
    exact h.go hgo
  | udpReceive uClientIndex_ msg_ =>
    obtain ⟨q, -, hs⟩ := Option.bind_eq_some_iff.mp hs
    obtain ⟨f, hcreate, rfl⟩ := Option.map_eq_some_iff.mp hs
    refine (h.create hcreate).perm ?_
    rw [holds, List.flatMap_append, List.flatMap_singleton, ← List.append_assoc]
    exact List.perm_append_singleton _ _
  | datagram k a =>
    obtain ⟨d, f, d', hd, hstep, rfl⟩ := step_datagram hs
    obtain ⟨rest, hself, hset⟩ := holds_datagram hd
    exact (datagramStep_held (h.perm hself.symm) hstep).perm (hset f d')

theorem holds_init (n uMaxClient_ : Nat) : (init n uMaxClient_).holds = [] := by
  have hslots : (List.replicate uMaxClient_ JobSlot.new).flatMap JobSlot.holds = [] := by
    rw [List.flatMap_eq_nil_iff]
    intro slot hslot
    obtain rfl := List.eq_of_mem_replicate hslot
    rfl
  exact congrArg (· ++ []) hslots

theorem held_of_run {acts : List OwnersAct} (hr : run step (init n uMaxClient_) acts = some s) :
    Held s.factory s.holds := by
  refine run_stable (fun _ _ _ h hs => step_held h hs) ?_ hr
  rw [holds_init]
  refine ⟨inv_init n, List.nodup_nil, fun x hx => ?_, fun c p hc => ?_⟩
  · cases hx
  · cases hc

/-- The blocks that the owners have. -/
def owned (s : JobOwners) : List Nat := s.holds.flatMap fun x => s.factory.taken x.1

/-- They are the blocks with a job in them. -/
theorem owned_count (h : Held s.factory s.holds) (b : Nat) :
    s.owned.count b = s.factory.blocks.count b := by
  rw [h.inv.owned, ← flatMap_range CreateCall.taken s.factory.calls]
  have hmap : s.owned = (s.holds.map Prod.fst).flatMap s.factory.taken := by
    rw [List.flatMap_map]
    rfl
  rw [hmap]
  apply List.Perm.count_eq
  apply flatMap_perm h.nodup List.nodup_range
  intro c hc
  have hcall : ∃ p, s.factory.calls[c]? = some p ∧ p.taken ≠ [] := by
    unfold taken at hc
    cases hp : s.factory.calls[c]? with
    | none => exact absurd (by rw [hp]; rfl) hc
    | some p => exact ⟨p, rfl, by rwa [hp] at hc⟩
  obtain ⟨p, hp, htaken⟩ := hcall
  obtain ⟨hlt, -⟩ := List.getElem?_eq_some_iff.mp hp
  refine iff_of_true (h.covers c p hp ?_ ?_) (List.mem_range.mpr hlt)
  · rintro rfl
    exact htaken rfl
  · rintro rfl
    exact htaken rfl

/-- In every run: who may use a pointer has a job there, which `DeallocateJob` takes; no two have
a pointer to one job; and each block that `operator new` has given is in the free list, or one
owner's, once. -/
theorem pointers_live {acts : List OwnersAct}
    (hr : run step (init n uMaxClient_) acts = some s) :
    (∀ c, (c, Right.job) ∈ s.holds → (∃ b, s.factory.calls[c]? = some (.returned (some b)) ∧
        b ∈ s.factory.blocks) ∧ (s.factory.step (.deallocateJob c)).isSome = true) ∧
      (s.holds.map Prod.fst).Nodup ∧
      ∀ b, s.factory.data.count b + s.owned.count b = if b < s.factory.next then 1 else 0 := by
  have hheld := held_of_run hr
  refine ⟨fun c hc => ?_, hheld.nodup, fun b => ?_⟩
  · have hmine := hheld.perm (List.perm_cons_erase hc).symm
    obtain ⟨p, hp, b, rfl⟩ := hmine.call
    exact ⟨⟨b, hp, hheld.inv.live hp (List.mem_singleton_self b)⟩, hmine.deallocateJob_isSome⟩
  · rw [owned_count hheld]
    exact hheld.inv.conserved b

/-- A message for slot 0 and a datagram, with one block in the pool. -/
def bothJobs : List OwnersAct :=
  [.slot 0 .lock, .slot 0 (.parse (some tokenFrame)), .udpReceive 1 tokenFrame, .create 1 true,
    .create 1 true, .create 0 true, .create 0 true, .create 0 true, .slot 0 .parsed,
    .datagram 0 (.enqueue true), .datagram 0 .take, .slot 0 (.execute true),
    .slot 0 (.sendRes true), .datagram 0 .run, .slot 0 .clear, .slot 0 (.parse none)]

/-- Both jobs are there, and each has a block of its own. -/
theorem pointers_live_both : ∃ s, run step (init 1 2) (bothJobs.take 12) = some s ∧
    s.holds = [(0, .job), (1, .job)] ∧ (s.factory.step (.deallocateJob 0)).isSome = true ∧
    ∀ b, s.factory.data.count b + s.owned.count b = if b < 2 then 1 else 0 := by
  have hend : (run step (init 1 2) (bothJobs.take 12)).map (fun s =>
      decide (s.holds = [(0, .job), (1, .job)] ∧ s.factory.next = 2)) = some true := by
    decide +kernel
  obtain ⟨s, hs, hrest⟩ := Option.map_eq_some_iff.mp hend
  obtain ⟨hholds, hnext⟩ := of_decide_eq_true hrest
  obtain ⟨hjobs, -, hcount⟩ := pointers_live hs
  refine ⟨s, hs, hholds, (hjobs 0 ?_).2, fun b => hnext ▸ hcount b⟩
  rw [hholds]
  exact List.mem_cons_self

/-! ## Lost closures -/

/-- `Enqueue` fails for no closure with a job, and no closure is destroyed in the queue. -/
def KeepsClosures (s : JobOwners) : OwnersAct → Prop
  | .datagram k (.enqueue pushed) => ∀ pJob, s.datagrams[k]? = some (.creating pJob) →
      s.factory.calls[pJob]? ≠ some (.returned none) → pushed = true
  | .datagram _ .destroy => False
  | _ => True

/-- A closure has been lost. -/
def Lost (s : JobOwners) : Prop := ∃ pJob, UDPClosure.lost pJob ∈ s.datagrams

theorem mem_set_of_ne {l : List UDPClosure} {k : Nat} {d d' x : UDPClosure} (hd : l[k]? = some d)
    (hx : x ∈ l) (hne : x ≠ d) : x ∈ l.set k d' := by
  obtain ⟨j, hj⟩ := List.mem_iff_getElem?.mp hx
  have hjk : k ≠ j := by
    rintro rfl
    exact hne (Option.some.inj (hj.symm.trans hd))
  apply List.mem_iff_getElem?.mpr
  exact ⟨j, by rw [List.getElem?_set_ne hjk]; exact hj⟩

/-- What is lost stays so. -/
theorem step_lost (h : s.Lost) (hs : step s a = some s') : s'.Lost := by
  obtain ⟨pJob, hlost⟩ := h
  refine ⟨pJob, ?_⟩
  cases a with
  | slot i a =>
    obtain ⟨slot, f, slot', -, -, rfl⟩ := step_slot hs
    exact hlost
  | create c allocated =>
    obtain ⟨f, -, rfl⟩ := Option.map_eq_some_iff.mp hs
    exact hlost
  | udpReceive uClientIndex_ msg_ =>
    obtain ⟨q, -, hs⟩ := Option.bind_eq_some_iff.mp hs
    obtain ⟨f, -, rfl⟩ := Option.map_eq_some_iff.mp hs
    exact List.mem_append_left _ hlost
  | datagram k a =>
    obtain ⟨d, f, d', hd, hstep, rfl⟩ := step_datagram hs
    apply mem_set_of_ne hd hlost
    rintro rfl
    cases a <;> cases hstep

/-- A step that keeps to the condition loses none. -/
theorem step_kept (h : ¬ s.Lost) (ha : s.KeepsClosures a) (hs : step s a = some s') :
    ¬ s'.Lost := by
  rintro ⟨pJob, hlost⟩
  cases a with
  | slot i a =>
    obtain ⟨slot, f, slot', -, -, rfl⟩ := step_slot hs
    exact h ⟨pJob, hlost⟩
  | create c allocated =>
    obtain ⟨f, -, rfl⟩ := Option.map_eq_some_iff.mp hs
    exact h ⟨pJob, hlost⟩
  | udpReceive uClientIndex_ msg_ =>
    obtain ⟨q, -, hs⟩ := Option.bind_eq_some_iff.mp hs
    obtain ⟨f, -, rfl⟩ := Option.map_eq_some_iff.mp hs
    rcases List.mem_append.mp hlost with hlost | hlost
    · exact h ⟨pJob, hlost⟩
    · cases List.mem_singleton.mp hlost
  | datagram k a =>
    obtain ⟨d, f, d', hd, hstep, rfl⟩ := step_datagram hs
    rcases List.mem_or_eq_of_mem_set hlost with hlost | rfl
    · exact h ⟨pJob, hlost⟩
    · unfold datagramStep at hstep
      split at hstep
      · next c pushed =>
        split at hstep
        · cases hstep
        · next b hc =>
          have hpushed : pushed = true := ha c hd fun he => by
            rw [hc] at he
            cases he
          rw [if_pos hpushed] at hstep
          cases hstep
        · cases hstep
      · cases hstep
      · obtain ⟨f₁, -, hstep⟩ := Option.map_eq_some_iff.mp hstep
        cases hstep
      · exact ha
      · cases hstep

/-- Any other step loses one. -/
theorem step_loses (ha : ¬ s.KeepsClosures a) (hs : step s a = some s') : s'.Lost := by
  cases a with
  | datagram k a =>
    obtain ⟨d, f, d', hd, hstep, rfl⟩ := step_datagram hs
    obtain ⟨hlt, -⟩ := List.getElem?_eq_some_iff.mp hd
    have hmem : d' ∈ s.datagrams.set k d' := List.mem_set hlt d'
    unfold datagramStep at hstep
    split at hstep
    · next c pushed =>
      simp only [KeepsClosures, not_forall] at ha
      obtain ⟨pJob, hpJob, hcall, hpushed⟩ := ha
      obtain rfl := UDPClosure.creating.inj (Option.some.inj (hd.symm.trans hpJob))
      split at hstep
      · next hc => exact absurd hc hcall
      · rw [if_neg hpushed] at hstep
        obtain ⟨-, rfl⟩ := Prod.mk.inj (Option.some.inj hstep)
        exact ⟨c, hmem⟩
      · cases hstep
    · exact absurd trivial ha
    · exact absurd trivial ha
    · obtain ⟨-, rfl⟩ := Prod.mk.inj (Option.some.inj hstep)
      exact ⟨_, hmem⟩
    · cases hstep
  | slot i a => exact absurd trivial ha
  | create c allocated => exact absurd trivial ha
  | udpReceive uClientIndex_ msg_ => exact absurd trivial ha

/-- No slot has a job, and no closure that is not lost. -/
def Rest (s : JobOwners) : Prop :=
  (∀ slot ∈ s.m_Jobs, slot.holds = []) ∧
    ∀ d ∈ s.datagrams, d = .finished ∨ ∃ pJob, d = .lost pJob

/-- At rest all blocks that `operator new` has given are in the free list, if and only if no
closure has been lost. -/
theorem blocks_back_iff {acts : List OwnersAct} (hr : run step (init n uMaxClient_) acts = some s)
    (hrest : s.Rest) :
    (∀ b, s.factory.data.count b = if b < s.factory.next then 1 else 0) ↔
      Meets step KeepsClosures (init n uMaxClient_) acts := by
  have hheld := held_of_run hr
  have hconserved : ∀ b, s.factory.data.count b + s.owned.count b =
      if b < s.factory.next then 1 else 0 := by
    intro b
    rw [owned_count hheld]
    exact hheld.inv.conserved b
  have hslots : s.m_Jobs.flatMap JobSlot.holds = [] := List.flatMap_eq_nil_iff.mpr hrest.1
  have hunlost : (∀ b, s.factory.data.count b = if b < s.factory.next then 1 else 0) ↔
      ¬ s.Lost := by
    constructor
    · rintro hall ⟨pJob, hlost⟩
      have hmem : (pJob, Right.job) ∈ s.holds :=
        List.mem_append_right _ (List.mem_flatMap_of_mem hlost (List.mem_singleton_self _))
      obtain ⟨p, hp, b, rfl⟩ := hheld.right _ hmem
      have hb : b ∈ s.owned := by
        refine List.mem_flatMap_of_mem hmem ?_
        have hp : s.factory.calls[pJob]? = some (.returned (some b)) := hp
        simp only [taken, hp, Option.elim_some, CreateCall.taken, Option.toList_some,
          List.mem_singleton]
      have hpos := List.count_pos_iff.mpr hb
      have hsum := hconserved b
      have hfree := hall b
      omega
    · intro hno b
      have hdatagrams : s.datagrams.flatMap UDPClosure.holds = [] := by
        rw [List.flatMap_eq_nil_iff]
        intro d hd
        rcases hrest.2 d hd with rfl | ⟨pJob, rfl⟩
        · rfl
        · exact absurd ⟨pJob, hd⟩ hno
      have hnone : s.owned = [] := by rw [owned, holds, hslots, hdatagrams]; rfl
      have hsum := hconserved b
      rw [hnone, List.count_nil, Nat.add_zero] at hsum
      exact hsum
  rw [hunlost]
  constructor
  · intro hno
    exact meets_of_unmarked (I := fun _ => True) (fun _ _ _ _ _ => trivial)
      (fun _ _ _ _ ha hs => step_loses ha hs) (fun _ _ _ _ h hs => step_lost h hs) trivial hr hno
  · intro hmeets
    refine run_invariant (fun _ _ _ h ha hs => step_kept h ha hs) ?_ hmeets hr
    rintro ⟨pJob, hlost⟩
    cases hlost

/-- Both jobs are through, and their blocks are back. -/
theorem blocks_back_iff_both : Meets step KeepsClosures (init 1 2) bothJobs := by
  have hend : (run step (init 1 2) bothJobs).map (fun s =>
      decide (s.factory.data = [1, 0] ∧ s.factory.next = 2 ∧ (∀ slot ∈ s.m_Jobs, slot.holds = []) ∧
        s.datagrams = [.finished])) = some true := by decide +kernel
  obtain ⟨s, hs, hrest⟩ := Option.map_eq_some_iff.mp hend
  obtain ⟨hdata, hnext, hslots, hdatagrams⟩ := of_decide_eq_true hrest
  refine (blocks_back_iff hs ⟨hslots, fun d hd => ?_⟩).mp fun b => ?_
  · rw [hdatagrams] at hd
    exact .inl (List.mem_singleton.mp hd)
  · have hperm : List.Perm s.factory.data (List.range s.factory.next) := by
      rw [hdata, hnext]
      exact List.Perm.swap 0 1 []
    rw [hperm.count_eq]
    exact List.count_range

end JobOwners

end RacingGameServer
