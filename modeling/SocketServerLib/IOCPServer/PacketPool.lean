import Mathlib.Data.List.Perm.Basic
import Mathlib.Data.List.Nodup
import Mathlib.Data.List.Range
import SocketServerLib.Lib.AnsweredLoop
import SocketServerLib.Lib.LabelledRun

/-
  `PacketPool` of the IOCP server, from its constructor to its destructor.

  A packet is a number; those below `next` have been made. `taken` are the packets that
  `Allocate` has returned and nobody has given back, and `growing` counts the calls of
  `Allocate` that have found the free list empty and are in front of `new`. A step is one
  operation of the free list, or one `new`, of any thread.

  What is proved:
    1. `step_conserved` — every packet that was made is in the free list or taken.
    2. `loop_empty`, `loop_cons` — the loop of the destructor goes on for ever with an empty
       list, and leaves any other one with the first packet in hand.
    3. `nothing_freed` — so that in no run the destructor deletes what is in the free list.

  What is assumed: no other call is in progress when the destructor runs, and `new` gives a packet
  that is not in use.
-/
namespace IOCPServer
open AnsweredLoop LabelledRun
open scoped List

/-- `INIT_PACKET_COUNT`. -/
def initPacketCount : Nat := 100

structure PacketPool where
  freeList : List Nat
  taken : List Nat
  growing : Nat
  next : Nat

/-- `allocated` is whether `new` has memory for a packet and its buffer. -/
inductive PacketAct where
  | allocate
  | newPacket (allocated : Bool)
  | deallocate (pPacket_ : Nat)

namespace PacketPool

/-- The constructor has made `n` packets, and then there was no memory or they are enough. -/
def init (n : Nat) : PacketPool :=
  { freeList := List.range n, taken := [], growing := 0, next := n }

def step (s : PacketPool) : PacketAct → Option PacketPool
  | .allocate =>
    match s.freeList with
    | [] => some { s with growing := s.growing + 1 }
    | pRet :: rest => some { s with freeList := rest, taken := pRet :: s.taken }
  | .newPacket allocated =>
    if s.growing = 0 then none
    else if allocated = true then
      some { s with
        taken := s.next :: s.taken
        growing := s.growing - 1
        next := s.next + 1 }
    else some { s with growing := s.growing - 1 }
  | .deallocate pPacket_ =>
    -- a caller gives back what it has got
    if pPacket_ ∈ s.taken then
      some { s with
        freeList := s.freeList ++ [pPacket_]
        taken := s.taken.erase pPacket_ }
    else none

/-- All packets have been given back, and nobody is in `Allocate`. -/
def AllReturned (s : PacketPool) : Prop := s.taken = [] ∧ s.growing = 0

/-! ## The destructor -/

/-- The free list, the local variable, and what has been deleted. -/
structure Destructor where
  freeList : List Nat
  pPacket : Option Nat
  deleted : List Nat

def Destructor.start (freeList : List Nat) : Destructor :=
  { freeList := freeList, pPacket := none, deleted := [] }

/-- `try_pop` leaves the variable where there is nothing. -/
def Destructor.tryPop (d : Destructor) : Destructor × Bool :=
  match d.freeList with
  | [] => (d, false)
  | p :: rest => ({ d with freeList := rest, pPacket := some p }, true)

/-- `delete pPacket`, which does nothing to a null pointer. -/
def Destructor.deletePacket (d : Destructor) : Destructor :=
  { d with deleted := d.deleted ++ d.pPacket.toList }

/-- `while (!m_FreeList.try_pop(pPacket))`, and its body. -/
def Destructor.turn (d : Destructor) (_ : Unit) : Destructor ⊕ Destructor :=
  match d.tryPop with
  | (d, false) => .inr d.deletePacket
  | (d, true) => .inl d

/-- The destructor ends, and has deleted every packet of the free list once. -/
def FreesAll (s : PacketPool) : Prop :=
  ∃ fuel d, loop Destructor.turn fuel (fun _ => ()) (.start s.freeList) = some d ∧
    ∀ p ∈ s.freeList, d.deleted.count p = 1

variable {s s' : PacketPool} {a : PacketAct} {n p : Nat} {rest : List Nat}

/-! ## Every packet that was made -/

/-- Every packet that was made is in the free list or taken, once. -/
def Conserved (s : PacketPool) : Prop :=
  s.freeList ++ s.taken ~ List.range s.next

theorem conserved_init (n : Nat) : (init n).Conserved := by
  rw [Conserved, init, List.append_nil]

theorem step_conserved (hs : s.Conserved) (h : step s a = some s') : s'.Conserved := by
  unfold Conserved at hs
  cases a with
  | allocate =>
    simp only [step] at h
    split at h
    · obtain rfl := Option.some.inj h
      exact hs
    · next pRet rest hfree =>
      obtain rfl := Option.some.inj h
      rw [hfree] at hs
      exact List.perm_middle.trans hs
  | newPacket allocated =>
    simp only [step] at h
    split at h
    · cases h
    split at h
    · obtain rfl := Option.some.inj h
      rw [Conserved, List.range_succ]
      calc s.freeList ++ s.next :: s.taken
          ~ s.next :: (s.freeList ++ s.taken) := List.perm_middle
        _ ~ s.next :: List.range s.next := hs.cons s.next
        _ ~ List.range s.next ++ [s.next] := (List.perm_append_singleton s.next _).symm
    · obtain rfl := Option.some.inj h
      exact hs
  | deallocate pPacket_ =>
    simp only [step] at h
    split at h
    · next hmem =>
      obtain rfl := Option.some.inj h
      rw [Conserved, List.append_assoc, List.singleton_append]
      have hback : pPacket_ :: s.taken.erase pPacket_ ~ s.taken :=
        (List.perm_cons_erase hmem).symm
      exact (hback.append_left s.freeList).trans hs
    · cases h

/-! ## The loop -/

theorem loop_empty : ¬ Returns Destructor.turn (fun _ => ()) (.start []) := by
  apply not_returns (J := fun d => d.freeList = [])
  · intro d _ hd
    refine ⟨d.deletePacket, ?_, hd⟩
    simp only [Destructor.turn, Destructor.tryPop, hd]
  · rfl

theorem loop_cons (p : Nat) (rest : List Nat) (fuel : Nat) :
    loop Destructor.turn (fuel + 1) (fun _ => ()) (.start (p :: rest)) =
      some { freeList := rest, pPacket := some p, deleted := [] } :=
  loop_of_inl rfl fuel

/-- With any free list the destructor hangs or has deleted nothing. -/
theorem not_freesAll (s : PacketPool) : ¬ s.FreesAll := by
  intro hfrees
  obtain ⟨fuel, d, hloop, hdeleted⟩ := hfrees
  cases hfree : s.freeList with
  | nil =>
    rw [hfree] at hloop
    exact loop_empty ⟨fuel, d, hloop⟩
  | cons p rest =>
    rw [hfree] at hloop hdeleted
    cases fuel with
    | zero => cases hloop
    | succ fuel =>
      rw [loop_cons] at hloop
      have hone := hdeleted p List.mem_cons_self
      rw [← Option.some.inj hloop] at hone
      cases hone

/-- In every run after which all packets have been given back they are all in the free list, and
the destructor does not free them: it does not end if there are none, and deletes none of them
otherwise. -/
theorem nothing_freed {acts : List PacketAct} (hr : run step (init n) acts = some s)
    (hreturned : s.AllReturned) :
    s.freeList ~ List.range s.next ∧ ¬ s.FreesAll ∧
      (s.freeList = [] → ¬ Returns Destructor.turn (fun _ => ()) (.start s.freeList)) ∧
      (s.freeList ≠ [] → ∃ d, d.deleted = [] ∧
        ∀ fuel, loop Destructor.turn (fuel + 1) (fun _ => ()) (.start s.freeList) = some d) := by
  have hs : s.Conserved := run_stable (fun _ _ _ => step_conserved) (conserved_init n) hr
  refine ⟨?_, not_freesAll s, fun hempty => ?_, fun hne => ?_⟩
  · rw [Conserved, hreturned.1, List.append_nil] at hs
    exact hs
  · rw [hempty]
    exact loop_empty
  · obtain ⟨p, rest, hfree⟩ := List.exists_cons_of_ne_nil hne
    rw [hfree]
    exact ⟨_, rfl, loop_cons p rest⟩

/-- One packet goes out and comes back. -/
def oneReturned : List PacketAct := [.allocate, .deallocate 0]

theorem nothing_freed_one : ∃ s, run step (init 2) oneReturned = some s ∧
    s.freeList = [1, 0] ∧ ¬ s.FreesAll := by
  have hrun : run step (init 2) oneReturned =
      some { freeList := [1, 0], taken := [], growing := 0, next := 2 } := rfl
  exact ⟨_, hrun, rfl, (nothing_freed hrun ⟨rfl, rfl⟩).2.1⟩

/-- A pool that nobody has used leaves its packets behind, and one for which there was no memory
does not end. -/
theorem pool_leaked :
    (∃ s, run step (init initPacketCount) [] = some s ∧ s.AllReturned ∧ ¬ s.FreesAll) ∧
      ∃ s, run step (init 0) [] = some s ∧ s.AllReturned ∧ ¬ s.FreesAll :=
  ⟨⟨_, rfl, ⟨rfl, rfl⟩, not_freesAll _⟩, ⟨_, rfl, ⟨rfl, rfl⟩, not_freesAll _⟩⟩

end PacketPool

end IOCPServer
