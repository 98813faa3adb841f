import SocketServerLib.Lib.LabelledRun
import SocketServerLib.RacingGameServer.SendBuffer

/-
  `SendBuffer::Allocate` on a ring that is in use, and the packet pool.

  The rings are those that `Allocate`, `Push` and `Pop` make of a new one; a ring that has not
  been allocated has no cells, so that `Push`, and `Pop` of anything, have no meaning there.
  `allocateIn` is a call with the free list of the pool before and after it: `Allocate` gives
  the packets that it removes to `delete`, and none to the pool.

  What is proved:
    1. `reachable_valid` — every ring that is reached is a new one, or holds a queue.
    2. `reallocate_iff` — a call does what is documented, if and only if the ring is empty, or
       there is nothing to allocate, or no memory for it.
    3. `packets_deleted` — a queued packet that is deleted, and one that stays in the ring.

  What is assumed: the calls on a ring do not overlap, and a packet that is pushed is not in the
  ring yet.
-/
namespace RacingGameServer
namespace SendBuffer
open LabelledRun

inductive RingCall where
  | allocate (capacity_ : Nat) (bMemory_ : Bool)
  | push (pPacket_ : Option PacketData)
  | pop (ioSize_ : Nat)

def callStep (b : SendBuffer) : RingCall → Option SendBuffer
  | .allocate capacity_ bMemory_ => some (b.allocate capacity_ bMemory_).1
  | .push pPacket_ => if b.capacity = 0 then none else some (b.push pPacket_).1
  | .pop ioSize_ => if b.capacity = 0 ∧ ioSize_ ≠ 0 then none else some (b.pop ioSize_).1

/-- The ring after `Allocate`, what it returns, and the pool after it. -/
def allocateIn (b : SendBuffer) (pool : List PacketData) (capacity_ : Nat) (bMemory_ : Bool) :
    SendBuffer × Bool × List PacketData :=
  let r := b.allocate capacity_ bMemory_
  (r.1, r.2.1, pool)

/-- What `Allocate` is documented to do: where it returns true the ring is empty and the pool
has every packet of the queue once more, and where it returns false nothing has changed. -/
structure Reallocates (b : SendBuffer) (pool : List PacketData) (capacity_ : Nat)
    (r : SendBuffer × Bool × List PacketData) : Prop where
  empty : r.2.1 = true → r.1.Holds [] ∧ r.1.capacity = capacity_
  returned : r.2.1 = true →
    List.Perm (r.2.2.map PacketData.addr) ((pool ++ b.queue).map PacketData.addr)
  unchanged : r.2.1 = false → r.1 = b ∧ r.2.2 = pool

/-- A new ring, or one that holds a queue. -/
def Valid (b : SendBuffer) : Prop := b = constructed ∨ ∃ q, b.Holds q

variable {b b' : SendBuffer} {a : RingCall} {capacity_ : Nat}

/-! ## The rings that are reached -/

theorem pop_zero (b : SendBuffer) : b.pop 0 = (b, []) := by
  simp only [pop, popLoop, if_true]

theorem allocate_valid (h : b.Valid) (capacity_ : Nat) (bMemory_ : Bool) :
    (b.allocate capacity_ bMemory_).1.Valid := by
  unfold allocate
  by_cases hzero : capacity_ = 0
  · rw [if_pos hzero]
    exact h
  · rw [if_neg hzero]
    split
    · exact h
    split
    · exact h
    · exact .inr ⟨[], holds_allocated (Nat.pos_of_ne_zero hzero)⟩

theorem callStep_valid (hb : b.Valid) (h : callStep b a = some b') : b'.Valid := by
  cases a with
  | allocate capacity_ bMemory_ =>
    obtain rfl := Option.some.inj h
    exact allocate_valid hb capacity_ bMemory_
  | push pPacket_ =>
    simp only [callStep] at h
    split at h
    · cases h
    next hcap =>
      obtain rfl := Option.some.inj h
      rcases hb with rfl | ⟨q, hq⟩
      · exact absurd rfl hcap
      · cases pPacket_ with
        | none =>
          rw [push_null]
          exact .inr ⟨q, hq⟩
        | some p =>
          cases hfull : b.isFull with
          | true =>
            rw [push_full b (some p) hfull]
            exact .inr ⟨q, hq⟩
          | false => exact .inr ⟨q ++ [p], hq.push p hfull⟩
  | pop ioSize_ =>
    simp only [callStep] at h
    split at h
    · cases h
    next hcap =>
      obtain rfl := Option.some.inj h
      rcases hb with rfl | ⟨q, hq⟩
      · have hzero : ioSize_ = 0 := by
          by_contra hne
          exact hcap ⟨rfl, hne⟩
        rw [hzero, pop_zero]
        exact .inl rfl
      · exact .inr ⟨_, (pop_spec hq ioSize_).1⟩

theorem reachable_valid {acts : List RingCall} (hr : run callStep constructed acts = some b) :
    b.Valid :=
  run_stable (fun _ _ _ => callStep_valid) (.inl rfl) hr

/-- A ring that is reached is empty if and only if its queue is. -/
theorem Valid.isEmpty_iff (h : b.Valid) : b.isEmpty = true ↔ b.queue = [] := by
  rcases h with rfl | ⟨q, hq⟩
  · exact iff_of_true rfl rfl
  · rw [hq.queue_eq]
    exact hq.isEmpty_iff

/-! ## The call -/

/-- A pool that has not changed has every packet of the queue once more, if there is none. -/
theorem perm_append_iff (pool q : List PacketData) :
    List.Perm (pool.map PacketData.addr) ((pool ++ q).map PacketData.addr) ↔ q = [] := by
  constructor
  · intro hperm
    have hlen := hperm.length_eq
    rw [List.length_map, List.length_map, List.length_append] at hlen
    exact List.eq_nil_of_length_eq_zero (by omega)
  · intro hq
    rw [hq, List.append_nil]

/-- What a call can do. -/
theorem allocate_cases (b : SendBuffer) (capacity_ : Nat) (bMemory_ : Bool) :
    ((capacity_ = 0 ∨ capacity_ ≠ b.capacity ∧ bMemory_ = false) ∧
      b.allocate capacity_ bMemory_ = (b, false, [])) ∨
    (capacity_ ≠ 0 ∧ capacity_ = b.capacity ∧ b.allocate capacity_ bMemory_ = (b, true, [])) ∨
    (capacity_ ≠ 0 ∧ capacity_ ≠ b.capacity ∧ bMemory_ = true ∧ ∃ deleted,
      b.allocate capacity_ bMemory_ = (allocated capacity_, true, deleted)) := by
  unfold allocate
  by_cases hzero : capacity_ = 0
  · rw [if_pos hzero]
    exact .inl ⟨.inl hzero, rfl⟩
  rw [if_neg hzero]
  by_cases hsame : capacity_ = b.capacity
  · rw [if_pos hsame]
    exact .inr (.inl ⟨hzero, hsame, rfl⟩)
  rw [if_neg hsame]
  cases bMemory_ with
  | false => exact .inl ⟨.inr ⟨hsame, rfl⟩, rfl⟩
  | true => exact .inr (.inr ⟨hzero, hsame, rfl, _, rfl⟩)

/-- From every ring that is reached, `Allocate` does what is documented if and only if the ring
is empty, or the capacity is 0, or it is another one and there is no memory for it. -/
theorem reallocate_iff {acts : List RingCall} (hr : run callStep constructed acts = some b)
    (pool : List PacketData) (capacity_ : Nat) (bMemory_ : Bool) :
    Reallocates b pool capacity_ (b.allocateIn pool capacity_ bMemory_) ↔
      b.isEmpty = true ∨ capacity_ = 0 ∨ (capacity_ ≠ b.capacity ∧ bMemory_ = false) := by
  have hvalid := reachable_valid hr
  rcases allocate_cases b capacity_ bMemory_ with ⟨hfails, hr⟩ | ⟨hzero, hsame, hr⟩ |
    ⟨hzero, hother, hmemory, deleted, hr⟩
  · refine iff_of_true ?_ (.inr hfails)
    rw [allocateIn, hr]
    exact ⟨fun h => (by cases h), fun h => (by cases h), fun _ => ⟨rfl, rfl⟩⟩
  · -- the ring is left as it is
    rw [or_iff_left fun h => h.elim hzero fun h => h.1 hsame, allocateIn, hr, hvalid.isEmpty_iff]
    constructor
    · intro h
      exact (perm_append_iff pool b.queue).mp (h.returned rfl)
    · intro hq
      refine ⟨fun _ => ⟨?_, hsame.symm⟩, fun _ => (perm_append_iff pool b.queue).mpr hq,
        fun h => (by cases h)⟩
      rcases hvalid with rfl | ⟨q, hholds⟩
      · exact absurd hsame hzero
      · rw [hholds.queue_eq] at hq
        exact hq ▸ hholds
  · -- a new ring, and no packet for the pool
    have hno : ¬ (capacity_ = 0 ∨ capacity_ ≠ b.capacity ∧ bMemory_ = false) := by
      rw [hmemory]
      exact fun h => h.elim hzero fun h => by cases h.2
    rw [or_iff_left hno, allocateIn, hr, hvalid.isEmpty_iff]
    constructor
    · intro h
      exact (perm_append_iff pool b.queue).mp (h.returned rfl)
    · intro hq
      exact ⟨fun _ => ⟨holds_allocated (Nat.pos_of_ne_zero hzero), rfl⟩,
        fun _ => (perm_append_iff pool b.queue).mpr hq, fun h => (by cases h)⟩

/-- A ring of four cells with one packet in it. -/
def oneQueued : List RingCall := [.allocate 4 true, .push (some (.alloc 1 8))]

theorem oneQueued_reallocates : ∃ b, run callStep constructed oneQueued = some b ∧
    Reallocates b [] 8 (b.allocateIn [] 8 false) ∧
    ¬ Reallocates b [] 8 (b.allocateIn [] 8 true) := by
  have hrun : ∃ b, run callStep constructed oneQueued = some b ∧ b.isEmpty = false ∧
      b.capacity = 4 :=
    ⟨_, rfl, rfl, rfl⟩
  obtain ⟨b, hr, hempty, hcap⟩ := hrun
  refine ⟨b, hr, (reallocate_iff hr [] 8 false).mpr ?_, fun h => ?_⟩
  · exact .inr (.inr ⟨by rw [hcap]; decide, rfl⟩)
  · have hcond := (reallocate_iff hr [] 8 true).mp h
    rw [hempty] at hcond
    simp at hcond

/-- With another capacity the packet is deleted and not in the pool; with the same one the call
returns true, and the packet is still in the ring. -/
theorem packets_deleted :
    (run callStep constructed oneQueued).map (fun b =>
        ((b.queue.map PacketData.addr, (b.allocateIn [] 8 true).2),
          (b.allocateIn [] 4 true).2.1, ((b.allocateIn [] 4 true).1.queue.map PacketData.addr))) =
      some (([1], true, []), true, [1]) := by
  decide

end SendBuffer
end RacingGameServer
