import SocketServerLib.RacingGameServer.PacketData
import SocketServerLib.Lib.CircularBuffer

/-
  `SendBuffer`: the ring of packets waiting to be sent on one connection.

  The ring is an array with a read and a write offset; `Holds` says which queue
  of packets it stands for (`CircularBuffer`). Each operation has one lemma that
  says what it does to that queue, and on the queue level `dropBytes` and
  `gather` are what `Pop` and `GetWSABUF` compute.

  Correspondence:
    `SendBuffer::Allocate`   `allocate`    `allocate_constructed`
    `SendBuffer::Push`       `push`        `push_room`, `push_full`
    `SendBuffer::Pop`        `pop`         `pop_spec`
    `SendBuffer::GetWSABUF`  `getWSABUF`   `getWSABUF_spec`
-/
namespace RacingGameServer

/-- One gather entry: `buf` is the packet the pointer points into. -/
structure WSABUF where
  len : Nat
  buf : PacketData
  deriving DecidableEq, Repr

structure SendBuffer where
  data : List (Option PacketData)
  readOffset : Nat
  writeOffset : Nat
  capacity : Nat
  deriving DecidableEq, Repr

namespace SendBuffer

/-- A ring just constructed and allocated with `Allocate(capacity_)`. -/
def allocated (capacity_ : Nat) : SendBuffer :=
  { data := List.replicate capacity_ none, readOffset := 0, writeOffset := 0,
    capacity := capacity_ }

def isEmpty (b : SendBuffer) : Bool := b.readOffset == b.writeOffset

def isFull (b : SendBuffer) : Bool := (b.writeOffset + 1) % b.capacity == b.readOffset

def push (b : SendBuffer) (pPacket_ : Option PacketData) : SendBuffer × Bool :=
  if b.isFull then (b, false)
  else match pPacket_ with
    | none => (b, false)
    | some p =>
      ({ b with
          data := b.data.set b.writeOffset (some p)
          writeOffset := (b.writeOffset + 1) % b.capacity }, true)

/-- The cell at the read offset. -/
def headCell (b : SendBuffer) : Option PacketData := (b.data[b.readOffset]?).join

/-- The loop of `Pop`; the second component is what went back to the packet pool. Every
turn empties a cell, so one turn more than there are cells is never needed. -/
def popLoop : (fuel lcl : Nat) → SendBuffer → List PacketData → SendBuffer × List PacketData
  | 0, _, b, freed => (b, freed)
  | fuel + 1, lcl, b, freed =>
    if lcl = 0 then (b, freed)
    else match b.headCell with
      | none => (b, freed)
      | some p =>
        -- sent whole: the packet leaves the ring; sent in part: it keeps its unsent tail
        if lcl ≥ p.getSize then
          popLoop fuel (lcl - p.getSize)
            { b with
              data := b.data.set b.readOffset none
              readOffset := (b.readOffset + 1) % b.capacity }
            (freed ++ [p.clear])
        else
          ({ b with data := b.data.set b.readOffset (some (p.pop lcl)) }, freed)

def pop (b : SendBuffer) (ioSize_ : Nat) : SendBuffer × List PacketData :=
  popLoop (b.data.length + 1) ioSize_ b []

/-- The loop of `GetWSABUF` over the cells from `ptr` to the write offset. -/
def gatherLoop (b : SendBuffer) (bufcnt_ : Nat) :
    (fuel ptr uRet uPacketSize : Nat) → List WSABUF
  | 0, _, _, _ => []
  | fuel + 1, ptr, uRet, uPacketSize =>
    if ptr = b.writeOffset then []
    else match (b.data[ptr]?).join with
      | none => []
      | some p =>
        -- the list ends before the packet that would make it longer than a segment
        if uRet ≥ bufcnt_ ∨ uPacketSize + p.getSize > maxTcpSegmentSize then []
        else
          { len := p.getSize, buf := p } ::
            gatherLoop b bufcnt_ fuel ((ptr + 1) % b.capacity) (uRet + 1) (uPacketSize + p.getSize)

def getWSABUF (b : SendBuffer) (bufcnt_ : Nat) : List WSABUF :=
  if bufcnt_ = 0 ∨ b.isEmpty then []
  else gatherLoop b bufcnt_ b.data.length b.readOffset 0 0

/-! ## The queue a ring stands for -/

/-- The ring holds the packets `q`, in order. -/
structure Holds (b : SendBuffer) (q : List PacketData) : Prop where
  cells : CircularBuffer.Holds b.data b.readOffset b.writeOffset q
  capacity_eq : b.capacity = b.data.length

variable {b : SendBuffer} {q : List PacketData}

theorem holds_allocated {n : Nat} (hn : 0 < n) : (allocated n).Holds [] :=
  ⟨.nil_replicate hn, by simp [allocated]⟩

/-- The queue of a ring, read off by walking it. -/
def queue (b : SendBuffer) : List PacketData :=
  CircularBuffer.walk b.data b.writeOffset b.data.length b.readOffset

theorem Holds.queue_eq (h : b.Holds q) : b.queue = q := h.cells.walk_eq

/-- A ring just constructed. -/
def constructed : SendBuffer := { data := [], readOffset := 0, writeOffset := 0, capacity := 0 }

/-- `Allocate`; `bMemory_` is whether `new` gives the array. The list is what is deleted. -/
def allocate (b : SendBuffer) (capacity_ : Nat) (bMemory_ : Bool) :
    SendBuffer × Bool × List PacketData :=
  if capacity_ = 0 then (b, false, [])
  else if capacity_ = b.capacity then (b, true, [])
  else if bMemory_ = false then (b, false, [])
  else (allocated capacity_, true, if b.capacity ≠ 0 ∧ b.isEmpty = false then b.queue else [])

theorem allocate_constructed {n : Nat} (hn : 0 < n) :
    constructed.allocate n true = (allocated n, true, []) := by
  have hcap : n ≠ constructed.capacity := Nat.ne_of_gt hn
  rw [allocate, if_neg (by omega), if_neg hcap, if_neg (by decide)]
  rfl

theorem Holds.isEmpty_iff (h : b.Holds q) : b.isEmpty = true ↔ q = [] := by
  rw [isEmpty, beq_iff_eq]; exact h.cells.empty_iff

theorem Holds.isFull_iff (h : b.Holds q) : b.isFull = true ↔ q.length + 1 = b.capacity := by
  rw [isFull, beq_iff_eq, h.capacity_eq]; exact h.cells.full_iff

theorem Holds.headCell_cons {p : PacketData} (h : b.Holds (p :: q)) : b.headCell = some p := by
  rw [headCell, h.cells.head]; rfl

theorem Holds.headCell_nil (h : b.Holds []) : b.headCell = none := by
  rw [headCell, h.cells.head_nil]; rfl

/-! ## Push -/

theorem push_full (b : SendBuffer) (p : Option PacketData) (hf : b.isFull = true) :
    b.push p = (b, false) := by
  simp [push, hf]

theorem push_null (b : SendBuffer) : b.push none = (b, false) := by
  unfold push; split <;> rfl

theorem push_room (b : SendBuffer) (p : PacketData) (hf : b.isFull = false) :
    b.push (some p) =
      ({ b with
          data := b.data.set b.writeOffset (some p)
          writeOffset := (b.writeOffset + 1) % b.capacity }, true) := by
  simp [push, hf]

theorem capacity_push (b : SendBuffer) (p : Option PacketData) :
    (b.push p).1.capacity = b.capacity := by
  unfold push
  split
  · rfl
  · split <;> rfl

theorem Holds.push (h : b.Holds q) (p : PacketData) (hf : b.isFull = false) :
    (b.push (some p)).1.Holds (q ++ [p]) := by
  have hroom : q.length + 1 < b.data.length := by
    have hne : q.length + 1 ≠ b.capacity := by
      intro he
      rw [h.isFull_iff.mpr he] at hf
      cases hf
    have := h.cells.length_lt
    have := h.capacity_eq
    omega
  rw [push_room b p hf]
  refine ⟨?_, by simpa using h.capacity_eq⟩
  rw [h.capacity_eq]
  exact h.cells.push hroom p

/-! ## Pop -/

/-- A packet sent whole leaves the ring. -/
theorem Holds.pop_head {p : PacketData} (h : b.Holds (p :: q)) :
    SendBuffer.Holds
      { b with
        data := b.data.set b.readOffset none
        readOffset := (b.readOffset + 1) % b.capacity } q := by
  refine ⟨?_, by simpa using h.capacity_eq⟩
  rw [h.capacity_eq]
  exact h.cells.pop

/-- `Pop` on the queue: whole packets go back to the pool, a partly sent head keeps its tail. -/
def dropBytes : Nat → List PacketData → List PacketData × List PacketData
  | _, [] => ([], [])
  | n, p :: q =>
    if n = 0 then (p :: q, [])
    else if n ≥ p.getSize then
      ((dropBytes (n - p.getSize) q).1, p.clear :: (dropBytes (n - p.getSize) q).2)
    else (p.pop n :: q, [])

theorem capacity_popLoop (fuel n : Nat) (b : SendBuffer) (freed : List PacketData) :
    (popLoop fuel n b freed).1.capacity = b.capacity := by
  induction fuel generalizing b n freed with
  | zero => rfl
  | succ fuel ih =>
    rw [popLoop]
    split
    · rfl
    · split
      · rfl
      · split
        · rw [ih]
        · rfl

theorem capacity_pop (b : SendBuffer) (n : Nat) : (b.pop n).1.capacity = b.capacity :=
  capacity_popLoop _ _ _ _

theorem popLoop_spec (h : b.Holds q) :
    ∀ (fuel n : Nat) (freed : List PacketData), q.length < fuel →
      (popLoop fuel n b freed).1.Holds (dropBytes n q).1 ∧
        (popLoop fuel n b freed).2 = freed ++ (dropBytes n q).2 := by
  intro fuel n freed hlt
  -- each turn takes a packet off the queue, so the fuel outlasts it
  induction fuel generalizing b q n freed with
  | zero => omega
  | succ fuel ih =>
    rw [popLoop]
    cases q with
    | nil =>
      rw [h.headCell_nil]
      split <;> simpa [dropBytes] using h
    | cons p q =>
      rw [h.headCell_cons, dropBytes]
      by_cases h0 : n = 0
      · rw [if_pos h0, if_pos h0]
        exact ⟨h, (List.append_nil _).symm⟩
      · rw [if_neg h0, if_neg h0]
        by_cases hge : n ≥ p.getSize
        · simp only [if_pos hge]
          obtain ⟨h1, h2⟩ := ih h.pop_head (n - p.getSize) (freed ++ [p.clear])
            (by simpa using hlt)
          exact ⟨h1, by rw [h2]; simp⟩
        · simp only [if_neg hge]
          exact ⟨⟨h.cells.set_head _, by simpa using h.capacity_eq⟩, (List.append_nil _).symm⟩

theorem pop_spec (h : b.Holds q) (n : Nat) :
    (b.pop n).1.Holds (dropBytes n q).1 ∧ (b.pop n).2 = (dropBytes n q).2 := by
  have := popLoop_spec h (b.data.length + 1) n []
    (Nat.lt_succ_of_lt h.cells.length_lt)
  rwa [List.nil_append] at this

/-- The bytes waiting in a queue. -/
def streamBytes (q : List PacketData) : Bytes := (q.map PacketData.bytes).flatten

@[simp] theorem streamBytes_nil : streamBytes [] = [] := rfl

@[simp] theorem streamBytes_cons (p : PacketData) (q : List PacketData) :
    streamBytes (p :: q) = p.bytes ++ streamBytes q := rfl

@[simp] theorem streamBytes_append (q q' : List PacketData) :
    streamBytes (q ++ q') = streamBytes q ++ streamBytes q' := by
  simp [streamBytes]

/-- `Pop(n)` removes the first `n` bytes of what is waiting. -/
theorem streamBytes_dropBytes (n : Nat) (hwf : ∀ p ∈ q, p.Wf) :
    streamBytes (dropBytes n q).1 = (streamBytes q).drop n := by
  induction q generalizing n with
  | nil => simp [dropBytes]
  | cons p q ih =>
    have hp : p.bytes.length = p.size := (hwf p (by simp)).bytes_length
    have ih := ih (n - p.getSize) (fun x hx => hwf x (by simp [hx]))
    rw [dropBytes]
    by_cases h0 : n = 0
    · simp [h0]
    · rw [if_neg h0]
      by_cases hge : n ≥ p.getSize
      · simp only [if_pos hge]
        have hdrop : p.bytes.drop n = [] := List.drop_eq_nil_of_le (by rw [hp]; exact hge)
        rw [ih, streamBytes_cons, List.drop_append, hdrop, hp]
        rfl
      · simp only [if_neg hge]
        have hlt : n < p.size := Nat.lt_of_not_ge hge
        rw [streamBytes_cons, streamBytes_cons, PacketData.bytes_pop (hwf p (by simp)) hlt,
          List.drop_append_of_le_length (by omega)]

/-- What `Pop` keeps is unsent packets and possibly one unsent tail; a property of
packets that a partial `Pop` preserves is kept. -/
theorem dropBytes_forall {P : PacketData → Prop}
    (hpop : ∀ p n, P p → n < p.size → P (p.pop n)) (n : Nat) (hq : ∀ p ∈ q, P p) :
    ∀ p ∈ (dropBytes n q).1, P p := by
  induction q generalizing n with
  | nil => simp [dropBytes]
  | cons p q ih =>
    have hp := hq p (by simp)
    have ih := ih (n - p.getSize) (fun x hx => hq x (by simp [hx]))
    rw [dropBytes]
    by_cases h0 : n = 0
    · simpa [h0] using hq
    · rw [if_neg h0]
      by_cases hge : n ≥ p.getSize
      · simpa only [if_pos hge] using ih
      · simp only [if_neg hge]
        intro x hx
        rcases List.mem_cons.mp hx with rfl | hx
        · exact hpop p n hp (Nat.lt_of_not_ge hge)
        · exact hq x (by simp [hx])

/-- No packet gets lost: each goes back to the pool or stays. -/
theorem addr_dropBytes (n : Nat) (q : List PacketData) :
    (dropBytes n q).2.map PacketData.addr ++ (dropBytes n q).1.map PacketData.addr =
      q.map PacketData.addr := by
  induction q generalizing n with
  | nil => rfl
  | cons p q ih =>
    rw [dropBytes]
    split
    · rfl
    · split
      · simpa using ih (n - p.getSize)
      · simp

/-! ## GetWSABUF -/

/-- `GetWSABUF` on the queue. -/
def gather (bufcnt_ : Nat) : (uRet uPacketSize : Nat) → List PacketData → List WSABUF
  | _, _, [] => []
  | uRet, uPacketSize, p :: q =>
    if uRet ≥ bufcnt_ ∨ uPacketSize + p.getSize > maxTcpSegmentSize then []
    else { len := p.getSize, buf := p } :: gather bufcnt_ (uRet + 1) (uPacketSize + p.getSize) q

theorem gatherLoop_spec (h : b.Holds q) (bufcnt_ : Nat) :
    ∀ (fuel i uRet uPacketSize : Nat), i ≤ q.length → q.length - i ≤ fuel →
      gatherLoop b bufcnt_ fuel (CircularBuffer.pos b.data.length b.readOffset i) uRet uPacketSize =
        gather bufcnt_ uRet uPacketSize (q.drop i) := by
  intro fuel
  induction fuel with
  | zero =>
    intro i uRet uPacketSize hi hf
    rw [List.drop_eq_nil_of_le (by omega)]; rfl
  | succ fuel ih =>
    intro i uRet uPacketSize hi hf
    have hl := h.cells.length_lt
    rw [gatherLoop]
    by_cases hend : i = q.length
    · rw [if_pos (by rw [hend, ← h.cells.write_eq]), hend, List.drop_length]; rfl
    · have hne : CircularBuffer.pos b.data.length b.readOffset i ≠ b.writeOffset := by
        rw [h.cells.write_eq]
        intro he
        exact hend (CircularBuffer.pos_inj h.cells.read_lt (by omega) hl he)
      simp only [if_neg hne, h.cells.entry i (by omega), Option.join_some, h.capacity_eq,
        CircularBuffer.succ_pos_mod, ih (i + 1) _ _ (by omega : i + 1 ≤ q.length)
          (by omega : q.length - (i + 1) ≤ fuel)]
      rw [List.drop_eq_getElem_cons (by omega : i < q.length), gather]

theorem getWSABUF_spec (h : b.Holds q) {bufcnt_ : Nat} (hb : bufcnt_ ≠ 0) :
    b.getWSABUF bufcnt_ = gather bufcnt_ 0 0 q := by
  unfold getWSABUF
  by_cases he : b.isEmpty = true
  · rw [if_pos (Or.inr he), h.isEmpty_iff.mp he]; rfl
  · rw [if_neg (by simp [hb, he])]
    have := gatherLoop_spec h bufcnt_ b.data.length 0 0 0 (Nat.zero_le _)
      (by have := h.cells.length_lt; omega)
    rwa [CircularBuffer.pos_zero h.cells.read_lt, List.drop_zero] at this

/-- The bytes behind a gather list. -/
def gatheredBytes (ws : List WSABUF) : Bytes := (ws.map fun w => w.buf.bytes).flatten

/-- The gather list is the front of the queue. -/
theorem gather_front (bufcnt_ uRet uPacketSize : Nat) (q : List PacketData) :
    (gather bufcnt_ uRet uPacketSize q).map WSABUF.buf <+: q := by
  induction q generalizing uRet uPacketSize with
  | nil => simp [gather]
  | cons p q ih =>
    rw [gather]
    split
    · exact List.nil_prefix
    · rw [List.map_cons]
      exact List.cons_prefix_cons.mpr ⟨rfl, ih _ _⟩

theorem gatheredBytes_front (bufcnt_ uRet uPacketSize : Nat) (q : List PacketData) :
    gatheredBytes (gather bufcnt_ uRet uPacketSize q) <+: streamBytes q := by
  obtain ⟨t, ht⟩ := gather_front bufcnt_ uRet uPacketSize q
  refine ⟨streamBytes t, ?_⟩
  conv_rhs => rw [← ht]
  simp only [gatheredBytes, streamBytes, List.map_append, List.flatten_append, List.map_map]
  rfl

/-- A head packet that fits a segment is always gathered. -/
theorem gather_cons {p : PacketData} (hp : p.size ≤ maxTcpSegmentSize) {bufcnt_ : Nat}
    (hb : bufcnt_ ≠ 0) :
    gather bufcnt_ 0 0 (p :: q) = { len := p.size, buf := p } :: gather bufcnt_ 1 p.size q := by
  rw [gather, if_neg]
  · simp [PacketData.getSize]
  · simp only [PacketData.getSize]; omega

end SendBuffer

end RacingGameServer
