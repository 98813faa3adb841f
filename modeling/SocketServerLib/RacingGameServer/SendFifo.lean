import SocketServerLib.Lib.LabelledRun
import SocketServerLib.Lib.LongestPrefix
import SocketServerLib.RacingGameServer.SendBuffer
import Mathlib.Data.List.Nodup

/-
  `SendBuffer` as a queue of packet bytes, over every sequence of operations.

  `PushLaw`, `PopLaw` and `GatherLaw` say what the three operations do to a ring
  that holds a queue of packets. Both loops are greedy: `Pop` gives back the
  longest front of the queue that the count covers, and `GetWSABUF` lists the
  longest front that fits the out array and a segment (`LongestPrefix`).

  Packet sizes are at most `PACKET_SIZE` (`PacketData.init`), which keeps the
  32-bit sum in `GetWSABUF` from wrapping.

  What is proved:
    1. `dropBytes_sent` — what `Pop` gives back and what it keeps;
    2. `pop_untouched` — the cells `Pop` may write;
    3. `gather_longest` — what `GetWSABUF` lists;
    4. `fifo` — the laws hold after every sequence of operations on a ring just
       allocated, and what was pushed is what came back and what is queued.

  What is assumed: a packet that is pushed is not in the ring yet (`Pushable`), as packets are
  pushed by pointer.
-/
namespace RacingGameServer
open LongestPrefix LabelledRun

namespace SendFifo
open SendBuffer

variable {b : SendBuffer} {q : List PacketData} {n : Nat}

/-! ## The laws -/

/-- A packet that may be pushed: it has bytes, in its array, and is not in the ring. -/
structure Pushable (q : List PacketData) (p : PacketData) : Prop where
  wf : p.Wf
  size_pos : 0 < p.size
  fresh : p.addr ∉ q.map PacketData.addr

instance (q : List PacketData) (p : PacketData) : Decidable (Pushable q p) :=
  decidable_of_iff (p.size ≤ p.data.length ∧ 0 < p.size ∧ p.addr ∉ q.map PacketData.addr)
    ⟨fun h => ⟨h.1, h.2.1, h.2.2⟩, fun h => ⟨h.wf, h.size_pos, h.fresh⟩⟩

/-- `Push` appends if the queue is shorter than the capacity less one, and fails otherwise. -/
def PushLaw (b : SendBuffer) (q : List PacketData) : Prop :=
  ∀ p, ((b.push (some p)).2 = true ↔ q.length < b.capacity - 1) ∧
    ((b.push (some p)).2 = true → (b.push (some p)).1.Holds (q ++ [p])) ∧
    ((b.push (some p)).2 = false → (b.push (some p)).1 = b)

/-- The remaining bytes of a queue whose head has lost `m` more bytes. -/
def keepTail (m : Nat) : List Bytes → List Bytes
  | [] => []
  | bs :: rest => bs.drop m :: rest

/-- `Pop(n)` takes the first `n` bytes of what is waiting, as far as there are so many. The
packets it gives back are the longest front of the queue with at most `n` bytes, the next
one keeps its unsent tail, and no cell outside `[read, write)` changes. -/
def PopLaw (b : SendBuffer) (q : List PacketData) : Prop :=
  ∀ n, ∃ sent q', (b.pop n).1.Holds q' ∧
    Longest (fun ps => (streamBytes ps).length ≤ n) q sent ∧
    (b.pop n).2 = sent.map PacketData.clear ∧
    sent.map PacketData.addr ++ q'.map PacketData.addr = q.map PacketData.addr ∧
    q'.map PacketData.bytes =
      keepTail (n - (streamBytes sent).length) ((q.drop sent.length).map PacketData.bytes) ∧
    streamBytes q' = (streamBytes q).drop (min n (streamBytes q).length) ∧
    ∀ j, (∀ i < q.length, j ≠ CircularBuffer.pos b.data.length b.readOffset i) →
      (b.pop n).1.data[j]? = b.data[j]?

/-- `GetWSABUF(out, k)` lists the longest front of the queue with at most `k` packets and at
most a segment of bytes, each entry with its packet's bytes. -/
def GatherLaw (b : SendBuffer) (q : List PacketData) : Prop :=
  ∀ k, Longest (fun ps => ps.length ≤ k ∧ (streamBytes ps).length ≤ maxTcpSegmentSize) q
      ((b.getWSABUF k).map WSABUF.buf) ∧
    ∀ w ∈ b.getWSABUF k, w.len = w.buf.bytes.length

/-! ## Push -/

theorem push_law (h : b.Holds q) : PushLaw b q := by
  intro p
  have hcap : b.isFull = true ↔ q.length + 1 = b.capacity := h.isFull_iff
  have hlt : q.length < b.capacity := by rw [h.capacity_eq]; exact h.cells.length_lt
  cases hf : b.isFull with
  | true =>
    have hlen := hcap.mp hf
    rw [push_full b _ hf]
    refine ⟨iff_of_false Bool.false_ne_true (by omega), ?_, fun _ => rfl⟩
    intro hc
    cases hc
  | false =>
    have hlen : q.length + 1 ≠ b.capacity := by
      intro he
      rw [hcap.mpr he] at hf
      cases hf
    have hok : (b.push (some p)).2 = true := by rw [push_room b p hf]
    refine ⟨iff_of_true hok (by omega), fun _ => h.push p hf, ?_⟩
    intro hc
    rw [hok] at hc
    cases hc

/-! ## Pop -/

/-- Packets that `Pop` can tell apart from the end of the queue: they have bytes. -/
def Loaded (q : List PacketData) : Prop := ∀ p ∈ q, p.Wf ∧ 0 < p.size

theorem Loaded.tail {p : PacketData} (h : Loaded (p :: q)) : Loaded q := by
  intro x hx
  exact h x (List.mem_cons_of_mem p hx)

theorem Loaded.bytes_length {p : PacketData} (h : Loaded (p :: q)) : p.bytes.length = p.size :=
  (h p List.mem_cons_self).1.bytes_length

theorem Loaded.size_pos {p : PacketData} (h : Loaded (p :: q)) : 0 < p.size :=
  (h p List.mem_cons_self).2

theorem Loaded.append {p : PacketData} (h : Loaded q) (hp : p.Wf ∧ 0 < p.size) :
    Loaded (q ++ [p]) := by
  intro x hx
  rcases List.mem_append.mp hx with hx | hx
  · exact h x hx
  · obtain rfl := List.mem_singleton.mp hx
    exact hp

theorem Loaded.dropBytes (h : Loaded q) (n : Nat) : Loaded (dropBytes n q).1 := by
  apply dropBytes_forall _ n h
  intro p m hp hm
  refine ⟨hp.1.pop hm, ?_⟩
  rw [PacketData.size_pop hm]
  exact Nat.sub_pos_of_lt hm

/-- The bytes of a queue that starts with `p`. -/
theorem Loaded.stream_length {p : PacketData} (h : Loaded (p :: q)) (t : List PacketData) :
    (streamBytes (p :: t)).length = p.size + (streamBytes t).length := by
  rw [streamBytes_cons, List.length_append, h.bytes_length]

/-- What `Pop` gives back is the longest front the count covers; behind it only the head
changes. -/
theorem dropBytes_sent (hq : Loaded q) (n : Nat) :
    ∃ sent, Longest (fun ps => (streamBytes ps).length ≤ n) q sent ∧
      (dropBytes n q).2 = sent.map PacketData.clear ∧
      (dropBytes n q).1.map PacketData.bytes =
        keepTail (n - (streamBytes sent).length) ((q.drop sent.length).map PacketData.bytes) := by
  induction q generalizing n with
  | nil => exact ⟨[], .nil (Nat.zero_le n), rfl, rfl⟩
  | cons p q ih =>
    have hpos := hq.size_pos
    by_cases hge : n ≥ p.getSize
    · -- the head is covered: it goes back, and the loop goes on with the rest of the count
      have hle : p.size ≤ n := hge
      have hn : n ≠ 0 := by omega
      obtain ⟨sent, hlong, hfreed, hkept⟩ := ih hq.tail (n - p.size)
      rw [SendBuffer.dropBytes, if_neg hn, if_pos hge]
      refine ⟨p :: sent, .cons (hlong.congr ?_), ?_, ?_⟩
      · intro t
        rw [hq.stream_length]
        omega
      · rw [List.map_cons, ← hfreed]
        rfl
      · rw [hq.stream_length, ← Nat.sub_sub]
        exact hkept
    · have hlt : n < p.size := Nat.lt_of_not_le hge
      refine ⟨[], .stop (Nat.zero_le n) ?_, ?_, ?_⟩
      · intro t ht
        rw [hq.stream_length] at ht
        omega
      · rw [SendBuffer.dropBytes]
        by_cases hn : n = 0
        · rw [if_pos hn]; rfl
        · rw [if_neg hn, if_neg hge]; rfl
      · rw [SendBuffer.dropBytes]
        by_cases hn : n = 0
        · rw [if_pos hn, hn]; rfl
        · rw [if_neg hn, if_neg hge, List.map_cons,
            PacketData.bytes_pop (hq p List.mem_cons_self).1 hlt]
          rfl

/-- The loop of `Pop` writes only cells the queue occupies. -/
theorem popLoop_untouched (h : b.Holds q) (fuel : Nat) (freed : List PacketData) {j : Nat}
    (hj : ∀ i < q.length, j ≠ CircularBuffer.pos b.data.length b.readOffset i) :
    (popLoop fuel n b freed).1.data[j]? = b.data[j]? := by
  induction fuel generalizing b q n freed with
  | zero => rfl
  | succ fuel ih =>
    rw [popLoop]
    split
    · rfl
    · cases q with
      | nil => rw [h.headCell_nil]
      | cons p q =>
        rw [h.headCell_cons]
        have hread : b.readOffset ≠ j := by
          have := hj 0 (Nat.succ_pos _)
          rw [CircularBuffer.pos_zero h.cells.read_lt] at this
          exact this.symm
        by_cases hge : n ≥ p.getSize
        · simp only [if_pos hge]
          rw [ih (h.pop_head) _ ?_]
          · exact List.getElem?_set_ne hread
          · -- the cells of the rest are cells of the queue
            intro i hi
            have := hj (i + 1) (Nat.succ_lt_succ hi)
            rwa [List.length_set, h.capacity_eq, CircularBuffer.pos_succ]
        · simp only [if_neg hge]
          exact List.getElem?_set_ne hread

theorem pop_untouched (h : b.Holds q) (n : Nat) {j : Nat}
    (hj : ∀ i < q.length, j ≠ CircularBuffer.pos b.data.length b.readOffset i) :
    (b.pop n).1.data[j]? = b.data[j]? :=
  popLoop_untouched h _ _ hj

theorem pop_law (h : b.Holds q) (hq : Loaded q) : PopLaw b q := by
  intro n
  obtain ⟨sent, hlong, hfreed, hkept⟩ := dropBytes_sent hq n
  obtain ⟨hholds, hpool⟩ := pop_spec h n
  refine ⟨sent, (dropBytes n q).1, hholds, hlong, hpool.trans hfreed, ?_, hkept, ?_,
    fun j hj => pop_untouched h n hj⟩
  · calc sent.map PacketData.addr ++ (dropBytes n q).1.map PacketData.addr
        = (dropBytes n q).2.map PacketData.addr ++ (dropBytes n q).1.map PacketData.addr := by
          rw [hfreed, List.map_map]
          rfl
      _ = q.map PacketData.addr := addr_dropBytes n q
  · rw [streamBytes_dropBytes n fun p hp => (hq p hp).1]
    rcases Nat.le_total n (streamBytes q).length with hle | hle
    · rw [Nat.min_eq_left hle]
    · rw [Nat.min_eq_right hle, List.drop_length, List.drop_eq_nil_of_le hle]

/-! ## GetWSABUF -/

theorem gather_longest (hq : Loaded q) {k uRet uPacketSize : Nat} (hRet : uRet ≤ k)
    (hSize : uPacketSize ≤ maxTcpSegmentSize) :
    Longest (fun ps => uRet + ps.length ≤ k ∧
        uPacketSize + (streamBytes ps).length ≤ maxTcpSegmentSize) q
      ((gather k uRet uPacketSize q).map WSABUF.buf) := by
  induction q generalizing uRet uPacketSize with
  | nil => exact .nil ⟨hRet, hSize⟩
  | cons p q ih =>
    rw [gather]
    by_cases hstop : uRet ≥ k ∨ uPacketSize + p.getSize > maxTcpSegmentSize
    · rw [if_pos hstop]
      refine .stop ⟨hRet, hSize⟩ ?_
      intro t ht
      rw [hq.stream_length, List.length_cons] at ht
      rcases hstop with hstop | hstop
      · omega
      · have : p.getSize = p.size := rfl
        omega
    · rw [if_neg hstop]
      obtain ⟨hk, hs⟩ := not_or.mp hstop
      refine .cons ((ih hq.tail (Nat.lt_of_not_le hk) (Nat.le_of_not_lt hs)).congr ?_)
      intro t
      have : p.getSize = p.size := rfl
      rw [hq.stream_length, List.length_cons]
      omega

theorem gather_len (hq : Loaded q) (k uRet uPacketSize : Nat) :
    ∀ w ∈ gather k uRet uPacketSize q, w.len = w.buf.bytes.length := by
  induction q generalizing uRet uPacketSize with
  | nil =>
    intro w hw
    cases hw
  | cons p q ih =>
    intro w hw
    rw [gather] at hw
    split at hw
    · cases hw
    · rcases List.mem_cons.mp hw with rfl | hw
      · exact hq.bytes_length.symm
      · exact ih hq.tail _ _ w hw

theorem gather_zero (q : List PacketData) : gather 0 0 0 q = [] := by
  cases q with
  | nil => rfl
  | cons p q => rw [gather, if_pos (.inl (Nat.le_refl 0))]

theorem getWSABUF_eq (h : b.Holds q) (k : Nat) : b.getWSABUF k = gather k 0 0 q := by
  by_cases hk : k = 0
  · rw [hk, gather_zero, getWSABUF, if_pos (.inl rfl)]
  · exact getWSABUF_spec h hk

theorem gather_law (h : b.Holds q) (hq : Loaded q) : GatherLaw b q := by
  intro k
  rw [getWSABUF_eq h]
  refine ⟨(gather_longest hq (Nat.zero_le k) (Nat.zero_le _)).congr ?_, gather_len hq k 0 0⟩
  intro t
  rw [Nat.zero_add, Nat.zero_add]

/-! ## Sequences of operations -/

inductive SendAct where
  | push (pPacket_ : PacketData)
  | pop (ioSize_ : Nat)
  | getWSABUF (bufcnt_ : Nat)

/-- A ring with what happened to it: the packets `Push` took and those `Pop` gave back. -/
structure State where
  buffer : SendBuffer
  taken : List Nat
  returned : List Nat
  deriving DecidableEq

/-- A ring just constructed, after `Allocate(capacity_)`. -/
def init (capacity_ : Nat) : State :=
  { buffer := (constructed.allocate capacity_ true).1, taken := [], returned := [] }

def step (s : State) : SendAct → Option State
  | .push p =>
    if Pushable s.buffer.queue p then
      some
        { s with
          buffer := (s.buffer.push (some p)).1
          taken := if (s.buffer.push (some p)).2 then s.taken ++ [p.addr] else s.taken }
    else none
  | .pop n =>
    some
      { s with
        buffer := (s.buffer.pop n).1
        returned := s.returned ++ (s.buffer.pop n).2.map PacketData.addr }
  | .getWSABUF _ => some s

/-- The ring holds `q`, whose packets are the ones taken and not returned. -/
structure Queued (capacity_ : Nat) (s : State) (q : List PacketData) : Prop where
  holds : s.buffer.Holds q
  capacity_eq : s.buffer.capacity = capacity_
  loaded : Loaded q
  distinct : (q.map PacketData.addr).Nodup
  account : s.taken = s.returned ++ q.map PacketData.addr

theorem queued_init {capacity_ : Nat} (hc : 0 < capacity_) :
    Queued capacity_ (init capacity_) [] where
  holds := by
    rw [init, allocate_constructed hc]
    exact holds_allocated hc
  capacity_eq := by
    rw [init, allocate_constructed hc]
    rfl
  loaded := by
    intro p hp
    cases hp
  distinct := .nil
  account := rfl

variable {capacity_ : Nat} {s s' : State}

theorem Queued.push {p : PacketData} (h : Queued capacity_ s q)
    (hs : step s (.push p) = some s') : ∃ q', Queued capacity_ s' q' := by
  rw [step] at hs
  split at hs
  · next hp =>
    obtain rfl := Option.some.inj hs
    rw [h.holds.queue_eq] at hp
    obtain ⟨-, hroom, hfull⟩ := push_law h.holds p
    cases hok : (s.buffer.push (some p)).2 with
    | false =>
      refine ⟨q, ?_, ?_, h.loaded, h.distinct, h.account⟩
      · rw [hfull hok]; exact h.holds
      · rw [hfull hok]; exact h.capacity_eq
    | true =>
      refine ⟨q ++ [p], hroom hok, (capacity_push _ _).trans h.capacity_eq,
        h.loaded.append ⟨hp.wf, hp.size_pos⟩, ?_, ?_⟩
      · rw [List.map_append]
        exact List.Nodup.append h.distinct (List.nodup_singleton _)
          (List.disjoint_singleton.mpr hp.fresh)
      · rw [List.map_append, ← List.append_assoc, ← h.account]
        rfl
  · cases hs

theorem Queued.pop (h : Queued capacity_ s q) (n : Nat) :
    ∃ q', Queued capacity_
      { s with
        buffer := (s.buffer.pop n).1
        returned := s.returned ++ (s.buffer.pop n).2.map PacketData.addr } q' := by
  obtain ⟨hholds, hpool⟩ := pop_spec h.holds n
  have haddr := addr_dropBytes n q
  refine ⟨(SendBuffer.dropBytes n q).1, hholds, ?_, h.loaded.dropBytes n, ?_, ?_⟩
  · rw [capacity_pop]; exact h.capacity_eq
  · have hd := h.distinct
    rw [← haddr] at hd
    exact List.Nodup.of_append_right hd
  · calc s.taken
        = s.returned ++ q.map PacketData.addr := h.account
      _ = s.returned ++ (s.buffer.pop n).2.map PacketData.addr ++
            (SendBuffer.dropBytes n q).1.map PacketData.addr := by
          rw [hpool, List.append_assoc, haddr]

theorem queued_step {act : SendAct} (h : ∃ q, Queued capacity_ s q)
    (hs : step s act = some s') : ∃ q, Queued capacity_ s' q := by
  obtain ⟨q, h⟩ := h
  cases act with
  | push p => exact h.push hs
  | pop n =>
    obtain rfl := Option.some.inj hs
    exact h.pop n
  | getWSABUF k =>
    obtain rfl := Option.some.inj hs
    exact ⟨q, h⟩

/-- After every sequence of operations the ring is a queue of packet bytes, and the
packets taken are those returned, once each and in order, and those queued. -/
theorem fifo (hc : 1 ≤ capacity_) {acts : List SendAct}
    (hr : run step (init capacity_) acts = some s) :
    ∃ q, s.buffer.Holds q ∧ s.buffer.capacity = capacity_ ∧
      (q.map PacketData.addr).Nodup ∧ s.taken = s.returned ++ q.map PacketData.addr ∧
      PushLaw s.buffer q ∧ PopLaw s.buffer q ∧ GatherLaw s.buffer q := by
  have hq : ∃ q, Queued capacity_ s q :=
    run_stable (fun _ _ _ h hs => queued_step h hs) ⟨[], queued_init hc⟩ hr
  obtain ⟨q, h⟩ := hq
  exact ⟨q, h.holds, h.capacity_eq, h.distinct, h.account, push_law h.holds,
    pop_law h.holds h.loaded, gather_law h.holds h.loaded⟩

/-- A packet of `n` bytes. -/
def packetOf (addr n : Nat) : PacketData :=
  { addr := addr, data := List.replicate 16 7, size := n, capacity := 16 }

def threePackets : List SendAct :=
  [.push (packetOf 0 3), .push (packetOf 1 4), .push (packetOf 2 5), .pop 5, .getWSABUF 8,
    .push (packetOf 2 5)]

def afterThree : State :=
  { buffer :=
      { data := [none, some (packetOf 1 2), some (packetOf 2 5)], readOffset := 1,
        writeOffset := 0, capacity := 3 }
    taken := [0, 1, 2]
    returned := [0] }

/-- A ring for two packets refuses the third, and a count of five takes the first packet
and two bytes of the second. -/
theorem fifo_three_packets :
    ∃ q, afterThree.buffer.Holds q ∧ afterThree.buffer.capacity = 3 ∧
      (q.map PacketData.addr).Nodup ∧
      afterThree.taken = afterThree.returned ++ q.map PacketData.addr ∧
      PushLaw afterThree.buffer q ∧ PopLaw afterThree.buffer q ∧
      GatherLaw afterThree.buffer q := by
  have hr : run step (init 3) threePackets = some afterThree := by decide +kernel
  exact fifo (by decide) hr

end SendFifo

end RacingGameServer
