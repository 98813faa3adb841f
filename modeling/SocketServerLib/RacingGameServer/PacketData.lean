import SocketServerLib.RacingGameServer.Define

/-
  `PacketData`: one outgoing message in a pooled byte array.

  A packet is held by value, together with its address: pointers to packets are
  compared by `addr`, and a packet that is held in one place only (which is what
  `Ownership` is about) may be read where it is held. `origin` is a ghost: it
  names the session whose request the packet answers. No function reads it.
-/
namespace RacingGameServer

structure PacketData where
  addr : Nat
  data : Bytes
  size : Nat
  capacity : Nat
  origin : Nat := 0
  deriving DecidableEq, Repr

namespace PacketData

/-- A packet just made by `new PacketData()` and `Allocate(capacity_)`. -/
def alloc (addr capacity_ : Nat) : PacketData :=
  { addr := addr, data := List.replicate capacity_ 0, size := 0, capacity := capacity_ }

def clear (p : PacketData) : PacketData := { p with size := 0 }

def getSize (p : PacketData) : Nat := p.size

/-- `Pop`: the unsent bytes move to the front of the array. -/
def pop (p : PacketData) (size_ : Nat) : PacketData :=
  let left := if p.size > size_ then p.size - size_ else 0
  -- a packet popped whole keeps its array, only the size drops to 0
  if left ≠ 0 then
    { p with size := left, data := (p.data.drop size_).take left ++ p.data.drop left }
  else { p with size := left }

/-- `Init` with a payload (the POD, string and pointer overloads run the same body). -/
def init (p : PacketData) (infoCode_ : InfoCode) (reqNo_ : Nat) (payload : Bytes) :
    PacketData × Bool :=
  let totalSize := (payload.length + sizeofInfoHeader) % 2 ^ 32
  if totalSize > packetSize then (p, false)
  else
    let msg := leEncode 4 totalSize ++ leEncode 4 infoCode_.toNat ++ leEncode 4 reqNo_ ++ payload
    ({ p with data := msg ++ p.data.drop msg.length, size := msg.length % 2 ^ 32 }, true)

/-- The bytes still to be sent. -/
def bytes (p : PacketData) : Bytes := p.data.take p.size

/-- The bytes in use lie in the array. -/
def Wf (p : PacketData) : Prop := p.size ≤ p.data.length

variable {p : PacketData}

theorem Wf.bytes_length (h : p.Wf) : p.bytes.length = p.size := by
  simp only [bytes, List.length_take]
  exact Nat.min_eq_left h

@[simp] theorem addr_clear (p : PacketData) : p.clear.addr = p.addr := rfl

@[simp] theorem addr_pop (p : PacketData) (n : Nat) : (p.pop n).addr = p.addr := by
  simp only [pop, apply_ite PacketData.addr, ite_self]

@[simp] theorem origin_pop (p : PacketData) (n : Nat) : (p.pop n).origin = p.origin := by
  simp only [pop, apply_ite PacketData.origin, ite_self]

theorem pop_of_lt {n : Nat} (hn : n < p.size) :
    p.pop n = { p with size := p.size - n,
                       data := (p.data.drop n).take (p.size - n) ++ p.data.drop (p.size - n) } := by
  have h0 : p.size - n ≠ 0 := by omega
  simp only [pop, if_pos (show p.size > n from hn), if_pos h0]

theorem size_pop {n : Nat} (hn : n < p.size) : (p.pop n).size = p.size - n := by
  rw [pop_of_lt hn]

/-- A partly sent packet keeps exactly its unsent tail. -/
theorem bytes_pop (h : p.Wf) {n : Nat} (hn : n < p.size) : (p.pop n).bytes = p.bytes.drop n := by
  have hlen : ((p.data.drop n).take (p.size - n)).length = p.size - n := by
    have : p.size ≤ p.data.length := h
    simp only [List.length_take, List.length_drop]; omega
  rw [pop_of_lt hn]
  simp only [bytes]
  rw [List.take_left' hlen, List.drop_take]

theorem Wf.pop (h : p.Wf) {n : Nat} (hn : n < p.size) : (p.pop n).Wf := by
  have : p.size ≤ p.data.length := h
  rw [pop_of_lt hn]
  simp only [Wf, List.length_append, List.length_take, List.length_drop]
  omega

/-! ## `Init` -/

theorem init_addr (p : PacketData) (c : InfoCode) (r : Nat) (payload : Bytes) :
    (p.init c r payload).1.addr = p.addr := by
  unfold init; simp only []; split <;> rfl

/-- The bytes a successful `Init` writes. -/
theorem init_bytes (c : InfoCode) (r : Nat) (payload : Bytes)
    (hp : payload.length ≤ maxPayloadSize) :
    (p.init c r payload).2 = true ∧
      (p.init c r payload).1.Wf ∧
      (p.init c r payload).1.bytes =
        leEncode 4 (payload.length + 12) ++ leEncode 4 c.toNat ++ leEncode 4 r ++ payload := by
  have hle : payload.length + 12 ≤ 8192 := by
    simp only [maxPayloadSize, packetSize, maxSockbuf, headerSize] at hp; omega
  have hmod : (payload.length + sizeofInfoHeader) % 2 ^ 32 = payload.length + 12 := by
    simp only [sizeofInfoHeader]; omega
  have hnot : ¬ payload.length + 12 > packetSize := by
    simp only [packetSize, maxSockbuf]; omega
  have hlen : (leEncode 4 (payload.length + 12) ++ leEncode 4 c.toNat ++ leEncode 4 r ++
      payload).length = payload.length + 12 := by
    simp only [List.length_append, leEncode_length]; omega
  have hmod' : (payload.length + 12) % 2 ^ 32 = payload.length + 12 := by omega
  simp only [init, hmod, if_neg hnot, hlen, hmod']
  refine ⟨trivial, ?_, ?_⟩
  · simp only [Wf, List.length_append, leEncode_length, List.length_drop]
    omega
  · simp only [bytes]
    exact List.take_left' hlen

end PacketData

end RacingGameServer
