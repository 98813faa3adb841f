import SocketServerLib.RacingGameServer.PacketData
import SocketServerLib.Lib.ByteRange

/-
  The `PacketData::Init` overloads, copy by copy: which ranges of the array they write, with
  the length and the offset in `uint32_t`.

  A packet is written at its `m_Size`, which each copy moves on. What a copy puts outside the
  array is not in the packet, but its range is in `ranges`. `size` is what an overload takes
  for the length of its payload, and `payload` are the bytes it copies.

  Correspondence:
    `Init(infoCode_, reqNo_, T&)`                `initObj`
    `Init(infoCode_, reqNo_, std::string&)`      `initString`
    `Init(infoCode_, reqNo_, pData_, dataSize_)` `initData`
    `Init(infoCode_, reqNo_)`                    `initHeader`

  What is proved:
    1. `header_eq`, `initWith_fits` — the copies of an `Init` within the array are one.
    2. `initWith_eq_init` — for a payload that fits, that is `init`.
    3. `init_exact_iff` — an `Init` is exact if and only if the payload fits, or its length with
       the header is more than `PACKET_SIZE` in 32 bits too.
    4. `initData_wraps` — a length that wraps.

  What is assumed: a payload has the length that is given with it, and lies outside the packet.
-/
namespace RacingGameServer

open ByteRange

/-- A packet that is being written, and the ranges written so far. -/
structure Written where
  packet : PacketData
  ranges : List (Nat × Nat)

namespace Written

/-- `CopyMemory(m_pData + m_Size, ..)` and the addition to `m_Size`. -/
def put (w : Written) (src : Bytes) : Written :=
  { packet :=
      { w.packet with
        data := (copyTo w.packet.data w.packet.size src).take w.packet.data.length
        size := (w.packet.size + src.length) % 2 ^ 32 }
    ranges := w.ranges ++ [(w.packet.size, src.length)] }

end Written

namespace PacketData

/-- The three header fields, from `m_Size = 0` on. -/
def header (p : PacketData) (totalSize : Nat) (infoCode_ : InfoCode) (reqNo_ : Nat) : Written :=
  ((({ packet := { p with size := 0 }, ranges := [] } : Written).put (leEncode 4 totalSize)).put
    (leEncode 4 infoCode_.toNat)).put (leEncode 4 reqNo_)

/-- The body the overloads with a payload share. -/
def initWith (p : PacketData) (infoCode_ : InfoCode) (reqNo_ size : Nat) (payload : Bytes) :
    Written × Bool :=
  let totalSize := (size + sizeofInfoHeader) % 2 ^ 32
  if totalSize > packetSize then ({ packet := p, ranges := [] }, false)
  else if size > 0 then ((p.header totalSize infoCode_ reqNo_).put payload, true)
  else (p.header totalSize infoCode_ reqNo_, true)

/-- `objData_` are the `sizeof(T)` bytes of the object. -/
def initObj (p : PacketData) (infoCode_ : InfoCode) (reqNo_ : Nat) (objData_ : Bytes) :
    Written × Bool :=
  p.initWith infoCode_ reqNo_ (objData_.length % 2 ^ 32) objData_

def initString (p : PacketData) (infoCode_ : InfoCode) (reqNo_ : Nat) (strData_ : Bytes) :
    Written × Bool :=
  let size := strData_.length % 2 ^ 32
  p.initWith infoCode_ reqNo_ size (strData_.take size)

/-- `pData_` are the `dataSize_` bytes behind the pointer, fewer than `2^32`. -/
def initData (p : PacketData) (infoCode_ : InfoCode) (reqNo_ : Nat) (pData_ : Bytes) :
    Written × Bool :=
  p.initWith infoCode_ reqNo_ pData_.length pData_

def initHeader (p : PacketData) (infoCode_ : InfoCode) (reqNo_ : Nat) : Written × Bool :=
  (p.header sizeofInfoHeader infoCode_ reqNo_, true)

/-- What an `Init` with this payload has to do. -/
structure Exact (p : PacketData) (infoCode_ : InfoCode) (reqNo_ : Nat) (payload : Bytes)
    (r : Written × Bool) : Prop where
  accepts : r.2 = true ↔ payload.length ≤ packetSize - sizeofInfoHeader
  size : r.2 = true → r.1.packet.size = sizeofInfoHeader + payload.length
  decodes : r.2 = true →
    readU32 r.1.packet.bytes 0 = r.1.packet.size ∧
      readU32 r.1.packet.bytes 4 = infoCode_.toNat ∧ readU32 r.1.packet.bytes 8 = reqNo_ ∧
      r.1.packet.bytes.drop sizeofInfoHeader = payload
  unchanged : r.2 = false → r.1.packet = p
  inside : ∀ x ∈ r.1.ranges, x.1 + x.2 ≤ p.capacity

/-- A length that is too long, and is not in 32 bits when the header is added. -/
def Wraps (n : Nat) : Prop :=
  packetSize - sizeofInfoHeader < n ∧ (n + sizeofInfoHeader) % 2 ^ 32 ≤ packetSize

instance (n : Nat) : Decidable (Wraps n) := inferInstanceAs (Decidable (_ ∧ _))

/-- A packet of the pool: `Allocate(PACKET_SIZE)`. -/
structure Pooled (p : PacketData) : Prop where
  capacity_eq : p.capacity = packetSize
  length_eq : p.data.length = packetSize

theorem pooled_alloc (addr : Nat) : (alloc addr packetSize).Pooled where
  capacity_eq := rfl
  length_eq := List.length_replicate

variable {p : PacketData} {c : InfoCode} {r size : Nat} {payload : Bytes}

/-- The packet with these bytes at the front of its array. -/
def holding (p : PacketData) (b : Bytes) : PacketData :=
  { p with data := copyTo p.data 0 b, size := b.length }

theorem holding_nil (p : PacketData) : p.holding [] = { p with size := 0 } := by
  simp [holding, copyTo]

theorem bytes_holding (p : PacketData) (b : Bytes) : (p.holding b).bytes = b := by
  have h : slice (copyTo p.data 0 b) 0 b.length = b := slice_copyTo (Nat.zero_le _)
  rwa [slice, List.drop_zero] at h

/-- A copy that stays within the array goes on where the last one ended. -/
theorem put_holding (hp : p.Pooled) (b src : Bytes) (rs : List (Nat × Nat))
    (h : b.length + src.length ≤ packetSize) :
    ({ packet := p.holding b, ranges := rs } : Written).put src =
      { packet := p.holding (b ++ src), ranges := rs ++ [(b.length, src.length)] } := by
  have hlen := hp.length_eq
  have hb : (copyTo p.data 0 b).length = p.data.length := length_copyTo (by omega)
  have hdata : (copyTo (copyTo p.data 0 b) b.length src).take (copyTo p.data 0 b).length =
      copyTo p.data 0 (b ++ src) := by
    have hsame : (copyTo (copyTo p.data 0 b) b.length src).length = (copyTo p.data 0 b).length :=
      length_copyTo (by omega)
    have hone := copyTo_copyTo (Nat.zero_le p.data.length) b src
    rw [List.take_of_length_le (Nat.le_of_eq hsame)]
    rwa [Nat.zero_add] at hone
  have hsize : (b.length + src.length) % 2 ^ 32 = (b ++ src).length := by
    have : packetSize = 8192 := rfl
    rw [List.length_append]
    exact Nat.mod_eq_of_lt (by omega)
  simp only [Written.put, holding, hdata, hsize]

/-- The header as it lies in the packet. -/
def headerBytes (totalSize : Nat) (infoCode_ : InfoCode) (reqNo_ : Nat) : Bytes :=
  leEncode 4 totalSize ++ leEncode 4 infoCode_.toNat ++ leEncode 4 reqNo_

theorem length_headerBytes (totalSize : Nat) (c : InfoCode) (r : Nat) :
    (headerBytes totalSize c r).length = sizeofInfoHeader := by
  simp only [headerBytes, List.length_append, leEncode_length]
  rfl

theorem header_eq (hp : p.Pooled) (totalSize : Nat) (c : InfoCode) (r : Nat) :
    p.header totalSize c r =
      { packet := p.holding (headerBytes totalSize c r), ranges := [(0, 4), (4, 4), (8, 4)] } := by
  have hsize : packetSize = 8192 := rfl
  have h4 : ∀ n, (leEncode 4 n).length = 4 := leEncode_length 4
  rw [header, ← holding_nil, put_holding hp _ _ _ (by rw [h4, List.length_nil]; omega),
    List.nil_append, put_holding hp _ _ _ (by rw [h4, h4]; omega),
    put_holding hp _ _ _ (by rw [List.length_append, h4, h4, h4]; omega)]
  simp only [headerBytes, List.length_append, h4, List.length_nil, List.nil_append,
    List.cons_append]

/-- The message of a packet. -/
def message (infoCode_ : InfoCode) (reqNo_ : Nat) (payload : Bytes) : Bytes :=
  headerBytes (payload.length + sizeofInfoHeader) infoCode_ reqNo_ ++ payload

theorem length_message (c : InfoCode) (r : Nat) (payload : Bytes) :
    (message c r payload).length = sizeofInfoHeader + payload.length := by
  rw [message, List.length_append, length_headerBytes]

/-- The length of the message does not wrap, and is not too long. -/
theorem total_fits {n : Nat} (h : n ≤ packetSize - sizeofInfoHeader) :
    (n + sizeofInfoHeader) % 2 ^ 32 = n + sizeofInfoHeader ∧
      ¬ n + sizeofInfoHeader > packetSize := by
  have hsize : packetSize = 8192 := rfl
  have hheader : sizeofInfoHeader = 12 := rfl
  exact ⟨Nat.mod_eq_of_lt (by omega), by omega⟩

/-- A payload that fits is written behind the header. -/
theorem initWith_fits (hp : p.Pooled) (c : InfoCode) (r : Nat)
    (h : payload.length ≤ packetSize - sizeofInfoHeader) :
    (p.initWith c r payload.length payload).1.packet = p.holding (message c r payload) ∧
      (p.initWith c r payload.length payload).2 = true ∧
      ∀ x ∈ (p.initWith c r payload.length payload).1.ranges, x.1 + x.2 ≤ packetSize := by
  obtain ⟨hmod, hle⟩ := total_fits h
  have hranges : ∀ x ∈ [(0, 4), (4, 4), (8, 4)], x.1 + x.2 ≤ packetSize := by decide
  simp only [initWith, hmod, if_neg hle, header_eq hp]
  by_cases hpos : payload.length > 0
  · have hput := put_holding hp (headerBytes (payload.length + sizeofInfoHeader) c r)
      payload [(0, 4), (4, 4), (8, 4)] (by rw [length_headerBytes]; omega)
    rw [if_pos hpos, hput]
    refine ⟨rfl, rfl, fun x hx => ?_⟩
    rcases List.mem_append.mp hx with hx | hx
    · exact hranges x hx
    · obtain rfl := List.mem_singleton.mp hx
      rw [length_headerBytes]
      omega
  · obtain rfl : payload = [] := List.eq_nil_of_length_eq_zero (by omega)
    rw [if_neg hpos, message, List.append_nil]
    exact ⟨rfl, rfl, hranges⟩

/-- A length that is too long in 32 bits too is refused. -/
theorem initWith_refused (c : InfoCode) (r : Nat) (payload : Bytes)
    (h : packetSize < (size + sizeofInfoHeader) % 2 ^ 32) :
    p.initWith c r size payload = ({ packet := p, ranges := [] }, false) := by
  simp only [initWith]
  exact if_pos h

theorem initWith_accepts (c : InfoCode) (r : Nat) (payload : Bytes)
    (h : (size + sizeofInfoHeader) % 2 ^ 32 ≤ packetSize) :
    (p.initWith c r size payload).2 = true := by
  simp only [initWith]
  rw [if_neg (Nat.not_lt.mpr h)]
  split <;> rfl

/-- For a payload that fits, the copies are those of `init`. -/
theorem initWith_eq_init (hp : p.Pooled) (c : InfoCode) (r : Nat)
    (h : payload.length ≤ packetSize - sizeofInfoHeader) :
    ((p.initWith c r payload.length payload).1.packet,
      (p.initWith c r payload.length payload).2) = p.init c r payload := by
  obtain ⟨hmod, hle⟩ := total_fits h
  have hlen := length_message c r payload
  have hmod' : (message c r payload).length % 2 ^ 32 = (message c r payload).length :=
    Nat.mod_eq_of_lt (by omega)
  obtain ⟨hpacket, htrue, -⟩ := initWith_fits hp c r h
  rw [hpacket, htrue]
  simp only [init, hmod, if_neg hle, holding, copyTo, List.take_zero, List.nil_append,
    Nat.zero_add]
  simp only [message, headerBytes] at hmod' ⊢
  rw [hmod']

/-! ## Which lengths are encoded exactly -/

/-- The message decodes to what it was made of. -/
theorem message_decodes (hr : r < 2 ^ 32) (h : payload.length ≤ packetSize - sizeofInfoHeader) :
    readU32 (message c r payload) 0 = (message c r payload).length ∧
      readU32 (message c r payload) 4 = c.toNat ∧ readU32 (message c r payload) 8 = r ∧
      (message c r payload).drop sizeofInfoHeader = payload := by
  have hsize : packetSize = 8192 := rfl
  have hheader : sizeofInfoHeader = 12 := rfl
  have hcode : c.toNat < 2 ^ 32 := by cases c <;> decide
  rw [length_message]
  simp only [message, headerBytes, List.append_assoc]
  refine ⟨?_, ?_, ?_, ?_⟩
  · rw [Nat.add_comm sizeofInfoHeader]
    exact readU32_leEncode List.length_nil (by omega) _
  · exact readU32_leEncode (leEncode_length 4 _) hcode _
  · rw [← List.append_assoc]
    exact readU32_leEncode (by simp only [List.length_append, leEncode_length]) hr _
  · simp only [← List.append_assoc]
    exact List.drop_left' (length_headerBytes _ c r)

theorem initWith_exact (hp : p.Pooled) (c : InfoCode) (hr : r < 2 ^ 32)
    (h : payload.length ≤ packetSize - sizeofInfoHeader) :
    Exact p c r payload (p.initWith c r payload.length payload) := by
  obtain ⟨hpacket, htrue, hranges⟩ := initWith_fits hp c r h
  have hsize : (p.holding (message c r payload)).size = (message c r payload).length := rfl
  refine ⟨iff_of_true htrue h, fun _ => ?_, fun _ => ?_, fun hfalse => ?_, fun x hx => ?_⟩
  · rw [hpacket, hsize, length_message]
  · rw [hpacket, bytes_holding, hsize]
    exact message_decodes hr h
  · rw [htrue] at hfalse
    cases hfalse
  · rw [hp.capacity_eq]
    exact hranges x hx

/-- One overload: it takes `size`, which is the length in 32 bits, for the length, and copies
the payload if it fits. -/
theorem exact_iff (hp : p.Pooled) (c : InfoCode) (hr : r < 2 ^ 32) {copied : Bytes}
    (hsize : size % 2 ^ 32 = payload.length % 2 ^ 32)
    (hfits : payload.length ≤ packetSize - sizeofInfoHeader →
      size = payload.length ∧ copied = payload) :
    Exact p c r payload (p.initWith c r size copied) ↔ ¬ Wraps payload.length := by
  have hmod : (size + sizeofInfoHeader) % 2 ^ 32 =
      (payload.length + sizeofInfoHeader) % 2 ^ 32 := by
    rw [Nat.add_mod, hsize, ← Nat.add_mod]
  constructor
  · intro hexact hwraps
    have haccepts := initWith_accepts (p := p) c r copied (hmod ▸ hwraps.2)
    exact Nat.not_le_of_lt hwraps.1 (hexact.accepts.mp haccepts)
  · intro hno
    by_cases h : payload.length ≤ packetSize - sizeofInfoHeader
    · obtain ⟨rfl, rfl⟩ := hfits h
      exact initWith_exact hp c hr h
    · have hlong : packetSize < (size + sizeofInfoHeader) % 2 ^ 32 := by
        rw [hmod]
        exact Nat.lt_of_not_le fun hle => hno ⟨Nat.lt_of_not_le h, hle⟩
      rw [initWith_refused c r copied hlong]
      exact ⟨iff_of_false Bool.false_ne_true h, nofun, nofun, fun _ => rfl, nofun⟩

/-- An `Init` on a packet of the pool is exact if and only if the length of the payload does not
wrap; the one without a payload always is. -/
theorem init_exact_iff (hp : p.Pooled) (c : InfoCode) (hr : r < 2 ^ 32) :
    (∀ pData_ : Bytes, pData_.length < 2 ^ 32 →
      (Exact p c r pData_ (p.initData c r pData_) ↔ ¬ Wraps pData_.length)) ∧
    (∀ strData_, Exact p c r strData_ (p.initString c r strData_) ↔ ¬ Wraps strData_.length) ∧
    (∀ objData_, Exact p c r objData_ (p.initObj c r objData_) ↔ ¬ Wraps objData_.length) ∧
    Exact p c r [] (p.initHeader c r) := by
  have hmod : ∀ b : Bytes, b.length ≤ packetSize - sizeofInfoHeader →
      b.length % 2 ^ 32 = b.length := by
    intro b hb
    have : packetSize - sizeofInfoHeader = 8180 := rfl
    exact Nat.mod_eq_of_lt (by omega)
  refine ⟨fun b _ => ?_, fun b => ?_, fun b => ?_, ?_⟩
  · exact exact_iff hp c hr rfl fun _ => ⟨rfl, rfl⟩
  · refine exact_iff hp c hr (Nat.mod_mod ..) fun hfits => ⟨hmod b hfits, ?_⟩
    rw [hmod b hfits, List.take_length]
  · exact exact_iff hp c hr (Nat.mod_mod ..) fun hfits => ⟨hmod b hfits, rfl⟩
  · exact initWith_exact hp c hr (List.length_nil ▸ Nat.zero_le _)

theorem init_exact_small :
    Exact (alloc 0 packetSize) .REQ_SUCCESS 7 [1, 2] ((alloc 0 packetSize).initData .REQ_SUCCESS 7
      [1, 2]) :=
  ((init_exact_iff (pooled_alloc 0) .REQ_SUCCESS (by decide)).1 [1, 2] (by decide)).mpr (by decide)

/-- A `dataSize_` of `2^32 - 1` is accepted: with the header it is 11. -/
theorem initData_wraps :
    ((alloc 0 packetSize).initData .REQ_SUCCESS 7 (List.replicate (2 ^ 32 - 1) 0)).2 = true ∧
      ¬ Exact (alloc 0 packetSize) .REQ_SUCCESS 7 (List.replicate (2 ^ 32 - 1) 0)
        ((alloc 0 packetSize).initData .REQ_SUCCESS 7 (List.replicate (2 ^ 32 - 1) 0)) := by
  have haccepts :
      ((alloc 0 packetSize).initData .REQ_SUCCESS 7 (List.replicate (2 ^ 32 - 1) 0)).2 = true :=
    initWith_accepts _ _ _ (by rw [List.length_replicate]; decide)
  refine ⟨haccepts, fun h => ?_⟩
  have hle := h.accepts.mp haccepts
  rw [List.length_replicate] at hle
  exact absurd hle (by decide)

end PacketData

end RacingGameServer
