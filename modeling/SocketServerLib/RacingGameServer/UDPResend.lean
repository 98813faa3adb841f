import SocketServerLib.RacingGameServer.Define
import SocketServerLib.Lib.ByteRange

/-
  `UDPResend`, byte by byte: a send context in memory, the `WSASendTo` that `SendMsgUDP` makes
  from it, the completion that writes its `WSAOVERLAPPED`, and the `WSASendTo` of `UDPResend`.

  The layout is that of a 32-bit or a 64-bit build. `behind` is the memory behind the context.
  A `WSASendTo` reads the first `WSABUF`, and `iTolen` bytes from the address it is given.

  What is proved:
    1. `initContext_fields` — the fields of a context that `Init` has filled.
    2. `udpResend_rest` — the call of `UDPResend` has socket, buffer, length and address length
       of the first one, and leaves operation, client and ownership as they have to be.
    3. `resend_elsewhere` — its destination is never that of the first one: it is read from
       `addrlen` on.

  What is assumed: the layouts of the structures on the two builds.
-/
namespace RacingGameServer

open ByteRange

/-- `n` rounded up to a multiple of `a`. -/
def align (n a : Nat) : Nat := (n + a - 1) / a * a

inductive Build where
  | Win32 | x64
  deriving DecidableEq, Repr

namespace Build

/-- The size of a pointer. -/
def ptr : Build → Nat
  | Win32 => 4
  | x64 => 8

/-- `Internal`, `InternalHigh`, `Offset`, `OffsetHigh` and `hEvent`. -/
def sizeofWSAOVERLAPPED (b : Build) : Nat := b.ptr + b.ptr + 4 + 4 + b.ptr

/-- `len`, padded, and `buf`. -/
def sizeofWSABUF (b : Build) : Nat := align 4 b.ptr + b.ptr

def sizeofSockaddrIn : Nat := 16

/-! Where the members of `stUDPSendContext` lie; `m_overlapped.m_overlapped` is at 0. -/

def userIndex (b : Build) : Nat := b.sizeofWSAOVERLAPPED
def wsaBuf (b : Build) : Nat := align (b.userIndex + 2) b.ptr
def wsaBufBuf (b : Build) : Nat := b.wsaBuf + align 4 b.ptr
def eOperation (b : Build) : Nat := b.wsaBuf + maxWsabufs * b.sizeofWSABUF
def clientAddr (b : Build) : Nat := b.eOperation + 4
def addrlen (b : Build) : Nat := b.clientAddr + sizeofSockaddrIn
def flags (b : Build) : Nat := b.addrlen + 4
def sizeofOverlappedEx (b : Build) : Nat := align (b.flags + 4) b.ptr
def pPacket (b : Build) : Nat := b.sizeofOverlappedEx
def sizeofUDPSendContext (b : Build) : Nat := b.pPacket + b.ptr

example : x64.addrlen = 316 ∧ x64.sizeofUDPSendContext = 336 := by decide

/-- The members lie one behind the other. -/
theorem members (b : Build) :
    b.sizeofWSAOVERLAPPED ≤ b.userIndex ∧ b.userIndex + 2 ≤ b.wsaBuf ∧
      b.wsaBuf + 4 ≤ b.wsaBufBuf ∧ b.wsaBufBuf + b.ptr ≤ b.eOperation ∧
      b.eOperation + 4 ≤ b.clientAddr ∧ b.clientAddr + 16 ≤ b.addrlen ∧
      b.addrlen + 4 ≤ b.sizeofOverlappedEx ∧ b.sizeofOverlappedEx ≤ b.pPacket ∧
      b.pPacket + b.ptr ≤ b.sizeofUDPSendContext := by
  cases b <;> decide

end Build

/-- The sixteen bytes of a `sockaddr_in`. -/
structure SockaddrIn where
  bytes : Bytes
  length_eq : bytes.length = Build.sizeofSockaddrIn

/-- The port behind the family. -/
def SockaddrIn.sin_port (a : SockaddrIn) : Bytes := slice a.bytes 2 2

/-- A context in memory, whatever it holds. -/
structure ContextMemory (b : Build) where
  bytes : Bytes
  length_eq : bytes.length = b.sizeofUDPSendContext

/-- A packet: where the object lies, its array and its size. -/
structure PacketRef (b : Build) where
  addr : Nat
  data : Nat
  size : Nat
  addr_lt : addr < 256 ^ b.ptr

/-- A `WSASendTo` with one buffer. -/
structure WSASendTo where
  socket : Nat
  buf : Bytes
  len : Bytes
  lpTo : Bytes
  iTolen : Nat

/-- `static_cast<int32_t>` of the operation. -/
def EIOOperation.toNat : EIOOperation → Nat
  | TCPRECV => 0
  | UDPRECV => 1
  | TCPSEND => 2
  | UDPSEND => 3
  | ACCEPT => 4

/-- `stUDPSendContext::Init` on the memory of a context. -/
def initContext (b : Build) (m : Bytes) (uClientIndex_ : Nat) (addr : SockaddrIn)
    (pPacket_ : PacketRef b) : Bytes :=
  let m := copyTo m b.pPacket (leEncode b.ptr pPacket_.addr)
  let m := copyTo m 0 (List.replicate b.sizeofOverlappedEx 0)
  let m := copyTo m b.eOperation (leEncode 4 EIOOperation.UDPSEND.toNat)
  let m := copyTo m b.userIndex (leEncode 2 uClientIndex_)
  let m := copyTo m b.wsaBufBuf (leEncode b.ptr pPacket_.data)
  let m := copyTo m b.wsaBuf (leEncode 4 pPacket_.size)
  let m := copyTo m b.clientAddr addr.bytes
  copyTo m b.addrlen (leEncode 4 Build.sizeofSockaddrIn)

/-- The call with the address at an offset of the context. -/
def wsaSendTo (b : Build) (m_UDPSocket : Nat) (m behind : Bytes) (lpTo iTolen : Nat) :
    WSASendTo :=
  { socket := m_UDPSocket, buf := slice m b.wsaBufBuf b.ptr, len := slice m b.wsaBuf 4
    lpTo := slice (m ++ behind) lpTo iTolen, iTolen := iTolen }

/-- `SendMsgUDP`: the context posted, and the call. `clntaddr` is the address of the connection,
`none` where there is no connection; `context` is what the pool gives. -/
def sendMsgUDP (b : Build) (m_UDPSocket uClientIndex_ : Nat) (pPacket_ : Option (PacketRef b))
    (clntaddr : Option SockaddrIn) (context : Option (ContextMemory b)) (behind : Bytes)
    (posted : Bool) : Option (Bytes × WSASendTo) :=
  match pPacket_, clntaddr, context with
  | some p, some addr, some m =>
    let m := initContext b m.bytes uClientIndex_ addr p
    if leDecode (slice m (b.clientAddr + 2) 2) = 0 then none
    else
      let addrlen := leDecode (slice m b.addrlen 4)
      if posted = false then none
      else some (m, wsaSendTo b m_UDPSocket m behind b.clientAddr addrlen)
  | _, _, _ => none

/-- What `UDPResend` leaves of the context, its call, and what it has given back: the packets of
`PacketPool`, and how often the context. -/
structure Resent where
  context : Bytes
  call : WSASendTo
  packets : List Nat
  contexts : Nat

/-- `UDPResend` of a context that is not null. -/
def udpResend (b : Build) (m_UDPSocket : Nat) (m behind : Bytes) (posted : Bool) : Resent :=
  let m := copyTo m 0 (List.replicate b.sizeofWSAOVERLAPPED 0)
  { context := m
    call := wsaSendTo b m_UDPSocket m behind b.addrlen Build.sizeofSockaddrIn
    packets := if posted = false then [leDecode (slice m b.pPacket b.ptr)] else []
    contexts := if posted = false then 1 else 0 }

/-- The dispatcher takes the context for a UDP send of the client. -/
def IsUDPSendOf (b : Build) (uClientIndex_ : Nat) (m : Bytes) : Prop :=
  slice m b.eOperation 4 = leEncode 4 EIOOperation.UDPSEND.toNat ∧
    slice m b.userIndex 2 = leEncode 2 uClientIndex_

/-- The second call is the first but for the destination, and the context is still that of a
UDP send of the client; context and packet are given back once, if the call fails. -/
structure SameRest (b : Build) (uClientIndex_ : Nat) (pPacket_ : PacketRef b) (first : WSASendTo)
    (posted : Bool) (r : Resent) : Prop where
  socket : r.call.socket = first.socket
  buf : r.call.buf = first.buf
  len : r.call.len = first.len
  iTolen : r.call.iTolen = first.iTolen
  recognised : IsUDPSendOf b uClientIndex_ r.context
  packets : r.packets = if posted = false then [pPacket_.addr] else []
  contexts : r.contexts = if posted = false then 1 else 0

variable {b : Build} {m behind : Bytes} {i : Nat} {addr : SockaddrIn} {p : PacketRef b}

/-- What a context holds that `Init` has filled. -/
structure ContextFilled (b : Build) (i : Nat) (addr : SockaddrIn) (p : PacketRef b) (m : Bytes) :
    Prop where
  length_eq : m.length = b.sizeofUDPSendContext
  eOperation : slice m b.eOperation 4 = leEncode 4 EIOOperation.UDPSEND.toNat
  userIndex : slice m b.userIndex 2 = leEncode 2 i
  clientAddr : slice m b.clientAddr 16 = addr.bytes
  addrlen : slice m b.addrlen 4 = leEncode 4 Build.sizeofSockaddrIn
  pPacket : slice m b.pPacket b.ptr = leEncode b.ptr p.addr

/-- The members that `Init` fills behind the zeros. -/
def filledMembers (b : Build) (i : Nat) (addr : SockaddrIn) (p : PacketRef b) :
    List (Nat × Bytes) :=
  [(b.eOperation, leEncode 4 EIOOperation.UDPSEND.toNat), (b.userIndex, leEncode 2 i),
    (b.wsaBufBuf, leEncode b.ptr p.data), (b.wsaBuf, leEncode 4 p.size),
    (b.clientAddr, addr.bytes), (b.addrlen, leEncode 4 Build.sizeofSockaddrIn)]

theorem filledMembers_apart (b : Build) (i : Nat) (addr : SockaddrIn) (p : PacketRef b) :
    (filledMembers b i addr p).Pairwise Apart ∧
      ∀ w ∈ filledMembers b i addr p, w.1 + w.2.length ≤ b.sizeofOverlappedEx := by
  obtain ⟨h1, h2, h3, h4, h5, h6, h7, h8, h9⟩ := b.members
  have haddr : addr.bytes.length = 16 := addr.length_eq
  simp only [filledMembers, Apart, List.pairwise_cons, List.mem_cons, List.not_mem_nil, or_false,
    forall_eq_or_imp, forall_eq, false_implies, implies_true, leEncode_length, haddr,
    List.Pairwise.nil, and_true]
  omega

theorem initContext_fields (m : ContextMemory b) (i : Nat) (addr : SockaddrIn) (p : PacketRef b) :
    ContextFilled b i addr p (initContext b m.bytes i addr p) := by
  obtain ⟨h1, h2, h3, h4, h5, h6, h7, h8, h9⟩ := b.members
  obtain ⟨hapart, hinside⟩ := filledMembers_apart b i addr p
  have haddr : addr.bytes.length = 16 := addr.length_eq
  let packet := copyTo m.bytes b.pPacket (leEncode b.ptr p.addr)
  let zeros := copyTo packet 0 (List.replicate b.sizeofOverlappedEx 0)
  have hpacket : packet.length = b.sizeofUDPSendContext := by
    rw [length_copyTo (by rw [leEncode_length, m.length_eq]; omega), m.length_eq]
  have hzeros : zeros.length = b.sizeofUDPSendContext := by
    rw [length_copyTo (by rw [List.length_replicate, hpacket]; omega), hpacket]
  have hwithin : Within zeros (filledMembers b i addr p) := fun w hw => by
    have := hinside w hw
    omega
  have hread : ∀ w ∈ filledMembers b i addr p,
      slice (initContext b m.bytes i addr p) w.1 w.2.length = w.2 := fun w hw =>
    slice_copyAll hwithin hapart hw
  refine ⟨(length_copyAll hwithin).trans hzeros, ?_, ?_, ?_, ?_, ?_⟩
  · exact hread (b.eOperation, leEncode 4 EIOOperation.UDPSEND.toNat) (by simp [filledMembers])
  · exact hread (b.userIndex, leEncode 2 i) (by simp [filledMembers])
  · have := hread (b.clientAddr, addr.bytes) (by simp [filledMembers])
    rwa [haddr] at this
  · exact hread (b.addrlen, leEncode 4 Build.sizeofSockaddrIn) (by simp [filledMembers])
  · -- the pointer lies behind the part that is cleared
    calc slice (initContext b m.bytes i addr p) b.pPacket b.ptr = slice zeros b.pPacket b.ptr :=
          slice_copyAll_apart hwithin fun w hw => .inr (Nat.le_trans (hinside w hw) h8)
      _ = slice packet b.pPacket b.ptr :=
          slice_copyTo_after (by rw [List.length_replicate]; omega) (Nat.zero_le _) b.ptr
      _ = leEncode b.ptr p.addr := by
          have hread :
              slice packet b.pPacket (leEncode b.ptr p.addr).length = leEncode b.ptr p.addr :=
            slice_copyTo (by rw [m.length_eq]; omega)
          rwa [leEncode_length] at hread

/-! ## The two calls -/

/-- A call of `SendMsgUDP` that is posted was made from a context `Init` has filled, for a
packet and an address with a port. -/
theorem sendMsgUDP_posted {socket : Nat} {pPacket_ : Option (PacketRef b)}
    {clntaddr : Option SockaddrIn} {context : Option (ContextMemory b)} {posted : Bool}
    {first : WSASendTo}
    (h : sendMsgUDP b socket i pPacket_ clntaddr context behind posted = some (m, first)) :
    ∃ p addr, pPacket_ = some p ∧ clntaddr = some addr ∧ ContextFilled b i addr p m ∧
      leDecode addr.sin_port ≠ 0 ∧
      first = wsaSendTo b socket m behind b.clientAddr Build.sizeofSockaddrIn := by
  obtain ⟨-, -, -, -, -, h6, -⟩ := b.members
  unfold sendMsgUDP at h
  split at h
  · next p addr m₀ =>
    have hfilled := initContext_fields m₀ i addr p
    have hport : slice (initContext b m₀.bytes i addr p) (b.clientAddr + 2) 2 = addr.sin_port := by
      rw [SockaddrIn.sin_port, ← hfilled.clientAddr, slice_slice (by omega)]
    have hlen : leDecode (slice (initContext b m₀.bytes i addr p) b.addrlen 4) =
        Build.sizeofSockaddrIn := by
      rw [hfilled.addrlen]
      decide
    simp only [hport, hlen] at h
    split at h
    · cases h
    next hne =>
      split at h
      · cases h
      obtain ⟨rfl, rfl⟩ := Prod.mk.inj (Option.some.inj h)
      exact ⟨p, addr, rfl, rfl, hfilled, hne, rfl⟩
  · cases h

/-- A context after its completion and the `ZeroMemory` of `UDPResend`. -/
theorem slice_resent {os : Bytes} (hos : os.length = b.sizeofWSAOVERLAPPED) {o : Nat}
    (ho : b.sizeofWSAOVERLAPPED ≤ o) (n : Nat) :
    slice (copyTo (copyTo m 0 os) 0 (List.replicate b.sizeofWSAOVERLAPPED 0)) o n =
      slice m o n := by
  calc slice (copyTo (copyTo m 0 os) 0 (List.replicate b.sizeofWSAOVERLAPPED 0)) o n
      = slice (copyTo m 0 os) o n :=
        slice_copyTo_after (by rw [List.length_replicate]; omega) (Nat.zero_le _) n
    _ = slice m o n := slice_copyTo_after (by omega) (Nat.zero_le _) n

/-- Everything about the second call is as it should be, the destination apart. -/
theorem udpResend_rest (hfilled : ContextFilled b i addr p m) {os : Bytes}
    (hos : os.length = b.sizeofWSAOVERLAPPED) (socket : Nat) (behind behind' : Bytes)
    (posted : Bool) :
    SameRest b i p (wsaSendTo b socket m behind b.clientAddr Build.sizeofSockaddrIn) posted
      (udpResend b socket (copyTo m 0 os) behind' posted) := by
  obtain ⟨h1, h2, h3, h4, h5, h6, h7, h8, -⟩ := b.members
  refine ⟨rfl, ?_, ?_, rfl, ⟨?_, ?_⟩, ?_, rfl⟩
  · exact slice_resent hos (by omega) b.ptr
  · exact slice_resent hos (by omega) 4
  · exact (slice_resent hos (by omega) 4).trans hfilled.eOperation
  · exact (slice_resent hos (by omega) 2).trans hfilled.userIndex
  · have hpacket : leDecode (slice (copyTo (copyTo m 0 os) 0
        (List.replicate b.sizeofWSAOVERLAPPED 0)) b.pPacket b.ptr) = p.addr := by
      rw [slice_resent hos (by omega), hfilled.pPacket, leDecode_leEncode,
        Nat.mod_eq_of_lt p.addr_lt]
    simp only [udpResend, hpacket]

/-- The port that `UDPResend` reads lies inside `addrlen`. -/
theorem udpResend_port (hfilled : ContextFilled b i addr p m) {os : Bytes}
    (hos : os.length = b.sizeofWSAOVERLAPPED) (socket : Nat) (behind : Bytes) (posted : Bool) :
    slice (udpResend b socket (copyTo m 0 os) behind posted).call.lpTo 2 2 = [0, 0] := by
  obtain ⟨h1, h2, h3, h4, h5, h6, h7, h8, h9⟩ := b.members
  have hm := hfilled.length_eq
  have hlen : (copyTo (copyTo m 0 os) 0 (List.replicate b.sizeofWSAOVERLAPPED 0)).length =
      b.sizeofUDPSendContext := by
    have hfirst : (copyTo m 0 os).length = m.length := length_copyTo (by omega)
    rw [length_copyTo (by rw [List.length_replicate, hfirst]; omega), hfirst, hm]
  calc slice (udpResend b socket (copyTo m 0 os) behind posted).call.lpTo 2 2
      = slice (copyTo (copyTo m 0 os) 0 (List.replicate b.sizeofWSAOVERLAPPED 0) ++ behind)
          (b.addrlen + 2) 2 := slice_slice (by decide)
    _ = slice (copyTo (copyTo m 0 os) 0 (List.replicate b.sizeofWSAOVERLAPPED 0))
          (b.addrlen + 2) 2 := slice_append_left (by omega) behind
    _ = slice m (b.addrlen + 2) 2 := slice_resent hos (by omega) 2
    _ = slice (slice m b.addrlen 4) 2 2 := (slice_slice (by decide)).symm
    _ = [0, 0] := by rw [hfilled.addrlen]; decide

/-- Whatever a `SendMsgUDP` has posted, the `UDPResend` of its context goes elsewhere, and is
otherwise the same. -/
theorem resend_elsewhere {socket : Nat} {pPacket_ : Option (PacketRef b)}
    {clntaddr : Option SockaddrIn} {context : Option (ContextMemory b)} {posted : Bool}
    {first : WSASendTo}
    (h : sendMsgUDP b socket i pPacket_ clntaddr context behind posted = some (m, first))
    {os : Bytes} (hos : os.length = b.sizeofWSAOVERLAPPED) (behind' : Bytes) (reposted : Bool) :
    (udpResend b socket (copyTo m 0 os) behind' reposted).call.lpTo ≠ first.lpTo ∧
      ∃ p ∈ pPacket_,
        SameRest b i p first reposted (udpResend b socket (copyTo m 0 os) behind' reposted) := by
  obtain ⟨-, -, -, -, -, h6, h7, h8, h9⟩ := b.members
  obtain ⟨p, addr, rfl, rfl, hfilled, hport, rfl⟩ := sendMsgUDP_posted h
  refine ⟨fun hsame => hport ?_, p, rfl, ?_⟩
  · have hm := hfilled.length_eq
    -- the port of the first call is that of the address
    have hfirst : slice (slice (m ++ behind) b.clientAddr Build.sizeofSockaddrIn) 2 2 =
        addr.sin_port := by
      calc slice (slice (m ++ behind) b.clientAddr Build.sizeofSockaddrIn) 2 2
          = slice (m ++ behind) (b.clientAddr + 2) 2 := slice_slice (by decide)
        _ = slice m (b.clientAddr + 2) 2 := slice_append_left (by omega) behind
        _ = slice (slice m b.clientAddr 16) 2 2 := (slice_slice (by decide)).symm
        _ = addr.sin_port := by rw [hfilled.clientAddr, SockaddrIn.sin_port]
    have hsecond := udpResend_port hfilled hos socket behind' reposted
    rw [hsame] at hsecond
    rw [← hfirst]
    exact congrArg leDecode hsecond
  · exact udpResend_rest hfilled hos socket behind behind' reposted

/-- 127.0.0.1, port 9000. -/
def localhost : SockaddrIn where
  bytes := [2, 0, 0x23, 0x28, 127, 0, 0, 1, 0, 0, 0, 0, 0, 0, 0, 0]
  length_eq := rfl

/-- A packet of 96 bytes. -/
def somePacket : PacketRef .x64 := { addr := 4096, data := 8192, size := 96, addr_lt := by decide }

/-- A context with whatever it held. -/
def someContext : ContextMemory .x64 where
  bytes := List.replicate Build.x64.sizeofUDPSendContext 7
  length_eq := List.length_replicate

/-- What `SendMsgUDP` posts for client 3. -/
def firstSend : Option (Bytes × WSASendTo) :=
  sendMsgUDP .x64 1 3 (some somePacket) (some localhost) (some someContext) [] true

theorem resend_elsewhere_localhost :
    ∃ m first, firstSend = some (m, first) ∧
      (udpResend .x64 1 (copyTo m 0 (List.replicate Build.x64.sizeofWSAOVERLAPPED 0)) []
        true).call.lpTo ≠ first.lpTo := by
  have hsome : firstSend.isSome = true := by decide +kernel
  obtain ⟨⟨m, first⟩, h⟩ := Option.isSome_iff_exists.mp hsome
  exact ⟨m, first, h, (resend_elsewhere h List.length_replicate [] true).1⟩

/-- The second send goes to the bytes of `addrlen`, `flags` and the pointer to the packet. -/
theorem resend_to_addrlen :
    firstSend.map (fun x => (x.2.lpTo,
        (udpResend .x64 1 (copyTo x.1 0 (List.replicate Build.x64.sizeofWSAOVERLAPPED 0)) []
          true).call.lpTo)) =
      some ([2, 0, 0x23, 0x28, 127, 0, 0, 1, 0, 0, 0, 0, 0, 0, 0, 0],
        [16, 0, 0, 0, 0, 0, 0, 0, 0, 0, 0, 0, 0, 16, 0, 0]) := by
  decide +kernel

end RacingGameServer
