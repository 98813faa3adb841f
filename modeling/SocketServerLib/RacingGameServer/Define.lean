import Mathlib.Data.List.Basic
import Mathlib.Algebra.Group.Nat.Defs
import Mathlib.Algebra.Group.Int.Defs

/-
  Constants, enumerations and byte-level helpers of the IOCP TCP+UDP server
  (`Define.hpp`, `NetworkMessage.hpp`).

  Sizes and counters are `Nat`; where the source computes in `uint32_t` and the
  wrap can be reached, the definition that does it says `% 2^32`.
-/
namespace RacingGameServer

abbrev Bytes := List UInt8

def maxSockbuf : Nat := 4096
def maxRecvSlideBufferSize : Nat := maxSockbuf
def maxSendSlideBufferSize : Nat := maxSockbuf * 16
def maxTcpSegmentSize : Nat := 1460
def maxWsabufs : Nat := 16
def packetSize : Nat := maxSockbuf * 2
def headerSize : Nat := 12
def maxPayloadSize : Nat := packetSize - headerSize

/-- `sizeof(InfoHeader)` and `sizeof(ReqHeader)`: three 32-bit fields each. -/
def sizeofInfoHeader : Nat := 12
def sizeofReqHeader : Nat := 12

/-- `sizeof(ReqMessage)`: the header, `payloadSize` and the payload array. -/
def sizeofReqMessage : Nat := sizeofReqHeader + 4 + maxPayloadSize

/-- `sizeof(EchoParameter)`: `msgSize` and `msg[MAX_ECHO_MSG_SIZE]`. -/
def sizeofEchoParameter : Nat := 4 + 80

inductive JobProcess where
  | PARSING | EXECUTE | SEND
  deriving DecidableEq, Repr

inductive InfoCode where
  | REQ_SUCCESS | REQ_FAILED | NOT_FINISHED | NULLPTR_ON_FUNCPTR | OTHER_ERR | NOT_MY_TURN
  deriving DecidableEq, Repr

/-- `static_cast<int32_t>` of the code. -/
def InfoCode.toNat : InfoCode → Nat
  | REQ_SUCCESS => 0
  | REQ_FAILED => 1
  | NOT_FINISHED => 2
  | NULLPTR_ON_FUNCPTR => 3
  | OTHER_ERR => 4
  | NOT_MY_TURN => 5

inductive EIOOperation where
  | TCPRECV | UDPRECV | TCPSEND | UDPSEND | ACCEPT
  deriving DecidableEq, Repr

inductive SendProtocol where
  | TCP | UDP
  deriving DecidableEq, Repr

/-- `ReqType::LAST`. -/
def reqTypeLast : Int := 2

/-- The number stored little-endian in the bytes. -/
def leDecode : Bytes → Nat
  | [] => 0
  | b :: bs => b.toNat + 256 * leDecode bs

/-- The `w` low bytes of a number, little-endian. -/
def leEncode : (w : Nat) → Nat → Bytes
  | 0, _ => []
  | w + 1, n => UInt8.ofNat (n % 256) :: leEncode w (n / 256)

@[simp] theorem leEncode_length (w n : Nat) : (leEncode w n).length = w := by
  induction w generalizing n with
  | zero => rfl
  | succ w ih => simp [leEncode, ih]

/-- The `uint32_t` at offset `o`. -/
def readU32 (b : Bytes) (o : Nat) : Nat := leDecode ((b.drop o).take 4)

/-- A `uint32_t` bit pattern read as `int32_t`. -/
def toInt32 (n : Nat) : Int := if n < 2 ^ 31 then n else (n : Int) - 2 ^ 32

/-- Reading within a prefix does not see what follows it. -/
theorem readU32_append {b : Bytes} {o : Nat} (h : o + 4 ≤ b.length) (t : Bytes) :
    readU32 (b ++ t) o = readU32 b o := by
  unfold readU32
  rw [List.drop_append_of_le_length (by omega), List.take_append_of_le_length]
  rw [List.length_drop]; omega

/-- 5 bytes, which `Peek` waits for, hold the length at the front. -/
theorem readU32_front (b t : Bytes) (h : 5 ≤ b.length) : readU32 (b ++ t) 0 = readU32 b 0 :=
  readU32_append (Nat.le_of_succ_le h) t

/-! ## Numbers written and read back -/

theorem leDecode_leEncode (w n : Nat) : leDecode (leEncode w n) = n % 256 ^ w := by
  induction w generalizing n with
  | zero => exact (Nat.mod_one n).symm
  | succ w ih =>
    have hbyte : (UInt8.ofNat (n % 256)).toNat = n % 256 := by
      rw [UInt8.toNat_ofNat']
      omega
    rw [leEncode, leDecode, hbyte, ih, Nat.pow_succ, Nat.mul_comm (256 ^ w), Nat.mod_mul]

theorem leDecode_lt (b : Bytes) : leDecode b < 256 ^ b.length := by
  induction b with
  | nil => exact Nat.one_pos
  | cons x b ih =>
    have hx : x.toNat < 256 := x.toNat_lt
    rw [leDecode, List.length_cons, Nat.pow_succ]
    omega

theorem leEncode_leDecode (b : Bytes) : leEncode b.length (leDecode b) = b := by
  induction b with
  | nil => rfl
  | cons x b ih =>
    have hx : x.toNat < 256 := x.toNat_lt
    have hmod : (x.toNat + 256 * leDecode b) % 256 = x.toNat := by omega
    have hdiv : (x.toNat + 256 * leDecode b) / 256 = leDecode b := by omega
    rw [List.length_cons, leDecode, leEncode, hmod, hdiv, ih, UInt8.ofNat_toNat]

theorem readU32_lt (b : Bytes) (o : Nat) : readU32 b o < 2 ^ 32 :=
  Nat.lt_of_lt_of_le (leDecode_lt _) (Nat.pow_le_pow_right (by decide) (List.length_take_le 4 _))

/-- The bytes that a number is read from. -/
theorem leEncode_readU32 {b : Bytes} {o : Nat} (h : o + 4 ≤ b.length) :
    leEncode 4 (readU32 b o) = (b.drop o).take 4 := by
  have hlen : ((b.drop o).take 4).length = 4 := by
    rw [List.length_take, List.length_drop]
    omega
  have hbytes := leEncode_leDecode ((b.drop o).take 4)
  rwa [hlen] at hbytes

/-- The number read at its place, whatever stands around it. -/
theorem readU32_leEncode {pre : Bytes} {o n : Nat} (hpre : pre.length = o) (hn : n < 2 ^ 32)
    (suf : Bytes) : readU32 (pre ++ (leEncode 4 n ++ suf)) o = n := by
  rw [readU32, List.drop_left' hpre, List.take_left' (leEncode_length 4 n), leDecode_leEncode]
  exact Nat.mod_eq_of_lt hn

end RacingGameServer
