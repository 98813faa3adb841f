import SocketServerLib.EpollServer.DoRecv
import SocketServerLib.SelectServer.OnReceive

/-
  What `DoRecv` of the epoll server and of the select server do to the receive buffer with
  the answer of `read()` or `recv()`, the error value -1 included.

  The answer is an `int` and goes to `StorePartialMsg` as `uint32_t`; only 0 is looked at
  before. `read` is `none` for -1, else what has arrived.

  What is proved:
    1. `stores_fitting`, `keeps_full` — what happens to an answer that is not negative.
    2. `error_wraps` — over a buffer that is not empty, -1 passes the test of `Enqueue` and
       takes one byte off the size.
    3. `lawful_iff` — the buffer is left alone where it should be, if and only if the call
       has not failed or nothing is stored.

  What is assumed: a copy of 4294967295 bytes, which is undefined, takes what the array on the
  stack has of them; only the size that `Enqueue` computes is used of it.
-/
namespace StorePartialMsg
open RacingGameServer (Bytes SlideBuffer)

inductive Server where
  | Epoll | SelectAPI
  deriving DecidableEq, Repr

/-- `MAX_RECV_SLIDEBUFFER_SIZE`. -/
def Server.capacity : Server → Nat
  | Epoll => EpollServer.maxRecvSlideBufferSize
  | SelectAPI => SelectServer.maxRecvSlideBufferSize

/-- The size of the array on the stack of `DoRecv`. -/
def Server.bufSize : Server → Nat
  | Epoll => EpollServer.maxRecvSlideBufferSize
  | SelectAPI => 1024

/-- What the call returns. -/
def ioSize : Option Bytes → Int
  | none => -1
  | some msg => msg.length

/-- The array, which is zero before the call. -/
def recvbuf (srv : Server) (read : Option Bytes) : Bytes :=
  read.getD [] ++ List.replicate (srv.bufSize - (read.getD []).length) 0

/-- An `int` read as `uint32_t`. -/
def toUint32 (n : Int) : Nat := (n % 2 ^ 32).toNat

/-- `ClientContext::StorePartialMsg`. -/
def storePartialMsg (recvBuffer : SlideBuffer) (pMsg_ : Bytes) (ioSize_ : Nat) :
    SlideBuffer × Bool :=
  recvBuffer.enqueue (some pMsg_) ioSize_

/-- The call in `DoRecv`; `none` where the peer is gone and `DoRecv` has returned before it. -/
def doRecv (srv : Server) (recvBuffer : SlideBuffer) (read : Option Bytes) :
    Option (SlideBuffer × Bool) :=
  if ioSize read = 0 then none
  else some (storePartialMsg recvBuffer (recvbuf srv read) (toUint32 (ioSize read)))

/-- The receive buffer behind the call. -/
def after (srv : Server) (recvBuffer : SlideBuffer) (read : Option Bytes) : SlideBuffer :=
  ((doRecv srv recvBuffer read).map Prod.fst).getD recvBuffer

/-- Something has arrived, and it fits behind what is stored. -/
def Fits (b : SlideBuffer) (read : Option Bytes) : Prop :=
  ∃ msg, read = some msg ∧ 0 < msg.length ∧ b.size + msg.length ≤ b.capacity

/-- What fits is stored; otherwise nothing is copied, and size and content stay. The size is in
its bounds and does not shrink. -/
structure Lawful (srv : Server) (b : SlideBuffer) (read : Option Bytes) : Prop where
  stored : Fits b read → (after srv b read).bytes = b.bytes ++ read.getD []
  alone : ¬ Fits b read → after srv b read = b ∧ ∀ r ∈ doRecv srv b read, r.2 = false
  size_le : (after srv b read).size ≤ (after srv b read).capacity
  grows : b.size ≤ (after srv b read).size

/-- A receive buffer as the server allocates it, or an empty one where that failed, and an answer
that fits into the array. -/
structure Received (srv : Server) (b : SlideBuffer) (read : Option Bytes) : Prop where
  wf : b.Wf
  capacity : b.capacity ≤ srv.capacity
  read : ∀ msg, read = some msg → msg.length ≤ srv.bufSize - 1

variable {srv : Server} {b : SlideBuffer} {read : Option Bytes} {msg : Bytes}

theorem capacity_eq (srv : Server) : srv.capacity = 1024 := by
  cases srv with
  | Epoll => rfl
  | SelectAPI => rfl

theorem bufSize_eq (srv : Server) : srv.bufSize = 1024 := by
  cases srv with
  | Epoll => rfl
  | SelectAPI => rfl

/-! ## An answer that is not negative -/

theorem doRecv_some (hpos : 0 < msg.length) (hlen : msg.length < 2 ^ 32) :
    doRecv srv b (some msg) = some (b.enqueue (some (recvbuf srv (some msg))) msg.length) := by
  have hne : ¬ ioSize (some msg) = 0 := by
    show ¬ (msg.length : Int) = 0
    omega
  have hsize : toUint32 (ioSize (some msg)) = msg.length := by
    show (((msg.length : Int) % 2 ^ 32)).toNat = msg.length
    omega
  rw [doRecv, if_neg hne, hsize, storePartialMsg]

/-- Only what has arrived is looked at. -/
theorem enqueue_recvbuf (srv : Server) (b : SlideBuffer) (msg : Bytes) :
    b.enqueue (some (recvbuf srv (some msg))) msg.length = b.enqueue (some msg) msg.length := by
  have htake : (recvbuf srv (some msg)).take msg.length = msg.take msg.length := by
    rw [List.take_length]
    exact List.take_left
  simp only [SlideBuffer.enqueue, htake]

theorem stores_fitting (h : Received srv b (some msg)) (hpos : 0 < msg.length)
    (hfit : b.size + msg.length ≤ b.capacity) :
    (after srv b (some msg)).bytes = b.bytes ++ msg ∧ (after srv b (some msg)).Wf := by
  have hcap := h.capacity
  rw [capacity_eq] at hcap
  obtain ⟨-, hbytes, hwf⟩ := SlideBuffer.enqueue_fits h.wf msg (by omega) hfit
  rw [after, doRecv_some hpos (by omega), enqueue_recvbuf]
  exact ⟨hbytes, hwf⟩

theorem keeps_full (h : Received srv b (some msg)) (hpos : 0 < msg.length)
    (hfull : b.capacity < b.size + msg.length) : doRecv srv b (some msg) = some (b, false) := by
  have hcap := h.capacity
  have hread := h.read msg rfl
  have hsize := h.wf.size_le
  rw [capacity_eq] at hcap
  rw [bufSize_eq] at hread
  rw [doRecv_some hpos (by omega), enqueue_recvbuf, SlideBuffer.enqueue_full msg (by omega) hfull]

/-! ## The error value -/

theorem doRecv_none : doRecv srv b none =
    some (b.enqueue (some (recvbuf srv none)) 4294967295) := rfl

/-- Over an empty buffer the sum does not wrap. -/
theorem error_refused (h : Received srv b none) (hzero : b.size = 0) :
    doRecv srv b none = some (b, false) := by
  have hcap := h.capacity
  rw [capacity_eq] at hcap
  have hrefused : (4294967295 + b.size) % 2 ^ 32 > b.capacity := by
    rw [hzero]
    omega
  simp only [doRecv_none, SlideBuffer.enqueue, if_pos hrefused]

/-- Over any other it does, and the test is passed. -/
theorem error_wraps (h : Received srv b none) (hpos : 0 < b.size) :
    (after srv b none).size = b.size - 1 := by
  have hcap := h.capacity
  have hsize := h.wf.size_le
  rw [capacity_eq] at hcap
  have hpassed : ¬ (4294967295 + b.size) % 2 ^ 32 > b.capacity := by omega
  have hafter : after srv b none = (b.enqueue (some (recvbuf srv none)) 4294967295).1 := rfl
  rw [hafter, SlideBuffer.enqueue]
  simp only [if_neg hpassed]
  omega

/-! ## Every answer -/

theorem lawful_of_kept (hno : ¬ Fits b read) (h : b.Wf) (hafter : after srv b read = b)
    (hfalse : ∀ r ∈ doRecv srv b read, r.2 = false) : Lawful srv b read where
  stored hfits := absurd hfits hno
  alone _ := ⟨hafter, hfalse⟩
  size_le := by
    rw [hafter]
    exact h.size_le
  grows := Nat.le_of_eq (congrArg SlideBuffer.size hafter.symm)

/-- The error value does not, over stored bytes. -/
theorem not_lawful_of_error (h : Received srv b none) (hne : b.size ≠ 0) :
    ¬ Lawful srv b none := by
  intro hlaw
  have hgrows := hlaw.grows
  rw [error_wraps h (by omega)] at hgrows
  omega

/-- The answer does to the buffer what it says exactly if it is not the error value, or nothing is
stored. -/
theorem lawful_iff (h : Received srv b read) :
    Lawful srv b read ↔ (read = none → b.size = 0) := by
  constructor
  · rintro hlaw rfl
    by_contra hne
    exact not_lawful_of_error h hne hlaw
  · intro hok
    cases read with
    | none =>
      have hrefused := error_refused h (hok rfl)
      refine lawful_of_kept nofun h.wf ?_ ?_
      · rw [after, hrefused]
        rfl
      · rw [hrefused]
        rintro r ⟨rfl⟩
        rfl
    | some msg =>
      by_cases hpos : 0 < msg.length
      · by_cases hfit : b.size + msg.length ≤ b.capacity
        · obtain ⟨hbytes, hwf⟩ := stores_fitting h hpos hfit
          refine ⟨fun _ => hbytes, fun hno => absurd ⟨msg, rfl, hpos, hfit⟩ hno, hwf.size_le, ?_⟩
          have hlen := congrArg List.length hbytes
          rw [List.length_append, hwf.bytes_length, h.wf.bytes_length] at hlen
          omega
        · have hkept := keeps_full h hpos (Nat.lt_of_not_le hfit)
          refine lawful_of_kept ?_ h.wf ?_ ?_
          · rintro ⟨m, hm, -, hle⟩
            obtain rfl := Option.some.inj hm
            exact hfit hle
          · rw [after, hkept]
            rfl
          · rw [hkept]
            rintro r ⟨rfl⟩
            rfl
      · -- the peer is gone
        have hzero : ioSize (some msg) = 0 := by
          show (msg.length : Int) = 0
          omega
        have hnone : doRecv srv b (some msg) = none := by rw [doRecv, if_pos hzero]
        refine lawful_of_kept ?_ h.wf ?_ ?_
        · rintro ⟨m, hm, hm', -⟩
          obtain rfl := Option.some.inj hm
          exact hpos hm'
        · rw [after, hnone]
          rfl
        · rw [hnone]
          exact nofun

/-- A buffer that holds the first five bytes of a frame. -/
def five : SlideBuffer :=
  ((SlideBuffer.init 1024).enqueue (some [12, 0, 0, 0, 0]) 5).1

theorem received_five (srv : Server) (hread : ∀ msg, read = some msg → msg.length ≤ 1023) :
    Received srv five read where
  wf := (SlideBuffer.enqueue_init (by decide) (by decide)).1
  capacity := by
    rw [capacity_eq]
    exact Nat.le_refl 1024
  read := by
    rw [bufSize_eq]
    exact hread

theorem lawful_iff_five : Lawful .Epoll five (some [0, 0, 0]) := by
  refine (lawful_iff (received_five .Epoll ?_)).mpr nofun
  rintro msg ⟨rfl⟩
  decide

/-- A read that fails over five stored bytes, in both servers. -/
theorem failed_read_shrinks : ¬ ∃ srv : Server, ∀ (b : SlideBuffer) (read : Option Bytes),
    Received srv b read → Lawful srv b read := by
  rintro ⟨srv, h⟩
  have hreceived : Received srv five none := received_five srv nofun
  exact not_lawful_of_error hreceived (by decide) (h five none hreceived)

end StorePartialMsg
