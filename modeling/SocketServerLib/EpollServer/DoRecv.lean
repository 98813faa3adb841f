import SocketServerLib.Lib.ChunkedFraming
import SocketServerLib.Lib.Draining
import SocketServerLib.EpollServer.ClientContext

/-
  `DoRecv`: one `read()` into a buffer of the stack, its bytes stored behind what the
  context has, and a loop that gives the messages to `OnReceive` and pops them.

  `GetReqMsg` does not refuse the length 0, which gives out an empty view for ever; `doRecv`
  is `none` where the loop does not end.

  What is proved:
    1. `recvLoop_frames` — the loop gives out the frames of the buffer and keeps the rest.
    2. `extracts_iff` — the loop ends, every turn taking something off the buffer, if and
       only if the bytes behind the frames do not begin with the length 0.
    3. `doRecv_implements` — a call is one step of a receiver with room for
       `MAX_RECV_SLIDEBUFFER_SIZE` bytes.
    4. `doRecv_exact_iff` — the messages are the frames of the stream if and only if every
       read fits behind the part of a frame that is there. `read()` may bring
       `MAX_RECV_SLIDEBUFFER_SIZE - 1` bytes whatever is left in the buffer, and what
       does not fit is dropped.

  What is assumed: `read()` does not fail (`StorePartialMsg` has what comes of -1), and `memcpy`
  within one buffer copies its source as it was before the call.
-/
namespace EpollServer
open RacingGameServer PrefixFraming ChunkedFraming Draining

def maxRecvSlideBufferSize : Nat := 1024

/-- `ClientContext` with its receive buffer. -/
structure RecvContext extends ClientContext where
  recvBuffer : SlideBuffer

namespace RecvContext

def init (fd_ : Nat) : RecvContext :=
  { ClientContext.init fd_ with recvBuffer := .init maxRecvSlideBufferSize }

def storePartialMsg (c : RecvContext) (pMsg_ : Bytes) : RecvContext × Bool :=
  ({ c with recvBuffer := (c.recvBuffer.enqueue (some pMsg_) pMsg_.length).1 },
    (c.recvBuffer.enqueue (some pMsg_) pMsg_.length).2)

/-- The length of the view given out, if `GetReqMsg` returns true. -/
def getReqMsg (c : RecvContext) : Option Nat :=
  if c.recvBuffer.size < 5 then none
  else if c.recvBuffer.size < c.recvBuffer.peek then none
  else some c.recvBuffer.peek

def popMsg (c : RecvContext) (len : Nat) : RecvContext :=
  { c with recvBuffer := (c.recvBuffer.pop len).1 }

/-- One turn of the loop of `DoRecv`: what `OnReceive` reads in the view, and the context after
`PopMsg`. -/
def turn (c : RecvContext) : Option (Bytes × RecvContext) :=
  c.getReqMsg.map fun len => (c.recvBuffer.data.take len, c.popMsg len)

/-- The loop; `given` are the messages that `OnReceive` has got. -/
def recvLoop : (fuel : Nat) → RecvContext → (given : List Bytes) →
    Option (RecvContext × List Bytes)
  | 0, _, _ => none
  | fuel + 1, c, given =>
    match c.turn with
    | none => some (c, given)
    | some (msg, c') => recvLoop fuel c' (given ++ [msg])

/-- The receive buffer as `Init` allocates it: its array and size agree. -/
structure RecvWf (c : RecvContext) : Prop where
  buffer : c.recvBuffer.Wf
  capacity : c.recvBuffer.capacity = maxRecvSlideBufferSize

end RecvContext

/-- The framing rule of `GetReqMsg`, but for the length 0. -/
def reqFraming : PrefixFraming UInt8 :=
  lengthField 5 (readU32 · 0) readU32_front

/-- The length 0 does not stand at the front. -/
def NonZero (s : Bytes) : Prop := 5 ≤ s.length → 0 < readU32 s 0

instance : DecidablePred NonZero := fun s =>
  inferInstanceAs (Decidable (5 ≤ s.length → 0 < readU32 s 0))

/-- A frame with its length field right. -/
structure IsFrame (f : Bytes) : Prop where
  reqLen : readU32 f 0 = f.length
  ge : 12 ≤ f.length
  le : f.length ≤ maxRecvSlideBufferSize

variable {c : RecvContext} {fs cs : List Bytes}

theorem IsFrame.delimits {f : Bytes} (h : IsFrame f) : reqFraming.Delimits f := by
  have hge := h.ge
  exact lengthField_delimits h.reqLen (by omega) (by omega)

/-- A part of a frame begins with the length of the frame, if it is there at all. -/
theorem IsPartial.nonZero {r : Bytes} (hfs : ∀ f ∈ fs, IsFrame f) (h : IsPartial fs r) :
    NonZero r := by
  intro hlen
  rcases h with hnil | ⟨f, hf, hprefix, -⟩
  · rw [hnil] at hlen
    cases hlen
  · obtain ⟨t, rfl⟩ := hprefix
    have hread := (hfs _ hf).reqLen
    rw [readU32_append (by omega)] at hread
    have hge := (hfs _ hf).ge
    omega

theorem reqFraming_next (s : Bytes) : reqFraming.next s =
    if 5 ≤ s.length ∧ 0 < readU32 s 0 ∧ readU32 s 0 ≤ s.length then some (readU32 s 0)
    else none := rfl

namespace RecvContext

/-! ## The buffer -/

theorem recvWf_init (fd_ : Nat) : (init fd_).RecvWf := ⟨SlideBuffer.wf_init _, rfl⟩

theorem RecvWf.peek (h : c.RecvWf) (hsize : 5 ≤ c.recvBuffer.size) :
    c.recvBuffer.peek = readU32 c.recvBuffer.bytes 0 := by
  rw [← h.buffer.bytes_length] at hsize
  rw [h.buffer.peek, if_neg (by omega)]

/-- `GetReqMsg` is the framing rule where the length 0 does not stand at the front. -/
theorem RecvWf.getReqMsg (h : c.RecvWf) (hzero : NonZero c.recvBuffer.bytes) :
    c.getReqMsg = reqFraming.next c.recvBuffer.bytes := by
  have hlen := h.buffer.bytes_length
  rw [RecvContext.getReqMsg, reqFraming_next, hlen]
  by_cases h5 : c.recvBuffer.size < 5
  · rw [if_pos h5, if_neg (by omega)]
  · have hpos : 0 < readU32 c.recvBuffer.bytes 0 := hzero (by omega)
    rw [if_neg h5, h.peek (by omega)]
    by_cases hle : c.recvBuffer.size < readU32 c.recvBuffer.bytes 0
    · rw [if_pos hle, if_neg (by omega)]
    · rw [if_neg hle, if_pos (by omega)]

theorem nonZero_of_next {s : Bytes} {n : Nat} (h : reqFraming.next s = some n) : NonZero s := by
  intro hlen
  rw [reqFraming_next] at h
  split at h
  · next hn => exact hn.2.1
  · cases h

/-- A turn on a complete frame gives it out and keeps what follows. -/
theorem RecvWf.turn (h : c.RecvWf) {n : Nat} (hn : reqFraming.next c.recvBuffer.bytes = some n) :
    c.turn = some (c.recvBuffer.bytes.take n, c.popMsg n) ∧ (c.popMsg n).RecvWf ∧
      (c.popMsg n).recvBuffer.bytes = c.recvBuffer.bytes.drop n := by
  have hle := reqFraming.le hn
  rw [h.buffer.bytes_length] at hle
  obtain ⟨-, hbytes, hwf⟩ := SlideBuffer.pop_spec h.buffer hle
  refine ⟨?_, ⟨hwf, ?_⟩, hbytes⟩
  · rw [RecvContext.turn, h.getReqMsg (nonZero_of_next hn), hn, Option.map_some,
      SlideBuffer.take_data _ hle]
  · rw [popMsg, SlideBuffer.capacity_pop, h.capacity]

theorem RecvWf.turn_none (h : c.RecvWf) (hzero : NonZero c.recvBuffer.bytes)
    (hn : reqFraming.next c.recvBuffer.bytes = none) : c.turn = none := by
  rw [RecvContext.turn, h.getReqMsg hzero, hn, Option.map_none]

/-- Where the length 0 stands at the front, the view is empty and nothing is popped. -/
theorem RecvWf.turn_zero (h : c.RecvWf) (hzero : ¬ NonZero c.recvBuffer.bytes) :
    c.turn = some ([], c.popMsg 0) ∧ (c.popMsg 0).RecvWf ∧
      (c.popMsg 0).recvBuffer.bytes = c.recvBuffer.bytes := by
  rw [NonZero, Classical.not_imp, h.buffer.bytes_length, Nat.not_lt, Nat.le_zero] at hzero
  obtain ⟨hsize, hread⟩ := hzero
  obtain ⟨-, hbytes, hwf⟩ := SlideBuffer.pop_spec h.buffer (Nat.zero_le _)
  have hpeek : c.recvBuffer.peek = 0 := by rw [h.peek hsize, hread]
  refine ⟨?_, ⟨hwf, ?_⟩, hbytes⟩
  · rw [RecvContext.turn, RecvContext.getReqMsg, if_neg (by omega), hpeek,
      if_neg (Nat.not_lt_zero _)]
    rfl
  · rw [popMsg, SlideBuffer.capacity_pop, h.capacity]

theorem next_of_not_nonZero {s : Bytes} (h : ¬ NonZero s) : reqFraming.next s = none := by
  cases hn : reqFraming.next s with
  | none => rfl
  | some n => exact absurd (nonZero_of_next hn) h

/-- The loop takes the frames of `reqFraming` off the buffer, unless the length 0 is reached. -/
theorem cuts : Cuts reqFraming (fun c : RecvContext => c.recvBuffer.bytes) (fun s => ¬ NonZero s)
    RecvWf turn where
  next_stuck := next_of_not_nonZero
  cut h hn := ⟨_, h.turn hn⟩
  stop h hn hzero := h.turn_none (not_not.mp hzero) hn
  stick h hzero := ⟨_, h.turn_zero hzero⟩

theorem recvLoop_eq (fuel : Nat) (c : RecvContext) (given : List Bytes) :
    recvLoop fuel c given = loop turn fuel c given := by
  induction fuel generalizing c given with
  | zero => rfl
  | succ fuel ih =>
    rw [recvLoop, loop]
    cases c.turn with
    | none => rfl
    | some r => exact ih r.2 _

/-- The loop gives out the complete frames and ends over the rest. -/
theorem recvLoop_frames (h : c.RecvWf) {fuel : Nat} (hfuel : c.recvBuffer.bytes.length < fuel)
    (hzero : NonZero (reqFraming.rest c.recvBuffer.bytes)) (given : List Bytes) :
    ∃ c', recvLoop fuel c given =
        some (c', given ++ reqFraming.frames c.recvBuffer.bytes) ∧ c'.RecvWf ∧
      c'.recvBuffer.bytes = reqFraming.rest c.recvBuffer.bytes := by
  obtain ⟨c', hloop, hwf, hrest, -⟩ := cuts.loop_frames h (not_not.mpr hzero) hfuel given
  exact ⟨c', (recvLoop_eq fuel c given).trans hloop, hwf, hrest⟩

/-! ## Whether the loop ends -/

/-- The loop ends, and every turn takes at least one byte off the buffer. -/
structure Extracts (c : RecvContext) : Prop where
  ends : ∃ fuel r, recvLoop fuel c [] = some r
  shrinks : ∀ t, TurnsTo turn c t → ∀ msg t', t.turn = some (msg, t') →
    t'.recvBuffer.bytes.length < t.recvBuffer.bytes.length

/-- The loop ends exactly if what follows the complete frames does not begin with the length 0. -/
theorem extracts_iff (h : c.RecvWf) :
    c.Extracts ↔ NonZero (reqFraming.rest c.recvBuffer.bytes) := by
  constructor
  · intro hextracts
    exact not_not.mp ((cuts.shrinks_iff h).mp hextracts.shrinks)
  · intro hzero
    refine ⟨?_, (cuts.shrinks_iff h).mpr (not_not.mpr hzero)⟩
    obtain ⟨c', hloop, -⟩ := recvLoop_frames h (Nat.lt_succ_self _) hzero []
    exact ⟨_, _, hloop⟩

/-- A context that holds these bytes. -/
def holding (bytes : Bytes) : RecvContext := ((init 5).storePartialMsg bytes).1

theorem recvWf_holding (bytes : Bytes) (h : bytes.length ≤ maxRecvSlideBufferSize) :
    (holding bytes).RecvWf ∧ (holding bytes).recvBuffer.bytes = bytes := by
  obtain ⟨hwf, hbytes⟩ := SlideBuffer.enqueue_init (by decide) h
  exact ⟨⟨hwf, SlideBuffer.capacity_enqueue ..⟩, hbytes⟩

/-- Two frames, the second not complete. -/
theorem extracts_iff_cut : (holding ([6, 0, 0, 0, 65, 66] ++ [7, 0, 0, 0, 65])).Extracts := by
  obtain ⟨hwf, hbytes⟩ :=
    recvWf_holding ([6, 0, 0, 0, 65, 66] ++ [7, 0, 0, 0, 65]) (by decide)
  refine (extracts_iff hwf).mpr ?_
  rw [hbytes, rest_of_some (n := 6) (by decide), rest_of_none (by decide)]
  decide

/-- Five bytes that begin with the length 0 keep the loop from ending. -/
theorem empty_view_forever : ¬ ∀ c : RecvContext, c.RecvWf → c.Extracts := by
  intro h
  obtain ⟨hwf, hbytes⟩ := recvWf_holding [0, 0, 0, 0, 65] (by decide)
  obtain ⟨⟨fuel, r, hr⟩, -⟩ := h _ hwf
  have hstuck : ¬ NonZero (reqFraming.rest (holding [0, 0, 0, 0, 65]).recvBuffer.bytes) := by
    rw [hbytes, rest_of_none (by decide)]
    decide
  rw [recvLoop_eq, cuts.loop_stuck hwf hstuck] at hr
  cases hr

/-! ## Reads -/

/-- A read that fits is stored. -/
theorem RecvWf.store (h : c.RecvWf) {buf : Bytes}
    (hfit : c.recvBuffer.bytes.length + buf.length ≤ maxRecvSlideBufferSize) :
    (c.storePartialMsg buf).2 = true ∧ (c.storePartialMsg buf).1.RecvWf ∧
      (c.storePartialMsg buf).1.recvBuffer.bytes = c.recvBuffer.bytes ++ buf := by
  have hcap : c.recvBuffer.capacity < 2 ^ 32 := by
    rw [h.capacity]
    decide
  rw [h.buffer.bytes_length, ← h.capacity] at hfit
  obtain ⟨hok, hbytes, hwf⟩ := SlideBuffer.enqueue_fits h.buffer buf hcap hfit
  refine ⟨hok, ⟨hwf, ?_⟩, hbytes⟩
  rw [storePartialMsg, SlideBuffer.capacity_enqueue, h.capacity]

/-- A read that does not fit is not. -/
theorem RecvWf.store_full (h : c.RecvWf) {buf : Bytes} (hbuf : buf.length < 2 ^ 31)
    (hfull : maxRecvSlideBufferSize < c.recvBuffer.bytes.length + buf.length) :
    c.storePartialMsg buf = (c, false) := by
  rw [h.buffer.bytes_length, ← h.capacity] at hfull
  have hsize : c.recvBuffer.size + buf.length < 2 ^ 32 := by
    have hle := h.buffer.size_le
    rw [h.capacity, maxRecvSlideBufferSize] at hle
    omega
  rw [storePartialMsg, SlideBuffer.enqueue_full buf hsize hfull]

end RecvContext

/-! ## `DoRecv` -/

/-- One descriptor: its context, if there is one, and the messages `OnReceive` has got. -/
structure RecvState where
  context : Option RecvContext
  given : List Bytes

namespace RecvState

/-- After `accept`. -/
def init (fd_ : Nat) : RecvState := { context := some (.init fd_), given := [] }

/-- `buf` is what `read` has brought; a connection whose end has come is closed. -/
def doRecv (s : RecvState) (buf : Bytes) : Option RecvState :=
  if buf.length = 0 then some { s with context := none }
  else
    match s.context with
    | none => some s
    | some c =>
      if (c.storePartialMsg buf).2 = false then
        some { s with context := some (c.storePartialMsg buf).1 }
      else
        (RecvContext.recvLoop ((c.storePartialMsg buf).1.recvBuffer.size + 1)
            (c.storePartialMsg buf).1 s.given).map
          fun r => { context := some r.1, given := r.2 }

/-- What has been given out, and what the receive buffer holds. -/
def received (s : RecvState) : Received UInt8 :=
  { delivered := s.given
    content := (s.context.map fun c => c.recvBuffer.bytes).getD [] }

/-- The descriptor has its context. -/
def Open (s : RecvState) : Prop := ∃ c, s.context = some c ∧ c.RecvWf

theorem open_init (fd_ : Nat) : (init fd_).Open := ⟨_, rfl, RecvContext.recvWf_init fd_⟩

/-- A call is one step of a receiver with room for `MAX_RECV_SLIDEBUFFER_SIZE` bytes. -/
theorem doRecv_implements (hfs : ∀ f ∈ fs, IsFrame f) :
    Implements reqFraming maxRecvSlideBufferSize (maxRecvSlideBufferSize - 1) fs
      (fun _ => doRecv) received Open where
  fits := by
    intro _ s buf hopen hpos _ hfit _ hpartial
    obtain ⟨c, hc, hwf⟩ := hopen
    have hcontent : s.received.content = c.recvBuffer.bytes := by
      rw [received, hc]
      rfl
    rw [hcontent] at hfit hpartial ⊢
    have hempty : ¬ buf.length = 0 := by omega
    obtain ⟨hok, hwf', hbytes⟩ := hwf.store hfit
    rw [← hbytes] at hpartial ⊢
    have hfuel : (c.storePartialMsg buf).1.recvBuffer.bytes.length <
        (c.storePartialMsg buf).1.recvBuffer.size + 1 := by
      rw [hwf'.buffer.bytes_length]
      omega
    obtain ⟨c', hloop, hwf'', hrest⟩ := RecvContext.recvLoop_frames hwf' hfuel
      (IsPartial.nonZero hfs hpartial) s.given
    let s' : RecvState :=
      { context := some c'
        given := s.given ++ reqFraming.frames (c.storePartialMsg buf).1.recvBuffer.bytes }
    have hcall : s.doRecv buf = some s' := by
      simp only [doRecv, if_neg hempty, hc, hok, Bool.true_eq_false, if_false]
      rw [hloop, Option.map_some]
    exact ⟨s', hcall, ⟨c', rfl, hwf''⟩, rfl, hrest⟩
  full := by
    intro _ s buf hopen hpos hlimit _ hfull
    obtain ⟨c, hc, hwf⟩ := hopen
    have hcontent : s.received.content = c.recvBuffer.bytes := by
      rw [received, hc]
      rfl
    rw [hcontent] at hfull
    rw [maxRecvSlideBufferSize] at hlimit
    have hstore := hwf.store_full (by omega) hfull
    have hempty : ¬ buf.length = 0 := by omega
    refine ⟨s, ?_, rfl⟩
    simp only [doRecv, if_neg hempty, hc, hstore, if_true]
    rw [← hc]

/-- The messages of a stream of frames are given out as they become complete, and no byte is
dropped, exactly if every read fits behind the part of a frame that is there. -/
theorem doRecv_exact_iff {fd_ : Nat} (hfs : ∀ f ∈ fs, IsFrame f) (hcut : cs.flatten = fs.flatten)
    (hlen : ∀ c ∈ cs, 0 < c.length ∧ c.length ≤ maxRecvSlideBufferSize - 1) :
    Exact (fun _ => doRecv) received (init fd_) fs cs ↔ Fits maxRecvSlideBufferSize fs cs :=
  (doRecv_implements hfs).exact_iff (fun f hf => (hfs f hf).delimits) rfl (open_init fd_) rfl hcut
    hlen

/-- An echo request of 12 bytes. -/
def shortFrame : Bytes := [12, 0, 0, 0, 0, 0, 0, 0, 7, 0, 0, 0]

/-- A frame as long as the receive buffer. -/
def longFrame : Bytes := [0, 4, 0, 0, 0, 0, 0, 0, 7, 0, 0, 0] ++ List.replicate 1012 0

/-- A long frame and a short one, cut after 2 bytes and then into a full read. -/
def longCut : List Bytes :=
  [longFrame.take 2, longFrame.drop 2 ++ shortFrame.take 1, shortFrame.drop 1]

theorem isFrame_shortFrame : IsFrame shortFrame := ⟨by decide, by decide, by decide⟩

theorem isFrame_longFrame : IsFrame longFrame :=
  ⟨by decide +kernel, by decide +kernel, by decide +kernel⟩

theorem doRecv_exact_iff_short :
    Exact (fun _ => doRecv) received (init 5) [shortFrame, shortFrame]
      [shortFrame.take 3, shortFrame.drop 3 ++ shortFrame] := by
  have hfs : ∀ f ∈ [shortFrame, shortFrame], IsFrame f := by
    intro f hf
    obtain rfl : f = shortFrame := by simpa using hf
    exact isFrame_shortFrame
  exact (doRecv_exact_iff hfs (by decide) (by decide)).mpr (fits_of_room (by decide))

/-- The second read finds 2 bytes in the buffer and is dropped. -/
theorem doRecv_loses : ¬ ∀ (fd_ : Nat) (fs cs : List Bytes), (∀ f ∈ fs, IsFrame f) →
    cs.flatten = fs.flatten →
    (∀ c ∈ cs, 0 < c.length ∧ c.length ≤ maxRecvSlideBufferSize - 1) →
    Exact (fun _ => doRecv) received (init fd_) fs cs := by
  intro h
  have hfs : ∀ f ∈ [longFrame, shortFrame], IsFrame f := by
    intro f hf
    simp only [List.mem_cons, List.not_mem_nil, or_false] at hf
    rcases hf with rfl | rfl
    · exact isFrame_longFrame
    · exact isFrame_shortFrame
  have hcut : longCut.flatten = [longFrame, shortFrame].flatten := by decide +kernel
  have hlen : ∀ c ∈ longCut, 0 < c.length ∧ c.length ≤ maxRecvSlideBufferSize - 1 := by
    decide +kernel
  have hfit := (doRecv_implements hfs).fits_of_exact (fun f hf => (hfs f hf).delimits) rfl
    (open_init 5) rfl hcut hlen (h 5 _ _ hfs hcut hlen) [longFrame.take 2]
    (longFrame.drop 2 ++ shortFrame.take 1) [shortFrame.drop 1] rfl
  exact absurd hfit (by decide +kernel)

end RecvState

end EpollServer
