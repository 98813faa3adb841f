import SocketServerLib.Lib.ChunkedFraming
import SocketServerLib.Lib.Draining
import SocketServerLib.RacingGameServer.SlideBuffer
import SocketServerLib.LinuxServer.Job

/-
  `ClientThread` of the blocking Linux server: what a `read()` brings is stored behind what
  the buffer has, and an inner loop gives the messages to `OnReceive` and pops them.

  `SlideBuffer` is the class of the IOCP server but for its logging. `Peek` answers 0 both for
  the length 0 and where fewer than 5 bytes are stored, and the condition of the loop does
  not tell this from a message; the loop has fuel, and is `none` where it does not end.

  What is proved:
    1. `cuts` — the inner loop takes the frames off the buffer, unless it comes to a part of
       a length field or to the length 0.
    2. `innerLoop_extracts_iff` — the inner loop ends, with complete frames as its views, if
       and only if what follows the complete frames is nothing, or has 5 bytes and another length.
    3. `clientThread_wf` — every buffer that `ClientThread` comes to is one of these.

  What is assumed: `m_IsRun` is true all the time, and `memcpy` within one buffer copies its
  source as it was before the call.
-/
namespace LinuxServer
open RacingGameServer (Bytes SlideBuffer readU32 readU32_front)
open PrefixFraming Draining

def maxBufSize : Nat := 131072

/-- One turn of the inner loop: the view for `OnReceive`, and the buffer after `Pop`. -/
def turn (slideBuf : SlideBuffer) : Option (Bytes × SlideBuffer) :=
  if slideBuf.peek ≤ slideBuf.size ∧ 0 < slideBuf.size then
    some (slideBuf.data.take slideBuf.peek, (slideBuf.pop slideBuf.peek).1)
  else none

/-- `given` are the views that `OnReceive` has got. -/
def innerLoop (fuel : Nat) (slideBuf : SlideBuffer) (given : List Bytes) :
    Option (SlideBuffer × List Bytes) :=
  loop turn fuel slideBuf given

/-- `ClientThread` with the answers of `read()`: `none` is an error, and no bytes are the end of
the stream. -/
def clientThread : (reads : List (Option Bytes)) → SlideBuffer → (given : List Bytes) →
    Option (SlideBuffer × List Bytes)
  | [], slideBuf, given => some (slideBuf, given)
  | none :: reads, slideBuf, given => clientThread reads slideBuf given
  | some buf :: reads, slideBuf, given =>
    if buf.length = 0 then some (slideBuf, given)
    else
      -- what `Enqueue` returns is not looked at
      let stored := (slideBuf.enqueue (some buf) buf.length).1
      (innerLoop (stored.size + 1) stored given).bind fun r => clientThread reads r.1 r.2

/-- The buffer as `Init(MAX_BUF_SIZE)` allocates it: its array and size agree. -/
structure RecvWf (slideBuf : SlideBuffer) : Prop where
  buffer : slideBuf.Wf
  capacity : slideBuf.capacity = maxBufSize

/-- A frame of at least 5 bytes begins with its own length. -/
def reqFraming : PrefixFraming UInt8 :=
  lengthField 5 (readU32 · 0) readU32_front

/-- `Peek` answers 0, and there is something in the buffer. -/
def Stuck (s : Bytes) : Prop := 0 < s.length ∧ (s.length < 5 ∨ readU32 s 0 = 0)

instance : DecidablePred Stuck := fun _ => inferInstanceAs (Decidable (_ ∧ (_ ∨ _)))

variable {b b' : SlideBuffer}

theorem reqFraming_next (s : Bytes) : reqFraming.next s =
    if 5 ≤ s.length ∧ 0 < readU32 s 0 ∧ readU32 s 0 ≤ s.length then some (readU32 s 0)
    else none := rfl

theorem next_of_stuck {s : Bytes} (h : Stuck s) : reqFraming.next s = none := by
  obtain ⟨-, hshort | hzero⟩ := h
  · rw [reqFraming_next, if_neg (by omega)]
  · rw [reqFraming_next, if_neg (by omega)]

/-! ## The inner loop -/

theorem RecvWf.pop (h : RecvWf b) {n : Nat} (hn : n ≤ b.size) :
    RecvWf (b.pop n).1 ∧ (b.pop n).1.bytes = b.bytes.drop n := by
  obtain ⟨-, hbytes, hwf⟩ := SlideBuffer.pop_spec h.buffer hn
  exact ⟨⟨hwf, (SlideBuffer.capacity_pop b n).trans h.capacity⟩, hbytes⟩

/-- A turn gives out what `Peek` says, where the buffer has that much. -/
theorem RecvWf.turn (h : RecvWf b) (hle : b.peek ≤ b.bytes.length) (hpos : 0 < b.bytes.length) :
    LinuxServer.turn b = some (b.bytes.take b.peek, (b.pop b.peek).1) := by
  rw [h.buffer.bytes_length] at hle hpos
  rw [LinuxServer.turn, if_pos ⟨hle, hpos⟩, SlideBuffer.take_data b hle]

theorem cuts : Cuts reqFraming SlideBuffer.bytes Stuck RecvWf turn where
  next_stuck := next_of_stuck
  cut := by
    intro b n h hn
    have hle := reqFraming.le hn
    have hpos := reqFraming.pos hn
    have hpeek : b.peek = n := by
      rw [reqFraming, h.buffer.next_peek] at hn
      split at hn
      · exact Option.some.inj hn
      · cases hn
    refine ⟨(b.pop n).1, ?_, h.pop (h.buffer.bytes_length ▸ hle)⟩
    rw [h.turn (hpeek ▸ hle) (by omega), hpeek]
  stop := by
    intro b h hn hstuck
    apply if_neg
    intro hc
    obtain ⟨hle, hpos⟩ := hc
    rw [← h.buffer.bytes_length] at hle hpos
    -- there are 5 bytes, the length is not 0, and the frame is there
    have hfive : ¬ b.bytes.length < 5 := fun hshort => hstuck ⟨hpos, .inl hshort⟩
    have hzero : readU32 b.bytes 0 ≠ 0 := fun hzero => hstuck ⟨hpos, .inr hzero⟩
    rw [h.buffer.peek, if_neg hfive] at hle
    rw [reqFraming_next, if_pos (by omega)] at hn
    cases hn
  stick := by
    intro b h hstuck
    obtain ⟨hpos, hor⟩ := hstuck
    have hpeek : b.peek = 0 := by
      rw [h.buffer.peek]
      split
      · rfl
      · next hfive => exact hor.resolve_left hfive
    refine ⟨(b.pop 0).1, ?_, h.pop (Nat.zero_le _)⟩
    rw [h.turn (hpeek ▸ Nat.zero_le _) hpos, hpeek, List.take_zero]

/-- The inner loop ends, and its views are complete: 5 bytes are stored, and they begin with the
size of the view. -/
structure Extracts (slideBuf : SlideBuffer) : Prop where
  ends : ∃ fuel r, innerLoop fuel slideBuf [] = some r
  complete : ∀ t, TurnsTo turn slideBuf t → ∀ sv t', turn t = some (sv, t') →
    5 ≤ t.bytes.length ∧ readU32 t.bytes 0 = sv.length ∧ sv <+: t.bytes

theorem innerLoop_extracts_iff (h : RecvWf b) : Extracts b ↔ ¬ Stuck (reqFraming.rest b.bytes) := by
  constructor
  · intro hextracts
    exact (cuts.returns_iff h).mp hextracts.ends
  · intro hrest
    refine ⟨(cuts.returns_iff h).mpr hrest, fun t ht sv t' hturn => ?_⟩
    obtain ⟨hn, hprefix⟩ := (cuts.views_iff h).mpr hrest t ht sv t' hturn
    rw [reqFraming_next] at hn
    split at hn
    · next hc => exact ⟨hc.1, Option.some.inj hn, hprefix⟩
    · cases hn

/-! ## Every buffer of the thread -/

theorem recvWf_init : RecvWf (.init maxBufSize) := ⟨SlideBuffer.wf_init _, rfl⟩

/-- `read()` brings at most 1024 bytes; what fits is stored, and nothing else. -/
theorem RecvWf.store (h : RecvWf b) {buf : Bytes} (hbuf : buf.length ≤ 1024) :
    RecvWf (b.enqueue (some buf) buf.length).1 := by
  have hcap : b.capacity = 131072 := h.capacity
  have hsize := h.buffer.size_le
  refine ⟨?_, (SlideBuffer.capacity_enqueue ..).trans h.capacity⟩
  by_cases hfit : b.size + buf.length ≤ b.capacity
  · exact (SlideBuffer.enqueue_fits h.buffer buf (by omega) hfit).2.2
  · rw [SlideBuffer.enqueue_full buf (by omega) (Nat.lt_of_not_le hfit)]
    exact h.buffer

theorem turn_wf (h : RecvWf b) {sv : Bytes} (hturn : turn b = some (sv, b')) : RecvWf b' :=
  (cuts.rest_turn h hturn).1

theorem clientThread_wf {reads : List (Option Bytes)} {given given' : List Bytes} (h : RecvWf b)
    (hreads : ∀ buf, some buf ∈ reads → buf.length ≤ 1024)
    (hr : clientThread reads b given = some (b', given')) : RecvWf b' := by
  induction reads generalizing b given with
  | nil =>
    cases hr
    exact h
  | cons read reads ih =>
    have hreads' : ∀ buf, some buf ∈ reads → buf.length ≤ 1024 :=
      fun buf hbuf => hreads buf (List.mem_cons_of_mem _ hbuf)
    cases read with
    | none => exact ih h hreads' hr
    | some buf =>
      rw [clientThread] at hr
      split at hr
      · cases hr
        exact h
      · obtain ⟨⟨t, views⟩, hloop, hr⟩ := Option.bind_eq_some_iff.mp hr
        have hstored := h.store (hreads buf List.mem_cons_self)
        have hwf : RecvWf t := loop_invariant (J := fun b _ => RecvWf b)
          (fun _ _ _ _ h hturn => turn_wf h hturn) hstored hloop
        exact ih hwf hreads' hr

/-- The buffer of a thread that has read these bytes. -/
def holding (bytes : Bytes) : SlideBuffer :=
  ((SlideBuffer.init maxBufSize).enqueue (some bytes) bytes.length).1

theorem recvWf_holding (bytes : Bytes) (h : bytes.length ≤ maxBufSize) :
    RecvWf (holding bytes) ∧ (holding bytes).bytes = bytes := by
  obtain ⟨hwf, hbytes⟩ := SlideBuffer.enqueue_init (by decide) h
  exact ⟨⟨hwf, SlideBuffer.capacity_enqueue ..⟩, hbytes⟩

/-- A frame, and seven bytes of the next. -/
theorem innerLoop_extracts_iff_cut :
    Extracts (holding ([6, 0, 0, 0, 65, 66] ++ [12, 0, 0, 0, 0, 0, 0])) := by
  obtain ⟨hwf, hbytes⟩ :=
    recvWf_holding ([6, 0, 0, 0, 65, 66] ++ [12, 0, 0, 0, 0, 0, 0]) (by decide)
  refine (innerLoop_extracts_iff hwf).mpr ?_
  rw [hbytes, rest_of_some (n := 6) (by decide), rest_of_none (by decide)]
  decide

/-- A frame, and two bytes of the next: the loop gives out an empty view for ever. -/
theorem short_remainder_forever : ¬ ∀ b : SlideBuffer, RecvWf b → Extracts b := by
  intro h
  obtain ⟨hwf, hbytes⟩ :=
    recvWf_holding ([6, 0, 0, 0, 65, 66] ++ [12, 0]) (by decide)
  have hrest := (cuts.returns_iff hwf).mp (h _ hwf).ends
  rw [hbytes, rest_of_some (n := 6) (by decide), rest_of_none (by decide)] at hrest
  exact hrest (by decide)

end LinuxServer
