import SocketServerLib.RacingGameServer.Solo
import SocketServerLib.Lib.ChunkedFraming

/-
  The receive path of one client when nothing interleaves: each completed `WSARecv`
  is stored and `HandleReq(i)` then runs to its return.

  What is proved:
    1. `receive_path_iff` — the messages given to `CreateJob` are the frames of the
       stream, as they become complete, and no byte is dropped, if and only if no
       chunk arrives while the buffer has no room for it: the receive is posted for
       `MAX_SOCKBUF` bytes whatever is left in the buffer, and `DoTCPRecv` does not
       look at what `StorePartialMessage` returns.
    2. `bad_request_iff` — when the call returns `REQ_FAILED` there is no complete frame at
       the front of the buffer if and only if `CreateJob` took every frame of it:
       `ParseReq` pops a frame only when it became a job.

  What is assumed: no other call for the slot runs meanwhile, and it stays connected.
-/
namespace RacingGameServer

open Connection (reqFraming)

namespace Slot

variable {i : Nat} {ans : Nat → Answers} {s s' : Slot}

/-! ## A call that returns `REQ_FAILED` -/

/-- From the top of the loop: no complete frame is left exactly if every frame was taken. -/
theorem loop_failed_iff (hwf : s.conn.RecvWf) {fuel k : Nat}
    (hr : loop i ans fuel k .PARSING s = some (s', .REQ_FAILED)) :
    reqFraming.next s'.conn.recvBuffer.bytes = none ↔
      ∀ m f, (reqFraming.frames s.conn.recvBuffer.bytes)[m]? = some f →
        (createJob (ans (k + m)) i s.session f).isSome := by
  induction fuel generalizing s k with
  | zero => cases hr
  | succ fuel ih =>
    simp only [loop, turn, caseParsing] at hr
    rcases parseReq_cases i (ans k) hwf with ⟨hn, he⟩ | ⟨len, hn, ⟨hj, he⟩ | ⟨j, hj, he⟩⟩ <;>
      simp only [he] at hr
    · cases hr
      rw [PrefixFraming.frames_of_none hn]
      exact ⟨fun _ m f hf => (by cases hf), fun _ => hn⟩
    · cases hr
      -- the refused frame stays, and it is the first one
      constructor
      · intro h
        cases hn.symm.trans h
      · intro h
        have := h 0 _ (by rw [PrefixFraming.frames_of_some hn]; rfl)
        rw [Nat.add_zero, hj] at this
        cases this
    · obtain ⟨hsame, hret⟩ := caseExecute_spec (ans k) (s.accepted len j)
      rcases hce : (s.accepted len j).caseExecute (ans k) with ⟨s₁, _ | c⟩ <;>
        rw [hce] at hr hsame hret
      · have hbytes : s₁.conn.recvBuffer.bytes = s.conn.recvBuffer.bytes.drop len :=
          hsame.bytes.trans (hwf.bytes_pop hn)
        have hsession : s₁.session = s.session := hsame.session
        -- frame `m + 1` of the buffer is frame `m` of what the next turn finds
        rw [ih (hsame.recvWf (hwf.pop len)) hr, hbytes, hsession, PrefixFraming.frames_of_some hn]
        constructor
        · intro h m f hf
          cases m with
          | zero =>
            cases hf
            rw [Nat.add_zero, hj]
            rfl
          | succ m =>
            rw [show k + (m + 1) = k + 1 + m by omega]
            exact h m f hf
        · intro h m f hf
          rw [show k + 1 + m = k + (m + 1) by omega]
          exact h (m + 1) f hf
      · cases hret.resolve_left (by simp)
        cases hr

/-- The turn in which the call looks at the buffer first: a call that resumes past `PARSING`
spends turn 0 on the job it has. -/
def firstLook (s : Slot) : Nat := if s.conn.jobProcess = .PARSING then 0 else 1

/-- A call that returns `REQ_FAILED` leaves no complete frame at the front of the buffer exactly
if `CreateJob` took every complete frame of it. -/
theorem bad_request_iff (hwf : s.conn.RecvWf)
    (hr : s.handleReq i ans = some (s', .REQ_FAILED)) :
    reqFraming.next s'.conn.recvBuffer.bytes = none ↔
      ∀ m f, (reqFraming.frames s.conn.recvBuffer.bytes)[m]? = some f →
        (createJob (ans (s.firstLook + m)) i s.session f).isSome := by
  rcases handleReq_cases hr with ⟨-, -, hc⟩ | ⟨-, s₁, rfl, hloop⟩
  · cases hc
  -- a first turn past `PARSING` leaves the buffer alone, and the loop goes on from `PARSING`
  have hlater : ∀ t : Slot, SameInput { s with flag := false } t → s.firstLook = 1 →
      loop i ans (s.conn.recvBuffer.size + 1) 1 .PARSING t = some (s₁, .REQ_FAILED) →
      (reqFraming.next s₁.conn.recvBuffer.bytes = none ↔
        ∀ m f, (reqFraming.frames s.conn.recvBuffer.bytes)[m]? = some f →
          (createJob (ans (s.firstLook + m)) i s.session f).isSome) := by
    intro t hsame hlook hr
    have hb : t.conn.recvBuffer.bytes = s.conn.recvBuffer.bytes := hsame.bytes
    have hsession : t.session = s.session := hsame.session
    rw [loop_failed_iff (hsame.recvWf hwf) hr, hb, hsession, hlook]
  cases hphase : s.conn.jobProcess with
  | PARSING =>
    rw [hphase] at hloop
    rw [loop_failed_iff (s := { s with flag := false }) hwf hloop, firstLook, if_pos hphase]
  | EXECUTE =>
    obtain ⟨hsame, hret⟩ := caseExecute_spec (ans 0) { s with flag := false }
    simp only [hphase, loop, turn] at hloop
    rcases hr : caseExecute (ans 0) { s with flag := false } with ⟨t, _ | c⟩ <;>
      rw [hr] at hloop hsame hret
    · exact hlater t hsame (by rw [firstLook, hphase]; rfl) hloop
    · cases hret.resolve_left (by simp)
      cases hloop
  | SEND =>
    obtain ⟨hsame, hret⟩ := caseSend_spec (ans 0) { s with flag := false }
    simp only [hphase, loop, turn] at hloop
    rcases hr : caseSend (ans 0) { s with flag := false } with ⟨t, _ | c⟩ <;>
      rw [hr] at hloop hsame hret
    · exact hlater t hsame (by rw [firstLook, hphase]; rfl) hloop
    · cases hret.resolve_left (by simp)
      cases hloop

/-- A frame of an unknown type, with a well-formed one behind it. -/
def unknownThenToken : Bytes := [12, 0, 0, 0, 9, 0, 0, 0, 1, 0, 0, 0] ++ tokenFrame

/-- The slot of client 0 after these bytes have arrived. -/
def received (chunk : Bytes) : Slot := (Slot.new.recv chunk).1

theorem bad_request_iff_token : ∃ s',
    (received tokenFrame).handleReq 0 (fun _ => .pooled true) = some (s', .REQ_FAILED) ∧
      reqFraming.next s'.conn.recvBuffer.bytes = none := by
  have hrun : ((received tokenFrame).handleReq 0 (fun _ => .pooled true)).map Prod.snd =
      some .REQ_FAILED := by decide +kernel
  obtain ⟨⟨s', c⟩, hs, rfl⟩ := Option.map_eq_some_iff.mp hrun
  have hwf : (received tokenFrame).conn.RecvWf := Connection.recvWf_new.store_wf (by decide)
  refine ⟨s', hs, (bad_request_iff hwf hs).mpr ?_⟩
  have hframes : reqFraming.frames (received tokenFrame).conn.recvBuffer.bytes = [tokenFrame] := by
    have hb : (received tokenFrame).conn.recvBuffer.bytes = tokenFrame := by decide +kernel
    rw [hb, PrefixFraming.frames_of_some (n := 12) (by decide), PrefixFraming.frames_of_none rfl]
    rfl
  rw [hframes]
  intro m f hf
  cases m with
  | zero =>
    cases hf
    decide +kernel
  | succ m => cases hf

/-- The call returns with the refused frame still at the front of the buffer. -/
theorem bad_request_stays : ∃ s',
    (received unknownThenToken).handleReq 0 (fun _ => .pooled true) = some (s', .REQ_FAILED) ∧
      s'.conn.getReqMessage = some 12 := by
  have hrun : ((received unknownThenToken).handleReq 0 (fun _ => .pooled true)).map
      (fun r => (r.2, r.1.conn.getReqMessage)) = some (.REQ_FAILED, some 12) := by decide +kernel
  obtain ⟨⟨s', c⟩, hs, hend⟩ := Option.map_eq_some_iff.mp hrun
  obtain ⟨rfl, hget⟩ := Prod.mk.inj hend
  exact ⟨s', hs, hget⟩

/-! ## Calls that take every frame -/

/-- The frame becomes a job that executes and sends at once. -/
def Serves (i o : Nat) (a : Answers) (f : Bytes) : Prop :=
  a.sent = true ∧ ∃ j ∈ createJob a i o f, (j.execute a).2.1 = true

instance (i o : Nat) (a : Answers) : DecidablePred (Serves i o a) := fun _ =>
  inferInstanceAs (Decidable (_ ∧ _))

/-- A turn on a frame that is served takes it off the buffer and goes on. -/
theorem turn_serves {a : Answers} (hwf : s.conn.RecvWf) {len : Nat}
    (hn : reqFraming.next s.conn.recvBuffer.bytes = some len)
    (hserves : Serves i s.session a (s.conn.recvBuffer.bytes.take len)) :
    ∃ s₁ j, s.turn i a .PARSING = (s₁, none) ∧ SameInput (s.accepted len j) s₁ := by
  obtain ⟨hsent, j, hj, hok⟩ := hserves
  have hj : createJob a i s.session (s.conn.recvBuffer.bytes.take len) = some j := hj
  rcases j.execute_cases a with ⟨p, freed, hexec, -⟩ | ⟨freed, hexec⟩
  rotate_left
  · rw [hexec] at hok
    cases hok
  rcases parseReq_cases i a hwf with ⟨hnone, -⟩ | ⟨len', hn', hcase⟩
  · cases hn.symm.trans hnone
  obtain rfl : len = len' := Option.some.inj (hn.symm.trans hn')
  rcases hcase with ⟨hrefused, -⟩ | ⟨j', hj', he⟩
  · cases hj.symm.trans hrefused
  obtain rfl : j = j' := Option.some.inj (hj.symm.trans hj')
  refine ⟨_, j, ?_, (caseExecute_spec a (s.accepted len j)).1⟩
  simp [turn, caseParsing, he, caseExecute, executeReq, accepted, hexec, caseSend, sendRes,
    Job.sendRes, hsent]

/-- The loop takes every complete frame and ends over the rest. -/
theorem loop_serves (hwf : s.conn.RecvWf) {fuel k : Nat}
    (hserves : ∀ k, ∀ f ∈ reqFraming.frames s.conn.recvBuffer.bytes,
      Serves i s.session (ans k) f)
    (hfuel : s.conn.recvBuffer.bytes.length < fuel) :
    ∃ s', loop i ans fuel k .PARSING s = some (s', .REQ_FAILED) ∧ s'.conn.RecvWf ∧
      s'.conn.jobProcess = .PARSING ∧
      s'.conn.recvBuffer.bytes = reqFraming.rest s.conn.recvBuffer.bytes ∧
      s'.hist.given = s.hist.given ++ reqFraming.frames s.conn.recvBuffer.bytes ∧
      s'.session = s.session := by
  induction fuel generalizing s k with
  | zero => omega
  | succ fuel ih =>
    cases hn : reqFraming.next s.conn.recvBuffer.bytes with
    | none =>
      have he : s.parseReq i (ans k) = (s, false) := by
        rw [← Connection.getReqMessage_eq hwf] at hn
        simp only [parseReq, hn]
      refine ⟨s.setJobProcess .PARSING, ?_, ⟨hwf.buffer, hwf.capacity_eq⟩, rfl, ?_, ?_, rfl⟩
      · simp only [loop, turn, caseParsing, he]
      · rw [PrefixFraming.rest_of_none hn]
        rfl
      · rw [PrefixFraming.frames_of_none hn, List.append_nil]
        rfl
    | some len =>
      rw [PrefixFraming.frames_of_some hn] at hserves ⊢
      obtain ⟨s₁, j, hturn, hsame⟩ := turn_serves hwf hn (hserves k _ List.mem_cons_self)
      have hbytes : s₁.conn.recvBuffer.bytes = s.conn.recvBuffer.bytes.drop len :=
        hsame.bytes.trans (hwf.bytes_pop hn)
      have hpos := reqFraming.pos hn
      have hle := reqFraming.le hn
      have hsession : s₁.session = s.session := hsame.session
      obtain ⟨s', hloop, hwf', hphase, hrest, hgiven, hsession'⟩ := ih (k := k + 1)
        (hsame.recvWf (hwf.pop len))
        (fun k f hf => hsession ▸ hserves k f (List.mem_cons_of_mem _ (hbytes ▸ hf)))
        (by rw [hbytes, List.length_drop]; omega)
      refine ⟨s', ?_, hwf', hphase, ?_, ?_, hsession'.trans hsession⟩
      · simp only [loop, hturn]
        exact hloop
      · rw [hrest, hbytes, PrefixFraming.rest_of_some hn]
      · rw [hgiven, hsame.given, hbytes]
        simp [accepted]

/-! ## Receiving a stream in chunks -/

/-- A completed receive: the chunk is stored, and `HandleReq(i)` runs to its return. -/
def receive (i : Nat) (ans : Nat → Answers) (s : Slot) (chunk : Bytes) : Option Slot :=
  ((s.recv chunk).1.handleReq i ans).map Prod.fst

/-- One after the other; `ans n` is what the outside world answers during call `n`. -/
def receiveAll (i : Nat) (ans : Nat → Nat → Answers) :
    (n : Nat) → Slot → List Bytes → Option Slot
  | _, s, [] => some s
  | n, s, c :: cs => (receive i (ans n) s c).bind fun s' => receiveAll i ans (n + 1) s' cs

/-- Between two receives, with nothing lost: what has been given to `CreateJob` are the complete
frames of `stream`, and the buffer holds the rest. -/
structure InStep (s : Slot) (stream : Bytes) : Prop where
  flag : s.flag = true
  wf : s.conn.RecvWf
  phase : s.conn.jobProcess = .PARSING
  session : s.session = 0
  given : s.hist.given = reqFraming.frames stream
  bytes : s.conn.recvBuffer.bytes = reqFraming.rest stream

theorem inStep_accept : InStep Slot.new.accept [] where
  flag := rfl
  wf := ⟨Connection.recvWf_new.buffer, rfl⟩
  phase := rfl
  session := rfl
  given := by rw [PrefixFraming.frames_of_none rfl]; rfl
  bytes := by rw [PrefixFraming.rest_of_none rfl]; rfl

/-- A chunk that fits is framed together with what was left. -/
theorem receive_fits (ans : Nat → Answers) {stream : Bytes} (chunk : Bytes) (h : InStep s stream)
    (hfit : (reqFraming.rest stream).length + chunk.length ≤ maxRecvSlideBufferSize)
    (hserves : ∀ k, ∀ f ∈ reqFraming.frames (reqFraming.rest stream ++ chunk),
      Serves i 0 (ans k) f) :
    ∃ s', receive i ans s chunk = some s' ∧ InStep s' (stream ++ chunk) := by
  have hsize : s.conn.recvBuffer.size + chunk.length ≤ s.conn.recvBuffer.capacity := by
    rw [← h.wf.buffer.bytes_length, h.bytes, h.wf.capacity_eq]
    exact hfit
  obtain ⟨hwf, -, hb⟩ := h.wf.store hsize
  have hwf : (s.recv chunk).1.conn.RecvWf := hwf
  have hb : (s.recv chunk).1.conn.recvBuffer.bytes = reqFraming.rest stream ++ chunk :=
    hb.trans (by rw [h.bytes])
  have hfuel : (s.recv chunk).1.conn.recvBuffer.bytes.length <
      (s.recv chunk).1.conn.recvBuffer.size + 2 := by
    rw [hwf.buffer.bytes_length]
    omega
  have hframes : ∀ k, ∀ f ∈ reqFraming.frames (s.recv chunk).1.conn.recvBuffer.bytes,
      Serves i s.session (ans k) f := by
    intro k f hf
    rw [h.session]
    exact hserves k f (hb ▸ hf)
  obtain ⟨s₁, hloop, hwf₁, hphase, hrest, hgiven, hsession⟩ := loop_serves (k := 0)
    (s := { (s.recv chunk).1 with flag := false }) hwf hframes hfuel
  refine ⟨{ s₁ with flag := true }, ?_, rfl, hwf₁, hphase, hsession.trans h.session, ?_, ?_⟩
  · have hflag : ¬ (s.recv chunk).1.flag = false := by
      rw [show (s.recv chunk).1.flag = s.flag from rfl, h.flag]
      exact Bool.noConfusion
    have hstart : (s.recv chunk).1.conn.jobProcess = .PARSING := h.phase
    rw [receive, handleReq, if_neg hflag, hstart, hloop]
    rfl
  · rw [PrefixFraming.frames_append, ← hb, ← h.given]
    exact hgiven
  · rw [PrefixFraming.rest_append, ← hb]
    exact hrest

/-- A chunk that does not fit is dropped, and the call finds nothing to do. -/
theorem receive_full (ans : Nat → Answers) {stream chunk : Bytes} (h : InStep s stream)
    (hlen : chunk.length ≤ maxSockbuf)
    (hfull : maxRecvSlideBufferSize < (reqFraming.rest stream).length + chunk.length) :
    ∃ s', receive i ans s chunk = some s' ∧ s'.hist.given = s.hist.given ∧
      s'.conn.recvBuffer.bytes = s.conn.recvBuffer.bytes := by
  have hstore : s.conn.storePartialMessage chunk = (s.conn, false) := by
    rcases h.wf.store_cases hlen with ⟨hfit, -⟩ | ⟨-, he⟩
    · rw [← h.wf.buffer.bytes_length, h.bytes] at hfit
      omega
    · exact he
  have hnext : reqFraming.next s.conn.recvBuffer.bytes = none := by
    rw [h.bytes]
    exact PrefixFraming.next_rest stream
  rw [← Connection.getReqMessage_eq h.wf] at hnext
  have hreceive : receive i ans s chunk =
      some { (s.recv chunk).1.setJobProcess .PARSING with flag := true } := by
    simp [receive, handleReq, recv, hstore, h.flag, h.phase, loop, turn, caseParsing, parseReq,
      hnext, setJobProcess]
  refine ⟨_, hreceive, rfl, ?_⟩
  show (s.conn.storePartialMessage chunk).1.recvBuffer.bytes = _
  rw [hstore]

theorem receiveAll_eq (ans : Nat → Nat → Answers) (n : Nat) (s : Slot) (cs : List Bytes) :
    receiveAll i ans n s cs =
      ChunkedFraming.receiveAll (fun n => receive i (ans n)) n s cs := by
  induction cs generalizing n s with
  | nil => rfl
  | cons c cs ih =>
    rw [receiveAll, ChunkedFraming.receiveAll]
    exact congrArg _ (funext fun s' => ih (n + 1) s')

/-! ## A stream of frames -/

/-- A frame with its length field right, at least a header and at most the receive buffer long. -/
structure IsFrame (f : Bytes) : Prop where
  reqLen : readU32 f 0 = f.length
  ge : headerSize ≤ f.length
  le : f.length ≤ maxRecvSlideBufferSize

theorem IsFrame.delimits {f : Bytes} (h : IsFrame f) : reqFraming.Delimits f := by
  have hge : 12 ≤ f.length := h.ge
  have hle : f.length ≤ packetSize := Nat.le_trans h.le (by decide)
  constructor
  · intro t
    have hread : readU32 (f ++ t) 0 = f.length := by rw [readU32_append (by omega), h.reqLen]
    have hlen : (f ++ t).length = f.length + t.length := List.length_append
    simp only [reqFraming, hread, hlen]
    rw [if_neg (by omega), if_neg (by omega), if_neg (by omega), if_neg (by omega)]
  · intro s hs hlt
    obtain ⟨t, rfl⟩ := hs
    by_cases h5 : s.length < 5
    · simp only [reqFraming, if_pos h5]
    · have hread : readU32 s 0 = (s ++ t).length := by
        rw [← readU32_append (b := s) (by omega) t, h.reqLen]
      simp only [reqFraming, hread, if_neg h5]
      rw [if_neg (by omega), if_neg (by omega), if_pos hlt]

/-- How many of the first `n` bytes of the stream lie behind the last complete frame. -/
def leftover (fs : List Bytes) (n : Nat) : Nat :=
  n - (PrefixFraming.completed fs n).flatten.length

variable {fs cs : List Bytes} {ansOf : Nat → Nat → Answers}

/-- At every point of the stream: the call has returned, `CreateJob` has been given the complete
frames so far, and every byte received was in one of them or is in the buffer. -/
def Exact (i : Nat) (ansOf : Nat → Nat → Answers) (fs cs : List Bytes) : Prop :=
  ∀ pre suf, pre ++ suf = cs → ∃ s, receiveAll i ansOf 0 Slot.new.accept pre = some s ∧
    s.hist.given = PrefixFraming.completed fs pre.flatten.length ∧
      s.hist.given.flatten ++ s.conn.recvBuffer.bytes = pre.flatten

/-- What matters of the slot to a stream. -/
def streamed (s : Slot) : ChunkedFraming.Received UInt8 :=
  { delivered := s.hist.given, content := s.conn.recvBuffer.bytes }

/-- Nothing has been lost so far. -/
def Open (s : Slot) : Prop := ∃ stream, InStep s stream

/-- A completed receive is one step of a receiver with room for `MAX_RECV_SLIDEBUFFER_SIZE` bytes,
as long as `CreateJob` takes the frames. -/
theorem receive_implements (hserves : ∀ n k, ∀ f ∈ fs, Serves i 0 (ansOf n k) f) :
    ChunkedFraming.Implements reqFraming maxRecvSlideBufferSize maxSockbuf fs
      (fun n => receive i (ansOf n)) streamed Open where
  fits := by
    intro n s chunk hopen _ _ hfit hframes _
    obtain ⟨stream, h⟩ := hopen
    have hcontent : s.streamed.content = reqFraming.rest stream := h.bytes
    rw [hcontent] at hfit hframes ⊢
    obtain ⟨s', hs', h'⟩ := receive_fits (i := i) (ansOf n) chunk h hfit fun k f hf =>
      hserves n k f (hframes hf)
    refine ⟨s', hs', ⟨_, h'⟩, ?_, ?_⟩
    · exact h'.given.trans (by rw [PrefixFraming.frames_append, ← h.given]; rfl)
    · rw [← PrefixFraming.rest_append]
      exact h'.bytes
  full := by
    intro n s chunk hopen _ hlimit _ hfull
    obtain ⟨stream, h⟩ := hopen
    have hcontent : s.streamed.content = reqFraming.rest stream := h.bytes
    obtain ⟨s', hs', hgiven, hbytes⟩ := receive_full (i := i) (ansOf n) h hlimit (hcontent ▸ hfull)
    refine ⟨s', hs', ?_⟩
    rw [streamed, hgiven, hbytes]
    rfl

theorem exact_iff : Exact i ansOf fs cs ↔
    ChunkedFraming.Exact (fun n => receive i (ansOf n)) streamed Slot.new.accept fs cs := by
  simp only [Exact, receiveAll_eq]
  rfl

/-- The receive path gives `CreateJob` the frames of the stream and drops nothing exactly if every
chunk fits behind the bytes left over when it arrives. -/
theorem receive_path_iff (hfs : ∀ f ∈ fs, IsFrame f)
    (hserves : ∀ n k, ∀ f ∈ fs, Serves i 0 (ansOf n k) f) (hcut : cs.flatten = fs.flatten)
    (hlen : ∀ c ∈ cs, 0 < c.length ∧ c.length ≤ maxSockbuf) :
    Exact i ansOf fs cs ↔ ∀ pre c suf, pre ++ c :: suf = cs →
      leftover fs pre.flatten.length + c.length ≤ maxRecvSlideBufferSize := by
  rw [exact_iff]
  exact (receive_implements hserves).exact_iff (fun f hf => (hfs f hf).delimits) rfl
    ⟨[], inStep_accept⟩ rfl hcut hlen

/-- A `REQ_TOKEN` frame as long as the receive buffer. -/
def longFrame : Bytes := [0, 16, 0, 0, 1, 0, 0, 0, 7, 0, 0, 0] ++ List.replicate 4084 0

/-- Two of them, cut after 100 bytes and then into receives of 4096. -/
def longCut : List Bytes :=
  [longFrame.take 100, longFrame.drop 100 ++ longFrame.take 100, longFrame.drop 100]

theorem receive_path_iff_tokens :
    Exact 0 (fun _ _ => .pooled true) [tokenFrame, tokenFrame]
      [tokenFrame.take 5, tokenFrame.drop 5 ++ tokenFrame] := by
  have hfs : ∀ f ∈ [tokenFrame, tokenFrame], IsFrame f := by
    intro f hf
    obtain rfl : f = tokenFrame := by simpa using hf
    exact ⟨by decide, by decide, by decide⟩
  have hserves : ∀ n k : Nat, ∀ f ∈ [tokenFrame, tokenFrame], Serves 0 0 (.pooled true) f := by
    intro n k
    decide +kernel
  exact (receive_path_iff hfs hserves (by decide) (by decide)).mpr
    (ChunkedFraming.fits_of_room (by decide))

/-- The second receive finds 100 bytes in the buffer and is dropped. -/
theorem receive_path_loses : (∀ f ∈ [longFrame, longFrame], IsFrame f) ∧
    (∀ f ∈ [longFrame, longFrame], Serves 0 0 (.pooled true) f) ∧
    longCut.flatten = [longFrame, longFrame].flatten ∧
    (∀ c ∈ longCut, 0 < c.length ∧ c.length ≤ maxSockbuf) ∧
    ¬ Exact 0 (fun _ _ => .pooled true) [longFrame, longFrame] longCut := by
  have hfs : ∀ f ∈ [longFrame, longFrame], IsFrame f := by
    intro f hf
    obtain rfl : f = longFrame := by simpa using hf
    exact ⟨by decide +kernel, by decide +kernel, by decide +kernel⟩
  have hserves : ∀ f ∈ [longFrame, longFrame], Serves 0 0 (.pooled true) f := by
    intro f hf
    obtain rfl : f = longFrame := by simpa using hf
    decide +kernel
  have hcut : longCut.flatten = [longFrame, longFrame].flatten := by
    simp only [longCut, List.flatten_cons, List.flatten_nil, List.append_nil, List.append_assoc,
      List.take_append_drop]
    rw [← List.append_assoc, List.take_append_drop]
  have hlen : ∀ c ∈ longCut, 0 < c.length ∧ c.length ≤ maxSockbuf := by decide +kernel
  refine ⟨hfs, hserves, hcut, hlen, fun hexact => ?_⟩
  have hfit := (receive_implements fun _ _ => hserves).fits_of_exact
    (fun f hf => (hfs f hf).delimits) rfl ⟨[], inStep_accept⟩ rfl hcut hlen (exact_iff.mp hexact)
    [longFrame.take 100] (longFrame.drop 100 ++ longFrame.take 100) _ rfl
  exact absurd hfit (by decide +kernel)

end Slot

end RacingGameServer
