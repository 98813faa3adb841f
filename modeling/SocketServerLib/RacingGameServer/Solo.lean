import SocketServerLib.RacingGameServer.HandleReq

/-
  `handleReq`, the call of `HandleReq(i)` that nothing interrupts.

  Each phase has a lemma that says what it does; `handleReq_returns` says that the
  call comes to its return, and `handleReq_solo` that the machine `Slot.step`, run
  alone, comes to the same return in the same state.
-/
namespace RacingGameServer

open Connection (reqFraming)

namespace Slot

variable {i : Nat} {a : Answers} {ans : Nat → Answers} {s s' : Slot} {c : InfoCode}

/-! ## The phases -/

/-- A slot whose message of `len` bytes became the job `j`. -/
def accepted (s : Slot) (len : Nat) (j : Job) : Slot :=
  { s with
    job := some j
    conn := s.conn.popRecvBuffer len
    hist := { s.hist with given := s.hist.given ++ [s.conn.recvBuffer.bytes.take len] } }

/-- A slot whose message of `len` bytes `CreateJob` refused. -/
def refused (s : Slot) (len : Nat) : Slot :=
  { s with hist := { s.hist with given := s.hist.given ++ [s.conn.recvBuffer.bytes.take len] } }

/-- `ParseReq` finds no complete frame, or one that `CreateJob` refuses, or takes one. Only
then is it popped. -/
theorem parseReq_cases (i : Nat) (a : Answers) (hwf : s.conn.RecvWf) :
    (reqFraming.next s.conn.recvBuffer.bytes = none ∧ s.parseReq i a = (s, false)) ∨
    ∃ len, reqFraming.next s.conn.recvBuffer.bytes = some len ∧
      ((createJob a i s.session (s.conn.recvBuffer.bytes.take len) = none ∧
          s.parseReq i a = (s.refused len, false)) ∨
        ∃ j, createJob a i s.session (s.conn.recvBuffer.bytes.take len) = some j ∧
          s.parseReq i a = (s.accepted len j, true)) := by
  cases hn : reqFraming.next s.conn.recvBuffer.bytes with
  | none =>
    refine .inl ⟨rfl, ?_⟩
    rw [← Connection.getReqMessage_eq hwf] at hn
    simp only [parseReq, hn]
  | some len =>
    have hview := Connection.view_eq hwf hn
    refine .inr ⟨len, rfl, ?_⟩
    rw [← Connection.getReqMessage_eq hwf] at hn
    rw [← hview]
    rcases createReq_cases (i := i) a len s.session s with ⟨hnone, he⟩ | ⟨j, hj, he⟩
    · refine .inl ⟨hnone, ?_⟩
      simp only [parseReq, hn, he, refused, hview]
    · refine .inr ⟨j, hj, ?_⟩
      simp only [parseReq, hn, he, popReqMsg, accepted, hview]

/-- What the cases past `PARSING` leave as it was. -/
structure SameInput (s s' : Slot) : Prop where
  recvBuffer : s'.conn.recvBuffer = s.conn.recvBuffer
  session : s'.session = s.session
  given : s'.hist.given = s.hist.given

theorem caseSend_spec (a : Answers) (s : Slot) : SameInput s (s.caseSend a).1 ∧
    ((s.caseSend a).2 = none ∨ (s.caseSend a).2 = some .NOT_FINISHED) := by
  rcases sendRes_cases a.sent s with ⟨j, p, -, -, -, he⟩ | ⟨-, he⟩ <;> simp only [caseSend, he]
  · exact ⟨⟨rfl, rfl, rfl⟩, .inl trivial⟩
  · exact ⟨⟨rfl, rfl, rfl⟩, .inr trivial⟩

theorem caseExecute_spec (a : Answers) (s : Slot) : SameInput s (s.caseExecute a).1 ∧
    ((s.caseExecute a).2 = none ∨ (s.caseExecute a).2 = some .NOT_FINISHED) := by
  rcases executeReq_cases a s with ⟨j, p, freed, -, -, -, he⟩ | he <;> simp only [caseExecute, he]
  · obtain ⟨hsame, hret⟩ := caseSend_spec a { s with
      job := some { j with packet := some p }
      hist := { s.hist with executed := s.hist.executed ++ [p] } }
    exact ⟨⟨hsame.recvBuffer, hsame.session, hsame.given⟩, hret⟩
  · exact ⟨⟨rfl, rfl, rfl⟩, .inr trivial⟩

theorem SameInput.recvWf (h : SameInput s s') (hwf : s.conn.RecvWf) : s'.conn.RecvWf :=
  ⟨h.recvBuffer ▸ hwf.buffer, h.recvBuffer ▸ hwf.capacity_eq⟩

theorem SameInput.bytes (h : SameInput s s') :
    s'.conn.recvBuffer.bytes = s.conn.recvBuffer.bytes := by rw [h.recvBuffer]

/-! ## The call returns -/

/-- A turn takes a frame off the buffer, or it is the last. -/
theorem loop_parsing_returns (hwf : s.conn.RecvWf) {fuel k : Nat}
    (hfuel : s.conn.recvBuffer.bytes.length < fuel) :
    ∃ r, loop i ans fuel k .PARSING s = some r := by
  induction fuel generalizing s k with
  | zero => omega
  | succ fuel ih =>
    -- only a turn that popped a frame goes on, and frames are not empty
    simp only [loop, turn, caseParsing]
    rcases parseReq_cases i (ans k) hwf with ⟨-, he⟩ | ⟨len, hn, ⟨-, he⟩ | ⟨j, -, he⟩⟩ <;>
      simp only [he]
    · exact ⟨_, rfl⟩
    · exact ⟨_, rfl⟩
    · obtain ⟨hsame, hret⟩ := caseExecute_spec (ans k) (s.accepted len j)
      have hbytes : ((s.accepted len j).caseExecute (ans k)).1.conn.recvBuffer.bytes =
          s.conn.recvBuffer.bytes.drop len := hsame.bytes.trans (hwf.bytes_pop hn)
      rcases hr : (s.accepted len j).caseExecute (ans k) with ⟨s₁, _ | c⟩
      · rw [hr] at hsame hbytes
        apply ih (hsame.recvWf (hwf.pop len))
        have := reqFraming.pos hn
        have := reqFraming.le hn
        rw [hbytes, List.length_drop]
        omega
      · exact ⟨_, rfl⟩

theorem loop_returns (ans : Nat → Answers) (hwf : s.conn.RecvWf) (fuel k : Nat) (e : JobProcess)
    (hfuel : s.conn.recvBuffer.bytes.length + 1 < fuel) : ∃ r, loop i ans fuel k e s = some r := by
  obtain ⟨fuel, rfl⟩ : ∃ n, fuel = n + 1 := ⟨fuel - 1, by omega⟩
  -- past its first turn the loop is at `PARSING`, over the same bytes
  have hnext : ∀ s₁ : Slot, SameInput s s₁ →
      ∃ r, loop i ans fuel (k + 1) .PARSING s₁ = some r := by
    intro s₁ h
    apply loop_parsing_returns (h.recvWf hwf)
    rw [h.bytes]
    omega
  cases e with
  | PARSING => exact loop_parsing_returns hwf (by omega)
  | EXECUTE =>
    obtain ⟨hsame, -⟩ := caseExecute_spec (ans k) s
    simp only [loop, turn]
    rcases hr : s.caseExecute (ans k) with ⟨s₁, _ | c⟩
    · rw [hr] at hsame
      exact hnext s₁ hsame
    · exact ⟨_, rfl⟩
  | SEND =>
    obtain ⟨hsame, -⟩ := caseSend_spec (ans k) s
    simp only [loop, turn]
    rcases hr : s.caseSend (ans k) with ⟨s₁, _ | c⟩
    · rw [hr] at hsame
      exact hnext s₁ hsame
    · exact ⟨_, rfl⟩

/-- Whatever the buffer holds and the outside world answers, the call returns. -/
theorem handleReq_returns (i : Nat) (ans : Nat → Answers) (hwf : s.conn.RecvWf) :
    ∃ r, s.handleReq i ans = some r := by
  unfold handleReq
  split
  · exact ⟨_, rfl⟩
  · obtain ⟨r, hr⟩ := loop_returns (s := { s with flag := false }) (i := i) ans hwf
      (s.conn.recvBuffer.size + 2) 0 s.conn.jobProcess
      (by rw [hwf.buffer.bytes_length]; omega)
    rw [hr]
    exact ⟨_, rfl⟩

/-- The call fails its `try_lock`, or it is the loop under the lock. -/
theorem handleReq_cases (h : s.handleReq i ans = some (s', c)) :
    (s.flag = false ∧ s' = s ∧ c = .NOT_MY_TURN) ∨
    (s.flag = true ∧ ∃ s₁, s' = { s₁ with flag := true } ∧
      loop i ans (s.conn.recvBuffer.size + 2) 0 s.conn.jobProcess { s with flag := false } =
        some (s₁, c)) := by
  unfold handleReq at h
  split at h
  · next hf =>
    cases h
    exact .inl ⟨hf, rfl, rfl⟩
  · next hf =>
    obtain ⟨⟨s₁, c₁⟩, hloop, he⟩ := Option.map_eq_some_iff.mp h
    obtain ⟨rfl, rfl⟩ := Prod.mk.inj he
    exact .inr ⟨by simpa using hf, s₁, rfl, hloop⟩

/-! ## The machine run alone -/

/-- The machine run alone comes from one point to another. -/
def Reaches (i : Nat) (s : Slot) (pc : Pc) (s' : Slot) (pc' : Pc) : Prop :=
  ∃ as, s.solo i pc as = (s', pc')

variable {pc pc' pc'' : Pc} {s'' : Slot}

theorem Reaches.step (a : Answers) (h : Reaches i (s.step i a pc).1 (s.step i a pc).2 s' pc') :
    Reaches i s pc s' pc' := by
  obtain ⟨as, has⟩ := h
  exact ⟨a :: as, has⟩

theorem Reaches.trans (h : Reaches i s pc s' pc') (h' : Reaches i s' pc' s'' pc'') :
    Reaches i s pc s'' pc'' := by
  obtain ⟨as, has⟩ := h
  obtain ⟨bs, hbs⟩ := h'
  refine ⟨as ++ bs, ?_⟩
  have hsplit : s.solo i pc (as ++ bs) = (s.solo i pc as).1.solo i (s.solo i pc as).2 bs :=
    List.foldl_append
  rw [hsplit, has]
  exact hbs

/-- Where a turn that ended so leaves the machine: at the top of the loop, or about to unlock. -/
def after : Option InfoCode → Pc
  | none => .switch .PARSING
  | some c => .unlock c

theorem reaches_setJobProcess (e : JobProcess) (c : InfoCode) :
    Reaches i s (.setJobProcess e c) (s.setJobProcess e) (.unlock c) := ⟨[{}], rfl⟩

theorem reaches_caseSend (a : Answers) (s : Slot) :
    Reaches i s (.switch .SEND) (s.caseSend a).1 (after (s.caseSend a).2) := by
  apply Reaches.step a
  simp only [caseSend, Slot.step]
  obtain ⟨s', _ | _⟩ := s.sendRes a.sent
  · exact reaches_setJobProcess ..
  · exact ⟨[], rfl⟩

theorem reaches_caseExecute (a : Answers) (s : Slot) :
    Reaches i s (.switch .EXECUTE) (s.caseExecute a).1 (after (s.caseExecute a).2) := by
  apply Reaches.step a
  simp only [caseExecute, Slot.step]
  obtain ⟨s', _ | _⟩ := s.executeReq a
  · exact reaches_setJobProcess ..
  · exact reaches_caseSend a s'

theorem reaches_caseParsing (a : Answers) (s : Slot) :
    Reaches i s (.switch .PARSING) (s.caseParsing i a).1 (after (s.caseParsing i a).2) := by
  apply Reaches.step a
  simp only [caseParsing, parseReq, Slot.step]
  cases s.conn.getReqMessage with
  | none => exact reaches_setJobProcess ..
  | some len =>
    -- the source's one `ParseReq` is three steps of the machine
    apply Reaches.step a
    simp only [Slot.step]
    obtain ⟨s', _ | _⟩ := s.createReq i a len s.session
    · exact reaches_setJobProcess ..
    · exact .step a (reaches_caseExecute a _)

theorem reaches_turn (a : Answers) (e : JobProcess) (s : Slot) :
    Reaches i s (.switch e) (s.turn i a e).1 (after (s.turn i a e).2) := by
  cases e with
  | PARSING => exact reaches_caseParsing a s
  | EXECUTE => exact reaches_caseExecute a s
  | SEND => exact reaches_caseSend a s

theorem reaches_loop {fuel k : Nat} {e : JobProcess} (h : loop i ans fuel k e s = some (s', c)) :
    Reaches i s (.switch e) s' (.unlock c) := by
  induction fuel generalizing s k e with
  | zero => cases h
  | succ fuel ih =>
    have hturn := reaches_turn (i := i) (ans k) e s
    simp only [loop] at h
    rcases hr : s.turn i (ans k) e with ⟨s₁, _ | c₁⟩ <;> rw [hr] at h hturn
    · exact hturn.trans (ih h)
    · cases h
      exact hturn

/-- The machine, run alone, does what `handleReq` does. -/
theorem handleReq_solo (h : s.handleReq i ans = some (s', c)) :
    ∃ as, s.solo i .tryLock as = (s', .ret c) := by
  rcases handleReq_cases h with ⟨hf, rfl, rfl⟩ | ⟨hf, s₁, rfl, hloop⟩
  · exact ⟨[{}], by simp [solo, Slot.step, hf]⟩
  · apply Reaches.step {}
    simp only [Slot.step, hf, if_true]
    exact Reaches.step {} ((reaches_loop hloop).trans ⟨[{}], rfl⟩)

end Slot

end RacingGameServer
