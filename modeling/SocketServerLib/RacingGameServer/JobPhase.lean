import SocketServerLib.RacingGameServer.Sessions

/-
  The phase of a slot as it is stored, and the `switch` of `HandleReq` on it.

  `Sessions` has the phase as an enumerator. Here `m_eJobProcess` is the `int` under the
  `enum class`, `eRet` the copy of it that a call works on, and the `switch` compares it with
  the labels, so that its `default` is a place of the program like the others. `Point.within`
  takes the other places from `Pc`, with `Pc.switch e` for the body of the label `e`.

  What is proved:
    1. `refines_sessions` — the stored phase is always that of an enumerator, and every run is a
       run of `Sessions`, in which the comparisons are not steps.
    2. `phase_matches_job` — whatever `CreateJob`, `Execute` and `sendFunc` answer: with the
       lock free the phase is `PARSING` if and only if there is no job, no phase runs without
       the job it needs or over one that is not finished, and no call comes to the `default`.

  What is assumed: what `Sessions` assumes.
-/
namespace RacingGameServer

open LabelledRun

namespace JobProcess

/-- The value of an enumerator. -/
def value : JobProcess → Int
  | .PARSING => 0
  | .EXECUTE => 1
  | .SEND => 2

/-- The label that the `switch` finds for a value; `none` is its `default`. -/
def label : Int → Option JobProcess
  | 0 => some .PARSING
  | 1 => some .EXECUTE
  | 2 => some .SEND
  | _ => none

@[simp] theorem label_value (e : JobProcess) : label e.value = some e := by
  cases e <;> rfl

theorem value_eq_parsing {e : JobProcess} : e.value = PARSING.value ↔ e = .PARSING := by
  cases e <;> decide

end JobProcess

/-- Where a call stands: at the `switch`, in its `default`, or somewhere else. -/
inductive Point where
  | select (eRet : Int)
  | undefined (eRet : Int)
  | within (pc : Pc)
  deriving DecidableEq

/-- The slot with the phase as it is stored. The phase in `slot` is the enumerator that was
written last; no step reads it. -/
structure JobPhase (W : Type*) where
  slot : Slot
  value : Int
  points : W → Option Point

namespace JobPhase

variable {W : Type*} [DecidableEq W] (i : Nat)

def init : JobPhase W :=
  { slot := .new, value := JobProcess.PARSING.value, points := fun _ => none }

/-- One step of a call, on the slot and the stored phase. -/
def advance (a : Answers) (s : Slot) (value : Int) : Point → Slot × Int × Point
  | .select eRet =>
    match JobProcess.label eRet with
    | some e => (s, value, .within (.switch e))
    | none => (s, value, .undefined eRet)
  | .undefined _ => (s, value, .within (.unlock .OTHER_ERR))
  | .within .getJobProcess => (s, value, .select value)
  | .within (.setJobProcess e c) => (s.setJobProcess e, e.value, .within (.unlock c))
  | .within (.switch .SEND) =>
    -- `eRet = JobProcess::PARSING`, and the loop goes on
    match s.sendRes a.sent with
    | (s', false) => (s', value, .within (.setJobProcess .SEND .NOT_FINISHED))
    | (s', true) => (s', value, .select JobProcess.PARSING.value)
  | .within pc => ((s.step i a pc).1, value, .within (s.step i a pc).2)

def step (s : JobPhase W) : SessionAct W → Option (JobPhase W)
  | .call w =>
    match s.points w with
    | none | some (.within (.ret _)) =>
      some { s with points := Function.update s.points w (some (.within .tryLock)) }
    | _ => none
  | .move w a =>
    match s.points w with
    | none => none
    | some p =>
      some { slot := (advance i a s.slot s.value p).1
             value := (advance i a s.slot s.value p).2.1
             points := Function.update s.points w (some (advance i a s.slot s.value p).2.2) }
  | .recv chunk =>
    if 0 < chunk.length ∧ chunk.length ≤ maxSockbuf then
      some { s with slot := (s.slot.recv chunk).1 }
    else none
  | .disconnect => some { s with slot := s.slot.disconnect }
  | .accept => some { s with slot := s.slot.accept }

variable {i} {s s' : JobPhase W} {t : Sessions W} {w : W} {a : Answers}

theorem step_call (h : step i s (.call w) = some s') :
    (s.points w = none ∨ ∃ c, s.points w = some (.within (.ret c))) ∧
      s' = { s with points := Function.update s.points w (some (.within .tryLock)) } := by
  simp only [step] at h
  split at h
  · next hw => exact ⟨.inl hw, (Option.some.inj h).symm⟩
  · next c hw => exact ⟨.inr ⟨c, hw⟩, (Option.some.inj h).symm⟩
  · cases h

theorem step_move (h : step i s (.move w a) = some s') :
    ∃ p, s.points w = some p ∧
      s' = { slot := (advance i a s.slot s.value p).1
             value := (advance i a s.slot s.value p).2.1
             points :=
              Function.update s.points w (some (advance i a s.slot s.value p).2.2) } := by
  simp only [step] at h
  split at h
  · cases h
  · next p hw => exact ⟨p, hw, (Option.some.inj h).symm⟩

theorem step_recv {chunk : Bytes} (h : step i s (.recv chunk) = some s') :
    (0 < chunk.length ∧ chunk.length ≤ maxSockbuf) ∧
      s' = { s with slot := (s.slot.recv chunk).1 } := by
  simp only [step] at h
  split at h
  · next hlen => exact ⟨hlen, (Option.some.inj h).symm⟩
  · cases h

/-! ## Every run is a run of `Sessions` -/

/-- The place of a call, and its place in `Sessions`: at the `switch` it has the value of the
enumerator that it is about to find. -/
inductive Refers : Option Point → Option Pc → Prop
  | outside : Refers none none
  | select (e : JobProcess) : Refers (some (.select e.value)) (some (.switch e))
  | within (pc : Pc) : Refers (some (.within pc)) (some pc)

theorem refers_none {o : Option Pc} (h : Refers none o) : o = none := by
  cases h
  rfl

theorem refers_within {pc : Pc} {o : Option Pc} (h : Refers (some (.within pc)) o) :
    o = some pc := by
  cases h
  rfl

theorem refers_select {v : Int} {o : Option Pc} (h : Refers (some (.select v)) o) :
    ∃ e : JobProcess, v = e.value ∧ o = some (.switch e) := by
  cases h with
  | select e => exact ⟨e, rfl, rfl⟩

/-- No call of `Sessions` is where one in the `default` would be. -/
theorem not_refers_undefined {v : Int} {o : Option Pc} : ¬ Refers (some (.undefined v)) o := by
  intro h
  cases h

structure Refines (s : JobPhase W) (t : Sessions W) : Prop where
  slot : s.slot = t.slot
  value : s.value = s.slot.conn.jobProcess.value
  points : ∀ w, Refers (s.points w) (t.pcs w)

omit [DecidableEq W] in
theorem refines_init : Refines (init : JobPhase W) Sessions.init :=
  ⟨rfl, rfl, fun _ => .outside⟩

theorem refers_update {points : W → Option Point} {pcs : W → Option Pc} {o : Option Point}
    {o' : Option Pc} (h : ∀ v, Refers (points v) (pcs v)) (ho : Refers o o') (v : W) :
    Refers (Function.update points w o v) (Function.update pcs w o' v) := by
  by_cases hv : v = w
  · subst hv
    rw [Function.update_self, Function.update_self]
    exact ho
  · rw [Function.update_of_ne hv, Function.update_of_ne hv]
    exact h v

/-- Only `SetJobProcess` writes the phase. -/
theorem step_jobProcess {s : Slot} {pc : Pc} (hpc : ∀ e c, pc ≠ .setJobProcess e c) :
    (s.step i a pc).1.conn.jobProcess = s.conn.jobProcess := by
  cases pc with
  | tryLock => simp only [Slot.step]; split <;> rfl
  | getJobProcess => rfl
  | setJobProcess e c => exact absurd rfl (hpc e c)
  | unlock c => rfl
  | ret c => rfl
  | popReqMsg len => rfl
  | createJob len o =>
    rcases Slot.createReq_cases (i := i) a len o s with ⟨-, h⟩ | ⟨j, -, h⟩ <;>
      simp only [Slot.step, h]
  | switch e =>
    cases e with
    | PARSING => simp only [Slot.step]; split <;> rfl
    | EXECUTE =>
      rcases Slot.executeReq_cases a s with ⟨j, p, freed, -, -, -, h⟩ | h <;>
        simp only [Slot.step, h]
    | SEND =>
      rcases Slot.sendRes_cases a.sent s with ⟨j, p, -, -, -, h⟩ | ⟨-, h⟩ <;>
        simp only [Slot.step, h]

/-- Away from the `switch`, a step of a call is the one of `Sessions`, on the phase too. -/
theorem advance_within (s : Slot) (pc : Pc) :
    ∃ p, advance i a s s.conn.jobProcess.value (.within pc) =
        ((s.step i a pc).1, (s.step i a pc).1.conn.jobProcess.value, p) ∧
      Refers (some p) (some (s.step i a pc).2) := by
  cases pc with
  | getJobProcess => exact ⟨_, rfl, .select _⟩
  | setJobProcess e c => exact ⟨_, rfl, .within _⟩
  | switch e =>
    have hphase : (s.step i a (.switch e)).1.conn.jobProcess = s.conn.jobProcess :=
      step_jobProcess (fun _ _ h => by cases h)
    cases e with
    | SEND =>
      rcases Slot.sendRes_cases a.sent s with ⟨j, p, -, -, -, h⟩ | ⟨-, h⟩ <;>
        simp only [advance, Slot.step, h]
      · exact ⟨_, rfl, .select .PARSING⟩
      · exact ⟨_, rfl, .within _⟩
    | PARSING => exact ⟨_, by rw [hphase]; rfl, .within _⟩
    | EXECUTE => exact ⟨_, by rw [hphase]; rfl, .within _⟩
  | tryLock =>
    exact ⟨_, by rw [step_jobProcess fun _ _ h => by cases h]; rfl, .within _⟩
  | createJob len o =>
    exact ⟨_, by rw [step_jobProcess fun _ _ h => by cases h]; rfl, .within _⟩
  | popReqMsg len => exact ⟨_, rfl, .within _⟩
  | unlock c => exact ⟨_, rfl, .within _⟩
  | ret c => exact ⟨_, rfl, .within _⟩

theorem refines_step (h : Refines s t) {l : SessionAct W} (hs : step i s l = some s') :
    Refines s' t ∨ ∃ l' t', Sessions.step i t l' = some t' ∧ Refines s' t' := by
  obtain ⟨hslot, hvalue, hpoints⟩ := h
  cases l with
  | call w =>
    obtain ⟨hw, rfl⟩ := step_call hs
    have hcall : Sessions.step i t (.call w) =
        some { t with pcs := Function.update t.pcs w (some .tryLock) } := by
      rcases hw with hw | ⟨c, hw⟩
      · simp only [Sessions.step, refers_none (hw ▸ hpoints w)]
      · simp only [Sessions.step, refers_within (hw ▸ hpoints w)]
    exact .inr ⟨_, _, hcall, hslot, hvalue, refers_update hpoints (.within .tryLock)⟩
  | move w a =>
    obtain ⟨p, hw, rfl⟩ := step_move hs
    have hrefers := hpoints w
    rw [hw] at hrefers
    cases p with
    | undefined eRet => exact absurd hrefers not_refers_undefined
    | select eRet =>
      -- the comparison is not a step of `Sessions`
      obtain ⟨e, rfl, hpc⟩ := refers_select hrefers
      left
      refine ⟨?_, ?_, fun v => ?_⟩
      · simpa only [advance, JobProcess.label_value] using hslot
      · simpa only [advance, JobProcess.label_value] using hvalue
      · simp only [advance, JobProcess.label_value]
        by_cases hv : v = w
        · subst hv
          rw [Function.update_self, hpc]
          exact .within (.switch e)
        · rw [Function.update_of_ne hv]
          exact hpoints v
    | within pc =>
      obtain ⟨p, hadvance, hp⟩ := advance_within (i := i) (a := a) s.slot pc
      have hmove : Sessions.step i t (.move w a) =
          some { slot := (t.slot.step i a pc).1
                 pcs := Function.update t.pcs w (some (t.slot.step i a pc).2) } := by
        simp only [Sessions.step, refers_within hrefers]
      refine .inr ⟨_, _, hmove, ?_, ?_, ?_⟩
      · rw [hvalue, hadvance, hslot]
      · rw [hvalue, hadvance]
      · rw [hvalue, hadvance, ← hslot]
        exact refers_update hpoints hp
  | recv chunk =>
    obtain ⟨hlen, rfl⟩ := step_recv hs
    have hrecv : Sessions.step i t (.recv chunk) =
        some { t with slot := (t.slot.recv chunk).1 } := by
      simp only [Sessions.step, if_pos hlen]
    refine .inr ⟨_, _, hrecv, ?_, hvalue, hpoints⟩
    exact congrArg (fun s : Slot => (s.recv chunk).1) hslot
  | disconnect =>
    obtain rfl := Option.some.inj hs
    exact .inr ⟨.disconnect, _, rfl, congrArg Slot.disconnect hslot, hvalue, hpoints⟩
  | accept =>
    obtain rfl := Option.some.inj hs
    exact .inr ⟨.accept, _, rfl, congrArg Slot.accept hslot, hvalue, hpoints⟩

theorem refines_sessions {ls : List (SessionAct W)} (hr : run (step i) init ls = some s) :
    ∃ ls' t, run (Sessions.step i) Sessions.init ls' = some t ∧ Refines s t :=
  run_refines (R := Refines) (fun _ _ _ _ h hs => refines_step h hs) refines_init hr

/-! ## The stored phase and the pending job -/

/-- The stored phase and `m_Jobs[i]` belong together. -/
structure Consistent (s : JobPhase W) : Prop where
  free : s.slot.flag = true → (s.value = JobProcess.PARSING.value ↔ s.slot.job = none)
  execute : ∀ w, s.points w = some (.within (.switch .EXECUTE)) → s.slot.job ≠ none
  send : ∀ w, s.points w = some (.within (.switch .SEND)) → s.slot.job ≠ none
  parse : ∀ w len o, s.points w = some (.within (.createJob len o)) → s.slot.job = none
  defined : ∀ w eRet, s.points w ≠ some (.undefined eRet)

theorem matches_parsing {job : Option Job} {e : JobProcess} (h : Sessions.Matches job e) :
    e = .PARSING ↔ job = none := by
  cases e with
  | PARSING => exact iff_of_true rfl h
  | EXECUTE =>
    obtain ⟨j, rfl⟩ := h
    exact iff_of_false (fun h => by cases h) (fun h => by cases h)
  | SEND =>
    obtain ⟨j, p, rfl, -⟩ := h
    exact iff_of_false (fun h => by cases h) (fun h => by cases h)

omit [DecidableEq W] in
theorem Refines.consistent (h : Refines s t) (hphases : Sessions.Phases t) : Consistent s := by
  -- what `Sessions` knows of the call that is at this point
  have hat : ∀ {w pc}, s.points w = some (.within pc) → pc.Critical →
      Sessions.PhaseAt s.slot pc := by
    intro w pc hw hc
    rw [h.slot]
    exact (hphases.held w pc (refers_within (hw ▸ h.points w)) hc).2
  refine ⟨fun hfree => ?_, fun w hw => ?_, fun w hw => ?_, fun w len o hw => ?_,
    fun w eRet hw => ?_⟩
  · have hmatches := (hphases.free (h.slot ▸ hfree)).2
    rw [← h.slot] at hmatches
    rw [h.value, JobProcess.value_eq_parsing]
    exact matches_parsing hmatches
  · obtain ⟨j, hj⟩ := (hat hw trivial).2
    exact hj ▸ Option.some_ne_none j
  · obtain ⟨j, p, hj, -⟩ := (hat hw trivial).2
    exact hj ▸ Option.some_ne_none j
  · exact (hat hw trivial).2
  · exact not_refers_undefined (hw ▸ h.points w)

/-- In every state that any number of workers reach, over receives, disconnects and accepts. -/
theorem phase_matches_job {ls : List (SessionAct W)} (hr : run (step i) init ls = some s) :
    Consistent s := by
  obtain ⟨ls', t, hrun, hrefines⟩ := refines_sessions hr
  exact hrefines.consistent (Sessions.phase_guarded hrun)

/-- A session that ends with its response refused, and the accept of the next one. -/
def refused : List (SessionAct Unit) :=
  .accept :: .recv tokenFrame :: Sessions.wholeCall 10 false ++ [.disconnect, .accept]

theorem refused_matches_job : ∃ s : JobPhase Unit, run (step 0) init refused = some s ∧
    s.slot.flag = true ∧ s.value = JobProcess.SEND.value ∧ Consistent s := by
  have hrun : (run (step 0) init refused).map (fun s : JobPhase Unit => (s.slot.flag, s.value)) =
      some (true, JobProcess.SEND.value) := by decide +kernel
  obtain ⟨s, hs, hend⟩ := Option.map_eq_some_iff.mp hrun
  obtain ⟨hfree, hvalue⟩ := Prod.mk.inj hend
  exact ⟨s, hs, hfree, hvalue, phase_matches_job hs⟩

end JobPhase

end RacingGameServer
