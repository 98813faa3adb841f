import SocketServerLib.Lib.LabelledRun
import SocketServerLib.LinuxServer.Job
import Mathlib.Data.List.Nodup
import Mathlib.Logic.Function.Basic

/-
  The responses of the blocking Linux server: `JobThread` takes the jobs one after the other,
  `SendMsg` writes the packet of a job in as many calls of `write()` as it takes, and a job
  that could not be sent is queued again.

  A job is a `J`, with what it holds in `deref`: `m_JobQueue` is a queue of pointers. `running`
  is the job in `Execute` with the `totalSent` of its `SendMsg`. `wire fd` is what has been
  written on a descriptor, `written j` what has been written for a job, `received` and
  `succeeded` the jobs queued by `OnReceive` and those reported as `REQ_SUCCESS`; all four
  are ghosts.

  What is proved:
    1. `step_queued`, `step_sound` — what every step keeps, and what the steps keep that fail
       only before the first byte.
    2. `step_repeated` — bytes written in vain stay written.
    3. `responses_once` — the law holds all along a run whose writes fail before the first
       byte of a packet only; and a run that gets through all its jobs obeys the law if and
       only if it is of that kind.
    4. `response_repeated` — a response whose first bytes are sent twice.

  What is assumed: a push to `m_JobQueue` and a pop are one step each, though no lock keeps them
  apart; `write()` takes no more than it is offered.
-/
namespace LinuxServer
open RacingGameServer (Bytes)
open LabelledRun

structure Responses (J : Type*) where
  jobQueue : List J
  running : Option (J × Nat)
  received : List J
  succeeded : List J
  wire : Nat → Bytes
  written : J → Bytes

/-- `write` is one call of `write()`: the number of bytes taken, or an error. `finish` is the
return of `SendMsg` behind its loop. -/
inductive ResponseAct (J : Type*) where
  | receive (job : J)
  | take
  | write (nRet : Option Nat)
  | finish

/-- `GameServer::SendResultMsg`. -/
def sendResultMsg (bRet : Bool) : InfoCode := if bRet = true then .REQ_SUCCESS else .NOT_FINISHED

/-- The switch of `JobThread` deletes the job or queues it again. -/
def requeues : InfoCode → Bool
  | .NOT_FINISHED => true
  | _ => false

namespace Responses

variable {J : Type*} [DecidableEq J]

def init : Responses J :=
  { jobQueue := [], running := none, received := [], succeeded := [], wire := fun _ => []
    written := fun _ => [] }

/-- The end of `Execute`, and what becomes of the job. -/
def executed (s : Responses J) (job : J) (bRet : Bool) : Responses J :=
  let eRet := sendResultMsg bRet
  { s with
    jobQueue := if requeues eRet = true then s.jobQueue ++ [job] else s.jobQueue
    running := none
    succeeded := if eRet = .REQ_SUCCESS then s.succeeded ++ [job] else s.succeeded }

/-- `write()` takes bytes for a job. -/
def taken (deref : J → EchoJob) (s : Responses J) (job : J) (totalSent nRet : Nat) :
    Responses J :=
  let bytes := ((deref job).packet.drop totalSent).take nRet
  let fd := (deref job).userIndex
  { s with
    running := some (job, totalSent + nRet)
    wire := Function.update s.wire fd (s.wire fd ++ bytes)
    written := Function.update s.written job (s.written job ++ bytes) }

def step (deref : J → EchoJob) (s : Responses J) : ResponseAct J → Option (Responses J)
  | .receive job =>
    if job ∈ s.received then none
    else some { s with jobQueue := s.jobQueue ++ [job], received := s.received ++ [job] }
  | .take =>
    match s.running, s.jobQueue with
    | none, job :: jobQueue => some { s with jobQueue := jobQueue, running := some (job, 0) }
    | _, _ => none
  | .write nRet =>
    match s.running with
    | none => none
    | some (job, totalSent) =>
      if totalSent < (deref job).packet.length then
        match nRet with
        | none => some (s.executed job false)
        | some n =>
          -- `write()` takes between one byte and all it is offered
          if 1 ≤ n ∧ n ≤ (deref job).packet.length - totalSent then
            some (s.taken deref job totalSent n)
          else none
      else none
  | .finish =>
    match s.running with
    | none => none
    | some (job, totalSent) =>
      if totalSent < (deref job).packet.length then none else some (s.executed job true)

variable (deref : J → EchoJob)

/-- The packets of the jobs that answer to a descriptor. -/
def stream (fd : Nat) (jobs : List J) : Bytes :=
  ((jobs.filter fun j => (deref j).userIndex = fd).map fun j => (deref j).packet).flatten

/-- What has been written on a descriptor is the beginning of whole packets, one for each job,
in the order in which the jobs have been completed and may be completed; and what has been
written for a job reported as done is its packet. -/
def Lawful (s : Responses J) : Prop :=
  (∀ fd, ∃ rest, (s.succeeded ++ rest).Nodup ∧ (∀ j ∈ rest, j ∈ s.received) ∧
    s.wire fd <+: stream deref fd (s.succeeded ++ rest)) ∧
  ∀ j ∈ s.succeeded, s.written j = (deref j).packet

/-- A write that fails is the first one of its packet. -/
def FailsFirst (s : Responses J) : ResponseAct J → Prop
  | .write none => ∀ r ∈ s.running, r.2 = 0
  | _ => True

omit [DecidableEq J] in
instance (s : Responses J) : DecidablePred s.FailsFirst
  | .write none => inferInstanceAs (Decidable (∀ r ∈ s.running, r.2 = 0))
  | .write (some _) => .isTrue trivial
  | .receive _ => .isTrue trivial
  | .take => .isTrue trivial
  | .finish => .isTrue trivial

/-! ## What every step keeps -/

/-- The jobs that are in the server. -/
def held (s : Responses J) : List J := (s.running.map Prod.fst).toList ++ s.jobQueue

/-- Every job received is done, executed or queued, in one place only. -/
structure Queued (s : Responses J) : Prop where
  nodup : (s.succeeded ++ s.held).Nodup
  known : ∀ j, j ∈ s.succeeded ++ s.held → j ∈ s.received
  bound : ∀ r ∈ s.running, r.2 ≤ (deref r.1).packet.length

/-- How much of a job's packet has been written for good. -/
def progress (s : Responses J) (j : J) : Nat :=
  if j ∈ s.succeeded then (deref j).packet.length
  else
    match s.running with
    | some (job, totalSent) => if job = j then totalSent else 0
    | none => 0

/-- The part of a packet that the job in `Execute` has written on a descriptor. -/
def unfinished (s : Responses J) (fd : Nat) : Bytes :=
  match s.running with
  | some (job, totalSent) =>
    if (deref job).userIndex = fd then (deref job).packet.take totalSent else []
  | none => []

/-- Nothing has been written that is not part of a response. -/
structure Sound (s : Responses J) : Prop where
  wire : ∀ fd, s.wire fd = stream deref fd s.succeeded ++ unfinished deref s fd
  written : ∀ j, s.written j = (deref j).packet.take (progress deref s j)

variable {deref} {s s' : Responses J} {a : ResponseAct J}

omit [DecidableEq J] in
theorem queued_init : Queued deref (init : Responses J) where
  nodup := List.nodup_nil
  known j h := by cases h
  bound r h := by cases h

theorem sound_init : Sound deref (init : Responses J) where
  wire _ := rfl
  written _ := List.take_zero.symm

/-- What a step can do. -/
theorem step_cases (h : step deref s a = some s') :
    (∃ job, a = .receive job ∧ job ∉ s.received ∧
      s' = { s with jobQueue := s.jobQueue ++ [job], received := s.received ++ [job] }) ∨
    (∃ job jobQueue, a = .take ∧ s.running = none ∧ s.jobQueue = job :: jobQueue ∧
      s' = { s with jobQueue := jobQueue, running := some (job, 0) }) ∨
    (∃ job totalSent, a = .write none ∧ s.running = some (job, totalSent) ∧
      s' = s.executed job false) ∨
    (∃ job totalSent n, a = .write (some n) ∧ s.running = some (job, totalSent) ∧ 1 ≤ n ∧
      n ≤ (deref job).packet.length - totalSent ∧ s' = s.taken deref job totalSent n) ∨
    ∃ job totalSent, a = .finish ∧ s.running = some (job, totalSent) ∧
      (deref job).packet.length ≤ totalSent ∧ s' = s.executed job true := by
  cases a with
  | receive job =>
    simp only [step] at h
    split at h
    · cases h
    · next hnew => exact .inl ⟨job, rfl, hnew, (Option.some.inj h).symm⟩
  | take =>
    simp only [step] at h
    split at h
    · next job jobQueue hrun hqueue =>
      exact .inr (.inl ⟨job, jobQueue, rfl, hrun, hqueue, (Option.some.inj h).symm⟩)
    · cases h
  | write nRet =>
    simp only [step] at h
    split at h
    · cases h
    next job totalSent hrun =>
      split at h
      · cases nRet with
        | none => exact .inr (.inr (.inl ⟨job, totalSent, rfl, hrun, (Option.some.inj h).symm⟩))
        | some n =>
          simp only at h
          split at h
          · next hn =>
            exact .inr (.inr (.inr (.inl
              ⟨job, totalSent, n, rfl, hrun, hn.1, hn.2, (Option.some.inj h).symm⟩)))
          · cases h
      · cases h
  | finish =>
    simp only [step] at h
    split at h
    · cases h
    next job totalSent hrun =>
      split at h
      · cases h
      next hend =>
        exact .inr (.inr (.inr (.inr
          ⟨job, totalSent, rfl, hrun, Nat.le_of_not_lt hend, (Option.some.inj h).symm⟩)))

omit [DecidableEq J] in
@[simp] theorem executed_false (s : Responses J) (job : J) :
    s.executed job false = { s with jobQueue := s.jobQueue ++ [job], running := none } := rfl

omit [DecidableEq J] in
@[simp] theorem executed_true (s : Responses J) (job : J) :
    s.executed job true =
      { s with running := none, succeeded := s.succeeded ++ [job] } := rfl

/-- A job moves from place to place, and nothing else does. -/
theorem step_queued (hs : Queued deref s) (h : step deref s a = some s') : Queued deref s' := by
  have hnodup := hs.nodup
  have hknown := hs.known
  rcases step_cases h with ⟨job, -, hnew, rfl⟩ | ⟨job, jobQueue, -, hrun, hqueue, rfl⟩ |
    ⟨job, t, -, hrun, rfl⟩ | ⟨job, t, n, -, hrun, -, hn, rfl⟩ | ⟨job, t, -, hrun, -, rfl⟩
  · refine ⟨?_, ?_, hs.bound⟩
    · have hout : job ∉ s.succeeded ++ s.held := fun hin => hnew (hknown job hin)
      simp only [held, ← List.append_assoc] at hnodup hout ⊢
      exact List.nodup_append.mpr ⟨hnodup, List.nodup_singleton job, fun x hx y hy hxy =>
        hout (List.mem_singleton.mp hy ▸ hxy ▸ hx)⟩
    · intro j hj
      simp only [held, ← List.append_assoc] at hj hknown
      rcases List.mem_append.mp hj with hj | hj
      · exact List.mem_append_left _ (hknown j (by simpa using hj))
      · exact List.mem_append_right _ hj
  · refine ⟨?_, ?_, ?_⟩
    · simpa [held, hrun, hqueue] using hnodup
    · simpa [held, hrun, hqueue] using hknown
    · intro r hr
      obtain rfl : (job, 0) = r := Option.mem_some_iff.mp hr
      exact Nat.zero_le _
  · refine ⟨?_, ?_, fun r hr => by cases hr⟩
    · refine List.Perm.nodup ?_ hnodup
      simp only [held, hrun, executed_false]
      exact List.Perm.append_left _ (@List.perm_append_comm _ [job] _)
    · intro j hj
      apply hknown
      simp only [held, hrun, executed_false] at hj ⊢
      simp only [List.mem_append] at hj ⊢
      simpa [or_comm, or_assoc] using hj
  · refine ⟨?_, ?_, ?_⟩
    · simpa [held, hrun, taken] using hnodup
    · simpa [held, hrun, taken] using hknown
    · intro r hr
      obtain rfl : (job, t + n) = r := Option.mem_some_iff.mp hr
      have := hs.bound (job, t) hrun
      simp only at this ⊢
      omega
  · refine ⟨?_, ?_, fun r hr => by cases hr⟩
    · simpa [held, hrun] using hnodup
    · simpa [held, hrun] using hknown

omit [DecidableEq J] in
/-- A job in `Execute` is not done. -/
theorem Queued.running_not_mem (hs : Queued deref s) {job : J} {totalSent : Nat}
    (hrun : s.running = some (job, totalSent)) : job ∉ s.succeeded := by
  intro hin
  have hnodup := hs.nodup
  simp only [held, hrun] at hnodup
  exact (List.nodup_append.mp hnodup).2.2 job hin job (by simp) rfl

/-- The progress of the jobs when no job is in `Execute`. -/
theorem progress_idle (hrun : s.running = none) (j : J) :
    progress deref s j = if j ∈ s.succeeded then (deref j).packet.length else 0 := by
  simp only [progress, hrun]

theorem progress_running (hs : Queued deref s) {job : J} {totalSent : Nat}
    (hrun : s.running = some (job, totalSent)) : progress deref s job = totalSent := by
  simp only [progress, if_neg (hs.running_not_mem hrun), hrun, if_true]

/-- For each job a step writes the next bytes of its packet, unless it is a write that fails:
then the job has to begin again. -/
theorem step_progress (hs : Queued deref s) (h : step deref s a = some s') (j : J) :
    (∃ n, progress deref s' j = progress deref s j + n ∧
      s'.written j = s.written j ++ ((deref j).packet.drop (progress deref s j)).take n ∧
      progress deref s j + n ≤ (deref j).packet.length) ∨
    (a = .write none ∧ s.running = some (j, progress deref s j) ∧ progress deref s' j = 0 ∧
      s'.written j = s.written j) := by
  have hle : progress deref s j ≤ (deref j).packet.length := by
    unfold progress
    split
    · exact Nat.le_refl _
    split
    · next job t hrun =>
      split
      · next heq => exact heq ▸ hs.bound (job, t) hrun
      · exact Nat.zero_le _
    · exact Nat.zero_le _
  have hsame : progress deref s' j = progress deref s j → s'.written j = s.written j →
      ∃ n, progress deref s' j = progress deref s j + n ∧
        s'.written j = s.written j ++ ((deref j).packet.drop (progress deref s j)).take n ∧
        progress deref s j + n ≤ (deref j).packet.length := by
    intro hp hw
    exact ⟨0, hp, by rw [hw, List.take_zero, List.append_nil], hle⟩
  rcases step_cases h with ⟨job, -, -, rfl⟩ | ⟨job, jobQueue, -, hrun, -, rfl⟩ |
    ⟨job, t, rfl, hrun, rfl⟩ | ⟨job, t, n, -, hrun, -, hn, rfl⟩ | ⟨job, t, -, hrun, hend, rfl⟩
  · exact .inl (hsame rfl rfl)
  · refine .inl (hsame ?_ rfl)
    rw [progress_idle hrun]
    simp only [progress, ite_self]
  · have hout := hs.running_not_mem hrun
    by_cases hj : job = j
    · subst hj
      refine .inr ⟨rfl, by rw [progress_running hs hrun]; exact hrun, ?_, rfl⟩
      exact if_neg hout
    · refine .inl (hsame ?_ rfl)
      simp only [progress, hrun, if_neg hj]
      rfl
  · have hout := hs.running_not_mem hrun
    have hbound : t ≤ (deref job).packet.length := hs.bound (job, t) hrun
    by_cases hj : job = j
    · subst hj
      refine .inl ⟨n, ?_, ?_, ?_⟩
      · rw [progress_running hs hrun]
        simp only [progress, taken, if_neg hout, if_true]
      · rw [progress_running hs hrun]
        exact Function.update_self ..
      · rw [progress_running hs hrun]
        omega
    · refine .inl (hsame ?_ ?_)
      · simp only [progress, taken, hrun, if_neg hj]
      · exact Function.update_of_ne (Ne.symm hj) ..
  · have hout := hs.running_not_mem hrun
    have hbound : t ≤ (deref job).packet.length := hs.bound (job, t) hrun
    refine .inl (hsame ?_ rfl)
    by_cases hj : job = j
    · subst hj
      rw [progress_running hs hrun]
      have hin : job ∈ s.succeeded ++ [job] := List.mem_append_right _ (List.mem_singleton_self job)
      calc progress deref (s.executed job true) job = (deref job).packet.length := if_pos hin
        _ = t := Nat.le_antisymm hend hbound
    · have hin : j ∈ s.succeeded ++ [job] ↔ j ∈ s.succeeded := by
        rw [List.mem_append, List.mem_singleton, or_iff_left (Ne.symm hj)]
      simp only [progress, executed_true, hrun, if_neg hj, hin]

/-! ## Writes that fail before the first byte -/

omit [DecidableEq J] in
theorem stream_append (fd : Nat) (jobs jobs' : List J) :
    stream deref fd (jobs ++ jobs') = stream deref fd jobs ++ stream deref fd jobs' := by
  simp only [stream, List.filter_append, List.map_append, List.flatten_append]

omit [DecidableEq J] in
theorem stream_singleton (fd : Nat) (job : J) :
    stream deref fd [job] = if (deref job).userIndex = fd then (deref job).packet else [] := by
  by_cases hfd : (deref job).userIndex = fd
  · simp [stream, hfd]
  · simp [stream, hfd]

/-- What is written goes on where the last response ended. -/
theorem step_wire (hw : ∀ fd, s.wire fd = stream deref fd s.succeeded ++ unfinished deref s fd)
    (hs : Queued deref s) (hc : FailsFirst s a) (h : step deref s a = some s') (fd : Nat) :
    s'.wire fd = stream deref fd s'.succeeded ++ unfinished deref s' fd := by
  have hwire := hw fd
  rcases step_cases h with ⟨job, -, -, rfl⟩ | ⟨job, jobQueue, -, hrun, -, rfl⟩ |
    ⟨job, t, rfl, hrun, rfl⟩ | ⟨job, t, n, -, hrun, -, hn, rfl⟩ | ⟨job, t, -, hrun, hend, rfl⟩
  · exact hwire
  · rw [hwire]
    simp only [unfinished, hrun, List.take_zero, ite_self]
  · -- the packet that is begun again has left nothing behind
    obtain rfl : t = 0 := hc (job, t) hrun
    rw [executed_false, hwire]
    simp only [unfinished, hrun, List.take_zero, ite_self]
  · simp only [unfinished, hrun] at hwire
    by_cases hfd : (deref job).userIndex = fd
    · subst hfd
      simp only [taken, unfinished, Function.update_self, if_true] at hwire ⊢
      rw [hwire, List.append_assoc, List.take_add]
    · simp only [taken, unfinished, if_neg hfd, Function.update_of_ne (Ne.symm hfd)] at hwire ⊢
      exact hwire
  · have hbound : t ≤ (deref job).packet.length := hs.bound (job, t) hrun
    simp only [unfinished, hrun] at hwire
    simp only [executed_true, unfinished, stream_append, stream_singleton, List.append_nil]
    rw [hwire, List.take_of_length_le hend]

theorem step_sound (hsound : Sound deref s) (hs : Queued deref s) (hc : FailsFirst s a)
    (h : step deref s a = some s') : Sound deref s' where
  wire := step_wire hsound.wire hs hc h
  written j := by
    rcases step_progress hs h j with ⟨n, hp, hw, -⟩ | ⟨rfl, hrun, hp, hw⟩
    · rw [hw, hsound.written, hp, List.take_add]
    · have hzero : progress deref s j = 0 := hc _ hrun
      rw [hw, hsound.written, hp, hzero]

/-- Such a state obeys the law: the job in `Execute` may be the next one done. -/
theorem Sound.lawful (hsound : Sound deref s) (hs : Queued deref s) : Lawful deref s := by
  refine ⟨fun fd => ⟨(s.running.map Prod.fst).toList, ?_, ?_, ?_⟩, fun j hj => ?_⟩
  · have hnodup := hs.nodup
    simp only [held, ← List.append_assoc] at hnodup
    exact (List.nodup_append.mp hnodup).1
  · intro j hj
    exact hs.known j (by simp only [held, List.mem_append]; exact .inr (.inl hj))
  · rw [hsound.wire, stream_append, List.prefix_append_right_inj]
    simp only [unfinished]
    cases hrun : s.running with
    | none => exact List.nil_prefix
    | some r =>
      obtain ⟨job, t⟩ := r
      simp only [Option.map_some, Option.toList_some, stream_singleton]
      split
      · exact List.take_prefix _ _
      · exact List.nil_prefix
  · rw [hsound.written, progress, if_pos hj, List.take_length]

/-! ## Bytes written in vain -/

/-- At least the progress of each job has been written for it. -/
def Covered (deref : J → EchoJob) (s : Responses J) : Prop :=
  ∀ j, progress deref s j ≤ (s.written j).length

/-- More than its progress has been written for a job. -/
def Repeated (deref : J → EchoJob) (s : Responses J) (j : J) : Prop :=
  progress deref s j < (s.written j).length

theorem step_covered (hs : Queued deref s) (hcov : Covered deref s)
    (h : step deref s a = some s') : Covered deref s' := by
  intro j
  have hj := hcov j
  rcases step_progress hs h j with ⟨n, hp, hw, hn⟩ | ⟨-, -, hp, -⟩
  · rw [hp, hw, List.length_append, List.length_take, List.length_drop]
    omega
  · rw [hp]
    exact Nat.zero_le _

theorem step_repeated (hs : Queued deref s) {j : J} (hrep : Repeated deref s j)
    (h : step deref s a = some s') : Repeated deref s' j := by
  unfold Repeated at hrep ⊢
  rcases step_progress hs h j with ⟨n, hp, hw, hn⟩ | ⟨-, -, hp, hw⟩
  · rw [hp, hw, List.length_append, List.length_take, List.length_drop]
    omega
  · rw [hp, hw]
    omega

/-- A write that fails behind the first byte wastes what has been written. -/
theorem repeated_of_fails (hs : Queued deref s) (hcov : Covered deref s) (hc : ¬ FailsFirst s a)
    (h : step deref s a = some s') : ∃ j ∈ s.received, Repeated deref s' j := by
  cases a with
  | write nRet =>
    cases nRet with
    | some n => exact absurd trivial hc
    | none =>
      simp only [FailsFirst, not_forall] at hc
      obtain ⟨⟨job, t⟩, hrun, ht⟩ := hc
      obtain rfl : s' = s.executed job false := by
        simp only [step, Option.mem_def.mp hrun] at h
        split at h
        · exact (Option.some.inj h).symm
        · cases h
      have hout := hs.running_not_mem hrun
      have hprogress : progress deref s job = t := progress_running hs hrun
      refine ⟨job, hs.known job ?_, ?_⟩
      · simp only [held, Option.mem_def.mp hrun, List.mem_append]
        exact .inr (.inl (by simp))
      · have hj := hcov job
        have hzero : progress deref (s.executed job false) job = 0 := if_neg hout
        rw [Repeated, hzero]
        simp only [executed_false]
        omega
  | receive _ => exact absurd trivial hc
  | take => exact absurd trivial hc
  | finish => exact absurd trivial hc

/-! ## Whole runs -/

theorem step_received (h : step deref s a = some s') {j : J} (hj : j ∈ s.received) :
    j ∈ s'.received := by
  rcases step_cases h with ⟨job, -, -, rfl⟩ | ⟨job, jobQueue, -, -, -, rfl⟩ | ⟨job, t, -, -, rfl⟩ |
    ⟨job, t, n, -, -, -, -, rfl⟩ | ⟨job, t, -, -, -, rfl⟩
  · exact List.mem_append_left _ hj
  all_goals exact hj

/-- The law holds all along a run whose writes fail before the first byte of a packet only; a
run that gets through all its jobs obeys the law if and only if it is of that kind. -/
theorem responses_once {acts : List (ResponseAct J)} (hr : run (step deref) init acts = some s) :
    (Meets (step deref) FailsFirst init acts → Always (step deref) (Lawful deref) init acts) ∧
    ((∀ j ∈ s.received, j ∈ s.succeeded) →
      (Always (step deref) (Lawful deref) init acts ↔
        Meets (step deref) FailsFirst init acts)) := by
  have hlaw : Meets (step deref) FailsFirst init acts →
      Always (step deref) (Lawful deref) init acts :=
    always_of_meets (I := fun s => Queued deref s ∧ Sound deref s)
      (fun s h => h.2.lawful h.1)
      (fun s a s' h hc hs => ⟨step_queued h.1 hs, step_sound h.2 h.1 hc hs⟩)
      ⟨queued_init, sound_init⟩
  refine ⟨hlaw, fun hdone => ⟨fun halways => ?_, hlaw⟩⟩
  -- what is written in vain for a job is still there when the job is done
  refine meets_of_unmarked (I := fun s => Queued deref s ∧ Covered deref s)
    (M := fun s => ∃ j ∈ s.received, Repeated deref s j)
    (fun s a s' h hs => ⟨step_queued h.1 hs, step_covered h.1 h.2 hs⟩)
    (fun s a s' h hc hs => ?_) (fun s a s' h hm hs => ?_)
    ⟨queued_init, fun j => Nat.zero_le _⟩ hr ?_
  · obtain ⟨j, hj, hrep⟩ := repeated_of_fails h.1 h.2 hc hs
    exact ⟨j, step_received hs hj, hrep⟩
  · obtain ⟨j, hj, hrep⟩ := hm
    exact ⟨j, step_received hs hj, step_repeated h.1 hrep hs⟩
  · intro hm
    obtain ⟨j, hj, hrep⟩ := hm
    have hdone := hdone j hj
    have hwritten : s.written j = (deref j).packet := (always_last halways hr).2 j hdone
    rw [Repeated, progress, if_pos hdone, hwritten] at hrep
    exact Nat.lt_irrefl _ hrep

/-- Job number 7 of the client on descriptor 5. -/
def echoJob (_ : Nat) : EchoJob := .new 5 7

/-- A job whose first call of `write()` fails, and which is then sent in two calls. -/
def sentInTwo : List (ResponseAct Nat) :=
  [.receive 0, .take, .write none, .take, .write (some 40), .write (some 56), .finish]

theorem sentInTwo_once :
    ∃ s, run (step echoJob) init sentInTwo = some s ∧
      Always (step echoJob) (Lawful echoJob) init sentInTwo := by
  have hsome : (run (step echoJob) init sentInTwo).isSome = true := by decide +kernel
  obtain ⟨s, hr⟩ := Option.isSome_iff_exists.mp hsome
  refine ⟨s, hr, (responses_once hr).1 ?_⟩
  decide +kernel

/-- A job whose second call of `write()` fails, and which is then sent in one. -/
def sentAgain : List (ResponseAct Nat) :=
  [.receive 0, .take, .write (some 40), .write none, .take, .write (some 96), .finish]

/-- The job is reported as done, and 136 bytes have been written for it. -/
theorem response_repeated :
    (run (step echoJob) init sentAgain).map (fun s => (s.succeeded, s.wire 5)) =
        some ([0], (echoJob 0).packet.take 40 ++ (echoJob 0).packet) ∧
      ¬ Always (step echoJob) (Lawful echoJob) init sentAgain := by
  refine ⟨by decide +kernel, fun h => ?_⟩
  have hrun : (run (step echoJob) init sentAgain).map (fun s => (s.succeeded, (s.written 0).length))
      = some ([0], 136) := by decide +kernel
  obtain ⟨s, hr, hs⟩ := Option.map_eq_some_iff.mp hrun
  obtain ⟨hdone, hlen⟩ := Prod.mk.inj hs
  have hwritten := (always_last h hr).2 0 (by rw [hdone]; exact List.mem_singleton_self 0)
  rw [hwritten, EchoJob.packet_length] at hlen
  cases hlen

end Responses

end LinuxServer
