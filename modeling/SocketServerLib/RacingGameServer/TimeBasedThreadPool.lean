import SocketServerLib.Lib.LabelledRun

/-
  `TimeBasedThreadPool`: one worker on a priority queue, a mutex and a condition variable;
  `Enqueue` by any other threads, `Start` and `Stop` by one controlling thread.

  What is done under the mutex in one go is one step; `m_IsRun` is read and written without
  it, so each access to it is a step of its own. `cv.wait` evaluates its predicate under the
  mutex and then, if it is false, releases the mutex and blocks in one step; a notify wakes
  the worker only if it is blocked. Time points are numbers, and the clock may answer
  anything.

  What is proved:
    1. `workerStep_cases` — what the worker does next, with where it stands.
    2. `step_heard` — what every step keeps, if `notify_all` is not issued between the
       evaluation of the untimed wait's predicate and the block.
    3. `stop_reaches_worker` — in such runs `Stop` never joins a worker that is blocked in
       the untimed wait.
    4. `notify_missed` — in every state in which it is issued there, it is missed.

  What is assumed: `Start` and `Stop` are called by one thread, the accesses to `m_IsRun` and the
  mutex are seen in one order, and a blocked worker is woken by a notify, or by the time, only.
-/
namespace RacingGameServer
open LabelledRun

/-- Where the worker stands in `WorkerThread`; `absent` where no thread was started. The
points from `block` to `relock` are in `cv.wait`, those with `timed` in `cv.wait_until`,
those with `requeue` in `Requeue`. -/
inductive TimedPoint (J : Type*) where
  | absent
  | loop
  | lock
  | predicate
  | block
  | blocked
  | relock
  | test
  | top
  | timedPredicate (timeout : Bool)
  | timedBlock
  | timedBlocked
  | timedRelock (timeout : Bool)
  | pop
  | execute (pair : Nat × J)
  | requeueLock (pair : Nat × J)
  | requeuePush (pair : Nat × J)
  | requeueNotify
  | returned
  deriving DecidableEq

/-- Where the controlling thread stands in `Start` and `Stop`. -/
inductive TimedControl where
  | idle
  | create
  | notifyAll
  | join
  deriving DecidableEq

/-- Who holds the mutex. -/
inductive TimedHolder where
  | worker
  | caller
  deriving DecidableEq

/-- `toNotify` is the number of calls of `Enqueue` that have released the mutex and are to
call `notify_one`. -/
structure TimeBasedThreadPool (J : Type*) where
  q : List (Nat × J)
  mu : Option TimedHolder
  isRun : Bool
  retryDelay : Nat
  worker : TimedPoint J
  control : TimedControl
  toNotify : Nat

/-- `ok` is the answer of the allocation, of the thread creation, or of the job (not
finished); `now` is what the clock says. -/
inductive TimedAct (J : Type*) where
  | enqueueLock
  | enqueuePush (tp_ : Nat) (job_ : J) (ok : Bool)
  | enqueueNotify
  | setRetryDelay (msdelay_ : Nat)
  | worker (now : Nat) (ok : Bool)
  | timeout
  | start
  | stop
  | control (ok : Bool)

/-- What a notify does to the worker. -/
def TimedPoint.wake {J : Type*} : TimedPoint J → TimedPoint J
  | .blocked => .relock
  | .timedBlocked => .timedRelock false
  | p => p

namespace TimeBasedThreadPool

variable {J : Type*}

def init : TimeBasedThreadPool J :=
  { q := [], mu := none, isRun := false, retryDelay := 0, worker := .absent, control := .idle
    toNotify := 0 }

/-- `q.push`: the queue is ordered by time point. -/
def insert (pair : Nat × J) : List (Nat × J) → List (Nat × J)
  | [] => [pair]
  | x :: q => if pair.1 < x.1 then pair :: x :: q else x :: insert pair q

def goTo (s : TimeBasedThreadPool J) (p : TimedPoint J) : TimeBasedThreadPool J :=
  { s with worker := p }

/-- The worker takes the mutex, if it is free. -/
def acquire (s : TimeBasedThreadPool J) (p : TimedPoint J) : Option (TimeBasedThreadPool J) :=
  match s.mu with
  | none => some { s with mu := some .worker, worker := p }
  | some _ => none

/-- The worker lets go of the mutex. -/
def release (s : TimeBasedThreadPool J) (p : TimedPoint J) : TimeBasedThreadPool J :=
  { s with mu := none, worker := p }

/-- The predicate of `cv.wait`. -/
def waitOver (s : TimeBasedThreadPool J) : Bool := !s.q.isEmpty || !s.isRun

/-- The predicate of `cv.wait_until`. -/
def timedWaitOver (s : TimeBasedThreadPool J) (now : Nat) : Bool :=
  (match s.q with
    | [] => false
    | x :: _ => decide (x.1 ≤ now)) || !s.isRun

/-- The next step of the worker. -/
def workerStep (s : TimeBasedThreadPool J) (now : Nat) (ok : Bool) :
    Option (TimeBasedThreadPool J) :=
  match s.worker with
  | .absent | .blocked | .timedBlocked | .returned => none
  | .loop => some (s.goTo (if s.isRun = true then .lock else .returned))
  | .lock => s.acquire .predicate
  | .predicate => some (s.goTo (if s.waitOver = true then .test else .block))
  | .block => some (s.release .blocked)
  | .relock => s.acquire .predicate
  | .test => some (if s.isRun = true then s.goTo .top else s.release .returned)
  | .top =>
    match s.q with
    | [] => none
    | x :: _ => some (s.goTo (if x.1 > now then .timedPredicate false else .pop))
  | .timedPredicate timeout =>
    -- after a timeout the wait is over, whatever the predicate says
    some (if s.timedWaitOver now = true ∨ timeout = true then s.release .loop
      else s.goTo .timedBlock)
  | .timedBlock => some (s.release .timedBlocked)
  | .timedRelock timeout => s.acquire (.timedPredicate timeout)
  | .pop =>
    match s.q with
    | [] => none
    | pair :: q => some ({ s with q := q }.release (.execute pair))
  | .execute pair =>
    some (s.goTo (if ok = true then .requeueLock (pair.1 + s.retryDelay, pair.2) else .loop))
  | .requeueLock pair => s.acquire (.requeuePush pair)
  | .requeuePush pair =>
    some (if ok = true then { s with q := insert pair s.q }.release .requeueNotify
      else s.release .loop)
  -- nobody but the worker waits on the condition variable
  | .requeueNotify => some (s.goTo .loop)

/-- The next step of the controlling thread in `Start` or `Stop`. -/
def controlStep (s : TimeBasedThreadPool J) (ok : Bool) : Option (TimeBasedThreadPool J) :=
  match s.control with
  | .idle => none
  | .create =>
    some (if ok = true then { s with worker := .loop, control := .idle }
      else { s with isRun := false, control := .idle })
  | .notifyAll => some { s with worker := s.worker.wake, control := .join }
  | .join =>
    match s.worker with
    | .absent | .returned => some { s with worker := .absent, control := .idle }
    | _ => none

def step (s : TimeBasedThreadPool J) : TimedAct J → Option (TimeBasedThreadPool J)
  | .enqueueLock =>
    match s.mu with
    | none => some { s with mu := some .caller }
    | some _ => none
  | .enqueuePush tp_ job_ ok =>
    match s.mu with
    | some .caller =>
      some (if ok = true then
          { s with q := insert (tp_, job_) s.q, mu := none, toNotify := s.toNotify + 1 }
        else { s with mu := none })
    | _ => none
  | .enqueueNotify =>
    if s.toNotify = 0 then none
    else some { s with worker := s.worker.wake, toNotify := s.toNotify - 1 }
  | .setRetryDelay msdelay_ => some { s with retryDelay := msdelay_ }
  | .worker now ok => s.workerStep now ok
  | .timeout =>
    match s.worker with
    | .timedBlocked => some (s.goTo (.timedRelock true))
    | _ => none
  | .start =>
    match s.control with
    | .idle =>
      some (if s.isRun = true then s else { s with isRun := true, control := .create })
    | _ => none
  | .stop =>
    match s.control with
    | .idle => some { s with isRun := false, control := .notifyAll }
    | _ => none
  | .control ok => s.controlStep ok

/-- `Stop` has issued its `notify_all` and joins, and the worker is blocked. -/
def Missed (s : TimeBasedThreadPool J) : Prop := s.control = .join ∧ s.worker = .blocked

/-- `notify_all` is not issued where the predicate of the untimed wait has been evaluated to
false and the worker is to block. -/
def Heard (s : TimeBasedThreadPool J) : TimedAct J → Prop
  | .control _ => s.control = .notifyAll → s.worker ≠ .block
  | _ => True

/-! ## The steps of the worker -/

/-- What the worker does next, and where it stands when it does. -/
inductive TimedMove (s : TimeBasedThreadPool J) (now : Nat) : TimeBasedThreadPool J → Prop where
  | stay (hp : s.worker = .loop) (hrun : s.isRun = true) : TimedMove s now (s.goTo .lock)
  | leave (hp : s.worker = .loop) (hrun : s.isRun = false) : TimedMove s now (s.goTo .returned)
  | lock (hp : s.worker = .lock ∨ s.worker = .relock) (hmu : s.mu = none) :
    TimedMove s now { s with mu := some .worker, worker := .predicate }
  | pass (hp : s.worker = .predicate) : TimedMove s now (s.goTo .test)
  | wait (hp : s.worker = .predicate) (hover : s.waitOver = false) :
    TimedMove s now (s.goTo .block)
  | block (hp : s.worker = .block) : TimedMove s now (s.release .blocked)
  | go (hp : s.worker = .test) : TimedMove s now (s.goTo .top)
  | quit (hp : s.worker = .test) : TimedMove s now (s.release .returned)
  | early (hp : s.worker = .top) : TimedMove s now (s.goTo (.timedPredicate false))
  | due (hp : s.worker = .top) : TimedMove s now (s.goTo .pop)
  | timedOver (timeout : Bool) (hp : s.worker = .timedPredicate timeout) :
    TimedMove s now (s.release .loop)
  | timedWait (hp : s.worker = .timedPredicate false) (hover : s.timedWaitOver now = false) :
    TimedMove s now (s.goTo .timedBlock)
  | timedBlock (hp : s.worker = .timedBlock) : TimedMove s now (s.release .timedBlocked)
  | timedRelock (timeout : Bool) (hp : s.worker = .timedRelock timeout) (hmu : s.mu = none) :
    TimedMove s now { s with mu := some .worker, worker := .timedPredicate timeout }
  | pop (pair : Nat × J) (q : List (Nat × J)) (hp : s.worker = .pop) (hq : s.q = pair :: q) :
    TimedMove s now ({ s with q := q }.release (.execute pair))
  | again (pair : Nat × J) (hp : s.worker = .execute pair) :
    TimedMove s now (s.goTo (.requeueLock (pair.1 + s.retryDelay, pair.2)))
  | finish (pair : Nat × J) (hp : s.worker = .execute pair) : TimedMove s now (s.goTo .loop)
  | requeueLock (pair : Nat × J) (hp : s.worker = .requeueLock pair) (hmu : s.mu = none) :
    TimedMove s now { s with mu := some .worker, worker := .requeuePush pair }
  | requeue (pair : Nat × J) (hp : s.worker = .requeuePush pair) :
    TimedMove s now ({ s with q := insert pair s.q }.release .requeueNotify)
  | drop (pair : Nat × J) (hp : s.worker = .requeuePush pair) : TimedMove s now (s.release .loop)
  | notify (hp : s.worker = .requeueNotify) : TimedMove s now (s.goTo .loop)

variable {s s' : TimeBasedThreadPool J}

theorem acquire_eq_some {p : TimedPoint J} (hs : s.acquire p = some s') :
    s.mu = none ∧ s' = { s with mu := some .worker, worker := p } := by
  simp only [acquire] at hs
  split at hs
  · next hmu => exact ⟨hmu, (Option.some.inj hs).symm⟩
  · cases hs

theorem workerStep_cases {now : Nat} {ok : Bool} (hs : s.workerStep now ok = some s') :
    TimedMove s now s' := by
  cases hp : s.worker with
  | absent => simp only [workerStep, hp] at hs; cases hs
  | blocked => simp only [workerStep, hp] at hs; cases hs
  | timedBlocked => simp only [workerStep, hp] at hs; cases hs
  | returned => simp only [workerStep, hp] at hs; cases hs
  | loop =>
    simp only [workerStep, hp] at hs
    obtain rfl := Option.some.inj hs
    split
    · next hrun => exact .stay hp hrun
    · next hrun => exact .leave hp (Bool.eq_false_iff.mpr hrun)
  | lock =>
    simp only [workerStep, hp] at hs
    obtain ⟨hmu, rfl⟩ := acquire_eq_some hs
    exact .lock (.inl hp) hmu
  | predicate =>
    simp only [workerStep, hp] at hs
    obtain rfl := Option.some.inj hs
    split
    · exact .pass hp
    · next hover => exact .wait hp (Bool.eq_false_iff.mpr hover)
  | block =>
    simp only [workerStep, hp] at hs
    exact Option.some.inj hs ▸ .block hp
  | relock =>
    simp only [workerStep, hp] at hs
    obtain ⟨hmu, rfl⟩ := acquire_eq_some hs
    exact .lock (.inr hp) hmu
  | test =>
    simp only [workerStep, hp] at hs
    obtain rfl := Option.some.inj hs
    split
    · exact .go hp
    · exact .quit hp
  | top =>
    simp only [workerStep, hp] at hs
    split at hs
    · cases hs
    · obtain rfl := Option.some.inj hs
      split
      · exact .early hp
      · exact .due hp
  | timedPredicate timeout =>
    simp only [workerStep, hp] at hs
    obtain rfl := Option.some.inj hs
    split
    · exact .timedOver timeout hp
    · next hover =>
      obtain ⟨hfalse, htimeout⟩ := not_or.mp hover
      obtain rfl := Bool.eq_false_iff.mpr htimeout
      exact .timedWait hp (Bool.eq_false_iff.mpr hfalse)
  | timedBlock =>
    simp only [workerStep, hp] at hs
    exact Option.some.inj hs ▸ .timedBlock hp
  | timedRelock timeout =>
    simp only [workerStep, hp] at hs
    obtain ⟨hmu, rfl⟩ := acquire_eq_some hs
    exact .timedRelock timeout hp hmu
  | pop =>
    simp only [workerStep, hp] at hs
    split at hs
    · cases hs
    · next pair q hq => exact Option.some.inj hs ▸ .pop pair q hp hq
  | execute pair =>
    simp only [workerStep, hp] at hs
    obtain rfl := Option.some.inj hs
    split
    · exact .again pair hp
    · exact .finish pair hp
  | requeueLock pair =>
    simp only [workerStep, hp] at hs
    obtain ⟨hmu, rfl⟩ := acquire_eq_some hs
    exact .requeueLock pair hp hmu
  | requeuePush pair =>
    simp only [workerStep, hp] at hs
    obtain rfl := Option.some.inj hs
    split
    · exact .requeue pair hp
    · exact .drop pair hp
  | requeueNotify =>
    simp only [workerStep, hp] at hs
    exact Option.some.inj hs ▸ .notify hp

/-! ## What every step keeps -/

/-- From the `notify_all` on, the worker is neither blocked nor about to block. -/
structure Leaving (s : TimeBasedThreadPool J) : Prop where
  stopped : s.control = .notifyAll ∨ s.control = .join → s.isRun = false
  awake : s.control = .join → s.worker ≠ .block ∧ s.worker ≠ .blocked

theorem leaving_init : Leaving (init : TimeBasedThreadPool J) where
  stopped h := by obtain h | h := h <;> cases h
  awake h := by cases h

/-- A step that leaves flag and controlling thread alone and does not make the worker block. -/
theorem Leaving.move (h : Leaving s) (hrun : s'.isRun = s.isRun)
    (hcontrol : s'.control = s.control)
    (hpoint : s.isRun = false → s.worker ≠ .block → s.worker ≠ .blocked →
      s'.worker ≠ .block ∧ s'.worker ≠ .blocked) : Leaving s' where
  stopped hc := by
    rw [hrun]
    apply h.stopped
    rwa [hcontrol] at hc
  awake hc := by
    rw [hcontrol] at hc
    have hawake := h.awake hc
    exact hpoint (h.stopped (.inr hc)) hawake.1 hawake.2

theorem wake_ne (p : TimedPoint J) (hp : p ≠ .block) : p.wake ≠ .block ∧ p.wake ≠ .blocked := by
  cases p with
  | block => exact absurd rfl hp
  | _ => exact ⟨nofun, nofun⟩

/-- While the flag is false, the worker gets past the predicate without blocking. -/
theorem Leaving.workerStep {now : Nat} {ok : Bool} (h : Leaving s)
    (hs : s.workerStep now ok = some s') : Leaving s' := by
  cases workerStep_cases hs with
  | wait hp hover =>
    refine h.move rfl rfl fun hrun _ _ => ?_
    rw [waitOver, hrun, Bool.not_false, Bool.or_true] at hover
    cases hover
  | block hp => exact h.move rfl rfl fun _ hblock _ => absurd hp hblock
  | _ => exact h.move rfl rfl fun _ _ _ => ⟨nofun, nofun⟩

theorem Leaving.controlStep {ok : Bool} (h : Leaving s)
    (hheard : s.control = .notifyAll → s.worker ≠ .block) (hs : s.controlStep ok = some s') :
    Leaving s' := by
  simp only [TimeBasedThreadPool.controlStep] at hs
  split at hs
  · cases hs
  · obtain rfl := Option.some.inj hs
    split
    · exact ⟨nofun, nofun⟩
    · exact ⟨nofun, nofun⟩
  · next hc =>
    obtain rfl := Option.some.inj hs
    exact ⟨fun _ => h.stopped (.inl hc), fun _ => wake_ne _ (hheard hc)⟩
  · split at hs
    · obtain rfl := Option.some.inj hs
      exact ⟨nofun, nofun⟩
    · obtain rfl := Option.some.inj hs
      exact ⟨nofun, nofun⟩
    · cases hs

theorem step_heard {a : TimedAct J} (h : Leaving s) (ha : Heard s a) (hs : step s a = some s') :
    Leaving s' := by
  cases a with
  | enqueueLock =>
    simp only [step] at hs
    split at hs
    · obtain rfl := Option.some.inj hs
      exact h.move rfl rfl fun _ hblock hblocked => ⟨hblock, hblocked⟩
    · cases hs
  | enqueuePush tp_ job_ ok =>
    simp only [step] at hs
    split at hs
    · obtain rfl := Option.some.inj hs
      split
      · exact h.move rfl rfl fun _ hblock hblocked => ⟨hblock, hblocked⟩
      · exact h.move rfl rfl fun _ hblock hblocked => ⟨hblock, hblocked⟩
    · cases hs
  | enqueueNotify =>
    simp only [step] at hs
    split at hs
    · cases hs
    · obtain rfl := Option.some.inj hs
      exact h.move rfl rfl fun _ hblock _ => wake_ne _ hblock
  | setRetryDelay msdelay_ =>
    obtain rfl := Option.some.inj hs
    exact h.move rfl rfl fun _ hblock hblocked => ⟨hblock, hblocked⟩
  | worker now ok => exact h.workerStep hs
  | timeout =>
    simp only [step] at hs
    split at hs
    · obtain rfl := Option.some.inj hs
      exact h.move rfl rfl fun _ _ _ => ⟨nofun, nofun⟩
    · cases hs
  | start =>
    simp only [step] at hs
    split at hs
    · obtain rfl := Option.some.inj hs
      split
      · exact h
      · exact ⟨nofun, nofun⟩
    · cases hs
  | stop =>
    simp only [step] at hs
    split at hs
    · obtain rfl := Option.some.inj hs
      exact ⟨fun _ => rfl, nofun⟩
    · cases hs
  | control ok => exact h.controlStep ha hs

/-! ## Every run -/

/-- `Stop` does not join a worker that is blocked in the untimed wait. -/
theorem stop_reaches_worker {acts : List (TimedAct J)} (ha : Meets step Heard init acts)
    (hr : run step init acts = some s) : ¬ Missed s := by
  have h : Leaving s := run_invariant (fun _ _ _ h ha hs => step_heard h ha hs) leaving_init ha hr
  intro hm
  exact (h.awake hm.1).2 hm.2

/-- A `notify_all` issued before the worker blocks is missed. -/
theorem notify_missed (hc : s.control = .notifyAll) (hp : s.worker = .block) (ok : Bool)
    (now : Nat) : ∃ s', run step s [.control ok, .worker now ok] = some s' ∧ Missed s' := by
  have hstop : step s (.control ok) = some { s with worker := .block, control := .join } := by
    simp only [step, TimeBasedThreadPool.controlStep, hc, hp, TimedPoint.wake]
  refine ⟨{ s with worker := .blocked, mu := none, control := .join }, ?_, rfl, rfl⟩
  rw [run_cons, hstop]
  rfl

instance (s : TimeBasedThreadPool Unit) : Decidable (Missed s) := by
  unfold Missed; infer_instance

instance (s : TimeBasedThreadPool Unit) : DecidablePred (Heard s) := fun a => by
  unfold Heard
  split <;> infer_instance

/-- The worker is started and takes its first `n` steps, and `Stop` begins. -/
def stopAfter (n : Nat) : List (TimedAct Unit) :=
  [.start, .control true] ++ List.replicate n (.worker 0 false) ++ [.stop]

/-- The worker is blocked when `notify_all` is issued, and returns. -/
theorem stop_reaches_worker_blocked : ∃ s : TimeBasedThreadPool Unit,
    run step init (stopAfter 4 ++ .control true :: List.replicate 3 (.worker 0 false)) = some s ∧
      ¬ Missed s ∧ s.worker = .returned := by
  have hrun : ((run step init (stopAfter 4 ++ .control true ::
      List.replicate 3 (.worker 0 false))).map fun s : TimeBasedThreadPool Unit => s.worker) =
      some .returned := by decide +kernel
  obtain ⟨s, hs, hworker⟩ := Option.map_eq_some_iff.mp hrun
  exact ⟨s, hs, stop_reaches_worker (by decide +kernel) hs, hworker⟩

/-- The worker has found the queue empty and the flag true, and is to block, when `Stop` clears
the flag and notifies: it blocks, and the join waits for it. -/
theorem joined_while_blocked :
    ¬ ∀ (acts : List (TimedAct Unit)) (s : TimeBasedThreadPool Unit),
      run step init acts = some s → ¬ Missed s := by
  intro h
  have hrun : ((run step init (stopAfter 3 ++ [.control true, .worker 0 false])).map
      fun s : TimeBasedThreadPool Unit => decide (Missed s)) = some true := by decide +kernel
  obtain ⟨s, hs, hmissed⟩ := Option.map_eq_some_iff.mp hrun
  exact h _ s hs (of_decide_eq_true hmissed)

end TimeBasedThreadPool

end RacingGameServer
