import SocketServerLib.RacingGameServer.TimeBasedThreadPool

/-
  How long the worker of `TimeBasedThreadPool` sleeps: the time point that `wait_until` was
  called with, next to the deadline at the top of the queue.

  `top` is read once, before the wait, and the wait blocks until then however often it is
  notified; a notify only makes it evaluate its predicate, which asks whether the job now at
  the top is due.

  What is proved:
    1. `step_armed` — what every step keeps, if the predicate of the timed wait never finds
       a job on top that is earlier than `top` and not due yet.
    2. `wakes_in_time` — in such runs the worker never sleeps past the deadline on top with
       no notify to come; and wherever the predicate does find such a job, it does.
    3. `sleeps_past` — a job for 50 is enqueued while the worker waits for one at 100.

  What is assumed: what `TimeBasedThreadPool` assumes.
-/
namespace RacingGameServer
open LabelledRun

/-- The pool, and the local `top` of the worker. -/
structure TimedRun (J : Type*) where
  pool : TimeBasedThreadPool J
  top : Nat

/-- The worker has the mutex. -/
def TimedPoint.locked {J : Type*} : TimedPoint J → Bool
  | .predicate | .block | .test | .top | .timedPredicate _ | .timedBlock | .pop
  | .requeuePush _ => true
  | _ => false

/-- The worker sleeps in the timed wait, or is to. -/
def TimedPoint.sleepy {J : Type*} : TimedPoint J → Bool
  | .timedBlock | .timedBlocked => true
  | _ => false

namespace TimedRun
open TimeBasedThreadPool

variable {J : Type*}

def init : TimedRun J := { pool := .init, top := 0 }

/-- `auto top = q.top().first`. -/
def readTop (r : TimedRun J) : TimedAct J → Nat
  | .worker _ _ =>
    match r.pool.worker, r.pool.q with
    | .top, x :: _ => x.1
    | _, _ => r.top
  | _ => r.top

def step (r : TimedRun J) (a : TimedAct J) : Option (TimedRun J) :=
  (r.pool.step a).map fun pool => { pool := pool, top := r.readTop a }

/-- No job of the queue is earlier than `top`. -/
def NoEarlier (r : TimedRun J) : Prop := ∀ x ∈ r.pool.q.head?, r.top ≤ x.1

/-- No notify is to come. -/
def Unnotified (s : TimeBasedThreadPool J) : Prop := s.toNotify = 0 ∧ s.control ≠ .notifyAll

/-- Asleep with no notify to come, the worker waits for no later time than the deadline on
top. -/
def InTime (r : TimedRun J) : Prop :=
  r.pool.worker = .timedBlocked → Unnotified r.pool → NoEarlier r

/-- Where the predicate of the timed wait is false, no job is earlier than `top`. -/
def FindsNoEarlier (r : TimedRun J) : TimedAct J → Prop
  | .worker now _ =>
    r.pool.worker = .timedPredicate false → r.pool.timedWaitOver now = true ∨ NoEarlier r
  | _ => True

section Decidable

instance (r : TimedRun J) : Decidable (NoEarlier r) := by
  unfold NoEarlier; infer_instance

instance (s : TimeBasedThreadPool J) : Decidable (Unnotified s) := by
  unfold Unnotified; infer_instance

variable [DecidableEq J]

instance (r : TimedRun J) : Decidable (InTime r) := by
  unfold InTime; infer_instance

instance (r : TimedRun J) : DecidablePred (FindsNoEarlier r) := fun a => by
  unfold FindsNoEarlier
  split
  · infer_instance
  · infer_instance

end Decidable

/-! ## What every step keeps -/

/-- The mutex is the worker's where it should be, and a worker that sleeps or is to sleep has
no earlier job before it, or a notify is to come. -/
structure Armed (r : TimedRun J) : Prop where
  holds : r.pool.worker.locked = true → r.pool.mu = some .worker
  ready : r.pool.worker = .timedBlock → NoEarlier r
  asleep : r.pool.worker = .timedBlocked → NoEarlier r ∨ 0 < r.pool.toNotify

variable {r r' : TimedRun J} {a : TimedAct J} {p : TimedPoint J} {s s' : TimeBasedThreadPool J}
  {t : Nat}

theorem armed_of_not_sleepy (hp : r.pool.worker.sleepy = false)
    (hl : r.pool.worker.locked = true → r.pool.mu = some .worker) : Armed r where
  holds := hl
  ready he := by
    rw [he] at hp
    cases hp
  asleep he := by
    rw [he] at hp
    cases hp

theorem armed_init : Armed (init : TimedRun J) :=
  armed_of_not_sleepy rfl fun hl => absurd hl Bool.false_ne_true

theorem armed_goTo (h : Armed r) (hl : r.pool.worker.locked = true ∨ p.locked = false)
    (hp : p.sleepy = false) : Armed { pool := r.pool.goTo p, top := t } := by
  apply armed_of_not_sleepy hp
  intro hlocked
  apply h.holds
  apply hl.resolve_right
  rw [Bool.not_eq_false]
  exact hlocked

theorem armed_acquire (hp : p.sleepy = false) :
    Armed { pool := { s with mu := some .worker, worker := p }, top := t } :=
  armed_of_not_sleepy hp fun _ => rfl

theorem armed_release (hl : p.locked = false) (hp : p.sleepy = false) :
    Armed { pool := s.release p, top := t } := by
  apply armed_of_not_sleepy hp
  intro hlocked
  exact absurd (hl.symm.trans hlocked) Bool.false_ne_true

theorem worker_armed {now : Nat} {ok : Bool} (h : Armed r)
    (hk : FindsNoEarlier r (.worker now ok)) (hs : r.pool.workerStep now ok = some s') :
    Armed { pool := s', top := r.readTop (.worker now ok) } := by
  have hlocked : ∀ {p : TimedPoint J}, r.pool.worker = p → p.locked = true →
      r.pool.worker.locked = true := by
    intro p hp hl
    rw [hp]
    exact hl
  cases workerStep_cases hs with
  | stay hp _ => exact armed_goTo h (.inr rfl) rfl
  | leave hp _ => exact armed_goTo h (.inr rfl) rfl
  | lock hp _ => exact armed_acquire rfl
  | pass hp => exact armed_goTo h (.inl (hlocked hp rfl)) rfl
  | wait hp _ => exact armed_goTo h (.inl (hlocked hp rfl)) rfl
  | block hp => exact armed_release rfl rfl
  | go hp => exact armed_goTo h (.inl (hlocked hp rfl)) rfl
  | quit hp => exact armed_release rfl rfl
  | early hp => exact armed_goTo h (.inl (hlocked hp rfl)) rfl
  | due hp => exact armed_goTo h (.inl (hlocked hp rfl)) rfl
  | timedOver timeout hp => exact armed_release rfl rfl
  | timedWait hp hover =>
    -- the wait goes on, and `top` stays
    have hready := (hk hp).resolve_left (Bool.eq_false_iff.mp hover)
    refine ⟨fun _ => h.holds (hlocked hp rfl), fun _ => ?_, fun he => ?_⟩
    · simp only [readTop, hp]
      exact hready
    · cases he
  | timedBlock hp =>
    refine ⟨fun hl => ?_, fun he => ?_, fun _ => .inl ?_⟩
    · cases hl
    · cases he
    · simp only [readTop, hp]
      exact h.ready hp
  | timedRelock timeout hp _ => exact armed_acquire rfl
  | pop pair q hp _ => exact armed_release rfl rfl
  | again pair hp => exact armed_goTo h (.inr rfl) rfl
  | finish pair hp => exact armed_goTo h (.inr rfl) rfl
  | requeueLock pair hp _ => exact armed_acquire rfl
  | requeue pair hp => exact armed_release rfl rfl
  | drop pair hp => exact armed_release rfl rfl
  | notify hp => exact armed_goTo h (.inr rfl) rfl

theorem wake_locked (p : TimedPoint J) : p.wake.locked = p.locked := by
  cases p <;> rfl

theorem wake_ne_timedBlocked (p : TimedPoint J) : p.wake ≠ .timedBlocked := by
  intro h
  cases p <;> cases h

theorem eq_timedBlock_of_wake (h : p.wake = .timedBlock) : p = .timedBlock := by
  cases p with
  | timedBlock => rfl
  | _ => cases h

/-- Flag, controlling thread and retry delay may change. -/
theorem Armed.same (h : Armed r) (hworker : s.worker = r.pool.worker) (hmu : s.mu = r.pool.mu)
    (hq : s.q = r.pool.q) (hn : s.toNotify = r.pool.toNotify) :
    Armed { pool := s, top := r.top } where
  holds hl := hmu.trans (h.holds (hworker ▸ hl))
  ready he := by
    have hready := h.ready (hworker ▸ he)
    rwa [NoEarlier, ← hq] at hready
  asleep he := by
    have hasleep := h.asleep (hworker ▸ he)
    rwa [NoEarlier, ← hq, ← hn] at hasleep

theorem Armed.wake (h : Armed r) (hworker : s.worker = r.pool.worker.wake)
    (hmu : s.mu = r.pool.mu) (hq : s.q = r.pool.q) : Armed { pool := s, top := r.top } where
  holds hl := by
    refine hmu.trans (h.holds ?_)
    rw [← wake_locked, ← hworker]
    exact hl
  ready he := by
    have hready := h.ready (eq_timedBlock_of_wake (hworker.symm.trans he))
    rwa [NoEarlier, ← hq] at hready
  asleep he := absurd (hworker.symm.trans he) (wake_ne_timedBlocked _)

/-- Where the mutex is not the worker's, it is not to sleep. -/
theorem Armed.not_locked {m : Option TimedHolder} (h : Armed r) (hmu : r.pool.mu = m)
    (hm : m ≠ some .worker) : ¬ r.pool.worker.locked = true :=
  fun hl => hm (hmu.symm.trans (h.holds hl))

theorem control_armed {ok : Bool} (h : Armed r) (hs : r.pool.controlStep ok = some s') :
    Armed { pool := s', top := r.top } := by
  simp only [controlStep] at hs
  split at hs
  · cases hs
  · obtain rfl := Option.some.inj hs
    split
    · exact armed_of_not_sleepy rfl fun hl => absurd hl Bool.false_ne_true
    · exact h.same rfl rfl rfl rfl
  · obtain rfl := Option.some.inj hs
    exact h.wake rfl rfl rfl
  · split at hs
    · obtain rfl := Option.some.inj hs
      exact armed_of_not_sleepy rfl fun hl => absurd hl Bool.false_ne_true
    · obtain rfl := Option.some.inj hs
      exact armed_of_not_sleepy rfl fun hl => absurd hl Bool.false_ne_true
    · cases hs

theorem step_armed (h : Armed r) (hk : FindsNoEarlier r a) (hs : step r a = some r') :
    Armed r' := by
  obtain ⟨pool, hpool, rfl⟩ := Option.map_eq_some_iff.mp hs
  cases a with
  | enqueueLock =>
    simp only [TimeBasedThreadPool.step] at hpool
    split at hpool
    · next hmu =>
      obtain rfl := Option.some.inj hpool
      have hlocked := h.not_locked hmu (by decide)
      exact ⟨fun hl => absurd hl hlocked, h.ready, h.asleep⟩
    · cases hpool
  | enqueuePush tp_ job_ ok =>
    simp only [TimeBasedThreadPool.step] at hpool
    split at hpool
    · next hmu =>
      obtain rfl := Option.some.inj hpool
      have hlocked := h.not_locked hmu (by decide)
      have hholds : r.pool.worker.locked = true → none = some TimedHolder.worker :=
        fun hl => absurd hl hlocked
      have hready : r.pool.worker ≠ .timedBlock := by
        intro he
        rw [he] at hlocked
        exact hlocked rfl
      split
      · -- the job may be an earlier one, but its notify is to come
        exact ⟨hholds, fun he => absurd he hready, fun _ => .inr (Nat.succ_pos _)⟩
      · exact ⟨hholds, fun he => absurd he hready, h.asleep⟩
    · cases hpool
  | enqueueNotify =>
    simp only [TimeBasedThreadPool.step] at hpool
    split at hpool
    · cases hpool
    · obtain rfl := Option.some.inj hpool
      exact h.wake rfl rfl rfl
  | setRetryDelay msdelay_ =>
    obtain rfl := Option.some.inj hpool
    exact h.same rfl rfl rfl rfl
  | worker now ok => exact worker_armed h hk hpool
  | timeout =>
    simp only [TimeBasedThreadPool.step] at hpool
    split at hpool
    · obtain rfl := Option.some.inj hpool
      exact armed_goTo h (.inr rfl) rfl
    · cases hpool
  | start =>
    simp only [TimeBasedThreadPool.step] at hpool
    split at hpool
    · obtain rfl := Option.some.inj hpool
      split
      · exact h
      · exact h.same rfl rfl rfl rfl
    · cases hpool
  | stop =>
    simp only [TimeBasedThreadPool.step] at hpool
    split at hpool
    · obtain rfl := Option.some.inj hpool
      exact h.same rfl rfl rfl rfl
    · cases hpool
  | control ok => exact control_armed h hpool

/-! ## Every run -/

/-- The worker that finds an earlier job on top that is not due goes to sleep with it there. -/
theorem sleeps_of_finds {now : Nat} {ok : Bool} (hn : Unnotified r.pool)
    (hk : ¬ FindsNoEarlier r (.worker now ok)) (now' : Nat) (ok' : Bool) :
    ∃ r', run step r [.worker now ok, .worker now' ok'] = some r' ∧ ¬ InTime r' := by
  simp only [FindsNoEarlier, Classical.not_imp, not_or] at hk
  obtain ⟨hp, hover, hearlier⟩ := hk
  have hfirst : step r (.worker now ok) =
      some { pool := r.pool.goTo .timedBlock, top := r.top } := by
    have hover' : ¬ (r.pool.timedWaitOver now = true ∨ false = true) :=
      not_or.mpr ⟨hover, Bool.false_ne_true⟩
    simp only [step, TimeBasedThreadPool.step, workerStep, readTop, hp, if_neg hover',
      Option.map_some]
  refine ⟨{ pool := (r.pool.goTo .timedBlock).release .timedBlocked, top := r.top }, ?_, ?_⟩
  · rw [run_cons, hfirst]
    rfl
  · exact fun h => hearlier (h rfl hn)

/-- As long as the predicate of the timed wait, where it is false, finds no job on top that
is earlier than the time the worker waits for, the worker never sleeps past the deadline on
top with no notify to come. Where it finds one, the worker is to do just that, unless a
notify is to come. -/
theorem wakes_in_time {acts : List (TimedAct J)} (hr : run step init acts = some r) :
    (Meets step FindsNoEarlier init acts → Always step InTime init acts) ∧
    ∀ now ok now' ok', Unnotified r.pool → ¬ FindsNoEarlier r (.worker now ok) →
      ∃ r', run step init (acts ++ [.worker now ok, .worker now' ok']) = some r' ∧
        ¬ InTime r' := by
  constructor
  · apply always_of_meets _ (fun _ _ _ => step_armed) armed_init
    intro r h hblocked hn
    refine (h.asleep hblocked).resolve_right ?_
    rw [hn.1]
    exact Nat.lt_irrefl 0
  · intro now ok now' ok' hn hk
    obtain ⟨r', hr', hlate⟩ := sleeps_of_finds hn hk now' ok'
    refine ⟨r', ?_, hlate⟩
    rw [run_append, hr]
    exact hr'

/-- `Enqueue` with `tp_`, up to its `notify_one`. -/
def enqueue (tp_ : Nat) : List (TimedAct Unit) :=
  [.enqueueLock, .enqueuePush tp_ () true, .enqueueNotify]

/-- At time 10 the worker takes its next `n` steps. -/
def worker (n : Nat) : List (TimedAct Unit) := List.replicate n (.worker 10 false)

/-- The worker sleeps until 100. -/
def asleep : List (TimedAct Unit) :=
  [.start, .control true] ++ enqueue 100 ++ worker 7

/-- Then a job for 5, which is due and taken; and, asleep again, one for 200. -/
def wokenTwice : List (TimedAct Unit) :=
  asleep ++ enqueue 5 ++ worker 16 ++ enqueue 200 ++ worker 3

theorem wakes_in_time_due : ∃ r : TimedRun Unit,
    run step init wokenTwice = some r ∧ r.pool.worker = .timedBlocked ∧
      Always step InTime init wokenTwice := by
  have hrun : ((run step init wokenTwice).map fun r : TimedRun Unit => r.pool.worker) =
      some .timedBlocked := by decide +kernel
  obtain ⟨r, hr, hworker⟩ := Option.map_eq_some_iff.mp hrun
  exact ⟨r, hr, hworker, (wakes_in_time hr).1 (by decide +kernel)⟩

/-- Asleep until 100, and then a job for 50: the worker is notified, finds it not due, and goes
to sleep again until 100. -/
theorem sleeps_past :
    ¬ ∀ (acts : List (TimedAct Unit)) (r : TimedRun Unit),
      run step init acts = some r → InTime r := by
  intro h
  have hrun : ((run step init (asleep ++ enqueue 50 ++ worker 3)).map
      fun r : TimedRun Unit => decide (InTime r)) = some false := by decide +kernel
  obtain ⟨r, hr, hlate⟩ := Option.map_eq_some_iff.mp hrun
  exact of_decide_eq_false hlate (h _ r hr)

end TimedRun

end RacingGameServer
