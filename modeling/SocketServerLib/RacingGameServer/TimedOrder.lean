import Mathlib.Data.List.Perm.Basic
import SocketServerLib.RacingGameServer.TimedDeadline

/-
  The order in which `TimeBasedThreadPool` takes its jobs, and what becomes of each.

  A ledger is kept next to the pool: the jobs enqueued and those finished, the deadline and job
  of every one that is not finished, and what every pop took, when, and what it left in the
  queue. A deadline is the one that was given to `Enqueue`, plus `m_retry_delay` for each time
  the job has returned `NOT_FINISHED`. Time points and delays are natural numbers. The list of
  the pool is ordered by `JobCmp`, which says nothing of two jobs with one deadline; so
  `rearrange` may put any ordered arrangement in its place, between any two steps.

  What is proved:
    1. `rearrange_top` — what `top()` of a priority queue may be is at the head of some
       arrangement.
    2. `step_kept` — what every step keeps.
    3. `earliest_due_first` — in every run each pop takes an entry that is due, and none that it
       leaves is earlier; and in every state the entries in the queue and in the hand of the
       worker are those not finished, with their deadlines, and these and the finished ones are
       the jobs enqueued, each as often as it was.

  What is assumed: what `TimeBasedThreadPool` assumes; the clock does not go back, and allocations
  succeed.
-/
namespace RacingGameServer
open LabelledRun

/-- `JobCmp`: `a` comes out after `b`. -/
def jobCmp {J : Type*} (a b : Nat × J) : Bool := decide (a.1 > b.1)

/-- No entry comes out after one that is behind it. -/
def JobOrdered {J : Type*} (q : List (Nat × J)) : Prop := q.Pairwise fun a b => jobCmp a b = false

instance {J : Type*} (q : List (Nat × J)) : Decidable (JobOrdered q) :=
  inferInstanceAs (Decidable (List.Pairwise _ _))

/-- The local `pair` of `WorkerThread`, while its job is not finished and not in the queue. -/
def TimedPoint.hand {J : Type*} : TimedPoint J → List (Nat × J)
  | .execute pair | .requeueLock pair | .requeuePush pair => [pair]
  | _ => []

/-- The next step pushes `pair` back. -/
def TimedPoint.pushes {J : Type*} : TimedPoint J → Bool
  | .requeuePush _ => true
  | _ => false

/-- One `q.pop()`: the entry, the clock, and the queue after it. -/
structure TimedPop (J : Type*) where
  pair : Nat × J
  clock : Nat
  left : List (Nat × J)

structure TimedLedger (J : Type*) where
  pool : TimeBasedThreadPool J
  clock : Nat
  enqueued : List J
  unfinished : List (Nat × J)
  finished : List J
  pops : List (TimedPop J)

inductive LedgerAct (J : Type*) where
  | pool (a : TimedAct J)
  | rearrange (q : List (Nat × J))

namespace TimedLedger
open TimeBasedThreadPool

variable {J : Type*}

def init : TimedLedger J :=
  { pool := .init, clock := 0, enqueued := [], unfinished := [], finished := [], pops := [] }

/-- The clock does not go back, and allocations succeed. -/
def Allowed (r : TimedLedger J) : TimedAct J → Prop
  | .enqueuePush _ _ ok => ok = true
  | .worker now ok => r.clock ≤ now ∧ (r.pool.worker.pushes = true → ok = true)
  | _ => True

instance (r : TimedLedger J) : DecidablePred r.Allowed
  | .enqueuePush _ _ ok => inferInstanceAs (Decidable (ok = true))
  | .worker now _ => inferInstanceAs (Decidable (r.clock ≤ now ∧ (_ → _)))
  | .enqueueLock | .enqueueNotify | .setRetryDelay _ | .timeout | .start | .stop | .control _ =>
    .isTrue trivial

section Step

variable [DecidableEq J]

/-- The entries the worker makes: a pop, and what the job it has in hand answers. -/
def bookWorker (r : TimedLedger J) (ok : Bool) : TimedPoint J → TimedLedger J
  | .pop =>
    match r.pool.q with
    | [] => r
    | pair :: q => { r with pops := r.pops ++ [{ pair := pair, clock := r.clock, left := q }] }
  | .execute pair =>
    if ok = true then
      { r with
        unfinished := (pair.1 + r.pool.retryDelay, pair.2) :: r.unfinished.erase pair }
    else
      { r with unfinished := r.unfinished.erase pair, finished := r.finished ++ [pair.2] }
  | _ => r

def book (r : TimedLedger J) : TimedAct J → TimedLedger J
  | .enqueuePush tp_ job_ _ =>
    { r with enqueued := r.enqueued ++ [job_], unfinished := (tp_, job_) :: r.unfinished }
  | .worker now ok => { r with clock := now }.bookWorker ok r.pool.worker
  | _ => r

def step (r : TimedLedger J) : LedgerAct J → Option (TimedLedger J)
  | .pool a =>
    if r.Allowed a then (r.pool.step a).map fun pool => { r.book a with pool := pool } else none
  | .rearrange q =>
    if q.Perm r.pool.q ∧ JobOrdered q then some { r with pool := { r.pool with q := q } } else none

end Step

/-- Each pop took an entry that was due, and none of those it left is earlier. -/
def DueFirst (r : TimedLedger J) : Prop :=
  ∀ p ∈ r.pops, p.pair.1 ≤ p.clock ∧ ∀ x ∈ p.left, p.pair.1 ≤ x.1

/-- Every job that was enqueued is finished, or it is once in the queue or in the worker's hand,
with its deadline. -/
structure Accounted (r : TimedLedger J) : Prop where
  entries : (r.pool.q ++ r.pool.worker.hand).Perm r.unfinished
  jobs : (r.unfinished.map Prod.snd ++ r.finished).Perm r.enqueued

variable {r r' : TimedLedger J} {s s' : TimeBasedThreadPool J} {q : List (Nat × J)}
  {pair : Nat × J}

/-! ## The queue -/

theorem jobCmp_eq_false {a b : Nat × J} : jobCmp a b = false ↔ a.1 ≤ b.1 := by
  rw [jobCmp, decide_eq_false_iff_not, Nat.not_lt]

theorem insert_perm (pair : Nat × J) (q : List (Nat × J)) :
    (TimeBasedThreadPool.insert pair q).Perm (pair :: q) := by
  induction q with
  | nil => exact List.Perm.refl _
  | cons x q ih =>
    simp only [TimeBasedThreadPool.insert]
    split
    · exact List.Perm.refl _
    · exact (ih.cons x).trans (List.Perm.swap pair x q)

theorem insert_ordered (h : JobOrdered q) :
    JobOrdered (TimeBasedThreadPool.insert pair q) := by
  induction q with
  | nil => exact List.pairwise_singleton _ _
  | cons x q ih =>
    obtain ⟨hx, hq⟩ := List.pairwise_cons.mp h
    simp only [TimeBasedThreadPool.insert]
    split
    · next hlt =>
      refine List.pairwise_cons.mpr ⟨fun y hy => ?_, h⟩
      rw [jobCmp_eq_false]
      rcases List.mem_cons.mp hy with rfl | hy
      · exact Nat.le_of_lt hlt
      · exact Nat.le_trans (Nat.le_of_lt hlt) (jobCmp_eq_false.mp (hx y hy))
    · next hge =>
      refine List.pairwise_cons.mpr ⟨fun y hy => ?_, ih hq⟩
      rcases List.mem_cons.mp ((insert_perm pair q).mem_iff.mp hy) with rfl | hy
      · exact jobCmp_eq_false.mpr (Nat.le_of_not_lt hge)
      · exact hx y hy

/-- An entry that comes out after none can be at the head. -/
theorem rearrange_top [DecidableEq J] (hq : JobOrdered r.pool.q) (hmem : pair ∈ r.pool.q)
    (htop : ∀ x ∈ r.pool.q, jobCmp pair x = false) :
    ∃ q, step r (.rearrange (pair :: q)) =
      some { r with pool := { r.pool with q := pair :: q } } := by
  refine ⟨r.pool.q.erase pair, if_pos ⟨(List.perm_cons_erase hmem).symm, ?_⟩⟩
  refine List.pairwise_cons.mpr ⟨fun x hx => htop x (List.mem_of_mem_erase hx), ?_⟩
  exact hq.sublist List.erase_sublist

/-! ## What every step keeps -/

/-- There is no worker before `Start` creates one, and none after `Stop`. -/
structure Controlled (s : TimeBasedThreadPool J) : Prop where
  create : s.control = .create → s.isRun = true ∧ s.worker = .absent
  idle : s.control = .idle → s.isRun = false → s.worker = .absent

structure Kept (r : TimedLedger J) : Prop where
  ordered : JobOrdered r.pool.q
  locked : r.pool.worker.locked = true → r.pool.mu = some .worker
  due : r.pool.worker = .pop → ∀ x ∈ r.pool.q.head?, x.1 ≤ r.clock
  controlled : Controlled r.pool
  dueFirst : DueFirst r
  accounted : Accounted r

theorem kept_init : Kept (init : TimedLedger J) where
  ordered := List.Pairwise.nil
  locked h := absurd h Bool.false_ne_true
  due h := by cases h
  controlled := ⟨nofun, fun _ _ => rfl⟩
  dueFirst := fun _ hp => absurd hp List.not_mem_nil
  accounted := ⟨List.Perm.refl _, List.Perm.refl _⟩

/-- A step that does not touch the queue and the hand. -/
theorem Kept.same (h : Kept r) {t : Nat} (hclock : r.clock ≤ t) (hq : s.q = r.pool.q)
    (hhand : s.worker.hand = r.pool.worker.hand)
    (hlocked : s.worker.locked = true → s.mu = some .worker)
    (hdue : s.worker = .pop → r.pool.worker = .pop ∨ ∀ x ∈ r.pool.q.head?, x.1 ≤ t)
    (hcontrolled : Controlled s) : Kept { r with pool := s, clock := t } where
  ordered := hq ▸ h.ordered
  locked := hlocked
  due hp x hx := by
    have hx' : x ∈ r.pool.q.head? := hq ▸ hx
    rcases hdue hp with hpop | hdue
    · exact Nat.le_trans (h.due hpop x hx') hclock
    · exact hdue x hx'
  controlled := hcontrolled
  dueFirst := h.dueFirst
  accounted := by
    refine ⟨?_, h.accounted.jobs⟩
    show (s.q ++ s.worker.hand).Perm r.unfinished
    rw [hq, hhand]
    exact h.accounted.entries

/-! ## The steps of the worker -/

/-- The next step leaves the queue and the hand alone, and does not read the clock. -/
def quiet : TimedPoint J → Bool
  | .top | .pop | .execute _ | .requeuePush _ => false
  | _ => true

theorem quiet_step {now : Nat} {ok : Bool} (hquiet : quiet s.worker = true)
    (hs : s.workerStep now ok = some s') :
    s'.q = s.q ∧ s'.worker.hand = s.worker.hand ∧ s'.worker ≠ .pop := by
  have hno : ∀ {p : TimedPoint J}, s.worker = p → quiet p = false → False := by
    intro p hp hloud
    rw [hp, hloud] at hquiet
    cases hquiet
  cases workerStep_cases hs with
  | lock hp _ =>
    rcases hp with hp | hp
    · exact ⟨rfl, by rw [hp]; rfl, nofun⟩
    · exact ⟨rfl, by rw [hp]; rfl, nofun⟩
  | early hp => exact (hno hp rfl).elim
  | due hp => exact (hno hp rfl).elim
  | pop pair q hp _ => exact (hno hp rfl).elim
  | again pair hp => exact (hno hp rfl).elim
  | finish pair hp => exact (hno hp rfl).elim
  | requeue pair hp => exact (hno hp rfl).elim
  | drop pair hp => exact (hno hp rfl).elim
  | stay hp _ | leave hp _ | pass hp | wait hp _ | block hp | go hp | quit hp | timedOver _ hp
  | timedWait hp _ | timedBlock hp | timedRelock _ hp _ | requeueLock pair hp _ | notify hp =>
    exact ⟨rfl, by rw [hp]; rfl, nofun⟩

/-- A worker that takes a step is there, and leaves the controlling thread and its flag alone. -/
theorem worker_controlled {now : Nat} {ok : Bool} (h : Controlled s)
    (hs : s.workerStep now ok = some s') : Controlled s' := by
  have hthere : s.worker ≠ .absent := by
    intro habsent
    simp only [workerStep, habsent] at hs
    cases hs
  have hframe : s'.control = s.control ∧ s'.isRun = s.isRun := by
    cases workerStep_cases hs <;> exact ⟨rfl, rfl⟩
  obtain ⟨hcontrol, hrun⟩ := hframe
  refine ⟨fun hc => absurd (h.create (hcontrol ▸ hc)).2 hthere, fun hc hr => ?_⟩
  exact absurd (h.idle (hcontrol ▸ hc) (hrun ▸ hr)) hthere

/-- The worker has the mutex where it should. -/
theorem worker_locked {now : Nat} {ok : Bool}
    (hlocked : s.worker.locked = true → s.mu = some .worker)
    (hs : s.workerStep now ok = some s') : s'.worker.locked = true → s'.mu = some .worker := by
  have hgo : ∀ {p p' : TimedPoint J}, s.worker = p → p.locked = true →
      (s.goTo p').worker.locked = true → (s.goTo p').mu = some .worker := by
    intro p p' hp hl _
    apply hlocked
    rw [hp]
    exact hl
  cases workerStep_cases hs with
  | lock _ _ | timedRelock _ _ _ | requeueLock _ _ _ => exact fun _ => rfl
  | pass hp | wait hp _ | go hp | early hp | due hp | timedWait hp _ => exact hgo hp rfl
  | stay _ _ | leave _ _ | block _ | quit _ | timedOver _ _ | timedBlock _ | pop _ _ _ _ | again _ _
  | finish _ _ | requeue _ _ | drop _ _ | notify _ => exact fun hl => absurd hl Bool.false_ne_true

variable {now : Nat} {ok : Bool}

/-- The worker takes the head of the queue, which was due when it looked. -/
theorem Kept.pop (h : Kept r) (hclock : r.clock ≤ now) (hp : r.pool.worker = .pop)
    (hq : r.pool.q = pair :: q)
    (hc : Controlled ({ r.pool with q := q }.release (.execute pair))) : Kept { r with
      pool := { r.pool with q := q }.release (.execute pair), clock := now
      pops := r.pops ++ [{ pair := pair, clock := now, left := q }] } := by
  have hordered := h.ordered
  rw [hq] at hordered
  obtain ⟨hfirst, hrest⟩ := List.pairwise_cons.mp hordered
  have hdue : pair.1 ≤ r.clock := by
    apply h.due hp
    rw [hq]
    rfl
  refine ⟨hrest, fun hl => absurd hl Bool.false_ne_true, nofun, hc, fun p hmem => ?_,
    ⟨?_, h.accounted.jobs⟩⟩
  · rcases List.mem_append.mp hmem with hmem | hmem
    · exact h.dueFirst p hmem
    · obtain rfl := List.mem_singleton.mp hmem
      exact ⟨Nat.le_trans hdue hclock, fun x hx => jobCmp_eq_false.mp (hfirst x hx)⟩
  · have hentries : (pair :: q ++ []).Perm r.unfinished := by
      have hall := h.accounted.entries
      rwa [hq, hp] at hall
    rw [List.append_nil] at hentries
    exact (List.perm_append_singleton pair q).trans hentries

/-- The entry in hand is pushed. -/
theorem Kept.requeue (h : Kept r) (hp : r.pool.worker = .requeuePush pair)
    (hc : Controlled ({ r.pool with
      q := TimeBasedThreadPool.insert pair r.pool.q }.release .requeueNotify)) : Kept { r with
      pool := { r.pool with
        q := TimeBasedThreadPool.insert pair r.pool.q }.release .requeueNotify
      clock := now } := by
  refine ⟨insert_ordered h.ordered, fun hl => absurd hl Bool.false_ne_true, nofun, hc, h.dueFirst,
    ?_, h.accounted.jobs⟩
  have hentries := h.accounted.entries
  rw [hp] at hentries
  show (TimeBasedThreadPool.insert pair r.pool.q ++ []).Perm r.unfinished
  rw [List.append_nil]
  exact ((insert_perm pair _).trans (List.perm_append_singleton pair _).symm).trans hentries

/-! ## The steps of the others -/

/-- A woken worker is where it was with the queue and the mutex. -/
theorem Kept.wake (h : Kept r) (hq : s.q = r.pool.q) (hmu : s.mu = r.pool.mu)
    (hworker : s.worker = r.pool.worker.wake) (hc : Controlled s) : Kept { r with pool := s } := by
  refine h.same (Nat.le_refl _) hq ?_ (fun hl => ?_) (fun hp => ?_) hc
  · rw [hworker]
    cases r.pool.worker <;> rfl
  · rw [hworker, TimedRun.wake_locked] at hl
    exact hmu.trans (h.locked hl)
  · rw [hworker] at hp
    cases hpoint : r.pool.worker with
    | pop => exact .inl rfl
    | _ =>
      rw [hpoint] at hp
      cases hp

theorem controlled_create (hcontrol : s.control = .create) (hon : s.isRun = true)
    (habsent : s.worker = .absent) : Controlled s := by
  refine ⟨fun _ => ⟨hon, habsent⟩, fun hc => ?_⟩
  rw [hcontrol] at hc
  cases hc

theorem controlled_idle (hcontrol : s.control = .idle)
    (hvacant : s.isRun = false → s.worker = .absent) : Controlled s := by
  refine ⟨fun hc => ?_, fun _ => hvacant⟩
  rw [hcontrol] at hc
  cases hc

/-- `Stop` asks nothing of the worker before it has joined it. -/
theorem controlled_stop (hcontrol : s.control = .notifyAll ∨ s.control = .join) :
    Controlled s := by
  refine ⟨fun hc => ?_, fun hc => ?_⟩
  · rw [hc] at hcontrol
    rcases hcontrol with h | h <;> cases h
  · rw [hc] at hcontrol
    rcases hcontrol with h | h <;> cases h

theorem Controlled.wake (h : Controlled s) (hworker : s'.worker = s.worker.wake)
    (hcontrol : s'.control = s.control) (hrun : s'.isRun = s.isRun) : Controlled s' := by
  refine ⟨fun hc => ?_, fun hc hr => ?_⟩
  · obtain ⟨hon, habsent⟩ := h.create (hcontrol ▸ hc)
    rw [hworker, habsent]
    exact ⟨hrun.trans hon, rfl⟩
  · rw [hworker, h.idle (hcontrol ▸ hc) (hrun ▸ hr)]
    rfl

/-- A step that leaves the worker and the queue alone. -/
theorem Kept.others (h : Kept r) (hq : s.q = r.pool.q) (hworker : s.worker = r.pool.worker)
    (hmu : r.pool.worker.locked = true → s.mu = some .worker) (hc : Controlled s) :
    Kept { r with pool := s } :=
  h.same (Nat.le_refl _) hq (congrArg TimedPoint.hand hworker) (hworker ▸ hmu)
    (fun hp => .inl (hworker ▸ hp)) hc

theorem kept_control (h : Kept r) (hs : r.pool.controlStep ok = some s') :
    Kept { r with pool := s' } := by
  simp only [controlStep] at hs
  split at hs
  · cases hs
  · next hcontrol =>
    obtain ⟨hon, habsent⟩ := h.controlled.create hcontrol
    obtain rfl := Option.some.inj hs
    split
    · -- the thread that is created has nothing in hand
      refine h.same (Nat.le_refl _) rfl (by rw [habsent]; rfl)
        (fun hl => absurd hl Bool.false_ne_true) (fun hp => by cases hp)
        (controlled_idle rfl fun hoff => ?_)
      exact absurd (hon.symm.trans hoff) Bool.true_eq_false.mp
    · exact h.others rfl rfl h.locked (controlled_idle rfl fun _ => habsent)
  · obtain rfl := Option.some.inj hs
    exact h.wake rfl rfl rfl (controlled_stop (.inr rfl))
  · split at hs
    · next hp =>
      obtain rfl := Option.some.inj hs
      exact h.others rfl hp.symm h.locked (controlled_idle rfl fun _ => rfl)
    · next hp =>
      obtain rfl := Option.some.inj hs
      exact h.same (Nat.le_refl _) rfl (by rw [hp]; rfl)
        (fun hl => absurd hl Bool.false_ne_true) (fun hp => by cases hp)
        (controlled_idle rfl fun _ => rfl)
    · cases hs

/-- A worker that waits with a deadline is awake again. -/
theorem Kept.timeout (h : Kept r) (hp : r.pool.worker = .timedBlocked) :
    Kept { r with pool := r.pool.goTo (.timedRelock true) } := by
  have hthere : r.pool.worker ≠ .absent := by
    intro habsent
    rw [hp] at habsent
    cases habsent
  refine h.same (Nat.le_refl _) rfl (by rw [hp]; rfl) (fun hl => absurd hl Bool.false_ne_true)
    (fun hp => by cases hp) ⟨fun hc => ?_, fun hc hr => ?_⟩
  · exact absurd (h.controlled.create hc).2 hthere
  · exact absurd (h.controlled.idle hc hr) hthere

/-- A job is enqueued while the worker does not have the mutex. -/
theorem Kept.enqueue (h : Kept r) (hmu : r.pool.mu = some .caller) (tp_ : Nat) (job_ : J) :
    Kept { r with
      pool := { r.pool with
        q := TimeBasedThreadPool.insert (tp_, job_) r.pool.q, mu := none
        toNotify := r.pool.toNotify + 1 }
      enqueued := r.enqueued ++ [job_], unfinished := (tp_, job_) :: r.unfinished } := by
  have hlocked : ¬ r.pool.worker.locked = true := by
    intro hl
    have hworker := h.locked hl
    rw [hmu] at hworker
    cases hworker
  refine ⟨insert_ordered h.ordered, fun hl => absurd hl hlocked, fun hp => ?_,
    ⟨h.controlled.create, h.controlled.idle⟩, h.dueFirst, ?_, ?_⟩
  · have hpop : r.pool.worker = .pop := hp
    rw [hpop] at hlocked
    exact absurd rfl hlocked
  · have hinsert := (insert_perm (tp_, job_) r.pool.q).append_right r.pool.worker.hand
    exact hinsert.trans (h.accounted.entries.cons _)
  · exact (h.accounted.jobs.cons job_).trans (List.perm_append_singleton job_ _).symm

/-- Entries with one deadline change places. -/
theorem Kept.rearrange (h : Kept r) (hperm : q.Perm r.pool.q) (hq : JobOrdered q) :
    Kept { r with pool := { r.pool with q := q } } := by
  refine ⟨hq, h.locked, fun hp x hx => ?_, ⟨h.controlled.create, h.controlled.idle⟩, h.dueFirst,
    (hperm.append_right _).trans h.accounted.entries, h.accounted.jobs⟩
  -- the new head is not after the old one
  obtain ⟨ys, rfl⟩ := List.head?_eq_some_iff.mp hx
  cases hold : r.pool.q with
  | nil =>
    rw [hold] at hperm
    exact absurd hperm.symm.nil_eq nofun
  | cons y rest =>
    have hy : y.1 ≤ r.clock := by
      apply h.due hp
      rw [hold]
      rfl
    have hmem : y ∈ x :: ys := hperm.symm.mem_iff.mp (hold ▸ List.mem_cons_self)
    rcases List.mem_cons.mp hmem with rfl | hmem
    · exact hy
    · exact Nat.le_trans (jobCmp_eq_false.mp ((List.pairwise_cons.mp hq).1 y hmem)) hy

/-! ## One step -/

section Step

variable [DecidableEq J]

/-- What is not finished but for the entry in hand is in the queue. -/
theorem Accounted.queue (h : Accounted r) (hp : r.pool.worker = .execute pair) :
    pair ∈ r.unfinished ∧ r.pool.q.Perm (r.unfinished.erase pair) := by
  have hperm : (pair :: r.pool.q).Perm r.unfinished := by
    have hentries := h.entries
    rw [hp] at hentries
    exact (List.perm_append_singleton pair r.pool.q).symm.trans hentries
  refine ⟨hperm.mem_iff.mp List.mem_cons_self, ?_⟩
  have herase := hperm.erase pair
  rwa [List.erase_cons_head] at herase

/-- The job in hand is not finished: it has its new deadline. -/
theorem Kept.again (h : Kept r) (hp : r.pool.worker = .execute pair)
    (hc : Controlled (r.pool.goTo (.requeueLock (pair.1 + r.pool.retryDelay, pair.2)))) :
    Kept { r with
      pool := r.pool.goTo (.requeueLock (pair.1 + r.pool.retryDelay, pair.2)), clock := now
      unfinished := (pair.1 + r.pool.retryDelay, pair.2) :: r.unfinished.erase pair } := by
  obtain ⟨hmem, hqueue⟩ := h.accounted.queue hp
  refine ⟨h.ordered, fun hl => absurd hl Bool.false_ne_true, nofun, hc, h.dueFirst, ?_, ?_⟩
  · exact (List.perm_append_singleton _ r.pool.q).trans (hqueue.cons _)
  · have hjobs := ((List.perm_cons_erase hmem).map Prod.snd).append_right r.finished
    exact hjobs.symm.trans h.accounted.jobs

/-- The job in hand is finished. -/
theorem Kept.finish (h : Kept r) (hp : r.pool.worker = .execute pair)
    (hc : Controlled (r.pool.goTo .loop)) : Kept { r with
      pool := r.pool.goTo .loop, clock := now
      unfinished := r.unfinished.erase pair, finished := r.finished ++ [pair.2] } := by
  obtain ⟨hmem, hqueue⟩ := h.accounted.queue hp
  refine ⟨h.ordered, fun hl => absurd hl Bool.false_ne_true, nofun, hc, h.dueFirst, ?_, ?_⟩
  · show (r.pool.q ++ []).Perm (r.unfinished.erase pair)
    rw [List.append_nil]
    exact hqueue
  · have hjobs := ((List.perm_cons_erase hmem).map Prod.snd).append_right r.finished
    refine List.Perm.trans ?_ (hjobs.symm.trans h.accounted.jobs)
    rw [List.map_cons, List.cons_append, ← List.append_assoc]
    exact List.perm_append_singleton pair.2 _

theorem kept_worker (h : Kept r) (hallowed : r.Allowed (.worker now ok))
    (hs : r.pool.workerStep now ok = some s') :
    Kept { r.book (.worker now ok) with pool := s' } := by
  obtain ⟨hclock, hpush⟩ := hallowed
  have hc := worker_controlled h.controlled hs
  have hlocked := worker_locked h.locked hs
  by_cases hquiet : quiet r.pool.worker = true
  · obtain ⟨hq, hhand, hpop⟩ := quiet_step hquiet hs
    have hbook : r.book (.worker now ok) = { r with clock := now } := by
      simp only [book]
      cases hp : r.pool.worker with
      | pop | execute pair =>
        rw [hp] at hquiet
        cases hquiet
      | _ => rfl
    rw [hbook]
    exact h.same hclock hq hhand hlocked (fun hp => absurd hp hpop) hc
  · cases hp : r.pool.worker with
    | top =>
      simp only [workerStep, hp] at hs
      split at hs
      · cases hs
      · next x q hq =>
        obtain rfl := Option.some.inj hs
        simp only [book, hp, bookWorker]
        refine h.same hclock rfl ?_ hlocked (fun hpop => .inr fun y hy => ?_) hc
        · rw [hp]
          split <;> rfl
        · rw [hq] at hy
          obtain rfl := Option.some.inj hy
          split at hpop
          · cases hpop
          · next hdue => exact Nat.le_of_not_lt hdue
    | pop =>
      simp only [workerStep, hp] at hs
      split at hs
      · cases hs
      · next pair q hq =>
        obtain rfl := Option.some.inj hs
        simp only [book, hp, bookWorker, hq]
        exact h.pop hclock hp hq hc
    | execute pair =>
      simp only [workerStep, hp] at hs
      obtain rfl := Option.some.inj hs
      cases ok with
      | true =>
        simp only [book, hp, bookWorker, if_true]
        exact h.again hp hc
      | false =>
        simp only [book, hp, bookWorker, Bool.false_eq_true, if_false]
        exact h.finish hp hc
    | requeuePush pair =>
      obtain rfl := hpush (by rw [hp]; rfl)
      simp only [workerStep, hp, if_true] at hs
      obtain rfl := Option.some.inj hs
      simp only [book, hp, bookWorker]
      exact h.requeue hp hc
    | _ =>
      rw [hp] at hquiet
      exact absurd rfl hquiet

theorem kept_pool {a : TimedAct J} (h : Kept r) (hallowed : r.Allowed a)
    (hs : r.pool.step a = some s') : Kept { r.book a with pool := s' } := by
  cases a with
  | worker now ok => exact kept_worker h hallowed hs
  | control ok => exact kept_control h hs
  | enqueueLock =>
    simp only [TimeBasedThreadPool.step] at hs
    split at hs
    · next hmu =>
      obtain rfl := Option.some.inj hs
      refine h.others rfl rfl (fun hl => ?_) ⟨h.controlled.create, h.controlled.idle⟩
      have hworker := h.locked hl
      rw [hmu] at hworker
      cases hworker
    · cases hs
  | enqueuePush tp_ job_ ok =>
    obtain rfl : ok = true := hallowed
    simp only [TimeBasedThreadPool.step, if_true] at hs
    split at hs
    · next hmu =>
      obtain rfl := Option.some.inj hs
      exact h.enqueue hmu tp_ job_
    · cases hs
  | enqueueNotify =>
    simp only [TimeBasedThreadPool.step] at hs
    split at hs
    · cases hs
    · obtain rfl := Option.some.inj hs
      exact h.wake rfl rfl rfl (h.controlled.wake rfl rfl rfl)
  | setRetryDelay msdelay_ =>
    obtain rfl := Option.some.inj hs
    exact h.others rfl rfl h.locked ⟨h.controlled.create, h.controlled.idle⟩
  | timeout =>
    simp only [TimeBasedThreadPool.step] at hs
    split at hs
    · next hp =>
      obtain rfl := Option.some.inj hs
      exact h.timeout hp
    · cases hs
  | start =>
    simp only [TimeBasedThreadPool.step] at hs
    split at hs
    · next hcontrol =>
      obtain rfl := Option.some.inj hs
      split
      · exact h
      · next hoff =>
        refine h.others rfl rfl h.locked (controlled_create rfl rfl ?_)
        exact h.controlled.idle hcontrol (Bool.eq_false_iff.mpr hoff)
    · cases hs
  | stop =>
    simp only [TimeBasedThreadPool.step] at hs
    split at hs
    · obtain rfl := Option.some.inj hs
      exact h.others rfl rfl h.locked (controlled_stop (.inl rfl))
    · cases hs

theorem step_kept {a : LedgerAct J} (h : Kept r) (hs : step r a = some r') : Kept r' := by
  cases a with
  | rearrange q =>
    simp only [step] at hs
    split at hs
    · next hc =>
      obtain rfl := Option.some.inj hs
      exact h.rearrange hc.1 hc.2
    · cases hs
  | pool a =>
    simp only [step] at hs
    split at hs
    · next hallowed =>
      obtain ⟨pool, hpool, rfl⟩ := Option.map_eq_some_iff.mp hs
      exact kept_pool h hallowed hpool
    · cases hs

/-! ## Every run -/

/-- Pops are in the order of the deadlines and never early, and no job is lost or doubled. -/
theorem earliest_due_first {acts : List (LedgerAct J)} (hr : run step init acts = some r) :
    DueFirst r ∧ Accounted r := by
  have h : Kept r := run_stable (fun _ _ _ h hs => step_kept h hs) kept_init hr
  exact ⟨h.dueFirst, h.accounted⟩

end Step

def enqueueAt (tp_ job_ : Nat) : List (LedgerAct Nat) :=
  [.pool .enqueueLock, .pool (.enqueuePush tp_ job_ true), .pool .enqueueNotify]

def work (n now : Nat) (ok : Bool) : List (LedgerAct Nat) :=
  List.replicate n (.pool (.worker now ok))

/-- Of two jobs for 5, one is not finished at 6; it is in the queue for 9 when the other is. -/
theorem earliest_due_first_retry : ∃ r : TimedLedger Nat,
    run step init ([.pool (.setRetryDelay 4), .pool .start, .pool (.control true)] ++
      enqueueAt 5 1 ++ enqueueAt 5 2 ++ [.rearrange [(5, 2), (5, 1)]] ++ work 10 6 true ++
      work 7 7 false) = some r ∧ r.pool.q = [(9, 2)] ∧ r.finished = [1] ∧ DueFirst r ∧
        Accounted r := by
  have hrun : (run step init ([.pool (.setRetryDelay 4), .pool .start, .pool (.control true)] ++
      enqueueAt 5 1 ++ enqueueAt 5 2 ++ [.rearrange [(5, 2), (5, 1)]] ++ work 10 6 true ++
      work 7 7 false)).map (fun r : TimedLedger Nat => (r.pool.q, r.finished)) =
        some ([(9, 2)], [1]) := by decide +kernel
  obtain ⟨r, hr, hend⟩ := Option.map_eq_some_iff.mp hrun
  obtain ⟨hq, hfinished⟩ := Prod.mk.inj hend
  exact ⟨r, hr, hq, hfinished, earliest_due_first hr⟩

end TimedLedger

end RacingGameServer
