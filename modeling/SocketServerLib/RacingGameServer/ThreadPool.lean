import SocketServerLib.Lib.Counting
import SocketServerLib.Lib.LabelledRun
import Mathlib.Logic.Function.Basic

/-
  `ThreadPool`: the workers, `Enqueue`, and `Start` / `Stop` / `Resize` issued by one
  controlling thread, for any set `W` of threads; `idx` is the index a thread is created
  with.

  Each access to the queue, to `atm`, to `m_thControll` and to a thread is a step of its
  own. A worker in `atomic_wait` evaluates `atm` (`wait`), is blocked (`parked`), or has
  been notified and is to evaluate it again (`woken`). Calls of `Enqueue` by other threads
  are counted by how far they are; a worker that enqueues a `NOT_FINISHED` job again stands
  in the call itself.

  What is proved:
    1. `workerStep_cases`, `controlStep_cases` — what a worker and the controlling thread do
       next.
    2. `step_keeps` — what every step keeps: the counter is at least the jobs queued and
       those taken and not yet counted down, less those pushed and not yet counted; the
       workers a `Resize` waits for do not block; and as long as a worker is blocked,
       enough others are on their way to the queue.
    3. `blocked_worker_idle` — where no `Enqueue` is in progress and the controlling thread
       is idle or joins, a blocked worker is to go on running and has nothing to do.
    4. `parked_in_join` — two jobs and a `Resize` from two threads to one: the worker that
       is waited for blocks.

  What is assumed: `Start`, `Stop` and `Resize` are called by one thread, the accesses are seen in
  one order, and a blocked worker is woken by a notify only.
-/
namespace RacingGameServer
open LabelledRun Counting

/-- Where a thread stands in `WorkerThread`; `absent` before it is created. A job taken from
the queue is held in `func`. From `push` to `notify` it is in `Enqueue`. -/
inductive PoolPoint (J : Type*) where
  | absent
  | check
  | tryPop
  | decrement (func : J)
  | execute (func : J)
  | push (func : J)
  | increment
  | notify
  | wait
  | parked
  | woken
  | returned
  deriving DecidableEq

/-- Where the controlling thread stands in `Resize`, with its locals: `prev`, the argument
`n` and the index of its loop. `undo` is the loop of the `system_error` handler. -/
inductive PoolControl where
  | idle
  | create (prev i n : Nat)
  | undo (i : Nat)
  | store (n : Nat)
  | write (prev n : Nat)
  | notifyAll (prev n : Nat)
  | join (prev i n : Nat)
  deriving DecidableEq

/-- `pushed` and `counted` are the calls of `Enqueue` by other threads that have pushed, and
that have counted up too. A thread of `ths` that was joined is `none`. -/
structure ThreadPool (W J : Type*) where
  q : List J
  atm : Int
  thControll : Nat
  ths : List (Option W)
  control : PoolControl
  point : W → PoolPoint J
  pushed : Nat
  counted : Nat

inductive PoolCall where
  | start (uThreadCount_ : Nat)
  | stop
  | resize (uThreadCount_ : Nat)

/-- `v` is the thread that `notify_one` wakes, `none` where none is blocked. A worker's step
has the answer `ok` of the job (not finished) or of the allocation in `push`. -/
inductive PoolAct (W J : Type*) where
  | push (func : J)
  | increment
  | notifyOne (v : Option W)
  | worker (w : W) (ok : Bool) (v : Option W)
  | call (c : PoolCall)
  | create (w : W)
  | createFails (bSystemError_ : Bool)
  | control

/-- The count with which a call gets to `Resize`. -/
def PoolCall.target (thControll : Nat) : PoolCall → Option Nat
  | .start n => if n = 0 then none else some n
  | .stop => if thControll = 0 then none else some 0
  | .resize n => some n

namespace PoolPoint

variable {J : Type*}

/-- What `notify_all` does to a thread. -/
def notified : PoolPoint J → PoolPoint J
  | .parked => .woken
  | p => p

def live : PoolPoint J → Bool
  | .absent | .returned => false
  | _ => true

/-- Blocked in `atomic_wait`, and not notified. -/
def blocked : PoolPoint J → Bool
  | .parked => true
  | _ => false

theorem blocked_notified (p : PoolPoint J) : p.notified.blocked = false := by
  cases p <;> rfl

@[simp] theorem live_notified (p : PoolPoint J) : p.notified.live = p.live := by
  cases p <;> rfl

theorem eq_parked {p : PoolPoint J} (h : p.blocked = true) : p = .parked := by
  cases p with
  | parked => rfl
  | _ => cases h

/-- Awake, and to try the queue before it blocks. -/
def looking : PoolPoint J → Bool
  | .check | .tryPop | .wait | .woken => true
  | _ => false

/-- Between the test of the index and the end of `atomic_wait`. -/
def waiting : PoolPoint J → Bool
  | .tryPop | .wait | .parked | .woken => true
  | _ => false

/-- A job has been taken and `atm--` is to come. -/
def popped : PoolPoint J → Bool
  | .decrement _ => true
  | _ => false

/-- A job has been pushed and `atm++` is to come. -/
def uncounted : PoolPoint J → Bool
  | .increment => true
  | _ => false

def unnotified : PoolPoint J → Bool
  | .notify => true
  | _ => false

end PoolPoint

namespace ThreadPool

variable {W J : Type*}

def init : ThreadPool W J :=
  { q := [], atm := 0, thControll := 0, ths := [], control := .idle, point := fun _ => .absent
    pushed := 0, counted := 0 }

/-- The first part of `Resize`. -/
def resize (s : ThreadPool W J) (uThreadCount_ : Nat) : ThreadPool W J :=
  if s.thControll = uThreadCount_ then s
  else if s.thControll < uThreadCount_ then
    { s with
      thControll := uThreadCount_
      control := .create s.thControll s.thControll uThreadCount_ }
  else { s with control := .store uThreadCount_ }

/-- `ths[i].join()`, if the thread is joinable: it waits until the thread has returned. -/
def joinAt (s : ThreadPool W J) (i : Nat) (next : PoolControl) : Option (ThreadPool W J) :=
  match s.ths[i]? with
  | none => none
  | some none => some { s with control := next }
  | some (some w) =>
    match s.point w with
    | .returned => some { s with ths := s.ths.set i none, control := next }
    | _ => none

/-- The next step of the controlling thread in `Resize`, thread creation apart. -/
def controlStep (s : ThreadPool W J) : Option (ThreadPool W J) :=
  match s.control with
  | .idle => none
  | .create _ i n => if i = n then some { s with control := .idle } else none
  | .undo i =>
    if i < s.ths.length then s.joinAt i (.undo (i + 1)) else some { s with control := .idle }
  | .store n => some { s with atm := s.thControll, control := .write s.thControll n }
  | .write prev n => some { s with thControll := n, control := .notifyAll prev n }
  | .notifyAll prev n =>
    some { s with point := fun w => (s.point w).notified, control := .join prev n n }
  | .join prev i n =>
    if i < prev then s.joinAt i (.join prev (i + 1) n)
    -- a thread still joinable where `ths.resize` destroys it would end the program
    else if (s.ths.drop n).all Option.isNone then
      some { s with ths := s.ths.take n, control := .idle }
    else none

variable [DecidableEq W]

def goTo (s : ThreadPool W J) (w : W) (p : PoolPoint J) : ThreadPool W J :=
  { s with point := Function.update s.point w p }

/-- `notify_one`: one blocked thread is woken, if there is any. -/
def wakeOne [Fintype W] (s : ThreadPool W J) : Option W → Option (ThreadPool W J)
  | none => if ∀ w, (s.point w).blocked = false then some s else none
  | some v => if (s.point v).blocked = true then some (s.goTo v .woken) else none

/-- The next step of a thread in `WorkerThread`. -/
def workerStep [Fintype W] (idx : W → Nat) (s : ThreadPool W J) (w : W) (ok : Bool)
    (v : Option W) : Option (ThreadPool W J) :=
  match s.point w with
  | .absent | .parked | .returned => none
  | .check => some (s.goTo w (if idx w < s.thControll then .tryPop else .returned))
  | .tryPop =>
    match s.q with
    | [] => some (s.goTo w .wait)
    | func :: q => some ({ s with q := q }.goTo w (.decrement func))
  | .decrement func => some ({ s with atm := s.atm - 1 }.goTo w (.execute func))
  | .execute func => some (s.goTo w (if ok = true then .push func else .check))
  | .push func =>
    -- where `push` gets no memory, `Enqueue` fails and the job is dropped
    if ok = true then some ({ s with q := s.q ++ [func] }.goTo w .increment)
    else some (s.goTo w .check)
  | .increment => some ({ s with atm := s.atm + 1 }.goTo w .notify)
  | .notify => (s.goTo w .check).wakeOne v
  | .wait | .woken => some (s.goTo w (if s.atm = 0 then .parked else .check))

def step [Fintype W] (idx : W → Nat) (s : ThreadPool W J) :
    PoolAct W J → Option (ThreadPool W J)
  | .push func => some { s with q := s.q ++ [func], pushed := s.pushed + 1 }
  | .increment =>
    if s.pushed = 0 then none
    else
      some { s with atm := s.atm + 1, pushed := s.pushed - 1, counted := s.counted + 1 }
  | .notifyOne v =>
    if s.counted = 0 then none else { s with counted := s.counted - 1 }.wakeOne v
  | .worker w ok v => s.workerStep idx w ok v
  | .call c =>
    match s.control with
    | .idle =>
      match c.target s.thControll with
      | none => some s
      | some n => some (s.resize n)
    | _ => none
  | .create w =>
    match s.control, s.point w with
    | .create prev i n, .absent =>
      if i < n ∧ idx w = i then
        some
          ({ s with ths := s.ths ++ [some w], control := .create prev (i + 1) n }.goTo w .check)
      else none
    | _, _ => none
  | .createFails bSystemError_ =>
    match s.control with
    | .create prev i n =>
      if i < n then
        some
          { s with
            thControll := prev
            control := if bSystemError_ = true then .undo prev else .idle }
      else none
    | _ => none
  | .control => s.controlStep

/-! ## How many threads stand where -/

section Numbers

variable [Fintype W]

def standing (P : PoolPoint J → Bool) (point : W → PoolPoint J) : Nat :=
  count (fun p => P p = true) point

/-- The jobs pushed whose `atm++` is to come. -/
def uncounted (s : ThreadPool W J) : Nat := s.pushed + standing PoolPoint.uncounted s.point

/-- The calls of `Enqueue` whose `notify_one` is to come. -/
def unnotified (s : ThreadPool W J) : Nat := s.counted + standing PoolPoint.unnotified s.point

/-- The threads that will run on, are awake, and are to try the queue before they block. -/
def lookers (idx : W → Nat) (t : Nat) (point : W → PoolPoint J) : Nat :=
  count (fun x : W × PoolPoint J => idx x.1 < t ∧ x.2.looking = true) fun w => (w, point w)

/-- The counter less the jobs it has to account for. -/
def balance (s : ThreadPool W J) : Int :=
  s.atm + s.uncounted - s.q.length - standing PoolPoint.popped s.point

end Numbers

/-! ## The condition -/

/-- No thread from index `t` on stands at points of the kind `P`. -/
def NoneFrom (idx : W → Nat) (t : Nat) (P : PoolPoint J → Bool) (point : W → PoolPoint J) :
    Prop :=
  ∀ w, t ≤ idx w → P (point w) = false

variable [Fintype W]

/-- The counter is enough for the jobs queued and those just taken. -/
def Covered (s : ThreadPool W J) : Prop :=
  s.q.length + standing PoolPoint.popped s.point ≤ s.atm + s.uncounted

/-- What the counter has to meet, and that thread creation does not fail halfway:
`Start` from no thread finds the counter enough; so does the `atm.store` of a `Resize` to
fewer threads, if some are left; when `m_thControll` is written the counter is positive, or
no thread that is waited for stands at the wait; and while those threads are waited for, an
`atm--` to 0 leaves no other of them there. -/
def Kept (idx : W → Nat) (s : ThreadPool W J) : PoolAct W J → Prop
  | .worker w _ _ =>
    match s.control, s.point w with
    | .notifyAll .., .decrement _ | .join .., .decrement _ =>
      s.atm = 1 → ∀ v, v ≠ w → s.thControll ≤ idx v → (s.point v).waiting = false
    | _, _ => True
  | .call c =>
    match s.control, c.target s.thControll with
    | .idle, some n => s.thControll = 0 → 1 ≤ n → Covered s
    | _, _ => True
  | .createFails _ =>
    match s.control with
    | .create prev i _ => i = prev
    | _ => True
  | .control =>
    match s.control with
    | .store n => 1 ≤ n → Covered { s with atm := s.thControll }
    | .write _ n => 1 ≤ s.atm ∨ NoneFrom idx n PoolPoint.waiting s.point
    | _ => True
  | _ => True

/-- The `notify_one` of the last `Enqueue` in progress finds no job, or leaves no thread
blocked. -/
def LastWakes (s : ThreadPool W J) : PoolAct W J → Prop
  | .notifyOne _ => Last s
  | .worker w _ _ =>
    match s.point w with
    | .notify => Last s
    | _ => True
  | _ => True
where
  Last (s : ThreadPool W J) : Prop :=
    s.q = [] ∨ standing PoolPoint.blocked s.point ≤ 1 ∨ 2 ≤ s.uncounted + s.unnotified

/-- No `Enqueue` has got past its push, and the controlling thread is idle or joins. -/
def Quiet (s : ThreadPool W J) : Prop :=
  s.uncounted = 0 ∧ s.unnotified = 0 ∧
    match s.control with
    | .idle | .undo _ | .join .. => True
    | _ => False

/-- A worker is blocked, with the counter at 0, although a job is queued or it is to leave. -/
def Stuck (idx : W → Nat) (s : ThreadPool W J) : Prop :=
  Quiet s ∧ ∃ w, s.point w = .parked ∧ s.atm = 0 ∧ (s.q ≠ [] ∨ s.thControll ≤ idx w)

section Decidable

variable {idx : W → Nat} {t : Nat} {P : PoolPoint J → Bool} {point : W → PoolPoint J}

instance : Decidable (NoneFrom idx t P point) := by
  unfold NoneFrom; infer_instance

instance (s : ThreadPool W J) : Decidable s.Covered := by
  unfold Covered; infer_instance

instance (s : ThreadPool W J) : DecidablePred (Kept idx s) := fun a => by
  unfold Kept
  split
  · split <;> infer_instance
  · split <;> infer_instance
  · split <;> infer_instance
  · split <;> infer_instance
  · infer_instance

instance (s : ThreadPool W J) : Decidable s.Quiet := by
  unfold Quiet
  split <;> infer_instance

instance [DecidableEq J] (s : ThreadPool W J) : Decidable (Stuck idx s) := by
  unfold Stuck; infer_instance

end Decidable

/-! ## What every step keeps -/

/-- The vector of threads, and where the loops over it stand. -/
def Sized (ths : List (Option W)) (t : Nat) : PoolControl → Prop
  | .idle => ths.length = t
  | .create prev i n => ths.length = i ∧ prev ≤ i ∧ i ≤ n ∧ t = n
  | .undo i => ths.length = t ∧ i = t
  | .store n => ths.length = t ∧ n < t
  | .write prev n => ths.length = prev ∧ t = prev ∧ n < prev
  | .notifyAll prev n => ths.length = prev ∧ t = n ∧ n < prev
  | .join prev i n =>
    ths.length = prev ∧ t = n ∧ n ≤ i ∧ i ≤ prev ∧ ∀ k, n ≤ k → k < i → ths[k]? = some none

/-- How many threads there are to be when the controlling thread is through. -/
def goal (t : Nat) : PoolControl → Nat
  | .write _ n => n
  | _ => t

/-- The threads a `Resize` waits for do not block: the counter is positive, or none of them
will wait again. -/
def Awake (idx : W → Nat) (t : Nat) (atm : Int) (point : W → PoolPoint J) :
    PoolControl → Prop
  | .notifyAll .. => 1 ≤ atm ∨ NoneFrom idx t PoolPoint.waiting point
  | .join .. =>
    (1 ≤ atm ∧ NoneFrom idx t PoolPoint.blocked point) ∨ NoneFrom idx t PoolPoint.waiting point
  | _ => True

/-- Not between the store of `Resize` and its `notify_all`. -/
def settled : PoolControl → Bool
  | .idle | .create .. | .undo _ | .join .. => true
  | _ => false

/-- `k` is the number of threads that are about to be woken. -/
structure Keeps (idx : W → Nat) (k : Nat) (s : ThreadPool W J) : Prop where
  sized : Sized s.ths s.thControll s.control
  slot : ∀ w, (s.point w).live = true → s.ths[idx w]? = some (some w)
  covered : 1 ≤ goal s.thControll s.control → 0 ≤ s.balance
  awake : Awake idx s.thControll s.atm s.point s.control
  noticed : settled s.control = true → 0 < standing PoolPoint.blocked s.point →
    s.q.length ≤ lookers idx s.thControll s.point + s.uncounted + s.unnotified + k

variable {idx : W → Nat} {s s' : ThreadPool W J} {w : W} {p p' : PoolPoint J} {k k' t : Nat}
  {point : W → PoolPoint J} {P : PoolPoint J → Bool}

/-! ### One thread moves -/

omit [DecidableEq W] [Fintype W] in
theorem one_eq_toNat (P : PoolPoint J → Bool) (p : PoolPoint J) :
    one (fun p => P p = true) p = (P p).toNat := by
  unfold one
  cases hp : P p with
  | false => exact if_neg fun h => Bool.false_ne_true (hp.symm.trans h)
  | true => exact if_pos hp

omit [DecidableEq W] in
theorem not_standing (h : ∀ w, P (point w) = false) : ¬ 0 < standing P point := by
  intro hpos
  obtain ⟨w, hw⟩ := count_pos.mp hpos
  exact Bool.false_ne_true ((h w).symm.trans hw)

theorem standing_update (P : PoolPoint J → Bool) (h : point w = p) (p' : PoolPoint J) :
    standing P (Function.update point w p') + (P p).toNat = standing P point + (P p').toNat := by
  have := count_update (fun p => P p = true) point w p'
  rwa [h, one_eq_toNat, one_eq_toNat] at this

omit [DecidableEq W] in
theorem toNat_le_standing (P : PoolPoint J → Bool) (h : point w = p) :
    (P p).toNat ≤ standing P point := by
  have := one_le_count (fun p => P p = true) point w
  rwa [h, one_eq_toNat] at this

/-- What one thread contributes to `lookers`. -/
def looks (idx : W → Nat) (t : Nat) (w : W) (p : PoolPoint J) : Nat :=
  one (fun x : W × PoolPoint J => idx x.1 < t ∧ x.2.looking = true) (w, p)

theorem lookers_update (idx : W → Nat) (t : Nat) (h : point w = p) (p' : PoolPoint J) :
    lookers idx t (Function.update point w p') + looks idx t w p =
      lookers idx t point + looks idx t w p' := by
  have hpair : (fun v => (v, Function.update point w p' v)) =
      Function.update (fun v => (v, point v)) w (w, p') := by
    funext v
    by_cases hv : v = w
    · rw [hv, Function.update_self, Function.update_self]
    · rw [Function.update_of_ne hv, Function.update_of_ne hv]
  rw [lookers, hpair]
  have := count_update (fun x : W × PoolPoint J => idx x.1 < t ∧ x.2.looking = true)
    (fun v => (v, point v)) w (w, p')
  rwa [h] at this

omit [DecidableEq W] [Fintype W] in
theorem looks_le (idx : W → Nat) (t : Nat) (w : W) (p : PoolPoint J) :
    looks idx t w p ≤ p.looking.toNat := by
  unfold looks one
  split
  · next h =>
    rw [h.2]
    exact Nat.le_refl 1
  · exact Nat.zero_le _

omit [DecidableEq W] [Fintype W] in
theorem looks_of_not (hp : p.looking = false) : looks idx t w p = 0 := by
  have := looks_le idx t w p
  rw [hp] at this
  exact Nat.le_zero.mp this

omit [DecidableEq W] [Fintype W] in
theorem looks_of_lt (hw : idx w < t) (hp : p.looking = true) : looks idx t w p = 1 :=
  one_of (P := fun x : W × PoolPoint J => idx x.1 < t ∧ x.2.looking = true) ⟨hw, hp⟩

omit [DecidableEq W] [Fintype W] in
theorem looks_mono (h : idx w < t → p.looking = true → p'.looking = true) :
    looks idx t w p ≤ looks idx t w p' := by
  unfold looks one
  split
  · next hp =>
    rw [if_pos ⟨hp.1, h hp.1 hp.2⟩]
  · exact Nat.zero_le _

omit [Fintype W] in
theorem NoneFrom.update (h : NoneFrom idx t P point) (hw : t ≤ idx w → P p' = false) :
    NoneFrom idx t P (Function.update point w p') := by
  intro v hv
  by_cases hvw : v = w
  · subst hvw
    rw [Function.update_self]
    exact hw hv
  · rw [Function.update_of_ne hvw]
    exact h v hv

omit [DecidableEq W] [Fintype W] in
theorem Awake.mono {atm atm' : Int} {c : PoolControl} (h : Awake idx t atm point c)
    (hatm : 1 ≤ atm → 1 ≤ atm') : Awake idx t atm' point c := by
  cases c with
  | notifyAll prev n => exact h.imp_left hatm
  | join prev i n => exact h.imp_left fun hpos => ⟨hatm hpos.1, hpos.2⟩
  | _ => trivial

omit [Fintype W] in
theorem Awake.move {atm atm' : Int} {c : PoolControl} (h : Awake idx t atm point c)
    (hp : point w = p) (hatm : 1 ≤ atm → 1 ≤ atm')
    (hwait : t ≤ idx w → p.waiting = false → p'.waiting = false)
    (hblock : t ≤ idx w → 1 ≤ atm → p.blocked = false → p'.blocked = false) :
    Awake idx t atm' (Function.update point w p') c := by
  have hnone : NoneFrom idx t PoolPoint.waiting point →
      NoneFrom idx t PoolPoint.waiting (Function.update point w p') := by
    intro hn
    refine hn.update fun hw => hwait hw ?_
    rw [← hp]
    exact hn w hw
  cases c with
  | notifyAll prev n => exact h.imp hatm hnone
  | join prev i n =>
    refine h.imp ?_ hnone
    intro ⟨hpos, hb⟩
    refine ⟨hatm hpos, hb.update fun hw => hblock hw hpos ?_⟩
    rw [← hp]
    exact hb w hw
  | _ => trivial

omit [Fintype W] in
theorem slot_update {ths : List (Option W)}
    (h : ∀ w, (point w).live = true → ths[idx w]? = some (some w)) (hp : point w = p)
    (hlive : p.live = true) :
    ∀ v, (Function.update point w p' v).live = true → ths[idx v]? = some (some v) := by
  intro v hv
  apply h v
  by_cases hvw : v = w
  · rw [hvw, hp]
    exact hlive
  · rwa [Function.update_of_ne hvw] at hv

/-- A thread that is not blocked afterwards moves; `q'` and `atm'` are what it leaves. -/
theorem Keeps.move (h : Keeps idx k s) {q' : List J} {atm' : Int} (hp : s.point w = p)
    (hlive : p.live = true)
    (hbal : atm' + p'.uncounted.toNat - q'.length - p'.popped.toNat =
      s.atm + p.uncounted.toNat - s.q.length - p.popped.toNat)
    (hawake : Awake idx s.thControll atm' (Function.update s.point w p') s.control)
    (hblock : p'.blocked = false)
    (hnum : settled s.control = true → q'.length + looks idx s.thControll w p +
        p.uncounted.toNat + p.unnotified.toNat + k ≤
      s.q.length + looks idx s.thControll w p' + p'.uncounted.toNat + p'.unnotified.toNat + k') :
    Keeps idx k' ({ s with q := q', atm := atm' }.goTo w p') := by
  have hu := standing_update PoolPoint.uncounted hp p'
  have hn := standing_update PoolPoint.unnotified hp p'
  have hd := standing_update PoolPoint.popped hp p'
  have hb := standing_update PoolPoint.blocked hp p'
  have hl := lookers_update idx s.thControll hp p'
  refine ⟨h.sized, ?_, ?_, hawake, ?_⟩
  · exact slot_update h.slot hp hlive
  · intro hg
    have hbal' := h.covered hg
    simp only [balance, uncounted] at hbal'
    show 0 ≤ atm' + ((s.pushed + standing PoolPoint.uncounted (Function.update s.point w p') : Nat)
      : Int) - q'.length - standing PoolPoint.popped (Function.update s.point w p')
    omega
  · intro hs hpos
    have hpos' : 0 < standing PoolPoint.blocked (Function.update s.point w p') := hpos
    rw [hblock] at hb
    have hnoticed := h.noticed hs (by simp only [Bool.toNat_false] at hb; omega)
    have hnum := hnum hs
    simp only [uncounted, unnotified] at hnoticed
    show q'.length ≤ lookers idx s.thControll (Function.update s.point w p') +
      (s.pushed + standing PoolPoint.uncounted (Function.update s.point w p')) +
      (s.counted + standing PoolPoint.unnotified (Function.update s.point w p')) + k'
    omega

/-! ### Threads that block and threads that are woken -/

theorem goal_of_settled {c : PoolControl} (h : settled c = true) : goal t c = t := by
  cases c with
  | write prev n => cases h
  | _ => rfl

omit [DecidableEq W] in
theorem Keeps.lt_length (h : Keeps idx k s) (hw : (s.point w).live = true) :
    idx w < s.ths.length := by
  obtain ⟨hlt, -⟩ := List.getElem?_eq_some_iff.mp (h.slot w hw)
  exact hlt

omit [DecidableEq W] in
/-- Outside the window between store and `notify_all`, a thread that is blocked, or that is
about to block, is one that will run on. -/
theorem Keeps.lt_of_waiting (h : Keeps idx k s) (hs : settled s.control = true)
    (hlive : (s.point w).live = true) (hwait : (s.point w).waiting = true)
    (hw : (s.point w).blocked = true ∨ s.atm = 0) : idx w < s.thControll := by
  have hlt := h.lt_length hlive
  have hsized := h.sized
  have hawake := h.awake
  cases hc : s.control with
  | idle =>
    rw [hc] at hsized
    exact Nat.lt_of_lt_of_eq hlt hsized
  | create prev i n =>
    rw [hc] at hsized
    obtain ⟨hlen, -, hin, ht⟩ := hsized
    omega
  | undo i =>
    rw [hc] at hsized
    exact Nat.lt_of_lt_of_eq hlt hsized.1
  | join prev i n =>
    rw [hc] at hawake
    by_contra hge
    have hge := Nat.le_of_not_lt hge
    rcases hawake with ⟨hpos, hnone⟩ | hnone
    · rcases hw with hw | hw
      · rw [hnone w hge] at hw
        cases hw
      · omega
    · rw [hnone w hge] at hwait
      cases hwait
  | store n => rw [hc] at hs; cases hs
  | write prev n => rw [hc] at hs; cases hs
  | notifyAll prev n => rw [hc] at hs; cases hs

omit [DecidableEq W] in
/-- Where the counter is 0, every job is one whose `atm++` is to come. -/
theorem Keeps.length_le (h : Keeps idx k s) (hs : settled s.control = true)
    (ht : 1 ≤ s.thControll) (hatm : s.atm = 0) : s.q.length ≤ s.uncounted := by
  have hcov := h.covered (by rwa [goal_of_settled hs])
  rw [balance, hatm] at hcov
  omega

/-- A thread blocks where the counter is 0. -/
theorem Keeps.park (h : Keeps idx k s) (hp : s.point w = p) (hwait : p.waiting = true)
    (hlive : p.live = true) (hu : p.uncounted = false) (hd : p.popped = false)
    (hatm : s.atm = 0) : Keeps idx k (s.goTo w .parked) := by
  have hlt : settled s.control = true → idx w < s.thControll := by
    intro hs
    apply h.lt_of_waiting hs _ _ (.inr hatm)
    · rw [hp]; exact hlive
    · rw [hp]; exact hwait
  have hu' := standing_update PoolPoint.uncounted hp .parked
  have hd' := standing_update PoolPoint.popped hp .parked
  rw [hu] at hu'
  rw [hd] at hd'
  have hbal : (s.goTo w .parked).balance = s.balance := by
    show s.atm + ((s.pushed + standing PoolPoint.uncounted (Function.update s.point w .parked) :
      Nat) : Int) - s.q.length - standing PoolPoint.popped (Function.update s.point w .parked) = _
    rw [balance, uncounted, Nat.add_right_cancel hu', Nat.add_right_cancel hd']
  refine ⟨h.sized, ?_, fun hg => hbal ▸ h.covered hg, ?_, ?_⟩
  · exact slot_update h.slot hp hlive
  · apply h.awake.move hp id
    · intro _ hp'
      rw [hwait] at hp'
      cases hp'
    · intro _ hpos
      omega
  · intro hs _
    have hle := h.length_le hs (Nat.lt_of_le_of_lt (Nat.zero_le _) (hlt hs)) hatm
    rw [uncounted] at hle
    show s.q.length ≤ _ + (s.pushed + standing PoolPoint.uncounted (Function.update s.point w
      .parked)) + _ + k
    rw [Nat.add_right_cancel hu']
    omega

/-- `notify_one` makes good the one that is to be woken. -/
theorem Keeps.wakeOne {v : Option W} (h : Keeps idx 1 s) (hs : s.wakeOne v = some s') :
    Keeps idx 0 s' := by
  cases v with
  | none =>
    simp only [ThreadPool.wakeOne] at hs
    split at hs
    · next hnone =>
      obtain rfl := Option.some.inj hs
      exact ⟨h.sized, h.slot, h.covered, h.awake, fun _ hpos => absurd hpos (not_standing hnone)⟩
    · cases hs
  | some v =>
    simp only [ThreadPool.wakeOne] at hs
    split at hs
    · next hv =>
      obtain rfl := Option.some.inj hs
      have hp := PoolPoint.eq_parked hv
      refine h.move hp rfl rfl ?_ rfl ?_
      · exact h.awake.move hp id (fun _ hw => hw) fun _ _ _ => rfl
      · intro hset
        have hlt : idx v < s.thControll := by
          apply h.lt_of_waiting hset _ _ (.inl hv) <;> rw [hp] <;> rfl
        rw [looks_of_not (p := .parked) rfl, looks_of_lt hlt (p := .woken) rfl]
        exact Nat.le_refl _
    · cases hs

/-! ### The steps of a worker -/

/-- What a worker's step can be. -/
inductive WorkerMove (idx : W → Nat) (s : ThreadPool W J) (w : W) (v : Option W) :
    ThreadPool W J → Prop
  | stay (hp : s.point w = .check) (hlt : idx w < s.thControll) :
    WorkerMove idx s w v (s.goTo w .tryPop)
  | leave (hp : s.point w = .check) (hge : s.thControll ≤ idx w) :
    WorkerMove idx s w v (s.goTo w .returned)
  | empty (hp : s.point w = .tryPop) : WorkerMove idx s w v (s.goTo w .wait)
  | pop (func : J) (q : List J) (hp : s.point w = .tryPop) (hq : s.q = func :: q) :
    WorkerMove idx s w v ({ s with q := q }.goTo w (.decrement func))
  | decrement (func : J) (hp : s.point w = .decrement func) :
    WorkerMove idx s w v ({ s with atm := s.atm - 1 }.goTo w (.execute func))
  | again (func : J) (hp : s.point w = .execute func) :
    WorkerMove idx s w v (s.goTo w (.push func))
  | finish (func : J) (hp : s.point w = .execute func) :
    WorkerMove idx s w v (s.goTo w .check)
  | push (func : J) (hp : s.point w = .push func) :
    WorkerMove idx s w v ({ s with q := s.q ++ [func] }.goTo w .increment)
  | drop (func : J) (hp : s.point w = .push func) : WorkerMove idx s w v (s.goTo w .check)
  | increment (hp : s.point w = .increment) :
    WorkerMove idx s w v ({ s with atm := s.atm + 1 }.goTo w .notify)
  | notify (s' : ThreadPool W J) (hp : s.point w = .notify)
    (hs : (s.goTo w .check).wakeOne v = some s') : WorkerMove idx s w v s'
  | retry (hp : s.point w = .wait ∨ s.point w = .woken) :
    WorkerMove idx s w v (s.goTo w .check)
  | park (hp : s.point w = .wait ∨ s.point w = .woken) (hatm : s.atm = 0) :
    WorkerMove idx s w v (s.goTo w .parked)

theorem workerStep_cases {ok : Bool} {v : Option W} (hs : s.workerStep idx w ok v = some s') :
    WorkerMove idx s w v s' := by
  have hwait : s.point w = .wait ∨ s.point w = .woken →
      WorkerMove idx s w v (s.goTo w (if s.atm = 0 then .parked else .check)) := by
    intro hp
    split
    · next hatm => exact .park hp hatm
    · exact .retry hp
  cases hp : s.point w with
  | absent => simp only [workerStep, hp] at hs; cases hs
  | parked => simp only [workerStep, hp] at hs; cases hs
  | returned => simp only [workerStep, hp] at hs; cases hs
  | check =>
    simp only [workerStep, hp] at hs
    obtain rfl := Option.some.inj hs
    split
    · next hlt => exact .stay hp hlt
    · next hge => exact .leave hp (Nat.le_of_not_lt hge)
  | tryPop =>
    simp only [workerStep, hp] at hs
    cases hq : s.q with
    | nil =>
      simp only [hq] at hs
      exact Option.some.inj hs ▸ .empty hp
    | cons func q =>
      simp only [hq] at hs
      exact Option.some.inj hs ▸ .pop func q hp hq
  | decrement func =>
    simp only [workerStep, hp] at hs
    exact Option.some.inj hs ▸ .decrement func hp
  | execute func =>
    simp only [workerStep, hp] at hs
    obtain rfl := Option.some.inj hs
    split
    · exact .again func hp
    · exact .finish func hp
  | push func =>
    simp only [workerStep, hp] at hs
    split at hs
    · exact Option.some.inj hs ▸ .push func hp
    · exact Option.some.inj hs ▸ .drop func hp
  | increment =>
    simp only [workerStep, hp] at hs
    exact Option.some.inj hs ▸ .increment hp
  | notify =>
    simp only [workerStep, hp] at hs
    exact .notify s' hp hs
  | wait =>
    simp only [workerStep, hp] at hs
    exact Option.some.inj hs ▸ hwait (.inl hp)
  | woken =>
    simp only [workerStep, hp] at hs
    exact Option.some.inj hs ▸ hwait (.inr hp)

/-- A step that leaves queue and counter alone. -/
theorem Keeps.goTo (h : Keeps idx k s) (hp : s.point w = p) (hlive : p.live = true)
    (hu : p.uncounted = p'.uncounted) (hd : p.popped = p'.popped)
    (hwait : s.thControll ≤ idx w → p.waiting = false → p'.waiting = false)
    (hblock : p'.blocked = false) (hn : p.unnotified.toNat + k ≤ p'.unnotified.toNat + k')
    (hlook : idx w < s.thControll → p.looking = true → p'.looking = true) :
    Keeps idx k' (s.goTo w p') := by
  refine h.move hp hlive ?_ ?_ hblock ?_
  · rw [hu, hd]
  · exact h.awake.move hp id hwait fun _ _ _ => hblock
  · intro _
    have hl := looks_mono hlook
    rw [hu]
    omega

/-- An `atm--` to 0 is allowed where it strands nobody. -/
theorem Keeps.awake_decrement {func : J} {ok : Bool} {v : Option W} (h : Keeps idx 0 s)
    (hp : s.point w = .decrement func) (hk : Kept idx s (.worker w ok v)) :
    Awake idx s.thControll (s.atm - 1) (Function.update s.point w (.execute func)) s.control := by
  have hawake := h.awake
  have hnone : (s.atm = 1 → ∀ v, v ≠ w → s.thControll ≤ idx v → (s.point v).waiting = false) →
      s.atm = 1 → NoneFrom idx s.thControll PoolPoint.waiting
        (Function.update s.point w (.execute func)) := by
    intro hk hone v hv
    by_cases hvw : v = w
    · rw [hvw, Function.update_self]
      rfl
    · rw [Function.update_of_ne hvw]
      exact hk hone v hvw hv
  cases hc : s.control with
  | notifyAll prev n =>
    rw [hc] at hawake
    simp only [Kept, hc, hp] at hk
    rcases hawake with hpos | hwait
    · by_cases hone : s.atm = 1
      · exact .inr (hnone hk hone)
      · exact .inl (by omega)
    · exact .inr (hwait.update fun _ => rfl)
  | join prev i n =>
    rw [hc] at hawake
    simp only [Kept, hc, hp] at hk
    rcases hawake with ⟨hpos, hblock⟩ | hwait
    · by_cases hone : s.atm = 1
      · exact .inr (hnone hk hone)
      · exact .inl ⟨by omega, hblock.update fun _ => rfl⟩
    · exact .inr (hwait.update fun _ => rfl)
  | _ => trivial

theorem Keeps.workerStep {ok : Bool} {v : Option W} (h : Keeps idx 0 s)
    (hk : Kept idx s (.worker w ok v)) (hs : s.workerStep idx w ok v = some s') :
    Keeps idx 0 s' := by
  cases workerStep_cases hs with
  | stay hp hlt =>
    refine h.goTo hp rfl rfl rfl ?_ rfl (Nat.le_refl _) fun _ _ => rfl
    intro hge
    exact absurd hlt (Nat.not_lt_of_le hge)
  | leave hp hge =>
    refine h.goTo hp rfl rfl rfl (fun _ _ => rfl) rfl (Nat.le_refl _) ?_
    intro hlt
    exact absurd hlt (Nat.not_lt_of_le hge)
  | empty hp => exact h.goTo hp rfl rfl rfl (fun _ hw => hw) rfl (Nat.le_refl _) fun _ _ => rfl
  | pop func q hp hq =>
    have hl := looks_le idx s.thControll w (.tryPop : PoolPoint J)
    refine h.move hp rfl ?_ ?_ rfl ?_
    · rw [hq, List.length_cons]
      simp only [PoolPoint.uncounted, PoolPoint.popped, Bool.toNat_false, Bool.toNat_true]
      omega
    · exact h.awake.move hp id (fun _ _ => rfl) fun _ _ _ => rfl
    · intro _
      rw [hq, List.length_cons]
      simp only [PoolPoint.looking, PoolPoint.uncounted, PoolPoint.unnotified, Bool.toNat_false,
        Bool.toNat_true] at hl ⊢
      omega
  | decrement func hp =>
    refine h.move hp rfl ?_ ?_ rfl ?_
    · simp only [PoolPoint.uncounted, PoolPoint.popped, Bool.toNat_false, Bool.toNat_true]
      omega
    · exact h.awake_decrement hp hk
    · intro _
      rw [looks_of_not (p := .decrement func) rfl]
      exact Nat.le_add_right _ _
  | again func hp =>
    exact h.goTo hp rfl rfl rfl (fun _ _ => rfl) rfl (Nat.le_refl _) fun _ hw => hw
  | finish func hp =>
    exact h.goTo hp rfl rfl rfl (fun _ _ => rfl) rfl (Nat.le_refl _) fun _ _ => rfl
  | push func hp =>
    refine h.move hp rfl ?_ ?_ rfl ?_
    · rw [List.length_append, List.length_singleton]
      simp only [PoolPoint.uncounted, PoolPoint.popped, Bool.toNat_false, Bool.toNat_true]
      omega
    · exact h.awake.move hp id (fun _ _ => rfl) fun _ _ _ => rfl
    · intro _
      rw [looks_of_not (p := .push func) rfl, List.length_append, List.length_singleton]
      simp only [PoolPoint.uncounted, PoolPoint.unnotified, Bool.toNat_false, Bool.toNat_true]
      omega
  | drop func hp =>
    exact h.goTo hp rfl rfl rfl (fun _ _ => rfl) rfl (Nat.le_refl _) fun _ _ => rfl
  | increment hp =>
    refine h.move hp rfl ?_ ?_ rfl ?_
    · simp only [PoolPoint.uncounted, PoolPoint.popped, Bool.toNat_false, Bool.toNat_true]
      omega
    · exact h.awake.move hp (fun hpos => by omega) (fun _ _ => rfl) fun _ _ _ => rfl
    · intro _
      rw [looks_of_not (p := .increment) rfl]
      simp only [PoolPoint.uncounted, PoolPoint.unnotified, Bool.toNat_false, Bool.toNat_true]
      omega
  | notify s' hp hs =>
    have h' : Keeps idx 1 (s.goTo w .check) :=
      h.goTo hp rfl rfl rfl (fun _ _ => rfl) rfl (Nat.le_refl 1) fun _ _ => rfl
    exact h'.wakeOne hs
  | retry hp =>
    rcases hp with hp | hp
    · exact h.goTo hp rfl rfl rfl (fun _ _ => rfl) rfl (Nat.le_refl _) fun _ _ => rfl
    · exact h.goTo hp rfl rfl rfl (fun _ _ => rfl) rfl (Nat.le_refl _) fun _ _ => rfl
  | park hp hatm =>
    rcases hp with hp | hp
    · exact h.park hp rfl rfl rfl rfl hatm
    · exact h.park hp rfl rfl rfl rfl hatm

/-! ### The steps of `Enqueue` in other threads -/

omit [DecidableEq W] in
theorem Keeps.push (h : Keeps idx 0 s) (func : J) :
    Keeps idx 0 { s with q := s.q ++ [func], pushed := s.pushed + 1 } := by
  refine ⟨h.sized, h.slot, ?_, h.awake, ?_⟩
  · intro hg
    have hbal := h.covered hg
    simp only [balance, uncounted, List.length_append, List.length_singleton] at hbal ⊢
    omega
  · intro hs hpos
    have hnoticed := h.noticed hs hpos
    simp only [uncounted, unnotified, List.length_append, List.length_singleton] at hnoticed ⊢
    omega

omit [DecidableEq W] in
theorem Keeps.increment (h : Keeps idx 0 s) :
    Keeps idx 0
      { s with atm := s.atm + 1, pushed := s.pushed - 1, counted := s.counted + 1 } := by
  refine ⟨h.sized, h.slot, ?_, ?_, ?_⟩
  · intro hg
    have hbal := h.covered hg
    simp only [balance, uncounted] at hbal ⊢
    omega
  · apply h.awake.mono
    intro hatm
    exact Int.le_add_of_nonneg_right (by decide) |>.trans' hatm
  · intro hs hb
    have hnoticed := h.noticed hs hb
    simp only [uncounted, unnotified] at hnoticed ⊢
    omega

theorem Keeps.notifyOne {v : Option W} (h : Keeps idx 0 s)
    (hs : ({ s with counted := s.counted - 1 } : ThreadPool W J).wakeOne v = some s') :
    Keeps idx 0 s' := by
  have h' : Keeps idx 1 { s with counted := s.counted - 1 } := by
    refine ⟨h.sized, h.slot, h.covered, h.awake, ?_⟩
    intro hset hb
    have hnoticed := h.noticed hset hb
    simp only [uncounted, unnotified] at hnoticed ⊢
    omega
  exact h'.wakeOne hs

/-! ### The steps of the controlling thread -/

/-- What `ths` is when the thread at a place has been joined: it has returned, and its place
is empty. -/
structure Joined (s : ThreadPool W J) (i : Nat) (ths : List (Option W)) : Prop where
  length_eq : ths.length = s.ths.length
  joined : ths[i]? = some none
  others : ∀ j, j ≠ i → ths[j]? = s.ths[j]?
  returned : ∀ w, s.ths[i]? = some (some w) → s.point w = .returned

omit [DecidableEq W] [Fintype W] in
theorem joinAt_spec {i : Nat} {next : PoolControl} (hs : s.joinAt i next = some s') :
    ∃ ths, Joined s i ths ∧ s' = { s with ths := ths, control := next } := by
  simp only [ThreadPool.joinAt] at hs
  split at hs
  · cases hs
  · next hnone =>
    refine ⟨s.ths, ⟨rfl, hnone, fun _ _ => rfl, ?_⟩, (Option.some.inj hs).symm⟩
    intro w hw
    rw [hnone] at hw
    cases hw
  · next w hw =>
    split at hs
    · next hret =>
      have hi : i < s.ths.length := (List.getElem?_eq_some_iff.mp hw).1
      refine ⟨s.ths.set i none, ⟨List.length_set, List.getElem?_set_self hi, ?_, ?_⟩,
        (Option.some.inj hs).symm⟩
      · exact fun j hj => List.getElem?_set_ne (Ne.symm hj)
      · intro v hv
        rw [hw] at hv
        obtain rfl : w = v := Option.some.inj (Option.some.inj hv)
        exact hret
    · cases hs

omit [DecidableEq W] [Fintype W] in
/-- A thread that is running keeps its place when another is joined. -/
theorem Joined.slot {i : Nat} {ths : List (Option W)} (hj : Joined s i ths)
    (h : ∀ w, (s.point w).live = true → s.ths[idx w]? = some (some w)) :
    ∀ w, (s.point w).live = true → ths[idx w]? = some (some w) := by
  intro v hv
  have hslot := h v hv
  have hne : idx v ≠ i := by
    intro he
    rw [hj.returned v (he ▸ hslot)] at hv
    cases hv
  exact (hj.others (idx v) hne).trans hslot

omit [DecidableEq W] [Fintype W] in
theorem Joined.sized {prev i n t : Nat} {ths : List (Option W)} (hj : Joined s i ths)
    (h : Sized s.ths t (.join prev i n)) (hi : i < prev) : Sized ths t (.join prev (i + 1) n) := by
  obtain ⟨hprev, ht, hni, -, hjoined⟩ := h
  refine ⟨hj.length_eq.trans hprev, ht, Nat.le_succ_of_le hni, hi, ?_⟩
  intro k hnk hki
  rcases Nat.lt_succ_iff_lt_or_eq.mp hki with hlt | rfl
  · exact (hj.others k (Nat.ne_of_lt hlt)).trans (hjoined k hnk hlt)
  · exact hj.joined

/-- What the controlling thread does next in `Resize`, thread creation apart. -/
inductive ControlMove (s : ThreadPool W J) : ThreadPool W J → Prop where
  | grown (prev n : Nat) (hc : s.control = .create prev n n) :
    ControlMove s { s with control := .idle }
  | undo (i : Nat) (ths : List (Option W)) (hc : s.control = .undo i) (hi : i < s.ths.length)
    (hj : Joined s i ths) : ControlMove s { s with ths := ths, control := .undo (i + 1) }
  | undone (i : Nat) (hc : s.control = .undo i) (hi : s.ths.length ≤ i) :
    ControlMove s { s with control := .idle }
  | store (n : Nat) (hc : s.control = .store n) :
    ControlMove s { s with atm := s.thControll, control := .write s.thControll n }
  | write (prev n : Nat) (hc : s.control = .write prev n) :
    ControlMove s { s with thControll := n, control := .notifyAll prev n }
  | notifyAll (prev n : Nat) (hc : s.control = .notifyAll prev n) :
    ControlMove s { s with point := fun w => (s.point w).notified, control := .join prev n n }
  | join (prev i n : Nat) (ths : List (Option W)) (hc : s.control = .join prev i n)
    (hi : i < prev) (hj : Joined s i ths) :
    ControlMove s { s with ths := ths, control := .join prev (i + 1) n }
  | cut (prev i n : Nat) (hc : s.control = .join prev i n) (hi : prev ≤ i) :
    ControlMove s { s with ths := s.ths.take n, control := .idle }

omit [DecidableEq W] [Fintype W] in
theorem controlStep_cases (hs : s.controlStep = some s') : ControlMove s s' := by
  cases hc : s.control with
  | idle => simp only [controlStep, hc] at hs; cases hs
  | create prev i n =>
    simp only [controlStep, hc] at hs
    split at hs
    · next hi => exact Option.some.inj hs ▸ .grown prev n (hi ▸ hc)
    · cases hs
  | undo i =>
    simp only [controlStep, hc] at hs
    split at hs
    · next hi =>
      obtain ⟨ths, hj, rfl⟩ := joinAt_spec hs
      exact .undo i ths hc hi hj
    · next hi => exact Option.some.inj hs ▸ .undone i hc (Nat.le_of_not_lt hi)
  | store n =>
    simp only [controlStep, hc] at hs
    exact Option.some.inj hs ▸ .store n hc
  | write prev n =>
    simp only [controlStep, hc] at hs
    exact Option.some.inj hs ▸ .write prev n hc
  | notifyAll prev n =>
    simp only [controlStep, hc] at hs
    exact Option.some.inj hs ▸ .notifyAll prev n hc
  | join prev i n =>
    simp only [controlStep, hc] at hs
    split at hs
    · next hi =>
      obtain ⟨ths, hj, rfl⟩ := joinAt_spec hs
      exact .join prev i n ths hc hi hj
    · next hi =>
      split at hs
      · exact Option.some.inj hs ▸ .cut prev i n hc (Nat.le_of_not_lt hi)
      · cases hs

omit [DecidableEq W] in
/-- A change of the count that concerns no looking thread. -/
theorem lookers_le {t' : Nat}
    (h : ∀ w, (point w).looking = true → idx w < t → idx w < t') :
    lookers idx t point ≤ lookers idx t' point :=
  count_mono fun w hw => ⟨h w hw.2 hw.1, hw.2⟩

omit [DecidableEq W] in
theorem Keeps.resize {n : Nat} (h : Keeps idx 0 s) (hc : s.control = .idle)
    (hk : s.thControll = 0 → 1 ≤ n → Covered s) : Keeps idx 0 (s.resize n) := by
  have hsized := h.sized
  have hcov := h.covered
  have hnoticed := h.noticed
  rw [hc] at hsized hcov hnoticed
  have hlen : s.ths.length = s.thControll := hsized
  unfold ThreadPool.resize
  split
  · exact h
  · next hne =>
    split
    · next hlt =>
      refine ⟨⟨hlen, Nat.le_refl _, Nat.le_of_lt hlt, rfl⟩, h.slot, ?_, trivial, ?_⟩
      · intro hg
        by_cases hz : s.thControll = 0
        · have hcovered := hk hz hg
          simp only [Covered] at hcovered
          simp only [balance, uncounted] at hcovered ⊢
          omega
        · exact hcov (Nat.one_le_iff_ne_zero.mpr hz)
      · intro _ hb
        have := hnoticed rfl hb
        have hle : lookers idx s.thControll s.point ≤ lookers idx n s.point :=
          lookers_le fun w _ hw => Nat.lt_trans hw hlt
        show s.q.length ≤ lookers idx n s.point + s.uncounted + s.unnotified + 0
        omega
    · next hge =>
      have hlt : n < s.thControll := Nat.lt_of_le_of_ne (Nat.le_of_not_lt hge) (Ne.symm hne)
      refine ⟨⟨hlen, hlt⟩, h.slot, hcov, trivial, ?_⟩
      intro hset
      cases hset

omit [Fintype W] in
theorem slot_created {ths : List (Option W)}
    (h : ∀ w, (point w).live = true → ths[idx w]? = some (some w)) (hi : idx w = ths.length) :
    ∀ v, (Function.update point w p' v).live = true →
      (ths ++ [some w])[idx v]? = some (some v) := by
  intro v hv
  by_cases hvw : v = w
  · rw [hvw, hi]
    exact List.getElem?_concat_length
  · rw [Function.update_of_ne hvw] at hv
    have hslot := h v hv
    rw [List.getElem?_append_left (List.getElem?_eq_some_iff.mp hslot).1]
    exact hslot

theorem Keeps.create {prev i n : Nat} (h : Keeps idx 0 s) (hc : s.control = .create prev i n)
    (hp : s.point w = .absent) (hin : i < n) (hi : idx w = i) :
    Keeps idx 0
      ({ s with ths := s.ths ++ [some w], control := .create prev (i + 1) n }.goTo w .check) := by
  have hsized := h.sized
  have hcov := h.covered
  have hnoticed := h.noticed
  rw [hc] at hsized hcov hnoticed
  obtain ⟨hlen, hprev, -, ht⟩ := hsized
  have hu := standing_update PoolPoint.uncounted hp .check
  have hn := standing_update PoolPoint.unnotified hp .check
  have hd := standing_update PoolPoint.popped hp .check
  have hb := standing_update PoolPoint.blocked hp .check
  have hl := lookers_update idx s.thControll hp .check
  rw [looks_of_not (p := .absent) rfl] at hl
  refine ⟨⟨?_, by omega, hin, ht⟩, ?_, ?_, trivial, ?_⟩
  · show (s.ths ++ [some w]).length = i + 1
    rw [List.length_append, hlen]
    rfl
  · exact slot_created h.slot (hi.trans hlen.symm)
  · intro hg
    have hbal := hcov hg
    simp only [balance, uncounted] at hbal
    show 0 ≤ s.atm + ((s.pushed + standing PoolPoint.uncounted (Function.update s.point w .check) :
      Nat) : Int) - s.q.length - standing PoolPoint.popped (Function.update s.point w .check)
    rw [Nat.add_right_cancel hu, Nat.add_right_cancel hd]
    exact hbal
  · intro _ hpos
    have hpos' : 0 < standing PoolPoint.blocked (Function.update s.point w .check) := hpos
    rw [Nat.add_right_cancel hb] at hpos'
    have := hnoticed rfl hpos'
    simp only [uncounted, unnotified] at this
    show s.q.length ≤ lookers idx s.thControll (Function.update s.point w .check) +
      (s.pushed + standing PoolPoint.uncounted (Function.update s.point w .check)) +
      (s.counted + standing PoolPoint.unnotified (Function.update s.point w .check)) + 0
    rw [Nat.add_right_cancel hu, Nat.add_right_cancel hn]
    omega

omit [DecidableEq W] in
theorem Keeps.createFails {prev n : Nat} (h : Keeps idx 0 s)
    (hc : s.control = .create prev prev n) (bSystemError_ : Bool) :
    Keeps idx 0
      { s with
        thControll := prev
        control := if bSystemError_ = true then .undo prev else .idle } := by
  have hsized := h.sized
  have hcov := h.covered
  have hnoticed := h.noticed
  rw [hc] at hsized hcov hnoticed
  obtain ⟨hlen, -, hprev, ht⟩ := hsized
  have hgoal : ∀ c, settled c = true → (1 ≤ goal prev c → 0 ≤ s.balance) := by
    intro c hset hg
    rw [goal_of_settled hset] at hg
    apply hcov
    rw [goal_of_settled rfl]
    omega
  have hlook : 0 < standing PoolPoint.blocked s.point →
      s.q.length ≤ lookers idx prev s.point + s.uncounted + s.unnotified + 0 := by
    intro hpos
    have := hnoticed rfl hpos
    have hle : lookers idx s.thControll s.point ≤ lookers idx prev s.point := by
      apply lookers_le
      intro w hw _
      -- a thread there is one of the vector
      rw [← hlen]
      apply h.lt_length
      cases hp : s.point w with
      | absent => rw [hp] at hw; cases hw
      | returned => rw [hp] at hw; cases hw
      | _ => rfl
    omega
  cases bSystemError_ with
  | false => exact ⟨hlen, h.slot, hgoal .idle rfl, trivial, fun _ => hlook⟩
  | true => exact ⟨⟨hlen, rfl⟩, h.slot, hgoal (.undo prev) rfl, trivial, fun _ => hlook⟩

omit [DecidableEq W] in
theorem Keeps.join {prev i n : Nat} {ths : List (Option W)} (h : Keeps idx 0 s)
    (hc : s.control = .join prev i n) (hi : i < prev) (hj : Joined s i ths) :
    Keeps idx 0 { s with ths := ths, control := .join prev (i + 1) n } := by
  have hsized := h.sized
  have hcov := h.covered
  have hawake := h.awake
  have hnoticed := h.noticed
  rw [hc] at hsized hcov hawake hnoticed
  exact ⟨hj.sized hsized hi, hj.slot h.slot, hcov, hawake, hnoticed⟩

omit [DecidableEq W] [Fintype W] in
theorem sized_cut {prev n : Nat} {ths : List (Option W)} (h : Sized ths t (.join prev prev n)) :
    Sized (ths.take n) t .idle := by
  obtain ⟨hlen, ht, hnp, -, -⟩ := h
  show (ths.take n).length = t
  rw [List.length_take, hlen, ht]
  exact Nat.min_eq_left hnp

omit [DecidableEq W] [Fintype W] in
theorem slot_cut {prev n : Nat} {ths : List (Option W)} (h : Sized ths t (.join prev prev n))
    (hslot : ∀ w, (point w).live = true → ths[idx w]? = some (some w)) :
    ∀ w, (point w).live = true → (ths.take n)[idx w]? = some (some w) := by
  obtain ⟨hlen, -, -, -, hjoined⟩ := h
  intro v hv
  have hv := hslot v hv
  have hlt : idx v < n := by
    by_contra hge
    have hv' := (List.getElem?_eq_some_iff.mp hv).1
    rw [hjoined (idx v) (Nat.le_of_not_lt hge) (hlen ▸ hv')] at hv
    cases hv
  rw [List.getElem?_take_of_lt hlt]
  exact hv

omit [DecidableEq W] in
/-- All threads from `n` on have been joined, and the vector is cut. -/
theorem Keeps.cut {prev n : Nat} (h : Keeps idx 0 s) (hc : s.control = .join prev prev n) :
    Keeps idx 0 { s with ths := s.ths.take n, control := .idle } := by
  have hsized := h.sized
  have hcov := h.covered
  have hnoticed := h.noticed
  rw [hc] at hsized hcov hnoticed
  exact ⟨sized_cut hsized, slot_cut hsized h.slot, hcov, trivial, hnoticed⟩

omit [DecidableEq W] in
theorem standing_notified (h : ∀ p : PoolPoint J, P p.notified = P p)
    (point : W → PoolPoint J) : standing P (fun w => (point w).notified) = standing P point := by
  simp only [standing, count, h]

omit [DecidableEq W] in
theorem Keeps.notifyAll {prev n : Nat} (h : Keeps idx 0 s)
    (hc : s.control = .notifyAll prev n) :
    Keeps idx 0
      { s with point := fun w => (s.point w).notified, control := .join prev n n } := by
  have hsized := h.sized
  have hcov := h.covered
  have hawake := h.awake
  rw [hc] at hsized hcov hawake
  obtain ⟨hlen, ht, hlt⟩ := hsized
  have hwait : ∀ p : PoolPoint J, p.notified.waiting = p.waiting := fun p => by cases p <;> rfl
  refine ⟨⟨hlen, ht, Nat.le_refl n, Nat.le_of_lt hlt, ?_⟩, ?_, ?_, ?_, ?_⟩
  · intro k hnk hkn
    omega
  · intro v hv
    rw [PoolPoint.live_notified] at hv
    exact h.slot v hv
  · intro hg
    have hbal := hcov hg
    simp only [balance, uncounted] at hbal ⊢
    rw [standing_notified (fun p => by cases p <;> rfl),
      standing_notified (fun p => by cases p <;> rfl)]
    exact hbal
  · apply hawake.imp
    · exact fun hpos => ⟨hpos, fun w _ => PoolPoint.blocked_notified _⟩
    · intro hnone w hw
      rw [hwait]
      exact hnone w hw
  · intro _ hpos
    exact absurd hpos (not_standing fun w => PoolPoint.blocked_notified _)

omit [DecidableEq W] in
theorem Keeps.controlStep (h : Keeps idx 0 s) (hk : Kept idx s .control)
    (hs : s.controlStep = some s') : Keeps idx 0 s' := by
  have hsized := h.sized
  have hcov := h.covered
  have hnoticed := h.noticed
  cases controlStep_cases hs with
  | grown prev n hc =>
    rw [hc] at hsized hcov hnoticed
    obtain ⟨hlen, -, -, ht⟩ := hsized
    exact ⟨hlen.trans ht.symm, h.slot, hcov, trivial, hnoticed⟩
  | undo i ths hc hi hj =>
    rw [hc] at hsized
    obtain ⟨hlen, hend⟩ := hsized
    omega
  | undone i hc hi =>
    rw [hc] at hsized hcov hnoticed
    exact ⟨hsized.1, h.slot, hcov, trivial, hnoticed⟩
  | store n hc =>
    rw [hc] at hsized
    simp only [Kept, hc] at hk
    refine ⟨⟨hsized.1, rfl, hsized.2⟩, h.slot, ?_, trivial, nofun⟩
    intro hg
    have hcovered := hk hg
    simp only [Covered, uncounted] at hcovered
    simp only [balance, uncounted]
    omega
  | write prev n hc =>
    rw [hc] at hsized hcov
    simp only [Kept, hc] at hk
    exact ⟨⟨hsized.1, rfl, hsized.2.2⟩, h.slot, hcov, hk, nofun⟩
  | notifyAll prev n hc => exact h.notifyAll hc
  | join prev i n ths hc hi hj => exact h.join hc hi hj
  | cut prev i n hc hi =>
    rw [hc] at hsized
    obtain rfl : i = prev := Nat.le_antisymm hsized.2.2.2.1 hi
    exact h.cut hc

theorem step_keeps {a : PoolAct W J} (h : Keeps idx 0 s) (hk : Kept idx s a)
    (hs : step idx s a = some s') : Keeps idx 0 s' := by
  cases a with
  | push func =>
    obtain rfl := Option.some.inj hs
    exact h.push func
  | increment =>
    simp only [step] at hs
    split at hs
    · cases hs
    · obtain rfl := Option.some.inj hs
      exact h.increment
  | notifyOne v =>
    simp only [step] at hs
    split at hs
    · cases hs
    · exact h.notifyOne hs
  | worker w ok v => exact h.workerStep hk hs
  | call c =>
    simp only [step] at hs
    split at hs
    · next hc =>
      split at hs
      · exact Option.some.inj hs ▸ h
      · next n hn =>
        obtain rfl := Option.some.inj hs
        simp only [Kept, hc, hn] at hk
        exact h.resize hc hk
    · cases hs
  | create w =>
    simp only [step] at hs
    split at hs
    · next prev i n hc hp =>
      split at hs
      · next hi =>
        obtain rfl := Option.some.inj hs
        exact h.create hc hp hi.1 hi.2
      · cases hs
    · cases hs
  | createFails bSystemError_ =>
    simp only [step] at hs
    split at hs
    · next prev i n hc =>
      simp only [Kept, hc] at hk
      subst hk
      split at hs
      · obtain rfl := Option.some.inj hs
        exact h.createFails hc bSystemError_
      · cases hs
    · cases hs
  | control => exact h.controlStep hk hs

omit [DecidableEq W] in
theorem keeps_init : Keeps idx 0 (init : ThreadPool W J) where
  sized := rfl
  slot := nofun
  covered := fun h => absurd h (Nat.not_succ_le_zero 0)
  awake := trivial
  noticed := fun _ _ => Nat.zero_le _

/-! ## The last call of `Enqueue` -/

/-- Where a thread is blocked and a job is queued, an `Enqueue` is in progress. -/
def Served (s : ThreadPool W J) : Prop :=
  settled s.control = true → 0 < standing PoolPoint.blocked s.point → s.q ≠ [] →
    0 < s.uncounted + s.unnotified

theorem Served.move (h : Served s) {q' : List J} {atm' : Int} (hp : s.point w = p)
    (hblock : p'.blocked = false)
    (hnum : q' ≠ [] → 0 < p'.uncounted.toNat + p'.unnotified.toNat ∨
      s.q ≠ [] ∧ p.uncounted.toNat + p.unnotified.toNat = 0) :
    Served ({ s with q := q', atm := atm' }.goTo w p') := by
  have hu := standing_update PoolPoint.uncounted hp p'
  have hn := standing_update PoolPoint.unnotified hp p'
  have hb := standing_update PoolPoint.blocked hp p'
  intro hs hpos hq
  have hpos' : 0 < standing PoolPoint.blocked (Function.update s.point w p') := hpos
  show 0 < s.pushed + standing PoolPoint.uncounted (Function.update s.point w p') +
    (s.counted + standing PoolPoint.unnotified (Function.update s.point w p'))
  rcases hnum hq with hown | ⟨hq', hzero⟩
  · have hself : Function.update s.point w p' w = p' := Function.update_self ..
    have hu' := toNat_le_standing PoolPoint.uncounted hself
    have hn' := toNat_le_standing PoolPoint.unnotified hself
    omega
  · rw [hblock, Bool.toNat_false] at hb
    have := h hs (by omega) hq'
    rw [uncounted, unnotified] at this
    omega

theorem Served.goTo (h : Served s) (hp : s.point w = p) (hblock : p'.blocked = false)
    (hu : p.uncounted = false) (hn : p.unnotified = false) : Served (s.goTo w p') := by
  refine h.move hp hblock fun hq => .inr ⟨hq, ?_⟩
  rw [hu, hn]
  rfl

/-- The threads that are blocked after a `notify_one`. -/
theorem wakeOne_served {v : Option W}
    (hl : s.q = [] ∨ standing PoolPoint.blocked s.point ≤ 1 ∨ 1 ≤ s.uncounted + s.unnotified)
    (hs : s.wakeOne v = some s') : Served s' := by
  cases v with
  | none =>
    simp only [ThreadPool.wakeOne] at hs
    split at hs
    · next hnone =>
      obtain rfl := Option.some.inj hs
      exact fun _ hpos => absurd hpos (not_standing hnone)
    · cases hs
  | some v =>
    simp only [ThreadPool.wakeOne] at hs
    split at hs
    · next hv =>
      obtain rfl := Option.some.inj hs
      have hp := PoolPoint.eq_parked hv
      have hu := standing_update PoolPoint.uncounted hp .woken
      have hn := standing_update PoolPoint.unnotified hp .woken
      have hb := standing_update PoolPoint.blocked hp .woken
      simp only [PoolPoint.blocked, Bool.toNat_true, Bool.toNat_false] at hb
      intro _ hpos hq
      have hpos' : 0 < standing PoolPoint.blocked (Function.update s.point v .woken) := hpos
      show 0 < s.pushed + standing PoolPoint.uncounted (Function.update s.point v .woken) +
        (s.counted + standing PoolPoint.unnotified (Function.update s.point v .woken))
      rw [Nat.add_right_cancel hu, Nat.add_right_cancel hn]
      rcases hl with hnil | hone | howed
      · exact absurd hnil hq
      · omega
      · exact howed
    · cases hs

theorem Served.park (h : Keeps idx 0 s) (h' : Keeps idx 0 (s.goTo w .parked))
    (hlive : (s.point w).live = true) (hwait : (s.point w).waiting = true) (hatm : s.atm = 0) :
    Served (s.goTo w .parked) := by
  intro hs _ hq
  have hlt := h.lt_of_waiting hs hlive hwait (.inr hatm)
  have hle := h'.length_le hs (Nat.lt_of_le_of_lt (Nat.zero_le _) hlt) hatm
  have hpos := List.length_pos_iff.mpr hq
  omega

theorem Served.workerStep {ok : Bool} {v : Option W} (h : Served s) (hkeeps : Keeps idx 0 s)
    (hkeeps' : Keeps idx 0 s') (hk : LastWakes s (.worker w ok v : PoolAct W J))
    (hs : s.workerStep idx w ok v = some s') : Served s' := by
  cases workerStep_cases hs with
  | stay hp _ => exact h.goTo hp rfl rfl rfl
  | leave hp _ => exact h.goTo hp rfl rfl rfl
  | empty hp => exact h.goTo hp rfl rfl rfl
  | pop func q hp hq =>
    refine h.move hp rfl fun _ => .inr ⟨?_, rfl⟩
    rw [hq]
    exact List.cons_ne_nil func q
  | decrement func hp => exact h.move hp rfl fun hq => .inr ⟨hq, rfl⟩
  | again func hp => exact h.goTo hp rfl rfl rfl
  | finish func hp => exact h.goTo hp rfl rfl rfl
  | push func hp => exact h.move hp rfl fun _ => .inl Nat.one_pos
  | drop func hp => exact h.goTo hp rfl rfl rfl
  | increment hp => exact h.move hp rfl fun _ => .inl Nat.one_pos
  | notify s' hp hs =>
    simp only [LastWakes, hp, LastWakes.Last] at hk
    have hu := standing_update PoolPoint.uncounted hp .check
    have hn := standing_update PoolPoint.unnotified hp .check
    have hb := standing_update PoolPoint.blocked hp .check
    simp only [PoolPoint.unnotified, Bool.toNat_true, Bool.toNat_false] at hn
    refine wakeOne_served ?_ hs
    refine hk.imp id (Or.imp ?_ ?_)
    · intro hone
      exact (Nat.add_right_cancel hb).trans_le hone
    · intro howed
      rw [uncounted, unnotified] at howed
      show 1 ≤ s.pushed + standing PoolPoint.uncounted (Function.update s.point w .check) +
        (s.counted + standing PoolPoint.unnotified (Function.update s.point w .check))
      rw [Nat.add_right_cancel hu]
      omega
  | retry hp =>
    rcases hp with hp | hp
    · exact h.goTo hp rfl rfl rfl
    · exact h.goTo hp rfl rfl rfl
  | park hp hatm =>
    rcases hp with hp | hp
    · apply Served.park hkeeps hkeeps' _ _ hatm <;> rw [hp] <;> rfl
    · apply Served.park hkeeps hkeeps' _ _ hatm <;> rw [hp] <;> rfl

omit [DecidableEq W] in
theorem Served.controlStep (h : Served s) (hs : s.controlStep = some s') : Served s' := by
  cases controlStep_cases hs with
  | grown prev n hc => exact fun _ => h (by rw [hc]; rfl)
  | undo i ths hc hi hj => exact fun _ => h (by rw [hc]; rfl)
  | undone i hc hi => exact fun _ => h (by rw [hc]; rfl)
  | store n hc => exact nofun
  | write prev n hc => exact nofun
  | notifyAll prev n hc =>
    exact fun _ hpos => absurd hpos (not_standing fun w => PoolPoint.blocked_notified _)
  | join prev i n ths hc hi hj => exact fun _ => h (by rw [hc]; rfl)
  | cut prev i n hc hi => exact fun _ => h (by rw [hc]; rfl)

theorem step_served {a : PoolAct W J} (h : Served s) (hkeeps : Keeps idx 0 s)
    (hkeeps' : Keeps idx 0 s') (hk : LastWakes s a) (hs : step idx s a = some s') :
    Served s' := by
  cases a with
  | push func =>
    obtain rfl := Option.some.inj hs
    intro _ _ _
    simp only [uncounted]
    omega
  | increment =>
    simp only [step] at hs
    split at hs
    · cases hs
    · obtain rfl := Option.some.inj hs
      intro _ _ _
      simp only [uncounted, unnotified]
      omega
  | notifyOne v =>
    simp only [step] at hs
    split at hs
    · cases hs
    · refine wakeOne_served ?_ hs
      refine Or.imp id (Or.imp id ?_) hk
      intro howed
      simp only [uncounted, unnotified] at howed ⊢
      omega
  | worker w ok v => exact h.workerStep hkeeps hkeeps' hk hs
  | call c =>
    simp only [step] at hs
    split at hs
    · next hc =>
      have hserved : ∀ s', s'.q = s.q → s'.point = s.point → s'.pushed = s.pushed →
          s'.counted = s.counted → Served s' := by
        intro s' hq hpoint hpushed hcounted _
        rw [uncounted, unnotified, hq, hpoint, hpushed, hcounted]
        exact h (by rw [hc]; rfl)
      split at hs
      · exact Option.some.inj hs ▸ h
      · obtain rfl := Option.some.inj hs
        unfold ThreadPool.resize
        split
        · exact h
        · split
          · exact hserved _ rfl rfl rfl rfl
          · exact hserved _ rfl rfl rfl rfl
    · cases hs
  | create w =>
    simp only [step] at hs
    split at hs
    · next prev i n hc hp =>
      split at hs
      · obtain rfl := Option.some.inj hs
        have h' : Served { s with ths := s.ths ++ [some w], control := .create prev (i + 1) n } :=
          fun _ => h (by rw [hc]; rfl)
        exact h'.goTo hp rfl rfl rfl
      · cases hs
    · cases hs
  | createFails bSystemError_ =>
    simp only [step] at hs
    split at hs
    · next prev i n hc =>
      split at hs
      · obtain rfl := Option.some.inj hs
        exact fun _ => h (by rw [hc]; rfl)
      · cases hs
    · cases hs
  | control => exact h.controlStep hs

/-! ## Every run -/

/-- Where no `Enqueue` is past its push and the controlling thread is idle or joins, a
blocked worker is one that will run on. If a job is queued the counter is not 0, so the
worker waits for its `notify` only, and for every job queued another worker is awake and on
its way to the queue. If each last `notify_one` finds no job or leaves nobody blocked, no
job is queued at all. -/
theorem blocked_worker_idle {acts : List (PoolAct W J)}
    (hr : run (step idx) init acts = some s) (hk : Meets (step idx) (Kept idx) init acts)
    (hq : Quiet s) (hw : s.point w = .parked) :
    idx w < s.thControll ∧
      (s.q ≠ [] → s.atm ≠ 0 ∧ s.q.length ≤ lookers idx s.thControll s.point) ∧
      (Meets (step idx) LastWakes init acts → s.q = []) := by
  have h : Keeps idx 0 s := run_invariant (fun _ _ _ h hk hs => step_keeps h hk hs) keeps_init hk hr
  obtain ⟨hu, hn, hcontrol⟩ := hq
  have hset : settled s.control = true := by
    cases hc : s.control with
    | idle => rfl
    | undo i => rfl
    | join prev i n => rfl
    | _ => rw [hc] at hcontrol; exact hcontrol.elim
  have hlt : idx w < s.thControll := by
    apply h.lt_of_waiting hset _ _ (.inl _) <;> rw [hw] <;> rfl
  have hpos : 0 < standing PoolPoint.blocked s.point := by
    refine count_pos.mpr ⟨w, ?_⟩
    rw [hw]
    rfl
  refine ⟨hlt, ?_, ?_⟩
  · intro hne
    constructor
    · intro hatm
      have := h.length_le hset (Nat.lt_of_le_of_lt (Nat.zero_le _) hlt) hatm
      have := List.length_pos_iff.mpr hne
      omega
    · have := h.noticed hset hpos
      omega
  · intro hlast
    by_contra hne
    have hboth : Keeps idx 0 s ∧ Served s := by
      refine run_invariant (I := fun s => Keeps idx 0 s ∧ Served s) ?_ ⟨keeps_init, ?_⟩
        (hk.and hlast) hr
      · intro s a s' h hC hs
        have h' := step_keeps h.1 hC.1 hs
        exact ⟨h', step_served h.2 h.1 h' hC.2 hs⟩
      · exact fun _ _ hne => absurd rfl hne
    have := hboth.2 hset hpos hne
    omega

/-- Two threads and two jobs; then a `Resize` to one thread, up to its joins. -/
def shrinking : List (PoolAct (Fin 2) Unit) :=
  [.call (.start 2), .create 0, .create 1, .control,
    .push (), .increment, .notifyOne none, .push (), .increment, .notifyOne none,
    .call (.resize 1), .control, .control, .control]

/-- A worker takes the next step `n` times. -/
def steps (w : Fin 2) (n : Nat) : List (PoolAct (Fin 2) Unit) :=
  List.replicate n (.worker w false none)

/-- The thread that is to leave does so before the other takes the two jobs and blocks. -/
theorem blocked_worker_idle_resized : ∃ s : ThreadPool (Fin 2) Unit,
    run (step Fin.val) init (shrinking ++ steps 1 1 ++ [.control, .control] ++ steps 0 11) =
      some s ∧
    Fin.val (0 : Fin 2) < s.thControll ∧
      (s.q ≠ [] → s.atm ≠ 0 ∧ s.q.length ≤ lookers Fin.val s.thControll s.point) ∧
      (Meets (step Fin.val) LastWakes init
        (shrinking ++ steps 1 1 ++ [.control, .control] ++ steps 0 11) → s.q = []) := by
  have hrun : ((run (step Fin.val) init (shrinking ++ steps 1 1 ++ [.control, .control] ++
      steps 0 11)).map fun s : ThreadPool (Fin 2) Unit =>
        decide (s.Quiet ∧ s.point 0 = .parked)) = some true := by decide +kernel
  obtain ⟨s, hs, hend⟩ := Option.map_eq_some_iff.mp hrun
  obtain ⟨hquiet, hparked⟩ := of_decide_eq_true hend
  exact ⟨s, hs, blocked_worker_idle hs (by decide +kernel) hquiet hparked⟩

/-- The thread that is to leave has passed the test of its index when the other takes both
jobs: the counter is 0 again, it blocks, and the join waits for it. -/
theorem parked_in_join :
    ¬ ∀ (acts : List (PoolAct (Fin 2) Unit)) (s : ThreadPool (Fin 2) Unit),
      run (step Fin.val) init acts = some s → ¬ Stuck Fin.val s := by
  intro h
  have hrun : ((run (step Fin.val) init ([.call (.start 2), .create 0, .create 1, .control] ++
      steps 1 1 ++ shrinking.drop 4 ++ steps 0 7 ++ steps 1 2)).map
        fun s : ThreadPool (Fin 2) Unit => decide (Stuck Fin.val s)) = some true := by
    decide +kernel
  obtain ⟨s, hs, hstuck⟩ := Option.map_eq_some_iff.mp hrun
  exact h _ s hs (of_decide_eq_true hstuck)

end ThreadPool

end RacingGameServer
