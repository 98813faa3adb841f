import SocketServerLib.RacingGameServer.ThreadPool

/-
  `ThreadPool::Resize` where a thread cannot be created: what the call leaves behind, over
  every run of calls, of the workers and of `Enqueue`.

  A call is compared with the pool as it stood when the call began. Growth publishes the new
  count before any thread exists. Where it fails, the handler sets the count back and, for a
  `system_error`, joins the threads that were created, but their places in `ths` stay; the
  way down, which joins threads too, cuts the vector afterwards.

  What is proved:
    1. `step_placed` — what every step keeps as long as creation fails at the first new
       thread only: each running worker is in `ths` at its index, and every place that is to
       have a worker has one.
    2. `failed_resize_unchanged` — then, whenever no call is in progress, `ths` has one
       running worker for each index, and a call that failed changed nothing; a run that
       does not end in the handler has this in all its states only then.
    3. `place_of_joined` — a call that fails at its second thread leaves a place behind.

  What is assumed: what `ThreadPool` assumes.
-/
namespace RacingGameServer
open LabelledRun

/-- The pool, the pool when the last call began, and whether that call has failed. -/
structure ResizeRun (W J : Type*) where
  pool : ThreadPool W J
  before : ThreadPool W J
  failed : Bool

namespace ThreadPool

variable {W J : Type*} [DecidableEq W] [Fintype W]

/-- `ths` has as many threads as there are to be, and at each place the worker of that index
is running. -/
def Filled (idx : W → Nat) (s : ThreadPool W J) : Prop :=
  s.ths.length = s.thControll ∧
    ∀ j, j < s.thControll →
      ∃ w, s.ths[j]? = some (some w) ∧ idx w = j ∧ (s.point w).live = true

/-- The same vector and the same threads running. -/
def SameThreads (before s : ThreadPool W J) : Prop :=
  s.ths = before.ths ∧ ∀ w, (s.point w).live = (before.point w).live

/-- The same count too. -/
def Unchanged (before s : ThreadPool W J) : Prop :=
  s.thControll = before.thControll ∧ before.SameThreads s

/-- No thread of the call has been created yet. -/
def atFirst : PoolControl → Bool
  | .create prev i _ => decide (i = prev)
  | _ => true

/-- Creation fails at the first new thread only. -/
def FailsAtFirst (s : ThreadPool W J) : PoolAct W J → Prop
  | .createFails _ => atFirst s.control = true
  | _ => True

end ThreadPool

namespace ResizeRun
open ThreadPool

variable {W J : Type*} [DecidableEq W] [Fintype W]

def init : ResizeRun W J := { pool := .init, before := .init, failed := false }

def step (idx : W → Nat) (r : ResizeRun W J) (a : PoolAct W J) : Option (ResizeRun W J) :=
  (r.pool.step idx a).map fun pool =>
    match a with
    | .call _ => { pool := pool, before := r.pool, failed := false }
    | .createFails _ => { pool := pool, before := r.before, failed := true }
    | _ => { pool := pool, before := r.before, failed := r.failed }

/-- While no call is in progress every place is filled, and a call that failed has left the
pool as it was. -/
def RolledBack (idx : W → Nat) (r : ResizeRun W J) : Prop :=
  r.pool.control = .idle →
    r.pool.Filled idx ∧ (r.failed = true → r.before.Unchanged r.pool)

section Decidable

variable {idx : W → Nat}

instance (s : ThreadPool W J) : Decidable (s.Filled idx) := by
  unfold Filled; infer_instance

instance (before s : ThreadPool W J) : Decidable (before.Unchanged s) := by
  unfold Unchanged SameThreads; infer_instance

instance (s : ThreadPool W J) : DecidablePred s.FailsAtFirst
  | .createFails _ => inferInstanceAs (Decidable (atFirst s.control = true))
  | .push _ | .increment | .notifyOne _ | .worker .. | .call _ | .create _ | .control =>
    .isTrue trivial

instance (r : ResizeRun W J) : Decidable (RolledBack idx r) := by
  unfold RolledBack; infer_instance

end Decidable

end ResizeRun

namespace ThreadPool

variable {W J : Type*} {idx : W → Nat} {s s' t before : ThreadPool W J} {w : W}
  {p p' : PoolPoint J}

/-! ## What happens beside a call -/

/-- The threads move on: none comes to life, and none that is to stay returns. -/
structure Aside (idx : W → Nat) (s s' : ThreadPool W J) : Prop where
  ths : s'.ths = s.ths
  thControll : s'.thControll = s.thControll
  control : s'.control = s.control
  live : ∀ w, (s'.point w).live = true → (s.point w).live = true
  stays : ∀ w, idx w < s.thControll → (s.point w).live = true → (s'.point w).live = true

theorem Aside.of_point (hths : s'.ths = s.ths) (ht : s'.thControll = s.thControll)
    (hc : s'.control = s.control) (hp : s'.point = s.point) : Aside idx s s' := by
  refine ⟨hths, ht, hc, ?_, ?_⟩
  · intro w hw
    rwa [hp] at hw
  · intro w _ hw
    rwa [hp]

theorem Aside.trans (h : Aside idx s s') (h' : Aside idx s' t) : Aside idx s t where
  ths := h'.ths.trans h.ths
  thControll := h'.thControll.trans h.thControll
  control := h'.control.trans h.control
  live := fun w hw => h.live w (h'.live w hw)
  stays := fun w ht hw => h'.stays w (h.thControll ▸ ht) (h.stays w ht hw)

variable [DecidableEq W]

theorem aside_goTo (hp : s.point w = p) (hlive : p.live = true)
    (hstays : idx w < s.thControll → p'.live = true) (q : List J) (atm : Int) :
    Aside idx s ({ s with q := q, atm := atm }.goTo w p') := by
  refine ⟨rfl, rfl, rfl, ?_, ?_⟩
  · intro v hv
    by_cases hvw : v = w
    · rw [hvw, hp]
      exact hlive
    · simp only [goTo, Function.update_of_ne hvw] at hv
      exact hv
  · intro v ht hv
    by_cases hvw : v = w
    · subst hvw
      simp only [goTo, Function.update_self]
      exact hstays ht
    · simp only [goTo, Function.update_of_ne hvw]
      exact hv

variable [Fintype W]

theorem aside_of_wakeOne {v : Option W} (hs : s.wakeOne v = some s') : Aside idx s s' := by
  cases v with
  | none =>
    simp only [wakeOne] at hs
    split at hs
    · exact Option.some.inj hs ▸ .of_point rfl rfl rfl rfl
    · cases hs
  | some v =>
    simp only [wakeOne] at hs
    split at hs
    · next hb =>
      obtain rfl := Option.some.inj hs
      exact aside_goTo (PoolPoint.eq_parked hb) rfl (fun _ => rfl) s.q s.atm
    · cases hs

/-- A worker that is to stay does not return. -/
theorem aside_of_worker {ok : Bool} {v : Option W} (hs : s.workerStep idx w ok v = some s') :
    Aside idx s s' := by
  cases workerStep_cases hs with
  | stay hp hlt => exact aside_goTo hp rfl (fun _ => rfl) s.q s.atm
  | leave hp hge =>
    exact aside_goTo hp rfl (fun hlt => absurd hlt (Nat.not_lt.mpr hge)) s.q s.atm
  | empty hp => exact aside_goTo hp rfl (fun _ => rfl) s.q s.atm
  | pop func q hp hq => exact aside_goTo hp rfl (fun _ => rfl) q s.atm
  | decrement func hp => exact aside_goTo hp rfl (fun _ => rfl) s.q (s.atm - 1)
  | again func hp => exact aside_goTo hp rfl (fun _ => rfl) s.q s.atm
  | finish func hp => exact aside_goTo hp rfl (fun _ => rfl) s.q s.atm
  | push func hp => exact aside_goTo hp rfl (fun _ => rfl) (s.q ++ [func]) s.atm
  | drop func hp => exact aside_goTo hp rfl (fun _ => rfl) s.q s.atm
  | increment hp => exact aside_goTo hp rfl (fun _ => rfl) s.q (s.atm + 1)
  | notify _ hp hw =>
    exact (aside_goTo hp rfl (fun _ => rfl) s.q s.atm).trans (aside_of_wakeOne hw)
  | retry hp =>
    rcases hp with hp | hp
    · exact aside_goTo hp rfl (fun _ => rfl) s.q s.atm
    · exact aside_goTo hp rfl (fun _ => rfl) s.q s.atm
  | park hp hatm =>
    rcases hp with hp | hp
    · exact aside_goTo hp rfl (fun _ => rfl) s.q s.atm
    · exact aside_goTo hp rfl (fun _ => rfl) s.q s.atm

/-! ## What a step can be -/

/-- Not a step of the controlling thread. -/
def beside : PoolAct W J → Bool
  | .push _ | .increment | .notifyOne _ | .worker .. => true
  | _ => false

/-- The steps of a pool: those beside a call, and those of the controlling thread. -/
inductive Move (idx : W → Nat) (s : ThreadPool W J) : PoolAct W J → ThreadPool W J → Prop where
  | aside {a : PoolAct W J} {s' : ThreadPool W J} (ha : beside a = true)
    (h : Aside idx s s') : Move idx s a s'
  | same (c : PoolCall) (hc : s.control = .idle) : Move idx s (.call c) s
  | grow (c : PoolCall) (n : Nat) (hc : s.control = .idle) (hlt : s.thControll < n) :
    Move idx s (.call c)
      { s with thControll := n, control := .create s.thControll s.thControll n }
  | shrink (c : PoolCall) (n : Nat) (hc : s.control = .idle) (hlt : n < s.thControll) :
    Move idx s (.call c) { s with control := .store n }
  | create (w : W) (prev i n : Nat) (hc : s.control = .create prev i n) (hi : i < n)
    (hw : idx w = i) :
    Move idx s (.create w)
      ({ s with ths := s.ths ++ [some w], control := .create prev (i + 1) n }.goTo w .check)
  | createFails (b : Bool) (prev i n : Nat) (hc : s.control = .create prev i n) :
    Move idx s (.createFails b)
      { s with thControll := prev, control := if b = true then .undo prev else .idle }
  | control {s' : ThreadPool W J} (h : ControlMove s s') : Move idx s .control s'

omit [Fintype W] in
theorem move_of_resize (c : PoolCall) (n : Nat) (hc : s.control = .idle) :
    Move idx s (.call c) (s.resize n) := by
  unfold resize
  split
  · exact .same c hc
  · next hne =>
    split
    · next hlt => exact .grow c n hc hlt
    · next hge =>
      exact .shrink c n hc (Nat.lt_of_le_of_ne (Nat.le_of_not_lt hge) (Ne.symm hne))

theorem step_cases {a : PoolAct W J} (hs : step idx s a = some s') : Move idx s a s' := by
  cases a with
  | push func =>
    obtain rfl := Option.some.inj hs
    exact .aside rfl (.of_point rfl rfl rfl rfl)
  | increment =>
    simp only [step] at hs
    split at hs
    · cases hs
    · obtain rfl := Option.some.inj hs
      exact .aside rfl (.of_point rfl rfl rfl rfl)
  | notifyOne v =>
    simp only [step] at hs
    split at hs
    · cases hs
    · have h : Aside idx s { s with counted := s.counted - 1 } := .of_point rfl rfl rfl rfl
      exact .aside rfl (h.trans (aside_of_wakeOne hs))
  | worker w ok v => exact .aside rfl (aside_of_worker hs)
  | call c =>
    simp only [step] at hs
    split at hs
    · next hc =>
      split at hs
      · exact Option.some.inj hs ▸ .same c hc
      · next n _ => exact Option.some.inj hs ▸ move_of_resize c n hc
    · cases hs
  | create w =>
    simp only [step] at hs
    split at hs
    · next prev i n hc _ =>
      split at hs
      · next hi => exact Option.some.inj hs ▸ .create w prev i n hc hi.1 hi.2
      · cases hs
    · cases hs
  | createFails b =>
    simp only [step] at hs
    split at hs
    · next prev i n hc =>
      split at hs
      · exact Option.some.inj hs ▸ .createFails b prev i n hc
      · cases hs
    · cases hs
  | control => exact .control (controlStep_cases hs)

/-! ## Every place has its worker -/

/-- Each running worker is in `ths` at its index, and each place that is to have a worker has
one that runs. -/
structure Placed (idx : W → Nat) (s : ThreadPool W J) : Prop where
  sized : Sized s.ths s.thControll s.control
  slot : ∀ w, (s.point w).live = true → s.ths[idx w]? = some (some w)
  runs : ∀ j, j < s.thControll → j < s.ths.length →
    ∃ w, s.ths[j]? = some (some w) ∧ idx w = j ∧ (s.point w).live = true

omit [DecidableEq W] [Fintype W] in
theorem placed_init : Placed idx (init : ThreadPool W J) where
  sized := rfl
  slot := nofun
  runs := nofun

omit [DecidableEq W] [Fintype W] in
theorem Placed.aside (h : Placed idx s) (ha : Aside idx s s') : Placed idx s' := by
  obtain ⟨hsized, hslot, hruns⟩ := h
  refine ⟨?_, ?_, ?_⟩
  · rw [ha.ths, ha.thControll, ha.control]
    exact hsized
  · intro w hw
    rw [ha.ths]
    exact hslot w (ha.live w hw)
  · intro j hj hlen
    rw [ha.thControll] at hj
    rw [ha.ths] at hlen ⊢
    obtain ⟨w, hw, rfl, hlive⟩ := hruns j hj hlen
    exact ⟨w, hw, rfl, ha.stays w hj hlive⟩

omit [Fintype W] in
theorem Placed.create {prev i n : Nat} (h : Placed idx s) (hc : s.control = .create prev i n)
    (hi : i < n) (hw : idx w = i) :
    Placed idx
      ({ s with ths := s.ths ++ [some w], control := .create prev (i + 1) n }.goTo w .check) := by
  obtain ⟨hsized, hslot, hruns⟩ := h
  rw [hc] at hsized
  obtain ⟨hlen, hprev, -, ht⟩ := hsized
  refine ⟨⟨?_, Nat.le_succ_of_le hprev, hi, ht⟩, slot_created hslot (hw.trans hlen.symm), ?_⟩
  · show (s.ths ++ [some w]).length = i + 1
    rw [List.length_append, hlen]
    rfl
  · intro j hj hjlen
    have hjlen : j < (s.ths ++ [some w]).length := hjlen
    show ∃ v, (s.ths ++ [some w])[j]? = some (some v) ∧ idx v = j ∧
      (Function.update s.point w .check v).live = true
    by_cases hji : j < s.ths.length
    · obtain ⟨v, hv, hidx, hlive⟩ := hruns j hj hji
      have hne : v ≠ w := by
        rintro rfl
        omega
      refine ⟨v, (List.getElem?_append_left hji).trans hv, hidx, ?_⟩
      rw [Function.update_of_ne hne]
      exact hlive
    · -- the place of the new thread
      rw [List.length_append, List.length_singleton] at hjlen
      obtain rfl : j = s.ths.length := by omega
      refine ⟨w, List.getElem?_concat_length, hw.trans hlen.symm, ?_⟩
      rw [Function.update_self]
      rfl

omit [DecidableEq W] [Fintype W] in
theorem Placed.join {prev i n : Nat} {ths : List (Option W)} (h : Placed idx s)
    (hc : s.control = .join prev i n) (hi : i < prev) (hj : Joined s i ths) :
    Placed idx { s with ths := ths, control := .join prev (i + 1) n } := by
  obtain ⟨hsized, hslot, hruns⟩ := h
  rw [hc] at hsized
  have hni : s.thControll ≤ i := hsized.2.1 ▸ hsized.2.2.1
  refine ⟨hj.sized hsized hi, hj.slot hslot, ?_⟩
  intro j hlt hjlen
  have hjlen : j < ths.length := hjlen
  show ∃ w, ths[j]? = some (some w) ∧ _
  rw [hj.others j (Nat.ne_of_lt (Nat.lt_of_lt_of_le hlt hni))]
  exact hruns j hlt (hj.length_eq ▸ hjlen)

omit [DecidableEq W] [Fintype W] in
theorem Placed.cut {prev n : Nat} (h : Placed idx s) (hc : s.control = .join prev prev n) :
    Placed idx { s with ths := s.ths.take n, control := .idle } := by
  obtain ⟨hsized, hslot, hruns⟩ := h
  rw [hc] at hsized
  obtain rfl : s.thControll = n := hsized.2.1
  refine ⟨sized_cut hsized, slot_cut hsized hslot, ?_⟩
  intro j hj hjlen
  have hjlen : j < (s.ths.take s.thControll).length := hjlen
  rw [List.length_take] at hjlen
  show ∃ w, (s.ths.take s.thControll)[j]? = some (some w) ∧ _
  rw [List.getElem?_take_of_lt hj]
  exact hruns j hj (Nat.lt_of_lt_of_le hjlen (Nat.min_le_right _ _))

omit [DecidableEq W] [Fintype W] in
theorem Placed.controlMove (h : Placed idx s) (hm : ControlMove s s') : Placed idx s' := by
  have hsized := h.sized
  cases hm with
  | grown prev n hc =>
    rw [hc] at hsized
    exact ⟨hsized.1.trans hsized.2.2.2.symm, h.slot, h.runs⟩
  | undo i ths hc hi _ =>
    rw [hc] at hsized
    exact absurd hi (by rw [hsized.1, hsized.2]; exact Nat.lt_irrefl _)
  | undone i hc hi =>
    rw [hc] at hsized
    exact ⟨hsized.1, h.slot, h.runs⟩
  | store n hc =>
    rw [hc] at hsized
    exact ⟨⟨hsized.1, rfl, hsized.2⟩, h.slot, h.runs⟩
  | write prev n hc =>
    rw [hc] at hsized
    obtain ⟨hlen, ht, hlt⟩ := hsized
    refine ⟨⟨hlen, rfl, hlt⟩, h.slot, ?_⟩
    intro j hj hjlen
    have hj : j < n := hj
    exact h.runs j (by omega) hjlen
  | notifyAll prev n hc =>
    rw [hc] at hsized
    obtain ⟨hlen, ht, hlt⟩ := hsized
    refine ⟨⟨hlen, ht, Nat.le_refl n, Nat.le_of_lt hlt, ?_⟩, ?_, ?_⟩
    · intro k hnk hkn
      omega
    · intro w hw
      rw [PoolPoint.live_notified] at hw
      exact h.slot w hw
    · intro j hj hjlen
      simp only [PoolPoint.live_notified]
      exact h.runs j hj hjlen
  | join prev i n ths hc hi hj => exact h.join hc hi hj
  | cut prev i n hc hi =>
    rw [hc] at hsized
    obtain rfl : i = prev := Nat.le_antisymm hsized.2.2.2.1 hi
    exact h.cut hc

/-- What the calls keep as long as creation fails at the first new thread only. -/
theorem step_placed {a : PoolAct W J} (h : Placed idx s) (hk : FailsAtFirst s a)
    (hs : step idx s a = some s') : Placed idx s' := by
  have hsized := h.sized
  cases step_cases hs with
  | aside _ ha => exact h.aside ha
  | same c hc => exact h
  | grow c n hc hlt =>
    rw [hc] at hsized
    have hlen : s.ths.length = s.thControll := hsized
    refine ⟨⟨hlen, Nat.le_refl _, Nat.le_of_lt hlt, rfl⟩, h.slot, ?_⟩
    exact fun j _ hjlen => h.runs j (hlen ▸ hjlen) hjlen
  | shrink c n hc hlt =>
    rw [hc] at hsized
    exact ⟨⟨hsized, hlt⟩, h.slot, h.runs⟩
  | create w prev i n hc hi hw => exact h.create hc hi hw
  | createFails b prev i n hc =>
    rw [hc] at hsized
    have hfirst : i = prev := of_decide_eq_true ((congrArg atFirst hc).symm.trans hk)
    obtain ⟨hlen, -, hin, ht⟩ := hsized
    refine ⟨?_, h.slot, ?_⟩
    · cases b with
      | false => exact hlen.trans hfirst
      | true => exact ⟨hlen.trans hfirst, rfl⟩
    · intro j hj hjlen
      have hj : j < prev := hj
      exact h.runs j (by omega) hjlen
  | control hm => exact h.controlMove hm

/-! ## What a failed call leaves -/

omit [DecidableEq W] [Fintype W] in
/-- Where every place is to keep its worker, the same threads run on. -/
theorem SameThreads.aside (hsame : before.SameThreads s) (h : Placed idx s)
    (hle : s.ths.length ≤ s.thControll) (ha : Aside idx s s') : before.SameThreads s' := by
  refine ⟨ha.ths.trans hsame.1, fun w => ?_⟩
  rw [← hsame.2 w, Bool.eq_iff_iff]
  refine ⟨ha.live w, fun hw => ha.stays w ?_ hw⟩
  have hlt := (List.getElem?_eq_some_iff.mp (h.slot w hw)).1
  exact Nat.lt_of_lt_of_le hlt hle

/-- What has changed since the call began, as long as it may fail or has failed. -/
def Since (before : ThreadPool W J) (failed : Bool) (s : ThreadPool W J) : Prop :=
  match s.control with
  | .create prev i _ =>
    failed = false ∧ prev = before.thControll ∧ (i = prev → before.SameThreads s)
  | .idle | .undo _ => failed = true → before.Unchanged s
  | _ => failed = false

omit [DecidableEq W] [Fintype W] in
theorem Since.aside {failed : Bool} (hsince : Since before failed s) (h : Placed idx s)
    (ha : Aside idx s s') : Since before failed s' := by
  have hsized := h.sized
  have hkeep : s.ths.length ≤ s.thControll → before.Unchanged s → before.Unchanged s' :=
    fun hle hu => ⟨ha.thControll.trans hu.1, hu.2.aside h hle ha⟩
  unfold Since at hsince ⊢
  rw [ha.control]
  cases hc : s.control with
  | idle =>
    rw [hc] at hsized hsince
    exact fun hf => hkeep (Nat.le_of_eq hsized) (hsince hf)
  | create prev i n =>
    rw [hc] at hsized hsince
    obtain ⟨hlen, -, hin, ht⟩ := hsized
    exact ⟨hsince.1, hsince.2.1, fun hi => (hsince.2.2 hi).aside h (by omega) ha⟩
  | undo i =>
    rw [hc] at hsized hsince
    exact fun hf => hkeep (Nat.le_of_eq hsized.1) (hsince hf)
  | _ =>
    rw [hc] at hsince
    exact hsince

omit [DecidableEq W] [Fintype W] in
theorem Since.controlMove {failed : Bool} (hsince : Since before failed s) (h : Placed idx s)
    (hm : ControlMove s s') : Since before failed s' := by
  have hsized := h.sized
  cases hm with
  | grown prev n hc =>
    simp only [Since, hc] at hsince
    intro hf
    cases hsince.1.symm.trans hf
  | undo i ths hc hi _ =>
    rw [hc] at hsized
    exact absurd hi (by rw [hsized.1, hsized.2]; exact Nat.lt_irrefl _)
  | undone i hc hi =>
    simp only [Since, hc] at hsince
    exact hsince
  | store n hc =>
    simp only [Since, hc] at hsince
    exact hsince
  | write prev n hc =>
    simp only [Since, hc] at hsince
    exact hsince
  | notifyAll prev n hc =>
    simp only [Since, hc] at hsince
    exact hsince
  | join prev i n ths hc hi hj =>
    simp only [Since, hc] at hsince
    exact hsince
  | cut prev i n hc hi =>
    simp only [Since, hc] at hsince
    intro hf
    cases hsince.symm.trans hf

end ThreadPool

namespace ResizeRun
open ThreadPool

variable {W J : Type*} [DecidableEq W] [Fintype W] {idx : W → Nat} {r r' : ResizeRun W J}
  {a : PoolAct W J}

/-- The step of the pool under a step of the run. -/
theorem pool_step (hs : step idx r a = some r') : r.pool.step idx a = some r'.pool := by
  obtain ⟨pool, hpool, rfl⟩ := Option.map_eq_some_iff.mp hs
  rw [hpool]
  cases a <;> rfl

theorem step_since (h : Placed idx r.pool) (hsince : Since r.before r.failed r.pool)
    (hk : FailsAtFirst r.pool a) (hs : step idx r a = some r') :
    Since r'.before r'.failed r'.pool := by
  have hsized := h.sized
  obtain ⟨pool, hpool, rfl⟩ := Option.map_eq_some_iff.mp hs
  cases step_cases hpool with
  | aside hbeside ha =>
    have hkeep := hsince.aside h ha
    cases a with
    | call c => cases hbeside
    | createFails b => cases hbeside
    | _ => exact hkeep
  | same c hc =>
    simp only [Since, hc]
    exact nofun
  | grow c n hc hlt => exact ⟨rfl, rfl, fun _ => ⟨rfl, fun _ => rfl⟩⟩
  | shrink c n hc hlt => exact (rfl : false = false)
  | create w prev i n hc hi hw =>
    rw [hc] at hsized
    simp only [Since, hc] at hsince
    refine ⟨hsince.1, hsince.2.1, fun hp => ?_⟩
    have := hsized.2.1
    omega
  | createFails b prev i n hc =>
    have hfirst : i = prev := of_decide_eq_true ((congrArg atFirst hc).symm.trans hk)
    simp only [Since, hc] at hsince
    obtain ⟨-, hprev, hsame⟩ := hsince
    cases b with
    | false => exact fun _ => ⟨hprev, hsame hfirst⟩
    | true => exact fun _ => ⟨hprev, hsame hfirst⟩
  | control hm => exact hsince.controlMove h hm

/-! ## A creation that fails later -/

/-- The handler joins threads that were created, and `ths` is longer than the count. -/
def LeftOver (r : ResizeRun W J) : Prop :=
  (∃ i, r.pool.control = .undo i) ∧ r.pool.thControll < r.pool.ths.length

omit [DecidableEq W] [Fintype W] in
theorem not_rolledBack (hc : r.pool.control = .idle)
    (hlt : r.pool.thControll < r.pool.ths.length) : ¬ RolledBack idx r :=
  fun h => Nat.ne_of_gt hlt (h hc).1.1

theorem step_late (h : Placed idx r.pool) (hk : ¬ FailsAtFirst r.pool a)
    (hs : step idx r a = some r') (hb : RolledBack idx r') : LeftOver r' := by
  have hsized := h.sized
  cases a with
  | createFails b =>
    obtain ⟨pool, hpool, rfl⟩ := Option.map_eq_some_iff.mp hs
    cases step_cases hpool with
    | aside hbeside _ => cases hbeside
    | createFails _ prev i n hc =>
      rw [hc] at hsized
      have hk : i ≠ prev := fun hi => hk ((congrArg atFirst hc).trans (decide_eq_true hi))
      obtain ⟨hlen, hle, -, -⟩ := hsized
      have hlt : prev < r.pool.ths.length := by omega
      cases b with
      | false => exact absurd hb (not_rolledBack rfl hlt)
      | true => exact ⟨⟨prev, rfl⟩, hlt⟩
  | _ => exact absurd trivial hk

theorem step_leftOver (hleft : LeftOver r) (hs : step idx r a = some r')
    (hb : RolledBack idx r') : LeftOver r' := by
  obtain ⟨⟨i, hu⟩, hlt⟩ := hleft
  have hother : ∀ {c : PoolControl}, r.pool.control = c → (∀ i, c ≠ .undo i) → False :=
    fun hc hne => hne i (hc.symm.trans hu)
  obtain ⟨pool, hpool, rfl⟩ := Option.map_eq_some_iff.mp hs
  cases step_cases hpool with
  | aside hbeside ha =>
    have hc := ha.control.trans hu
    have hlt' := hlt
    rw [← ha.thControll, ← ha.ths] at hlt'
    cases a with
    | call c => cases hbeside
    | createFails b => cases hbeside
    | _ => exact ⟨⟨i, hc⟩, hlt'⟩
  | same c hc => exact (hother hc nofun).elim
  | grow c n hc _ => exact (hother hc nofun).elim
  | shrink c n hc _ => exact (hother hc nofun).elim
  | create w prev i n hc _ _ => exact (hother hc nofun).elim
  | createFails b prev i n hc => exact (hother hc nofun).elim
  | control hm =>
    cases hm with
    | undo j ths hc hj hjoined =>
      refine ⟨⟨j + 1, rfl⟩, ?_⟩
      show r.pool.thControll < ths.length
      rw [hjoined.length_eq]
      exact hlt
    | undone j hc hj => exact absurd hb (not_rolledBack rfl hlt)
    | grown prev n hc => exact (hother hc nofun).elim
    | store n hc => exact (hother hc nofun).elim
    | write prev n hc => exact (hother hc nofun).elim
    | notifyAll prev n hc => exact (hother hc nofun).elim
    | join prev i n ths hc _ _ => exact (hother hc nofun).elim
    | cut prev i n hc _ => exact (hother hc nofun).elim

/-! ## Every run -/

/-- As long as a thread cannot be created only where none of the call has been created yet,
there is a running worker for each index whenever no call is in progress, and a call that
failed changed nothing. A run that does not end in the handler has this in all its states
only then. -/
theorem failed_resize_unchanged {acts : List (PoolAct W J)}
    (hr : run (step idx) init acts = some r) :
    (Meets (step idx) (fun r => FailsAtFirst r.pool) init acts →
      Always (step idx) (RolledBack idx) init acts) ∧
    ((∀ i, r.pool.control ≠ .undo i) → Always (step idx) (RolledBack idx) init acts →
      Meets (step idx) (fun r => FailsAtFirst r.pool) init acts) := by
  let I : ResizeRun W J → Prop := fun r => Placed idx r.pool ∧ Since r.before r.failed r.pool
  have hinit : I init := ⟨placed_init, nofun⟩
  have hstep : ∀ (r : ResizeRun W J) a r', I r → FailsAtFirst r.pool a →
      step idx r a = some r' → I r' := by
    intro r a r' h hk hs
    exact ⟨step_placed h.1 hk (pool_step hs), step_since h.1 h.2 hk hs⟩
  constructor
  · apply always_of_meets _ hstep hinit
    intro r h hc
    obtain ⟨⟨hsized, -, hruns⟩, hsince⟩ := h
    rw [hc] at hsized
    simp only [Since, hc] at hsince
    exact ⟨⟨hsized, fun j hj => hruns j hj (hsized.symm ▸ hj)⟩, hsince⟩
  · intro hend
    refine meets_of_always hstep ?_ ?_ hinit hr (M := LeftOver) ?_
    · exact fun r a r' h hk hs hb => step_late h.1 hk hs hb
    · exact fun r a r' hM hs hb => step_leftOver hM hs hb
    · exact fun hM => hM.1.elim hend

/-- There is one thread, of index 0. A call that fails at it, and then one that succeeds. -/
def failedThenGrown : List (PoolAct Unit Unit) :=
  [.call (.resize 2), .createFails true, .control, .call (.resize 1), .create (), .control]

theorem failed_then_grown : ∃ r : ResizeRun Unit Unit,
    run (step fun _ => 0) init failedThenGrown = some r ∧
      Always (step fun _ => 0) (RolledBack fun _ => 0) init failedThenGrown ∧
      Meets (step fun _ => 0) (fun r => FailsAtFirst r.pool) init failedThenGrown := by
  have hrun : ((run (step fun _ => 0) init failedThenGrown).map fun r : ResizeRun Unit Unit =>
      decide (r.pool.control = .idle)) = some true := by decide +kernel
  obtain ⟨r, hr, hend⟩ := Option.map_eq_some_iff.mp hrun
  have hidle := of_decide_eq_true hend
  have hboth := failed_resize_unchanged hr
  have hall := hboth.1 (by decide +kernel)
  exact ⟨r, hr, hall, hboth.2 (fun i hi => nomatch hidle.symm.trans hi) hall⟩

/-- The second of two threads cannot be created. The first is joined, and `ths` has a place
although no thread is to be there. -/
theorem place_of_joined :
    ¬ ∀ (acts : List (PoolAct Unit Unit)) (r : ResizeRun Unit Unit),
      run (step fun _ => 0) init acts = some r → RolledBack (fun _ => 0) r := by
  intro h
  have hrun : ((run (step fun _ => 0) init ([.call (.resize 2), .create (), .createFails true,
      .worker () true none, .control, .control] : List (PoolAct Unit Unit))).map
        fun r : ResizeRun Unit Unit => decide (RolledBack (fun _ => 0) r)) = some false := by
    decide +kernel
  obtain ⟨r, hr, hend⟩ := Option.map_eq_some_iff.mp hrun
  exact of_decide_eq_false hend (h _ r hr)

end ResizeRun

end RacingGameServer
