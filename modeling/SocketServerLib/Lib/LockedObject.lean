import SocketServerLib.Lib.Answering
import SocketServerLib.Lib.LabelledRun
import SocketServerLib.Lib.TryLock
import Mathlib.Algebra.Order.BigOperators.Group.Finset
import Mathlib.Algebra.Group.Action.Defs

/-
  An object whose operations run statement by statement under a lock.

  Any number of flows call operations. A call is answered at once where its arguments are enough
  for that; otherwise it waits for the one permit of a semaphore, runs the statements of its
  section, and leaves. The flows are interleaved at every statement. `stmt` is one statement from
  a point of the section: it goes on at the next point, or it has the answer, or it throws.

  `log` lists the calls with their answers, in the order in which they have got them, and `settled`
  is the object as the last answer has left it; both are ghosts.

  What is proved, for an object whose sections, run alone, are the operations of `atomic`
  (`Sequential`):
    1. `step_inv`, `run_inv` — in every run the flows are in their sections one at a time, the
       answers are those of `atomic` to the calls in the order of `log`, and no flow throws.
    2. `Inv.before` — a call that has returned is in `log` in front of every later one.
    3. `Inv.view_settled` — who reads without the lock sees the object as the last answer has
       left it, while the operation in its section leaves alone what is read (`Steady`).
    4. `run_togo`, `Inv.goes_on` — where the sections come to their end (`Ends`), the calls do.
-/
namespace LockedObject
open LabelledRun Answering TryLock

variable {σ ω π ρ : Type*}

structure Object (σ ω π ρ : Type*) where
  early : ω → Option ρ
  start : ω → π
  stmt : σ → π → Option (σ × (π ⊕ ρ))

/-- Where a flow is in its call. The answer is `none` when a statement has thrown. -/
inductive Flow (ω π ρ : Type*) where
  | called (op : ω)
  | waiting (op : ω)
  | inside (op : ω) (p : π)
  | leaving (op : ω) (r : Option ρ)
  | returned (op : ω) (r : Option ρ)

/-- What the flow has called. -/
def Flow.op : Flow ω π ρ → ω
  | .called op => op
  | .waiting op => op
  | .inside op _ => op
  | .leaving op _ => op
  | .returned op _ => op

/-- The flow has the permit. -/
def Flow.Holds : Flow ω π ρ → Prop
  | .inside _ _ => True
  | .leaving _ _ => True
  | _ => False

structure System (σ ω π ρ : Type*) where
  object : σ
  permits : Nat
  flows : Nat → Option (Flow ω π ρ)
  calls : Nat
  log : List (Nat × ω × ρ)
  settled : σ

inductive Act (ω : Type*) where
  | call (op : ω)
  | start (i : Nat)
  | acquire (i : Nat)
  | stmt (i : Nat)
  | leave (i : Nat)

namespace System

def init (b : σ) : System σ ω π ρ :=
  { object := b, permits := 1, flows := fun _ => none, calls := 0, log := [], settled := b }

def move (s : System σ ω π ρ) (i : Nat) (f : Flow ω π ρ) : System σ ω π ρ :=
  { s with flows := Function.update s.flows i (some f) }

/-- The part of a call in front of the lock. -/
def start (O : Object σ ω π ρ) (s : System σ ω π ρ) (i : Nat) (op : ω) : System σ ω π ρ :=
  match O.early op with
  | some r => { s with log := s.log ++ [(i, op, r)] }.move i (.returned op (some r))
  | none => s.move i (.waiting op)

/-- One statement of the section. -/
def stmt (O : Object σ ω π ρ) (s : System σ ω π ρ) (i : Nat) (op : ω) (p : π) :
    System σ ω π ρ :=
  match O.stmt s.object p with
  | none => s.move i (.leaving op none)
  | some (b, .inl p') => { s with object := b }.move i (.inside op p')
  | some (b, .inr r) =>
    { s with object := b, settled := b, log := s.log ++ [(i, op, r)] }.move i
      (.leaving op (some r))

def step (O : Object σ ω π ρ) (s : System σ ω π ρ) : Act ω → Option (System σ ω π ρ)
  | .call op => some { s.move s.calls (.called op) with calls := s.calls + 1 }
  | .start i =>
    match s.flows i with
    | some (.called op) => some (s.start O i op)
    | _ => none
  | .acquire i =>
    match s.flows i with
    | some (.waiting op) =>
      if 0 < s.permits then
        some ({ s with permits := s.permits - 1 }.move i (.inside op (O.start op)))
      else none
    | _ => none
  | .stmt i =>
    match s.flows i with
    | some (.inside op p) => some (s.stmt O i op p)
    | _ => none
  | .leave i =>
    match s.flows i with
    | some (.leaving op r) => some ({ s with permits := s.permits + 1 }.move i (.returned op r))
    | _ => none

/-- The entries of a flow. -/
def entries (s : System σ ω π ρ) (i : Nat) : List (Nat × ω × ρ) := s.log.filter fun e => e.1 = i

end System

/-- The step is a new call. -/
def Act.Calls : Act ω → Prop
  | .call _ => True
  | _ => False

/-- The sections come to their end: `rank` is how many statements are left, but for the last. -/
def Ends (O : Object σ ω π ρ) (rank : π → Nat) : Prop :=
  ∀ b p b' p', O.stmt b p = some (b', .inl p') → rank p' < rank p

/-- How many steps a flow has in front of it. -/
def Flow.togo (O : Object σ ω π ρ) (rank : π → Nat) : Flow ω π ρ → Nat
  | .called op => rank (O.start op) + 4
  | .waiting op => rank (O.start op) + 3
  | .inside _ p => rank p + 2
  | .leaving _ _ => 1
  | .returned _ _ => 0

def System.togo (O : Object σ ω π ρ) (rank : π → Nat) (s : System σ ω π ρ) : Nat :=
  ∑ i ∈ Finset.range s.calls, (s.flows i).elim 0 (Flow.togo O rank)

/-- What a flow has in the log. -/
def Flow.logged (i : Nat) : Flow ω π ρ → List (Nat × ω × ρ)
  | .leaving op (some r) => [(i, op, r)]
  | .returned op (some r) => [(i, op, r)]
  | _ => []

/-- No statement has thrown. -/
def Flow.Sound : Flow ω π ρ → Prop
  | .leaving _ none => False
  | .returned _ none => False
  | _ => True

/-- A statement has been taken, and the rest of its section is to come. -/
def rest (alone : σ → π → Option (σ × ρ)) : Option (σ × (π ⊕ ρ)) → Option (σ × ρ)
  | none => none
  | some (b, .inl p) => alone b p
  | some (b, .inr r) => some (b, r)

/-- Run alone, a section does what `atomic` does: `alone` is what is left of it. On the states of
`I` no operation throws. -/
structure Sequential (O : Object σ ω π ρ) (atomic : σ → ω → Option (σ × ρ))
    (alone : σ → π → Option (σ × ρ)) (I : σ → Prop) : Prop where
  early : ∀ op r, O.early op = some r → ∀ b, I b → atomic b op = some (b, r)
  start : ∀ op, O.early op = none → ∀ b, I b → alone b (O.start op) = atomic b op
  stmt : ∀ b p, alone b p = rest alone (O.stmt b p)
  total : ∀ b op, I b → ∃ b' r, atomic b op = some (b', r) ∧ I b'

namespace System

variable {O : Object σ ω π ρ} {atomic : σ → ω → Option (σ × ρ)} {alone : σ → π → Option (σ × ρ)}
  {I : σ → Prop} {s s' : System σ ω π ρ} {a : Act ω} {i : Nat} {op : ω} {p : π} {b₀ : σ}

/-- What holds while a flow has the permit. -/
def Begun (O : Object σ ω π ρ) (atomic : σ → ω → Option (σ × ρ)) (alone : σ → π → Option (σ × ρ))
    (s : System σ ω π ρ) : Flow ω π ρ → Prop
  | .inside op p => O.early op = none ∧ alone s.object p = atomic s.settled op
  | _ => s.object = s.settled

/-- One flow at most has the permit, and the rest of its section does what is left of its
operation. -/
abbrev Locked (O : Object σ ω π ρ) (atomic : σ → ω → Option (σ × ρ))
    (alone : σ → π → Option (σ × ρ)) :
    System σ ω π ρ → (Nat → Option (Flow ω π ρ)) → Prop :=
  Guarded (fun s => decide (0 < s.permits)) Flow.Holds
    (fun s => s.permits = 1 ∧ s.object = s.settled) (Begun O atomic alone)

structure Inv (O : Object σ ω π ρ) (atomic : σ → ω → Option (σ × ρ))
    (alone : σ → π → Option (σ × ρ)) (I : σ → Prop) (b₀ : σ) (s : System σ ω π ρ) : Prop where
  guarded : Locked O atomic alone s s.flows
  waits : ∀ i op, s.flows i = some (.waiting op) → O.early op = none
  answered : answers atomic b₀ (s.log.map fun e => e.2.1) =
    some (s.settled, s.log.map fun e => e.2.2)
  settled : I s.settled
  sound : ∀ i f, s.flows i = some f → f.Sound
  logged : ∀ i, s.entries i = (s.flows i).elim [] (Flow.logged i)
  fresh : ∀ i, s.calls ≤ i → s.flows i = none

/-- What holds in a section is about the object and the permits. -/
theorem Locked.congr {flows : Nat → Option (Flow ω π ρ)} (h : Locked O atomic alone s flows)
    (hobject : s'.object = s.object) (hpermits : s'.permits = s.permits)
    (hsettled : s'.settled = s.settled) : Locked O atomic alone s' flows := by
  apply Guarded.outside h
  · simp only [hpermits]
  · rw [hobject, hpermits, hsettled]
    exact id
  · intro f _ hf
    cases f with
    | inside op p =>
      simp only [Begun] at hf ⊢
      rw [hobject, hsettled]
      exact hf
    | _ =>
      simp only [Begun] at hf ⊢
      rw [hobject, hsettled]
      exact hf

theorem inv_init (hI : I b₀) : (init b₀ : System σ ω π ρ).Inv O atomic alone I b₀ where
  guarded := .init rfl ⟨rfl, rfl⟩ fun _ => rfl
  waits i op h := by cases h
  answered := rfl
  settled := hI
  sound i f h := by cases h
  logged i := rfl
  fresh i h := rfl

theorem entries_append (i j : Nat) (op : ω) (r : ρ) (b : σ) :
    ({ s with log := s.log ++ [(j, op, r)], settled := b } : System σ ω π ρ).entries i =
      if j = i then s.entries i ++ [(j, op, r)] else s.entries i := by
  unfold entries
  rw [List.filter_append]
  by_cases h : j = i
  · simp [h]
  · simp [h]

/-! ## One step -/

/-- The entries of the other flows are as they were. -/
theorem logged_move {f : Flow ω π ρ}
    (h : ∀ j, j ≠ i → s.entries j = (s.flows j).elim [] (Flow.logged j))
    (hf : s.entries i = f.logged i) :
    ∀ j, (s.move i f).entries j = ((s.move i f).flows j).elim [] (Flow.logged j) := by
  intro j
  show s.entries j = (Function.update s.flows i (some f) j).elim [] (Flow.logged j)
  by_cases hj : j = i
  · subst hj
    rw [Function.update_self]
    exact hf
  · rw [Function.update_of_ne hj]
    exact h j hj

theorem sound_move (h : ∀ j f, s.flows j = some f → f.Sound) {f : Flow ω π ρ} (hf : f.Sound) :
    ∀ j g, (s.move i f).flows j = some g → g.Sound := by
  intro j g hg
  rcases Guarded.update_eq_some hg with ⟨-, hg⟩ | ⟨-, hg⟩
  · exact Option.some.inj hg ▸ hf
  · exact h j g hg

theorem waits_move (h : ∀ j op, s.flows j = some (.waiting op) → O.early op = none)
    {f : Flow ω π ρ} (hf : ∀ op, f = .waiting op → O.early op = none) :
    ∀ j op, (s.move i f).flows j = some (.waiting op) → O.early op = none := by
  intro j op hj
  rcases Guarded.update_eq_some hj with ⟨-, hj⟩ | ⟨-, hj⟩
  · exact hf op (Option.some.inj hj)
  · exact h j op hj

theorem fresh_move (h : ∀ j, s.calls ≤ j → s.flows j = none) (hi : i < s.calls)
    (f : Flow ω π ρ) : ∀ j, s.calls ≤ j → (s.move i f).flows j = none := by
  intro j hj
  have hne : j ≠ i := by omega
  show Function.update s.flows i (some f) j = none
  rw [Function.update_of_ne hne]
  exact h j hj

namespace Inv

theorem lt_calls (h : s.Inv O atomic alone I b₀) {f : Flow ω π ρ} (hi : s.flows i = some f) :
    i < s.calls := by
  by_contra hge
  rw [h.fresh i (Nat.le_of_not_lt hge)] at hi
  cases hi

/-- The entries after one more has been made for `i`. -/
theorem logged_append (h : s.Inv O atomic alone I b₀) (op : ω) (r : ρ) (b : σ) (j : Nat)
    (hj : j ≠ i) :
    ({ s with log := s.log ++ [(i, op, r)], settled := b } : System σ ω π ρ).entries j =
      (s.flows j).elim [] (Flow.logged j) := by
  rw [entries_append, if_neg (Ne.symm hj)]
  exact h.logged j

theorem answered_append (h : s.Inv O atomic alone I b₀) {r : ρ} {b : σ}
    (hop : atomic s.settled op = some (b, r)) :
    answers atomic b₀ ((s.log ++ [(i, op, r)]).map fun e => e.2.1) =
      some (b, (s.log ++ [(i, op, r)]).map fun e => e.2.2) := by
  rw [List.map_append, List.map_append]
  exact answers_concat h.answered hop

/-- A flow that has no permit leaves those alone that have one. -/
theorem guarded_idle (h : s.Inv O atomic alone I b₀) {f g : Flow ω π ρ} (hi : s.flows i = some f)
    (hf : ¬ f.Holds) (hg : ¬ g.Holds) : Locked O atomic alone s (s.move i g).flows := by
  apply Guarded.idle h.guarded
  · intro x hx
    obtain rfl := Option.some.inj (hi.symm.trans hx)
    exact hf
  · intro x hx
    obtain rfl := Option.some.inj hx
    exact hg

theorem call (h : s.Inv O atomic alone I b₀) (op : ω) :
    ({ s.move s.calls (.called op) with calls := s.calls + 1 } : System σ ω π ρ).Inv O atomic
      alone I b₀ where
  guarded := by
    refine Locked.congr (s := s) ?_ rfl rfl rfl
    apply Guarded.idle h.guarded
    · intro x hx
      rw [h.fresh _ (Nat.le_refl _)] at hx
      cases hx
    · intro x hx
      obtain rfl := Option.some.inj hx
      exact id
  waits := waits_move h.waits fun op hop => by cases hop
  answered := h.answered
  settled := h.settled
  sound := sound_move h.sound trivial
  logged := by
    apply logged_move fun j _ => h.logged j
    rw [h.logged, h.fresh _ (Nat.le_refl _)]
    rfl
  fresh j hj := by
    show Function.update s.flows s.calls _ j = none
    have hj : s.calls + 1 ≤ j := hj
    rw [Function.update_of_ne (by omega)]
    exact h.fresh j (by omega)

theorem start (hseq : Sequential O atomic alone I) (h : s.Inv O atomic alone I b₀)
    (hi : s.flows i = some (.called op)) : (s.start O i op).Inv O atomic alone I b₀ := by
  have hentries : s.entries i = [] := by
    rw [h.logged i, hi]
    rfl
  unfold System.start
  split
  · next r hearly =>
    -- the answer leaves the object alone
    constructor
    · exact (h.guarded_idle (g := .returned op (some r)) hi id id).congr rfl rfl rfl
    · exact waits_move h.waits fun op hop => by cases hop
    · exact h.answered_append (hseq.early op r hearly _ h.settled)
    · exact h.settled
    · exact sound_move h.sound trivial
    · apply logged_move (h.logged_append op r s.settled)
      rw [entries_append, if_pos rfl, hentries]
      rfl
    · exact fresh_move h.fresh (h.lt_calls hi) _
  · next hearly =>
    constructor
    · exact (h.guarded_idle (g := .waiting op) hi id id).congr rfl rfl rfl
    · apply waits_move h.waits
      intro op' hop
      obtain rfl := Flow.waiting.inj hop
      exact hearly
    · exact h.answered
    · exact h.settled
    · exact sound_move h.sound trivial
    · exact logged_move (fun j _ => h.logged j) hentries
    · exact fresh_move h.fresh (h.lt_calls hi) _

theorem acquire (hseq : Sequential O atomic alone I) (h : s.Inv O atomic alone I b₀)
    (hi : s.flows i = some (.waiting op)) (hpermits : 0 < s.permits) :
    ({ s with permits := s.permits - 1 }.move i (.inside op (O.start op))).Inv O atomic alone I
      b₀ := by
  obtain ⟨hone, hsettled⟩ := h.guarded.free (decide_eq_true hpermits)
  have hearly := h.waits i op hi
  constructor
  · apply Guarded.acquire h.guarded (decide_eq_true hpermits)
    · show decide (0 < s.permits - 1) = false
      rw [hone]
      rfl
    · refine ⟨hearly, ?_⟩
      show alone s.object (O.start op) = atomic s.settled op
      rw [hsettled]
      exact hseq.start op hearly _ h.settled
    · trivial
  · exact waits_move h.waits fun op hop => by cases hop
  · exact h.answered
  · exact h.settled
  · exact sound_move h.sound trivial
  · apply logged_move fun j _ => h.logged j
    rw [h.logged i, hi]
    rfl
  · exact fresh_move h.fresh (h.lt_calls hi) _

theorem stmt (hseq : Sequential O atomic alone I) (h : s.Inv O atomic alone I b₀)
    (hi : s.flows i = some (.inside op p)) : (s.stmt O i op p).Inv O atomic alone I b₀ := by
  obtain ⟨hflag, hearly, halone⟩ := h.guarded.held i _ hi trivial
  obtain ⟨b, r, hatomic, hI⟩ := hseq.total s.settled op h.settled
  have hentries : s.entries i = [] := by
    rw [h.logged i, hi]
    rfl
  rw [hseq.stmt, hatomic] at halone
  unfold System.stmt
  split
  · next hthrow =>
    -- a section that throws would be an operation that does
    rw [hthrow] at halone
    cases halone
  · next b' p' hstmt =>
    rw [hstmt] at halone
    constructor
    · exact Guarded.inside h.guarded hi trivial hflag ⟨hearly, halone.trans hatomic.symm⟩ trivial
    · exact waits_move h.waits fun op hop => by cases hop
    · exact h.answered
    · exact h.settled
    · exact sound_move h.sound trivial
    · exact logged_move (fun j _ => h.logged j) hentries
    · exact fresh_move h.fresh (h.lt_calls hi) _
  · next b' r' hstmt =>
    rw [hstmt] at halone
    obtain ⟨rfl, rfl⟩ := Prod.mk.inj (Option.some.inj halone)
    constructor
    · exact Guarded.inside h.guarded hi trivial hflag rfl trivial
    · exact waits_move h.waits fun op hop => by cases hop
    · exact h.answered_append hatomic
    · exact hI
    · exact sound_move h.sound trivial
    · apply logged_move (h.logged_append op r' b')
      rw [entries_append, if_pos rfl, hentries]
      rfl
    · exact fresh_move h.fresh (h.lt_calls hi) _

theorem leave (h : s.Inv O atomic alone I b₀) {r : Option ρ}
    (hi : s.flows i = some (.leaving op r)) :
    ({ s with permits := s.permits + 1 }.move i (.returned op r)).Inv O atomic alone I b₀ := by
  obtain ⟨hflag, hsettled⟩ := h.guarded.held i _ hi trivial
  have hzero : s.permits = 0 := Nat.eq_zero_of_not_pos (of_decide_eq_false hflag)
  constructor
  · apply Guarded.release h.guarded hi trivial
    · exact decide_eq_true (Nat.succ_pos _)
    · refine ⟨?_, hsettled⟩
      show s.permits + 1 = 1
      rw [hzero]
    · exact id
  · exact waits_move h.waits fun op hop => by cases hop
  · exact h.answered
  · exact h.settled
  · apply sound_move h.sound
    have hr := h.sound i _ hi
    cases r with
    | none => exact hr
    | some r => trivial
  · apply logged_move fun j _ => h.logged j
    rw [h.logged i, hi]
    cases r with
    | none => rfl
    | some r => rfl
  · exact fresh_move h.fresh (h.lt_calls hi) _

end Inv

theorem step_inv (hseq : Sequential O atomic alone I) (h : s.Inv O atomic alone I b₀)
    (hstep : step O s a = some s') : s'.Inv O atomic alone I b₀ := by
  cases a with
  | call op => exact Option.some.inj hstep ▸ h.call op
  | start i =>
    simp only [step] at hstep
    split at hstep
    · next hi => exact Option.some.inj hstep ▸ h.start hseq hi
    · cases hstep
  | acquire i =>
    simp only [step] at hstep
    split at hstep
    · next hi =>
      split at hstep
      · next hpermits => exact Option.some.inj hstep ▸ h.acquire hseq hi hpermits
      · cases hstep
    · cases hstep
  | stmt i =>
    simp only [step] at hstep
    split at hstep
    · next hi => exact Option.some.inj hstep ▸ h.stmt hseq hi
    · cases hstep
  | leave i =>
    simp only [step] at hstep
    split at hstep
    · next hi => exact Option.some.inj hstep ▸ h.leave hi
    · cases hstep

/-! ## Runs -/

theorem run_inv (hseq : Sequential O atomic alone I) (hI : I b₀) {acts : List (Act ω)}
    (hrun : run (step O) (init b₀) acts = some s) : s.Inv O atomic alone I b₀ :=
  run_stable (fun _ _ _ h hstep => step_inv hseq h hstep) (inv_init hI) hrun

/-- A step that adds an entry adds it behind the others. -/
theorem step_log (hstep : step O s a = some s') : s.log <+: s'.log := by
  cases a with
  | call op =>
    obtain rfl := Option.some.inj hstep
    exact List.prefix_rfl
  | start i =>
    simp only [step] at hstep
    split at hstep
    · obtain rfl := Option.some.inj hstep
      unfold start
      split
      · exact List.prefix_append _ _
      · exact List.prefix_rfl
    · cases hstep
  | acquire i =>
    simp only [step] at hstep
    split at hstep
    · split at hstep
      · obtain rfl := Option.some.inj hstep
        exact List.prefix_rfl
      · cases hstep
    · cases hstep
  | stmt i =>
    simp only [step] at hstep
    split at hstep
    · obtain rfl := Option.some.inj hstep
      unfold stmt
      split
      · exact List.prefix_rfl
      · exact List.prefix_rfl
      · exact List.prefix_append _ _
    · cases hstep
  | leave i =>
    simp only [step] at hstep
    split at hstep
    · obtain rfl := Option.some.inj hstep
      exact List.prefix_rfl
    · cases hstep

theorem run_log {acts : List (Act ω)} (hrun : run (step O) s acts = some s') :
    s.log <+: s'.log :=
  run_stable (I := fun t => s.log <+: t.log) (fun _ _ _ h hstep => h.trans (step_log hstep))
    List.prefix_rfl hrun

namespace Inv

/-- The flows are in their sections one at a time. -/
theorem exclusive (h : s.Inv O atomic alone I b₀) {j : Nat} {f g : Flow ω π ρ}
    (hi : s.flows i = some f) (hj : s.flows j = some g) (hf : f.Holds) (hg : g.Holds) : i = j :=
  h.guarded.unique i j f g hi hj hf hg

/-- A flow that has returned has its answer, and is in the log with it, once. -/
theorem returned (h : s.Inv O atomic alone I b₀) {r : Option ρ}
    (hi : s.flows i = some (.returned op r)) :
    ∃ x, r = some x ∧ s.entries i = [(i, op, x)] := by
  have hsound := h.sound i _ hi
  have hlogged := h.logged i
  rw [hi] at hlogged
  cases r with
  | none => exact hsound.elim
  | some x => exact ⟨x, rfl, hlogged⟩

/-- What a flow that has not been called has in the log. -/
theorem entries_fresh (h : s.Inv O atomic alone I b₀) (hi : s.calls ≤ i) : s.entries i = [] := by
  rw [h.logged i, h.fresh i hi]
  rfl

end Inv

theorem mem_of_entries {x : ρ} (h : s.entries i = [(i, op, x)]) : (i, op, x) ∈ s.log := by
  have hmem : (i, op, x) ∈ s.entries i := by
    rw [h]
    exact List.mem_singleton.mpr rfl
  exact List.mem_of_mem_filter hmem

/-- A call that has returned is in the log in front of every later call. -/
theorem Inv.before (h : s.Inv O atomic alone I b₀) (h' : s'.Inv O atomic alone I b₀)
    {acts : List (Act ω)} (hrun : run (step O) s acts = some s') {j : Nat} {op' : ω}
    {r r' : Option ρ} (hi : s.flows i = some (.returned op r)) (hj : s.calls ≤ j)
    (hj' : s'.flows j = some (.returned op' r')) :
    ∃ x y front back, s'.log = front ++ back ∧ (i, op, x) ∈ front ∧ (j, op', y) ∈ back := by
  obtain ⟨x, -, hx⟩ := h.returned hi
  obtain ⟨y, -, hy⟩ := h'.returned hj'
  obtain ⟨back, hback⟩ := run_log hrun
  refine ⟨x, y, s.log, back, hback.symm, mem_of_entries hx, ?_⟩
  have hmem := mem_of_entries hy
  rw [← hback] at hmem
  rcases List.mem_append.mp hmem with hfront | hback
  · -- the later call was not there yet
    have hnone := h.entries_fresh hj
    have hin : (j, op', y) ∈ s.entries j := List.mem_filter.mpr ⟨hfront, decide_eq_true rfl⟩
    rw [hnone] at hin
    cases hin
  · exact hback

/-- A flow stays with its call. -/
theorem op_move {f g f' : Flow ω π ρ} {t : System σ ω π ρ} (hi : s.flows i = some f)
    (hflows : t.flows = s.flows) {j : Nat} (hj : (t.move i g).flows j = some f')
    (hop : g.op = f.op) : ∃ x, s.flows j = some x ∧ f'.op = x.op := by
  have hupdate : Function.update t.flows i (some g) j = some f' := hj
  rw [hflows] at hupdate
  rcases Guarded.update_eq_some hupdate with ⟨hji, hg⟩ | ⟨-, hother⟩
  · obtain rfl := Option.some.inj hg
    exact ⟨f, hji ▸ hi, hop⟩
  · exact ⟨f', hother, rfl⟩

theorem step_op (hstep : step O s a = some s') {j : Nat} {f' : Flow ω π ρ}
    (hj : s'.flows j = some f') :
    a = .call f'.op ∨ ∃ x, s.flows j = some x ∧ f'.op = x.op := by
  cases a with
  | call op =>
    obtain rfl := Option.some.inj hstep
    rcases Guarded.update_eq_some hj with ⟨-, hj⟩ | ⟨-, hj⟩
    · exact .inl (Option.some.inj hj ▸ rfl)
    · exact .inr ⟨f', hj, rfl⟩
  | start i =>
    simp only [step] at hstep
    split at hstep
    · next hi =>
      obtain rfl := Option.some.inj hstep
      right
      unfold start at hj
      split at hj
      · exact op_move hi rfl hj rfl
      · exact op_move hi rfl hj rfl
    · cases hstep
  | acquire i =>
    simp only [step] at hstep
    split at hstep
    · next hi =>
      split at hstep
      · obtain rfl := Option.some.inj hstep
        exact .inr (op_move hi rfl hj rfl)
      · cases hstep
    · cases hstep
  | stmt i =>
    simp only [step] at hstep
    split at hstep
    · next hi =>
      obtain rfl := Option.some.inj hstep
      right
      unfold stmt at hj
      split at hj
      · exact op_move hi rfl hj rfl
      · exact op_move hi rfl hj rfl
      · exact op_move hi rfl hj rfl
    · cases hstep
  | leave i =>
    simp only [step] at hstep
    split at hstep
    · next hi =>
      obtain rfl := Option.some.inj hstep
      exact .inr (op_move hi rfl hj rfl)
    · cases hstep

/-- All calls so far are in `A`. -/
def OnlyCalls (A : ω → Prop) (s : System σ ω π ρ) : Prop := ∀ i f, s.flows i = some f → A f.op

section OnlyCalls

variable {A : ω → Prop} {acts : List (Act ω)}

theorem OnlyCalls.step (h : s.OnlyCalls A) (ha : ∀ op, a = .call op → A op)
    (hstep : System.step O s a = some s') : s'.OnlyCalls A := by
  intro j f' hj
  rcases step_op hstep hj with hcall | ⟨x, hx, hop⟩
  · exact ha _ hcall
  · rw [hop]
    exact h j x hx

theorem meets_calls (hcalls : ∀ op, .call op ∈ acts → A op) :
    Meets (System.step O) (fun _ a => ∀ op, a = .call op → A op) s acts := by
  apply meets_of_forall_mem
  rintro a ha - op rfl
  exact hcalls op ha

theorem OnlyCalls.run (h : s.OnlyCalls A) (hcalls : ∀ op, .call op ∈ acts → A op)
    (hrun : LabelledRun.run (System.step O) s acts = some s') : s'.OnlyCalls A :=
  run_invariant (fun _ _ _ h ha hstep => h.step ha hstep) h (meets_calls hcalls) hrun

/-- No others are in their sections then. -/
theorem OnlyCalls.always (h : s.OnlyCalls A) (hcalls : ∀ op, .call op ∈ acts → A op) :
    Always (System.step O) (fun s => ∀ i op p, s.flows i = some (.inside op p) → A op) s acts :=
  always_of_meets (I := OnlyCalls A) (fun _ h i op p hi => h i (.inside op p) hi)
    (fun _ _ _ h ha hstep => h.step ha hstep) h (meets_calls hcalls)

end OnlyCalls

/-! ## Reading without the lock -/

/-- The statements of the operations in `A` leave `view` alone as long as they have no answer;
`P` are their points. -/
structure Steady (O : Object σ ω π ρ) {α : Type*} (view : σ → α) (A : ω → Prop)
    (P : ω → π → Prop) : Prop where
  start : ∀ op, A op → P op (O.start op)
  stmt : ∀ op b p b' p', P op p → O.stmt b p = some (b', .inl p') → P op p' ∧ view b' = view b

/-- What is seen of the object in the midst of a section. -/
def Seen {α : Type*} (view : σ → α) (A : ω → Prop) (P : ω → π → Prop) (s : System σ ω π ρ) :
    Prop :=
  ∀ i op p, s.flows i = some (.inside op p) → A op → P op p ∧ view s.object = view s.settled

section Reading

variable {α : Type*} {view : σ → α} {A : ω → Prop} {P : ω → π → Prop}

/-- A flow comes to `f`, and the object is the same for the others. -/
theorem Seen.move (h : s.Seen view A P) {f : Flow ω π ρ} {t : System σ ω π ρ}
    (hflows : t.flows = s.flows) (hobject : t.object = s.object) (hsettled : t.settled = s.settled)
    (hf : ∀ op p, f = .inside op p → A op → P op p ∧ view s.object = view s.settled) :
    (t.move i f).Seen view A P := by
  intro j op p hj hop
  show P op p ∧ view t.object = view t.settled
  have hj : Function.update t.flows i (some f) j = some (.inside op p) := hj
  rw [hflows] at hj
  rw [hobject, hsettled]
  rcases Guarded.update_eq_some hj with ⟨-, hj⟩ | ⟨-, hj⟩
  · exact hf op p (Option.some.inj hj) hop
  · exact h j op p hj hop

/-- The flow in its section comes to `f`: nobody else is in one. -/
theorem Inv.seen_alone (hinv : s.Inv O atomic alone I b₀) (hi : s.flows i = some (.inside op p))
    {f : Flow ω π ρ} {t : System σ ω π ρ} (hflows : t.flows = s.flows)
    (hf : ∀ op p, f = .inside op p → A op → P op p ∧ view t.object = view t.settled) :
    (t.move i f).Seen view A P := by
  intro j op' p' hj hop
  have hj : Function.update t.flows i (some f) j = some (.inside op' p') := hj
  rw [hflows] at hj
  rcases Guarded.update_eq_some hj with ⟨-, hj⟩ | ⟨hne, hj⟩
  · exact hf op' p' (Option.some.inj hj) hop
  · exact absurd (hinv.exclusive hj hi trivial trivial) hne

theorem Seen.stmt (hsteady : Steady O view A P) (h : s.Seen view A P)
    (hinv : s.Inv O atomic alone I b₀) (hi : s.flows i = some (.inside op p)) :
    (s.stmt O i op p).Seen view A P := by
  unfold System.stmt
  split
  · exact hinv.seen_alone hi rfl fun op p hf => by cases hf
  · next b' p' hstmt =>
    refine hinv.seen_alone (t := { s with object := b' }) hi rfl ?_
    intro op' p'' hf hop
    obtain ⟨rfl, rfl⟩ := Flow.inside.inj hf
    obtain ⟨hP, hview⟩ := h i _ _ hi hop
    obtain ⟨hP', hview'⟩ := hsteady.stmt _ _ _ _ _ hP hstmt
    exact ⟨hP', hview'.trans hview⟩
  · exact hinv.seen_alone hi rfl fun op p hf => by cases hf

theorem Seen.step (hsteady : Steady O view A P) (h : s.Seen view A P)
    (hinv : s.Inv O atomic alone I b₀) (hstep : System.step O s a = some s') :
    s'.Seen view A P := by
  cases a with
  | call op =>
    obtain rfl := Option.some.inj hstep
    exact h.move rfl rfl rfl fun op p hf => by cases hf
  | start i =>
    simp only [System.step] at hstep
    split at hstep
    · obtain rfl := Option.some.inj hstep
      unfold System.start
      split
      · exact h.move rfl rfl rfl fun op p hf => by cases hf
      · exact h.move rfl rfl rfl fun op p hf => by cases hf
    · cases hstep
  | acquire i =>
    simp only [System.step] at hstep
    split at hstep
    · split at hstep
      · next hpermits =>
        obtain rfl := Option.some.inj hstep
        apply h.move rfl rfl rfl
        intro op p hf hop
        obtain ⟨rfl, rfl⟩ := Flow.inside.inj hf
        obtain ⟨-, hsettled⟩ := hinv.guarded.free (decide_eq_true hpermits)
        rw [hsettled]
        exact ⟨hsteady.start _ hop, rfl⟩
      · cases hstep
    · cases hstep
  | stmt i =>
    simp only [System.step] at hstep
    split at hstep
    · next hi => exact Option.some.inj hstep ▸ h.stmt hsteady hinv hi
    · cases hstep
  | leave i =>
    simp only [System.step] at hstep
    split at hstep
    · obtain rfl := Option.some.inj hstep
      exact h.move rfl rfl rfl fun op p hf => by cases hf
    · cases hstep

theorem run_seen (hseq : Sequential O atomic alone I) (hsteady : Steady O view A P) (hI : I b₀)
    {acts : List (Act ω)} (hrun : run (System.step O) (init b₀) acts = some s) :
    s.Seen view A P := by
  have hboth : s.Inv O atomic alone I b₀ ∧ s.Seen view A P := by
    refine run_stable (I := fun t => t.Inv O atomic alone I b₀ ∧ t.Seen view A P) ?_ ?_ hrun
    · rintro t a t' ⟨hinv, h⟩ hstep
      exact ⟨step_inv hseq hinv hstep, h.step hsteady hinv hstep⟩
    · exact ⟨inv_init hI, fun i op p hi => by cases hi⟩
  exact hboth.2

/-- While the operation in its section, if there is one, is in `A`, the reader sees the object as
the last answer has left it. -/
theorem Inv.view_settled (hinv : s.Inv O atomic alone I b₀) (h : s.Seen view A P)
    (hA : ∀ i op p, s.flows i = some (.inside op p) → A op) :
    view s.object = view s.settled := by
  by_cases hpermits : 0 < s.permits
  · obtain ⟨-, hsettled⟩ := hinv.guarded.free (decide_eq_true hpermits)
    rw [hsettled]
  · obtain ⟨i, f, hi, hf⟩ := hinv.guarded.someone (decide_eq_false hpermits)
    cases f with
    | inside op p => exact (h i op p hi (hA i op p hi)).2
    | leaving op r =>
      have hsettled : s.object = s.settled := (hinv.guarded.held i _ hi hf).2
      rw [hsettled]
    | called op => exact hf.elim
    | waiting op => exact hf.elim
    | returned op r => exact hf.elim

end Reading

/-- What a step does to the object as the last answer leaves it: nothing, or the operation that has
its answer in this step. -/
theorem Inv.step_settled (hseq : Sequential O atomic alone I) (h : s.Inv O atomic alone I b₀)
    (hstep : System.step O s a = some s') :
    s'.settled = s.settled ∨
      ∃ i op p r, s.flows i = some (.inside op p) ∧
        atomic s.settled op = some (s'.settled, r) := by
  cases a with
  | call op => exact .inl (Option.some.inj hstep ▸ rfl)
  | start i =>
    simp only [System.step] at hstep
    split at hstep
    · obtain rfl := Option.some.inj hstep
      left
      unfold System.start
      split <;> rfl
    · cases hstep
  | acquire i =>
    simp only [System.step] at hstep
    split at hstep
    · split at hstep
      · exact .inl (Option.some.inj hstep ▸ rfl)
      · cases hstep
    · cases hstep
  | stmt i =>
    simp only [System.step] at hstep
    split at hstep
    · next op p hi =>
      obtain rfl := Option.some.inj hstep
      obtain ⟨-, -, halone⟩ := h.guarded.held i _ hi trivial
      rw [hseq.stmt] at halone
      unfold System.stmt
      split
      · exact .inl rfl
      · exact .inl rfl
      · next b r hstmt =>
        rw [hstmt] at halone
        exact .inr ⟨i, op, p, r, hi, halone.symm⟩
    · cases hstep
  | leave i =>
    simp only [System.step] at hstep
    split at hstep
    · exact .inl (Option.some.inj hstep ▸ rfl)
    · cases hstep

/-! ## The calls come to an end -/

section Ending

variable {rank : π → Nat}

/-- A flow goes from its point to `g`, and has less to do. -/
theorem togo_move {f g : Flow ω π ρ} {t : System σ ω π ρ} (hi : s.flows i = some f)
    (hlt : i < s.calls) (hflows : t.flows = s.flows) (hcalls : t.calls = s.calls)
    (hg : g.togo O rank < f.togo O rank) : (t.move i g).togo O rank < s.togo O rank := by
  show ∑ j ∈ Finset.range t.calls, (Function.update t.flows i (some g) j).elim 0 (Flow.togo O rank)
    < s.togo O rank
  rw [hcalls, hflows]
  apply Finset.sum_lt_sum
  · intro j _
    by_cases hj : j = i
    · subst hj
      rw [Function.update_self, hi]
      exact hg.le
    · rw [Function.update_of_ne hj]
  · refine ⟨i, Finset.mem_range.mpr hlt, ?_⟩
    rw [Function.update_self, hi]
    exact hg

theorem step_togo (hends : Ends O rank) (h : s.Inv O atomic alone I b₀) (ha : ¬ a.Calls)
    (hstep : System.step O s a = some s') : s'.togo O rank < s.togo O rank := by
  cases a with
  | call op => exact absurd trivial ha
  | start i =>
    simp only [System.step] at hstep
    split at hstep
    · next hi =>
      obtain rfl := Option.some.inj hstep
      unfold System.start
      split
      · exact togo_move hi (h.lt_calls hi) rfl rfl (Nat.succ_pos _)
      · exact togo_move hi (h.lt_calls hi) rfl rfl (Nat.lt_succ_self _)
    · cases hstep
  | acquire i =>
    simp only [System.step] at hstep
    split at hstep
    · next hi =>
      split at hstep
      · obtain rfl := Option.some.inj hstep
        exact togo_move hi (h.lt_calls hi) rfl rfl (Nat.lt_succ_self _)
      · cases hstep
    · cases hstep
  | stmt i =>
    simp only [System.step] at hstep
    split at hstep
    · next op p hi =>
      obtain rfl := Option.some.inj hstep
      have hone : 1 < rank p + 2 := by omega
      unfold System.stmt
      split
      · exact togo_move hi (h.lt_calls hi) rfl rfl hone
      · next b' p' hstmt =>
        exact togo_move hi (h.lt_calls hi) rfl rfl (Nat.add_lt_add_right (hends _ _ _ _ hstmt) 2)
      · exact togo_move hi (h.lt_calls hi) rfl rfl hone
    · cases hstep
  | leave i =>
    simp only [System.step] at hstep
    split at hstep
    · next hi =>
      obtain rfl := Option.some.inj hstep
      exact togo_move hi (h.lt_calls hi) rfl rfl Nat.one_pos
    · cases hstep

theorem run_togo (hends : Ends O rank) (hseq : Sequential O atomic alone I)
    (h : s.Inv O atomic alone I b₀) {acts : List (Act ω)} (hcalls : ∀ a ∈ acts, ¬ a.Calls)
    (hrun : run (System.step O) s acts = some s') :
    acts.length + s'.togo O rank ≤ s.togo O rank := by
  induction acts generalizing s with
  | nil =>
    obtain rfl := Option.some.inj hrun
    exact (Nat.zero_add _).le
  | cons a acts ih =>
    obtain ⟨t, hstep, hrest⟩ := run_cons_eq_some.mp hrun
    have hfirst := step_togo hends h (hcalls a List.mem_cons_self) hstep
    have hrest := ih (step_inv hseq h hstep)
      (fun b hb => hcalls b (List.mem_cons_of_mem a hb)) hrest
    rw [List.length_cons]
    omega

theorem togo_le {n : Nat} (hn : ∀ p, rank p ≤ n) : s.togo O rank ≤ s.calls * (n + 4) := by
  have hflow : ∀ i ∈ Finset.range s.calls, (s.flows i).elim 0 (Flow.togo O rank) ≤ n + 4 := by
    intro i _
    cases s.flows i with
    | none => exact Nat.zero_le _
    | some f =>
      cases f with
      | called op => exact Nat.add_le_add_right (hn _) 4
      | waiting op => exact Nat.add_le_add (hn _) (Nat.le_succ 3)
      | inside op p => exact Nat.add_le_add (hn p) (Nat.le_add_left 2 2)
      | leaving op r => exact Nat.le_add_left 1 (n + 3)
      | returned op r => exact Nat.zero_le _
  have hsum := Finset.sum_le_card_nsmul _ _ (n + 4) hflow
  rw [Finset.card_range, smul_eq_mul] at hsum
  exact hsum

/-- As long as a call has not returned, some flow can go on. -/
theorem Inv.goes_on (h : s.Inv O atomic alone I b₀) {f : Flow ω π ρ} (hi : s.flows i = some f)
    (hf : f.togo O rank ≠ 0) : ∃ a, ¬ a.Calls ∧ System.step O s a ≠ none := by
  -- whoever has the permit goes on
  have hholder : ∀ j g, s.flows j = some g → g.Holds →
      ∃ a : Act ω, ¬ a.Calls ∧ System.step O s a ≠ none := by
    intro j g hj hg
    cases g with
    | inside op p =>
      refine ⟨.stmt j, id, ?_⟩
      simp only [System.step, hj]
      exact Option.some_ne_none _
    | leaving op r =>
      refine ⟨.leave j, id, ?_⟩
      simp only [System.step, hj]
      exact Option.some_ne_none _
    | called op => exact hg.elim
    | waiting op => exact hg.elim
    | returned op r => exact hg.elim
  cases f with
  | called op =>
    refine ⟨.start i, id, ?_⟩
    simp only [System.step, hi]
    exact Option.some_ne_none _
  | waiting op =>
    by_cases hpermits : 0 < s.permits
    · refine ⟨.acquire i, id, ?_⟩
      simp only [System.step, hi, if_pos hpermits]
      exact Option.some_ne_none _
    · obtain ⟨j, g, hj, hg⟩ := h.guarded.someone (decide_eq_false hpermits)
      exact hholder j g hj hg
  | inside op p => exact hholder i _ hi trivial
  | leaving op r => exact hholder i _ hi trivial
  | returned op r => exact absurd rfl hf

end Ending

end System
end LockedObject
