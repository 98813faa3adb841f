import Mathlib.Data.List.Basic

/-
  Runs of a partial step function.

  A system is a state type, a label type and `step : σ → ℓ → Option σ`: the
  label says which party moves and what the outside world answers, and `none`
  says that the move is not enabled. A run is a list of labels. This file has
  the three notions the developments over such systems use and the induction
  rules that connect them:

    `run step s ls`       the state after the labels `ls`, if all are enabled;
    `Meets step C s ls`   every label of `ls` meets `C` in the state it is taken in;
    `Always step P s ls`  every state the run visits satisfies `P`.

  `run_invariant` is the invariant rule, relative to a condition on the steps, and
  `always_of_meets` the same for the states in between; `always_iff_meets` is its
  two-sided form, for a condition whose failure is seen in the very next state.
  `meets_of_always` and `meets_of_unmarked` are the other half where it is seen later, or in
  the end. `run_refines` takes the runs of one system to those of another.
-/
namespace LabelledRun

variable {σ ℓ : Type*} {step : σ → ℓ → Option σ} {C : σ → ℓ → Prop} {I P : σ → Prop}

/-- The state after the labels are taken in order; `none` where one is not enabled. -/
def run (step : σ → ℓ → Option σ) : σ → List ℓ → Option σ
  | s, [] => some s
  | s, l :: ls => (step s l).bind fun s' => run step s' ls

/-- Every step of the run meets `C` in the state it is taken in. -/
def Meets (step : σ → ℓ → Option σ) (C : σ → ℓ → Prop) : σ → List ℓ → Prop
  | _, [] => True
  | s, l :: ls => C s l ∧ ∀ s', step s l = some s' → Meets step C s' ls

/-- Every state the run visits satisfies `P`, the first and the last included. -/
def Always (step : σ → ℓ → Option σ) (P : σ → Prop) : σ → List ℓ → Prop
  | s, [] => P s
  | s, l :: ls => P s ∧ ∀ s', step s l = some s' → Always step P s' ls

@[simp] theorem run_nil (s : σ) : run step s [] = some s := rfl

theorem run_cons (s : σ) (l : ℓ) (ls : List ℓ) :
    run step s (l :: ls) = (step s l).bind fun s' => run step s' ls := rfl

theorem run_cons_eq_some {s t : σ} {l : ℓ} {ls : List ℓ} :
    run step s (l :: ls) = some t ↔ ∃ s', step s l = some s' ∧ run step s' ls = some t := by
  rw [run_cons, Option.bind_eq_some_iff]

theorem run_append (s : σ) (ls ls' : List ℓ) :
    run step s (ls ++ ls') = (run step s ls).bind fun s' => run step s' ls' := by
  induction ls generalizing s with
  | nil => rfl
  | cons l ls ih =>
    rw [List.cons_append, run_cons, run_cons]
    cases step s l with
    | none => rfl
    | some s' => exact ih s'

/-- Where every step is enabled, so is every run. -/
theorem exists_run (h : ∀ s l, ∃ s', step s l = some s') (s : σ) (ls : List ℓ) :
    ∃ t, run step s ls = some t := by
  induction ls generalizing s with
  | nil => exact ⟨s, rfl⟩
  | cons l ls ih =>
    obtain ⟨s', hs⟩ := h s l
    obtain ⟨t, ht⟩ := ih s'
    exact ⟨t, run_cons_eq_some.mpr ⟨s', hs, ht⟩⟩

/-- A condition that can be checked in each state can be checked along a run. -/
instance decidableMeets [∀ s l, Decidable (C s l)] : ∀ s ls, Decidable (Meets step C s ls)
  | _, [] => .isTrue trivial
  | s, l :: ls =>
    match h : step s l with
    | none =>
      decidable_of_iff (C s l) ⟨fun hC => ⟨hC, fun s' hs => by rw [h] at hs; cases hs⟩, And.left⟩
    | some s' =>
      have : Decidable (Meets step C s' ls) := decidableMeets s' ls
      decidable_of_iff (C s l ∧ Meets step C s' ls)
        ⟨fun hC => ⟨hC.1, fun t ht => Option.some.inj (h.symm.trans ht) ▸ hC.2⟩,
          fun hC => ⟨hC.1, hC.2 s' h⟩⟩

/-- Two conditions are met together. -/
theorem Meets.and {C' : σ → ℓ → Prop} {s : σ} {ls : List ℓ} (h : Meets step C s ls)
    (h' : Meets step C' s ls) : Meets step (fun s l => C s l ∧ C' s l) s ls := by
  induction ls generalizing s with
  | nil => trivial
  | cons l ls ih => exact ⟨⟨h.1, h'.1⟩, fun s' hs => ih (h.2 s' hs) (h'.2 s' hs)⟩

/-- A condition on the labels alone. -/
theorem meets_of_forall_mem {s : σ} {ls : List ℓ} (h : ∀ l ∈ ls, ∀ s, C s l) :
    Meets step C s ls := by
  induction ls generalizing s with
  | nil => trivial
  | cons l ls ih =>
    refine ⟨h l List.mem_cons_self s, fun s' _ => ih ?_⟩
    intro l' hl'
    exact h l' (List.mem_cons_of_mem l hl')

/-- The invariant rule: what holds at the start and is preserved by every step that
meets the condition holds at the end of every run whose steps meet it. -/
theorem run_invariant
    (hstep : ∀ s l s', I s → C s l → step s l = some s' → I s')
    {s t : σ} {ls : List ℓ} (hI : I s) (hC : Meets step C s ls) (hr : run step s ls = some t) :
    I t := by
  induction ls generalizing s with
  | nil =>
    simp only [run_nil, Option.some.injEq] at hr
    exact hr ▸ hI
  | cons l ls ih =>
    obtain ⟨s', hs, hr⟩ := run_cons_eq_some.mp hr
    exact ih (hstep s l s' hI hC.1 hs) (hC.2 s' hs) hr

/-- The invariant rule for a property every step preserves. -/
theorem run_stable (hstep : ∀ s l s', I s → step s l = some s' → I s')
    {s t : σ} {ls : List ℓ} (hI : I s) (hr : run step s ls = some t) : I t :=
  run_invariant (C := fun _ _ => True) (fun s l s' h _ => hstep s l s' h) hI
    (meets_of_forall_mem fun _ _ _ => trivial) hr

/-- Where another system takes a step for each step of this one, or stays where it is, it has a
run for each run. -/
theorem run_refines {τ ℓ' : Type*} {step' : τ → ℓ' → Option τ} {R : σ → τ → Prop}
    (hstep : ∀ s l s' t, R s t → step s l = some s' →
      R s' t ∨ ∃ l' t', step' t l' = some t' ∧ R s' t')
    {s s' : σ} {t : τ} {ls : List ℓ} (hR : R s t) (hr : run step s ls = some s') :
    ∃ ls' t', run step' t ls' = some t' ∧ R s' t' := by
  induction ls generalizing s t with
  | nil => exact ⟨[], t, rfl, Option.some.inj hr ▸ hR⟩
  | cons l ls ih =>
    obtain ⟨s₁, hs, hr⟩ := run_cons_eq_some.mp hr
    rcases hstep s l s₁ t hR hs with hstay | ⟨l', t₁, ht, hR₁⟩
    · exact ih hstay hr
    · obtain ⟨ls', t', hrun, hR'⟩ := ih hR₁ hr
      exact ⟨l' :: ls', t', run_cons_eq_some.mpr ⟨t₁, ht, hrun⟩, hR'⟩

/-- The invariant rule for the states in between. -/
theorem always_of_meets (hIP : ∀ s, I s → P s)
    (hstep : ∀ s l s', I s → C s l → step s l = some s' → I s')
    {s : σ} {ls : List ℓ} (hI : I s) (hC : Meets step C s ls) : Always step P s ls := by
  induction ls generalizing s with
  | nil => exact hIP s hI
  | cons l ls ih => exact ⟨hIP s hI, fun s' hs => ih (hstep s l s' hI hC.1 hs) (hC.2 s' hs)⟩

/-- A condition whose failure leaves a mark `M` that stays: a run that ends without the mark
has met the condition all along. -/
theorem meets_of_unmarked {M : σ → Prop} (hstep : ∀ s l s', I s → step s l = some s' → I s')
    (hmark : ∀ s l s', I s → ¬ C s l → step s l = some s' → M s')
    (hkeep : ∀ s l s', I s → M s → step s l = some s' → M s')
    {s t : σ} {ls : List ℓ} (hI : I s) (hr : run step s ls = some t) (ht : ¬ M t) :
    Meets step C s ls := by
  induction ls generalizing s with
  | nil => trivial
  | cons l ls ih =>
    obtain ⟨s', hs, hr⟩ := run_cons_eq_some.mp hr
    refine ⟨?_, fun s'' hs'' => ?_⟩
    · by_contra hC
      have hM : I t ∧ M t := run_stable (I := fun s => I s ∧ M s)
        (fun s l s' h hs => ⟨hstep s l s' h.1 hs, hkeep s l s' h.1 h.2 hs⟩)
        ⟨hstep s l s' hI hs, hmark s l s' hI hC hs⟩ hr
      exact ht hM.2
    · obtain rfl : s' = s'' := Option.some.inj (hs.symm.trans hs'')
      exact ih (hstep s l s' hI hs) hr

theorem always_head {s : σ} {ls : List ℓ} (h : Always step P s ls) : P s := by
  cases ls with
  | nil => exact h
  | cons l ls => exact h.1

theorem always_last {s t : σ} {ls : List ℓ} (h : Always step P s ls)
    (hr : run step s ls = some t) : P t := by
  induction ls generalizing s with
  | nil => exact Option.some.inj hr ▸ h
  | cons l ls ih =>
    obtain ⟨s', hs, hr⟩ := run_cons_eq_some.mp hr
    exact ih (h.2 s' hs) hr

/-- The other half where the failure of the condition may show late: it leads to a state
without `P` or to a mark `M`, which stays until a state without `P` is visited. A run that
ends without the mark and visits `P`-states only has met the condition. -/
theorem meets_of_always {M : σ → Prop}
    (hstep : ∀ s l s', I s → C s l → step s l = some s' → I s')
    (hbad : ∀ s l s', I s → ¬ C s l → step s l = some s' → P s' → M s')
    (hkeep : ∀ s l s', M s → step s l = some s' → P s' → M s')
    {s t : σ} {ls : List ℓ} (hI : I s) (hr : run step s ls = some t) (ht : ¬ M t)
    (h : Always step P s ls) : Meets step C s ls := by
  have hlast : ∀ {s : σ} {ls : List ℓ}, M s → run step s ls = some t →
      Always step P s ls → M t := by
    intro s ls hM hr h
    induction ls generalizing s with
    | nil => exact Option.some.inj hr ▸ hM
    | cons l ls ih =>
      obtain ⟨s', hs, hr⟩ := run_cons_eq_some.mp hr
      exact ih (hkeep s l s' hM hs (always_head (h.2 s' hs))) hr (h.2 s' hs)
  induction ls generalizing s with
  | nil => trivial
  | cons l ls ih =>
    obtain ⟨s', hs, hr⟩ := run_cons_eq_some.mp hr
    have hC : C s l := by
      by_contra hC
      exact ht (hlast (hbad s l s' hI hC hs (always_head (h.2 s' hs))) hr (h.2 s' hs))
    refine ⟨hC, fun s'' hs'' => ?_⟩
    obtain rfl : s' = s'' := Option.some.inj (hs.symm.trans hs'')
    exact ih (hstep s l s' hI hC hs) hr (h.2 s' hs)

/-- The two-sided rule. `I` is preserved by every step that meets `C` and implies `P`;
a step that does not meet `C` leads from an `I`-state to a state without `P`. Then a run
from an `I`-state visits `P`-states only if and only if all its steps meet `C`. -/
theorem always_iff_meets
    (hIP : ∀ s, I s → P s)
    (hstep : ∀ s l s', I s → C s l → step s l = some s' → I s')
    (hbad : ∀ s l s', I s → ¬ C s l → step s l = some s' → ¬ P s')
    {s t : σ} {ls : List ℓ} (hI : I s) (hr : run step s ls = some t) :
    Always step P s ls ↔ Meets step C s ls := by
  constructor
  · apply meets_of_always (M := fun _ => False) hstep _ (fun _ _ _ hM _ _ => hM) hI hr id
    exact fun s l s' hI hC hs hP => hbad s l s' hI hC hs hP
  · exact always_of_meets hIP hstep hI

end LabelledRun
