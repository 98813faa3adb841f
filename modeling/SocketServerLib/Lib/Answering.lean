import Mathlib.Data.List.Basic

/-
  Machines that answer.

  `step` takes an operation, and gives the state after it and the answer, or fails. `answers`
  takes a list of operations in order; it fails where one of them does. A specification is a
  machine that does not fail, and `responses` are its answers. `Simulates` says that an
  operation on related states does not fail, is answered as the specification says, and leaves
  related states.

  `Simulates.answers` is the rule for every list of operations, `answers_concat` for one more.
-/
namespace Answering

variable {σ τ ω ρ : Type*}

def answers (step : σ → ω → Option (σ × ρ)) : σ → List ω → Option (σ × List ρ)
  | s, [] => some (s, [])
  | s, op :: ops =>
    (step s op).bind fun r => (answers step r.1 ops).map fun t => (t.1, r.2 :: t.2)

def responses (spec : τ → ω → τ × ρ) : τ → List ω → τ × List ρ
  | t, [] => (t, [])
  | t, op :: ops =>
    let r := spec t op
    let rest := responses spec r.1 ops
    (rest.1, r.2 :: rest.2)

def Simulates (step : σ → ω → Option (σ × ρ)) (spec : τ → ω → τ × ρ) (R : σ → τ → Prop) : Prop :=
  ∀ s t op, R s t → ∃ s', step s op = some (s', (spec t op).2) ∧ R s' (spec t op).1

variable {step : σ → ω → Option (σ × ρ)} {spec : τ → ω → τ × ρ} {R : σ → τ → Prop}

/-- Every list of operations is answered as the specification says. -/
theorem Simulates.answers (h : Simulates step spec R) {s : σ} {t : τ} (hR : R s t)
    (ops : List ω) :
    ∃ s', Answering.answers step s ops = some (s', (responses spec t ops).2) ∧
      R s' (responses spec t ops).1 := by
  induction ops generalizing s t with
  | nil => exact ⟨s, rfl, hR⟩
  | cons op ops ih =>
    obtain ⟨s', hstep, hR'⟩ := h s t op hR
    obtain ⟨s'', hrest, hR''⟩ := ih hR'
    refine ⟨s'', ?_, hR''⟩
    rw [Answering.answers, hstep, Option.bind_some, hrest]
    rfl

/-- One more operation. -/
theorem answers_concat {s t t' : σ} {ops : List ω} {op : ω} {rs : List ρ} {r : ρ}
    (h : Answering.answers step s ops = some (t, rs)) (hop : step t op = some (t', r)) :
    Answering.answers step s (ops ++ [op]) = some (t', rs ++ [r]) := by
  induction ops generalizing s rs with
  | nil =>
    obtain ⟨rfl, rfl⟩ := Prod.mk.inj (Option.some.inj h)
    simp only [List.nil_append, Answering.answers, hop, Option.bind_some, Option.map_some]
  | cons x ops ih =>
    obtain ⟨⟨u, q⟩, hx, hrest⟩ := Option.bind_eq_some_iff.mp h
    obtain ⟨⟨v, qs⟩, hops, heq⟩ := Option.map_eq_some_iff.mp hrest
    obtain ⟨rfl, rfl⟩ := Prod.mk.inj heq
    simp only [List.cons_append, Answering.answers, hx, Option.bind_some, ih hops, Option.map_some]

end Answering
