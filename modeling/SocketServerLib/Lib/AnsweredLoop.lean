import Mathlib.Algebra.BigOperators.Group.Finset.Basic

/-
  Loops that ask the world outside once a turn.

  `turn` gets the state and the answer of this turn, and leaves the loop with a result or goes
  on. The answers are a stream: there is one for every turn the loop may come to. `loop` is the
  loop with fuel, and `Returns` says that some amount of it is enough.

  `Countdown` is a loop that ends when there is nothing `left` or an answer stops it, and takes
  an `amount` off each turn otherwise: `Countdown.returns_iff` says which streams of answers make
  it return. `not_returns` is for loops that never do.
-/
namespace AnsweredLoop
open Finset

variable {σ α ρ : Type*}

def loop (turn : σ → α → ρ ⊕ σ) : (fuel : Nat) → (answers : Nat → α) → σ → Option ρ
  | 0, _, _ => none
  | fuel + 1, answers, s =>
    match turn s (answers 0) with
    | .inl r => some r
    | .inr s' => loop turn fuel (fun n => answers (n + 1)) s'

def Returns (turn : σ → α → ρ ⊕ σ) (answers : Nat → α) (s : σ) : Prop :=
  ∃ fuel r, loop turn fuel answers s = some r

variable {turn : σ → α → ρ ⊕ σ} {answers : Nat → α} {s s' : σ} {r : ρ}

theorem loop_of_inl (h : turn s (answers 0) = .inl r) (fuel : Nat) :
    loop turn (fuel + 1) answers s = some r := by
  rw [loop, h]

theorem loop_of_inr (h : turn s (answers 0) = .inr s') (fuel : Nat) :
    loop turn (fuel + 1) answers s = loop turn fuel (fun n => answers (n + 1)) s' := by
  rw [loop, h]

/-- A loop that goes on returns if and only if the rest of it does. -/
theorem returns_iff_of_inr (h : turn s (answers 0) = .inr s') :
    Returns turn answers s ↔ Returns turn (fun n => answers (n + 1)) s' := by
  constructor
  · intro hreturns
    obtain ⟨fuel, r, hr⟩ := hreturns
    cases fuel with
    | zero => cases hr
    | succ fuel => exact ⟨fuel, r, (loop_of_inr h fuel).symm.trans hr⟩
  · intro hreturns
    obtain ⟨fuel, r, hr⟩ := hreturns
    exact ⟨fuel + 1, r, (loop_of_inr h fuel).trans hr⟩

/-- A loop that goes on from every state it comes to does not return. -/
theorem not_returns {J : σ → Prop} (hgo : ∀ s a, J s → ∃ s', turn s a = .inr s' ∧ J s')
    (h : J s) : ¬ Returns turn answers s := by
  intro hreturns
  obtain ⟨fuel, r, hr⟩ := hreturns
  induction fuel generalizing answers s with
  | zero => cases hr
  | succ fuel ih =>
    obtain ⟨s', hturn, h'⟩ := hgo s (answers 0) h
    rw [loop_of_inr hturn] at hr
    exact ih h' hr

/-- A loop whose turns make a measure smaller returns after as many of them. -/
theorem loop_of_measure {J : σ → Prop} {A : α → Prop} {Q : ρ → Prop} (μ : σ → Nat)
    (hturn : ∀ s a, J s → A a → (∃ r, turn s a = .inl r ∧ Q r) ∨
      ∃ s', turn s a = .inr s' ∧ J s' ∧ μ s' < μ s)
    (hs : J s) (hanswers : ∀ n, A (answers n)) {fuel : Nat} (hfuel : μ s < fuel) :
    ∃ r, loop turn fuel answers s = some r ∧ Q r := by
  induction fuel generalizing answers s with
  | zero => exact absurd hfuel (Nat.not_lt_zero _)
  | succ fuel ih =>
    rcases hturn s (answers 0) hs (hanswers 0) with ⟨r, hr, hQ⟩ | ⟨s', hgo, hs', hless⟩
    · exact ⟨r, loop_of_inl hr fuel, hQ⟩
    · obtain ⟨r, hr, hQ⟩ := ih hs' (fun n => hanswers (n + 1)) (by omega)
      exact ⟨r, (loop_of_inr hgo fuel).trans hr, hQ⟩

/-- Each turn takes its amount off what is left; the loop ends when nothing is, or at an
answer that stops it. -/
structure Countdown (turn : σ → α → ρ ⊕ σ) (left : σ → Nat) (amount : α → Nat)
    (Stops : α → Prop) : Prop where
  leave : ∀ s a, left s = 0 ∨ Stops a → ∃ r, turn s a = .inl r
  go : ∀ s a, left s ≠ 0 → ¬ Stops a → ∃ s', turn s a = .inr s' ∧ left s' = left s - amount a

variable {left : σ → Nat} {amount : α → Nat} {Stops : α → Prop}

/-- The loop returns if and only if the first answers take all that is left, or one stops it. -/
theorem Countdown.returns_iff (h : Countdown turn left amount Stops) :
    Returns turn answers s ↔
      ∃ n, left s ≤ ∑ m ∈ range n, amount (answers m) ∨ Stops (answers n) := by
  constructor
  · intro hreturns
    obtain ⟨fuel, r, hr⟩ := hreturns
    induction fuel generalizing answers s with
    | zero => cases hr
    | succ fuel ih =>
      by_cases hend : left s = 0 ∨ Stops (answers 0)
      · refine ⟨0, ?_⟩
        rw [range_zero, sum_empty, Nat.le_zero]
        exact hend
      · obtain ⟨hleft, hstop⟩ := not_or.mp hend
        obtain ⟨s', ht, hs'⟩ := h.go s (answers 0) hleft hstop
        rw [loop_of_inr ht] at hr
        obtain ⟨n, hn⟩ := ih hr
        refine ⟨n + 1, ?_⟩
        rw [sum_range_succ']
        exact hn.imp_left fun hle => by omega
  · intro hends
    obtain ⟨n, hn⟩ := hends
    induction n generalizing answers s with
    | zero =>
      rw [range_zero, sum_empty, Nat.le_zero] at hn
      obtain ⟨r, hr⟩ := h.leave s (answers 0) hn
      exact ⟨1, r, loop_of_inl hr 0⟩
    | succ n ih =>
      by_cases hend : left s = 0 ∨ Stops (answers 0)
      · obtain ⟨r, hr⟩ := h.leave s (answers 0) hend
        exact ⟨1, r, loop_of_inl hr 0⟩
      · obtain ⟨hleft, hstop⟩ := not_or.mp hend
        obtain ⟨s', ht, hs'⟩ := h.go s (answers 0) hleft hstop
        rw [returns_iff_of_inr ht]
        rw [sum_range_succ'] at hn
        exact ih (hn.imp_left fun hle => by omega)

end AnsweredLoop
