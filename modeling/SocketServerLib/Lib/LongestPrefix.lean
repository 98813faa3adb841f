import Mathlib.Data.List.Basic
import Mathlib.Data.List.Infix

/-
  The longest prefix of a list with a property, as a greedy loop finds it.

  `Longest P xs ys` says that `ys` is the longest prefix of `xs` with `P`. The
  rules follow a loop that walks `xs`: `Longest.nil` where the list ends,
  `Longest.stop` where no prefix with the next element has `P`, `Longest.cons`
  where the loop takes the next element and goes on with what `P` then asks of
  the rest.
-/
namespace LongestPrefix

variable {α : Type*} {P : List α → Prop} {xs ys zs : List α} {x : α}

/-- `ys` is the longest prefix of `xs` with `P`. -/
structure Longest (P : List α → Prop) (xs ys : List α) : Prop where
  front : ys <+: xs
  holds : P ys
  longest : ∀ zs, zs <+: xs → P zs → zs.length ≤ ys.length

namespace Longest

theorem nil (h : P []) : Longest P [] [] where
  front := List.prefix_rfl
  holds := h
  longest _ hz _ := hz.length_le

theorem stop (h : P []) (hx : ∀ t, ¬ P (x :: t)) : Longest P (x :: xs) [] where
  front := List.nil_prefix
  holds := h
  longest zs hz hP := by
    cases zs with
    | nil => exact Nat.le_refl 0
    | cons z t =>
      obtain ⟨rfl, -⟩ := List.cons_prefix_cons.mp hz
      exact absurd hP (hx t)

theorem cons (h : Longest (fun t => P (x :: t)) xs ys) : Longest P (x :: xs) (x :: ys) where
  front := List.cons_prefix_cons.mpr ⟨rfl, h.front⟩
  holds := h.holds
  longest zs hz hP := by
    cases zs with
    | nil => exact Nat.zero_le _
    | cons z t =>
      obtain ⟨rfl, ht⟩ := List.cons_prefix_cons.mp hz
      exact Nat.succ_le_succ (h.longest t ht hP)

theorem congr {Q : List α → Prop} (h : Longest P xs ys) (hPQ : ∀ t, P t ↔ Q t) :
    Longest Q xs ys where
  front := h.front
  holds := (hPQ ys).mp h.holds
  longest zs hz hQ := h.longest zs hz ((hPQ zs).mpr hQ)

end Longest

end LongestPrefix
