import Mathlib.Algebra.BigOperators.Group.Finset.Basic
import Mathlib.Algebra.BigOperators.Group.Finset.Piecewise
import Mathlib.Data.Fintype.BigOperators

/-
  How many of finitely many parties stand at the points of a kind.

  `count P f` counts the parties `w` with `P (f w)`. One party moves at a time, so the
  rule that matters is `count_update`: the count loses what the old point contributed
  and gains what the new one does. With it, invariants about a number of parties that
  come and go are linear arithmetic. The parties may also be the entries of a list:
  `set_eq_update` says that one of them moves, and `count_flatMap_set` counts what they
  hold, where each holds a list of things; `flatMap_set_perm` sets what one holds apart from
  what the others do, and `flatMap_perm` leaves out those that hold nothing.
-/
namespace Counting

variable {W π : Type*} [Fintype W]

def count (P : π → Prop) [DecidablePred P] (f : W → π) : Nat :=
  (Finset.univ.filter fun w => P (f w)).card

/-- What one point contributes to the count. -/
def one (P : π → Prop) [DecidablePred P] (x : π) : Nat := if P x then 1 else 0

variable {P Q : π → Prop} [DecidablePred P] [DecidablePred Q] {f : W → π} {w : W} {x : π}

@[simp] theorem one_of (h : P x) : one P x = 1 := if_pos h

@[simp] theorem one_of_not (h : ¬ P x) : one P x = 0 := if_neg h

theorem count_eq_sum (P : π → Prop) [DecidablePred P] (f : W → π) :
    count P f = ∑ w, one P (f w) :=
  Finset.card_filter ..

/-- One party moves. -/
theorem count_update [DecidableEq W] (P : π → Prop) [DecidablePred P] (f : W → π) (w : W) (x : π) :
    count P (Function.update f w x) + one P (f w) = count P f + one P x := by
  have hrest : ∑ v ∈ Finset.univ.erase w, one P (Function.update f w x v) =
      ∑ v ∈ Finset.univ.erase w, one P (f v) := by
    apply Finset.sum_congr rfl
    intro v hv
    rw [Function.update_of_ne (Finset.ne_of_mem_erase hv)]
  rw [count_eq_sum, count_eq_sum, ← Finset.add_sum_erase _ _ (Finset.mem_univ w),
    ← Finset.add_sum_erase _ (fun v => one P (f v)) (Finset.mem_univ w), hrest,
    Function.update_self]
  omega

theorem count_eq_zero : count P f = 0 ↔ ∀ w, ¬ P (f w) := by
  rw [count, Finset.card_eq_zero, Finset.filter_eq_empty_iff]
  exact ⟨fun h w => h (Finset.mem_univ w), fun h w _ => h w⟩

theorem count_pos : 0 < count P f ↔ ∃ w, P (f w) := by
  rw [Nat.pos_iff_ne_zero, ne_eq, count_eq_zero, not_forall_not]

theorem one_le_count (P : π → Prop) [DecidablePred P] (f : W → π) (w : W) :
    one P (f w) ≤ count P f := by
  unfold one
  split
  · next h => exact count_pos.mpr ⟨w, h⟩
  · exact Nat.zero_le _

/-- If one party stands elsewhere, not all are counted. -/
theorem count_lt_card (h : ¬ P (f w)) : count P f < Fintype.card W := by
  apply Finset.card_lt_univ_of_notMem (x := w)
  rw [Finset.mem_filter]
  exact fun hw => h hw.2

/-- Fewer parties stand at a smaller kind of points. -/
theorem count_mono (h : ∀ w, P (f w) → Q (f w)) : count P f ≤ count Q f := by
  apply Finset.card_le_card
  intro w hw
  rw [Finset.mem_filter] at hw ⊢
  exact ⟨hw.1, h w hw.2⟩

/-- One party of a list moves. -/
theorem set_eq_update {l : List π} {i : Nat} (h : l[i]? = some x) (y : π) :
    (fun j : Nat => (l.set i y)[j]?) = Function.update (fun j : Nat => l[j]?) i (some y) := by
  obtain ⟨hlt, -⟩ := List.getElem?_eq_some_iff.mp h
  funext j
  by_cases hj : j = i
  · subst hj
    rw [Function.update_self]
    exact List.getElem?_set_self hlt
  · rw [Function.update_of_ne hj]
    exact List.getElem?_set_ne (Ne.symm hj)

/-- One party of a list moves, and holds other things. -/
theorem count_flatMap_set {α : Type*} [DecidableEq α] (f : π → List α) {l : List π} {i : Nat}
    (h : l[i]? = some x) (y : π) (a : α) :
    ((l.set i y).flatMap f).count a + (f x).count a = (l.flatMap f).count a + (f y).count a := by
  induction l generalizing i with
  | nil => cases h
  | cons z l ih =>
    cases i with
    | zero =>
      obtain rfl := Option.some.inj h
      simp only [List.set_cons_zero, List.flatMap_cons, List.count_append]
      omega
    | succ i =>
      have hrest := ih h
      simp only [List.set_cons_succ, List.flatMap_cons, List.count_append]
      omega

/-- What one party of a list holds, and what the others hold, which stays when that one moves. -/
theorem flatMap_set_perm {α : Type*} (f : π → List α) {l : List π} {i : Nat}
    (h : l[i]? = some x) : ∃ rest, List.Perm (l.flatMap f) (f x ++ rest) ∧
      ∀ y, List.Perm ((l.set i y).flatMap f) (f y ++ rest) := by
  obtain ⟨hlt, rfl⟩ := List.getElem?_eq_some_iff.mp h
  have hperm : ∀ y, List.Perm ((l.set i y).flatMap f)
      (f y ++ ((l.take i).flatMap f ++ (l.drop (i + 1)).flatMap f)) := by
    intro y
    rw [List.set_eq_take_append_cons_drop, if_pos hlt, List.flatMap_append, List.flatMap_cons]
    exact List.perm_append_comm_assoc ..
  refine ⟨_, ?_, hperm⟩
  have hself := hperm l[i]
  rw [List.set_getElem_self] at hself
  exact hself

/-- The entries of a list by their places. -/
theorem flatMap_range {α : Type*} (f : π → List α) (l : List π) :
    (List.range l.length).flatMap (fun i => (l[i]?).elim [] f) = l.flatMap f := by
  induction l with
  | nil => rfl
  | cons x l ih =>
    rw [List.length_cons, List.range_succ_eq_map, List.flatMap_cons, List.flatMap_map,
      List.flatMap_cons, ← ih]
    rfl

/-- Two lists of parties that differ in parties that hold nothing. -/
theorem flatMap_perm {κ α : Type*} [DecidableEq κ] {g : κ → List α} {ks ks' : List κ}
    (h : ks.Nodup) (h' : ks'.Nodup) (hiff : ∀ k, g k ≠ [] → (k ∈ ks ↔ k ∈ ks')) :
    List.Perm (ks.flatMap g) (ks'.flatMap g) := by
  have hfilter : ∀ ks : List κ, (ks.filter fun k => !(g k).isEmpty).flatMap g = ks.flatMap g := by
    intro ks
    induction ks with
    | nil => rfl
    | cons k ks ih =>
      rw [List.flatMap_cons]
      cases hg : g k with
      | nil =>
        rw [List.filter_cons_of_neg (by rw [hg]; exact Bool.false_ne_true), ih, List.nil_append]
      | cons x xs =>
        rw [List.filter_cons_of_pos (by rw [hg]; rfl), List.flatMap_cons, ih, hg]
  rw [← hfilter ks, ← hfilter ks']
  apply List.Perm.flatMap_right
  rw [List.perm_ext_iff_of_nodup (h.filter _) (h'.filter _)]
  intro k
  rw [List.mem_filter, List.mem_filter]
  apply and_congr_left
  intro hk
  apply hiff
  intro hg
  rw [hg] at hk
  cases hk

end Counting
