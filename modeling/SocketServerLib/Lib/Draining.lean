import Mathlib.Logic.Relation
import SocketServerLib.Lib.PrefixFraming

/-
  Loops that take a stream apart from its front, one view a turn.

  `turn` gives out a view and the state after it, and `none` where the loop ends. `loop` is
  the loop with fuel, and collects the views. What matters of a state is its `content`.
  `Cuts` says that a turn gives out the complete frame at the front and takes it off, that
  the loop ends where there is none, and that it gives out an empty view, and changes
  nothing, where the content is `Stuck`.

  What is proved:
    1. `loop_invariant` — what a turn keeps, with the views so far, the loop keeps.
    2. `Cuts.loop_frames` — if what follows the frames is not stuck, the loop ends, its views
       are the frames, and it leaves the rest.
    3. `Cuts.returns_iff`, `Cuts.shrinks_iff`, `Cuts.views_iff` — it ends, every turn takes
       something off, and every view is the frame at the front, only if it is not.
-/
namespace Draining

variable {σ β α : Type*}

/-- The loop; `given` are the views so far. -/
def loop (turn : σ → Option (β × σ)) : (fuel : Nat) → σ → List β → Option (σ × List β)
  | 0, _, _ => none
  | fuel + 1, s, given =>
    match turn s with
    | none => some (s, given)
    | some (v, s') => loop turn fuel s' (given ++ [v])

/-- From the head of the loop to a later one. -/
def TurnsTo (turn : σ → Option (β × σ)) : σ → σ → Prop :=
  Relation.ReflTransGen fun s s' => ∃ v, turn s = some (v, s')

def Returns (turn : σ → Option (β × σ)) (s : σ) : Prop :=
  ∃ fuel r, loop turn fuel s [] = some r

variable {turn : σ → Option (β × σ)} {s s' t : σ} {given views : List β}

theorem loop_of_none (h : turn s = none) (fuel : Nat) (given : List β) :
    loop turn (fuel + 1) s given = some (s, given) := by
  rw [loop, h]

theorem loop_of_some {v : β} (h : turn s = some (v, s')) (fuel : Nat) (given : List β) :
    loop turn (fuel + 1) s given = loop turn fuel s' (given ++ [v]) := by
  rw [loop, h]

/-- What every turn keeps, with the views so far, holds in the end. -/
theorem loop_invariant {J : σ → List β → Prop}
    (hturn : ∀ s given v s', J s given → turn s = some (v, s') → J s' (given ++ [v]))
    {fuel : Nat} (h : J s given) (hr : loop turn fuel s given = some (t, views)) : J t views := by
  induction fuel generalizing s given with
  | zero => cases hr
  | succ fuel ih =>
    cases hs : turn s with
    | none =>
      rw [loop_of_none hs] at hr
      cases hr
      exact h
    | some r =>
      obtain ⟨v, s'⟩ := r
      rw [loop_of_some hs] at hr
      exact ih (hturn s given v s' h hs) hr

/-- The turns give out and take off the frames of `F`, and no more than that, unless the content
is stuck. -/
structure Cuts (F : PrefixFraming α) (content : σ → List α) (Stuck : List α → Prop) (I : σ → Prop)
    (turn : σ → Option (List α × σ)) : Prop where
  next_stuck : ∀ {r}, Stuck r → F.next r = none
  cut : ∀ {s n}, I s → F.next (content s) = some n →
    ∃ s', turn s = some ((content s).take n, s') ∧ I s' ∧ content s' = (content s).drop n
  stop : ∀ {s}, I s → F.next (content s) = none → ¬ Stuck (content s) → turn s = none
  stick : ∀ {s}, I s → Stuck (content s) →
    ∃ s', turn s = some ([], s') ∧ I s' ∧ content s' = content s

namespace Cuts
open PrefixFraming

variable {F : PrefixFraming α} {content : σ → List α} {Stuck : List α → Prop} {I : σ → Prop}
  {turn : σ → Option (List α × σ)} {given : List (List α)}

/-- The frames go out in order and the rest stays. -/
theorem loop_frames (h : Cuts F content Stuck I turn) (hI : I s)
    (hrest : ¬ Stuck (F.rest (content s))) {fuel : Nat} (hfuel : (content s).length < fuel)
    (given : List (List α)) :
    ∃ t, loop turn fuel s given = some (t, given ++ F.frames (content s)) ∧ I t ∧
      content t = F.rest (content s) ∧ turn t = none := by
  induction fuel generalizing s given with
  | zero => omega
  | succ fuel ih =>
    cases hn : F.next (content s) with
    | none =>
      rw [rest_of_none hn] at hrest ⊢
      have hstop := h.stop hI hn hrest
      refine ⟨s, ?_, hI, rfl, hstop⟩
      rw [loop_of_none hstop, frames_of_none hn, List.append_nil]
    | some n =>
      have hpos := F.pos hn
      have hle := F.le hn
      obtain ⟨s', hturn, hI', hcontent⟩ := h.cut hI hn
      rw [rest_of_some hn, ← hcontent] at hrest ⊢
      have hshort : (content s').length < fuel := by
        rw [hcontent, List.length_drop]
        omega
      obtain ⟨t, hloop, ht⟩ := ih hI' hrest hshort (given ++ [(content s).take n])
      refine ⟨t, ?_, ht⟩
      rw [loop_of_some hturn, hloop, frames_of_some hn, hcontent, List.append_assoc,
        List.singleton_append]

/-- A turn leaves the rest as it is. -/
theorem rest_turn (h : Cuts F content Stuck I turn) (hI : I s) {v : List α}
    (hturn : turn s = some (v, s')) : I s' ∧ F.rest (content s') = F.rest (content s) := by
  cases hn : F.next (content s) with
  | none =>
    have hstuck : Stuck (content s) := by
      by_contra hno
      rw [h.stop hI hn hno] at hturn
      cases hturn
    obtain ⟨t, hturn', hI', hcontent⟩ := h.stick hI hstuck
    obtain ⟨-, rfl⟩ := Prod.mk.inj (Option.some.inj (hturn.symm.trans hturn'))
    exact ⟨hI', congrArg F.rest hcontent⟩
  | some n =>
    obtain ⟨t, hturn', hI', hcontent⟩ := h.cut hI hn
    obtain ⟨-, rfl⟩ := Prod.mk.inj (Option.some.inj (hturn.symm.trans hturn'))
    exact ⟨hI', by rw [hcontent, rest_of_some hn]⟩

theorem rest_turnsTo (h : Cuts F content Stuck I turn) (hI : I s) (ht : TurnsTo turn s t) :
    I t ∧ F.rest (content t) = F.rest (content s) := by
  induction ht with
  | refl => exact ⟨hI, rfl⟩
  | tail _ hstep ih =>
    obtain ⟨v, hturn⟩ := hstep
    obtain ⟨hI', hrest⟩ := h.rest_turn ih.1 hturn
    exact ⟨hI', hrest.trans ih.2⟩

/-- Over a rest that is stuck there is always a next turn. -/
theorem loop_stuck (h : Cuts F content Stuck I turn) (hI : I s)
    (hrest : Stuck (F.rest (content s))) (fuel : Nat) (given : List (List α)) :
    loop turn fuel s given = none := by
  induction fuel generalizing s given with
  | zero => rfl
  | succ fuel ih =>
    cases hs : turn s with
    | none =>
      -- a complete frame would be taken off, and a rest is stuck
      cases hn : F.next (content s) with
      | none =>
        rw [rest_of_none hn] at hrest
        obtain ⟨t, hturn, -⟩ := h.stick hI hrest
        cases hs.symm.trans hturn
      | some n =>
        obtain ⟨t, hturn, -⟩ := h.cut hI hn
        cases hs.symm.trans hturn
    | some r =>
      obtain ⟨v, s'⟩ := r
      obtain ⟨hI', hrest'⟩ := h.rest_turn hI hs
      rw [loop_of_some hs]
      exact ih hI' (hrest' ▸ hrest) _

/-- The loop gets to the rest. -/
theorem turnsTo_rest (h : Cuts F content Stuck I turn) (hI : I s) :
    ∃ t, TurnsTo turn s t ∧ I t ∧ content t = F.rest (content s) := by
  induction hk : content s using F.induction_on generalizing s with
  | stop r hn =>
    rw [rest_of_none hn]
    exact ⟨s, .refl, hI, hk⟩
  | cut r n hn ih =>
    obtain ⟨s', hturn, hI', hcontent⟩ := h.cut hI (hk ▸ hn)
    obtain ⟨t, ht, hI'', hrest⟩ := ih hI' (hk ▸ hcontent)
    exact ⟨t, .head ⟨_, hturn⟩ ht, hI'', by rw [hrest, ← rest_of_some hn]⟩

theorem returns_iff (h : Cuts F content Stuck I turn) (hI : I s) :
    Returns turn s ↔ ¬ Stuck (F.rest (content s)) := by
  constructor
  · intro hreturns hstuck
    obtain ⟨fuel, r, hr⟩ := hreturns
    rw [h.loop_stuck hI hstuck] at hr
    cases hr
  · intro hrest
    obtain ⟨t, hloop, -⟩ := h.loop_frames hI hrest (Nat.lt_succ_self _) []
    exact ⟨_, _, hloop⟩

/-- Over a rest that is not stuck, every turn takes the frame at the front. -/
theorem turn_frame (h : Cuts F content Stuck I turn) (hI : I s)
    (hrest : ¬ Stuck (F.rest (content s))) (ht : TurnsTo turn s t) {v : List α}
    (hturn : turn t = some (v, s')) : ∃ n, F.next (content t) = some n ∧
      v = (content t).take n ∧ content s' = (content t).drop n := by
  obtain ⟨hI', hrest'⟩ := h.rest_turnsTo hI ht
  cases hn : F.next (content t) with
  | none =>
    rw [← hrest', rest_of_none hn] at hrest
    rw [h.stop hI' hn hrest] at hturn
    cases hturn
  | some n =>
    obtain ⟨t', hturn', -, hcontent⟩ := h.cut hI' hn
    obtain ⟨rfl, rfl⟩ := Prod.mk.inj (Option.some.inj (hturn.symm.trans hturn'))
    exact ⟨n, rfl, rfl, hcontent⟩

/-- Every turn takes something off the front. -/
theorem shrinks_iff (h : Cuts F content Stuck I turn) (hI : I s) :
    (∀ t, TurnsTo turn s t → ∀ v s', turn t = some (v, s') →
      (content s').length < (content t).length) ↔ ¬ Stuck (F.rest (content s)) := by
  constructor
  · intro hshrinks hstuck
    obtain ⟨t, ht, hI', hcontent⟩ := h.turnsTo_rest hI
    obtain ⟨s', hturn, -, hsame⟩ := h.stick hI' (hcontent ▸ hstuck)
    have hlt := hshrinks t ht _ s' hturn
    rw [hsame] at hlt
    exact Nat.lt_irrefl _ hlt
  · intro hrest t ht v s' hturn
    obtain ⟨n, hn, -, hcontent⟩ := h.turn_frame hI hrest ht hturn
    have hpos := F.pos hn
    have hle := F.le hn
    rw [hcontent, List.length_drop]
    omega

/-- Every view is the complete frame at the front. -/
theorem views_iff (h : Cuts F content Stuck I turn) (hI : I s) :
    (∀ t, TurnsTo turn s t → ∀ v s', turn t = some (v, s') →
      F.next (content t) = some v.length ∧ v <+: content t) ↔ ¬ Stuck (F.rest (content s)) := by
  constructor
  · intro hviews hstuck
    obtain ⟨t, ht, hI', hcontent⟩ := h.turnsTo_rest hI
    obtain ⟨s', hturn, -⟩ := h.stick hI' (hcontent ▸ hstuck)
    have hnext := (hviews t ht _ s' hturn).1
    rw [hcontent, h.next_stuck hstuck] at hnext
    cases hnext
  · intro hrest t ht v s' hturn
    obtain ⟨n, hn, rfl, -⟩ := h.turn_frame hI hrest ht hturn
    rw [List.length_take, Nat.min_eq_left (F.le hn)]
    exact ⟨hn, List.take_prefix n _⟩

end Cuts

end Draining
