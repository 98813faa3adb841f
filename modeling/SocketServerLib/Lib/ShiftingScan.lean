import SocketServerLib.Lib.LabelledRun
import Mathlib.Data.List.Nodup

/-
  Passes over a list by index, while the list changes.

  A pass begins with a snapshot of the items that are `ready`, and goes through the list by the
  index `i`; between two passes there is none. An item of the snapshot is handled, which may take
  it out of the list and put another one in. What is behind an item that is taken out moves up, so
  that the next turn misses the one right behind it. Other parties put items in at any time.

  `passes` counts the snapshots; `handled` lists the items handled, and `inPass` those of this
  pass.

  What is proved, for a system with such a list:
    1. `step_once` — a turn keeps every item from being handled twice in a pass, if it puts in no
       item of the snapshot.
    2. `handled_within` — an item at index `p` that is in every snapshot is handled in one of the
       next `p + 1` passes.
-/
namespace ShiftingScan
open LabelledRun

variable {α : Type*} [DecidableEq α]

structure Scan (α : Type*) where
  items : List α
  ready : List α
  i : Option Nat
  passes : Nat
  handled : List α
  inPass : List α

/-- `skip`: the item at the index is not in the snapshot. `handle`: it is, and is handled.
`endPass`: the index is at the end. -/
inductive Act (α : Type*) where
  | select (ready : List α)
  | skip
  | handle (takenOut : Bool) (putIn : Option α)
  | endPass
  | putIn (x : α)

/-- An item that is there already is not put in. -/
def put (x : α) (items : List α) : List α := if x ∈ items then items else items ++ [x]

namespace Scan

/-- The item at the index. -/
def current (s : Scan α) : Option α := s.i.bind fun i => s.items[i]?

def next (s : Scan α) : Scan α := { s with i := s.i.map (· + 1) }

def step (s : Scan α) : Act α → Option (Scan α)
  | .select ready =>
    if s.i = none then
      some { s with ready := ready, i := some 0, passes := s.passes + 1, inPass := [] }
    else none
  | .skip =>
    match s.current with
    | none => none
    | some x => if x ∈ s.ready then none else some s.next
  | .handle takenOut putIn =>
    match s.current with
    | none => none
    | some x =>
      if x ∈ s.ready then
        let left := if takenOut = true then s.items.erase x else s.items
        some
          { s.next with
            items := match putIn with
              | none => left
              | some y => put y left
            handled := s.handled ++ [x]
            inPass := s.inPass ++ [x] }
      else none
  | .endPass => if s.current = none then some { s with i := none } else none
  | .putIn x => some { s with items := put x s.items }

variable {s s' : Scan α} {a : Act α} {x y : α} {items : List α}

theorem nodup_put (h : items.Nodup) (x : α) : (put x items).Nodup := by
  unfold put
  split
  · exact h
  · next hx =>
    rw [← List.concat_eq_append]
    exact List.Nodup.concat hx h

/-- What is put in comes behind the others. -/
theorem getElem?_put {k : Nat} (h : items[k]? = some y) (x : α) : (put x items)[k]? = some y := by
  unfold put
  split
  · exact h
  · obtain ⟨hlt, -⟩ := List.getElem?_eq_some_iff.mp h
    rw [List.getElem?_append_left hlt]
    exact h

/-- The places behind an item that is taken out move up by one. -/
theorem getElem?_erase {i k : Nat} (hnodup : items.Nodup) (hi : items[i]? = some x) :
    (items.erase x)[k]? = if k < i then items[k]? else items[k + 1]? := by
  obtain ⟨hlt, rfl⟩ := List.getElem?_eq_some_iff.mp hi
  rw [hnodup.erase_getElem i hlt, List.getElem?_eraseIdx]

omit [DecidableEq α] in
theorem current_eq_some : s.current = some x ↔ ∃ i, s.i = some i ∧ s.items[i]? = some x :=
  Option.bind_eq_some_iff

/-- A turn for the item at the index. -/
theorem step_handle {takenOut : Bool} {putIn : Option α}
    (h : step s (.handle takenOut putIn) = some s') : ∃ i x, s.i = some i ∧
      s.items[i]? = some x ∧ x ∈ s.ready ∧ s'.ready = s.ready ∧ s'.i = some (i + 1) ∧
      s'.passes = s.passes ∧ s'.handled = s.handled ++ [x] ∧ s'.inPass = s.inPass ++ [x] ∧
      ∃ left, (left = s.items ∨ left = s.items.erase x) ∧
        (s'.items = left ∨ ∃ y, putIn = some y ∧ s'.items = put y left) := by
  simp only [step] at h
  split at h
  · cases h
  · next x hx =>
    obtain ⟨i, hi, hx⟩ := current_eq_some.mp hx
    split at h
    · next hready =>
      obtain rfl := Option.some.inj h
      have hnext : s.next.i = some (i + 1) := by rw [next, hi, Option.map_some]
      refine ⟨i, x, hi, hx, hready, rfl, hnext, rfl, rfl, rfl,
        if takenOut = true then s.items.erase x else s.items, ?_, ?_⟩
      · split
        · exact .inr rfl
        · exact .inl rfl
      · cases putIn with
        | none => exact .inl rfl
        | some y => exact .inr ⟨y, rfl, rfl⟩
    · cases h

theorem step_skip (h : step s .skip = some s') : ∃ i x, s.i = some i ∧ s.items[i]? = some x ∧
    x ∉ s.ready ∧ s' = { s with i := some (i + 1) } := by
  simp only [step] at h
  split at h
  · cases h
  · next x hx =>
    obtain ⟨i, hi, hx⟩ := current_eq_some.mp hx
    split at h
    · cases h
    · next hready =>
      refine ⟨i, x, hi, hx, hready, ?_⟩
      rw [← Option.some.inj h, next, hi, Option.map_some]

theorem step_select {ready : List α} (h : step s (.select ready) = some s') : s.i = none ∧
    s' = { s with ready := ready, i := some 0, passes := s.passes + 1, inPass := [] } := by
  simp only [step] at h
  split at h
  · next hover => exact ⟨hover, (Option.some.inj h).symm⟩
  · cases h

theorem step_endPass (h : step s .endPass = some s') :
    s.current = none ∧ s' = { s with i := none } := by
  simp only [step] at h
  split at h
  · next hcurrent => exact ⟨hcurrent, (Option.some.inj h).symm⟩
  · cases h

/-! ## No item twice in a pass -/

/-- What is handled in this pass does not come again. -/
structure Once (s : Scan α) : Prop where
  nodup : s.items.Nodup
  inPass : s.inPass.Nodup
  past : ∀ i, s.i = some i → ∀ x ∈ s.inPass, x ∈ s.ready ∧ x ∉ s.items.drop i

/-- No item of the snapshot is put in while the pass goes on. -/
def PutsNew (s : Scan α) : Act α → Prop
  | .select _ => True
  | .skip => True
  | .handle _ putIn => ∀ x ∈ putIn, x ∉ s.ready
  | .endPass => True
  | .putIn x => s.i ≠ none → x ∉ s.ready

omit [DecidableEq α] in
theorem mem_drop_succ {k : Nat} (h : x ∈ items.drop (k + 1)) : x ∈ items.drop k := by
  rw [← List.drop_drop] at h
  exact List.mem_of_mem_drop h

theorem mem_drop_put {k : Nat} (h : x ∈ (put y items).drop k) : x ∈ items.drop k ∨ x = y := by
  unfold put at h
  split at h
  · exact .inl h
  · rw [List.drop_append, List.mem_append] at h
    exact h.imp_right fun hx => List.mem_singleton.mp (List.mem_of_mem_drop hx)

omit [DecidableEq α] in
/-- The item at the index is not among those behind it. -/
theorem not_mem_behind {i : Nat} (hnodup : items.Nodup) (hx : items[i]? = some x) :
    x ∉ items.drop (i + 1) := by
  obtain ⟨hlt, rfl⟩ := List.getElem?_eq_some_iff.mp hx
  intro hmem
  have hdrop := List.Nodup.sublist (List.drop_sublist i items) hnodup
  rw [List.drop_eq_getElem_cons hlt] at hdrop
  exact (List.nodup_cons.mp hdrop).1 hmem

/-- What is left behind the index was behind it before. -/
theorem mem_drop_erase {i : Nat} (hnodup : items.Nodup) (hx : items[i]? = some x)
    (h : y ∈ (items.erase x).drop (i + 1)) : y ∈ items.drop (i + 1) := by
  obtain ⟨k, hk⟩ := List.mem_iff_getElem?.mp h
  rw [List.getElem?_drop, getElem?_erase hnodup hx, if_neg (by omega)] at hk
  apply List.mem_iff_getElem?.mpr
  refine ⟨k + 1, ?_⟩
  rw [List.getElem?_drop]
  exact hk

theorem step_once (h : s.Once) (ha : s.PutsNew a) (hs : step s a = some s') : s'.Once := by
  cases a with
  | select ready =>
    obtain ⟨-, rfl⟩ := step_select hs
    exact ⟨h.nodup, List.nodup_nil, fun _ _ x hx => by cases hx⟩
  | skip =>
    obtain ⟨i, x, hi, -, -, rfl⟩ := step_skip hs
    refine ⟨h.nodup, h.inPass, fun k hk y hy => ?_⟩
    obtain rfl := Option.some.inj hk
    exact ⟨(h.past i hi y hy).1, fun hmem => (h.past i hi y hy).2 (mem_drop_succ hmem)⟩
  | endPass =>
    obtain ⟨-, rfl⟩ := step_endPass hs
    exact ⟨h.nodup, h.inPass, fun k hk => by cases hk⟩
  | putIn x =>
    obtain rfl := Option.some.inj hs
    refine ⟨nodup_put h.nodup x, h.inPass, fun i hi y hy => ⟨(h.past i hi y hy).1, fun hmem => ?_⟩⟩
    have hi : s.i = some i := hi
    rcases mem_drop_put hmem with hmem | rfl
    · exact (h.past i hi y hy).2 hmem
    · exact ha (by rw [hi]; exact Option.some_ne_none i) (h.past i hi y hy).1
  | handle takenOut putIn =>
    obtain ⟨i, x, hi, hx, hxready, hready, hi', -, -, hinPass, left, hleft, hitems⟩ :=
      step_handle hs
    have hpast := h.past i hi
    have hleftNodup : left.Nodup := by
      rcases hleft with rfl | rfl
      · exact h.nodup
      · exact h.nodup.erase x
    have hbehind : ∀ y, y ∈ left.drop (i + 1) → y ∈ s.items.drop (i + 1) := by
      intro y hy
      rcases hleft with rfl | rfl
      · exact hy
      · exact mem_drop_erase h.nodup hx hy
    have hnew : ∀ y ∈ s.ready, y ∈ s'.items.drop (i + 1) → y ∈ s.items.drop (i + 1) := by
      intro y hyready hy
      rcases hitems with he | ⟨z, hz, he⟩
      · rw [he] at hy
        exact hbehind y hy
      · rw [he] at hy
        rcases mem_drop_put hy with hy | rfl
        · exact hbehind y hy
        · exact absurd hyready (ha y hz)
    refine ⟨?_, ?_, ?_⟩
    · rcases hitems with he | ⟨z, -, he⟩
      · rw [he]
        exact hleftNodup
      · rw [he]
        exact nodup_put hleftNodup z
    · rw [hinPass, ← List.concat_eq_append]
      refine List.Nodup.concat (fun hmem => ?_) h.inPass
      apply (hpast x hmem).2
      obtain ⟨hlt, rfl⟩ := List.getElem?_eq_some_iff.mp hx
      rw [List.drop_eq_getElem_cons hlt]
      exact List.mem_cons_self
    · intro k hk y hy
      obtain rfl := Option.some.inj (hi'.symm.trans hk)
      rw [hinPass] at hy
      rw [hready]
      rcases List.mem_append.mp hy with hy | hy
      · obtain ⟨hyready, hyitems⟩ := hpast y hy
        exact ⟨hyready, fun hmem => hyitems (mem_drop_succ (hnew y hyready hmem))⟩
      · obtain rfl := List.mem_singleton.mp hy
        exact ⟨hxready, fun hmem => not_mem_behind h.nodup hx (hnew y hxready hmem)⟩

/-! ## An item that stays ready -/

/-- An item that has not been handled moves up by one place in each pass that misses it. -/
structure Waiting (y : α) (p : Nat) (s : Scan α) : Prop where
  nodup : s.items.Nodup
  place : ∃ k, s.items[k]? = some y ∧ (s.i = none → s.passes + k ≤ p) ∧
    ∀ i, s.i = some i → (i ≤ k → y ∈ s.ready ∧ s.passes + k ≤ p + 1) ∧
      (k < i → s.passes + k ≤ p)

/-- The snapshot has the item. -/
def Sees (y : α) : Act α → Prop
  | .select ready => y ∈ ready
  | _ => True

theorem step_waiting {p : Nat} (h : s.Waiting y p) (ha : Sees y a) (hs : step s a = some s') :
    s.handled.count y < s'.handled.count y ∨ s'.Waiting y p := by
  obtain ⟨hnodup, k, hk, hnone, hsome⟩ := h
  cases a with
  | select ready =>
    obtain ⟨hi, rfl⟩ := step_select hs
    have hpasses := hnone hi
    refine .inr ⟨hnodup, k, hk, (fun hi => by cases hi), fun i hi => ?_⟩
    obtain rfl := Option.some.inj hi
    refine ⟨fun _ => ⟨ha, ?_⟩, fun hlt => absurd hlt (Nat.not_lt_zero k)⟩
    show s.passes + 1 + k ≤ p + 1
    omega
  | skip =>
    obtain ⟨i, x, hi, hx, hxready, rfl⟩ := step_skip hs
    obtain ⟨hahead, hbehind⟩ := hsome i hi
    refine .inr ⟨hnodup, k, hk, (fun hi => by cases hi), fun j hj => ?_⟩
    obtain rfl := Option.some.inj hj
    refine ⟨fun hle => hahead (Nat.le_of_succ_le hle), fun hlt => ?_⟩
    -- the index does not pass the item without handling it
    by_cases he : i = k
    · subst he
      obtain rfl := Option.some.inj (hx.symm.trans hk)
      exact absurd (hahead (Nat.le_refl _)).1 hxready
    · exact hbehind (by omega)
  | endPass =>
    obtain ⟨hcurrent, rfl⟩ := step_endPass hs
    refine .inr ⟨hnodup, k, hk, fun _ => ?_, fun i hi => by cases hi⟩
    cases hi : s.i with
    | none => exact hnone hi
    | some i =>
      apply (hsome i hi).2
      rw [current, hi, Option.bind_some, List.getElem?_eq_none_iff] at hcurrent
      obtain ⟨hlt, -⟩ := List.getElem?_eq_some_iff.mp hk
      omega
  | putIn x =>
    obtain rfl := Option.some.inj hs
    exact .inr ⟨nodup_put hnodup x, k, getElem?_put hk x, hnone, hsome⟩
  | handle takenOut putIn =>
    obtain ⟨i, x, hi, hx, -, hready, hi', hpasses, hhandled, -, left, hleft, hitems⟩ :=
      step_handle hs
    obtain ⟨hahead, hbehind⟩ := hsome i hi
    by_cases hxy : x = y
    · subst hxy
      left
      rw [hhandled, List.count_append, List.count_singleton_self]
      exact Nat.lt_succ_self _
    have hne : i ≠ k := by
      rintro rfl
      exact hxy (Option.some.inj (hx.symm.trans hk))
    right
    -- the place of the item after the turn
    have hplace : ∃ k', left[k']? = some y ∧ left.Nodup ∧
        (i + 1 ≤ k' → i ≤ k ∧ k' ≤ k) ∧ (k' < i + 1 → s.passes + k' ≤ p) := by
      rcases hleft with rfl | rfl
      · exact ⟨k, hk, hnodup, fun hle => ⟨by omega, Nat.le_refl k⟩, fun hlt =>
          hbehind (by omega)⟩
      · by_cases hki : k < i
        · refine ⟨k, ?_, hnodup.erase x, fun hle => by omega, fun _ => hbehind hki⟩
          rw [getElem?_erase hnodup hx, if_pos hki]
          exact hk
        · have hle := (hahead (by omega)).2
          refine ⟨k - 1, ?_, hnodup.erase x, fun _ => ⟨by omega, by omega⟩, fun _ => by omega⟩
          rw [getElem?_erase hnodup hx, if_neg (by omega), show k - 1 + 1 = k by omega]
          exact hk
    obtain ⟨k', hk', hleftNodup, hle', hlt'⟩ := hplace
    have hwhere : s'.items.Nodup ∧ s'.items[k']? = some y := by
      rcases hitems with he | ⟨z, -, he⟩
      · rw [he]
        exact ⟨hleftNodup, hk'⟩
      · rw [he]
        exact ⟨nodup_put hleftNodup z, getElem?_put hk' z⟩
    refine ⟨hwhere.1, k', hwhere.2, ?_, ?_⟩
    · rw [hi']
      intro h
      cases h
    · intro j hj
      obtain rfl := Option.some.inj (hi'.symm.trans hj)
      rw [hready, hpasses]
      refine ⟨fun hle => ?_, hlt'⟩
      obtain ⟨hik, hkk⟩ := hle' hle
      have hsum := (hahead hik).2
      exact ⟨(hahead hik).1, by omega⟩

/-- What has been handled stays so. -/
theorem step_handled (hs : step s a = some s') (y : α) :
    s.handled.count y ≤ s'.handled.count y := by
  cases a with
  | select ready =>
    obtain ⟨-, rfl⟩ := step_select hs
    exact Nat.le_refl _
  | skip =>
    obtain ⟨i, x, -, -, -, rfl⟩ := step_skip hs
    exact Nat.le_refl _
  | endPass =>
    obtain ⟨-, rfl⟩ := step_endPass hs
    exact Nat.le_refl _
  | putIn x =>
    obtain rfl := Option.some.inj hs
    exact Nat.le_refl _
  | handle takenOut putIn =>
    obtain ⟨i, x, -, -, -, -, -, -, hhandled, -⟩ := step_handle hs
    rw [hhandled, List.count_append]
    exact Nat.le_add_right _ _

section System

variable {σ ℓ : Type*} {sys : σ → ℓ → Option σ} {C : σ → ℓ → Prop}
  (scan : σ → Scan α)

/-- A system with a list, each step of which leaves the list alone or is one of the steps above:
between two passes, an item at index `p` that every snapshot has from now on is handled before
`p + 1` more passes are over. -/
theorem handled_within
    (hsim : ∀ s l s', C s l → sys s l = some s' →
      scan s' = scan s ∨ ∃ a, Sees y a ∧ step (scan s) a = some (scan s'))
    {s t : σ} {ls : List ℓ} {p : Nat} (hnodup : (scan s).items.Nodup) (hstart : (scan s).i = none)
    (hy : (scan s).items[p]? = some y) (hC : Meets sys C s ls) (hr : run sys s ls = some t)
    (hover : (scan t).i = none) (hpasses : (scan s).passes + p < (scan t).passes) :
    (scan s).handled.count y < (scan t).handled.count y := by
  have hplace : (scan s).Waiting y ((scan s).passes + p) :=
    ⟨hnodup, p, hy, fun _ => Nat.le_refl _, fun i hi => by rw [hstart] at hi; cases hi⟩
  obtain ⟨-, hend⟩ := run_invariant
    (I := fun t => (scan s).handled.count y ≤ (scan t).handled.count y ∧
      ((scan s).handled.count y < (scan t).handled.count y ∨
        (scan t).Waiting y ((scan s).passes + p)))
    (fun t l t' h hC hs => by
      rcases hsim t l t' hC hs with he | ⟨a, ha, hs⟩
      · rw [he]
        exact h
      obtain ⟨hle, hlt | hwaiting⟩ := h
      · have hstays := step_handled hs y
        exact ⟨by omega, .inl (by omega)⟩
      · refine ⟨Nat.le_trans hle (step_handled hs y), ?_⟩
        rcases step_waiting hwaiting ha hs with hlt | hwaiting
        · exact .inl (by omega)
        · exact .inr hwaiting)
    ⟨Nat.le_refl _, .inr hplace⟩ hC hr
  refine hend.resolve_right fun hwaiting => ?_
  obtain ⟨-, k, -, hnone, -⟩ := hwaiting
  have hle := hnone hover
  omega

end System

end Scan

end ShiftingScan
