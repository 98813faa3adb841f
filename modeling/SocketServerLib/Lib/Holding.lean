import Mathlib.Data.List.Basic
import Mathlib.Data.List.Perm.Basic
import Mathlib.Data.List.Nodup

/-
  Objects that are each held in exactly one place.

  `held o` lists what the holder `o` has, and `live` says which objects exist.
  `Exclusive` is linear ownership: every live object is in the list of exactly one
  holder, once, and nothing else is held. It begins with one holder that has
  everything (`init`), and the other rules are what can happen to it: objects move
  between two holders (`transfer`), one is made (`create`), one is destroyed
  (`destroy`), or the lists stay as they are (`congr`).
-/
namespace Holding

variable {ι α : Type*}

structure Exclusive (held : ι → List α) (live : α → Prop) : Prop where
  nodup : ∀ o, (held o).Nodup
  apart : ∀ o o' a, a ∈ held o → a ∈ held o' → o = o'
  live_iff : ∀ a, live a ↔ ∃ o, a ∈ held o

namespace Exclusive

variable {held held' : ι → List α} {live live' : α → Prop} {o o' : ι} {a : α}

/-- One holder has everything. -/
theorem init {l : List α} (hl : l.Nodup) (ho : held o = l)
    (hrest : ∀ x, x ≠ o → held x = []) : Exclusive held (· ∈ l) := by
  have honly : ∀ x a, a ∈ held x → x = o := by
    intro x a ha
    by_contra hx
    rw [hrest x hx] at ha
    cases ha
  refine ⟨fun x => ?_, fun x y a hx hy => (honly x a hx).trans (honly y a hy).symm, fun a => ?_⟩
  · by_cases hx : x = o
    · rw [hx, ho]
      exact hl
    · rw [hrest x hx]
      exact List.nodup_nil
  · refine ⟨fun ha => ⟨o, ho ▸ ha⟩, ?_⟩
    intro hex
    obtain ⟨x, hx⟩ := hex
    obtain rfl := honly x a hx
    exact ho ▸ hx

theorem congr (h : Exclusive held live) (hheld : ∀ o, held' o = held o)
    (hlive : ∀ a, live' a ↔ live a) : Exclusive held' live' := by
  have : held' = held := funext hheld
  subst this
  exact ⟨h.nodup, h.apart, fun a => (hlive a).trans (h.live_iff a)⟩

/-- Whoever holds an object is one of two given holders, or neither. -/
theorem exists_mem_iff (held : ι → List α) (o o' : ι) (a : α) :
    (∃ x, a ∈ held x) ↔
      (a ∈ held o ∨ a ∈ held o') ∨ ∃ x, x ≠ o ∧ x ≠ o' ∧ a ∈ held x := by
  constructor
  · intro hex
    obtain ⟨x, hx⟩ := hex
    by_cases ho : x = o
    · exact .inl (.inl (ho ▸ hx))
    · by_cases ho' : x = o'
      · exact .inl (.inr (ho' ▸ hx))
      · exact .inr ⟨x, ho, ho', hx⟩
  · intro hcase
    rcases hcase with (hx | hx) | ⟨x, -, -, hx⟩
    · exact ⟨o, hx⟩
    · exact ⟨o', hx⟩
    · exact ⟨x, hx⟩

/-- Objects move between two holders. -/
theorem transfer (h : Exclusive held live) (o o' : ι) (hne : o ≠ o')
    (hperm : List.Perm (held' o ++ held' o') (held o ++ held o'))
    (hframe : ∀ x, x ≠ o → x ≠ o' → held' x = held x) : Exclusive held' live := by
  have hboth : (held' o ++ held' o').Nodup := by
    apply hperm.nodup_iff.mpr
    refine List.nodup_append.mpr ⟨h.nodup o, h.nodup o', ?_⟩
    intro a ha _ hb he
    subst he
    exact hne (h.apart o o' a ha hb)
  obtain ⟨hno, hno', hdisj⟩ := List.nodup_append.mp hboth
  -- the two hold together what they held before
  have hpair : ∀ a, (a ∈ held' o ∨ a ∈ held' o') ↔ (a ∈ held o ∨ a ∈ held o') := by
    intro a
    simpa only [List.mem_append] using hperm.mem_iff (a := a)
  -- an object of another holder is with neither of the two
  have hother : ∀ x a, x ≠ o → x ≠ o' → a ∈ held' x → ¬ (a ∈ held' o ∨ a ∈ held' o') := by
    intro x a hx hx' ha hp
    rw [hframe x hx hx'] at ha
    rcases (hpair a).mp hp with hp | hp
    · exact hx (h.apart x o a ha hp)
    · exact hx' (h.apart x o' a ha hp)
  have hcases : ∀ x, x = o ∨ x = o' ∨ (x ≠ o ∧ x ≠ o') := by
    intro x
    by_cases hx : x = o
    · exact .inl hx
    · by_cases hx' : x = o'
      · exact .inr (.inl hx')
      · exact .inr (.inr ⟨hx, hx'⟩)
  constructor
  · intro x
    rcases hcases x with rfl | rfl | ⟨h1, h2⟩
    · exact hno
    · exact hno'
    · rw [hframe x h1 h2]
      exact h.nodup x
  · intro x y a hx hy
    rcases hcases x with rfl | rfl | ⟨h1, h2⟩
    · rcases hcases y with rfl | rfl | ⟨h3, h4⟩
      · rfl
      · exact absurd rfl (hdisj a hx a hy)
      · exact absurd (.inl hx) (hother y a h3 h4 hy)
    · rcases hcases y with rfl | rfl | ⟨h3, h4⟩
      · exact absurd rfl (hdisj a hy a hx)
      · rfl
      · exact absurd (.inr hx) (hother y a h3 h4 hy)
    · rcases hcases y with rfl | rfl | ⟨h3, h4⟩
      · exact absurd (.inl hy) (hother x a h1 h2 hx)
      · exact absurd (.inr hy) (hother x a h1 h2 hx)
      · rw [hframe x h1 h2] at hx
        rw [hframe y h3 h4] at hy
        exact h.apart x y a hx hy
  · intro a
    rw [h.live_iff, exists_mem_iff held o o', exists_mem_iff held' o o', hpair]
    apply or_congr_right
    refine exists_congr fun x => and_congr_right fun h1 => and_congr_right fun h2 => ?_
    rw [hframe x h1 h2]

/-- A new object is made and given to `o`. -/
theorem create (h : Exclusive held live) (ha : ¬ live a) (ho : held' o = a :: held o)
    (hframe : ∀ x, x ≠ o → held' x = held x) (hlive : ∀ b, live' b ↔ b = a ∨ live b) :
    Exclusive held' live' := by
  have hfresh : ∀ x, a ∉ held x := fun x hx => ha ((h.live_iff a).mpr ⟨x, hx⟩)
  have hmem : ∀ x b, b ∈ held' x ↔ (x = o ∧ b = a) ∨ b ∈ held x := by
    intro x b
    by_cases hx : x = o
    · subst hx
      rw [ho, List.mem_cons]
      simp
    · rw [hframe x hx]
      simp [hx]
  refine ⟨fun x => ?_, fun x y b hx hy => ?_, fun b => ?_⟩
  · by_cases hx : x = o
    · subst hx
      rw [ho]
      exact List.nodup_cons.mpr ⟨hfresh _, h.nodup _⟩
    · rw [hframe x hx]
      exact h.nodup x
  · rcases (hmem x b).mp hx with ⟨rfl, rfl⟩ | hx
    · rcases (hmem y b).mp hy with ⟨rfl, -⟩ | hy
      · rfl
      · exact absurd hy (hfresh y)
    · rcases (hmem y b).mp hy with ⟨rfl, rfl⟩ | hy
      · exact absurd hx (hfresh x)
      · exact h.apart x y b hx hy
  · rw [hlive, h.live_iff]
    constructor
    · intro hcase
      rcases hcase with rfl | ⟨x, hx⟩
      · exact ⟨o, (hmem o b).mpr (.inl ⟨rfl, rfl⟩)⟩
      · exact ⟨x, (hmem x b).mpr (.inr hx)⟩
    · intro hex
      obtain ⟨x, hx⟩ := hex
      rcases (hmem x b).mp hx with ⟨-, rfl⟩ | hx
      · exact .inl rfl
      · exact .inr ⟨x, hx⟩

/-- The holder `o` destroys one of its objects. -/
theorem destroy (h : Exclusive held live) (ho : held o = a :: held' o)
    (hframe : ∀ x, x ≠ o → held' x = held x) (hlive : ∀ b, live' b ↔ b ≠ a ∧ live b) :
    Exclusive held' live' := by
  have hnodup := h.nodup o
  rw [ho, List.nodup_cons] at hnodup
  have hmem : ∀ x b, b ∈ held' x ↔ b ≠ a ∧ b ∈ held x := by
    intro x b
    by_cases hx : x = o
    · subst hx
      rw [ho, List.mem_cons]
      constructor
      · intro hb
        exact ⟨fun he => hnodup.1 (he ▸ hb), .inr hb⟩
      · intro hx
        obtain ⟨hne, hb⟩ := hx
        exact hb.resolve_left hne
    · rw [hframe x hx]
      refine ⟨fun hb => ⟨?_, hb⟩, And.right⟩
      intro he
      subst he
      exact hx (h.apart x o b hb (ho ▸ List.mem_cons_self))
  refine ⟨fun x => ?_, fun x y b hx hy => ?_, fun b => ?_⟩
  · by_cases hx : x = o
    · subst hx
      exact hnodup.2
    · rw [hframe x hx]
      exact h.nodup x
  · exact h.apart x y b ((hmem x b).mp hx).2 ((hmem y b).mp hy).2
  · rw [hlive, h.live_iff]
    constructor
    · intro hex
      obtain ⟨hne, x, hx⟩ := hex
      exact ⟨x, (hmem x b).mpr ⟨hne, hx⟩⟩
    · intro hex
      obtain ⟨x, hx⟩ := hex
      exact ⟨((hmem x b).mp hx).1, x, ((hmem x b).mp hx).2⟩

end Exclusive

end Holding
