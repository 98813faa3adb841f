import Mathlib.Logic.Function.Basic

/-
  A relation stored twice: once as a field of each object, once as a map back.

  Object `i` carries a key `f i`, the sentinel `z` standing for no key, and `m` maps
  keys to objects. `InverseOf m f z` says that the two agree. `erase` and `emplace`
  are the operations of an ordered map (an `emplace` on a key already there does
  nothing), and the rules are the ways to change both sides together.
-/
namespace InverseMap

variable {ι κ : Type*} [DecidableEq κ]

def erase (m : κ → Option ι) (k : κ) : κ → Option ι := Function.update m k none

def emplace (m : κ → Option ι) (k : κ) (i : ι) : κ → Option ι :=
  if (m k).isSome then m else Function.update m k (some i)

/-- The map sends `k` to `i` exactly if `k` is the key of `i`. -/
def InverseOf (m : κ → Option ι) (f : ι → κ) (z : κ) : Prop :=
  ∀ k i, m k = some i ↔ f i = k ∧ k ≠ z

variable {m : κ → Option ι} {f : ι → κ} {z k : κ} {i j : ι}

theorem emplace_of_none (h : m k = none) (i : ι) :
    emplace m k i = Function.update m k (some i) := by
  simp [emplace, h]

/-- An `emplace` removes nothing. -/
theorem emplace_of_some {l : κ} (h : m l = some j) (k : κ) (i : ι) :
    emplace m k i l = some j := by
  unfold emplace
  split
  · exact h
  · next hk =>
    have hne : l ≠ k := by
      intro he
      subst he
      rw [h] at hk
      exact hk rfl
    rw [Function.update_of_ne hne, h]

namespace InverseOf

omit [DecidableEq κ] in
theorem init : InverseOf (fun _ : κ => (none : Option ι)) (fun _ => z) z :=
  fun k i => ⟨fun h => (by cases h), fun h => absurd h.1.symm h.2⟩

omit [DecidableEq κ] in
/-- No two objects have the same key. -/
theorem injective (h : InverseOf m f z) (hij : f i = f j) (hz : f i ≠ z) : i = j := by
  have hi := (h (f i) i).mpr ⟨rfl, hz⟩
  have hj := (h (f i) j).mpr ⟨hij.symm, hz⟩
  exact Option.some.inj (hi.symm.trans hj)

variable [DecidableEq ι]

/-- An object loses its key. -/
theorem clear (h : InverseOf m f z) (i : ι) :
    InverseOf (if f i ≠ z then erase m (f i) else m) (Function.update f i z) z := by
  have hm : ∀ k, (if f i ≠ z then erase m (f i) else m) k = if k = f i then none else m k := by
    intro k
    by_cases hz : f i = z
    · -- no key to erase, and nothing is stored under the sentinel
      rw [if_neg (not_not.mpr hz)]
      by_cases hk : k = f i
      · rw [if_pos hk]
        cases hmk : m k with
        | none => rfl
        | some j => exact absurd (hk.trans hz) ((h k j).mp hmk).2
      · rw [if_neg hk]
    · rw [if_pos hz, erase, Function.update_apply]
  intro k j
  rw [hm]
  by_cases hji : j = i
  · subst hji
    rw [Function.update_self]
    constructor
    · intro hk
      by_cases hkj : k = f j
      · rw [if_pos hkj] at hk
        cases hk
      · rw [if_neg hkj] at hk
        exact absurd ((h k j).mp hk).1.symm hkj
    · intro hx
      obtain ⟨rfl, hne⟩ := hx
      exact absurd rfl hne
  · rw [Function.update_of_ne hji, ← h]
    by_cases hk : k = f i
    · rw [if_pos hk]
      refine ⟨fun h' => (by cases h'), fun hmk => absurd ?_ hji⟩
      obtain ⟨hfj, hz⟩ := (h k j).mp hmk
      exact h.injective (hfj.trans hk) (by rw [hfj]; exact hz)
    · rw [if_neg hk]

/-- An object without a key gets one that nobody has. -/
theorem give (h : InverseOf m f z) (hi : f i = z) (hk : k ≠ z) (hfree : ∀ j, f j ≠ k) :
    InverseOf (emplace m k i) (Function.update f i k) z := by
  have hmk : m k = none := by
    cases hmk : m k with
    | none => rfl
    | some j => exact absurd ((h k j).mp hmk).1 (hfree j)
  rw [emplace_of_none hmk]
  intro l j
  by_cases hl : l = k
  · subst hl
    rw [Function.update_self]
    by_cases hji : j = i
    · subst hji
      rw [Function.update_self]
      exact ⟨fun _ => ⟨rfl, hk⟩, fun _ => rfl⟩
    · rw [Function.update_of_ne hji]
      exact ⟨fun he => absurd (Option.some.inj he).symm hji, fun he => absurd he.1 (hfree j)⟩
  · rw [Function.update_of_ne hl]
    by_cases hji : j = i
    · subst hji
      rw [Function.update_self, h]
      exact ⟨fun he => absurd (he.1.symm.trans hi) he.2, fun he => absurd he.1.symm hl⟩
    · rw [Function.update_of_ne hji, h]

/-- An object gets a new key in place of its old one. -/
theorem renew (h : InverseOf m f z) (i : ι) (hk : k ≠ z) (hfree : ∀ j, j ≠ i → f j ≠ k) :
    InverseOf (emplace (if f i ≠ z then erase m (f i) else m) k i) (Function.update f i k) z := by
  have h' := (h.clear i).give (i := i) (Function.update_self ..) hk fun j => by
    by_cases hji : j = i
    · subst hji
      rw [Function.update_self]
      exact hk.symm
    · rw [Function.update_of_ne hji]
      exact hfree j hji
  rwa [Function.update_idem] at h'

end InverseOf

end InverseMap
