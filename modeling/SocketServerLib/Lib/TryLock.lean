import Mathlib.Logic.Function.Basic

/-
  A try-lock and the calls that run under it.

  The shared state carries the lock's flag (`true` when free), and each party is
  outside any call or at a program point `π`; the points in `crit` are those
  where the party holds the lock. `Guarded` says what then holds of every
  interleaving: at most one party is at a critical point, the flag is cleared
  exactly while one is, the free state satisfies `R₀`, and the holder's point
  satisfies `R`. The rules are the five things a step can do to this: take the
  lock, move under it, release it, move without it, or change the rest of the
  shared state from outside.
-/
namespace TryLock

variable {σ π W : Type*}

structure Guarded (flag : σ → Bool) (crit : π → Prop) (R₀ : σ → Prop) (R : σ → π → Prop)
    (s : σ) (pcs : W → Option π) : Prop where
  free : flag s = true → R₀ s
  held : ∀ w pc, pcs w = some pc → crit pc → flag s = false ∧ R s pc
  unique : ∀ w w' pc pc', pcs w = some pc → pcs w' = some pc' → crit pc → crit pc' → w = w'
  someone : flag s = false → ∃ w pc, pcs w = some pc ∧ crit pc

namespace Guarded

variable {flag : σ → Bool} {crit : π → Prop} {R₀ : σ → Prop} {R : σ → π → Prop}
  {s s' : σ} {pcs : W → Option π} {w : W} {pc pc' : π}

/-- Nobody is in a call, and the lock is free. -/
theorem init (hf : flag s = true) (h0 : R₀ s) (hidle : ∀ w, pcs w = none) :
    Guarded flag crit R₀ R s pcs where
  free _ := h0
  held w pc h _ := by rw [hidle w] at h; cases h
  unique w _ pc _ h _ _ _ := by rw [hidle w] at h; cases h
  someone h := by rw [hf] at h; cases h

/-- The state changes, the flag does not. -/
theorem outside (h : Guarded flag crit R₀ R s pcs) (hflag : flag s' = flag s)
    (h0 : R₀ s → R₀ s') (hR : ∀ pc, crit pc → R s pc → R s' pc) :
    Guarded flag crit R₀ R s' pcs where
  free hf := h0 (h.free (hflag ▸ hf))
  held w pc hw hc := ⟨hflag.trans (h.held w pc hw hc).1, hR pc hc (h.held w pc hw hc).2⟩
  unique := h.unique
  someone hf := h.someone (hflag ▸ hf)

/-- The properties may be replaced by ones that hold here. -/
theorem imp {R₀' : σ → Prop} {R' : σ → π → Prop} (h : Guarded flag crit R₀ R s pcs)
    (h0 : flag s = true → R₀ s → R₀' s)
    (hR : ∀ w pc, pcs w = some pc → crit pc → R s pc → R' s pc) :
    Guarded flag crit R₀' R' s pcs where
  free hf := h0 hf (h.free hf)
  held w pc hw hc := ⟨(h.held w pc hw hc).1, hR w pc hw hc (h.held w pc hw hc).2⟩
  unique := h.unique
  someone := h.someone

variable [DecidableEq W]

theorem update_eq_some {o : Option π} {v : W} {x : π} (hv : Function.update pcs w o v = some x) :
    v = w ∧ o = some x ∨ v ≠ w ∧ pcs v = some x := by
  by_cases h : v = w
  · subst h; rw [Function.update_self] at hv; exact .inl ⟨rfl, hv⟩
  · rw [Function.update_of_ne h] at hv; exact .inr ⟨h, hv⟩

/-- A party that does not hold the lock moves to a point where it does not hold it. -/
theorem idle (h : Guarded flag crit R₀ R s pcs) (hw : ∀ pc, pcs w = some pc → ¬ crit pc)
    {o : Option π} (ho : ∀ pc, o = some pc → ¬ crit pc) :
    Guarded flag crit R₀ R s (Function.update pcs w o) where
  free := h.free
  held v pc hv hc := by
    rcases update_eq_some hv with ⟨-, h'⟩ | ⟨-, h'⟩
    · exact absurd hc (ho pc h')
    · exact h.held v pc h' hc
  unique v v' pc pc' hv hv' hc hc' := by
    rcases update_eq_some hv with ⟨-, h'⟩ | ⟨-, h'⟩
    · exact absurd hc (ho pc h')
    · rcases update_eq_some hv' with ⟨-, h''⟩ | ⟨-, h''⟩
      · exact absurd hc' (ho pc' h'')
      · exact h.unique v v' pc pc' h' h'' hc hc'
  someone hf := by
    obtain ⟨v, pc, hv, hc⟩ := h.someone hf
    -- whoever holds the lock is not the party that moves
    have hne : v ≠ w := by
      intro he
      subst he
      exact hw pc hv hc
    exact ⟨v, pc, by rw [Function.update_of_ne hne]; exact hv, hc⟩

/-- The lock is free, and a party takes it. -/
theorem acquire (h : Guarded flag crit R₀ R s pcs) (hf : flag s = true) (hf' : flag s' = false)
    (hR : R s' pc') (hc' : crit pc') :
    Guarded flag crit R₀ R s' (Function.update pcs w (some pc')) := by
  -- the flag says that nobody is inside
  have hnone : ∀ v pc, pcs v = some pc → ¬ crit pc := by
    intro v pc hv hc
    have := (h.held v pc hv hc).1
    rw [hf] at this; cases this
  refine ⟨fun h => (by rw [hf'] at h; cases h), ?_, ?_, ?_⟩
  · intro v pc hv hc
    rcases update_eq_some hv with ⟨-, h'⟩ | ⟨-, h'⟩
    · cases h'; exact ⟨hf', hR⟩
    · exact absurd hc (hnone v pc h')
  · intro v v' pc pc'' hv hv' hc hc''
    rcases update_eq_some hv with ⟨rfl, -⟩ | ⟨-, h'⟩
    · rcases update_eq_some hv' with ⟨rfl, -⟩ | ⟨-, h'⟩
      · rfl
      · exact absurd hc'' (hnone v' pc'' h')
    · exact absurd hc (hnone v pc h')
  · intro _
    exact ⟨w, pc', Function.update_self .., hc'⟩

/-- The holder moves on and keeps the lock. -/
theorem inside (h : Guarded flag crit R₀ R s pcs) (hw : pcs w = some pc) (hc : crit pc)
    (hf' : flag s' = false) (hR : R s' pc') (hc' : crit pc') :
    Guarded flag crit R₀ R s' (Function.update pcs w (some pc')) := by
  have hother : ∀ v pc, pcs v = some pc → crit pc → v = w := by
    intro v x hv hx
    exact h.unique v w x _ hv hw hx hc
  refine ⟨fun h => (by rw [hf'] at h; cases h), ?_, ?_, ?_⟩
  · intro v x hv hx
    rcases update_eq_some hv with ⟨-, h'⟩ | ⟨hne, h'⟩
    · cases h'; exact ⟨hf', hR⟩
    · exact absurd (hother v x h' hx) hne
  · intro v v' x x' hv hv' hx hx'
    rcases update_eq_some hv with ⟨rfl, -⟩ | ⟨hne, h'⟩
    · rcases update_eq_some hv' with ⟨rfl, -⟩ | ⟨hne, h'⟩
      · rfl
      · exact absurd (hother v' x' h' hx') hne
    · exact absurd (hother v x h' hx) hne
  · intro _
    exact ⟨w, pc', Function.update_self .., hc'⟩

/-- The holder releases the lock. -/
theorem release (h : Guarded flag crit R₀ R s pcs) (hw : pcs w = some pc) (hc : crit pc)
    (hf' : flag s' = true) (h0 : R₀ s') (hc' : ¬ crit pc') :
    Guarded flag crit R₀ R s' (Function.update pcs w (some pc')) := by
  have hnone : ∀ v x, Function.update pcs w (some pc') v = some x → ¬ crit x := by
    intro v x hv hx
    rcases update_eq_some hv with ⟨-, h'⟩ | ⟨hne, h'⟩
    · cases h'; exact hc' hx
    · exact hne (h.unique v w x _ h' hw hx hc)
  exact ⟨fun _ => h0, fun v x hv hx => absurd hx (hnone v x hv),
    fun v v' x x' hv _ hx _ => absurd hx (hnone v x hv), fun h => (by rw [hf'] at h; cases h)⟩

end Guarded

end TryLock
