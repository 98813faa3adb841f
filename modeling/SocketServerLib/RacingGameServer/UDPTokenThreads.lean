import SocketServerLib.RacingGameServer.UDPToken

/-
  The UDP token calls of any number of threads, interleaved.

  `GetUDPToken` reads the connection's token without the lock, and only if that read
  gave 0 it takes a reading of the clock and goes to the lock; `RenewUDPToken` and
  `ClearUDPToken` go there at once. A section is two steps, `SetUDPToken` and the update
  of the map, so that an unlocked read can fall between them.

  What is proved:
    1. `step_coherent` — what every step keeps: the map is the inverse of the fields, up
       to the one field the section in progress has already set.
    2. `map_inverse_iff` — the map is the inverse of the fields whenever the lock is free
       if and only if every `GetUDPToken` that stores a token still finds none there.
    3. `stale_token_stays` — two calls that both read 0: the map keeps a token nobody has.

  What is assumed: the clock's readings are positive and pairwise distinct.
-/
namespace RacingGameServer

open InverseMap LabelledRun UDPTokens

/-- `atLock th` is the section thread `th` is about to enter; `inside` is the thread in the
section, with what `SetUDPToken` returned; `used` lists the clock's readings. -/
structure UDPTokenThreads (θ : Type*) where
  tokens : UDPTokens
  atLock : θ → Option AtLock
  inside : Option (θ × AtLock × BitVec 64)
  used : List (BitVec 32)

/-- `timestamp` is the reading `clock()` gives, if it is called. -/
inductive TokenAct (θ : Type*) where
  | getUDPToken (th : θ) (uClientIndex_ timestamp : BitVec 32)
  | renewUDPToken (th : θ) (uClientIndex_ timestamp : BitVec 32)
  | clearUDPToken (th : θ) (uClientIndex_ : BitVec 32)
  | lock (th : θ)
  | unlock (th : θ)

namespace UDPTokenThreads

variable {θ : Type*} [DecidableEq θ]

def init (n : BitVec 32) : UDPTokenThreads θ :=
  { tokens := .init n, atLock := fun _ => none, inside := none, used := [] }

/-- The thread is in none of the calls. -/
def Idle (s : UDPTokenThreads θ) (th : θ) : Prop :=
  s.atLock th = none ∧ s.inside.map Prod.fst ≠ some th

/-- The clock may return it: positive, and no reading so far. -/
def Next (s : UDPTokenThreads θ) (timestamp : BitVec 32) : Prop :=
  timestamp.msb = false ∧ timestamp ≠ 0 ∧ timestamp ∉ s.used

instance (s : UDPTokenThreads θ) (th : θ) : Decidable (s.Idle th) := by
  unfold Idle; infer_instance

omit [DecidableEq θ] in
instance (s : UDPTokenThreads θ) (t : BitVec 32) : Decidable (s.Next t) := by
  unfold Next; infer_instance

def goToLock (s : UDPTokenThreads θ) (th : θ) (c : AtLock) : UDPTokenThreads θ :=
  { s with atLock := Function.update s.atLock th (some c) }

def readClock (s : UDPTokenThreads θ) (t : BitVec 32) : UDPTokenThreads θ :=
  { s with used := t :: s.used }

def step (s : UDPTokenThreads θ) : TokenAct θ → Option (UDPTokenThreads θ)
  | .getUDPToken th i t =>
    if ¬ s.Idle th then none
    else if ¬ i < s.tokens.connections then some s
    -- the unlocked read: a token found is returned at once, and the clock is not asked
    else if s.tokens.token i ≠ 0 then some s
    else if ¬ s.Next t then none
    else some ((s.readClock t).goToLock th (.get i (udpToken i t)))
  | .renewUDPToken th i t =>
    if ¬ (s.Idle th ∧ s.Next t) then none
    else if ¬ i < s.tokens.connections then some (s.readClock t)
    else some ((s.readClock t).goToLock th (.renew i (udpToken i t)))
  | .clearUDPToken th i =>
    if ¬ s.Idle th then none
    else if ¬ i < s.tokens.connections then some s
    else some (s.goToLock th (.clear i))
  | .lock th =>
    match s.atLock th, s.inside with
    | some c, none =>
      let (tokens, old) := s.tokens.setUDPToken c.index c.newToken
      some { s with
        tokens := tokens
        atLock := Function.update s.atLock th none
        inside := some (th, c, old) }
    | _, _ => none
  | .unlock th =>
    match s.inside with
    | none => none
    | some (th', c, old) =>
      if th' = th then some { s with tokens := c.updateMap old s.tokens, inside := none } else none

/-- The map is the inverse of the fields, if the lock is free. -/
def Exact (s : UDPTokenThreads θ) : Prop := s.inside = none → s.tokens.Inverse

/-- Every `GetUDPToken` that stores a token still finds none there. -/
def InTime (s : UDPTokenThreads θ) : TokenAct θ → Prop
  | .unlock _ => ∀ x ∈ s.inside, ¬ x.2.1.Leaves x.2.2
  | _ => True

omit [DecidableEq θ] in
instance (s : UDPTokenThreads θ) (l : TokenAct θ) : Decidable (s.InTime l) := by
  cases l <;> unfold InTime <;> infer_instance

/-! ## What every step keeps -/

/-- The token is made of a reading, and neither a field nor the section in progress has it. -/
structure Unseen (s : UDPTokenThreads θ) (k : BitVec 64) : Prop where
  ne_zero : k ≠ 0
  used : lower k ∈ s.used
  field : ∀ j, s.tokens.token j ≠ k
  old : ∀ x ∈ s.inside, x.2.2 ≠ k

/-- The section in progress has set its field, and the map is behind by that. -/
structure Behind (tokens : UDPTokens) (c : AtLock) (old : BitVec 64) : Prop where
  set : tokens.token c.index = c.newToken
  inverse : (tokens.setUDPToken c.index old).1.Inverse
  fresh : c.Fresh tokens
  ne : c.Stores → old ≠ c.newToken

structure Coherent (s : UDPTokenThreads θ) : Prop where
  exact : Exact s
  behind : ∀ th c old, s.inside = some (th, c, old) → Behind s.tokens c old
  field_used : ∀ j, s.tokens.token j ≠ 0 → lower (s.tokens.token j) ∈ s.used
  old_used : ∀ x ∈ s.inside, x.2.2 ≠ 0 → lower x.2.2 ∈ s.used
  unseen : ∀ th, ∀ c ∈ s.atLock th, c.Stores → s.Unseen c.newToken
  apart : ∀ th th', th ≠ th' → ∀ c ∈ s.atLock th, ∀ c' ∈ s.atLock th', c.Stores →
    c.newToken ≠ c'.newToken

variable {s s' : UDPTokenThreads θ} {th : θ} {c : AtLock} {t : BitVec 32}

omit [DecidableEq θ] in
theorem coherent_init (n : BitVec 32) : Coherent (init n : UDPTokenThreads θ) where
  exact := fun _ => InverseOf.init
  behind := fun _ _ _ h => (by cases h)
  field_used := fun _ h => absurd rfl h
  old_used := fun _ h => (by cases h)
  unseen := fun _ _ h => (by cases h)
  apart := fun _ _ _ _ h => (by cases h)

omit [DecidableEq θ] in
theorem Coherent.readClock (h : Coherent s) (t : BitVec 32) : Coherent (s.readClock t) where
  exact := h.exact
  behind := h.behind
  field_used := fun j hj => List.mem_cons_of_mem t (h.field_used j hj)
  old_used := fun x hx hz => List.mem_cons_of_mem t (h.old_used x hx hz)
  unseen := fun th c hc hs =>
    let hu := h.unseen th c hc hs
    ⟨hu.ne_zero, List.mem_cons_of_mem t hu.used, hu.field, hu.old⟩
  apart := h.apart

omit [DecidableEq θ] in
/-- The token of a reading the clock has not given before is new everywhere. -/
theorem Coherent.unseen_udpToken (h : Coherent s) (ht : s.Next t) (i : BitVec 32) :
    (s.readClock t).Unseen (udpToken i t) := by
  have hlower := lower_udpToken i t
  have hne : ∀ k, (k ≠ 0 → lower k ∈ s.used) → k ≠ udpToken i t := by
    intro k hk he
    subst he
    have hz : udpToken i t ≠ 0 := fun hz => ht.2.1 ((udpToken_eq_zero i t).mp hz).2
    exact ht.2.2 (hlower ▸ hk hz)
  refine ⟨fun hz => ht.2.1 ((udpToken_eq_zero i t).mp hz).2, ?_, fun j => hne _ (h.field_used j),
    fun x hx => hne _ (h.old_used x hx)⟩
  rw [hlower]
  exact List.mem_cons_self

/-- A thread goes to the lock, with a token nobody else is about to store. -/
theorem Coherent.goToLock (h : Coherent s) (hc : c.Stores → s.Unseen c.newToken)
    (hapart : c.Stores → ∀ th', ∀ c' ∈ s.atLock th', c.newToken ≠ c'.newToken) :
    Coherent (s.goToLock th c) := by
  refine ⟨h.exact, h.behind, h.field_used, h.old_used, fun th' c' hc' hs => ?_,
    fun th₁ th₂ hne c₁ hc₁ c₂ hc₂ hs => ?_⟩
  · simp only [UDPTokenThreads.goToLock, Function.update_apply] at hc'
    split at hc'
    · obtain rfl := Option.some.inj hc'
      obtain ⟨hz, hu, hf, ho⟩ := hc hs
      exact ⟨hz, hu, hf, ho⟩
    · obtain ⟨hz, hu, hf, ho⟩ := h.unseen th' c' hc' hs
      exact ⟨hz, hu, hf, ho⟩
  · simp only [UDPTokenThreads.goToLock, Function.update_apply] at hc₁ hc₂
    split at hc₁ <;> split at hc₂
    · next h₁ h₂ => exact absurd (h₁.trans h₂.symm) hne
    · obtain rfl := Option.some.inj hc₁
      exact hapart hs th₂ c₂ hc₂
    · obtain rfl := Option.some.inj hc₂
      by_cases hs' : c.Stores
      · exact (hapart hs' th₁ c₁ hc₁).symm
      · rw [AtLock.newToken_eq_zero hs']
        exact (h.unseen th₁ c₁ hc₁ hs).ne_zero
    · exact h.apart th₁ th₂ hne c₁ hc₁ c₂ hc₂ hs

/-- A thread that has read the clock goes to the lock. -/
theorem Coherent.mint (h : Coherent s) (ht : s.Next t) {i : BitVec 32}
    (hc : c.newToken = udpToken i t) :
    Coherent ((s.readClock t).goToLock th c) := by
  refine (h.readClock t).goToLock (fun _ => hc ▸ h.unseen_udpToken ht i) fun _ th' c' hc' => ?_
  by_cases hs' : c'.Stores
  · intro he
    have hused := (h.unseen th' c' hc' hs').used
    rw [← he, hc, lower_udpToken] at hused
    exact ht.2.2 hused
  · rw [AtLock.newToken_eq_zero hs', hc]
    exact (h.unseen_udpToken ht i).ne_zero

/-- A thread enters the section and sets the field. -/
theorem Coherent.lock (h : Coherent s) (hc : s.atLock th = some c) (hfree : s.inside = none) :
    Coherent { s with
      tokens := (s.tokens.setUDPToken c.index c.newToken).1
      atLock := Function.update s.atLock th none
      inside := some (th, c, s.tokens.token c.index) } := by
  -- whoever still waits is another thread, and waited before
  have hwait : ∀ th', ∀ c' ∈ Function.update s.atLock th none th',
      th' ≠ th ∧ c' ∈ s.atLock th' := by
    intro th' c' hc'
    rw [Function.update_apply] at hc'
    split at hc'
    · cases hc'
    · next hne => exact ⟨hne, hc'⟩
  refine ⟨fun hi => (by cases hi), fun th' c' old hx => ?_, fun j hj => ?_, fun x hx hz => ?_,
    fun th' c' hc' hs => ?_, fun th₁ th₂ hne c₁ hc₁ c₂ hc₂ => ?_⟩
  · cases hx
    refine ⟨Function.update_self .., ?_, fun hs => ⟨(h.unseen th c hc hs).ne_zero, fun j hj => ?_⟩,
      fun hs => (h.unseen th c hc hs).field _⟩
    · simp only [setUDPToken, Function.update_idem, Function.update_eq_self]
      exact h.exact hfree
    · rw [token_setUDPToken_of_ne _ hj]
      exact (h.unseen th c hc hs).field j
  · by_cases hji : j = c.index
    · subst hji
      rw [token_setUDPToken_self] at hj ⊢
      have hs : c.Stores := by
        by_contra hs
        exact hj (AtLock.newToken_eq_zero hs)
      exact (h.unseen th c hc hs).used
    · rw [token_setUDPToken_of_ne _ hji] at hj ⊢
      exact h.field_used j hj
  · obtain rfl := Option.some.inj hx
    exact h.field_used _ hz
  · obtain ⟨hne, hc'⟩ := hwait th' c' hc'
    have hu := h.unseen th' c' hc' hs
    refine ⟨hu.ne_zero, hu.used, fun j => ?_, fun x hx => ?_⟩
    · by_cases hji : j = c.index
      · subst hji
        rw [token_setUDPToken_self]
        exact (h.apart th' th hne c' hc' c hc hs).symm
      · rw [token_setUDPToken_of_ne _ hji]
        exact hu.field j
    · obtain rfl := Option.some.inj hx
      exact hu.field _
  · exact h.apart th₁ th₂ hne c₁ (hwait th₁ c₁ hc₁).2 c₂ (hwait th₂ c₂ hc₂).2

omit [DecidableEq θ] in
/-- A thread updates the map and leaves the section. -/
theorem Coherent.unlock (h : Coherent s) {old : BitVec 64} (hin : s.inside = some (th, c, old))
    (hleave : ¬ c.Leaves old) :
    Coherent { s with tokens := c.updateMap old s.tokens, inside := none } := by
  obtain ⟨hset, hinv, hfresh, -⟩ := h.behind _ _ _ hin
  refine ⟨fun _ => ?_, fun _ _ _ hx => (by cases hx), fun j hj => ?_, fun x hx => (by cases hx),
    fun th' c' hc' hs => ?_, h.apart⟩
  · -- the two halves of the section are the whole one, from before `SetUDPToken`
    show Inverse (c.updateMap old s.tokens)
    rw [updateMap_eq_locked hset]
    refine inverse_locked hinv (fun hs => ⟨(hfresh hs).1, fun j hj => ?_⟩) ?_
    · rw [token_setUDPToken_of_ne _ hj]
      exact (hfresh hs).2 j hj
    · rwa [token_setUDPToken_self]
  · rw [token_updateMap] at hj ⊢
    exact h.field_used j hj
  · have hu := h.unseen th' c' hc' hs
    refine ⟨hu.ne_zero, hu.used, fun j => ?_, fun x hx => (by cases hx)⟩
    rw [token_updateMap]
    exact hu.field j

omit [DecidableEq θ] in
/-- A section that leaves the old token in the map leaves the map wrong. -/
theorem Coherent.unlock_leaves (h : Coherent s) {old : BitVec 64}
    (hin : s.inside = some (th, c, old)) (hleave : c.Leaves old) :
    ¬ Inverse (c.updateMap old s.tokens) := by
  obtain ⟨hset, hinv, -, hne⟩ := h.behind _ _ _ hin
  rw [updateMap_eq_locked hset]
  apply not_inverse_locked hinv
  · rw [token_setUDPToken_self]
    apply hne
    cases c with
    | get i k => trivial
    | renew i k => trivial
    | clear i => exact hleave.elim
  · rwa [token_setUDPToken_self]

theorem step_coherent {l : TokenAct θ} (h : Coherent s) (hl : s.InTime l)
    (hs : step s l = some s') : Coherent s' := by
  cases l with
  | getUDPToken th i t =>
    simp only [step] at hs
    split at hs
    · cases hs
    · split at hs
      · exact Option.some.inj hs ▸ h
      · split at hs
        · exact Option.some.inj hs ▸ h
        · split at hs
          · cases hs
          · next ht => exact Option.some.inj hs ▸ h.mint (not_not.mp ht) rfl
  | renewUDPToken th i t =>
    simp only [step] at hs
    split at hs
    · cases hs
    · next ht =>
      split at hs
      · exact Option.some.inj hs ▸ h.readClock t
      · exact Option.some.inj hs ▸ h.mint (not_not.mp ht).2 rfl
  | clearUDPToken th i =>
    simp only [step] at hs
    split at hs
    · cases hs
    · split at hs
      · exact Option.some.inj hs ▸ h
      · exact Option.some.inj hs ▸ h.goToLock False.elim False.elim
  | lock th =>
    simp only [step] at hs
    split at hs
    · next c hc hfree => exact Option.some.inj hs ▸ h.lock hc hfree
    · cases hs
  | unlock th =>
    simp only [step] at hs
    split at hs
    · cases hs
    · next th' c old hin =>
      split at hs
      · exact Option.some.inj hs ▸ h.unlock hin (hl _ hin)
      · cases hs

theorem step_late {l : TokenAct θ} (h : Coherent s) (hl : ¬ s.InTime l)
    (hs : step s l = some s') : ¬ Exact s' := by
  cases l with
  | unlock th =>
    simp only [step] at hs
    split at hs
    · cases hs
    · next th' c old hin =>
      split at hs
      · obtain rfl := Option.some.inj hs
        have hleave : c.Leaves old := by
          by_contra hleave
          apply hl
          intro x hx
          obtain rfl := Option.some.inj (hin.symm.trans hx)
          exact hleave
        intro he
        exact h.unlock_leaves hin hleave (he rfl)
      · cases hs
  | _ => exact absurd trivial hl

/-- Whatever the threads do, the map is the inverse of the fields whenever the lock is free
if and only if every `GetUDPToken` that stores a token still finds none there. -/
theorem map_inverse_iff {n : BitVec 32} {s : UDPTokenThreads θ} {ls : List (TokenAct θ)}
    (hr : run step (init n) ls = some s) :
    Always step Exact (init n) ls ↔ Meets step InTime (init n) ls :=
  always_iff_meets (fun _ h => h.exact) (fun _ _ _ h hl hs => step_coherent h hl hs)
    (fun _ _ _ h hl hs => step_late h hl hs) (coherent_init n) hr

/-- A TCP job gets a token, a disconnect clears it while a UDP-delivered job renews it. -/
theorem map_inverse_iff_renewed :
    Always step Exact (init 4 : UDPTokenThreads Bool)
      [.getUDPToken true 2 7, .lock true, .renewUDPToken false 2 9, .unlock true,
        .clearUDPToken true 2, .lock false, .unlock false, .lock true, .unlock true] :=
  (map_inverse_iff rfl).mpr (by decide)

/-- Two threads find connection 2 without a token: the token of the first stays in the map. -/
theorem stale_token_stays :
    ¬ ∀ (n : BitVec 32) (ls : List (TokenAct Bool)) (s : UDPTokenThreads Bool),
      run step (init n) ls = some s → s.Exact := by
  intro h
  have hinv := h 4 [.getUDPToken true 2 7, .getUDPToken false 2 9, .lock true, .unlock true,
    .lock false, .unlock false] _ rfl rfl
  exact absurd ((hinv (udpToken 2 7) 2).mp (by decide)).1 (by decide)

end UDPTokenThreads

end RacingGameServer
