import SocketServerLib.RacingGameServer.UDPToken
import Mathlib.Data.Fintype.Defs

/-
  The UDP address of a connection: `DoUDPRecv`, `DoDisconnect`, the token calls and
  `SendMsgUDP` of `IOCPCore`, by any number of threads.

  `DoUDPRecv` looks the datagram's token up under `m_UDPTokenLock` and writes `m_UDPAddr`
  of the connection it found after it has released the lock. `DoDisconnect` clears the
  token under the lock, and then `Close` and `ResetConnection` clear the address without
  it. Each of these accesses is a step of its own, and so are `SetUDPToken` and the update
  of the map inside a locked section. `clock()` may return anything.

  A session of a connection ends where `ResetConnection` runs. `session`, `issued`,
  `learned` and the session noted at a lookup are ghosts.

  What is proved:
    1. `step_coherent` — a key of the map is a token of its connection's current session,
       up to the section in progress, and a connection cleared by a `DoDisconnect` has none.
    2. `own_address` — every address, and every send, is the session's own, if no session
       ends between a lookup and its `SetUDPIP`, and no token is stored for a connection
       between its `ClearUDPToken` and its `ResetConnection`, on top of another, or as 0.
    3. `address_of_earlier_session` — a slot reused between a lookup and its `SetUDPIP`.

  What is assumed: the accesses are seen in one order, every one a step.
-/
namespace RacingGameServer

open LabelledRun UDPTokens

/-- `sockaddr_in`, as far as it is read. -/
structure SockAddr where
  sin_addr : BitVec 32
  sin_port : BitVec 16
  deriving DecidableEq, Repr

/-- A datagram: the token of its `UDPHeader`, and the peer it came from. -/
structure Datagram where
  token : BitVec 64
  clientAddr : SockAddr
  deriving DecidableEq, Repr

/-- Where a thread stands inside a call. The session at `setUDPIP` is that of the lookup. -/
inductive UDPPoint where
  | setUDPIP (uClientIndex : BitVec 32) (d : Datagram) (session : Nat)
  | atLock (c : AtLock)
  | close (uClientIndex_ : BitVec 32)
  | resetConnection (uClientIndex_ : BitVec 32)
  deriving DecidableEq, Repr

/-- A datagram `SendMsgUDP` sent, with the session that sent it and what its address was
learned from. -/
structure UDPSent where
  uClientIndex : BitVec 32
  session : Nat
  clntaddr : SockAddr
  learned : Option Datagram

/-- `issued` lists the tokens given out, with connection and session; `learned i` is the
datagram `SetUDPIP` last copied the address of connection `i` from. -/
structure UDPAddress (θ : Type*) where
  tokens : UDPTokens
  udpAddr : BitVec 32 → SockAddr
  session : BitVec 32 → Nat
  learned : BitVec 32 → Option Datagram
  issued : List (BitVec 32 × Nat × BitVec 64)
  point : θ → Option UDPPoint
  inside : Option (θ × AtLock × BitVec 64)
  sent : List UDPSent

inductive UDPAct (θ : Type*) where
  | getUDPToken (th : θ) (uClientIndex_ timestamp : BitVec 32)
  | renewUDPToken (th : θ) (uClientIndex_ timestamp : BitVec 32)
  | doDisconnect (th : θ) (uClientIndex_ : BitVec 32)
  | lock (th : θ)
  | unlock (th : θ)
  | close (th : θ)
  | resetConnection (th : θ)
  | doAccept (th : θ) (uClientIndex : BitVec 32)
  | doUDPRecv (th : θ) (d : Datagram)
  | setUDPIP (th : θ)
  | sendMsgUDP (th : θ) (uClientIndex_ : BitVec 32)

instance : DecidablePred AtLock.Stores
  | .get _ _ => .isTrue trivial
  | .renew _ _ => .isTrue trivial
  | .clear _ => .isFalse id

/-- Behind its section, `ClearUDPToken` is followed by the `Close` of `DoDisconnect`, its
only caller. -/
def UDPTokens.AtLock.behind : AtLock → Option UDPPoint
  | .clear i => some (.close i)
  | _ => none

namespace UDPAddress

variable {θ : Type*} [DecidableEq θ]

def noAddr : SockAddr := { sin_addr := 0, sin_port := 0 }

def init (n : BitVec 32) : UDPAddress θ :=
  { tokens := .init n, udpAddr := fun _ => noAddr, session := fun _ => 0, learned := fun _ => none
    issued := [], point := fun _ => none, inside := none, sent := [] }

/-- The thread is in none of the calls. -/
def Idle (s : UDPAddress θ) (th : θ) : Prop :=
  s.point th = none ∧ s.inside.map Prod.fst ≠ some th

instance (s : UDPAddress θ) (th : θ) : Decidable (s.Idle th) := by
  unfold Idle; infer_instance

def goTo (s : UDPAddress θ) (th : θ) (p : UDPPoint) : UDPAddress θ :=
  { s with point := Function.update s.point th (some p) }

/-- A token is given out to the current session of connection `i`. -/
def issue (s : UDPAddress θ) (i : BitVec 32) (k : BitVec 64) : UDPAddress θ :=
  { s with issued := (i, s.session i, k) :: s.issued }

/-- `SetUDPToken`, inside the lock. -/
def enter (s : UDPAddress θ) (th : θ) (c : AtLock) : UDPAddress θ :=
  { s with
    tokens := (s.tokens.setUDPToken c.index c.newToken).1
    issued := if c.Stores then (c.index, s.session c.index, c.newToken) :: s.issued else s.issued
    point := Function.update s.point th none
    inside := some (th, c, s.tokens.token c.index) }

/-- The update of the map, and the release of the lock. -/
def leave (s : UDPAddress θ) (th : θ) (c : AtLock) (old : BitVec 64) : UDPAddress θ :=
  { s with
    tokens := c.updateMap old s.tokens
    point := Function.update s.point th c.behind
    inside := none }

/-- `Connection::Close`. -/
def closed (s : UDPAddress θ) (th : θ) (i : BitVec 32) : UDPAddress θ :=
  { s with
    udpAddr := Function.update s.udpAddr i { s.udpAddr i with sin_port := 0 }
    point := Function.update s.point th (some (.resetConnection i)) }

/-- `Connection::ResetConnection`. -/
def reset (s : UDPAddress θ) (th : θ) (i : BitVec 32) : UDPAddress θ :=
  { s with
    udpAddr := Function.update s.udpAddr i noAddr
    session := Function.update s.session i (s.session i + 1)
    point := Function.update s.point th none }

/-- `Connection::SetUDPIP`. -/
def setAddr (s : UDPAddress θ) (th : θ) (i : BitVec 32) (d : Datagram) : UDPAddress θ :=
  { s with
    udpAddr := Function.update s.udpAddr i d.clientAddr
    learned := Function.update s.learned i (some d)
    point := Function.update s.point th none }

def step (s : UDPAddress θ) : UDPAct θ → Option (UDPAddress θ)
  | .getUDPToken th i t =>
    if ¬ s.Idle th then none
    else if ¬ i < s.tokens.connections then some s
    -- the unlocked read: a token found is given out as it is
    else if s.tokens.token i ≠ 0 then some (s.issue i (s.tokens.token i))
    else some (s.goTo th (.atLock (.get i (udpToken i t))))
  | .renewUDPToken th i t =>
    if ¬ s.Idle th then none
    else if ¬ i < s.tokens.connections then some s
    else some (s.goTo th (.atLock (.renew i (udpToken i t))))
  | .doDisconnect th i =>
    if ¬ s.Idle th then none
    else if ¬ i < s.tokens.connections then some s
    else some (s.goTo th (.atLock (.clear i)))
  | .lock th =>
    match s.point th, s.inside with
    | some (.atLock c), none => some (s.enter th c)
    | _, _ => none
  | .unlock th =>
    match s.inside with
    | none => none
    | some (th', c, old) => if th' = th then some (s.leave th c old) else none
  | .close th =>
    match s.point th with
    | some (.close i) => some (s.closed th i)
    | _ => none
  | .resetConnection th =>
    match s.point th with
    | some (.resetConnection i) => some (s.reset th i)
    | _ => none
  -- `BindIOCP`, `BindRecv` and `SetSocketOpt` touch neither the token nor the address
  | .doAccept th _ => if ¬ s.Idle th then none else some s
  | .doUDPRecv th d =>
    if ¬ (s.Idle th ∧ s.inside = none) then none
    else
      match s.tokens.udpTokens d.token with
      | none => some s
      | some i => some (s.goTo th (.setUDPIP i d (s.session i)))
  | .setUDPIP th =>
    match s.point th with
    | some (.setUDPIP i d _) =>
      if ¬ i < s.tokens.connections then some { s with point := Function.update s.point th none }
      else some (s.setAddr th i d)
    | _ => none
  | .sendMsgUDP th i =>
    if ¬ s.Idle th then none
    else if ¬ i < s.tokens.connections then some s
    else if (s.udpAddr i).sin_port = 0 then some s
    else some { s with sent := ⟨i, s.session i, s.udpAddr i, s.learned i⟩ :: s.sent }

/-! ## The session's own address -/

/-- The address was recorded from a datagram with a token issued to session `n` of `i`. -/
def Own (s : UDPAddress θ) (i : BitVec 32) (n : Nat) (addr : SockAddr)
    (learned : Option Datagram) : Prop :=
  ∃ d ∈ learned, d.clientAddr = addr ∧ (i, n, d.token) ∈ s.issued

/-- Every address that is set, and every address a response was sent to, is the session's own. -/
structure OwnAddress (s : UDPAddress θ) : Prop where
  addr : ∀ i, (s.udpAddr i).sin_port ≠ 0 → s.Own i (s.session i) (s.udpAddr i) (s.learned i)
  sent : ∀ x ∈ s.sent, s.Own x.uClientIndex x.session x.clntaddr x.learned

/-- Some `DoDisconnect` has cleared the token of `i` and has yet to reset the connection. -/
def Closing (s : UDPAddress θ) (i : BitVec 32) : Prop :=
  ∃ th, s.point th = some (.close i) ∨ s.point th = some (.resetConnection i)

/-- The condition on a thread about to store a token or an address. -/
def UDPPoint.InOrder (s : UDPAddress θ) : UDPPoint → Prop
  | .atLock c => c.Stores →
    c.newToken ≠ 0 ∧ ¬ c.Leaves (s.tokens.token c.index) ∧ ¬ s.Closing c.index
  | .setUDPIP i _ n => s.session i = n
  | _ => True

def InOrder (s : UDPAddress θ) : UDPAct θ → Prop
  | .lock th => ∀ p ∈ s.point th, UDPPoint.InOrder s p
  | .setUDPIP th => ∀ p ∈ s.point th, UDPPoint.InOrder s p
  | _ => True

omit [DecidableEq θ] in
instance (s : UDPAddress θ) (i : BitVec 32) (n : Nat) (addr : SockAddr) (l : Option Datagram) :
    Decidable (s.Own i n addr l) := by
  unfold Own; infer_instance

omit [DecidableEq θ] in
instance [Fintype θ] (s : UDPAddress θ) (i : BitVec 32) : Decidable (s.Closing i) := by
  unfold Closing; infer_instance

omit [DecidableEq θ] in
instance [Fintype θ] (s : UDPAddress θ) : DecidablePred (UDPPoint.InOrder s) := fun p => by
  cases p <;> unfold UDPPoint.InOrder <;> infer_instance

omit [DecidableEq θ] in
instance [Fintype θ] (s : UDPAddress θ) : DecidablePred s.InOrder := fun l => by
  cases l <;> unfold InOrder <;> infer_instance

/-! ## What every step keeps -/

/-- The connection still has the token, or the section in progress has just taken it out. -/
def Keeps (s : UDPAddress θ) (i : BitVec 32) (k : BitVec 64) : Prop :=
  s.tokens.token i = k ∨ ∃ x ∈ s.inside, x.2.1.index = i ∧ x.2.2 = k

/-- What holds between the two halves of a section. -/
structure Within (s : UDPAddress θ) (c : AtLock) (old : BitVec 64) : Prop where
  set : s.tokens.token c.index = c.newToken
  stores : c.Stores → c.newToken ≠ 0 ∧ (c.index, s.session c.index, c.newToken) ∈ s.issued
  leaves : ¬ c.Leaves old

/-- A connection whose token a `DoDisconnect` has cleared. -/
structure Cleared (s : UDPAddress θ) (i : BitVec 32) : Prop where
  token : s.tokens.token i = 0
  map : ∀ k, s.tokens.udpTokens k ≠ some i
  inside : ∀ x ∈ s.inside, x.2.1.index = i → ¬ x.2.1.Stores

structure Coherent (s : UDPAddress θ) : Prop where
  map : ∀ k i, s.tokens.udpTokens k = some i →
    k ≠ 0 ∧ (i, s.session i, k) ∈ s.issued ∧ s.Keeps i k
  within : ∀ th c old, s.inside = some (th, c, old) → s.Within c old
  cleared : ∀ i, s.Closing i → s.Cleared i
  lookup : ∀ th i d n, s.point th = some (.setUDPIP i d n) → (i, n, d.token) ∈ s.issued
  own : OwnAddress s

variable {s s' : UDPAddress θ} {th : θ} {i : BitVec 32} {k : BitVec 64} {c : AtLock}
  {d : Datagram} {n : Nat}

omit [DecidableEq θ] in
theorem coherent_init (n : BitVec 32) : Coherent (init n : UDPAddress θ) where
  map := fun _ _ h => (by cases h)
  within := fun _ _ _ h => (by cases h)
  cleared := fun _ h => by
    obtain ⟨th, h | h⟩ := h <;> cases h
  lookup := fun _ _ _ _ h => (by cases h)
  own := ⟨fun _ h => absurd rfl h, fun _ h => (by cases h)⟩

/-- A thread's point after an update, for any property of points. -/
theorem point_update {p : Option UDPPoint} {th' : θ} {q : UDPPoint}
    (h : Function.update s.point th p th' = some q) : p = some q ∨ s.point th' = some q := by
  rw [Function.update_apply] at h
  split at h
  · exact .inl h
  · exact .inr h

/-- Where no thread has come to close or reset `i`, nobody new is closing it. -/
theorem closing_of_update {p : Option UDPPoint} {t : UDPAddress θ}
    (ht : t.point = Function.update s.point th p)
    (hp : p ≠ some (.close i) ∧ (p = some (.resetConnection i) → s.Closing i))
    (h : t.Closing i) : s.Closing i := by
  obtain ⟨th', h⟩ := h
  rw [ht] at h
  rcases h with h | h
  · rcases point_update h with h | h
    · exact absurd h hp.1
    · exact ⟨th', .inl h⟩
  · rcases point_update h with h | h
    · exact hp.2 h
    · exact ⟨th', .inr h⟩

omit [DecidableEq θ] in
theorem Own.mono {addr : SockAddr} {l : Option Datagram} (h : s.Own i n addr l)
    (hsub : s.issued ⊆ s'.issued) : s'.Own i n addr l := by
  obtain ⟨d, hl, hd, hi⟩ := h
  exact ⟨d, hl, hd, hsub hi⟩

omit [DecidableEq θ] in
/-- The tokens, the sessions and the lock stay as they are. -/
theorem Coherent.frame (h : Coherent s) (htokens : s'.tokens = s.tokens)
    (hsession : s'.session = s.session) (hissued : s'.issued = s.issued)
    (hinside : s'.inside = s.inside) (hclosing : ∀ i, s'.Closing i → s.Closing i)
    (hlookup : ∀ th i d n, s'.point th = some (.setUDPIP i d n) → (i, n, d.token) ∈ s.issued)
    (hown : OwnAddress s') : Coherent s' := by
  refine ⟨fun k i hk => ?_, fun th c old hin => ?_, fun i hi => ?_, fun th i d n hp => ?_, hown⟩
  · rw [htokens] at hk
    obtain ⟨hz, hi, hkeep⟩ := h.map k i hk
    refine ⟨hz, by rwa [hsession, hissued], ?_⟩
    unfold Keeps
    rwa [htokens, hinside]
  · rw [hinside] at hin
    obtain ⟨hset, hstores, hleaves⟩ := h.within th c old hin
    exact ⟨by rwa [htokens], by rwa [hsession, hissued], hleaves⟩
  · obtain ⟨ht, hm, hin⟩ := h.cleared i (hclosing i hi)
    exact ⟨by rwa [htokens], by rwa [htokens], by rwa [hinside]⟩
  · rw [hissued]
    exact hlookup th i d n hp

/-- A thread goes to a point that is neither `Close` nor `ResetConnection`. -/
theorem Coherent.goTo (h : Coherent s) {p : UDPPoint}
    (hp : ∀ i, p ≠ .close i ∧ p ≠ .resetConnection i)
    (hlookup : ∀ i d n, p = .setUDPIP i d n → (i, n, d.token) ∈ s.issued) :
    Coherent (s.goTo th p) := by
  refine h.frame rfl rfl rfl rfl ?_ ?_ ?_
  · intro i hi
    exact closing_of_update rfl ⟨fun he => (hp i).1 (Option.some.inj he),
      fun he => absurd (Option.some.inj he) (hp i).2⟩ hi
  · intro th' i d n hpt
    rcases point_update hpt with hpt | hpt
    · exact hlookup i d n (Option.some.inj hpt)
    · exact h.lookup th' i d n hpt
  · exact ⟨h.own.addr, h.own.sent⟩

omit [DecidableEq θ] in
theorem Coherent.issue (h : Coherent s) (i : BitVec 32) (k : BitVec 64) :
    Coherent (s.issue i k) := by
  have hsub : s.issued ⊆ (s.issue i k).issued := List.subset_cons_self ..
  refine ⟨fun k' j hk => ?_, fun th' c old hin => ?_, fun j hj => ?_,
    fun th' j d n hpt => hsub (h.lookup th' j d n hpt),
    fun j hj => (h.own.addr j hj).mono hsub, fun x hx => (h.own.sent x hx).mono hsub⟩
  · obtain ⟨hz, hi, hkeep⟩ := h.map k' j hk
    exact ⟨hz, hsub hi, hkeep⟩
  · have hw := h.within th' c old hin
    refine ⟨hw.set, ?_, hw.leaves⟩
    intro hs
    exact ⟨(hw.stores hs).1, hsub (hw.stores hs).2⟩
  · have hc := h.cleared j hj
    exact ⟨hc.token, hc.map, hc.inside⟩

/-- `SetUDPToken` inside the lock. -/
theorem Coherent.enter (h : Coherent s) (hfree : s.inside = none)
    (hc : UDPPoint.InOrder s (.atLock c)) : Coherent (s.enter th c) := by
  have hsub : s.issued ⊆ (s.enter th c).issued := by
    simp only [UDPAddress.enter]
    split
    · exact List.subset_cons_self ..
    · exact fun _ hx => hx
  refine ⟨fun k j hk => ?_, fun th' c' old hin => ?_, fun j hj => ?_, fun th' j d n hpt => ?_,
    fun j hj => (h.own.addr j hj).mono hsub, fun x hx => (h.own.sent x hx).mono hsub⟩
  · obtain ⟨hz, hi, hkeep⟩ := h.map k j hk
    refine ⟨hz, hsub hi, ?_⟩
    -- the lock was free, so the field had the key; now the section has it, or the field still does
    rcases hkeep with hkeep | ⟨x, hx, -⟩
    · by_cases hj : j = c.index
      · subst hj
        exact .inr ⟨_, rfl, rfl, hkeep⟩
      · left
        show Function.update _ _ _ _ = _
        rw [Function.update_of_ne hj, hkeep]
    · rw [hfree] at hx
      cases hx
  · cases hin
    refine ⟨Function.update_self .., ?_, ?_⟩
    · intro hs
      refine ⟨(hc hs).1, ?_⟩
      simp only [UDPAddress.enter, if_pos hs]
      exact List.mem_cons_self
    · intro hl
      have hs : c.Stores := by
        cases c with
        | get i k => trivial
        | renew i k => exact hl.elim
        | clear i => exact hl.elim
      exact (hc hs).2.1 hl
  · have hj' := closing_of_update (p := none) rfl ⟨nofun, fun he => (by cases he)⟩ hj
    have hcl := h.cleared j hj'
    refine ⟨?_, hcl.map, ?_⟩
    · show Function.update _ _ _ _ = _
      by_cases he : j = c.index
      · subst he
        rw [Function.update_self]
        apply AtLock.newToken_eq_zero
        intro hs
        exact (hc hs).2.2 hj'
      · rw [Function.update_of_ne he, hcl.token]
    · intro x hx he hs
      obtain rfl := Option.some.inj hx
      subst he
      exact (hc hs).2.2 hj'
  · rcases point_update hpt with hpt | hpt
    · cases hpt
    · exact hsub (h.lookup th' j d n hpt)

/-- What the map has behind an `eraseOld`. -/
theorem eraseOld_eq_some {old : BitVec 64} {t : UDPTokens} {j : BitVec 32}
    (hk : (t.eraseOld old).udpTokens k = some j) :
    t.udpTokens k = some j ∧ (k = old → old = 0) := by
  simp only [eraseOld] at hk
  split at hk
  · rw [InverseMap.erase, Function.update_apply] at hk
    split at hk
    · cases hk
    · next hne => exact ⟨hk, fun he => absurd he hne⟩
  · next hz => exact ⟨hk, fun _ => not_not.mp hz⟩

/-- What the map has behind an `emplace`. -/
theorem emplace_eq_some {t : UDPTokens} {l : BitVec 64} {j : BitVec 32}
    (hk : (t.emplace l i).udpTokens k = some j) : t.udpTokens k = some j ∨ k = l ∧ j = i := by
  simp only [UDPTokens.emplace, InverseMap.emplace] at hk
  split at hk
  · exact .inl hk
  · rw [Function.update_apply] at hk
    split at hk
    · next he => exact .inr ⟨he, (Option.some.inj hk).symm⟩
    · exact .inl hk

/-- What the map has behind a section: the token just stored, or a key it had before, which
is not the old token. -/
theorem updateMap_eq_some {old : BitVec 64} {t : UDPTokens} {j : BitVec 32}
    (hleave : ¬ c.Leaves old) (hk : (c.updateMap old t).udpTokens k = some j) :
    (c.Stores ∧ k = c.newToken ∧ j = c.index) ∨
      (t.udpTokens k = some j ∧ (k = old → old = 0)) := by
  cases c with
  | get i l =>
    rcases emplace_eq_some hk with hk | hk
    · exact .inr ⟨hk, fun _ => not_not.mp hleave⟩
    · exact .inl ⟨trivial, hk⟩
  | renew i l =>
    rcases emplace_eq_some hk with hk | hk
    · exact .inr (eraseOld_eq_some hk)
    · exact .inl ⟨trivial, hk⟩
  | clear i => exact .inr (eraseOld_eq_some hk)

/-- The update of the map, and the release of the lock. -/
theorem Coherent.leave (h : Coherent s) {old : BitVec 64} (hin : s.inside = some (th, c, old)) :
    Coherent (s.leave th c old) := by
  obtain ⟨hset, hstores, hleave⟩ := h.within th c old hin
  -- a key that is not the old token belongs to the connection whose field it is
  have hkeys : ∀ k j, s.tokens.udpTokens k = some j → (k = old → old = 0) →
      s.tokens.token j = k := by
    intro k j hk hold
    obtain ⟨hz, -, hkeep⟩ := h.map k j hk
    rcases hkeep with hkeep | ⟨x, hx, -, hx'⟩
    · exact hkeep
    · obtain rfl := Option.some.inj (hin.symm.trans hx)
      exact absurd (hx'.symm.trans (hold hx'.symm)) hz
  have hmap : ∀ k j, (s.leave th c old).tokens.udpTokens k = some j →
      k ≠ 0 ∧ (j, s.session j, k) ∈ s.issued ∧ s.tokens.token j = k := by
    intro k j hk
    rcases updateMap_eq_some hleave hk with ⟨hs, rfl, rfl⟩ | ⟨hk, hold⟩
    · exact ⟨(hstores hs).1, (hstores hs).2, hset⟩
    · obtain ⟨hz, hi, -⟩ := h.map k j hk
      exact ⟨hz, hi, hkeys k j hk hold⟩
  refine ⟨fun k j hk => ?_, fun _ _ _ hx => (by cases hx), fun j hj => ?_,
    fun th' j d n hpt => ?_, ⟨h.own.addr, h.own.sent⟩⟩
  · obtain ⟨hz, hi, ht⟩ := hmap k j hk
    refine ⟨hz, hi, .inl ?_⟩
    show (c.updateMap old s.tokens).token j = k
    rw [token_updateMap, ht]
  · have htoken : s.tokens.token j = 0 := by
      by_cases hcl : s.Closing j
      · exact (h.cleared j hcl).token
      · -- this section is the one that has cleared it
        obtain ⟨th', hj⟩ := hj
        have hpt : Function.update s.point th c.behind th' = some (.close j) ∨
            Function.update s.point th c.behind th' = some (.resetConnection j) := hj
        rw [Function.update_apply] at hpt
        split at hpt
        · cases c with
          | get i l => obtain hpt | hpt := hpt <;> cases hpt
          | renew i l => obtain hpt | hpt := hpt <;> cases hpt
          | clear i =>
            rcases hpt with hpt | hpt
            · cases hpt
              exact hset
            · cases hpt
        · exact absurd ⟨th', hpt⟩ hcl
    refine ⟨?_, fun k hk => ?_, fun x hx => (by cases hx)⟩
    · show (c.updateMap old s.tokens).token j = 0
      rw [token_updateMap, htoken]
    · obtain ⟨hz, -, ht⟩ := hmap k j hk
      exact hz (ht.symm.trans htoken)
  · rcases point_update hpt with hpt | hpt
    · cases c <;> cases hpt
    · exact h.lookup th' j d n hpt

omit [DecidableEq θ] in
/-- An address is cleared, or replaced by one that is the session's own. -/
theorem OwnAddress.set (h : OwnAddress s) (i : BitVec 32) (hissued : s'.issued = s.issued)
    (hsent : s'.sent = s.sent)
    (hself : (s'.udpAddr i).sin_port ≠ 0 → s'.Own i (s'.session i) (s'.udpAddr i) (s'.learned i))
    (hframe : ∀ j ≠ i, s'.udpAddr j = s.udpAddr j ∧ s'.session j = s.session j ∧
      s'.learned j = s.learned j) : OwnAddress s' := by
  have hsub : s.issued ⊆ s'.issued := fun _ hx => hissued ▸ hx
  refine ⟨fun j hj => ?_, fun x hx => ?_⟩
  · by_cases he : j = i
    · subst he
      exact hself hj
    · obtain ⟨ha, hn, hl⟩ := hframe j he
      rw [ha] at hj ⊢
      rw [hn, hl]
      exact (h.addr j hj).mono hsub
  · rw [hsent] at hx
    exact (h.sent x hx).mono hsub

/-- `Close` clears the port. -/
theorem Coherent.closed (h : Coherent s) (hpt : s.point th = some (.close i)) :
    Coherent (s.closed th i) := by
  refine h.frame rfl rfl rfl rfl ?_ ?_ ?_
  · intro j hj
    refine closing_of_update (p := some (.resetConnection i)) rfl ⟨nofun, ?_⟩ hj
    intro he
    cases he
    exact ⟨th, .inl hpt⟩
  · intro th' j d n hp
    rcases point_update hp with hp | hp
    · cases hp
    · exact h.lookup th' j d n hp
  · refine h.own.set i rfl rfl (fun hport => ?_) fun j hj => ⟨Function.update_of_ne hj .., rfl, rfl⟩
    simp only [UDPAddress.closed, Function.update_self] at hport
    exact absurd rfl hport

/-- `ResetConnection` ends the session of a connection without a token. -/
theorem Coherent.reset (h : Coherent s) (hpt : s.point th = some (.resetConnection i)) :
    Coherent (s.reset th i) := by
  have hcleared := h.cleared i ⟨th, .inr hpt⟩
  have hsession : ∀ j ≠ i, (s.reset th i).session j = s.session j := by
    intro j hj
    exact Function.update_of_ne hj ..
  refine ⟨fun k j hk => ?_, fun th' c old hin => ?_, fun j hj => ?_, fun th' j d n hp => ?_, ?_⟩
  · have hj : j ≠ i := by
      intro he
      subst he
      exact hcleared.map k hk
    rw [hsession j hj]
    exact h.map k j hk
  · have hw := h.within th' c old hin
    refine ⟨hw.set, fun hs => ?_, hw.leaves⟩
    have hj : c.index ≠ i := fun he => hcleared.inside _ hin he hs
    rw [hsession _ hj]
    exact hw.stores hs
  · have hc := h.cleared j (closing_of_update (p := none) rfl ⟨nofun, fun he => (by cases he)⟩ hj)
    exact ⟨hc.token, hc.map, hc.inside⟩
  · rcases point_update hp with hp | hp
    · cases hp
    · exact h.lookup th' j d n hp
  · refine h.own.set i rfl rfl (fun hport => ?_) fun j hj =>
      ⟨Function.update_of_ne hj .., hsession j hj, rfl⟩
    simp only [UDPAddress.reset, Function.update_self] at hport
    exact absurd rfl hport

/-- A thread leaves `DoUDPRecv`, with an address that is the session's own. -/
theorem Coherent.leaveRecv (h : Coherent s) (th : θ)
    (hpoint : s'.point = Function.update s.point th none)
    (htokens : s'.tokens = s.tokens) (hsession : s'.session = s.session)
    (hissued : s'.issued = s.issued) (hinside : s'.inside = s.inside) (hown : OwnAddress s') :
    Coherent s' := by
  refine h.frame htokens hsession hissued hinside (fun i hi => ?_) (fun th' i d n hp => ?_) hown
  · exact closing_of_update hpoint ⟨nofun, fun he => (by cases he)⟩ hi
  · rw [hpoint] at hp
    rcases point_update hp with hp | hp
    · cases hp
    · exact h.lookup th' i d n hp

/-- `SetUDPIP`, in the session of its lookup. -/
theorem Coherent.setAddr (h : Coherent s) (hpt : s.point th = some (.setUDPIP i d n))
    (hn : s.session i = n) : Coherent (s.setAddr th i d) := by
  refine h.leaveRecv th rfl rfl rfl rfl rfl ?_
  refine h.own.set i rfl rfl (fun _ => ?_) fun j hj =>
    ⟨Function.update_of_ne hj .., rfl, Function.update_of_ne hj ..⟩
  have haddr : (s.setAddr th i d).udpAddr i = d.clientAddr := Function.update_self ..
  refine ⟨d, Function.update_self .., haddr.symm, ?_⟩
  show (i, s.session i, d.token) ∈ s.issued
  rw [hn]
  exact h.lookup th i d n hpt

theorem step_coherent {l : UDPAct θ} (h : Coherent s) (hl : s.InOrder l)
    (hs : step s l = some s') : Coherent s' := by
  cases l with
  | getUDPToken th i t =>
    simp only [step] at hs
    split at hs
    · cases hs
    · split at hs
      · exact Option.some.inj hs ▸ h
      · split at hs
        · exact Option.some.inj hs ▸ h.issue ..
        · exact Option.some.inj hs ▸ h.goTo (fun _ => ⟨nofun, nofun⟩) nofun
  | renewUDPToken th i t =>
    simp only [step] at hs
    split at hs
    · cases hs
    · split at hs
      · exact Option.some.inj hs ▸ h
      · exact Option.some.inj hs ▸ h.goTo (fun _ => ⟨nofun, nofun⟩) nofun
  | doDisconnect th i =>
    simp only [step] at hs
    split at hs
    · cases hs
    · split at hs
      · exact Option.some.inj hs ▸ h
      · exact Option.some.inj hs ▸ h.goTo (fun _ => ⟨nofun, nofun⟩) nofun
  | lock th =>
    simp only [step] at hs
    split at hs
    · next c hc hfree => exact Option.some.inj hs ▸ h.enter hfree (hl _ hc)
    · cases hs
  | unlock th =>
    simp only [step] at hs
    split at hs
    · cases hs
    · next th' c old hin =>
      split at hs
      · next he =>
        subst he
        exact Option.some.inj hs ▸ h.leave hin
      · cases hs
  | close th =>
    simp only [step] at hs
    split at hs
    · next i hpt => exact Option.some.inj hs ▸ h.closed hpt
    · cases hs
  | resetConnection th =>
    simp only [step] at hs
    split at hs
    · next i hpt => exact Option.some.inj hs ▸ h.reset hpt
    · cases hs
  | doAccept th i =>
    simp only [step] at hs
    split at hs
    · cases hs
    · exact Option.some.inj hs ▸ h
  | doUDPRecv th d =>
    simp only [step] at hs
    split at hs
    · cases hs
    · next hfree =>
      split at hs
      · exact Option.some.inj hs ▸ h
      · next i hk =>
        obtain rfl := Option.some.inj hs
        refine h.goTo (fun _ => ⟨nofun, nofun⟩) ?_
        intro j d' n he
        cases he
        exact (h.map d.token i hk).2.1
  | setUDPIP th =>
    simp only [step] at hs
    split at hs
    · next i d n hpt =>
      split at hs
      · exact Option.some.inj hs ▸ h.leaveRecv th rfl rfl rfl rfl rfl
          ⟨h.own.addr, h.own.sent⟩
      · exact Option.some.inj hs ▸ h.setAddr hpt (hl _ hpt)
    · cases hs
  | sendMsgUDP th i =>
    simp only [step] at hs
    split at hs
    · cases hs
    · split at hs
      · exact Option.some.inj hs ▸ h
      · split at hs
        · exact Option.some.inj hs ▸ h
        · next hport =>
          obtain rfl := Option.some.inj hs
          refine h.frame rfl rfl rfl rfl (fun _ => id) h.lookup ⟨h.own.addr, fun x hx => ?_⟩
          rcases List.mem_cons.mp hx with rfl | hx
          · exact h.own.addr i hport
          · exact h.own.sent x hx

/-- However the threads interleave, an address that is set was recorded from a datagram with a
token of the connection's current session, and so was every address a response went to, if no
session ends between a lookup and its `SetUDPIP` and no token is stored for a connection that is
being closed, on top of another, or as 0. -/
theorem own_address {n : BitVec 32} {s : UDPAddress θ} {ls : List (UDPAct θ)}
    (hC : Meets step InOrder (init n) ls) (hr : run step (init n) ls = some s) :
    OwnAddress s :=
  (run_invariant (fun _ _ _ h hl hs => step_coherent h hl hs) (coherent_init n) hC hr).own

/-! ## A slot used twice -/

/-- A datagram for the token connection 2 gets at 7. -/
def datagram : Datagram :=
  { token := udpToken 2 7, clientAddr := { sin_addr := 1, sin_port := 5000 } }

/-- Connection 2 gets a token and the datagram's token is looked up. -/
def lookup : List (UDPAct Bool) :=
  [.getUDPToken true 2 7, .lock true, .unlock true, .doUDPRecv false datagram]

/-- Connection 2 disconnects and is accepted again. -/
def reuse : List (UDPAct Bool) :=
  [.doDisconnect true 2, .lock true, .unlock true, .close true, .resetConnection true,
    .doAccept true 2]

/-- The address is written and used before the slot is reused; afterwards the token is gone. -/
theorem own_address_in_order : ∃ s : UDPAddress Bool,
    run step (init 4) (lookup ++ [.setUDPIP false, .sendMsgUDP true 2] ++ reuse ++
      [.doUDPRecv false datagram, .sendMsgUDP true 2]) = some s ∧
      OwnAddress s ∧ s.sent.map UDPSent.clntaddr = [datagram.clientAddr] := by
  have hrun : ((run step (init 4) (lookup ++ [.setUDPIP false, .sendMsgUDP true 2] ++ reuse ++
      [.doUDPRecv false datagram, .sendMsgUDP true 2])).map fun s : UDPAddress Bool =>
        s.sent.map UDPSent.clntaddr) = some [datagram.clientAddr] := by decide +kernel
  obtain ⟨s, hs, hsent⟩ := Option.map_eq_some_iff.mp hrun
  exact ⟨s, hs, own_address (by decide +kernel) hs, hsent⟩

/-- The slot is reused between the lookup and its `SetUDPIP`: a response of the new session goes
to the peer of the old one. -/
theorem address_of_earlier_session :
    ¬ ∀ (n : BitVec 32) (ls : List (UDPAct Bool)) (s : UDPAddress Bool),
      run step (init n) ls = some s → OwnAddress s := by
  intro h
  have hrun : ((run step (init 4) (lookup ++ reuse ++ [.setUDPIP false, .sendMsgUDP true 2])).map
      fun s : UDPAddress Bool =>
        decide (∀ x ∈ s.sent, s.Own x.uClientIndex x.session x.clntaddr x.learned)) =
      some false := by decide +kernel
  obtain ⟨s, hs, hnot⟩ := Option.map_eq_some_iff.mp hrun
  exact of_decide_eq_false hnot (h 4 _ s hs).sent

end UDPAddress

end RacingGameServer
