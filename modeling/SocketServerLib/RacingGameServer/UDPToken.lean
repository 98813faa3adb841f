import SocketServerLib.Lib.InverseMap
import SocketServerLib.Lib.LabelledRun

/-
  UDP tokens: `GetUDPToken`, `RenewUDPToken` and `ClearUDPToken` of `IOCPCore`.

  A connection's token is stored twice, in its `m_UDPToken` and as a key of
  `m_UDPTokens`, 0 standing for no token. The index goes in the upper half, and the
  signed 32-bit value of `clock()` is converted to `uint64_t`, that is sign-extended,
  before the two are or'ed.

  A call is a check followed by one section under `m_UDPTokenLock` (`AtLock`). The clock may
  have any values.

  What is proved:
    1. `inverse_locked`, `not_inverse_locked` — what one section does to the two sides.
    2. `tokens_identify_iff` — tokens are non-zero, carry their connection's index and are
       never shared, and the map is the inverse of the fields, if and only if no reading
       used is negative and connection 0 does not use 0.
    3. `minus_one_shared` — two connections with the token 0xFFFFFFFFFFFFFFFF.

  What is assumed: the calls run to completion one after the other (`UDPTokenThreads` interleaves
  them).
-/
namespace RacingGameServer

open InverseMap LabelledRun

/-! ## The token -/

/-- `((uint64_t)uClientIndex_ << 32) | (uint64_t)timestamp`. -/
def udpToken (uClientIndex_ timestamp : BitVec 32) : BitVec 64 :=
  (uClientIndex_.setWidth 64 <<< 32) ||| timestamp.signExtend 64

def upper (token : BitVec 64) : BitVec 32 := token.extractLsb' 32 32

def lower (token : BitVec 64) : BitVec 32 := token.setWidth 32

theorem lower_udpToken (i t : BitVec 32) : lower (udpToken i t) = t := by
  ext k hk
  have h64 : k < 64 := by omega
  rw [lower, udpToken, BitVec.getElem_setWidth, BitVec.getLsbD_or, BitVec.getLsbD_shiftLeft,
    BitVec.getLsbD_signExtend, if_pos hk, BitVec.getLsbD_eq_getElem hk]
  simp [hk, h64]

/-- A negative reading covers the index. -/
theorem upper_udpToken (i t : BitVec 32) :
    upper (udpToken i t) = if t.msb then BitVec.allOnes 32 else i := by
  ext k hk
  have h64 : 32 + k < 64 := by omega
  have hn : ¬ 32 + k < 32 := by omega
  have hi : (i.setWidth 64).getLsbD k = i[k] := by
    rw [BitVec.getLsbD_setWidth, BitVec.getLsbD_eq_getElem hk]
    simp [show k < 64 by omega]
  rw [upper, BitVec.getElem_extractLsb', udpToken, BitVec.getLsbD_or, BitVec.getLsbD_shiftLeft,
    BitVec.getLsbD_signExtend, Nat.add_sub_cancel_left, if_neg hn, hi]
  cases t.msb with
  | false => simp [hn, h64]
  | true =>
    -- the sign bit fills the upper half
    rw [if_pos rfl, BitVec.getElem_allOnes]
    simp [h64]

theorem udpToken_eq_zero (i t : BitVec 32) : udpToken i t = 0 ↔ i = 0 ∧ t = 0 := by
  constructor
  · intro h
    have hl := lower_udpToken i t
    have hu := upper_udpToken i t
    rw [h] at hl hu
    have ht : t = 0 := hl.symm
    subst ht
    exact ⟨by simpa [upper] using hu.symm, rfl⟩
  · intro hx
    obtain ⟨rfl, rfl⟩ := hx
    rfl

/-! ## The calls -/

/-- `connections` counts the connection objects; `token i` is `m_UDPToken` of the `i`th. -/
structure UDPTokens where
  connections : BitVec 32
  token : BitVec 32 → BitVec 64
  udpTokens : BitVec 64 → Option (BitVec 32)

namespace UDPTokens

def init (n : BitVec 32) : UDPTokens :=
  { connections := n, token := fun _ => 0, udpTokens := fun _ => none }

/-- `Connection::SetUDPToken`: gives the old token back. -/
def setUDPToken (s : UDPTokens) (i : BitVec 32) (uNewToken_ : BitVec 64) : UDPTokens × BitVec 64 :=
  ({ s with token := Function.update s.token i uNewToken_ }, s.token i)

@[simp] theorem token_setUDPToken_self (s : UDPTokens) (i : BitVec 32) (k : BitVec 64) :
    (s.setUDPToken i k).1.token i = k :=
  Function.update_self ..

theorem token_setUDPToken_of_ne (s : UDPTokens) {i j : BitVec 32} (h : j ≠ i) (k : BitVec 64) :
    (s.setUDPToken i k).1.token j = s.token j :=
  Function.update_of_ne h ..

def emplace (s : UDPTokens) (uRet : BitVec 64) (i : BitVec 32) : UDPTokens :=
  { s with udpTokens := InverseMap.emplace s.udpTokens uRet i }

def eraseOld (s : UDPTokens) (old : BitVec 64) : UDPTokens :=
  { s with udpTokens := if old ≠ 0 then erase s.udpTokens old else s.udpTokens }

/-- A call that is about to take `m_UDPTokenLock`. -/
inductive AtLock where
  | get (i : BitVec 32) (uRet : BitVec 64)
  | renew (i : BitVec 32) (uRet : BitVec 64)
  | clear (i : BitVec 32)
  deriving DecidableEq, Repr

namespace AtLock

def index : AtLock → BitVec 32
  | .get i _ => i
  | .renew i _ => i
  | .clear i => i

/-- The token the section stores. -/
def newToken : AtLock → BitVec 64
  | .get _ uRet => uRet
  | .renew _ uRet => uRet
  | .clear _ => 0

/-- What the section does to the map behind `SetUDPToken`, which returned `old`. -/
def updateMap (old : BitVec 64) (s : UDPTokens) : AtLock → UDPTokens
  | .get i uRet => s.emplace uRet i
  | .renew i uRet => (s.eraseOld old).emplace uRet i
  | .clear _ => s.eraseOld old

/-- The locked section. -/
def locked (c : AtLock) (s : UDPTokens) : UDPTokens :=
  let (s', old) := s.setUDPToken c.index c.newToken
  c.updateMap old s'

end AtLock

def getUDPToken (s : UDPTokens) (uClientIndex_ timestamp : BitVec 32) : UDPTokens × BitVec 64 :=
  if ¬ uClientIndex_ < s.connections then (s, 0)
  else if s.token uClientIndex_ ≠ 0 then (s, s.token uClientIndex_)
  else
    let uRet := udpToken uClientIndex_ timestamp
    ((AtLock.get uClientIndex_ uRet).locked s, uRet)

def renewUDPToken (s : UDPTokens) (uClientIndex_ timestamp : BitVec 32) : UDPTokens × BitVec 64 :=
  let uRet := udpToken uClientIndex_ timestamp
  if ¬ uClientIndex_ < s.connections then (s, 0)
  else ((AtLock.renew uClientIndex_ uRet).locked s, uRet)

def clearUDPToken (s : UDPTokens) (uClientIndex_ : BitVec 32) : UDPTokens :=
  if ¬ uClientIndex_ < s.connections then s
  else (AtLock.clear uClientIndex_).locked s

/-- The map is the exact inverse of the token fields. -/
def Inverse (s : UDPTokens) : Prop := InverseOf s.udpTokens s.token 0

def AtLock.Stores : AtLock → Prop
  | .clear _ => False
  | _ => True

theorem AtLock.newToken_eq_zero {c : AtLock} (h : ¬ c.Stores) : c.newToken = 0 := by
  cases c with
  | get i k => exact absurd trivial h
  | renew i k => exact absurd trivial h
  | clear i => rfl

/-- If the section stores a token, nobody else has it. -/
def AtLock.Fresh (c : AtLock) (s : UDPTokens) : Prop :=
  c.Stores → c.newToken ≠ 0 ∧ ∀ j ≠ c.index, s.token j ≠ c.newToken

/-- Only `GetUDPToken` leaves the old token in the map. -/
def AtLock.Leaves (old : BitVec 64) : AtLock → Prop
  | .get _ _ => old ≠ 0
  | _ => False

instance (old : BitVec 64) : DecidablePred (AtLock.Leaves old) := fun c => by
  cases c <;> unfold AtLock.Leaves <;> infer_instance

@[simp] theorem token_updateMap (old : BitVec 64) (s : UDPTokens) (c : AtLock) :
    (c.updateMap old s).token = s.token := by
  cases c <;> rfl

theorem token_locked (c : AtLock) (s : UDPTokens) :
    (c.locked s).token = Function.update s.token c.index c.newToken :=
  token_updateMap ..

/-- A section that stores a fresh token and leaves no old one keeps the map exact. -/
theorem inverse_locked {s : UDPTokens} {c : AtLock} (h : s.Inverse) (hfresh : c.Fresh s)
    (hleave : ¬ c.Leaves (s.token c.index)) : (c.locked s).Inverse := by
  cases c with
  | get i k =>
    obtain ⟨hne, hfree⟩ := hfresh trivial
    have hi : s.token i = 0 := not_not.mp hleave
    apply h.give hi hne
    intro j
    by_cases hj : j = i
    · rw [hj, hi]
      exact hne.symm
    · exact hfree j hj
  | renew i k =>
    obtain ⟨hne, hfree⟩ := hfresh trivial
    exact h.renew i hne hfree
  | clear i => exact h.clear i

/-- A section that leaves an old token in the map breaks it. -/
theorem not_inverse_locked {s : UDPTokens} {c : AtLock} (h : s.Inverse)
    (hold : s.token c.index ≠ c.newToken) (hleave : c.Leaves (s.token c.index)) :
    ¬ (c.locked s).Inverse := by
  cases c with
  | get i k =>
    intro h'
    have hm : s.udpTokens (s.token i) = some i := (h _ _).mpr ⟨rfl, hleave⟩
    have hk := ((h' (s.token i) i).mp (emplace_of_some hm k i)).1
    rw [token_locked] at hk
    exact hold (hk.symm.trans (Function.update_self ..))
  | renew i k => exact hleave.elim
  | clear i => exact hleave.elim

/-- Behind `SetUDPToken`, the section ends as it would have from before it. -/
theorem updateMap_eq_locked {s : UDPTokens} {c : AtLock} (hset : s.token c.index = c.newToken)
    (old : BitVec 64) :
    c.updateMap old s = c.locked (s.setUDPToken c.index old).1 := by
  have htoken :
      Function.update (Function.update s.token c.index old) c.index c.newToken = s.token := by
    rw [Function.update_idem, ← hset, Function.update_eq_self]
  simp only [AtLock.locked, setUDPToken, Function.update_self, htoken]

end UDPTokens

/-! ## Calls run to completion -/

/-- A call and the value `clock()` returns if the call gets that far. -/
inductive TokenCall where
  | getUDPToken (uClientIndex_ timestamp : BitVec 32)
  | renewUDPToken (uClientIndex_ timestamp : BitVec 32)
  | clearUDPToken (uClientIndex_ : BitVec 32)
  deriving DecidableEq, Repr

/-- The tokens, with the list of those handed out and the connections they were given to. -/
structure TokenLog where
  tokens : UDPTokens
  handed : List (BitVec 32 × BitVec 64)

namespace TokenLog

open UDPTokens

/-- For an index without a connection a call returns 0 and hands out nothing. -/
def handOut (s : TokenLog) (i : BitVec 32) (r : UDPTokens × BitVec 64) : TokenLog :=
  { tokens := r.1
    handed := if i < s.tokens.connections then (i, r.2) :: s.handed else s.handed }

def step (s : TokenLog) : TokenCall → Option TokenLog
  | .getUDPToken i t => some (s.handOut i (s.tokens.getUDPToken i t))
  | .renewUDPToken i t => some (s.handOut i (s.tokens.renewUDPToken i t))
  | .clearUDPToken i => some { s with tokens := s.tokens.clearUDPToken i }

def init (n : BitVec 32) : TokenLog := { tokens := .init n, handed := [] }

/-- Tokens identify connections. -/
structure Identify (s : TokenLog) : Prop where
  nonzero : ∀ p ∈ s.handed, p.2 ≠ 0
  upper_eq : ∀ p ∈ s.handed, upper p.2 = p.1
  distinct : ∀ i j, i ≠ j → s.tokens.token i = s.tokens.token j → s.tokens.token i = 0
  inverse : s.tokens.Inverse

/-- The reading makes a token for connection `i`. -/
def Usable (i timestamp : BitVec 32) : Prop := timestamp.msb = false ∧ ¬ (i = 0 ∧ timestamp = 0)

/-- The call uses no reading but a usable one. -/
def Sound (s : TokenLog) : TokenCall → Prop
  | .getUDPToken i t => i < s.tokens.connections → s.tokens.token i = 0 → Usable i t
  | .renewUDPToken i t => i < s.tokens.connections → Usable i t
  | .clearUDPToken _ => True

instance (i t : BitVec 32) : Decidable (Usable i t) := by unfold Usable; infer_instance

instance (s : TokenLog) (c : TokenCall) : Decidable (s.Sound c) := by
  cases c <;> unfold Sound <;> infer_instance

/-- A connection's token carries its index. -/
def Own (s : UDPTokens) : Prop := ∀ i, s.token i ≠ 0 → upper (s.token i) = i

/-- The index of a connection is not the upper half of a negative reading's token. -/
theorem usable_iff {i n : BitVec 32} (hi : i < n) (t : BitVec 32) :
    Usable i t ↔ udpToken i t ≠ 0 ∧ upper (udpToken i t) = i := by
  -- there is no connection with the index 0xFFFFFFFF
  have hne : BitVec.allOnes 32 ≠ i := by
    intro he
    subst he
    have := n.isLt
    rw [BitVec.lt_def, BitVec.toNat_allOnes] at hi
    omega
  rw [Usable, ne_eq, udpToken_eq_zero, upper_udpToken]
  cases t.msb with
  | false => simp
  | true => exact iff_of_false (fun h => Bool.noConfusion h.1) fun h => hne h.2

theorem Identify.handOut {s : TokenLog} (h : Identify s) {i : BitVec 32}
    {r : UDPTokens × BitVec 64} (hinv : r.1.Inverse)
    (hr : i < s.tokens.connections → r.2 ≠ 0 ∧ upper r.2 = i) : Identify (s.handOut i r) := by
  have hmem : ∀ p ∈ (s.handOut i r).handed,
      p ∈ s.handed ∨ p = (i, r.2) ∧ i < s.tokens.connections := by
    intro p hp
    simp only [TokenLog.handOut] at hp
    split at hp
    · next hi =>
      rcases List.mem_cons.mp hp with hp | hp
      · exact .inr ⟨hp, hi⟩
      · exact .inl hp
    · exact .inl hp
  refine ⟨fun p hp => ?_, fun p hp => ?_, fun j k hjk he => ?_, hinv⟩
  · rcases hmem p hp with hp | ⟨rfl, hi⟩
    · exact h.nonzero p hp
    · exact (hr hi).1
  · rcases hmem p hp with hp | ⟨rfl, hi⟩
    · exact h.upper_eq p hp
    · exact (hr hi).2
  · by_contra hz
    exact hjk (hinv.injective he hz)

/-- Where a call hands out a token that is 0 or of another index, the tokens do not identify. -/
theorem not_identify_handOut {s : TokenLog} {i : BitVec 32} {r : UDPTokens × BitVec 64}
    (hi : i < s.tokens.connections) (hr : ¬ (r.2 ≠ 0 ∧ upper r.2 = i)) :
    ¬ Identify (s.handOut i r) := by
  intro h
  have hmem : (i, r.2) ∈ (s.handOut i r).handed := by
    rw [TokenLog.handOut, if_pos hi]
    exact List.mem_cons_self
  exact hr ⟨h.nonzero (i, r.2) hmem, h.upper_eq (i, r.2) hmem⟩

/-- A section that stores a token of its own connection, or none, keeps all tokens so. -/
theorem own_locked {s : UDPTokens} (h : Own s) (l : AtLock)
    (hl : l.newToken ≠ 0 → upper l.newToken = l.index) : Own (l.locked s) := by
  intro i hi
  rw [token_locked] at hi ⊢
  by_cases he : i = l.index
  · subst he
    rw [Function.update_self] at hi ⊢
    exact hl hi
  · rw [Function.update_of_ne he] at hi ⊢
    exact h i hi

/-- Where every token carries its index, one that carries `i` is new to the others. -/
theorem own_ne {s : UDPTokens} (h : Own s) {i : BitVec 32} {k : BitVec 64} (hk : k ≠ 0)
    (hu : upper k = i) : ∀ j ≠ i, s.token j ≠ k := by
  intro j hj he
  subst he
  exact hj ((h j hk).symm.trans hu)

/-- The three ways a call goes: it hands out the token that is there (and nothing, without a
connection), it stores a token made of its reading and hands that out, or it clears. -/
theorem step_cases {s s' : TokenLog} {c : TokenCall} (hs : step s c = some s') :
    (s.Sound c ∧ ∃ i r, s' = s.handOut i (s.tokens, r) ∧
      (i < s.tokens.connections → r ≠ 0 ∧ r = s.tokens.token i)) ∨
    (∃ (l : AtLock) (t : BitVec 32), l.index < s.tokens.connections ∧
      l.newToken = udpToken l.index t ∧ ¬ l.Leaves (s.tokens.token l.index) ∧
      (s.Sound c ↔ Usable l.index t) ∧ s' = s.handOut l.index (l.locked s.tokens, l.newToken)) ∨
    (s.Sound c ∧ ∃ tokens, s' = { s with tokens := tokens } ∧
      (tokens = s.tokens ∨ ∃ i, tokens = (AtLock.clear i).locked s.tokens)) := by
  cases c with
  | getUDPToken i t =>
    obtain rfl := Option.some.inj hs
    unfold getUDPToken
    split
    · next hi => exact .inl ⟨fun hi' => absurd hi' hi, i, 0, rfl, fun hi' => absurd hi' hi⟩
    · next hi =>
      have hi := not_not.mp hi
      split
      · next hz => exact .inl ⟨fun _ hz' => absurd hz' hz, i, _, rfl, fun _ => ⟨hz, rfl⟩⟩
      · next hz =>
        exact .inr (.inl ⟨.get i (udpToken i t), t, hi, rfl, hz,
          ⟨fun h => h hi (not_not.mp hz), fun h _ _ => h⟩, rfl⟩)
  | renewUDPToken i t =>
    obtain rfl := Option.some.inj hs
    unfold renewUDPToken
    split
    · next hi => exact .inl ⟨fun hi' => absurd hi' hi, i, 0, rfl, fun hi' => absurd hi' hi⟩
    · next hi =>
      have hi := not_not.mp hi
      exact .inr (.inl ⟨.renew i (udpToken i t), t, hi, rfl, id,
        ⟨fun h => h hi, fun h _ => h⟩, rfl⟩)
  | clearUDPToken i =>
    obtain rfl := Option.some.inj hs
    refine .inr (.inr ⟨trivial, _, rfl, ?_⟩)
    unfold clearUDPToken
    split
    · exact .inl rfl
    · exact .inr ⟨i, rfl⟩

/-- What every state of a sound run satisfies. -/
structure Proper (s : TokenLog) : Prop where
  identify : Identify s
  own : Own s.tokens

theorem step_proper {s s' : TokenLog} {c : TokenCall} (h : Proper s) (hc : s.Sound c)
    (hs : step s c = some s') : Proper s' := by
  obtain ⟨-, i, r, rfl, hr⟩ | ⟨l, t, hi, hl, hleave, hsound, rfl⟩ | ⟨-, tokens, rfl, hclear⟩ :=
    step_cases hs
  · refine ⟨h.identify.handOut h.identify.inverse fun hi => ?_, h.own⟩
    obtain ⟨hz, rfl⟩ := hr hi
    exact ⟨hz, h.own i hz⟩
  · -- the new token carries an index that no other connection's token carries
    have hu := (usable_iff hi t).mp (hsound.mp hc)
    rw [← hl] at hu
    have hfresh : l.Fresh s.tokens := fun _ => ⟨hu.1, own_ne h.own hu.1 hu.2⟩
    exact ⟨h.identify.handOut (inverse_locked h.identify.inverse hfresh hleave) fun _ => hu,
      own_locked h.own l fun _ => hu.2⟩
  · have hafter : tokens.Inverse ∧ Own tokens := by
      rcases hclear with rfl | ⟨i, rfl⟩
      · exact ⟨h.identify.inverse, h.own⟩
      · exact ⟨inverse_locked h.identify.inverse False.elim id,
          own_locked h.own (.clear i) fun hz => absurd rfl hz⟩
    refine ⟨⟨h.identify.nonzero, h.identify.upper_eq, fun j k hjk he => ?_, hafter.1⟩, hafter.2⟩
    by_contra hz
    exact hjk (hafter.1.injective he hz)

theorem step_unsound {s s' : TokenLog} {c : TokenCall} (hc : ¬ s.Sound c)
    (hs : step s c = some s') : ¬ Identify s' := by
  rcases step_cases hs with ⟨hsound, -⟩ | ⟨l, t, hi, hl, -, hsound, rfl⟩ | ⟨hsound, -⟩
  · exact absurd hsound hc
  · apply not_identify_handOut hi
    intro hu
    apply hc (hsound.mpr _)
    rw [hl] at hu
    exact (usable_iff hi t).mpr hu
  · exact absurd hsound hc

theorem identify_init (n : BitVec 32) : Identify (init n) :=
  ⟨fun _ h => (by cases h), fun _ h => (by cases h), fun _ _ _ _ => rfl, InverseOf.init⟩

/-- Tokens identify connections all along a run if and only if every reading the run makes a
token of is not negative, and not 0 where the token is for connection 0. -/
theorem tokens_identify_iff (n : BitVec 32) (cs : List TokenCall) :
    Always step Identify (init n) cs ↔ Meets step Sound (init n) cs := by
  have htotal : ∀ (s : TokenLog) c, ∃ s', step s c = some s' := fun s c => by
    cases c <;> exact ⟨_, rfl⟩
  obtain ⟨t, ht⟩ := exists_run htotal (init n) cs
  exact always_iff_meets (fun _ h => h.identify) (fun _ _ _ h hc hs => step_proper h hc hs)
    (fun _ _ _ _ hc hs => step_unsound hc hs) ⟨identify_init n, fun _ h => absurd rfl h⟩ ht

/-- The clock fails twice: connections 3 and 5 have the same token. -/
theorem minus_one_shared :
    ¬ ∀ (n : BitVec 32) (cs : List TokenCall), Always step Identify (init n) cs := by
  intro h
  have h' := (h 8 [.getUDPToken 3 (-1), .getUDPToken 5 (-1)]).2 _ rfl |>.2 _ rfl
  exact absurd (h'.distinct 3 5 (by decide) (by decide)) (by decide)

end TokenLog

end RacingGameServer
