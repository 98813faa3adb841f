import SocketServerLib.Lib.LabelledRun
import SocketServerLib.Lib.TryLock

/-
  `SpinLock`, used through `SpinLockGuard`.

  `G` are the guards of all threads on one lock. A step of a thread is one of a guard that it
  has made, and any guard may take the next. The steps are the two kinds of compare-exchange,
  the store, and what a thread does on its own guard in between. `log` is a ghost: the exchanges
  that have succeeded and the stores, the latest first.

  What is proved:
    1. `Inv.keep`, `Inv.take`, `Inv.release` — what a step can do to the lock and its guards.
    2. `spinLock_excludes` — in every run one guard at most is between its exchange and its
       store, the flag says whether one is, every store is by that guard, and `owns_lock` says
       which it is.

  What is assumed: the exchanges and stores are seen in one order, and a guard is used by the
  thread that has made it only.
-/
namespace RacingGameServer
open LabelledRun TryLock

/-- `flag.compare_exchange(expected, false)`: the flag and `expected` after it, and the result.
`spurious` says that it fails where it need not. -/
def compareExchange (flag expected spurious : Bool) : Bool × Bool × Bool :=
  if flag = expected ∧ spurious = false then (false, expected, true) else (flag, flag, false)

/-- Where the thread of a guard is. `lock` and `tryLock` are in front of the exchange, `retry`
and `tryLocked` behind it; `unlock` and `destroy` are in front of the store, `unlocked` is
behind that of `unlock`. -/
inductive GuardPoint where
  | lock (expected : Bool)
  | retry (expected : Bool)
  | tryLock (expected : Bool)
  | tryLocked (ret : Bool)
  | constructed
  | unlock
  | unlocked
  | destroy
  deriving DecidableEq

structure SpinLockGuard where
  locked : Bool
  point : GuardPoint
  deriving DecidableEq

def SpinLockGuard.ownsLock (x : SpinLockGuard) : Bool := x.locked

inductive LockEvent (G : Type*) where
  | exchanged (g : G)
  | stored (g : G)

structure SpinLock (G : Type*) where
  flag : Bool
  guards : G → Option SpinLockGuard
  log : List (LockEvent G)

/-- `go` is what a thread does next on its own guard. -/
inductive LockAct (G : Type*) where
  | construct (g : G)
  | constructTry (g : G)
  | exchange (g : G) (spurious : Bool)
  | go (g : G)
  | unlock (g : G)
  | destroy (g : G)
  | store (g : G)

namespace SpinLock

variable {G : Type*} [DecidableEq G]

def init : SpinLock G := { flag := true, guards := fun _ => none, log := [] }

def setGuard (s : SpinLock G) (g : G) (o : Option SpinLockGuard) : SpinLock G :=
  { s with guards := Function.update s.guards g o }

/-- `lock` retries with the weak exchange; the one of `try_lock` is strong. -/
def exchange (s : SpinLock G) (g : G) (x : SpinLockGuard) (spurious : Bool) :
    Option (SpinLock G) :=
  match x.point with
  | .lock expected =>
    match compareExchange s.flag expected spurious with
    | (flag, _, true) =>
      some ({ s with flag := flag, log := .exchanged g :: s.log }.setGuard g
        (some { x with point := .constructed }))
    | (flag, expected, false) =>
      some ({ s with flag := flag }.setGuard g (some { x with point := .retry expected }))
  | .tryLock expected =>
    match compareExchange s.flag expected false with
    | (flag, _, true) =>
      some ({ s with flag := flag, log := .exchanged g :: s.log }.setGuard g
        (some { x with point := .tryLocked true }))
    | (flag, _, false) =>
      some ({ s with flag := flag }.setGuard g (some { x with point := .tryLocked false }))
  | _ => none

def go (x : SpinLockGuard) : Option SpinLockGuard :=
  match x.point with
  | .retry _ => some { x with point := .lock true }
  | .tryLocked ret =>
    some { locked := if ret = true then true else x.locked, point := .constructed }
  | .unlocked => some { locked := false, point := .constructed }
  | _ => none

/-- `flag.store(true)`. -/
def store (s : SpinLock G) (g : G) (x : SpinLockGuard) : Option (SpinLock G) :=
  match x.point with
  | .unlock =>
    some ({ s with flag := true, log := .stored g :: s.log }.setGuard g
      (some { x with point := .unlocked }))
  | .destroy => some ({ s with flag := true, log := .stored g :: s.log }.setGuard g none)
  | _ => none

def step (s : SpinLock G) : LockAct G → Option (SpinLock G)
  | .construct g =>
    if s.guards g = none then
      some (s.setGuard g (some { locked := true, point := .lock true }))
    else none
  | .constructTry g =>
    if s.guards g = none then
      some (s.setGuard g (some { locked := false, point := .tryLock true }))
    else none
  | .exchange g spurious => (s.guards g).bind fun x => s.exchange g x spurious
  | .go g => (s.guards g).bind fun x => (go x).map fun x' => s.setGuard g (some x')
  | .unlock g =>
    (s.guards g).bind fun x =>
      if x.point = .constructed then
        some (if x.locked = true then s.setGuard g (some { x with point := .unlock }) else s)
      else none
  | .destroy g =>
    (s.guards g).bind fun x =>
      if x.point = .constructed then
        some (s.setGuard g
          (if x.locked = true then some { x with point := .destroy } else none))
      else none
  | .store g => (s.guards g).bind fun x => s.store g x

/-- The guard is between its exchange and its store. -/
def inside : List (LockEvent G) → G → Bool
  | [], _ => false
  | .exchanged h :: log, g => if h = g then true else inside log g
  | .stored h :: log, g => if h = g then false else inside log g

/-- Every store has been made by a guard that was. -/
def StoresHeld : List (LockEvent G) → Prop
  | [] => True
  | .exchanged _ :: log => StoresHeld log
  | .stored g :: log => inside log g = true ∧ StoresHeld log

/-! ## What a guard knows -/

/-- The points between the exchange and the store. -/
def Critical (x : SpinLockGuard) : Prop :=
  match x.point with
  | .constructed => x.locked = true
  | .tryLocked ret => ret = true
  | .unlock => True
  | .destroy => True
  | _ => False

/-- Every exchange is for a flag that is true, and `locked` has been set by its constructor. -/
def Ready (x : SpinLockGuard) : Prop :=
  match x.point with
  | .lock expected => expected = true ∧ x.locked = true
  | .retry _ => x.locked = true
  | .tryLock expected => expected = true ∧ x.locked = false
  | .tryLocked _ => x.locked = false
  | _ => True

/-- The guard is at such a point. -/
def Holds (guards : G → Option SpinLockGuard) (g : G) : Prop :=
  ∃ x, guards g = some x ∧ Critical x

structure Inv (s : SpinLock G) : Prop where
  guarded : Guarded id Critical (fun _ => True) (fun _ _ => True) s.flag s.guards
  ready : ∀ g x, s.guards g = some x → Ready x
  inside_iff : ∀ g, inside s.log g = true ↔ Holds s.guards g
  held : StoresHeld s.log

variable {s s' : SpinLock G} {g h : G} {x x' : SpinLockGuard} {o : Option SpinLockGuard}
  {guards : G → Option SpinLockGuard} {log : List (LockEvent G)} {a : LockAct G}

theorem inv_init : Inv (init : SpinLock G) where
  guarded := .init rfl trivial fun _ => rfl
  ready g x h := by cases h
  inside_iff g := by
    refine iff_of_false Bool.false_ne_true fun h => ?_
    obtain ⟨x, hx, -⟩ := h
    cases hx
  held := trivial

theorem holds_update_self :
    Holds (Function.update guards g o) g ↔ ∃ x, o = some x ∧ Critical x := by
  rw [Holds, Function.update_self]

theorem holds_update_of_ne (hne : h ≠ g) :
    Holds (Function.update guards g o) h ↔ Holds guards h := by
  rw [Holds, Function.update_of_ne hne, Holds]

theorem exists_some_iff : (∃ y, some x = some y ∧ Critical y) ↔ Critical x := by
  constructor
  · intro h
    obtain ⟨y, hy, hc⟩ := h
    exact Option.some.inj hy ▸ hc
  · exact fun hc => ⟨x, rfl, hc⟩

omit [DecidableEq G] in
theorem holds_iff (hx : guards g = some x) : Holds guards g ↔ Critical x := by
  rw [Holds, hx]
  exact exists_some_iff

omit [DecidableEq G] in
theorem not_holds (hg : guards g = none) : ¬ Holds guards g := by
  intro h
  obtain ⟨x, hx, -⟩ := h
  cases hg.symm.trans hx

theorem ready_update (hg : ∀ g x, guards g = some x → Ready x) (ho : ∀ x, o = some x → Ready x) :
    ∀ h x, Function.update guards g o h = some x → Ready x := by
  intro h x hx
  rcases Guarded.update_eq_some hx with ⟨-, hx⟩ | ⟨-, hx⟩
  · exact ho x hx
  · exact hg h x hx

/-! ## What a step can do -/

/-- A guard moves and is inside if and only if it was. -/
theorem Inv.keep (hs : s.Inv)
    (hsame : (∃ x, o = some x ∧ Critical x) ↔ Holds s.guards g)
    (ho : ∀ x, o = some x → Ready x) : (s.setGuard g o).Inv where
  guarded := by
    by_cases hin : Holds s.guards g
    · obtain ⟨x', rfl, hc'⟩ := hsame.mpr hin
      obtain ⟨x, hx, hc⟩ := hin
      exact hs.guarded.inside hx hc (hs.guarded.held g x hx hc).1 trivial hc'
    · apply hs.guarded.idle
      · intro x hx hc
        exact hin ⟨x, hx, hc⟩
      · intro x hx hc
        exact hin (hsame.mp ⟨x, hx, hc⟩)
  ready := ready_update hs.ready ho
  inside_iff h := by
    refine (hs.inside_iff h).trans ?_
    by_cases hh : h = g
    · subst hh
      exact hsame.symm.trans holds_update_self.symm
    · exact (holds_update_of_ne hh).symm
  held := hs.held

/-- An exchange finds the flag true and takes it. -/
theorem Inv.take (hs : s.Inv) (hflag : s.flag = true) (hc : Critical x') (hready : Ready x') :
    ({ s with flag := false, log := .exchanged g :: s.log }.setGuard g (some x')).Inv where
  guarded := hs.guarded.acquire hflag rfl trivial hc
  ready := ready_update hs.ready fun x hx => Option.some.inj hx ▸ hready
  inside_iff h := by
    simp only [setGuard, inside]
    by_cases hh : g = h
    · subst hh
      rw [if_pos rfl, holds_update_self]
      exact iff_of_true rfl (exists_some_iff.mpr hc)
    · rw [if_neg hh, holds_update_of_ne (Ne.symm hh)]
      exact hs.inside_iff h
  held := hs.held

/-- The guard that is inside stores. -/
theorem Inv.release (hs : s.Inv) (hx : s.guards g = some x) (hc : Critical x)
    (ho : ∀ x', o = some x' → ¬ Critical x' ∧ Ready x') :
    ({ s with flag := true, log := .stored g :: s.log }.setGuard g o).Inv where
  guarded := by
    have hno : ¬ Critical { locked := false, point := .constructed } := Bool.false_ne_true
    -- first the store, and then the guard is where it goes on, or no more
    have hstored : Guarded id Critical (fun _ => True) (fun _ _ => True) true
        (Function.update s.guards g (some { locked := false, point := .constructed })) :=
      hs.guarded.release hx hc rfl trivial hno
    have hgone := @Guarded.idle _ _ _ _ _ _ _ _ _ g _ hstored (fun y hy => by
      rw [Function.update_self] at hy
      exact Option.some.inj hy ▸ hno) o fun x' hx' => (ho x' hx').1
    rwa [Function.update_idem] at hgone
  ready := ready_update hs.ready fun x' hx' => (ho x' hx').2
  inside_iff h := by
    simp only [setGuard, inside]
    by_cases hh : g = h
    · subst hh
      rw [if_pos rfl, holds_update_self]
      refine iff_of_false Bool.false_ne_true fun hin => ?_
      obtain ⟨x', hx', hc'⟩ := hin
      exact (ho x' hx').1 hc'
    · rw [if_neg hh, holds_update_of_ne (Ne.symm hh)]
      exact hs.inside_iff h
  held := ⟨(hs.inside_iff g).mpr ⟨x, hx, hc⟩, hs.held⟩

/-- A new guard is not inside yet. -/
theorem Inv.construct (hs : s.Inv) (hg : s.guards g = none) (hc : ¬ Critical x) (hready : Ready x) :
    (s.setGuard g (some x)).Inv := by
  apply hs.keep
  · exact iff_of_false (fun h => hc (exists_some_iff.mp h)) (not_holds hg)
  · exact fun y hy => Option.some.inj hy ▸ hready

theorem Inv.move (hs : s.Inv) (hx : s.guards g = some x) (hsame : Critical x' ↔ Critical x)
    (hready : Ready x') : (s.setGuard g (some x')).Inv := by
  apply hs.keep
  · exact exists_some_iff.trans (hsame.trans (holds_iff hx).symm)
  · exact fun y hy => Option.some.inj hy ▸ hready

/-- An exchange with `expected` true takes a flag that is true, or leaves the flag. -/
theorem compareExchange_cases (flag spurious : Bool) :
    (flag = true ∧ compareExchange flag true spurious = (false, true, true)) ∨
      compareExchange flag true spurious = (flag, flag, false) := by
  unfold compareExchange
  by_cases hfound : flag = true ∧ spurious = false
  · rw [if_pos hfound]
    exact .inl ⟨hfound.1, rfl⟩
  · rw [if_neg hfound]
    exact .inr rfl

theorem exchange_inv (hs : s.Inv) (hx : s.guards g = some x) {spurious : Bool}
    (h : s.exchange g x spurious = some s') : s'.Inv := by
  have hready := hs.ready g x hx
  obtain ⟨locked, point⟩ := x
  cases point with
  | lock expected =>
    obtain ⟨rfl, rfl⟩ : expected = true ∧ locked = true := hready
    rcases compareExchange_cases s.flag spurious with ⟨hflag, hcas⟩ | hcas <;>
      simp only [exchange, hcas] at h <;> obtain rfl := Option.some.inj h
    · exact hs.take hflag rfl trivial
    · exact hs.move hx Iff.rfl rfl
  | tryLock expected =>
    obtain ⟨rfl, rfl⟩ : expected = true ∧ locked = false := hready
    rcases compareExchange_cases s.flag false with ⟨hflag, hcas⟩ | hcas <;>
      simp only [exchange, hcas] at h <;> obtain rfl := Option.some.inj h
    · exact hs.take hflag rfl rfl
    · exact hs.move hx (iff_of_false Bool.false_ne_true id) rfl
  | _ => cases h

theorem go_inv (hs : s.Inv) (hx : s.guards g = some x) (h : go x = some x') :
    (s.setGuard g (some x')).Inv := by
  have hready := hs.ready g x hx
  obtain ⟨locked, point⟩ := x
  cases point with
  | retry expected =>
    obtain rfl := Option.some.inj h
    exact hs.move hx Iff.rfl ⟨rfl, hready⟩
  | tryLocked ret =>
    obtain rfl : locked = false := hready
    obtain rfl := Option.some.inj h
    refine hs.move hx ?_ trivial
    cases ret with
    | true => exact Iff.rfl
    | false => exact Iff.rfl
  | unlocked =>
    obtain rfl := Option.some.inj h
    exact hs.move hx (iff_of_false Bool.false_ne_true id) trivial
  | _ => cases h

theorem store_inv (hs : s.Inv) (hx : s.guards g = some x) (h : s.store g x = some s') :
    s'.Inv := by
  obtain ⟨locked, point⟩ := x
  cases point with
  | unlock =>
    obtain rfl := Option.some.inj h
    apply hs.release hx trivial
    intro x' hx'
    obtain rfl := Option.some.inj hx'
    exact ⟨id, trivial⟩
  | destroy =>
    obtain rfl := Option.some.inj h
    apply hs.release hx trivial
    intro x' hx'
    cases hx'
  | _ => cases h

theorem step_inv (hs : s.Inv) (h : step s a = some s') : s'.Inv := by
  cases a with
  | construct g =>
    simp only [step] at h
    split at h
    · next hg =>
      obtain rfl := Option.some.inj h
      exact hs.construct hg id ⟨rfl, rfl⟩
    · cases h
  | constructTry g =>
    simp only [step] at h
    split at h
    · next hg =>
      obtain rfl := Option.some.inj h
      exact hs.construct hg id ⟨rfl, rfl⟩
    · cases h
  | exchange g spurious =>
    obtain ⟨x, hx, h⟩ := Option.bind_eq_some_iff.mp h
    exact exchange_inv hs hx h
  | go g =>
    obtain ⟨x, hx, h⟩ := Option.bind_eq_some_iff.mp h
    obtain ⟨x', hgo, rfl⟩ := Option.map_eq_some_iff.mp h
    exact go_inv hs hx hgo
  | unlock g =>
    obtain ⟨⟨locked, point⟩, hx, h⟩ := Option.bind_eq_some_iff.mp h
    split at h
    · next hpoint =>
      obtain rfl : point = .constructed := hpoint
      obtain rfl := Option.some.inj h
      cases locked with
      | true => exact hs.move hx (iff_of_true trivial rfl) trivial
      | false => exact hs
    · cases h
  | destroy g =>
    obtain ⟨⟨locked, point⟩, hx, h⟩ := Option.bind_eq_some_iff.mp h
    split at h
    · next hpoint =>
      obtain rfl : point = .constructed := hpoint
      obtain rfl := Option.some.inj h
      cases locked with
      | true => exact hs.move hx (iff_of_true trivial rfl) trivial
      | false =>
        -- a guard that does not own the lock goes without a store
        apply hs.keep
        · refine iff_of_false (fun hin => ?_) fun hin => ?_
          · obtain ⟨x, hx, -⟩ := hin
            cases hx
          · exact Bool.false_ne_true ((holds_iff hx).mp hin)
        · intro x hx
          cases hx
    · cases h
  | store g =>
    obtain ⟨x, hx, h⟩ := Option.bind_eq_some_iff.mp h
    exact store_inv hs hx h

/-! ## Runs -/

/-- In every run, with any guards of any number of threads: one at most is between its exchange
and its store, the flag is false if and only if one is, every store was by a guard that was, and
`owns_lock` of a guard tells whether it is. -/
theorem spinLock_excludes {acts : List (LockAct G)} (hr : run step init acts = some s) :
    (∀ g h, inside s.log g = true → inside s.log h = true → g = h) ∧
    (s.flag = false ↔ ∃ g, inside s.log g = true) ∧
    StoresHeld s.log ∧
    ∀ g x, s.guards g = some x → x.point = .constructed →
      (x.ownsLock = true ↔ inside s.log g = true) := by
  have hs : s.Inv := run_stable (fun _ _ _ => step_inv) inv_init hr
  refine ⟨fun g h hg hh => ?_, ⟨fun hflag => ?_, fun hin => ?_⟩, hs.held, fun g x hx hpoint => ?_⟩
  · obtain ⟨x, hx, hc⟩ := (hs.inside_iff g).mp hg
    obtain ⟨y, hy, hd⟩ := (hs.inside_iff h).mp hh
    exact hs.guarded.unique g h x y hx hy hc hd
  · obtain ⟨g, x, hx, hc⟩ := hs.guarded.someone hflag
    exact ⟨g, (hs.inside_iff g).mpr ⟨x, hx, hc⟩⟩
  · obtain ⟨g, hg⟩ := hin
    obtain ⟨x, hx, hc⟩ := (hs.inside_iff g).mp hg
    exact (hs.guarded.held g x hx hc).1
  · rw [hs.inside_iff, holds_iff hx, Critical, hpoint]
    exact Iff.rfl

/-- One guard locks while another, which retries once, waits; a third one only tries. -/
def threeGuards : List (LockAct Nat) :=
  [.construct 0, .construct 1, .exchange 0 false, .exchange 1 false, .constructTry 2,
    .exchange 2 false, .go 2, .destroy 2, .unlock 0, .store 0, .go 0, .destroy 0, .go 1,
    .exchange 1 true, .go 1, .exchange 1 false]

theorem spinLock_excludes_three : ∃ s : SpinLock Nat, run step init threeGuards = some s ∧
    s.flag = false ∧ inside s.log 1 = true ∧ StoresHeld s.log ∧
    ∀ g, inside s.log g = true → g = 1 := by
  have hrun : (run step init threeGuards).map (fun s : SpinLock Nat => (s.flag, inside s.log 1)) =
      some (false, true) := by decide
  obtain ⟨s, hs, hend⟩ := Option.map_eq_some_iff.mp hrun
  obtain ⟨hflag, hone⟩ := Prod.mk.inj hend
  obtain ⟨hunique, -, hheld, -⟩ := spinLock_excludes hs
  exact ⟨s, hs, hflag, hone, hheld, fun g hg => hunique g 1 hg hone⟩

end SpinLock

end RacingGameServer
