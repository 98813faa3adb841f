import Mathlib.Data.List.Basic
import Mathlib.Logic.Function.Basic
import SocketServerLib.Lib.LabelledRun

/-
  `ZoneManager` and `Zone` of the IOCP server: `GetZone(z)->Enter(u, p)` and
  `GetZone(z)->Exit(u)` from any number of threads.

  A `Zone` is a number; those below `next` have been made by `CreateZone`, and `users` has the
  `m_Users` of each. `zones` are the pairs of `m_Zones`. Calls are begun at any time, and each
  takes two steps, one for either lock; an exception ends it. `returned` lists the zones that
  `GetZone` has returned, and `log` the calls that have been through, the latest first, with
  what they returned; both are ghosts.

  What is proved:
    1. `step_fresh` — `m_Zones` stays empty, and every call has a zone of its own.
    2. `zones_iff` — in a run the zones behave as one map that owns them, if and only if no
       zone is ever returned; and an `Exit` returns what it should, if and only if the user is
       not in the zone.
    3. `user_lost` — a user who enters and cannot leave, with two zones that nobody frees.

  What is assumed: what runs under one lock is one step.
-/
namespace IOCPServer
open LabelledRun

inductive ZoneOp where
  | enter (uZoneIndex_ uClientIndex_ pUser_ : Nat)
  | exit (uZoneIndex_ uClientIndex_ : Nat)
  deriving DecidableEq

def ZoneOp.zoneIndex : ZoneOp → Nat
  | .enter z _ _ => z
  | .exit z _ => z

/-- Where a call is: in front of `GetZone`, or with its zone in front of `Enter` or `Exit`. -/
inductive ZoneCall where
  | getZone (op : ZoneOp)
  | onZone (op : ZoneOp) (zone : Nat)
  | done
  deriving DecidableEq

structure ZoneState where
  zones : List (Nat × Nat)
  users : Nat → Nat → Option Nat
  next : Nat
  calls : List ZoneCall
  returned : List Nat
  log : List (ZoneOp × Bool)

/-- `allocated` is whether `new` has memory for a zone, or `emplace` for a node. -/
inductive ZoneAct where
  | call (op : ZoneOp)
  | getZone (c : Nat) (allocated : Bool)
  | perform (c : Nat) (allocated : Bool)

/-- `Enter` on the `m_Users` of a zone: `emplace` leaves an entry that is there. -/
def enter (users : Nat → Option Nat) (uClientIndex_ pUser_ : Nat) (allocated : Bool) :
    (Nat → Option Nat) × Bool :=
  if allocated = false then (users, false)
  else if (users uClientIndex_).isSome then (users, true)
  else (Function.update users uClientIndex_ (some pUser_), true)

/-- `Exit`: what `erase` has erased. -/
def exit (users : Nat → Option Nat) (uClientIndex_ : Nat) : (Nat → Option Nat) × Bool :=
  (Function.update users uClientIndex_ none, (users uClientIndex_).isSome)

namespace ZoneState

def init : ZoneState :=
  { zones := [], users := fun _ _ => none, next := 0, calls := [], returned := [], log := [] }

/-- `GetZone`; `none` is the exception of `new`. -/
def getZone (s : ZoneState) (uZoneIndex_ : Nat) (allocated : Bool) : Option (ZoneState × Nat) :=
  match s.zones.lookup uZoneIndex_ with
  | some zone => some (s, zone)
  | none =>
    if allocated = false then none
    else
      -- `CreateZone`
      some ({ s with
        users := Function.update s.users s.next fun _ => none
        next := s.next + 1 }, s.next)

/-- `Enter` or `Exit` on a zone. -/
def perform (s : ZoneState) (op : ZoneOp) (zone : Nat) (allocated : Bool) : ZoneState × Bool :=
  let r :=
    match op with
    | .enter _ u p => enter (s.users zone) u p allocated
    | .exit _ u => exit (s.users zone) u
  ({ s with users := Function.update s.users zone r.1 }, r.2)

def move (s : ZoneState) (c : Nat) (p : ZoneCall) : ZoneState :=
  { s with calls := s.calls.set c p }

def step (s : ZoneState) : ZoneAct → Option ZoneState
  | .call op => some { s with calls := s.calls ++ [.getZone op] }
  | .getZone c allocated =>
    match s.calls[c]? with
    | some (.getZone op) =>
      match s.getZone op.zoneIndex allocated with
      | none => some (s.move c .done)
      | some r => some ({ r.1 with returned := s.returned ++ [r.2] }.move c (.onZone op r.2))
    | _ => none
  | .perform c allocated =>
    match s.calls[c]? with
    | some (.onZone op zone) =>
      let r := s.perform op zone allocated
      some ({ r.1 with log := (op, r.2) :: s.log }.move c .done)
    | _ => none

/-- What the destructor frees. -/
def freed (s : ZoneState) : List Nat := s.zones.map Prod.snd

/-- A user is in a zone: the latest of his calls there is an `Enter` that has succeeded. -/
def inside : List (ZoneOp × Bool) → (uZoneIndex_ uClientIndex_ : Nat) → Bool
  | [], _, _ => false
  | (.enter z' u' _, bRet) :: log, z, u =>
    if z' = z ∧ u' = u ∧ bRet = true then true else inside log z u
  | (.exit z' u', _) :: log, z, u => if z' = z ∧ u' = u then false else inside log z u

/-- Every `Exit` has returned whether the user was in the zone. -/
def ExitsRight : List (ZoneOp × Bool) → Prop
  | [] => True
  | (.enter _ _ _, _) :: log => ExitsRight log
  | (.exit z u, bRet) :: log => bRet = inside log z u ∧ ExitsRight log

/-- The zones behave as one map, which owns every zone that has been returned. -/
structure OneMap (s : ZoneState) : Prop where
  exits : ExitsRight s.log
  owned : ∀ zone ∈ s.returned, s.freed.count zone = 1

/-- The step does not return a zone: it is none of `GetZone`, or `new` has no memory. -/
def ReturnsNoZone (_ : ZoneState) : ZoneAct → Prop
  | .getZone _ allocated => allocated = false
  | _ => True

instance (s : ZoneState) : DecidablePred s.ReturnsNoZone
  | .getZone _ allocated => inferInstanceAs (Decidable (allocated = false))
  | .call _ | .perform _ _ => .isTrue trivial

variable {s s' : ZoneState} {a : ZoneAct} {c d zone : Nat} {op op' : ZoneOp} {p : ZoneCall}

/-! ## What every step keeps -/

/-- Nothing is in `m_Zones`; every call that has a zone has one of its own, with nobody in it;
and every `Exit` has found nobody. -/
structure Fresh (s : ZoneState) : Prop where
  zones : s.zones = []
  empty : ∀ (c : Nat) (op : ZoneOp) (zone : Nat), s.calls[c]? = some (.onZone op zone) →
    zone < s.next ∧ s.users zone = fun _ => none
  own : ∀ (c d : Nat) (op op' : ZoneOp) (zone : Nat), s.calls[c]? = some (.onZone op zone) →
    s.calls[d]? = some (.onZone op' zone) → c = d
  exits : ∀ z u bRet, (ZoneOp.exit z u, bRet) ∈ s.log → bRet = false

theorem fresh_init : Fresh init where
  zones := rfl
  empty c op zone h := by cases h
  own c d op op' zone h := by cases h
  exits z u bRet h := by cases h

/-- A call that has a zone had it before, unless it is the one that moves. -/
theorem onZone_move (h : (s.move c p).calls[d]? = some (.onZone op zone)) :
    (d = c ∧ p = .onZone op zone) ∨ (d ≠ c ∧ s.calls[d]? = some (.onZone op zone)) := by
  by_cases hd : d = c
  · subst hd
    rw [move, List.getElem?_set, if_pos rfl] at h
    split at h
    · exact .inl ⟨rfl, Option.some.inj h⟩
    · cases h
  · simp only [move] at h
    rw [List.getElem?_set_ne (Ne.symm hd)] at h
    exact .inr ⟨hd, h⟩

/-- A call that is through has no zone. -/
theorem onZone_done (h : (s.move c .done).calls[d]? = some (.onZone op zone)) :
    d ≠ c ∧ s.calls[d]? = some (.onZone op zone) := by
  rcases onZone_move h with ⟨-, he⟩ | hd
  · cases he
  · exact hd

/-- Nor has one that begins. -/
theorem onZone_append (h : (s.calls ++ [.getZone op'])[d]? = some (.onZone op zone)) :
    s.calls[d]? = some (.onZone op zone) := by
  rw [List.getElem?_append] at h
  split at h
  · exact h
  · cases List.mem_singleton.mp (List.mem_of_getElem? h)

/-- Nothing changes but the calls, and none of them gets a zone. -/
theorem Fresh.calls (hs : s.Fresh) {calls : List ZoneCall}
    (hold : ∀ {d : Nat} {op : ZoneOp} {zone : Nat}, calls[d]? = some (.onZone op zone) →
      s.calls[d]? = some (.onZone op zone)) :
    Fresh { s with calls := calls } where
  zones := hs.zones
  empty d op zone hd := hs.empty d op zone (hold hd)
  own d e op op' zone hd he := hs.own d e op op' zone (hold hd) (hold he)
  exits := hs.exits

theorem getZone_false (h : s.zones = []) (z : Nat) : s.getZone z false = none := by
  rw [getZone, h]
  rfl

/-- `GetZone` finds nothing, and returns a new zone. -/
theorem getZone_true (h : s.zones = []) (z : Nat) : s.getZone z true =
    some ({ s with
      users := Function.update s.users s.next fun _ => none
      next := s.next + 1 }, s.next) := by
  rw [getZone, h]
  rfl

/-- What a step can do where nothing is in `m_Zones`. -/
theorem step_cases (hs : s.Fresh) (h : step s a = some s') :
    (∃ op, a = .call op ∧ s' = { s with calls := s.calls ++ [.getZone op] }) ∨
    (∃ c, a = .getZone c false ∧ s' = s.move c .done) ∨
    (∃ c op, a = .getZone c true ∧
      s' = { s with
        users := Function.update s.users s.next fun _ => none
        next := s.next + 1
        returned := s.returned ++ [s.next] }.move c (.onZone op s.next)) ∨
    ∃ c op zone allocated, a = .perform c allocated ∧ s.calls[c]? = some (.onZone op zone) ∧
      s' = { (s.perform op zone allocated).1 with
        log := (op, (s.perform op zone allocated).2) :: s.log }.move c .done := by
  cases a with
  | call op => exact .inl ⟨op, rfl, (Option.some.inj h).symm⟩
  | getZone c allocated =>
    simp only [step] at h
    split at h
    · next op hc =>
      cases allocated with
      | false =>
        rw [getZone_false hs.zones] at h
        exact .inr (.inl ⟨c, rfl, (Option.some.inj h).symm⟩)
      | true =>
        rw [getZone_true hs.zones] at h
        exact .inr (.inr (.inl ⟨c, op, rfl, (Option.some.inj h).symm⟩))
    · cases h
  | perform c allocated =>
    simp only [step] at h
    split at h
    · next op zone hc =>
      exact .inr (.inr (.inr ⟨c, op, zone, allocated, rfl, hc, (Option.some.inj h).symm⟩))
    · cases h

/-- In a zone with nobody in it an `Exit` finds nobody. -/
theorem perform_exit {z u : Nat} (hempty : s.users zone = fun _ => none) (allocated : Bool) :
    (s.perform (.exit z u) zone allocated).2 = false := by
  simp only [perform, exit, hempty, Option.isSome_none]

theorem step_fresh (hs : s.Fresh) (h : step s a = some s') : s'.Fresh := by
  rcases step_cases hs h with ⟨op, -, rfl⟩ | ⟨c, -, rfl⟩ | ⟨c, op, -, rfl⟩ |
    ⟨c, op, zone, allocated, -, hc, rfl⟩
  · exact hs.calls onZone_append
  · exact hs.calls fun hd => (onZone_done hd).2
  · -- the zone is not one of those that were made before
    have hlt : ∀ {d : Nat} {op : ZoneOp} {zone : Nat},
        s.calls[d]? = some (.onZone op zone) → zone ≠ s.next := by
      intro d op zone hd
      exact Nat.ne_of_lt (hs.empty d op zone hd).1
    refine ⟨hs.zones, fun d op' zone hd => ?_, fun d e op' op'' zone hd he => ?_, hs.exits⟩
    · simp only [move]
      rcases onZone_move hd with ⟨-, he⟩ | ⟨-, hd⟩
      · cases he
        exact ⟨Nat.lt_succ_self _, Function.update_self ..⟩
      · obtain ⟨hlow, hempty⟩ := hs.empty d op' zone hd
        exact ⟨Nat.lt_succ_of_lt hlow, (Function.update_of_ne (hlt hd) ..).trans hempty⟩
    · rcases onZone_move hd with ⟨rfl, hp⟩ | ⟨-, hd⟩
      · rcases onZone_move he with ⟨rfl, -⟩ | ⟨-, he⟩
        · rfl
        · cases hp
          exact absurd rfl (hlt he)
      · rcases onZone_move he with ⟨-, hp⟩ | ⟨-, he⟩
        · cases hp
          exact absurd rfl (hlt hd)
        · exact hs.own d e op' op'' zone hd he
  · -- the call that has gone on its zone has it no longer
    refine ⟨hs.zones, fun d op' zone' hd => ?_, fun d e op' op'' zone' hd he => ?_,
      fun z u bRet hin => ?_⟩
    · obtain ⟨hne, hd⟩ := onZone_done hd
      obtain ⟨hlow, hempty⟩ := hs.empty d op' zone' hd
      -- no other call has the zone that is written
      have hother : zone' ≠ zone := fun he => hne (hs.own d c op' op zone' hd (he ▸ hc))
      exact ⟨hlow, (Function.update_of_ne hother ..).trans hempty⟩
    · exact hs.own d e op' op'' zone' (onZone_done hd).2 (onZone_done he).2
    · rcases List.mem_cons.mp hin with he | hin
      · obtain ⟨rfl, rfl⟩ := Prod.mk.inj he
        exact perform_exit (hs.empty c _ zone hc).2 allocated
      · exact hs.exits z u bRet hin

/-! ## Runs -/

/-- No zone has been returned, and no call has been through. -/
structure Untouched (s : ZoneState) : Prop where
  fresh : s.Fresh
  returned : s.returned = []
  log : s.log = []
  calls : ∀ (c : Nat) (op : ZoneOp) (zone : Nat), s.calls[c]? ≠ some (.onZone op zone)

theorem untouched_init : Untouched init where
  fresh := fresh_init
  returned := rfl
  log := rfl
  calls c op zone h := by cases h

theorem Untouched.oneMap (hs : s.Untouched) : s.OneMap where
  exits := by
    rw [hs.log]
    exact trivial
  owned zone hzone := by
    rw [hs.returned] at hzone
    cases hzone

theorem step_untouched (hs : s.Untouched) (hc : ReturnsNoZone s a) (h : step s a = some s') :
    s'.Untouched := by
  have hfresh := step_fresh hs.fresh h
  rcases step_cases hs.fresh h with ⟨op, -, rfl⟩ | ⟨c, -, rfl⟩ | ⟨c, op, rfl, -⟩ |
    ⟨c, op, zone, allocated, -, hcall, -⟩
  · refine ⟨hfresh, hs.returned, hs.log, fun d op' zone hd => ?_⟩
    exact hs.calls d op' zone (onZone_append hd)
  · refine ⟨hfresh, hs.returned, hs.log, fun d op zone hd => ?_⟩
    exact hs.calls d op zone (onZone_done hd).2
  · cases hc
  · exact absurd hcall (hs.calls c op zone)

/-- A zone that is returned is not owned. -/
theorem step_returns (hs : s.Untouched) (hc : ¬ ReturnsNoZone s a) (h : step s a = some s') :
    ¬ s'.OneMap := by
  intro hone
  have hfresh := step_fresh hs.fresh h
  rcases step_cases hs.fresh h with ⟨op, rfl, -⟩ | ⟨c, rfl, -⟩ | ⟨c, op, -, rfl⟩ |
    ⟨c, op, zone, allocated, rfl, -⟩
  · exact hc trivial
  · exact hc rfl
  · have hcount := hone.owned s.next (List.mem_append_right _ (List.mem_singleton_self s.next))
    rw [freed, hfresh.zones] at hcount
    cases hcount
  · exact hc trivial

/-- All along a run the zones behave as one map that owns them, if and only if the run gets no
zone; and in every run an `Exit` has returned what it should, if and only if the user was
not in the zone. -/
theorem zones_iff {acts : List ZoneAct} (hr : run step init acts = some s) :
    (Always step OneMap init acts ↔ Meets step ReturnsNoZone init acts) ∧
    ∀ later earlier z u bRet, s.log = later ++ (.exit z u, bRet) :: earlier →
      (bRet = inside earlier z u ↔ inside earlier z u = false) := by
  constructor
  · exact always_iff_meets (fun _ hs => hs.oneMap) (fun _ _ _ => step_untouched)
      (fun _ _ _ => step_returns) untouched_init hr
  · intro later earlier z u bRet hlog
    have hs : Fresh s := run_stable (fun _ _ _ => step_fresh) fresh_init hr
    have hfalse : bRet = false := by
      apply hs.exits z u bRet
      rw [hlog]
      exact List.mem_append_right later List.mem_cons_self
    rw [hfalse]
    exact eq_comm

/-- User 7 enters zone 3 and exits from it. -/
def enterAndExit : List ZoneAct :=
  [.call (.enter 3 7 40), .getZone 0 true, .perform 0 true, .call (.exit 3 7), .getZone 1 true,
    .perform 1 true]

theorem enterAndExit_zones :
    ¬ Meets step ReturnsNoZone init enterAndExit ∧ ¬ Always step OneMap init enterAndExit := by
  have hsome : (run step init enterAndExit).isSome = true := by decide
  obtain ⟨s, hr⟩ := Option.isSome_iff_exists.mp hsome
  have hmeets : ¬ Meets step ReturnsNoZone init enterAndExit := by decide
  exact ⟨hmeets, fun h => hmeets ((zones_iff hr).1.mp h)⟩

/-- The `Exit` returns false, and two zones have been returned, of which the destructor frees
none. -/
theorem user_lost :
    (run step init enterAndExit).map (fun s => (s.log, s.returned, s.freed)) =
      some ([(.exit 3 7, false), (.enter 3 7 40, true)], [0, 1], []) := by
  decide

end ZoneState

end IOCPServer
