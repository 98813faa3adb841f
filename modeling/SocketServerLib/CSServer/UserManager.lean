import Mathlib.Logic.Function.Basic
import SocketServerLib.Lib.Counting
import SocketServerLib.Lib.Holding
import SocketServerLib.Lib.LabelledRun

/-
  `UserManager` of the C# server: the `User` objects between `m_UserPool` and `m_Users`.

  An object is a number, and the constructor has made those below `n`. Calls of `AddUser` and
  `ReleaseUser` are begun at any time, by any thread; `calls` lists them, and a step is one
  locked section of one of them, with what it does up to the next. `inserts` is a ghost: the
  calls whose step has made an entry of `m_Users`, with its key.

  What is proved:
    1. `places_pool`, `places_entry` — a call exchanges an object with the pool or an entry.
    2. `locked_inv` — every locked section keeps each object in one place, and its call reports
       the entry that it makes.
    3. `users_conserved` — so it is in every state of every run.

  What is assumed: what runs under one lock is one step, and the constructor has run.
-/
namespace CSServer
open Holding LabelledRun

def maxUserCount : Nat := 1024

/-- Where a call is: in front of a locked section, with what it has in hand, or at its end. -/
inductive UserCall where
  | addUser (nUserIndex_ : Int)
  | tryAdd (nUserIndex_ : Int) (user : Nat)
  | giveBack (nUserIndex_ : Int) (user : Nat)
  | added (nUserIndex_ : Int) (bRet : Bool)
  | releaseUser (nUserIndex_ : Int)
  | enqueue (user : Nat)
  | released
  deriving DecidableEq

/-- The object in the hand of a call. -/
def UserCall.user : UserCall → Option Nat
  | .tryAdd _ user => some user
  | .giveBack _ user => some user
  | .enqueue user => some user
  | _ => none

/-- The call has not returned true. -/
def UserCall.Silent : UserCall → Prop
  | .added _ true => False
  | _ => True

theorem UserCall.Silent.ne_added {p : UserCall} (h : p.Silent) (i : Int) :
    p ≠ .added i true := by
  intro he
  subst he
  exact h

structure UserManager where
  userPool : List Nat
  users : Int → Option Nat
  calls : List UserCall
  inserts : List (Nat × Int)

/-- `locked` is the next locked section of a call. -/
inductive UserAct where
  | addUser (nUserIndex_ : Int)
  | releaseUser (nUserIndex_ : Int)
  | locked (c : Nat)

/-- `TryAdd` of a dictionary. -/
def tryAdd (users : Int → Option Nat) (key : Int) (value : Nat) : (Int → Option Nat) × Bool :=
  if (users key).isSome then (users, false) else (Function.update users key (some value), true)

namespace UserManager

/-- The constructor has made `n` objects. -/
def init (n : Nat) : UserManager :=
  { userPool := List.range n, users := fun _ => none, calls := [], inserts := [] }

def move (s : UserManager) (c : Nat) (p : UserCall) : UserManager :=
  { s with calls := s.calls.set c p }

/-- What call `c` does in its next locked section. -/
def locked (s : UserManager) (c : Nat) : UserCall → Option UserManager
  | .addUser i =>
    match s.userPool with
    | [] => some (s.move c (.added i false))
    | user :: rest => some ({ s with userPool := rest }.move c (.tryAdd i user))
  | .tryAdd i user =>
    let r := tryAdd s.users i user
    -- what the section has done to the entry of the key
    let inserts := if r.1 i = s.users i then s.inserts else s.inserts ++ [(c, i)]
    some ({ s with users := r.1, inserts := inserts }.move c
      (if r.2 = false then .giveBack i user else .added i r.2))
  | .giveBack i user => some ({ s with userPool := s.userPool ++ [user] }.move c (.added i false))
  | .releaseUser i =>
    match s.users i with
    | none => some (s.move c .released)
    | some user =>
      some ({ s with users := Function.update s.users i none }.move c (.enqueue user))
  | .enqueue user => some ({ s with userPool := s.userPool ++ [user] }.move c .released)
  | .added _ _ => none
  | .released => none

def step (s : UserManager) : UserAct → Option UserManager
  | .addUser i => some { s with calls := s.calls ++ [.addUser i] }
  | .releaseUser i => some { s with calls := s.calls ++ [.releaseUser i] }
  | .locked c => (s.calls[c]?).bind (s.locked c)

inductive Place where
  | pool
  | entry (i : Int)
  | call (c : Nat)
  deriving DecidableEq

/-- The objects in a place. -/
def held (s : UserManager) : Place → List Nat
  | .pool => s.userPool
  | .entry i => (s.users i).toList
  | .call c => ((s.calls[c]?).bind UserCall.user).toList

/-- A call has made the entry, if and only if it is an `AddUser` that has returned true. -/
def Reports (s : UserManager) : Prop :=
  ∀ c i, (c, i) ∈ s.inserts ↔ s.calls[c]? = some (.added i true)

/-- Every object is in one place, and the calls report what they have done. -/
structure Inv (n : Nat) (s : UserManager) : Prop where
  places : Exclusive s.held (· ∈ List.range n)
  reports : s.Reports

variable {n c : Nat} {i : Int} {s s' : UserManager} {a : UserAct} {p p' : UserCall}
  {live : Nat → Prop}

theorem inv_init (n : Nat) : Inv n (init n) where
  places := by
    apply Exclusive.init (o := Place.pool) List.nodup_range rfl
    intro x hx
    cases x with
    | pool => exact absurd rfl hx
    | entry i => rfl
    | call c => rfl
  reports c i := iff_of_false List.not_mem_nil fun h => by cases h

theorem tryAdd_taken {users : Int → Option Nat} (h : (users i).isSome) (user : Nat) :
    tryAdd users i user = (users, false) := if_pos h

theorem tryAdd_new {users : Int → Option Nat} (h : users i = none) (user : Nat) :
    tryAdd users i user = (Function.update users i (some user), true) := by
  rw [tryAdd, h]
  rfl

/-! ## A call moves -/

/-- The place of a call that has moved, and of the others. -/
theorem getElem_move (hc : s.calls[c]? = some p) (p' : UserCall) (d : Nat) :
    (s.move c p').calls[d]? = if d = c then some p' else s.calls[d]? := by
  rw [← Function.update_apply (fun d : Nat => s.calls[d]?)]
  exact congrFun (Counting.set_eq_update hc p') d

theorem held_move_self (hc : s.calls[c]? = some p) (p' : UserCall) :
    (s.move c p').held (.call c) = p'.user.toList := by
  simp only [held, getElem_move hc, if_true, Option.bind_some]

/-- The other places do not see where a call is. -/
theorem held_move (hc : s.calls[c]? = some p) (p' : UserCall) {o : Place} (ho : o ≠ .call c) :
    (s.move c p').held o = s.held o := by
  cases o with
  | pool => rfl
  | entry i => rfl
  | call d =>
    have hd : d ≠ c := fun he => ho (congrArg Place.call he)
    simp only [held, getElem_move hc, if_neg hd]

theorem held_call (hc : s.calls[c]? = some p) : s.held (.call c) = p.user.toList := by
  simp only [held, hc, Option.bind_some]

/-- A call that keeps what it has in hand. -/
theorem places_keep (h : Exclusive s.held live) (hc : s.calls[c]? = some p)
    (hkeep : p'.user = p.user) : Exclusive (s.move c p').held live := by
  apply h.congr (fun o => ?_) fun a => Iff.rfl
  by_cases ho : o = .call c
  · subst ho
    rw [held_move_self hc, held_call hc, hkeep]
  · exact held_move hc p' ho

/-- A call and the pool exchange objects. -/
theorem places_pool (h : Exclusive s.held live) (hc : s.calls[c]? = some p) {pool : List Nat}
    (hperm : List.Perm (p'.user.toList ++ pool) (p.user.toList ++ s.userPool)) :
    Exclusive ({ s with userPool := pool }.move c p').held live := by
  have hc' : ({ s with userPool := pool }).calls[c]? = some p := hc
  apply h.transfer (.call c) .pool (fun he => by cases he)
  · rw [held_move_self hc', held_call hc]
    exact hperm
  · intro o hcall hpool
    rw [held_move hc' p' hcall]
    cases o with
    | pool => exact absurd rfl hpool
    | entry i => rfl
    | call d => rfl

/-- A call and an entry exchange their objects. -/
theorem places_entry (h : Exclusive s.held live) (hc : s.calls[c]? = some p) {o : Option Nat}
    (inserts : List (Nat × Int))
    (hperm : List.Perm (p'.user.toList ++ o.toList) (p.user.toList ++ (s.users i).toList)) :
    Exclusive ({ s with users := Function.update s.users i o, inserts := inserts }.move c
      p').held live := by
  have hc' : ({ s with users := Function.update s.users i o,
                       inserts := inserts }).calls[c]? = some p := hc
  apply h.transfer (.call c) (.entry i) (fun he => by cases he)
  · rw [held_move_self hc', held_call hc]
    simp only [held, move, Function.update_self]
    exact hperm
  · intro x hcall hentry
    rw [held_move hc' p' hcall]
    cases x with
    | pool => rfl
    | entry j =>
      have hj : j ≠ i := fun he => hentry (congrArg Place.entry he)
      exact congrArg Option.toList (Function.update_of_ne hj ..)
    | call d => rfl

/-- A call that does not return true reports nothing. -/
theorem reports_silent (h : s.Reports) (hc : s.calls[c]? = some p)
    (hp : p.Silent) (hp' : p'.Silent) : (s.move c p').Reports := by
  intro d i
  rw [getElem_move hc]
  refine (h d i).trans ?_
  by_cases hd : d = c
  · subst hd
    rw [if_pos rfl, hc]
    exact iff_of_false (fun he => hp.ne_added i (Option.some.inj he))
      fun he => hp'.ne_added i (Option.some.inj he)
  · rw [if_neg hd]

/-- The call that has made the entry returns true. -/
theorem reports_added (h : s.Reports) (hc : s.calls[c]? = some p) (hp : p.Silent)
    (users : Int → Option Nat) :
    ({ s with users := users, inserts := s.inserts ++ [(c, i)] }.move c
      (.added i true)).Reports := by
  have hc' : ({ s with users := users, inserts := s.inserts ++ [(c, i)] }).calls[c]? = some p := hc
  intro d j
  rw [getElem_move hc']
  simp only [move, List.mem_append, List.mem_singleton, Prod.mk.injEq, h d j]
  by_cases hd : d = c
  · subst hd
    have hout : ¬ s.calls[d]? = some (.added j true) := fun he =>
      hp.ne_added j (Option.some.inj (hc.symm.trans he))
    rw [if_pos rfl, or_iff_right hout]
    simp only [true_and, Option.some.injEq, UserCall.added.injEq, and_true]
    exact eq_comm
  · rw [if_neg hd, or_iff_left fun he => hd he.1]

/-- A new call has nothing and has done nothing. -/
theorem Inv.begin (h : Inv n s) (hp : p.user = none) (hsilent : p.Silent) :
    Inv n { s with calls := s.calls ++ [p] } := by
  have hget : ∀ d, (s.calls ++ [p])[d]? =
      if d = s.calls.length then some p else s.calls[d]? := by
    intro d
    by_cases hd : d = s.calls.length
    · subst hd
      rw [if_pos rfl, List.getElem?_concat_length]
    · rw [if_neg hd, List.getElem?_append]
      split
      · rfl
      · rw [List.getElem?_eq_none (by simp only [List.length_singleton]; omega),
          List.getElem?_eq_none (by omega)]
  have hend : s.calls[s.calls.length]? = none := List.getElem?_eq_none (Nat.le_refl _)
  constructor
  · apply h.places.congr (fun o => ?_) fun a => Iff.rfl
    cases o with
    | pool => rfl
    | entry i => rfl
    | call d =>
      simp only [held, hget]
      split
      · next hd => rw [hd, hend, Option.bind_some, hp, Option.bind_none]
      · rfl
  · intro d i
    refine (h.reports d i).trans ?_
    show _ ↔ (s.calls ++ [p])[d]? = _
    rw [hget]
    split
    · next hd =>
      rw [hd, hend]
      exact iff_of_false (fun he => by cases he) fun he => hsilent.ne_added i (Option.some.inj he)
    · rfl

/-! ## One step -/

/-- A locked section takes an object from one place to another, or none. -/
theorem locked_inv (h : Inv n s) (hc : s.calls[c]? = some p) (hs : s.locked c p = some s') :
    Inv n s' := by
  cases p with
  | addUser i =>
    simp only [locked] at hs
    split at hs
    · obtain rfl := Option.some.inj hs
      exact ⟨places_keep h.places hc rfl,
        reports_silent h.reports hc trivial trivial⟩
    · next user rest hpool =>
      obtain rfl := Option.some.inj hs
      refine ⟨places_pool h.places hc ?_,
        reports_silent h.reports hc trivial trivial⟩
      rw [hpool]
      exact List.Perm.refl (user :: rest)
  | tryAdd i user =>
    simp only [locked] at hs
    by_cases hin : (s.users i).isSome
    · simp only [tryAdd_taken hin, if_true] at hs
      obtain rfl := Option.some.inj hs
      exact ⟨places_keep h.places hc rfl,
        reports_silent h.reports hc trivial trivial⟩
    · have hnone : s.users i = none := Option.not_isSome_iff_eq_none.mp hin
      simp only [tryAdd_new hnone, Function.update_self, hnone, reduceCtorEq, if_false] at hs
      obtain rfl := Option.some.inj hs
      refine ⟨places_entry h.places hc _ ?_,
        reports_added h.reports hc trivial _⟩
      rw [hnone]
      exact List.Perm.refl [user]
  | giveBack i user =>
    obtain rfl := Option.some.inj hs
    refine ⟨places_pool h.places hc ?_,
      reports_silent h.reports hc trivial trivial⟩
    exact List.perm_append_singleton user s.userPool
  | releaseUser i =>
    simp only [locked] at hs
    split at hs
    · obtain rfl := Option.some.inj hs
      exact ⟨places_keep h.places hc rfl,
        reports_silent h.reports hc trivial trivial⟩
    · next user hentry =>
      obtain rfl := Option.some.inj hs
      refine ⟨places_entry h.places hc _ ?_,
        reports_silent h.reports hc trivial trivial⟩
      rw [hentry]
      exact List.Perm.refl [user]
  | enqueue user =>
    obtain rfl := Option.some.inj hs
    refine ⟨places_pool h.places hc ?_,
      reports_silent h.reports hc trivial trivial⟩
    exact List.perm_append_singleton user s.userPool
  | added i bRet => cases hs
  | released => cases hs

theorem step_inv (h : Inv n s) (hs : step s a = some s') : Inv n s' := by
  cases a with
  | addUser i =>
    obtain rfl := Option.some.inj hs
    exact h.begin rfl trivial
  | releaseUser i =>
    obtain rfl := Option.some.inj hs
    exact h.begin rfl trivial
  | locked c =>
    obtain ⟨p, hc, hs⟩ := Option.bind_eq_some_iff.mp hs
    exact locked_inv h hc hs

/-- In every state of every run each of the objects is in the pool, or in one entry, or in the
hand of one call, once; and an `AddUser` that has returned has made the entry if and only if it
has returned true. -/
theorem users_conserved {acts : List UserAct} (hr : run step (init n) acts = some s) :
    Exclusive s.held (· ∈ List.range n) ∧
      ∀ c i bRet, s.calls[c]? = some (.added i bRet) → (bRet = true ↔ (c, i) ∈ s.inserts) := by
  have hinv : Inv n s := run_stable (fun s a s' => step_inv) (inv_init n) hr
  refine ⟨hinv.places, fun c i bRet hc => ?_⟩
  rw [hinv.reports c i, hc]
  simp only [Option.some.injEq, UserCall.added.injEq, true_and]

/-- Two calls of `AddUser` with the same index both take an object before one inserts its own;
then the entry is released. -/
def addTwice : List UserAct :=
  [.addUser 3, .addUser 3, .locked 0, .locked 1, .locked 1, .locked 0, .locked 0, .releaseUser 3,
    .locked 2, .locked 2]

theorem users_conserved_twice : ∃ s, run step (init maxUserCount) addTwice = some s ∧
    Exclusive s.held (· ∈ List.range maxUserCount) ∧
    ∀ c i bRet, s.calls[c]? = some (.added i bRet) → (bRet = true ↔ (c, i) ∈ s.inserts) := by
  have hsome : (run step (init maxUserCount) addTwice).isSome = true := by decide +kernel
  obtain ⟨s, hr⟩ := Option.isSome_iff_exists.mp hsome
  exact ⟨s, hr, users_conserved hr⟩

end UserManager

end CSServer
