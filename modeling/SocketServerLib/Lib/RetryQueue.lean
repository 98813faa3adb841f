import SocketServerLib.Lib.LabelledRun
import Mathlib.Data.List.Nodup
import Mathlib.Data.List.Perm.Basic

/-
  A queue whose consumer puts back what it could not finish.

  Items arrive at the end of the queue. The consumer takes the front item in hand, and finishes it
  or puts it back at the end. `received` and `finished` list the items in the order in which they
  have arrived and been finished.

  What is proved:
    1. `step_kept` — every item that has arrived is in the queue, in hand or finished, once.
    2. `step_ordered`, `step_overtaken` — the items with one key keep their order, until an item is
       put back behind another one with its key, which shows at once.
    3. `Ordered.prefix_of` — so long, the items of a key are finished in the order of arrival.
-/
namespace RetryQueue
open LabelledRun

variable {α κ : Type*} [DecidableEq κ]

structure Queue (α : Type*) where
  queue : List α
  running : Option α
  received : List α
  finished : List α

inductive Act (α : Type*) where
  | arrive (x : α)
  | take
  | finish
  | putBack

namespace Queue

def init : Queue α := { queue := [], running := none, received := [], finished := [] }

def step (s : Queue α) : Act α → Option (Queue α)
  | .arrive x => some { s with queue := s.queue ++ [x], received := s.received ++ [x] }
  | .take =>
    match s.running, s.queue with
    | none, x :: rest => some { s with queue := rest, running := some x }
    | _, _ => none
  | .finish => s.running.map fun x => { s with running := none, finished := s.finished ++ [x] }
  | .putBack => s.running.map fun x => { s with running := none, queue := s.queue ++ [x] }

/-- What is in hand and in the queue, in the order in which it will be taken. -/
def pending (s : Queue α) : List α := s.running.toList ++ s.queue

variable {s s' : Queue α} {a : Act α}

theorem step_take (h : step s .take = some s') : ∃ x rest, s.running = none ∧
    s.queue = x :: rest ∧ s' = { s with queue := rest, running := some x } := by
  simp only [step] at h
  split at h
  · next x rest hrunning hqueue =>
    exact ⟨x, rest, hrunning, hqueue, (Option.some.inj h).symm⟩
  · cases h

theorem step_finish (h : step s .finish = some s') : ∃ x, s.running = some x ∧
    s' = { s with running := none, finished := s.finished ++ [x] } := by
  obtain ⟨x, hx, he⟩ := Option.map_eq_some_iff.mp h
  exact ⟨x, hx, he.symm⟩

theorem step_putBack (h : step s .putBack = some s') : ∃ x, s.running = some x ∧
    s' = { s with running := none, queue := s.queue ++ [x] } := by
  obtain ⟨x, hx, he⟩ := Option.map_eq_some_iff.mp h
  exact ⟨x, hx, he.symm⟩

/-- The steps but `putBack` leave the items in the order in which they come. -/
theorem step_order (hs : step s a = some s') (ha : a ≠ .putBack) :
    (∃ x, a = .arrive x ∧ s'.received = s.received ++ [x] ∧
        s'.finished ++ s'.pending = s.finished ++ s.pending ++ [x]) ∨
      s'.received = s.received ∧ s'.finished ++ s'.pending = s.finished ++ s.pending := by
  cases a with
  | arrive x =>
    obtain rfl := Option.some.inj hs
    left
    refine ⟨x, rfl, rfl, ?_⟩
    simp only [pending, List.append_assoc]
  | take =>
    obtain ⟨x, rest, hrunning, hqueue, rfl⟩ := step_take hs
    right
    simp only [pending, hrunning, hqueue, Option.toList_none, Option.toList_some, List.nil_append,
      List.cons_append, and_self]
  | finish =>
    obtain ⟨x, hx, rfl⟩ := step_finish hs
    right
    simp only [pending, hx, Option.toList_none, Option.toList_some, List.nil_append,
      List.append_assoc, and_self]
  | putBack => exact absurd rfl ha

/-! ## Nothing is lost or done twice -/

/-- What has arrived is finished or pending, once. -/
def Kept (s : Queue α) : Prop := List.Perm (s.finished ++ s.pending) s.received

theorem kept_init : (init : Queue α).Kept := List.Perm.refl _

theorem step_kept (h : s.Kept) (hs : step s a = some s') : s'.Kept := by
  by_cases ha : a = .putBack
  · subst ha
    obtain ⟨x, hx, rfl⟩ := step_putBack hs
    refine List.Perm.trans ?_ h
    simp only [pending, hx, Option.toList_none, Option.toList_some, List.nil_append]
    exact (List.perm_append_comm).append_left s.finished
  · rcases step_order hs ha with ⟨x, -, hreceived, hall⟩ | ⟨hreceived, hall⟩
    · unfold Kept
      rw [hreceived, hall]
      exact h.append_right [x]
    · unfold Kept
      rw [hreceived, hall]
      exact h

/-! ## The order of the items with one key -/

section Order

variable (key : α → κ)

/-- The items with the key, in the order of the list. -/
def withKey (k : κ) (l : List α) : List α := l.filter fun x => key x = k

/-- The items of the key are finished or pending in the order in which they have arrived. -/
def Ordered (k : κ) (s : Queue α) : Prop :=
  withKey key k (s.finished ++ s.pending) = withKey key k s.received

def InOrder (s : Queue α) : Prop := ∀ k, Ordered key k s

/-- No item is put back behind another one with its key. -/
def KeepsOrder (s : Queue α) : Act α → Prop
  | .putBack => ∀ x ∈ s.running, ∀ y ∈ s.queue, key y ≠ key x
  | _ => True

theorem inOrder_init : (init : Queue α).InOrder key := fun _ => rfl

variable {key}

theorem withKey_append (k : κ) (l l' : List α) :
    withKey key k (l ++ l') = withKey key k l ++ withKey key k l' := List.filter_append ..

theorem withKey_eq_nil {k : κ} {l : List α} (h : ∀ x ∈ l, key x ≠ k) : withKey key k l = [] := by
  rw [withKey, List.filter_eq_nil_iff]
  intro x hx
  simpa using h x hx

/-- The items of one key keep their order, whatever becomes of the others. -/
theorem step_ordered {k : κ} (h : Ordered key k s)
    (hback : a = .putBack → ∀ x ∈ s.running, key x = k → ∀ y ∈ s.queue, key y ≠ k)
    (hs : step s a = some s') : Ordered key k s' := by
  unfold Ordered at h ⊢
  by_cases ha : a = .putBack
  · have hpasses := hback ha
    subst ha
    obtain ⟨x, hx, rfl⟩ := step_putBack hs
    rw [← h]
    simp only [pending, hx, Option.toList_none, Option.toList_some, List.nil_append, withKey_append]
    congr 1
    -- the item passes none with its key
    by_cases hk : key x = k
    · rw [withKey_eq_nil (hpasses x hx hk), List.append_nil, List.nil_append]
    · rw [withKey_eq_nil (l := [x]) fun y hy => List.mem_singleton.mp hy ▸ hk, List.append_nil,
        List.nil_append]
  · rcases step_order hs ha with ⟨x, -, hreceived, hall⟩ | ⟨hreceived, hall⟩
    · rw [hreceived, hall, withKey_append, withKey_append _ s.received, h]
    · rw [hreceived, hall, h]

theorem step_inOrder (h : s.InOrder key) (ha : s.KeepsOrder key a) (hs : step s a = some s') :
    s'.InOrder key := by
  intro k
  apply step_ordered (h k) _ hs
  rintro rfl x hx rfl
  exact ha x hx

theorem step_overtaken (hnodup : s.received.Nodup) (hkept : s.Kept) (h : s.InOrder key)
    (ha : ¬ s.KeepsOrder key a) (hs : step s a = some s') : ¬ s'.InOrder key := by
  intro h'
  cases a with
  | putBack =>
    obtain ⟨x, hx, rfl⟩ := step_putBack hs
    simp only [KeepsOrder, not_forall, not_not] at ha
    obtain ⟨z, hz, y, hy, hkey⟩ := ha
    obtain rfl := Option.some.inj (hx.symm.trans hz)
    have hall : (s.finished ++ (x :: s.queue)).Nodup := by
      have hperm := hkept.nodup_iff.mpr hnodup
      rw [pending, hx] at hperm
      exact hperm
    have hnotin : x ∉ s.queue := (List.nodup_cons.mp (List.nodup_append.mp hall).2.1).1
    have heq := (h' (key x)).trans (h (key x)).symm
    simp only [pending, hx, Option.toList_none, Option.toList_some, List.nil_append,
      withKey_append] at heq
    have heq := List.append_cancel_left heq
    -- the first of its key in the queue is now in front of the item
    have hmem : y ∈ withKey key (key x) s.queue := List.mem_filter.mpr ⟨hy, decide_eq_true hkey⟩
    have hself : withKey key (key x) [x] = [x] := List.filter_cons_of_pos (decide_eq_true rfl)
    rw [hself] at heq
    cases hqueue : withKey key (key x) s.queue with
    | nil =>
      rw [hqueue] at hmem
      cases hmem
    | cons w rest =>
      rw [hqueue, List.cons_append, List.singleton_append] at heq
      obtain rfl := (List.cons.inj heq).1
      have hw : w ∈ withKey key (key w) s.queue := hqueue ▸ List.mem_cons_self
      exact hnotin (List.mem_filter.mp hw).1
  | arrive x => exact ha trivial
  | take => exact ha trivial
  | finish => exact ha trivial

/-- The items of a key are finished in the order of arrival, and all of them when none is
pending. -/
theorem Ordered.prefix_of {k : κ} (h : Ordered key k s) :
    withKey key k s.finished <+: withKey key k s.received ∧
      ((∀ x ∈ s.pending, key x ≠ k) → withKey key k s.finished = withKey key k s.received) := by
  have hall := h
  rw [Ordered, withKey_append] at hall
  refine ⟨⟨_, hall⟩, fun hnone => ?_⟩
  rw [withKey_eq_nil hnone, List.append_nil] at hall
  exact hall

end Order

end Queue

end RetryQueue
