import Mathlib.Data.List.Basic

/-
  Framing rules that only look at the front of a stream.

  A rule says, for what has arrived so far, how long the frame at the front is
  once it is complete. It is a *prefix* rule when later input never changes
  that answer (`stable`), so a stream can be framed as it comes in.

    `frames F s`     the complete frames at the front of `s`, in order;
    `rest F s`       what is left after them;
    `Splits F s fs r`  `s` is the frames `fs`, each complete when it was cut,
                     followed by `r`.

  `frames_append` and `rest_append` are the incremental form: framing a longer
  stream is framing the rest of the shorter one together with the new input.
-/

/-- A prefix framing rule: the length of the complete frame at the front, if there is one. -/
structure PrefixFraming (α : Type*) where
  next : List α → Option Nat
  pos : ∀ {s n}, next s = some n → 0 < n
  le : ∀ {s n}, next s = some n → n ≤ s.length
  stable : ∀ {s n} (t : List α), next s = some n → next (s ++ t) = some n

namespace PrefixFraming

variable {α : Type*} (F : PrefixFraming α)

/-- The complete frames at the front of the stream. -/
def frames (s : List α) : List (List α) :=
  match _h : F.next s with
  | none => []
  | some n => s.take n :: frames (s.drop n)
termination_by s.length
decreasing_by
  have := F.pos _h
  have := F.le _h
  simp only [List.length_drop]
  omega

/-- What is left of the stream after its complete frames. -/
def rest (s : List α) : List α :=
  match _h : F.next s with
  | none => s
  | some n => rest (s.drop n)
termination_by s.length
decreasing_by
  have := F.pos _h
  have := F.le _h
  simp only [List.length_drop]
  omega

/-- `s` is the frames `fs`, each complete when it was cut off the front, followed by `r`. -/
inductive Splits : List α → List (List α) → List α → Prop
  | nil (s) : Splits s [] s
  | snoc {s fs r n} : Splits s fs r → F.next r = some n →
      Splits s (fs ++ [r.take n]) (r.drop n)

variable {F} {s t r : List α} {fs : List (List α)} {n : Nat}

theorem frames_of_none (h : F.next s = none) : F.frames s = [] := by
  rw [frames]; split
  · rfl
  · next h' => rw [h] at h'; cases h'

theorem frames_of_some (h : F.next s = some n) :
    F.frames s = s.take n :: F.frames (s.drop n) := by
  rw [frames]; split
  · next h' => rw [h] at h'; cases h'
  · next m h' =>
    rw [h] at h'
    obtain rfl : n = m := Option.some.inj h'
    rfl

theorem rest_of_none (h : F.next s = none) : F.rest s = s := by
  rw [rest]; split
  · rfl
  · next h' => rw [h] at h'; cases h'

theorem rest_of_some (h : F.next s = some n) : F.rest s = F.rest (s.drop n) := by
  rw [rest]; split
  · next h' => rw [h] at h'; cases h'
  · next m h' =>
    rw [h] at h'
    obtain rfl : n = m := Option.some.inj h'
    rfl

/-- Induction along the framing of a stream. -/
theorem induction_on {motive : List α → Prop}
    (stop : ∀ s, F.next s = none → motive s)
    (cut : ∀ s n, F.next s = some n → motive (s.drop n) → motive s) (s : List α) :
    motive s := by
  induction hk : s.length using Nat.strongRecOn generalizing s with
  | _ k ih =>
    cases h : F.next s with
    | none => exact stop s h
    | some n =>
      have hpos := F.pos h
      have hle := F.le h
      have hlt : (s.drop n).length < k := by rw [List.length_drop]; omega
      exact cut s n h (ih _ hlt _ rfl)

/-- The rest holds no complete frame. -/
theorem next_rest (s : List α) : F.next (F.rest s) = none := by
  induction s using F.induction_on with
  | stop s h => rw [rest_of_none h]; exact h
  | cut s n h ih => rw [rest_of_some h]; exact ih

/-- A stream is its complete frames and its rest: framing loses nothing. -/
theorem flatten_frames_append_rest (s : List α) : (F.frames s).flatten ++ F.rest s = s := by
  induction s using F.induction_on with
  | stop s h => rw [frames_of_none h, rest_of_none h]; rfl
  | cut s n h ih =>
    rw [frames_of_some h, rest_of_some h, List.flatten_cons, List.append_assoc, ih]
    exact List.take_append_drop n s

theorem take_append_of_next (h : F.next s = some n) (t : List α) :
    (s ++ t).take n = s.take n := List.take_append_of_le_length (F.le h)

theorem drop_append_of_next (h : F.next s = some n) (t : List α) :
    (s ++ t).drop n = s.drop n ++ t := List.drop_append_of_le_length (F.le h)

/-- Framing is incremental: the frames of a longer stream are those already
complete, then those the rest gives together with the new input. -/
theorem frames_append (s t : List α) :
    F.frames (s ++ t) = F.frames s ++ F.frames (F.rest s ++ t) := by
  induction s using F.induction_on with
  | stop s h => rw [frames_of_none h, rest_of_none h]; rfl
  | cut s n h ih =>
    rw [frames_of_some (F.stable t h), frames_of_some h, rest_of_some h,
      take_append_of_next h, drop_append_of_next h, ih]
    rfl

theorem rest_append (s t : List α) : F.rest (s ++ t) = F.rest (F.rest s ++ t) := by
  induction s using F.induction_on with
  | stop s h => rw [rest_of_none h]
  | cut s n h ih =>
    rw [rest_of_some (F.stable t h), rest_of_some h, drop_append_of_next h, ih]

namespace Splits

theorem frames_eq (h : F.Splits s fs r) : F.frames s = fs ++ F.frames r := by
  induction h with
  | nil => rfl
  | snoc _ hn ih => rw [ih, frames_of_some hn]; simp

theorem rest_eq (h : F.Splits s fs r) : F.rest s = F.rest r := by
  induction h with
  | nil => rfl
  | snoc _ hn ih => rw [ih, rest_of_some hn]

/-- New input goes behind what is left. -/
theorem append (h : F.Splits s fs r) (t : List α) : F.Splits (s ++ t) fs (r ++ t) := by
  induction h with
  | nil => exact nil _
  | @snoc fs r n _ hn ih =>
    have := snoc ih (F.stable t hn)
    rwa [take_append_of_next hn, drop_append_of_next hn] at this

end Splits

/-! ## Streams of self-delimiting frames -/

/-- The rule cuts `f` off where it ends, whatever follows, and not before it is there. -/
structure Delimits (F : PrefixFraming α) (f : List α) : Prop where
  next_append : ∀ t, F.next (f ++ t) = some f.length
  incomplete : ∀ s, s <+: f → s.length < f.length → F.next s = none

/-- The frames of `fs` that are complete after `n` elements of the stream. -/
def completed : (fs : List (List α)) → (n : Nat) → List (List α)
  | [], _ => []
  | f :: fs, n => if f.length ≤ n then f :: completed fs (n - f.length) else []

/-- The rule finds exactly the frames the stream was made of, as soon as they are complete. -/
theorem frames_take_flatten (hfs : ∀ f ∈ fs, F.Delimits f) (hnil : F.next [] = none) (n : Nat) :
    F.frames (fs.flatten.take n) = completed fs n := by
  induction fs generalizing n with
  | nil => rw [List.flatten_nil, List.take_nil, frames_of_none hnil, completed]
  | cons f fs ih =>
    have hf := hfs f List.mem_cons_self
    rw [List.flatten_cons, completed]
    -- the first frame has arrived as a whole, or the rule sees no frame at all
    by_cases hle : f.length ≤ n
    · have htake : (f ++ fs.flatten).take n = f ++ fs.flatten.take (n - f.length) := by
        rw [List.take_append, List.take_of_length_le hle]
      rw [if_pos hle, htake, frames_of_some (hf.next_append _), List.take_left, List.drop_left,
        ih fun g hg => hfs g (List.mem_cons_of_mem f hg)]
    · have hlt : n ≤ f.length := by omega
      rw [if_neg hle, List.take_append_of_le_length hlt]
      apply frames_of_none
      apply hf.incomplete _ (List.take_prefix n f)
      rw [List.length_take]
      omega

theorem completed_subset (fs : List (List α)) (n : Nat) : ∀ f ∈ completed fs n, f ∈ fs := by
  induction fs generalizing n with
  | nil =>
    intro f hf
    exact hf
  | cons g fs ih =>
    intro f hf
    rw [completed] at hf
    split at hf
    · rcases List.mem_cons.mp hf with rfl | hf
      · exact List.mem_cons_self
      · exact List.mem_cons_of_mem g (ih _ f hf)
    · cases hf

end PrefixFraming
