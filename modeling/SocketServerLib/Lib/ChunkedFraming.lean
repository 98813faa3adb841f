import SocketServerLib.Lib.PrefixFraming
import Mathlib.Data.List.Induction

/-
  Framing a stream that arrives in chunks, through a buffer of bounded capacity.

  `lengthField` is the rule of frames that begin with their own length, and `upTo` leaves out
  those that are too long. A receiver is a function that takes one chunk; what matters of
  its state is what it has `delivered` and the `content` of its buffer. `Implements` says
  what one call has to do: frame a chunk that fits behind the content, and leave everything
  as it was for one that does not.

  What is proved:
    1. `Implements.exact_iff` — over a stream of frames the receiver delivers the complete
       frames and keeps the rest, at every point, if and only if every chunk fits.
    2. `fits_of_room`, `fits_of_short` — every chunk fits if the whole stream does, or if a
       frame and a chunk do so together.
-/
namespace PrefixFraming

variable {α : Type*} {F : PrefixFraming α} {fs : List (List α)}

/-! ## Frames that begin with their length -/

/-- The length can be read once `width` elements have arrived; there is no empty frame. -/
def lengthField (width : Nat) (read : List α → Nat)
    (read_append : ∀ s t, width ≤ s.length → read (s ++ t) = read s) : PrefixFraming α where
  next s := if width ≤ s.length ∧ 0 < read s ∧ read s ≤ s.length then some (read s) else none
  pos := by
    intro s n h
    grind
  le := by
    intro s n h
    grind
  stable := by
    intro s n t h
    -- the length lies in what has already arrived
    have hwidth : width ≤ s.length := by grind
    have hread := read_append s t hwidth
    simp only [List.length_append, hread]
    grind

/-- The frames that are not longer than `max`. -/
def upTo (F : PrefixFraming α) (max : Nat) : PrefixFraming α where
  next s := (F.next s).filter (· ≤ max)
  pos h := F.pos (Option.filter_eq_some_iff.mp h).1
  le h := F.le (Option.filter_eq_some_iff.mp h).1
  stable t h := by
    obtain ⟨hn, hmax⟩ := Option.filter_eq_some_iff.mp h
    exact Option.filter_eq_some_iff.mpr ⟨F.stable t hn, hmax⟩

/-- A frame that holds its own length is cut off where it ends. -/
theorem lengthField_delimits {width : Nat} {read : List α → Nat}
    {read_append : ∀ s t, width ≤ s.length → read (s ++ t) = read s} {f : List α}
    (hread : read f = f.length) (hwidth : width ≤ f.length) (hpos : 0 < f.length) :
    (lengthField width read read_append).Delimits f := by
  constructor
  · intro t
    have hread' : read (f ++ t) = f.length := by rw [read_append f t hwidth, hread]
    simp only [lengthField, hread', List.length_append]
    apply if_pos
    omega
  · intro s hs hlt
    obtain ⟨t, rfl⟩ := hs
    apply if_neg
    intro h
    obtain ⟨hw, -, hle⟩ := h
    rw [← read_append s t hw, hread] at hle
    omega

/-! ## What is left of a stream of frames -/

/-- What has arrived of a frame that is not complete, or nothing. -/
def IsPartial (fs : List (List α)) (r : List α) : Prop :=
  r = [] ∨ ∃ f ∈ fs, r <+: f ∧ r.length < f.length

/-- How many of the first `n` elements lie behind the last complete frame. -/
def partialLength (fs : List (List α)) (n : Nat) : Nat :=
  n - (completed fs n).flatten.length

theorem IsPartial.mono {gs : List (List α)} {r : List α} (h : IsPartial fs r) (hsub : fs ⊆ gs) :
    IsPartial gs r := by
  rcases h with h | ⟨f, hf, hr⟩
  · exact .inl h
  · exact .inr ⟨f, hsub hf, hr⟩

theorem rest_take_flatten (hfs : ∀ f ∈ fs, F.Delimits f) (hnil : F.next [] = none) (n : Nat) :
    IsPartial fs (F.rest (fs.flatten.take n)) := by
  induction fs generalizing n with
  | nil =>
    rw [List.flatten_nil, List.take_nil, rest_of_none hnil]
    exact .inl rfl
  | cons f fs ih =>
    have hf := hfs f List.mem_cons_self
    rw [List.flatten_cons]
    by_cases hle : f.length ≤ n
    · have htake : (f ++ fs.flatten).take n = f ++ fs.flatten.take (n - f.length) := by
        rw [List.take_append, List.take_of_length_le hle]
      rw [htake, rest_of_some (hf.next_append _), List.drop_left]
      have hrest := ih (fun g hg => hfs g (List.mem_cons_of_mem f hg)) (n - f.length)
      exact hrest.mono (List.subset_cons_self f fs)
    · have hlt : (f.take n).length < f.length := by
        rw [List.length_take]
        omega
      have hprefix : f.take n <+: f := List.take_prefix n f
      rw [List.take_append_of_le_length (by omega), rest_of_none (hf.incomplete _ hprefix hlt)]
      exact .inr ⟨f, List.mem_cons_self, hprefix, hlt⟩

/-- What the rule finds in the part of the stream that has arrived. -/
theorem frames_of_cut (hfs : ∀ f ∈ fs, F.Delimits f) (hnil : F.next [] = none)
    (pre suf : List (List α)) (hcut : (pre ++ suf).flatten = fs.flatten) :
    F.frames pre.flatten = completed fs pre.flatten.length ∧
      (F.rest pre.flatten).length = partialLength fs pre.flatten.length ∧
      IsPartial fs (F.rest pre.flatten) := by
  have htake : pre.flatten = fs.flatten.take pre.flatten.length := by
    rw [← hcut, List.flatten_append, List.take_left]
  have hframes : F.frames pre.flatten = completed fs pre.flatten.length := by
    conv_lhs => rw [htake]
    exact frames_take_flatten hfs hnil _
  have hpartial : IsPartial fs (F.rest pre.flatten) := by
    rw [htake]
    exact rest_take_flatten hfs hnil _
  refine ⟨hframes, ?_, hpartial⟩
  have hlen := congrArg List.length (flatten_frames_append_rest (F := F) pre.flatten)
  rw [List.length_append, hframes] at hlen
  rw [partialLength]
  omega

end PrefixFraming

namespace ChunkedFraming

open PrefixFraming

variable {α σ : Type*} {F : PrefixFraming α} {cap : Nat} {fs cs : List (List α)}

/-- What matters of a receiver: the frames it has delivered and what its buffer holds. -/
structure Received (α : Type*) where
  delivered : List (List α)
  content : List α

/-- Chunk after chunk; `recv n` is what the receiver does with chunk `n`. -/
def receiveAll (recv : Nat → σ → List α → Option σ) : Nat → σ → List (List α) → Option σ
  | _, s, [] => some s
  | n, s, c :: cs => (recv n s c).bind fun s' => receiveAll recv (n + 1) s' cs

/-- One call of a receiver for the frames `fs` and chunks of one to `limit` elements, from a
state with `Inv`: a chunk that fits is framed together with what was left, where this gives frames
of `fs` and a part of one; a chunk that does not fit changes nothing. -/
structure Implements (F : PrefixFraming α) (cap limit : Nat) (fs : List (List α))
    (recv : Nat → σ → List α → Option σ) (abs : σ → Received α) (Inv : σ → Prop) : Prop where
  fits : ∀ {n s chunk}, Inv s → 0 < chunk.length → chunk.length ≤ limit →
    (abs s).content.length + chunk.length ≤ cap →
    F.frames ((abs s).content ++ chunk) ⊆ fs → IsPartial fs (F.rest ((abs s).content ++ chunk)) →
    ∃ s', recv n s chunk = some s' ∧ Inv s' ∧
      (abs s').delivered = (abs s).delivered ++ F.frames ((abs s).content ++ chunk) ∧
      (abs s').content = F.rest ((abs s).content ++ chunk)
  full : ∀ {n s chunk}, Inv s → 0 < chunk.length → chunk.length ≤ limit →
    F.next (abs s).content = none → cap < (abs s).content.length + chunk.length →
    ∃ s', recv n s chunk = some s' ∧ abs s' = abs s

/-- Nothing has been lost of `stream`. -/
structure InStep (F : PrefixFraming α) (r : Received α) (stream : List α) : Prop where
  delivered : r.delivered = F.frames stream
  content : r.content = F.rest stream

/-- At every point of the stream the call has returned, the complete frames have been delivered,
and every element received was in one of them or is in the buffer. -/
def Exact (recv : Nat → σ → List α → Option σ) (abs : σ → Received α) (init : σ)
    (fs cs : List (List α)) : Prop :=
  ∀ pre suf, pre ++ suf = cs → ∃ s, receiveAll recv 0 init pre = some s ∧
    (abs s).delivered = completed fs pre.flatten.length ∧
      (abs s).delivered.flatten ++ (abs s).content = pre.flatten

/-- Every chunk finds room behind the part of a frame that is there when it arrives. -/
def Fits (cap : Nat) (fs cs : List (List α)) : Prop :=
  ∀ pre c suf, pre ++ c :: suf = cs → partialLength fs pre.flatten.length + c.length ≤ cap

variable {recv : Nat → σ → List α → Option σ} {abs : σ → Received α} {Inv : σ → Prop} {init : σ}
  {limit : Nat} {r : Received α} {stream : List α}

theorem receiveAll_snoc (recv : Nat → σ → List α → Option σ) (n : Nat) (s : σ)
    (cs : List (List α)) (c : List α) : receiveAll recv n s (cs ++ [c]) =
      (receiveAll recv n s cs).bind fun s' => recv (n + cs.length) s' c := by
  induction cs generalizing n s with
  | nil =>
    simp only [List.nil_append, receiveAll, List.length_nil, Nat.add_zero, Option.bind_some]
    exact Option.bind_fun_some _
  | cons b cs ih =>
    simp only [List.cons_append, receiveAll, List.length_cons, Option.bind_assoc]
    refine congrArg _ (funext fun s' => ?_)
    rw [ih, show n + 1 + cs.length = n + (cs.length + 1) by omega]

theorem InStep.next (h : InStep F r stream) : F.next r.content = none := by
  rw [h.content]
  exact next_rest stream

/-- Every element received is accounted for. -/
theorem InStep.accounts (h : InStep F r stream) : r.delivered.flatten ++ r.content = stream := by
  rw [h.delivered, h.content, flatten_frames_append_rest]

theorem inStep_nil (hnil : F.next [] = none) (h : r = ⟨[], []⟩) : InStep F r [] := by
  rw [h]
  exact ⟨(frames_of_none hnil).symm, (rest_of_none hnil).symm⟩

/-- A chunk that fits keeps the receiver in step. -/
theorem Implements.step (h : Implements F cap limit fs recv abs Inv)
    (hfs : ∀ f ∈ fs, F.Delimits f) (hnil : F.next [] = none) {pre suf : List (List α)}
    {c : List α} (hcut : (pre ++ c :: suf).flatten = fs.flatten) {n : Nat} {s : σ} (hs : Inv s)
    (hin : InStep F (abs s) pre.flatten) (hc : 0 < c.length ∧ c.length ≤ limit)
    (hfit : partialLength fs pre.flatten.length + c.length ≤ cap) :
    ∃ s', recv n s c = some s' ∧ Inv s' ∧ InStep F (abs s') (pre ++ [c]).flatten := by
  obtain ⟨-, hlen, -⟩ := frames_of_cut hfs hnil pre (c :: suf) hcut
  obtain ⟨hframes, -, hpartial⟩ := frames_of_cut hfs hnil (pre ++ [c]) suf (by simpa using hcut)
  have hflat : (pre ++ [c]).flatten = pre.flatten ++ c := by simp
  rw [hflat] at hframes hpartial ⊢
  have hmem : F.frames ((abs s).content ++ c) ⊆ fs := by
    intro f hf
    apply completed_subset fs (pre.flatten ++ c).length f
    rw [← hframes, frames_append, ← hin.content]
    exact List.mem_append_right _ hf
  rw [rest_append, ← hin.content] at hpartial
  obtain ⟨s', hs', hinv, hdelivered, hcontent⟩ :=
    h.fits (n := n) hs hc.1 hc.2 (by rw [hin.content, hlen]; exact hfit) hmem hpartial
  refine ⟨s', hs', hinv, ?_, ?_⟩
  · rw [hdelivered, hin.delivered, hin.content, ← frames_append]
  · rw [hcontent, hin.content, ← rest_append]

/-- While every chunk has fitted, the receiver is in step. -/
theorem Implements.inStep (h : Implements F cap limit fs recv abs Inv)
    (hfs : ∀ f ∈ fs, F.Delimits f) (hnil : F.next [] = none) (hinit : Inv init)
    (hempty : abs init = ⟨[], []⟩) (pre suf : List (List α))
    (hcut : (pre ++ suf).flatten = fs.flatten)
    (hlen : ∀ c ∈ pre, 0 < c.length ∧ c.length ≤ limit) (hfit : Fits cap fs pre) :
    ∃ s, receiveAll recv 0 init pre = some s ∧ Inv s ∧ InStep F (abs s) pre.flatten := by
  induction pre using List.reverseRecOn generalizing suf with
  | nil => exact ⟨init, rfl, hinit, inStep_nil hnil hempty⟩
  | append_singleton pre c ih =>
    have hcut' : (pre ++ c :: suf).flatten = fs.flatten := by simpa using hcut
    obtain ⟨s, hs, hinv, hin⟩ := ih (c :: suf) hcut'
      (fun b hb => hlen b (List.mem_append_left _ hb))
      fun p b q hp => hfit p b (q ++ [c]) (by rw [← hp]; simp)
    obtain ⟨s', hs', hinv', hin'⟩ := h.step hfs hnil hcut' (n := 0 + pre.length) hinv hin
      (hlen c (by simp)) (hfit pre c [] rfl)
    refine ⟨s', ?_, hinv', hin'⟩
    rw [receiveAll_snoc, hs]
    exact hs'

/-- If nothing is lost, every chunk has fitted. -/
theorem Implements.fits_of_exact (h : Implements F cap limit fs recv abs Inv)
    (hfs : ∀ f ∈ fs, F.Delimits f) (hnil : F.next [] = none) (hinit : Inv init)
    (hempty : abs init = ⟨[], []⟩) (hcut : cs.flatten = fs.flatten)
    (hlen : ∀ c ∈ cs, 0 < c.length ∧ c.length ≤ limit) (hexact : Exact recv abs init fs cs)
    (pre : List (List α)) (c : List α) (suf : List (List α)) (hcs : pre ++ c :: suf = cs) :
    partialLength fs pre.flatten.length + c.length ≤ cap := by
  induction hn : pre.length using Nat.strongRecOn generalizing pre c suf with
  | _ n ih =>
    by_contra hfull
    -- the chunks before this one fit, so nothing has been lost yet
    have hcut' : (pre ++ c :: suf).flatten = fs.flatten := by rw [hcs, hcut]
    obtain ⟨s, hs, hinv, hin⟩ := h.inStep hfs hnil hinit hempty pre (c :: suf) hcut'
      (fun b hb => hlen b (by rw [← hcs]; exact List.mem_append_left _ hb))
      fun p b q hp => ih p.length (by rw [← hn, ← hp]; simp) p b (q ++ c :: suf)
        (by rw [← hcs, ← hp]; simp) rfl
    have hc := hlen c (by rw [← hcs]; simp)
    have hover : cap < (abs s).content.length + c.length := by
      rw [hin.content, (frames_of_cut hfs hnil pre (c :: suf) hcut').2.1]
      omega
    obtain ⟨s', hs', hsame⟩ := h.full (n := 0 + pre.length) hinv hc.1 hc.2 hin.next hover
    -- the chunk was dropped, so it is missing from what is accounted for
    obtain ⟨s'', hs'', -, hall⟩ := hexact (pre ++ [c]) suf (by rw [← hcs]; simp)
    rw [receiveAll_snoc, hs, Option.bind_some] at hs''
    obtain rfl : s' = s'' := Option.some.inj (hs'.symm.trans hs'')
    have hlost := congrArg List.length hall
    rw [hsame, hin.accounts, List.flatten_append, List.length_append] at hlost
    simp only [List.flatten_cons, List.flatten_nil, List.append_nil] at hlost
    omega

/-- The receiver is exact over the stream of the frames if and only if every chunk fits. -/
theorem Implements.exact_iff (h : Implements F cap limit fs recv abs Inv)
    (hfs : ∀ f ∈ fs, F.Delimits f) (hnil : F.next [] = none) (hinit : Inv init)
    (hempty : abs init = ⟨[], []⟩) (hcut : cs.flatten = fs.flatten)
    (hlen : ∀ c ∈ cs, 0 < c.length ∧ c.length ≤ limit) :
    Exact recv abs init fs cs ↔ Fits cap fs cs := by
  constructor
  · intro hexact pre c suf hcs
    exact h.fits_of_exact hfs hnil hinit hempty hcut hlen hexact pre c suf hcs
  · intro hfit pre suf hcs
    have hcut' : (pre ++ suf).flatten = fs.flatten := by rw [hcs, hcut]
    obtain ⟨s, hs, -, hin⟩ := h.inStep hfs hnil hinit hempty pre suf hcut'
      (fun c hc => hlen c (by rw [← hcs]; exact List.mem_append_left _ hc))
      fun p c q hp => hfit p c (q ++ suf) (by rw [← hcs, ← hp]; simp)
    refine ⟨s, hs, ?_, hin.accounts⟩
    rw [hin.delivered, (frames_of_cut hfs hnil pre suf hcut').1]

/-- Every chunk of a stream that is not longer than the buffer fits. -/
theorem fits_of_room (hroom : cs.flatten.length ≤ cap) : Fits cap fs cs := by
  rintro pre c suf rfl
  have hle : partialLength fs pre.flatten.length ≤ pre.flatten.length := Nat.sub_le _ _
  rw [List.flatten_append, List.flatten_cons, List.length_append, List.length_append] at hroom
  omega

/-- Where a frame and a chunk fit together but for one element, every chunk of a stream fits. -/
theorem fits_of_short (hfs : ∀ f ∈ fs, F.Delimits f) (hnil : F.next [] = none) {longest : Nat}
    (hlongest : ∀ f ∈ fs, f.length ≤ longest) (hcap : longest + limit ≤ cap + 1)
    (hlimit : limit ≤ cap) (hcut : cs.flatten = fs.flatten) (hlen : ∀ c ∈ cs, c.length ≤ limit) :
    Fits cap fs cs := by
  intro pre c suf hcs
  obtain ⟨-, hpartial, hpart⟩ := frames_of_cut hfs hnil pre (c :: suf) (by rw [hcs, hcut])
  have hc : c.length ≤ limit := hlen c (by rw [← hcs]; simp)
  rw [← hpartial]
  rcases hpart with hrest | ⟨f, hf, -, hlt⟩
  · rw [hrest, List.length_nil]
    omega
  · have hle := hlongest f hf
    omega

end ChunkedFraming
