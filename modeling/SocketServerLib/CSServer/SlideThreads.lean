import SocketServerLib.CSServer.SlideFifo
import SocketServerLib.Lib.LockedObject

/-
  `SlideBuffer` of the C# server, called by many flows.

  `Enqueue`, `Dequeue` and `Pop` look at their arguments, wait for the one permit of the
  `SemaphoreSlim` of `m_Lock`, and work on `buffer` and `size` a statement at a time; `Handler`
  gives the permit back at the end of the `using` block, also where a statement throws. The flows
  are interleaved at every statement, and the arrays of a call are its own. `GetSize` and `GetBuf`
  take no lock.

  What is proved:
    1. `sequential` — a section that runs alone is the operation of `SlideFifo`.
    2. `calls_linearizable` — in every run the calls are answered as a bounded queue answers them
       one after the other, in an order that keeps to the order of the calls.
    3. `reads_settled` — while no `Dequeue` or `Pop` is in its section, a reader without the lock
       sees what the queue holds, also in the midst of an `Enqueue`.
    4. `calls_return` — the lock is never lost: the calls come to an end.

  What is assumed: the flows see the statements in one order, and nobody else uses `buffer` and
  `size`.
-/
namespace CSServer
open RacingGameServer (Bytes)
open LabelledRun Answering LockedObject

namespace SlideBuffer

/-- The next statement of a section. What is copied out has its array with it. -/
inductive Point where
  | checking (op : Op)
  | storing (msg_ : Bytes) (size_ : UInt32)
  | growing (size_ : UInt32)
  | filling (buf_ : Bytes) (size_ : UInt32)
  | sliding (target : Option Bytes) (size_ : UInt32)
  | shrinking (target : Option Bytes) (size_ : UInt32)

/-- The tests in front of the lock. -/
def early : Op → Option Answer
  | .enqueue msg_ size_ =>
    if size_.toNat < 1 then some { ret := true, target := none }
    else if msg_.length < size_.toNat then some { ret := false, target := none }
    else none
  | .dequeue buf_ size_ =>
    if size_.toNat < 1 then some { ret := true, target := some buf_ }
    else if buf_.length < size_.toNat then some { ret := false, target := some buf_ }
    else none
  | .pop size_ => if size_.toNat < 1 then some { ret := true, target := none } else none

def stmt (b : SlideBuffer) : Point → Option (SlideBuffer × (Point ⊕ Answer))
  | .checking (.enqueue msg_ size_) => do
    let room ← uintSub b.cap b.size
    if room < size_.toNat then return (b, .inr { ret := false, target := none })
    return (b, .inl (.storing msg_ size_))
  | .checking (.dequeue buf_ size_) =>
    if b.size < size_.toNat then some (b, .inr { ret := false, target := some buf_ })
    else some (b, .inl (.filling buf_ size_))
  | .checking (.pop size_) =>
    if b.size < size_.toNat then some (b, .inr { ret := false, target := none })
    else some (b, .inl (.sliding none size_))
  | .storing msg_ size_ => do
    let buffer ← arrayCopy msg_ 0 b.buffer b.size size_.toNat
    return ({ b with buffer := buffer }, .inl (.growing size_))
  | .growing size_ => do
    let size ← uintAdd b.size size_.toNat
    return ({ b with size := size }, .inr { ret := true, target := none })
  | .filling buf_ size_ => do
    let buf ← arrayCopy b.buffer 0 buf_ 0 size_.toNat
    return (b, .inl (.sliding (some buf) size_))
  | .sliding target size_ => do
    let left ← uintSub b.size size_.toNat
    let buffer ← arrayCopy b.buffer size_.toNat b.buffer 0 left
    return ({ b with buffer := buffer }, .inl (.shrinking target size_))
  | .shrinking target size_ => do
    let left ← uintSub b.size size_.toNat
    return ({ b with size := left }, .inr { ret := true, target := target })

def object : Object SlideBuffer Op Point Answer :=
  { early := early, start := .checking, stmt := stmt }

/-! ## A section that runs alone -/

/-- The rest of a section, from a point to its answer. -/
def alone (b : SlideBuffer) : Point → Option (SlideBuffer × Answer)
  | .growing size_ => do
    let size ← uintAdd b.size size_.toNat
    return ({ b with size := size }, { ret := true, target := none })
  | .storing msg_ size_ => do
    let buffer ← arrayCopy msg_ 0 b.buffer b.size size_.toNat
    let size ← uintAdd b.size size_.toNat
    return ({ b with buffer := buffer, size := size }, { ret := true, target := none })
  | .shrinking target size_ => do
    let left ← uintSub b.size size_.toNat
    return ({ b with size := left }, { ret := true, target := target })
  | .sliding target size_ => do
    let left ← uintSub b.size size_.toNat
    let buffer ← arrayCopy b.buffer size_.toNat b.buffer 0 left
    return ({ b with buffer := buffer, size := left }, { ret := true, target := target })
  | .filling buf_ size_ => do
    let buf ← arrayCopy b.buffer 0 buf_ 0 size_.toNat
    let left ← uintSub b.size size_.toNat
    let buffer ← arrayCopy b.buffer size_.toNat b.buffer 0 left
    return ({ b with buffer := buffer, size := left }, { ret := true, target := some buf })
  | .checking (.enqueue msg_ size_) => do
    let room ← uintSub b.cap b.size
    if room < size_.toNat then return (b, { ret := false, target := none })
    let buffer ← arrayCopy msg_ 0 b.buffer b.size size_.toNat
    let size ← uintAdd b.size size_.toNat
    return ({ b with buffer := buffer, size := size }, { ret := true, target := none })
  | .checking (.dequeue buf_ size_) =>
    if b.size < size_.toNat then some (b, { ret := false, target := some buf_ })
    else do
      let buf ← arrayCopy b.buffer 0 buf_ 0 size_.toNat
      let left ← uintSub b.size size_.toNat
      let buffer ← arrayCopy b.buffer size_.toNat b.buffer 0 left
      return ({ b with buffer := buffer, size := left }, { ret := true, target := some buf })
  | .checking (.pop size_) =>
    if b.size < size_.toNat then some (b, { ret := false, target := none })
    else do
      let left ← uintSub b.size size_.toNat
      let buffer ← arrayCopy b.buffer size_.toNat b.buffer 0 left
      return ({ b with buffer := buffer, size := left }, { ret := true, target := none })

/-- A call that is answered in front of the lock leaves the buffer alone. -/
theorem step_early {op : Op} {ans : Answer} (h : early op = some ans) (b : SlideBuffer) :
    step b op = some (b, ans) := by
  cases op with
  | enqueue msg_ size_ =>
    simp only [early] at h
    simp only [step, Checked.enqueue]
    split at h
    · next hzero => rw [if_pos hzero, Option.map_some, ← Option.some.inj h]
    · next hzero =>
      split at h
      · next hmsg => rw [if_neg hzero, if_pos hmsg, Option.map_some, ← Option.some.inj h]
      · cases h
  | dequeue buf_ size_ =>
    simp only [early] at h
    simp only [step, Checked.dequeue]
    split at h
    · next hzero => rw [if_pos hzero, Option.map_some, ← Option.some.inj h]
    · next hzero =>
      split at h
      · next hbuf => rw [if_neg hzero, if_pos hbuf, Option.map_some, ← Option.some.inj h]
      · cases h
  | pop size_ =>
    simp only [early] at h
    simp only [step, Checked.pop]
    split at h
    · next hzero => rw [if_pos hzero, Option.map_some, ← Option.some.inj h]
    · cases h

/-- The section of a call, run alone, is the call. -/
theorem alone_checking {op : Op} (h : early op = none) (b : SlideBuffer) :
    alone b (.checking op) = step b op := by
  cases op with
  | enqueue msg_ size_ =>
    simp only [early] at h
    split at h
    · cases h
    · next hzero =>
      split at h
      · cases h
      · next hmsg =>
        simp only [alone, step, Checked.enqueue]
        rw [if_neg hzero, if_neg hmsg]
        cases uintSub b.cap b.size with
        | none => rfl
        | some room =>
          simp only [Option.bind_eq_bind, Option.bind_some, Option.pure_def]
          split
          · rfl
          · cases arrayCopy msg_ 0 b.buffer b.size size_.toNat with
            | none => rfl
            | some buffer => cases uintAdd b.size size_.toNat <;> rfl
  | dequeue buf_ size_ =>
    simp only [early] at h
    split at h
    · cases h
    · next hzero =>
      split at h
      · cases h
      · next hbuf =>
        simp only [alone, step, Checked.dequeue]
        rw [if_neg hzero, if_neg hbuf]
        split
        · rfl
        · cases arrayCopy b.buffer 0 buf_ 0 size_.toNat with
          | none => rfl
          | some buf =>
            cases uintSub b.size size_.toNat with
            | none => rfl
            | some left =>
              simp only [Option.bind_eq_bind, Option.bind_some, Option.pure_def]
              cases arrayCopy b.buffer size_.toNat b.buffer 0 left <;> rfl
  | pop size_ =>
    simp only [early] at h
    split at h
    · cases h
    · next hzero =>
      simp only [alone, step, Checked.pop]
      rw [if_neg hzero]
      split
      · rfl
      · cases uintSub b.size size_.toNat with
        | none => rfl
        | some left =>
          simp only [Option.bind_eq_bind, Option.bind_some, Option.pure_def]
          cases arrayCopy b.buffer size_.toNat b.buffer 0 left <;> rfl

theorem alone_stmt (b : SlideBuffer) (p : Point) : alone b p = rest alone (stmt b p) := by
  cases p with
  | checking op =>
    cases op with
    | enqueue msg_ size_ =>
      simp only [alone, stmt]
      cases uintSub b.cap b.size with
      | none => rfl
      | some room =>
        simp only [Option.bind_eq_bind, Option.bind_some, Option.pure_def]
        by_cases hroom : room < size_.toNat
        · rw [if_pos hroom, if_pos hroom]
          rfl
        · rw [if_neg hroom, if_neg hroom]
          rfl
    | dequeue buf_ size_ =>
      simp only [alone, stmt]
      by_cases hsize : b.size < size_.toNat
      · rw [if_pos hsize, if_pos hsize]
        rfl
      · rw [if_neg hsize, if_neg hsize]
        rfl
    | pop size_ =>
      simp only [alone, stmt]
      by_cases hsize : b.size < size_.toNat
      · rw [if_pos hsize, if_pos hsize]
        rfl
      · rw [if_neg hsize, if_neg hsize]
        rfl
  | storing msg_ size_ =>
    simp only [alone, stmt]
    cases arrayCopy msg_ 0 b.buffer b.size size_.toNat <;> rfl
  | growing size_ =>
    simp only [alone, stmt]
    cases uintAdd b.size size_.toNat <;> rfl
  | filling buf_ size_ =>
    simp only [alone, stmt]
    cases arrayCopy b.buffer 0 buf_ 0 size_.toNat <;> rfl
  | sliding target size_ =>
    simp only [alone, stmt]
    cases hleft : uintSub b.size size_.toNat with
    | none => rfl
    | some left =>
      simp only [Option.bind_eq_bind, Option.bind_some, Option.pure_def]
      cases arrayCopy b.buffer size_.toNat b.buffer 0 left with
      | none => rfl
      | some buffer =>
        -- the size is read once more
        simp only [Option.bind_some, rest, alone, hleft]
        rfl
  | shrinking target size_ =>
    simp only [alone, stmt]
    cases uintSub b.size size_.toNat <;> rfl

theorem sequential {cap : Nat} (hcap : cap ≤ arrayMaxLength) :
    Sequential object step alone fun b => ∃ q : BoundedFifo UInt8 cap, b.Holds q where
  early _ _ h b _ := step_early h b
  start _ h b _ := alone_checking h b
  stmt := alone_stmt
  total b op h := by
    obtain ⟨q, hq⟩ := h
    obtain ⟨b', hstep, hholds⟩ := step_simulates hcap b q op hq
    exact ⟨b', _, hstep, _, hholds⟩

/-! ## Runs -/

abbrev Threads := System SlideBuffer Op Point Answer

/-- The calls so far, in the order in which they have been answered. -/
def ops (s : Threads) : List Op := s.log.map fun e => e.2.1

/-- The queue after the calls so far. -/
def queue (cap : Nat) (s : Threads) : BoundedFifo UInt8 cap × List Answer :=
  responses spec BoundedFifo.empty (ops s)

/-- What the flows have done is what a queue does that is called by one. -/
structure Linearized (cap : Nat) (s : Threads) : Prop where
  exclusive : ∀ i j f g, s.flows i = some f → s.flows j = some g → f.Holds → g.Holds → i = j
  permits : s.permits ≤ 1
  sound : ∀ i f, s.flows i = some f → f.Sound
  logged : ∀ i, s.entries i = (s.flows i).elim [] (Flow.logged i)
  answered : s.log.map (fun e => e.2.2) = (queue cap s).2
  settled : 0 < s.permits → s.object.bytes = (queue cap s).1.items

abbrev ThreadsInv (cap : Nat) (b₀ : SlideBuffer) : Threads → Prop :=
  System.Inv object step alone (fun b => ∃ q : BoundedFifo UInt8 cap, b.Holds q) b₀

variable {cap : Nat} {s t : Threads} {acts acts' : List (Act Op)}

theorem threadsInv_run (hcap : cap ≤ arrayMaxLength)
    (hrun : run (System.step object) (.init (new cap)) acts = some s) :
    ThreadsInv cap (new cap) s :=
  System.run_inv (sequential hcap) ⟨_, holds_new cap⟩ hrun

/-- The answers are those of the queue, and the buffer holds its items when the last one is made. -/
theorem settled_holds (hcap : cap ≤ arrayMaxLength) (h : ThreadsInv cap (new cap) s) :
    s.log.map (fun e => e.2.2) = (queue cap s).2 ∧ s.settled.Holds (queue cap s).1 := by
  obtain ⟨b, hanswers, hholds⟩ := (step_simulates hcap).answers (holds_new cap) (ops s)
  obtain ⟨rfl, hanswered⟩ := Prod.mk.inj (Option.some.inj (h.answered.symm.trans hanswers))
  exact ⟨hanswered, hholds⟩

theorem ThreadsInv.linearized (hcap : cap ≤ arrayMaxLength) (h : ThreadsInv cap (new cap) s) :
    Linearized cap s where
  exclusive _ _ _ _ hi hj hf hg := h.exclusive hi hj hf hg
  permits := by
    by_cases hpermits : 0 < s.permits
    · exact (h.guarded.free (decide_eq_true hpermits)).1.le
    · omega
  sound := h.sound
  logged := h.logged
  answered := (settled_holds hcap h).1
  settled hpermits := by
    rw [(h.guarded.free (decide_eq_true hpermits)).2]
    exact (settled_holds hcap h).2.bytes_eq

theorem construct_eq {cap_ : UInt32} {b₀ : SlideBuffer} (hnew : construct cap_ = some b₀) :
    cap_.toNat ≤ arrayMaxLength ∧ b₀ = new cap_.toNat := by
  unfold construct at hnew
  split at hnew
  · next hcap => exact ⟨hcap, (Option.some.inj hnew).symm⟩
  · cases hnew

/-- In every run of any number of flows over a new buffer, however their statements are
interleaved, the calls are answered as a bounded queue answers them one after the other, and a
call that has returned comes in front of every later one. -/
theorem calls_linearizable {cap_ : UInt32} {b₀ : SlideBuffer} (hnew : construct cap_ = some b₀)
    (hs : run (System.step object) (.init b₀) acts = some s)
    (ht : run (System.step object) s acts' = some t) :
    Linearized cap_.toNat t ∧
      ∀ i j op op' r r', s.flows i = some (.returned op r) → s.calls ≤ j →
        t.flows j = some (.returned op' r') →
        ∃ x y front back, t.log = front ++ back ∧ (i, op, x) ∈ front ∧ (j, op', y) ∈ back := by
  obtain ⟨hcap, rfl⟩ := construct_eq hnew
  have hrun : run (System.step object) (.init (new cap_.toNat)) (acts ++ acts') = some t := by
    rw [run_append, hs]
    exact ht
  have hinv := threadsInv_run hcap hs
  have hinv' := threadsInv_run hcap hrun
  refine ⟨ThreadsInv.linearized hcap hinv', ?_⟩
  intro i j op op' r r' hi hj hj'
  exact hinv.before hinv' ht hi hj hj'

/-- A `Dequeue` that waits while an `Enqueue` is in its section, and a `Pop` after both. -/
theorem calls_linearizable_three :
    ∃ s t : Threads,
      run (System.step object) (.init (new 4)) [.call (.enqueue [1, 2, 3] 3),
        .call (.dequeue [9, 9] 2), .start 1, .start 0, .acquire 0, .stmt 0, .stmt 0, .stmt 0,
        .leave 0, .acquire 1, .stmt 1, .stmt 1, .stmt 1, .stmt 1, .leave 1] = some s ∧
      run (System.step object) s [.call (.pop 1), .start 2, .acquire 2, .stmt 2, .stmt 2, .stmt 2,
        .leave 2] = some t ∧
      t.log = [(0, .enqueue [1, 2, 3] 3, ⟨true, none⟩),
        (1, .dequeue [9, 9] 2, ⟨true, some [1, 2]⟩), (2, .pop 1, ⟨true, none⟩)] ∧
      Linearized 4 t := by
  have hnew : construct 4 = some (new 4) := rfl
  have hruns : ∃ s t : Threads,
      run (System.step object) (.init (new 4)) [.call (.enqueue [1, 2, 3] 3),
        .call (.dequeue [9, 9] 2), .start 1, .start 0, .acquire 0, .stmt 0, .stmt 0, .stmt 0,
        .leave 0, .acquire 1, .stmt 1, .stmt 1, .stmt 1, .stmt 1, .leave 1] = some s ∧
      run (System.step object) s [.call (.pop 1), .start 2, .acquire 2, .stmt 2, .stmt 2, .stmt 2,
        .leave 2] = some t ∧
      t.log = [(0, .enqueue [1, 2, 3] 3, ⟨true, none⟩),
        (1, .dequeue [9, 9] 2, ⟨true, some [1, 2]⟩), (2, .pop 1, ⟨true, none⟩)] :=
    ⟨_, _, rfl, rfl, rfl⟩
  obtain ⟨s, t, hs, ht, hlog⟩ := hruns
  exact ⟨s, t, hs, ht, hlog, (calls_linearizable hnew hs ht).1⟩

/-! ## Reading without the lock -/

def Op.IsEnqueue (op : Op) : Prop := ∃ msg_ size_, op = .enqueue msg_ size_

/-- No `Dequeue` or `Pop` is in its section. -/
def OnlyEnqueues (s : Threads) : Prop :=
  ∀ i op p, s.flows i = some (.inside op p) → op.IsEnqueue

/-- The points of `Enqueue`. -/
def Point.OfEnqueue : Point → Prop
  | .checking (.enqueue _ _) => True
  | .storing _ _ => True
  | .growing _ => True
  | _ => False

/-- A copy behind the bytes in use leaves them alone. -/
theorem arrayCopy_behind {msg_ buffer buffer' : Bytes} {size n : Nat}
    (h : arrayCopy msg_ 0 buffer size n = some buffer') :
    buffer'.take size = buffer.take size := by
  unfold arrayCopy at h
  split at h
  · next hrange =>
    have hlen : (buffer.take size).length = size := by
      rw [List.length_take]
      omega
    rw [← Option.some.inj h, List.append_assoc, List.take_left' hlen]
  · cases h

/-- Up to its last statement an `Enqueue` leaves the bytes in use alone. -/
theorem enqueue_steady :
    System.Steady object (fun b => (b.size, b.bytes)) Op.IsEnqueue fun _ p => p.OfEnqueue where
  start := by
    rintro op ⟨msg_, size_, rfl⟩
    trivial
  stmt := by
    intro op b p b' p' hp hstmt
    have hstmt : stmt b p = some (b', .inl p') := hstmt
    cases p with
    | checking op =>
      cases op with
      | enqueue msg_ size_ =>
        obtain ⟨room, -, hroom⟩ := Option.bind_eq_some_iff.mp hstmt
        split at hroom
        · cases hroom
        · obtain ⟨rfl, hp'⟩ := Prod.mk.inj (Option.some.inj hroom)
          obtain rfl := Sum.inl.inj hp'
          exact ⟨trivial, rfl⟩
      | dequeue buf_ size_ => exact hp.elim
      | pop size_ => exact hp.elim
    | storing msg_ size_ =>
      obtain ⟨buffer, hcopy, hrest⟩ := Option.bind_eq_some_iff.mp hstmt
      obtain ⟨rfl, hp'⟩ := Prod.mk.inj (Option.some.inj hrest)
      obtain rfl := Sum.inl.inj hp'
      exact ⟨trivial, Prod.ext rfl (arrayCopy_behind hcopy)⟩
    | growing size_ =>
      obtain ⟨size, -, hrest⟩ := Option.bind_eq_some_iff.mp hstmt
      obtain ⟨-, hp'⟩ := Prod.mk.inj (Option.some.inj hrest)
      cases hp'
    | filling buf_ size_ => exact hp.elim
    | sliding target size_ => exact hp.elim
    | shrinking target size_ => exact hp.elim

/-- What a reader without the lock sees. -/
theorem OnlyEnqueues.view_eq (honly : OnlyEnqueues s) (hcap : cap ≤ arrayMaxLength)
    (hrun : run (System.step object) (.init (new cap)) acts = some s) :
    s.object.size = s.settled.size ∧ s.object.bytes = s.settled.bytes := by
  have hseen := System.run_seen (sequential hcap) enqueue_steady ⟨_, holds_new cap⟩ hrun
  exact Prod.mk.inj ((threadsInv_run hcap hrun).view_settled hseen honly)

/-- An `Enqueue` adds behind what is there. -/
theorem enqueue_extends {q : BoundedFifo UInt8 cap} {b b' : SlideBuffer} {msg_ : Bytes}
    {size_ : UInt32} {ans : Answer} (hcap : cap ≤ arrayMaxLength) (h : b.Holds q)
    (hstep : step b (.enqueue msg_ size_) = some (b', ans)) : b.bytes <+: b'.bytes := by
  simp only [step, Checked.enqueue_eq h.wf (h.cap_eq ▸ hcap), Option.map_some] at hstep
  obtain ⟨rfl, -⟩ := Prod.mk.inj (Option.some.inj hstep)
  rcases enqueue_cases h.wf msg_ size_.toNat with hfail | ⟨-, hbytes, -⟩
  · rw [hfail]
  · rw [hbytes]
    exact List.prefix_append _ _

/-- As long as no `Dequeue` or `Pop` is in its section, bytes only come to the ones in use. -/
theorem always_prefix (hcap : cap ≤ arrayMaxLength) (h : ThreadsInv cap (new cap) s)
    (honly : Always (System.step object) OnlyEnqueues s acts)
    (hrun : run (System.step object) s acts = some t) :
    s.settled.bytes <+: t.settled.bytes := by
  induction acts generalizing s with
  | nil =>
    obtain rfl := Option.some.inj hrun
    exact List.prefix_rfl
  | cons a acts ih =>
    obtain ⟨u, hstep, hrest⟩ := run_cons_eq_some.mp hrun
    have hu := ih (System.step_inv (sequential hcap) h hstep) (honly.2 u hstep) hrest
    rcases h.step_settled (sequential hcap) hstep with hsettled | ⟨i, op, p, ans, hi, hop⟩
    · rw [← hsettled]
      exact hu
    · obtain ⟨msg_, size_, rfl⟩ := honly.1 i op p hi
      exact (enqueue_extends hcap (settled_holds hcap h).2 hop).trans hu

/-- As long as no `Dequeue` or `Pop` is in its section, `GetSize` and `GetBuf`, which take no lock,
give the bytes of the queue, also in the midst of an `Enqueue`, and a segment that has been taken
keeps its bytes. -/
theorem reads_settled {cap_ : UInt32} {b₀ : SlideBuffer} (hnew : construct cap_ = some b₀)
    (hs : run (System.step object) (.init b₀) acts = some s)
    (ht : run (System.step object) s acts' = some t)
    (honly : Always (System.step object) OnlyEnqueues s acts') :
    s.object.size = (queue cap_.toNat s).1.items.length ∧
      ∀ n, n ≤ s.object.size →
        s.object.segment n = (queue cap_.toNat s).1.items.take n ∧
          t.object.segment n = s.object.segment n := by
  obtain ⟨hcap, rfl⟩ := construct_eq hnew
  have hrun : run (System.step object) (.init (new cap_.toNat)) (acts ++ acts') = some t := by
    rw [run_append, hs]
    exact ht
  have hinv := threadsInv_run hcap hs
  have hholds := (settled_holds hcap hinv).2
  obtain ⟨hsize, hbytes⟩ := OnlyEnqueues.view_eq (always_head honly) hcap hs
  obtain ⟨hsize', hbytes'⟩ := OnlyEnqueues.view_eq (always_last honly ht) hcap hrun
  have hgrows := always_prefix hcap hinv honly ht
  refine ⟨hsize.trans hholds.size_eq, fun n hn => ?_⟩
  have hsegment : s.object.segment n = s.settled.bytes.take n := by
    rw [segment_eq hn, hbytes]
  refine ⟨by rw [hsegment, hholds.bytes_eq], ?_⟩
  have hlen : n ≤ s.settled.bytes.length := by
    rw [hholds.wf.bytes_length, ← hsize]
    exact hn
  have hwf' := (settled_holds hcap (threadsInv_run hcap hrun)).2.wf
  have hn' : n ≤ t.object.size := by
    rw [hsize', ← hwf'.bytes_length]
    exact hlen.trans hgrows.length_le
  rw [hsegment, segment_eq hn', hbytes']
  obtain ⟨more, hmore⟩ := hgrows
  rw [← hmore, List.take_append_of_le_length hlen]

/-- A reader in the midst of an `Enqueue`: the array has its byte already, the queue has not. -/
theorem reads_settled_midst :
    ∃ s t : Threads,
      run (System.step object) (.init (new 4)) [.call (.enqueue [1, 2] 2), .start 0, .acquire 0,
        .stmt 0, .stmt 0, .stmt 0, .leave 0, .call (.enqueue [3] 1), .start 1, .acquire 1,
        .stmt 1, .stmt 1] = some s ∧
      run (System.step object) s [.stmt 1, .leave 1] = some t ∧
      s.object.buffer = [1, 2, 3, 0] ∧ s.object.size = 2 ∧ t.object.size = 3 ∧
      t.object.segment 2 = s.object.segment 2 := by
  have hnew : construct 4 = some (new 4) := rfl
  have hruns : ∃ s t : Threads,
      run (System.step object) (.init (new 4)) [.call (.enqueue [1, 2] 2), .start 0, .acquire 0,
        .stmt 0, .stmt 0, .stmt 0, .leave 0, .call (.enqueue [3] 1), .start 1, .acquire 1,
        .stmt 1, .stmt 1] = some s ∧
      run (System.step object) s [.stmt 1, .leave 1] = some t ∧
      s.object.buffer = [1, 2, 3, 0] ∧ s.object.size = 2 ∧ t.object.size = 3 :=
    ⟨_, _, rfl, rfl, rfl, rfl, rfl⟩
  obtain ⟨s, t, hs, ht, hbuffer, hsize, hsize'⟩ := hruns
  have hcalls : s.OnlyCalls Op.IsEnqueue := by
    refine System.OnlyCalls.run (fun i f hi => by cases hi) ?_ hs
    intro op hop
    simp only [List.mem_cons, List.not_mem_nil, or_false, reduceCtorEq, false_or, Act.call.injEq]
      at hop
    rcases hop with rfl | rfl <;> exact ⟨_, _, rfl⟩
  have honly : Always (System.step object) OnlyEnqueues s [.stmt 1, .leave 1] := by
    apply hcalls.always
    intro op hop
    simp only [List.mem_cons, List.not_mem_nil, or_false, reduceCtorEq] at hop
  exact ⟨s, t, hs, ht, hbuffer, hsize, hsize',
    ((reads_settled hnew hs ht honly).2 2 hsize.ge).2⟩

/-! ## The calls return -/

/-- How many statements come behind the next one, at most. -/
def Point.rank : Point → Nat
  | .checking (.enqueue _ _) => 2
  | .checking (.dequeue _ _) => 3
  | .checking (.pop _) => 2
  | .filling _ _ => 2
  | .storing _ _ => 1
  | .sliding _ _ => 1
  | .growing _ => 0
  | .shrinking _ _ => 0

theorem Point.rank_le (p : Point) : p.rank ≤ 3 := by
  cases p with
  | checking op =>
    cases op with
    | enqueue msg_ size_ => exact Nat.le_succ 2
    | dequeue buf_ size_ => exact Nat.le_refl 3
    | pop size_ => exact Nat.le_succ 2
  | storing msg_ size_ => exact Nat.le_add_left 1 2
  | growing size_ => exact Nat.zero_le 3
  | filling buf_ size_ => exact Nat.le_succ 2
  | sliding target size_ => exact Nat.le_add_left 1 2
  | shrinking target size_ => exact Nat.zero_le 3

theorem object_ends : Ends object Point.rank := by
  intro b p b' p' hstmt
  have hstmt : stmt b p = some (b', .inl p') := hstmt
  cases p with
  | checking op =>
    cases op with
    | enqueue msg_ size_ =>
      obtain ⟨room, -, hroom⟩ := Option.bind_eq_some_iff.mp hstmt
      split at hroom
      · cases hroom
      · obtain rfl := Sum.inl.inj (Prod.mk.inj (Option.some.inj hroom)).2
        exact Nat.one_lt_two
    | dequeue buf_ size_ =>
      simp only [stmt] at hstmt
      split at hstmt
      · cases hstmt
      · obtain rfl := Sum.inl.inj (Prod.mk.inj (Option.some.inj hstmt)).2
        exact Nat.lt_succ_self 2
    | pop size_ =>
      simp only [stmt] at hstmt
      split at hstmt
      · cases hstmt
      · obtain rfl := Sum.inl.inj (Prod.mk.inj (Option.some.inj hstmt)).2
        exact Nat.one_lt_two
  | storing msg_ size_ =>
    obtain ⟨buffer, -, hrest⟩ := Option.bind_eq_some_iff.mp hstmt
    obtain rfl := Sum.inl.inj (Prod.mk.inj (Option.some.inj hrest)).2
    exact Nat.one_pos
  | growing size_ =>
    obtain ⟨size, -, hrest⟩ := Option.bind_eq_some_iff.mp hstmt
    cases (Prod.mk.inj (Option.some.inj hrest)).2
  | filling buf_ size_ =>
    obtain ⟨buf, -, hrest⟩ := Option.bind_eq_some_iff.mp hstmt
    obtain rfl := Sum.inl.inj (Prod.mk.inj (Option.some.inj hrest)).2
    exact Nat.one_lt_two
  | sliding target size_ =>
    obtain ⟨left, -, hrest⟩ := Option.bind_eq_some_iff.mp hstmt
    obtain ⟨buffer, -, hrest⟩ := Option.bind_eq_some_iff.mp hrest
    obtain rfl := Sum.inl.inj (Prod.mk.inj (Option.some.inj hrest)).2
    exact Nat.one_pos
  | shrinking target size_ =>
    obtain ⟨left, -, hrest⟩ := Option.bind_eq_some_iff.mp hstmt
    cases (Prod.mk.inj (Option.some.inj hrest)).2

/-- The lock is never lost: with no new calls every run comes to its end after seven steps for each
call at the most, and where no flow can go on every call has returned with its answer. -/
theorem calls_return {cap_ : UInt32} {b₀ : SlideBuffer} (hnew : construct cap_ = some b₀)
    (hs : run (System.step object) (.init b₀) acts = some s) (hcalls : ∀ a ∈ acts', ¬ a.Calls)
    (ht : run (System.step object) s acts' = some t) :
    acts'.length ≤ s.calls * 7 ∧
      ((∀ a, ¬ a.Calls → System.step object t a = none) →
        ∀ i f, t.flows i = some f → ∃ op ans, f = .returned op (some ans)) := by
  obtain ⟨hcap, rfl⟩ := construct_eq hnew
  have hinv := threadsInv_run hcap hs
  have hinv' : ThreadsInv cap_.toNat (new cap_.toNat) t :=
    run_stable (fun _ _ _ h hstep => System.step_inv (sequential hcap) h hstep) hinv ht
  constructor
  · have htogo := System.run_togo object_ends (sequential hcap) hinv hcalls ht
    have hle := System.togo_le (O := object) (s := s) Point.rank_le
    omega
  · intro hstuck i f hi
    by_cases hf : f.togo object Point.rank = 0
    · cases f with
      | returned op r =>
        obtain ⟨x, rfl, -⟩ := hinv'.returned hi
        exact ⟨op, x, rfl⟩
      | called op => cases hf
      | waiting op => cases hf
      | inside op p => cases hf
      | leaving op r => cases hf
    · obtain ⟨a, ha, hgoes⟩ := hinv'.goes_on hi hf
      exact absurd (hstuck a ha) hgoes

/-- An `Enqueue` that finds no room gives the permit back: the `Dequeue` behind it returns. -/
theorem calls_return_refused :
    ∃ s t : Threads,
      run (System.step object) (.init (new 1)) [.call (.enqueue [1, 2] 2), .call (.dequeue [9] 1),
        .start 0, .start 1, .acquire 0] = some s ∧
      run (System.step object) s [.stmt 0, .leave 0, .acquire 1, .stmt 1, .leave 1] = some t ∧
      t.log = [(0, .enqueue [1, 2] 2, ⟨false, none⟩), (1, .dequeue [9] 1, ⟨false, some [9]⟩)] ∧
      5 ≤ s.calls * 7 := by
  have hnew : construct 1 = some (new 1) := rfl
  have hruns : ∃ s t : Threads,
      run (System.step object) (.init (new 1)) [.call (.enqueue [1, 2] 2), .call (.dequeue [9] 1),
        .start 0, .start 1, .acquire 0] = some s ∧
      run (System.step object) s [.stmt 0, .leave 0, .acquire 1, .stmt 1, .leave 1] = some t ∧
      t.log = [(0, .enqueue [1, 2] 2, ⟨false, none⟩),
        (1, .dequeue [9] 1, ⟨false, some [9]⟩)] :=
    ⟨_, _, rfl, rfl, rfl⟩
  obtain ⟨s, t, hs, ht, hlog⟩ := hruns
  refine ⟨s, t, hs, ht, hlog, (calls_return hnew hs ?_ ht).1⟩
  intro a ha
  simp only [List.mem_cons, List.not_mem_nil, or_false] at ha
  rcases ha with rfl | rfl | rfl | rfl | rfl <;> exact id

end SlideBuffer

end CSServer
