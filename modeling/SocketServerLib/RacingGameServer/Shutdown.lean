import SocketServerLib.Lib.Counting
import SocketServerLib.Lib.LabelledRun
import SocketServerLib.RacingGameServer.Dispatch

/-
  Stopping the workers of the completion port: `PostEndToWorkerThreads`, the joins of
  `DestroyWorkerThreads`, and the loop of `WorkerThread`, for any set `W` of workers.

  The port's queue holds entries and termination packets (`none`, a null overlapped). A worker
  goes through its batch until a termination packet, where it breaks out, or until an entry
  whose I/O it would request again, if the server runs no longer: there it returns.
  `took` says which workers got a termination packet, `unprocessed` lists the entries of
  batches that were left; both are ghosts.

  What is proved:
    1. `step_balanced` — what every step keeps: each worker takes one termination packet
       at most, and leaves the loop once it has; those taken, those in the queue and those
       still to be posted are one for each worker.
    2. `workers_leave` — no worker is stranded and no entry is left, if each batch has at
       most one termination packet, with nothing behind it, and an entry at which a worker
       returns is the last of its batch.
    3. `worker_stranded` — two workers, both termination packets in one batch.

  What is assumed: the port gives a waiting worker any batch of up to 64 of what it has, in any
  order, and the posts of termination packets succeed.
-/
namespace RacingGameServer

open LabelledRun Counting

deriving instance DecidableEq for Entry

/-- Where a worker stands: at the test of `m_IsRun`, in `GetQueuedCompletionStatusEx`, before
the rest of a batch, or returned. -/
inductive WorkerPc where
  | check
  | wait
  | batch (entries : List (Option Entry))
  | returned
  deriving DecidableEq

structure Shutdown (W : Type*) where
  isRun : Bool
  toPost : Nat
  queue : List (Option Entry)
  point : W → WorkerPc
  took : W → Bool
  unprocessed : List Entry

/-- `postEnd` is the start of `PostEndToWorkerThreads`, `post` one of its posts. `dequeue` gives
the worker the batch `entries` and leaves `rest`; `fail` is a call that returns false. -/
inductive ShutdownAct (W : Type*) where
  | arrive (e : Entry)
  | postEnd
  | post
  | check (w : W)
  | dequeue (w : W) (entries rest : List (Option Entry))
  | fail (w : W)
  | handle (w : W)

/-- `MAX_EVENTS`. -/
def maxEvents : Nat := 64

/-- The entry is one whose I/O is to be requested again, and the server runs no longer. -/
def Quits (isRun : Bool) (e : Entry) : Prop :=
  isRun = false ∧ (e.iosize = 0 → e.op = .ACCEPT) ∧ retryable e.internal

instance (isRun : Bool) : DecidablePred (Quits isRun) := fun e => by
  unfold Quits; infer_instance

/-- The dispatcher makes no call for it. -/
theorem dispatch_of_quits {isRun bound : Bool} {e : Entry} (h : Quits isRun e) :
    dispatch isRun bound e = some [] := by
  obtain ⟨rfl, hsize, hretry⟩ := h
  have hzero : ¬ (e.iosize = 0 ∧ e.op ≠ .ACCEPT) := fun hz => hz.2 (hsize hz.1)
  have hbad : e.internal ≠ 0 := by
    rcases hretry with h | h | h <;> rw [h] <;> decide
  obtain ⟨hc, hm⟩ := not_or.mp hretry.not_dropped
  have hgone : ¬ (e.internal = errorNetnameDeleted ∨ e.internal = errorConnectionAborted) :=
    fun hg => gone.not_retryable hg hretry
  rw [dispatch, if_neg hzero, if_pos hbad, errorSwitch, if_neg hc, if_neg hgone, if_neg hm,
    if_pos hretry, if_pos rfl]
  rfl

namespace Shutdown

variable {W : Type*} [DecidableEq W]

/-- The server runs. -/
def init : Shutdown W :=
  { isRun := true, toPost := 0, queue := [], point := fun _ => .check, took := fun _ => false
    unprocessed := [] }

def goTo (s : Shutdown W) (w : W) (pc : WorkerPc) : Shutdown W :=
  { s with point := Function.update s.point w pc }

/-- The entries of a batch that is left. -/
def leave (s : Shutdown W) (entries : List (Option Entry)) : Shutdown W :=
  { s with unprocessed := s.unprocessed ++ entries.reduceOption }

/-- One turn of the loop over the batch; `none` where the connection is null. -/
def handle (s : Shutdown W) (w : W) : List (Option Entry) → Option (Shutdown W)
  | [] => some (s.goTo w .check)
  | none :: rest => some ((s.leave rest).goTo w .check)
  | some e :: rest =>
    if Quits s.isRun e then some ((s.leave rest).goTo w .returned)
    else if (dispatch s.isRun true e).isSome then some (s.goTo w (.batch rest))
    else none

def step [Fintype W] (s : Shutdown W) : ShutdownAct W → Option (Shutdown W)
  | .arrive e => some { s with queue := s.queue ++ [some e] }
  | .postEnd =>
    if s.isRun = true then some { s with isRun := false, toPost := Fintype.card W } else none
  | .post =>
    if s.toPost = 0 then none
    else some { s with toPost := s.toPost - 1, queue := s.queue ++ [none] }
  | .check w =>
    match s.point w with
    | .check => some (s.goTo w (if s.isRun = true then .wait else .returned))
    | _ => none
  | .dequeue w entries rest =>
    match s.point w with
    | .wait =>
      if entries ≠ [] ∧ entries.length ≤ maxEvents ∧ s.queue.Perm (entries ++ rest) then
        some ({ s with
          queue := rest
          took := Function.update s.took w (s.took w || decide (none ∈ entries)) }.goTo w
            (.batch entries))
      else none
    | _ => none
  | .fail w =>
    match s.point w with
    | .wait => some (s.goTo w .check)
    | _ => none
  | .handle w =>
    match s.point w with
    | .batch entries => s.handle w entries
    | _ => none

/-- Every termination packet has been posted and dequeued, and a worker is blocked. -/
def Stranded (s : Shutdown W) : Prop :=
  s.isRun = false ∧ s.toPost = 0 ∧ none ∉ s.queue ∧ ∃ w, s.point w = .wait

/-- No worker is stranded, and no entry has been left. -/
def Sound (s : Shutdown W) : Prop := ¬ Stranded s ∧ s.unprocessed = []

/-- At most one termination packet, with nothing behind it. -/
def Tidy (entries : List (Option Entry)) : Prop := none ∉ entries.dropLast

/-- The condition on the next entry of a batch. -/
def LastIfQuits (isRun : Bool) : List (Option Entry) → Prop
  | some e :: rest => Quits isRun e → rest = []
  | _ => True

def InOrder (s : Shutdown W) : ShutdownAct W → Prop
  | .dequeue _ entries _ => Tidy entries
  | .handle w =>
    match s.point w with
    | .batch entries => LastIfQuits s.isRun entries
    | _ => True
  | _ => True

instance (entries : List (Option Entry)) : Decidable (Tidy entries) := by
  unfold Tidy; infer_instance

instance (isRun : Bool) : DecidablePred (LastIfQuits isRun) := fun entries => by
  unfold LastIfQuits
  split <;> infer_instance

omit [DecidableEq W] in
instance (s : Shutdown W) : DecidablePred s.InOrder := fun l => by
  unfold InOrder
  split
  · infer_instance
  · split <;> infer_instance
  · infer_instance

instance [Fintype W] (s : Shutdown W) : Decidable s.Stranded := by
  unfold Stranded; infer_instance

instance [Fintype W] (s : Shutdown W) : Decidable s.Sound := by
  unfold Sound; infer_instance

/-! ## What every step keeps -/

/-- Where a worker may stand that has taken a termination packet, or not. -/
def Placed (isRun took : Bool) : WorkerPc → Prop
  | .check => took = true → isRun = false
  | .wait => took = false
  | .batch entries => Tidy entries ∧ (took = true ↔ none ∈ entries) ∧ (took = true → isRun = false)
  | .returned => took = true → isRun = false

variable [Fintype W]

/-- The workers that have taken a termination packet. -/
def taken (s : Shutdown W) : Nat := count (· = true) s.took

structure Balanced (s : Shutdown W) : Prop where
  placed : ∀ w, Placed s.isRun (s.took w) (s.point w)
  running : s.isRun = true → s.toPost = 0 ∧ s.queue.count none = 0 ∧ s.taken = 0
  stopping : s.isRun = false → s.taken + s.queue.count none + s.toPost = Fintype.card W
  unprocessed : s.unprocessed = []

variable {s s' : Shutdown W} {w : W} {e : Entry} {entries rest : List (Option Entry)}

omit [DecidableEq W] in
theorem balanced_init : Balanced (init : Shutdown W) where
  placed := fun _ h => (by cases h)
  running := fun _ => ⟨rfl, rfl, count_eq_zero.mpr fun _ h => (by cases h)⟩
  stopping := fun h => (by cases h)
  unprocessed := rfl

omit [DecidableEq W] in
/-- When all packets have been posted and dequeued, every worker has taken one. -/
theorem Balanced.sound (h : Balanced s) : Sound s := by
  refine ⟨fun hs => ?_, h.unprocessed⟩
  obtain ⟨hrun, hpost, hqueue, w, hw⟩ := hs
  have hall := h.stopping hrun
  rw [hpost, List.count_eq_zero.mpr hqueue] at hall
  have hwait := h.placed w
  rw [hw] at hwait
  have hlt : s.taken < Fintype.card W := by
    apply count_lt_card (w := w)
    rw [hwait]
    decide
  omega

omit [DecidableEq W] in
theorem Placed.stop {isRun took : Bool} {pc : WorkerPc} (h : Placed isRun took pc) :
    Placed false took pc := by
  cases pc with
  | check => exact fun _ => rfl
  | wait => exact h
  | batch entries => exact ⟨h.1, h.2.1, fun _ => rfl⟩
  | returned => exact fun _ => rfl

/-- A worker moves, and the packets stay where they are. -/
theorem Balanced.goTo (h : Balanced s) {pc : WorkerPc} (hpc : Placed s.isRun (s.took w) pc) :
    Balanced (s.goTo w pc) := by
  refine ⟨fun v => ?_, h.running, h.stopping, h.unprocessed⟩
  by_cases hv : v = w
  · subst hv
    show Placed s.isRun (s.took v) (Function.update s.point v pc v)
    rwa [Function.update_self]
  · show Placed s.isRun (s.took v) (Function.update s.point w pc v)
    rw [Function.update_of_ne hv]
    exact h.placed v

/-- A tidy batch has a termination packet or not, and no second one. -/
theorem count_none_of_tidy (ht : Tidy entries) (hne : entries ≠ []) :
    entries.count none = one (· = true) (decide (none ∈ entries)) := by
  have hsplit := List.dropLast_append_getLast hne
  rw [← hsplit, List.count_append, List.count_eq_zero.mpr ht, Nat.zero_add]
  cases hlast : entries.getLast hne with
  | none => simp [one]
  | some e =>
    have hno : none ∉ entries.dropLast ++ [some e] := by
      simpa [Tidy] using ht
    simp [one, hno]

/-- A worker gets a batch. -/
theorem Balanced.dequeue (h : Balanced s) (hw : s.point w = .wait) (ht : Tidy entries)
    (hne : entries ≠ []) (hperm : s.queue.Perm (entries ++ rest)) :
    Balanced ({ s with
      queue := rest
      took := Function.update s.took w (s.took w || decide (none ∈ entries)) }.goTo w
        (.batch entries)) := by
  have hwait : s.took w = false := by
    have := h.placed w
    rwa [hw] at this
  have hcount : s.queue.count none = entries.count none + rest.count none := by
    rw [hperm.count_eq, List.count_append]
  rw [count_none_of_tidy ht hne] at hcount
  have htaken := count_update (· = true) s.took w (decide (none ∈ entries))
  rw [hwait, one_of_not (by decide)] at htaken
  rw [hwait, Bool.false_or]
  refine ⟨fun v => ?_, fun hrun => ?_, fun hrun => ?_, h.unprocessed⟩
  · show Placed s.isRun (Function.update s.took w _ v) (Function.update s.point w _ v)
    by_cases hv : v = w
    · subst hv
      rw [Function.update_self, Function.update_self]
      refine ⟨ht, decide_eq_true_iff, fun hmem => ?_⟩
      -- while the server runs there is no termination packet
      by_contra hrun
      have hzero := (h.running (by simpa using hrun)).2.1
      have hone : one (· = true) true = 1 := one_of rfl
      rw [hcount, hmem, hone] at hzero
      omega
    · rw [Function.update_of_ne hv, Function.update_of_ne hv]
      exact h.placed v
  · obtain ⟨hpost, hqueue, hzero⟩ := h.running hrun
    have hz : s.taken = count (· = true) s.took := rfl
    show s.toPost = 0 ∧ rest.count none = 0 ∧ count (· = true) (Function.update s.took w _) = 0
    omega
  · have hbal := h.stopping hrun
    have hz : s.taken = count (· = true) s.took := rfl
    show count (· = true) (Function.update s.took w _) + rest.count none + s.toPost = _
    omega

/-- One turn over the batch. -/
theorem Balanced.handle (h : Balanced s) (hw : s.point w = .batch entries)
    (hl : LastIfQuits s.isRun entries) (hs : s.handle w entries = some s') : Balanced s' := by
  have hplaced := h.placed w
  rw [hw] at hplaced
  obtain ⟨ht, htook, hrun⟩ := hplaced
  have hleave : ∀ pc, Placed s.isRun (s.took w) pc → Balanced ((s.leave []).goTo w pc) := by
    intro pc hpc
    have h' : Balanced (s.leave []) :=
      ⟨h.placed, h.running, h.stopping, by
        show s.unprocessed ++ [] = []
        rw [List.append_nil, h.unprocessed]⟩
    exact h'.goTo hpc
  match entries, hs with
  | [], hs => exact Option.some.inj hs ▸ h.goTo hrun
  | none :: rest, hs =>
    -- the termination packet is the last of the batch
    obtain rfl : rest = [] := by
      by_contra hne
      apply ht
      rw [List.dropLast_cons_of_ne_nil hne]
      exact List.mem_cons_self
    exact Option.some.inj hs ▸ hleave .check hrun
  | some e :: rest, hs =>
    simp only [Shutdown.handle] at hs
    split at hs
    · next hq =>
      obtain rfl : rest = [] := hl hq
      exact Option.some.inj hs ▸ hleave .returned hrun
    · split at hs
      · obtain rfl := Option.some.inj hs
        apply h.goTo
        refine ⟨fun hmem => ht ?_, ?_, hrun⟩
        · have hne : rest ≠ [] := by
            intro hnil
            subst hnil
            cases hmem
          rw [List.dropLast_cons_of_ne_nil hne]
          exact List.mem_cons_of_mem _ hmem
        · rw [htook]
          simp
      · cases hs

theorem step_balanced {l : ShutdownAct W} (h : Balanced s) (hl : s.InOrder l)
    (hs : step s l = some s') : Balanced s' := by
  cases l with
  | arrive e =>
    obtain rfl := Option.some.inj hs
    have hcount : (s.queue ++ [some e]).count none = s.queue.count none := by
      simp
    refine ⟨h.placed, fun hrun => ?_, fun hrun => ?_, h.unprocessed⟩
    · rw [hcount]
      exact h.running hrun
    · rw [hcount]
      exact h.stopping hrun
  | postEnd =>
    simp only [step] at hs
    split at hs
    · next hrun =>
      obtain rfl := Option.some.inj hs
      obtain ⟨-, hqueue, htaken⟩ := h.running hrun
      refine ⟨fun w => (h.placed w).stop, nofun, fun _ => ?_, h.unprocessed⟩
      show s.taken + s.queue.count none + Fintype.card W = _
      omega
    · cases hs
  | post =>
    simp only [step] at hs
    split at hs
    · cases hs
    · next hpost =>
      obtain rfl := Option.some.inj hs
      have hcount : (s.queue ++ [none]).count none = s.queue.count none + 1 := by
        simp
      refine ⟨h.placed, fun hrun => absurd (h.running hrun).1 hpost, fun hrun => ?_, h.unprocessed⟩
      have hbal := h.stopping hrun
      show s.taken + (s.queue ++ [none]).count none + (s.toPost - 1) = _
      omega
  | check w =>
    simp only [step] at hs
    split at hs
    · next hw =>
      obtain rfl := Option.some.inj hs
      have hplaced := h.placed w
      rw [hw] at hplaced
      apply h.goTo
      split
      · next hrun =>
        show s.took w = false
        by_contra htook
        rw [hplaced (by simpa using htook)] at hrun
        cases hrun
      · exact hplaced
    · cases hs
  | dequeue w entries rest =>
    simp only [step] at hs
    split at hs
    · next hw =>
      split at hs
      · next hcond =>
        exact Option.some.inj hs ▸ h.dequeue hw hl hcond.1 hcond.2.2
      · cases hs
    · cases hs
  | fail w =>
    simp only [step] at hs
    split at hs
    · next hw =>
      have hplaced := h.placed w
      rw [hw] at hplaced
      refine Option.some.inj hs ▸ h.goTo ?_
      intro htook
      rw [hplaced] at htook
      cases htook
    · cases hs
  | handle w =>
    simp only [step] at hs
    split at hs
    · next entries hw =>
      refine h.handle hw ?_ hs
      simpa only [InOrder, hw] using hl
    · cases hs

/-- However the port distributes the packets, no worker is left in
`GetQueuedCompletionStatusEx` when all termination packets have been dequeued, and no entry is
left unprocessed, if every batch has at most one termination packet with nothing behind it, and
an entry at which a worker returns is the last of its batch. -/
theorem workers_leave {s : Shutdown W} {ls : List (ShutdownAct W)}
    (hC : Meets step InOrder init ls) (hr : run step init ls = some s) : Sound s :=
  (run_invariant (fun _ _ _ h hl hs => step_balanced h hl hs) balanced_init hC hr).sound

/-! ## Two workers -/

/-- Both workers wait, a send has completed, and the end is posted. -/
def ending : List (ShutdownAct Bool) :=
  [.check true, .check false, .arrive (sendEntry 3 12 0), .postEnd, .post, .post]

/-- One worker gets the entry and a termination packet, the other the other packet. -/
theorem workers_leave_two : ∃ s : Shutdown Bool,
    run step init (ending ++ [.dequeue true [some (sendEntry 3 12 0), none] [none],
      .dequeue false [none] [], .handle true, .handle true, .check true, .handle false,
      .check false]) = some s ∧ Sound s ∧ s.queue = [] := by
  have hrun : ((run step init (ending ++ [.dequeue true [some (sendEntry 3 12 0), none] [none],
      .dequeue false [none] [], .handle true, .handle true, .check true, .handle false,
      .check false])).map fun s : Shutdown Bool => s.queue) = some [] := by decide +kernel
  obtain ⟨s, hs, hqueue⟩ := Option.map_eq_some_iff.mp hrun
  exact ⟨s, hs, workers_leave (by decide +kernel) hs, hqueue⟩

/-- One worker gets both termination packets, and the other is left waiting. -/
theorem worker_stranded :
    ¬ ∀ (ls : List (ShutdownAct Bool)) (s : Shutdown Bool),
      run step init ls = some s → Sound s := by
  intro h
  have hrun : ((run step init (ending ++ [.dequeue true [some (sendEntry 3 12 0), none, none] [],
      .handle true, .handle true, .check true])).map fun s : Shutdown Bool => decide s.Sound) =
      some false := by decide +kernel
  obtain ⟨s, hs, hnot⟩ := Option.map_eq_some_iff.mp hrun
  exact of_decide_eq_false hnot (h _ s hs)

end Shutdown

end RacingGameServer
