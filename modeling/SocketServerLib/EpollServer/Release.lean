import SocketServerLib.EpollServer.Lifetimes

/-
  What is deleted too early, too late and never: the pointer that the job thread has while
  `ReadThread` closes the client, the one that `ReadThread` has while `End` releases all contexts,
  what comes in behind the thread that would have deleted it, and the jobs whose `Parse` fails.

  What is proved:
    1. `step_live`, `pointers_live_iff` — no thread has a pointer to a deleted context in any state
       of a run, if and only if no context is released while the job thread sends through it, and
       `ReleaseAllContexts` does not run while `ReadThread` uses one.
    2. `step_left`, `left_of_late`, `all_deleted_iff` — when `End` has returned, everything has been
       deleted if and only if no client came in behind `ReleaseAllContexts`, no request behind the
       job thread, and `Parse` failed for none.

  What is assumed: what `Lifetimes` assumes.
-/
namespace EpollServer
open LabelledRun

namespace Lifetimes

/-- The contexts that the threads have pointers to have not been deleted. -/
def Live (s : Lifetimes) : Prop :=
  (∀ pCC ∈ s.reader.pointer, pCC ∉ s.deleted) ∧ ∀ pCC ∈ s.worker.pointer, pCC ∉ s.deleted

/-- `ReleaseContext` does not delete the context that the job thread sends to, and
`ReleaseAllContexts` none that `ReadThread` uses. -/
def KeepsLive (s : Lifetimes) : ThreadAct → Prop
  | .release => ∀ fd_ ∈ s.reader.closing, ∀ pCC ∈ s.worker.pointer, s.getContext fd_ ≠ some pCC
  | .releaseAll => s.reader.pointer = none
  | _ => True

/-- No context is made behind `ReleaseAllContexts`, no job behind the job thread, and none whose
`Parse` fails. -/
def InTime (s : Lifetimes) : ThreadAct → Prop
  | .accept clientSock allocated => s.Released → clientSock = none ∨ allocated = false
  | .use bRet created => s.reader.receiving = true → bRet = true →
    created ≠ .unparsed ∧ (s.worker = .left → created = .refused)
  | _ => True

instance (s : Lifetimes) : Decidable s.Live :=
  inferInstanceAs (Decidable ((∀ pCC ∈ s.reader.pointer, pCC ∉ s.deleted) ∧
    ∀ pCC ∈ s.worker.pointer, pCC ∉ s.deleted))

instance (s : Lifetimes) : DecidablePred s.KeepsLive
  | .release =>
    inferInstanceAs (Decidable (∀ fd_ ∈ s.reader.closing, ∀ pCC ∈ s.worker.pointer,
      s.getContext fd_ ≠ some pCC))
  | .releaseAll => inferInstanceAs (Decidable (s.reader.pointer = none))
  | .checkRead => .isTrue trivial
  | .wake _ => .isTrue trivial
  | .accept _ _ => .isTrue trivial
  | .handle _ => .isTrue trivial
  | .use _ _ => .isTrue trivial
  | .take => .isTrue trivial
  | .execute => .isTrue trivial
  | .send _ => .isTrue trivial
  | .arm _ => .isTrue trivial
  | .finish => .isTrue trivial
  | .drain => .isTrue trivial
  | .endServer => .isTrue trivial
  | .jobJoined => .isTrue trivial
  | .readJoined => .isTrue trivial

/-- Every context and every job has been deleted. -/
def AllDeleted (s : Lifetimes) : Prop :=
  (∀ pCC < s.made, pCC ∈ s.deleted) ∧ ∀ pJob < s.madeJobs, pJob ∈ s.deletedJobs

variable {s s' : Lifetimes} {a : ThreadAct} {fd_ : Nat} {rest : List Event}

/-! ## Pointers -/

theorem keepsLive_of_frees (ha : a.frees = false) : s.KeepsLive a := by
  cases a with
  | release => cases ha
  | releaseAll => cases ha
  | _ => trivial

theorem live_init : init.Live := by
  constructor
  · intro p hp
    cases hp
  · intro p hp
    cases hp

/-- A step that deletes nothing. -/
theorem Live.moved (hlive : s.Live) (h : s.Inv) (hdeleted : s'.deleted = s.deleted)
    (hreader : ∀ p ∈ s'.reader.pointer, p ∈ s.reader.pointer ∨ p ∈ s.Clients.map Prod.snd)
    (hworker : ∀ p ∈ s'.worker.pointer, p ∈ s.worker.pointer ∨ p ∈ s.Clients.map Prod.snd) :
    s'.Live := by
  constructor
  · intro p hp
    rw [hdeleted]
    rcases hreader p hp with hp | hp
    · exact hlive.1 p hp
    · exact (h.live hp).2
  · intro p hp
    rw [hdeleted]
    rcases hworker p hp with hp | hp
    · exact hlive.2 p hp
    · exact (h.live hp).2

/-- `ReleaseContext` leaves the pointers live if and only if the job thread has not got the
context. -/
theorem release_live (h : s.Inv) (hlive : s.Live) (hreader : s.reader = .release fd_ rest) :
    ({ s.releaseContext fd_ with reader := .events rest } : Lifetimes).Live ↔
      s.KeepsLive .release := by
  have hclosing : s.reader.closing = some fd_ := by
    rw [hreader]
    rfl
  have hkeeps : s.KeepsLive .release ↔ ∀ p ∈ s.worker.pointer, s.getContext fd_ ≠ some p := by
    constructor
    · exact fun hkeeps => hkeeps fd_ hclosing
    · intro hkeeps fd hfd
      obtain rfl := Option.some.inj (hclosing.symm.trans hfd)
      exact hkeeps
  rw [hkeeps]
  cases hfind : s.find fd_ with
  | none =>
    have hnone : s.getContext fd_ = none := by
      unfold getContext
      rw [hfind]
      rfl
    rw [releaseContext_none hfind]
    constructor
    · intro _ p _ hget
      rw [hnone] at hget
      cases hget
    · exact fun _ => hlive.moved h rfl (fun p hp => by cases hp) fun p hp => .inl hp
  | some itr =>
    have hget : s.getContext fd_ = some itr.2 := by
      unfold getContext
      rw [hfind]
      rfl
    rw [releaseContext_eq hfind, hget]
    constructor
    · rintro hafter p hp heq
      obtain rfl := Option.some.inj heq
      exact hafter.2 _ hp List.mem_cons_self
    · intro hne
      constructor
      · intro p hp
        cases hp
      · intro p hp hmem
        rcases List.mem_cons.mp hmem with rfl | hmem
        · exact hne _ hp rfl
        · exact hlive.2 p hp hmem

/-- `ReleaseAllContexts` leaves the pointers live if and only if `ReadThread` has none. -/
theorem releaseAll_live (h : s.Inv) (hlive : s.Live) (hmain : s.main = .releasing) :
    ({ s.releaseAllContexts with main := .joinRead } : Lifetimes).Live ↔
      s.KeepsLive .releaseAll := by
  constructor
  · intro hafter
    apply Option.eq_none_iff_forall_not_mem.mpr
    intro p hp
    have hmem := h.mem_clients (h.reader_lt p hp) (hlive.1 p hp)
    exact hafter.1 p hp (List.mem_append_left _ hmem)
  · intro hnone
    have hleft := (h.ending (.inl hmain)).1
    constructor
    · intro p hp
      have hp : p ∈ s.reader.pointer := hp
      rw [show s.reader.pointer = none from hnone] at hp
      cases hp
    · intro p hp
      have hp : p ∈ s.worker.pointer := hp
      rw [hleft] at hp
      cases hp

theorem step_live (h : s.Inv) (hlive : s.Live) (hs : step s a = some s') :
    s'.Live ↔ s.KeepsLive a := by
  have hkept : a.frees = false → s'.deleted = s.deleted →
      (∀ p ∈ s'.reader.pointer, p ∈ s.reader.pointer ∨ p ∈ s.Clients.map Prod.snd) →
      (∀ p ∈ s'.worker.pointer, p ∈ s.worker.pointer ∨ p ∈ s.Clients.map Prod.snd) →
      (s'.Live ↔ s.KeepsLive a) := by
    intro ha hdeleted hreader hworker
    exact iff_of_true (hlive.moved h hdeleted hreader hworker) (keepsLive_of_frees ha)
  cases stepped hs with
  | same a ha => exact hkept ha rfl (fun p hp => .inl hp) fun p hp => .inl hp
  | wait hreader hrun => exact hkept rfl rfl (fun p hp => by cases hp) fun p hp => .inl hp
  | leave hreader => exact hkept rfl rfl (fun p hp => by cases hp) fun p hp => .inl hp
  | wake events hreader hreports =>
    exact hkept rfl rfl (fun p hp => by cases hp) fun p hp => .inl hp
  | accept fd_ rest allocated hreader hfd =>
    rw [h.doAccept_eq allocated hreader hfd]
    exact iff_of_true (hlive.moved h rfl (fun p hp => by cases hp) fun p hp => .inl hp) trivial
  | read a r ha hbusy hr hfds hpointer => exact hkept ha rfl hpointer fun p hp => .inl hp
  | close pCC fd_ rest bRet created hreader =>
    exact hkept rfl rfl (fun p hp => by cases hp) fun p hp => .inl hp
  | receive pCC fd_ rest hreader =>
    exact hkept rfl rfl (fun p hp => .inl hp) fun p hp => .inl hp
  | lose pCC fd_ rest hreader =>
    exact hkept rfl rfl (fun p hp => .inl hp) fun p hp => .inl hp
  | release fd_ rest hreader => exact release_live h hlive hreader
  | take pJob queue hworker hqueue =>
    exact hkept rfl rfl (fun p hp => .inl hp) fun p hp => by cases hp
  | work a w ha hworker hw hhand hpointer => exact hkept ha rfl (fun p hp => .inl hp) hpointer
  | requeue pJob bRet hworker =>
    exact hkept rfl rfl (fun p hp => .inl hp) fun p hp => by cases hp
  | done pJob bRet hworker =>
    exact hkept rfl rfl (fun p hp => .inl hp) fun p hp => by cases hp
  | drain pJob queue hworker hqueue =>
    exact hkept rfl rfl (fun p hp => .inl hp) fun p hp => .inl hp
  | drained hworker hqueue =>
    exact hkept rfl rfl (fun p hp => .inl hp) fun p hp => by cases hp
  | endServer hmain => exact hkept rfl rfl (fun p hp => .inl hp) fun p hp => .inl hp
  | jobJoined hmain hworker => exact hkept rfl rfl (fun p hp => .inl hp) fun p hp => .inl hp
  | releaseAll hmain => exact releaseAll_live h hlive hmain
  | readJoined hmain hreader => exact hkept rfl rfl (fun p hp => .inl hp) fun p hp => .inl hp

/-- In every state of a run the threads have pointers to contexts that live, if and only if
`ReleaseContext` never deletes the context that the job thread sends to, and
`ReleaseAllContexts` none that `ReadThread` uses. -/
theorem pointers_live_iff {acts : List ThreadAct} (hr : run step init acts = some s) :
    Always step Live init acts ↔ Meets step KeepsLive init acts := by
  refine always_iff_meets (I := fun s => s.Inv ∧ s.Live) (fun s h => h.2) ?_ ?_
    ⟨inv_init, live_init⟩ hr
  · exact fun s a s' h hkeeps hs => ⟨step_inv h.1 hs, (step_live h.1 h.2 hs).mpr hkeeps⟩
  · exact fun s a s' h hnot hs hlive => hnot ((step_live h.1 h.2 hs).mp hlive)

/-- The job thread is left with a pointer to a deleted context. -/
theorem pointers_live_iff_leaves : ¬ Always step Live init leavesInSend := by
  have hrun : (run step init leavesInSend).isSome = true := by decide +kernel
  obtain ⟨s, hs⟩ := Option.isSome_iff_exists.mp hrun
  rw [pointers_live_iff hs]
  decide +kernel

/-! ## What is left when `End` has returned -/

/-- A context behind `ReleaseAllContexts`, a job behind the job thread, or one that `CreateJob` has
lost: nobody deletes it. -/
def Left (s : Lifetimes) : Prop :=
  (s.Released ∧ s.Clients ≠ []) ∨ (s.worker = .left ∧ s.m_JobQueue ≠ []) ∨ s.lostJobs ≠ []

/-- The entry that `Close` releases is none of those that came in late. -/
theorem release_late (h : s.Inv) (hreader : s.reader = .release fd_ rest)
    (hreleased : s.Released) : s.releaseContext fd_ = s := by
  apply releaseContext_none
  apply List.find?_eq_none.mpr
  intro itr hitr heq
  obtain rfl := of_decide_eq_true heq
  have hnot := (h.late hreleased itr hitr).2
  rw [hreader] at hnot
  exact hnot List.mem_cons_self

/-- What is left stays, and more is left if and only if it does not come in time. -/
theorem step_left (h : s.Inv) (hs : step s a = some s') (hleft : s.Left) : s'.Left := by
  cases stepped hs with
  | same a ha => exact hleft
  | wait hreader hrun => exact hleft
  | leave hreader => exact hleft
  | wake events hreader hreports => exact hleft
  | accept fd_ rest allocated hreader hfd =>
    rw [h.doAccept_eq allocated hreader hfd]
    refine hleft.imp (fun hleft => ⟨hleft.1, ?_⟩) id
    cases allocated with
    | true => exact List.cons_ne_nil _ _
    | false => exact hleft.2
  | read a r ha hbusy hr hfds hpointer => exact hleft
  | close pCC fd_ rest bRet created hreader => exact hleft
  | receive pCC fd_ rest hreader =>
    rcases hleft with hleft | ⟨hw, -⟩ | hlost
    · exact .inl hleft
    · exact .inr (.inl ⟨hw, List.append_ne_nil_of_right_ne_nil _ (List.cons_ne_nil _ _)⟩)
    · exact .inr (.inr hlost)
  | lose pCC fd_ rest hreader => exact .inr (.inr (List.cons_ne_nil _ _))
  | release fd_ rest hreader =>
    rcases hleft with ⟨hreleased, hne⟩ | hleft
    · rw [release_late h hreader hreleased]
      exact .inl ⟨hreleased, hne⟩
    · refine .inr ?_
      cases hfind : s.find fd_ with
      | none =>
        rw [releaseContext_none hfind]
        exact hleft
      | some itr =>
        rw [releaseContext_eq hfind]
        exact hleft
  | take pJob queue hworker hqueue =>
    rcases hleft with hleft | ⟨hw, -⟩ | hlost
    · exact .inl hleft
    · rw [hworker] at hw
      cases hw
    · exact .inr (.inr hlost)
  | work a w ha hworker hw hhand hpointer =>
    exact hleft.imp id fun hleft => hleft.imp (fun hleft => absurd hleft.1 hworker) id
  | requeue pJob bRet hworker =>
    rcases hleft with hleft | ⟨hw, -⟩ | hlost
    · exact .inl hleft
    · rw [hworker] at hw
      cases hw
    · exact .inr (.inr hlost)
  | done pJob bRet hworker =>
    rcases hleft with hleft | ⟨hw, -⟩ | hlost
    · exact .inl hleft
    · rw [hworker] at hw
      cases hw
    · exact .inr (.inr hlost)
  | drain pJob queue hworker hqueue =>
    rcases hleft with hleft | ⟨hw, -⟩ | hlost
    · exact .inl hleft
    · rw [hworker] at hw
      cases hw
    · exact .inr (.inr hlost)
  | drained hworker hqueue =>
    rcases hleft with hleft | ⟨hw, -⟩ | hlost
    · exact .inl hleft
    · rw [hworker] at hw
      cases hw
    · exact .inr (.inr hlost)
  | endServer hmain =>
    refine hleft.imp (fun hleft => ?_) id
    rcases hleft.1 with h | h
    · rw [hmain] at h
      cases h
    · rw [hmain] at h
      cases h
  | jobJoined hmain hworker =>
    refine hleft.imp (fun hleft => ?_) id
    rcases hleft.1 with h | h
    · rw [hmain] at h
      cases h
    · rw [hmain] at h
      cases h
  | releaseAll hmain =>
    refine hleft.imp (fun hleft => ?_) id
    rcases hleft.1 with h | h
    · rw [hmain] at h
      cases h
    · rw [hmain] at h
      cases h
  | readJoined hmain hreader => exact hleft.imp (fun hleft => ⟨.inr rfl, hleft.2⟩) id

/-- Something new is left if and only if it has not come in time. -/
theorem left_of_late (h : s.Inv) (hs : step s a = some s') (hlate : ¬ s.InTime a) : s'.Left := by
  cases a with
  | accept clientSock allocated =>
    obtain ⟨hreleased, hnot⟩ := Classical.not_imp.mp hlate
    obtain ⟨hsock, hallocated⟩ := not_or.mp hnot
    simp only [step] at hs
    split at hs
    · exact absurd rfl hsock
    · next rest fd_ hreader =>
      split at hs
      · cases hs
      · next hfd =>
        obtain rfl := Option.some.inj hs
        rw [h.doAccept_eq allocated hreader hfd]
        refine .inl ⟨hreleased, ?_⟩
        rw [Bool.not_eq_false] at hallocated
        rw [hallocated]
        exact List.cons_ne_nil _ _
    · cases hs
  | use bRet created =>
    simp only [InTime, Classical.not_imp] at hlate
    obtain ⟨hreceiving, rfl, hcreated⟩ := hlate
    simp only [step] at hs
    split at hs
    · next u pCC fd_ rest hreader =>
      obtain rfl := Option.some.inj hs
      rw [hreader] at hreceiving
      cases u with
      | turn =>
        cases created with
        | refused => exact absurd ⟨Created.noConfusion, fun _ => rfl⟩ hcreated
        | unparsed => exact .inr (.inr (List.cons_ne_nil _ _))
        | parsed =>
          have hw : s.worker = .left := by
            by_contra hne
            exact hcreated ⟨Created.noConfusion, fun hw => absurd hw hne⟩
          exact .inr (.inl ⟨hw, List.append_ne_nil_of_right_ne_nil _ (List.cons_ne_nil _ _)⟩)
      | close => cases hreceiving
      | resumeSend => cases hreceiving
      | disarm => cases hreceiving
      | store => cases hreceiving
    · cases hs
  | _ => exact absurd trivial hlate

theorem not_left_step (h : s.Inv) (hs : step s a = some s') (hnot : ¬ s.Left)
    (htime : s.InTime a) : ¬ s'.Left := by
  have hclients : s.Released → s.Clients = [] := by
    intro hreleased
    by_contra hne
    exact hnot (.inl ⟨hreleased, hne⟩)
  have hqueue : s.worker = .left → s.m_JobQueue = [] := by
    intro hw
    by_contra hne
    exact hnot (.inr (.inl ⟨hw, hne⟩))
  have hlost : ¬ s.lostJobs ≠ [] := fun hne => hnot (.inr (.inr hne))
  cases stepped hs with
  | same a ha => exact hnot
  | wait hreader hrun => exact hnot
  | leave hreader => exact hnot
  | wake events hreader hreports => exact hnot
  | accept fd_ rest allocated hreader hfd =>
    rw [h.doAccept_eq allocated hreader hfd]
    rintro (⟨hreleased, hne⟩ | hleft)
    · rcases htime hreleased with hsock | rfl
      · cases hsock
      · exact hne (hclients hreleased)
    · exact hnot (.inr hleft)
  | read a r ha hbusy hr hfds hpointer => exact hnot
  | close pCC fd_ rest bRet created hreader => exact hnot
  | receive pCC fd_ rest hreader =>
    rintro (hleft | ⟨hw, -⟩ | hne)
    · exact hnot (.inl hleft)
    · cases (htime (hreader ▸ rfl) rfl).2 hw
    · exact hlost hne
  | lose pCC fd_ rest hreader => exact absurd rfl (htime (hreader ▸ rfl) rfl).1
  | release fd_ rest hreader =>
    cases hfind : s.find fd_ with
    | none =>
      rw [releaseContext_none hfind]
      exact hnot
    | some itr =>
      rw [releaseContext_eq hfind]
      rintro (⟨hreleased, -⟩ | hleft)
      · have hitr := (find_some hfind).1
        rw [hclients hreleased] at hitr
        cases hitr
      · exact hnot (.inr hleft)
  | take pJob queue hworker hqueue =>
    rintro (hleft | ⟨hw, -⟩ | hne)
    · exact hnot (.inl hleft)
    · cases hw
    · exact hlost hne
  | work a w ha hworker hw hhand hpointer =>
    rintro (hleft | ⟨hleft, -⟩ | hne)
    · exact hnot (.inl hleft)
    · exact hw hleft
    · exact hlost hne
  | requeue pJob bRet hworker =>
    rintro (hleft | ⟨hw, -⟩ | hne)
    · exact hnot (.inl hleft)
    · cases hw
    · exact hlost hne
  | done pJob bRet hworker =>
    rintro (hleft | ⟨hw, -⟩ | hne)
    · exact hnot (.inl hleft)
    · cases hw
    · exact hlost hne
  | drain pJob queue hworker hqueue =>
    rintro (hleft | ⟨hw, -⟩ | hne)
    · exact hnot (.inl hleft)
    · have hw : s.worker = .left := hw
      rw [hworker] at hw
      cases hw
    · exact hlost hne
  | drained hworker hqueue =>
    rintro (hleft | ⟨-, hne⟩ | hne)
    · exact hnot (.inl hleft)
    · exact hne hqueue
    · exact hlost hne
  | endServer hmain =>
    rintro (⟨h | h, -⟩ | hleft)
    · cases h
    · cases h
    · exact hnot (.inr hleft)
  | jobJoined hmain hworker =>
    rintro (⟨h | h, -⟩ | hleft)
    · cases h
    · cases h
    · exact hnot (.inr hleft)
  | releaseAll hmain =>
    rintro (⟨-, hne⟩ | hleft)
    · exact hne rfl
    · exact hnot (.inr hleft)
  | readJoined hmain hreader =>
    rintro (⟨-, hne⟩ | hleft)
    · exact hne (hclients (.inl hmain))
    · exact hnot (.inr hleft)

/-- At the end everything has been deleted if and only if nothing is left. -/
theorem Inv.allDeleted_iff (h : s.Inv) (hmain : s.main = .ended) : s.AllDeleted ↔ ¬ s.Left := by
  have hw := (h.ending (.inr (.inr hmain))).1
  have hjobs := h.jobs
  unfold jobNumbers at hjobs
  rw [hw] at hjobs
  constructor
  · have hnodup := hjobs.nodup_iff.mpr List.nodup_range
    rintro ⟨hcontexts, hdone⟩ (⟨-, hne⟩ | ⟨-, hne⟩ | hne)
    · obtain ⟨itr, hitr⟩ := List.exists_mem_of_ne_nil _ hne
      obtain ⟨hlt, hnot⟩ := h.live (List.mem_map_of_mem hitr)
      exact hnot (hcontexts _ hlt)
    · obtain ⟨pJob, hmem⟩ := List.exists_mem_of_ne_nil _ hne
      have hmem : pJob.number ∈ s.m_JobQueue.map QueuedJob.number := List.mem_map_of_mem hmem
      have hlt := hjobs.subset (List.mem_append_left _ (List.mem_append_left _ hmem))
      exact (List.nodup_append.mp hnodup).2.2 _ (List.mem_append_left _ hmem) _
        (List.mem_append_left _ (hdone _ (List.mem_range.mp hlt))) rfl
    · obtain ⟨pJob, hmem⟩ := List.exists_mem_of_ne_nil _ hne
      have hlt := hjobs.subset (List.mem_append_right _ (List.mem_append_right _ hmem))
      have hover := (List.nodup_append.mp hnodup).2.1
      exact (List.nodup_append.mp hover).2.2 _ (hdone _ (List.mem_range.mp hlt)) _ hmem rfl
  · intro hnot
    have hclients : s.Clients = [] := by
      by_contra hne
      exact hnot (.inl ⟨.inr hmain, hne⟩)
    have hqueue : s.m_JobQueue = [] := by
      by_contra hne
      exact hnot (.inr (.inl ⟨hw, hne⟩))
    have hlost : s.lostJobs = [] := by
      by_contra hne
      exact hnot (.inr (.inr hne))
    have hcontexts := h.contexts
    rw [hclients] at hcontexts
    rw [hqueue, hlost, List.append_nil] at hjobs
    exact ⟨fun p hp => hcontexts.symm.subset (List.mem_range.mpr hp),
      fun n hn => hjobs.symm.subset (List.mem_range.mpr hn)⟩

/-- `epoll_wait` returns with a new client when `ReleaseAllContexts` is over. -/
def lateClient : List ThreadAct :=
  [.checkRead, .endServer, .take, .drain, .jobJoined, .releaseAll, .wake [.listen],
    .accept (some 7) true, .checkRead, .readJoined]

end Lifetimes
end EpollServer
