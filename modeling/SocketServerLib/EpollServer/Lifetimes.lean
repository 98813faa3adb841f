import SocketServerLib.EpollServer.JobThread
import Mathlib.Data.List.Range
import Mathlib.Data.List.Perm.Lattice

/-
  How long a `ClientContext` and a `Job` live: `ReadThread` makes and deletes contexts, the job
  thread sends through pointers it has from `GetContext`, and `GameServer::End` joins one thread,
  deletes what is left and joins the other.

  A step is a locked section or what a thread does with one pointer between two of them; the
  three threads take their steps in any order. A context is the number of the `new` that made
  it, and `deleted` lists every `delete`, so that one deleted twice is in it twice; jobs likewise,
  and `lostJobs` are those `CreateJob` makes and gives up because their `Parse` fails. What
  `epoll_wait`, `accept`, `read`, `send` and `CreateJob` answer is free.

  What is proved:
    1. `stepped` — what a step can do; `step_inv` — the invariant.
    2. `contexts_once` — in every run each context is in `Clients`, under a descriptor of its own,
       or has been deleted, once; each job that was made is in the queue, with the job thread,
       deleted, or lost in `CreateJob`, once.

  What is assumed:
    1. `opened` are the descriptors of clients that are open: the kernel gives none of them to an
       accept, and `epoll_wait` reports each once.
    2. The push of `JobThread` and the loop that empties the queue, which take no `m_JobLock`, are
       steps like those that take it; so is a turn of `DoRecv`, with `CreateJob` and the push.
-/
namespace EpollServer
open LabelledRun

/-- What `CreateJob` comes to: no job is made, one is made whose `Parse` fails, or one is
returned. -/
inductive Created where
  | refused
  | unparsed
  | parsed
  deriving DecidableEq

/-- What `epoll_wait` reports of a descriptor: a client to accept, or `EPOLLHUP` or `EPOLLERR`,
`EPOLLOUT`, `EPOLLIN`. -/
inductive Event where
  | listen
  | client (fd_ : Nat) (hup out in_ : Bool)
  deriving DecidableEq

/-- The descriptors of clients. -/
def Event.fds : Event → List Nat
  | .listen => []
  | .client fd_ _ _ _ => [fd_]

/-- What `ReadThread` is about to do with a context: `Close`, `ResumeSend`, the change of its
interest, `StorePartialMsg`, or a turn of the loop of `DoRecv`. -/
inductive Use where
  | close
  | resumeSend
  | disarm
  | store
  | turn
  deriving DecidableEq

/-- Where `ReadThread` stands, with the events that are still to be handled; `events []` is the
head of its loop. -/
inductive Reader where
  | events (rest : List Event)
  | waiting
  | has (use : Use) (pCC fd_ : Nat) (rest : List Event)
  | release (fd_ : Nat) (rest : List Event)
  | left
  deriving DecidableEq

/-- An element of `m_JobQueue`. -/
structure QueuedJob where
  number : Nat
  m_Socket : Nat
  deriving DecidableEq

/-- Where the job thread stands: the head of its loop, `Execute` before and behind `GetContext`,
before `EPOLL_CTL_MOD`, at the switch, in the loop that empties the queue. -/
inductive Worker where
  | loop
  | executing (pJob : QueuedJob)
  | sending (pJob : QueuedJob) (pCC : Nat)
  | arming (pJob : QueuedJob) (pCC : Nat)
  | answered (pJob : QueuedJob) (bRet : Bool)
  | draining
  | left
  deriving DecidableEq

/-- Where `GameServer::End` stands, with `EpollServer::End` as its last part. -/
inductive Main where
  | running
  | joinJob
  | releasing
  | joinRead
  | ended
  deriving DecidableEq

namespace Reader

/-- The context it has a pointer to. -/
def pointer : Reader → Option Nat
  | .has _ pCC _ _ => some pCC
  | _ => none

/-- The descriptors of clients it has still to do with; after `ResumeSend` the event goes on. -/
def fds : Reader → List Nat
  | .events rest => rest.flatMap Event.fds
  | .has .resumeSend _ _ rest => rest.flatMap Event.fds
  | .has .disarm _ _ rest => rest.flatMap Event.fds
  | .has _ _ fd_ rest => fd_ :: rest.flatMap Event.fds
  | .release fd_ rest => fd_ :: rest.flatMap Event.fds
  | _ => []

/-- The descriptor whose entry `Close` is about to release. -/
def closing : Reader → Option Nat
  | .release fd_ _ => some fd_
  | _ => none

/-- It is in the loop of `DoRecv`. -/
def receiving : Reader → Bool
  | .has .turn _ _ _ => true
  | _ => false

/-- It is at an event or has a context. -/
def Busy : Reader → Prop
  | .events _ => True
  | .has _ _ _ _ => True
  | _ => False

theorem Busy.ne_release {r : Reader} {fd_ : Nat} {rest : List Event} (h : r.Busy) :
    r ≠ .release fd_ rest := by
  rintro rfl
  exact h

theorem Busy.ne_waiting {r : Reader} (h : r.Busy) : r ≠ .waiting := by
  rintro rfl
  exact h

theorem Busy.ne_left {r : Reader} (h : r.Busy) : r ≠ .left := by
  rintro rfl
  exact h

end Reader

namespace Worker

def pointer : Worker → Option Nat
  | .sending _ pCC => some pCC
  | .arming _ pCC => some pCC
  | _ => none

/-- The job it has taken. -/
def hand : Worker → Option QueuedJob
  | .executing pJob => some pJob
  | .sending pJob _ => some pJob
  | .arming pJob _ => some pJob
  | .answered pJob _ => some pJob
  | _ => none

end Worker

/-- `GameServer` and `EpollServer` have an `m_IsRun` each. -/
structure Lifetimes where
  gameIsRun : Bool
  epollIsRun : Bool
  Clients : List (Nat × Nat)
  made : Nat
  deleted : List Nat
  opened : List Nat
  m_JobQueue : List QueuedJob
  madeJobs : Nat
  deletedJobs : List Nat
  lostJobs : List Nat
  reader : Reader
  worker : Worker
  main : Main
  deriving DecidableEq

/-- `accept`: the descriptor, if there is one, and whether `new` has the memory. `handle`: whether
`read` answers 0. `use`: what the call on the context answers, and `CreateJob`. -/
inductive ThreadAct where
  | checkRead
  | wake (events : List Event)
  | accept (clientSock : Option Nat) (allocated : Bool)
  | handle (closed : Bool)
  | use (bRet : Bool) (created : Created)
  | release
  | take
  | execute
  | send (eRet : SendStatus)
  | arm (bMod_ : Bool)
  | finish
  | drain
  | endServer
  | jobJoined
  | releaseAll
  | readJoined

/-- The steps that delete contexts. -/
def ThreadAct.frees : ThreadAct → Bool
  | .release => true
  | .releaseAll => true
  | _ => false

namespace Lifetimes

/-- Both threads are running. -/
def init : Lifetimes :=
  { gameIsRun := true, epollIsRun := true, Clients := [], made := 0, deleted := [], opened := []
    m_JobQueue := [], madeJobs := 0, deletedJobs := [], lostJobs := [], reader := .events []
    worker := .loop, main := .running }

/-- `Clients.find`. -/
def find (s : Lifetimes) (fd_ : Nat) : Option (Nat × Nat) := s.Clients.find? fun itr => itr.1 = fd_

def getContext (s : Lifetimes) (fd_ : Nat) : Option Nat := (s.find fd_).map Prod.snd

/-- `CreateContext`; the new context is lost where `emplace` finds the descriptor. -/
def createContext (s : Lifetimes) (fd_ : Nat) : Lifetimes :=
  match s.find fd_ with
  | some _ => { s with made := s.made + 1 }
  | none => { s with Clients := (fd_, s.made) :: s.Clients, made := s.made + 1 }

def releaseContext (s : Lifetimes) (fd_ : Nat) : Lifetimes :=
  match s.find fd_ with
  | none => s
  | some itr => { s with Clients := s.Clients.erase itr, deleted := itr.2 :: s.deleted }

def releaseAllContexts (s : Lifetimes) : Lifetimes :=
  { s with Clients := [], deleted := s.Clients.map Prod.snd ++ s.deleted }

/-- `DoAccept` behind `accept`. -/
def doAccept (s : Lifetimes) (clientSock : Nat) (allocated : Bool) : Lifetimes :=
  if allocated = true then createContext { s with opened := clientSock :: s.opened } clientSock
  else { s with opened := clientSock :: s.opened }

/-- `GetContext` of `ReadThread`; without a context it goes on. -/
def enter (s : Lifetimes) (use : Use) (fd_ : Nat) (rest : List Event) : Lifetimes :=
  match s.getContext fd_ with
  | none => { s with reader := .events rest }
  | some pCC => { s with reader := .has use pCC fd_ rest }

/-- The event of a client up to the next `GetContext`. -/
def handle (s : Lifetimes) (fd_ : Nat) (hup out in_ : Bool) (rest : List Event) (closed : Bool) :
    Lifetimes :=
  if hup = true then s.enter .close fd_ rest
  else if out = true then s.enter .resumeSend fd_ (.client fd_ false false in_ :: rest)
  else if in_ = true then s.enter (if closed = true then .close else .store) fd_ rest
  else { s with reader := .events rest }

/-- `OnReceive`. For a job whose `Parse` fails `CreateJob` returns `nullptr`, without a
`delete`. -/
def onReceive (s : Lifetimes) (fd_ : Nat) : Created → Lifetimes
  | .refused => s
  | .unparsed => { s with madeJobs := s.madeJobs + 1, lostJobs := s.madeJobs :: s.lostJobs }
  | .parsed =>
    { s with
      m_JobQueue := s.m_JobQueue ++ [{ number := s.madeJobs, m_Socket := fd_ }]
      madeJobs := s.madeJobs + 1 }

def use (s : Lifetimes) (u : Use) (pCC fd_ : Nat) (rest : List Event) (bRet : Bool)
    (created : Created) : Lifetimes :=
  match u with
  | .close => { s with opened := s.opened.erase fd_, reader := .release fd_ rest }
  | .resumeSend =>
    { s with reader := if bRet = true then .has .disarm pCC fd_ rest else .events rest }
  | .disarm => { s with reader := .events rest }
  | .store => { s with reader := if bRet = true then .has .turn pCC fd_ rest else .events rest }
  | .turn => if bRet = true then s.onReceive fd_ created else { s with reader := .events rest }

/-- The head of the loop of the job thread. -/
def take (s : Lifetimes) : Lifetimes :=
  if s.gameIsRun = true then
    match s.m_JobQueue with
    | [] => s
    | pJob :: queue => { s with m_JobQueue := queue, worker := .executing pJob }
  else { s with worker := .draining }

/-- `Execute` up to `GetContext`. -/
def execute (s : Lifetimes) (pJob : QueuedJob) : Lifetimes :=
  match s.getContext pJob.m_Socket with
  | none => { s with worker := .answered pJob false }
  | some pCC => { s with worker := .sending pJob pCC }

/-- `SendMsg` on the context has returned. -/
def sent (s : Lifetimes) (pJob : QueuedJob) (pCC : Nat) (eRet : SendStatus) : Lifetimes :=
  { s with
    worker := if eRet = .PARTIAL_SUCCESS then .arming pJob pCC
      else .answered pJob (sendMsg eRet false) }

/-- The switch of the job thread. -/
def finish (s : Lifetimes) (pJob : QueuedJob) (bRet : Bool) : Lifetimes :=
  if requeues (sendMsgFunc bRet) = true then
    { s with m_JobQueue := s.m_JobQueue ++ [pJob], worker := .loop }
  else { s with deletedJobs := pJob.number :: s.deletedJobs, worker := .loop }

/-- A turn of the loop that empties the queue. -/
def drain (s : Lifetimes) : Lifetimes :=
  match s.m_JobQueue with
  | [] => { s with worker := .left }
  | pJob :: queue =>
    { s with m_JobQueue := queue, deletedJobs := pJob.number :: s.deletedJobs }

def epollEventSize : Nat := 64

/-- `epoll_wait` reports each descriptor once, and only such that are open. -/
def Reports (s : Lifetimes) (events : List Event) : Prop :=
  (events.flatMap Event.fds).Nodup ∧ (∀ fd_ ∈ events.flatMap Event.fds, fd_ ∈ s.opened) ∧
    events.length ≤ epollEventSize

instance (s : Lifetimes) (events : List Event) : Decidable (s.Reports events) :=
  inferInstanceAs (Decidable (_ ∧ _ ∧ _))

def step (s : Lifetimes) : ThreadAct → Option Lifetimes
  | .checkRead =>
    match s.reader with
    | .events [] =>
      some { s with reader := if s.epollIsRun = true then .waiting else .left }
    | _ => none
  | .wake events =>
    match s.reader with
    | .waiting => if s.Reports events then some { s with reader := .events events } else none
    | _ => none
  | .accept clientSock allocated =>
    match s.reader, clientSock with
    | .events (.listen :: rest), none => some { s with reader := .events rest }
    | .events (.listen :: rest), some fd_ =>
      if fd_ ∈ s.opened then none
      else some { s.doAccept fd_ allocated with reader := .events rest }
    | _, _ => none
  | .handle closed =>
    match s.reader with
    | .events (.client fd_ hup out in_ :: rest) => some (s.handle fd_ hup out in_ rest closed)
    | _ => none
  | .use bRet created =>
    match s.reader with
    | .has u pCC fd_ rest => some (s.use u pCC fd_ rest bRet created)
    | _ => none
  | .release =>
    match s.reader with
    | .release fd_ rest => some { s.releaseContext fd_ with reader := .events rest }
    | _ => none
  | .take =>
    match s.worker with
    | .loop => some s.take
    | _ => none
  | .execute =>
    match s.worker with
    | .executing pJob => some (s.execute pJob)
    | _ => none
  | .send eRet =>
    match s.worker with
    | .sending pJob pCC => some (s.sent pJob pCC eRet)
    | _ => none
  | .arm bMod_ =>
    match s.worker with
    | .arming pJob _ =>
      some { s with worker := .answered pJob (sendMsg .PARTIAL_SUCCESS bMod_) }
    | _ => none
  | .finish =>
    match s.worker with
    | .answered pJob bRet => some (s.finish pJob bRet)
    | _ => none
  | .drain =>
    match s.worker with
    | .draining => some s.drain
    | _ => none
  | .endServer =>
    match s.main with
    | .running => some { s with gameIsRun := false, main := .joinJob }
    | _ => none
  | .jobJoined =>
    match s.main, s.worker with
    | .joinJob, .left => some { s with epollIsRun := false, main := .releasing }
    | _, _ => none
  | .releaseAll =>
    match s.main with
    | .releasing => some { s.releaseAllContexts with main := .joinRead }
    | _ => none
  | .readJoined =>
    match s.main, s.reader with
    | .joinRead, .left => some { s with main := .ended }
    | _, _ => none

/-! ## One step -/

/-- What a step can do. `read` and `work` are the steps of `ReadThread` and the job thread that
only move them on. -/
inductive Stepped (s : Lifetimes) : ThreadAct → Lifetimes → Prop
  | same (a : ThreadAct) (ha : a.frees = false) : Stepped s a s
  | wait (hreader : s.reader = .events []) (hrun : s.epollIsRun = true) :
    Stepped s .checkRead { s with reader := .waiting }
  | leave (hreader : s.reader = .events []) : Stepped s .checkRead { s with reader := .left }
  | wake (events : List Event) (hreader : s.reader = .waiting) (hreports : s.Reports events) :
    Stepped s (.wake events) { s with reader := .events events }
  | accept (fd_ : Nat) (rest : List Event) (allocated : Bool)
    (hreader : s.reader = .events (.listen :: rest)) (hfd : fd_ ∉ s.opened) :
    Stepped s (.accept (some fd_) allocated)
      { s.doAccept fd_ allocated with reader := .events rest }
  | read (a : ThreadAct) (r : Reader) (ha : a.frees = false) (hbusy : s.reader.Busy)
    (hr : r.Busy) (hfds : r.fds.Sublist s.reader.fds)
    (hpointer : ∀ p ∈ r.pointer, p ∈ s.reader.pointer ∨ p ∈ s.Clients.map Prod.snd) :
    Stepped s a { s with reader := r }
  | close (pCC fd_ : Nat) (rest : List Event) (bRet : Bool) (created : Created)
    (hreader : s.reader = .has .close pCC fd_ rest) :
    Stepped s (.use bRet created)
      { s with opened := s.opened.erase fd_, reader := .release fd_ rest }
  | receive (pCC fd_ : Nat) (rest : List Event) (hreader : s.reader = .has .turn pCC fd_ rest) :
    Stepped s (.use true .parsed)
      { s with
        m_JobQueue := s.m_JobQueue ++ [{ number := s.madeJobs, m_Socket := fd_ }]
        madeJobs := s.madeJobs + 1 }
  | lose (pCC fd_ : Nat) (rest : List Event) (hreader : s.reader = .has .turn pCC fd_ rest) :
    Stepped s (.use true .unparsed)
      { s with madeJobs := s.madeJobs + 1, lostJobs := s.madeJobs :: s.lostJobs }
  | release (fd_ : Nat) (rest : List Event) (hreader : s.reader = .release fd_ rest) :
    Stepped s .release { s.releaseContext fd_ with reader := .events rest }
  | take (pJob : QueuedJob) (queue : List QueuedJob) (hworker : s.worker = .loop)
    (hqueue : s.m_JobQueue = pJob :: queue) :
    Stepped s .take { s with m_JobQueue := queue, worker := .executing pJob }
  | work (a : ThreadAct) (w : Worker) (ha : a.frees = false) (hworker : s.worker ≠ .left)
    (hw : w ≠ .left) (hhand : w.hand = s.worker.hand)
    (hpointer : ∀ p ∈ w.pointer, p ∈ s.worker.pointer ∨ p ∈ s.Clients.map Prod.snd) :
    Stepped s a { s with worker := w }
  | requeue (pJob : QueuedJob) (bRet : Bool) (hworker : s.worker = .answered pJob bRet) :
    Stepped s .finish { s with m_JobQueue := s.m_JobQueue ++ [pJob], worker := .loop }
  | done (pJob : QueuedJob) (bRet : Bool) (hworker : s.worker = .answered pJob bRet) :
    Stepped s .finish { s with deletedJobs := pJob.number :: s.deletedJobs, worker := .loop }
  | drain (pJob : QueuedJob) (queue : List QueuedJob) (hworker : s.worker = .draining)
    (hqueue : s.m_JobQueue = pJob :: queue) :
    Stepped s .drain
      { s with m_JobQueue := queue, deletedJobs := pJob.number :: s.deletedJobs }
  | drained (hworker : s.worker = .draining) (hqueue : s.m_JobQueue = []) :
    Stepped s .drain { s with worker := .left }
  | endServer (hmain : s.main = .running) :
    Stepped s .endServer { s with gameIsRun := false, main := .joinJob }
  | jobJoined (hmain : s.main = .joinJob) (hworker : s.worker = .left) :
    Stepped s .jobJoined { s with epollIsRun := false, main := .releasing }
  | releaseAll (hmain : s.main = .releasing) :
    Stepped s .releaseAll { s.releaseAllContexts with main := .joinRead }
  | readJoined (hmain : s.main = .joinRead) (hreader : s.reader = .left) :
    Stepped s .readJoined { s with main := .ended }

variable {s s' : Lifetimes} {a : ThreadAct} {fd_ : Nat} {rest : List Event}

theorem find_some {itr : Nat × Nat} (h : s.find fd_ = some itr) :
    itr ∈ s.Clients ∧ itr.1 = fd_ := by
  unfold find at h
  constructor
  · exact List.mem_of_find?_eq_some h
  · have hkey := List.find?_some h
    exact of_decide_eq_true hkey

theorem find_none (h : s.find fd_ = none) : ∀ itr ∈ s.Clients, itr.1 ≠ fd_ := by
  intro itr hitr heq
  exact List.find?_eq_none.mp h itr hitr (decide_eq_true heq)

theorem getContext_mem {pCC : Nat} (h : s.getContext fd_ = some pCC) :
    pCC ∈ s.Clients.map Prod.snd := by
  obtain ⟨itr, hitr, rfl⟩ := Option.map_eq_some_iff.mp h
  exact List.mem_map_of_mem (find_some hitr).1

/-- A `GetContext` of `ReadThread`. -/
theorem enter_stepped (u : Use) (ha : a.frees = false) (hbusy : s.reader.Busy)
    (hrest : (rest.flatMap Event.fds).Sublist s.reader.fds)
    (hfds : ∀ pCC, (Reader.has u pCC fd_ rest).fds.Sublist s.reader.fds) :
    s.Stepped a (s.enter u fd_ rest) := by
  unfold enter
  split
  · apply Stepped.read a (.events rest) ha hbusy trivial hrest
    intro p hp
    cases hp
  · next pCC hget =>
    apply Stepped.read a (.has u pCC fd_ rest) ha hbusy trivial (hfds pCC)
    intro p hp
    obtain rfl := Option.some.inj hp
    exact .inr (getContext_mem hget)

theorem handle_stepped {hup out in_ closed : Bool} (ha : a.frees = false)
    (hreader : s.reader = .events (.client fd_ hup out in_ :: rest)) :
    s.Stepped a (s.handle fd_ hup out in_ rest closed) := by
  have hbusy : s.reader.Busy := by
    rw [hreader]
    trivial
  have hfds : s.reader.fds = fd_ :: rest.flatMap Event.fds := by
    rw [hreader]
    rfl
  have hrest : (rest.flatMap Event.fds).Sublist s.reader.fds := by
    rw [hfds]
    exact List.sublist_cons_self _ _
  unfold handle
  split
  · apply enter_stepped .close ha hbusy hrest
    exact fun pCC => hfds ▸ List.Sublist.refl _
  · split
    · apply enter_stepped .resumeSend ha hbusy
      · exact hfds ▸ List.Sublist.refl _
      · exact fun pCC => hfds ▸ List.Sublist.refl _
    · split
      · apply enter_stepped _ ha hbusy hrest
        intro pCC
        rw [hfds]
        split
        · exact List.Sublist.refl _
        · exact List.Sublist.refl _
      · apply Stepped.read a (.events rest) ha hbusy trivial hrest
        intro p hp
        cases hp

theorem use_stepped {u : Use} {pCC : Nat} {bRet : Bool} {created : Created}
    (hreader : s.reader = .has u pCC fd_ rest) :
    s.Stepped (.use bRet created) (s.use u pCC fd_ rest bRet created) := by
  have hbusy : s.reader.Busy := by
    rw [hreader]
    trivial
  have hnext : (rest.flatMap Event.fds).Sublist s.reader.fds →
      s.Stepped (.use bRet created) { s with reader := .events rest } := by
    intro hrest
    apply Stepped.read _ (.events rest) rfl hbusy trivial hrest
    intro p hp
    cases hp
  have hmore : ∀ u', (Reader.has u' pCC fd_ rest).fds.Sublist s.reader.fds →
      s.Stepped (.use bRet created) { s with reader := .has u' pCC fd_ rest } := by
    intro u' hfds
    apply Stepped.read _ (.has u' pCC fd_ rest) rfl hbusy trivial hfds
    intro p hp
    exact .inl (hreader ▸ hp)
  cases u with
  | close => exact .close pCC fd_ rest bRet created hreader
  | resumeSend =>
    simp only [use]
    split
    · exact hmore .disarm (hreader ▸ List.Sublist.refl _)
    · exact hnext (hreader ▸ List.Sublist.refl _)
  | disarm => exact hnext (hreader ▸ List.Sublist.refl _)
  | store =>
    simp only [use]
    split
    · exact hmore .turn (hreader ▸ List.Sublist.refl _)
    · exact hnext (hreader ▸ List.sublist_cons_self _ _)
  | turn =>
    simp only [use]
    split
    · next hret =>
      obtain rfl := hret
      cases created with
      | refused => exact .same _ rfl
      | unparsed => exact .lose pCC fd_ rest hreader
      | parsed => exact .receive pCC fd_ rest hreader
    · exact hnext (hreader ▸ List.sublist_cons_self _ _)

theorem execute_stepped {pJob : QueuedJob} (hworker : s.worker = .executing pJob) :
    s.Stepped .execute (s.execute pJob) := by
  have hleft : s.worker ≠ .left := by
    rw [hworker]
    exact Worker.noConfusion
  unfold execute
  split
  · apply Stepped.work _ (.answered pJob false) rfl hleft Worker.noConfusion
    · rw [hworker]
      rfl
    · intro p hp
      cases hp
  · next pCC hget =>
    apply Stepped.work _ (.sending pJob pCC) rfl hleft Worker.noConfusion
    · rw [hworker]
      rfl
    · intro p hp
      obtain rfl := Option.some.inj hp
      exact .inr (getContext_mem hget)

theorem sent_stepped {pJob : QueuedJob} {pCC : Nat} {eRet : SendStatus}
    (hworker : s.worker = .sending pJob pCC) :
    s.Stepped (.send eRet) (s.sent pJob pCC eRet) := by
  have hleft : s.worker ≠ .left := by
    rw [hworker]
    exact Worker.noConfusion
  unfold sent
  split
  · apply Stepped.work _ (.arming pJob pCC) rfl hleft Worker.noConfusion
    · rw [hworker]
      rfl
    · intro p hp
      exact .inl (hworker ▸ hp)
  · apply Stepped.work _ (.answered pJob _) rfl hleft Worker.noConfusion
    · rw [hworker]
      rfl
    · intro p hp
      cases hp

theorem stepped (hs : step s a = some s') : s.Stepped a s' := by
  cases a with
  | checkRead =>
    simp only [step] at hs
    split at hs
    · next hreader =>
      obtain rfl := Option.some.inj hs
      split
      · next hrun => exact .wait hreader hrun
      · exact .leave hreader
    · cases hs
  | wake events =>
    simp only [step] at hs
    split at hs
    · next hreader =>
      split at hs
      · next hreports =>
        obtain rfl := Option.some.inj hs
        exact .wake events hreader hreports
      · cases hs
    · cases hs
  | accept clientSock allocated =>
    simp only [step] at hs
    split at hs
    · next rest hreader =>
      obtain rfl := Option.some.inj hs
      have hbusy : s.reader.Busy := by
        rw [hreader]
        trivial
      apply Stepped.read _ (.events rest) rfl hbusy trivial (hreader ▸ List.Sublist.refl _)
      intro p hp
      cases hp
    · next rest fd_ hreader =>
      split at hs
      · cases hs
      · next hfd =>
        obtain rfl := Option.some.inj hs
        exact .accept fd_ rest allocated hreader hfd
    · cases hs
  | handle closed =>
    simp only [step] at hs
    split at hs
    · next hreader =>
      obtain rfl := Option.some.inj hs
      exact handle_stepped rfl hreader
    · cases hs
  | use bRet created =>
    simp only [step] at hs
    split at hs
    · next hreader =>
      obtain rfl := Option.some.inj hs
      exact use_stepped hreader
    · cases hs
  | release =>
    simp only [step] at hs
    split at hs
    · next fd_ rest hreader =>
      obtain rfl := Option.some.inj hs
      exact .release fd_ rest hreader
    · cases hs
  | take =>
    simp only [step] at hs
    split at hs
    · next hworker =>
      obtain rfl := Option.some.inj hs
      unfold take
      split
      · split
        · exact .same _ rfl
        · next pJob queue hqueue => exact .take pJob queue hworker hqueue
      · apply Stepped.work _ .draining rfl (hworker ▸ Worker.noConfusion) Worker.noConfusion
        · rw [hworker]
          rfl
        · intro p hp
          cases hp
    · cases hs
  | execute =>
    simp only [step] at hs
    split at hs
    · next hworker =>
      obtain rfl := Option.some.inj hs
      exact execute_stepped hworker
    · cases hs
  | send eRet =>
    simp only [step] at hs
    split at hs
    · next hworker =>
      obtain rfl := Option.some.inj hs
      exact sent_stepped hworker
    · cases hs
  | arm bMod_ =>
    simp only [step] at hs
    split at hs
    · next pJob pCC hworker =>
      obtain rfl := Option.some.inj hs
      apply Stepped.work _ (.answered pJob _) rfl (hworker ▸ Worker.noConfusion)
        Worker.noConfusion
      · rw [hworker]
        rfl
      · intro p hp
        cases hp
    · cases hs
  | finish =>
    simp only [step] at hs
    split at hs
    · next pJob bRet hworker =>
      obtain rfl := Option.some.inj hs
      unfold finish
      split
      · exact .requeue pJob bRet hworker
      · exact .done pJob bRet hworker
    · cases hs
  | drain =>
    simp only [step] at hs
    split at hs
    · next hworker =>
      obtain rfl := Option.some.inj hs
      unfold drain
      split
      · next hqueue => exact .drained hworker hqueue
      · next pJob queue hqueue => exact .drain pJob queue hworker hqueue
    · cases hs
  | endServer =>
    simp only [step] at hs
    split at hs
    · next hmain =>
      obtain rfl := Option.some.inj hs
      exact .endServer hmain
    · cases hs
  | jobJoined =>
    simp only [step] at hs
    split at hs
    · next hmain hworker =>
      obtain rfl := Option.some.inj hs
      exact .jobJoined hmain hworker
    · cases hs
  | releaseAll =>
    simp only [step] at hs
    split at hs
    · next hmain =>
      obtain rfl := Option.some.inj hs
      exact .releaseAll hmain
    · cases hs
  | readJoined =>
    simp only [step] at hs
    split at hs
    · next hmain hreader =>
      obtain rfl := Option.some.inj hs
      exact .readJoined hmain hreader
    · cases hs

/-! ## The invariant -/

/-- The jobs in the queue, the one the job thread has taken, those deleted and those lost in
`CreateJob`. -/
def jobNumbers (s : Lifetimes) : List Nat :=
  s.m_JobQueue.map QueuedJob.number ++ s.worker.hand.toList.map QueuedJob.number ++
    (s.deletedJobs ++ s.lostJobs)

/-- `EpollServer::End` has begun. -/
def Ending (s : Lifetimes) : Prop := s.main = .releasing ∨ s.main = .joinRead ∨ s.main = .ended

/-- `ReleaseAllContexts` is over. -/
def Released (s : Lifetimes) : Prop := s.main = .joinRead ∨ s.main = .ended

/-- Every context is in `Clients` or deleted, once, and every job with an owner, deleted or lost.
The descriptors in `Clients`, and those `ReadThread` has still to do with, are open but for the
one `Close` has just closed. A client that comes in behind `ReleaseAllContexts` is not among
them. -/
structure Inv (s : Lifetimes) : Prop where
  contexts : (s.Clients.map Prod.snd ++ s.deleted).Perm (List.range s.made)
  jobs : s.jobNumbers.Perm (List.range s.madeJobs)
  keys : (s.Clients.map Prod.fst).Nodup
  clients_opened : ∀ itr ∈ s.Clients, itr.1 ∈ s.opened ∨ ∃ rest, s.reader = .release itr.1 rest
  fds : s.reader.fds.Nodup
  fds_opened : ∀ fd_ ∈ s.reader.fds, fd_ ∈ s.opened ∨ ∃ rest, s.reader = .release fd_ rest
  reader_lt : ∀ pCC ∈ s.reader.pointer, pCC < s.made
  worker_lt : ∀ pCC ∈ s.worker.pointer, pCC < s.made
  ending : s.Ending → s.worker = .left ∧ s.epollIsRun = false
  late : s.Released → ∀ itr ∈ s.Clients, s.reader ≠ .waiting ∧ itr.1 ∉ s.reader.fds
  ended : s.main = .ended → s.reader = .left

theorem inv_init : init.Inv where
  contexts := List.Perm.refl _
  jobs := List.Perm.refl _
  keys := List.nodup_nil
  clients_opened _ h := by cases h
  fds := List.nodup_nil
  fds_opened _ h := by cases h
  reader_lt _ h := by cases h
  worker_lt _ h := by cases h
  ending h := by
    rcases h with h | h | h
    · cases h
    · cases h
    · cases h
  late _ _ h := by cases h
  ended h := by cases h

namespace Inv

theorem nodup (h : s.Inv) : (s.Clients.map Prod.snd ++ s.deleted).Nodup :=
  h.contexts.nodup_iff.mpr List.nodup_range

/-- What is in `Clients` has been made and not been deleted. -/
theorem live (h : s.Inv) {pCC : Nat} (hp : pCC ∈ s.Clients.map Prod.snd) :
    pCC < s.made ∧ pCC ∉ s.deleted := by
  constructor
  · exact List.mem_range.mp (h.contexts.subset (List.mem_append_left _ hp))
  · exact fun hdel => (List.nodup_append.mp h.nodup).2.2 pCC hp pCC hdel rfl

/-- What has been made and not been deleted is in `Clients`. -/
theorem mem_clients (h : s.Inv) {pCC : Nat} (hlt : pCC < s.made) (hp : pCC ∉ s.deleted) :
    pCC ∈ s.Clients.map Prod.snd :=
  (List.mem_append.mp (h.contexts.symm.subset (List.mem_range.mpr hlt))).resolve_right hp

/-- The descriptor of a new client is in no entry. -/
theorem doAccept_eq (h : s.Inv) (allocated : Bool)
    (hreader : s.reader = .events (.listen :: rest)) (hfd : fd_ ∉ s.opened) :
    s.doAccept fd_ allocated =
      { s with
        opened := fd_ :: s.opened
        Clients := if allocated = true then (fd_, s.made) :: s.Clients else s.Clients
        made := if allocated = true then s.made + 1 else s.made } := by
  have hnone : s.find fd_ = none := by
    apply List.find?_eq_none.mpr
    intro itr hitr heq
    obtain rfl := of_decide_eq_true heq
    rcases h.clients_opened itr hitr with hopen | ⟨t, hrelease⟩
    · exact hfd hopen
    · rw [hreader] at hrelease
      cases hrelease
  unfold doAccept
  split
  · have hnone : find { s with opened := fd_ :: s.opened } fd_ = none := hnone
    unfold createContext
    rw [hnone]
  · rfl

end Inv

theorem releaseContext_eq {itr : Nat × Nat} (h : s.find fd_ = some itr) :
    s.releaseContext fd_ =
      { s with Clients := s.Clients.erase itr, deleted := itr.2 :: s.deleted } := by
  unfold releaseContext
  rw [h]

theorem releaseContext_none (h : s.find fd_ = none) : s.releaseContext fd_ = s := by
  unfold releaseContext
  rw [h]

/-- `ReadThread` has moved on. -/
theorem Inv.read (h : s.Inv) {r : Reader} (hbusy : s.reader.Busy) (hr : r.Busy)
    (hfds : r.fds.Sublist s.reader.fds)
    (hpointer : ∀ p ∈ r.pointer, p ∈ s.reader.pointer ∨ p ∈ s.Clients.map Prod.snd) :
    ({ s with reader := r } : Lifetimes).Inv where
  contexts := h.contexts
  jobs := h.jobs
  keys := h.keys
  clients_opened itr hitr := by
    rcases h.clients_opened itr hitr with hopen | ⟨rest, hrelease⟩
    · exact .inl hopen
    · exact absurd hrelease hbusy.ne_release
  fds := h.fds.sublist hfds
  fds_opened fd_ hfd := by
    rcases h.fds_opened fd_ (hfds.subset hfd) with hopen | ⟨rest, hrelease⟩
    · exact .inl hopen
    · exact absurd hrelease hbusy.ne_release
  reader_lt p hp := by
    rcases hpointer p hp with hp | hp
    · exact h.reader_lt p hp
    · exact (h.live hp).1
  worker_lt := h.worker_lt
  ending := h.ending
  late hreleased itr hitr := by
    refine ⟨hr.ne_waiting, fun hfd => ?_⟩
    exact (h.late hreleased itr hitr).2 (hfds.subset hfd)
  ended hmain := absurd (h.ended hmain) hbusy.ne_left

/-- A client has been accepted. -/
theorem Inv.accept (h : s.Inv) (allocated : Bool)
    (hreader : s.reader = .events (.listen :: rest)) (hfd : fd_ ∉ s.opened) :
    ({ s.doAccept fd_ allocated with reader := .events rest } : Lifetimes).Inv := by
  have hnot : ∀ t, s.reader ≠ .release fd_ t := by
    intro t
    rw [hreader]
    exact Reader.noConfusion
  have hfds : s.reader.fds = rest.flatMap Event.fds := by
    rw [hreader]
    rfl
  have hnodup : (rest.flatMap Event.fds).Nodup := hfds ▸ h.fds
  have hopened : ∀ fd ∈ s.reader.fds, fd ∈ fd_ :: s.opened := by
    intro fd hmem
    rcases h.fds_opened fd hmem with hopen | ⟨t, hrelease⟩
    · exact List.mem_cons_of_mem _ hopen
    · rw [hreader] at hrelease
      cases hrelease
  have hclients : ∀ itr ∈ s.Clients, itr.1 ∈ fd_ :: s.opened := by
    intro itr hitr
    rcases h.clients_opened itr hitr with hopen | ⟨t, hrelease⟩
    · exact List.mem_cons_of_mem _ hopen
    · rw [hreader] at hrelease
      cases hrelease
  have hended : s.main ≠ .ended := by
    intro hmain
    have hleft := h.ended hmain
    rw [hreader] at hleft
    cases hleft
  rw [h.doAccept_eq allocated hreader hfd]
  cases allocated with
  | true =>
    -- a context has been made, and its descriptor is in no entry and no event
    constructor
    · show (s.made :: (s.Clients.map Prod.snd ++ s.deleted)).Perm (List.range (s.made + 1))
      rw [List.range_succ]
      exact (h.contexts.cons s.made).trans (List.perm_append_singleton _ _).symm
    · exact h.jobs
    · refine List.nodup_cons.mpr ⟨fun hmem => ?_, h.keys⟩
      obtain ⟨itr, hitr, rfl⟩ := List.mem_map.mp hmem
      rcases h.clients_opened itr hitr with hopen | ⟨t, hrelease⟩
      · exact hfd hopen
      · exact hnot t hrelease
    · intro itr hitr
      rcases List.mem_cons.mp hitr with rfl | hitr
      · exact .inl List.mem_cons_self
      · exact .inl (hclients itr hitr)
    · exact hnodup
    · exact fun fd hmem => .inl (hopened fd (hfds ▸ hmem))
    · intro p hp
      cases hp
    · exact fun p hp => Nat.lt_succ_of_lt (h.worker_lt p hp)
    · exact h.ending
    · intro hreleased itr hitr
      refine ⟨Reader.noConfusion, fun hmem => ?_⟩
      rcases List.mem_cons.mp hitr with rfl | hitr
      · rcases h.fds_opened fd_ (hfds ▸ hmem) with hopen | ⟨t, hrelease⟩
        · exact hfd hopen
        · exact hnot t hrelease
      · exact (h.late hreleased itr hitr).2 (hfds ▸ hmem)
    · exact fun hmain => absurd hmain hended
  | false =>
    constructor
    · exact h.contexts
    · exact h.jobs
    · exact h.keys
    · exact fun itr hitr => .inl (hclients itr hitr)
    · exact hnodup
    · exact fun fd hmem => .inl (hopened fd (hfds ▸ hmem))
    · intro p hp
      cases hp
    · exact h.worker_lt
    · exact h.ending
    · intro hreleased itr hitr
      exact ⟨Reader.noConfusion, fun hmem => (h.late hreleased itr hitr).2 (hfds ▸ hmem)⟩
    · exact fun hmain => absurd hmain hended

/-- `Close` has closed the descriptor; its entry is next. -/
theorem Inv.close {pCC : Nat} (h : s.Inv) (hreader : s.reader = .has .close pCC fd_ rest) :
    ({ s with opened := s.opened.erase fd_, reader := .release fd_ rest } : Lifetimes).Inv where
  contexts := h.contexts
  jobs := h.jobs
  keys := h.keys
  clients_opened itr hitr := by
    rcases h.clients_opened itr hitr with hopen | ⟨t, hrelease⟩
    · by_cases heq : itr.1 = fd_
      · exact .inr ⟨rest, heq ▸ rfl⟩
      · exact .inl ((List.mem_erase_of_ne heq).mpr hopen)
    · rw [hreader] at hrelease
      cases hrelease
  fds := by
    have hfds := h.fds
    rw [hreader] at hfds
    exact hfds
  fds_opened fd hmem := by
    have hmem' : fd ∈ s.reader.fds := by
      rw [hreader]
      exact hmem
    rcases h.fds_opened fd hmem' with hopen | ⟨t, hrelease⟩
    · by_cases heq : fd = fd_
      · exact .inr ⟨rest, heq ▸ rfl⟩
      · exact .inl ((List.mem_erase_of_ne heq).mpr hopen)
    · rw [hreader] at hrelease
      cases hrelease
  reader_lt p hp := by cases hp
  worker_lt := h.worker_lt
  ending := h.ending
  late hreleased itr hitr := by
    refine ⟨Reader.noConfusion, ?_⟩
    have hlate := (h.late hreleased itr hitr).2
    rw [hreader] at hlate
    exact hlate
  ended hmain := by
    have hleft := h.ended hmain
    rw [hreader] at hleft
    cases hleft

/-- `ReleaseContext` of `Close`. -/
theorem Inv.release (h : s.Inv) (hreader : s.reader = .release fd_ rest) :
    ({ s.releaseContext fd_ with reader := .events rest } : Lifetimes).Inv := by
  have hfds : s.reader.fds = fd_ :: rest.flatMap Event.fds := by
    rw [hreader]
    rfl
  have hnodup := h.fds
  rw [hfds] at hnodup
  obtain ⟨hnot, hrest⟩ := List.nodup_cons.mp hnodup
  have hopened : ∀ fd, fd ≠ fd_ → (fd ∈ s.opened ∨ ∃ t, s.reader = .release fd t) →
      fd ∈ s.opened := by
    rintro fd hne (hopen | ⟨t, hrelease⟩)
    · exact hopen
    · rw [hreader] at hrelease
      cases hrelease
      exact absurd rfl hne
  have hrestOpened : ∀ fd ∈ rest.flatMap Event.fds, fd ∈ s.opened := by
    intro fd hmem
    apply hopened fd
    · rintro rfl
      exact hnot hmem
    · exact h.fds_opened fd (hfds ▸ List.mem_cons_of_mem _ hmem)
  have hended : s.main ≠ .ended := by
    intro hmain
    have hleft := h.ended hmain
    rw [hreader] at hleft
    cases hleft
  cases hfind : s.find fd_ with
  | none =>
    rw [releaseContext_none hfind]
    constructor
    · exact h.contexts
    · exact h.jobs
    · exact h.keys
    · intro itr hitr
      exact .inl (hopened _ (find_none hfind itr hitr) (h.clients_opened itr hitr))
    · exact hrest
    · exact fun fd hmem => .inl (hrestOpened fd hmem)
    · intro p hp
      cases hp
    · exact h.worker_lt
    · exact h.ending
    · intro hreleased itr hitr
      refine ⟨Reader.noConfusion, fun hmem => ?_⟩
      exact (h.late hreleased itr hitr).2 (hfds ▸ List.mem_cons_of_mem _ hmem)
    · exact fun hmain => absurd hmain hended
  | some itr =>
    obtain ⟨hitr, rfl⟩ := find_some hfind
    rw [releaseContext_eq hfind]
    have hperm := List.perm_cons_erase hitr
    -- no other entry has the key
    have hother : ∀ other ∈ s.Clients.erase itr, other.1 ≠ itr.1 := by
      intro other hmem heq
      have hkeys := (hperm.map Prod.fst).nodup_iff.mp h.keys
      exact (List.nodup_cons.mp hkeys).1 (heq ▸ List.mem_map_of_mem hmem)
    constructor
    · have hmoved : (s.Clients.map Prod.snd ++ s.deleted).Perm
          ((s.Clients.erase itr).map Prod.snd ++ itr.2 :: s.deleted) :=
        ((hperm.map Prod.snd).append_right _).trans List.perm_middle.symm
      exact hmoved.symm.trans h.contexts
    · exact h.jobs
    · exact h.keys.sublist (List.erase_sublist.map Prod.fst)
    · intro other hmem
      exact .inl (hopened _ (hother other hmem)
        (h.clients_opened other (List.mem_of_mem_erase hmem)))
    · exact hrest
    · exact fun fd hmem => .inl (hrestOpened fd hmem)
    · intro p hp
      cases hp
    · exact h.worker_lt
    · exact h.ending
    · intro hreleased other hmem
      refine ⟨Reader.noConfusion, fun hfd => ?_⟩
      exact (h.late hreleased other (List.mem_of_mem_erase hmem)).2
        (hfds ▸ List.mem_cons_of_mem _ hfd)
    · exact fun hmain => absurd hmain hended

/-- The jobs have moved on, and nothing else but the pointer of the job thread. -/
theorem Inv.jobs_moved (h : s.Inv) {queue : List QueuedJob} {madeJobs : Nat}
    {deletedJobs lostJobs : List Nat} {w : Worker} (hleft : s.worker = .left → w = .left)
    (hpointer : ∀ p ∈ w.pointer, p ∈ s.worker.pointer ∨ p ∈ s.Clients.map Prod.snd)
    (hjobs : (queue.map QueuedJob.number ++ w.hand.toList.map QueuedJob.number ++
      (deletedJobs ++ lostJobs)).Perm (List.range madeJobs)) :
    ({ s with
        m_JobQueue := queue, madeJobs := madeJobs, deletedJobs := deletedJobs
        lostJobs := lostJobs, worker := w } : Lifetimes).Inv where
  contexts := h.contexts
  jobs := hjobs
  keys := h.keys
  clients_opened := h.clients_opened
  fds := h.fds
  fds_opened := h.fds_opened
  reader_lt := h.reader_lt
  worker_lt p hp := by
    rcases hpointer p hp with hp | hp
    · exact h.worker_lt p hp
    · exact (h.live hp).1
  ending hending := ⟨hleft (h.ending hending).1, (h.ending hending).2⟩
  late := h.late
  ended := h.ended

/-- `ReadThread` is in `epoll_wait`, or has left its loop. -/
theorem Inv.idle {r : Reader} (h : s.Inv) (hr : r = .waiting ∧ s.epollIsRun = true ∨ r = .left)
    (hreader : s.reader = .events []) : ({ s with reader := r } : Lifetimes).Inv := by
  have hfds : r.fds = [] := by
    rcases hr with ⟨rfl, -⟩ | rfl
    · rfl
    · rfl
  have hpointer : r.pointer = none := by
    rcases hr with ⟨rfl, -⟩ | rfl
    · rfl
    · rfl
  constructor
  · exact h.contexts
  · exact h.jobs
  · exact h.keys
  · intro itr hitr
    rcases h.clients_opened itr hitr with hopen | ⟨t, hrelease⟩
    · exact .inl hopen
    · rw [hreader] at hrelease
      cases hrelease
  · exact hfds ▸ List.nodup_nil
  · intro fd hmem
    rw [hfds] at hmem
    cases hmem
  · intro p hp
    rw [hpointer] at hp
    cases hp
  · exact h.worker_lt
  · exact h.ending
  · intro hreleased itr hitr
    refine ⟨?_, hfds ▸ List.not_mem_nil⟩
    rintro rfl
    -- `epoll_wait` is not entered any more
    rcases hr with ⟨-, hrun⟩ | hr
    · rw [(h.ending (.inr hreleased)).2] at hrun
      cases hrun
    · cases hr
  · intro hmain
    have hleft := h.ended hmain
    rw [hreader] at hleft
    cases hleft

theorem step_inv (h : s.Inv) (hs : step s a = some s') : s'.Inv := by
  cases stepped hs with
  | same a ha => exact h
  | wait hreader hrun => exact h.idle (.inl ⟨rfl, hrun⟩) hreader
  | leave hreader => exact h.idle (.inr rfl) hreader
  | wake events hreader hreports =>
    have hnot : ∀ t fd_, s.reader ≠ .release fd_ t := by
      intro t fd_
      rw [hreader]
      exact Reader.noConfusion
    constructor
    · exact h.contexts
    · exact h.jobs
    · exact h.keys
    · exact fun itr hitr => .inl ((h.clients_opened itr hitr).resolve_right
        fun ⟨t, hrelease⟩ => hnot t _ hrelease)
    · exact hreports.1
    · exact fun fd hmem => .inl (hreports.2.1 fd hmem)
    · intro p hp
      cases hp
    · exact h.worker_lt
    · exact h.ending
    · exact fun hreleased itr hitr => absurd hreader (h.late hreleased itr hitr).1
    · intro hmain
      have hleft := h.ended hmain
      rw [hreader] at hleft
      cases hleft
  | accept fd_ rest allocated hreader hfd => exact h.accept allocated hreader hfd
  | read a r ha hbusy hr hfds hpointer => exact h.read hbusy hr hfds hpointer
  | close pCC fd_ rest bRet created hreader => exact h.close hreader
  | receive pCC fd_ rest hreader =>
    apply h.jobs_moved id (fun p hp => .inl hp)
    rw [List.map_append, List.range_succ, List.append_assoc, List.append_assoc]
    refine List.Perm.trans ?_ (h.jobs.append_right [s.madeJobs])
    unfold jobNumbers
    rw [List.append_assoc, List.append_assoc]
    refine List.Perm.append_left _ ?_
    exact List.perm_append_comm.trans (List.Perm.of_eq (List.append_assoc _ _ _))
  | lose pCC fd_ rest hreader =>
    apply h.jobs_moved id (fun p hp => .inl hp)
    rw [List.range_succ]
    refine List.Perm.trans ?_ (h.jobs.append_right [s.madeJobs])
    unfold jobNumbers
    rw [List.append_assoc _ (s.deletedJobs ++ s.lostJobs)]
    refine List.Perm.append_left _ ?_
    exact List.perm_middle.trans (List.perm_append_singleton _ _).symm
  | release fd_ rest hreader => exact h.release hreader
  | take pJob queue hworker hqueue =>
    apply h.jobs_moved
    · rw [hworker]
      exact Worker.noConfusion
    · intro p hp
      cases hp
    · refine List.Perm.trans ?_ h.jobs
      unfold jobNumbers
      rw [hqueue, hworker, List.append_assoc, List.append_assoc]
      exact List.perm_middle
  | work a w ha hworker hw hhand hpointer =>
    apply h.jobs_moved (fun hleft => absurd hleft hworker) hpointer
    rw [hhand]
    exact h.jobs
  | requeue pJob bRet hworker =>
    apply h.jobs_moved
    · rw [hworker]
      exact Worker.noConfusion
    · intro p hp
      cases hp
    · refine List.Perm.trans ?_ h.jobs
      unfold jobNumbers
      rw [hworker, List.map_append, List.append_assoc, List.append_assoc, List.append_assoc]
      exact List.Perm.refl _
  | done pJob bRet hworker =>
    apply h.jobs_moved
    · rw [hworker]
      exact Worker.noConfusion
    · intro p hp
      cases hp
    · refine List.Perm.trans ?_ h.jobs
      unfold jobNumbers
      rw [hworker, List.append_assoc, List.append_assoc]
      exact List.Perm.refl _
  | drain pJob queue hworker hqueue =>
    apply h.jobs_moved (id) (fun p hp => .inl hp)
    refine List.Perm.trans ?_ h.jobs
    unfold jobNumbers
    rw [hqueue, List.map_cons]
    exact List.perm_middle
  | drained hworker hqueue =>
    apply h.jobs_moved (fun _ => rfl)
    · intro p hp
      cases hp
    · refine List.Perm.trans ?_ h.jobs
      unfold jobNumbers
      rw [hworker]
      exact List.Perm.refl _
  | endServer hmain =>
    constructor
    · exact h.contexts
    · exact h.jobs
    · exact h.keys
    · exact h.clients_opened
    · exact h.fds
    · exact h.fds_opened
    · exact h.reader_lt
    · exact h.worker_lt
    · rintro (h | h | h)
      · cases h
      · cases h
      · cases h
    · rintro (h | h)
      · cases h
      · cases h
    · intro h
      cases h
  | jobJoined hmain hworker =>
    constructor
    · exact h.contexts
    · exact h.jobs
    · exact h.keys
    · exact h.clients_opened
    · exact h.fds
    · exact h.fds_opened
    · exact h.reader_lt
    · exact h.worker_lt
    · exact fun _ => ⟨hworker, rfl⟩
    · rintro (h | h)
      · cases h
      · cases h
    · intro h
      cases h
  | releaseAll hmain =>
    constructor
    · exact h.contexts
    · exact h.jobs
    · exact List.nodup_nil
    · intro itr hitr
      cases hitr
    · exact h.fds
    · exact h.fds_opened
    · exact h.reader_lt
    · exact h.worker_lt
    · exact fun _ => h.ending (.inl hmain)
    · intro _ itr hitr
      cases hitr
    · intro h
      cases h
  | readJoined hmain hreader =>
    constructor
    · exact h.contexts
    · exact h.jobs
    · exact h.keys
    · exact h.clients_opened
    · exact h.fds
    · exact h.fds_opened
    · exact h.reader_lt
    · exact h.worker_lt
    · exact fun _ => h.ending (.inr (.inl hmain))
    · exact fun _ => h.late (.inl hmain)
    · exact fun _ => hreader

theorem run_inv {acts : List ThreadAct} (hr : run step init acts = some s) : s.Inv :=
  run_stable (fun _ _ _ h hs => step_inv h hs) inv_init hr

/-- A client sends a frame that `Parse` refuses and a request, and leaves while the job thread
sends him the response. -/
def leavesInSend : List ThreadAct :=
  [.checkRead, .wake [.listen], .accept (some 7) true, .checkRead,
    .wake [.client 7 false false true], .handle false, .use true .refused, .use true .unparsed,
    .use true .parsed, .use false .refused, .take, .execute, .checkRead,
    .wake [.client 7 true false false], .handle false, .use false .refused, .release]

end Lifetimes
end EpollServer
