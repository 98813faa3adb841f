import SocketServerLib.LinuxServer.Descriptor
import SocketServerLib.Lib.RetryQueue

/-
  All clients of the blocking Linux server: `AcceptThread` accepts, each `ClientThread` queues the
  jobs of its client and closes the descriptor when he leaves, and the one job thread writes the
  response of a job in as many calls of `write()` as it takes.

  `Descriptor` has what a job is made of and the descriptor it sends to, `JobThread` the bytes that
  are written for a job. Here a descriptor that has been closed may be given to the next client, in
  the middle of a packet too. Every accept has a number of its own, and `wire` is what has been
  written to it; `origin` is the number of the client whose request it is. Both are ghosts. The
  queue of jobs is the one of `Lib.RetryQueue`: `SendMsg` that fails puts its job back.

  What is proved:
    1. `step_inv` — what the steps keep.
    2. `clients_answered` — each client gets a prefix of the responses to his own requests, in order
       and each once, and all of them when none of his jobs is pending, if no descriptor is
       accepted again while a job for it is pending, and a write to a client who is still there
       fails at most at the start of a packet that no other of his jobs is behind.

  What is assumed:
    1. A push to `m_JobQueue` and a pop are one step each, though no lock keeps the threads of the
       clients and the job thread apart.
    2. The type of every request is an entry of `createFuncs`; `CreateJob` indexes the vector with
       it unchecked, and a request of another type is no step here.
    3. `GameServer::Start` has run, and the kernel gives out no descriptor that is open.
-/
namespace LinuxServer
open RacingGameServer (Bytes)
open LabelledRun RetryQueue RetryQueue.Queue

/-- A job in the queue. -/
structure ClientJob where
  request : Request
  origin : Nat

namespace ClientJob

/-- What `SendMsg` is called with. -/
def nClientIndex (q : ClientJob) : Int := q.request.job.sendCall.nClientIndex

def packet (q : ClientJob) : Bytes := q.request.job.packet

end ClientJob

/-- `opened` has the number of the accept that has given out the descriptor; `totalSent` is the
one of the `SendMsg` that runs. -/
structure Connections where
  opened : Int → Option Nat
  accepted : Nat
  jobs : Queue ClientJob
  totalSent : Nat
  wire : Nat → Bytes

/-- `receive` is `OnReceive` of the thread that has the descriptor. -/
inductive ConnectionAct where
  | accept (clnt_sock : Int)
  | receive (nClientIndex_ : Int) (sv_ : Bytes) (allocated : Bool)
  | close (nClientIndex_ : Int)
  | take
  | write (nRet : Option Nat)
  | finish

namespace Connections

def init : Connections :=
  { opened := fun _ => none, accepted := 0, jobs := Queue.init, totalSent := 0
    wire := fun _ => [] }

/-- The queue moves on. -/
def moved (s : Connections) (a : Act ClientJob) : Option Connections :=
  (s.jobs.step a).map fun jobs => { s with jobs := jobs }

/-- `write()` takes bytes of the packet, for the client who has the descriptor. -/
def taken (s : Connections) (q : ClientJob) (m nRet : Nat) : Connections :=
  { s with
    totalSent := s.totalSent + nRet
    wire := Function.update s.wire m (s.wire m ++ (q.packet.drop s.totalSent).take nRet) }

def step (s : Connections) : ConnectionAct → Option Connections
  | .accept clnt_sock =>
    if Server.Accepted clnt_sock ∧ s.opened clnt_sock = none then
      some
        { s with
          opened := Function.update s.opened clnt_sock (some s.accepted)
          accepted := s.accepted + 1 }
    else none
  | .receive nClientIndex_ sv_ allocated =>
    match s.opened nClientIndex_, createJob (toUInt16 nClientIndex_) sv_ allocated with
    | some _, some none => some s
    | some m, some (some job) =>
      s.moved (.arrive { request := ⟨nClientIndex_, sv_, job⟩, origin := m })
    | _, _ => none
  | .close nClientIndex_ =>
    (s.opened nClientIndex_).map fun _ =>
      { s with opened := Function.update s.opened nClientIndex_ none }
  | .take => (s.moved .take).map fun s => { s with totalSent := 0 }
  | .write nRet =>
    match s.jobs.running with
    | none => none
    | some q =>
      if s.totalSent < q.packet.length then
        match nRet, s.opened q.nClientIndex with
        | none, _ => s.moved .putBack
        | some n, some m =>
          if 1 ≤ n ∧ n ≤ q.packet.length - s.totalSent then some (s.taken q m n) else none
        | some _, none => none
      else none
  | .finish =>
    match s.jobs.running with
    | none => none
    | some q => if s.totalSent < q.packet.length then none else s.moved .finish

/-- The responses to the requests that have come from a client. -/
def replies (s : Connections) (m : Nat) : Bytes :=
  (withKey ClientJob.origin m s.jobs.received).flatMap ClientJob.packet

/-- The descriptor that is accepted fits `uint16_t`, and no job for it is pending. A write to a
client who is still there fails at the start of a packet only, and with no other of his jobs in
the queue. -/
def Keeps (s : Connections) : ConnectionAct → Prop
  | .accept clnt_sock =>
    clnt_sock < 2 ^ 16 ∧ ∀ q ∈ s.jobs.pending, q.request.nClientIndex ≠ clnt_sock
  | .write none =>
    ∀ q ∈ s.jobs.running, s.opened q.request.nClientIndex = some q.origin →
      s.totalSent = 0 ∧ ∀ y ∈ s.jobs.queue, y.origin ≠ q.origin
  | _ => True

instance (s : Connections) : DecidablePred s.Keeps
  | .accept _ => inferInstanceAs (Decidable (_ ∧ ∀ q ∈ s.jobs.pending, _))
  | .write none =>
    inferInstanceAs (Decidable (∀ q ∈ s.jobs.running,
      s.opened q.request.nClientIndex = some q.origin →
        s.totalSent = 0 ∧ ∀ y ∈ s.jobs.queue, y.origin ≠ q.origin))
  | .write (some _) => .isTrue trivial
  | .receive _ _ _ => .isTrue trivial
  | .close _ => .isTrue trivial
  | .take => .isTrue trivial
  | .finish => .isTrue trivial

/-! ## One step -/

/-- What a step can do. -/
inductive Stepped (s : Connections) : ConnectionAct → Connections → Prop
  | accept (clnt_sock : Int) (hfd : Server.Accepted clnt_sock)
    (hnone : s.opened clnt_sock = none) :
    Stepped s (.accept clnt_sock)
      { s with
        opened := Function.update s.opened clnt_sock (some s.accepted)
        accepted := s.accepted + 1 }
  | refused (nClientIndex_ : Int) (sv_ : Bytes) (allocated : Bool) :
    Stepped s (.receive nClientIndex_ sv_ allocated) s
  | receive (nClientIndex_ : Int) (sv_ : Bytes) (allocated : Bool) (job : EchoJob) (m : Nat)
    (jobs : Queue ClientJob) (hopened : s.opened nClientIndex_ = some m)
    (hjob : createJob (toUInt16 nClientIndex_) sv_ allocated = some (some job))
    (hjobs : s.jobs.step (.arrive ⟨⟨nClientIndex_, sv_, job⟩, m⟩) = some jobs) :
    Stepped s (.receive nClientIndex_ sv_ allocated) { s with jobs := jobs }
  | close (nClientIndex_ : Int) :
    Stepped s (.close nClientIndex_)
      { s with opened := Function.update s.opened nClientIndex_ none }
  | take (jobs : Queue ClientJob) (hjobs : s.jobs.step .take = some jobs) :
    Stepped s .take { s with jobs := jobs, totalSent := 0 }
  | failed (q : ClientJob) (jobs : Queue ClientJob) (hrun : s.jobs.running = some q)
    (hjobs : s.jobs.step .putBack = some jobs) : Stepped s (.write none) { s with jobs := jobs }
  | written (q : ClientJob) (m n : Nat) (hrun : s.jobs.running = some q)
    (hopened : s.opened q.nClientIndex = some m)
    (hn : n ≤ q.packet.length - s.totalSent) : Stepped s (.write (some n)) (s.taken q m n)
  | finish (q : ClientJob) (jobs : Queue ClientJob) (hrun : s.jobs.running = some q)
    (hend : q.packet.length ≤ s.totalSent) (hjobs : s.jobs.step .finish = some jobs) :
    Stepped s .finish { s with jobs := jobs }

variable {s s' : Connections} {a : ConnectionAct}

theorem stepped (hs : step s a = some s') : s.Stepped a s' := by
  cases a with
  | accept clnt_sock =>
    simp only [step] at hs
    split at hs
    · next hfd =>
      obtain rfl := Option.some.inj hs
      exact .accept clnt_sock hfd.1 hfd.2
    · cases hs
  | receive nClientIndex_ sv_ allocated =>
    simp only [step] at hs
    split at hs
    · obtain rfl := Option.some.inj hs
      exact .refused nClientIndex_ sv_ allocated
    · next m job hopened hjob =>
      obtain ⟨jobs, hjobs, rfl⟩ := Option.map_eq_some_iff.mp hs
      exact .receive nClientIndex_ sv_ allocated job m jobs hopened hjob hjobs
    · cases hs
  | close nClientIndex_ =>
    obtain ⟨m, -, rfl⟩ := Option.map_eq_some_iff.mp hs
    exact .close nClientIndex_
  | take =>
    obtain ⟨t, ht, rfl⟩ := Option.map_eq_some_iff.mp hs
    obtain ⟨jobs, hjobs, rfl⟩ := Option.map_eq_some_iff.mp ht
    exact .take jobs hjobs
  | write nRet =>
    simp only [step] at hs
    split at hs
    · cases hs
    · next q hrun =>
      split at hs
      · split at hs
        · obtain ⟨jobs, hjobs, rfl⟩ := Option.map_eq_some_iff.mp hs
          exact .failed q jobs hrun hjobs
        · next n m hopened =>
          split at hs
          · next hn =>
            obtain rfl := Option.some.inj hs
            exact .written q m n hrun hopened hn.2
          · cases hs
        · cases hs
      · cases hs
  | finish =>
    simp only [step] at hs
    split at hs
    · cases hs
    · next q hrun =>
      split at hs
      · cases hs
      · next hend =>
        obtain ⟨jobs, hjobs, rfl⟩ := Option.map_eq_some_iff.mp hs
        exact .finish q jobs hrun (Nat.le_of_not_lt hend) hjobs

/-! ## What the steps keep -/

/-- What has been written of the response in hand, if it is for the client. -/
def unfinished (s : Connections) (m : Nat) : Bytes :=
  match s.jobs.running with
  | some q => if q.origin = m then q.packet.take s.totalSent else []
  | none => []

/-- A descriptor that is open is the one of the pending jobs that have it, and what its client has
got is the responses that are finished and the beginning of the one in hand. -/
structure Inv (s : Connections) : Prop where
  small : ∀ fd m, s.opened fd = some m → (Server.Accepted fd ∧ fd < 2 ^ 16) ∧ m < s.accepted
  distinct : ∀ fd fd' m, s.opened fd = some m → s.opened fd' = some m → fd = fd'
  made : ∀ q ∈ s.jobs.pending, q.request.Made ∧ q.request.nClientIndex < 2 ^ 16
  own : ∀ q ∈ s.jobs.pending, ∀ m, s.opened q.request.nClientIndex = some m → m = q.origin
  home : ∀ q ∈ s.jobs.pending, ∀ fd, s.opened fd = some q.origin → fd = q.request.nClientIndex
  kept : s.jobs.Kept
  known : ∀ q ∈ s.jobs.received, q.origin < s.accepted
  sent_le : ∀ q ∈ s.jobs.running, s.totalSent ≤ q.packet.length
  ordered : ∀ fd m, s.opened fd = some m → Ordered ClientJob.origin m s.jobs
  wire : ∀ fd m, s.opened fd = some m → s.wire m =
    (withKey ClientJob.origin m s.jobs.finished).flatMap ClientJob.packet ++ s.unfinished m
  replied : ∀ m, s.wire m <+: s.replies m

theorem inv_init : init.Inv where
  small _ _ h := by cases h
  distinct _ _ _ h := by cases h
  made _ h := by cases h
  own _ h := by cases h
  home _ h := by cases h
  kept := kept_init
  known _ h := by cases h
  sent_le _ h := by cases h
  ordered _ _ h := by cases h
  wire _ _ h := by cases h
  replied _ := List.nil_prefix

theorem mem_pending_of_running {q : ClientJob} (h : s.jobs.running = some q) :
    q ∈ s.jobs.pending := by
  unfold pending
  rw [h]
  exact List.mem_cons_self

theorem unfinished_of_running {q : ClientJob} (h : s.jobs.running = some q) (m : Nat) :
    s.unfinished m = if q.origin = m then q.packet.take s.totalSent else [] := by
  unfold unfinished
  rw [h]

theorem unfinished_of_idle (h : s.jobs.running = none) (m : Nat) : s.unfinished m = [] := by
  unfold unfinished
  rw [h]

/-- The response in hand is the next one of its client. -/
theorem replied_of_ordered {m : Nat} (hordered : Ordered ClientJob.origin m s.jobs)
    (hwire : s.wire m =
      (withKey ClientJob.origin m s.jobs.finished).flatMap ClientJob.packet ++ s.unfinished m) :
    s.wire m <+: s.replies m := by
  unfold Ordered at hordered
  rw [hwire, replies, ← hordered, withKey_append, List.flatMap_append]
  apply (List.prefix_append_right_inj _).mpr
  cases hrun : s.jobs.running with
  | none =>
    rw [unfinished_of_idle hrun]
    exact List.nil_prefix
  | some q =>
    rw [unfinished_of_running hrun]
    split
    · next hm =>
      have hpending : withKey ClientJob.origin m s.jobs.pending =
          q :: withKey ClientJob.origin m s.jobs.queue := by
        unfold pending withKey
        rw [hrun]
        exact List.filter_cons_of_pos (decide_eq_true hm)
      rw [hpending, List.flatMap_cons]
      exact (List.take_prefix _ _).trans (List.prefix_append _ _)
    · exact List.nil_prefix

namespace Inv

theorem pending_lt (h : s.Inv) {q : ClientJob} (hq : q ∈ s.jobs.pending) :
    q.origin < s.accepted := by
  apply h.known
  exact h.kept.subset (List.mem_append_right _ hq)

/-- A job sends to the descriptor of its request. -/
theorem nClientIndex_eq (h : s.Inv) {q : ClientJob} (hq : q ∈ s.jobs.pending) :
    q.nClientIndex = q.request.nClientIndex :=
  (sendCall_iff (h.made q hq).1).mpr (h.made q hq).2

/-- A number that has not been given out. -/
theorem fresh (h : s.Inv) : withKey ClientJob.origin s.accepted s.jobs.received = [] ∧
    withKey ClientJob.origin s.accepted (s.jobs.finished ++ s.jobs.pending) = [] ∧
      s.wire s.accepted = [] ∧ s.unfinished s.accepted = [] := by
  have hreceived : withKey ClientJob.origin s.accepted s.jobs.received = [] :=
    withKey_eq_nil fun q hq => Nat.ne_of_lt (h.known q hq)
  refine ⟨hreceived, ?_, ?_, ?_⟩
  · exact withKey_eq_nil fun q hq => Nat.ne_of_lt (h.known q (h.kept.subset hq))
  · have hreplied := h.replied s.accepted
    rw [replies, hreceived] at hreplied
    exact List.prefix_nil.mp hreplied
  · cases hrun : s.jobs.running with
    | none => exact unfinished_of_idle hrun _
    | some q =>
      rw [unfinished_of_running hrun, if_neg]
      exact Nat.ne_of_lt (h.pending_lt (mem_pending_of_running hrun))

/-- `AcceptThread` has a new client. -/
theorem accept {clnt_sock : Int} (h : s.Inv) (hfd : Server.Accepted clnt_sock)
    (hsmall : clnt_sock < 2 ^ 16)
    (hfree : ∀ q ∈ s.jobs.pending, q.request.nClientIndex ≠ clnt_sock) :
    ({ s with
        opened := Function.update s.opened clnt_sock (some s.accepted)
        accepted := s.accepted + 1 } : Connections).Inv := by
  obtain ⟨hreceived, hall, hwire, hunfinished⟩ := h.fresh
  -- a descriptor is the new one, or was open before
  have hcases : ∀ fd m, Function.update s.opened clnt_sock (some s.accepted) fd = some m →
      (fd = clnt_sock ∧ m = s.accepted) ∨ (fd ≠ clnt_sock ∧ s.opened fd = some m) := by
    intro fd m hm
    by_cases heq : fd = clnt_sock
    · subst heq
      rw [Function.update_self] at hm
      exact .inl ⟨rfl, (Option.some.inj hm).symm⟩
    · rw [Function.update_of_ne heq] at hm
      exact .inr ⟨heq, hm⟩
  constructor
  · intro fd m hm
    rcases hcases fd m hm with ⟨rfl, rfl⟩ | ⟨-, hm⟩
    · exact ⟨⟨hfd, hsmall⟩, Nat.lt_succ_self _⟩
    · exact ⟨(h.small fd m hm).1, Nat.lt_succ_of_lt (h.small fd m hm).2⟩
  · intro fd fd' m hm hm'
    rcases hcases fd m hm with ⟨rfl, rfl⟩ | ⟨-, hm⟩
    · rcases hcases fd' _ hm' with ⟨rfl, -⟩ | ⟨-, hm'⟩
      · rfl
      · exact absurd (h.small fd' _ hm').2 (Nat.lt_irrefl _)
    · rcases hcases fd' _ hm' with ⟨-, rfl⟩ | ⟨-, hm'⟩
      · exact absurd (h.small fd _ hm).2 (Nat.lt_irrefl _)
      · exact h.distinct fd fd' m hm hm'
  · exact h.made
  · intro q hq m hm
    rcases hcases _ m hm with ⟨heq, -⟩ | ⟨-, hm⟩
    · exact absurd heq (hfree q hq)
    · exact h.own q hq m hm
  · intro q hq fd hm
    rcases hcases fd _ hm with ⟨-, heq⟩ | ⟨-, hm⟩
    · exact absurd heq (Nat.ne_of_lt (h.pending_lt hq))
    · exact h.home q hq fd hm
  · exact h.kept
  · exact fun q hq => Nat.lt_succ_of_lt (h.known q hq)
  · exact h.sent_le
  · intro fd m hm
    rcases hcases fd m hm with ⟨-, rfl⟩ | ⟨-, hm⟩
    · exact hall.trans hreceived.symm
    · exact h.ordered fd m hm
  · intro fd m hm
    rcases hcases fd m hm with ⟨-, rfl⟩ | ⟨-, hm⟩
    · have hfinished := hall
      rw [withKey_append] at hfinished
      have hsame : unfinished { s with
          opened := Function.update s.opened clnt_sock (some s.accepted)
          accepted := s.accepted + 1 } s.accepted = s.unfinished s.accepted := rfl
      rw [hsame, hunfinished, (List.append_eq_nil_iff.mp hfinished).1]
      exact hwire
    · exact h.wire fd m hm
  · exact h.replied

/-- A client has left, or nothing has been opened. -/
theorem fewer {opened : Int → Option Nat} (h : s.Inv)
    (hopened : ∀ fd m, opened fd = some m → s.opened fd = some m) :
    ({ s with opened := opened } : Connections).Inv where
  small fd m hm := h.small fd m (hopened fd m hm)
  distinct fd fd' m hm hm' := h.distinct fd fd' m (hopened fd m hm) (hopened fd' m hm')
  made := h.made
  own q hq m hm := h.own q hq m (hopened _ m hm)
  home q hq fd hm := h.home q hq fd (hopened fd _ hm)
  kept := h.kept
  known := h.known
  sent_le := h.sent_le
  ordered fd m hm := h.ordered fd m (hopened fd m hm)
  wire fd m hm := h.wire fd m (hopened fd m hm)
  replied := h.replied

/-- A request has become a job. -/
theorem receive {q : ClientJob} {jobs : Queue ClientJob} (h : s.Inv) (hmade : q.request.Made)
    (hopened : s.opened q.request.nClientIndex = some q.origin)
    (hjobs : s.jobs.step (.arrive q) = some jobs) :
    ({ s with jobs := jobs } : Connections).Inv := by
  have hordered : ∀ fd m, s.opened fd = some m → Ordered ClientJob.origin m jobs := fun fd m hm =>
    step_ordered (h.ordered fd m hm) (fun ha => by cases ha) hjobs
  have hkept := step_kept h.kept hjobs
  obtain rfl := Option.some.inj hjobs
  have hcases : ∀ x ∈ s.jobs.running.toList ++ (s.jobs.queue ++ [q]),
      x ∈ s.jobs.pending ∨ x = q := by
    intro x hx
    rw [← List.append_assoc] at hx
    rcases List.mem_append.mp hx with hx | hx
    · exact .inl hx
    · exact .inr (List.mem_singleton.mp hx)
  obtain ⟨⟨-, hsmall⟩, hlt⟩ := h.small _ _ hopened
  constructor
  · exact h.small
  · exact h.distinct
  · intro x hx
    rcases hcases x hx with hx | rfl
    · exact h.made x hx
    · exact ⟨hmade, hsmall⟩
  · intro x hx m hm
    rcases hcases x hx with hx | rfl
    · exact h.own x hx m hm
    · exact Option.some.inj (hm.symm.trans hopened)
  · intro x hx fd hm
    rcases hcases x hx with hx | rfl
    · exact h.home x hx fd hm
    · exact h.distinct fd _ _ hm hopened
  · exact hkept
  · intro x hx
    rcases List.mem_append.mp hx with hx | hx
    · exact h.known x hx
    · obtain rfl := List.mem_singleton.mp hx
      exact hlt
  · exact h.sent_le
  · exact hordered
  · exact h.wire
  · intro m
    refine (h.replied m).trans ?_
    simp only [replies, withKey_append, List.flatMap_append]
    exact List.prefix_append _ _

/-- The job thread has a job to begin with. -/
theorem take {jobs : Queue ClientJob} (h : s.Inv) (hjobs : s.jobs.step .take = some jobs) :
    ({ s with jobs := jobs, totalSent := 0 } : Connections).Inv := by
  have hordered : ∀ fd m, s.opened fd = some m → Ordered ClientJob.origin m jobs := fun fd m hm =>
    step_ordered (h.ordered fd m hm) (fun ha => by cases ha) hjobs
  have hkept := step_kept h.kept hjobs
  obtain ⟨q, rest, hrunning, hqueue, rfl⟩ := step_take hjobs
  have hpending : s.jobs.pending = q :: rest := by
    unfold pending
    rw [hrunning, hqueue]
    rfl
  constructor
  · exact h.small
  · exact h.distinct
  · exact fun x hx => h.made x (hpending ▸ hx)
  · exact fun x hx => h.own x (hpending ▸ hx)
  · exact fun x hx => h.home x (hpending ▸ hx)
  · exact hkept
  · exact h.known
  · exact fun x _ => Nat.zero_le _
  · exact hordered
  · intro fd m hm
    rw [h.wire fd m hm, unfinished_of_idle hrunning]
    congr 1
    rw [unfinished_of_running rfl, List.take_zero, ite_self]
  · exact h.replied

/-- `SendMsg` has failed. -/
theorem failed {q : ClientJob} {jobs : Queue ClientJob} (h : s.Inv)
    (hrun : s.jobs.running = some q) (hkeeps : s.Keeps (.write none))
    (hjobs : s.jobs.step .putBack = some jobs) : ({ s with jobs := jobs } : Connections).Inv := by
  have hq := mem_pending_of_running hrun
  -- a client who is still there has got nothing of this response, and waits for no other
  have hthere : ∀ fd m, s.opened fd = some m → q.origin = m →
      s.totalSent = 0 ∧ ∀ y ∈ s.jobs.queue, y.origin ≠ m := by
    rintro fd m hm rfl
    obtain rfl := h.home q hq fd hm
    exact hkeeps q hrun hm
  have hordered : ∀ fd m, s.opened fd = some m → Ordered ClientJob.origin m jobs := by
    intro fd m hm
    apply step_ordered (h.ordered fd m hm) _ hjobs
    intro _ x hx hxm
    obtain rfl := Option.some.inj (hrun.symm.trans hx)
    exact (hthere fd m hm hxm).2
  have hkept := step_kept h.kept hjobs
  obtain ⟨x, hx, rfl⟩ := step_putBack hjobs
  obtain rfl := Option.some.inj (hrun.symm.trans hx)
  have hmem : ∀ x ∈ s.jobs.queue ++ [q], x ∈ s.jobs.pending := by
    intro x hx
    rcases List.mem_append.mp hx with hx | hx
    · exact List.mem_append_right _ hx
    · exact List.mem_singleton.mp hx ▸ hq
  constructor
  · exact h.small
  · exact h.distinct
  · exact fun x hx => h.made x (hmem x hx)
  · exact fun x hx => h.own x (hmem x hx)
  · exact fun x hx => h.home x (hmem x hx)
  · exact hkept
  · exact h.known
  · exact fun x hx => by cases hx
  · exact hordered
  · intro fd m hm
    rw [h.wire fd m hm]
    congr 1
    rw [unfinished_of_running hrun, unfinished_of_idle rfl]
    split
    · next hqm => rw [(hthere fd m hm hqm).1, List.take_zero]
    · rfl
  · exact h.replied

/-- `write()` has taken bytes for the client whose request it is. -/
theorem written {q : ClientJob} {m n : Nat} (h : s.Inv) (hrun : s.jobs.running = some q)
    (hopened : s.opened q.nClientIndex = some m) (hn : n ≤ q.packet.length - s.totalSent) :
    (s.taken q m n).Inv := by
  have hq := mem_pending_of_running hrun
  have hle := h.sent_le q hrun
  rw [h.nClientIndex_eq hq] at hopened
  obtain rfl := h.own q hq m hopened
  have hunfinished : ∀ k, (s.taken q q.origin n).unfinished k =
      if q.origin = k then q.packet.take (s.totalSent + n) else [] := fun k =>
    unfinished_of_running (s := s.taken q q.origin n) hrun k
  have hwire : ∀ fd k, s.opened fd = some k → (s.taken q q.origin n).wire k =
      (withKey ClientJob.origin k s.jobs.finished).flatMap ClientJob.packet ++
        (s.taken q q.origin n).unfinished k := by
    intro fd k hk
    have hold := h.wire fd k hk
    rw [unfinished_of_running hrun] at hold
    rw [hunfinished]
    unfold taken
    by_cases hqk : q.origin = k
    · subst hqk
      simp only [Function.update_self, if_true] at hold ⊢
      rw [hold, List.append_assoc, List.take_add]
    · simp only [Function.update_of_ne (Ne.symm hqk), if_neg hqk] at hold ⊢
      exact hold
  constructor
  · exact h.small
  · exact h.distinct
  · exact h.made
  · exact h.own
  · exact h.home
  · exact h.kept
  · exact h.known
  · intro x hx
    obtain rfl := Option.some.inj (hrun.symm.trans hx)
    show s.totalSent + n ≤ q.packet.length
    omega
  · exact h.ordered
  · exact hwire
  · intro k
    by_cases hqk : q.origin = k
    · subst hqk
      exact replied_of_ordered (s := s.taken q q.origin n) (h.ordered _ _ hopened)
        (hwire _ _ hopened)
    · have hsame : (s.taken q q.origin n).wire k = s.wire k :=
        Function.update_of_ne (Ne.symm hqk) _ _
      rw [hsame]
      exact h.replied k

/-- `SendMsg` has returned true. -/
theorem finish {q : ClientJob} {jobs : Queue ClientJob} (h : s.Inv)
    (hrun : s.jobs.running = some q) (hend : q.packet.length ≤ s.totalSent)
    (hjobs : s.jobs.step .finish = some jobs) : ({ s with jobs := jobs } : Connections).Inv := by
  have hordered : ∀ fd m, s.opened fd = some m → Ordered ClientJob.origin m jobs := fun fd m hm =>
    step_ordered (h.ordered fd m hm) (fun ha => by cases ha) hjobs
  have hkept := step_kept h.kept hjobs
  obtain ⟨x, hx, rfl⟩ := step_finish hjobs
  obtain rfl := Option.some.inj (hrun.symm.trans hx)
  have hmem : ∀ x ∈ s.jobs.queue, x ∈ s.jobs.pending := fun x hx => List.mem_append_right _ hx
  constructor
  · exact h.small
  · exact h.distinct
  · exact fun x hx => h.made x (hmem x hx)
  · exact fun x hx => h.own x (hmem x hx)
  · exact fun x hx => h.home x (hmem x hx)
  · exact hkept
  · exact h.known
  · exact fun x hx => by cases hx
  · exact hordered
  · intro fd m hm
    rw [h.wire fd m hm, unfinished_of_running hrun, unfinished_of_idle rfl, List.append_nil,
      withKey_append, List.flatMap_append]
    congr 1
    split
    · next hqm =>
      have hself : withKey ClientJob.origin m [q] = [q] :=
        List.filter_cons_of_pos (decide_eq_true hqm)
      rw [hself, List.flatMap_singleton, List.take_of_length_le hend]
    · next hqm =>
      have hnone : withKey ClientJob.origin m [q] = [] :=
        withKey_eq_nil fun y hy => List.mem_singleton.mp hy ▸ hqm
      rw [hnone, List.flatMap_nil]
  · exact h.replied

end Inv

theorem step_inv (h : s.Inv) (hkeeps : s.Keeps a) (hs : step s a = some s') : s'.Inv := by
  cases stepped hs with
  | accept clnt_sock hfd hnone => exact h.accept hfd hkeeps.1 hkeeps.2
  | refused nClientIndex_ sv_ allocated => exact h
  | receive nClientIndex_ sv_ allocated job m jobs hopened hjob hjobs =>
    have hallocated := (createJob_userIndex hjob).2
    subst hallocated
    exact h.receive ⟨(h.small _ m hopened).1.1, hjob⟩ hopened hjobs
  | close nClientIndex_ =>
    apply h.fewer
    intro fd m hm
    by_cases heq : fd = nClientIndex_
    · rw [heq, Function.update_self] at hm
      cases hm
    · rw [Function.update_of_ne heq] at hm
      exact hm
  | take jobs hjobs => exact h.take hjobs
  | failed q jobs hrun hjobs => exact h.failed hrun hkeeps hjobs
  | written q m n hrun hopened hn => exact h.written hrun hopened hn
  | finish q jobs hrun hend hjobs => exact h.finish hrun hend hjobs

/-- In every run that keeps to the condition each client has got a prefix of the responses to his
own requests, in order and each once, however they are cut and whoever else is served; and all of
them, when he is still there and none of his jobs is pending. -/
theorem clients_answered {acts : List ConnectionAct} (hkeeps : Meets step Keeps init acts)
    (hr : run step init acts = some s) (m : Nat) :
    s.wire m <+: s.replies m ∧
      ∀ fd, s.opened fd = some m → (∀ q ∈ s.jobs.pending, q.origin ≠ m) →
        s.wire m = s.replies m := by
  have h : s.Inv := run_invariant (fun _ _ _ h ha hs => step_inv h ha hs) inv_init hkeeps hr
  refine ⟨h.replied m, fun fd hm hnone => ?_⟩
  have hunfinished : s.unfinished m = [] := by
    cases hrun : s.jobs.running with
    | none => exact unfinished_of_idle hrun m
    | some q =>
      rw [unfinished_of_running hrun, if_neg (hnone q (mem_pending_of_running hrun))]
  rw [h.wire fd m hm, hunfinished, List.append_nil, (h.ordered fd m hm).prefix_of.2 hnone, replies]

/-- An echo request without a parameter. -/
def echoRequest (reqNo : UInt8) : Bytes := [12, 0, 0, 0, 0, 0, 0, 0, reqNo, 0, 0, 0]

/-- The second client has the descriptor of the first one, who has had his response. -/
def sameDescriptor : List ConnectionAct :=
  [.accept 5, .receive 5 (echoRequest 7) true, .take, .write (some 40), .write (some 56), .finish,
    .close 5, .accept 5, .receive 5 (echoRequest 8) true, .take, .write none, .take,
    .write (some 96), .finish]

theorem clients_answered_same : ∃ s, run step init sameDescriptor = some s ∧
    s.wire 0 <+: s.replies 0 ∧ s.wire 1 = s.replies 1 := by
  have hend : (run step init sameDescriptor).map (fun s =>
      decide (s.opened 5 = some 1 ∧ s.jobs.running.isNone ∧ s.jobs.queue.isEmpty)) =
        some true := by decide +kernel
  have hkeeps : Meets step Keeps init sameDescriptor := by decide +kernel
  obtain ⟨s, hs, hrest⟩ := Option.map_eq_some_iff.mp hend
  obtain ⟨hopened, hrunning, hqueue⟩ := of_decide_eq_true hrest
  have hpending : s.jobs.pending = [] := by
    unfold pending
    rw [Option.isNone_iff_eq_none.mp hrunning, List.isEmpty_iff.mp hqueue]
    rfl
  refine ⟨s, hs, (clients_answered hkeeps hs 0).1, (clients_answered hkeeps hs 1).2 5 hopened ?_⟩
  rw [hpending]
  exact fun q hq => absurd hq List.not_mem_nil

end Connections
end LinuxServer
