import Mathlib.Logic.Function.Basic
import SocketServerLib.EpollServer.DoRecv
import SocketServerLib.EpollServer.JobFactory
import SocketServerLib.Lib.LabelledRun

/-
  The connections of the epoll server and the jobs of their requests, where the kernel may
  give a descriptor again that has been closed.

  `ReadThread` accepts, receives, closes and resumes sends, one event after the other, and
  gives the messages of a `DoRecv` to `OnReceive` turn by turn; in between the job thread
  takes and executes jobs. A job has the descriptor of its request and nothing else of the
  connection.

  Every accept makes a context with a number of its own. `origin` is the number of the
  context from whose `recvBuffer` the request was framed, `closed` are those that have been
  released, and `appended` logs every packet that `Enqueue` has stored, with the number of
  the context and the origin of its job; all are ghosts.

  What is proved:
    1. `step_inv` — the jobs of a connection find its context as long as it is open.
    2. `answers_own_iff` — in every state of a run all packets went to the context of their
       request if and only if no job is executed whose own connection has been closed while
       a context with room for its packet has its descriptor.
    3. `answers_own` — that is so where no descriptor is accepted again while a job for it
       is pending.
    4. `answer_astray` — a response that another client gets.

  What is assumed: `read()` does not fail; a turn of `DoRecv`, and an `Execute` with the switch of
  `JobThread`, are one step each; `send()` takes no more than it is offered.
-/
namespace EpollServer
open RacingGameServer LabelledRun

/-- An entry of `Clients`. -/
structure Client where
  context : RecvContext
  number : Nat

structure Request where
  job : Job
  origin : Nat

structure Sessions where
  clients : Nat → Option Client
  accepted : Nat
  closed : List Nat
  receiving : Option Nat
  jobQueue : List Request
  running : Option Request
  appended : List (Nat × Nat)

/-- `nRet` is the answer of `send()`, `bMod_` whether `EPOLL_CTL_MOD` succeeds. `turn` is one turn
of the loop of `DoRecv`. -/
inductive SessionAct where
  | accept (clientSock : Nat)
  | recv (fd_ : Nat) (buf : Bytes)
  | turn
  | close (fd_ : Nat)
  | resumeSend (fd_ : Nat) (nRet : Option Nat)
  | take
  | execute (nRet : Option Nat) (bMod_ : Bool)

namespace Sessions

def init : Sessions :=
  { clients := fun _ => none, accepted := 0, closed := [], receiving := none, jobQueue := []
    running := none, appended := [] }

def setContext (s : Sessions) (fd_ : Nat) (e : Client) (c : RecvContext) : Sessions :=
  { s with clients := Function.update s.clients fd_ (some { e with context := c }) }

/-- `CreateContext`; `emplace` does not replace an entry. -/
def createContext (s : Sessions) (fd_ : Nat) : Sessions :=
  match s.clients fd_ with
  | some _ => s
  | none =>
    { s with
      clients := Function.update s.clients fd_
        (some { context := .init fd_, number := s.accepted })
      accepted := s.accepted + 1 }

/-- `DoRecv` up to its loop. -/
def doRecv (s : Sessions) (fd_ : Nat) (buf : Bytes) : Sessions :=
  match s.clients fd_ with
  | none => s
  | some e =>
    let r := e.context.storePartialMsg buf
    { s.setContext fd_ e r.1 with receiving := if r.2 = true then some fd_ else none }

/-- `GetReqMsg`, and `OnReceive` and `PopMsg` if it returns true. -/
def turn (s : Sessions) (fd_ : Nat) (e : Client) : Sessions :=
  match e.context.turn with
  | none => { s with receiving := none }
  | some (msg, c) =>
    { s.setContext fd_ e c with
      jobQueue := s.jobQueue ++
        (createJob fd_ msg).toList.map fun job => { job := job, origin := e.number } }

/-- `Close` with `ReleaseContext`. -/
def close (s : Sessions) (fd_ : Nat) : Sessions :=
  match s.clients fd_ with
  | none => s
  | some e =>
    { s with
      clients := Function.update s.clients fd_ none
      closed := e.number :: s.closed }

def resumeSend (s : Sessions) (fd_ : Nat) (e : Client) (nRet : Option Nat) : Sessions :=
  s.setContext fd_ e
    { e.context with toClientContext := (e.context.toClientContext.resumeSend nRet).1 }

/-- `JobThread` once the job has answered. -/
def finish (s : Sessions) (q : Request) (bRet : Bool) : Sessions :=
  { s with
    running := none
    jobQueue := if requeues (sendMsgFunc bRet) = true then s.jobQueue ++ [q] else s.jobQueue }

/-- `EpollServer::SendMsg` with the packet of the job, to the context that has its descriptor. -/
def execute (s : Sessions) (q : Request) (e : Client) (nRet : Option Nat) (bMod_ : Bool) :
    Sessions :=
  let c := e.context.toClientContext
  let r := c.sendMsg (some q.job.echo.packet) nRet
  let stored := (c.sendBuffer.enqueue (some q.job.echo.packet) q.job.echo.packet.length).2
  { (s.setContext q.job.socket e { e.context with toClientContext := r.1 }).finish q
      (sendMsg r.2.1 bMod_) with
    appended := if stored = true then s.appended ++ [(e.number, q.origin)] else s.appended }

def step (s : Sessions) : SessionAct → Option Sessions
  | .accept clientSock => if s.receiving = none then some (s.createContext clientSock) else none
  | .recv fd_ buf =>
    if s.receiving = none ∧ buf ≠ [] ∧ buf.length < maxRecvSlideBufferSize then
      some (s.doRecv fd_ buf)
    else none
  | .turn =>
    match s.receiving with
    | some fd_ => (s.clients fd_).map (s.turn fd_)
    | none => none
  | .close fd_ => if s.receiving = none then some (s.close fd_) else none
  | .resumeSend fd_ nRet =>
    if s.receiving = none then
      match s.clients fd_ with
      | none => some s
      | some e =>
        if ClientContext.Offered e.context.sendBuffer nRet then some (s.resumeSend fd_ e nRet)
        else none
    else none
  | .take =>
    match s.running, s.jobQueue with
    | none, q :: jobQueue => some { s with running := some q, jobQueue := jobQueue }
    | _, _ => none
  | .execute nRet bMod_ =>
    match s.running with
    | none => none
    | some q =>
      match s.clients q.job.socket with
      | none => some (s.finish q false)
      | some e =>
        if ClientContext.Offered (e.context.stored q.job.echo.packet) nRet then
          some (s.execute q e nRet bMod_)
        else none

/-- Every packet that was stored answers a request of the same context. -/
def AnswersOwn (s : Sessions) : Prop := ∀ p ∈ s.appended, p.1 = p.2

/-- A context that has the descriptor of the request has no room for its packet. -/
def NoRoom (s : Sessions) (q : Request) : Prop :=
  ∀ e ∈ s.clients q.job.socket, ¬ e.context.toClientContext.Fits q.job.echo.packet

instance (s : Sessions) (q : Request) : Decidable (s.NoRoom q) :=
  inferInstanceAs (Decidable (∀ e ∈ s.clients q.job.socket,
    ¬ e.context.toClientContext.Fits q.job.echo.packet))

/-- A job whose own connection has been closed finds no context with room for its packet. -/
def Expires (s : Sessions) : SessionAct → Prop
  | .execute _ _ => ∀ q ∈ s.running, q.origin ∈ s.closed → s.NoRoom q
  | _ => True

instance (s : Sessions) : DecidablePred s.Expires
  | .execute _ _ =>
    inferInstanceAs (Decidable (∀ q ∈ s.running, q.origin ∈ s.closed → s.NoRoom q))
  | .accept _ => .isTrue trivial
  | .recv _ _ => .isTrue trivial
  | .turn => .isTrue trivial
  | .close _ => .isTrue trivial
  | .resumeSend _ _ => .isTrue trivial
  | .take => .isTrue trivial

/-- No job for the descriptor is queued or being executed when it is accepted. -/
def Drained (s : Sessions) : SessionAct → Prop
  | .accept clientSock => ∀ q ∈ s.running.toList ++ s.jobQueue, q.job.socket ≠ clientSock
  | _ => True

/-! ## The invariant -/

/-- A job of a connection that is open finds its context. -/
structure Inv (s : Sessions) : Prop where
  live : ∀ fd_ e, s.clients fd_ = some e → e.context.toClientContext.Live
  number_lt : ∀ fd_ e, s.clients fd_ = some e → e.number < s.accepted
  distinct : ∀ fd_ fd' e e', s.clients fd_ = some e → s.clients fd' = some e' →
    e.number = e'.number → fd_ = fd'
  released : ∀ n ∈ s.closed, n < s.accepted ∧ ∀ fd_ e, s.clients fd_ = some e → e.number ≠ n
  request : ∀ q ∈ s.running.toList ++ s.jobQueue, q.origin ∈ s.closed ∨
    ∃ e, s.clients q.job.socket = some e ∧ e.number = q.origin

variable {s s' : Sessions} {fd_ : Nat} {e : Client} {q : Request} {nRet : Option Nat}
  {bMod_ : Bool} {a : SessionAct}

/-! ## One step -/

/-- What a step can do. -/
inductive Stepped (s : Sessions) : SessionAct → Sessions → Prop
  | accept (clientSock : Nat) : Stepped s (.accept clientSock) (s.createContext clientSock)
  | recv (fd_ : Nat) (buf : Bytes) : Stepped s (.recv fd_ buf) (s.doRecv fd_ buf)
  | turn (fd_ : Nat) (e : Client) (he : s.clients fd_ = some e) : Stepped s .turn (s.turn fd_ e)
  | close (fd_ : Nat) : Stepped s (.close fd_) (s.close fd_)
  | resumeNone (fd_ : Nat) (nRet : Option Nat) : Stepped s (.resumeSend fd_ nRet) s
  | resume (fd_ : Nat) (nRet : Option Nat) (e : Client) (he : s.clients fd_ = some e) :
    Stepped s (.resumeSend fd_ nRet) (s.resumeSend fd_ e nRet)
  | take (q : Request) (jobQueue : List Request) (hrun : s.running = none)
    (hqueue : s.jobQueue = q :: jobQueue) :
    Stepped s .take { s with running := some q, jobQueue := jobQueue }
  | executeNone (nRet : Option Nat) (bMod_ : Bool) (q : Request) (hrun : s.running = some q)
    (hnone : s.clients q.job.socket = none) :
    Stepped s (.execute nRet bMod_) (s.finish q false)
  | execute (nRet : Option Nat) (bMod_ : Bool) (q : Request) (e : Client)
    (hrun : s.running = some q) (he : s.clients q.job.socket = some e) :
    Stepped s (.execute nRet bMod_) (s.execute q e nRet bMod_)

theorem stepped (hs : step s a = some s') : s.Stepped a s' := by
  cases a with
  | accept clientSock =>
    simp only [step] at hs
    split at hs
    · obtain rfl := Option.some.inj hs
      exact .accept clientSock
    · cases hs
  | recv fd_ buf =>
    simp only [step] at hs
    split at hs
    · obtain rfl := Option.some.inj hs
      exact .recv fd_ buf
    · cases hs
  | turn =>
    simp only [step] at hs
    split at hs
    · next fd_ _ =>
      obtain ⟨e, he, rfl⟩ := Option.map_eq_some_iff.mp hs
      exact .turn fd_ e he
    · cases hs
  | close fd_ =>
    simp only [step] at hs
    split at hs
    · obtain rfl := Option.some.inj hs
      exact .close fd_
    · cases hs
  | resumeSend fd_ nRet =>
    simp only [step] at hs
    split at hs
    · split at hs
      · obtain rfl := Option.some.inj hs
        exact .resumeNone fd_ nRet
      · next e he =>
        split at hs
        · obtain rfl := Option.some.inj hs
          exact .resume fd_ nRet e he
        · cases hs
    · cases hs
  | take =>
    simp only [step] at hs
    split at hs
    · next q jobQueue hrun hqueue =>
      obtain rfl := Option.some.inj hs
      exact .take q jobQueue hrun hqueue
    · cases hs
  | execute nRet bMod_ =>
    simp only [step] at hs
    split at hs
    · cases hs
    · next q hrun =>
      split at hs
      · next hnone =>
        obtain rfl := Option.some.inj hs
        exact .executeNone nRet bMod_ q hrun hnone
      · next e he =>
        split at hs
        · obtain rfl := Option.some.inj hs
          exact .execute nRet bMod_ q e hrun he
        · cases hs

theorem getContext_set (s : Sessions) (fd_ fd' : Nat) (e : Client) (c : RecvContext) (f : Client) :
    (s.setContext fd_ e c).clients fd' = some f ↔
      (fd' = fd_ ∧ { e with context := c } = f) ∨ (fd' ≠ fd_ ∧ s.clients fd' = some f) := by
  rw [setContext]
  by_cases he : fd' = fd_
  · subst he
    simp
  · simp [he]

/-- An operation on a context leaves the entries and their numbers where they are. -/
theorem Inv.setContext (h : s.Inv) (he : s.clients fd_ = some e) {c : RecvContext}
    (hc : c.toClientContext.Live) : (s.setContext fd_ e c).Inv := by
  -- an entry was there before under the same number
  have hold : ∀ fd' f, (s.setContext fd_ e c).clients fd' = some f →
      ∃ f', s.clients fd' = some f' ∧ f'.number = f.number := by
    intro fd' f hf
    rcases (getContext_set ..).mp hf with ⟨rfl, rfl⟩ | ⟨-, hf⟩
    · exact ⟨e, he, rfl⟩
    · exact ⟨f, hf, rfl⟩
  refine ⟨fun fd' f hf => ?_, fun fd' f hf => ?_, fun fd' fd'' f f' hf hf' hn => ?_,
    fun n hn => ⟨(h.released n hn).1, fun fd' f hf => ?_⟩, fun q hq => ?_⟩
  · rcases (getContext_set ..).mp hf with ⟨-, rfl⟩ | ⟨-, hf⟩
    · exact hc
    · exact h.live fd' f hf
  · obtain ⟨f', hf', hn⟩ := hold fd' f hf
    exact hn ▸ h.number_lt fd' f' hf'
  · obtain ⟨g, hg, hgn⟩ := hold fd' f hf
    obtain ⟨g', hg', hgn'⟩ := hold fd'' f' hf'
    exact h.distinct fd' fd'' g g' hg hg' (hgn.trans (hn.trans hgn'.symm))
  · obtain ⟨f', hf', hn'⟩ := hold fd' f hf
    exact hn' ▸ (h.released n hn).2 fd' f' hf'
  · rcases h.request q hq with hclosed | ⟨f, hf, hn⟩
    · exact .inl hclosed
    · refine .inr ?_
      by_cases hfd : q.job.socket = fd_
      · refine ⟨_, (getContext_set ..).mpr (.inl ⟨hfd, rfl⟩), ?_⟩
        rw [hfd] at hf
        obtain rfl := Option.some.inj (he.symm.trans hf)
        exact hn
      · exact ⟨f, (getContext_set ..).mpr (.inr ⟨hfd, hf⟩), hn⟩

/-- The entries stay, and no job comes but of a context that is there. -/
theorem Inv.requests (h : s.Inv) (hclients : s'.clients = s.clients)
    (haccepted : s'.accepted = s.accepted) (hclosed : s'.closed = s.closed)
    (hq : ∀ q ∈ s'.running.toList ++ s'.jobQueue, q ∈ s.running.toList ++ s.jobQueue ∨
      ∃ e, s.clients q.job.socket = some e ∧ e.number = q.origin) : s'.Inv := by
  constructor
  · rw [hclients]
    exact h.live
  · rw [hclients, haccepted]
    exact h.number_lt
  · rw [hclients]
    exact h.distinct
  · rw [hclients, haccepted, hclosed]
    exact h.released
  · rw [hclients, hclosed]
    intro q hmem
    rcases hq q hmem with hold | hnew
    · exact h.request q hold
    · exact .inr hnew

theorem Inv.createContext (h : s.Inv) (fd_ : Nat) : (s.createContext fd_).Inv := by
  unfold Sessions.createContext
  split
  · exact h
  · next hnone =>
    have hcases : ∀ fd' f, Function.update s.clients fd_
        (some { context := .init fd_, number := s.accepted }) fd' = some f →
        (fd' = fd_ ∧ f = { context := .init fd_, number := s.accepted }) ∨
          (fd' ≠ fd_ ∧ s.clients fd' = some f) := by
      intro fd' f hf
      by_cases he : fd' = fd_
      · subst he
        rw [Function.update_self] at hf
        exact .inl ⟨rfl, (Option.some.inj hf).symm⟩
      · rw [Function.update_of_ne he] at hf
        exact .inr ⟨he, hf⟩
    refine ⟨fun fd' f hf => ?_, fun fd' f hf => ?_, fun fd' fd'' f f' hf hf' hn => ?_,
      fun n hn => ⟨Nat.lt_succ_of_lt (h.released n hn).1, fun fd' f hf => ?_⟩, fun q hq => ?_⟩
    · rcases hcases fd' f hf with ⟨-, rfl⟩ | ⟨-, hf⟩
      · exact ClientContext.live_init fd_
      · exact h.live fd' f hf
    · rcases hcases fd' f hf with ⟨-, rfl⟩ | ⟨-, hf⟩
      · exact Nat.lt_succ_self _
      · exact Nat.lt_succ_of_lt (h.number_lt fd' f hf)
    · rcases hcases fd' f hf with ⟨rfl, rfl⟩ | ⟨-, hold⟩
      · rcases hcases fd'' f' hf' with ⟨rfl, -⟩ | ⟨-, hold'⟩
        · rfl
        · exact absurd hn (Nat.ne_of_gt (h.number_lt fd'' f' hold'))
      · rcases hcases fd'' f' hf' with ⟨rfl, rfl⟩ | ⟨-, hold'⟩
        · exact absurd hn (Nat.ne_of_lt (h.number_lt fd' f hold))
        · exact h.distinct fd' fd'' f f' hold hold' hn
    · rcases hcases fd' f hf with ⟨-, rfl⟩ | ⟨-, hf⟩
      · exact Nat.ne_of_gt (h.released n hn).1
      · exact (h.released n hn).2 fd' f hf
    · rcases h.request q hq with hclosed | ⟨f, hf, hn⟩
      · exact .inl hclosed
      · refine .inr ⟨f, ?_, hn⟩
        have hne : q.job.socket ≠ fd_ := by
          intro he
          rw [he, hnone] at hf
          cases hf
        exact (Function.update_of_ne hne ..).trans hf

theorem Inv.doRecv (h : s.Inv) (fd_ : Nat) (buf : Bytes) : (s.doRecv fd_ buf).Inv := by
  unfold Sessions.doRecv
  split
  · exact h
  · next e he =>
    have hset := h.setContext he (c := (e.context.storePartialMsg buf).1) (h.live fd_ e he)
    exact hset.requests rfl rfl rfl fun q hq => .inl hq

/-- The job of a message answers to the context it was framed from. -/
theorem Inv.turn (h : s.Inv) (he : s.clients fd_ = some e) : (s.turn fd_ e).Inv := by
  unfold Sessions.turn
  split
  · exact h.requests rfl rfl rfl fun q hq => .inl hq
  · next msg c hturn =>
    obtain ⟨len, -, hc⟩ := Option.map_eq_some_iff.mp hturn
    obtain ⟨-, rfl⟩ := Prod.mk.inj hc
    have hset := h.setContext he (c := e.context.popMsg len) (h.live fd_ e he)
    refine hset.requests rfl rfl rfl fun q hq => ?_
    rcases List.mem_append.mp hq with hq | hq
    · exact .inl (List.mem_append_left _ hq)
    · rcases List.mem_append.mp hq with hq | hq
      · exact .inl (List.mem_append_right _ hq)
      · obtain ⟨job, hjob, rfl⟩ := List.mem_map.mp hq
        have hsocket : job.socket = fd_ := createJob_socket (Option.mem_toList.mp hjob)
        exact .inr ⟨_, (getContext_set ..).mpr (.inl ⟨hsocket, rfl⟩), rfl⟩

theorem Inv.close (h : s.Inv) (fd_ : Nat) : (s.close fd_).Inv := by
  unfold Sessions.close
  split
  · exact h
  · next e he =>
    have hcases : ∀ fd' f, Function.update s.clients fd_ none fd' = some f →
        fd' ≠ fd_ ∧ s.clients fd' = some f := by
      intro fd' f hf
      by_cases hfd : fd' = fd_
      · subst hfd
        rw [Function.update_self] at hf
        cases hf
      · rw [Function.update_of_ne hfd] at hf
        exact ⟨hfd, hf⟩
    refine ⟨fun fd' f hf => h.live fd' f (hcases fd' f hf).2,
      fun fd' f hf => h.number_lt fd' f (hcases fd' f hf).2,
      fun fd' fd'' f f' hf hf' =>
        h.distinct fd' fd'' f f' (hcases fd' f hf).2 (hcases fd'' f' hf').2,
      fun n hn => ?_, fun q hq => ?_⟩
    · rcases List.mem_cons.mp hn with rfl | hn
      · refine ⟨h.number_lt fd_ e he, fun fd' f hf hn => ?_⟩
        obtain ⟨hne, hf⟩ := hcases fd' f hf
        exact hne (h.distinct fd' fd_ f e hf he hn)
      · exact ⟨(h.released n hn).1, fun fd' f hf => (h.released n hn).2 fd' f (hcases fd' f hf).2⟩
    · rcases h.request q hq with hclosed | ⟨f, hf, hn⟩
      · exact .inl (List.mem_cons_of_mem _ hclosed)
      · by_cases hfd : q.job.socket = fd_
        · rw [hfd, he] at hf
          obtain rfl := Option.some.inj hf
          exact .inl (hn ▸ List.mem_cons_self)
        · exact .inr ⟨f, (Function.update_of_ne hfd ..).trans hf, hn⟩

/-- A job that has been executed is queued again or gone. -/
theorem mem_finish (hrun : s.running = some q) (bRet : Bool) :
    ∀ q' ∈ (s.finish q bRet).running.toList ++ (s.finish q bRet).jobQueue,
      q' ∈ s.running.toList ++ s.jobQueue := by
  intro q' hq
  have hq : q' ∈ if requeues (sendMsgFunc bRet) = true then s.jobQueue ++ [q] else s.jobQueue := hq
  rw [hrun]
  split at hq
  · rcases List.mem_append.mp hq with hq | hq
    · exact List.mem_append_right _ hq
    · exact List.mem_append_left _ hq
  · exact List.mem_append_right _ hq

theorem Inv.finish (h : s.Inv) (hrun : s.running = some q) (bRet : Bool) :
    (s.finish q bRet).Inv :=
  h.requests rfl rfl rfl fun q' hq => .inl (mem_finish hrun bRet q' hq)

theorem Inv.execute (h : s.Inv) (hrun : s.running = some q) (he : s.clients q.job.socket = some e)
    (nRet : Option Nat) (bMod_ : Bool) : (s.execute q e nRet bMod_).Inv := by
  have hset := h.setContext he (c := { e.context with
    toClientContext := (e.context.toClientContext.sendMsg (some q.job.echo.packet) nRet).1 })
    ((h.live _ e he).sendMsg q.job.echo.packet_le nRet)
  exact (hset.finish hrun _).requests rfl rfl rfl fun q hq => .inl hq

/-- A job of a connection finds its context as long as it is open. -/
theorem step_inv (h : s.Inv) (hs : step s a = some s') : s'.Inv := by
  cases stepped hs with
  | accept clientSock => exact h.createContext clientSock
  | recv fd_ buf => exact h.doRecv fd_ buf
  | turn fd_ e he => exact h.turn he
  | close fd_ => exact h.close fd_
  | resumeNone fd_ nRet => exact h
  | resume fd_ nRet e he => exact h.setContext he ((h.live fd_ e he).resumeSend nRet)
  | take q jobQueue hrun hqueue =>
    refine h.requests rfl rfl rfl fun q' hq => .inl ?_
    rw [hrun, hqueue]
    exact hq
  | executeNone nRet bMod_ q hrun hnone => exact h.finish hrun false
  | execute nRet bMod_ q e hrun he => exact h.execute hrun he nRet bMod_

/-- The packets that a step stores, as `appended` logs them. -/
def stores (s : Sessions) : SessionAct → List (Nat × Nat)
  | .execute _ _ =>
    match s.running with
    | none => []
    | some q =>
      match s.clients q.job.socket with
      | none => []
      | some e =>
        if e.context.toClientContext.Fits q.job.echo.packet then [(e.number, q.origin)] else []
  | _ => []

theorem appended_createContext (s : Sessions) (fd_ : Nat) :
    (s.createContext fd_).appended = s.appended := by
  unfold Sessions.createContext
  split <;> rfl

theorem appended_doRecv (s : Sessions) (fd_ : Nat) (buf : Bytes) :
    (s.doRecv fd_ buf).appended = s.appended := by
  unfold Sessions.doRecv
  split <;> rfl

theorem appended_turn (s : Sessions) (fd_ : Nat) (e : Client) :
    (s.turn fd_ e).appended = s.appended := by
  unfold Sessions.turn
  split <;> rfl

theorem appended_close (s : Sessions) (fd_ : Nat) : (s.close fd_).appended = s.appended := by
  unfold Sessions.close
  split <;> rfl

theorem step_appended (h : s.Inv) (hs : step s a = some s') :
    s'.appended = s.appended ++ s.stores a := by
  cases stepped hs with
  | accept clientSock => exact (appended_createContext ..).trans (List.append_nil _).symm
  | recv fd_ buf => exact (appended_doRecv ..).trans (List.append_nil _).symm
  | turn fd_ e he => exact (appended_turn ..).trans (List.append_nil _).symm
  | close fd_ => exact (appended_close ..).trans (List.append_nil _).symm
  | executeNone nRet bMod_ q hrun hnone =>
    simp only [stores, hrun, hnone, List.append_nil]
    rfl
  | execute nRet bMod_ q e hrun he =>
    have hstored := ClientContext.enqueue_iff (h.live _ e he) q.job.echo.packet_le
    simp only [stores, hrun, he, execute, hstored]
    split
    · rfl
    · exact (List.append_nil _).symm
  | _ => exact (List.append_nil _).symm

/-- What a step stores answers to the context it goes to if and only if the job has not
outlived its connection, or finds no room. -/
theorem expires_iff (h : s.Inv) (a : SessionAct) :
    s.Expires a ↔ ∀ p ∈ s.stores a, p.1 = p.2 := by
  cases a with
  | execute nRet bMod_ =>
    simp only [Expires, stores, NoRoom]
    cases hrun : s.running with
    | none => exact iff_of_true (by simp) fun p hp => absurd hp List.not_mem_nil
    | some q =>
      simp only [Option.mem_def, Option.some.injEq, forall_eq']
      cases he : s.clients q.job.socket with
      | none => exact iff_of_true (by simp) fun p hp => absurd hp List.not_mem_nil
      | some e =>
        have hmem : q ∈ s.running.toList ++ s.jobQueue := by
          rw [hrun]
          exact List.mem_cons_self
        simp only [Option.some.injEq, forall_eq']
        split
        · next hfits =>
          rw [List.forall_mem_singleton]
          constructor
          · intro hexpires
            rcases h.request q hmem with hclosed | ⟨e', he', hn⟩
            · exact absurd hfits (hexpires hclosed)
            · obtain rfl := Option.some.inj (he.symm.trans he')
              exact hn
          · intro hn hclosed
            exact absurd hn ((h.released _ hclosed).2 _ e he)
        · next hfits => exact iff_of_true (fun _ => hfits) fun p hp => absurd hp List.not_mem_nil
  | _ => exact iff_of_true trivial fun p hp => absurd hp List.not_mem_nil

theorem step_own (h : s.Inv) (hown : s.AnswersOwn) (ha : s.Expires a) (hs : step s a = some s') :
    s'.AnswersOwn := by
  intro p hp
  rw [step_appended h hs] at hp
  rcases List.mem_append.mp hp with hp | hp
  · exact hown p hp
  · exact (expires_iff h a).mp ha p hp

theorem inv_init : Inv init :=
  ⟨nofun, nofun, nofun, nofun, nofun⟩

/-! ## Runs -/

/-- In every state of a run all packets went to the context of their request if and only if no
job outlives its connection and then finds room in a later context with its descriptor. -/
theorem answers_own_iff {acts : List SessionAct} (hr : run step init acts = some s) :
    Always step AnswersOwn init acts ↔ Meets step Expires init acts := by
  refine always_iff_meets (I := fun s => s.Inv ∧ s.AnswersOwn) (fun s h => h.2) ?_ ?_
    ⟨inv_init, nofun⟩ hr
  · intro s a s' h ha hs
    exact ⟨step_inv h.1 hs, step_own h.1 h.2 ha hs⟩
  · intro s a s' h ha hs hown
    apply ha
    refine (expires_iff h.1 a).mpr fun p hp => hown p ?_
    rw [step_appended h.1 hs]
    exact List.mem_append_right _ hp

/-- A request of `ECHO`. -/
def echoRequest (b : UInt8) : Bytes :=
  leEncode 4 96 ++ leEncode 4 0 ++ leEncode 4 7 ++ List.replicate 84 b

/-- The job of a connection that is closed is queued again, and finds no context. -/
def oneLeaves : List SessionAct :=
  [.accept 5, .accept 6, .recv 5 (echoRequest 65), .turn, .turn, .recv 6 (echoRequest 66), .turn,
    .turn, .close 5, .take, .execute none true, .take, .execute (some 96) true]

theorem answers_own_iff_leaves : Always step AnswersOwn init oneLeaves := by
  have hrun : (run step init oneLeaves).isSome = true := by decide +kernel
  obtain ⟨s, hs⟩ := Option.isSome_iff_exists.mp hrun
  exact (answers_own_iff hs).mpr (by decide +kernel)

/-- The client of descriptor 5 leaves, and the next one gets the answer. -/
theorem answer_astray : ¬ ∀ (acts : List SessionAct) (s : Sessions),
    run step init acts = some s → s.AnswersOwn := by
  intro h
  have hrun : (run step init [.accept 5, .recv 5 (echoRequest 65), .turn, .turn, .close 5,
      .accept 5, .take, .execute (some 96) true]).map Sessions.appended = some [(1, 0)] := by
    decide +kernel
  obtain ⟨s, hs, hend⟩ := Option.map_eq_some_iff.mp hrun
  have hown : (1 : Nat) = 0 := h _ s hs (1, 0) (hend ▸ List.mem_singleton_self _)
  exact absurd hown (by decide)

/-! ## Runs that drain a descriptor before it is accepted again -/

/-- The descriptor of a job that outlives its connection has not been accepted again. -/
def Unused (s : Sessions) : Prop :=
  ∀ q ∈ s.running.toList ++ s.jobQueue, q.origin ∈ s.closed → s.clients q.job.socket = none

/-- No descriptor is accepted, no connection closed, and a new job is of an open one. -/
theorem Unused.congr (h : s.Unused) (hclosed : s'.closed = s.closed)
    (hclients : ∀ fd_, s.clients fd_ = none → s'.clients fd_ = none)
    (hq : ∀ q ∈ s'.running.toList ++ s'.jobQueue,
      q ∈ s.running.toList ++ s.jobQueue ∨ q.origin ∉ s.closed) : s'.Unused := by
  intro q hmem hclosed'
  rw [hclosed] at hclosed'
  rcases hq q hmem with hold | hnew
  · exact hclients _ (h q hold hclosed')
  · exact absurd hclosed' hnew

theorem setContext_none (he : s.clients fd_ = some e) (c : RecvContext) (fd' : Nat)
    (hnone : s.clients fd' = none) : (s.setContext fd_ e c).clients fd' = none := by
  have hne : fd' ≠ fd_ := by
    rintro rfl
    rw [he] at hnone
    cases hnone
  exact (Function.update_of_ne hne ..).trans hnone

theorem Unused.createContext (h : s.Unused)
    (hdrained : ∀ q ∈ s.running.toList ++ s.jobQueue, q.job.socket ≠ fd_) :
    (s.createContext fd_).Unused := by
  unfold Sessions.createContext
  split
  · exact h
  · intro q hq hclosed
    exact (Function.update_of_ne (hdrained q hq) ..).trans (h q hq hclosed)

theorem Unused.doRecv (h : s.Unused) (fd_ : Nat) (buf : Bytes) : (s.doRecv fd_ buf).Unused := by
  unfold Sessions.doRecv
  split
  · exact h
  · next e he => exact h.congr rfl (setContext_none he _) fun q hq => .inl hq

theorem Unused.turn (h : s.Unused) (hinv : s.Inv) (he : s.clients fd_ = some e) :
    (s.turn fd_ e).Unused := by
  unfold Sessions.turn
  split
  · exact h.congr rfl (fun _ hnone => hnone) fun q hq => .inl hq
  · next msg c hturn =>
    refine h.congr rfl (setContext_none he _) fun q hq => ?_
    rcases List.mem_append.mp hq with hq | hq
    · exact .inl (List.mem_append_left _ hq)
    · rcases List.mem_append.mp hq with hq | hq
      · exact .inl (List.mem_append_right _ hq)
      · obtain ⟨job, -, rfl⟩ := List.mem_map.mp hq
        exact .inr fun hclosed => (hinv.released _ hclosed).2 fd_ e he rfl

theorem Unused.close (h : s.Unused) (hinv : s.Inv) (fd_ : Nat) : (s.close fd_).Unused := by
  unfold Sessions.close
  split
  · exact h
  · next e he =>
    intro q hq hclosed
    show Function.update s.clients fd_ none q.job.socket = none
    by_cases hfd : q.job.socket = fd_
    · rw [hfd, Function.update_self]
    · rw [Function.update_of_ne hfd]
      rcases List.mem_cons.mp hclosed with hn | hclosed
      · -- a job of the connection that is closed has its descriptor
        rcases hinv.request q hq with hno | ⟨f, hf, hnumber⟩
        · exact absurd hn.symm ((hinv.released _ hno).2 fd_ e he)
        · exact absurd (hinv.distinct _ _ f e hf he (hnumber.trans hn)) hfd
      · exact h q hq hclosed

theorem step_unused (h : s.Unused) (hinv : s.Inv) (ha : s.Drained a) (hs : step s a = some s') :
    s'.Unused := by
  cases stepped hs with
  | accept clientSock => exact h.createContext ha
  | recv fd_ buf => exact h.doRecv fd_ buf
  | turn fd_ e he => exact h.turn hinv he
  | close fd_ => exact h.close hinv fd_
  | resumeNone fd_ nRet => exact h
  | resume fd_ nRet e he => exact h.congr rfl (setContext_none he _) fun q hq => .inl hq
  | take q jobQueue hrun hqueue =>
    refine h.congr rfl (fun _ hnone => hnone) fun q' hq => .inl ?_
    rw [hrun, hqueue]
    exact hq
  | executeNone nRet bMod_ q hrun hnone =>
    exact h.congr rfl (fun _ hnone => hnone) fun q' hq => .inl (mem_finish hrun false q' hq)
  | execute nRet bMod_ q e hrun he =>
    refine h.congr rfl (setContext_none he _) fun q' hq => .inl ?_
    exact mem_finish (s := s.setContext q.job.socket e _) hrun _ q' hq

/-- Where the descriptor of a job has not been accepted again, nothing is stored for a job that
has outlived its connection. -/
theorem Unused.expires (h : s.Unused) (a : SessionAct) : s.Expires a := by
  cases a with
  | execute nRet bMod_ =>
    intro q hrun hclosed e he
    have hmem : q ∈ s.running.toList ++ s.jobQueue :=
      List.mem_append_left _ (Option.mem_toList.mpr hrun)
    rw [h q hmem hclosed] at he
    cases he
  | _ => trivial

/-- All packets go to the context of their request where no descriptor is accepted while a job for
it is pending. -/
theorem answers_own {acts : List SessionAct} (hr : run step init acts = some s)
    (hdrained : Meets step Drained init acts) : s.AnswersOwn := by
  have h := run_invariant (I := fun s => s.Inv ∧ s.Unused ∧ s.AnswersOwn) ?_
    ⟨inv_init, nofun, nofun⟩ hdrained hr
  · exact h.2.2
  · intro s a s' h ha hs
    obtain ⟨hinv, hunused, hown⟩ := h
    exact ⟨step_inv hinv hs, step_unused hunused hinv ha hs,
      step_own hinv hown (hunused.expires a) hs⟩

end Sessions

end EpollServer
