import Mathlib.Algebra.Group.Nat.Defs
import SocketServerLib.Lib.LabelledRun

/-
  The client threads of the blocking Linux server and `CleanUpThreads`.

  `contexts` lists every `ClientContext` that has been made, and a pointer to one is its place
  there; `m_Clients` never gets a null pointer. A client thread closes its socket, counts its
  request and returns, or returns at once where its `SlideBuffer` gets no memory. It is given
  a reference to `isAlive`, and does not write it. `AcceptThread` makes the contexts and calls
  `CleanUpThreads`, here in three steps, so that threads can end between them. `joins` and
  `deletes` count the calls on a context, `pushed` lists what has been in `m_Clients`, and
  `owed` the contexts that a call which has passed its test was to remove: those whose thread
  had returned before the call. `reqCnt` starts with what the memory holds.

  What is proved:
    1. `never_reclaimed` — in every run `m_Clients` has every context that has been put in, and
       no context is joined or deleted.
    2. `reclaims_iff` — the calls do what they are for, if and only if none that passes its test
       finds a context whose thread has returned.
    3. `ten_clients_stay` — ten clients come and leave, and stay in `m_Clients`.

  What is assumed: the steps of all threads are seen in one order.
-/
namespace LinuxServer
open LabelledRun

def threadCleanReqCnt : Nat := 10

/-- How far `ClientThread` has come: its request is counted, it has returned. -/
inductive ThreadPoint where
  | running
  | requested
  | returned
  deriving DecidableEq

structure ClientContext where
  fd : Nat
  th : ThreadPoint
  isAlive : Bool
  isTargeted : Bool
  joins : Nat
  deletes : Nat
  deriving DecidableEq

namespace ClientContext

/-- After `Init`. -/
def new (fd_ : Nat) : ClientContext :=
  { fd := fd_, th := .running, isAlive := true, isTargeted := false, joins := 0, deletes := 0 }

/-- `none` while `join` waits for the thread. -/
def check (c : ClientContext) : Option ClientContext :=
  if c.isAlive = false then
    if c.th = .returned then some { c with isTargeted := true, joins := c.joins + 1 } else none
  else some c

def getStatus (c : ClientContext) : Bool := c.isTargeted

end ClientContext

/-- The loop of `CleanUpThreads` over `m_Clients`. -/
def checkAll : List Nat → List ClientContext → Option (List ClientContext)
  | [], contexts => some contexts
  | k :: clients, contexts =>
    match contexts[k]? with
    | none => none
    | some c => c.check.bind fun c' => checkAll clients (contexts.set k c')

/-- `remove_if` and `erase`: what stays in `m_Clients`, and the contexts after the deletes. -/
def eraseTargeted : List Nat → List ClientContext → Option (List Nat × List ClientContext)
  | [], contexts => some ([], contexts)
  | k :: clients, contexts =>
    match contexts[k]? with
    | none => none
    | some c =>
      if c.getStatus = true then
        eraseTargeted clients (contexts.set k { c with deletes := c.deletes + 1 })
      else (eraseTargeted clients contexts).map fun r => (k :: r.1, r.2)

/-- Where `AcceptThread` is: before `accept` or `CleanUpThreads`, between the start of a thread
and `push_back`, before `reqCnt.store(0)`, before the loop. `returned` are the contexts in
`m_Clients` whose thread had returned when `CleanUpThreads` was called. -/
inductive AcceptPoint where
  | accepting
  | created (k : Nat)
  | resetting (returned : List Nat)
  | checking (returned : List Nat)
  deriving DecidableEq

structure Clients where
  contexts : List ClientContext
  clients : List Nat
  reqCnt : Nat
  acceptThread : AcceptPoint
  pushed : List Nat
  owed : List Nat

/-- `allocated` is whether there is memory for the context. -/
inductive ClientsAct where
  | createClientThread (clnt_sock_ : Nat) (allocated : Bool)
  | pushBack
  | bufferFails (k : Nat)
  | requestToCleanUpThreads (k : Nat)
  | returns (k : Nat)
  | cleanUpThreads
  | storeReqCnt
  | checkAndErase

namespace Clients

/-- `n` is what is in the memory of `reqCnt`. -/
def init (n : Nat) : Clients :=
  { contexts := [], clients := [], reqCnt := n % 2 ^ 32, acceptThread := .accepting, pushed := [],
    owed := [] }

/-- The thread of context `k` goes from one point to the next. -/
def moveThread (s : Clients) (k : Nat) (p p' : ThreadPoint) : Option Clients :=
  match s.contexts[k]? with
  | none => none
  | some c =>
    if c.th = p then some { s with contexts := s.contexts.set k { c with th := p' } } else none

/-- The contexts in `m_Clients` whose thread has returned. -/
def returned (s : Clients) : List Nat :=
  s.clients.filter fun k => (s.contexts[k]?).any fun c => c.th == .returned

def step (s : Clients) : ClientsAct → Option Clients
  | .createClientThread clnt_sock_ allocated =>
    if s.acceptThread = .accepting then
      if allocated = true then
        some { s with
          contexts := s.contexts ++ [.new clnt_sock_]
          acceptThread := .created s.contexts.length }
      else some s
    else none
  | .pushBack =>
    match s.acceptThread with
    | .created k => some { s with
        clients := s.clients ++ [k], pushed := s.pushed ++ [k], acceptThread := .accepting }
    | _ => none
  | .bufferFails k => s.moveThread k .running .returned
  | .requestToCleanUpThreads k =>
    (s.moveThread k .running .requested).map fun s' =>
      { s' with reqCnt := (s'.reqCnt + 1) % 2 ^ 32 }
  | .returns k => s.moveThread k .requested .returned
  | .cleanUpThreads =>
    if s.acceptThread = .accepting then
      if s.reqCnt < threadCleanReqCnt then some s
      else some { s with acceptThread := .resetting s.returned }
    else none
  | .storeReqCnt =>
    match s.acceptThread with
    | .resetting returned => some { s with reqCnt := 0, acceptThread := .checking returned }
    | _ => none
  | .checkAndErase =>
    match s.acceptThread with
    | .checking returned =>
      (checkAll s.clients s.contexts).bind fun checked =>
        (eraseTargeted s.clients checked).map fun r =>
          { s with
            contexts := r.2
            clients := r.1
            acceptThread := .accepting
            owed := s.owed ++ returned }
    | _ => none

/-- What the calls are for: a context that was to be removed is not in `m_Clients`, and one that is
not there any more has been joined and deleted, once each, and its thread has returned. -/
structure Reclaims (s : Clients) : Prop where
  owed : ∀ k ∈ s.owed, k ∉ s.clients
  removed : ∀ k ∈ s.pushed, k ∉ s.clients → ∃ c, s.contexts[k]? = some c ∧
    c.th = .returned ∧ c.joins = 1 ∧ c.deletes = 1

/-- The contexts that the call in progress is to remove. -/
def toReclaim : AcceptPoint → List Nat
  | .resetting returned | .checking returned => returned
  | _ => []

/-- What a step completes the removal of. -/
def completes (s : Clients) : ClientsAct → List Nat
  | .checkAndErase => toReclaim s.acceptThread
  | _ => []

/-- A call that has passed its test has nothing to remove. -/
def NothingToReclaim (s : Clients) (a : ClientsAct) : Prop := s.completes a = []

instance (s : Clients) : DecidablePred s.NothingToReclaim :=
  fun _ => inferInstanceAs (Decidable (_ = _))

variable {s s' : Clients} {a : ClientsAct} {contexts : List ClientContext} {c : ClientContext}
  {k : Nat}

/-! ## The two passes -/

/-- The constructor's flags and counts; nothing changes them but `check` and `delete`. -/
structure Untouched (c : ClientContext) : Prop where
  isAlive : c.isAlive = true
  isTargeted : c.isTargeted = false
  joins : c.joins = 0
  deletes : c.deletes = 0

theorem check_untouched (h : Untouched c) : c.check = some c := by
  rw [ClientContext.check, if_neg]
  rw [h.isAlive]
  exact Bool.true_eq_false.mp

theorem checkAll_untouched (h : ∀ c ∈ contexts, Untouched c) {clients : List Nat}
    (hlt : ∀ k ∈ clients, k < contexts.length) : checkAll clients contexts = some contexts := by
  induction clients with
  | nil => rfl
  | cons k clients ih =>
    have hk := hlt k List.mem_cons_self
    have hget : contexts[k]? = some contexts[k] := List.getElem?_eq_getElem hk
    have hcheck := check_untouched (h contexts[k] (List.getElem_mem hk))
    simp only [checkAll, hget, hcheck, Option.bind_some, List.set_getElem_self]
    exact ih fun j hj => hlt j (List.mem_cons_of_mem k hj)

theorem eraseTargeted_untouched (h : ∀ c ∈ contexts, Untouched c) {clients : List Nat}
    (hlt : ∀ k ∈ clients, k < contexts.length) :
    eraseTargeted clients contexts = some (clients, contexts) := by
  induction clients with
  | nil => rfl
  | cons k clients ih =>
    have hk := hlt k List.mem_cons_self
    have hget : contexts[k]? = some contexts[k] := List.getElem?_eq_getElem hk
    have htarget : ¬ contexts[k].getStatus = true := by
      rw [ClientContext.getStatus, (h contexts[k] (List.getElem_mem hk)).isTargeted]
      exact Bool.false_ne_true
    simp only [eraseTargeted, hget, if_neg htarget,
      ih fun j hj => hlt j (List.mem_cons_of_mem k hj), Option.map_some]

/-! ## The invariant -/

/-- No context is touched, and every one that has been in `m_Clients` is there. -/
structure Inv (s : Clients) : Prop where
  untouched : ∀ c ∈ s.contexts, Untouched c
  clients_lt : ∀ k ∈ s.clients, k < s.contexts.length
  pushed : s.pushed = s.clients
  created : ∀ k, s.acceptThread = .created k → k < s.contexts.length
  toReclaim : ∀ k ∈ toReclaim s.acceptThread, k ∈ s.clients

theorem inv_init (n : Nat) : Inv (init n) :=
  ⟨fun _ h => absurd h List.not_mem_nil, fun _ h => absurd h List.not_mem_nil, rfl, nofun,
    fun _ h => absurd h List.not_mem_nil⟩

/-- A context is made, with the flags of the constructor. -/
theorem Inv.created_context (h : Inv s) (clnt_sock_ : Nat) : Inv { s with
    contexts := s.contexts ++ [.new clnt_sock_], acceptThread := .created s.contexts.length } := by
  refine ⟨fun c hc => ?_, fun k hk => ?_, h.pushed, fun k hk => ?_,
    fun k hk => absurd hk List.not_mem_nil⟩
  · rcases List.mem_append.mp hc with hc | hc
    · exact h.untouched c hc
    · rw [List.mem_singleton.mp hc]
      exact ⟨rfl, rfl, rfl, rfl⟩
  · have hlt := h.clients_lt k hk
    simp only [List.length_append, List.length_singleton]
    omega
  · obtain rfl := AcceptPoint.created.inj hk
    simp

/-- It goes into `m_Clients`. -/
theorem Inv.pushed_back (h : Inv s) (hpoint : s.acceptThread = .created k) : Inv { s with
    clients := s.clients ++ [k], pushed := s.pushed ++ [k], acceptThread := .accepting } := by
  refine ⟨h.untouched, fun j hj => ?_, congrArg (· ++ [k]) h.pushed, nofun,
    fun j hj => absurd hj List.not_mem_nil⟩
  rcases List.mem_append.mp hj with hj | hj
  · exact h.clients_lt j hj
  · rw [List.mem_singleton.mp hj]
    exact h.created k hpoint

/-- Only the point of its thread changes in a context. -/
theorem Inv.moveThread (h : Inv s) {p p' : ThreadPoint} (hs : s.moveThread k p p' = some s') :
    Inv s' ∧ s'.owed = s.owed := by
  unfold Clients.moveThread at hs
  split at hs
  · cases hs
  · next c hget =>
    split at hs
    · obtain rfl := Option.some.inj hs
      have hc := h.untouched c (List.mem_of_getElem? hget)
      have hlength : (s.contexts.set k { c with th := p' }).length = s.contexts.length :=
        List.length_set
      refine ⟨⟨fun c' hc' => ?_, fun j hj => ?_, h.pushed, fun j hj => ?_, h.toReclaim⟩, rfl⟩
      · rcases List.mem_or_eq_of_mem_set hc' with hc' | rfl
        · exact h.untouched c' hc'
        · exact ⟨hc.isAlive, hc.isTargeted, hc.joins, hc.deletes⟩
      · exact hlength ▸ h.clients_lt j hj
      · exact hlength ▸ h.created j hj
    · cases hs

/-- The two passes change nothing. -/
theorem Inv.checkAndErase (h : Inv s) {returned : List Nat}
    (hpoint : s.acceptThread = .checking returned) : step s .checkAndErase =
      some { s with acceptThread := .accepting, owed := s.owed ++ returned } := by
  simp only [step, hpoint, checkAll_untouched h.untouched h.clients_lt, Option.bind_some,
    eraseTargeted_untouched h.untouched h.clients_lt, Option.map_some]

/-- A step keeps the invariant, and at the end of a call all that was to be removed is owed. -/
theorem inv_step (h : Inv s) (hs : step s a = some s') :
    Inv s' ∧ s'.owed = s.owed ++ s.completes a ∧ ∀ k ∈ s.completes a, k ∈ s'.clients := by
  -- every step but the last of a call
  have hnone : ∀ {s' : Clients}, Inv s' → s'.owed = s.owed →
      Inv s' ∧ s'.owed = s.owed ++ [] ∧ ∀ k ∈ ([] : List Nat), k ∈ s'.clients := by
    intro s' h' howed
    exact ⟨h', howed.trans (List.append_nil _).symm, fun _ hk => absurd hk List.not_mem_nil⟩
  cases a with
  | createClientThread clnt_sock_ allocated =>
    simp only [step] at hs
    split at hs
    · split at hs
      · obtain rfl := Option.some.inj hs
        exact hnone (h.created_context clnt_sock_) rfl
      · obtain rfl := Option.some.inj hs
        exact hnone h rfl
    · cases hs
  | pushBack =>
    simp only [step] at hs
    split at hs
    · next k hpoint =>
      obtain rfl := Option.some.inj hs
      exact hnone (h.pushed_back hpoint) rfl
    · cases hs
  | bufferFails k =>
    obtain ⟨h', howed⟩ := h.moveThread hs
    exact hnone h' howed
  | requestToCleanUpThreads k =>
    obtain ⟨r, hmove, rfl⟩ := Option.map_eq_some_iff.mp hs
    obtain ⟨h', howed⟩ := h.moveThread hmove
    exact hnone ⟨h'.untouched, h'.clients_lt, h'.pushed, h'.created, h'.toReclaim⟩ howed
  | returns k =>
    obtain ⟨h', howed⟩ := h.moveThread hs
    exact hnone h' howed
  | cleanUpThreads =>
    simp only [step] at hs
    split at hs
    · split at hs
      · obtain rfl := Option.some.inj hs
        exact hnone h rfl
      · obtain rfl := Option.some.inj hs
        refine hnone ?_ rfl
        refine ⟨h.untouched, h.clients_lt, h.pushed, nofun, fun k hk => ?_⟩
        exact (List.mem_filter.mp hk).1
    · cases hs
  | storeReqCnt =>
    simp only [step] at hs
    split at hs
    · next returned hpoint =>
      obtain rfl := Option.some.inj hs
      refine hnone ?_ rfl
      refine ⟨h.untouched, h.clients_lt, h.pushed, nofun, fun k hk => ?_⟩
      apply h.toReclaim
      rw [hpoint]
      exact hk
    · cases hs
  | checkAndErase =>
    cases hpoint : s.acceptThread with
    | checking returned =>
      have hkept := h.toReclaim
      rw [h.checkAndErase hpoint] at hs
      obtain rfl := Option.some.inj hs
      rw [completes, hpoint]
      rw [hpoint] at hkept
      refine ⟨⟨h.untouched, h.clients_lt, h.pushed, nofun, fun k hk => ?_⟩, rfl, hkept⟩
      exact absurd hk List.not_mem_nil
    | _ =>
      simp only [step, hpoint] at hs
      cases hs

/-! ## Runs -/

/-- In every run `m_Clients` has every context that has been put in, with the flags and counts of
the constructor. -/
theorem never_reclaimed {n : Nat} {acts : List ClientsAct}
    (hr : run step (init n) acts = some s) :
    s.clients = s.pushed ∧ ∀ c ∈ s.contexts, c.joins = 0 ∧ c.deletes = 0 := by
  have h := run_stable (I := Inv) (fun _ _ _ h hs => (inv_step h hs).1) (inv_init n) hr
  exact ⟨h.pushed.symm, fun c hc => ⟨(h.untouched c hc).joins, (h.untouched c hc).deletes⟩⟩

theorem Inv.reclaims (h : Inv s) (howed : s.owed = []) : Reclaims s := by
  refine ⟨fun k hk => ?_, fun k hk hno => absurd (h.pushed ▸ hk) hno⟩
  rw [howed] at hk
  exact absurd hk List.not_mem_nil

/-- The calls of a run reclaim what they are to if and only if that is nothing. -/
theorem reclaims_iff {n : Nat} {acts : List ClientsAct} (hr : run step (init n) acts = some s) :
    Always step Reclaims (init n) acts ↔ Meets step NothingToReclaim (init n) acts := by
  refine always_iff_meets (I := fun s => Inv s ∧ s.owed = []) (fun s h => h.1.reclaims h.2) ?_ ?_
    ⟨inv_init n, rfl⟩ hr
  · intro s a s' h ha hs
    obtain ⟨h', howed, -⟩ := inv_step h.1 hs
    refine ⟨h', ?_⟩
    rw [howed, h.2, ha]
    rfl
  · intro s a s' h ha hs hreclaims
    obtain ⟨h', howed, hclients⟩ := inv_step h.1 hs
    obtain ⟨k, hk⟩ := List.exists_mem_of_ne_nil _ ha
    -- the context is owed, and it is still in `m_Clients`
    exact hreclaims.owed k (howed ▸ List.mem_append_right _ hk) (hclients k hk)

/-! ## Ten clients -/

/-- Client `k` comes and leaves. -/
def visit (k : Nat) : List ClientsAct :=
  [.createClientThread (k + 4) true, .pushBack, .requestToCleanUpThreads k, .returns k]

/-- `CleanUpThreads`, as far as it gets. -/
def cleanUp : List ClientsAct := [.cleanUpThreads, .storeReqCnt, .checkAndErase]

/-- The memory of `reqCnt` holds 10, so that `CleanUpThreads` passes its test while the only client
is there; when he has left, the counter says nothing yet. -/
def passesOnce : List ClientsAct :=
  [.createClientThread 4 true, .pushBack] ++ cleanUp ++
    [.requestToCleanUpThreads 0, .returns 0, .cleanUpThreads, .createClientThread 5 false]

theorem reclaims_iff_one : (run step (init 10) passesOnce).isSome = true ∧
    Always step Reclaims (init 10) passesOnce := by
  have hrun : (run step (init 10) passesOnce).isSome = true := by decide +kernel
  obtain ⟨s, hs⟩ := Option.isSome_iff_exists.mp hrun
  exact ⟨hrun, (reclaims_iff hs).mpr (by decide +kernel)⟩

/-- Ten threads return, `CleanUpThreads` passes its test, and the ten contexts stay. -/
theorem ten_clients_stay : ¬ ∀ (n : Nat) (acts : List ClientsAct),
    Always step Reclaims (init n) acts := by
  intro h
  have hrun : (run step (init 0) ((List.range 10).flatMap visit ++ cleanUp)).map
      (fun s => (s.owed, s.clients)) = some (List.range 10, List.range 10) := by decide +kernel
  obtain ⟨s, hs, hlists⟩ := Option.map_eq_some_iff.mp hrun
  obtain ⟨howed, hclients⟩ := Prod.mk.inj hlists
  have hreclaims := always_last (h 0 _) hs
  have hzero : 0 ∈ List.range 10 := by decide
  exact hreclaims.owed 0 (howed ▸ hzero) (hclients ▸ hzero)

end Clients

end LinuxServer
