import Mathlib.Data.List.Range
import SocketServerLib.Lib.Holding
import SocketServerLib.Lib.LabelledRun

/-
  The client indices of `CSSocketServer`.

  An index goes from `m_ClientIndexQueue` to the local `idx` of `AcceptLoop`, over the await
  of `AcceptAsync` to a `ClientContext`, and back to the queue in the continuation of its
  `RecvLoop`, which runs whether the task completed or faulted. `contexts` lists every
  context that has been made; a context keeps its place in it when its client has left.

  What is proved:
    1. `step_held` — a step moves an index from one place to another, except that the index
       of an accept that throws is in no place.
    2. `found` — in every run `m_Clients` has the contexts that have been added and not
       removed, each under its index.
    3. `conserved_iff` — in every state of a run each index is in exactly one place, and the
       queue has them all when every client has left, if and only if no accept throws.
    4. `failed_accepts` — after `n` accepts that throw, `n` indices fewer are in the queue.
    5. `index_lost` — an accept that throws.

  What is assumed: an operation on one of the three concurrent collections is one step, and of
  what `AcceptLoop` calls only `AcceptAsync` throws.
-/
namespace CSServer
open Holding LabelledRun

def maxClientCount : Nat := 1024

inductive TaskStatus where
  | running
  | ranToCompletion
  | faulted
  deriving DecidableEq

/-- How far `AcceptLoop` and then the continuation of `RecvLoop` have come with a context. -/
inductive Stage where
  | created
  | inClients
  | inRecvTasks
  | continued
  | leftRecvTasks
  | leftClients
  | enqueued
  deriving DecidableEq

/-- A `ClientContext` and the task of its `RecvLoop`. -/
structure Context where
  index : Nat
  task : TaskStatus
  stage : Stage
  deriving DecidableEq

/-- Where `AcceptLoop` is; `k` is the place of `cc` in `contexts`. -/
inductive AcceptPoint where
  | tryDequeue
  | acceptAsync (idx : Nat)
  | adding (k : Nat)
  | returned
  deriving DecidableEq

/-- How `AcceptAsync` ends. -/
inductive Accepted where
  | socket
  | socketException
  | objectDisposed
  deriving DecidableEq

/-- The entries of a `ConcurrentDictionary`. -/
abbrev Entries := Nat → Option Nat

def Entries.tryAdd (d : Entries) (key value : Nat) : Entries × Bool :=
  if (d key).isSome then (d, false) else (Function.update d key (some value), true)

def Entries.remove (d : Entries) (key : Nat) : Entries := Function.update d key none

structure AcceptState where
  isRun : Bool
  clientIndexQueue : List Nat
  recvTasks : Entries
  clients : Entries
  acceptLoop : AcceptPoint
  contexts : List Context

/-- `RecvLoop` of context `k` ends; its continuation takes its next step. -/
inductive AcceptAct where
  | tryDequeue
  | acceptAsync (r : Accepted)
  | add
  | recvLoop (k : Nat) (faulted : Bool)
  | continuation (k : Nat)
  | close
  deriving DecidableEq

namespace AcceptState

/-- After `CreateIndexPool` and `Init`. -/
def init : AcceptState :=
  { isRun := true
    clientIndexQueue := List.range maxClientCount
    recvTasks := fun _ => none
    clients := fun _ => none
    acceptLoop := .tryDequeue
    contexts := [] }

def setContext (s : AcceptState) (k : Nat) (c : Context) : AcceptState :=
  { s with contexts := s.contexts.set k c }

/-- The top of the loop of `AcceptLoop`. -/
def tryDequeue (s : AcceptState) : AcceptState :=
  if s.isRun then
    match s.clientIndexQueue with
    -- `Task.Delay(20)` and `continue`
    | [] => s
    | idx :: rest => { s with clientIndexQueue := rest, acceptLoop := .acceptAsync idx }
  else { s with acceptLoop := .returned }

/-- `AcceptAsync` with `idx` in hand, and its `catch` clauses. -/
def acceptAsync (s : AcceptState) (idx : Nat) : Accepted → AcceptState
  | .socket =>
    { s with
      contexts := s.contexts ++ [{ index := idx, task := .running, stage := .created }]
      acceptLoop := .adding s.contexts.length }
  | .socketException => { s with acceptLoop := .tryDequeue }
  | .objectDisposed => { s with acceptLoop := .returned }

/-- What `AcceptLoop` does with context `k` after `RecvLoop` is called. -/
def add (s : AcceptState) (k : Nat) (cc : Context) : Option AcceptState :=
  match cc.stage with
  | .created => some { s.setContext k { cc with stage := .inClients } with
      clients := (s.clients.tryAdd cc.index k).1 }
  | .inClients => some { s.setContext k { cc with stage := .inRecvTasks } with
      recvTasks := (s.recvTasks.tryAdd cc.index k).1 }
  | .inRecvTasks => some { s.setContext k { cc with stage := .continued } with
      acceptLoop := .tryDequeue }
  | _ => none

/-- What the continuation of `RecvLoop` does with context `k`. -/
def continuation (s : AcceptState) (k : Nat) (cc : Context) : Option AcceptState :=
  match cc.stage with
  | .continued => some { s.setContext k { cc with stage := .leftRecvTasks } with
      recvTasks := s.recvTasks.remove cc.index }
  | .leftRecvTasks => some { s.setContext k { cc with stage := .leftClients } with
      clients := s.clients.remove cc.index }
  | .leftClients => some { s.setContext k { cc with stage := .enqueued } with
      clientIndexQueue := s.clientIndexQueue ++ [cc.index] }
  | _ => none

def step (s : AcceptState) : AcceptAct → Option AcceptState
  | .tryDequeue => if s.acceptLoop = .tryDequeue then some s.tryDequeue else none
  | .acceptAsync r =>
    match s.acceptLoop with
    | .acceptAsync idx => some (s.acceptAsync idx r)
    | _ => none
  | .add =>
    match s.acceptLoop with
    | .adding k => (s.contexts[k]?).bind (s.add k)
    | _ => none
  | .recvLoop k faulted =>
    match s.contexts[k]? with
    | some c =>
      if c.task = .running then
        some (s.setContext k { c with task := if faulted then .faulted else .ranToCompletion })
      else none
    | none => none
  | .continuation k =>
    match s.contexts[k]? with
    | some c => if c.task = .running then none else s.continuation k c
    | none => none
  | .close => some { s with isRun := false }

/-! ## The places of an index -/

inductive Place where
  | queue
  | accept
  | client (k : Nat)
  deriving DecidableEq

def ofAccept : AcceptPoint → List Nat
  | .acceptAsync idx => [idx]
  | _ => []

/-- The client is active until its index is back in the queue. -/
def ofContext (c : Context) : List Nat := if c.stage = .enqueued then [] else [c.index]

/-- The indices in a place. -/
def held (s : AcceptState) : Place → List Nat
  | .queue => s.clientIndexQueue
  | .accept => ofAccept s.acceptLoop
  | .client k => (s.contexts[k]?).elim [] ofContext

/-- Each index is in exactly one place, so that the queue has them all when the clients have left
and no accept is in progress. -/
structure Conserved (s : AcceptState) : Prop where
  places : Exclusive s.held (· ∈ List.range maxClientCount)
  full : (∀ c ∈ s.contexts, c.stage = .enqueued) → (∀ idx, s.acceptLoop ≠ .acceptAsync idx) →
    s.clientIndexQueue.Perm (List.range maxClientCount)

/-- `AcceptAsync` does not throw. -/
def Accepts (_ : AcceptState) : AcceptAct → Prop
  | .acceptAsync r => r = .socket
  | _ => True

instance (s : AcceptState) : DecidablePred s.Accepts
  | .acceptAsync r => inferInstanceAs (Decidable (r = .socket))
  | .tryDequeue => .isTrue trivial
  | .add => .isTrue trivial
  | .recvLoop _ _ => .isTrue trivial
  | .continuation _ => .isTrue trivial
  | .close => .isTrue trivial

variable {s s' : AcceptState} {a : AcceptAct} {k idx : Nat} {c c' : Context}
  {live : Nat → Prop}

theorem held_client (hk : s.contexts[k]? = some c) : s.held (.client k) = ofContext c := by
  rw [held, hk]
  rfl

/-- When every client has left, what is live is in the queue. -/
theorem Conserved.of_places (h : Exclusive s.held (· ∈ List.range maxClientCount)) :
    s.Conserved := by
  refine ⟨h, fun hleft hidle => ?_⟩
  have hnodup : s.clientIndexQueue.Nodup := h.nodup .queue
  rw [List.perm_ext_iff_of_nodup hnodup List.nodup_range]
  intro idx
  rw [h.live_iff]
  refine ⟨fun hq => ⟨.queue, hq⟩, fun hex => ?_⟩
  obtain ⟨o, ho⟩ := hex
  cases o with
  | queue => exact ho
  | accept =>
    cases hloop : s.acceptLoop with
    | acceptAsync j => exact absurd hloop (hidle j)
    | _ =>
      rw [held, hloop] at ho
      cases ho
  | client k =>
    cases hk : s.contexts[k]? with
    | none =>
      rw [held, hk] at ho
      cases ho
    | some c =>
      rw [held_client hk, ofContext, if_pos (hleft c (List.mem_of_getElem? hk))] at ho
      cases ho

/-! ## The dictionaries -/

/-- Between `TryAdd` and `Remove` of `m_Clients`. -/
def InClients : Stage → Prop
  | .inClients | .inRecvTasks | .continued | .leftRecvTasks => True
  | _ => False

/-- Between `TryAdd` and `Remove` of `m_RecvTasks`. -/
def InRecvTasks : Stage → Prop
  | .inRecvTasks | .continued => True
  | _ => False

/-- A dictionary has the contexts of some stages, each under its index. -/
def Found (stages : Stage → Prop) (d : Entries) (cs : List Context) : Prop :=
  ∀ idx k, d idx = some k ↔ ∃ c, cs[k]? = some c ∧ c.index = idx ∧ stages c.stage

section Found

variable {stages : Stage → Prop} {d : Entries} {cs : List Context}

theorem Found.append (h : Found stages d cs) (hc : ¬ stages c.stage) :
    Found stages d (cs ++ [c]) := by
  intro idx k
  rw [h]
  refine exists_congr fun b => ⟨fun hb => ⟨?_, hb.2⟩, fun hb => ?_⟩
  · obtain ⟨hlt, -⟩ := List.getElem?_eq_some_iff.mp hb.1
    rw [List.getElem?_append_left hlt]
    exact hb.1
  · obtain ⟨hk, hidx, hstage⟩ := hb
    rw [List.getElem?_append] at hk
    split at hk
    · exact ⟨hk, hidx, hstage⟩
    · obtain rfl := List.mem_singleton.mp (List.mem_of_getElem? hk)
      exact absurd hstage hc

/-- What is in the list after one context is changed. -/
theorem exists_set_iff (hk : cs[k]? = some c) (j : Nat) (P : Context → Prop) :
    (∃ b, (cs.set k c')[j]? = some b ∧ P b) ↔
      if j = k then P c' else ∃ b, cs[j]? = some b ∧ P b := by
  obtain ⟨hlt, -⟩ := List.getElem?_eq_some_iff.mp hk
  split
  · next he =>
    subst he
    rw [List.getElem?_set_self hlt]
    simp
  · next he => rw [List.getElem?_set_ne (Ne.symm he)]

/-- A change of stage that the dictionary does not see. -/
theorem Found.set (h : Found stages d cs) (hk : cs[k]? = some c) (hidx : c'.index = c.index)
    (hstage : stages c'.stage ↔ stages c.stage) : Found stages d (cs.set k c') := by
  intro idx j
  rw [h, exists_set_iff hk]
  split
  · next he =>
    subst he
    rw [hk, hidx, hstage]
    simp
  · rfl

theorem Found.tryAdd (h : Found stages d cs) (hk : cs[k]? = some c) (hidx : c'.index = c.index)
    (hnone : d c.index = none) (hstage : stages c'.stage) :
    Found stages (d.tryAdd c.index k).1 (cs.set k c') := by
  intro idx j
  rw [exists_set_iff hk, Entries.tryAdd, hnone]
  simp only [Option.isSome_none, Bool.false_eq_true, if_false]
  by_cases hi : idx = c.index
  · subst hi
    rw [Function.update_self, Option.some.injEq]
    split
    · next he => exact ⟨fun _ => ⟨hidx, hstage⟩, fun _ => he.symm⟩
    · next he =>
      rw [← h, hnone]
      exact ⟨fun hj => absurd hj.symm he, fun hj => absurd hj (by simp)⟩
  · rw [Function.update_of_ne hi, h]
    split
    · next he =>
      subst he
      rw [hk, hidx]
      simp [Ne.symm hi]
    · rfl

theorem Found.remove (h : Found stages d cs) (hk : cs[k]? = some c) (hc : stages c.stage)
    (hc' : ¬ stages c'.stage) : Found stages (d.remove c.index) (cs.set k c') := by
  have hd : d c.index = some k := (h _ _).mpr ⟨c, hk, rfl, hc⟩
  intro idx j
  rw [exists_set_iff hk, Entries.remove]
  by_cases hi : idx = c.index
  · subst hi
    rw [Function.update_self]
    split
    · simp [hc']
    · next he =>
      rw [← h, hd, Option.some.injEq]
      exact ⟨fun hj => absurd hj (by simp), fun hj => absurd hj.symm he⟩
  · rw [Function.update_of_ne hi, h]
    split
    · next he =>
      subst he
      rw [hk]
      simp [Ne.symm hi, hc']
    · rfl

end Found

/-! ## One step -/

/-- The indices in `live` are each in one place, and the dictionaries have the contexts. -/
structure Inv (live : Nat → Prop) (s : AcceptState) : Prop where
  places : Exclusive s.held live
  clients : Found InClients s.clients s.contexts
  recvTasks : Found InRecvTasks s.recvTasks s.contexts

/-- Two contexts with one index are not both active. -/
theorem Inv.only (h : Inv live s) (hk : s.contexts[k]? = some c) (hc : c.stage ≠ .enqueued)
    {j : Nat} (hj : s.contexts[j]? = some c') (hc' : c'.stage ≠ .enqueued)
    (he : c'.index = c.index) : j = k := by
  have hmem : ∀ {j : Nat} {b : Context}, s.contexts[j]? = some b → b.stage ≠ .enqueued →
      b.index ∈ s.held (.client j) := by
    intro j b hj hb
    rw [held_client hj, ofContext, if_neg hb]
    exact List.mem_singleton_self _
  exact Place.client.inj (h.places.apart _ _ _ (hmem hj hc') (he ▸ hmem hk hc))

/-- The places do not see a change of a context that leaves its index where it is. -/
theorem held_set (hk : s.contexts[k]? = some c) (hheld : ofContext c' = ofContext c)
    (hcontexts : s'.contexts = s.contexts.set k c')
    (hqueue : s'.clientIndexQueue = s.clientIndexQueue)
    (haccept : ofAccept s'.acceptLoop = ofAccept s.acceptLoop) (o : Place) :
    s'.held o = s.held o := by
  cases o with
  | queue => exact hqueue
  | accept => exact haccept
  | client j =>
    by_cases he : j = k
    · subst he
      obtain ⟨hlt, -⟩ := List.getElem?_eq_some_iff.mp hk
      have hj : s'.contexts[j]? = some c' := by rw [hcontexts, List.getElem?_set_self hlt]
      rw [held_client hk, held_client hj, hheld]
    · rw [held, held, hcontexts, List.getElem?_set_ne (Ne.symm he)]

theorem Inv.tryDequeue (h : s.Inv live) (hloop : s.acceptLoop = .tryDequeue) :
    s.tryDequeue.Inv live := by
  have haccept : s.held .accept = [] := by rw [held, hloop]; rfl
  unfold AcceptState.tryDequeue
  split
  · split
    · exact h
    · next idx rest hqueue =>
      refine ⟨h.places.transfer .queue .accept nofun ?_ ?_, h.clients, h.recvTasks⟩
      · have hq : s.held .queue = idx :: rest := hqueue
        rw [haccept, hq, List.append_nil]
        exact List.perm_append_singleton idx rest
      · intro o hq ha
        cases o with
        | queue => exact absurd rfl hq
        | accept => exact absurd rfl ha
        | client k => rfl
  · refine ⟨h.places.congr (fun o => ?_) fun _ => Iff.rfl, h.clients, h.recvTasks⟩
    cases o with
    | accept => exact haccept.symm
    | _ => rfl

/-- The index goes from the local variable to the new context. -/
theorem Inv.accept_socket (h : s.Inv live) (hloop : s.acceptLoop = .acceptAsync idx) :
    (s.acceptAsync idx .socket).Inv live := by
  have haccept : s.held .accept = [idx] := by rw [held, hloop]; rfl
  have hnew : s.held (.client s.contexts.length) = [] := by
    rw [held, List.getElem?_eq_none (Nat.le_refl _)]
    rfl
  refine ⟨h.places.transfer .accept (.client s.contexts.length) nofun ?_ ?_,
    h.clients.append id, h.recvTasks.append id⟩
  · have hnew' : (s.acceptAsync idx .socket).held (.client s.contexts.length) = [idx] :=
      held_client (c := { index := idx, task := .running, stage := .created })
        List.getElem?_concat_length
    rw [haccept, hnew, hnew', List.append_nil]
    exact List.Perm.refl _
  · intro o ha hk
    cases o with
    | queue => rfl
    | accept => exact absurd rfl ha
    | client j =>
      have hj : j ≠ s.contexts.length := fun he => hk (congrArg Place.client he)
      show ((s.contexts ++ [_])[j]?).elim [] ofContext = (s.contexts[j]?).elim [] ofContext
      rw [List.getElem?_append]
      split
      · rfl
      · next hlt =>
        rw [List.getElem?_eq_none (by simp; omega), List.getElem?_eq_none (by omega)]

/-- The index of an accept that throws is in no place. -/
theorem Inv.accept_throws (h : s.Inv live) (hloop : s.acceptLoop = .acceptAsync idx) {r : Accepted}
    (hr : r ≠ .socket) : (s.acceptAsync idx r).Inv fun i => i ≠ idx ∧ live i := by
  have haccept : s.held .accept = [idx] := by rw [held, hloop]; rfl
  cases r with
  | socket => exact absurd rfl hr
  | _ =>
    refine ⟨h.places.destroy (o := .accept) haccept (fun o ho => ?_) fun _ => Iff.rfl, h.clients,
      h.recvTasks⟩
    cases o with
    | accept => exact absurd rfl ho
    | _ => rfl

/-- `TryAdd` does not refuse: the context that had the index before has left. -/
theorem Inv.not_in (h : s.Inv live) {stages : Stage → Prop} {d : Entries}
    (hd : Found stages d s.contexts) (hstages : ∀ st, stages st → st ≠ .enqueued)
    (hk : s.contexts[k]? = some c) (hc : c.stage ≠ .enqueued) (hno : ¬ stages c.stage) :
    d c.index = none := by
  cases hj : d c.index with
  | none => rfl
  | some j =>
    obtain ⟨b, hb, hidx, hstage⟩ := (hd _ _).mp hj
    obtain rfl := h.only hk hc hb (hstages _ hstage) hidx
    obtain rfl := Option.some.inj (hk.symm.trans hb)
    exact absurd hstage hno

theorem inClients_active (st : Stage) (h : InClients st) : st ≠ .enqueued := by
  rintro rfl
  exact h

theorem inRecvTasks_active (st : Stage) (h : InRecvTasks st) : st ≠ .enqueued := by
  rintro rfl
  exact h

theorem Inv.add (h : s.Inv live) (hloop : s.acceptLoop = .adding k) (hk : s.contexts[k]? = some c)
    (ha : s.add k c = some s') : s'.Inv live := by
  have haccept : ofAccept s.acceptLoop = [] := by rw [hloop]; rfl
  obtain ⟨index, task, stage⟩ := c
  cases stage with
  | created =>
    obtain rfl := Option.some.inj ha
    have hnone : s.clients index = none := h.not_in h.clients inClients_active hk nofun id
    refine ⟨h.places.congr (held_set hk ?_ rfl rfl rfl) fun _ => Iff.rfl,
      h.clients.tryAdd hk rfl hnone trivial, h.recvTasks.set hk rfl Iff.rfl⟩
    rfl
  | inClients =>
    obtain rfl := Option.some.inj ha
    have hnone : s.recvTasks index = none := h.not_in h.recvTasks inRecvTasks_active hk nofun id
    refine ⟨h.places.congr (held_set hk ?_ rfl rfl rfl) fun _ => Iff.rfl,
      h.clients.set hk rfl Iff.rfl, h.recvTasks.tryAdd hk rfl hnone trivial⟩
    rfl
  | inRecvTasks =>
    obtain rfl := Option.some.inj ha
    refine ⟨h.places.congr (held_set hk ?_ rfl rfl haccept.symm) fun _ => Iff.rfl,
      h.clients.set hk rfl Iff.rfl, h.recvTasks.set hk rfl Iff.rfl⟩
    rfl
  | _ => cases ha

/-- The index goes from the context back to the queue. -/
theorem places_enqueue {index : Nat} {task : TaskStatus} (h : Exclusive s.held live)
    (hk : s.contexts[k]? = some { index := index, task := task, stage := .leftClients }) :
    Exclusive (held { s.setContext k { index := index, task := task, stage := .enqueued } with
      clientIndexQueue := s.clientIndexQueue ++ [index] }) live := by
  obtain ⟨hlt, -⟩ := List.getElem?_eq_some_iff.mp hk
  refine h.transfer (.client k) .queue nofun ?_ ?_
  · have hafter : held { s.setContext k { index := index, task := task, stage := .enqueued } with
        clientIndexQueue := s.clientIndexQueue ++ [index] } (.client k) = [] :=
      held_client (c := { index := index, task := task, stage := .enqueued })
        (List.getElem?_set_self hlt)
    rw [held_client hk, hafter]
    exact List.perm_append_singleton index s.clientIndexQueue
  · intro o hkey hq
    cases o with
    | queue => exact absurd rfl hq
    | accept => rfl
    | client j =>
      have hj : k ≠ j := fun he => hkey (congrArg Place.client he.symm)
      show ((s.contexts.set k _)[j]?).elim [] ofContext = (s.contexts[j]?).elim [] ofContext
      rw [List.getElem?_set_ne hj]

theorem Inv.continuation (h : s.Inv live) (hk : s.contexts[k]? = some c)
    (ha : s.continuation k c = some s') : s'.Inv live := by
  obtain ⟨index, task, stage⟩ := c
  cases stage with
  | continued =>
    obtain rfl := Option.some.inj ha
    refine ⟨h.places.congr (held_set hk ?_ rfl rfl rfl) fun _ => Iff.rfl,
      h.clients.set hk rfl Iff.rfl, h.recvTasks.remove hk trivial id⟩
    rfl
  | leftRecvTasks =>
    obtain rfl := Option.some.inj ha
    refine ⟨h.places.congr (held_set hk ?_ rfl rfl rfl) fun _ => Iff.rfl,
      h.clients.remove hk trivial id, h.recvTasks.set hk rfl Iff.rfl⟩
    rfl
  | leftClients =>
    obtain rfl := Option.some.inj ha
    exact ⟨places_enqueue h.places hk, h.clients.set hk rfl Iff.rfl, h.recvTasks.set hk rfl Iff.rfl⟩
  | _ => cases ha

/-- A step keeps every index in its one place, except that of an accept that throws. -/
theorem step_held (h : s.Inv live) (hs : step s a = some s') :
    ∃ live', s'.Inv live' ∧ (s.Accepts a → live' = live) := by
  cases a with
  | tryDequeue =>
    simp only [step] at hs
    split at hs
    · next hloop =>
      obtain rfl := Option.some.inj hs
      exact ⟨live, h.tryDequeue hloop, fun _ => rfl⟩
    · cases hs
  | acceptAsync r =>
    simp only [step] at hs
    split at hs
    · next idx hloop =>
      obtain rfl := Option.some.inj hs
      by_cases hr : r = .socket
      · subst hr
        exact ⟨live, h.accept_socket hloop, fun _ => rfl⟩
      · exact ⟨_, h.accept_throws hloop hr, fun ha => absurd ha hr⟩
    · cases hs
  | add =>
    simp only [step] at hs
    split at hs
    · next k hloop =>
      obtain ⟨c, hk, ha⟩ := Option.bind_eq_some_iff.mp hs
      exact ⟨live, h.add hloop hk ha, fun _ => rfl⟩
    · cases hs
  | recvLoop k faulted =>
    simp only [step] at hs
    split at hs
    · next c hk =>
      split at hs
      · obtain rfl := Option.some.inj hs
        refine ⟨live, ⟨h.places.congr (held_set hk ?_ rfl rfl rfl) fun _ => Iff.rfl,
          h.clients.set hk rfl Iff.rfl, h.recvTasks.set hk rfl Iff.rfl⟩, fun _ => rfl⟩
        rfl
      · cases hs
    · cases hs
  | continuation k =>
    simp only [step] at hs
    split at hs
    · next c hk =>
      split at hs
      · cases hs
      · exact ⟨live, h.continuation hk hs, fun _ => rfl⟩
    · cases hs
  | close =>
    obtain rfl := Option.some.inj hs
    exact ⟨live, ⟨h.places.congr (fun o => by cases o <;> rfl) fun _ => Iff.rfl, h.clients,
      h.recvTasks⟩, fun _ => rfl⟩

theorem inv_init : Inv (· ∈ List.range maxClientCount) init := by
  have hqueue : init.held .queue = List.range maxClientCount := by rw [held, init]
  refine ⟨Exclusive.init List.nodup_range hqueue fun o ho => ?_, ?_, ?_⟩
  · cases o with
    | queue => exact absurd rfl ho
    | _ => rfl
  · intro idx k
    simp [init]
  · intro idx k
    simp [init]

/-! ## Runs -/

/-- In every run no index is in two places, and the dictionaries have the contexts that have been
added and not removed. -/
theorem found {acts : List AcceptAct} (hr : run step init acts = some s) :
    Exclusive s.held (fun idx => ∃ o, idx ∈ s.held o) ∧ Found InClients s.clients s.contexts ∧
      Found InRecvTasks s.recvTasks s.contexts := by
  obtain ⟨live, h⟩ := run_stable (I := fun s => ∃ live, s.Inv live)
    (fun s a s' h hs => by
      obtain ⟨live, h⟩ := h
      obtain ⟨live', h', -⟩ := step_held h hs
      exact ⟨live', h'⟩)
    ⟨_, inv_init⟩ hr
  refine ⟨h.places.congr (fun _ => rfl) fun idx => ?_, h.clients, h.recvTasks⟩
  exact (h.places.live_iff idx).symm

/-- In every state of a run each index is in exactly one place if and only if no accept throws. -/
theorem conserved_iff {acts : List AcceptAct} (hr : run step init acts = some s) :
    Always step Conserved init acts ↔ Meets step Accepts init acts := by
  refine always_iff_meets (I := Inv (· ∈ List.range maxClientCount))
    (fun s h => .of_places h.places) ?_ ?_ inv_init hr
  · intro s a s' h ha hs
    obtain ⟨live', h', hlive⟩ := step_held h hs
    obtain rfl := hlive ha
    exact h'
  · intro s a s' h ha hs hconserved
    cases a with
    | acceptAsync r =>
      simp only [step] at hs
      split at hs
      · next idx hloop =>
        obtain rfl := Option.some.inj hs
        have haccept : s.held .accept = [idx] := by rw [held, hloop]; rfl
        -- the index is live, and the throw leaves it nowhere
        have hlive : idx ∈ List.range maxClientCount :=
          (h.places.live_iff idx).mpr ⟨.accept, haccept ▸ List.mem_singleton_self idx⟩
        obtain ⟨o, ho⟩ := (hconserved.places.live_iff idx).mp hlive
        exact (((h.accept_throws hloop ha).places.live_iff idx).mpr ⟨o, ho⟩).1 rfl
      · cases hs
    | _ => exact ha trivial

/-- A client comes and leaves. -/
theorem conserved_iff_visit : Always step Conserved init
    [.tryDequeue, .acceptAsync .socket, .add, .recvLoop 0 true, .add, .add, .tryDequeue,
      .continuation 0, .continuation 0, .continuation 0] := by
  have hrun : (run step init [.tryDequeue, .acceptAsync .socket, .add, .recvLoop 0 true, .add, .add,
      .tryDequeue, .continuation 0, .continuation 0, .continuation 0]).isSome = true := by
    decide +kernel
  obtain ⟨s, hs⟩ := Option.isSome_iff_exists.mp hrun
  exact (conserved_iff hs).mpr (by decide +kernel)

/-- Every accept that throws takes one more index out of the queue. -/
theorem failed_accepts (hrun : s.isRun = true) (hloop : s.acceptLoop = .tryDequeue) (n : Nat)
    (hn : n ≤ s.clientIndexQueue.length) :
    run step s (List.replicate n [.tryDequeue, .acceptAsync .socketException]).flatten =
      some { s with clientIndexQueue := s.clientIndexQueue.drop n } := by
  induction n generalizing s with
  | zero => rfl
  | succ n ih =>
    obtain ⟨isRun, queue, recvTasks, clients, loop, contexts⟩ := s
    obtain rfl : isRun = true := hrun
    obtain rfl : loop = .tryDequeue := hloop
    cases queue with
    | nil => exact absurd hn (by simp)
    | cons idx rest =>
      rw [List.replicate_succ, List.flatten_cons, List.cons_append, List.cons_append,
        List.nil_append, run_cons_eq_some]
      refine ⟨_, rfl, run_cons_eq_some.mpr ⟨_, rfl, ?_⟩⟩
      exact ih rfl rfl (Nat.le_of_succ_le_succ hn)

/-- One accept throws, and index 0 is in no place. -/
theorem index_lost : ¬ ∀ (acts : List AcceptAct) (s : AcceptState),
    run step init acts = some s → s.Conserved := by
  intro h
  have hrun : (run step init [.tryDequeue, .acceptAsync .socketException]).map
      (fun s => (decide (0 ∈ s.clientIndexQueue), s.acceptLoop, s.contexts)) =
        some (false, .tryDequeue, []) := by decide +kernel
  obtain ⟨s, hs, hend⟩ := Option.map_eq_some_iff.mp hrun
  obtain ⟨hqueue, hend⟩ := Prod.mk.inj hend
  obtain ⟨hloop, hcontexts⟩ := Prod.mk.inj hend
  have hlive : 0 ∈ List.range maxClientCount := List.mem_range.mpr (by decide)
  obtain ⟨o, ho⟩ := ((h _ s hs).places.live_iff 0).mp hlive
  cases o with
  | queue => exact of_decide_eq_false hqueue ho
  | accept =>
    rw [held, hloop] at ho
    exact List.not_mem_nil ho
  | client k =>
    rw [held, hcontexts] at ho
    exact List.not_mem_nil ho

end AcceptState

end CSServer
