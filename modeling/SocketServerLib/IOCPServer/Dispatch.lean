import SocketServerLib.IOCPServer.SendStream

/-
  The completion dispatcher: what `IOCPServer::WorkerThread` does with one entry.

  An entry carries a pointer to the overlapped it was posted with, and `m_eOperation` is read
  from there three times: by the zero-byte test, inside the error switch and by the operation
  switch at the end. A `Connection` has one overlapped for its sends and one, `m_RecvOverlapped`,
  for `WSARecv` and `AcceptEx` both. `RecvSide` is that one and the flag that `BindRecv` tests.
  `socket` answers whether `WSASocket`, called by `BindAcceptEx`, gives a socket; without one
  `BindAcceptEx` returns before it writes the operation.

  What is proved:
    1. `workerThread_skipped`, `workerThread_reached` — which entries get to the operation
       switch, and the handler that it runs.
    2. `handler_posted_iff` — that handler is the one of the posted operation if and only if the
       entry is a send, or is not handled, or the error switch resets the connection but gets no
       socket, or does not reset it and the overlapped has kept the operation.
    3. `reset_then_accepted` — the error switch resets the connection of a receive, and
       `DoAccept` runs for it.

  What is assumed: the overlapped of an entry is not null, and no other thread writes to it while
  the entry is handled.
-/
namespace IOCPServer

inductive EIOOperation where
  | RECV
  | SEND
  | ACCEPT
  deriving DecidableEq, Repr

/-! ## Values of `entry.Internal` -/

def statusCancelled : Nat := 0xC0000120
def errorNetnameDeleted : Nat := 64
def errorConnectionAborted : Nat := 1236

/-- The two statuses that say that the peer is gone. -/
def Gone (internal : Nat) : Prop :=
  internal = errorNetnameDeleted ∨ internal = errorConnectionAborted

instance : DecidablePred Gone := fun _ => inferInstanceAs (Decidable (_ ∨ _))

/-- A completion entry whose overlapped is not null. `posted` is the operation that was posted,
`key` is `lpCompletionKey`: the index of the `Connection`, or `none` for the 0 that the listen
socket is registered with. -/
structure CompletionEntry where
  posted : EIOOperation
  key : Option Nat
  iosize : Nat
  internal : Nat
  registered : key.isSome ↔ posted ≠ .ACCEPT

/-! ## The receive side of a connection -/

/-- `recvOperation` is `m_RecvOverlapped.m_eOperation`. -/
structure RecvSide where
  recvOperation : EIOOperation
  isConnected : Bool
  not_send : recvOperation ≠ .SEND

namespace RecvSide

def close (c : RecvSide) : RecvSide := { c with isConnected := false }

/-- `ZeroMemory` of the overlapped leaves the enumerator 0. -/
def init (_ : RecvSide) : RecvSide :=
  { recvOperation := .RECV, isConnected := false, not_send := by decide }

def bindAcceptEx (c : RecvSide) (socket : Bool) : RecvSide :=
  if socket = true then { c with recvOperation := .ACCEPT, not_send := by decide } else c

def resetConnection (c : RecvSide) (socket : Bool) : RecvSide := c.init.bindAcceptEx socket

def bindRecv (c : RecvSide) : RecvSide :=
  if c.isConnected = true then { c with recvOperation := .RECV, not_send := by decide } else c

/-- `pOverlapped->m_eOperation`, where `pOverlapped` is what the operation was posted with. -/
def operation (c : RecvSide) (posted : EIOOperation) : EIOOperation :=
  if posted = .SEND then .SEND else c.recvOperation

end RecvSide

/-- The calls the dispatcher makes. -/
inductive Call where
  | close
  | resetConnection
  | onDisconnect (uClientIndex_ : Nat)
  | reSend
  | bindRecv
  | doAccept
  | doRecv (ioSize_ : Nat)
  | doSend
  deriving DecidableEq, Repr

/-! ## The switches -/

/-- The error switch: its calls, and the connection that the operation switch finds, or `none`
after a `continue`. The whole is `none` where it uses a null `pConnection`. -/
def errorSwitch (c : RecvSide) (socket : Bool) (e : CompletionEntry) :
    Option (List Call × Option RecvSide) :=
  if e.internal = statusCancelled then some ([], none)
  else if Gone e.internal then
    e.key.map fun i =>
      ([.close, .resetConnection, .onDisconnect i], some (c.close.resetConnection socket))
  else if Retryable e.internal then
    match c.operation e.posted with
    | .SEND => e.key.map fun _ => ([.reSend], some c)
    | .RECV => e.key.map fun _ => ([.bindRecv], some c.bindRecv)
    | .ACCEPT => e.key.map fun _ =>
      ([.close, .resetConnection], some (c.close.resetConnection socket))
  else e.key.map fun _ => ([.close, .resetConnection], some (c.close.resetConnection socket))

def operationSwitch (iosize : Nat) : EIOOperation → Call
  | .ACCEPT => .doAccept
  | .RECV => .doRecv iosize
  | .SEND => .doSend

/-- The calls before the operation switch, and the handler that it runs. -/
def workerThread (c : RecvSide) (socket : Bool) (e : CompletionEntry) :
    Option (List Call × Option Call) :=
  if e.iosize = 0 ∧ c.operation e.posted ≠ .ACCEPT then
    e.key.map fun i => ([.resetConnection, .onDisconnect i], none)
  else if e.internal ≠ 0 then
    (errorSwitch c socket e).map fun r =>
      (r.1, r.2.map fun c' => operationSwitch e.iosize (c'.operation e.posted))
  else some ([], some (operationSwitch e.iosize (c.operation e.posted)))

/-! ## The handler that runs -/

/-- Control does not get to the operation switch: the zero-byte test or a cancelled operation
takes the entry, or its error switch uses the null `pConnection` of an accept. -/
def Skipped (c : RecvSide) (e : CompletionEntry) : Prop :=
  (e.iosize = 0 ∧ c.operation e.posted ≠ .ACCEPT) ∨ e.internal = statusCancelled ∨
    (e.internal ≠ 0 ∧ e.posted = .ACCEPT)

/-- The error switch resets the connection. -/
def Resets (c : RecvSide) (e : CompletionEntry) : Prop :=
  e.internal ≠ 0 ∧ e.internal ≠ statusCancelled ∧
    (Retryable e.internal → c.operation e.posted = .ACCEPT)

instance (c : RecvSide) (e : CompletionEntry) : Decidable (Skipped c e) :=
  inferInstanceAs (Decidable (_ ∨ _ ∨ _))

instance (c : RecvSide) (e : CompletionEntry) : Decidable (Resets c e) :=
  inferInstanceAs (Decidable (_ ∧ _ ∧ (_ → _)))

/-- If the operation switch is reached, the handler run is that of the posted operation. -/
def HandledAsPosted (c : RecvSide) (socket : Bool) (e : CompletionEntry) : Prop :=
  ∀ calls handler, workerThread c socket e = some (calls, some handler) →
    handler = operationSwitch e.iosize e.posted

/-- A send has an overlapped of its own. For the others, what the switch reads is the operation
the overlapped held before, unless the connection is reset with a new socket in between. -/
def KeepsOperation (c : RecvSide) (socket : Bool) (e : CompletionEntry) : Prop :=
  e.posted = .SEND ∨ Skipped c e ∨
    if Resets c e then socket = false else c.recvOperation = e.posted

variable {c : RecvSide} {socket : Bool} {e : CompletionEntry}

theorem operationSwitch_injective (iosize : Nat) {op op' : EIOOperation}
    (h : operationSwitch iosize op = operationSwitch iosize op') : op = op' := by
  cases op <;> cases op' <;> first | rfl | cases h

namespace RecvSide

theorem operation_of_ne (h : e.posted ≠ .SEND) : c.operation e.posted = c.recvOperation :=
  if_neg h

theorem operation_send (h : e.posted = .SEND) : c.operation e.posted = .SEND := if_pos h

/-- `BindRecv` is called where the operation is RECV already. -/
theorem operation_bindRecv (h : c.operation e.posted = .RECV) :
    c.bindRecv.operation e.posted = .RECV := by
  have hne : e.posted ≠ .SEND := by
    intro hsend
    rw [operation_send hsend] at h
    cases h
  rw [operation_of_ne hne] at h ⊢
  unfold bindRecv
  split
  · rfl
  · exact h

/-- What `ResetConnection` leaves in the overlapped. -/
theorem recvOperation_resetConnection (c : RecvSide) (socket : Bool) :
    (c.resetConnection socket).recvOperation = if socket = true then .ACCEPT else .RECV := by
  cases socket <;> rfl

end RecvSide

open RecvSide

theorem Gone.not_retryable {n : Nat} (h : Gone n) : ¬ Retryable n := by
  rcases h with rfl | rfl <;> decide

theorem Retryable.ne_zero {n : Nat} (h : Retryable n) : n ≠ 0 := by
  rcases h with rfl | rfl | rfl <;> decide

/-- With an accept the error switch has no connection to use. -/
theorem errorSwitch_accept (h : e.posted = .ACCEPT) (hcancel : e.internal ≠ statusCancelled) :
    errorSwitch c socket e = none := by
  have hkey : e.key = none := by
    rw [← Option.not_isSome_iff_eq_none, e.registered]
    exact fun hne => hne h
  unfold errorSwitch
  rw [if_neg hcancel, hkey]
  split
  · rfl
  · split
    · cases c.operation e.posted <;> rfl
    · rfl

theorem workerThread_skipped (h : Skipped c e) (calls : List Call) (handler : Call) :
    workerThread c socket e ≠ some (calls, some handler) := by
  intro hrun
  unfold workerThread at hrun
  split at hrun
  · cases hkey : e.key <;> rw [hkey] at hrun <;> cases hrun
  · next hbytes =>
    rcases h with h | h | ⟨hzero, h⟩
    · exact hbytes h
    · rw [if_pos (by rw [h]; decide), errorSwitch, if_pos h] at hrun
      cases hrun
    · rw [if_pos hzero] at hrun
      by_cases hcancel : e.internal = statusCancelled
      · rw [errorSwitch, if_pos hcancel] at hrun
        cases hrun
      · rw [errorSwitch_accept h hcancel] at hrun
        cases hrun

/-- The error switch, of an entry with a connection that is not dropped. -/
theorem errorSwitch_reached (c : RecvSide) (socket : Bool) (hzero : e.internal ≠ 0)
    (hcancel : e.internal ≠ statusCancelled) (hkey : e.posted ≠ .ACCEPT) :
    ∃ calls c', errorSwitch c socket e = some (calls, some c') ∧
      c'.operation e.posted = if Resets c e then (c.resetConnection socket).operation e.posted
        else c.operation e.posted := by
  obtain ⟨i, hi⟩ := Option.isSome_iff_exists.mp (e.registered.mpr hkey)
  have hreset : (Retryable e.internal → c.operation e.posted = .ACCEPT) → Resets c e :=
    fun h => ⟨hzero, hcancel, h⟩
  unfold errorSwitch
  rw [if_neg hcancel, hi]
  by_cases hgone : Gone e.internal
  · rw [if_pos hgone, if_pos (hreset fun h => absurd h hgone.not_retryable)]
    exact ⟨_, _, rfl, rfl⟩
  rw [if_neg hgone]
  by_cases hretry : Retryable e.internal
  · rw [if_pos hretry]
    cases hop : c.operation e.posted with
    | ACCEPT =>
      rw [if_pos (hreset fun _ => hop)]
      exact ⟨_, _, rfl, rfl⟩
    | SEND =>
      have hkept : c.operation e.posted ≠ .ACCEPT := by rw [hop]; decide
      rw [if_neg fun h : Resets c e => hkept (h.2.2 hretry)]
      exact ⟨_, _, rfl, hop⟩
    | RECV =>
      have hkept : c.operation e.posted ≠ .ACCEPT := by rw [hop]; decide
      rw [if_neg fun h : Resets c e => hkept (h.2.2 hretry)]
      exact ⟨_, _, rfl, operation_bindRecv hop⟩
  · rw [if_neg hretry, if_pos (hreset fun h => absurd h hretry)]
    exact ⟨_, _, rfl, rfl⟩

/-- The handler of an entry that gets to the operation switch. -/
theorem workerThread_reached (socket : Bool) (h : ¬ Skipped c e) :
    ∃ calls, workerThread c socket e = some (calls, some (operationSwitch e.iosize
      (if Resets c e then (c.resetConnection socket).operation e.posted
        else c.operation e.posted))) := by
  obtain ⟨hbytes, hrest⟩ := not_or.mp h
  obtain ⟨hcancel, hnull⟩ := not_or.mp hrest
  unfold workerThread
  rw [if_neg hbytes]
  by_cases hzero : e.internal = 0
  · rw [if_neg (not_not.mpr hzero), if_neg fun hr : Resets c e => hr.1 hzero]
    exact ⟨_, rfl⟩
  · obtain ⟨calls, c', herror, hop⟩ := errorSwitch_reached c socket hzero
      hcancel fun hkey => hnull ⟨hzero, hkey⟩
    rw [if_pos hzero, herror, ← hop]
    exact ⟨_, rfl⟩

/-- Exactly when the handler that runs is that of the posted operation. -/
theorem handler_posted_iff (c : RecvSide) (socket : Bool) (e : CompletionEntry) :
    HandledAsPosted c socket e ↔ KeepsOperation c socket e := by
  by_cases hskip : Skipped c e
  · exact ⟨fun _ => .inr (.inl hskip),
      fun _ calls handler hrun => absurd hrun (workerThread_skipped hskip calls handler)⟩
  obtain ⟨calls, hrun⟩ := workerThread_reached socket hskip
  -- the switch reads the posted operation
  have hread : HandledAsPosted c socket e ↔ (if Resets c e then
      (c.resetConnection socket).operation e.posted else c.operation e.posted) = e.posted := by
    constructor
    · intro h
      exact operationSwitch_injective _ (h _ _ hrun)
    · intro h calls' handler hrun'
      rw [hrun, h] at hrun'
      cases hrun'
      rfl
  rw [hread]
  by_cases hsend : e.posted = .SEND
  · rw [operation_send hsend, operation_send hsend, ite_self]
    exact ⟨fun _ => .inl hsend, fun _ => hsend.symm⟩
  rw [operation_of_ne hsend, operation_of_ne hsend, KeepsOperation, or_iff_right hsend,
    or_iff_right hskip]
  by_cases hreset : Resets c e
  · have hrecv : e.posted = .RECV := by
      cases hop : e.posted with
      | RECV => rfl
      | SEND => exact absurd hop hsend
      | ACCEPT => exact absurd (.inr (.inr ⟨hreset.1, hop⟩)) hskip
    rw [if_pos hreset, if_pos hreset, recvOperation_resetConnection, hrecv]
    cases socket <;> decide
  · rw [if_neg hreset, if_neg hreset]

/-! ## One entry -/

/-- A connection that waits for bytes. -/
def receiving : RecvSide := { recvOperation := .RECV, isConnected := true, not_send := by decide }

/-- Its receive reports ten bytes, and that the peer is gone. -/
def netnameDeleted : CompletionEntry :=
  { posted := .RECV, key := some 0, iosize := 10, internal := errorNetnameDeleted,
    registered := by decide }

/-- The error switch closes and resets the connection; the overlapped is that of the new
`AcceptEx` then. -/
theorem reset_then_accepted : ¬ ∀ (c : RecvSide) (socket : Bool) (e : CompletionEntry),
    c.operation e.posted = e.posted → HandledAsPosted c socket e := by
  intro h
  have hdispatch : workerThread receiving true netnameDeleted =
      some ([.close, .resetConnection, .onDisconnect 0], some .doAccept) := by decide
  cases h receiving true netnameDeleted rfl _ _ hdispatch

end IOCPServer
