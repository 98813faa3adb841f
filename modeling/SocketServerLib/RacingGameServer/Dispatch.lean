import SocketServerLib.RacingGameServer.Define

/-
  The completion dispatcher: what `IOCPCore::WorkerThread` does with one entry.

  `dispatch` runs the zero-byte test, the error switch and the operation switch
  of the source and gives the calls it makes, in order; `none` is the
  dereference of a null `pConnection`. `bound` answers the one question the
  dispatcher's own control flow asks of a callee: whether `BindAcceptEx`, run by
  `DoDisconnect`, gets a socket and so overwrites the operation recorded in the
  receive overlapped before the second switch reads it.

  What is proved:
    1. `dispatch_isSome_iff` — which entries are handled without touching a null connection,
       for every key with every operation.
    2. `null_connection_used` — an entry that is not.
    3. `dispatch_send` — what each entry for a TCP send does.

  What is assumed: the overlapped of an entry is not null, and says one operation from the
  zero-byte test to the switch in the error switch.
-/
namespace RacingGameServer

/-! ## Values of `entry.Internal` -/

def statusCancelled : Nat := 0xC0000120
def errorNotEnoughMemory : Nat := 8
def errorNetnameDeleted : Nat := 64
def errorMoreData : Nat := 234
def errorConnectionAborted : Nat := 1236
def wsaeIntr : Nat := 10004
def wsaeWouldBlock : Nat := 10035

/-- The three errors whose I/O the dispatcher requests again. -/
def retryable (internal : Nat) : Prop :=
  internal = errorNotEnoughMemory ∨ internal = wsaeWouldBlock ∨ internal = wsaeIntr

instance : DecidablePred retryable := fun n => by unfold retryable; infer_instance

/-- A completion entry whose overlapped is not null. `key` is `lpCompletionKey`: the client
index of the `Connection`, or `none` for 0, with which the UDP socket and the listen socket are
registered. `op` is what the overlapped says when the entry is dequeued: `m_RecvOverlapped` serves
the `AcceptEx` on the listen socket and the `WSARecv` on the client's, so that it may say
either with either key. -/
structure Entry where
  op : EIOOperation
  key : Option Nat
  iosize : Nat
  internal : Nat

/-- The operations posted on a client's socket, whose completion key is its `Connection`. -/
def EIOOperation.OnClient : EIOOperation → Prop
  | .TCPRECV => True
  | .TCPSEND => True
  | _ => False

instance : DecidablePred EIOOperation.OnClient
  | .TCPRECV => .isTrue trivial
  | .TCPSEND => .isTrue trivial
  | .ACCEPT => .isFalse id
  | .UDPRECV => .isFalse id
  | .UDPSEND => .isFalse id

/-- An entry whose overlapped still says what was posted with it. -/
structure PostedEntry extends Entry where
  registered : key.isSome ↔ op.OnClient

/-- The calls the dispatcher makes. -/
inductive Call where
  | doDisconnect (uClientIndex_ : Nat) (bBroadcast_ : Bool)
  | reSendTCP (uClientIndex_ : Nat)
  | bindRecv (uClientIndex_ : Nat)
  | udpResend
  | bindUDPRecv
  | doAccept
  | doTCPRecv (ioSize_ : Nat)
  | doUDPRecv (ioSize_ : Nat)
  | doTCPSend (ioSize_ : Nat)
  | doUDPSend
  deriving DecidableEq, Repr

/-! ## The switches -/

/-- The clean-up three of the error cases make. -/
def udpCleanUp (op : EIOOperation) : List Call := if op = .UDPSEND then [.doUDPSend] else []

/-- The operation in the overlapped after `DoDisconnect`. -/
def opAfterDisconnect (bound : Bool) : EIOOperation → EIOOperation
  | .TCPRECV => if bound then .ACCEPT else .TCPRECV
  | op => op

/-- The switch on the operation inside the error switch. -/
def retry (e : Entry) : Option (List Call) :=
  match e.op with
  | .TCPSEND => e.key.map fun i => [.reSendTCP i]
  | .UDPSEND => some [.udpResend]
  | .TCPRECV => e.key.map fun i => [.bindRecv i]
  | .UDPRECV => some [.bindUDPRecv]
  | .ACCEPT => e.key.map fun i => [.doDisconnect i false]

/-- The error switch: its calls, and the operation the second switch will read, if control
gets there. -/
def errorSwitch (isRun bound : Bool) (e : Entry) : Option (List Call × Option EIOOperation) :=
  -- `none` as the operation: `continue`, or the thread returns
  if e.internal = statusCancelled then some (udpCleanUp e.op, none)
  else if e.internal = errorNetnameDeleted ∨ e.internal = errorConnectionAborted then
    e.key.map fun i =>
      (.doDisconnect i true :: udpCleanUp e.op, some (opAfterDisconnect bound e.op))
  else if e.internal = errorMoreData then some (udpCleanUp e.op, none)
  else if retryable e.internal then
    if isRun = false then some ([], none) else (retry e).map fun calls => (calls, some e.op)
  else e.key.map fun i => ([.doDisconnect i false], some (opAfterDisconnect bound e.op))

/-- The switch on the operation at the end. -/
def operationSwitch (iosize : Nat) : EIOOperation → Call
  | .ACCEPT => .doAccept
  | .TCPRECV => .doTCPRecv iosize
  | .UDPRECV => .doUDPRecv iosize
  | .TCPSEND => .doTCPSend iosize
  | .UDPSEND => .doUDPSend

def dispatch (isRun bound : Bool) (e : Entry) : Option (List Call) :=
  if e.iosize = 0 ∧ e.op ≠ .ACCEPT then e.key.map fun i => [.doDisconnect i true]
  else if e.internal ≠ 0 then
    (errorSwitch isRun bound e).map fun r => r.1 ++ (r.2.map (operationSwitch e.iosize)).toList
  else some [operationSwitch e.iosize e.op]

/-! ## When the connection is used -/

variable {isRun bound : Bool} {e : Entry}

/-- The operations that are requested again without the connection. -/
def EIOOperation.OnUDP : EIOOperation → Prop
  | .UDPSEND => True
  | .UDPRECV => True
  | _ => False

theorem retry_isSome_iff : (retry e).isSome ↔ e.key.isSome ∨ e.op.OnUDP := by
  unfold retry
  cases hop : e.op with
  | TCPSEND | TCPRECV | ACCEPT =>
    rw [Option.isSome_map]
    exact ⟨.inl, fun h => h.elim id fun hudp => hudp.elim⟩
  | UDPSEND | UDPRECV => exact ⟨fun _ => .inr trivial, fun _ => rfl⟩

/-- The error switch uses the connection unless it drops the entry or requests the I/O again on the
UDP socket. -/
theorem errorSwitch_isSome_iff : (errorSwitch isRun bound e).isSome ↔
    e.key.isSome ∨ e.internal = statusCancelled ∨ e.internal = errorMoreData ∨
      retryable e.internal ∧ (isRun = false ∨ e.op.OnUDP) := by
  by_cases hcancel : e.internal = statusCancelled
  · simp [errorSwitch, hcancel]
  by_cases hgone : e.internal = errorNetnameDeleted ∨ e.internal = errorConnectionAborted
  · have hmore : e.internal ≠ errorMoreData := by
      rcases hgone with h | h <;> rw [h] <;> decide
    have hretry : ¬ retryable e.internal := by
      rcases hgone with h | h <;> rw [h] <;> decide
    simp [errorSwitch, hcancel, hgone, hmore, hretry]
  by_cases hmore : e.internal = errorMoreData
  · rw [errorSwitch, if_neg hcancel, if_neg hgone, if_pos hmore]
    exact ⟨fun _ => .inr (.inr (.inl hmore)), fun _ => rfl⟩
  by_cases hretry : retryable e.internal
  · cases isRun with
    | false => simp [errorSwitch, hcancel, hgone, hmore, hretry]
    | true =>
      simp only [errorSwitch, if_neg hcancel, if_neg hgone, if_neg hmore, if_pos hretry,
        Bool.true_eq_false, if_false, Option.isSome_map, retry_isSome_iff]
      constructor
      · intro h
        rcases h with hkey | hudp
        · exact .inl hkey
        · exact .inr (.inr (.inr ⟨hretry, .inr hudp⟩))
      · intro hcase
        rcases hcase with h | h | h | ⟨-, h | h⟩
        · exact .inl h
        · exact absurd h hcancel
        · exact absurd h hmore
        · cases h
        · exact .inr h
  · simp [errorSwitch, hcancel, hgone, hmore, hretry]

/-- The entries that are handled without the connection: those that are not empty (a completed
accept may be) and whose status is good, dropped, or answered by requesting the I/O again on the
UDP socket. -/
def NeedsNoConnection (isRun : Bool) (e : Entry) : Prop :=
  (e.iosize ≠ 0 ∨ e.op = .ACCEPT) ∧
    (e.internal = 0 ∨ e.internal = statusCancelled ∨ e.internal = errorMoreData ∨
      retryable e.internal ∧ (isRun = false ∨ e.op.OnUDP))

/-- Exactly when the dispatcher does not use a null connection, whatever operation the overlapped
says and whatever the key is. -/
theorem dispatch_isSome_iff :
    (dispatch isRun bound e).isSome ↔ e.key.isSome ∨ NeedsNoConnection isRun e := by
  unfold dispatch NeedsNoConnection
  by_cases hzero : e.iosize = 0 ∧ e.op ≠ .ACCEPT
  · have hno : ¬ (e.iosize ≠ 0 ∨ e.op = .ACCEPT) := by
      intro hcase
      rcases hcase with h | h
      · exact h hzero.1
      · exact hzero.2 h
    rw [if_pos hzero, Option.isSome_map]
    exact ⟨.inl, fun h => h.resolve_right fun h => hno h.1⟩
  · have hyes : e.iosize ≠ 0 ∨ e.op = .ACCEPT := by
      by_cases h : e.iosize = 0
      · exact .inr (Classical.not_not.mp fun h' => hzero ⟨h, h'⟩)
      · exact .inl h
    rw [if_neg hzero]
    by_cases hgood : e.internal = 0
    · simp [hgood, hyes]
    · rw [if_pos hgood, Option.isSome_map, errorSwitch_isSome_iff]
      simp only [hyes, hgood, true_and, false_or]

/-! ## The cases of a running server -/

/-- The two statuses whose entry is dropped, but for the clean-up of a UDP send. -/
def dropped (internal : Nat) : Prop := internal = statusCancelled ∨ internal = errorMoreData

/-- The two statuses that say that the peer is gone. -/
def gone (internal : Nat) : Prop :=
  internal = errorNetnameDeleted ∨ internal = errorConnectionAborted

instance : DecidablePred dropped := fun n => by unfold dropped; infer_instance

instance : DecidablePred gone := fun n => by unfold gone; infer_instance

theorem gone.not_dropped {n : Nat} (h : gone n) : ¬ dropped n := by
  rcases h with rfl | rfl <;> decide

theorem gone.not_retryable {n : Nat} (h : gone n) : ¬ retryable n := by
  rcases h with rfl | rfl <;> decide

theorem retryable.not_dropped {n : Nat} (h : retryable n) : ¬ dropped n := by
  rcases h with rfl | rfl | rfl <;> decide

/-- The ways an entry is handled while the server runs, and the calls made. -/
inductive Handled (bound : Bool) (e : Entry) : List Call → Prop
  | empty (i : Nat) : e.iosize = 0 → e.op ≠ .ACCEPT → e.key = some i →
    Handled bound e [.doDisconnect i true]
  | good : (e.iosize = 0 → e.op = .ACCEPT) → e.internal = 0 →
    Handled bound e [operationSwitch e.iosize e.op]
  | dropped : (e.iosize = 0 → e.op = .ACCEPT) → dropped e.internal →
    Handled bound e (udpCleanUp e.op)
  | gone (i : Nat) : (e.iosize = 0 → e.op = .ACCEPT) → gone e.internal → e.key = some i →
    Handled bound e (.doDisconnect i true ::
      (udpCleanUp e.op ++ [operationSwitch e.iosize (opAfterDisconnect bound e.op)]))
  | retry (rs : List Call) : (e.iosize = 0 → e.op = .ACCEPT) → retryable e.internal →
    retry e = some rs → Handled bound e (rs ++ [operationSwitch e.iosize e.op])
  | unknown (i : Nat) : (e.iosize = 0 → e.op = .ACCEPT) → e.internal ≠ 0 →
    ¬ RacingGameServer.dropped e.internal → ¬ retryable e.internal → e.key = some i →
    Handled bound e
      [.doDisconnect i false, operationSwitch e.iosize (opAfterDisconnect bound e.op)]

theorem handled_of_dispatch {calls : List Call} (h : dispatch true bound e = some calls) :
    Handled bound e calls := by
  unfold dispatch at h
  split at h
  · next hzero =>
    obtain ⟨i, hkey, rfl⟩ := Option.map_eq_some_iff.mp h
    exact .empty i hzero.1 hzero.2 hkey
  · next hzero =>
    have hsize : e.iosize = 0 → e.op = .ACCEPT := fun hn => not_not.mp fun hop => hzero ⟨hn, hop⟩
    split at h
    · next hbad =>
      obtain ⟨r, hr, rfl⟩ := Option.map_eq_some_iff.mp h
      unfold errorSwitch at hr
      split at hr
      · next hc =>
        obtain rfl := Option.some.inj hr
        have hdrop : Handled bound e (udpCleanUp e.op) := .dropped hsize (.inl hc)
        simpa using hdrop
      · next hc =>
        split at hr
        · next hgone =>
          obtain ⟨i, hkey, rfl⟩ := Option.map_eq_some_iff.mp hr
          exact .gone i hsize hgone hkey
        · split at hr
          · next hm =>
            obtain rfl := Option.some.inj hr
            have hdrop : Handled bound e (udpCleanUp e.op) := .dropped hsize (.inr hm)
            simpa using hdrop
          · next hm =>
            split at hr
            · next hretry =>
              rw [if_neg (by decide)] at hr
              obtain ⟨rs, hrs, rfl⟩ := Option.map_eq_some_iff.mp hr
              exact .retry rs hsize hretry hrs
            · next hretry =>
              obtain ⟨i, hkey, rfl⟩ := Option.map_eq_some_iff.mp hr
              refine .unknown i hsize hbad ?_ hretry hkey
              intro hd
              rcases hd with hd | hd
              · exact hc hd
              · exact hm hd
    · next hgood =>
      obtain rfl := Option.some.inj h
      exact .good hsize (not_not.mp hgood)

/-- What the dispatcher does with the entry of a receive whose socket `DoDisconnect` has closed
and whose overlapped, `m_RecvOverlapped`, `BindAcceptEx` has written over since: it says ACCEPT,
and the key is the client's. -/
def dispatchReused (bound : Bool) (i iosize internal : Nat) : List Call :=
  let last := operationSwitch iosize (opAfterDisconnect bound .TCPRECV)
  if internal = 0 then [.doAccept]
  else if dropped internal then []
  else if gone internal then [.doDisconnect i true, last]
  -- requested again, which for an accept is a disconnect, or unknown
  else [.doDisconnect i false, last]

/-- An empty datagram on the UDP socket. -/
def emptyDatagram : Entry :=
  { op := .UDPRECV, key := none, iosize := 0, internal := 0 }

/-- The dispatcher asks the null connection for its index. -/
theorem null_connection_used : dispatch true true emptyDatagram = none := rfl

/-! ## Entries of the other operations -/

/-- A completed `AcceptEx`. -/
def acceptEntry : Entry :=
  { op := .ACCEPT, key := none, iosize := 0, internal := 0 }

/-- Nor is it handled where `BindRecv` has written over its overlapped since. -/
example : dispatch true true { acceptEntry with op := .TCPRECV } = none := rfl

/-- The entry of a `WSARecv` of client `i`. -/
def tcpRecvEntry (i iosize internal : Nat) : Entry :=
  { op := .TCPRECV, key := some i, iosize := iosize, internal := internal }

/-- The entry of the `WSARecvFrom`. -/
def udpRecvEntry (iosize internal : Nat) : Entry :=
  { op := .UDPRECV, key := none, iosize := iosize, internal := internal }

/-! ## Entries for a TCP send -/

/-- The entry of a `WSASend` posted for client `i`. -/
def sendEntry (i iosize internal : Nat) : Entry :=
  { op := .TCPSEND, key := some i, iosize := iosize, internal := internal }

/-- Bytes and a retryable error: the I/O is requested again, and then the send is completed. -/
theorem dispatch_retry {i n internal : Nat} (hn : 0 < n) (hretry : retryable internal) :
    dispatch true bound (sendEntry i n internal) = some [.reSendTCP i, .doTCPSend n] := by
  have hzero : n ≠ 0 := Nat.pos_iff_ne_zero.mp hn
  rcases hretry with rfl | rfl | rfl <;>
    (rw [dispatch, if_neg fun h => hzero h.1]; rfl)

/-- What the dispatcher does with one: it completes the send, drops the entry, disconnects
(and may complete the send after it), or requests the I/O again and then completes the send. -/
theorem dispatch_send (isRun bound : Bool) (i n internal : Nat) : ∃ calls,
    dispatch isRun bound (sendEntry i n internal) = some calls ∧
      ((internal = 0 ∧ calls = [.doTCPSend n]) ∨ calls = [] ∨
        (∃ b rest, calls = .doDisconnect i b :: rest ∧ (rest = [] ∨ rest = [.doTCPSend n])) ∨
        (isRun = true ∧ 0 < n ∧ retryable internal ∧ calls = [.reSendTCP i, .doTCPSend n])) := by
  by_cases hn : n = 0
  · subst hn
    exact ⟨_, rfl, .inr (.inr (.inl ⟨true, [], rfl, .inl rfl⟩))⟩
  have hzero : ¬ ((sendEntry i n internal).iosize = 0 ∧ (sendEntry i n internal).op ≠ .ACCEPT) :=
    fun h => hn h.1
  rw [dispatch, if_neg hzero]
  by_cases hgood : internal = 0
  · subst hgood
    exact ⟨_, rfl, .inl ⟨rfl, rfl⟩⟩
  rw [if_pos (show (sendEntry i n internal).internal ≠ 0 from hgood), errorSwitch]
  by_cases hcancel : internal = statusCancelled
  · exact ⟨[], by rw [if_pos (show (sendEntry i n internal).internal = _ from hcancel)]; rfl,
      .inr (.inl rfl)⟩
  rw [if_neg (show ¬ (sendEntry i n internal).internal = _ from hcancel)]
  split
  · exact ⟨_, rfl, .inr (.inr (.inl ⟨true, _, rfl, .inr rfl⟩))⟩
  split
  · exact ⟨_, rfl, .inr (.inl rfl)⟩
  split
  · next hretry =>
    cases isRun with
    | false => exact ⟨_, rfl, .inr (.inl rfl)⟩
    | true =>
      exact ⟨_, rfl, .inr (.inr (.inr ⟨rfl, Nat.pos_of_ne_zero hn, hretry, rfl⟩))⟩
  · exact ⟨_, rfl, .inr (.inr (.inl ⟨false, _, rfl, .inr rfl⟩))⟩

end RacingGameServer
