import SocketServerLib.IOCPServer.Dispatch

/-
  One `Connection` over several sessions: what of a session is left when the next one begins.

  `ResetConnection` runs `Init`, which clears the two buffers and `m_RecvOverlapped`, and
  `BindAcceptEx`. It does not touch `m_SendOverlapped`, whose length is the in-flight flag
  (`sendLen`). A step is a call that a worker thread makes, whatever the entry it dispatches, or
  one half of a `SendMsg`: its tests (`enter`), and what runs under the lock (`store`).
  `pending` lists the packets of the calls between the two. `accepting` is up from a reset to the
  accept that follows, `called` says whether the session has had a `SendMsg` since, and
  `posted` lists the bytes of every `WSASend`. Where `DoAccept` or `DoRecv` fails it makes the
  calls `Close` and `ResetConnection`, which are steps of their own.

  What is proved:
    1. `session_starts_idle` — if every reset happens with the flag down and no `SendMsg` between
       its tests and the lock, every session begins with the flag down and an empty buffer, and
       its first `SendMsg` posts.
    2. `reset_left_over` — and no other reset is safe: any other can be followed by a session
       that begins otherwise.
    3. `muted_run`, `workerThread_aborted` — while the flag is up only the entry of a send that
       has come through takes it down, and the entry of an aborted one does not: nothing is
       posted any more.
    4. `reset_in_flight` — a session that begins with the flag of the one before.

  What is assumed: `SendCompleted`, `ReSend`, what `SendMsg` does under the lock, `Close` and
  `ResetConnection` are one step each, though `ResetConnection` takes no lock.
-/
namespace IOCPServer
open RacingGameServer (Bytes SlideBuffer)
open LabelledRun

/-- `SendMsg` behind its tests. -/
def Connection.store (c : Connection) (p : PacketData) (post : Bool) :
    Connection × Bool × List Bytes :=
  let r := c.sendBuffer.enqueue (some p.bytes) p.bytes.length
  if r.2 = false then ({ c with sendBuffer := r.1 }, false, [])
  else if c.sendLen = 0 then Connection.sendIO { c with sendBuffer := r.1 } post
  else ({ c with sendBuffer := r.1 }, true, [])

structure Slot where
  conn : Connection
  accepting : Bool
  pending : List PacketData
  called : Bool
  posted : List Bytes

/-- `socket` is the answer of `WSASocket`, `post` that of `WSASend`. -/
inductive SlotAct where
  | enter (p : PacketData)
  | store (k : Nat) (post : Bool)
  | call (c : Call) (socket post : Bool)

def SlotAct.isReset : SlotAct → Bool
  | .call .resetConnection _ _ => true
  | _ => false

/-- The two calls after which `m_SendOverlapped` holds another length. -/
def SlotAct.completes : SlotAct → Bool
  | .call .reSend _ _ => true
  | .call .doSend _ _ => true
  | _ => false

namespace Slot

/-- After the first `ResetConnection`. -/
def start : Slot :=
  { conn := { Connection.connected with isConnected := false }, accepting := true, pending := [],
    called := false, posted := [] }

/-- What the call does to these fields. -/
def call (s : Slot) (socket post : Bool) : Call → Option Slot
  | .close => some { s with conn := { s.conn with isConnected := false } }
  | .resetConnection => some { s with conn := s.conn.reset, accepting := socket }
  | .reSend => some { s with
      conn := (s.conn.reSend post).1, posted := s.posted ++ (s.conn.reSend post).2.2 }
  | .doSend => some { s with
      conn := (s.conn.sendCompleted post).1, posted := s.posted ++ (s.conn.sendCompleted post).2 }
  | .doAccept =>
    if s.accepting = true then
      some { s with
        conn := { s.conn with isConnected := true }, accepting := false, called := false }
    else none
  | .onDisconnect _ | .bindRecv | .doRecv _ => some s

def step (s : Slot) : SlotAct → Option Slot
  | .enter p =>
    if s.conn.isConnected = true then some { s with pending := s.pending ++ [p], called := true }
    else none
  | .store k post =>
    match s.pending[k]? with
    | none => none
    | some p => some { s with
        conn := (s.conn.store p post).1
        pending := s.pending.eraseIdx k
        posted := s.posted ++ (s.conn.store p post).2.2 }
  | .call c socket post => s.call socket post c

/-- The flag is down, the buffer is empty, and so the next `SendMsg` posts its packet, as far as
one `WSASend` takes it. -/
structure Idle (c : Connection) : Prop where
  sendLen : c.sendLen = 0
  isEmpty : c.sendBuffer.isEmpty = true
  posts : c.isConnected = true →
    ∀ p : PacketData, (c.sendMsg (some p) true).2 = (true, [p.bytes.take maxSockbuf])

/-- A session that has had no `SendMsg` yet is idle. -/
def StartsIdle (s : Slot) : Prop :=
  s.conn.isConnected = true → s.called = false → Idle s.conn

/-- No send is in flight, and no `SendMsg` is between its tests and the lock. -/
def Settled (s : Slot) : Prop := s.conn.sendLen = 0 ∧ s.pending.length = 0

instance (s : Slot) : Decidable s.Settled := inferInstanceAs (Decidable (_ ∧ _))

/-- A connection is reset when it has settled. -/
def EndsIdle (s : Slot) (l : SlotAct) : Prop := l.isReset = true → s.Settled

instance (s : Slot) : DecidablePred s.EndsIdle := fun _ => inferInstanceAs (Decidable (_ → _))

variable {c : Connection} {s s' t : Slot} {p : PacketData} {post : Bool}

/-! ## The connection -/

theorem sendMsg_eq_store (hconn : c.isConnected = true) :
    c.sendMsg (some p) post = c.store p post := by
  rw [Connection.sendMsg, if_neg (by rw [hconn]; exact Bool.true_eq_false.mp)]
  rfl

theorem fits_of_empty (h : SendStream.Wf c) (hsize : c.sendBuffer.size = 0) : c.Fits p := by
  have hpacket : p.bytes.length ≤ 8192 := p.size_le
  have hcap : c.sendBuffer.capacity = 131072 := h.capacity
  unfold Connection.Fits
  omega

/-- On an idle connection a packet is posted. -/
theorem store_idle (h : SendStream.Wf c) (p : PacketData) (post : Bool) (hlen : c.sendLen = 0)
    (hsize : c.sendBuffer.size = 0) :
    c.store p post = Connection.sendIO { c with
      sendBuffer := (c.sendBuffer.enqueue (some p.bytes) p.bytes.length).1 } post := by
  obtain ⟨hok, -, -⟩ := h.enqueue_fits (p := p) (fits_of_empty h hsize)
  simp only [Connection.store, hok, Bool.true_eq_false, if_false, hlen, if_true]

theorem idle_of_empty (h : SendStream.Wf c) (hlen : c.sendLen = 0)
    (hsize : c.sendBuffer.size = 0) : Idle c := by
  refine ⟨hlen, by rw [SlideBuffer.isEmpty, hsize]; rfl, fun hconn p => ?_⟩
  obtain ⟨-, hbytes, hwf⟩ := h.enqueue_fits (p := p) (fits_of_empty h hsize)
  have hempty : c.sendBuffer.bytes = [] := by
    rw [SlideBuffer.bytes, hsize]
    rfl
  rw [hempty, List.nil_append] at hbytes
  rw [sendMsg_eq_store hconn, store_idle h p true hlen hsize, Prod.ext_iff,
    SendStream.sendIO_posted, if_pos rfl, hbytes]
  refine ⟨rfl, ?_⟩
  -- the length that is posted is that of the packet, or the most that one post takes
  have hlength := hwf.buffer.bytes_length
  rw [hbytes] at hlength
  show [p.bytes.take (Connection.datasize _)] = _
  unfold Connection.datasize
  split
  · rfl
  · next hle =>
    rw [← hlength] at hle ⊢
    rw [List.take_of_length_le (Nat.le_refl _), List.take_of_length_le (Nat.le_of_not_lt hle)]

theorem wf_posted (h : SendStream.Wf c) (post : Bool) : SendStream.Wf ( c.sendIO post).1 :=
  ⟨h.buffer, h.capacity⟩

theorem wf_store (h : SendStream.Wf c) (p : PacketData) (post : Bool) :
    SendStream.Wf (c.store p post).1 := by
  by_cases hfits : c.Fits p
  · obtain ⟨hok, -, hwf⟩ := h.enqueue_fits hfits
    simp only [Connection.store, hok, Bool.true_eq_false, if_false]
    split
    · exact wf_posted hwf post
    · exact hwf
  · have hfull : (c.store p post).1 = c := by
      simp only [Connection.store, h.enqueue_full hfits, if_true]
    rw [hfull]
    exact h

theorem wf_sendCompleted (h : SendStream.Wf c) (post : Bool) :
    SendStream.Wf (c.sendCompleted post).1 := by
  have hwf : SendStream.Wf c.popped :=
    ⟨h.buffer.pop c.sendLen, (SlideBuffer.capacity_pop ..).trans h.capacity⟩
  unfold Connection.sendCompleted
  split
  · exact hwf
  · exact wf_posted hwf post

/-- Nothing to complete and nothing to send. -/
theorem sendCompleted_empty (post : Bool) (hlen : c.sendLen = 0) (hsize : c.sendBuffer.size = 0) :
    (c.sendCompleted post).1.sendLen = 0 ∧ (c.sendCompleted post).1.sendBuffer.size = 0 := by
  have hpop : c.popped.sendBuffer.size = 0 := by
    show (c.sendBuffer.pop c.sendLen).1.size = 0
    rw [SlideBuffer.pop, hlen, if_neg (Nat.not_lt_zero _)]
    exact hsize
  have hempty : c.popped.sendBuffer.isEmpty = true := by
    rw [SlideBuffer.isEmpty, hpop]
    rfl
  rw [Connection.sendCompleted, if_pos hempty]
  exact ⟨rfl, hpop⟩

theorem reSend_empty (post : Bool) (hsize : c.sendBuffer.size = 0) :
    (c.reSend post).1.sendLen = 0 ∧ (c.reSend post).1.sendBuffer.size = 0 := by
  have hdatasize : c.datasize = 0 := Nat.le_zero.mp (hsize ▸ SendStream.datasize_le c)
  exact ⟨hdatasize, hsize⟩

/-- The array and the size of the send buffer agree after every step. -/
theorem wf_step (h : SendStream.Wf s.conn) {l : SlotAct} (hs : step s l = some s') :
    SendStream.Wf s'.conn := by
  cases l with
  | enter p =>
    simp only [step] at hs
    split at hs
    · obtain rfl := Option.some.inj hs
      exact h
    · cases hs
  | store k post =>
    simp only [step] at hs
    split at hs
    · cases hs
    · next p _ =>
      obtain rfl := Option.some.inj hs
      exact wf_store h p post
  | call call socket post =>
    simp only [step] at hs
    cases call with
    | close =>
      obtain rfl := Option.some.inj hs
      exact ⟨h.buffer, h.capacity⟩
    | resetConnection =>
      obtain rfl := Option.some.inj hs
      exact ⟨h.buffer.clear, h.capacity⟩
    | reSend =>
      obtain rfl := Option.some.inj hs
      exact wf_posted h post
    | doSend =>
      obtain rfl := Option.some.inj hs
      exact wf_sendCompleted h post
    | doAccept =>
      simp only [Slot.call] at hs
      split at hs
      · obtain rfl := Option.some.inj hs
        exact ⟨h.buffer, h.capacity⟩
      · cases hs
    | onDisconnect | bindRecv | doRecv =>
      obtain rfl := Option.some.inj hs
      exact h

/-! ## The invariant -/

/-- From a reset that finds the connection settled to the first `SendMsg` of the session that
follows, nothing is in the connection and nothing is on its way into it. -/
structure Fresh (s : Slot) : Prop where
  sendLen : s.conn.sendLen = 0
  size : s.conn.sendBuffer.size = 0
  pending : s.pending = []

structure Inv (s : Slot) : Prop where
  wf : SendStream.Wf s.conn
  closed : s.accepting = true → s.conn.isConnected = false
  accepting : s.accepting = true → Fresh s
  uncalled : s.conn.isConnected = true → s.called = false → Fresh s

theorem Inv.startsIdle (h : Inv s) : StartsIdle s := by
  intro hconn hcalled
  have hfresh := h.uncalled hconn hcalled
  exact idle_of_empty h.wf hfresh.sendLen hfresh.size

theorem inv_start : Inv start :=
  ⟨⟨SlideBuffer.wf_init _, rfl⟩, fun _ => rfl, fun _ => ⟨rfl, rfl, rfl⟩,
    fun h => Bool.noConfusion h⟩

/-- A step that keeps the flags need only keep what is fresh. -/
theorem Inv.of_conn (h : Inv s) {c : Connection} {pending : List PacketData} {posted : List Bytes}
    (hwf : SendStream.Wf c) (hconn : c.isConnected = s.conn.isConnected)
    (hfresh : Fresh s → c.sendLen = 0 ∧ c.sendBuffer.size = 0 ∧ pending = []) :
    Inv { s with conn := c, pending := pending, posted := posted } := by
  have hkeep : Fresh s → Fresh { s with conn := c, pending := pending, posted := posted } := by
    intro hf
    obtain ⟨hlen, hsize, hpending⟩ := hfresh hf
    exact ⟨hlen, hsize, hpending⟩
  refine ⟨hwf, fun hacc => hconn.trans (h.closed hacc), fun hacc => hkeep (h.accepting hacc), ?_⟩
  intro hup hcalled
  exact hkeep (h.uncalled (hconn.symm.trans hup) hcalled)

theorem inv_call {call : Call} {socket : Bool} (h : Inv s) (hwf : SendStream.Wf s'.conn)
    (hidle : call = .resetConnection → s.Settled)
    (hs : s.call socket post call = some s') : Inv s' := by
  cases call with
  | close =>
    obtain rfl := Option.some.inj hs
    refine ⟨hwf, fun _ => rfl, fun hacc => ?_, fun hup => Bool.noConfusion hup⟩
    have hfresh := h.accepting hacc
    exact ⟨hfresh.sendLen, hfresh.size, hfresh.pending⟩
  | resetConnection =>
    obtain rfl := Option.some.inj hs
    obtain ⟨hlen, hpending⟩ := hidle rfl
    refine ⟨hwf, fun _ => rfl, fun _ => ?_, fun hup => Bool.noConfusion hup⟩
    exact ⟨hlen, rfl, List.length_eq_zero_iff.mp hpending⟩
  | reSend =>
    obtain rfl := Option.some.inj hs
    apply h.of_conn hwf rfl
    intro hfresh
    obtain ⟨hlen, hsize⟩ := reSend_empty post hfresh.size
    exact ⟨hlen, hsize, hfresh.pending⟩
  | doSend =>
    obtain rfl := Option.some.inj hs
    have hconn : (s.conn.sendCompleted post).1.isConnected = s.conn.isConnected := by
      unfold Connection.sendCompleted
      split <;> rfl
    apply h.of_conn hwf hconn
    intro hfresh
    obtain ⟨hlen, hsize⟩ := sendCompleted_empty post hfresh.sendLen hfresh.size
    exact ⟨hlen, hsize, hfresh.pending⟩
  | doAccept =>
    simp only [Slot.call] at hs
    split at hs
    · next hacc =>
      obtain rfl := Option.some.inj hs
      have hfresh := h.accepting hacc
      refine ⟨hwf, fun hup => Bool.noConfusion hup, fun hup => Bool.noConfusion hup,
        fun _ _ => ?_⟩
      exact ⟨hfresh.sendLen, hfresh.size, hfresh.pending⟩
    · cases hs
  | onDisconnect | bindRecv | doRecv =>
    obtain rfl := Option.some.inj hs
    exact h

theorem inv_step {l : SlotAct} (h : Inv s) (hl : s.EndsIdle l) (hs : step s l = some s') :
    Inv s' := by
  have hwf := wf_step h.wf hs
  cases l with
  | enter p =>
    simp only [step] at hs
    split at hs
    · next hconn =>
      obtain rfl := Option.some.inj hs
      refine ⟨hwf, h.closed, fun hacc => ?_, fun _ hcalled => Bool.noConfusion hcalled⟩
      exact absurd (hconn.symm.trans (h.closed hacc)) Bool.true_eq_false.mp
    · cases hs
  | store k post =>
    simp only [step] at hs
    split at hs
    · cases hs
    · next p hp =>
      obtain rfl := Option.some.inj hs
      have hconn : (s.conn.store p post).1.isConnected = s.conn.isConnected := by
        simp only [Connection.store, Connection.sendIO]
        split
        · rfl
        · split <;> rfl
      apply h.of_conn hwf hconn
      intro hfresh
      rw [hfresh.pending] at hp
      cases hp
  | call call socket post =>
    apply inv_call h hwf _ hs
    intro hreset
    subst hreset
    exact hl rfl

/-- In a run that resets the connection only when it has settled, every session starts idle. -/
theorem session_starts_idle {acts : List SlotAct} (h : Meets step EndsIdle start acts) :
    Always step StartsIdle start acts :=
  always_of_meets (fun _ => Inv.startsIdle) (fun _ _ _ => inv_step) inv_start h

/-! ## Any other reset -/

/-- A reset that finds the flag up, or a `SendMsg` on its way to the lock, can be followed by a
session that does not start idle. -/
theorem reset_left_over {acts : List SlotAct} (hr : run step start acts = some s)
    (hunsettled : ¬ s.Settled) : ∃ ls t,
      run step s (.call .resetConnection true post :: ls) = some t ∧ ¬ StartsIdle t := by
  have hwf : SendStream.Wf s.conn :=
    run_stable (I := fun s => SendStream.Wf s.conn) (fun _ _ _ h hs => wf_step h hs)
      inv_start.wf hr
  by_cases hlen : s.conn.sendLen = 0
  · -- the packet of the late `SendMsg` is posted, and the new session waits for it
    cases hpending : s.pending with
    | nil => exact absurd ⟨hlen, congrArg List.length hpending⟩ hunsettled
    | cons p rest =>
      have hreset : SendStream.Wf s.conn.reset := ⟨hwf.buffer.clear, hwf.capacity⟩
      have hstore := store_idle hreset p post hlen rfl
      obtain ⟨-, hbytes, hbuffer⟩ :=
        hreset.enqueue_fits (p := p) (fits_of_empty hreset rfl)
      have hposted : 0 < (s.conn.reset.store p post).1.sendLen := by
        rw [hstore]
        apply SendStream.datasize_pos
        rw [← hbuffer.buffer.bytes_length, hbytes, List.length_append]
        exact Nat.lt_of_lt_of_le p.size_pos (Nat.le_add_left _ _)
      have hstep : step { s with conn := s.conn.reset, accepting := true } (.store 0 post) =
          some { s with
            conn := (s.conn.reset.store p post).1
            accepting := true
            pending := rest
            posted := s.posted ++ (s.conn.reset.store p post).2.2 } := by
        simp only [step, hpending, List.getElem?_cons_zero, List.eraseIdx_cons_zero]
      refine ⟨[.store 0 post, .call .doAccept true true], _,
        run_cons_eq_some.mpr ⟨_, rfl, run_cons_eq_some.mpr ⟨_, hstep, rfl⟩⟩, ?_⟩
      intro hstarts
      exact Nat.ne_of_gt hposted (hstarts rfl rfl).sendLen
  · refine ⟨[.call .doAccept true true], _, rfl, ?_⟩
    intro hstarts
    exact hlen (hstarts rfl rfl).sendLen

/-! ## A muted slot -/

theorem muted_step (hlen : s.conn.sendLen ≠ 0) {l : SlotAct} (hl : l.completes = false)
    (hs : step s l = some s') : s'.conn.sendLen = s.conn.sendLen ∧ s'.posted = s.posted := by
  cases l with
  | enter p =>
    simp only [step] at hs
    split at hs
    · obtain rfl := Option.some.inj hs
      exact ⟨rfl, rfl⟩
    · cases hs
  | store k post =>
    simp only [step] at hs
    split at hs
    · cases hs
    · obtain rfl := Option.some.inj hs
      simp only [Connection.store, if_neg hlen]
      split <;> exact ⟨rfl, List.append_nil _⟩
  | call call socket post =>
    simp only [step] at hs
    cases call with
    | reSend | doSend => cases hl
    | doAccept =>
      simp only [Slot.call] at hs
      split at hs
      · obtain rfl := Option.some.inj hs
        exact ⟨rfl, rfl⟩
      · cases hs
    | close | resetConnection | onDisconnect | bindRecv | doRecv =>
      obtain rfl := Option.some.inj hs
      exact ⟨rfl, rfl⟩

/-- While the flag is up and no `ReSend` or `SendCompleted` comes, nothing is posted, in however
many sessions. -/
theorem muted_run (hlen : s.conn.sendLen ≠ 0) {ls : List SlotAct}
    (hls : ∀ l ∈ ls, l.completes = false) (hr : run step s ls = some t) :
    t.conn.sendLen = s.conn.sendLen ∧ t.posted = s.posted := by
  apply run_invariant (C := fun _ l => l.completes = false)
    (I := fun t => t.conn.sendLen = s.conn.sendLen ∧ t.posted = s.posted) _ ⟨rfl, rfl⟩
    (meets_of_forall_mem fun l hl _ => hls l hl) hr
  intro t l t' h hl hs
  obtain ⟨hsame, hposted⟩ := muted_step (h.1 ▸ hlen) hl hs
  exact ⟨hsame.trans h.1, hposted.trans h.2⟩

/-- The entry of an aborted send makes neither call. -/
theorem workerThread_aborted {r : RecvSide} {socket : Bool} {e : CompletionEntry}
    (hsend : e.posted = .SEND) (haborted : e.iosize = 0 ∨ e.internal = statusCancelled)
    {calls : List Call} {handler : Option Call}
    (hrun : workerThread r socket e = some (calls, handler)) :
    .reSend ∉ calls ∧ handler = none := by
  have hop : r.operation e.posted ≠ .ACCEPT := by
    rw [RecvSide.operation_send hsend]
    decide
  obtain ⟨i, hi⟩ := Option.isSome_iff_exists.mp (e.registered.mpr (by rw [hsend]; decide))
  unfold workerThread at hrun
  by_cases hzero : e.iosize = 0
  · rw [if_pos ⟨hzero, hop⟩, hi] at hrun
    cases hrun
    exact ⟨by simp, rfl⟩
  · have hcancel := haborted.resolve_left hzero
    rw [if_neg fun h => hzero h.1, if_pos (by rw [hcancel]; decide), errorSwitch,
      if_pos hcancel] at hrun
    cases hrun
    exact ⟨by simp, rfl⟩

/-! ## Two sessions -/

/-- A session with one packet, its entry, and the reset after it. -/
def echoSession : List SlotAct :=
  [.call .doAccept true true, .enter SendStream.hello, .store 0 true, .call .doSend true true,
    .call .resetConnection true true, .call (.onDisconnect 0) true true]

theorem session_starts_idle_echo :
    Always step StartsIdle start (echoSession ++ echoSession) :=
  session_starts_idle (by decide +kernel)

/-- The client disconnects while its packet is in flight: the zero-byte entry of the receive
resets the connection, and the next client is accepted. -/
def aborted : List SlotAct :=
  [.call .doAccept true true, .enter SendStream.hello, .store 0 true,
    .call .resetConnection true true, .call (.onDisconnect 0) true true, .call .doAccept true true]

theorem reset_in_flight : ¬ ∀ acts : List SlotAct, Always step StartsIdle start acts := by
  intro h
  have hrun : (run step start aborted).map
      (fun s => (s.conn.isConnected, s.called, s.conn.sendLen)) = some (true, false, 12) := by
    decide +kernel
  obtain ⟨s, hs, heq⟩ := Option.map_eq_some_iff.mp hrun
  obtain ⟨hconn, hrest⟩ := Prod.mk.inj heq
  obtain ⟨hcalled, hlen⟩ := Prod.mk.inj hrest
  have hidle := always_last (h aborted) hs hconn hcalled
  exact absurd (hidle.sendLen.symm.trans hlen) (by decide)

end Slot

end IOCPServer
