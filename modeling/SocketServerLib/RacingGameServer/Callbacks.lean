import SocketServerLib.Lib.Counting
import SocketServerLib.Lib.LabelledRun
import SocketServerLib.RacingGameServer.Dispatch
import Mathlib.Data.List.Infix

/-
  The callbacks of one client slot: any number of worker threads handle completions of the
  slot's accepts, receives and sends, and their handlers interleave at the calls they make.

  The thread keeps the calls the dispatcher has still to make for its entry, and the point
  at which the call it is in stands. `move` takes one call of a handler; its flag is the
  answer of the operating system, where one is asked. The overlapped of receives is shared
  with `AcceptEx`, so the switch on the operation may read what another thread has written
  there since (`reread`).

  What is proved:
    1. `alternate_iff` — a list of callbacks is a prefix of
       `(OnConnect OnTCPReceive* OnDisconnect)*` exactly if the two-state automaton
       `opened` accepts it.
    2. `step_ordered` — what every step keeps: a session is open exactly while the slot is
       announced or one `DoDisconnect` has its `OnDisconnect` still to issue.
    3. `callbacks_alternate` — the callbacks alternate in every run whose steps are in turn.
    4. `connected_twice` — one thread, an unknown error on a send: `OnConnect` twice.

  What is assumed: the accesses of all threads are seen in one order, every one a step.
-/
namespace RacingGameServer

open LabelledRun Counting

/-! ## The order of callbacks -/

inductive Callback where
  | OnConnect | OnTCPReceive | OnDisconnect
  deriving DecidableEq, Repr

namespace Callback

/-- The callbacks of a session with `n` receives. -/
def ofSession (n : Nat) : List Callback :=
  .OnConnect :: (List.replicate n .OnTCPReceive ++ [.OnDisconnect])

/-- The callbacks form a prefix of `(OnConnect OnTCPReceive* OnDisconnect)*`. -/
def Alternate (cs : List Callback) : Prop := ∃ ns : List Nat, cs <+: ns.flatMap ofSession

/-- Whether a session is open after the callback; `none` where it is out of place. -/
def next : Bool → Callback → Option Bool
  | false, .OnConnect => some true
  | true, .OnTCPReceive => some true
  | true, .OnDisconnect => some false
  | _, _ => none

/-- Whether a session is open after the callbacks. -/
def opened (cs : List Callback) : Option Bool := cs.foldlM next false

theorem opened_append_singleton (cs : List Callback) (c : Callback) :
    opened (cs ++ [c]) = (opened cs).bind fun b => next b c := by
  rw [opened, List.foldlM_append]
  cases h : opened cs with
  | none => rw [opened] at h; rw [h]; rfl
  | some b =>
    rw [opened] at h
    rw [h]
    show (List.foldlM next b [c]) = next b c
    rw [List.foldlM_cons]
    cases next b c <;> rfl

theorem foldlM_replicate (n : Nat) :
    (List.replicate n Callback.OnTCPReceive).foldlM next true = some true := by
  induction n with
  | zero => rfl
  | succ n ih => exact ih

theorem foldlM_ofSession (n : Nat) : (ofSession n).foldlM next false = some false := by
  show (List.replicate n Callback.OnTCPReceive ++ [Callback.OnDisconnect]).foldlM next true = _
  rw [List.foldlM_append, foldlM_replicate]
  rfl

theorem opened_flatMap (ns : List Nat) : opened (ns.flatMap ofSession) = some false := by
  induction ns with
  | nil => rfl
  | cons n ns ih =>
    rw [List.flatMap_cons, opened, List.foldlM_append, foldlM_ofSession]
    exact ih

/-- What an accepted list looks like, with no session open or with one. -/
theorem of_opened (cs : List Callback) :
    (opened cs = some false → ∃ ns : List Nat, cs = ns.flatMap ofSession) ∧
      (opened cs = some true → ∃ (ns : List Nat) (k : Nat),
        cs = ns.flatMap ofSession ++ .OnConnect :: List.replicate k .OnTCPReceive) := by
  induction cs using List.reverseRecOn with
  | nil => exact ⟨fun _ => ⟨[], rfl⟩, nofun⟩
  | append_singleton cs c ih =>
    obtain ⟨hclosed, hopen⟩ := ih
    rw [opened_append_singleton]
    cases hb : opened cs with
    | none => exact ⟨nofun, nofun⟩
    | some b =>
      cases b with
      | false =>
        obtain ⟨ns, rfl⟩ := hclosed hb
        cases c with
        | OnConnect => exact ⟨nofun, fun _ => ⟨ns, 0, rfl⟩⟩
        | OnTCPReceive => exact ⟨nofun, nofun⟩
        | OnDisconnect => exact ⟨nofun, nofun⟩
      | true =>
        obtain ⟨ns, k, rfl⟩ := hopen hb
        cases c with
        | OnConnect => exact ⟨nofun, nofun⟩
        | OnTCPReceive =>
          refine ⟨nofun, fun _ => ⟨ns, k + 1, ?_⟩⟩
          rw [List.append_assoc, List.cons_append, ← List.replicate_succ']
        | OnDisconnect =>
          refine ⟨fun _ => ⟨ns ++ [k], ?_⟩, nofun⟩
          rw [List.flatMap_append, List.append_assoc, List.cons_append]
          simp [ofSession]

/-- The automaton accepts exactly the prefixes. -/
theorem alternate_iff (cs : List Callback) : Alternate cs ↔ (opened cs).isSome := by
  constructor
  · intro h
    obtain ⟨ns, rest, hcs⟩ := h
    have hall := opened_flatMap ns
    rw [← hcs, opened, List.foldlM_append] at hall
    cases hb : opened cs with
    | none =>
      rw [opened] at hb
      rw [hb] at hall
      cases hall
    | some b => rfl
  · intro h
    obtain ⟨b, hb⟩ := Option.isSome_iff_exists.mp h
    cases b with
    | false =>
      obtain ⟨ns, rfl⟩ := (of_opened cs).1 hb
      exact ⟨ns, List.prefix_refl _⟩
    | true =>
      obtain ⟨ns, k, rfl⟩ := (of_opened cs).2 hb
      refine ⟨ns ++ [k], [.OnDisconnect], ?_⟩
      rw [List.flatMap_append, List.append_assoc]
      simp [ofSession]

end Callback

/-! ## The slot and its handlers -/

/-- Why `DoDisconnect` is called: with `bBroadcast_`, without it, or without it by a `DoAccept`
whose own `BindRecv` has failed. -/
inductive Cause where
  | broadcast | silent | own
  deriving DecidableEq, Repr

/-- Where a thread stands in a handler: the next call it makes. -/
inductive HandlerPc where
  | bindIOCP
  | acceptRecv
  | onConnect
  | onTCPReceive
  | bindRecv
  | retryRecv
  | close (cause : Cause)
  | resetConnection (cause : Cause)
  | onDisconnect
  deriving DecidableEq, Repr

namespace HandlerPc

/-- `DoAccept` has associated the socket and has yet to call `OnConnect`, or to close again. -/
def Accepting (p : Option HandlerPc) : Prop :=
  p = some .acceptRecv ∨ p = some .onConnect ∨ p = some (.close .own)

/-- `DoDisconnect` has closed the socket and has not returned. -/
def Closing (p : Option HandlerPc) : Prop :=
  (∃ c, p = some (.resetConnection c)) ∨ p = some .onDisconnect

/-- `DoDisconnect` has closed the socket and has `OnDisconnect` still to call. -/
def Ending (p : Option HandlerPc) : Prop :=
  p = some (.resetConnection .broadcast) ∨ p = some .onDisconnect

instance : DecidablePred Accepting := fun p => by unfold Accepting; infer_instance

instance : DecidablePred Closing
  | none => .isFalse fun h => by obtain ⟨c, h⟩ | h := h <;> cases h
  | some (.resetConnection c) => .isTrue (.inl ⟨c, rfl⟩)
  | some .onDisconnect => .isTrue (.inr rfl)
  | some .bindIOCP | some .acceptRecv | some .onConnect | some .onTCPReceive | some .bindRecv
  | some .retryRecv | some (.close _) =>
    .isFalse fun h => by obtain ⟨c, h⟩ | h := h <;> cases h

instance : DecidablePred Ending := fun p => by unfold Ending; infer_instance

end HandlerPc

/-- The first call a handler makes on the slot; `ReSendTCP` and `DoTCPSend` make none that
matters here. -/
def Call.entryPoint : Call → Option HandlerPc
  | .doDisconnect _ bBroadcast_ => some (.close (if bBroadcast_ then .broadcast else .silent))
  | .doAccept => some .bindIOCP
  | .doTCPRecv _ => some .onTCPReceive
  | .bindRecv _ => some .retryRecv
  | _ => none

/-- `fresh` says that `m_TcpSocket` is a socket from `BindAcceptEx` that no completion port is
associated with; `log` lists the callbacks issued. -/
structure CallbackSlot (θ : Type*) where
  isConnected : Bool
  fresh : Bool
  log : List Callback
  rest : θ → List Call
  point : θ → Option HandlerPc

/-- `dequeue` takes an entry of the slot, `dequeueReused` that of a late receive whose overlapped
says ACCEPT; `next` goes into the next call of the dispatcher, `move` makes one call there. -/
inductive CallbackAct (θ : Type*) where
  | dequeue (th : θ) (e : Entry) (isRun bound : Bool)
  | dequeueReused (th : θ) (iosize internal : Nat) (bound : Bool)
  | reread (th : θ) (op : EIOOperation) (iosize : Nat)
  | next (th : θ)
  | move (th : θ) (ok : Bool)

namespace CallbackSlot

variable {θ : Type*} [DecidableEq θ]

/-- After `ResetConnection` at the start. -/
def init : CallbackSlot θ :=
  { isConnected := false, fresh := true, log := [], rest := fun _ => [], point := fun _ => none }

def goTo (s : CallbackSlot θ) (th : θ) (p : Option HandlerPc) : CallbackSlot θ :=
  { s with point := Function.update s.point th p }

def callback (s : CallbackSlot θ) (c : Callback) : CallbackSlot θ := { s with log := s.log ++ [c] }

/-- One call of a handler. -/
def moveFrom (s : CallbackSlot θ) (th : θ) (ok : Bool) : HandlerPc → CallbackSlot θ
  | .bindIOCP =>
    if s.fresh = true ∧ ok = true then
      { s with isConnected := true, fresh := false }.goTo th (some .acceptRecv)
    else s.goTo th (some (.close .silent))
  | .acceptRecv =>
    if s.isConnected = true ∧ ok = true then s.goTo th (some .onConnect)
    else s.goTo th (some (.close .own))
  -- `SetSocketOpt` fails without consequence
  | .onConnect => (s.callback .OnConnect).goTo th none
  | .onTCPReceive => (s.callback .OnTCPReceive).goTo th (some .bindRecv)
  | .bindRecv =>
    if s.isConnected = true ∧ ok = true then s.goTo th none
    else s.goTo th (some (.close .broadcast))
  -- the answer is not looked at
  | .retryRecv => s.goTo th none
  | .close cause =>
    { s with isConnected := false, fresh := false }.goTo th (some (.resetConnection cause))
  | .resetConnection cause =>
    { s with isConnected := false, fresh := ok }.goTo th
      (if cause = Cause.broadcast then some .onDisconnect else none)
  | .onDisconnect => (s.callback .OnDisconnect).goTo th none

/-- The thread gets the calls of the dispatcher for its next entry. -/
def give (s : CallbackSlot θ) (th : θ) (calls : List Call) : CallbackSlot θ :=
  { s with rest := Function.update s.rest th calls }

def step (i : Nat) (s : CallbackSlot θ) : CallbackAct θ → Option (CallbackSlot θ)
  | .dequeue th e isRun bound =>
    if s.point th = none ∧ s.rest th = [] ∧ (e.key = some i ∨ e.op = .ACCEPT) then
      (dispatch isRun bound e).map (s.give th)
    else none
  | .dequeueReused th iosize internal bound =>
    if s.point th = none ∧ s.rest th = [] then
      some (s.give th (dispatchReused bound i iosize internal))
    else none
  | .reread th op iosize =>
    if s.point th = none ∧ (s.rest th = [.doAccept] ∨ s.rest th = [.doTCPRecv iosize]) ∧
        (op = .ACCEPT ∨ op = .TCPRECV) then
      some (s.give th [operationSwitch iosize op])
    else none
  | .next th =>
    match s.point th, s.rest th with
    | none, c :: cs => some ((s.give th cs).goTo th c.entryPoint)
    | _, _ => none
  | .move th ok => (s.point th).map (s.moveFrom th ok)

/-! ## The condition on the steps -/

variable [Fintype θ]

def accepting (s : CallbackSlot θ) : Nat := count HandlerPc.Accepting s.point

def closing (s : CallbackSlot θ) : Nat := count HandlerPc.Closing s.point

def ending (s : CallbackSlot θ) : Nat := count HandlerPc.Ending s.point

/-- The slot is connected, and no accept of it is in progress. -/
def Announced (s : CallbackSlot θ) : Prop := s.isConnected = true ∧ s.accepting = 0

instance (s : CallbackSlot θ) : Decidable s.Announced := by unfold Announced; infer_instance

/-- The condition on a call. -/
def InTurnAt (s : CallbackSlot θ) (ok : Bool) : HandlerPc → Prop
  | .bindIOCP => s.fresh = true → ok = true → s.accepting = 0
  | .onConnect => s.isConnected = true ∧ s.closing = 0
  | .onTCPReceive => s.Announced ∨ 0 < s.ending
  | .close .broadcast => s.Announced
  | .close .silent => ¬ s.Announced
  | _ => True

def InTurn (s : CallbackSlot θ) : CallbackAct θ → Prop
  | .move th ok => ∀ p ∈ s.point th, s.InTurnAt ok p
  | _ => True

instance (s : CallbackSlot θ) (ok : Bool) : DecidablePred (s.InTurnAt ok) := fun p => by
  unfold InTurnAt
  split <;> infer_instance

instance (s : CallbackSlot θ) : DecidablePred s.InTurn := fun l => by
  cases l <;> unfold InTurn <;> infer_instance

/-! ## What every step keeps -/

/-- A session is open while the slot is announced, or one `DoDisconnect` has its callback still
to issue. -/
structure Ordered (s : CallbackSlot θ) : Prop where
  opened : ∃ b, Callback.opened s.log = some b ∧ (b = true ↔ s.Announced ∨ 0 < s.ending)
  accepting : s.accepting ≤ 1
  ending : s.ending ≤ 1
  closing : 0 < s.closing → ¬ s.Announced
  fresh : s.isConnected = true → s.fresh = false

variable {i : Nat} {s s' : CallbackSlot θ} {th : θ} {o q : Option HandlerPc}

omit [DecidableEq θ] in
theorem ordered_init : Ordered (init : CallbackSlot θ) := by
  have hzero : ∀ (P : Option HandlerPc → Prop) [DecidablePred P], ¬ P none →
      count P (init : CallbackSlot θ).point = 0 :=
    fun P _ hP => count_eq_zero.mpr fun _ => hP
  have ha : (init : CallbackSlot θ).accepting = 0 := hzero _ (by decide)
  have hc : (init : CallbackSlot θ).closing = 0 := hzero _ (by decide)
  have he : (init : CallbackSlot θ).ending = 0 := hzero _ (by decide)
  refine ⟨⟨false, rfl, nofun, fun h => ?_⟩, by omega, by omega, by omega, nofun⟩
  rcases h with h | h
  · cases h.1
  · omega

omit [DecidableEq θ] in
theorem ending_le_closing (s : CallbackSlot θ) : s.ending ≤ s.closing :=
  count_mono fun _ h => h.elim (fun h => .inl ⟨_, h⟩) .inr

omit [DecidableEq θ] in
theorem not_announced (hc : s.isConnected = false) : ¬ s.Announced := fun hann =>
  absurd (hc.symm.trans hann.1) Bool.false_ne_true

/-- What a move of one thread does to the three counts. -/
theorem counts_moved (hp : s'.point = Function.update s.point th q) (ho : s.point th = o) :
    s'.accepting + one HandlerPc.Accepting o = s.accepting + one HandlerPc.Accepting q ∧
      s'.closing + one HandlerPc.Closing o = s.closing + one HandlerPc.Closing q ∧
      s'.ending + one HandlerPc.Ending o = s.ending + one HandlerPc.Ending q := by
  subst ho
  unfold accepting closing ending
  rw [hp]
  exact ⟨count_update .., count_update .., count_update ..⟩

/-- A move between points that count the same changes nothing. -/
theorem Ordered.goTo (h : Ordered s) (ho : s.point th = o)
    (hq : one HandlerPc.Accepting q = one HandlerPc.Accepting o ∧
      one HandlerPc.Closing q = one HandlerPc.Closing o ∧
      one HandlerPc.Ending q = one HandlerPc.Ending o) : Ordered (s.goTo th q) := by
  have hp : (s.goTo th q).point = Function.update s.point th q := rfl
  obtain ⟨ha, hc, he⟩ := counts_moved hp ho
  have ha : (s.goTo th q).accepting = s.accepting := by omega
  have hc : (s.goTo th q).closing = s.closing := by omega
  have he : (s.goTo th q).ending = s.ending := by omega
  have hann : (s.goTo th q).Announced ↔ s.Announced := by
    unfold Announced
    rw [ha]
    rfl
  refine ⟨?_, ha ▸ h.accepting, he ▸ h.ending, fun hpos => ?_, h.fresh⟩
  · rw [hann, he]
    exact h.opened
  · rw [hann]
    exact h.closing (hc ▸ hpos)

/-- `BindIOCP` succeeds: the slot is connected, and not announced. -/
theorem Ordered.bindIOCP (h : Ordered s) (ho : s.point th = some .bindIOCP)
    (hfresh : s.fresh = true) (hacc : s.accepting = 0)
    (hp : s'.point = Function.update s.point th (some .acceptRecv)) (hf : s'.fresh = false)
    (hlog : s'.log = s.log) : Ordered s' := by
  obtain ⟨ha, hc, he⟩ : s'.accepting + 0 = s.accepting + 1 ∧ s'.closing + 0 = s.closing + 0 ∧
      s'.ending + 0 = s.ending + 0 := counts_moved hp ho
  have hbefore : ¬ s.Announced := by
    intro hann
    rw [h.fresh hann.1] at hfresh
    cases hfresh
  have hafter : ¬ s'.Announced := by
    intro hann
    have := hann.2
    omega
  obtain ⟨b, hb, hopen⟩ := h.opened
  have hend := h.ending
  refine ⟨⟨b, hlog ▸ hb, ?_⟩, by omega, by omega, fun _ => hafter, fun _ => hf⟩
  rw [hopen]
  have : 0 < s'.ending ↔ 0 < s.ending := by omega
  simp only [hbefore, hafter, this]

/-- `OnConnect` announces the slot: no session was open. -/
theorem Ordered.onConnect (h : Ordered s) (ho : s.point th = some .onConnect)
    (hconn : s.isConnected = true) (hclosing : s.closing = 0)
    (hp : s'.point = Function.update s.point th none) (hc' : s'.isConnected = s.isConnected)
    (hf : s'.fresh = s.fresh) (hlog : s'.log = s.log ++ [.OnConnect]) : Ordered s' := by
  obtain ⟨ha, hc, he⟩ : s'.accepting + 1 = s.accepting + 0 ∧ s'.closing + 0 = s.closing + 0 ∧
      s'.ending + 0 = s.ending + 0 := counts_moved hp ho
  have hacc := h.accepting
  have hend := ending_le_closing s
  obtain ⟨b, hb, hopen⟩ := h.opened
  have hclosed : b = false := by
    rw [← Bool.not_eq_true, hopen]
    intro hor
    rcases hor with hann | hpos
    · have := hann.2
      omega
    · omega
  have hann : s'.Announced := ⟨hc'.trans hconn, by omega⟩
  refine ⟨⟨true, ?_, fun _ => .inl hann, fun _ => rfl⟩, by omega, by omega, by omega, ?_⟩
  · rw [hlog, Callback.opened_append_singleton, hb, hclosed]
    rfl
  · rw [hc', hf]
    exact h.fresh

/-- `OnTCPReceive` falls into an open session. -/
theorem Ordered.onTCPReceive (h : Ordered s) (ho : s.point th = some .onTCPReceive)
    (hturn : s.Announced ∨ 0 < s.ending) :
    Ordered ((s.callback .OnTCPReceive).goTo th (some .bindRecv)) := by
  obtain ⟨b, hb, hopen⟩ := h.opened
  obtain rfl : b = true := hopen.mpr hturn
  have hlog : Callback.opened (s.callback .OnTCPReceive).log = some true := by
    show Callback.opened (s.log ++ [.OnTCPReceive]) = _
    rw [Callback.opened_append_singleton, hb]
    rfl
  have h' : Ordered (s.callback .OnTCPReceive) :=
    ⟨⟨true, hlog, hopen⟩, h.accepting, h.ending, h.closing, h.fresh⟩
  exact h'.goTo ho (by decide)

/-- `Close`: an announced slot is closed by a `DoDisconnect` that will issue the callback, and
by no other. -/
theorem Ordered.close (h : Ordered s) {cause : Cause} (ho : s.point th = some (.close cause))
    (hturn : ∀ ok, s.InTurnAt ok (.close cause))
    (hp : s'.point = Function.update s.point th (some (.resetConnection cause)))
    (hc' : s'.isConnected = false) (hlog : s'.log = s.log) : Ordered s' := by
  have hafter := not_announced hc'
  have hacc := h.accepting
  have hend := h.ending
  have hle := ending_le_closing s
  obtain ⟨b, hb, hopen⟩ := h.opened
  have hlog : Callback.opened s'.log = some b := hlog ▸ hb
  have hfresh : s'.isConnected = true → s'.fresh = false := fun hc =>
    absurd (hc'.symm.trans hc) Bool.false_ne_true
  cases cause with
  | broadcast =>
    obtain ⟨ha, hc, he⟩ : s'.accepting + 0 = s.accepting + 0 ∧ s'.closing + 0 = s.closing + 1 ∧
        s'.ending + 0 = s.ending + 1 := counts_moved hp ho
    have hann : s.Announced := hturn true
    -- nobody else is closing an announced slot
    have hzero : s.closing = 0 := by
      by_contra hne
      exact h.closing (Nat.pos_of_ne_zero hne) hann
    refine ⟨⟨b, hlog, ?_⟩, by omega, by omega, fun _ => hafter, hfresh⟩
    have : 0 < s'.ending := by omega
    simp only [hopen, hann, this, true_or, or_true]
  | silent =>
    obtain ⟨ha, hc, he⟩ : s'.accepting + 0 = s.accepting + 0 ∧ s'.closing + 0 = s.closing + 1 ∧
        s'.ending + 0 = s.ending + 0 := counts_moved hp ho
    have hbefore : ¬ s.Announced := hturn true
    refine ⟨⟨b, hlog, ?_⟩, by omega, by omega, fun _ => hafter, hfresh⟩
    have : 0 < s'.ending ↔ 0 < s.ending := by omega
    simp only [hopen, hbefore, hafter, this]
  | own =>
    obtain ⟨ha, hc, he⟩ : s'.accepting + 1 = s.accepting + 0 ∧ s'.closing + 0 = s.closing + 1 ∧
        s'.ending + 0 = s.ending + 0 := counts_moved hp ho
    have hbefore : ¬ s.Announced := by
      intro hann
      have := hann.2
      omega
    refine ⟨⟨b, hlog, ?_⟩, by omega, by omega, fun _ => hafter, hfresh⟩
    have : 0 < s'.ending ↔ 0 < s.ending := by omega
    simp only [hopen, hbefore, hafter, this]

/-- `ResetConnection`: the slot was closed before, and is not announced. -/
theorem Ordered.resetConnection (h : Ordered s) {cause : Cause}
    (ho : s.point th = some (.resetConnection cause))
    (hp : s'.point = Function.update s.point th
      (if cause = Cause.broadcast then some .onDisconnect else none))
    (hc' : s'.isConnected = false) (hlog : s'.log = s.log) : Ordered s' := by
  have hpos : 0 < s.closing := count_pos.mpr ⟨th, .inl ⟨cause, ho⟩⟩
  have hbefore := h.closing hpos
  obtain ⟨b, hb, hopen⟩ := h.opened
  have hacc := h.accepting
  have hend := h.ending
  have hafter := not_announced hc'
  obtain ⟨ha, he⟩ : s'.accepting = s.accepting ∧ s'.ending = s.ending := by
    cases cause with
    | broadcast =>
      have hcounts : s'.accepting + 0 = s.accepting + 0 ∧ s'.closing + 1 = s.closing + 1 ∧
          s'.ending + 1 = s.ending + 1 := counts_moved hp ho
      omega
    | silent =>
      have hcounts : s'.accepting + 0 = s.accepting + 0 ∧ s'.closing + 1 = s.closing + 0 ∧
          s'.ending + 0 = s.ending + 0 := counts_moved hp ho
      omega
    | own =>
      have hcounts : s'.accepting + 0 = s.accepting + 0 ∧ s'.closing + 1 = s.closing + 0 ∧
          s'.ending + 0 = s.ending + 0 := counts_moved hp ho
      omega
  refine ⟨⟨b, hlog ▸ hb, ?_⟩, by omega, by omega, fun _ => hafter, fun hc => ?_⟩
  · simp only [hopen, hbefore, hafter, he]
  · exact absurd (hc'.symm.trans hc) Bool.false_ne_true

/-- `OnDisconnect` ends the session that is open. -/
theorem Ordered.onDisconnect (h : Ordered s) (ho : s.point th = some .onDisconnect)
    (hp : s'.point = Function.update s.point th none) (hc' : s'.isConnected = s.isConnected)
    (hf : s'.fresh = s.fresh) (hlog : s'.log = s.log ++ [.OnDisconnect]) : Ordered s' := by
  have hpos : 0 < s.ending := count_pos.mpr ⟨th, .inr ho⟩
  have hle := ending_le_closing s
  have hbefore := h.closing (Nat.lt_of_lt_of_le hpos hle)
  obtain ⟨b, hb, hopen⟩ := h.opened
  obtain rfl : b = true := hopen.mpr (.inr hpos)
  have hacc := h.accepting
  have hend := h.ending
  obtain ⟨ha, hc, he⟩ : s'.accepting + 0 = s.accepting + 0 ∧ s'.closing + 1 = s.closing + 0 ∧
      s'.ending + 1 = s.ending + 0 := counts_moved hp ho
  have hafter : ¬ s'.Announced := by
    intro hann
    have := hann.2
    exact hbefore ⟨hc' ▸ hann.1, by omega⟩
  refine ⟨⟨false, ?_, nofun, fun hor => ?_⟩, by omega, by omega, fun _ => hafter, ?_⟩
  · rw [hlog, Callback.opened_append_singleton, hb]
    rfl
  · rcases hor with hann | h0
    · exact absurd hann hafter
    · omega
  · rw [hc', hf]
    exact h.fresh

/-- One call of a handler. -/
theorem Ordered.moveFrom (h : Ordered s) {p : HandlerPc} (ho : s.point th = some p) {ok : Bool}
    (hturn : s.InTurnAt ok p) : Ordered (s.moveFrom th ok p) := by
  cases p with
  | bindIOCP =>
    simp only [CallbackSlot.moveFrom]
    split
    · next hok => exact h.bindIOCP ho hok.1 (hturn hok.1 hok.2) rfl rfl rfl
    · exact h.goTo ho (by decide)
  | acceptRecv =>
    simp only [CallbackSlot.moveFrom]
    split
    · exact h.goTo ho (by decide)
    · exact h.goTo ho (by decide)
  | onConnect => exact h.onConnect ho hturn.1 hturn.2 rfl rfl rfl rfl
  | onTCPReceive => exact h.onTCPReceive ho hturn
  | bindRecv =>
    simp only [CallbackSlot.moveFrom]
    split
    · exact h.goTo ho (by decide)
    · exact h.goTo ho (by decide)
  | retryRecv => exact h.goTo ho (by decide)
  | close cause =>
    refine h.close ho ?_ rfl rfl rfl
    intro ok'
    cases cause <;> exact hturn
  | resetConnection cause => exact h.resetConnection ho rfl rfl rfl
  | onDisconnect => exact h.onDisconnect ho rfl rfl rfl rfl

theorem step_ordered {l : CallbackAct θ} (h : Ordered s) (hl : s.InTurn l)
    (hs : step i s l = some s') : Ordered s' := by
  have hgive : ∀ th calls, Ordered (s.give th calls) := fun th calls =>
    ⟨h.opened, h.accepting, h.ending, h.closing, h.fresh⟩
  cases l with
  | dequeue th e isRun bound =>
    simp only [step] at hs
    split at hs
    · obtain ⟨calls, -, rfl⟩ := Option.map_eq_some_iff.mp hs
      exact hgive th calls
    · cases hs
  | dequeueReused th n internal bound =>
    simp only [step] at hs
    split at hs
    · exact Option.some.inj hs ▸ hgive th _
    · cases hs
  | reread th op n =>
    simp only [step] at hs
    split at hs
    · exact Option.some.inj hs ▸ hgive th _
    · cases hs
  | next th =>
    simp only [step] at hs
    split at hs
    · next c cs hpt hrest =>
      obtain rfl := Option.some.inj hs
      refine (hgive th cs).goTo (o := none) hpt ?_
      cases c with
      | doDisconnect j b => cases b <;> exact ⟨rfl, rfl, rfl⟩
      | _ => exact ⟨rfl, rfl, rfl⟩
    · cases hs
  | move th ok =>
    obtain ⟨p, hp, rfl⟩ := Option.map_eq_some_iff.mp hs
    exact h.moveFrom hp (hl p hp)

/-- However the handlers of the worker threads interleave, the callbacks of the slot form a prefix
of `(OnConnect OnTCPReceive* OnDisconnect)*`, if every call of theirs is in turn. -/
theorem callbacks_alternate {i : Nat} {s : CallbackSlot θ} {ls : List (CallbackAct θ)}
    (hC : Meets (step i) InTurn init ls) (hr : run (step i) init ls = some s) :
    Callback.Alternate s.log := by
  have h := run_invariant (fun _ _ _ h hl hs => step_ordered h hl hs) ordered_init hC hr
  obtain ⟨b, hb, -⟩ := h.opened
  rw [Callback.alternate_iff, hb]
  rfl

/-! ## Sessions of slot 3 -/

/-- Thread `th` takes the entry, goes into the first call, and makes `n` calls there. -/
def handle (th : Bool) (e : Entry) (n : Nat) : List (CallbackAct Bool) :=
  .dequeue th e true true :: .next th :: List.replicate n (.move th true)

/-- A client connects, sends and leaves, and another connects; the threads take turns. -/
theorem callbacks_alternate_twice : ∃ s : CallbackSlot Bool,
    run (step 3) init (handle true acceptEntry 3 ++ handle false (tcpRecvEntry 3 12 0) 2 ++
      handle true (tcpRecvEntry 3 0 0) 3 ++ handle false acceptEntry 3) = some s ∧
      Callback.Alternate s.log ∧
      s.log = [.OnConnect, .OnTCPReceive, .OnDisconnect, .OnConnect] := by
  have hrun : ((run (step 3) init (handle true acceptEntry 3 ++
      handle false (tcpRecvEntry 3 12 0) 2 ++ handle true (tcpRecvEntry 3 0 0) 3 ++
      handle false acceptEntry 3)).map fun s : CallbackSlot Bool => s.log) =
      some [.OnConnect, .OnTCPReceive, .OnDisconnect, .OnConnect] := by decide +kernel
  obtain ⟨s, hs, hlog⟩ := Option.map_eq_some_iff.mp hrun
  exact ⟨s, hs, callbacks_alternate (by decide +kernel) hs, hlog⟩

/-- A send completes with bytes and an unknown status: the session ends without `OnDisconnect`,
and the slot's next session begins with a second `OnConnect`. -/
theorem connected_twice :
    ¬ ∀ (i : Nat) (ls : List (CallbackAct Bool)) (s : CallbackSlot Bool),
      run (step i) init ls = some s → Callback.Alternate s.log := by
  intro h
  have hrun : ((run (step 3) init (handle true acceptEntry 3 ++ handle true (sendEntry 3 12 1) 2 ++
      [.next true] ++ handle true acceptEntry 3)).map fun s : CallbackSlot Bool => s.log) =
      some [.OnConnect, .OnConnect] := by decide +kernel
  obtain ⟨s, hs, hlog⟩ := Option.map_eq_some_iff.mp hrun
  have halt := (Callback.alternate_iff _).mp (h 3 _ s hs)
  rw [hlog] at halt
  exact absurd halt (by decide)

end CallbackSlot

end RacingGameServer
