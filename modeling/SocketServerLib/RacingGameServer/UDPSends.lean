import SocketServerLib.Lib.Holding
import SocketServerLib.Lib.LabelledRun
import SocketServerLib.RacingGameServer.Dispatch

/-
  The contexts and packets of UDP sends: `SendMsgUDP`, and the entries `WorkerThread`
  dequeues for its posts.

  A context is in `m_UDPSendContextPool` or belongs to a post, and a packet is in
  `PacketPool`, with the caller of `SendMsgUDP`, or with the context of a post. The
  callers `J` are the jobs; a caller keeps its packet as long as `SendMsgUDP` fails.
  An entry may report any byte count and any status, and the outcome of each
  `WSASendTo` is the environment's.

  What is proved:
    1. `dispatch_udpSend` — the calls made for an entry of a UDP send.
    2. `step_sole`, `not_sole_of_complete` — what each step does to the ownership.
    3. `cleaned_up_once_iff` — an entry is cleaned up exactly once, unless it is posted
       again, if and only if it reports bytes and a status that is 0, `STATUS_CANCELLED`
       or `ERROR_MORE_DATA`; and over a run every context and every packet is at every
       moment in exactly one place if and only if all entries are so.
    4. `freed_in_flight` — an entry with a retryable error: the context is posted again
       and given back.

  What is assumed: a `SendMsgUDP` and the handling of an entry are one step each, and `new` gives
  an address that is not in use.
-/
namespace RacingGameServer

open Holding LabelledRun

/-! ## Entries for a UDP send -/

/-- The entry of a `WSASendTo`. -/
def udpSendEntry (iosize internal : Nat) : Entry :=
  { op := .UDPSEND, key := none, iosize := iosize, internal := internal }

/-- The send is over, and its entry says so in a way the dispatcher cleans up once. -/
def Completed (iosize internal : Nat) : Prop := iosize ≠ 0 ∧ (internal = 0 ∨ dropped internal)

instance (iosize internal : Nat) : Decidable (Completed iosize internal) := by
  unfold Completed; infer_instance

/-- What the dispatcher does with one: the clean-up, a second post followed by the clean-up,
nothing because the thread returns, or a null connection. -/
theorem dispatch_udpSend (isRun bound : Bool) (n internal : Nat) :
    (Completed n internal ∧ dispatch isRun bound (udpSendEntry n internal) = some [.doUDPSend]) ∨
      (¬ Completed n internal ∧
        (dispatch isRun bound (udpSendEntry n internal) = none ∨
          dispatch isRun bound (udpSendEntry n internal) = some [] ∨
          dispatch isRun bound (udpSendEntry n internal) = some [.udpResend, .doUDPSend])) := by
  by_cases hn : n = 0
  · subst hn
    exact .inr ⟨fun h => h.1 rfl, .inl rfl⟩
  have hzero : ¬ ((udpSendEntry n internal).iosize = 0 ∧ (udpSendEntry n internal).op ≠ .ACCEPT) :=
    fun h => hn h.1
  rw [dispatch, if_neg hzero]
  by_cases hgood : internal = 0
  · subst hgood
    exact .inl ⟨⟨hn, .inl rfl⟩, rfl⟩
  rw [if_pos (show (udpSendEntry n internal).internal ≠ 0 from hgood)]
  by_cases hd : dropped internal
  · refine .inl ⟨⟨hn, .inr hd⟩, ?_⟩
    rcases hd with rfl | rfl <;> rfl
  have hnot : ¬ Completed n internal := fun h => h.2.elim hgood hd
  refine .inr ⟨hnot, ?_⟩
  obtain ⟨hc, hm⟩ := not_or.mp hd
  rw [errorSwitch, if_neg (show ¬ (udpSendEntry n internal).internal = _ from hc)]
  split
  · exact .inl rfl
  rw [if_neg (show ¬ (udpSendEntry n internal).internal = _ from hm)]
  split
  · cases isRun with
    | false => exact .inr (.inl rfl)
    | true => exact .inr (.inr rfl)
  · exact .inl rfl

/-- How often a call gives the context and its packet back; `resent` is the outcome of
`UDPResend`'s post. -/
def Call.returned (resent : Bool) : Call → Nat
  | .doUDPSend => 1
  | .udpResend => if resent then 0 else 1
  | _ => 0

/-- How often the calls of one entry do. -/
def returns (resent : Bool) : List Call → Nat
  | [] => 0
  | c :: calls => c.returned resent + returns resent calls

/-- Exactly once, or not at all where the send is posted again. -/
def CleanedUp (resent : Bool) (calls : List Call) : Prop :=
  returns resent calls = if Call.udpResend ∈ calls ∧ resent = true then 0 else 1

instance (resent : Bool) (calls : List Call) : Decidable (CleanedUp resent calls) := by
  unfold CleanedUp; infer_instance

theorem cleanedUp_iff (isRun bound resent : Bool) (n internal : Nat) :
    (∃ calls, dispatch isRun bound (udpSendEntry n internal) = some calls ∧
      CleanedUp resent calls) ↔ Completed n internal := by
  rcases dispatch_udpSend isRun bound n internal with ⟨hok, he⟩ | ⟨hno, he | he | he⟩
  · refine iff_of_true ⟨_, he, ?_⟩ hok
    cases resent <;> decide
  · rw [he]
    refine iff_of_false ?_ hno
    intro h
    obtain ⟨calls, hcalls, -⟩ := h
    cases hcalls
  · rw [he]
    refine iff_of_false ?_ hno
    intro h
    obtain ⟨calls, hcalls, hclean⟩ := h
    obtain rfl := Option.some.inj hcalls
    revert hclean
    cases resent <;> decide
  · rw [he]
    refine iff_of_false ?_ hno
    intro h
    obtain ⟨calls, hcalls, hclean⟩ := h
    obtain rfl := Option.some.inj hcalls
    revert hclean
    cases resent <;> decide

/-! ## The pools and the posts -/

/-- An `ObjectPool`: its free list, and the objects `new` has made. -/
structure Pool where
  free : List Nat
  live : List Nat

namespace Pool

def init (n : Nat) : Pool := { free := List.range n, live := List.range n }

/-- `Allocate`; `fresh` is what `new` gives if the pool is empty, `none` if it fails. -/
def allocate (s : Pool) (fresh : Option Nat) : Pool × Option Nat :=
  match s.free, fresh with
  | a :: as, _ => ({ s with free := as }, some a)
  | [], none => (s, none)
  | [], some a => ({ s with live := a :: s.live }, some a)

def deallocate (s : Pool) (a : Nat) : Pool := { s with free := s.free ++ [a] }

/-- `new` gives no object that exists. -/
def Fresh (s : Pool) (fresh : Option Nat) : Prop := ∀ a ∈ fresh, a ∉ s.live

instance (s : Pool) (fresh : Option Nat) : Decidable (s.Fresh fresh) := by
  unfold Fresh; infer_instance

/-- An object of the free list, a new one, or none. -/
theorem allocate_cases (s : Pool) {fresh : Option Nat} (hfresh : s.Fresh fresh) :
    (∃ a as, s.free = a :: as ∧ s.allocate fresh = ({ s with free := as }, some a)) ∨
      (∃ a, s.free = [] ∧ a ∉ s.live ∧
        s.allocate fresh = ({ s with live := a :: s.live }, some a)) ∨
      s.allocate fresh = (s, none) := by
  unfold allocate
  cases hf : s.free with
  | cons a as => exact .inl ⟨a, as, rfl, rfl⟩
  | nil =>
    cases fresh with
    | none => exact .inr (.inr rfl)
    | some a => exact .inr (.inl ⟨a, rfl, hfresh a rfl, rfl⟩)

end Pool

/-- `callers j` is the packet a caller has, `pPacket c` that of context `c`, and `inFlight` lists
the contexts posted whose entry has not been dequeued. -/
structure UDPSends (J : Type*) where
  contexts : Pool
  packets : Pool
  callers : J → Option Nat
  pPacket : Nat → Nat
  inFlight : List Nat
  crashed : Bool

/-- `complete` is the entry of the post at `k`; `resent` is the outcome of `UDPResend`'s post,
if it is called. -/
inductive UDPSendAct (J : Type*) where
  | allocate (j : J) (fresh : Option Nat)
  | deallocate (j : J)
  | sendMsgUDP (j : J) (connected : Bool) (sin_port : Nat) (fresh : Option Nat) (posted : Bool)
  | complete (k iosize internal : Nat) (isRun bound resent : Bool)

/-- The places an object can be. -/
inductive SendPlace (J : Type*) where
  | pool
  | caller (j : J)
  | inFlight

namespace UDPSends

variable {J : Type*} [DecidableEq J]

/-- The server after start: `n` contexts, `m` packets. -/
def init (n m : Nat) : UDPSends J :=
  { contexts := .init n, packets := .init m, callers := fun _ => none, pPacket := fun _ => 0
    inFlight := [], crashed := false }

/-- `SendMsgUDP` of caller `j`'s packet. `connected` says that there is a connection. -/
def sendMsgUDP (s : UDPSends J) (j : J) (connected : Bool) (sin_port : Nat) (fresh : Option Nat)
    (posted : Bool) : UDPSends J × Bool :=
  match s.callers j with
  | none => (s, false)
  | some p =>
    if connected = false then (s, false)
    else
      match s.contexts.allocate fresh with
      | (contexts, none) => ({ s with contexts := contexts }, false)
      | (contexts, some c) =>
        let s' := { s with contexts := contexts, pPacket := Function.update s.pPacket c p }
        if sin_port = 0 ∨ posted = false then ({ s' with contexts := contexts.deallocate c }, false)
        else ({ s' with inFlight := c :: s.inFlight }, true)

/-- `PacketPool::Deallocate` and `m_UDPSendContextPool.Deallocate`. -/
def giveBack (s : UDPSends J) (c : Nat) : UDPSends J :=
  { s with packets := s.packets.deallocate (s.pPacket c), contexts := s.contexts.deallocate c }

/-- The dispatcher's calls on the context. -/
def call (c : Nat) (resent : Bool) (s : UDPSends J) : Call → UDPSends J
  | .doUDPSend => s.giveBack c
  | .udpResend => if resent then { s with inFlight := c :: s.inFlight } else s.giveBack c
  | _ => s

def step (s : UDPSends J) : UDPSendAct J → Option (UDPSends J)
  | .allocate j fresh =>
    if s.crashed = true ∨ s.callers j ≠ none ∨ ¬ s.packets.Fresh fresh then none
    else
      let r := s.packets.allocate fresh
      some { s with packets := r.1, callers := Function.update s.callers j r.2 }
  | .deallocate j =>
    match s.crashed, s.callers j with
    | false, some p =>
      some { s with
        packets := s.packets.deallocate p
        callers := Function.update s.callers j none }
    | _, _ => none
  | .sendMsgUDP j connected sin_port fresh posted =>
    if s.crashed = true ∨ ¬ s.contexts.Fresh fresh then none
    else
      let r := s.sendMsgUDP j connected sin_port fresh posted
      -- a caller whose send went out forgets the packet
      some (if r.2 = true then { r.1 with callers := Function.update s.callers j none } else r.1)
  | .complete k iosize internal isRun bound resent =>
    match s.crashed, s.inFlight[k]? with
    | false, some c =>
      let s' := { s with inFlight := s.inFlight.eraseIdx k }
      match dispatch isRun bound (udpSendEntry iosize internal) with
      | none => some { s' with crashed := true }
      | some calls => some (calls.foldl (call c resent) s')
    | _, _ => none

/-! ## Ownership -/

def heldContexts (s : UDPSends J) : SendPlace J → List Nat
  | .pool => s.contexts.free
  | .caller _ => []
  | .inFlight => s.inFlight

def heldPackets (s : UDPSends J) : SendPlace J → List Nat
  | .pool => s.packets.free
  | .caller j => (s.callers j).toList
  | .inFlight => s.inFlight.map s.pPacket

/-- Every context and every packet is in exactly one place. -/
structure Sole (s : UDPSends J) : Prop where
  contexts : Exclusive s.heldContexts (· ∈ s.contexts.live)
  packets : Exclusive s.heldPackets (· ∈ s.packets.live)

/-- The entry is one of a send that is cleaned up once. -/
def EntryOk (_ : UDPSends J) : UDPSendAct J → Prop
  | .complete _ iosize internal _ _ _ => Completed iosize internal
  | _ => True

omit [DecidableEq J] in
instance (s : UDPSends J) : DecidablePred s.EntryOk := fun l => by
  cases l <;> unfold EntryOk <;> infer_instance

variable {s s' : UDPSends J} {j : J} {c p k : Nat}

omit [DecidableEq J] in
theorem sole_init (n m : Nat) : Sole (init n m : UDPSends J) := by
  constructor
  · refine Exclusive.init (o := .pool) List.nodup_range rfl fun o ho => ?_
    cases o with
    | pool => exact absurd rfl ho
    | caller j => rfl
    | inFlight => rfl
  · refine Exclusive.init (o := .pool) List.nodup_range rfl fun o ho => ?_
    cases o with
    | pool => exact absurd rfl ho
    | caller j => rfl
    | inFlight => rfl

/-! ## Packets of the callers -/

theorem heldPackets_callers_self (s : UDPSends J) (j : J) (o : Option Nat) (P : Pool) :
    ({ s with packets := P, callers := Function.update s.callers j o } : UDPSends J).heldPackets
      (.caller j) = o.toList := by
  simp [heldPackets]

theorem heldPackets_callers_of_ne (s : UDPSends J) (x : Option Nat) (P : Pool) {o : SendPlace J}
    (hpool : o ≠ .pool) (hcaller : o ≠ .caller j) :
    ({ s with packets := P, callers := Function.update s.callers j x } : UDPSends J).heldPackets o =
      s.heldPackets o := by
  cases o with
  | pool => exact absurd rfl hpool
  | inFlight => rfl
  | caller j' =>
    have hj : j' ≠ j := fun he => hcaller (he ▸ rfl)
    simp [heldPackets, Function.update_of_ne hj]

omit [DecidableEq J] in
theorem heldPackets_caller {o : Option Nat} (hj : s.callers j = o) :
    s.heldPackets (.caller j) = o.toList := by
  rw [← hj]
  rfl

/-- A caller takes a packet of the pool, or a new one. -/
theorem Sole.allocate (h : Sole s) {fresh : Option Nat} (hj : s.callers j = none)
    (hfresh : s.packets.Fresh fresh) :
    Sole { s with
      packets := (s.packets.allocate fresh).1
      callers := Function.update s.callers j (s.packets.allocate fresh).2 } := by
  refine ⟨h.contexts, ?_⟩
  rcases s.packets.allocate_cases hfresh with ⟨a, as, hfree, he⟩ | ⟨a, hfree, hnew, he⟩ | he
  · rw [he]
    refine h.packets.transfer .pool (.caller j) nofun ?_ fun o hpool hcaller =>
      heldPackets_callers_of_ne s _ _ hpool hcaller
    rw [heldPackets_callers_self, heldPackets_caller hj]
    show List.Perm (as ++ [a]) (s.packets.free ++ [])
    rw [hfree, List.append_nil]
    exact List.perm_append_singleton a as
  · rw [he]
    refine h.packets.create (o := .caller j) (a := a) hnew ?_ (fun o ho => ?_) fun b => ?_
    · rw [heldPackets_callers_self, heldPackets_caller hj]
      rfl
    · by_cases hpool : o = .pool
      · subst hpool
        rfl
      · exact heldPackets_callers_of_ne s _ _ hpool ho
    · exact List.mem_cons
  · rw [he]
    refine h.packets.congr (fun o => ?_) fun _ => Iff.rfl
    show ({ s with packets := s.packets, callers := Function.update s.callers j none } :
      UDPSends J).heldPackets o = _
    rw [← hj, Function.update_eq_self]

/-- A caller gives its packet back to the pool. -/
theorem Sole.deallocate (h : Sole s) (hj : s.callers j = some p) :
    Sole { s with
      packets := s.packets.deallocate p
      callers := Function.update s.callers j none } := by
  refine ⟨h.contexts, h.packets.transfer (.caller j) .pool nofun ?_ fun o hcaller hpool =>
    heldPackets_callers_of_ne s _ _ hpool hcaller⟩
  rw [heldPackets_callers_self, heldPackets_caller hj]
  show List.Perm ([] ++ (s.packets.free ++ [p])) ([p] ++ s.packets.free)
  rw [List.nil_append]
  exact List.perm_append_comm

/-! ## A context of the pool -/

omit [DecidableEq J] in
/-- The context `SendMsgUDP` gets is in no post. It may go back to the pool or into a post. -/
theorem Sole.context (h : Sole s) {fresh : Option Nat} (hfresh : s.contexts.Fresh fresh) {P : Pool}
    (ha : s.contexts.allocate fresh = (P, some c)) (f : Nat → Nat) :
    c ∉ s.inFlight ∧
      Exclusive ({ s with contexts := P.deallocate c, pPacket := f } : UDPSends J).heldContexts
        (· ∈ P.live) ∧
      Exclusive ({ s with
          contexts := P, pPacket := f, inFlight := c :: s.inFlight } : UDPSends J).heldContexts
        (· ∈ P.live) := by
  rcases s.contexts.allocate_cases hfresh with ⟨a, as, hfree, he⟩ | ⟨a, hfree, hnew, he⟩ | he
  · obtain ⟨rfl, hc⟩ := Prod.mk.inj (he.symm.trans ha)
    obtain rfl := Option.some.inj hc
    have hmem : a ∈ s.heldContexts .pool := by
      show a ∈ s.contexts.free
      rw [hfree]
      exact List.mem_cons_self
    refine ⟨fun hin => ?_, ?_, ?_⟩
    · cases h.contexts.apart .pool .inFlight a hmem hin
    · refine h.contexts.transfer .pool .inFlight nofun ?_ fun o hpool hin => ?_
      · show List.Perm ((as ++ [a]) ++ s.inFlight) (s.contexts.free ++ s.inFlight)
        rw [hfree]
        exact (List.perm_append_singleton a as).append_right _
      · cases o with
        | pool => exact absurd rfl hpool
        | caller j => rfl
        | inFlight => exact absurd rfl hin
    · refine h.contexts.transfer .pool .inFlight nofun ?_ fun o hpool hin => ?_
      · show List.Perm (as ++ a :: s.inFlight) (s.contexts.free ++ s.inFlight)
        rw [hfree]
        exact List.perm_middle
      · cases o with
        | pool => exact absurd rfl hpool
        | caller j => rfl
        | inFlight => exact absurd rfl hin
  · obtain ⟨rfl, hc⟩ := Prod.mk.inj (he.symm.trans ha)
    obtain rfl := Option.some.inj hc
    refine ⟨fun hin => hnew ((h.contexts.live_iff a).mpr ⟨.inFlight, hin⟩), ?_, ?_⟩
    · refine h.contexts.create (o := .pool) (a := a) hnew ?_ (fun o ho => ?_) fun b => List.mem_cons
      · show s.contexts.free ++ [a] = a :: s.contexts.free
        rw [hfree]
        rfl
      · cases o with
        | pool => exact absurd rfl ho
        | caller j => rfl
        | inFlight => rfl
    · refine h.contexts.create (o := .inFlight) (a := a) hnew rfl (fun o ho => ?_)
        fun b => List.mem_cons
      cases o with
      | pool => rfl
      | caller j => rfl
      | inFlight => exact absurd rfl ho
  · rw [he] at ha
    cases (Prod.mk.inj ha).2

omit [DecidableEq J] in
/-- Writing a context that is in no post changes no packet in flight. -/
theorem map_update_pPacket (hc : c ∉ s.inFlight) (p : Nat) :
    s.inFlight.map (Function.update s.pPacket c p) = s.inFlight.map s.pPacket := by
  apply List.map_congr_left
  intro x hx
  rw [Function.update_of_ne]
  intro he
  exact hc (he ▸ hx)

omit [DecidableEq J] in
/-- `SendMsgUDP` does nothing, gives its context back at once, or posts it. -/
theorem sendMsgUDP_cases (s : UDPSends J) (j : J) (connected : Bool) (sin_port : Nat)
    {fresh : Option Nat} (hfresh : s.contexts.Fresh fresh) (posted : Bool) :
    s.sendMsgUDP j connected sin_port fresh posted = (s, false) ∨
      ∃ P c p, s.contexts.allocate fresh = (P, some c) ∧ s.callers j = some p ∧
        (s.sendMsgUDP j connected sin_port fresh posted =
            ({ s with
              contexts := P.deallocate c
              pPacket := Function.update s.pPacket c p }, false) ∨
          s.sendMsgUDP j connected sin_port fresh posted =
            ({ s with
              contexts := P
              pPacket := Function.update s.pPacket c p
              inFlight := c :: s.inFlight }, true)) := by
  unfold UDPSends.sendMsgUDP
  cases hj : s.callers j with
  | none => exact .inl rfl
  | some p =>
    by_cases hconn : connected = false
    · exact .inl (if_pos hconn)
    · simp only [hconn]
      cases ha : s.contexts.allocate fresh with
      | mk P o =>
        cases o with
        | none =>
          rcases s.contexts.allocate_cases hfresh with ⟨a, as, -, he⟩ | ⟨a, -, -, he⟩ | he
          · rw [he] at ha
            cases (Prod.mk.inj ha).2
          · rw [he] at ha
            cases (Prod.mk.inj ha).2
          · obtain ⟨rfl, -⟩ := Prod.mk.inj (he.symm.trans ha)
            exact .inl rfl
        | some c =>
          refine .inr ⟨P, c, p, rfl, rfl, ?_⟩
          by_cases hfail : sin_port = 0 ∨ posted = false
          · exact .inl (if_pos hfail)
          · exact .inr (if_neg hfail)

/-- `SendMsgUDP` posts the packet with a context, or leaves both where they were. -/
theorem Sole.sendMsgUDP (h : Sole s) {fresh : Option Nat} (hfresh : s.contexts.Fresh fresh)
    (connected : Bool) (sin_port : Nat) (posted : Bool) {r : UDPSends J × Bool}
    (hr : s.sendMsgUDP j connected sin_port fresh posted = r) :
    Sole
      (if r.2 = true then { r.1 with callers := Function.update s.callers j none } else r.1) := by
  obtain he | ⟨P, c, p, ha, hj, he | he⟩ :=
    sendMsgUDP_cases s j connected sin_port hfresh posted
  · rw [← hr, he]
    exact h
  · obtain ⟨hc, hback, -⟩ := h.context hfresh ha (Function.update s.pPacket c p)
    rw [← hr, he]
    refine ⟨hback, h.packets.congr (fun o => ?_) fun _ => Iff.rfl⟩
    cases o with
    | pool => rfl
    | caller j => rfl
    | inFlight => exact map_update_pPacket hc p
  · obtain ⟨hc, -, hpost⟩ := h.context hfresh ha (Function.update s.pPacket c p)
    rw [← hr, he]
    refine ⟨hpost, h.packets.transfer (.caller j) .inFlight nofun ?_ fun o hcaller hin => ?_⟩
    · show List.Perm ((Function.update s.callers j none j).toList ++
        (c :: s.inFlight).map (Function.update s.pPacket c p))
        ((s.callers j).toList ++ s.inFlight.map s.pPacket)
      rw [List.map_cons, Function.update_self, Function.update_self, map_update_pPacket hc, hj]
      exact List.Perm.refl _
    · cases o with
      | pool => rfl
      | inFlight => exact absurd rfl hin
      | caller j' =>
        have hne : j' ≠ j := fun he => hcaller (he ▸ rfl)
        show (Function.update s.callers j none j').toList = (s.callers j').toList
        rw [Function.update_of_ne hne]

/-! ## Entries -/

omit [DecidableEq J]

theorem perm_eraseIdx (hk : s.inFlight[k]? = some c) :
    List.Perm (c :: s.inFlight.eraseIdx k) s.inFlight := by
  obtain ⟨hlt, rfl⟩ := List.getElem?_eq_some_iff.mp hk
  exact List.getElem_cons_eraseIdx_perm hlt

/-- The entry of a post is dequeued, and its context and packet are given back. -/
theorem Sole.giveBack (h : Sole s) (hk : s.inFlight[k]? = some c) :
    Sole (({ s with inFlight := s.inFlight.eraseIdx k } : UDPSends J).giveBack c) := by
  have hperm := perm_eraseIdx hk
  constructor
  · refine h.contexts.transfer .pool .inFlight nofun ?_ fun o hpool hin => ?_
    · show List.Perm ((s.contexts.free ++ [c]) ++ s.inFlight.eraseIdx k)
        (s.contexts.free ++ s.inFlight)
      rw [List.append_assoc]
      exact hperm.append_left _
    · cases o with
      | pool => exact absurd rfl hpool
      | caller j => rfl
      | inFlight => exact absurd rfl hin
  · refine h.packets.transfer .pool .inFlight nofun ?_ fun o hpool hin => ?_
    · show List.Perm ((s.packets.free ++ [s.pPacket c]) ++ (s.inFlight.eraseIdx k).map s.pPacket)
        (s.packets.free ++ s.inFlight.map s.pPacket)
      rw [List.append_assoc]
      exact (hperm.map s.pPacket).append_left _
    · cases o with
      | pool => exact absurd rfl hpool
      | caller j => rfl
      | inFlight => exact absurd rfl hin

/-- A context in flight is in no other place, and in flight once. -/
theorem Sole.only (h : Sole s) (hk : s.inFlight[k]? = some c) :
    c ∈ s.contexts.live ∧ c ∉ s.contexts.free ∧ c ∉ s.inFlight.eraseIdx k := by
  have hmem : c ∈ s.heldContexts .inFlight := List.mem_of_getElem? hk
  refine ⟨(h.contexts.live_iff c).mpr ⟨.inFlight, hmem⟩, fun hfree => ?_, ?_⟩
  · cases h.contexts.apart .pool .inFlight c hfree hmem
  · have hnodup : (c :: s.inFlight.eraseIdx k).Nodup :=
      (perm_eraseIdx hk).nodup_iff.mpr (h.contexts.nodup .inFlight)
    exact (List.nodup_cons.mp hnodup).1

/-- A context that is in no place any more is lost. -/
theorem not_sole_of_lost (hlive : c ∈ s'.contexts.live) (hfree : c ∉ s'.contexts.free)
    (hin : c ∉ s'.inFlight) : ¬ Sole s' := by
  intro h
  obtain ⟨o, ho⟩ := (h.contexts.live_iff c).mp hlive
  cases o with
  | pool => exact hfree ho
  | caller j => cases ho
  | inFlight => exact hin ho

/-- The entry is not cleaned up once: its context is lost, free twice, or free and in flight. -/
theorem not_sole_of_complete (h : Sole s) {n internal : Nat} {isRun bound resent : Bool}
    [DecidableEq J] (hno : ¬ Completed n internal)
    (hs : step s (.complete k n internal isRun bound resent) = some s') : ¬ Sole s' := by
  simp only [step] at hs
  split at hs
  · next c hcrash hk =>
    obtain ⟨hlive, hfree, herase⟩ := h.only hk
    rcases dispatch_udpSend isRun bound n internal with ⟨hok, -⟩ | ⟨-, he | he | he⟩
    · exact absurd hok hno
    · rw [he] at hs
      obtain rfl := Option.some.inj hs
      exact not_sole_of_lost hlive hfree herase
    · rw [he] at hs
      obtain rfl := Option.some.inj hs
      exact not_sole_of_lost hlive hfree herase
    · rw [he] at hs
      obtain rfl := Option.some.inj hs
      intro h'
      have hpool : c ∈ s.contexts.free ++ [c] := by simp
      cases resent with
      | true =>
        -- given back while the second post is in flight
        cases h'.contexts.apart .pool .inFlight c hpool List.mem_cons_self
      | false =>
        have hnodup : ((s.contexts.free ++ [c]) ++ [c]).Nodup := h'.contexts.nodup .pool
        have hdisj := (List.nodup_append.mp hnodup).2.2
        exact hdisj c hpool c List.mem_cons_self rfl
  · cases hs

/-- What one step keeps. -/
theorem step_sole [DecidableEq J] {l : UDPSendAct J} (h : Sole s) (hl : s.EntryOk l)
    (hs : step s l = some s') : Sole s' := by
  cases l with
  | allocate j fresh =>
    simp only [step] at hs
    split at hs
    · cases hs
    · next hcond =>
      obtain ⟨-, hcond⟩ := not_or.mp hcond
      obtain ⟨hj, hfresh⟩ := not_or.mp hcond
      exact Option.some.inj hs ▸ h.allocate (not_not.mp hj) (not_not.mp hfresh)
  | deallocate j =>
    simp only [step] at hs
    split at hs
    · next p hcrash hj => exact Option.some.inj hs ▸ h.deallocate hj
    · cases hs
  | sendMsgUDP j connected sin_port fresh posted =>
    simp only [step] at hs
    split at hs
    · cases hs
    · next hcond =>
      obtain ⟨-, hfresh⟩ := not_or.mp hcond
      exact Option.some.inj hs ▸ h.sendMsgUDP (not_not.mp hfresh) connected sin_port posted rfl
  | complete k n internal isRun bound resent =>
    simp only [step] at hs
    split at hs
    · next c hcrash hk =>
      rcases dispatch_udpSend isRun bound n internal with ⟨-, he⟩ | ⟨hno, -⟩
      · rw [he] at hs
        exact Option.some.inj hs ▸ h.giveBack hk
      · exact absurd hl hno
    · cases hs

theorem step_bad [DecidableEq J] {l : UDPSendAct J} (h : Sole s) (hl : ¬ s.EntryOk l)
    (hs : step s l = some s') : ¬ Sole s' := by
  cases l with
  | complete k n internal isRun bound resent => exact not_sole_of_complete h hl hs
  | _ => exact absurd trivial hl

/-- An entry of a UDP send is cleaned up exactly once, unless it is posted again, if and only if
it reports bytes and a status that is 0, `STATUS_CANCELLED` or `ERROR_MORE_DATA`; and in a run
every context and every packet is at every moment in exactly one place if and only if all entries
do. -/
theorem cleaned_up_once_iff [DecidableEq J] {n m : Nat} {ls : List (UDPSendAct J)}
    (hr : run step (init n m) ls = some s) :
    (∀ isRun bound resent iosize internal,
        (∃ calls, dispatch isRun bound (udpSendEntry iosize internal) = some calls ∧
          CleanedUp resent calls) ↔ Completed iosize internal) ∧
      (Always step Sole (init n m) ls ↔ Meets step EntryOk (init n m) ls) :=
  ⟨cleanedUp_iff, always_iff_meets (fun _ h => h) (fun _ _ _ h hl hs => step_sole h hl hs)
    (fun _ _ _ h hl hs => step_bad h hl hs) (sole_init n m) hr⟩

/-! ## One send -/

/-- A caller takes a packet and sends it. -/
def sendOne : List (UDPSendAct Unit) :=
  [.allocate () none, .sendMsgUDP () true 5000 none true]

/-- The send completes, and so does one that the pool has no context left for. -/
theorem cleaned_up_once_iff_two :
    Always step Sole (init 1 1)
      (sendOne ++ [.allocate () (some 7), .sendMsgUDP () true 5000 (some 4) true,
        .complete 1 64 0 true true true, .complete 0 64 statusCancelled true true true]) :=
  (cleaned_up_once_iff rfl).2.mpr (by decide +kernel)

/-- The send completes with bytes and a retryable error: its context is posted again and is in
the free list. -/
theorem freed_in_flight :
    ¬ ∀ (n m : Nat) (ls : List (UDPSendAct Unit)) (s : UDPSends Unit),
      run step (init n m) ls = some s → Sole s := by
  intro h
  have hsole := h 1 1 (sendOne ++ [.complete 0 64 wsaeWouldBlock true true true]) _ rfl
  cases hsole.contexts.apart .pool .inFlight 0 (by decide) (by decide)

end UDPSends

end RacingGameServer
