import SocketServerLib.RacingGameServer.Connection
import SocketServerLib.Lib.Holding
import SocketServerLib.Lib.LabelledRun

/-
  Who holds a packet: `PacketPool`'s free list, a job's `m_pPacket`, or a send ring.

  The TCP send path, one operation a step, for any set of jobs `J` and any number of
  connections: `CreateJob`, `Execute`, `SendRes` (again as long as it fails),
  `TCPSendCompleted`, `DeallocateJob`, and connections going up and down. `post`
  is the outcome of the `WSASend` call, if one is made. `live` lists the addresses
  of the packets `new` has made and `delete` has not taken back.

  What is proved:
    1. `takesIffTrue_iff` — `SendMsgTCP` takes the packet exactly when it says so, except
       where the post fails: it returns false and the packet stays in the ring.
    2. `packets_sole_iff` — every packet is at every moment held in exactly one place
       if and only if no `SendRes` of the run posts and fails.
    3. `held_twice` — a run with a packet in a job and in a ring.

  What is assumed: an operation is one step, and `new` gives an address that is not in use.
-/
namespace RacingGameServer

open Holding LabelledRun

structure Ownership (J : Type*) where
  free : List PacketData
  jobs : J → Option Job
  conns : Nat → Option Connection
  live : List Nat

/-- The places a packet can be held. -/
inductive Owner (J : Type*) where
  | pool
  | job (j : J)
  | ring (i : Nat)

/-- `fresh` is the address `new` gives when the pool is empty, `none` if it fails. -/
inductive OwnershipAct (J : Type*) where
  | createJob (j : J) (a : Answers) (i : Nat) (sv : Bytes)
  | execute (j : J) (fresh : Option Nat) (token : Nat)
  | sendRes (j : J) (post : Bool)
  | tcpSendCompleted (i ioSize_ : Nat) (post : Bool)
  | deallocateJob (j : J)
  | connect (i : Nat)
  | disconnect (i : Nat)

namespace Ownership

variable {J : Type*} [DecidableEq J]

/-- The server after start: `n` packets in the pool, `m` connections. -/
def init (n m : Nat) : Ownership J :=
  { free := (List.range n).map fun a => .alloc a packetSize
    jobs := fun _ => none
    conns := fun i => if i < m then some .new else none
    live := List.range n }

/-- `PacketPool::Allocate`. -/
def allocate (s : Ownership J) (fresh : Option Nat) : Ownership J × Option PacketData :=
  match s.free, fresh with
  | p :: ps, _ => ({ s with free := ps }, some p)
  | [], none => (s, none)
  | [], some a => ({ s with live := a :: s.live }, some (.alloc a packetSize))

def setConn (s : Ownership J) (i : Nat) (c : Connection) : Ownership J :=
  { s with conns := Function.update s.conns i (some c) }

def setJob (s : Ownership J) (j : J) (job : Option Job) : Ownership J :=
  { s with jobs := Function.update s.jobs j job }

def step (s : Ownership J) : OwnershipAct J → Option (Ownership J)
  | .createJob j a i sv =>
    match s.jobs j, RacingGameServer.createJob a i 0 sv with
    | none, some job => some (s.setJob j (some job))
    | _, _ => none
  | .execute j fresh token =>
    match s.jobs j with
    | none => none
    | some job =>
      if ∃ a ∈ fresh, a ∈ s.live then none
      else
        let (s', p) := s.allocate fresh
        let r := job.execute { alloc := p, token := token }
        some { s'.setJob j (some r.1) with free := s'.free ++ r.2.2 }
  | .sendRes j post =>
    match s.jobs j with
    | none => none
    | some job =>
      if job.kind.protocol ≠ .TCP then none
      else match s.conns job.clientIndex with
        | none => some (s.setJob j (some (job.sendRes false).1))
        | some c =>
          let r := c.sendMsgTCP job.packet post
          some ((s.setConn job.clientIndex r.1).setJob j (some (job.sendRes r.2.1).1))
  | .tcpSendCompleted i ioSize_ post =>
    (s.conns i).map fun c =>
      let r := c.tcpSendCompleted ioSize_ post
      { s.setConn i r.1 with free := s.free ++ r.2.1 }
  | .deallocateJob j =>
    match s.jobs j with
    | none => none
    | some job =>
      -- `~Job` deletes the packet
      some { s.setJob j none with
        live := s.live.filter fun a => (job.packet.map (·.addr)) ≠ some a }
  | .connect i => (s.conns i).map fun c => s.setConn i { c with isConnected := true }
  | .disconnect i => (s.conns i).map fun c => s.setConn i c.reset

/-! ## Holders -/

def addrs (ps : List PacketData) : List Nat := ps.map PacketData.addr

@[simp] theorem addrs_nil : addrs [] = [] := rfl

@[simp] theorem addrs_cons (p : PacketData) (ps : List PacketData) :
    addrs (p :: ps) = p.addr :: addrs ps := rfl

@[simp] theorem addrs_append (ps qs : List PacketData) : addrs (ps ++ qs) = addrs ps ++ addrs qs :=
  List.map_append

/-- The addresses a place holds. -/
def held (s : Ownership J) : Owner J → List Nat
  | .pool => addrs s.free
  | .job j => addrs ((s.jobs j).bind Job.packet).toList
  | .ring i =>
    match s.conns i with
    | none => []
    | some c => addrs c.sendBuffer.queue

/-- Every packet is held in exactly one place. -/
def Sole (s : Ownership J) : Prop := Exclusive s.held (· ∈ s.live)

/-- Every ring is a well-formed queue. -/
def Rings (s : Ownership J) : Prop := ∀ i c, s.conns i = some c → ∃ q, c.sendBuffer.Holds q

variable {s s' : Ownership J} {j : J} {i : Nat}

/-! ## What each place holds after a change -/

section Conn
omit [DecidableEq J]

theorem held_setConn_self (s : Ownership J) (i : Nat) {c : Connection} {q : List PacketData}
    (hq : c.sendBuffer.Holds q) : (s.setConn i c).held (.ring i) = addrs q := by
  simp [held, setConn, hq.queue_eq]

theorem held_setConn_of_ne (s : Ownership J) (c : Connection) {o : Owner J} (h : o ≠ .ring i) :
    (s.setConn i c).held o = s.held o := by
  cases o with
  | pool => rfl
  | job j => rfl
  | ring i' =>
    have : i' ≠ i := fun he => h (he ▸ rfl)
    simp [held, setConn, Function.update_of_ne this]

theorem held_ring {c : Connection} {q : List PacketData} (hc : s.conns i = some c)
    (hq : c.sendBuffer.Holds q) : s.held (.ring i) = addrs q := by
  simp [held, hc, hq.queue_eq]

theorem held_job {job : Job} (hj : s.jobs j = some job) :
    s.held (.job j) = addrs job.packet.toList := by
  simp [held, hj]

theorem held_free_of_ne (s : Ownership J) (f : List PacketData) {o : Owner J} (h : o ≠ .pool) :
    ({ s with free := f } : Ownership J).held o = s.held o := by
  cases o with
  | pool => exact absurd rfl h
  | job j => rfl
  | ring i => rfl

theorem rings_init (n m : Nat) : Rings (init n m : Ownership J) := by
  intro i c hc
  obtain ⟨-, hc⟩ := Option.ite_none_right_eq_some.mp hc
  exact ⟨[], Option.some.inj hc ▸ SendBuffer.holds_allocated (by decide)⟩

theorem Rings.setConn (h : Rings s) {c : Connection} {q : List PacketData}
    (hq : c.sendBuffer.Holds q) : Rings (s.setConn i c) := by
  intro i' c' hc'
  by_cases he : i' = i
  · subst he
    simp only [Ownership.setConn, Function.update_self, Option.some.injEq] at hc'
    exact ⟨q, hc' ▸ hq⟩
  · simp only [Ownership.setConn, Function.update_of_ne he] at hc'
    exact h i' c' hc'

/-- A connection changes, its ring does not. -/
theorem Sole.setConn_same (h : Sole s) {c c' : Connection} (hc : s.conns i = some c)
    (hring : c'.sendBuffer = c.sendBuffer) : Sole (s.setConn i c') := by
  refine h.congr (fun o => ?_) fun _ => Iff.rfl
  by_cases ho : o = .ring i
  · subst ho
    simp [held, Ownership.setConn, hc, hring]
  · exact held_setConn_of_ne s c' ho

theorem setConn_self {c : Connection} (hc : s.conns i = some c) : s.setConn i c = s := by
  rw [setConn, ← hc, Function.update_eq_self]

theorem sole_init (n m : Nat) : Sole (init n m : Ownership J) := by
  refine Exclusive.init (o := .pool) List.nodup_range ?_ fun o ho => ?_
  · simp only [held, init, addrs, List.map_map]
    exact List.map_id _
  · cases o with
    | pool => exact absurd rfl ho
    | job j => rfl
    | ring i =>
      cases hc : (init n m : Ownership J).conns i with
      | none => simp only [held, hc]
      | some c =>
        obtain ⟨-, hnew⟩ := Option.ite_none_right_eq_some.mp hc
        have hq : c.sendBuffer.Holds [] :=
          Option.some.inj hnew ▸ SendBuffer.holds_allocated (by decide)
        rw [held_ring hc hq]
        rfl

end Conn

theorem setJob_self {job : Job} (hj : s.jobs j = some job) : s.setJob j (some job) = s := by
  rw [setJob, ← hj, Function.update_eq_self]

theorem held_setJob_self (s : Ownership J) (j : J) (x : Option Job) :
    (s.setJob j x).held (.job j) = addrs (x.bind Job.packet).toList := by
  simp [held, setJob]

theorem held_setJob_of_ne (s : Ownership J) (x : Option Job) {o : Owner J} (h : o ≠ .job j) :
    (s.setJob j x).held o = s.held o := by
  cases o with
  | pool => rfl
  | ring i => rfl
  | job j' =>
    have : j' ≠ j := fun he => h (he ▸ rfl)
    simp [held, setJob, Function.update_of_ne this]

/-- A job changes, its packet does not. -/
theorem Sole.setJob_same (h : Sole s) {x : Option Job}
    (hp : x.bind Job.packet = (s.jobs j).bind Job.packet) : Sole (s.setJob j x) := by
  refine h.congr (fun o => ?_) fun _ => Iff.rfl
  by_cases ho : o = .job j
  · subst ho
    rw [held_setJob_self, hp]
    rfl
  · exact held_setJob_of_ne s x ho

/-! ## The operations -/

/-- `Execute` with a packet of the pool. -/
theorem sole_execute (h : Sole s) {job : Job} (hj : s.jobs j = some job) {p : PacketData}
    {ps : List PacketData} (hfree : s.free = p :: ps) {a : Answers} (ha : a.alloc = some p) :
    Sole { ({ s with free := ps } : Ownership J).setJob j (some (job.execute a).1) with
      free := ps ++ (job.execute a).2.2 } := by
  refine h.transfer .pool (.job j) (fun ho => by cases ho) ?_ fun o hpool hjob => ?_
  · have hnew : ∀ (job' : Job) (f : List PacketData),
        ({ ({ s with free := ps } : Ownership J).setJob j (some job') with
          free := f } : Ownership J).held (.job j) = addrs job'.packet.toList :=
      fun job' f => held_setJob_self _ j _
    rw [hnew, held_job hj]
    show List.Perm (addrs (ps ++ (job.execute a).2.2) ++ _) (addrs s.free ++ _)
    rw [hfree]
    have hclear : ∀ x : Option PacketData,
        addrs (x.map PacketData.clear).toList = addrs x.toList := by
      intro x
      cases x <;> rfl
    -- the pool's packet goes to the job and the job's old one to the pool, or nothing moves
    rcases job.execute_some ha with ⟨p', hp', he⟩ | ⟨p', hp', he⟩ <;> rw [he]
    · simp only [addrs_append, hclear, addrs_cons, Option.toList_some, addrs_nil, hp']
      apply List.perm_iff_count.mpr
      intro b
      simp only [List.count_append, List.count_cons, List.count_nil]
      omega
    · simp only [addrs_append, addrs_cons, addrs_nil, hp']
      apply List.perm_iff_count.mpr
      intro b
      simp only [List.count_append, List.count_cons, List.count_nil]
      omega
  · exact (held_free_of_ne _ _ hpool).trans
      ((held_setJob_of_ne _ _ hjob).trans (held_free_of_ne s ps hpool))

omit [DecidableEq J] in
/-- `new` puts a packet where the next `Allocate` finds it. -/
theorem sole_new (h : Sole s) {a : Nat} (ha : a ∉ s.live) (hfree : s.free = []) :
    Sole { s with free := [.alloc a packetSize], live := a :: s.live } := by
  refine h.create (o := .pool) ha ?_ (fun o ho => ?_) fun b => List.mem_cons
  · simp only [held, hfree]
    rfl
  · exact held_free_of_ne { s with live := a :: s.live } _ ho

/-- `SendRes`: unless the post fails, the packet stays with the job or is in the ring, as the
returned bool says. -/
theorem sole_sendRes (h : Sole s) {job : Job} (hj : s.jobs j = some job) {c : Connection}
    (hc : s.conns i = some c) {q : List PacketData} (hq : c.sendBuffer.Holds q) {post : Bool}
    (hpost : job.packet.isSome → ¬ c.PostFails post) :
    Sole ((s.setConn i (c.sendMsgTCP job.packet post).1).setJob j
      (some (job.sendRes (c.sendMsgTCP job.packet post).2.1).1)) := by
  have hrefused : c.sendMsgTCP job.packet post = (c, false, none) → Sole ((s.setConn i
      (c.sendMsgTCP job.packet post).1).setJob j
      (some (job.sendRes (c.sendMsgTCP job.packet post).2.1).1)) := by
    intro he
    rw [he, setConn_self hc]
    exact h.setJob_same (by rw [hj]; rfl)
  cases hp : job.packet with
  | none =>
    rw [hp] at hrefused
    exact hrefused (by simp [Connection.sendMsgTCP])
  | some p =>
    rw [hp] at hrefused hpost
    rcases Connection.sendMsgTCP_spec hq p post with ⟨-, he⟩ | ⟨hring, hret⟩
    · exact hrefused he
    · have htrue : (c.sendMsgTCP (some p) post).2.1 = true :=
        Bool.not_eq_false _ ▸ fun hf => hpost rfl (hret.mp hf)
      rw [htrue]
      have hnone : (job.sendRes true).1.packet = none := by
        simp [Job.sendRes, hp]
      refine h.transfer (.job j) (.ring i) (fun ho => by cases ho) ?_ fun o hjob hr => ?_
      · rw [held_setJob_self, held_setJob_of_ne _ _ (fun ho => by cases ho),
          held_setConn_self _ _ hring, held_ring hc hq, held_job hj, hp, Option.bind_some, hnone]
        simp only [Option.toList_none, Option.toList_some, addrs_append, addrs_cons, addrs_nil,
          List.nil_append]
        exact List.perm_append_comm
      · exact (held_setJob_of_ne _ _ hjob).trans (held_setConn_of_ne s _ hr)

omit [DecidableEq J] in
/-- `TCPSendCompleted`: what leaves the ring goes to the pool. -/
theorem sole_completed (h : Sole s) {c : Connection} (hc : s.conns i = some c)
    {q : List PacketData} (hq : c.sendBuffer.Holds q) (n : Nat) (post : Bool) :
    Sole { s.setConn i (c.tcpSendCompleted n post).1 with
      free := s.free ++ (c.tcpSendCompleted n post).2.1 } ∧
    (c.tcpSendCompleted n post).1.sendBuffer.Holds (SendBuffer.dropBytes n q).1 := by
  have hring : (c.tcpSendCompleted n post).1.sendBuffer.Holds (SendBuffer.dropBytes n q).1 ∧
      (c.tcpSendCompleted n post).2.1 = (SendBuffer.dropBytes n q).2 := by
    obtain ⟨ring, hring, ⟨-, he⟩ | ⟨-, he⟩⟩ := Connection.tcpSendCompleted_spec hq n post <;>
      rw [he] <;> exact ⟨hring, rfl⟩
  obtain ⟨hring, hfreed⟩ := hring
  refine ⟨?_, hring⟩
  rw [hfreed]
  refine h.transfer (.ring i) .pool (fun ho => by cases ho) ?_ fun o hr hpool => ?_
  · rw [held_free_of_ne _ _ (fun ho => by cases ho), held_setConn_self _ _ hring, held_ring hc hq,
      show addrs q = _ from (SendBuffer.addr_dropBytes n q).symm]
    show List.Perm (_ ++ addrs (s.free ++ _)) (_ ++ addrs s.free)
    rw [addrs_append]
    apply List.perm_iff_count.mpr
    intro b
    simp only [List.count_append, addrs]
    omega
  · exact (held_free_of_ne _ _ hpool).trans (held_setConn_of_ne s _ hr)

/-- `DeallocateJob`: the packet of the job is destroyed with it. -/
theorem sole_deallocate (h : Sole s) {job : Job} (hj : s.jobs j = some job) :
    Sole { s.setJob j none with
      live := s.live.filter fun a => (job.packet.map (·.addr)) ≠ some a } := by
  have hempty : ∀ l, ({ s.setJob j none with live := l } : Ownership J).held (.job j) = [] :=
    fun _ => held_setJob_self s j none
  cases hp : job.packet with
  | none =>
    have hsame : Sole (s.setJob j none) := h.setJob_same (by rw [hj, Option.bind_some, hp]; rfl)
    exact hsame.congr (fun _ => rfl) fun b => by simp [setJob]
  | some p =>
    refine h.destroy (o := .job j) (a := p.addr) ?_ (fun o ho => held_setJob_of_ne s none ho) ?_
    · rw [held_job hj, hp, hempty]
      rfl
    · intro b
      rw [List.mem_filter, and_comm]
      refine and_congr_left fun _ => ?_
      rw [decide_eq_true_iff, Option.map_some]
      exact not_congr ⟨fun he => (Option.some.inj he).symm, fun he => congrArg some he.symm⟩

/-! ## Runs -/

/-- A `SendRes` whose post fails. -/
def FailsPost (s : Ownership J) : OwnershipAct J → Prop
  | .sendRes j post => ∃ job ∈ s.jobs j, job.kind.protocol = .TCP ∧ job.packet.isSome ∧
      ∃ c ∈ s.conns job.clientIndex, c.PostFails post
  | _ => False

instance (s : Ownership J) : DecidablePred (FailsPost s) := fun l => by
  cases l <;> simp only [FailsPost] <;> infer_instance

theorem step_execute {fresh : Option Nat} {token : Nat}
    (h : step s (.execute j fresh token) = some s') :
    ∃ job, s.jobs j = some job ∧ (∀ a ∈ fresh, a ∉ s.live) ∧
      s' = { (s.allocate fresh).1.setJob j
          (some (job.execute { alloc := (s.allocate fresh).2, token := token }).1) with
        free := (s.allocate fresh).1.free ++
          (job.execute { alloc := (s.allocate fresh).2, token := token }).2.2 } := by
  simp only [step] at h
  split at h
  · cases h
  · next job hj =>
    split at h
    · cases h
    · next hfresh =>
      exact ⟨job, hj, fun a ha hl => hfresh ⟨a, ha, hl⟩, (Option.some.inj h).symm⟩

theorem step_sendRes {post : Bool} (h : step s (.sendRes j post) = some s') :
    ∃ job, s.jobs j = some job ∧ job.kind.protocol = .TCP ∧
      ((s.conns job.clientIndex = none ∧ s' = s.setJob j (some (job.sendRes false).1)) ∨
        ∃ c, s.conns job.clientIndex = some c ∧
          s' = (s.setConn job.clientIndex (c.sendMsgTCP job.packet post).1).setJob j
            (some (job.sendRes (c.sendMsgTCP job.packet post).2.1).1)) := by
  simp only [step] at h
  split at h
  · cases h
  · next job hj =>
    split at h
    · cases h
    · next hp =>
      refine ⟨job, hj, Classical.not_not.mp hp, ?_⟩
      split at h
      · next hc => exact .inl ⟨hc, (Option.some.inj h).symm⟩
      · next c hc => exact .inr ⟨c, hc, (Option.some.inj h).symm⟩

/-- `Execute`, with a pooled packet, with a new one, or without one. -/
theorem sole_step_execute (h : Sole s) {fresh : Option Nat} {token : Nat}
    (hs : step s (.execute j fresh token) = some s') : Sole s' := by
  obtain ⟨job, hj, hfresh, rfl⟩ := step_execute hs
  cases hfree : s.free with
  | cons p ps =>
    have halloc : s.allocate fresh = ({ s with free := ps }, some p) := by
      simp only [allocate, hfree]
    rw [halloc]
    exact sole_execute h hj hfree rfl
  | nil =>
    cases fresh with
    | none =>
      have halloc : s.allocate none = (s, none) := by simp only [allocate, hfree]
      rw [halloc, Job.execute_none job rfl, setJob_self hj]
      exact h.congr (fun o => by simp only [List.append_nil]) fun _ => Iff.rfl
    | some a =>
      have halloc : s.allocate (some a) =
          ({ s with live := a :: s.live }, some (.alloc a packetSize)) := by
        simp only [allocate, hfree]
      rw [halloc]
      have hnew := sole_new h (hfresh a rfl) hfree
      have hexec := sole_execute (j := j) hnew hj rfl
        (a := { alloc := some (.alloc a packetSize), token := token }) rfl
      simpa only [hfree] using hexec

/-- What every state of a run without a failing post satisfies. -/
structure Owned (s : Ownership J) : Prop where
  sole : Sole s
  rings : Rings s

theorem owned_step (h : Owned s) {l : OwnershipAct J} (hl : ¬ FailsPost s l)
    (hs : step s l = some s') : Owned s' := by
  cases l with
  | createJob j a i sv =>
    simp only [step] at hs
    split at hs
    · next job hj hjob =>
      cases hs
      have hnone : job.packet = none := (createJob_fresh hjob).1
      exact ⟨h.sole.setJob_same (by rw [hj, Option.bind_some, hnone]; rfl), h.rings⟩
    · cases hs
  | execute j fresh token =>
    refine ⟨sole_step_execute h.sole hs, ?_⟩
    obtain ⟨job, -, -, rfl⟩ := step_execute hs
    have hconns : (s.allocate fresh).1.conns = s.conns := by
      unfold allocate
      split <;> rfl
    intro i c hc
    exact h.rings i c (hconns ▸ hc)
  | sendRes j post =>
    obtain ⟨job, hj, hp, ⟨-, rfl⟩ | ⟨c, hc, rfl⟩⟩ := step_sendRes hs
    · exact ⟨h.sole.setJob_same (by rw [hj]; rfl), h.rings⟩
    · obtain ⟨q, hq⟩ := h.rings _ c hc
      refine ⟨sole_sendRes h.sole hj hc hq fun hpk hf => ?_, ?_⟩
      · exact hl ⟨job, hj, hp, hpk, c, hc, hf⟩
      · have hring : ∃ q', (c.sendMsgTCP job.packet post).1.sendBuffer.Holds q' := by
          cases hpk : job.packet with
          | none => exact ⟨q, by simpa [Connection.sendMsgTCP] using hq⟩
          | some p =>
            rcases Connection.sendMsgTCP_spec hq p post with ⟨-, he⟩ | ⟨hring, -⟩
            · exact ⟨q, by rw [he]; exact hq⟩
            · exact ⟨_, hring⟩
        obtain ⟨q', hq'⟩ := hring
        exact h.rings.setConn hq'
  | tcpSendCompleted i n post =>
    obtain ⟨c, hc, rfl⟩ := Option.map_eq_some_iff.mp hs
    obtain ⟨q, hq⟩ := h.rings i c hc
    obtain ⟨hsole, hring⟩ := sole_completed h.sole hc hq n post
    exact ⟨hsole, h.rings.setConn hring⟩
  | deallocateJob j =>
    simp only [step] at hs
    split at hs
    · cases hs
    · next job hj =>
      cases hs
      exact ⟨sole_deallocate h.sole hj, h.rings⟩
  | connect i =>
    obtain ⟨c, hc, rfl⟩ := Option.map_eq_some_iff.mp hs
    obtain ⟨q, hq⟩ := h.rings i c hc
    exact ⟨h.sole.setConn_same hc rfl, h.rings.setConn hq⟩
  | disconnect i =>
    obtain ⟨c, hc, rfl⟩ := Option.map_eq_some_iff.mp hs
    obtain ⟨q, hq⟩ := h.rings i c hc
    exact ⟨h.sole.setConn_same hc rfl, h.rings.setConn hq⟩

/-- A failing post leaves the packet with the job and in the ring. -/
theorem not_sole_of_failsPost (h : Owned s) {l : OwnershipAct J} (hl : FailsPost s l)
    (hs : step s l = some s') : ¬ Sole s' := by
  cases l with
  | sendRes j post =>
    obtain ⟨job, hj, hp, hpk, c, hc, hf⟩ := hl
    obtain ⟨p, hpk⟩ := Option.isSome_iff_exists.mp hpk
    obtain ⟨q, hq⟩ := h.rings _ c hc
    obtain ⟨job', hj', -, hcase⟩ := step_sendRes hs
    obtain rfl : job = job' := Option.some.inj (hj.symm.trans hj')
    rcases hcase with ⟨hnone, -⟩ | ⟨c', hc', rfl⟩
    · cases hc.symm.trans hnone
    obtain rfl : c = c' := Option.some.inj (hc.symm.trans hc')
    rw [hpk]
    rcases Connection.sendMsgTCP_spec hq p post with ⟨hok, -⟩ | ⟨hring, hret⟩
    · exact absurd hf hok
    · rw [hret.mpr hf]
      intro hsole
      have hjob : p.addr ∈ ((s.setConn job.clientIndex (c.sendMsgTCP (some p) post).1).setJob j
          (some (job.sendRes false).1)).held (.job j) := by
        rw [held_setJob_self]
        simp [Job.sendRes, hpk]
      have hring : p.addr ∈ ((s.setConn job.clientIndex (c.sendMsgTCP (some p) post).1).setJob j
          (some (job.sendRes false).1)).held (.ring job.clientIndex) := by
        rw [held_setJob_of_ne _ _ (fun ho => by cases ho), held_setConn_self _ _ hring]
        simp
      cases hsole.apart _ _ _ hjob hring
  | _ => exact absurd hl id

/-- What the send path promises of one `SendMsgTCP` call on a ring that holds `q`: the packet is
in the ring if it returns true, and the ring is untouched if it returns false. -/
def TakesIffTrue (c : Connection) (q : List PacketData) (p : PacketData) (post : Bool) : Prop :=
  ((c.sendMsgTCP (some p) post).2.1 = true ∧
      (c.sendMsgTCP (some p) post).1.sendBuffer.Holds (q ++ [p])) ∨
    ((c.sendMsgTCP (some p) post).2.1 = false ∧
      (c.sendMsgTCP (some p) post).1.sendBuffer = c.sendBuffer)

theorem takesIffTrue_iff {c : Connection} {q : List PacketData} (hq : c.sendBuffer.Holds q)
    (p : PacketData) (post : Bool) : TakesIffTrue c q p post ↔ ¬ c.PostFails post := by
  rcases Connection.sendMsgTCP_spec hq p post with ⟨hok, he⟩ | ⟨hring, hret⟩
  · refine ⟨fun _ => hok, fun _ => .inr ?_⟩
    rw [he]
    exact ⟨rfl, rfl⟩
  · rw [← hret]
    constructor
    · intro hcase hfalse
      rcases hcase with ⟨htrue, -⟩ | ⟨-, hsame⟩
      · cases htrue.symm.trans hfalse
      · -- the ring has grown
        rw [hsame] at hring
        have := congrArg List.length (hq.queue_eq.symm.trans hring.queue_eq)
        simp at this
    · intro hne
      exact .inl ⟨by simpa using hne, hring⟩

/-- One call takes the packet exactly when it says so, unless its post fails; and over a run every
packet is at every moment held in exactly one place if and only if no `SendRes` posts and fails. -/
theorem packets_sole_iff (n m : Nat) {ls : List (OwnershipAct J)}
    (hr : run step (init n m) ls = some s) :
    (∀ c q p post, c.sendBuffer.Holds q → (TakesIffTrue c q p post ↔ ¬ c.PostFails post)) ∧
      (Always step Sole (init n m) ls ↔ Meets step (fun s l => ¬ FailsPost s l) (init n m) ls) :=
  ⟨fun _ _ p post hq => takesIffTrue_iff hq p post,
    always_iff_meets (I := Owned) (fun _ h => h.sole) (fun _ _ _ h hl hs => owned_step h hl hs)
      (fun _ _ _ h hl hs => not_sole_of_failsPost h (Classical.not_not.mp hl) hs)
      ⟨sole_init n m, rings_init n m⟩ hr⟩

/-! ## One response -/

/-- One packet, one connection, one job: the job is created and executed. -/
def executeOne : List (OwnershipAct Unit) :=
  [.connect 0, .createJob () {} 0 tokenFrame, .execute () none 5]

/-- Its response is posted successfully. -/
theorem packets_sole_iff_one : ∃ s,
    run step (init 1 1) (executeOne ++ [.sendRes () true]) = some s ∧
    Always step Sole (init 1 1) (executeOne ++ [.sendRes () true]) := by
  have hrun : (run step (init 1 1) (executeOne ++ [.sendRes () true])).isSome := by decide +kernel
  obtain ⟨s, hs⟩ := Option.isSome_iff_exists.mp hrun
  exact ⟨s, hs, (packets_sole_iff 1 1 hs).2.mpr (by decide +kernel)⟩

/-- The post of its response fails: the packet is in the job and in the ring. -/
theorem held_twice : ∃ s, run step (init 1 1) (executeOne ++ [.sendRes () false]) = some s ∧
    ¬ Sole s := by
  have hrun : (run step (init 1 1) executeOne).map (fun s =>
      (decide (FailsPost s (.sendRes () false)), (step s (.sendRes () false)).isSome)) =
        some (true, true) := by decide +kernel
  obtain ⟨s, hs, hend⟩ := Option.map_eq_some_iff.mp hrun
  obtain ⟨hfails, hsome⟩ := Prod.mk.inj hend
  obtain ⟨s', hs'⟩ := Option.isSome_iff_exists.mp hsome
  have howned : Owned s := run_invariant (fun _ _ _ h hl hs => owned_step h hl hs)
    ⟨sole_init 1 1, rings_init 1 1⟩ (by decide +kernel) hs
  refine ⟨s', ?_, not_sole_of_failsPost howned (of_decide_eq_true hfails) hs'⟩
  rw [run_append, hs, Option.bind_some, run_cons, hs']
  rfl

end Ownership

end RacingGameServer
