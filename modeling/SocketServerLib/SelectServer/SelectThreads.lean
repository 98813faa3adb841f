import SocketServerLib.SelectServer.OpenSets
import SocketServerLib.Lib.ShiftingScan

/-
  `SelectServer::ReadThread` and `WriteThread`: the passes over `reads` and `writes` by index,
  while `FD_SET` and `FD_CLR` change them.

  A pass begins when `select` leaves some socket of the copy, and ends when `i` comes to
  `fd_count`. Every turn is one step, which calls `DoAccept`, `DoRecv` or `ResumeSend`, and so is
  every `SendMsg` of the job thread. `select` fails for a set with a socket that is not open, and
  the thread ends.

  What is proved:
    1. `read_once` — in a pass of `ReadThread` no socket has two turns.
    2. `served_within` — a socket that `select` finds ready every time has a turn within as many
       passes as its place in the set says, however often `FD_CLR` moves it past the index.
    3. `goes_on_iff` — both threads go on if and only if no socket is closed that is in `reads` or
       `writes`, or comes in there.
    4. `ended_for_good` — a thread whose `select` has failed does nothing more.

  What is assumed: what `SelectServer` assumes; a turn, with the call it makes, is one step.
-/
namespace SelectServer
open RacingGameServer LabelledRun ShiftingScan

/-- A thread's copy of its set, as `select` leaves it, and its index in the set. `passes`,
`handled` and `inPass` are what it has done. -/
structure SelectLoop where
  cpy : List Nat
  i : Option Nat
  running : Bool
  passes : Nat
  handled : List Nat
  inPass : List Nat

namespace SelectLoop

def init : SelectLoop :=
  { cpy := [], i := none, running := true, passes := 0, handled := [], inPass := [] }

/-- `select` without waiting. -/
def select (l : SelectLoop) (set : List Nat) (opened : Nat → Bool) (ready : List Nat) :
    SelectLoop :=
  if ∀ fd ∈ set, opened fd = true then
    if ready = [] then l
    else { l with cpy := ready, i := some 0, passes := l.passes + 1, inPass := [] }
  else { l with running := false }

def next (l : SelectLoop) : SelectLoop := { l with i := l.i.map (· + 1) }

/-- A turn for the socket. -/
def serve (l : SelectLoop) (fd : Nat) : SelectLoop :=
  { l.next with handled := l.handled ++ [fd], inPass := l.inPass ++ [fd] }

/-- The end of the pass. -/
def endPass (l : SelectLoop) : SelectLoop := { l with i := none }

/-- The socket at the index. -/
def current (l : SelectLoop) (set : List Nat) : Option Nat := l.i.bind fun i => set[i]?

/-- The pass over the set. -/
def scan (l : SelectLoop) (set : List Nat) : Scan Nat :=
  { items := set, ready := l.cpy, i := l.i, passes := l.passes, handled := l.handled
    inPass := l.inPass }

end SelectLoop

structure Threads where
  srv : Server
  read : SelectLoop
  write : SelectLoop

/-- `readTurn`: what `accept` or `recv` answers. -/
inductive ThreadAct where
  | readSelect (ready : List Nat)
  | readTurn (clntSocket : Option Nat) (created : Option (Bool × Bool)) (strLen : Option Nat)
  | writeSelect (ready : List Nat)
  | writeTurn (nRet : Option Nat)
  | sendMsg (clientSocket_ : Nat) (pPacket_ : PacketData) (nRet : Option Nat)

namespace Threads

/-- When `CreateThread` has started both. -/
def init (listenSocket : Nat) : Threads :=
  { srv := .init listenSocket, read := .init, write := .init }

/-- What the server does in a step: a socket that is not in the copy is passed over. -/
def serverAct (t : Threads) : ThreadAct → Option Act
  | .readSelect _ => none
  | .readTurn clntSocket created strLen =>
    match t.read.current t.srv.reads with
    | none => none
    | some fd =>
      if fd ∈ t.read.cpy then
        some (if fd = t.srv.listenSocket then .accept clntSocket created else .recv fd strLen)
      else none
  | .writeSelect _ => none
  | .writeTurn nRet =>
    match t.write.current t.srv.writes with
    | none => none
    | some fd => if fd ∈ t.write.cpy then some (.resumeSend fd nRet) else none
  | .sendMsg s pPacket_ nRet => some (.sendMsg s pPacket_ nRet)

/-- The server after the step. -/
def serverStep (t : Threads) (a : ThreadAct) : Option Server :=
  match t.serverAct a with
  | none => some t.srv
  | some b => Server.step t.srv b

end Threads

/-- The loop of a thread after a turn. -/
def SelectLoop.turn (l : SelectLoop) (set : List Nat) : SelectLoop :=
  match l.current set with
  | none => l.endPass
  | some fd => if fd ∈ l.cpy then l.serve fd else l.next

namespace Threads

def Enabled (t : Threads) : ThreadAct → Prop
  | .readSelect ready => t.read.running = true ∧ t.read.i = none ∧ ready ⊆ t.srv.reads
  | .readTurn _ _ _ => t.read.i ≠ none
  | .writeSelect ready => t.write.running = true ∧ t.write.i = none ∧ ready ⊆ t.srv.writes
  | .writeTurn _ => t.write.i ≠ none
  | .sendMsg _ _ _ => True

instance (t : Threads) : DecidablePred t.Enabled
  | .readSelect ready =>
    inferInstanceAs (Decidable (t.read.running = true ∧ t.read.i = none ∧ ready ⊆ t.srv.reads))
  | .readTurn _ _ _ => inferInstanceAs (Decidable (t.read.i ≠ none))
  | .writeSelect ready =>
    inferInstanceAs (Decidable (t.write.running = true ∧ t.write.i = none ∧ ready ⊆ t.srv.writes))
  | .writeTurn _ => inferInstanceAs (Decidable (t.write.i ≠ none))
  | .sendMsg _ _ _ => .isTrue trivial

/-- `ReadThread` after the step. -/
def readLoop (t : Threads) : ThreadAct → SelectLoop
  | .readSelect ready => t.read.select t.srv.reads t.srv.opened ready
  | .readTurn _ _ _ => t.read.turn t.srv.reads
  | _ => t.read

/-- `WriteThread` after the step. -/
def writeLoop (t : Threads) : ThreadAct → SelectLoop
  | .writeSelect ready => t.write.select t.srv.writes t.srv.opened ready
  | .writeTurn _ => t.write.turn t.srv.writes
  | _ => t.write

def step (t : Threads) (a : ThreadAct) : Option Threads :=
  if t.Enabled a then
    (t.serverStep a).map fun srv => { srv := srv, read := t.readLoop a, write := t.writeLoop a }
  else none

end Threads

/-! ## The threads -/

namespace SelectLoop

variable {l : SelectLoop} {set ready : List Nat} {opened : Nat → Bool}

theorem current_eq_some {fd : Nat} :
    l.current set = some fd ↔ ∃ i, l.i = some i ∧ set[i]? = some fd :=
  Option.bind_eq_some_iff

/-- `select` begins a pass, or leaves the set alone. -/
theorem select_scan (hi : l.i = none) (set : List Nat) (opened : Nat → Bool) (ready : List Nat) :
    (l.select set opened ready).scan set = l.scan set ∨
      (∀ fd ∈ set, opened fd = true) ∧
        Scan.step (l.scan set) (.select ready) = some ((l.select set opened ready).scan set) := by
  unfold select
  split
  · next hopen =>
    split
    · exact .inl rfl
    · refine .inr ⟨hopen, ?_⟩
      simp only [Scan.step, scan, hi, if_true]
  · exact .inl rfl

/-- A turn that serves no socket. -/
theorem turn_scan (h : ∀ fd, l.current set = some fd → fd ∉ l.cpy) :
    ∃ b, (b = .skip ∨ b = .endPass) ∧
      Scan.step (l.scan set) b = some ((l.turn set).scan set) := by
  unfold turn
  cases hc : l.current set with
  | none =>
    refine ⟨.endPass, .inr rfl, ?_⟩
    exact if_pos hc
  | some fd =>
    have hmiss := h fd hc
    refine ⟨.skip, .inl rfl, ?_⟩
    have hc : (l.scan set).current = some fd := hc
    simp only [Scan.step, hc, if_neg hmiss]
    exact if_neg hmiss

/-- A turn that serves one, and changes the set. -/
theorem serve_scan {fd : Nat} (hc : l.current set = some fd) (hmem : fd ∈ l.cpy) {set' : List Nat}
    {takenOut : Bool} {putIn : Option Nat}
    (hset : set' = match putIn with
      | none => if takenOut = true then set.erase fd else set
      | some y => put y (if takenOut = true then set.erase fd else set)) :
    Scan.step (l.scan set) (.handle takenOut putIn) = some ((l.turn set).scan set') := by
  have hturn : l.turn set = l.serve fd := by
    rw [turn, hc]
    exact if_pos hmem
  rw [hturn]
  have hc : (l.scan set).current = some fd := hc
  subst hset
  simp only [Scan.step, hc]
  rw [show (l.scan set).ready = l.cpy from rfl, if_pos hmem]
  cases putIn <;> rfl

end SelectLoop

/-- A set that is not full takes in a socket as any list does. -/
theorem fdSet_eq (fd : Nat) (set : List Nat) : fdSet fd set = set ∨ fdSet fd set = put fd set := by
  unfold fdSet put
  split
  · exact .inl rfl
  · split
    · exact .inr rfl
    · exact .inl rfl

namespace Threads

variable {t t' : Threads} {a : ThreadAct} {fd : Nat}

theorem step_eq_some : step t a = some t' ↔ t.Enabled a ∧ t.serverStep a = some t'.srv ∧
    t'.read = t.readLoop a ∧ t'.write = t.writeLoop a := by
  rw [step, Option.ite_none_right_eq_some, Option.map_eq_some_iff]
  constructor
  · rintro ⟨hen, srv, hsrv, rfl⟩
    exact ⟨hen, hsrv, rfl, rfl⟩
  · rintro ⟨hen, hsrv, hread, hwrite⟩
    refine ⟨hen, t'.srv, hsrv, ?_⟩
    rw [← hread, ← hwrite]

/-- What every step of the server keeps holds in every state of the threads. -/
theorem serverStep_stable {P : Server → Prop}
    (hstep : ∀ {srv srv' : Server} {b : Act}, P srv → Server.step srv b = some srv' → P srv')
    (h : P t.srv) (hs : t.serverStep a = some t'.srv) : P t'.srv := by
  unfold serverStep at hs
  split at hs
  · rw [← Option.some.inj hs]
    exact h
  · exact hstep h hs

/-- A turn of `ReadThread` for a socket of its copy. -/
theorem serverAct_read {clntSocket : Option Nat} {created : Option (Bool × Bool)}
    {strLen : Option Nat} {b : Act}
    (h : t.serverAct (.readTurn clntSocket created strLen) = some b) :
    ∃ fd, t.read.current t.srv.reads = some fd ∧ fd ∈ t.read.cpy ∧
      (fd = t.srv.listenSocket ∧ b = .accept clntSocket created ∨
        fd ≠ t.srv.listenSocket ∧ b = .recv fd strLen) := by
  simp only [serverAct] at h
  split at h
  · cases h
  · next fd hfd =>
    split at h
    · next hmem =>
      refine ⟨fd, hfd, hmem, ?_⟩
      obtain rfl := Option.some.inj h
      split
      · next he => exact .inl ⟨he, rfl⟩
      · next hne => exact .inr ⟨hne, rfl⟩
    · cases h

/-- A turn of `WriteThread` for a socket of its copy. -/
theorem serverAct_write {nRet : Option Nat} {b : Act}
    (h : t.serverAct (.writeTurn nRet) = some b) :
    ∃ fd, t.write.current t.srv.writes = some fd ∧ fd ∈ t.write.cpy ∧ b = .resumeSend fd nRet := by
  simp only [serverAct] at h
  split at h
  · cases h
  · next fd hfd =>
    split at h
    · next hmem => exact ⟨fd, hfd, hmem, (Option.some.inj h).symm⟩
    · cases h

/-- A turn of `ReadThread` for a socket that is not in its copy. -/
theorem serverAct_read_none {clntSocket : Option Nat} {created : Option (Bool × Bool)}
    {strLen : Option Nat} (h : t.serverAct (.readTurn clntSocket created strLen) = none)
    (fd : Nat) (hfd : t.read.current t.srv.reads = some fd) : fd ∉ t.read.cpy := by
  intro hmem
  simp only [serverAct, hfd, if_pos hmem] at h
  cases h

theorem serverAct_write_none {nRet : Option Nat} (h : t.serverAct (.writeTurn nRet) = none)
    (fd : Nat) (hfd : t.write.current t.srv.writes = some fd) : fd ∉ t.write.cpy := by
  intro hmem
  simp only [serverAct, hfd, if_pos hmem] at h
  cases h

def readScan (t : Threads) : Scan Nat := t.read.scan t.srv.reads

def writeScan (t : Threads) : Scan Nat := t.write.scan t.srv.writes

/-- What a step of the server is for the pass over `reads`: only `ReadThread` changes `reads`, and
only `DoAccept` puts a socket in. -/
def ReadsAs (t : Threads) (a : ThreadAct) : ShiftingScan.Act Nat → Prop
  | .select ready => a = .readSelect ready ∧ ∀ fd ∈ t.srv.reads, t.srv.opened fd = true
  | .handle _ putIn => ∀ s ∈ putIn, t.srv.opened s = false ∧
      t.read.current t.srv.reads = some t.srv.listenSocket
  | .skip => True
  | .endPass => True
  | .putIn _ => False

theorem step_readScan (hs : step t a = some t') : t'.readScan = t.readScan ∨
    ∃ b, Scan.step t.readScan b = some t'.readScan ∧ t.ReadsAs a b := by
  obtain ⟨hen, hsrv, hread, -⟩ := step_eq_some.mp hs
  unfold readScan
  rw [hread]
  unfold serverStep at hsrv
  cases a with
  | readSelect ready =>
    rw [← Option.some.inj hsrv]
    rcases SelectLoop.select_scan hen.2.1 t.srv.reads t.srv.opened ready with he | ⟨hopen, hstep⟩
    · exact .inl he
    · exact .inr ⟨.select ready, hstep, rfl, hopen⟩
  | readTurn clntSocket created strLen =>
    right
    cases hact : t.serverAct (.readTurn clntSocket created strLen) with
    | none =>
      rw [hact] at hsrv
      rw [← Option.some.inj hsrv]
      obtain ⟨b, rfl | rfl, hstep⟩ := SelectLoop.turn_scan (serverAct_read_none hact)
      · exact ⟨.skip, hstep, trivial⟩
      · exact ⟨.endPass, hstep, trivial⟩
    | some b =>
      simp only [hact] at hsrv
      obtain ⟨hbEn, hb⟩ := Server.step_eq_some.mp hsrv
      obtain ⟨fd, hfd, hmem, ⟨he, rfl⟩ | ⟨hne, rfl⟩⟩ := serverAct_read hact
      · -- `DoAccept`
        have hcurrent := he ▸ hfd
        cases clntSocket with
        | none =>
          refine ⟨.handle false none, SelectLoop.serve_scan hfd hmem ?_, fun s hs => by cases hs⟩
          rw [← hb]
          rfl
        | some s =>
          have hreads : t'.srv.reads = fdSet s t.srv.reads := by
            rw [← hb]
            exact Server.doAccept_reads t.srv s created
          rcases fdSet_eq s t.srv.reads with hfull | hput
          · refine ⟨.handle false none, SelectLoop.serve_scan hfd hmem ?_, fun s hs => by cases hs⟩
            rw [hreads, hfull]
            rfl
          · refine ⟨.handle false (some s), SelectLoop.serve_scan hfd hmem ?_, fun s' hs' => ?_⟩
            · rw [hreads, hput]
              rfl
            · obtain rfl := Option.some.inj hs'
              exact ⟨(hbEn s rfl).1, hcurrent⟩
      · -- `DoRecv`
        by_cases hzero : strLen = some 0
        · subst hzero
          refine ⟨.handle true none, SelectLoop.serve_scan hfd hmem ?_, fun s hs => by cases hs⟩
          rw [← hb]
          exact Server.doRecv_reads t.srv fd
        · refine ⟨.handle false none, SelectLoop.serve_scan hfd hmem ?_, fun s hs => by cases hs⟩
          rw [← hb, Server.act, Server.doRecv, if_neg hzero]
          rfl
  | writeSelect ready =>
    rw [← Option.some.inj hsrv]
    exact .inl rfl
  | writeTurn nRet =>
    left
    cases hact : t.serverAct (.writeTurn nRet) with
    | none =>
      rw [hact] at hsrv
      rw [← Option.some.inj hsrv]
      rfl
    | some b =>
      simp only [hact] at hsrv
      obtain ⟨-, hb⟩ := Server.step_eq_some.mp hsrv
      obtain ⟨fd, -, -, rfl⟩ := serverAct_write hact
      rw [← hb, Server.act, (Server.resumeSend_opened t.srv fd nRet).2]
      rfl
  | sendMsg s pPacket_ nRet =>
    obtain ⟨-, hb⟩ := Server.step_eq_some.mp hsrv
    left
    rw [← hb, Server.act, (Server.sendMsg_opened t.srv s pPacket_ nRet).2]
    rfl

/-- For the pass over `writes`, `SendMsg` puts a socket in at any time. -/
theorem step_writeScan (hs : step t a = some t') : t'.writeScan = t.writeScan ∨
    ∃ b, Scan.step t.writeScan b = some t'.writeScan ∧
      ∀ ready, b = .select ready → a = .writeSelect ready := by
  obtain ⟨hen, hsrv, -, hwrite⟩ := step_eq_some.mp hs
  unfold writeScan
  rw [hwrite]
  unfold serverStep at hsrv
  cases a with
  | writeSelect ready =>
    rw [← Option.some.inj hsrv]
    rcases SelectLoop.select_scan hen.2.1 t.srv.writes t.srv.opened ready with he | ⟨-, hstep⟩
    · exact .inl he
    · refine .inr ⟨.select ready, hstep, fun ready' he => ?_⟩
      cases he
      rfl
  | writeTurn nRet =>
    right
    cases hact : t.serverAct (.writeTurn nRet) with
    | none =>
      rw [hact] at hsrv
      rw [← Option.some.inj hsrv]
      obtain ⟨b, rfl | rfl, hstep⟩ := SelectLoop.turn_scan (serverAct_write_none hact)
      · exact ⟨.skip, hstep, fun _ he => by cases he⟩
      · exact ⟨.endPass, hstep, fun _ he => by cases he⟩
    | some b =>
      simp only [hact] at hsrv
      obtain ⟨-, hb⟩ := Server.step_eq_some.mp hsrv
      obtain ⟨fd, hfd, hmem, rfl⟩ := serverAct_write hact
      rcases Server.resumeSend_writes t.srv fd nRet with he | he
      · refine ⟨.handle false none, SelectLoop.serve_scan hfd hmem ?_, fun _ he => by cases he⟩
        rw [← hb]
        exact he
      · refine ⟨.handle true none, SelectLoop.serve_scan hfd hmem ?_, fun _ he => by cases he⟩
        rw [← hb]
        exact he
  | readSelect ready =>
    rw [← Option.some.inj hsrv]
    exact .inl rfl
  | readTurn clntSocket created strLen =>
    left
    cases hact : t.serverAct (.readTurn clntSocket created strLen) with
    | none =>
      rw [hact] at hsrv
      rw [← Option.some.inj hsrv]
      rfl
    | some b =>
      simp only [hact] at hsrv
      obtain ⟨-, hb⟩ := Server.step_eq_some.mp hsrv
      rw [← hb]
      obtain ⟨fd, -, -, ⟨-, rfl⟩ | ⟨-, rfl⟩⟩ := serverAct_read hact
      · rw [Server.act, Server.doAccept_writes]
        rfl
      · rw [Server.act, Server.doRecv_writes]
        rfl
  | sendMsg s pPacket_ nRet =>
    obtain ⟨-, hb⟩ := Server.step_eq_some.mp hsrv
    have hwrites : t'.srv.writes = t.srv.writes ∨ t'.srv.writes = fdSet s t.srv.writes := by
      rw [← hb]
      exact (Server.sendMsg_writes t.srv s pPacket_ nRet).imp_right And.right
    rcases hwrites with he | he
    · left
      rw [he]
      rfl
    · rcases fdSet_eq s t.srv.writes with hfull | hput
      · left
        rw [he, hfull]
        rfl
      · refine .inr ⟨.putIn s, ?_, fun _ he => by cases he⟩
        rw [he, hput]
        rfl

theorem setsNodup_of_run {listenSocket : Nat} {acts : List ThreadAct}
    (hr : run step (init listenSocket) acts = some t) : t.srv.SetsNodup :=
  run_stable (I := fun t => t.srv.SetsNodup)
    (fun _ _ _ h hs => serverStep_stable Server.step_setsNodup h (step_eq_some.mp hs).2.1)
    (show (Server.init listenSocket).SetsNodup from
      ⟨List.nodup_singleton listenSocket, List.nodup_nil⟩) hr

/-! ### A socket has one turn in a pass -/

/-- The listen socket is the first of `reads`. When its turn comes, nothing of the copy has been
closed yet. -/
structure ReadInv (t : Threads) : Prop where
  once : t.readScan.Once
  first : ∃ rest, t.srv.reads = t.srv.listenSocket :: rest
  fresh : t.read.i = some 0 → ∀ fd ∈ t.read.cpy, t.srv.opened fd = true
  served : ∀ fd ∈ t.read.inPass, fd ∈ t.read.cpy

theorem readInv_init (listenSocket : Nat) : (init listenSocket).ReadInv where
  once := ⟨List.nodup_singleton listenSocket, List.nodup_nil, fun i hi => by cases hi⟩
  first := ⟨[], rfl⟩
  fresh hi := by cases hi
  served fd hfd := by cases hfd

/-- The turn of the listen socket is the first of the pass. -/
theorem ReadInv.listen_first (h : t.ReadInv)
    (hlisten : t.read.current t.srv.reads = some t.srv.listenSocket) : t.read.i = some 0 := by
  obtain ⟨i, hi, hget⟩ := SelectLoop.current_eq_some.mp hlisten
  obtain ⟨rest, hrest⟩ := h.first
  obtain ⟨hlt, hget⟩ := List.getElem?_eq_some_iff.mp hget
  have hzero : 0 < t.srv.reads.length := by
    rw [hrest]
    exact Nat.succ_pos _
  have hhead : t.srv.reads[0] = t.srv.listenSocket := by simp only [hrest, List.getElem_cons_zero]
  rw [hi, (h.once.nodup.getElem_inj_iff).mp (hget.trans hhead.symm)]

/-- `DoAccept` puts in no socket of the copy. -/
theorem ReadInv.putsNew (h : t.ReadInv) {b : ShiftingScan.Act Nat} (hb : t.ReadsAs a b) :
    t.readScan.PutsNew b := by
  cases b with
  | handle takenOut putIn =>
    intro s hs hmem
    obtain ⟨hclosed, hlisten⟩ := hb s hs
    rw [h.fresh (h.listen_first hlisten) s hmem] at hclosed
    cases hclosed
  | putIn x => exact hb.elim
  | _ => trivial

/-- The listen socket stays in its place. -/
theorem step_first (h : ∃ rest, t.srv.reads = t.srv.listenSocket :: rest)
    (hs : t.serverStep a = some t'.srv) :
    ∃ rest, t'.srv.reads = t'.srv.listenSocket :: rest := by
  refine serverStep_stable (P := fun srv => ∃ rest, srv.reads = srv.listenSocket :: rest)
    (fun {srv srv' b} h hs => ?_) h hs
  rw [Server.step_listenSocket hs]
  obtain ⟨hen, rfl⟩ := Server.step_eq_some.mp hs
  obtain ⟨rest, hrest⟩ := h
  cases b with
  | accept clntSocket created =>
    cases clntSocket with
    | none => exact ⟨rest, hrest⟩
    | some s =>
      rw [Server.act, Server.doAccept_reads, fdSet, hrest]
      split
      · exact ⟨rest, rfl⟩
      · split
        · exact ⟨rest ++ [s], rfl⟩
        · exact ⟨rest, rfl⟩
  | recv s strLen =>
    by_cases hzero : strLen = some 0
    · subst hzero
      rw [Server.act, Server.doRecv_reads, fdClr, hrest]
      exact ⟨rest.erase s, List.erase_cons_tail (by simpa using hen.2.symm)⟩
    · rw [Server.act, Server.doRecv, if_neg hzero]
      exact ⟨rest, hrest⟩
  | sendMsg s p nRet => exact ⟨rest, (Server.sendMsg_opened srv s p nRet).2.trans hrest⟩
  | resumeSend s nRet => exact ⟨rest, (Server.resumeSend_opened srv s nRet).2.trans hrest⟩

/-- Only a turn of `ReadThread` closes a socket. -/
theorem step_opened (h : ∀ clntSocket created strLen, a ≠ .readTurn clntSocket created strLen)
    (hs : t.serverStep a = some t'.srv) : t'.srv.opened = t.srv.opened := by
  unfold serverStep at hs
  cases hact : t.serverAct a with
  | none =>
    rw [hact] at hs
    rw [← Option.some.inj hs]
  | some b =>
    simp only [hact] at hs
    obtain ⟨-, hb⟩ := Server.step_eq_some.mp hs
    rw [← hb]
    cases a with
    | readTurn clntSocket created strLen => exact absurd rfl (h clntSocket created strLen)
    | readSelect ready => cases hact
    | writeSelect ready => cases hact
    | writeTurn nRet =>
      obtain ⟨fd, -, -, rfl⟩ := serverAct_write hact
      exact (Server.resumeSend_opened t.srv fd nRet).1
    | sendMsg s p nRet =>
      obtain rfl := Option.some.inj hact
      exact (Server.sendMsg_opened t.srv s p nRet).1

theorem step_readInv (h : t.ReadInv) (hs : step t a = some t') : t'.ReadInv := by
  obtain ⟨hen, hsrv, hread, -⟩ := step_eq_some.mp hs
  have honce : t'.readScan.Once := by
    rcases step_readScan hs with he | ⟨b, hstep, hb⟩
    · rw [he]
      exact h.once
    · exact Scan.step_once h.once (h.putsNew hb) hstep
  have hfirst := step_first h.first hsrv
  cases a with
  | readTurn clntSocket created strLen =>
    -- the index is past the first place
    refine ⟨honce, hfirst, ?_, ?_⟩
    · rw [hread]
      intro hi
      exfalso
      simp only [readLoop, SelectLoop.turn] at hi
      split at hi
      · cases hi
      · split at hi
        all_goals
          simp only [SelectLoop.serve, SelectLoop.next, Option.map_eq_some_iff] at hi
          obtain ⟨i, -, hi⟩ := hi
          cases hi
    · rw [hread]
      simp only [readLoop, SelectLoop.turn]
      split
      · exact h.served
      · split
        · next fd hfd hmem =>
          intro fd' hfd'
          rcases List.mem_append.mp hfd' with hfd' | hfd'
          · exact h.served fd' hfd'
          · obtain rfl := List.mem_singleton.mp hfd'
            exact hmem
        · exact h.served
  | readSelect ready =>
    have hopened := step_opened (fun _ _ _ he => by cases he) hsrv
    have hloop := hread
    simp only [readLoop, SelectLoop.select] at hloop
    split at hloop
    · next hopen =>
      split at hloop
      · refine ⟨honce, hfirst, ?_, ?_⟩
        · rw [hloop, hopened]
          exact h.fresh
        · rw [hloop]
          exact h.served
      · refine ⟨honce, hfirst, ?_, ?_⟩
        · rw [hloop, hopened]
          intro _ fd hfd
          exact hopen fd (hen.2.2 hfd)
        · rw [hloop]
          intro fd hfd
          cases hfd
    · refine ⟨honce, hfirst, ?_, ?_⟩
      · rw [hloop, hopened]
        exact h.fresh
      · rw [hloop]
        exact h.served
  | _ =>
    have hopened := step_opened (fun _ _ _ he => by cases he) hsrv
    refine ⟨honce, hfirst, ?_, ?_⟩
    · rw [hread, hopened]
      exact h.fresh
    · rw [hread]
      exact h.served

/-- In a pass of `ReadThread` no socket has two turns, and only a socket of the copy has one. -/
theorem read_once {listenSocket : Nat} {acts : List ThreadAct}
    (hr : run step (init listenSocket) acts = some t) :
    t.read.inPass.Nodup ∧ ∀ fd ∈ t.read.inPass, fd ∈ t.read.cpy := by
  have hinv := run_stable (fun _ _ _ h hs => step_readInv h hs) (readInv_init listenSocket) hr
  exact ⟨hinv.once.inPass, hinv.served⟩

/-- Two clients connect; the first leaves when its turn comes. -/
def firstLeaves : List ThreadAct :=
  [.readSelect [3], .readTurn (some 5) (some (true, true)) none, .readTurn none none none,
    .readTurn none none none, .readSelect [3], .readTurn (some 6) (some (true, true)) none,
    .readTurn none none none, .readTurn none none none, .readTurn none none none,
    .readSelect [5, 6], .readTurn none none none, .readTurn none none (some 0),
    .readTurn none none none]

/-- The second client has no turn in the pass in which the first leaves. -/
theorem read_once_leaves : ∃ t, run step (init 3) firstLeaves = some t ∧ t.read.inPass = [5] ∧
    t.read.inPass.Nodup := by
  have hend : (run step (init 3) firstLeaves).map (fun t => decide (t.read.inPass = [5])) =
      some true := by decide +kernel
  obtain ⟨t, ht, hrest⟩ := Option.map_eq_some_iff.mp hend
  exact ⟨t, ht, of_decide_eq_true hrest, (read_once ht).1⟩

/-! ### A socket that stays ready -/

/-- Every `select` of `ReadThread` finds the socket ready. -/
def ReadReady (fd : Nat) (_ : Threads) : ThreadAct → Prop
  | .readSelect ready => fd ∈ ready
  | _ => True

/-- Every `select` of `WriteThread` finds the socket ready. -/
def WriteReady (fd : Nat) (_ : Threads) : ThreadAct → Prop
  | .writeSelect ready => fd ∈ ready
  | _ => True

instance (fd : Nat) (t : Threads) : DecidablePred (ReadReady fd t)
  | .readSelect ready => inferInstanceAs (Decidable (fd ∈ ready))
  | .readTurn _ _ _ => .isTrue trivial
  | .writeSelect _ => .isTrue trivial
  | .writeTurn _ => .isTrue trivial
  | .sendMsg _ _ _ => .isTrue trivial

instance (fd : Nat) (t : Threads) : DecidablePred (WriteReady fd t)
  | .readSelect _ => .isTrue trivial
  | .readTurn _ _ _ => .isTrue trivial
  | .writeSelect ready => inferInstanceAs (Decidable (fd ∈ ready))
  | .writeTurn _ => .isTrue trivial
  | .sendMsg _ _ _ => .isTrue trivial

theorem read_sees (ha : ReadReady fd t a) (hs : step t a = some t') :
    t'.readScan = t.readScan ∨
      ∃ b, Scan.Sees fd b ∧ Scan.step t.readScan b = some t'.readScan := by
  rcases step_readScan hs with he | ⟨b, hstep, hb⟩
  · exact .inl he
  · refine .inr ⟨b, ?_, hstep⟩
    cases b with
    | select ready =>
      obtain ⟨rfl, -⟩ := hb
      exact ha
    | _ => trivial

theorem write_sees (ha : WriteReady fd t a) (hs : step t a = some t') :
    t'.writeScan = t.writeScan ∨
      ∃ b, Scan.Sees fd b ∧ Scan.step t.writeScan b = some t'.writeScan := by
  rcases step_writeScan hs with he | ⟨b, hstep, hb⟩
  · exact .inl he
  · refine .inr ⟨b, ?_, hstep⟩
    cases b with
    | select ready =>
      obtain rfl := hb ready rfl
      exact ha
    | _ => trivial

/-- From a state in which the thread has no pass: a socket at place `p` of its set, which every
`select` finds ready, has a turn before `p + 1` more passes are over. -/
theorem served_within {listenSocket p : Nat} {before acts : List ThreadAct}
    (hbefore : run step (init listenSocket) before = some t) (hr : run step t acts = some t') :
    (t.srv.reads[p]? = some fd → t.read.i = none → t'.read.i = none →
        Meets step (ReadReady fd) t acts → t.read.passes + p < t'.read.passes →
          t.read.handled.count fd < t'.read.handled.count fd) ∧
      (t.srv.writes[p]? = some fd → t.write.i = none → t'.write.i = none →
        Meets step (WriteReady fd) t acts → t.write.passes + p < t'.write.passes →
          t.write.handled.count fd < t'.write.handled.count fd) := by
  obtain ⟨hreads, hwrites⟩ := setsNodup_of_run hbefore
  constructor
  · intro hp hstart hover hready hpasses
    exact Scan.handled_within readScan (fun _ _ _ ha hs => read_sees ha hs) hreads
      hstart hp hready hr hover hpasses
  · intro hp hstart hover hready hpasses
    exact Scan.handled_within writeScan (fun _ _ _ ha hs => write_sees ha hs) hwrites
      hstart hp hready hr hover hpasses

/-- The client that missed its turn has one in the next pass. -/
theorem served_within_leaves : ∃ t t', run step (init 3) (firstLeaves.take 9) = some t ∧
    run step t (firstLeaves.drop 9 ++ [.readSelect [6], .readTurn none none none,
      .readTurn none none (some 10), .readTurn none none none, .readSelect [6],
      .readTurn none none none, .readTurn none none (some 10), .readTurn none none none]) =
        some t' ∧ t.read.handled.count 6 < t'.read.handled.count 6 := by
  have hend : ((run step (init 3) (firstLeaves.take 9)).bind fun t =>
      (run step t (firstLeaves.drop 9 ++ [.readSelect [6], .readTurn none none none,
        .readTurn none none (some 10), .readTurn none none none, .readSelect [6],
        .readTurn none none none, .readTurn none none (some 10),
        .readTurn none none none])).map fun t' =>
      decide (t.srv.reads[2]? = some 6 ∧ t.read.i = none ∧ t'.read.i = none ∧
        Meets step (ReadReady 6) t (firstLeaves.drop 9 ++ [.readSelect [6],
          .readTurn none none none, .readTurn none none (some 10), .readTurn none none none,
          .readSelect [6], .readTurn none none none, .readTurn none none (some 10),
          .readTurn none none none]) ∧
        t.read.passes + 2 < t'.read.passes)) = some true := by decide +kernel
  obtain ⟨t, ht, hend⟩ := Option.bind_eq_some_iff.mp hend
  obtain ⟨t', ht', hrest⟩ := Option.map_eq_some_iff.mp hend
  obtain ⟨hp, hstart, hover, hready, hpasses⟩ := of_decide_eq_true hrest
  exact ⟨t, t', ht, ht', (served_within ht ht').1 hp hstart hover hready hpasses⟩

/-! ### Both threads go on -/

/-- Both run, and `select` fails for neither. -/
def GoesOn (t : Threads) : Prop :=
  t.read.running = true ∧ t.write.running = true ∧ t.srv.SetsOpen

/-- What the server does in the step closes no socket of a set, and puts in no closed one. -/
def KeepsOpen (t : Threads) (a : ThreadAct) : Prop := ∀ b ∈ t.serverAct a, t.srv.KeepsOpen b

instance (t : Threads) : DecidablePred t.KeepsOpen := fun a =>
  inferInstanceAs (Decidable (∀ b ∈ t.serverAct a, t.srv.KeepsOpen b))

/-- What every state has, and that both go on. -/
def OpenInv (t : Threads) : Prop := t.srv.Keyed ∧ t.srv.SetsNodup ∧ t.GoesOn

theorem SelectLoop_select_running {l : SelectLoop} {set ready : List Nat} {opened : Nat → Bool}
    (h : l.running = true) (hopen : ∀ fd ∈ set, opened fd = true) :
    (l.select set opened ready).running = true := by
  rw [SelectLoop.select, if_pos hopen]
  split <;> exact h

theorem SelectLoop_turn_running (l : SelectLoop) (set : List Nat) :
    (l.turn set).running = l.running := by
  unfold SelectLoop.turn
  split
  · rfl
  · split <;> rfl

/-- A thread whose `select` does not fail goes on. -/
theorem step_running (h : t.GoesOn) (hs : step t a = some t') :
    t'.read.running = true ∧ t'.write.running = true := by
  obtain ⟨hreadRuns, hwriteRuns, hreads, hwrites⟩ := h
  obtain ⟨-, -, hread, hwrite⟩ := step_eq_some.mp hs
  rw [hread, hwrite]
  cases a with
  | readSelect ready => exact ⟨SelectLoop_select_running hreadRuns hreads, hwriteRuns⟩
  | readTurn clntSocket created strLen =>
    exact ⟨(SelectLoop_turn_running t.read t.srv.reads).trans hreadRuns, hwriteRuns⟩
  | writeSelect ready => exact ⟨hreadRuns, SelectLoop_select_running hwriteRuns hwrites⟩
  | writeTurn nRet =>
    exact ⟨hreadRuns, (SelectLoop_turn_running t.write t.srv.writes).trans hwriteRuns⟩
  | sendMsg s p nRet => exact ⟨hreadRuns, hwriteRuns⟩

/-- A step keeps the sets open exactly if it keeps to the condition. -/
theorem step_open (h : t.OpenInv) (hs : step t a = some t') :
    t'.srv.SetsOpen ↔ t.KeepsOpen a := by
  obtain ⟨hkeyed, hnodup, -, -, hopen⟩ := h
  obtain ⟨-, hsrv, -, -⟩ := step_eq_some.mp hs
  unfold serverStep at hsrv
  unfold KeepsOpen
  cases hact : t.serverAct a with
  | none =>
    rw [hact] at hsrv
    rw [← Option.some.inj hsrv]
    exact iff_of_true hopen fun b hb => by cases hb
  | some b =>
    simp only [hact] at hsrv
    rw [Server.step_setsOpen hkeyed hnodup hopen hsrv]
    simp only [Option.mem_some, forall_eq']

theorem step_openInv (h : t.OpenInv) (ha : t.KeepsOpen a) (hs : step t a = some t') :
    t'.OpenInv := by
  obtain ⟨-, hsrv, -, -⟩ := step_eq_some.mp hs
  obtain ⟨hreadRuns, hwriteRuns⟩ := step_running h.2.2 hs
  exact ⟨serverStep_stable Server.keyed_step h.1 hsrv,
    serverStep_stable Server.step_setsNodup h.2.1 hsrv, hreadRuns, hwriteRuns,
    (step_open h hs).mpr ha⟩

theorem openInv_init (listenSocket : Nat) : (init listenSocket).OpenInv := by
  refine ⟨Server.keyed_init listenSocket, ⟨List.nodup_singleton listenSocket, List.nodup_nil⟩, rfl,
    rfl, fun fd hfd => ?_, fun fd hfd => by cases hfd⟩
  obtain rfl := List.mem_singleton.mp hfd
  exact beq_self_eq_true fd

/-- In every state both threads go on, and neither's `select` fails, if and only if no step closes
a socket of a set or puts in a closed one. -/
theorem goes_on_iff {listenSocket : Nat} {acts : List ThreadAct}
    (hr : run step (init listenSocket) acts = some t) :
    Always step GoesOn (init listenSocket) acts ↔
      Meets step KeepsOpen (init listenSocket) acts :=
  always_iff_meets (fun _ h => h.2.2) (fun _ _ _ h ha hs => step_openInv h ha hs)
    (fun _ _ _ h ha hs hgoes => ha ((step_open h hs).mp hgoes.2.2))
    (openInv_init listenSocket) hr

/-- Two clients, one of which leaves with nothing to send. -/
theorem goes_on_iff_leaves : Always step GoesOn (init 3) firstLeaves := by
  have hrun : (run step (init 3) firstLeaves).isSome = true := by decide +kernel
  obtain ⟨t, ht⟩ := Option.isSome_iff_exists.mp hrun
  exact (goes_on_iff ht).mpr (by decide +kernel)

/-- A thread that has ended is between two passes. -/
def EndsBetween (t : Threads) : Prop :=
  (t.read.running = false → t.read.i = none) ∧ (t.write.running = false → t.write.i = none)

theorem step_endsBetween (h : t.EndsBetween) (hs : step t a = some t') : t'.EndsBetween := by
  obtain ⟨hen, -, hread, hwrite⟩ := step_eq_some.mp hs
  have hselect : ∀ (l : SelectLoop) (set ready : List Nat) (opened : Nat → Bool), l.i = none →
      l.running = true → (l.select set opened ready).running = false →
        (l.select set opened ready).i = none := by
    intro l set ready opened hi hruns
    unfold SelectLoop.select
    split
    · split
      · exact fun _ => hi
      · exact fun hends => absurd (hends.symm.trans hruns) Bool.false_ne_true
    · exact fun _ => hi
  rw [EndsBetween, hread, hwrite]
  cases a with
  | readSelect ready => exact ⟨hselect t.read _ ready _ hen.2.1 hen.1, h.2⟩
  | writeSelect ready => exact ⟨h.1, hselect t.write _ ready _ hen.2.1 hen.1⟩
  | readTurn clntSocket created strLen =>
    refine ⟨fun hends => absurd (h.1 ?_) hen, h.2⟩
    exact (SelectLoop_turn_running t.read t.srv.reads).symm.trans hends
  | writeTurn nRet =>
    refine ⟨h.1, fun hends => absurd (h.2 ?_) hen⟩
    exact (SelectLoop_turn_running t.write t.srv.writes).symm.trans hends
  | sendMsg s p nRet => exact h

/-- A thread that has ended does nothing more. -/
theorem ended_for_good {listenSocket : Nat} {before acts : List ThreadAct}
    (hbefore : run step (init listenSocket) before = some t) (hr : run step t acts = some t') :
    (t.read.running = false → t'.read = t.read) ∧
      (t.write.running = false → t'.write = t.write) := by
  have hends := run_stable (fun _ _ _ h hs => step_endsBetween h hs)
    (show (init listenSocket).EndsBetween from ⟨fun _ => rfl, fun _ => rfl⟩) hbefore
  constructor
  · intro hended
    refine run_stable (I := fun t' => t'.read = t.read) (fun u b u' h hs => ?_) rfl hr
    obtain ⟨hen, -, hread, -⟩ := step_eq_some.mp hs
    rw [hread]
    cases b with
    | readSelect ready => exact absurd (h ▸ hen.1) (by rw [hended]; exact Bool.false_ne_true)
    | readTurn clntSocket created strLen =>
      exact absurd ((congrArg SelectLoop.i h).trans (hends.1 hended)) hen
    | _ => exact h
  · intro hended
    refine run_stable (I := fun t' => t'.write = t.write) (fun u b u' h hs => ?_) rfl hr
    obtain ⟨hen, -, -, hwrite⟩ := step_eq_some.mp hs
    rw [hwrite]
    cases b with
    | writeSelect ready => exact absurd (h ▸ hen.1) (by rw [hended]; exact Bool.false_ne_true)
    | writeTurn nRet => exact absurd ((congrArg SelectLoop.i h).trans (hends.2 hended)) hen
    | _ => exact h

end Threads

end SelectServer
