import SocketServerLib.SelectServer.ClientContext
import Mathlib.Logic.Function.Basic
import Mathlib.Data.List.Nodup

/-
  `SelectServer`: the contexts by socket, and the two sets that `ReadThread` and
  `WriteThread` pass to `select`.

  Each of `DoAccept`, `DoRecv`, `SendMsg` and `ResumeSend` is one step. `opened` is the
  kernel's side: `accept` gives out a socket that is not open. What a receive brings is
  stored and parsed without touching these sets, so only its length is kept; 0 is a
  disconnect, `none` is `SOCKET_ERROR`.

  What is proved:
    1. `writes_live_iff` — every socket in `writes` has an open context if and only if
       nobody disconnects while it is in `writes`, and `SendMsg` does not put in a socket
       that `Init` has closed: `DoRecv` takes a socket out of `reads` only.
    2. `reads_watched_iff` — the sockets in `reads` are the keys of `Clients` if and only if
       at each accept there is room in `reads` exactly if the context can be allocated:
       neither result is looked at.

  What is assumed: the four calls are one step each, though they share the two sets and the
  contexts without a lock.
-/
namespace SelectServer
open RacingGameServer LabelledRun

def fdSetsize : Nat := 64

/-- `FD_SET` of winsock2: nothing for a socket that is there already, or for a full set. -/
def fdSet (fd : Nat) (set : List Nat) : List Nat :=
  if fd ∈ set then set
  else if set.length < fdSetsize then set ++ [fd]
  else set

/-- `FD_CLR`. -/
def fdClr (fd : Nat) (set : List Nat) : List Nat := set.erase fd

structure Server where
  listenSocket : Nat
  Clients : Nat → Option ClientContext
  reads : List Nat
  writes : List Nat
  opened : Nat → Bool

/-- `created` is `none` if there is no memory for the context, else whether its buffer could be
allocated and its socket initialised. -/
inductive Act where
  | accept (clntSocket : Option Nat) (created : Option (Bool × Bool))
  | recv (clientSocket_ : Nat) (strLen : Option Nat)
  | sendMsg (clientSocket_ : Nat) (pPacket_ : PacketData) (nRet : Option Nat)
  | resumeSend (clientSocket_ : Nat) (nRet : Option Nat)

namespace Server

/-- After `SocketInit`. -/
def init (listenSocket : Nat) : Server :=
  { listenSocket := listenSocket, Clients := fun _ => none, reads := [listenSocket], writes := []
    opened := fun s => s == listenSocket }

def createContext (srv : Server) (clientSocket_ : Nat) (created : Option (Bool × Bool)) : Server :=
  match created with
  | none => srv
  | some (allocated, initialised) =>
    match srv.Clients clientSocket_ with
    | none =>
      -- `Init` closes a socket that it cannot set up, and the context stays
      { srv with
        Clients := Function.update srv.Clients clientSocket_
          (some (.new clientSocket_ allocated initialised))
        opened := Function.update srv.opened clientSocket_ initialised }
    | some _ =>
      -- the new context is deleted, which closes its socket
      { srv with opened := Function.update srv.opened clientSocket_ false }

def releaseContext (srv : Server) (clientSocket_ : Nat) : Server :=
  match srv.Clients clientSocket_ with
  | none => srv
  | some pCC =>
    { srv with
      Clients := Function.update srv.Clients clientSocket_ none
      opened := match pCC.socket with
        | none => srv.opened
        | some s => Function.update srv.opened s false }

def doAccept (srv : Server) (clntSocket : Option Nat) (created : Option (Bool × Bool)) : Server :=
  match clntSocket with
  | none => srv
  | some s =>
    createContext
      { srv with reads := fdSet s srv.reads, opened := Function.update srv.opened s true } s created

def doRecv (srv : Server) (clientSocket_ : Nat) (strLen : Option Nat) : Server :=
  if strLen = some 0 then
    { releaseContext srv clientSocket_ with reads := fdClr clientSocket_ srv.reads }
  else srv

def sendMsg (srv : Server) (clientSocket_ : Nat) (pPacket_ : PacketData) (nRet : Option Nat) :
    Server :=
  match srv.Clients clientSocket_ with
  | none => srv
  | some pCC =>
    { srv with
      Clients := Function.update srv.Clients clientSocket_
        (some (pCC.sendMsg (some pPacket_) nRet).1)
      writes := if (pCC.sendMsg (some pPacket_) nRet).2.1 = .PARTIAL_SUCCESS then
        fdSet clientSocket_ srv.writes else srv.writes }

def resumeSend (srv : Server) (clientSocket_ : Nat) (nRet : Option Nat) : Server :=
  match srv.Clients clientSocket_ with
  | none => srv
  | some pCC =>
    { srv with
      Clients := Function.update srv.Clients clientSocket_ (some (pCC.resumeSend nRet).1)
      writes := if (pCC.resumeSend nRet).2.1 = .WHOLE_SUCCESS then
        fdClr clientSocket_ srv.writes else srv.writes }

/-- What `send()` can answer for the buffer: on a closed socket it fails. -/
def Answers (pCC : ClientContext) (b : SlideBuffer) (nRet : Option Nat) : Prop :=
  ClientContext.Offered b nRet ∧ (pCC.socket = none → nRet = none)

instance (pCC : ClientContext) (b : SlideBuffer) (nRet : Option Nat) :
    Decidable (Answers pCC b nRet) :=
  inferInstanceAs (Decidable (_ ∧ (_ → _)))

/-- `accept` gives out a socket that is not open; the threads go through the sets. -/
def Enabled (srv : Server) : Act → Prop
  | .accept clntSocket _ => ∀ s ∈ clntSocket, srv.opened s = false ∧ s ≠ srv.listenSocket
  | .recv s _ => s ∈ srv.reads ∧ s ≠ srv.listenSocket
  | .sendMsg s pPacket_ nRet =>
    ∀ pCC ∈ srv.Clients s, Answers pCC (pCC.stored pPacket_.bytes).1 nRet
  | .resumeSend s nRet =>
    s ∈ srv.writes ∧ ∀ pCC ∈ srv.Clients s, Answers pCC pCC.sendBuffer nRet

instance (srv : Server) : DecidablePred srv.Enabled
  | .accept clntSocket _ =>
    inferInstanceAs (Decidable (∀ s ∈ clntSocket, srv.opened s = false ∧ s ≠ srv.listenSocket))
  | .recv s _ => inferInstanceAs (Decidable (s ∈ srv.reads ∧ s ≠ srv.listenSocket))
  | .sendMsg s pPacket_ nRet =>
    inferInstanceAs (Decidable (∀ pCC ∈ srv.Clients s,
      Answers pCC (pCC.stored pPacket_.bytes).1 nRet))
  | .resumeSend s nRet =>
    inferInstanceAs (Decidable (s ∈ srv.writes ∧ ∀ pCC ∈ srv.Clients s,
      Answers pCC pCC.sendBuffer nRet))

def act (srv : Server) : Act → Server
  | .accept clntSocket created => srv.doAccept clntSocket created
  | .recv s strLen => srv.doRecv s strLen
  | .sendMsg s pPacket_ nRet => srv.sendMsg s pPacket_ nRet
  | .resumeSend s nRet => srv.resumeSend s nRet

def step (srv : Server) (a : Act) : Option Server :=
  if srv.Enabled a then some (srv.act a) else none

variable {srv srv' : Server} {a : Act} {s fd : Nat}

theorem step_eq_some : step srv a = some srv' ↔ srv.Enabled a ∧ srv.act a = srv' := by
  rw [step, Option.ite_none_right_eq_some, Option.some_inj]

/-! ## The sets -/

theorem mem_fdSet {set : List Nat} : s ∈ fdSet fd set ↔
    s ∈ set ∨ s = fd ∧ set.length < fdSetsize := by
  unfold fdSet
  split
  · next h =>
    refine ⟨Or.inl, fun hs => ?_⟩
    rcases hs with hs | ⟨rfl, -⟩
    · exact hs
    · exact h
  · split
    · next h => simp [h]
    · next h => simp [h]

theorem nodup_fdSet {set : List Nat} (h : set.Nodup) (fd : Nat) : (fdSet fd set).Nodup := by
  unfold fdSet
  split
  · exact h
  · split
    · next hmem _ =>
      rw [← List.concat_eq_append]
      exact List.Nodup.concat hmem h
    · exact h

/-! ## The contexts -/

/-- `CreateContext` changes the contexts and what is open. -/
theorem createContext_frame (srv : Server) (s : Nat) (created : Option (Bool × Bool)) :
    (srv.createContext s created).reads = srv.reads ∧
      (srv.createContext s created).writes = srv.writes ∧
      (srv.createContext s created).listenSocket = srv.listenSocket := by
  unfold createContext
  split
  · exact ⟨rfl, rfl, rfl⟩
  · split <;> exact ⟨rfl, rfl, rfl⟩

/-- A context that has not been closed has the socket of its key, and the kernel has it open. -/
def Keyed (srv : Server) : Prop :=
  ∀ s pCC, srv.Clients s = some pCC →
    pCC.Wf ∧ (pCC.socket = none ∨ pCC.socket = some s ∧ srv.opened s = true)

theorem keyed_init (listenSocket : Nat) : (init listenSocket).Keyed := by
  intro s pCC h
  cases h

theorem sendMsg_socket (pCC : ClientContext) (p : Option PacketData) (nRet : Option Nat) :
    (pCC.sendMsg p nRet).1.socket = pCC.socket := by
  unfold ClientContext.sendMsg
  split
  · rfl
  · split <;> rfl

theorem resumeSend_socket (pCC : ClientContext) (nRet : Option Nat) :
    (pCC.resumeSend nRet).1.socket = pCC.socket := by
  unfold ClientContext.resumeSend
  split <;> rfl

/-- A change of one context that keeps its socket. -/
theorem Keyed.update (h : srv.Keyed) {pCC pCC' : ClientContext}
    (hc : srv.Clients s = some pCC) (hwf : pCC'.Wf) (hsocket : pCC'.socket = pCC.socket) :
    ∀ s' c, Function.update srv.Clients s (some pCC') s' = some c →
      c.Wf ∧ (c.socket = none ∨ c.socket = some s' ∧ srv.opened s' = true) := by
  intro s' c hs'
  by_cases he : s' = s
  · subst he
    rw [Function.update_self] at hs'
    obtain rfl := Option.some.inj hs'
    exact ⟨hwf, hsocket ▸ (h s' pCC hc).2⟩
  · rw [Function.update_of_ne he] at hs'
    exact h s' c hs'

theorem keyed_doAccept (h : srv.Keyed) (hclosed : srv.opened s = false)
    (created : Option (Bool × Bool)) : (srv.doAccept (some s) created).Keyed := by
  -- the contexts of the other keys do not see the socket; the one of this key is closed
  have hothers : ∀ (b : Bool) s' c, srv.Clients s' = some c → c.Wf ∧ (c.socket = none ∨
      c.socket = some s' ∧ Function.update srv.opened s b s' = true) := by
    intro b s' c hs'
    obtain ⟨hwf, hnone | ⟨hsome, hopen⟩⟩ := h s' c hs'
    · exact ⟨hwf, .inl hnone⟩
    · have hne : s' ≠ s := by
        rintro rfl
        rw [hclosed] at hopen
        cases hopen
      rw [Function.update_of_ne hne]
      exact ⟨hwf, .inr ⟨hsome, hopen⟩⟩
  cases created with
  | none => exact hothers true
  | some created =>
    obtain ⟨allocated, initialised⟩ := created
    cases hc : srv.Clients s with
    | none =>
      intro s' c hs'
      simp only [doAccept, createContext, hc, Function.update_idem] at hs' ⊢
      by_cases he : s' = s
      · subst he
        simp only [Function.update_self] at hs' ⊢
        obtain rfl := Option.some.inj hs'
        refine ⟨ClientContext.wf_new s' allocated initialised, ?_⟩
        cases initialised with
        | true => exact .inr ⟨rfl, rfl⟩
        | false => exact .inl rfl
      · rw [Function.update_of_ne he] at hs'
        exact hothers initialised s' c hs'
    | some old =>
      simp only [doAccept, createContext, hc, Keyed, Function.update_idem]
      intro s' c hs'
      exact hothers false s' c hs'

theorem keyed_doRecv (h : srv.Keyed) (s : Nat) (strLen : Option Nat) :
    (srv.doRecv s strLen).Keyed := by
  unfold doRecv releaseContext
  split
  · split
    · exact h
    · next pCC hc =>
      intro s' c hs'
      have hne : s' ≠ s := by
        rintro rfl
        simp only [Function.update_self] at hs'
        cases hs'
      simp only [Function.update_of_ne hne] at hs' ⊢
      obtain ⟨-, hnone | ⟨hsome, -⟩⟩ := h s pCC hc
      · rw [hnone]
        exact h s' c hs'
      · simp only [hsome, Function.update_of_ne hne]
        exact h s' c hs'
  · exact h

theorem keyed_step (h : srv.Keyed) (hs : step srv a = some srv') : srv'.Keyed := by
  obtain ⟨hen, rfl⟩ := step_eq_some.mp hs
  cases a with
  | accept clntSocket created =>
    cases clntSocket with
    | none => exact h
    | some s => exact keyed_doAccept h (hen s rfl).1 created
  | recv s strLen => exact keyed_doRecv h s strLen
  | sendMsg s pPacket_ nRet =>
    simp only [act, sendMsg]
    split
    · exact h
    · next pCC hc =>
      exact h.update hc ((h s pCC hc).1.sendMsg pPacket_ nRet) (sendMsg_socket pCC _ nRet)
  | resumeSend s nRet =>
    simp only [act, resumeSend]
    split
    · exact h
    · next pCC hc =>
      exact h.update hc ((h s pCC hc).1.resumeSend nRet) (resumeSend_socket pCC nRet)

/-! ## The sockets in `writes` -/

/-- Every socket in `writes` has an open context. -/
def WritesLive (srv : Server) : Prop :=
  ∀ s ∈ srv.writes, ∃ pCC, srv.Clients s = some pCC ∧ pCC.socket = some s ∧ srv.opened s = true

/-- Nobody disconnects while `writes` has the socket, and nothing is stored for a socket that
`Init` has closed while there is room in `writes`. -/
def KeepsWrites (srv : Server) : Act → Prop
  | .recv s strLen => strLen = some 0 → s ∉ srv.writes
  | .sendMsg s pPacket_ _ => ∀ pCC ∈ srv.Clients s, pCC.socket = none →
      pCC.Fits pPacket_.bytes → ¬ srv.writes.length < fdSetsize
  | _ => True

instance (srv : Server) : DecidablePred srv.KeepsWrites
  | .accept _ _ => .isTrue trivial
  | .recv s strLen => inferInstanceAs (Decidable (strLen = some 0 → s ∉ srv.writes))
  | .sendMsg s pPacket_ _ =>
    inferInstanceAs (Decidable (∀ pCC ∈ srv.Clients s, pCC.socket = none →
      pCC.Fits pPacket_.bytes → ¬ srv.writes.length < fdSetsize))
  | .resumeSend _ _ => .isTrue trivial

/-- A socket in `writes` is live if its context is there and has not been closed. -/
theorem writesLive_of (h : srv.Keyed) (hw : ∀ s ∈ srv.writes, ∃ pCC, srv.Clients s = some pCC ∧
    pCC.socket ≠ none) : srv.WritesLive := by
  intro s hs
  obtain ⟨pCC, hc, hopen⟩ := hw s hs
  obtain ⟨-, hnone | hlive⟩ := h s pCC hc
  · exact absurd hnone hopen
  · exact ⟨pCC, hc, hlive⟩

theorem WritesLive.ne_none (h : srv.WritesLive) (hs : s ∈ srv.writes) :
    ∃ pCC, srv.Clients s = some pCC ∧ pCC.socket ≠ none := by
  obtain ⟨pCC, hc, hsocket, -⟩ := h s hs
  exact ⟨pCC, hc, hsocket ▸ Option.some_ne_none s⟩

/-- A change of one context that keeps its socket leaves the others as they are. -/
theorem WritesLive.update (h : srv.WritesLive) {pCC pCC' : ClientContext}
    (hc : srv.Clients fd = some pCC) (hsocket : pCC'.socket = pCC.socket) (hs : s ∈ srv.writes) :
    ∃ c, Function.update srv.Clients fd (some pCC') s = some c ∧ c.socket ≠ none := by
  obtain ⟨c, hs', hopen⟩ := h.ne_none hs
  by_cases he : s = fd
  · subst he
    obtain rfl := Option.some.inj (hs'.symm.trans hc)
    exact ⟨pCC', Function.update_self .., hsocket ▸ hopen⟩
  · exact ⟨c, (Function.update_of_ne he ..).trans hs', hopen⟩

theorem doAccept_writes (srv : Server) (clntSocket : Option Nat)
    (created : Option (Bool × Bool)) : (srv.doAccept clntSocket created).writes = srv.writes := by
  cases clntSocket with
  | none => rfl
  | some s => exact (createContext_frame _ s created).2.1

/-- `DoAccept` leaves the contexts that are there. -/
theorem doAccept_clients {pCC : ClientContext} (hc : srv.Clients s = some pCC)
    (clntSocket : Option Nat) (created : Option (Bool × Bool)) :
    (srv.doAccept clntSocket created).Clients s = some pCC := by
  unfold doAccept createContext
  split
  · exact hc
  · split
    · exact hc
    · split
      · next hnone =>
        have hne : s ≠ _ := fun he => Option.some_ne_none pCC (hc.symm.trans (he ▸ hnone))
        exact (Function.update_of_ne hne ..).trans hc
      · exact hc

theorem doRecv_clients (hne : s ≠ fd) (strLen : Option Nat) :
    (srv.doRecv fd strLen).Clients s = srv.Clients s := by
  unfold doRecv releaseContext
  split
  · split
    · rfl
    · exact Function.update_of_ne hne ..
  · rfl

theorem doRecv_disconnect (srv : Server) (s : Nat) : (srv.doRecv s (some 0)).Clients s = none := by
  unfold doRecv releaseContext
  rw [if_pos rfl]
  split
  · next hc => exact hc
  · exact Function.update_self ..

theorem doRecv_writes (srv : Server) (s : Nat) (strLen : Option Nat) :
    (srv.doRecv s strLen).writes = srv.writes := by
  unfold doRecv releaseContext
  split
  · split <;> rfl
  · rfl

/-- `SendMsg` puts in a socket only if its packet was stored. -/
theorem sendMsg_partial_fits {pCC : ClientContext} (h : pCC.Wf) {p : PacketData} {nRet : Option Nat}
    (hp : (pCC.sendMsg (some p) nRet).2.1 = .PARTIAL_SUCCESS) : pCC.Fits p.bytes := by
  by_contra hf
  rw [ClientContext.sendMsg_full h hf] at hp
  cases hp

/-- A packet that is stored for a closed socket stays. -/
theorem sendMsg_closed {pCC : ClientContext} (h : pCC.Wf) {p : PacketData}
    (hf : pCC.Fits p.bytes) : (pCC.sendMsg (some p) none).2.1 = .PARTIAL_SUCCESS := by
  rcases h.stored p with ⟨⟨hok, -, -⟩, -⟩ | ⟨-, hno⟩
  · simp only [ClientContext.sendMsg, hok, Bool.true_eq_false, if_false, sendBuffered]
  · exact absurd hf hno

theorem step_writesLive (h : srv.Keyed ∧ srv.WritesLive) (ha : srv.KeepsWrites a)
    (hs : step srv a = some srv') : srv'.Keyed ∧ srv'.WritesLive := by
  obtain ⟨hkeyed, hlive⟩ := h
  have hkeyed' := keyed_step hkeyed hs
  obtain ⟨hen, rfl⟩ := step_eq_some.mp hs
  refine ⟨hkeyed', writesLive_of hkeyed' fun s' hs' => ?_⟩
  cases a with
  | accept clntSocket created =>
    have hs' : s' ∈ srv.writes := doAccept_writes srv clntSocket created ▸ hs'
    obtain ⟨pCC, hc, hopen⟩ := hlive.ne_none hs'
    exact ⟨pCC, doAccept_clients hc clntSocket created, hopen⟩
  | recv s strLen =>
    have hs' : s' ∈ srv.writes := doRecv_writes srv s strLen ▸ hs'
    by_cases hzero : strLen = some 0
    · have hne : s' ≠ s := fun he => ha hzero (he ▸ hs')
      obtain ⟨pCC, hc, hopen⟩ := hlive.ne_none hs'
      exact ⟨pCC, (doRecv_clients hne strLen).trans hc, hopen⟩
    · simp only [act, doRecv, if_neg hzero]
      exact hlive.ne_none hs'
  | sendMsg s pPacket_ nRet =>
    simp only [act, sendMsg] at hs' ⊢
    split at hs'
    · exact hlive.ne_none hs'
    · next pCC hc =>
      have hsocket := sendMsg_socket pCC (some pPacket_) nRet
      split at hs'
      · next hp =>
        rcases mem_fdSet.mp hs' with hs' | ⟨rfl, hroom⟩
        · exact hlive.update hc hsocket hs'
        · refine ⟨_, Function.update_self .., fun hnone => ?_⟩
          exact ha pCC hc (hsocket ▸ hnone) (sendMsg_partial_fits (hkeyed _ pCC hc).1 hp) hroom
      · exact hlive.update hc hsocket hs'
  | resumeSend s nRet =>
    simp only [act, resumeSend] at hs' ⊢
    split at hs'
    · exact hlive.ne_none hs'
    · next pCC hc =>
      have hsocket := resumeSend_socket pCC nRet
      split at hs'
      · exact hlive.update hc hsocket (List.mem_of_mem_erase hs')
      · exact hlive.update hc hsocket hs'

/-- Any other step leaves a socket in `writes` without an open context. -/
theorem step_writesDead (h : srv.Keyed ∧ srv.WritesLive) (ha : ¬ srv.KeepsWrites a)
    (hs : step srv a = some srv') : ¬ srv'.WritesLive := by
  obtain ⟨hkeyed, hlive⟩ := h
  obtain ⟨hen, rfl⟩ := step_eq_some.mp hs
  intro hlive'
  cases a with
  | accept clntSocket created => exact ha trivial
  | recv s strLen =>
    simp only [KeepsWrites, not_forall, not_not] at ha
    obtain ⟨rfl, hmem⟩ := ha
    obtain ⟨pCC, hc, -⟩ := hlive'.ne_none (doRecv_writes srv s (some 0) ▸ hmem)
    exact Option.some_ne_none pCC (hc.symm.trans (doRecv_disconnect srv s))
  | sendMsg s pPacket_ nRet =>
    simp only [KeepsWrites, not_forall, not_not] at ha
    obtain ⟨pCC, hc, hnone, hf, hroom⟩ := ha
    obtain ⟨-, hfail⟩ := hen pCC hc
    obtain rfl := hfail hnone
    have hc : srv.Clients s = some pCC := hc
    have hp := sendMsg_closed (hkeyed s pCC hc).1 hf
    have hmem : s ∈ (srv.sendMsg s pPacket_ none).writes := by
      simp only [sendMsg, hc, hp, if_true]
      exact mem_fdSet.mpr (.inr ⟨rfl, hroom⟩)
    obtain ⟨c, hc', hopen⟩ := hlive'.ne_none hmem
    simp only [act, sendMsg, hc, Function.update_self] at hc'
    obtain rfl := Option.some.inj hc'
    rw [sendMsg_socket] at hopen
    exact hopen hnone
  | resumeSend s nRet => exact ha trivial

/-- Every state has an open context for every socket in `writes` if and only if every step keeps
to the condition. -/
theorem writes_live_iff {listenSocket : Nat} {acts : List Act}
    (hr : run step (init listenSocket) acts = some srv) :
    Always step WritesLive (init listenSocket) acts ↔
      Meets step KeepsWrites (init listenSocket) acts :=
  always_iff_meets (P := WritesLive) (I := fun srv => srv.Keyed ∧ srv.WritesLive) (fun _ h => h.2)
    (fun _ _ _ h ha hs => step_writesLive h ha hs) (fun _ _ _ h ha hs => step_writesDead h ha hs)
    ⟨keyed_init listenSocket, fun _ hs => absurd hs List.not_mem_nil⟩ hr

/-- A response in two parts, and a client that leaves when it has got them. -/
theorem writes_live_iff_two : Always step WritesLive (init 3)
    [.accept (some 5) (some (true, true)), .sendMsg 5 Stream.somePacket (some 50),
      .resumeSend 5 none, .resumeSend 5 (some 40), .recv 5 (some 0)] := by
  have hrun : (run step (init 3) [.accept (some 5) (some (true, true)),
      .sendMsg 5 Stream.somePacket (some 50), .resumeSend 5 none, .resumeSend 5 (some 40),
      .recv 5 (some 0)]).isSome = true := by decide +kernel
  obtain ⟨srv, hsrv⟩ := Option.isSome_iff_exists.mp hrun
  exact (writes_live_iff hsrv).mpr (by decide +kernel)

/-- The client leaves after the first part, and its socket stays in `writes`. -/
theorem writes_dead : ¬ ∀ (listenSocket : Nat) (acts : List Act) (srv : Server),
    run step (init listenSocket) acts = some srv → srv.WritesLive := by
  intro h
  have hrun : ((run step (init 3) [.accept (some 5) (some (true, true)),
      .sendMsg 5 Stream.somePacket (some 50), .recv 5 (some 0)]).map fun srv =>
      (srv.writes, (srv.Clients 5).isSome)) = some ([5], false) := by decide +kernel
  obtain ⟨srv, hsrv, hend⟩ := Option.map_eq_some_iff.mp hrun
  obtain ⟨hwrites, hclient⟩ := Prod.mk.inj hend
  obtain ⟨pCC, hc, -⟩ := h 3 _ srv hsrv 5 (by rw [hwrites]; exact List.mem_singleton_self 5)
  rw [hc] at hclient
  cases hclient

/-! ## The sockets in `reads` -/

/-- The sockets in `reads` other than the listen socket are the keys of `Clients`. -/
def ReadsWatched (srv : Server) : Prop :=
  ∀ s, s ≠ srv.listenSocket → (s ∈ srv.reads ↔ (srv.Clients s).isSome = true)

/-- Unless `Clients` has the socket of an accept already, there is room in `reads` exactly if there
is memory for the context. -/
def KeepsReads (srv : Server) : Act → Prop
  | .accept clntSocket created => ∀ s ∈ clntSocket,
      (srv.Clients s).isSome = true ∨ (srv.reads.length < fdSetsize ↔ created.isSome = true)
  | _ => True

instance (srv : Server) : DecidablePred srv.KeepsReads
  | .accept clntSocket created =>
    inferInstanceAs (Decidable (∀ s ∈ clntSocket,
      (srv.Clients s).isSome = true ∨ (srv.reads.length < fdSetsize ↔ created.isSome = true)))
  | .recv _ _ => .isTrue trivial
  | .sendMsg _ _ _ => .isTrue trivial
  | .resumeSend _ _ => .isTrue trivial

theorem step_listenSocket (hs : step srv a = some srv') :
    srv'.listenSocket = srv.listenSocket := by
  obtain ⟨-, rfl⟩ := step_eq_some.mp hs
  cases a with
  | accept clntSocket created =>
    cases clntSocket with
    | none => rfl
    | some s => exact (createContext_frame _ s created).2.2
  | recv s strLen =>
    simp only [act, doRecv, releaseContext]
    split
    · split <;> rfl
    · rfl
  | sendMsg s pPacket_ nRet =>
    simp only [act, sendMsg]
    split <;> rfl
  | resumeSend s nRet =>
    simp only [act, resumeSend]
    split <;> rfl

theorem doAccept_reads (srv : Server) (s : Nat) (created : Option (Bool × Bool)) :
    (srv.doAccept (some s) created).reads = fdSet s srv.reads :=
  (createContext_frame _ s created).1

/-- `DoAccept` adds the key of its socket if there is memory for the context. -/
theorem doAccept_isSome (srv : Server) (s : Nat) (created : Option (Bool × Bool)) (t : Nat) :
    ((srv.doAccept (some s) created).Clients t).isSome = true ↔
      (srv.Clients t).isSome = true ∨ t = s ∧ created.isSome = true := by
  cases created with
  | none => simp [doAccept, createContext]
  | some created =>
    obtain ⟨allocated, initialised⟩ := created
    cases hc : srv.Clients s with
    | none =>
      simp only [doAccept, createContext, hc]
      by_cases he : t = s
      · subst he
        simp
      · simp [he]
    | some old =>
      simp only [doAccept, createContext, hc]
      by_cases he : t = s
      · subst he
        simp [hc]
      · simp [he]

/-- A change of a context that is there changes no key. -/
theorem isSome_update {pCC : ClientContext} (hc : srv.Clients s = some pCC) (pCC' : ClientContext)
    (t : Nat) :
    (Function.update srv.Clients s (some pCC') t).isSome = (srv.Clients t).isSome := by
  by_cases he : t = s
  · subst he
    rw [Function.update_self, hc]
    rfl
  · rw [Function.update_of_ne he]

theorem doRecv_reads (srv : Server) (s : Nat) :
    (srv.doRecv s (some 0)).reads = fdClr s srv.reads := by
  rw [doRecv, if_pos rfl]

/-- An accept keeps the sets together exactly if it keeps to the condition. -/
theorem doAccept_watched (h : srv.ReadsWatched) (hs : s ≠ srv.listenSocket)
    (created : Option (Bool × Bool)) :
    (∀ t, t ≠ srv.listenSocket → (t ∈ (srv.doAccept (some s) created).reads ↔
        ((srv.doAccept (some s) created).Clients t).isSome = true)) ↔
      ((srv.Clients s).isSome = true ∨ (srv.reads.length < fdSetsize ↔ created.isSome = true)) := by
  have hmem := h s hs
  constructor
  · intro h'
    have hiff := h' s hs
    rw [doAccept_reads, mem_fdSet, doAccept_isSome, hmem] at hiff
    by_cases hkey : (srv.Clients s).isSome = true
    · exact .inl hkey
    · simpa [hkey] using hiff
  · intro hcond t ht
    rw [doAccept_reads, mem_fdSet, doAccept_isSome, h t ht]
    rcases hcond with hkey | hiff
    · constructor
      · rintro (h | ⟨rfl, -⟩)
        · exact .inl h
        · exact .inl hkey
      · rintro (h | ⟨rfl, -⟩)
        · exact .inl h
        · exact .inl hkey
    · rw [hiff]

theorem step_watched (h : srv.reads.Nodup ∧ srv.ReadsWatched) (ha : srv.KeepsReads a)
    (hs : step srv a = some srv') : srv'.reads.Nodup ∧ srv'.ReadsWatched := by
  obtain ⟨hnodup, hwatched⟩ := h
  have hlisten := step_listenSocket hs
  obtain ⟨hen, rfl⟩ := step_eq_some.mp hs
  cases a with
  | accept clntSocket created =>
    cases clntSocket with
    | none => exact ⟨hnodup, hwatched⟩
    | some s =>
      refine ⟨?_, ?_⟩
      · simp only [act, doAccept_reads]
        exact nodup_fdSet hnodup s
      · rw [ReadsWatched, hlisten]
        exact (doAccept_watched hwatched (hen s rfl).2 created).mpr (ha s rfl)
  | recv s strLen =>
    by_cases hzero : strLen = some 0
    · subst hzero
      refine ⟨?_, ?_⟩
      · simp only [act, doRecv_reads]
        exact hnodup.erase s
      · rw [ReadsWatched, hlisten]
        intro t ht
        simp only [act, doRecv_reads]
        by_cases he : t = s
        · subst he
          rw [doRecv_disconnect]
          exact iff_of_false (hnodup.not_mem_erase) Bool.false_ne_true
        · rw [doRecv_clients he, fdClr, List.mem_erase_of_ne he]
          exact hwatched t ht
    · simp only [act, doRecv, if_neg hzero]
      exact ⟨hnodup, hwatched⟩
  | sendMsg s pPacket_ nRet =>
    simp only [act, sendMsg]
    split
    · exact ⟨hnodup, hwatched⟩
    · next pCC hc =>
      refine ⟨hnodup, fun t ht => (hwatched t ht).trans ?_⟩
      rw [isSome_update hc]
  | resumeSend s nRet =>
    simp only [act, resumeSend]
    split
    · exact ⟨hnodup, hwatched⟩
    · next pCC hc =>
      refine ⟨hnodup, fun t ht => (hwatched t ht).trans ?_⟩
      rw [isSome_update hc]

theorem step_unwatched (h : srv.reads.Nodup ∧ srv.ReadsWatched) (ha : ¬ srv.KeepsReads a)
    (hs : step srv a = some srv') : ¬ srv'.ReadsWatched := by
  have hlisten := step_listenSocket hs
  obtain ⟨hen, rfl⟩ := step_eq_some.mp hs
  intro hwatched'
  cases a with
  | accept clntSocket created =>
    apply ha
    intro s hmem
    obtain rfl : clntSocket = some s := hmem
    rw [ReadsWatched, hlisten] at hwatched'
    exact (doAccept_watched h.2 (hen s rfl).2 created).mp hwatched'
  | _ => exact ha trivial

/-- In every state the sockets in `reads` are the keys of `Clients` if and only if every accept
keeps to the condition. -/
theorem reads_watched_iff {listenSocket : Nat} {acts : List Act}
    (hr : run step (init listenSocket) acts = some srv) :
    Always step ReadsWatched (init listenSocket) acts ↔
      Meets step KeepsReads (init listenSocket) acts :=
  always_iff_meets (P := ReadsWatched) (I := fun srv => srv.reads.Nodup ∧ srv.ReadsWatched)
    (fun _ h => h.2) (fun _ _ _ h ha hs => step_watched h ha hs)
    (fun _ _ _ h ha hs => step_unwatched h ha hs)
    ⟨List.nodup_singleton listenSocket, fun _ hs =>
      iff_of_false (fun hmem => hs (List.mem_singleton.mp hmem)) Bool.false_ne_true⟩ hr

/-- Two clients, one of which leaves. -/
theorem reads_watched_iff_two : Always step ReadsWatched (init 3)
    [.accept (some 5) (some (true, true)), .recv 5 (some 10), .accept (some 6) (some (true, true)),
      .recv 5 (some 0)] := by
  have hrun : (run step (init 3) [.accept (some 5) (some (true, true)), .recv 5 (some 10),
      .accept (some 6) (some (true, true)), .recv 5 (some 0)]).isSome = true := by decide +kernel
  obtain ⟨srv, hsrv⟩ := Option.isSome_iff_exists.mp hrun
  exact (reads_watched_iff hsrv).mpr (by decide +kernel)

/-- With the listen socket, 63 clients fill `reads`; client 64 has a context and is not read. -/
theorem client_unwatched : ¬ ∀ (listenSocket : Nat) (acts : List Act) (srv : Server),
    run step (init listenSocket) acts = some srv → srv.ReadsWatched := by
  intro h
  have hrun : ((run step (init 3) ((List.range 64).map fun i =>
      .accept (some (i + 4)) (some (true, true)))).map fun srv =>
      (decide (67 ∈ srv.reads), (srv.Clients 67).isSome, srv.listenSocket)) =
      some (false, true, 3) := by decide +kernel
  obtain ⟨srv, hsrv, hend⟩ := Option.map_eq_some_iff.mp hrun
  simp only [Prod.mk.injEq, decide_eq_false_iff_not] at hend
  obtain ⟨hmem, hclient, hlisten⟩ := hend
  exact hmem ((h 3 _ srv hsrv 67 (by rw [hlisten]; decide)).mpr hclient)

end Server

end SelectServer
