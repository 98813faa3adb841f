import SocketServerLib.SelectServer.SelectServer

/-
  `SelectServer`: which steps keep the sockets of `reads` and `writes` open.

  `select` fails for a set with a socket that is not open. Nobody takes a closed socket out of
  `writes`, or out of `reads` when `Init` has closed it.

  What is proved:
    1. `step_setsOpen` — from a state in which the sockets of both sets are open, a step leads to
       another one exactly if it keeps to the condition `KeepsOpen`.

  What is assumed: what `SelectServer` assumes.
-/
namespace SelectServer
open RacingGameServer LabelledRun

namespace Server

variable {srv srv' : Server} {a : Act} {s fd : Nat}

/-- `select` fails for neither set. -/
def SetsOpen (srv : Server) : Prop :=
  (∀ fd ∈ srv.reads, srv.opened fd = true) ∧ ∀ fd ∈ srv.writes, srv.opened fd = true

/-- `Init` succeeds for a socket that `reads` has room for, and no closed context has its key;
nobody disconnects while `writes` has the socket of the context; nothing is stored for a socket
that has been closed while there is room in `writes`. -/
def KeepsOpen (srv : Server) : Act → Prop
  | .accept clntSocket created => ∀ s ∈ clntSocket, srv.reads.length < fdSetsize →
      ∀ c ∈ created, c.2 = true ∧ (srv.Clients s).isNone = true
  | .recv s strLen => strLen = some 0 → ∀ pCC ∈ srv.Clients s, pCC.socket = some s →
      s ∉ srv.writes
  | .sendMsg s pPacket_ _ => ∀ pCC ∈ srv.Clients s, srv.opened s = false →
      pCC.Fits pPacket_.bytes → ¬ srv.writes.length < fdSetsize
  | .resumeSend _ _ => True

instance (srv : Server) : DecidablePred srv.KeepsOpen
  | .accept clntSocket created =>
    inferInstanceAs (Decidable (∀ s ∈ clntSocket, srv.reads.length < fdSetsize →
      ∀ c ∈ created, c.2 = true ∧ (srv.Clients s).isNone = true))
  | .recv s strLen =>
    inferInstanceAs (Decidable (strLen = some 0 → ∀ pCC ∈ srv.Clients s, pCC.socket = some s →
      s ∉ srv.writes))
  | .sendMsg s pPacket_ _ =>
    inferInstanceAs (Decidable (∀ pCC ∈ srv.Clients s, srv.opened s = false →
      pCC.Fits pPacket_.bytes → ¬ srv.writes.length < fdSetsize))
  | .resumeSend _ _ => .isTrue trivial

/-- The socket of an accept stays open if there is no memory for the context, or it is new and
`Init` succeeds. -/
theorem doAccept_opened (srv : Server) (s : Nat) (created : Option (Bool × Bool)) (fd : Nat) :
    (srv.doAccept (some s) created).opened fd =
      if fd = s then
        match created with
        | none => true
        | some (_, initialised) => initialised && (srv.Clients s).isNone
      else srv.opened fd := by
  by_cases he : fd = s
  · subst he
    rw [if_pos rfl]
    cases created with
    | none => exact Function.update_self ..
    | some created =>
      obtain ⟨allocated, initialised⟩ := created
      cases hc : srv.Clients fd with
      | none => simp [doAccept, createContext, hc]
      | some old => simp [doAccept, createContext, hc]
  · rw [if_neg he]
    cases created with
    | none => exact Function.update_of_ne he ..
    | some created =>
      obtain ⟨allocated, initialised⟩ := created
      cases hc : srv.Clients s with
      | none => simp [doAccept, createContext, hc, he]
      | some old => simp [doAccept, createContext, hc, he]

/-- An accept leaves its socket open exactly if it keeps to the condition, or `reads` is full. -/
theorem doAccept_opened_self (srv : Server) (s : Nat) (created : Option (Bool × Bool)) :
    (srv.doAccept (some s) created).opened s = true ↔
      ∀ c ∈ created, c.2 = true ∧ (srv.Clients s).isNone = true := by
  rw [doAccept_opened, if_pos rfl]
  cases created with
  | none => simp
  | some created => simp

/-- A disconnect closes the socket of the context. -/
theorem doRecv_opened (h : srv.Keyed) (s : Nat) :
    (srv.doRecv s (some 0)).opened fd =
      if fd = s ∧ (∃ pCC, srv.Clients s = some pCC ∧ pCC.socket = some s) then false
      else srv.opened fd := by
  rw [doRecv, if_pos rfl]
  simp only [releaseContext]
  cases hc : srv.Clients s with
  | none => simp
  | some pCC =>
    rcases (h s pCC hc).2 with hnone | ⟨hsome, -⟩
    · simp [hnone]
    · by_cases he : fd = s
      · simp [hsome, he]
      · simp [hsome, he]

theorem sendMsg_opened (srv : Server) (s : Nat) (p : PacketData) (nRet : Option Nat) :
    (srv.sendMsg s p nRet).opened = srv.opened ∧ (srv.sendMsg s p nRet).reads = srv.reads := by
  unfold sendMsg
  split <;> exact ⟨rfl, rfl⟩

theorem resumeSend_opened (srv : Server) (s : Nat) (nRet : Option Nat) :
    (srv.resumeSend s nRet).opened = srv.opened ∧ (srv.resumeSend s nRet).reads = srv.reads := by
  unfold resumeSend
  split <;> exact ⟨rfl, rfl⟩

/-- `SendMsg` leaves `writes` or puts in its socket. -/
theorem sendMsg_writes (srv : Server) (s : Nat) (p : PacketData) (nRet : Option Nat) :
    (srv.sendMsg s p nRet).writes = srv.writes ∨
      (∃ pCC, srv.Clients s = some pCC ∧ (pCC.sendMsg (some p) nRet).2.1 = .PARTIAL_SUCCESS) ∧
        (srv.sendMsg s p nRet).writes = fdSet s srv.writes := by
  cases hc : srv.Clients s with
  | none => simp only [sendMsg, hc, true_or]
  | some pCC =>
    simp only [sendMsg, hc]
    split
    · next hp => exact .inr ⟨⟨pCC, rfl, hp⟩, rfl⟩
    · exact .inl rfl

/-- `ResumeSend` leaves `writes` or takes out its socket. -/
theorem resumeSend_writes (srv : Server) (s : Nat) (nRet : Option Nat) :
    (srv.resumeSend s nRet).writes = srv.writes ∨
      (srv.resumeSend s nRet).writes = fdClr s srv.writes := by
  unfold resumeSend
  split
  · exact .inl rfl
  · split
    · exact .inr rfl
    · exact .inl rfl

/-- No socket is twice in a set. -/
def SetsNodup (srv : Server) : Prop := srv.reads.Nodup ∧ srv.writes.Nodup

theorem step_setsNodup (h : srv.SetsNodup) (hs : step srv a = some srv') : srv'.SetsNodup := by
  obtain ⟨hen, rfl⟩ := step_eq_some.mp hs
  obtain ⟨hreads, hwrites⟩ := h
  cases a with
  | accept clntSocket created =>
    cases clntSocket with
    | none => exact ⟨hreads, hwrites⟩
    | some s =>
      simp only [act, SetsNodup, doAccept_reads, doAccept_writes]
      exact ⟨nodup_fdSet hreads s, hwrites⟩
  | recv s strLen =>
    simp only [act, SetsNodup, doRecv_writes]
    by_cases hzero : strLen = some 0
    · subst hzero
      rw [doRecv_reads]
      exact ⟨hreads.erase s, hwrites⟩
    · rw [doRecv, if_neg hzero]
      exact ⟨hreads, hwrites⟩
  | sendMsg s p nRet =>
    simp only [act, SetsNodup, (sendMsg_opened srv s p nRet).2]
    refine ⟨hreads, ?_⟩
    rcases sendMsg_writes srv s p nRet with he | ⟨-, he⟩
    · rw [he]
      exact hwrites
    · rw [he]
      exact nodup_fdSet hwrites s
  | resumeSend s nRet =>
    simp only [act, SetsNodup, (resumeSend_opened srv s nRet).2]
    refine ⟨hreads, ?_⟩
    rcases resumeSend_writes srv s nRet with he | he
    · rw [he]
      exact hwrites
    · rw [he]
      exact hwrites.erase s

/-- An accept keeps the sockets of the sets open exactly if it keeps to the condition. -/
theorem doAccept_setsOpen (h : srv.SetsOpen) (hclosed : srv.opened s = false)
    (created : Option (Bool × Bool)) : (srv.doAccept (some s) created).SetsOpen ↔
      (srv.reads.length < fdSetsize → ∀ c ∈ created, c.2 = true ∧
        (srv.Clients s).isNone = true) := by
  obtain ⟨hreads, hwrites⟩ := h
  have hne : ∀ fd, srv.opened fd = true → fd ≠ s := by
    rintro fd hopen rfl
    rw [hclosed] at hopen
    cases hopen
  have hothers : ∀ fd, srv.opened fd = true →
      (srv.doAccept (some s) created).opened fd = true := by
    intro fd hopen
    rw [doAccept_opened, if_neg (hne fd hopen)]
    exact hopen
  rw [← doAccept_opened_self]
  unfold SetsOpen
  rw [doAccept_reads, doAccept_writes]
  constructor
  · intro h hroom
    exact h.1 s (mem_fdSet.mpr (.inr ⟨rfl, hroom⟩))
  · intro h
    refine ⟨fun fd hfd => ?_, fun fd hfd => hothers fd (hwrites fd hfd)⟩
    rcases mem_fdSet.mp hfd with hfd | ⟨rfl, hroom⟩
    · exact hothers fd (hreads fd hfd)
    · exact h hroom

/-- A disconnect keeps them open exactly if `writes` does not have the socket it closes. -/
theorem doRecv_setsOpen (hkeyed : srv.Keyed) (hnodup : srv.reads.Nodup) (h : srv.SetsOpen)
    (s : Nat) : (srv.doRecv s (some 0)).SetsOpen ↔
      ∀ pCC ∈ srv.Clients s, pCC.socket = some s → s ∉ srv.writes := by
  obtain ⟨hreads, hwrites⟩ := h
  unfold SetsOpen
  rw [doRecv_reads, doRecv_writes]
  constructor
  · intro h pCC hc hsocket hmem
    have hopen := h.2 s hmem
    rw [doRecv_opened hkeyed, if_pos ⟨rfl, pCC, hc, hsocket⟩] at hopen
    cases hopen
  · intro h
    refine ⟨fun fd hfd => ?_, fun fd hfd => ?_⟩
    · have hne : fd ≠ s := by
        rintro rfl
        exact hnodup.not_mem_erase hfd
      rw [doRecv_opened hkeyed, if_neg (fun hand => hne hand.1)]
      exact hreads fd (List.mem_of_mem_erase hfd)
    · have hne : ¬ (fd = s ∧ ∃ pCC, srv.Clients s = some pCC ∧ pCC.socket = some s) := by
        rintro ⟨rfl, pCC, hc, hsocket⟩
        exact h pCC hc hsocket hfd
      rw [doRecv_opened hkeyed, if_neg hne]
      exact hwrites fd hfd

/-- What `SendMsg` puts in is open exactly if it keeps to the condition. -/
theorem sendMsg_setsOpen (hkeyed : srv.Keyed) (h : srv.SetsOpen) {p : PacketData}
    {nRet : Option Nat} (hen : srv.Enabled (.sendMsg s p nRet)) :
    (srv.sendMsg s p nRet).SetsOpen ↔ srv.KeepsOpen (.sendMsg s p nRet) := by
  obtain ⟨hreads, hwrites⟩ := h
  unfold SetsOpen
  rw [(sendMsg_opened srv s p nRet).1, (sendMsg_opened srv s p nRet).2]
  constructor
  · intro h pCC hc hclosed hf hroom
    -- the context of a closed socket is closed, so that the packet stays
    have hnone : pCC.socket = none := by
      refine (hkeyed s pCC hc).2.resolve_right fun hlive => ?_
      rw [hclosed] at hlive
      cases hlive.2
    obtain rfl := (hen pCC hc).2 hnone
    have hp := sendMsg_closed (hkeyed s pCC hc).1 hf
    have hc : srv.Clients s = some pCC := hc
    have hmem : s ∈ (srv.sendMsg s p none).writes := by
      simp only [sendMsg, hc, hp, if_true]
      exact mem_fdSet.mpr (.inr ⟨rfl, hroom⟩)
    rw [h.2 s hmem] at hclosed
    cases hclosed
  · intro h
    refine ⟨hreads, fun fd hfd => ?_⟩
    rcases sendMsg_writes srv s p nRet with he | ⟨⟨pCC, hc, hp⟩, he⟩
    · exact hwrites fd (he ▸ hfd)
    · rw [he] at hfd
      rcases mem_fdSet.mp hfd with hfd | ⟨rfl, hroom⟩
      · exact hwrites fd hfd
      · by_contra hopen
        have hf := sendMsg_partial_fits (hkeyed fd pCC hc).1 hp
        exact h pCC hc (Bool.eq_false_iff.mpr hopen) hf hroom

/-- A step keeps the sockets of the sets open exactly if it keeps to the condition. -/
theorem step_setsOpen (hkeyed : srv.Keyed) (hnodup : srv.SetsNodup) (h : srv.SetsOpen)
    (hs : step srv a = some srv') : srv'.SetsOpen ↔ srv.KeepsOpen a := by
  obtain ⟨hen, rfl⟩ := step_eq_some.mp hs
  cases a with
  | accept clntSocket created =>
    cases clntSocket with
    | none => exact iff_of_true h fun s hs => by cases hs
    | some s =>
      rw [act, doAccept_setsOpen h (hen s rfl).1]
      simp only [KeepsOpen, Option.mem_some, forall_eq']
  | recv s strLen =>
    by_cases hzero : strLen = some 0
    · subst hzero
      rw [act, doRecv_setsOpen hkeyed hnodup.1 h]
      simp only [KeepsOpen, true_imp_iff]
    · simp only [act, doRecv, if_neg hzero, KeepsOpen]
      exact iff_of_true h fun he => absurd he hzero
  | sendMsg s p nRet => exact sendMsg_setsOpen hkeyed h hen
  | resumeSend s nRet =>
    refine iff_of_true ?_ trivial
    unfold SetsOpen
    rw [act, (resumeSend_opened srv s nRet).1, (resumeSend_opened srv s nRet).2]
    refine ⟨h.1, fun fd hfd => h.2 fd ?_⟩
    rcases resumeSend_writes srv s nRet with he | he
    · exact he ▸ hfd
    · exact List.mem_of_mem_erase (he ▸ hfd)

end Server

end SelectServer
