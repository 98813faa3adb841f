import SocketServerLib.RacingGameServer.Connection
import SocketServerLib.Lib.LabelledRun

/-
  Whether a send ring with packets in it can go on: the ring after any pushes of packets that
  `PacketData::Init` has accepted and any pops, `GetWSABUF` on it, and `SendTCPIO` of a
  connection that has it.

  What is proved:
    1. `step_filled` — the packets of the ring are never empty, so a gather list with an entry
       has bytes.
    2. `makesProgress_iff` — the ring makes progress if and only if its first packet has no
       more left than a segment takes; it always does if all packets pushed are that short.
    3. `oversized_stuck` — a ring with one packet of a byte more.

  What is assumed: what `SendFifo` assumes.
-/
namespace RacingGameServer

open LabelledRun SendBuffer

/-- A packet is initialised with the payload and pushed, or a completion pops. -/
inductive RingAct where
  | push (pPacket_ : PacketData) (infoCode_ : InfoCode) (reqNo_ : Nat) (payload : Bytes)
  | pop (ioSize_ : Nat)

namespace SendBuffer

def ringStep (b : SendBuffer) : RingAct → Option SendBuffer
  | .push q infoCode_ reqNo_ payload =>
    match q.init infoCode_ reqNo_ payload with
    | (_, false) => none
    | (p, true) =>
      if sizeofInfoHeader ≤ p.getSize ∧ p.getSize ≤ packetSize then some (b.push (some p)).1
      else none
  | .pop ioSize_ => some (b.pop ioSize_).1

/-- The ring has an entry for `WSASend`, and a post from it is neither empty nor does it look
like no post. -/
def MakesProgress (b : SendBuffer) : Prop :=
  (∀ bufcnt_, 1 ≤ bufcnt_ → 1 ≤ (b.getWSABUF bufcnt_).length) ∧
  ∀ (c : Connection) (post : Bool), c.sendBuffer = b →
    (c.sendTCPIO post).2.2 ≠ some [] ∧ (c.sendTCPIO post).1.sendLen ≠ 0

/-- What is left of the first packet fits a segment. -/
def HeadFits (b : SendBuffer) : Prop := ∀ p ∈ b.headCell, p.getSize ≤ maxTcpSegmentSize

/-- The packet pushed fits a segment. -/
def PushFits : RingAct → Prop
  | .push q infoCode_ reqNo_ payload =>
    (q.init infoCode_ reqNo_ payload).1.getSize ≤ maxTcpSegmentSize
  | .pop _ => True

/-- The ring holds packets of a kind. -/
def Filled (P : PacketData → Prop) (b : SendBuffer) : Prop := ∃ q, b.Holds q ∧ ∀ p ∈ q, P p

variable {b b' : SendBuffer} {a : RingAct} {P : PacketData → Prop}

theorem filled_allocated {n : Nat} (hn : 0 < n) : (allocated n).Filled P :=
  ⟨[], holds_allocated hn, nofun⟩

/-- What a step pushes is of the kind, and what is left of a packet stays of it. -/
theorem Filled.ringStep (hb : b.Filled P) (hpop : ∀ p n, P p → n < p.size → P (p.pop n))
    (hpush : ∀ q c r payload, a = .push q c r payload →
      sizeofInfoHeader ≤ (q.init c r payload).1.getSize → P (q.init c r payload).1)
    (h : b.ringStep a = some b') : b'.Filled P := by
  obtain ⟨q, hq, hP⟩ := hb
  cases a with
  | push p₀ c r payload =>
    have hinit := hpush p₀ c r payload rfl
    simp only [SendBuffer.ringStep] at h
    split at h
    · cases h
    next p hp =>
      split at h
      · next hsize =>
        obtain rfl := Option.some.inj h
        rw [hp] at hinit
        cases hfull : b.isFull with
        | true =>
          rw [push_full b (some p) hfull]
          exact ⟨q, hq, hP⟩
        | false =>
          refine ⟨q ++ [p], hq.push p hfull, fun x hx => ?_⟩
          rcases List.mem_append.mp hx with hx | hx
          · exact hP x hx
          · obtain rfl := List.mem_singleton.mp hx
            exact hinit hsize.1
      · cases h
  | pop n =>
    obtain rfl := Option.some.inj h
    exact ⟨_, (pop_spec hq n).1, dropBytes_forall hpop n hP⟩

/-- The packets of the ring are never empty. -/
theorem step_filled (hb : b.Filled fun p => 0 < p.size) (h : b.ringStep a = some b') :
    b'.Filled fun p => 0 < p.size := by
  refine hb.ringStep (fun p n hp hn => ?_) (fun q c r payload _ hsize => ?_) h
  · rw [PacketData.size_pop hn]
    exact Nat.sub_pos_of_lt hn
  · exact Nat.lt_of_lt_of_le (by decide) hsize

/-- Packets that fit a segment do so when a part of them is sent. -/
theorem step_fits (hb : b.Filled fun p => p.size ≤ maxTcpSegmentSize) (hc : PushFits a)
    (h : b.ringStep a = some b') : b'.Filled fun p => p.size ≤ maxTcpSegmentSize := by
  refine hb.ringStep (fun p n hp hn => ?_) (fun q c r payload ha _ => ?_) h
  · rw [PacketData.size_pop hn]
    exact Nat.le_trans (Nat.sub_le _ _) hp
  · rw [ha] at hc
    exact hc

/-- A first packet that is too long keeps every gather list empty. -/
theorem gather_oversized {p : PacketData} {q : List PacketData} (hp : maxTcpSegmentSize < p.size)
    (bufcnt_ : Nat) : gather bufcnt_ 0 0 (p :: q) = [] := by
  rw [gather, if_pos]
  right
  rw [PacketData.getSize, Nat.zero_add]
  exact hp

/-- A ring with packets makes progress just if its first packet fits. -/
theorem Filled.headFits_iff (hb : b.Filled fun p => 0 < p.size) (hne : b.isEmpty = false) :
    b.MakesProgress ↔ b.HeadFits := by
  obtain ⟨q, hq, hsize⟩ := hb
  cases q with
  | nil => rw [hq.isEmpty_iff.mpr rfl] at hne; cases hne
  | cons p q =>
    have hgather : ∀ k, 1 ≤ k → b.getWSABUF k = gather k 0 0 (p :: q) := fun k hk =>
      getWSABUF_spec hq (Nat.ne_of_gt hk)
    simp only [HeadFits, hq.headCell_cons, Option.mem_some_iff, forall_eq']
    constructor
    · intro h
      -- the list of one entry is already empty if the packet is too long
      have hone := h.1 1 (Nat.le_refl 1)
      by_contra hlong
      rw [hgather 1 (Nat.le_refl 1), gather_oversized (Nat.lt_of_not_ge hlong)] at hone
      exact absurd hone (by decide)
    · intro hfits
      refine ⟨fun k hk => ?_, fun c post hc => ?_⟩
      · rw [hgather k hk, gather_cons hfits (Nat.ne_of_gt hk)]
        exact Nat.succ_le_succ (Nat.zero_le _)
      · have hpost : c.sendBuffer.getWSABUF maxWsabufs =
            { len := p.size, buf := p } :: gather maxWsabufs 1 p.size q := by
          rw [hc, hgather maxWsabufs (by decide), gather_cons hfits (by decide)]
        simp only [Connection.sendTCPIO, Connection.sendLen, hpost]
        exact ⟨by simp, Nat.ne_of_gt (hsize p List.mem_cons_self)⟩

/-- After any pushes and pops a ring with packets makes progress if and only if what is left of
the first one fits a segment; and it does all the time if all packets pushed fit. -/
theorem makesProgress_iff {n : Nat} (hn : 0 < n) {acts : List RingAct}
    (hr : run ringStep (allocated n) acts = some b) :
    (b.isEmpty = false → (b.MakesProgress ↔ b.HeadFits)) ∧
    ((∀ a ∈ acts, PushFits a) →
      Always ringStep (fun b => b.isEmpty = false → b.MakesProgress) (allocated n) acts) := by
  have hfilled := run_stable (I := Filled fun p => 0 < p.size)
    (fun b a b' hb hs => step_filled hb hs) (filled_allocated hn) hr
  refine ⟨hfilled.headFits_iff, fun hfits => ?_⟩
  refine always_of_meets (C := fun _ => PushFits)
    (I := fun b => (b.Filled fun p => 0 < p.size) ∧ b.Filled fun p => p.size ≤ maxTcpSegmentSize)
    (fun b h hne => (h.1.headFits_iff hne).mpr ?_)
    (fun b a b' h hc hs => ⟨step_filled h.1 hs, step_fits h.2 hc hs⟩)
    ⟨filled_allocated hn, filled_allocated hn⟩ (meets_of_forall_mem fun a ha _ => hfits a ha)
  obtain ⟨q, hq, hshort⟩ := h.2
  intro p hp
  cases q with
  | nil => rw [hq.headCell_nil] at hp; cases hp
  | cons x q =>
    rw [hq.headCell_cons, Option.mem_some_iff] at hp
    exact hp ▸ hshort x List.mem_cons_self

/-- A packet with a payload of `n` bytes is pushed. -/
def pushPayload (n : Nat) : RingAct :=
  .push (.alloc 0 packetSize) .REQ_SUCCESS 7 (List.replicate n 0)

/-- Two packets that fit a segment, the first of them sent in part. -/
def partlySent : List RingAct := [pushPayload 84, pushPayload 1448, .pop 40]

theorem partlySent_goes_on :
    ∃ b, run ringStep (allocated 4) partlySent = some b ∧ b.isEmpty = false ∧ b.MakesProgress := by
  have hsome : (run ringStep (allocated 4) partlySent).map isEmpty = some false := by decide +kernel
  obtain ⟨b, hr, hne⟩ := Option.map_eq_some_iff.mp hsome
  refine ⟨b, hr, hne, always_last ((makesProgress_iff (by decide) hr).2 ?_) hr hne⟩
  intro a ha
  simp only [partlySent, List.mem_cons, List.not_mem_nil, or_false] at ha
  rcases ha with rfl | rfl | rfl
  · exact show _ ≤ maxTcpSegmentSize by decide +kernel
  · exact show _ ≤ maxTcpSegmentSize by decide +kernel
  · trivial

/-- A packet of 1461 bytes, which `Init` accepts, is in the ring and cannot be posted. -/
theorem oversized_stuck :
    (run ringStep (allocated 4) [pushPayload 1449]).map
        (fun b => (b.isEmpty, (b.getWSABUF maxWsabufs).length)) = some (false, 0) ∧
      ∀ b ∈ run ringStep (allocated 4) [pushPayload 1449], ¬ b.MakesProgress := by
  have hrun : (run ringStep (allocated 4) [pushPayload 1449]).map
      (fun b => (b.isEmpty, (b.getWSABUF maxWsabufs).length)) = some (false, 0) := by decide +kernel
  refine ⟨hrun, fun b hb h => ?_⟩
  rw [Option.mem_def.mp hb] at hrun
  have hlen : (b.getWSABUF maxWsabufs).length = 0 := (Prod.mk.inj (Option.some.inj hrun)).2
  have := h.1 maxWsabufs (by decide)
  omega

end SendBuffer

end RacingGameServer
