import SocketServerLib.RacingGameServer.UDPAddress
import SocketServerLib.RacingGameServer.UDPJob

/-
  The receive buffer of the UDP socket: the datagrams that `DoUDPRecv` handles one after the
  other, each received into the buffer that `BindUDPRecv` has filled with zeros.

  What one call finds besides the buffer are its `Surroundings`: the token map, the pool of the
  job blocks with what `::operator new` gives, what lies outside `createFuncs`, and whether
  `WSARecvFrom` can be posted again.

  What is proved:
    1. `step_clean` — every datagram is received into zeros.
    2. `step_handled` — what is done with it depends on the datagram and its surroundings.
    3. `no_leak_iff` — two histories that end alike handle the last datagram alike, if and only
       if it does not get to `CreateUDPJob` with a negative type.
    4. `two_histories` — a datagram of type -1 after different histories.

  What is assumed: one datagram is handled at a time, as one `WSARecvFrom` is outstanding.
-/
namespace RacingGameServer

open ByteRange LabelledRun

def maxUDPDatagramSize : Nat := 1400

/-- A datagram as it arrives, and its sender. -/
structure Arrival where
  bytes : Bytes
  clientAddr : SockAddr

structure Surroundings where
  udpTokens : BitVec 64 → Option (BitVec 32)
  pool : Pool
  fresh : Option Nat
  wild : Option JobKind
  rebound : Bool

/-- The connection that is given the address of the sender, and the job that is made. -/
structure DatagramResult where
  route : Option (BitVec 32 × SockAddr)
  job : Option Job

/-- `bound` is whether a `WSARecvFrom` is outstanding, `handled` what was done last. -/
structure UDPReceiver where
  udpRecvBuf : Bytes
  bound : Bool
  handled : Option DatagramResult

namespace UDPReceiver

/-- `ZeroMemory` of the buffer in `BindUDPRecv`. -/
def zeroed (udpRecvBuf : Bytes) : Bytes := copyTo udpRecvBuf 0 (List.replicate maxSockbuf 0)

/-- After `Start`: the constructor and `BindUDPRecv` have cleared the buffer. -/
def init : UDPReceiver :=
  { udpRecvBuf := List.replicate maxSockbuf 0, bound := true, handled := none }

/-- The token of the `UDPHeader` at the front of the buffer. -/
def headerToken (udpRecvBuf : Bytes) : BitVec 64 := .ofNat 64 (leDecode (slice udpRecvBuf 8 8))

/-- `DoUDPRecv` up to `BindUDPRecv`, with `connections` connection objects. -/
def doUDPRecv (connections : BitVec 32) (w : Surroundings) (udpRecvBuf : Bytes)
    (clientAddr : SockAddr) (ioSize_ : Nat) : DatagramResult :=
  let buf := udpRecvBuf.set ioSize_ 0
  match w.udpTokens (headerToken buf) with
  | none => { route := none, job := none }
  | some uClientIndex =>
    if ¬ uClientIndex < connections then { route := none, job := none }
    else
      { route := some (uClientIndex, clientAddr)
        job := (createUDPJob w.pool w.fresh w.wild uClientIndex.toNat
          (buf.take ioSize_)).2.map Prod.snd }

/-- A datagram arrives and is handled. -/
def step (connections : BitVec 32) (s : UDPReceiver) : Arrival × Surroundings → Option UDPReceiver
  | (d, w) =>
    if s.bound = false ∨ d.bytes = [] ∨ maxUDPDatagramSize < d.bytes.length then none
    else
      let received := copyTo s.udpRecvBuf 0 d.bytes
      some
        { udpRecvBuf := zeroed received, bound := w.rebound
          handled := some (doUDPRecv connections w received d.clientAddr d.bytes.length) }

/-- A buffer of zeros. -/
def Clean (s : UDPReceiver) : Prop := s.udpRecvBuf = List.replicate maxSockbuf 0

/-- Two calls have chosen the same client, and where both found a block or both found none they
have made the same job. -/
def Agree (w w' : Surroundings) (x x' : DatagramResult) : Prop :=
  x.route = x'.route ∧
    ((w.pool.allocate w.fresh).2.isSome = (w'.pool.allocate w'.fresh).2.isSome →
      x.job.map (fun j => (j.kind, j.param)) = x'.job.map (fun j => (j.kind, j.param)))

theorem clean_init : init.Clean := rfl

variable {connections : BitVec 32} {s s' : UDPReceiver} {d : Arrival} {w : Surroundings}

theorem step_eq (h : step connections s (d, w) = some s') :
    d.bytes ≠ [] ∧ d.bytes.length ≤ maxUDPDatagramSize ∧
      s' =
        { udpRecvBuf := zeroed (copyTo s.udpRecvBuf 0 d.bytes), bound := w.rebound
          handled := some (doUDPRecv connections w (copyTo s.udpRecvBuf 0 d.bytes) d.clientAddr
            d.bytes.length) } := by
  simp only [step] at h
  split at h
  · cases h
  · next hno =>
    obtain ⟨-, hno⟩ := not_or.mp hno
    obtain ⟨hne, hle⟩ := not_or.mp hno
    exact ⟨hne, Nat.le_of_not_lt hle, (Option.some.inj h).symm⟩

/-- Every datagram is received into zeros. -/
theorem step_clean (hs : s.Clean) (h : step connections s (d, w) = some s') : s'.Clean := by
  obtain ⟨-, hle, rfl⟩ := step_eq h
  have hmax : maxUDPDatagramSize = 1400 := rfl
  have hbuf : maxSockbuf = 4096 := rfl
  have hlen : (copyTo s.udpRecvBuf 0 d.bytes).length = maxSockbuf := by
    rw [hs, length_copyTo, List.length_replicate]
    rw [List.length_replicate]
    omega
  simp only [Clean, zeroed]
  rw [copyTo, List.take_zero, List.nil_append, List.drop_eq_nil_of_le, List.append_nil]
  rw [hlen, List.length_replicate]
  omega

/-- The message in the buffer: the datagram, with zeros behind it. -/
def inBuffer (d : Arrival) : Bytes :=
  copyTo (List.replicate maxSockbuf 0) 0 d.bytes

theorem inBuffer_eq (d : Arrival) :
    inBuffer d = d.bytes ++ List.replicate (maxSockbuf - d.bytes.length) 0 := by
  rw [inBuffer, copyTo, List.take_zero, List.nil_append, List.drop_replicate, Nat.zero_add]

/-- The terminating zero changes nothing. -/
theorem inBuffer_set (d : Arrival) : (inBuffer d).set d.bytes.length 0 = inBuffer d := by
  rw [inBuffer_eq, List.set_append_right _ _ (Nat.le_refl _), Nat.sub_self]
  congr 1
  cases hn : maxSockbuf - d.bytes.length with
  | zero => rfl
  | succ n => rfl

/-- What is done with a datagram received into zeros. -/
def result (connections : BitVec 32) (w : Surroundings) (d : Arrival) : DatagramResult :=
  match w.udpTokens (headerToken (inBuffer d)) with
  | none => { route := none, job := none }
  | some uClientIndex =>
    if ¬ uClientIndex < connections then { route := none, job := none }
    else
      { route := some (uClientIndex, d.clientAddr)
        job :=
          (createUDPJob w.pool w.fresh w.wild uClientIndex.toNat d.bytes).2.map Prod.snd }

/-- What is done with a datagram depends on it and on its surroundings. -/
theorem step_handled (hs : s.Clean) (h : step connections s (d, w) = some s') :
    s'.handled = some (result connections w d) := by
  obtain ⟨-, -, rfl⟩ := step_eq h
  have hbuf : copyTo s.udpRecvBuf 0 d.bytes = inBuffer d := by rw [hs, inBuffer]
  have htake : (inBuffer d).take d.bytes.length = d.bytes := by
    rw [inBuffer_eq, List.take_left]
  simp only [doUDPRecv, result, hbuf, inBuffer_set, htake]

/-- So it is at the end of every history. -/
theorem run_handled {ds : List (Arrival × Surroundings)}
    (h : run (step connections) init (ds ++ [(d, w)]) = some s) :
    s.handled = some (result connections w d) := by
  rw [run_append, Option.bind_eq_some_iff] at h
  obtain ⟨s₀, hds, hlast⟩ := h
  obtain ⟨s₁, hstep, hend⟩ := run_cons_eq_some.mp hlast
  obtain rfl : s₁ = s := Option.some.inj hend
  have hclean : s₀.Clean :=
    run_stable (I := Clean) (fun s a s' hs h => step_clean (d := a.1) (w := a.2) hs h)
      clean_init hds
  exact step_handled hclean hstep

/-! ## Two histories -/

/-- Any two histories that end with the datagram, under the same token map, handle it alike. -/
def NoLeak (connections : BitVec 32) (udpTokens : BitVec 64 → Option (BitVec 32)) (d : Arrival) :
    Prop :=
  ∀ (ds ds' : List (Arrival × Surroundings)) (w w' : Surroundings) (s s' : UDPReceiver),
    w.udpTokens = udpTokens → w'.udpTokens = udpTokens →
    run (step connections) init (ds ++ [(d, w)]) = some s →
    run (step connections) init (ds' ++ [(d, w')]) = some s' →
    ∃ x ∈ s.handled, ∃ x' ∈ s'.handled, Agree w w' x x'

/-- The datagram gets to `CreateUDPJob` with a type below the table. -/
def LeadsOutside (connections : BitVec 32) (udpTokens : BitVec 64 → Option (BitVec 32))
    (d : Arrival) : Prop :=
  (∃ i ∈ udpTokens (headerToken (inBuffer d)), i < connections) ∧
    headerSize ≤ d.bytes.length ∧ toInt32 (readU32 d.bytes 4) < 0

theorem jobOf_type (wild : Option JobKind) {sv : Bytes} (hmin : headerSize ≤ sv.length)
    (hmax : sv.length ≤ sizeofReqMessage) (htype : toInt32 (readU32 sv 4) < 0) :
    jobOf wild sv = wild.bind (paramOf sv) := by
  have hheader : headerSize = 12 := rfl
  have hread : readU32 (udpReqMessage sv) 4 = readU32 sv 4 := readU32_append (by omega) _
  have hlast : reqTypeLast = 2 := rfl
  rw [jobOf, hread, if_neg (by omega), createFuncs, if_pos htype]

/-- Where the type is in the table, what lies outside does not matter. -/
theorem jobOf_wild (wild wild' : Option JobKind) {sv : Bytes}
    (h : ¬ (headerSize ≤ sv.length ∧ toInt32 (readU32 sv 4) < 0)) :
    jobOf wild sv = jobOf wild' sv := by
  unfold jobOf
  split
  · rfl
  · next hno =>
    have hheader : headerSize = 12 := rfl
    have hmin : headerSize ≤ sv.length := Nat.le_of_not_lt (not_or.mp hno).1
    have hread : readU32 (udpReqMessage sv) 4 = readU32 sv 4 := readU32_append (by omega) _
    have htype : ¬ toInt32 (readU32 sv 4) < 0 := fun hneg => h ⟨hmin, hneg⟩
    simp only [hread, createFuncs, if_neg htype]

theorem result_job (w : Surroundings) (d : Arrival) :
    (result connections w d).job.map (fun j => (j.kind, j.param)) =
      match w.udpTokens (headerToken (inBuffer d)) with
      | none => none
      | some i =>
        if i < connections ∧ (w.pool.allocate w.fresh).2.isSome then jobOf w.wild d.bytes
        else none := by
  unfold result
  split
  · rfl
  · next i _ =>
    by_cases hi : i < connections
    · have hjob := createUDPJob_jobOf w.pool w.fresh w.wild i.toNat d.bytes
      simp only [hi, true_and]
      rw [if_neg (not_not_intro trivial), Option.map_map]
      exact hjob
    · simp only [hi, not_false_eq_true, if_true, false_and, if_false]
      rfl

/-- The pool has a block, and `wild` lies outside `createFuncs`. -/
def around (udpTokens : BitVec 64 → Option (BitVec 32)) (wild : Option JobKind) : Surroundings :=
  { udpTokens := udpTokens, pool := .init 1, fresh := none, wild := wild, rebound := true }

/-- Two histories that end alike handle the last datagram alike, if and only if it does not get
to `CreateUDPJob` with a negative type. -/
theorem no_leak_iff (connections : BitVec 32) (udpTokens : BitVec 64 → Option (BitVec 32))
    (hne : d.bytes ≠ []) (hle : d.bytes.length ≤ maxUDPDatagramSize) :
    NoLeak connections udpTokens d ↔ ¬ LeadsOutside connections udpTokens d := by
  have hbound : maxUDPDatagramSize = 1400 := rfl
  have hmessage : sizeofReqMessage = 8196 := rfl
  constructor
  · intro h hout
    obtain ⟨⟨i, hi, hlt⟩, hmin, htype⟩ := hout
    -- the same datagram twice, with a job to be found outside the table or none
    have hrun : ∀ wild, ∃ s,
        run (step connections) init ([] ++ [(d, around udpTokens wild)]) = some s := by
      intro wild
      have hstep : ¬ (init.bound = false ∨ d.bytes = [] ∨ maxUDPDatagramSize < d.bytes.length) :=
        not_or.mpr ⟨nofun, not_or.mpr ⟨hne, Nat.not_lt.mpr hle⟩⟩
      exact ⟨_, by rw [List.nil_append, run_cons, step, if_neg hstep]; rfl⟩
    obtain ⟨s, hs⟩ := hrun none
    obtain ⟨s', hs'⟩ := hrun (some .ReqTokenJob)
    obtain ⟨x, hx, x', hx', -, hagree⟩ := h [] [] _ _ s s' rfl rfl hs hs'
    rw [run_handled hs, Option.mem_some_iff] at hx
    rw [run_handled hs', Option.mem_some_iff] at hx'
    subst hx hx'
    have hjobs := hagree rfl
    rw [result_job, result_job] at hjobs
    have htokens : ∀ wild, (around udpTokens wild).udpTokens (headerToken (inBuffer d)) = some i :=
      fun _ => Option.mem_def.mp hi
    have hblock : ∀ wild, i < connections ∧
        ((around udpTokens wild).pool.allocate (around udpTokens wild).fresh).2.isSome :=
      fun _ => ⟨hlt, rfl⟩
    have houtside : ∀ wild, jobOf (around udpTokens wild).wild d.bytes =
        wild.bind (paramOf d.bytes) := fun wild => jobOf_type wild hmin (by omega) htype
    simp only [htokens] at hjobs
    rw [if_pos (hblock none), if_pos (hblock _), houtside, houtside] at hjobs
    cases hjobs
  · intro hin ds ds' w w' s s' hw hw' hs hs'
    refine ⟨_, run_handled hs, _, run_handled hs', ?_, fun hblock => ?_⟩
    · simp only [result, hw, hw']
      split
      · rfl
      · simp only [apply_ite DatagramResult.route]
    · rw [result_job, result_job, hw, hw', hblock]
      split
      · rfl
      · next i hi =>
        by_cases hlt : i < connections
        · have hjob : jobOf w.wild d.bytes = jobOf w'.wild d.bytes :=
            jobOf_wild w.wild w'.wild fun hout => hin ⟨⟨i, hi, hlt⟩, hout⟩
          rw [hjob]
        · simp only [hlt, false_and, if_false]

/-- One connection has token 77, and it is the third of a hundred. -/
def oneToken (token : BitVec 64) : Option (BitVec 32) := if token = 77 then some 2 else none

/-- A datagram for that connection, of some type, cut off behind its header. -/
def ofType (reqType : Nat) : Arrival :=
  { bytes := leEncode 4 22 ++ leEncode 4 reqType ++ leEncode 8 77
    clientAddr := { sin_addr := 0x7F000001, sin_port := 9000 } }

theorem ofType_echo : NoLeak 100 oneToken (ofType 2) := by
  refine (no_leak_iff 100 oneToken (by decide) (by decide)).mpr fun h => ?_
  exact absurd h.2.2 (by decide)

/-- With a type of -1, the datagram is a job after one history and none after the other. -/
theorem two_histories :
    ((run (step 100) init ([(ofType 2, around oneToken none)] ++
        [(ofType (2 ^ 32 - 1), around oneToken (some .ReqTokenJob))])).bind UDPReceiver.handled).map
          (fun x => x.job.map Job.kind) = some (some .ReqTokenJob) ∧
      ((run (step 100) init ([] ++ [(ofType (2 ^ 32 - 1), around oneToken none)])).bind
        UDPReceiver.handled).map (fun x => x.job.map Job.kind) = some none ∧
      ¬ NoLeak 100 oneToken (ofType (2 ^ 32 - 1)) := by
  have hone : ((run (step 100) init ([(ofType 2, around oneToken none)] ++
      [(ofType (2 ^ 32 - 1), around oneToken (some .ReqTokenJob))])).bind UDPReceiver.handled).map
        (fun x => x.job.map Job.kind) = some (some .ReqTokenJob) := by
    decide +kernel
  have htwo : ((run (step 100) init ([] ++ [(ofType (2 ^ 32 - 1), around oneToken none)])).bind
      UDPReceiver.handled).map (fun x => x.job.map Job.kind) = some none := by
    decide +kernel
  refine ⟨hone, htwo, fun h => ?_⟩
  obtain ⟨x, hx, hkind⟩ := Option.map_eq_some_iff.mp hone
  obtain ⟨s, hs, hsx⟩ := Option.bind_eq_some_iff.mp hx
  obtain ⟨x', hx', hkind'⟩ := Option.map_eq_some_iff.mp htwo
  obtain ⟨s', hs', hsx'⟩ := Option.bind_eq_some_iff.mp hx'
  obtain ⟨y, hy, y', hy', -, hagree⟩ := h _ _ _ _ s s' rfl rfl hs hs'
  rw [hsx, Option.mem_some_iff] at hy
  rw [hsx', Option.mem_some_iff] at hy'
  subst hy hy'
  have hjobs := congrArg (Option.map Prod.fst) (hagree rfl)
  rw [Option.map_map, Option.map_map] at hjobs
  have hsame : x.job.map Job.kind = x'.job.map Job.kind := hjobs
  rw [hkind, hkind'] at hsame
  cases hsame

end UDPReceiver

end RacingGameServer
