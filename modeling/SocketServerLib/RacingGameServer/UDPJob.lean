import SocketServerLib.RacingGameServer.ReqMessage
import SocketServerLib.RacingGameServer.UDPSends

/-
  `JobFactory::CreateUDPJob`: the job of a datagram, and its block of the memory pool.

  `m_pool` is a pool like that of the send contexts; `fresh` is what `::operator new` gives
  where it is empty, and `wild` what an index outside `createFuncs` yields. A job comes with
  the block it lies in.

  What is proved:
    1. `createUDPJob_echo` — the job of an `ECHO` or `UDPECHO` datagram.
    2. `createUDPJob_restores` — a null pointer leaves no block behind.
    3. `only_arrived_iff` — only payloads that have arrived are accepted, if and only if the
       datagram is not cut off inside header, length or payload.
    4. `cut_off_accepted` — a datagram of twelve bytes.

  What is assumed: nothing of what lies outside `createFuncs`, and of what `::operator new` gives.
-/
namespace RacingGameServer

open ByteRange

/-- `sizeof(UDPHeader)`: two 32-bit fields and the token. -/
def sizeofUDPHeader : Nat := 16

/-- `sizeof(UDPReqMessage)`: the header, `payloadSize` and the payload array. -/
def sizeofUDPReqMessage : Nat := sizeofUDPHeader + 4 + maxPayloadSize

/-- The zero-filled `UDPReqMessage` that a datagram is copied to. -/
def udpReqMessage (sv_ : Bytes) : Bytes :=
  sv_ ++ List.replicate (sizeofUDPReqMessage - sv_.length) 0

/-- `reqMsg.payloadSize`: bytes of it that have not arrived are zero. -/
def declaredSize (sv_ : Bytes) : Nat := readU32 (udpReqMessage sv_) sizeofUDPHeader

/-- The view of the payload; a size that runs out of the struct is more than any parameter
takes. -/
def declaredPayload (sv_ : Bytes) : Bytes :=
  slice (udpReqMessage sv_) (sizeofUDPHeader + 4) (declaredSize sv_)

def createUDPJob (m_pool : Pool) (fresh : Option Nat) (wild : Option JobKind) (uUserIndex_ : Nat)
    (sv_ : Bytes) : Pool × Option (Nat × Job) :=
  if sv_.length < headerSize then (m_pool, none)
  else if sv_.length > sizeofReqMessage then (m_pool, none)
  else
    let reqType := toInt32 (readU32 (udpReqMessage sv_) 4)
    if reqType > reqTypeLast then (m_pool, none)
    else match createFuncs wild reqType with
      | none => (m_pool, none)
      | some k =>
        match m_pool.allocate fresh with
        | (pool, none) => (pool, none)
        | (pool, some block) =>
          match k.new.parse (declaredPayload sv_) with
          | (_, false) => (pool.deallocate block, none)
          | (j, true) => (pool, some (block, { j with clientIndex := uUserIndex_ }))

/-- The type of a request that is echoed. -/
def IsEcho (sv_ : Bytes) : Prop :=
  toInt32 (readU32 (udpReqMessage sv_) 4) = 0 ∨ toInt32 (readU32 (udpReqMessage sv_) 4) = 2

/-- Every block that was free is free, and so is one that has been made. -/
def Restored (fresh : Option Nat) (pool pool' : Pool) : Prop :=
  ∃ made, (made = [] ∨ ∃ a ∈ fresh, made = [a]) ∧ pool'.live = made ++ pool.live ∧
    pool'.free.Perm (made ++ pool.free)

/-- The datagram holds header, length and payload, and the payload is no longer than a parameter. -/
def Arrived (sv_ : Bytes) : Prop :=
  sizeofUDPHeader + 4 ≤ sv_.length ∧
    sizeofUDPHeader + 4 + readU32 sv_ sizeofUDPHeader ≤ sv_.length ∧
    readU32 sv_ sizeofUDPHeader ≤ sizeofEchoParameter

/-- A job has a payload that has arrived, and no job leaves no block behind. -/
def OnlyArrived (m_pool : Pool) (fresh : Option Nat) (wild : Option JobKind) (uUserIndex_ : Nat)
    (sv_ : Bytes) : Prop :=
  (∀ block j, (createUDPJob m_pool fresh wild uUserIndex_ sv_).2 = some (block, j) →
    Arrived sv_ ∧ j.param =
      slice sv_ (sizeofUDPHeader + 4) (readU32 sv_ sizeofUDPHeader) ++
        List.replicate (sizeofEchoParameter - readU32 sv_ sizeofUDPHeader) 0) ∧
  ((createUDPJob m_pool fresh wild uUserIndex_ sv_).2 = none →
    Restored fresh m_pool (createUDPJob m_pool fresh wild uUserIndex_ sv_).1)

/-- A datagram that ends before its payload does, and is long enough for `CreateUDPJob`; the
bytes of the length that are missing count as zeros. -/
def CutOff (sv_ : Bytes) : Prop :=
  headerSize ≤ sv_.length ∧ sv_.length ≤ sizeofReqMessage ∧
    declaredSize sv_ ≤ sizeofEchoParameter ∧ sv_.length < sizeofUDPHeader + 4 + declaredSize sv_

instance (sv_ : Bytes) : Decidable (CutOff sv_) := inferInstanceAs (Decidable (_ ∧ _ ∧ _ ∧ _))

variable {pool : Pool} {fresh : Option Nat} {wild : Option JobKind} {i : Nat} {sv : Bytes}

theorem createUDPJob_refused (h : sv.length < headerSize ∨ sizeofReqMessage < sv.length) :
    createUDPJob pool fresh wild i sv = (pool, none) := by
  have hmin : headerSize = 12 := rfl
  have hmax : sizeofReqMessage = 8196 := rfl
  unfold createUDPJob
  rcases h with h | h
  · rw [if_pos h]
  · rw [if_neg (by omega), if_pos h]

theorem length_udpReqMessage (h : sv.length ≤ sizeofReqMessage) :
    (udpReqMessage sv).length = sizeofUDPReqMessage := by
  have hmax : sizeofReqMessage = 8196 := rfl
  have hsize : sizeofUDPReqMessage = 8200 := rfl
  rw [udpReqMessage, List.length_append, List.length_replicate]
  omega

/-- A parameter's worth of payload is in the struct. -/
theorem length_declaredPayload (h : sv.length ≤ sizeofReqMessage)
    (hsize : declaredSize sv ≤ sizeofEchoParameter) :
    (declaredPayload sv).length = declaredSize sv := by
  refine length_slice ?_
  rw [length_udpReqMessage h]
  have : sizeofUDPReqMessage = 8200 := rfl
  have : sizeofUDPHeader = 16 := rfl
  have : sizeofEchoParameter = 84 := rfl
  omega

theorem lt_length_declaredPayload (h : sv.length ≤ sizeofReqMessage)
    (hsize : sizeofEchoParameter < declaredSize sv) :
    sizeofEchoParameter < (declaredPayload sv).length := by
  have hlen := length_udpReqMessage h
  have : sizeofUDPReqMessage = 8200 := rfl
  have : sizeofUDPHeader = 16 := rfl
  have : sizeofEchoParameter = 84 := rfl
  rw [declaredPayload, slice, List.length_take, List.length_drop, hlen]
  omega

/-- The job of an `ECHO` or `UDPECHO` datagram: none if there is no block or the length says
that the payload is too long. -/
theorem createUDPJob_echo (pool : Pool) (fresh : Option Nat) (wild : Option JobKind) (i : Nat)
    (hmin : headerSize ≤ sv.length) (hmax : sv.length ≤ sizeofReqMessage) (hecho : IsEcho sv) :
    ∃ k : JobKind, k ≠ .ReqTokenJob ∧
      createUDPJob pool fresh wild i sv =
        match pool.allocate fresh with
        | (pool, none) => (pool, none)
        | (pool, some block) =>
          if sizeofEchoParameter < declaredSize sv then (pool.deallocate block, none)
          else
            (pool, some (block,
              { k.new with
                clientIndex := i
                param := declaredPayload sv ++
                  List.replicate (sizeofEchoParameter - declaredSize sv) 0 })) := by
  have hfunc : ∃ k : JobKind, k ≠ .ReqTokenJob ∧
      ¬ toInt32 (readU32 (udpReqMessage sv) 4) > reqTypeLast ∧
      createFuncs wild (toInt32 (readU32 (udpReqMessage sv) 4)) = some k := by
    rcases hecho with h | h
    · exact ⟨.EchoJob, by decide, by rw [h]; decide, by rw [h]; rfl⟩
    · exact ⟨.UDPEchoJob, by decide, by rw [h]; decide, by rw [h]; rfl⟩
  obtain ⟨k, hk, htype, hfunc⟩ := hfunc
  refine ⟨k, hk, ?_⟩
  simp only [createUDPJob, if_neg (Nat.not_lt.mpr hmin), if_neg (Nat.not_lt.mpr hmax), if_neg htype,
    hfunc, JobKind.parse_param hk]
  split
  · rfl
  · by_cases hsize : sizeofEchoParameter < declaredSize sv
    · simp only [if_pos hsize, if_pos (show (declaredPayload sv).length > sizeofEchoParameter from
        lt_length_declaredPayload hmax hsize)]
    · have hlen := length_declaredPayload hmax (Nat.le_of_not_lt hsize)
      simp only [if_neg hsize, hlen]

/-- A job of the kind, with what the datagram brings for it. -/
def paramOf (sv_ : Bytes) (k : JobKind) : Option (JobKind × Bytes) :=
  match k.new.parse (declaredPayload sv_) with
  | (_, false) => none
  | (j, true) => some (j.kind, j.param)

/-- What kind of job a datagram asks for, and with which parameter, if there is a block for it. -/
def jobOf (wild : Option JobKind) (sv_ : Bytes) : Option (JobKind × Bytes) :=
  if sv_.length < headerSize ∨ sv_.length > sizeofReqMessage ∨
      toInt32 (readU32 (udpReqMessage sv_) 4) > reqTypeLast then none
  else
    (createFuncs wild (toInt32 (readU32 (udpReqMessage sv_) 4))).bind (paramOf sv_)

/-- That is the job `CreateUDPJob` returns. -/
theorem createUDPJob_jobOf (pool : Pool) (fresh : Option Nat) (wild : Option JobKind) (i : Nat)
    (sv : Bytes) :
    ((createUDPJob pool fresh wild i sv).2.map fun x => (x.2.kind, x.2.param)) =
      if (pool.allocate fresh).2.isSome then jobOf wild sv else none := by
  simp only [createUDPJob, jobOf]
  by_cases hmin : sv.length < headerSize
  · simp only [if_pos hmin, if_pos (Or.inl hmin), Option.map_none, ite_self]
  by_cases hmax : sv.length > sizeofReqMessage
  · simp only [if_neg hmin, if_pos hmax, if_pos (Or.inr (Or.inl hmax)), Option.map_none, ite_self]
  by_cases htype : toInt32 (readU32 (udpReqMessage sv) 4) > reqTypeLast
  · simp only [if_neg hmin, if_neg hmax, if_pos htype, if_pos (Or.inr (Or.inr htype)),
      Option.map_none, ite_self]
  have hno : ¬ (sv.length < headerSize ∨ sv.length > sizeofReqMessage ∨
      toInt32 (readU32 (udpReqMessage sv) 4) > reqTypeLast) :=
    not_or.mpr ⟨hmin, not_or.mpr ⟨hmax, htype⟩⟩
  simp only [if_neg hmin, if_neg hmax, if_neg htype, if_neg hno]
  cases createFuncs wild (toInt32 (readU32 (udpReqMessage sv) 4)) with
  | none => simp only [Option.map_none, Option.bind_none, ite_self]
  | some k =>
    simp only [Option.bind_some, paramOf]
    rcases pool.allocate fresh with ⟨pool', _ | block⟩
    · rfl
    · rcases k.new.parse (declaredPayload sv) with ⟨j, _ | _⟩
      · rfl
      · rfl

/-! ## The block of a job -/

theorem restored_refl (fresh : Option Nat) (pool : Pool) : Restored fresh pool pool :=
  ⟨[], .inl rfl, rfl, List.Perm.refl _⟩

theorem allocate_none {pool' : Pool} (h : pool.allocate fresh = (pool', none)) : pool' = pool := by
  unfold Pool.allocate at h
  split at h
  · cases h
  · exact (Prod.mk.inj h).1.symm
  · cases h

/-- A block taken and given back. -/
theorem restored_deallocate {pool' : Pool} {block : Nat}
    (h : pool.allocate fresh = (pool', some block)) :
    Restored fresh pool (pool'.deallocate block) := by
  unfold Pool.allocate at h
  split at h
  · next a as hfree =>
    obtain ⟨rfl, hblock⟩ := Prod.mk.inj h
    obtain rfl := Option.some.inj hblock
    refine ⟨[], .inl rfl, rfl, ?_⟩
    rw [hfree]
    exact @List.perm_append_comm _ as [a]
  · cases h
  · next a hfree =>
    obtain ⟨rfl, hblock⟩ := Prod.mk.inj h
    obtain rfl := Option.some.inj hblock
    refine ⟨[a], .inr ⟨a, rfl, rfl⟩, rfl, ?_⟩
    simp only [Pool.deallocate, hfree]
    exact List.Perm.refl _

/-- A null pointer leaves no block behind. -/
theorem createUDPJob_restores (h : (createUDPJob pool fresh wild i sv).2 = none) :
    Restored fresh pool (createUDPJob pool fresh wild i sv).1 := by
  simp only [createUDPJob] at h ⊢
  split
  · exact restored_refl fresh pool
  split
  · exact restored_refl fresh pool
  split
  · exact restored_refl fresh pool
  split
  · exact restored_refl fresh pool
  next hmin hmax htype _ k hk =>
    simp only [if_neg hmin, if_neg hmax, if_neg htype, hk] at h
    split
    · next hnone =>
      rw [allocate_none hnone]
      exact restored_refl fresh pool
    · next pool' block hblock =>
      simp only [hblock] at h
      split
      · exact restored_deallocate hblock
      · next hparse =>
        simp only [hparse] at h
        cases h

/-! ## Which datagrams are decoded right -/

/-- In a datagram that holds the length, it is read where it stands. -/
theorem declaredSize_eq (h : sizeofUDPHeader + 4 ≤ sv.length) :
    declaredSize sv = readU32 sv sizeofUDPHeader := readU32_append h _

/-- And in one that holds the payload, so is the payload. -/
theorem declaredPayload_eq (h : sizeofUDPHeader + 4 + declaredSize sv ≤ sv.length) :
    declaredPayload sv = slice sv (sizeofUDPHeader + 4) (declaredSize sv) :=
  slice_append_left h _

/-- Only payloads that have arrived are accepted, if and only if the datagram is not cut off or
there is no block for the job. -/
theorem only_arrived_iff (hecho : IsEcho sv) :
    OnlyArrived pool fresh wild i sv ↔ ¬ (CutOff sv ∧ (pool.allocate fresh).2.isSome) := by
  constructor
  · intro h hcut
    obtain ⟨⟨hmin, hmax, hsize, hshort⟩, hblock⟩ := hcut
    obtain ⟨k, -, hjob⟩ := createUDPJob_echo pool fresh wild i hmin hmax hecho
    obtain ⟨block, hblock⟩ := Option.isSome_iff_exists.mp hblock
    have hpair : pool.allocate fresh = ((pool.allocate fresh).1, some block) := by rw [← hblock]
    rw [hpair] at hjob
    simp only [if_neg (Nat.not_lt.mpr hsize)] at hjob
    -- the job is there, so the datagram would have to be longer
    obtain ⟨⟨hlen, hpayload, -⟩, -⟩ := h.1 block _ (congrArg Prod.snd hjob)
    rw [declaredSize_eq hlen] at hshort
    omega
  · intro hno
    refine ⟨fun block j hj => ?_, createUDPJob_restores⟩
    by_cases hrange : sv.length < headerSize ∨ sizeofReqMessage < sv.length
    · rw [createUDPJob_refused hrange] at hj
      cases hj
    obtain ⟨hmin, hmax⟩ := not_or.mp hrange
    obtain ⟨k, -, hjob⟩ := createUDPJob_echo pool fresh wild i (Nat.le_of_not_lt hmin)
      (Nat.le_of_not_lt hmax) hecho
    rw [hjob] at hj
    split at hj
    · cases hj
    next pool' block' hblock =>
      split at hj
      · cases hj
      next hsize =>
        have hsize := Nat.le_of_not_lt hsize
        obtain ⟨-, rfl⟩ := Prod.mk.inj (Option.some.inj hj)
        -- with a job the datagram is not cut off, and it is read where it stands
        have hwhole : sizeofUDPHeader + 4 + declaredSize sv ≤ sv.length := by
          refine Nat.le_of_not_lt fun hshort => hno ⟨⟨?_, ?_, hsize, hshort⟩, ?_⟩
          · exact Nat.le_of_not_lt hmin
          · exact Nat.le_of_not_lt hmax
          · rw [hblock]
            rfl
        have hlen : sizeofUDPHeader + 4 ≤ sv.length := Nat.le_trans (Nat.le_add_right _ _) hwhole
        rw [declaredPayload_eq hwhole]
        rw [declaredSize_eq hlen] at hwhole hsize ⊢
        exact ⟨⟨hlen, hwhole, hsize⟩, rfl⟩

/-- A `UDPECHO` datagram with a payload of two bytes. -/
def echoDatagram : Bytes :=
  leEncode 4 22 ++ leEncode 4 2 ++ leEncode 8 77 ++ leEncode 4 2 ++ [5, 6]

theorem echoDatagram_arrived : OnlyArrived (.init 100) none none 3 echoDatagram :=
  (only_arrived_iff (.inr (by decide +kernel))).mpr fun h => absurd h.1 (by decide +kernel)

/-- A datagram that ends inside its header gives a job. -/
theorem cut_off_accepted :
    ((createUDPJob (.init 100) none none 3 (echoDatagram.take 12)).2.map fun x => x.2.param) =
        some (List.replicate sizeofEchoParameter 0) ∧
      ¬ OnlyArrived (.init 100) none none 3 (echoDatagram.take 12) := by
  have hjob : ((createUDPJob (.init 100) none none 3 (echoDatagram.take 12)).2.map fun x =>
      x.2.param) = some (List.replicate sizeofEchoParameter 0) := by
    decide +kernel
  refine ⟨hjob, fun h => ?_⟩
  obtain ⟨⟨block, j⟩, hj, -⟩ := Option.map_eq_some_iff.mp hjob
  obtain ⟨⟨hlen, -, -⟩, -⟩ := h.1 block j hj
  exact absurd hlen (by decide)

end RacingGameServer
