import SocketServerLib.IOCPServer.Job
import SocketServerLib.LinuxServer.Job
import SocketServerLib.RacingGameServer.UDPJob
import SocketServerLib.SelectServer.JobFactory

/-
  The tables of the job factories, `createFuncs`, and the index a message makes them be
  accessed with: `reqType`, as signed 32-bit field of its header, behind the checks that
  each of the factories makes.

  What is proved:
    1. `createJob_index`, `createUDPJob_index`, `iocp_index`, `select_index`, `linux_index` —
       each factory accesses its table at that index, if at all.
    2. `index_in_table_iff` — the index lies in the table if and only if the type is not
       negative and, where no upper bound is checked, not past the last one.
    3. `negative_type` — a type of -1 in all five.

  What is assumed: the fields of a message are little-endian.
-/
namespace CreateFuncs
open RacingGameServer (Bytes JobKind Job Answers Pool createFuncs createUDPJob declaredPayload
  headerSize jobFrom readU32 readU32_append reqTypeLast sizeofReqMessage toInt32
  udpReqMessage)

inductive Factory where
  | createJob | createUDPJob | IOCP | SelectAPI | LinuxBlockingSocket
  deriving DecidableEq, Repr

/-- `ReqType::LAST` of the factory's server. -/
def Factory.last : Factory → Int
  | createJob | createUDPJob => reqTypeLast
  | IOCP | SelectAPI | LinuxBlockingSocket => 0

/-- `createFuncs.size()`. -/
def Factory.size (f : Factory) : Int := f.last + 1

/-- The factories of the server for TCP and UDP compare the type with `ReqType::LAST`. -/
def Factory.ChecksLast (f : Factory) : Prop := f = .createJob ∨ f = .createUDPJob

instance : DecidablePred Factory.ChecksLast := fun _ => inferInstanceAs (Decidable (_ ∨ _))

/-- The index `createFuncs` is accessed with for a message, if the checks before let it. -/
def index : Factory → Bytes → Option Int
  | .createJob, sv =>
    if sv.length < headerSize then none
    else if sv.length > sizeofReqMessage then none
    else
      let reqType := toInt32 (readU32 (sv ++ List.replicate (sizeofReqMessage - sv.length) 0) 4)
      if reqType > reqTypeLast then none else some reqType
  | .createUDPJob, sv_ =>
    if sv_.length < headerSize then none
    else if sv_.length > sizeofReqMessage then none
    else
      let reqType := toInt32 (readU32 (udpReqMessage sv_) 4)
      if reqType > reqTypeLast then none else some reqType
  | .IOCP, req_ =>
    if req_.length < IOCPServer.sizeofReqHeader then none else some (toInt32 (readU32 req_ 4))
  | .SelectAPI, sv_ =>
    if sv_.length < SelectServer.sizeofReqHeader then none else some (toInt32 (readU32 sv_ 4))
  | .LinuxBlockingSocket, req_ =>
    if req_.length < LinuxServer.sizeofReqHeader then none else some (toInt32 (readU32 req_ 4))

/-- `i` is the index of an entry. -/
def InTable (f : Factory) (i : Int) : Prop := 0 ≤ i ∧ i < f.size

instance (f : Factory) (i : Int) : Decidable (InTable f i) := inferInstanceAs (Decidable (_ ∧ _))

/-- The message is long enough for a header and fits the struct, where it is copied to one. -/
def Readable (f : Factory) (sv : Bytes) : Prop :=
  headerSize ≤ sv.length ∧ (f.ChecksLast → sv.length ≤ sizeofReqMessage)

instance (f : Factory) (sv : Bytes) : Decidable (Readable f sv) :=
  inferInstanceAs (Decidable (_ ∧ (_ → _)))

/-- A type that is in the table, or at least not below it where the rest is checked. -/
def Dispatchable (f : Factory) (sv : Bytes) : Prop :=
  0 ≤ toInt32 (readU32 sv 4) ∧ (¬ f.ChecksLast → toInt32 (readU32 sv 4) ≤ f.last)

variable {f : Factory}

/-! ## The accesses -/

theorem createJob_index (a : Answers) (i o : Nat) (sv : Bytes) :
    RacingGameServer.createJob a i o sv =
      (index .createJob sv).bind fun reqType =>
        (createFuncs a.wild reqType).bind (jobFrom a i o sv) := by
  simp only [RacingGameServer.createJob, index]
  split
  · rfl
  split
  · rfl
  split
  · rfl
  next =>
    simp only [Option.bind_some]
    cases createFuncs a.wild
      (toInt32 (readU32 (sv ++ List.replicate (sizeofReqMessage - sv.length) 0) 4)) with
    | none => rfl
    | some k => rfl

/-- What `CreateUDPJob` does with the element of `createFuncs`. -/
def udpJobFrom (m_pool : Pool) (fresh : Option Nat) (uUserIndex_ : Nat) (sv_ : Bytes)
    (k : JobKind) : Pool × Option (Nat × Job) :=
  match m_pool.allocate fresh with
  | (pool, none) => (pool, none)
  | (pool, some block) =>
    match k.new.parse (declaredPayload sv_) with
    | (_, false) => (pool.deallocate block, none)
    | (j, true) => (pool, some (block, { j with clientIndex := uUserIndex_ }))

theorem createUDPJob_index (pool : Pool) (fresh : Option Nat) (wild : Option JobKind) (i : Nat)
    (sv : Bytes) :
    createUDPJob pool fresh wild i sv =
      (((index .createUDPJob sv).bind (createFuncs wild)).map
        (udpJobFrom pool fresh i sv)).getD (pool, none) := by
  simp only [createUDPJob, index]
  split
  · rfl
  split
  · rfl
  split
  · rfl
  next =>
    simp only [Option.bind_some]
    cases createFuncs wild (toInt32 (readU32 (udpReqMessage sv) 4)) with
    | none => rfl
    | some k => rfl

theorem inTable_single {i : Int} {f : Factory} (hf : f.last = 0) : InTable f i ↔ i = 0 := by
  rw [InTable, Factory.size, hf]
  omega

theorem iocp_index (userindex_ : Nat) (req_ : Bytes) (allocated : Bool) :
    IOCPServer.createJob userindex_ req_ allocated = none ↔
      ∃ i ∈ index .IOCP req_, ¬ InTable .IOCP i := by
  simp only [IOCPServer.createJob, index, inTable_single (f := .IOCP) rfl]
  split
  · exact iff_of_false nofun (by simp)
  · split
    · next h => exact iff_of_true rfl ⟨_, rfl, h⟩
    · next h =>
      refine iff_of_false ?_ (by simpa using h)
      split <;> nofun

theorem select_index (clientSocket_ : Nat) (sv_ : Bytes) :
    SelectServer.createJob clientSocket_ sv_ = none ↔
      ∃ i ∈ index .SelectAPI sv_, ¬ InTable .SelectAPI i := by
  simp only [SelectServer.createJob, index, inTable_single (f := .SelectAPI) rfl]
  split
  · exact iff_of_false nofun (by simp)
  · split
    · next h => exact iff_of_true rfl ⟨_, rfl, h⟩
    · next h => exact iff_of_false nofun (by simpa using h)

theorem linux_index (userindex_ : Nat) (req_ : Bytes) (allocated : Bool) :
    LinuxServer.createJob userindex_ req_ allocated = none ↔
      ∃ i ∈ index .LinuxBlockingSocket req_, ¬ InTable .LinuxBlockingSocket i := by
  simp only [LinuxServer.createJob, index, inTable_single (f := .LinuxBlockingSocket) rfl]
  split
  · exact iff_of_false nofun (by simp)
  · split
    · next h => exact iff_of_true rfl ⟨_, rfl, h⟩
    · next h =>
      refine iff_of_false ?_ (by simpa using h)
      split <;> nofun

/-! ## When they stay inside -/

/-- The factories that check the upper bound access their table with the type of a message that
fits their struct, unless it is past the last one. -/
theorem index_checked (h : f.ChecksLast) (sv : Bytes) :
    index f sv =
      if Readable f sv ∧ toInt32 (readU32 sv 4) ≤ f.last then some (toInt32 (readU32 sv 4))
      else none := by
  have hheader : headerSize = 12 := rfl
  have hpadded : ∀ n, headerSize ≤ sv.length →
      readU32 (sv ++ List.replicate n 0) 4 = readU32 sv 4 := fun n hmin =>
    readU32_append (by omega) _
  have hbranches : ∀ t : Int, (headerSize ≤ sv.length → t = toInt32 (readU32 sv 4)) →
      (if sv.length < headerSize then none
        else if sv.length > sizeofReqMessage then none
        else if t > reqTypeLast then none
        else some t) =
        if Readable f sv ∧ toInt32 (readU32 sv 4) ≤ reqTypeLast then
          some (toInt32 (readU32 sv 4))
        else none := by
    intro t ht
    by_cases hmin : sv.length < headerSize
    · rw [if_pos hmin, if_neg fun hc => Nat.not_lt.mpr hc.1.1 hmin]
    rw [if_neg hmin, ht (Nat.le_of_not_lt hmin)]
    by_cases hmax : sv.length > sizeofReqMessage
    · rw [if_pos hmax, if_neg fun hc => Nat.not_lt.mpr (hc.1.2 h) hmax]
    rw [if_neg hmax]
    by_cases hlast : toInt32 (readU32 sv 4) > reqTypeLast
    · rw [if_pos hlast, if_neg fun hc => Int.not_lt.mpr hc.2 hlast]
    · rw [if_neg hlast, if_pos ⟨⟨Nat.le_of_not_lt hmin, fun _ => Nat.le_of_not_lt hmax⟩,
        Int.not_lt.mp hlast⟩]
  rcases h with rfl | rfl
  · exact hbranches _ fun hmin => congrArg toInt32 (hpadded _ hmin)
  · exact hbranches _ fun hmin => congrArg toInt32 (hpadded _ hmin)

/-- The others access it with whatever type a header has. -/
theorem index_unchecked (h : ¬ f.ChecksLast) (sv : Bytes) :
    index f sv = if Readable f sv then some (toInt32 (readU32 sv 4)) else none := by
  have hbranches : (if sv.length < headerSize then none else some (toInt32 (readU32 sv 4))) =
      if Readable f sv then some (toInt32 (readU32 sv 4)) else none := by
    by_cases hmin : sv.length < headerSize
    · rw [if_pos hmin, if_neg fun hc => Nat.not_lt.mpr hc.1 hmin]
    · rw [if_neg hmin, if_pos ⟨Nat.le_of_not_lt hmin, fun hc => absurd hc h⟩]
  cases f with
  | createJob => exact absurd (.inl rfl) h
  | createUDPJob => exact absurd (.inr rfl) h
  | IOCP => exact hbranches
  | SelectAPI => exact hbranches
  | LinuxBlockingSocket => exact hbranches

theorem last_nonneg (f : Factory) : 0 ≤ f.last := by
  cases f <;> decide

/-- The index lies in the table if and only if the type of a readable message does, or is past
the last one where that is checked. -/
theorem index_in_table_iff (f : Factory) (sv : Bytes) :
    (∀ i ∈ index f sv, InTable f i) ↔ (Readable f sv → Dispatchable f sv) := by
  have hlast := last_nonneg f
  by_cases hc : f.ChecksLast
  · rw [index_checked hc]
    constructor
    · intro h hread
      refine ⟨?_, fun hno => absurd hc hno⟩
      by_cases hle : toInt32 (readU32 sv 4) ≤ f.last
      · rw [if_pos ⟨hread, hle⟩] at h
        exact (h _ rfl).1
      · omega
    · intro h i hi
      split at hi
      · next hcond =>
        obtain rfl := Option.mem_some_iff.mp hi
        exact ⟨(h hcond.1).1, Int.lt_add_one_of_le hcond.2⟩
      · cases hi
  · rw [index_unchecked hc]
    constructor
    · intro h hread
      rw [if_pos hread] at h
      obtain ⟨hnonneg, hlt⟩ := h _ rfl
      exact ⟨hnonneg, fun _ => Int.le_of_lt_add_one hlt⟩
    · intro h i hi
      split at hi
      · next hread =>
        obtain rfl := Option.mem_some_iff.mp hi
        exact ⟨(h hread).1, Int.lt_add_one_of_le ((h hread).2 hc)⟩
      · cases hi

/-- A message of type -1, with nothing behind its header. -/
def negativeType : Bytes := [12, 0, 0, 0, 255, 255, 255, 255, 7, 0, 0, 0]

/-- It takes all five factories out of their tables. -/
theorem negative_type :
    [Factory.createJob, .createUDPJob, .IOCP, .SelectAPI, .LinuxBlockingSocket].map
        (fun f => (index f negativeType, decide (InTable f (-1)))) =
      List.replicate 5 (some (-1), false) ∧
    ¬ ∀ f sv, ∀ i ∈ index f sv, InTable f i := by
  refine ⟨by decide +kernel, fun h => ?_⟩
  exact absurd (h .IOCP negativeType (-1) rfl) (by decide)

end CreateFuncs
