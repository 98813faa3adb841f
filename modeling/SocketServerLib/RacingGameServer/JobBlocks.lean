import SocketServerLib.Lib.Counting
import SocketServerLib.Lib.LabelledRun
import SocketServerLib.RacingGameServer.UDPJob

/-
  The blocks of `JobFactory`: `CreateJob`, `CreateUDPJob` and `DeallocateJob` over `m_pool`.

  A block is a number, and `operator new` has given those below `next`; `jobs` are the jobs that
  are constructed, each with the block it lies in. Calls are begun at any time, by any thread;
  `calls` lists them, and a step is one operation on the free list, one `operator new` or one
  `Parse` of a call, with what it does up to the next.
  `sizeof(T) > MAX_JOB_SIZE` never holds, since `Jobs` is a variant of all three classes.

  What is proved:
    1. `createJob_eq`, `createUDPJob_eq` — the calls are those of the two functions.
    2. `go_moves` — what a step of a call does to the free list, the jobs and the call.
    3. `go_enabled` — no call gets stuck: what it parses or destroys is a job.
    4. `job_blocks_conserved` — in every run each block is in the free list or in one job, and
       a call that returns a null pointer puts back what it has taken.

  What is assumed: the type of a message is not negative (`createFuncs` is indexed with it
  unchecked from below), and `operator new` gives a block that is not in use.
-/
namespace RacingGameServer
open ByteRange LabelledRun Counting

inductive CreateFn where
  | createJob
  | createUDPJob
  deriving DecidableEq

/-- The zero-filled struct that the message is copied to. -/
def CreateFn.reqMsg (sv : Bytes) : CreateFn → Bytes
  | .createJob => sv ++ List.replicate (sizeofReqMessage - sv.length) 0
  | .createUDPJob => udpReqMessage sv

def CreateFn.payload (sv : Bytes) : CreateFn → Bytes
  | .createJob =>
    slice (CreateFn.createJob.reqMsg sv) (sizeofReqHeader + 4) (sv.length - sizeofReqHeader)
  | .createUDPJob => declaredPayload sv

/-- A call of one of the two, with a message whose type is not negative. -/
structure Request where
  fn : CreateFn
  uUserIndex_ : Nat
  sv : Bytes
  nonneg : headerSize ≤ sv.length → 0 ≤ toInt32 (readU32 sv 4)
  deriving DecidableEq

namespace Request

def reqMsg (r : Request) : Bytes := r.fn.reqMsg r.sv

def reqType (r : Request) : Int := toInt32 (readU32 r.reqMsg 4)

/-- The function that the call takes out of `createFuncs`; none if it returns before. -/
def func (r : Request) : Option JobKind :=
  if r.sv.length < headerSize then none
  else if r.sv.length > sizeofReqMessage then none
  else if r.reqType > reqTypeLast then none
  else createFuncs none r.reqType

/-- `Parse`, and what `CreateJob` and `CreateUDPJob` write where it succeeds. -/
def parse (r : Request) (pRet : Job) : Option Job :=
  match pRet.parse (r.fn.payload r.sv), r.fn with
  | (_, false), _ => none
  | (j, true), .createJob =>
    some { j with clientIndex := r.uUserIndex_, reqNo := readU32 r.reqMsg 8 }
  | (j, true), .createUDPJob => some { j with clientIndex := r.uUserIndex_ }

end Request

namespace Request

variable {r : Request}

theorem reqMsg_eq (r : Request) : ∃ n, r.reqMsg = r.sv ++ List.replicate n 0 := by
  unfold reqMsg
  cases r.fn with
  | createJob => exact ⟨_, rfl⟩
  | createUDPJob => exact ⟨_, rfl⟩

/-- So the type that is looked up is not negative. -/
theorem reqType_nonneg (hmin : headerSize ≤ r.sv.length) : 0 ≤ r.reqType := by
  obtain ⟨n, hmsg⟩ := r.reqMsg_eq
  have hfour : 4 + 4 ≤ r.sv.length := Nat.le_trans (by decide) hmin
  rw [reqType, hmsg, readU32_append hfour]
  exact r.nonneg hmin

theorem createFuncs_eq (wild : Option JobKind) (hmin : headerSize ≤ r.sv.length) :
    createFuncs wild r.reqType = createFuncs none r.reqType := by
  have hno : ¬ r.reqType < 0 := Int.not_lt.mpr (reqType_nonneg hmin)
  rw [createFuncs, createFuncs, if_neg hno, if_neg hno]

/-- `CreateJob`, with the function it takes out and the job it parses. -/
theorem createJob_eq (a : Answers) (origin : Nat) (hfn : r.fn = .createJob) :
    createJob a r.uUserIndex_ origin r.sv =
      r.func.bind fun k =>
        if a.block = false then none
        else (r.parse k.new).map fun j => { j with origin := origin } := by
  have hmsg : r.sv ++ List.replicate (sizeofReqMessage - r.sv.length) 0 = r.reqMsg := by
    rw [reqMsg, hfn, CreateFn.reqMsg]
  have htype : toInt32 (readU32 r.reqMsg 4) = r.reqType := rfl
  simp only [createJob, func, hmsg, htype]
  by_cases hmin : r.sv.length < headerSize
  · simp only [if_pos hmin, Option.bind_none]
  by_cases hmax : r.sv.length > sizeofReqMessage
  · simp only [if_neg hmin, if_pos hmax, Option.bind_none]
  by_cases hlast : r.reqType > reqTypeLast
  · simp only [if_neg hmin, if_neg hmax, if_pos hlast, Option.bind_none]
  simp only [if_neg hmin, if_neg hmax, if_neg hlast,
    createFuncs_eq a.wild (Nat.le_of_not_lt hmin)]
  cases createFuncs none r.reqType with
  | none => rfl
  | some k =>
    have hview : CreateFn.createJob.payload r.sv =
        (r.reqMsg.drop (sizeofReqHeader + 4)).take (r.sv.length - sizeofReqHeader) := by
      rw [← hmsg]
      rfl
    simp only [Option.bind_some, parse, hfn, hview]
    rcases k.new.parse _ with ⟨j, _ | _⟩
    · rfl
    · rfl

/-- `CreateUDPJob`, with the function it takes out and the job it parses. -/
theorem createUDPJob_eq (m_pool : Pool) (fresh : Option Nat) (wild : Option JobKind)
    (hfn : r.fn = .createUDPJob) :
    createUDPJob m_pool fresh wild r.uUserIndex_ r.sv =
      match r.func with
      | none => (m_pool, none)
      | some k =>
        match m_pool.allocate fresh with
        | (pool, none) => (pool, none)
        | (pool, some block) =>
          match r.parse k.new with
          | none => (pool.deallocate block, none)
          | some j => (pool, some (block, j)) := by
  have hmsg : udpReqMessage r.sv = r.reqMsg := by rw [reqMsg, hfn, CreateFn.reqMsg]
  have htype : toInt32 (readU32 r.reqMsg 4) = r.reqType := rfl
  simp only [createUDPJob, func, hmsg, htype]
  by_cases hmin : r.sv.length < headerSize
  · simp only [if_pos hmin]
  by_cases hmax : r.sv.length > sizeofReqMessage
  · simp only [if_neg hmin, if_pos hmax]
  by_cases hlast : r.reqType > reqTypeLast
  · simp only [if_neg hmin, if_neg hmax, if_pos hlast]
  simp only [if_neg hmin, if_neg hmax, if_neg hlast, createFuncs_eq wild (Nat.le_of_not_lt hmin)]
  cases createFuncs none r.reqType with
  | none => rfl
  | some k =>
    simp only [parse, hfn, CreateFn.payload]
    rcases m_pool.allocate fresh with ⟨pool, _ | block⟩
    · rfl
    rcases k.new.parse (declaredPayload r.sv) with ⟨j, _ | _⟩
    · rfl
    · rfl

end Request

/-- Where a call is: in front of an operation, or at its end, where the job it returns has not
been given to `DeallocateJob` yet, or has. -/
inductive CreateCall where
  | tryPop (r : Request) (k : JobKind)
  | operatorNew (r : Request) (k : JobKind)
  | parse (r : Request) (pRet : Nat)
  | deallocate (pRet : Nat)
  | returned (pRet : Option Nat)
  | deallocated
  deriving DecidableEq

/-- The blocks that the call has taken from the pool and not put back. -/
def CreateCall.taken : CreateCall → List Nat
  | .parse _ pRet => [pRet]
  | .deallocate pRet => [pRet]
  | .returned pRet => pRet.toList
  | _ => []

/-- The call up to its first operation. -/
def Request.enter (r : Request) : CreateCall :=
  match r.func with
  | none => .returned none
  | some k => .tryPop r k

structure JobFactory where
  data : List Nat
  jobs : List (Nat × Job)
  calls : List CreateCall
  next : Nat

/-- `allocated` is whether `operator new` has a block. -/
inductive FactoryAct where
  | create (r : Request)
  | go (c : Nat) (allocated : Bool)
  | deallocateJob (c : Nat)

namespace JobFactory

/-- The constructor of the pool gets `n` of the blocks it asks for. -/
def init (n : Nat) : JobFactory :=
  { data := List.range n, jobs := [], calls := [], next := n }

def move (s : JobFactory) (c : Nat) (p : CreateCall) : JobFactory :=
  { s with calls := s.calls.set c p }

/-- The placement `new` of `Allocate`. -/
def construct (s : JobFactory) (memory : Nat) (k : JobKind) : JobFactory :=
  { s with jobs := (memory, k.new) :: s.jobs }

/-- The job in the block becomes another. -/
def write (s : JobFactory) (p : Nat) (j : Job) : JobFactory :=
  { s with jobs := s.jobs.map fun x => if x.1 = p then (p, j) else x }

def deallocateJob (s : JobFactory) : Option Nat → JobFactory
  | none => s
  | some pJob_ =>
    { s with data := s.data ++ [pJob_], jobs := s.jobs.eraseP ((· == pJob_) ∘ Prod.fst) }

/-- The next operation of call `c`. There is none where what it parses is no job. -/
def go (s : JobFactory) (c : Nat) (allocated : Bool) : CreateCall → Option JobFactory
  | .tryPop r k =>
    match s.data with
    | [] => some (s.move c (.operatorNew r k))
    | memory :: rest => some (({ s with data := rest }.construct memory k).move c (.parse r memory))
  | .operatorNew r k =>
    if allocated = true then
      some (({ s with next := s.next + 1 }.construct s.next k).move c (.parse r s.next))
    else some (s.move c (.returned none))
  | .parse r pRet =>
    (s.jobs.lookup pRet).map fun job =>
      match r.parse job with
      | none => s.move c (.deallocate pRet)
      | some job => (s.write pRet job).move c (.returned (some pRet))
  | .deallocate pRet => some ((s.deallocateJob (some pRet)).move c (.returned none))
  | .returned _ => none
  | .deallocated => none

def step (s : JobFactory) : FactoryAct → Option JobFactory
  | .create r => some { s with calls := s.calls ++ [r.enter] }
  | .go c allocated => (s.calls[c]?).bind (s.go c allocated)
  | .deallocateJob c =>
    match s.calls[c]? with
    | some (.returned pRet) => some ((s.deallocateJob pRet).move c .deallocated)
    | _ => none

/-- The blocks with a job in them. -/
def blocks (s : JobFactory) : List Nat := s.jobs.map Prod.fst

/-- What call `c` has taken; nothing if it has not been begun. -/
def taken (s : JobFactory) (c : Nat) : List Nat := (s.calls[c]?).elim [] CreateCall.taken

/-- How often a block is to be found: once if `operator new` has given it. -/
def obtained (next b : Nat) : Nat := if b < next then 1 else 0

/-- Each block is in the free list or in one job, once. -/
def Conserved (s : JobFactory) : Prop :=
  ∀ b, s.data.count b + s.blocks.count b = obtained s.next b

structure Inv (s : JobFactory) : Prop where
  conserved : s.Conserved
  /-- The calls have the jobs, each once. -/
  owned : ∀ b, s.blocks.count b = (s.calls.flatMap CreateCall.taken).count b

variable {s s' r : JobFactory} {c : Nat} {p p' : CreateCall} {pRet : Nat} {a : FactoryAct}

theorem inv_init (n : Nat) : Inv (init n) where
  conserved b := by
    have hfree : (List.range n).count b = obtained n b := List.count_range
    exact hfree
  owned b := rfl

/-! ## The blocks of the jobs -/

theorem obtained_succ (n b : Nat) : obtained (n + 1) b = obtained n b + [n].count b := by
  unfold obtained
  by_cases hb : b = n
  · subst hb
    rw [if_pos (Nat.lt_succ_self b), if_neg (Nat.lt_irrefl b), List.count_singleton_self]
  · have hnone : [n].count b = 0 := List.count_eq_zero.mpr fun h => hb (List.mem_singleton.mp h)
    have hiff : b < n + 1 ↔ b < n := by omega
    simp only [hnone, hiff, Nat.add_zero]

theorem blocks_construct (s : JobFactory) (memory : Nat) (k : JobKind) :
    (s.construct memory k).blocks = memory :: s.blocks := rfl

theorem blocks_write (s : JobFactory) (p : Nat) (j : Job) : (s.write p j).blocks = s.blocks := by
  simp only [blocks, write, List.map_map]
  apply List.map_congr_left
  intro x _
  simp only [Function.comp_apply]
  split
  · next hx => exact hx.symm
  · rfl

theorem blocks_deallocateJob (s : JobFactory) (pJob_ : Nat) :
    (s.deallocateJob (some pJob_)).blocks = s.blocks.erase pJob_ := by
  rw [List.erase_eq_eraseP', blocks, blocks, List.eraseP_map]
  rfl

/-- A job that is destroyed leaves its block to the free list. -/
theorem count_erase_add {l : List Nat} {p : Nat} (h : p ∈ l) (b : Nat) :
    (l.erase p).count b + [p].count b = l.count b := by
  have hback : List.Perm (l.erase p ++ [p]) l :=
    (List.perm_append_singleton p _).trans (List.perm_cons_erase h).symm
  rw [← List.count_append]
  exact hback.count_eq b

/-- What a call has taken is a job. -/
theorem Inv.live (hs : s.Inv) (hc : s.calls[c]? = some p) (hp : pRet ∈ p.taken) :
    pRet ∈ s.blocks := by
  have hmem : pRet ∈ s.calls.flatMap CreateCall.taken :=
    List.mem_flatMap_of_mem (List.mem_of_getElem? hc) hp
  rw [← List.count_pos_iff, hs.owned, List.count_pos_iff]
  exact hmem

/-- And it can be parsed. -/
theorem lookup_isSome (hp : pRet ∈ s.blocks) : (s.jobs.lookup pRet).isSome := by
  obtain ⟨x, hx, hfst⟩ := List.mem_map.mp hp
  rw [List.lookup_isSome_iff]
  exact ⟨x, hx, beq_iff_eq.mpr hfst.symm⟩

/-! ## One step -/

/-- What a call that moves from `p` to `p'` has done to the pool and the jobs: the jobs exchange
with the call, and so does the free list, together with what `operator new` has given. -/
structure Moves (s r : JobFactory) (p p' : CreateCall) : Prop where
  calls : r.calls = s.calls
  blocks : ∀ b, r.blocks.count b + p.taken.count b = s.blocks.count b + p'.taken.count b
  data : ∀ b, r.data.count b + p'.taken.count b + obtained s.next b =
    s.data.count b + p.taken.count b + obtained r.next b
  returned : p' = .returned none → r.data = s.data ++ p.taken

/-- A call that keeps what it has. -/
theorem moves_self (htaken : p'.taken = p.taken) (hnull : p' = .returned none → p.taken = []) :
    Moves s s p p' where
  calls := rfl
  blocks b := by rw [htaken]
  data b := by rw [htaken]
  returned h := by rw [hnull h, List.append_nil]

/-- A call without a block has a new job, in a block of the free list or of `operator new`. -/
theorem moves_construct {q : Request} {k : JobKind} {memory : Nat} (hp : p.taken = [])
    (hjobs : r.jobs = s.jobs) (hcalls : r.calls = s.calls)
    (hdata : ∀ b, r.data.count b + [memory].count b + obtained s.next b =
      s.data.count b + obtained r.next b) :
    Moves s (r.construct memory k) p (.parse q memory) where
  calls := hcalls
  blocks b := by
    have hblocks : r.blocks = s.blocks := congrArg (List.map Prod.fst) hjobs
    have hperm : List.Perm (memory :: s.blocks) (s.blocks ++ [memory]) :=
      (List.perm_append_singleton memory s.blocks).symm
    rw [blocks_construct, hblocks, hp, List.count_nil, Nat.add_zero, hperm.count_eq,
      List.count_append]
    rfl
  data b := by
    rw [hp, List.count_nil, Nat.add_zero]
    exact hdata b
  returned h := by cases h

/-- The destructor of the job of a call. -/
theorem moves_deallocateJob (hmem : pRet ∈ s.blocks) (hp : p.taken = [pRet])
    (hp' : p'.taken = []) : Moves s (s.deallocateJob (some pRet)) p p' where
  calls := rfl
  blocks b := by
    rw [blocks_deallocateJob, hp, hp', count_erase_add hmem]
    rfl
  data b := by
    rw [hp, hp']
    simp only [deallocateJob, List.count_append, List.count_nil, Nat.add_zero]
  returned _ := by rw [hp, deallocateJob]

/-- What a step of a call does. -/
theorem go_moves {allocated : Bool} (hs : s.Inv) (hc : s.calls[c]? = some p)
    (h : s.go c allocated p = some s') : ∃ r p', s' = r.move c p' ∧ Moves s r p p' := by
  cases p with
  | tryPop q k =>
    simp only [go] at h
    split at h
    · obtain rfl := Option.some.inj h
      exact ⟨s, _, rfl, moves_self rfl fun he => by cases he⟩
    · next memory rest hdata =>
      obtain rfl := Option.some.inj h
      refine ⟨_, _, rfl, moves_construct rfl rfl rfl fun b => ?_⟩
      have hcount : (memory :: rest).count b = [memory].count b + rest.count b :=
        @List.count_append _ _ b [memory] rest
      show rest.count b + [memory].count b + obtained s.next b = s.data.count b + obtained s.next b
      rw [hdata, hcount]
      omega
  | operatorNew q k =>
    simp only [go] at h
    split at h
    · obtain rfl := Option.some.inj h
      refine ⟨_, _, rfl, moves_construct rfl rfl rfl fun b => ?_⟩
      show s.data.count b + [s.next].count b + obtained s.next b =
        s.data.count b + obtained (s.next + 1) b
      rw [obtained_succ]
      omega
    · obtain rfl := Option.some.inj h
      exact ⟨s, _, rfl, moves_self rfl fun _ => rfl⟩
  | parse q pRet =>
    obtain ⟨job, hjob, hparse⟩ := Option.map_eq_some_iff.mp h
    split at hparse
    · obtain rfl := hparse
      exact ⟨s, _, rfl, moves_self rfl fun he => by cases he⟩
    · next job' hjob' =>
      obtain rfl := hparse
      refine ⟨_, _, rfl, rfl, fun b => ?_, fun b => rfl, fun he => by cases he⟩
      rw [blocks_write]
      rfl
  | deallocate pRet =>
    obtain rfl := Option.some.inj h
    have hmem : pRet ∈ s.blocks := hs.live hc (List.mem_singleton_self pRet)
    exact ⟨_, _, rfl, moves_deallocateJob hmem rfl rfl⟩
  | returned pRet => cases h
  | deallocated => cases h

/-- `DeallocateJob` on what a call has returned. -/
theorem deallocateJob_moves {pRet : Option Nat} (hs : s.Inv)
    (hc : s.calls[c]? = some (.returned pRet)) :
    Moves s (s.deallocateJob pRet) (.returned pRet) .deallocated := by
  cases pRet with
  | none => exact moves_self rfl fun he => by cases he
  | some pRet => exact moves_deallocateJob (hs.live hc (List.mem_singleton_self pRet)) rfl rfl

theorem step_cases (hs : s.Inv) (h : step s a = some s') :
    (∃ q, a = .create q ∧ s' = { s with calls := s.calls ++ [q.enter] }) ∨
      ∃ c p r p', s.calls[c]? = some p ∧ s' = r.move c p' ∧ Moves s r p p' := by
  cases a with
  | create q => exact .inl ⟨q, rfl, (Option.some.inj h).symm⟩
  | go c allocated =>
    obtain ⟨p, hc, h⟩ := Option.bind_eq_some_iff.mp h
    obtain ⟨r, p', hmove, hr⟩ := go_moves hs hc h
    exact .inr ⟨c, p, r, p', hc, hmove, hr⟩
  | deallocateJob c =>
    simp only [step] at h
    split at h
    · next pRet hc =>
      exact .inr ⟨c, _, _, _, hc, (Option.some.inj h).symm, deallocateJob_moves hs hc⟩
    · cases h

theorem Inv.create (hs : s.Inv) (q : Request) :
    ({ s with calls := s.calls ++ [q.enter] } : JobFactory).Inv where
  conserved := hs.conserved
  owned b := by
    have hnone : q.enter.taken = [] := by
      unfold Request.enter
      split
      · rfl
      · rfl
    have howned := hs.owned b
    simp only [List.flatMap_append, List.flatMap_cons, List.flatMap_nil, hnone, List.append_nil]
    exact howned

theorem Inv.move (hs : s.Inv) (hc : s.calls[c]? = some p) (hr : Moves s r p p') :
    (r.move c p').Inv where
  conserved b := by
    have hblocks := hr.blocks b
    have hdata := hr.data b
    have hconserved := hs.conserved b
    show r.data.count b + r.blocks.count b = obtained r.next b
    omega
  owned b := by
    have hblocks := hr.blocks b
    have howned := hs.owned b
    have hcalls := count_flatMap_set CreateCall.taken hc p' b
    show r.blocks.count b = ((r.calls.set c p').flatMap CreateCall.taken).count b
    rw [hr.calls]
    omega

theorem step_inv (hs : s.Inv) (h : step s a = some s') : s'.Inv := by
  rcases step_cases hs h with ⟨q, -, rfl⟩ | ⟨c, p, r, p', hc, rfl, hr⟩
  · exact hs.create q
  · exact hs.move hc hr

/-- A call that comes to return a null pointer puts back what it has taken. -/
theorem step_returned_none (hs : s.Inv) (h : step s a = some s')
    (hc : s'.calls[c]? = some (.returned none)) (hne : s.calls[c]? ≠ some (.returned none)) :
    s'.data = s.data ++ s.taken c := by
  rcases step_cases hs h with ⟨q, -, rfl⟩ | ⟨d, p, r, p', hd, rfl, hr⟩
  · have hnew : s.calls[c]? = none := by
      by_contra hsome
      obtain ⟨x, hx⟩ := Option.ne_none_iff_exists'.mp hsome
      obtain ⟨hlt, -⟩ := List.getElem?_eq_some_iff.mp hx
      exact hne (List.getElem?_append_left hlt ▸ hc)
    simp only [taken, hnew, Option.elim_none, List.append_nil]
  · have hset : (s.calls.set d p')[c]? = some (.returned none) := hr.calls ▸ hc
    rw [congrFun (set_eq_update hd p') c] at hset
    by_cases hcd : c = d
    · subst hcd
      rw [Function.update_self] at hset
      simp only [taken, hd, Option.elim_some]
      exact hr.returned (Option.some.inj hset)
    · rw [Function.update_of_ne hcd] at hset
      exact absurd hset hne

/-- A call that has not returned can go on. -/
theorem go_enabled (hs : s.Inv) (hc : s.calls[c]? = some p)
    (hreturned : ∀ pRet, p ≠ .returned pRet) (hdone : p ≠ .deallocated) (allocated : Bool) :
    (s.go c allocated p).isSome := by
  cases p with
  | tryPop q k =>
    simp only [go]
    split
    · rfl
    · rfl
  | operatorNew q k =>
    simp only [go]
    split
    · rfl
    · rfl
  | parse q pRet =>
    rw [go, Option.isSome_map]
    exact lookup_isSome (hs.live hc (List.mem_singleton_self pRet))
  | deallocate pRet => rfl
  | returned pRet => exact absurd rfl (hreturned pRet)
  | deallocated => exact absurd rfl hdone

/-! ## Runs -/

/-- In every run: each block that `operator new` has given is in the free list or in one job,
once, and nothing else is; no two jobs lie in one block; and when a call comes to return a null
pointer, the free list has what the call has taken. -/
theorem job_blocks_conserved {n : Nat} {acts : List FactoryAct}
    (hr : run step (init n) acts = some s) :
    (∀ b, s.data.count b + s.blocks.count b = if b < s.next then 1 else 0) ∧
    s.blocks.Nodup ∧
    ∀ a s', step s a = some s' → ∀ c, s'.calls[c]? = some (.returned none) →
      s.calls[c]? ≠ some (.returned none) → s'.data = s.data ++ s.taken c := by
  have hs : s.Inv := run_stable (fun _ _ _ => step_inv) (inv_init n) hr
  refine ⟨hs.conserved, List.nodup_iff_count_le_one.mpr fun b => ?_, fun a s' h c hc hne => ?_⟩
  · have hconserved := hs.conserved b
    unfold obtained at hconserved
    split at hconserved <;> omega
  · exact step_returned_none hs h hc hne

def tokenRequest : Request :=
  { fn := .createJob, uUserIndex_ := 0, sv := tokenFrame, nonneg := fun _ => by decide +kernel }

/-- A `UDPECHO` datagram whose payload is said to be too long for a parameter. -/
def longRequest : Request :=
  { fn := .createUDPJob, uUserIndex_ := 1
    sv := leEncode 4 120 ++ leEncode 4 2 ++ leEncode 8 77 ++ leEncode 4 100
    nonneg := fun _ => by decide +kernel }

/-- The first takes the one block of the pool, and the second gets another. -/
def twoCalls : List FactoryAct :=
  [.create tokenRequest, .go 0 true, .go 0 true, .create longRequest, .go 1 true, .go 1 true,
    .go 1 true, .deallocateJob 0]

theorem job_blocks_conserved_two : ∃ s s', run step (init 1) twoCalls = some s ∧
    step s (.go 1 true) = some s' ∧ s.data = [0] ∧ s.blocks = [1] ∧ s.blocks.Nodup ∧
    s'.data = [0, 1] := by
  have hrun : (run step (init 1) twoCalls).map (fun s => (s.calls[1]?, s.data, s.blocks)) =
      some (some (.deallocate 1), [0], [1]) := by
    decide +kernel
  obtain ⟨s, hs, hend⟩ := Option.map_eq_some_iff.mp hrun
  obtain ⟨hcall, hend⟩ := Prod.mk.inj hend
  obtain ⟨hdata, hblocks⟩ := Prod.mk.inj hend
  obtain ⟨hlt, -⟩ := List.getElem?_eq_some_iff.mp hcall
  have hstep : step s (.go 1 true) =
      some ((s.deallocateJob (some 1)).move 1 (.returned none)) := by
    simp only [step, hcall, Option.bind_some, go]
  obtain ⟨-, hnodup, hnull⟩ := job_blocks_conserved hs
  refine ⟨s, _, hs, hstep, hdata, hblocks, hnodup, ?_⟩
  have htaken : s.taken 1 = [1] := by simp only [taken, hcall, Option.elim_some, CreateCall.taken]
  have hne : s.calls[1]? ≠ some (.returned none) := by
    rw [hcall]
    decide
  rw [hnull _ _ hstep 1 (List.getElem?_set_self hlt) hne, hdata, htaken]
  rfl

end JobFactory

end RacingGameServer
