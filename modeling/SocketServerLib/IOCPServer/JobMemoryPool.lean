import SocketServerLib.Lib.Holding
import SocketServerLib.Lib.LabelledRun
import SocketServerLib.IOCPServer.Job

/-
  The memory blocks of the jobs: `JobMemoryPool`, `CreateJob` and `JobThread`.

  A block is a number; those below `next` have been obtained from `operator new`, and `memory`
  says which of them have a job constructed in them. A block goes from the free list, or from
  `operator new`, to the hand of the worker thread that runs `CreateJob`, to the job queue, to
  the hand of a job thread, and back to the queue or the free list. A step is one queue
  operation, one `operator new`, one `Parse` or one `Execute` of a thread; `Execute` answers what
  it likes.

  What is proved:
    1. `inv_step` — a step moves a block from one place to another, except that the block of a
       job whose `Parse` fails is in no place.
    2. `constructed` — in every run, what is in the queue or in a hand is a job: none is parsed,
       executed or destroyed that is not there.
    3. `blocks_conserved_iff` — in every state of a run each block is in exactly one place, if
       and only if no job is given a payload that is longer than its parameter.
    4. `long_payloads` — every such message takes one more block out of the free list.
    5. `block_lost` — one such message.

  What is assumed: request messages have the registered type, and `operator new` gives a block
  that is not in use.
-/
namespace IOCPServer
open RacingGameServer (Bytes toInt32 readU32)
open Holding LabelledRun

def memoryPoolSize : Nat := 10

inductive Thread where
  | worker (i : Nat)
  | job (i : Nat)
  deriving DecidableEq

/-- What a thread has in hand: in `Allocate` with an empty free list, before `Parse`, before it is
queued; before `Execute`, and after it. -/
inductive Hand where
  | nothing
  | growing (userindex_ : Nat) (req_ : Bytes)
  | parsing (block : Nat) (payload : Bytes)
  | created (block : Nat)
  | executing (block : Nat)
  | executed (block : Nat) (eRet : InfoCode)
  deriving DecidableEq

structure Pool where
  freeList : List Nat
  jobQueue : List Nat
  hand : Thread → Hand
  memory : Nat → Option EchoJob
  next : Nat

/-- `allocated` is whether `operator new` has a block. -/
inductive PoolAct where
  | createJob (i userindex_ : Nat) (req_ : Bytes)
  | operatorNew (i : Nat) (allocated : Bool)
  | parse (i : Nat)
  | pushJob (i : Nat)
  | tryPop (i : Nat)
  | execute (i : Nat) (eRet : InfoCode)
  | settle (i : Nat)

namespace Pool

/-- The constructor gets `n` of the blocks it asks for. -/
def init (n : Nat) : Pool :=
  { freeList := List.range n, jobQueue := [], hand := fun _ => .nothing, memory := fun _ => none,
    next := n }

def setHand (s : Pool) (t : Thread) (h : Hand) : Pool :=
  { s with hand := Function.update s.hand t h }

/-- The end of `Allocate`, and `CreateJob` up to `Parse`. -/
def construct (s : Pool) (i userindex_ : Nat) (req_ : Bytes) (block : Nat) : Pool :=
  { s.setHand (.worker i) (.parsing block (req_.drop sizeofReqHeader)) with
    memory := Function.update s.memory block (some (.new userindex_ (readU32 req_ 8))) }

/-- `CreateJob` up to `try_pop` of the free list. -/
def createJob (s : Pool) (i userindex_ : Nat) (req_ : Bytes) : Option Pool :=
  if req_.length < sizeofReqHeader then some s
  else if toInt32 (readU32 req_ 4) ≠ 0 then none
  else
    match s.freeList with
    | [] => some (s.setHand (.worker i) (.growing userindex_ req_))
    | block :: rest => some ({ s with freeList := rest }.construct i userindex_ req_ block)

/-- Where it fails `CreateJob` returns a null pointer. -/
def parse (s : Pool) (i block : Nat) (payload : Bytes) : Option Pool :=
  (s.memory block).map fun job =>
    match job.parse payload with
    | none => s.setHand (.worker i) .nothing
    | some job => { s.setHand (.worker i) (.created block) with
        memory := Function.update s.memory block (some job) }

/-- `DeallocateJob`. -/
def deallocate (s : Pool) (i block : Nat) : Pool :=
  { s.setHand (.job i) .nothing with
    freeList := s.freeList ++ [block], memory := Function.update s.memory block none }

/-- The switch of `JobThread`. -/
def settle (s : Pool) (i block : Nat) : InfoCode → Pool
  | .NOT_FINISHED => { s.setHand (.job i) .nothing with jobQueue := s.jobQueue ++ [block] }
  | _ => s.deallocate i block

def step (s : Pool) : PoolAct → Option Pool
  | .createJob i userindex_ req_ =>
    if s.hand (.worker i) = .nothing then s.createJob i userindex_ req_ else none
  | .operatorNew i allocated =>
    match s.hand (.worker i) with
    | .growing userindex_ req_ =>
      if allocated = true then
        some ({ s with next := s.next + 1 }.construct i userindex_ req_ s.next)
      else some (s.setHand (.worker i) .nothing)
    | _ => none
  | .parse i =>
    match s.hand (.worker i) with
    | .parsing block payload => s.parse i block payload
    | _ => none
  | .pushJob i =>
    match s.hand (.worker i) with
    | .created block =>
      some { s.setHand (.worker i) .nothing with jobQueue := s.jobQueue ++ [block] }
    | _ => none
  | .tryPop i =>
    if s.hand (.job i) = .nothing then
      match s.jobQueue with
      | [] => some s
      | block :: rest => some { s.setHand (.job i) (.executing block) with jobQueue := rest }
    else none
  | .execute i eRet =>
    match s.hand (.job i) with
    | .executing block => (s.memory block).map fun _ => s.setHand (.job i) (.executed block eRet)
    | _ => none
  | .settle i =>
    match s.hand (.job i) with
    | .executed block eRet => (s.memory block).map fun _ => s.settle i block eRet
    | _ => none

/-! ## The places of a block -/

inductive Place where
  | freeList
  | jobQueue
  | hand (t : Thread)
  deriving DecidableEq

def ofHand : Hand → List Nat
  | .nothing | .growing _ _ => []
  | .parsing block _ | .created block | .executing block | .executed block _ => [block]

def held (s : Pool) : Place → List Nat
  | .freeList => s.freeList
  | .jobQueue => s.jobQueue
  | .hand t => ofHand (s.hand t)

/-- Every block ever obtained is in exactly one place. -/
def Conserved (s : Pool) : Prop := Exclusive s.held (· < s.next)

/-- The payload that is parsed next. -/
def payloadOf : Hand → Bytes
  | .parsing _ payload => payload
  | _ => []

/-- A job is given a payload that fits into its parameter. -/
def Parses (s : Pool) : PoolAct → Prop
  | .parse i => (payloadOf (s.hand (.worker i))).length ≤ sizeofEchoParameter
  | _ => True

instance (s : Pool) : DecidablePred s.Parses
  | .parse i =>
    inferInstanceAs (Decidable ((payloadOf (s.hand (.worker i))).length ≤ sizeofEchoParameter))
  | .createJob _ _ _ | .operatorNew _ _ | .pushJob _ | .tryPop _ | .execute _ _ | .settle _ =>
    .isTrue trivial

variable {s s' : Pool} {a : PoolAct} {t : Thread} {h : Hand} {i block userindex_ : Nat}
  {req_ payload : Bytes} {lost : Nat → Prop}

/-- Blocks that are `lost` are in no place, the others in one; what is in a place other than the
free list is a job. -/
structure Inv (lost : Nat → Prop) (s : Pool) : Prop where
  places : Exclusive s.held fun b => b < s.next ∧ ¬ lost b
  lost_lt : ∀ b, lost b → b < s.next
  constructed : ∀ o, o ≠ .freeList → ∀ b ∈ s.held o, (s.memory b).isSome

theorem Inv.conserved (hinv : Inv (fun _ => False) s) : s.Conserved :=
  hinv.places.congr (fun _ => rfl) fun _ => (and_iff_left id).symm

theorem held_setHand_self (s : Pool) (t : Thread) (h : Hand) :
    (s.setHand t h).held (.hand t) = ofHand h :=
  congrArg ofHand (Function.update_self ..)

/-- The other places do not see a hand. -/
theorem held_setHand (s : Pool) (t : Thread) (h : Hand) {o : Place} (ho : o ≠ .hand t) :
    (s.setHand t h).held o = s.held o := by
  cases o with
  | hand u =>
    have hne : u ≠ t := fun he => ho (congrArg Place.hand he)
    exact congrArg ofHand (Function.update_of_ne hne ..)
  | _ => rfl

/-- `CreateJob` as a whole answers what `Parse` answers about the new job. -/
theorem createJob_eq (hreq : ¬ req_.length < sizeofReqHeader)
    (htype : toInt32 (readU32 req_ 4) = 0) : IOCPServer.createJob userindex_ req_ true =
      some ((EchoJob.new userindex_ (readU32 req_ 8)).parse (req_.drop sizeofReqHeader)) := by
  simp only [IOCPServer.createJob, if_neg hreq, htype, ne_eq, not_true_eq_false, if_false,
    Bool.true_eq_false]

theorem parse_isSome_iff (job : EchoJob) :
    (job.parse payload).isSome ↔ payload.length ≤ sizeofEchoParameter := by
  unfold EchoJob.parse
  split
  · next hlong =>
    exact ⟨fun hsome => absurd hsome Bool.false_ne_true,
      fun hle => absurd hlong (Nat.not_lt.mpr hle)⟩
  · next hle => exact ⟨fun _ => Nat.le_of_not_lt hle, fun _ => rfl⟩

/-! ## One step -/

/-- A hand that keeps its block. -/
theorem Inv.rehand (hinv : Inv lost s) (hblock : ofHand h = ofHand (s.hand t)) :
    Inv lost (s.setHand t h) := by
  have hheld : ∀ o, (s.setHand t h).held o = s.held o := by
    intro o
    by_cases ho : o = .hand t
    · subst ho
      exact (held_setHand_self s t h).trans hblock
    · exact held_setHand s t h ho
  refine ⟨hinv.places.congr hheld fun _ => Iff.rfl, hinv.lost_lt, fun o ho b hb => ?_⟩
  rw [hheld] at hb
  exact hinv.constructed o ho b hb

/-- A block with a new job in it. -/
theorem isSome_update {m : Nat → Option EchoJob} {job : EchoJob} {b : Nat}
    (hb : b = block ∨ (m b).isSome) : (Function.update m block (some job) b).isSome := by
  by_cases he : b = block
  · rw [he, Function.update_self]
    rfl
  · rw [Function.update_of_ne he]
    exact hb.resolve_left he

/-- The parameter of a job is written. -/
theorem Inv.write (hinv : Inv lost s) (block : Nat) (job : EchoJob) :
    Inv lost { s with memory := Function.update s.memory block (some job) } :=
  ⟨hinv.places.congr (fun o => by cases o <;> rfl) fun _ => Iff.rfl, hinv.lost_lt,
    fun o ho b hb => isSome_update (.inr (hinv.constructed o ho b (by cases o <;> exact hb)))⟩

/-- `construct` puts a block into the hand of a worker. -/
theorem held_construct (s : Pool) (i userindex_ : Nat) (req_ : Bytes) (block : Nat) (o : Place) :
    (s.construct i userindex_ req_ block).held o =
      if o = .hand (.worker i) then [block] else s.held o := by
  split
  · next ho =>
    subst ho
    exact held_setHand_self s (.worker i) _
  · next ho =>
    rw [← held_setHand s (.worker i) (.parsing block (req_.drop sizeofReqHeader)) ho]
    cases o <;> rfl

/-- The block is the front of the free list, or one that `operator new` has. -/
theorem Inv.of_construct (hinv : Inv lost s) {r : Pool}
    (hplaces : Exclusive (r.construct i userindex_ req_ block).held
      fun b => b < r.next ∧ ¬ lost b)
    (hnext : s.next ≤ r.next) (hmemory : r.memory = s.memory)
    (hheld : ∀ o, o ≠ .freeList → r.held o = s.held o) :
    Inv lost (r.construct i userindex_ req_ block) := by
  refine ⟨hplaces, fun b hb => Nat.lt_of_lt_of_le (hinv.lost_lt b hb) hnext, fun o ho b hb => ?_⟩
  rw [held_construct] at hb
  apply isSome_update
  split at hb
  · exact .inl (List.mem_singleton.mp hb)
  · rw [hmemory]
    rw [hheld o ho] at hb
    exact .inr (hinv.constructed o ho b hb)

theorem Inv.createJob (hinv : Inv lost s) (hhand : s.hand (.worker i) = .nothing)
    (hs : s.createJob i userindex_ req_ = some s') : Inv lost s' := by
  have hempty : s.held (.hand (.worker i)) = [] := congrArg ofHand hhand
  unfold Pool.createJob at hs
  split at hs
  · obtain rfl := Option.some.inj hs
    exact hinv
  · split at hs
    · cases hs
    · split at hs
      · obtain rfl := Option.some.inj hs
        exact hinv.rehand hempty.symm
      · next block rest hfree =>
        obtain rfl := Option.some.inj hs
        have hbefore : s.held .freeList = block :: rest := hfree
        have hrest : ∀ o, o ≠ .freeList → held { s with freeList := rest } o = s.held o := by
          intro o ho
          cases o with
          | freeList => exact absurd rfl ho
          | _ => rfl
        refine hinv.of_construct (r := { s with freeList := rest }) ?_ (Nat.le_refl _) rfl hrest
        apply hinv.places.transfer .freeList (.hand (.worker i)) nofun
        · rw [held_construct, held_construct, if_pos rfl, if_neg nofun, hbefore, hempty,
            List.append_nil]
          exact List.perm_append_singleton block rest
        · intro o ho hhand
          rw [held_construct, if_neg hhand, hrest o ho]

/-- The new block comes from `operator new`. -/
theorem Inv.grow (hinv : Inv lost s) (hhand : s.hand (.worker i) = .growing userindex_ req_) :
    Inv lost ({ s with next := s.next + 1 }.construct i userindex_ req_ s.next) := by
  have hempty : s.held (.hand (.worker i)) = [] := congrArg ofHand hhand
  have hheld : ∀ o, held { s with next := s.next + 1 } o = s.held o := fun o => by cases o <;> rfl
  refine hinv.of_construct (r := { s with next := s.next + 1 }) ?_ (Nat.le_succ _) rfl
    fun o _ => hheld o
  refine hinv.places.create (a := s.next) (o := .hand (.worker i))
    (fun hlive => Nat.lt_irrefl _ hlive.1) ?_ (fun o ho => ?_) fun b => ?_
  · rw [held_construct, if_pos rfl, hempty]
  · rw [held_construct, if_neg ho, hheld]
  · show b < s.next + 1 ∧ ¬ lost b ↔ b = s.next ∨ b < s.next ∧ ¬ lost b
    have hlost := hinv.lost_lt b
    constructor
    · intro hb
      by_cases he : b = s.next
      · exact .inl he
      · exact .inr ⟨by omega, hb.2⟩
    · intro hcase
      rcases hcase with rfl | hb
      · exact ⟨Nat.lt_succ_self _, fun hl => Nat.lt_irrefl _ (hlost hl)⟩
      · exact ⟨by omega, hb.2⟩

/-- The block that a hand lets go is in no place. -/
theorem Inv.drop (hinv : Inv lost s) (hblock : ofHand (s.hand t) = [block]) :
    Inv (fun b => b = block ∨ lost b) (s.setHand t .nothing) := by
  have hheld : s.held (.hand t) = block :: (s.setHand t .nothing).held (.hand t) := by
    rw [held_setHand_self]
    exact hblock
  have hlive : block < s.next ∧ ¬ lost block :=
    (hinv.places.live_iff block).mpr ⟨.hand t, hheld ▸ List.mem_cons_self⟩
  refine ⟨hinv.places.destroy hheld (fun o ho => held_setHand s t .nothing ho) fun b => ?_,
    fun b hb => ?_, fun o ho b hb => ?_⟩
  · show b < s.next ∧ ¬ (b = block ∨ lost b) ↔ b ≠ block ∧ b < s.next ∧ ¬ lost b
    rw [not_or, and_left_comm]
  · rcases hb with rfl | hb
    · exact hlive.1
    · exact hinv.lost_lt b hb
  · by_cases hhand : o = .hand t
    · subst hhand
      rw [held_setHand_self] at hb
      cases hb
    · rw [held_setHand s t .nothing hhand] at hb
      exact hinv.constructed o ho b hb

/-- A hand and the job queue exchange their blocks. -/
theorem Inv.exchange (hinv : Inv lost s) {q : List Nat}
    (hperm : List.Perm (ofHand h ++ q) (ofHand (s.hand t) ++ s.jobQueue)) :
    Inv lost { s.setHand t h with jobQueue := q } := by
  have hafter : held { s.setHand t h with jobQueue := q } (.hand t) = ofHand h :=
    held_setHand_self s t h
  have hframe : ∀ o, o ≠ .hand t → o ≠ .jobQueue →
      held { s.setHand t h with jobQueue := q } o = s.held o := by
    intro o hhand hqueue
    rw [← held_setHand s t h hhand]
    cases o with
    | jobQueue => exact absurd rfl hqueue
    | _ => rfl
  -- what the two have now they had before, and it is a job
  have hboth : ∀ b ∈ ofHand h ++ q, (s.memory b).isSome := by
    intro b hb
    rcases List.mem_append.mp (hperm.mem_iff.mp hb) with hb | hb
    · exact hinv.constructed (.hand t) nofun b hb
    · exact hinv.constructed .jobQueue nofun b hb
  refine ⟨hinv.places.transfer (.hand t) .jobQueue nofun ?_ hframe, hinv.lost_lt,
    fun o ho b hb => ?_⟩
  · rw [hafter]
    exact hperm
  · by_cases hhand : o = .hand t
    · rw [hhand, hafter] at hb
      exact hboth b (List.mem_append_left q hb)
    by_cases hqueue : o = .jobQueue
    · subst hqueue
      exact hboth b (List.mem_append_right (ofHand h) hb)
    · rw [hframe o hhand hqueue] at hb
      exact hinv.constructed o ho b hb

/-- A hand puts its block at the end of the job queue. -/
theorem Inv.push (hinv : Inv lost s) (hblock : ofHand (s.hand t) = [block]) :
    Inv lost { s.setHand t .nothing with jobQueue := s.jobQueue ++ [block] } := by
  apply hinv.exchange
  rw [hblock]
  exact List.perm_append_singleton block s.jobQueue

/-- A thread takes the front of the job queue. -/
theorem Inv.pop (hinv : Inv lost s) {rest : List Nat} (hqueue : s.jobQueue = block :: rest)
    (hempty : ofHand (s.hand t) = []) :
    Inv lost { s.setHand t (.executing block) with jobQueue := rest } := by
  apply hinv.exchange
  rw [hempty, hqueue]
  exact List.Perm.refl (block :: rest)

/-- Nobody else has the block whose job is destroyed. -/
theorem Inv.deallocate (hinv : Inv lost s) (hblock : ofHand (s.hand (.job i)) = [block]) :
    Inv lost (s.deallocate i block) := by
  have hheld : s.held (.hand (.job i)) = [block] := hblock
  have hafter : (s.deallocate i block).held (.hand (.job i)) = [] :=
    held_setHand_self s (.job i) .nothing
  have hframe : ∀ o, o ≠ .hand (.job i) → o ≠ .freeList →
      (s.deallocate i block).held o = s.held o := by
    intro o hhand hfree
    rw [← held_setHand s (.job i) .nothing hhand]
    cases o with
    | freeList => exact absurd rfl hfree
    | _ => rfl
  refine ⟨hinv.places.transfer (.hand (.job i)) .freeList nofun ?_ hframe, hinv.lost_lt,
    fun o ho b hb => ?_⟩
  · rw [hafter, hheld]
    exact List.perm_append_singleton block s.freeList
  · by_cases hhand : o = .hand (.job i)
    · rw [hhand, hafter] at hb
      cases hb
    rw [hframe o hhand ho] at hb
    have hne : b ≠ block := by
      rintro rfl
      exact hhand (hinv.places.apart o (.hand (.job i)) b hb (hheld ▸ List.mem_singleton_self b))
    show (Function.update s.memory block none b).isSome
    rw [Function.update_of_ne hne]
    exact hinv.constructed o ho b hb

/-- What `Parse` says decides where the block goes. -/
theorem Inv.parse (hinv : Inv lost s) (hhand : s.hand (.worker i) = .parsing block payload)
    (hs : s.parse i block payload = some s') :
    Inv (if payload.length ≤ sizeofEchoParameter then lost
      else fun b => b = block ∨ lost b) s' := by
  have hblock : ofHand (s.hand (.worker i)) = [block] := congrArg ofHand hhand
  obtain ⟨job, -, rfl⟩ := Option.map_eq_some_iff.mp hs
  cases hparse : job.parse payload with
  | none =>
    have hlong : ¬ payload.length ≤ sizeofEchoParameter := by
      rw [← parse_isSome_iff job, hparse]
      exact Bool.false_ne_true
    rw [if_neg hlong]
    exact hinv.drop hblock
  | some job' =>
    have hfits : payload.length ≤ sizeofEchoParameter := by
      rw [← parse_isSome_iff job, hparse]
      rfl
    rw [if_pos hfits]
    exact (hinv.rehand (h := .created block) hblock.symm).write block job'

theorem Inv.settle (hinv : Inv lost s) (hblock : ofHand (s.hand (.job i)) = [block])
    (eRet : InfoCode) : Inv lost (s.settle i block eRet) := by
  cases eRet with
  | NOT_FINISHED => exact hinv.push hblock
  | _ => exact hinv.deallocate hblock

/-- A step keeps every block in its one place, except that of a job whose payload is too long. -/
theorem inv_step (hinv : Inv lost s) (hs : step s a = some s') :
    ∃ lost', Inv lost' s' ∧ (s.Parses a → lost' = lost) ∧ (¬ s.Parses a → ∃ b, lost' b) := by
  have hmoves : Inv lost s' → ∃ lost', Inv lost' s' ∧ (True → lost' = lost) ∧
      (¬ True → ∃ b, lost' b) :=
    fun h => ⟨lost, h, fun _ => rfl, fun hno => absurd trivial hno⟩
  cases a with
  | createJob i userindex_ req_ =>
    simp only [step] at hs
    split at hs
    · next hhand => exact hmoves (hinv.createJob hhand hs)
    · cases hs
  | operatorNew i allocated =>
    simp only [step] at hs
    split at hs
    · next userindex_ req_ hhand =>
      split at hs
      · obtain rfl := Option.some.inj hs
        exact hmoves (hinv.grow hhand)
      · obtain rfl := Option.some.inj hs
        exact hmoves (hinv.rehand (congrArg ofHand hhand).symm)
    · cases hs
  | parse i =>
    simp only [step] at hs
    split at hs
    · next block payload hhand =>
      have hparse := hinv.parse hhand hs
      simp only [Parses, hhand, payloadOf]
      by_cases hfits : payload.length ≤ sizeofEchoParameter
      · rw [if_pos hfits] at hparse
        exact ⟨lost, hparse, fun _ => rfl, fun hno => absurd hfits hno⟩
      · rw [if_neg hfits] at hparse
        exact ⟨_, hparse, fun hyes => absurd hyes hfits, fun _ => ⟨block, .inl rfl⟩⟩
    · cases hs
  | pushJob i =>
    simp only [step] at hs
    split at hs
    · next block hhand =>
      obtain rfl := Option.some.inj hs
      exact hmoves (hinv.push (congrArg ofHand hhand))
    · cases hs
  | tryPop i =>
    simp only [step] at hs
    split at hs
    · next hhand =>
      split at hs
      · obtain rfl := Option.some.inj hs
        exact hmoves hinv
      · next block rest hqueue =>
        obtain rfl := Option.some.inj hs
        exact hmoves (hinv.pop hqueue (congrArg ofHand hhand))
    · cases hs
  | execute i eRet =>
    simp only [step] at hs
    split at hs
    · next block hhand =>
      obtain ⟨job, -, rfl⟩ := Option.map_eq_some_iff.mp hs
      exact hmoves (hinv.rehand (h := .executed block eRet) (congrArg ofHand hhand).symm)
    · cases hs
  | settle i =>
    simp only [step] at hs
    split at hs
    · next block eRet hhand =>
      obtain ⟨job, -, rfl⟩ := Option.map_eq_some_iff.mp hs
      exact hmoves (hinv.settle (congrArg ofHand hhand) eRet)
    · cases hs

theorem inv_init (n : Nat) : Inv (fun _ => False) (init n) := by
  have hplaces : Exclusive (init n).held (· ∈ List.range n) := by
    refine Exclusive.init List.nodup_range (o := .freeList) rfl fun o ho => ?_
    cases o with
    | freeList => exact absurd rfl ho
    | _ => rfl
  refine ⟨hplaces.congr (fun _ => rfl) fun b => ?_, fun _ hb => hb.elim, fun o ho b hb => ?_⟩
  · rw [List.mem_range]
    exact and_iff_left id
  · cases o with
    | freeList => exact absurd rfl ho
    | _ => cases hb

/-! ## Runs -/

/-- In every run the blocks in the queue and in the hands have a job in them. -/
theorem constructed {n : Nat} {acts : List PoolAct} (hr : run step (init n) acts = some s) :
    ∀ o, o ≠ .freeList → ∀ b ∈ s.held o, (s.memory b).isSome := by
  obtain ⟨lost, hinv⟩ := run_stable (I := fun s => ∃ lost, Inv lost s)
    (fun s a s' hex hs => by
      obtain ⟨lost, hinv⟩ := hex
      obtain ⟨lost', hinv', -⟩ := inv_step hinv hs
      exact ⟨lost', hinv'⟩)
    ⟨_, inv_init n⟩ hr
  exact hinv.constructed

/-- In every state of a run each block is in exactly one place if and only if every payload that
is parsed fits into its parameter. -/
theorem blocks_conserved_iff {n : Nat} {acts : List PoolAct}
    (hr : run step (init n) acts = some s) :
    Always step Conserved (init n) acts ↔ Meets step Parses (init n) acts := by
  refine always_iff_meets (I := Inv fun _ => False) (fun s hinv => hinv.conserved) ?_ ?_
    (inv_init n) hr
  · intro s a s' hinv ha hs
    obtain ⟨lost', hinv', hsame, -⟩ := inv_step hinv hs
    obtain rfl := hsame ha
    exact hinv'
  · intro s a s' hinv ha hs hconserved
    obtain ⟨lost', hinv', -, hlost⟩ := inv_step hinv hs
    obtain ⟨b, hb⟩ := hlost ha
    -- the lost block has been obtained, so that it should be in some place
    obtain ⟨o, ho⟩ := (hconserved.live_iff b).mp (hinv'.lost_lt b hb)
    exact ((hinv'.places.live_iff b).mpr ⟨o, ho⟩).2 hb

/-- An echo request whose payload is a whole parameter; it goes through the queue twice. -/
def echoRequest : Bytes := [96, 0, 0, 0, 0, 0, 0, 0, 7, 0, 0, 0] ++ List.replicate 84 1

theorem blocks_conserved_iff_echo : Always step Conserved (init memoryPoolSize)
    [.createJob 0 3 echoRequest, .parse 0, .pushJob 0, .tryPop 1, .execute 1 .NOT_FINISHED,
      .settle 1, .tryPop 1, .execute 1 .REQ_SUCCESS, .settle 1] := by
  have hrun : (run step (init memoryPoolSize) [.createJob 0 3 echoRequest, .parse 0, .pushJob 0,
      .tryPop 1, .execute 1 .NOT_FINISHED, .settle 1, .tryPop 1, .execute 1 .REQ_SUCCESS,
      .settle 1]).isSome = true := by decide +kernel
  obtain ⟨s, hs⟩ := Option.isSome_iff_exists.mp hrun
  exact (blocks_conserved_iff hs).mpr (by decide +kernel)

/-! ## Messages with a long payload -/

/-- `CreateJob` returns a null pointer, and the front of the free list is in no place. -/
theorem long_payload (hhand : s.hand (.worker i) = .nothing) {rest : List Nat}
    (hfree : s.freeList = block :: rest) (htype : toInt32 (readU32 req_ 4) = 0)
    (hlong : sizeofReqHeader + sizeofEchoParameter < req_.length) :
    run step s [.createJob i userindex_ req_, .parse i] =
      some (({ s with freeList := rest }.construct i userindex_ req_ block).setHand (.worker i)
        .nothing) := by
  have hheader : ¬ req_.length < sizeofReqHeader := by omega
  have hcreate : step s (.createJob i userindex_ req_) =
      some ({ s with freeList := rest }.construct i userindex_ req_ block) := by
    simp only [step, hhand, if_true, Pool.createJob, if_neg hheader, htype, ne_eq,
      not_true_eq_false, if_false, hfree]
  have hparse : (EchoJob.new userindex_ (readU32 req_ 8)).parse (req_.drop sizeofReqHeader) =
      none := by
    rw [← Option.not_isSome_iff_eq_none, parse_isSome_iff, List.length_drop]
    omega
  refine run_cons_eq_some.mpr ⟨_, hcreate, run_cons_eq_some.mpr ⟨_, ?_, rfl⟩⟩
  have hpayload : ({ s with freeList := rest }.construct i userindex_ req_ block).hand
      (.worker i) = .parsing block (req_.drop sizeofReqHeader) := Function.update_self ..
  have hmemory : ({ s with freeList := rest }.construct i userindex_ req_ block).memory block =
      some (.new userindex_ (readU32 req_ 8)) := Function.update_self ..
  simp only [step, hpayload, Pool.parse, hmemory, Option.map_some, hparse]

/-- Each message takes one block. -/
theorem long_payloads (hhand : s.hand (.worker i) = .nothing)
    (htype : toInt32 (readU32 req_ 4) = 0)
    (hlong : sizeofReqHeader + sizeofEchoParameter < req_.length) (n : Nat)
    (hn : n ≤ s.freeList.length) : ∃ t,
      run step s (List.replicate n [.createJob i userindex_ req_, .parse i]).flatten = some t ∧
      t.freeList = s.freeList.drop n := by
  induction n generalizing s with
  | zero => exact ⟨s, rfl, rfl⟩
  | succ n ih =>
    cases hfree : s.freeList with
    | nil =>
      rw [hfree] at hn
      exact absurd hn (Nat.not_succ_le_zero n)
    | cons block rest =>
      rw [hfree] at hn
      rw [List.replicate_succ, List.flatten_cons, run_append,
        long_payload hhand hfree htype hlong, Option.bind_some, List.drop_succ_cons]
      exact ih (Function.update_self ..) (Nat.le_of_succ_le_succ hn)

/-- One echo request whose payload is one byte longer than the parameter. -/
theorem block_lost : ¬ ∀ (n : Nat) (acts : List PoolAct),
    Always step Conserved (init n) acts := by
  intro h
  have hrun : run step (init 1) [.createJob 0 3 (echoRequest ++ [1]), .parse 0] = some _ :=
    long_payload rfl (show (init 1).freeList = 0 :: [] from rfl) (by decide +kernel)
      (by decide +kernel)
  obtain ⟨o, ho⟩ := ((always_last (h 1 _) hrun).live_iff 0).mp Nat.one_pos
  cases o with
  | hand t =>
    by_cases ht : t = .worker 0
    · rw [ht, held_setHand_self] at ho
      cases ho
    · have hne : Place.hand t ≠ .hand (.worker 0) := fun he => ht (Place.hand.inj he)
      rw [held_setHand _ _ _ hne, held_construct, if_neg hne] at ho
      cases ho
  | _ => cases ho

end Pool

end IOCPServer
