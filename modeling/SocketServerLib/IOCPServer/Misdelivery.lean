import SocketServerLib.IOCPServer.JobThreads

/-
  Whose packet it is: a job has the index of its client, and the index goes to the client that is
  accepted next.

  `PostedThreads` is `JobThreads` with what the server has outstanding: `accepting i` says whether
  connection `i` has an `AcceptEx`, `posts i` counts the `WSASend`s of its session whose entries
  are still to come, and `late i` those of the sessions before. A client is accepted only where an
  `AcceptEx` is outstanding, `WorkerThread` calls `SendCompleted` once at most for each `WSASend`,
  and `ReSend` for an entry only.

  What is proved:
    1. `delivered_step` — as long as no job awaits its execution whose connection has been reset,
       every packet goes to the client of its request.
    2. `misdelivered_iff` — a client can get a packet that is not his, without a further reset, if
       and only if a job awaits its execution whose connection has been reset since, as far as
       the connections of such jobs take packets (`Open`).

  What is assumed: at most 2^16 connections, which `uint16_t` indexes, and a job thread. Which
  sockets `AcceptEx` gets, what `WSASend` answers, and which entries come first is free; an entry
  of an earlier session may be one that came through before the socket was closed.
-/
namespace IOCPServer
open RacingGameServer (Bytes SlideBuffer)
open LabelledRun

namespace JobThreads

/-- Every packet stored is for the session of its request. -/
def Delivered (s : JobThreads) : Prop :=
  ∀ e ∈ s.stored, e.connection = e.request.client ∧ e.session = e.request.session

variable {s s' t : JobThreads} {a : JobAct} {acts : List JobAct} {h g : LoopPoint} {w : Nat}
  {pJob : Request} {eRet : InfoCode} {n threads : Nat}

/-! ## Jobs of an earlier session -/

instance (s : JobThreads) : Decidable s.Delivered := inferInstanceAs (Decidable (∀ _ ∈ _, _))

/-- A job that awaits its execution was made in an earlier session of its connection. -/
def Stale (s : JobThreads) : Prop := ∃ pJob ∈ s.awaiting, pJob.session ≠ s.sessions pJob.client

instance (s : JobThreads) : Decidable s.Stale := inferInstanceAs (Decidable (∃ _ ∈ _, _))

theorem mem_flatMap_set {f : LoopPoint → List Request}
    (hmem : pJob ∈ (s.hands.set w g).flatMap f) : pJob ∈ s.hands.flatMap f ∨ pJob ∈ f g := by
  obtain ⟨x, hx, hf⟩ := List.mem_flatMap.mp hmem
  rcases List.mem_or_eq_of_mem_set hx with hx | rfl
  · exact .inl (List.mem_flatMap.mpr ⟨x, hx, hf⟩)
  · exact .inr hf

theorem mem_hand {f : LoopPoint → List Request} (hw : s.hands[w]? = some h)
    (hf : pJob ∈ f h) : pJob ∈ s.hands.flatMap f :=
  List.mem_flatMap.mpr ⟨h, List.mem_of_getElem? hw, hf⟩

theorem mem_awaiting : pJob ∈ s.awaiting ↔
    pJob ∈ s.creating ∨ pJob ∈ s.queue ∨ pJob ∈ s.hands.flatMap awaits := by
  rw [awaiting, List.mem_append, List.mem_append, or_assoc]

/-- A hand that holds a job that awaits goes on with it, or with none. -/
theorem awaiting_setHand {queue : List Request} (hqueue : ∀ q ∈ queue, q ∈ s.awaiting)
    (hhand : ∀ q ∈ awaits g, q ∈ s.awaiting)
    (hmem : pJob ∈ awaiting { s with queue := queue, hands := s.hands.set w g }) :
    pJob ∈ s.awaiting := by
  rcases mem_awaiting.mp hmem with hmem | hmem | hmem
  · exact mem_awaiting.mpr (.inl hmem)
  · exact hqueue pJob hmem
  · rcases mem_flatMap_set hmem with hmem | hmem
    · exact mem_awaiting.mpr (.inr (.inr hmem))
    · exact hhand pJob hmem

theorem awaits_executed {packet : Bool} {q : Request} (hq : q ∈ awaits (s.executed pJob packet)) :
    q = pJob := by
  have hcount := count_holds (s.executed pJob packet) q
  rw [holds_executed] at hcount
  have hpos := List.count_pos_iff.mpr hq
  exact List.mem_singleton.mp (List.count_pos_iff.mp (by omega))

/-- What awaits its execution after a step has awaited it before, or comes in this step. -/
theorem step_awaiting (hstep : step s a = some s') (hmem : pJob ∈ s'.awaiting) :
    pJob ∈ s.awaiting ∨ ∃ i job, i < s.size ∧ pJob = s.request i job := by
  have hin : ∀ q ∈ s.queue, q ∈ s.awaiting := fun q hq => mem_awaiting.mpr (.inr (.inl hq))
  have hhand : ∀ {w h q}, s.hands[w]? = some h → q ∈ awaits h → q ∈ s.awaiting :=
    fun hw hq => mem_awaiting.mpr (.inr (.inr (mem_hand hw hq)))
  rcases step_cases hstep with ⟨conns, sessions, rfl, -⟩ | ⟨i, job, -, hi, -, rfl⟩ |
    ⟨k, q, -, hk, rfl⟩ | ⟨w, q, rest, -, hw, hqueue, rfl⟩ | ⟨w, packet, q, -, hw, rfl⟩ |
    ⟨w, post, q, -, hw, rfl⟩ | ⟨w, q, eRet, -, hw, rfl⟩
  · exact .inl hmem
  · rcases mem_awaiting.mp hmem with hmem | hmem
    · rcases List.mem_append.mp hmem with hmem | hmem
      · exact .inl (mem_awaiting.mpr (.inl hmem))
      · exact .inr ⟨i, job, hi, List.mem_singleton.mp hmem⟩
    · exact .inl (mem_awaiting.mpr (.inr hmem))
  · left
    rcases mem_awaiting.mp hmem with hmem | hmem | hmem
    · exact mem_awaiting.mpr (.inl (List.mem_of_mem_eraseIdx hmem))
    · rcases List.mem_append.mp hmem with hmem | hmem
      · exact hin _ hmem
      · obtain rfl := List.mem_singleton.mp hmem
        exact mem_awaiting.mpr (.inl (List.mem_of_getElem? hk))
    · exact mem_awaiting.mpr (.inr (.inr hmem))
  · refine .inl (awaiting_setHand ?_ ?_ hmem)
    · intro x hx
      exact hin x (hqueue ▸ List.mem_cons_of_mem q hx)
    · intro x hx
      obtain rfl := List.mem_singleton.mp hx
      exact hin _ (hqueue ▸ List.mem_cons_self)
  · refine .inl (awaiting_setHand hin ?_ hmem)
    intro x hx
    obtain rfl := awaits_executed hx
    exact hhand hw (List.mem_singleton_self _)
  · refine .inl (awaiting_setHand (w := w) (g := .returned q _) hin ?_ hmem)
    intro x hx
    unfold sendResultMsg at hx
    split at hx
    · cases hx
    · obtain rfl := List.mem_singleton.mp hx
      exact hhand hw (List.mem_singleton_self _)
  · left
    cases eRet with
    | NOT_FINISHED =>
      refine awaiting_setHand (w := w) (g := .idle) ?_ (fun x hx => by cases hx) hmem
      intro x hx
      rcases List.mem_append.mp hx with hx | hx
      · exact hin x hx
      · obtain rfl := List.mem_singleton.mp hx
        exact hhand hw (List.mem_singleton_self _)
    | _ => exact awaiting_setHand (w := w) (g := .idle) hin (fun x hx => by cases hx) hmem

theorem step_sessions (hstep : step s a = some s') (ha : ¬ IsReset a) :
    s'.sessions = s.sessions := by
  rcases step_cases hstep with ⟨conns, sessions, rfl, hsame, -⟩ | ⟨i, job, -, -, -, rfl⟩ |
    ⟨k, q, -, hk, rfl⟩ | ⟨w, q, rest, -, hw, hqueue, rfl⟩ | ⟨w, packet, q, -, hw, rfl⟩ |
    ⟨w, post, q, -, hw, rfl⟩ | ⟨w, q, eRet, -, hw, rfl⟩
  · exact hsame ha
  · rfl
  · rfl
  · rfl
  · rfl
  · rfl
  · cases eRet <;> rfl

/-- A step stores the packet of a job that is past the tests of `SendMsg`, or none. -/
theorem step_stored (hstep : step s a = some s') : s'.stored = s.stored ∨
    ∃ (w : Nat) (pJob : Request), s.hands[w]? = some (LoopPoint.entered pJob) ∧
      s'.stored = s.stored ++ [s.entry pJob] := by
  rcases step_cases hstep with ⟨conns, sessions, rfl, -⟩ | ⟨i, job, -, -, -, rfl⟩ |
    ⟨k, q, -, hk, rfl⟩ | ⟨w, q, rest, -, hw, hqueue, rfl⟩ | ⟨w, packet, q, -, hw, rfl⟩ |
    ⟨w, post, q, -, hw, rfl⟩ | ⟨w, q, eRet, -, hw, rfl⟩
  · exact .inl rfl
  · exact .inl rfl
  · exact .inl rfl
  · exact .inl rfl
  · exact .inl rfl
  · simp only [storePacket]
    split
    · exact .inr ⟨w, q, hw, rfl⟩
    · exact .inl rfl
  · left
    cases eRet <;> rfl

structure Inv (s : JobThreads) : Prop where
  kept : s.Kept
  size_le : s.size ≤ 2 ^ 16
  wf : ∀ i, SendStream.Wf (s.conns i)
  client : ∀ pJob ∈ s.received, pJob.client < s.size ∧ pJob.job.userIndex = pJob.client

theorem inv_init (hn : n ≤ 2 ^ 16) : Inv (init n threads) where
  kept := kept_init n threads
  size_le := hn
  wf _ := ⟨SlideBuffer.wf_init _, rfl⟩
  client _ hmem := by cases hmem

theorem inv_step (hinv : s.Inv) (hstep : step s a = some s') : s'.Inv where
  kept := kept_step hinv.kept hstep
  size_le := (step_received hstep).1 ▸ hinv.size_le
  wf := by
    rcases step_cases hstep with ⟨conns, sessions, rfl, -, hwf, -⟩ | ⟨i, job, -, -, -, rfl⟩ |
      ⟨k, q, -, hk, rfl⟩ | ⟨w, q, rest, -, hw, hqueue, rfl⟩ | ⟨w, packet, q, -, hw, rfl⟩ |
      ⟨w, post, q, -, hw, rfl⟩ | ⟨w, q, eRet, -, hw, rfl⟩
    · exact hwf hinv.wf
    · exact hinv.wf
    · exact hinv.wf
    · exact hinv.wf
    · exact hinv.wf
    · exact wf_setConn hinv.wf (Slot.wf_store (hinv.wf _) _ post) _
    · cases eRet <;> exact hinv.wf
  client := by
    obtain ⟨hsize, hsame | ⟨i, job, hi, hjob, hmore⟩⟩ := step_received hstep
    · rw [hsame, hsize]
      exact hinv.client
    · rw [hmore, hsize]
      intro pJob hmem
      rcases List.mem_append.mp hmem with hmem | hmem
      · exact hinv.client pJob hmem
      · obtain rfl := List.mem_singleton.mp hmem
        have hlt : i < 2 ^ 16 := Nat.lt_of_lt_of_le hi hinv.size_le
        exact ⟨hi, hjob.trans (Nat.mod_eq_of_lt hlt)⟩

theorem inv_run (hinv : s.Inv) (hrun : run step s acts = some t) : t.Inv :=
  run_stable (fun _ _ _ hinv hstep => inv_step hinv hstep) hinv hrun

theorem Inv.awaiting_client (hinv : s.Inv) (hmem : pJob ∈ s.awaiting) :
    pJob.client < s.size ∧ pJob.job.userIndex = pJob.client := by
  apply hinv.client
  have hplaces := hinv.kept.places pJob
  have hpos := List.count_pos_iff.mpr hmem
  unfold places at hplaces
  exact List.count_pos_iff.mp (by omega)

/-- Without a reset a job that awaits its execution in its session is stored in it. -/
theorem delivered_step (hinv : s.Inv) (hstale : ¬ s.Stale) (hdelivered : s.Delivered)
    (ha : ¬ IsReset a) (hstep : step s a = some s') : ¬ s'.Stale ∧ s'.Delivered := by
  simp only [Stale, not_exists, not_and, not_not] at hstale ⊢
  have hsessions := step_sessions hstep ha
  constructor
  · intro pJob hmem
    rw [hsessions]
    rcases step_awaiting hstep hmem with hmem | ⟨i, job, -, rfl⟩
    · exact hstale pJob hmem
    · rfl
  · rcases step_stored hstep with hsame | ⟨w, pJob, hw, hmore⟩
    · unfold Delivered
      rw [hsame]
      exact hdelivered
    · have hmem : pJob ∈ s.awaiting :=
        mem_awaiting.mpr (.inr (.inr (mem_hand hw (List.mem_singleton_self _))))
      intro e he
      rw [hmore] at he
      rcases List.mem_append.mp he with he | he
      · exact hdelivered e he
      · obtain rfl := List.mem_singleton.mp he
        obtain ⟨-, hindex⟩ := hinv.awaiting_client hmem
        refine ⟨hindex, ?_⟩
        show s.sessions pJob.job.userIndex = pJob.session
        rw [hindex, hstale pJob hmem]

theorem getElem?_setHand (hw : s.hands[w]? = some h) (g : LoopPoint) :
    (s.hands.set w g)[w]? = some g := by
  obtain ⟨hlt, -⟩ := List.getElem?_eq_some_iff.mp hw
  exact List.getElem?_set_self hlt

theorem step_threads (hstep : step s a = some s') : s'.hands.length = s.hands.length := by
  rcases step_cases hstep with ⟨conns, sessions, rfl, -⟩ | ⟨i, job, -, -, -, rfl⟩ |
    ⟨k, q, -, hk, rfl⟩ | ⟨w, q, rest, -, hw, hqueue, rfl⟩ | ⟨w, packet, q, -, hw, rfl⟩ |
    ⟨w, post, q, -, hw, rfl⟩ | ⟨w, q, eRet, -, hw, rfl⟩
  · rfl
  · rfl
  · rfl
  · exact List.length_set
  · exact List.length_set
  · exact List.length_set
  · cases eRet <;> exact List.length_set

/-! ## How many jobs await their execution -/

/-- What awaits when the queue and one hand have moved. -/
theorem length_awaiting (hw : s.hands[w]? = some h) (g : LoopPoint) (queue : List Request) :
    (awaiting { s with queue := queue, hands := s.hands.set w g }).length + s.queue.length +
        (awaits h).length = s.awaiting.length + queue.length + (awaits g).length := by
  obtain ⟨rest, hbefore, hafter⟩ := Counting.flatMap_set_perm awaits hw
  have hlength := hbefore.length_eq
  have hlength' := (hafter g).length_eq
  rw [List.length_append] at hlength hlength'
  simp only [awaiting, List.length_append]
  omega

theorem length_awaiting_le (hw : s.hands[w]? = some h) {queue : List Request}
    (hle : queue.length + (awaits g).length ≤ s.queue.length + (awaits h).length) :
    (awaiting { s with queue := queue, hands := s.hands.set w g }).length ≤ s.awaiting.length := by
  have hwaits := length_awaiting hw g queue
  omega

/-- `Execute` comes to the lock of `SendMsg`, or returns. -/
theorem executed_cases (s : JobThreads) (pJob : Request) (packet : Bool) :
    s.executed pJob packet = .entered pJob ∨ ∃ eRet, s.executed pJob packet =
      .returned pJob eRet := by
  unfold executed
  split
  · exact .inr ⟨_, rfl⟩
  · split
    · exact .inr ⟨_, rfl⟩
    · split
      · exact .inr ⟨_, rfl⟩
      · exact .inl rfl

theorem length_awaits_executed (s : JobThreads) (pJob : Request) (packet : Bool) :
    (awaits (s.executed pJob packet)).length ≤ 1 := by
  rcases executed_cases s pJob packet with hnext | ⟨eRet, hnext⟩
  · rw [hnext]
    exact Nat.le_refl 1
  · rw [hnext]
    cases eRet with
    | NOT_FINISHED => exact Nat.le_refl 1
    | _ => exact Nat.zero_le 1

theorem length_push {k : Nat} (hk : s.creating[k]? = some pJob) :
    (awaiting { s with
      creating := s.creating.eraseIdx k, queue := s.queue ++ [pJob] }).length =
        s.awaiting.length := by
  obtain ⟨hlt, -⟩ := List.getElem?_eq_some_iff.mp hk
  simp only [awaiting, List.length_append, List.length_eraseIdx_of_lt hlt, List.length_singleton]
  omega

/-! ## Entries of sends -/

theorem conns_setConn (s : JobThreads) (i : Nat) (c : Connection) : (s.setConn i c).conns i = c :=
  Function.update_self ..

/-- The entry of a send comes in, and what is left is posted. -/
def completed (c : Connection) : Connection := (c.sendCompleted true).1

/-- Something is in flight of what the buffer has. -/
def InFlight (c : Connection) : Prop :=
  c.sendBuffer.size = 0 ∨ 0 < c.sendLen ∧ c.sendLen ≤ c.sendBuffer.size

theorem completed_spec (c : Connection) :
    (completed c).isConnected = c.isConnected ∧ InFlight (completed c) ∧
      (completed c).sendBuffer.size =
        if c.sendLen > c.sendBuffer.size then c.sendBuffer.size
        else c.sendBuffer.size - c.sendLen := by
  have hpopped : c.popped.sendBuffer.size =
      if c.sendLen > c.sendBuffer.size then c.sendBuffer.size
      else c.sendBuffer.size - c.sendLen := by
    show (c.sendBuffer.pop c.sendLen).1.size = _
    unfold SlideBuffer.pop
    split <;> rfl
  unfold completed Connection.sendCompleted
  split
  · next hempty =>
    have hzero : c.popped.sendBuffer.size = 0 := of_decide_eq_true hempty
    exact ⟨rfl, .inl hzero, hpopped⟩
  · next hmore =>
    have hpos : 0 < c.popped.sendBuffer.size := by
      rw [Nat.pos_iff_ne_zero]
      intro hzero
      exact hmore (decide_eq_true hzero)
    exact ⟨rfl, .inr ⟨SendStream.datasize_pos hpos, SendStream.datasize_le _⟩, hpopped⟩

end JobThreads

/-! ## What is outstanding -/

/-- The steps of `WorkerThread`. -/
def JobAct.isWorkers : JobAct → Bool
  | .accept _ => true
  | .reset _ => true
  | .reSend _ _ => true
  | .doSend _ _ => true
  | _ => false

/-- How many `WSASend`s of a step connection `i` takes. -/
def JobThreads.posted (s : JobThreads) (i : Nat) : JobAct → Nat
  | .store w post =>
    match s.hands[w]? with
    | some (.entered pJob) =>
      if pJob.job.userIndex = i then ((s.conns i).store pJob.job.packet post).2.2.length else 0
    | _ => 0
  | .reSend j post => if j = i then ((s.conns i).reSend post).2.2.length else 0
  | .doSend j post => if j = i then ((s.conns i).sendCompleted post).2.length else 0
  | _ => 0

structure PostedThreads where
  server : JobThreads
  accepting : Nat → Bool
  posts : Nat → Nat
  late : Nat → Nat

/-- `socket` is whether `BindAcceptEx` has posted an `AcceptEx`, `old` whether an entry is for a
send of an earlier session. `skip` is an entry of a send that calls neither `ReSend` nor
`SendCompleted`: a cancelled one, or one of 0 bytes, whose reset is a step of its own. `serve` is a
step of `OnReceive` or of a job thread. -/
inductive PostedAct where
  | accept (i : Nat)
  | reset (i : Nat) (socket : Bool)
  | reSend (i : Nat) (post : Bool)
  | doSend (i : Nat) (old post : Bool)
  | skip (i : Nat) (old : Bool)
  | serve (a : JobAct)

def PostedAct.IsReset : PostedAct → Prop
  | .reset _ _ => True
  | _ => False

namespace PostedThreads

/-- `socket i` is the answer of the `BindAcceptEx` of connection `i` in `Start`. -/
def init (uMaxClient_ threads : Nat) (socket : Nat → Bool) : PostedThreads :=
  { server := .init uMaxClient_ threads, accepting := socket, posts := fun _ => 0
    late := fun _ => 0 }

/-- The server has made a step. -/
def after (s : PostedThreads) (a : JobAct) (u : JobThreads) : PostedThreads :=
  { s with server := u, posts := fun i => s.posts i + s.server.posted i a }

def worked (s : PostedThreads) (a : JobAct) : Option PostedThreads :=
  (s.server.step a).map (s.after a)

/-- An entry of a send has come in. -/
def took (s : PostedThreads) (i : Nat) (old : Bool) : Option PostedThreads :=
  if old = true then
    if s.late i = 0 then none
    else some { s with late := Function.update s.late i (s.late i - 1) }
  else
    if s.posts i = 0 then none
    else some { s with posts := Function.update s.posts i (s.posts i - 1) }

def step (s : PostedThreads) : PostedAct → Option PostedThreads
  | .accept i =>
    if s.accepting i = true then
      { s with accepting := Function.update s.accepting i false }.worked (.accept i)
    else none
  | .reset i socket =>
    { s with
      accepting := Function.update s.accepting i socket
      posts := Function.update s.posts i 0
      late := Function.update s.late i (s.late i + s.posts i) }.worked (.reset i)
  -- `WorkerThread` goes on to `DoSend` with the same entry
  | .reSend i post => if s.posts i + s.late i = 0 then none else s.worked (.reSend i post)
  | .doSend i old post => (s.took i old).bind fun t => t.worked (.doSend i post)
  | .skip i old => s.took i old
  | .serve a => if a.isWorkers = true then none else s.worked a

/-- Connection `i` can take packets: there is a send in flight, which makes room when it has come
through, or room for the packet of each job that awaits its execution, of 96 bytes. -/
def Room (s : PostedThreads) (i : Nat) : Prop :=
  0 < s.posts i ∨ (s.server.conns i).sendBuffer.size + 96 * s.server.awaiting.length ≤
    (s.server.conns i).sendBuffer.capacity

/-- Connection `i` has a client or waits for one, and can take packets. -/
def Open (s : PostedThreads) (i : Nat) : Prop :=
  ((s.server.conns i).isConnected = true ∨ s.accepting i = true) ∧ s.Room i

instance (s : PostedThreads) (i : Nat) : Decidable (s.Room i) :=
  inferInstanceAs (Decidable (_ ∨ _))

instance (s : PostedThreads) (i : Nat) : Decidable (s.Open i) :=
  inferInstanceAs (Decidable (_ ∧ _))

variable {s s' t : PostedThreads} {a : PostedAct} {b : JobAct} {u : JobThreads}
  {acts : List PostedAct} {h : LoopPoint} {w i : Nat} {pJob : Request} {eRet : InfoCode}
  {n threads : Nat} {socket : Nat → Bool}

theorem took_server {old : Bool} (htook : s.took i old = some t) : t.server = s.server := by
  unfold took at htook
  split at htook
  · split at htook
    · cases htook
    · obtain rfl := Option.some.inj htook
      rfl
  · split at htook
    · cases htook
    · obtain rfl := Option.some.inj htook
      rfl

theorem worked_server (hworked : s.worked b = some t) :
    JobThreads.step s.server b = some t.server := by
  obtain ⟨u, hu, rfl⟩ := Option.map_eq_some_iff.mp hworked
  exact hu

/-- A step is one of the server, or an entry that is skipped. -/
theorem step_server (hstep : step s a = some s') : s'.server = s.server ∨
    ∃ b, JobThreads.step s.server b = some s'.server ∧ (JobThreads.IsReset b → a.IsReset) := by
  cases a with
  | accept i =>
    simp only [step] at hstep
    split at hstep
    · have hserver := worked_server hstep
      exact .inr ⟨.accept i, hserver, id⟩
    · cases hstep
  | reset i socket =>
    simp only [step] at hstep
    have hserver := worked_server hstep
    exact .inr ⟨.reset i, hserver, fun _ => trivial⟩
  | reSend i post =>
    simp only [step] at hstep
    split at hstep
    · cases hstep
    · exact .inr ⟨.reSend i post, worked_server hstep, id⟩
  | doSend i old post =>
    obtain ⟨r, htook, hstep⟩ := Option.bind_eq_some_iff.mp hstep
    exact .inr ⟨.doSend i post, took_server htook ▸ worked_server hstep, id⟩
  | skip i old => exact .inl (took_server hstep)
  | serve b =>
    simp only [step] at hstep
    split at hstep
    · cases hstep
    · next hserve =>
      refine .inr ⟨b, worked_server hstep, fun hreset => ?_⟩
      cases b with
      | reset i => exact absurd rfl hserve
      | _ => exact hreset

theorem inv_step (hinv : s.server.Inv) (hstep : step s a = some s') : s'.server.Inv := by
  rcases step_server hstep with hsame | ⟨b, hb, -⟩
  · exact hsame ▸ hinv
  · exact JobThreads.inv_step hinv hb

theorem inv_run (hinv : s.server.Inv) (hrun : run step s acts = some t) : t.server.Inv :=
  run_stable (I := fun r => r.server.Inv) (fun _ _ _ hinv hstep => inv_step hinv hstep) hinv hrun

/-! ## Runs that bring a job on -/

/-- A run without a reset leads from `s` to `t`. -/
def Leads (s t : PostedThreads) : Prop :=
  ∃ acts, (∀ a ∈ acts, ¬ a.IsReset) ∧ run step s acts = some t

theorem leads_refl (s : PostedThreads) : Leads s s := ⟨[], fun a ha => (by cases ha), rfl⟩

theorem Leads.trans {r : PostedThreads} (h₁ : Leads s t) (h₂ : Leads t r) : Leads s r := by
  obtain ⟨acts₁, hacts₁, hrun₁⟩ := h₁
  obtain ⟨acts₂, hacts₂, hrun₂⟩ := h₂
  refine ⟨acts₁ ++ acts₂, ?_, ?_⟩
  · intro a ha
    rcases List.mem_append.mp ha with ha | ha
    · exact hacts₁ a ha
    · exact hacts₂ a ha
  · rw [run_append, hrun₁]
    exact hrun₂

theorem leads_step (ha : ¬ a.IsReset) (hstep : step s a = some t) : Leads s t := by
  refine ⟨[a], ?_, run_cons_eq_some.mpr ⟨t, hstep, rfl⟩⟩
  intro b hb
  rw [List.mem_singleton.mp hb]
  exact ha

/-- A step of a job thread. -/
theorem leads_serve (hb : b.isWorkers = false) (hstep : JobThreads.step s.server b = some u) :
    Leads s (s.after b u) := by
  apply leads_step (a := .serve b) id
  simp only [step, hb, Bool.false_eq_true, if_false, worked, hstep, Option.map_some]

theorem Leads.inv (hleads : Leads s t) (hinv : s.server.Inv) : t.server.Inv := by
  obtain ⟨acts, -, hrun⟩ := hleads
  exact inv_run hinv hrun

theorem Leads.kept_fields (hleads : Leads s t) :
    t.server.sessions = s.server.sessions ∧ t.server.size = s.server.size := by
  obtain ⟨acts, hacts, hrun⟩ := hleads
  refine run_invariant (I := fun r => r.server.sessions = s.server.sessions ∧
    r.server.size = s.server.size) ?_ ⟨rfl, rfl⟩
    (meets_of_forall_mem fun a ha _ => hacts a ha) hrun
  intro r a r' h ha hstep
  rcases step_server hstep with hsame | ⟨b, hb, hreset⟩
  · rw [hsame]
    exact h
  · exact ⟨(JobThreads.step_sessions hb fun hb => ha (hreset hb)).trans h.1,
      (JobThreads.step_received hb).1.trans h.2⟩

theorem Leads.entry (hleads : Leads s t) (pJob : Request) :
    t.server.entry pJob = s.server.entry pJob := by
  show Stored.mk _ (t.server.sessions _) pJob = Stored.mk _ (s.server.sessions _) pJob
  rw [hleads.kept_fields.1]

/-! ## A connection that takes packets -/

/-- Connection `i` has a client and can take packets. -/
def Ready (s : PostedThreads) (i : Nat) : Prop :=
  (s.server.conns i).isConnected = true ∧ s.Room i

/-- A step that leaves the connection as it is, and lets no more jobs wait. -/
theorem Ready.of_conns (hready : s.Ready i) (hconns : t.server.conns i = s.server.conns i)
    (hposts : s.posts i ≤ t.posts i)
    (hawaiting : t.server.awaiting.length ≤ s.server.awaiting.length) : t.Ready i := by
  refine ⟨hconns ▸ hready.1, ?_⟩
  rcases hready.2 with hpos | hroom
  · exact .inl (Nat.lt_of_lt_of_le hpos hposts)
  · right
    rw [hconns]
    omega

theorem isConnected_store (c : Connection) (p : PacketData) (post : Bool) :
    (c.store p post).1.isConnected = c.isConnected := by
  simp only [Connection.store]
  split
  · rfl
  · split <;> rfl

theorem store_posts {c : Connection} {p : PacketData} (hwf : SendStream.Wf c) (hfits : c.Fits p)
    (hlen : c.sendLen = 0) : (c.store p true).2.2.length = 1 := by
  obtain ⟨hok, -, -⟩ := hwf.enqueue_fits hfits
  simp only [Connection.store, hok, hlen, Bool.true_eq_false, if_false, if_true]
  rfl

theorem store_queues {c : Connection} {p : PacketData} (hwf : SendStream.Wf c)
    (hfits : c.Fits p) (hlen : c.sendLen ≠ 0) (post : Bool) : (c.store p post).2.1 = true ∧
      (c.store p post).1.sendBuffer.size = c.sendBuffer.size + p.bytes.length ∧
      (c.store p post).1.sendBuffer.capacity = c.sendBuffer.capacity := by
  obtain ⟨hok, hbytes, hwf'⟩ := hwf.enqueue_fits hfits
  have hsize := SendStream.size_eq hwf'
  simp only [hbytes, List.length_append, SendStream.size_eq hwf] at hsize
  simp only [Connection.store, hok, hlen, Bool.true_eq_false, if_false]
  exact ⟨trivial, hsize.symm, SlideBuffer.capacity_enqueue ..⟩

theorem packet_length (pJob : Request) : pJob.job.packet.bytes.length = 96 :=
  initPacket_length pJob.job

theorem awaiting_pos (hw : s.server.hands[w]? = some h) (hmem : pJob ∈ JobThreads.awaits h) :
    0 < s.server.awaiting.length :=
  List.length_pos_of_mem (a := pJob)
    (JobThreads.mem_awaiting.mpr (.inr (.inr (JobThreads.mem_hand hw hmem))))

/-- Where there is room for the packets of all jobs, there is for that of one. -/
theorem fits_of_room (hpos : 0 < s.server.awaiting.length)
    (hroom : (s.server.conns i).sendBuffer.size + 96 * s.server.awaiting.length ≤
      (s.server.conns i).sendBuffer.capacity) (pJob : Request) :
    (s.server.conns i).Fits pJob.job.packet := by
  unfold Connection.Fits
  rw [packet_length]
  omega

/-- What awaits after `SendMsg` has returned under the lock. -/
theorem length_awaiting_store (hw : s.server.hands[w]? = some (.entered pJob)) (post : Bool) :
    (s.server.storePacket w pJob post).awaiting.length +
        (if ((s.server.conns pJob.job.userIndex).store pJob.job.packet post).2.1 = true then 1
          else 0) = s.server.awaiting.length := by
  have hwaits := JobThreads.length_awaiting hw (.returned pJob (sendResultMsg
    ((s.server.conns pJob.job.userIndex).store pJob.job.packet post).2.1)) s.server.queue
  show (JobThreads.awaiting { s.server with
    queue := s.server.queue, hands := s.server.hands.set w _ }).length + _ = _
  cases hret : ((s.server.conns pJob.job.userIndex).store pJob.job.packet post).2.1 with
  | true =>
    rw [hret] at hwaits
    simp only [sendResultMsg, if_true, JobThreads.awaits, List.length_nil,
      List.length_singleton] at hwaits ⊢
    omega
  | false =>
    rw [hret] at hwaits
    simp only [sendResultMsg, Bool.false_eq_true, if_false, JobThreads.awaits,
      List.length_singleton] at hwaits ⊢
    omega

theorem conns_storePacket (w : Nat) (pJob : Request) (post : Bool) :
    (s.server.storePacket w pJob post).conns pJob.job.userIndex =
      ((s.server.conns pJob.job.userIndex).store pJob.job.packet post).1 :=
  Function.update_self ..

/-- A packet for which there is room is posted, or it is queued and awaited no longer. -/
theorem room_store (hinv : s.server.Inv) (hw : s.server.hands[w]? = some (.entered pJob))
    (hroom : s.Room pJob.job.userIndex) :
    (s.after (.store w true) (s.server.storePacket w pJob true)).Room pJob.job.userIndex := by
  rcases hroom with hpos | hroom
  · exact .inl (Nat.lt_of_lt_of_le hpos (Nat.le_add_right _ _))
  have hwf := hinv.wf pJob.job.userIndex
  have hfits := fits_of_room (awaiting_pos hw (List.mem_singleton_self _)) hroom pJob
  by_cases hlen : (s.server.conns pJob.job.userIndex).sendLen = 0
  · left
    have hposted : s.server.posted pJob.job.userIndex (.store w true) = 1 := by
      simp only [JobThreads.posted, hw, if_true, store_posts hwf hfits hlen]
    show 0 < s.posts _ + s.server.posted _ (.store w true)
    omega
  · obtain ⟨hret, hsize, hcapacity⟩ := store_queues hwf hfits hlen true
    have hwaits := length_awaiting_store hw true
    rw [if_pos hret] at hwaits
    right
    show ((s.server.storePacket w pJob true).conns _).sendBuffer.size +
      96 * (s.server.storePacket w pJob true).awaiting.length ≤
        ((s.server.storePacket w pJob true).conns _).sendBuffer.capacity
    rw [conns_storePacket, hsize, hcapacity, packet_length]
    omega

/-- `SendMsg` under the lock, whose post succeeds if the connection has a client. -/
theorem Ready.store (hinv : s.server.Inv) (hready : s.Ready i)
    (hw : s.server.hands[w]? = some (.entered pJob)) {post : Bool}
    (hpost : post = (s.server.conns pJob.job.userIndex).isConnected) :
    (s.after (.store w post) (s.server.storePacket w pJob post)).Ready i := by
  by_cases hindex : pJob.job.userIndex = i
  · obtain rfl := hindex
    rw [hready.1] at hpost
    subst hpost
    refine ⟨?_, room_store hinv hw hready.2⟩
    show ((s.server.storePacket w pJob true).conns _).isConnected = true
    rw [conns_storePacket, isConnected_store]
    exact hready.1
  · apply hready.of_conns
    · exact Function.update_of_ne (Ne.symm hindex) ..
    · exact Nat.le_add_right _ _
    · show (s.server.storePacket w pJob post).awaiting.length ≤ _
      have hwaits := length_awaiting_store hw post
      omega

/-! ## A stale job can be executed -/

/-- The entry of a send in flight comes in, and what is left is posted. -/
theorem doSend_completed (hposts : 0 < s.posts i) : ∃ t, Leads s t ∧
    t.server = s.server.setConn i (JobThreads.completed (s.server.conns i)) ∧
      ((JobThreads.completed (s.server.conns i)).sendBuffer.size = 0 ∨ 0 < t.posts i) := by
  have htook : s.took i false =
      some { s with posts := Function.update s.posts i (s.posts i - 1) } := by
    simp only [took, Bool.false_eq_true, if_false, if_neg (Nat.pos_iff_ne_zero.mp hposts)]
  have hstep : step s (.doSend i false true) =
      some (after { s with posts := Function.update s.posts i (s.posts i - 1) }
        (.doSend i true) (s.server.setConn i (JobThreads.completed (s.server.conns i)))) := by
    simp only [step, htook, Option.bind_some]
    rfl
  refine ⟨_, leads_step id hstep, rfl, ?_⟩
  by_cases hempty : (s.server.conns i).popped.sendBuffer.isEmpty = true
  · left
    simp only [JobThreads.completed, Connection.sendCompleted, hempty, if_true]
    exact of_decide_eq_true hempty
  · right
    have hposted : s.server.posted i (.doSend i true) = 1 := by
      simp only [JobThreads.posted, if_true, Connection.sendCompleted, hempty, if_false,
        Bool.false_eq_true]
      rfl
    show 0 < Function.update s.posts i (s.posts i - 1) i + s.server.posted i (.doSend i true)
    omega

theorem drained_of_inFlight (hflight : JobThreads.InFlight (s.server.conns i))
    (hposts : (s.server.conns i).sendBuffer.size = 0 ∨ 0 < s.posts i) :
    ∃ t c, Leads s t ∧ t.server = s.server.setConn i c ∧ c.sendBuffer.size = 0 := by
  induction hsize : (s.server.conns i).sendBuffer.size using Nat.strong_induction_on
    generalizing s with
  | _ m ih =>
    have hsame : s.server = s.server.setConn i (s.server.conns i) := by
      unfold JobThreads.setConn
      rw [Function.update_eq_self]
    rcases hflight with hzero | ⟨hpos, hle⟩
    · exact ⟨s, s.server.conns i, leads_refl s, hsame, hzero⟩
    · obtain ⟨t, hst, hserver, hmore⟩ := doSend_completed (hposts.resolve_left (by omega))
      obtain ⟨-, hnext, hless⟩ := JobThreads.completed_spec (s.server.conns i)
      rw [if_neg (Nat.not_lt.mpr hle)] at hless
      have hconn : t.server.conns i = JobThreads.completed (s.server.conns i) := by
        rw [hserver, JobThreads.conns_setConn]
      rw [← hconn] at hnext hless hmore
      obtain ⟨r, c, htr, hr, hzero⟩ := ih _ (by omega) hnext hmore rfl
      refine ⟨r, c, hst.trans htr, ?_, hzero⟩
      rw [hr, hserver]
      simp only [JobThreads.setConn, Function.update_idem]

/-- Where a send is in flight, the entries empty the buffer. -/
theorem drained (hposts : 0 < s.posts i) :
    ∃ t c, Leads s t ∧ t.server = s.server.setConn i c ∧ c.sendBuffer.size = 0 := by
  obtain ⟨t, hst, hserver, hmore⟩ := doSend_completed hposts
  obtain ⟨-, hflight, -⟩ := JobThreads.completed_spec (s.server.conns i)
  have hconn : t.server.conns i = JobThreads.completed (s.server.conns i) := by
    rw [hserver, JobThreads.conns_setConn]
  obtain ⟨r, c, htr, hr, hzero⟩ := drained_of_inFlight (hconn ▸ hflight) (hconn ▸ hmore)
  refine ⟨r, c, hst.trans htr, ?_, hzero⟩
  rw [hr, hserver]
  simp only [JobThreads.setConn, Function.update_idem]

theorem leads_store (hinv : s.server.Inv) (hw : s.server.hands[w]? = some (.entered pJob))
    (hfits : (s.server.conns pJob.job.userIndex).Fits pJob.job.packet) :
    ∃ t, Leads s t ∧ s.server.entry pJob ∈ t.server.stored := by
  have hstep : JobThreads.step s.server (.store w true) =
      some (s.server.storePacket w pJob true) := by
    simp only [JobThreads.step, hw]
  refine ⟨_, leads_serve rfl hstep, ?_⟩
  have hok : JobThreads.enqueues (s.server.conns pJob.job.userIndex) pJob.job.packet = true :=
    ((hinv.wf _).enqueue_fits hfits).1
  simp only [after, JobThreads.storePacket, if_pos hok]
  exact List.mem_append_right _ (List.mem_singleton_self _)

/-- A job past the tests of `SendMsg` is stored, once the sends in flight have made room. -/
theorem leads_stored (hinv : s.server.Inv) (hroom : s.Room pJob.job.userIndex)
    (hw : s.server.hands[w]? = some (.entered pJob)) :
    ∃ t, Leads s t ∧ s.server.entry pJob ∈ t.server.stored := by
  rcases hroom with hposts | hroom
  · obtain ⟨t, c, hst, hserver, hzero⟩ := drained hposts
    have hconn : t.server.conns pJob.job.userIndex = c := by
      rw [hserver, JobThreads.conns_setConn]
    have hinv' := hst.inv hinv
    have hfits : (t.server.conns pJob.job.userIndex).Fits pJob.job.packet :=
      Slot.fits_of_empty (hinv'.wf _) (hconn ▸ hzero)
    have hhand : t.server.hands[w]? = some (.entered pJob) := by
      rw [hserver]
      exact hw
    obtain ⟨r, htr, hstored⟩ := leads_store hinv' hhand hfits
    exact ⟨r, hst.trans htr, hst.entry pJob ▸ hstored⟩
  · have hpos := awaiting_pos hw (List.mem_singleton_self _)
    exact leads_store hinv hw (fits_of_room hpos hroom pJob)

/-- `Execute` gets a packet, and leaves the connections as they are. -/
theorem leads_execute (hready : s.Ready i)
    (hw : s.server.hands[w]? = some (.running pJob)) :
    ∃ t, Leads s t ∧ t.Ready i ∧ t.server = s.server.setHand w (s.server.executed pJob true) := by
  have hstep : JobThreads.step s.server (.execute w true) =
      some (s.server.setHand w (s.server.executed pJob true)) := by
    simp only [JobThreads.step, hw]
  refine ⟨_, leads_serve rfl hstep, ?_, rfl⟩
  refine hready.of_conns ?_ ?_ ?_
  · rfl
  · exact Nat.le_add_right _ _
  · exact JobThreads.length_awaiting_le hw
      (Nat.add_le_add_left (JobThreads.length_awaits_executed s.server pJob true) _)

/-- A job that a thread has taken is stored, if its index has a client. -/
theorem leads_executed (hinv : s.server.Inv) (hready : s.Ready pJob.job.userIndex)
    (hclient : pJob.job.userIndex < s.server.size)
    (hw : s.server.hands[w]? = some (.running pJob)) :
    ∃ t, Leads s t ∧ s.server.entry pJob ∈ t.server.stored := by
  obtain ⟨t, hst, hready', hserver⟩ := leads_execute hready hw
  have hentered : s.server.executed pJob true = .entered pJob := by
    unfold JobThreads.executed JobThreads.getConnection
    rw [if_pos hclient, if_neg Bool.true_eq_false.mp]
    simp only [hready.1, Bool.true_eq_false, if_false]
  have hhand : t.server.hands[w]? = some (.entered pJob) := by
    rw [hserver, hentered]
    exact JobThreads.getElem?_setHand hw _
  obtain ⟨r, htr, hstored⟩ := leads_stored (hst.inv hinv) hready'.2 hhand
  exact ⟨r, hst.trans htr, hst.entry pJob ▸ hstored⟩

/-- The thread comes to the head of its loop with nothing taken from the queue, and connection `i`
takes packets still. -/
def Freed (s : PostedThreads) (i w : Nat) : Prop :=
  ∃ t back, Leads s t ∧ t.Ready i ∧ t.server.hands[w]? = some .idle ∧
    t.server.queue = s.server.queue ++ back

theorem Freed.of_leads (hleads : Leads s t) (hqueue : t.server.queue = s.server.queue)
    (hfreed : t.Freed i w) : s.Freed i w := by
  obtain ⟨r, back, htr, hready, hidle, hback⟩ := hfreed
  exact ⟨r, back, hleads.trans htr, hready, hidle, hback.trans (by rw [hqueue])⟩

theorem freed_returned (hready : s.Ready i)
    (hw : s.server.hands[w]? = some (.returned pJob eRet)) :
    ∃ t, Leads s t ∧ t.Ready i ∧ t.server.hands[w]? = some .idle ∧
      t.server.queue = s.server.queue ++ JobThreads.awaits (.returned pJob eRet) := by
  have hstep : JobThreads.step s.server (.settle w) = some (s.server.settle w pJob eRet) := by
    simp only [JobThreads.step, hw]
  refine ⟨_, leads_serve rfl hstep, ?_, ?_, ?_⟩
  · apply hready.of_conns
    · cases eRet <;> rfl
    · exact Nat.le_add_right _ _
    · cases eRet with
      | NOT_FINISHED =>
        apply JobThreads.length_awaiting_le (g := .idle) hw
        rw [List.length_append]
        exact Nat.le_refl _
      | _ => exact JobThreads.length_awaiting_le (g := .idle) hw (Nat.le_add_right _ _)
  · cases eRet <;> exact JobThreads.getElem?_setHand hw .idle
  · cases eRet with
    | NOT_FINISHED => rfl
    | _ => exact (List.append_nil _).symm

theorem freed_entered (hinv : s.server.Inv) (hready : s.Ready i)
    (hw : s.server.hands[w]? = some (.entered pJob)) : s.Freed i w := by
  obtain ⟨post, hpost⟩ : ∃ post, post = (s.server.conns pJob.job.userIndex).isConnected :=
    ⟨_, rfl⟩
  have hstep : JobThreads.step s.server (.store w post) =
      some (s.server.storePacket w pJob post) := by
    simp only [JobThreads.step, hw]
  have hhand : (s.server.storePacket w pJob post).hands[w]? = some (.returned pJob (sendResultMsg
      ((s.server.conns pJob.job.userIndex).store pJob.job.packet post).2.1)) :=
    JobThreads.getElem?_setHand hw _
  obtain ⟨t, hleads, hready', hidle, hqueue⟩ :=
    freed_returned (s := s.after (.store w post) _) (hready.store hinv hw hpost) hhand
  exact Freed.of_leads (leads_serve rfl hstep) rfl ⟨t, _, hleads, hready', hidle, hqueue⟩

theorem freed (hinv : s.server.Inv) (hready : s.Ready i) (hw : s.server.hands[w]? = some h) :
    s.Freed i w := by
  cases h with
  | idle => exact ⟨s, [], leads_refl s, hready, hw, (List.append_nil _).symm⟩
  | returned pJob eRet =>
    obtain ⟨t, hleads, hready', hidle, hqueue⟩ := freed_returned hready hw
    exact ⟨t, _, hleads, hready', hidle, hqueue⟩
  | entered pJob => exact freed_entered hinv hready hw
  | running pJob =>
    obtain ⟨t, hst, hready', hserver⟩ := leads_execute hready hw
    have hhand : t.server.hands[w]? = some (s.server.executed pJob true) := by
      rw [hserver]
      exact JobThreads.getElem?_setHand hw _
    apply Freed.of_leads hst (by rw [hserver]; rfl)
    rcases JobThreads.executed_cases s.server pJob true with hnext | ⟨eRet, hnext⟩
    · exact freed_entered (hst.inv hinv) hready' (hnext ▸ hhand)
    · obtain ⟨r, hleads, hready'', hidle, hqueue⟩ := freed_returned hready' (hnext ▸ hhand)
      exact ⟨r, _, hleads, hready'', hidle, hqueue⟩

theorem leads_pop {rest : List Request} (hready : s.Ready i)
    (hidle : s.server.hands[w]? = some .idle) (hqueue : s.server.queue = pJob :: rest) :
    ∃ t, Leads s t ∧ t.Ready i ∧ t.server.hands[w]? = some (.running pJob) ∧
      t.server.queue = rest := by
  have hstep : JobThreads.step s.server (.pop w) =
      some { s.server.setHand w (.running pJob) with queue := rest } := by
    simp only [JobThreads.step, hidle, hqueue]
  refine ⟨_, leads_serve rfl hstep, ?_, JobThreads.getElem?_setHand hidle _, rfl⟩
  refine hready.of_conns ?_ ?_ ?_
  · rfl
  · exact Nat.le_add_right _ _
  · apply JobThreads.length_awaiting_le hidle
    rw [hqueue]
    exact Nat.le_refl _

/-- One thread alone comes to every job of the queue. -/
theorem leads_taken {front back : List Request} (hinv : s.server.Inv) (hready : s.Ready i)
    (hidle : s.server.hands[w]? = some .idle) (hqueue : s.server.queue = front ++ pJob :: back) :
    ∃ t, Leads s t ∧ t.Ready i ∧ t.server.hands[w]? = some (.running pJob) := by
  induction front generalizing s back with
  | nil =>
    obtain ⟨t, hst, hready₁, hhand, -⟩ := leads_pop hready hidle hqueue
    exact ⟨t, hst, hready₁, hhand⟩
  | cons q front ih =>
    rw [List.cons_append] at hqueue
    obtain ⟨t, hst, hready₁, hhand, hrest⟩ := leads_pop hready hidle hqueue
    obtain ⟨r, more, htr, hready₂, hidle₂, hqueue₂⟩ := freed (hst.inv hinv) hready₁ hhand
    rw [hrest, List.append_assoc, List.cons_append] at hqueue₂
    have hsr := hst.trans htr
    obtain ⟨v, hrv, hready₃, hrunning⟩ := ih (hsr.inv hinv) hready₂ hidle₂ hqueue₂
    exact ⟨v, hsr.trans hrv, hready₃, hrunning⟩

/-- What a run stores that goes on from a later state. -/
theorem Leads.stored (hleads : Leads s t)
    (hstored : ∃ r, Leads t r ∧ t.server.entry pJob ∈ r.server.stored) :
    ∃ r, Leads s r ∧ s.server.entry pJob ∈ r.server.stored := by
  obtain ⟨r, htr, hmem⟩ := hstored
  exact ⟨r, hleads.trans htr, hleads.entry pJob ▸ hmem⟩

/-- A job in the queue is stored, for the client that its index has. -/
theorem leads_queued (hinv : s.server.Inv) (hready : s.Ready pJob.job.userIndex)
    (hclient : pJob.job.userIndex < s.server.size) (hthreads : 0 < s.server.hands.length)
    (hmem : pJob ∈ s.server.queue) :
    ∃ t, Leads s t ∧ s.server.entry pJob ∈ t.server.stored := by
  obtain ⟨t, back, hst, hready₁, hidle, hback⟩ :=
    freed hinv hready (List.getElem?_eq_getElem hthreads)
  have hinv₁ := hst.inv hinv
  have hmem₁ : pJob ∈ t.server.queue := by
    rw [hback]
    exact List.mem_append_left _ hmem
  obtain ⟨front, behind, hqueue⟩ := List.append_of_mem hmem₁
  obtain ⟨r, htr, hready₂, hrunning⟩ := leads_taken hinv₁ hready₁ hidle hqueue
  have hsize : pJob.job.userIndex < r.server.size := by
    rw [(hst.trans htr).kept_fields.2]
    exact hclient
  exact (hst.trans htr).stored (leads_executed (htr.inv hinv₁) hready₂ hsize hrunning)

/-- A job that awaits its execution is stored, for the client that its index has. -/
theorem leads_awaiting (hinv : s.server.Inv) (hready : s.Ready pJob.job.userIndex)
    (hthreads : 0 < s.server.hands.length) (hmem : pJob ∈ s.server.awaiting) :
    ∃ t, Leads s t ∧ s.server.entry pJob ∈ t.server.stored := by
  have hclient : pJob.job.userIndex < s.server.size := by
    obtain ⟨hlt, hindex⟩ := hinv.awaiting_client hmem
    rw [hindex]
    exact hlt
  rcases JobThreads.mem_awaiting.mp hmem with hcreating | hqueue | hhand
  · obtain ⟨k, hk⟩ := List.mem_iff_getElem?.mp hcreating
    have hstep : JobThreads.step s.server (.push k) = some { s.server with
        creating := s.server.creating.eraseIdx k, queue := s.server.queue ++ [pJob] } := by
      simp only [JobThreads.step, hk]
    have hpush := leads_serve rfl hstep
    have hready₁ : (s.after (.push k) { s.server with
        creating := s.server.creating.eraseIdx k
        queue := s.server.queue ++ [pJob] }).Ready pJob.job.userIndex := by
      refine hready.of_conns ?_ ?_ ?_
      · rfl
      · exact Nat.le_add_right _ _
      · exact Nat.le_of_eq (JobThreads.length_push hk)
    exact hpush.stored (leads_queued (hpush.inv hinv) hready₁ hclient hthreads
      (List.mem_append_right _ (List.mem_singleton_self _)))
  · exact leads_queued hinv hready hclient hthreads hqueue
  · obtain ⟨x, hx, hawaits⟩ := List.mem_flatMap.mp hhand
    obtain ⟨w, hw⟩ := List.mem_iff_getElem?.mp hx
    cases x with
    | idle => cases hawaits
    | running q =>
      obtain rfl := List.mem_singleton.mp hawaits
      exact leads_executed hinv hready hclient hw
    | entered q =>
      obtain rfl := List.mem_singleton.mp hawaits
      exact leads_stored hinv hready.2 hw
    | returned q eRet =>
      obtain ⟨t, hst, hready₁, hidle, hback⟩ := freed_returned hready hw
      have hfields := hst.kept_fields
      obtain ⟨hlt, -⟩ := List.getElem?_eq_some_iff.mp hidle
      refine hst.stored (leads_queued (hst.inv hinv) hready₁ ?_ (Nat.zero_lt_of_lt hlt) ?_)
      · rw [hfields.2]
        exact hclient
      · rw [hback]
        exact List.mem_append_right _ hawaits

/-- Where nobody has the index, a client is accepted. -/
theorem leads_ready (hopen : s.Open i) (hi : i < s.server.size) :
    ∃ t, Leads s t ∧ t.Ready i ∧ t.server.awaiting = s.server.awaiting ∧
      t.server.hands = s.server.hands := by
  obtain ⟨hclient, hroom⟩ := hopen
  cases hconn : (s.server.conns i).isConnected with
  | true => exact ⟨s, leads_refl s, ⟨hconn, hroom⟩, rfl, rfl⟩
  | false =>
    rw [hconn] at hclient
    have haccepting := hclient.resolve_left Bool.false_ne_true
    have hstep : step s (.accept i) = some
        (after { s with accepting := Function.update s.accepting i false } (.accept i)
          (s.server.setConn i { s.server.conns i with isConnected := true })) := by
      simp only [step, haccepting, if_true, worked, JobThreads.step, hi, hconn, and_self,
        Option.map_some]
    refine ⟨_, leads_step id hstep, ⟨?_, ?_⟩, rfl, rfl⟩
    · show ((s.server.setConn i _).conns i).isConnected = true
      rw [JobThreads.conns_setConn]
    · rcases hroom with hpos | hroom
      · exact .inl (Nat.lt_of_lt_of_le hpos (Nat.le_add_right _ _))
      · right
        show ((s.server.setConn i _).conns i).sendBuffer.size + 96 * s.server.awaiting.length ≤
          ((s.server.setConn i _).conns i).sendBuffer.capacity
        rw [JobThreads.conns_setConn]
        exact hroom

theorem step_threads (hstep : step s a = some s') :
    s'.server.hands.length = s.server.hands.length := by
  rcases step_server hstep with hsame | ⟨b, hb, -⟩
  · rw [hsame]
  · exact JobThreads.step_threads hb

theorem delivered_step (hinv : s.server.Inv) (hstale : ¬ s.server.Stale)
    (hdelivered : s.server.Delivered) (ha : ¬ a.IsReset) (hstep : step s a = some s') :
    ¬ s'.server.Stale ∧ s'.server.Delivered := by
  rcases step_server hstep with hsame | ⟨b, hb, hreset⟩
  · rw [hsame]
    exact ⟨hstale, hdelivered⟩
  · exact JobThreads.delivered_step hinv hstale hdelivered (fun hb => ha (hreset hb)) hb

/-- A client leaves with his first reply in flight and the second request in the queue. -/
def leftBehind : List PostedAct :=
  [.accept 7, .serve (.createJob 7 (EchoJob.new 7 1)), .serve (.push 0), .serve (.pop 0),
    .serve (.execute 0 true), .serve (.store 0 true), .serve (.settle 0),
    .serve (.createJob 7 (EchoJob.new 7 2)), .serve (.push 0), .reset 7 true]

end PostedThreads

end IOCPServer
