import AsyncDataHub.LockTable
import AsyncDataHub.StepSystem

/-! The job queue in the database, one SQL statement a step; FOR UPDATE takes a step for every row
that it comes to. The state has the committed rows and the row locks of the open transactions; what
a transaction has written but not committed is part of its call. -/
namespace AsyncDataHub.JobQueue
open StepSystem LockTable

abbrev JobId := String
abbrev TxnId := ℕ

inductive EnqueuedJobStatus
  | queued
  | running
  | done
  | failed
  deriving DecidableEq

inductive ClaimStrategy
  | skipLocked
  | blocking
  | nowait
  deriving DecidableEq

structure DbQueueJob where
  id : JobId
  position : ℕ
  payload : String
  status : EnqueuedJobStatus := .queued
  lockedBy : Option String := none
  createdAt : ℕ
  updatedAt : ℕ
  deriving DecidableEq

/-- The response model has the fields of the row. -/
abbrev EnqueuedJobResponse := DbQueueJob

structure ClaimResponse where
  claimed : Bool
  job : Option EnqueuedJobResponse := none
  deriving DecidableEq

inductive JobError
  | dbLockUnavailable (worker : String)
  | valueError (message : String)
  /-- The driver's error, with its SQLSTATE if the database has sent it. -/
  | dbApiError (sqlstate : Option String)
  deriving DecidableEq

inductive Outcome
  | enqueued (job : EnqueuedJobResponse)
  | claimed (response : ClaimResponse)
  | completed (job : EnqueuedJobResponse)
  | raised (e : JobError)
  deriving DecidableEq

/-- The committed rows, with their ids in the order of the commits that have inserted them. -/
structure JobTable where
  rows : JobId → Option DbQueueJob
  ids : List JobId
  keyed : ∀ id job, rows id = some job → job.id = id
  mem_ids : ∀ id, id ∈ ids ↔ rows id ≠ none

def JobTable.write (table : JobTable) (job : DbQueueJob) : JobTable where
  rows := Function.update table.rows job.id (some job)
  ids := if job.id ∈ table.ids then table.ids else table.ids ++ [job.id]
  keyed id row h := by
    rcases update_eq_some.mp h with ⟨rfl, rfl⟩ | ⟨_, h⟩
    · rfl
    · exact table.keyed id row h
  mem_ids id := by
    by_cases hid : id = job.id
    · subst hid
      split_ifs with h <;> simp [h]
    · have hmem := table.mem_ids id
      split_ifs <;> simp [hid, hmem]

def JobTable.empty : JobTable where
  rows _ := none
  ids := []
  keyed _ _ h := by cases h
  mem_ids _ := by simp

def JobTable.Queued (table : JobTable) (job : DbQueueJob) : Prop :=
  table.rows job.id = some job ∧ job.status = .queued

def JobTable.queuedJobs (table : JobTable) : List DbQueueJob :=
  ((table.ids.filterMap table.rows).filter (·.status = .queued)).insertionSort
    (·.position ≤ ·.position)

inductive Operation
  | enqueue (id : JobId) (payload : String)
  | claim (worker : String) (strategy : ClaimStrategy)
  | complete (jobId : JobId)
  deriving DecidableEq

/-- Where a call stands: the statement it will send next, with the local values it needs.
`lockRows` is in the middle of its SELECT: `candidates` are the rows that it has not come to. -/
inductive Pc
  | nextval
  | insert (position : ℕ)
  | select
  | lockRows (candidates : List JobId)
  | assign (job : DbQueueJob)
  | get
  | finish (job : DbQueueJob)
  | commit (row : Option DbQueueJob) (o : Outcome)
  | done (o : Outcome)
  deriving DecidableEq

def Operation.firstPc : Operation → Pc
  | .enqueue _ _ => .nextval
  | .claim _ _ => .select
  | .complete _ => .get

structure Call where
  op : Operation
  pc : Pc
  deriving DecidableEq

structure State where
  table : JobTable
  nextPosition : ℕ := 1
  locks : Locks JobId TxnId := fun _ => none
  now : ℕ := 0
  calls : TxnId → Option Call := fun _ => none

inductive Effect
  | goto (pc : Pc)
  | draw (pc : Pc)
  | lock (id : JobId) (pc : Pc)
  | publish (row : Option DbQueueJob) (o : Outcome)
  | rollback (e : JobError)

def State.setCall (s : State) (c : TxnId) (call : Call) (pc : Pc) : State :=
  { s with calls := Function.update s.calls c (some { call with pc }) }

def JobTable.publish (table : JobTable) : Option DbQueueJob → JobTable
  | none => table
  | some row => table.write row

def State.apply (s : State) (c : TxnId) (call : Call) : Effect → State
  | .goto pc => s.setCall c call pc
  | .draw pc => { s.setCall c call pc with nextPosition := s.nextPosition + 1 }
  | .lock id pc => { s.setCall c call pc with locks := take s.locks id c }
  | .publish row o =>
    { s.setCall c call (.done o) with
      table := s.table.publish row, locks := releaseAll s.locks c }
  | .rollback e =>
    { s.setCall c call (.done (.raised e)) with locks := releaseAll s.locks c }

def uniqueViolation : String := "23505"
def lockNotAvailable : String := "55P03"

def isLockNotAvailable (sqlstate : Option String) : Bool := sqlstate = some lockNotAvailable

def newJob (s : State) (id : JobId) (payload : String) (position : ℕ) : DbQueueJob where
  id := id
  position := position
  payload := payload
  createdAt := s.now
  updatedAt := s.now

/-- INSERT: the position comes from a sequence, which no rollback turns back; another open insert of
the same id has to end first. -/
def enqueue (s : State) (c : TxnId) (id : JobId) (payload : String) : Pc → Option Effect
  | .nextval => some (.draw (.insert s.nextPosition))
  | .insert position =>
    match s.table.rows id with
    | some _ => some (.rollback (.dbApiError (some uniqueViolation)))
    | none =>
      if Available s.locks id c then
        let job := newJob s id payload position
        some (.lock id (.commit (some job) (.enqueued job)))
      else none
  | _ => none

/-- `except DBAPIError` of claim. -/
def claimError (worker : String) (sqlstate : Option String) : JobError :=
  if isLockNotAvailable sqlstate then .dbLockUnavailable worker else .dbApiError sqlstate

/-- FOR UPDATE at one row of its snapshot: a row that has changed since is locked in its newest
version and returned only if it is still QUEUED. -/
def lockRow (s : State) (c : TxnId) (worker : String) (strategy : ClaimStrategy) (id : JobId)
    (rest : List JobId) : Option Effect :=
  if Available s.locks id c then
    match s.table.rows id with
    | none => some (.goto (.lockRows rest))
    | some job =>
      if job.status = .queued then some (.lock id (.assign job))
      else some (.lock id (.lockRows rest))
  else
    match strategy with
    | .skipLocked => some (.goto (.lockRows rest))
    | .blocking => none
    | .nowait => some (.rollback (claimError worker (some lockNotAvailable)))

def DbQueueJob.assign (job : DbQueueJob) (worker : String) (now : ℕ) : DbQueueJob :=
  { job with status := .running, lockedBy := some worker, updatedAt := now }

def DbQueueJob.finish (job : DbQueueJob) (now : ℕ) : DbQueueJob :=
  { job with status := .done, updatedAt := now }

/-- UPDATE by primary key: it changes the newest version of the row, under the row lock; the object
in the session gets the same change. -/
def updateRow (s : State) (c : TxnId) (job : DbQueueJob) (change : DbQueueJob → DbQueueJob)
    (o : DbQueueJob → Outcome) : Option Effect :=
  match s.table.rows job.id with
  | none => some (.rollback (.dbApiError none))
  | some row =>
    if Available s.locks job.id c then
      some (.lock job.id (.commit (some (change row)) (o (change job))))
    else none

def claim (s : State) (c : TxnId) (worker : String) (strategy : ClaimStrategy) :
    Pc → Option Effect
  | .select => some (.goto (.lockRows (s.table.queuedJobs.map DbQueueJob.id)))
  | .lockRows [] => some (.goto (.commit none (.claimed { claimed := false })))
  | .lockRows (id :: rest) => lockRow s c worker strategy id rest
  | .assign job =>
    updateRow s c job (·.assign worker s.now) fun job =>
      .claimed { claimed := true, job := some job }
  | _ => none

/-- The status of the row that `get` reads is not looked at; setting a value that the object has
already sends no UPDATE. -/
def complete (s : State) (c : TxnId) (jobId : JobId) : Pc → Option Effect
  | .get =>
    match s.table.rows jobId with
    | none => some (.rollback (.valueError ("Job " ++ jobId ++ " not found")))
    | some job =>
      if job.status = .done then some (.goto (.commit none (.completed job)))
      else some (.goto (.finish job))
  | .finish job => updateRow s c job (·.finish s.now) .completed
  | _ => none

/-- The statement that a call sends next; `none` while it has to wait. -/
def statement (s : State) (c : TxnId) (call : Call) : Option Effect :=
  match call.pc with
  | .commit row o => some (.publish row o)
  | .done _ => none
  | pc =>
    match call.op with
    | .enqueue id payload => enqueue s c id payload pc
    | .claim worker strategy => claim s c worker strategy pc
    | .complete jobId => complete s c jobId pc

def Operation.failed (op : Operation) (sqlstate : Option String) : JobError :=
  match op with
  | .claim worker _ => claimError worker sqlstate
  | _ => .dbApiError sqlstate

/-- A call can fail at any time: an error of the database, a lost connection or a cancellation. -/
inductive Action
  | start (c : TxnId) (op : Operation)
  | op (c : TxnId)
  | fail (c : TxnId) (sqlstate : Option String)
  | tick (d : ℕ)
  deriving DecidableEq

def Action.call : Action → Option TxnId
  | .op c | .fail c _ => some c
  | .start _ _ | .tick _ => none

def step (s : State) : Action → Option State
  | .start c op =>
    match s.calls c with
    | some _ => none
    | none => some (s.setCall c ⟨op, op.firstPc⟩ op.firstPc)
  | .op c =>
    match s.calls c with
    | none => none
    | some call => (statement s c call).map (s.apply c call)
  | .fail c sqlstate =>
    match s.calls c with
    | none => none
    | some call =>
      match call.pc with
      | .done _ => none
      | _ => some (s.apply c call (.rollback (call.op.failed sqlstate)))
  | .tick d => some { s with now := s.now + d }

variable {s t : State} {a : Action} {c : TxnId} {call : Call} {eff : Effect}

/-- The statements a call can send from where it stands, with everything the code has checked. -/
inductive Does (s : State) (c : TxnId) (call : Call) : Effect → Prop
  | draws {id : JobId} {payload : String} (op : call.op = .enqueue id payload)
      (pc : call.pc = .nextval) : Does s c call (.draw (.insert s.nextPosition))
  | inserts {id : JobId} {payload : String} {position : ℕ} (op : call.op = .enqueue id payload)
      (pc : call.pc = .insert position) (fresh : s.table.rows id = none)
      (lock : Available s.locks id c) :
      Does s c call (.lock id (.commit (some (newJob s id payload position))
        (.enqueued (newJob s id payload position))))
  | snaps {worker : String} {strategy : ClaimStrategy} (op : call.op = .claim worker strategy)
      (pc : call.pc = .select) :
      Does s c call (.goto (.lockRows (s.table.queuedJobs.map DbQueueJob.id)))
  | skips {worker : String} {strategy : ClaimStrategy} {id : JobId} {rest : List JobId}
      (op : call.op = .claim worker strategy) (pc : call.pc = .lockRows (id :: rest))
      (taken : Available s.locks id c → s.table.rows id = none) :
      Does s c call (.goto (.lockRows rest))
  | rechecks {worker : String} {strategy : ClaimStrategy} {id : JobId} {rest : List JobId}
      {job : DbQueueJob} (op : call.op = .claim worker strategy)
      (pc : call.pc = .lockRows (id :: rest)) (row : s.table.rows id = some job)
      (status : job.status ≠ .queued) (lock : Available s.locks id c) :
      Does s c call (.lock id (.lockRows rest))
  | locks {worker : String} {strategy : ClaimStrategy} {id : JobId} {rest : List JobId}
      {job : DbQueueJob} (op : call.op = .claim worker strategy)
      (pc : call.pc = .lockRows (id :: rest)) (row : s.table.rows id = some job)
      (status : job.status = .queued) (lock : Available s.locks id c) :
      Does s c call (.lock id (.assign job))
  | exhausts {worker : String} {strategy : ClaimStrategy} (op : call.op = .claim worker strategy)
      (pc : call.pc = .lockRows []) :
      Does s c call (.goto (.commit none (.claimed { claimed := false })))
  | assigns {worker : String} {strategy : ClaimStrategy} {job row : DbQueueJob}
      (op : call.op = .claim worker strategy) (pc : call.pc = .assign job)
      (found : s.table.rows job.id = some row) (lock : Available s.locks job.id c) :
      Does s c call (.lock job.id (.commit (some (row.assign worker s.now))
        (.claimed { claimed := true, job := some (job.assign worker s.now) })))
  | gets {jobId : JobId} {job : DbQueueJob} (op : call.op = .complete jobId)
      (pc : call.pc = .get) (found : s.table.rows jobId = some job) (status : job.status ≠ .done) :
      Does s c call (.goto (.finish job))
  | getsDone {jobId : JobId} {job : DbQueueJob} (op : call.op = .complete jobId)
      (pc : call.pc = .get) (found : s.table.rows jobId = some job) (status : job.status = .done) :
      Does s c call (.goto (.commit none (.completed job)))
  | finishes {jobId : JobId} {job row : DbQueueJob} (op : call.op = .complete jobId)
      (pc : call.pc = .finish job) (found : s.table.rows job.id = some row)
      (lock : Available s.locks job.id c) :
      Does s c call (.lock job.id (.commit (some (row.finish s.now))
        (.completed (job.finish s.now))))
  | commits {row : Option DbQueueJob} {o : Outcome} (pc : call.pc = .commit row o) :
      Does s c call (.publish row o)
  | fails (e : JobError) (pc : ∀ o, call.pc ≠ .done o) : Does s c call (.rollback e)

lemma updateRow_cases {job : DbQueueJob} {change : DbQueueJob → DbQueueJob}
    {o : DbQueueJob → Outcome} (h : updateRow s c job change o = some eff) :
    (∃ e, eff = .rollback e) ∨ ∃ row, s.table.rows job.id = some row ∧
      Available s.locks job.id c ∧
      eff = .lock job.id (.commit (some (change row)) (o (change job))) := by
  unfold updateRow at h
  split at h
  · exact .inl ⟨_, (Option.some.inj h).symm⟩
  · split_ifs at h with hlock
    exact .inr ⟨_, ‹_›, hlock, (Option.some.inj h).symm⟩

lemma does_of_enqueue {id : JobId} {payload : String} (hop : call.op = .enqueue id payload)
    (h : enqueue s c id payload call.pc = some eff) : Does s c call eff := by
  cases hpc : call.pc <;> simp only [hpc, enqueue, reduceCtorEq, Option.some.injEq] at h
  case nextval => exact h ▸ .draws hop hpc
  case insert position =>
    split at h
    · exact Option.some.inj h ▸ .fails _ (by simp [hpc])
    · split_ifs at h with hlock
      exact Option.some.inj h ▸ .inserts hop hpc ‹_› hlock

lemma does_of_lockRow {worker : String} {strategy : ClaimStrategy} {id : JobId}
    {rest : List JobId} (hop : call.op = .claim worker strategy)
    (hpc : call.pc = .lockRows (id :: rest))
    (h : lockRow s c worker strategy id rest = some eff) : Does s c call eff := by
  unfold lockRow at h
  split_ifs at h with hlock
  · cases hrow : s.table.rows id with
    | none =>
      simp only [hrow, Option.some.injEq] at h
      exact h ▸ .skips hop hpc fun _ => hrow
    | some job =>
      simp only [hrow] at h
      split_ifs at h with hstatus
      · exact Option.some.inj h ▸ .locks hop hpc hrow hstatus hlock
      · exact Option.some.inj h ▸ .rechecks hop hpc hrow hstatus hlock
  · cases strategy with
    | skipLocked => exact Option.some.inj h ▸ .skips hop hpc fun ha => absurd ha hlock
    | blocking => cases h
    | nowait => exact Option.some.inj h ▸ .fails _ (by simp [hpc])

lemma does_of_claim {worker : String} {strategy : ClaimStrategy}
    (hop : call.op = .claim worker strategy)
    (h : claim s c worker strategy call.pc = some eff) : Does s c call eff := by
  cases hpc : call.pc with
  | select =>
    simp only [hpc, claim, Option.some.injEq] at h
    exact h ▸ .snaps hop hpc
  | lockRows candidates =>
    cases candidates with
    | nil =>
      simp only [hpc, claim, Option.some.injEq] at h
      exact h ▸ .exhausts hop hpc
    | cons id rest =>
      simp only [hpc, claim] at h
      exact does_of_lockRow hop hpc h
  | assign job =>
    simp only [hpc, claim] at h
    rcases updateRow_cases h with ⟨e, rfl⟩ | ⟨row, hrow, hlock, rfl⟩
    · exact .fails _ (by simp [hpc])
    · exact .assigns hop hpc hrow hlock
  | _ => simp [hpc, claim] at h

lemma does_of_complete {jobId : JobId} (hop : call.op = .complete jobId)
    (h : complete s c jobId call.pc = some eff) : Does s c call eff := by
  cases hpc : call.pc with
  | get =>
    simp only [hpc, complete] at h
    split at h
    · exact Option.some.inj h ▸ .fails _ (by simp [hpc])
    · split_ifs at h with hstatus
      · exact Option.some.inj h ▸ .getsDone hop hpc ‹_› hstatus
      · exact Option.some.inj h ▸ .gets hop hpc ‹_› hstatus
  | finish job =>
    simp only [hpc, complete] at h
    rcases updateRow_cases h with ⟨e, rfl⟩ | ⟨row, hrow, hlock, rfl⟩
    · exact .fails _ (by simp [hpc])
    · exact .finishes hop hpc hrow hlock
  | _ => simp [hpc, complete] at h

theorem does_of_statement (h : statement s c call = some eff) : Does s c call eff := by
  unfold statement at h
  split at h
  · rename_i row o hpc
    exact Option.some.inj h ▸ .commits hpc
  · cases h
  · cases hop : call.op with
    | enqueue id payload =>
      simp only [hop] at h
      exact does_of_enqueue hop h
    | claim worker strategy =>
      simp only [hop] at h
      exact does_of_claim hop h
    | complete jobId =>
      simp only [hop] at h
      exact does_of_complete hop h

/-- Every step starts a call, runs one statement of a call, or lets time pass. -/
inductive Took (s : State) : Action → State → Prop
  | starts {c : TxnId} {op : Operation} (fresh : s.calls c = none) :
      Took s (.start c op) (s.setCall c ⟨op, op.firstPc⟩ op.firstPc)
  | runs {a : Action} {c : TxnId} {call : Call} {eff : Effect} (running : s.calls c = some call)
      (does : Does s c call eff) (sender : a.call = some c) : Took s a (s.apply c call eff)
  | ticks (d : ℕ) : Took s (.tick d) { s with now := s.now + d }

theorem took_of_step (h : step s a = some t) : Took s a t := by
  cases a with
  | start c op =>
    simp only [step] at h
    split at h
    · cases h
    · cases h
      exact .starts ‹_›
  | op c =>
    simp only [step] at h
    split at h
    · cases h
    · obtain ⟨eff, heff, rfl⟩ := Option.map_eq_some_iff.mp h
      exact .runs ‹_› (does_of_statement heff) rfl
  | fail c sqlstate =>
    simp only [step] at h
    split at h
    · cases h
    · split at h
      · cases h
      · rename_i hpc
        cases h
        exact .runs ‹_› (.fails _ hpc) rfl
  | tick d =>
    cases h
    exact .ticks d

end AsyncDataHub.JobQueue
