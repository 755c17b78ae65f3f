import AsyncDataHub.LockTable
import AsyncDataHub.LogShipping
import AsyncDataHub.StepSystem

/-! Documents that are written on a primary and read on it or on one of its standbys, one SQL
statement a step; log shipping and replay go on between any two of them. -/
namespace AsyncDataHub.Consistency
open StepSystem LockTable LogShipping

abbrev TxnId := ℕ
abbrev ReadId := ℕ

abbrev Lsn := ℕ

inductive Durability
  | quorum
  | async
  deriving DecidableEq

inductive Replica
  | replica1
  | replica2
  deriving DecidableEq

inductive ReadNode
  | primary
  | replica (r : Replica)
  deriving DecidableEq

/-- The values of `synchronous_commit` that wait for a standby, and `local`. -/
inductive SynchronousCommit
  | on
  | localFlush
  | remoteWrite
  | remoteApply
  deriving DecidableEq

def synchronousCommit : Durability → SynchronousCommit
  | .quorum => .on
  | .async => .localFlush

structure Document where
  id : String
  content : String
  updatedAt : ℕ
  deriving DecidableEq

structure Row where
  xmin : TxnId
  document : Document
  deriving DecidableEq

structure WriteRequest where
  docId : String
  content : String
  durability : Durability

structure WriteResult where
  id : String
  content : String
  updatedAt : ℕ
  durability : Durability
  writeLsn : Lsn

structure ReadRequest where
  node : ReadNode
  docId : String
  waitForLsn : Option Lsn := none
  waitTimeout : ℤ := 10000

structure ReadResult where
  id : String
  found : Bool
  content : Option String := none
  updatedAt : Option ℕ := none
  servedBy : ReadNode
  nodeLsn : Lsn
  upToDate : Option Bool := none
  deriving DecidableEq

/-- Where a write stands: the statement it will send next, with the local values it needs. While it
is `waiting` the primary has its commit record and has not let it go on. -/
inductive WritePc
  | setLocal
  | upsert (mode : SynchronousCommit) (default : ℕ)
  | commit (mode : SynchronousCommit) (row : Row)
  | waiting (mode : SynchronousCommit) (row : Row) (lsn : Lsn)
  | currentLsn (updatedAt : ℕ)
  | returned (result : WriteResult)
  | failed

/-- `record` is where the log has the commit record, `releasedBy` the standby whose acknowledgement
has ended the wait. -/
structure WriteCall where
  request : WriteRequest
  pc : WritePc := .setLocal
  record : Option ℕ := none
  releasedBy : Option Replica := none

inductive ReadPc
  | start
  | poll (r : Replica) (target : Lsn) (deadline : ℤ)
  | late (r : Replica) (target : Lsn) (deadline : ℤ)
  | sleep (r : Replica) (target : Lsn) (deadline : ℤ) (until' : ℕ)
  | get
  | nodeLsn
  | returned (result : ReadResult)
  | failed

/-- `document` is the row version that the read has found, if it has looked. -/
structure ReadCall where
  request : ReadRequest
  pc : ReadPc := .start
  upToDate : Option Bool := none
  document : Option (Option Row) := none

/-- `rows` is what the primary shows: the transactions that have ended. Times are in
milliseconds. -/
structure State where
  log : List (Record String Row) := []
  written : Lsn := 0
  rows : String → Option Row := fun _ => none
  locks : Locks String TxnId := fun _ => none
  standbys : Replica → Standby := fun _ => {}
  now : ℕ := 0
  writes : TxnId → Option WriteCall := fun _ => none
  reads : ReadId → Option ReadCall := fun _ => none

def State.setWrite (s : State) (c : TxnId) (call : WriteCall) : State :=
  { s with writes := Function.update s.writes c (some call) }

def State.setRead (s : State) (q : ReadId) (call : ReadCall) : State :=
  { s with reads := Function.update s.reads q (some call) }

def State.setStandby (s : State) (r : Replica) (sb : Standby) : State :=
  { s with standbys := Function.update s.standbys r sb }

/-- INSERT ON CONFLICT DO UPDATE SET content: an old row keeps its `updated_at`. -/
def upsertRow (s : State) (c : TxnId) (request : WriteRequest) (default : ℕ) : Row where
  xmin := c
  document :=
    match s.rows request.docId with
    | some old => { old.document with content := request.content }
    | none => { id := request.docId, content := request.content, updatedAt := default }

def State.endWrite (s : State) (c : TxnId) (call : WriteCall) (row : Row) : State :=
  { s.setWrite c call with
    rows := Function.update s.rows call.request.docId (some row), locks := releaseAll s.locks c }

/-- `pg_current_wal_lsn()` is what the primary has written of its log. -/
def State.currentWalLsn (s : State) : Lsn := s.written

def write (s : State) (c : TxnId) (call : WriteCall) : Option State :=
  let request := call.request
  match call.pc with
  | .setLocal =>
    some (s.setWrite c { call with pc := .upsert (synchronousCommit request.durability) s.now })
  | .upsert mode default =>
    if Available s.locks request.docId c then
      some
        { s.setWrite c { call with pc := .commit mode (upsertRow s c request default) } with
          locks := take s.locks request.docId c }
    else none
  | .commit mode row =>
    some
      { s.setWrite c
          { call with
            pc := .waiting mode row (s.log.length + 1), record := some s.log.length } with
        log := s.log ++ [.commit request.docId row], written := s.log.length + 1 }
  | .currentLsn updatedAt =>
    some (s.setWrite c
      { call with
        pc := .returned
          { id := request.docId, content := request.content, updatedAt,
            durability := request.durability, writeLsn := s.currentWalLsn } })
  | .waiting _ _ _ | .returned _ | .failed => none

/-- A standby that the setting names has got as far as the setting asks. -/
def Acknowledges (mode : SynchronousCommit) (sb : Standby) (lsn : Lsn) : Prop :=
  match mode with
  | .on => lsn ≤ sb.flushed
  | .remoteWrite => lsn ≤ sb.received
  | .remoteApply => lsn ≤ sb.replayed
  | .localFlush => False

instance (mode : SynchronousCommit) (sb : Standby) (lsn : Lsn) :
    Decidable (Acknowledges mode sb lsn) := by
  unfold Acknowledges
  cases mode <;> infer_instance

/-- The wait of a commit ends with the acknowledgement of one standby of `names`
(`synchronous_standby_names`), or at once where there is nothing to wait for. -/
def release (names : List Replica) (s : State) (c : TxnId) (call : WriteCall)
    (releasedBy : Option Replica) : Option State :=
  match call.pc with
  | .waiting mode row lsn =>
    let call' := { call with pc := .currentLsn row.document.updatedAt, releasedBy }
    match releasedBy with
    | none => if mode = .localFlush ∨ names = [] then some (s.endWrite c call' row) else none
    | some r =>
      if r ∈ names ∧ Acknowledges mode (s.standbys r) lsn then some (s.endWrite c call' row)
      else none
  | _ => none

/-- A write that fails while it waits has committed all the same. -/
def failWrite (s : State) (c : TxnId) (call : WriteCall) : Option State :=
  match call.pc with
  | .returned _ | .failed => none
  | .waiting _ row _ => some (s.endWrite c { call with pc := .failed } row)
  | _ => some { s.setWrite c { call with pc := .failed } with locks := releaseAll s.locks c }

def State.replayedRows (s : State) (r : Replica) : String → Option Row :=
  replay (s.log.take (s.standbys r).replayed)

def State.shows (s : State) : ReadNode → String → Option Row
  | .primary => s.rows
  | .replica r => s.replayedRows r

def State.nodeLsn (s : State) : ReadNode → Lsn
  | .primary => s.currentWalLsn
  | .replica r => (s.standbys r).replayed

def ReadCall.result (call : ReadCall) (nodeLsn : Lsn) : Option Row → ReadResult
  | none =>
    { id := call.request.docId, found := false, servedBy := call.request.node, nodeLsn,
      upToDate := call.upToDate }
  | some row =>
    { id := row.document.id, found := true, content := row.document.content,
      updatedAt := row.document.updatedAt, servedBy := call.request.node, nodeLsn,
      upToDate := call.upToDate }

def pollInterval : ℕ := 50

def readStart (s : State) (call : ReadCall) : ReadCall :=
  match call.request.waitForLsn, call.request.node with
  | some target, .replica r => { call with pc := .poll r target (s.now + call.request.waitTimeout) }
  | _, _ => { call with pc := .get }

/-- The next step of a read; the poll, late and sleep steps are `_wait_for_lsn`. -/
def read (s : State) (call : ReadCall) : Option ReadCall :=
  match call.pc with
  | .start => some (readStart s call)
  | .poll r target deadline =>
    if target ≤ (s.standbys r).replayed then some { call with pc := .get, upToDate := some true }
    else some { call with pc := .late r target deadline }
  | .late r target deadline =>
    if deadline ≤ s.now then some { call with pc := .get, upToDate := some false }
    else some { call with pc := .sleep r target deadline (s.now + pollInterval) }
  | .sleep r target deadline until' =>
    if until' ≤ s.now then some { call with pc := .poll r target deadline } else none
  | .get =>
    some
      { call with pc := .nodeLsn, document := some (s.shows call.request.node call.request.docId) }
  | .nodeLsn =>
    call.document.map fun row =>
      { call with pc := .returned (call.result (s.nodeLsn call.request.node) row) }
  | .returned _ | .failed => none

def failRead (call : ReadCall) : Option ReadCall :=
  match call.pc with
  | .returned _ | .failed => none
  | _ => some { call with pc := .failed }

/-- `append` stands for every other record of the primary's log. -/
inductive Action
  | startWrite (c : TxnId) (request : WriteRequest)
  | write (c : TxnId)
  | release (c : TxnId) (releasedBy : Option Replica)
  | failWrite (c : TxnId)
  | startRead (q : ReadId) (request : ReadRequest)
  | read (q : ReadId)
  | failRead (q : ReadId)
  | append
  | flushWal (n : ℕ)
  | receive (r : Replica) (n : ℕ)
  | flush (r : Replica) (n : ℕ)
  | replay (r : Replica) (n : ℕ)
  | tick (d : ℕ)

def step (names : List Replica) (s : State) : Action → Option State
  | .startWrite c request =>
    match s.writes c with
    | some _ => none
    | none => some (s.setWrite c { request })
  | .write c => (s.writes c).bind (write s c)
  | .release c releasedBy => (s.writes c).bind fun call => release names s c call releasedBy
  | .failWrite c => (s.writes c).bind (failWrite s c)
  | .startRead q request =>
    match s.reads q with
    | some _ => none
    | none => some (s.setRead q { request })
  | .read q => ((s.reads q).bind (read s)).map (s.setRead q)
  | .failRead q => ((s.reads q).bind failRead).map (s.setRead q)
  | .append => some { s with log := s.log ++ [.other] }
  | .flushWal n => some { s with written := max s.written (min n s.log.length) }
  | .receive r n => some (s.setStandby r ((s.standbys r).receive (min n s.written)))
  | .flush r n => some (s.setStandby r ((s.standbys r).flush n))
  | .replay r n => some (s.setStandby r ((s.standbys r).replay n))
  | .tick d => some { s with now := s.now + d }

variable {names : List Replica} {s t : State} {a : Action} {c : TxnId} {q : ReadId}
  {wcall : WriteCall} {call call' : ReadCall} {r : Replica}

def Action.writer : Action → Option TxnId
  | .startWrite c _ | .write c | .release c _ | .failWrite c => some c
  | _ => none

/-- A step of a read besides its look at the document. -/
inductive ReadMoves (s : State) (call : ReadCall) : ReadCall → Prop
  | starts (pc : call.pc = .start) : ReadMoves s call (readStart s call)
  | reaches {r : Replica} {target : Lsn} {deadline : ℤ} (pc : call.pc = .poll r target deadline)
      (reached : target ≤ (s.standbys r).replayed) :
      ReadMoves s call { call with pc := .get, upToDate := some true }
  | misses {r : Replica} {target : Lsn} {deadline : ℤ} (pc : call.pc = .poll r target deadline) :
      ReadMoves s call { call with pc := .late r target deadline }
  | gives {r : Replica} {target : Lsn} {deadline : ℤ} (pc : call.pc = .late r target deadline) :
      ReadMoves s call { call with pc := .get, upToDate := some false }
  | sleeps {r : Replica} {target : Lsn} {deadline : ℤ} (until' : ℕ)
      (pc : call.pc = .late r target deadline) :
      ReadMoves s call { call with pc := .sleep r target deadline until' }
  | wakes {r : Replica} {target : Lsn} {deadline : ℤ} {until' : ℕ}
      (pc : call.pc = .sleep r target deadline until') :
      ReadMoves s call { call with pc := .poll r target deadline }
  | returns {row : Option Row} (lsn : Lsn) (pc : call.pc = .nodeLsn)
      (found : call.document = some row) :
      ReadMoves s call { call with pc := .returned (call.result lsn row) }
  | fails : ReadMoves s call { call with pc := .failed }

/-- Every step is a statement of a write or of a read, or moves the log or one standby on. -/
inductive Took (s : State) : Action → State → Prop
  | startsWrite {c : TxnId} (request : WriteRequest) (fresh : s.writes c = none) :
      Took s (.startWrite c request) (s.setWrite c { request })
  | setsLocal {c : TxnId} {call : WriteCall} (found : s.writes c = some call)
      (pc : call.pc = .setLocal) :
      Took s (.write c)
        (s.setWrite c
          { call with pc := .upsert (synchronousCommit call.request.durability) s.now })
  | upserts {c : TxnId} {call : WriteCall} {mode : SynchronousCommit} {default : ℕ}
      (found : s.writes c = some call) (pc : call.pc = .upsert mode default)
      (lock : Available s.locks call.request.docId c) :
      Took s (.write c)
        { s.setWrite c { call with pc := .commit mode (upsertRow s c call.request default) } with
          locks := take s.locks call.request.docId c }
  | commits {c : TxnId} {call : WriteCall} {mode : SynchronousCommit} {row : Row}
      (found : s.writes c = some call) (pc : call.pc = .commit mode row) :
      Took s (.write c)
        { s.setWrite c
            { call with
              pc := .waiting mode row (s.log.length + 1), record := some s.log.length } with
          log := s.log ++ [.commit call.request.docId row], written := s.log.length + 1 }
  | releases {c : TxnId} {call : WriteCall} {mode : SynchronousCommit} {row : Row} {lsn : Lsn}
      {releasedBy : Option Replica} (found : s.writes c = some call)
      (pc : call.pc = .waiting mode row lsn)
      (acknowledged : ∀ r, releasedBy = some r → Acknowledges mode (s.standbys r) lsn) :
      Took s (.release c releasedBy)
        (s.endWrite c
          { call with pc := .currentLsn row.document.updatedAt, releasedBy } row)
  | samples {c : TxnId} {call : WriteCall} {updatedAt : ℕ} (found : s.writes c = some call)
      (pc : call.pc = .currentLsn updatedAt) :
      Took s (.write c)
        (s.setWrite c
          { call with
            pc := .returned
              { id := call.request.docId, content := call.request.content, updatedAt,
                durability := call.request.durability, writeLsn := s.currentWalLsn } })
  | failsWaiting {c : TxnId} {call : WriteCall} {mode : SynchronousCommit} {row : Row} {lsn : Lsn}
      (found : s.writes c = some call) (pc : call.pc = .waiting mode row lsn) :
      Took s (.failWrite c) (s.endWrite c { call with pc := .failed } row)
  | fails {c : TxnId} {call : WriteCall} (found : s.writes c = some call)
      (pc : (∀ mode row lsn, call.pc ≠ .waiting mode row lsn) ∧
        ∀ result, call.pc ≠ .returned result) :
      Took s (.failWrite c)
        { s.setWrite c { call with pc := .failed } with locks := releaseAll s.locks c }
  | startsRead {q : ReadId} (request : ReadRequest) (fresh : s.reads q = none) :
      Took s (.startRead q request) (s.setRead q { request })
  | gets {q : ReadId} {call : ReadCall} (found : s.reads q = some call) (pc : call.pc = .get) :
      Took s (.read q)
        (s.setRead q
          { call with
            pc := .nodeLsn, document := some (s.shows call.request.node call.request.docId) })
  | moves {a : Action} {q : ReadId} {call call' : ReadCall} (found : s.reads q = some call)
      (pc : call.pc ≠ .get ∨ a ≠ .read q) (moved : ReadMoves s call call')
      (reader : a.writer = none) : Took s a (s.setRead q call')
  | appends : Took s .append { s with log := s.log ++ [.other] }
  | flushesWal (n : ℕ) :
      Took s (.flushWal n) { s with written := max s.written (min n s.log.length) }
  | ships {a : Action} {r : Replica} {sb : Standby} (forward : (s.standbys r).Le sb)
      (sender : ∀ q, a ≠ .read q) (nobody : a.writer = none) : Took s a (s.setStandby r sb)
  | ticks (d : ℕ) : Took s (.tick d) { s with now := s.now + d }

lemma took_of_write (hc : s.writes c = some wcall) (h : write s c wcall = some t) :
    Took s (.write c) t := by
  cases hpc : wcall.pc with
  | setLocal =>
    simp only [write, hpc, Option.some.injEq] at h
    exact h ▸ .setsLocal hc hpc
  | upsert mode default =>
    simp only [write, hpc] at h
    split_ifs at h with hlock
    exact Option.some.inj h ▸ .upserts hc hpc hlock
  | commit mode row =>
    simp only [write, hpc, Option.some.injEq] at h
    exact h ▸ .commits hc hpc
  | currentLsn updatedAt =>
    simp only [write, hpc, Option.some.injEq] at h
    exact h ▸ .samples hc hpc
  | waiting _ _ _ | returned _ | failed => simp [write, hpc] at h

lemma took_of_release {releasedBy : Option Replica} (hc : s.writes c = some wcall)
    (h : release names s c wcall releasedBy = some t) :
    Took s (.release c releasedBy) t := by
  unfold release at h
  split at h
  · cases releasedBy with
    | none =>
      simp only at h
      split_ifs at h
      exact Option.some.inj h ▸ .releases hc ‹_› nofun
    | some r =>
      simp only at h
      split_ifs at h with hack
      refine Option.some.inj h ▸ .releases hc ‹_› fun r' hr => ?_
      cases hr
      exact hack.2
  · cases h

lemma took_of_failWrite (hc : s.writes c = some wcall) (h : failWrite s c wcall = some t) :
    Took s (.failWrite c) t := by
  cases hpc : wcall.pc with
  | returned _ | failed => simp [failWrite, hpc] at h
  | waiting mode row lsn =>
    simp only [failWrite, hpc, Option.some.injEq] at h
    exact h ▸ .failsWaiting hc hpc
  | setLocal | upsert _ _ | commit _ _ | currentLsn _ =>
    simp only [failWrite, hpc, Option.some.injEq] at h
    exact h ▸ .fails hc (by simp [hpc])

lemma took_of_read (hq : s.reads q = some call) (h : read s call = some call') :
    Took s (.read q) (s.setRead q call') := by
  cases hpc : call.pc with
  | start =>
    simp only [read, hpc, Option.some.injEq] at h
    exact h ▸ .moves hq (.inl (by simp [hpc])) (.starts hpc) rfl
  | poll r target deadline =>
    simp only [read, hpc] at h
    split_ifs at h with hreached
    · exact Option.some.inj h ▸ .moves hq (.inl (by simp [hpc])) (.reaches hpc hreached) rfl
    · exact Option.some.inj h ▸ .moves hq (.inl (by simp [hpc])) (.misses hpc) rfl
  | late r target deadline =>
    simp only [read, hpc] at h
    split_ifs at h
    · exact Option.some.inj h ▸ .moves hq (.inl (by simp [hpc])) (.gives hpc) rfl
    · exact Option.some.inj h ▸ .moves hq (.inl (by simp [hpc])) (.sleeps _ hpc) rfl
  | sleep r target deadline until' =>
    simp only [read, hpc] at h
    split_ifs at h
    exact Option.some.inj h ▸ .moves hq (.inl (by simp [hpc])) (.wakes hpc) rfl
  | get =>
    simp only [read, hpc, Option.some.injEq] at h
    exact h ▸ .gets hq hpc
  | nodeLsn =>
    simp only [read, hpc, Option.map_eq_some_iff] at h
    obtain ⟨row, hrow, rfl⟩ := h
    exact .moves hq (.inl (by simp [hpc])) (.returns _ hpc hrow) rfl
  | returned _ | failed => simp [read, hpc] at h

theorem took_of_step (h : step names s a = some t) : Took s a t := by
  cases a with
  | startWrite c request =>
    simp only [step] at h
    split at h
    · cases h
    · exact Option.some.inj h ▸ .startsWrite request ‹_›
  | write c =>
    obtain ⟨wcall, hc, h⟩ := Option.bind_eq_some_iff.mp h
    exact took_of_write hc h
  | release c releasedBy =>
    obtain ⟨wcall, hc, h⟩ := Option.bind_eq_some_iff.mp h
    exact took_of_release hc h
  | failWrite c =>
    obtain ⟨wcall, hc, h⟩ := Option.bind_eq_some_iff.mp h
    exact took_of_failWrite hc h
  | startRead q request =>
    simp only [step] at h
    split at h
    · cases h
    · exact Option.some.inj h ▸ .startsRead request ‹_›
  | read q =>
    obtain ⟨call', hbind, rfl⟩ := Option.map_eq_some_iff.mp h
    obtain ⟨call, hq, hread⟩ := Option.bind_eq_some_iff.mp hbind
    exact took_of_read hq hread
  | failRead q =>
    obtain ⟨call', hbind, rfl⟩ := Option.map_eq_some_iff.mp h
    obtain ⟨call, hq, hfail⟩ := Option.bind_eq_some_iff.mp hbind
    unfold failRead at hfail
    split at hfail <;> cases hfail
    exact .moves hq (.inr nofun) .fails rfl
  | append => exact Option.some.inj h ▸ .appends
  | flushWal n => exact Option.some.inj h ▸ .flushesWal n
  | receive r n => exact Option.some.inj h ▸ .ships (Standby.le_receive _ _) nofun rfl
  | flush r n => exact Option.some.inj h ▸ .ships (Standby.le_flush _ _) nofun rfl
  | replay r n => exact Option.some.inj h ▸ .ships (Standby.le_replay _ _) nofun rfl
  | tick d => exact Option.some.inj h ▸ .ticks d

end AsyncDataHub.Consistency
