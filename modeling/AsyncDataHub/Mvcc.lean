import AsyncDataHub.LockTable
import AsyncDataHub.StepSystem

/-! Clients that run programs of SQL statements on one table. A transaction sees its own writes and
then its view: the committed rows, or above READ COMMITTED those committed before its first
statement. There a row that has been committed since cannot be updated. -/
namespace AsyncDataHub.Mvcc
open StepSystem LockTable

inductive IsolationLevel
  | readCommitted
  | repeatableRead
  | serializable
  deriving DecidableEq

/-- Committed rows, each with the number of the commit that has written it last. -/
structure Table (K V : Type*) where
  rows : K → Option V
  changedAt : K → ℕ
  commits : ℕ
  changedAt_le : ∀ k, changedAt k ≤ commits

/-- READ COMMITTED keeps no snapshot: each of its statements sees the newest rows. -/
structure Txn (K V : Type*) where
  level : IsolationLevel
  snapshot : Option (Table K V) := none
  writes : K → Option V := fun _ => none

/-- The next statement of a client and the local state it goes on with. An update is computed from
the row and may fail with an SQLSTATE; it tells how many rows it has changed. -/
inductive Stmt (K V L : Type*)
  | begin (level : IsolationLevel) (next : L)
  | select (k : K) (next : Option V → L)
  | update (k : K) (change : V → Except String V) (next : ℕ → L)
  | commit (next : L)
  | rollback (next : L)
  | finished

/-- `failed` is where a client goes on after an error; `none` stands for one without an SQLSTATE. -/
structure Program (I K V L : Type*) where
  start : I → L
  next : L → Stmt K V L
  failed : L → Option String → L

structure Client (K V L : Type*) where
  loc : L
  txn : Option (Txn K V) := none

structure Db (K V T L : Type*) where
  table : Table K V
  locks : Locks K T := fun _ => none
  clients : T → Option (Client K V L) := fun _ => none

inductive Action (T I : Type*)
  | start (t : T) (input : I)
  | op (t : T)
  | fail (t : T) (sqlstate : Option String)

inductive UpdateOutcome (V : Type*)
  | waits
  | missed
  | failed (sqlstate : String)
  | row (v : V)

def serializationFailure : String := "40001"

variable {I K V T L : Type*}

def Table.new (rows : K → Option V) : Table K V := ⟨rows, fun _ => 0, 0, fun _ => le_rfl⟩

def Table.commit (table : Table K V) (writes : K → Option V) : Table K V where
  rows k := (writes k).or (table.rows k)
  changedAt k := if (writes k).isSome then table.commits + 1 else table.changedAt k
  commits := table.commits + 1
  changedAt_le k := by
    have hle := table.changedAt_le k
    split <;> omega

def Txn.view (txn : Txn K V) (table : Table K V) : Table K V := txn.snapshot.getD table

def Txn.observe (txn : Txn K V) (table : Table K V) : Txn K V :=
  { txn with snapshot := if txn.level = .readCommitted then none else some (txn.view table) }

def Txn.read (txn : Txn K V) (table : Table K V) (k : K) : Option V :=
  (txn.writes k).or ((txn.view table).rows k)

def Txn.Stale (txn : Txn K V) (table : Table K V) (k : K) : Prop :=
  (txn.view table).commits < table.changedAt k

instance (txn : Txn K V) (table : Table K V) (k : K) : Decidable (txn.Stale table k) :=
  inferInstanceAs (Decidable (_ < _))

section Machine
variable [DecidableEq K] [DecidableEq T]

def Db.setClient (db : Db K V T L) (t : T) (client : Client K V L) : Db K V T L :=
  { db with clients := Function.update db.clients t (some client) }

/-- UPDATE finds its row in the view and changes the newest version of it, under the row lock. -/
def Db.updateOutcome (db : Db K V T L) (t : T) (txn : Txn K V) (k : K)
    (change : V → Except String V) : UpdateOutcome V :=
  match txn.read db.table k with
  | none => .missed
  | some _ =>
    if txn.Stale db.table k then .failed serializationFailure
    else if Available db.locks k t then
      match (txn.writes k).or (db.table.rows k) with
      | none => .missed
      | some v =>
        match change v with
        | .ok w => .row w
        | .error sqlstate => .failed sqlstate
    else .waits

def Db.write (db : Db K V T L) (t : T) (l : L) (txn : Txn K V) (k : K) (v : V) : Db K V T L :=
  { db.setClient t ⟨l, some { txn with writes := Function.update txn.writes k (some v) }⟩ with
    locks := take db.locks k t }

def Db.commit (db : Db K V T L) (t : T) (l : L) (txn : Txn K V) : Db K V T L :=
  { db.setClient t ⟨l, none⟩ with
    table := db.table.commit txn.writes, locks := releaseAll db.locks t }

def Db.abort (db : Db K V T L) (t : T) (l : L) : Db K V T L :=
  { db.setClient t ⟨l, none⟩ with locks := releaseAll db.locks t }

/-- An UPDATE that is the first statement has its snapshot before it waits for a lock. -/
def Txn.NeedsSnapshot (txn : Txn K V) : Prop :=
  txn.level ≠ .readCommitted ∧ txn.snapshot.isNone = true

instance (txn : Txn K V) : Decidable txn.NeedsSnapshot := inferInstanceAs (Decidable (_ ∧ _))

def Db.runUpdate (prog : Program I K V L) (db : Db K V T L) (t : T) (l : L) (txn : Txn K V) (k : K)
    (change : V → Except String V) (next : ℕ → L) : Option (Db K V T L) :=
  match db.updateOutcome t txn k change with
  | .waits => none
  | .missed => some (db.setClient t ⟨next 0, some (txn.observe db.table)⟩)
  | .failed sqlstate => some (db.abort t (prog.failed l (some sqlstate)))
  | .row v => some (db.write t (next 1) (txn.observe db.table) k v)

/-- Run the next statement of a client; `none` while it has to wait. -/
def Db.stepClient (prog : Program I K V L) (db : Db K V T L) (t : T) (client : Client K V L) :
    Option (Db K V T L) :=
  match prog.next client.loc, client.txn with
  | .begin level next, none => some (db.setClient t ⟨next, some { level }⟩)
  | .select k next, some txn =>
    some (db.setClient t ⟨next (txn.read db.table k), some (txn.observe db.table)⟩)
  | .update k change next, some txn =>
    if txn.NeedsSnapshot then
      some (db.setClient t ⟨client.loc, some (txn.observe db.table)⟩)
    else db.runUpdate prog t client.loc txn k change next
  | .commit next, some txn => some (db.commit t next txn)
  | .rollback next, some _ => some (db.abort t next)
  | _, _ => none

/-- A transaction can fail at any time: a deadlock, a dangerous cycle under SERIALIZABLE, a lost
connection or a cancelled client. -/
def step (prog : Program I K V L) (db : Db K V T L) : Action T I → Option (Db K V T L)
  | .start t input =>
    match db.clients t with
    | some _ => none
    | none => some (db.setClient t ⟨prog.start input, none⟩)
  | .op t => (db.clients t).bind (db.stepClient prog t)
  | .fail t sqlstate =>
    match db.clients t with
    | some ⟨l, some _⟩ => some (db.abort t (prog.failed l sqlstate))
    | _ => none

/-- At most `n` statements of one client, while nobody else does anything. -/
def Db.runAlone (prog : Program I K V L) (t : T) : ℕ → Db K V T L → Db K V T L
  | 0, db => db
  | n + 1, db =>
    match (db.clients t).bind (db.stepClient prog t) with
    | none => db
    | some db' => db'.runAlone prog t n

end Machine

section Steps
variable [DecidableEq K] [DecidableEq T] {prog : Program I K V L} {db db' : Db K V T L}
  {a : Action T I} {t : T} {l : L} {txn : Txn K V} {k : K}

inductive Took (prog : Program I K V L) (db : Db K V T L) : Action T I → Db K V T L → Prop
  | starts {t : T} (input : I) (fresh : db.clients t = none) :
      Took prog db (.start t input) (db.setClient t ⟨prog.start input, none⟩)
  | begins {t : T} {l l' : L} {level : IsolationLevel} (client : db.clients t = some ⟨l, none⟩)
      (stmt : prog.next l = .begin level l') :
      Took prog db (.op t) (db.setClient t ⟨l', some { level }⟩)
  | snaps {t : T} {l : L} {txn : Txn K V} (client : db.clients t = some ⟨l, some txn⟩) :
      Took prog db (.op t) (db.setClient t ⟨l, some (txn.observe db.table)⟩)
  | selects {t : T} {l : L} {txn : Txn K V} {k : K} {next : Option V → L}
      (client : db.clients t = some ⟨l, some txn⟩) (stmt : prog.next l = .select k next) :
      Took prog db (.op t)
        (db.setClient t ⟨next (txn.read db.table k), some (txn.observe db.table)⟩)
  | misses {t : T} {l : L} {txn : Txn K V} {k : K} {change : V → Except String V} {next : ℕ → L}
      (client : db.clients t = some ⟨l, some txn⟩) (stmt : prog.next l = .update k change next)
      (missing : txn.read db.table k = none ∨ (txn.writes k).or (db.table.rows k) = none) :
      Took prog db (.op t) (db.setClient t ⟨next 0, some (txn.observe db.table)⟩)
  | writes {t : T} {l : L} {txn : Txn K V} {k : K} {change : V → Except String V} {next : ℕ → L}
      {v w : V} (client : db.clients t = some ⟨l, some txn⟩)
      (stmt : prog.next l = .update k change next) (current : ¬ txn.Stale db.table k)
      (lock : Available db.locks k t) (old : (txn.writes k).or (db.table.rows k) = some v)
      (new : change v = .ok w) :
      Took prog db (.op t) (db.write t (next 1) (txn.observe db.table) k w)
  | commits {t : T} {l l' : L} {txn : Txn K V} (client : db.clients t = some ⟨l, some txn⟩)
      (stmt : prog.next l = .commit l') : Took prog db (.op t) (db.commit t l' txn)
  | aborts {a : Action T I} {t : T} {l l' : L} {txn : Txn K V}
      (client : db.clients t = some ⟨l, some txn⟩)
      (reason : prog.next l = .rollback l' ∨ ∃ sqlstate, l' = prog.failed l sqlstate) :
      Took prog db a (db.abort t l')

lemma took_of_runUpdate {change : V → Except String V} {next : ℕ → L}
    (hc : db.clients t = some ⟨l, some txn⟩) (hs : prog.next l = .update k change next)
    (h : db.runUpdate prog t l txn k change next = some db') : Took prog db (.op t) db' := by
  unfold Db.runUpdate Db.updateOutcome at h
  cases hread : txn.read db.table k with
  | none =>
    simp only [hread, Option.some.injEq] at h
    exact h ▸ .misses hc hs (.inl hread)
  | some _ =>
    simp only [hread] at h
    by_cases hstale : txn.Stale db.table k
    · simp only [hstale, if_true, Option.some.injEq] at h
      exact h ▸ .aborts hc (.inr ⟨_, rfl⟩)
    · by_cases hlock : Available db.locks k t
      · simp only [hstale, hlock, if_true, if_false] at h
        cases hold : (txn.writes k).or (db.table.rows k) with
        | none =>
          simp only [hold, Option.some.injEq] at h
          exact h ▸ .misses hc hs (.inr hold)
        | some v =>
          cases hnew : change v with
          | error e =>
            simp only [hold, hnew, Option.some.injEq] at h
            exact h ▸ .aborts hc (.inr ⟨_, rfl⟩)
          | ok w =>
            simp only [hold, hnew, Option.some.injEq] at h
            exact h ▸ .writes hc hs hstale hlock hold hnew
      · simp [hstale, hlock] at h

lemma took_of_stepClient {client : Client K V L} (hc : db.clients t = some client)
    (h : db.stepClient prog t client = some db') : Took prog db (.op t) db' := by
  obtain ⟨l, txn⟩ := client
  cases hs : prog.next l <;> cases txn <;>
    simp only [Db.stepClient, hs, Option.some.injEq, reduceCtorEq] at h
  case begin => exact h ▸ .begins hc hs
  case select => exact h ▸ .selects hc hs
  case update =>
    split at h
    · cases h
      exact .snaps hc
    · exact took_of_runUpdate hc hs h
  case commit => exact h ▸ .commits hc hs
  case rollback => exact h ▸ .aborts hc (.inl hs)

theorem took_of_step (h : step prog db a = some db') : Took prog db a db' := by
  cases a with
  | start t input =>
    simp only [step] at h
    split at h
    · cases h
    · cases h
      exact .starts input ‹_›
  | op t =>
    obtain ⟨client, hc, h⟩ := Option.bind_eq_some_iff.mp h
    exact took_of_stepClient hc h
  | fail t sqlstate =>
    simp only [step] at h
    split at h
    · cases h
      exact .aborts ‹_› (.inr ⟨_, rfl⟩)
    · cases h

end Steps

section Invariants
variable {table : Table K V} {locks : Locks K T} {t u : T} {txn txn' : Txn K V} {k : K} {v : V}
  {ids : Set K}

/-- The transaction has locked the rows it has written; its view is older than the table, and agrees
with it on the rows that have not been committed since; the rows it has written are among these. -/
structure Txn.Sound (ids : Set K) (table : Table K V) (locks : Locks K T) (t : T) (txn : Txn K V) :
    Prop where
  held : ∀ k v, txn.writes k = some v → locks k = some t
  level : txn.level = .readCommitted → txn.snapshot = none
  older : (txn.view table).commits ≤ table.commits
  stable : ∀ k, ¬ txn.Stale table k → (txn.view table).rows k = table.rows k
  first : ∀ k v, txn.writes k = some v → ¬ txn.Stale table k
  seen : ∀ k, (txn.view table).rows k ≠ none ↔ k ∈ ids
  wrote : ∀ k v, txn.writes k = some v → k ∈ ids

/-- The rows of the table are those of `ids`, and every open transaction is sound. -/
structure Db.Sound (ids : Set K) (db : Db K V T L) : Prop where
  rows : ∀ k, db.table.rows k ≠ none ↔ k ∈ ids
  txns : ∀ t l txn, db.clients t = some ⟨l, some txn⟩ → txn.Sound ids db.table db.locks t

lemma view_observe (table : Table K V) (hl : txn.level = .readCommitted → txn.snapshot = none) :
    (txn.observe table).view table = txn.view table := by
  by_cases h : txn.level = .readCommitted
  · simp [Txn.observe, Txn.view, h, hl h]
  · simp [Txn.observe, Txn.view, h]

lemma Txn.Sound.new (level : IsolationLevel) (hrows : ∀ k, table.rows k ≠ none ↔ k ∈ ids) :
    Txn.Sound ids table locks t { level } where
  held _ _ h := by cases h
  level _ := rfl
  older := le_rfl
  stable _ _ := rfl
  first _ _ h := by cases h
  seen := hrows
  wrote _ _ h := by cases h

lemma Txn.Sound.observe (h : txn.Sound ids table locks t) :
    (txn.observe table).Sound ids table locks t := by
  have hview := view_observe table h.level
  have hstale (k : K) : (txn.observe table).Stale table k ↔ txn.Stale table k := by
    unfold Txn.Stale
    rw [hview]
  refine ⟨h.held, fun hl => if_pos hl, hview ▸ h.older, fun k hk => ?_, fun k v hw => ?_, ?_,
    h.wrote⟩
  · rw [hview]
    exact h.stable k (mt (hstale k).mpr hk)
  · exact mt (hstale k).mp (h.first k v hw)
  · rw [hview]
    exact h.seen

lemma Txn.Sound.read_ne_none (h : txn.Sound ids table locks t) :
    txn.read table k ≠ none ↔ k ∈ ids := by
  unfold Txn.read
  cases hw : txn.writes k with
  | none => simpa using h.seen k
  | some v => simpa using h.wrote k v hw

lemma Txn.Sound.writes_eq_none (h : txn.Sound ids table locks t)
    (h' : txn'.Sound ids table locks u) (hne : t ≠ u) (hw : txn.writes k = some v) :
    txn'.writes k = none := by
  cases hw' : txn'.writes k with
  | none => rfl
  | some w =>
    have heq := (h.held k v hw).symm.trans (h'.held k w hw')
    exact absurd (Option.some.inj heq) hne

lemma rows_commit {db : Db K V T L} (hdb : db.Sound ids)
    (h : txn.Sound ids db.table db.locks t) (k : K) :
    (db.table.commit txn.writes).rows k ≠ none ↔ k ∈ ids := by
  cases hw : txn.writes k with
  | none => simpa [Table.commit, hw] using hdb.rows k
  | some v => simpa [Table.commit, hw] using h.wrote k v hw

section Locking
variable [DecidableEq K]

lemma Txn.Sound.write (h : txn.Sound ids table locks t) (hk : k ∈ ids)
    (hc : ¬ txn.Stale table k) :
    Txn.Sound ids table (take locks k t) t
      { txn with writes := Function.update txn.writes k (some v) } where
  held j w hw := by
    rcases update_eq_some.mp hw with ⟨rfl, _⟩ | ⟨hne, hw⟩
    · exact take_self ..
    · rw [take_of_ne _ hne]
      exact h.held j w hw
  level := h.level
  older := h.older
  stable := h.stable
  first j w hw := by
    rcases update_eq_some.mp hw with ⟨rfl, _⟩ | ⟨_, hw⟩
    · exact hc
    · exact h.first j w hw
  seen := h.seen
  wrote j w hw := by
    rcases update_eq_some.mp hw with ⟨rfl, _⟩ | ⟨_, hw⟩
    · exact hk
    · exact h.wrote j w hw

lemma Txn.Sound.lock (h : txn.Sound ids table locks t) (ha : Available locks k u) (hne : t ≠ u) :
    txn.Sound ids table (take locks k u) t :=
  { h with held := fun j v hw => take_eq_some_of_ne ha (h.held j v hw) hne }

end Locking

section Ending
variable [DecidableEq T]

lemma Txn.Sound.release (h : txn.Sound ids table locks t) (hne : t ≠ u) :
    txn.Sound ids table (releaseAll locks u) t :=
  { h with held := fun j v hw => releaseAll_eq_some.mpr ⟨h.held j v hw, hne⟩ }

lemma Txn.Sound.commit (h : txn.Sound ids table locks t) (h' : txn'.Sound ids table locks u)
    (hne : t ≠ u) (hrows : ∀ k, (table.commit txn'.writes).rows k ≠ none ↔ k ∈ ids) :
    txn.Sound ids (table.commit txn'.writes) (releaseAll locks u) t := by
  have hheld := (h.release hne).held
  cases hs : txn.snapshot with
  | none =>
    have hview (table : Table K V) : txn.view table = table := by simp [Txn.view, hs]
    have hnot (k : K) : ¬ txn.Stale (table.commit txn'.writes) k := by
      unfold Txn.Stale
      rw [hview]
      exact not_lt.mpr (Table.changedAt_le _ k)
    refine ⟨hheld, h.level, ?_, fun k _ => ?_, fun k _ _ => hnot k, ?_, h.wrote⟩
    · rw [hview]
    · rw [hview]
    · rw [hview]
      exact hrows
  | some snap =>
    have hview (table : Table K V) : txn.view table = snap := by simp [Txn.view, hs]
    have holder := h.older
    rw [hview] at holder
    have hkeeps {k : K} (hk : ¬ txn.Stale (table.commit txn'.writes) k) :
        txn'.writes k = none ∧ ¬ txn.Stale table k := by
      unfold Txn.Stale at hk ⊢
      rw [hview] at hk ⊢
      cases hw : txn'.writes k with
      | none =>
        simp only [Table.commit, hw] at hk
        exact ⟨rfl, hk⟩
      | some w =>
        simp only [Table.commit, hw, Option.isSome_some, if_true] at hk
        omega
    refine ⟨hheld, h.level, ?_, fun k hk => ?_, fun k v hw => ?_, ?_, h.wrote⟩
    · rw [hview]
      exact holder.trans (Nat.le_succ _)
    · obtain ⟨hw, hk⟩ := hkeeps hk
      rw [hview, ← hview table, h.stable k hk]
      simp [Table.commit, hw]
    · have hnone := h.writes_eq_none h' hne hw
      have hk := h.first k v hw
      unfold Txn.Stale at hk ⊢
      rw [hview] at hk ⊢
      simpa [Table.commit, hnone] using hk
    · rw [hview, ← hview table]
      exact h.seen

lemma Db.Sound.setClient {db : Db K V T L} {client : Client K V L} (h : db.Sound ids)
    (hc : ∀ txn, client.txn = some txn → txn.Sound ids db.table db.locks t) :
    (db.setClient t client).Sound ids := by
  refine ⟨h.rows, fun u l txn hu => ?_⟩
  rcases update_eq_some.mp hu with ⟨rfl, rfl⟩ | ⟨_, hu⟩
  · exact hc txn rfl
  · exact h.txns u l txn hu

end Ending

section Run
variable [DecidableEq K] [DecidableEq T] {prog : Program I K V L} {db db' : Db K V T L}
  {a : Action T I}

theorem sound_step (h : step prog db a = some db') (hi : db.Sound ids) : db'.Sound ids := by
  cases took_of_step h with
  | starts _ _ => exact hi.setClient (by simp)
  | begins _ _ =>
    refine hi.setClient fun txn htxn => ?_
    cases htxn
    exact .new _ hi.rows
  | snaps hc | selects hc _ | misses hc _ _ =>
    refine hi.setClient fun txn htxn => ?_
    cases htxn
    exact (hi.txns _ _ _ hc).observe
  | @writes t l txn k change next v w hc _ hcur hlock hold _ =>
    have htxn := hi.txns _ _ _ hc
    have hk : k ∈ ids := by
      rw [← htxn.read_ne_none]
      unfold Txn.read
      rw [htxn.stable k hcur, hold]
      simp
    have hcur' : ¬ (txn.observe db.table).Stale db.table k := by
      unfold Txn.Stale at hcur ⊢
      rwa [view_observe _ htxn.level]
    refine ⟨hi.rows, fun u l txn' hu => ?_⟩
    rcases update_eq_some.mp hu with ⟨rfl, heq⟩ | ⟨hne, hu⟩
    · cases heq
      exact htxn.observe.write hk hcur'
    · exact (hi.txns u l txn' hu).lock hlock hne
  | commits hc _ =>
    have htxn := hi.txns _ _ _ hc
    refine ⟨rows_commit hi htxn, fun u l txn' hu => ?_⟩
    rcases update_eq_some.mp hu with ⟨_, heq⟩ | ⟨hne, hu⟩
    · cases heq
    · exact (hi.txns u l txn' hu).commit htxn hne (rows_commit hi htxn)
  | aborts _ _ =>
    refine ⟨hi.rows, fun u l txn' hu => ?_⟩
    rcases update_eq_some.mp hu with ⟨_, heq⟩ | ⟨hne, hu⟩
    · cases heq
    · exact (hi.txns u l txn' hu).release hne

end Run

end Invariants

lemma not_needsSnapshot_observe (table : Table K V) (txn : Txn K V) :
    ¬ (txn.observe table).NeedsSnapshot := by
  intro h
  obtain ⟨hlevel, hnone⟩ : txn.level ≠ .readCommitted ∧ (txn.observe table).snapshot.isNone := h
  simp [Txn.observe, hlevel] at hnone

section Alone
variable [DecidableEq K] [DecidableEq T] {prog : Program I K V L} {db : Db K V T L} {t : T}
  {l l' : L} {table : Table K V} {writes : K → Option V} {k : K} {n : ℕ}

/-- A transaction that nobody disturbs and that has run a statement: it sees the committed table
under its own writes. -/
structure Alone (table : Table K V) (t : T) (l : L) (writes : K → Option V) (db : Db K V T L) :
    Prop where
  unchanged : db.table = table
  unlocked : ∀ k, Available db.locks k t
  client : ∃ txn : Txn K V, db.clients t = some ⟨l, some txn⟩ ∧ txn.writes = writes ∧
    txn.view table = table ∧ (txn.level = .readCommitted → txn.snapshot = none) ∧
    ¬ txn.NeedsSnapshot

lemma runAlone_succ {client : Client K V L} {db' : Db K V T L} (hc : db.clients t = some client)
    (h : db.stepClient prog t client = some db') :
    db.runAlone prog t (n + 1) = db'.runAlone prog t n := by
  simp only [Db.runAlone, hc, Option.bind_some, h]

lemma runAlone_begin {level : IsolationLevel} {next : Option V → L}
    (hc : db.clients t = some ⟨l, none⟩) (hlocks : ∀ k, Available db.locks k t)
    (hs : prog.next l = .begin level l') (hread : prog.next l' = .select k next) :
    ∃ db', db.runAlone prog t (n + 2) = db'.runAlone prog t n ∧
      Alone db.table t (next (db.table.rows k)) (fun _ => none) db' := by
  let txn : Txn K V := { level }
  let begun := db.setClient t ⟨l', some txn⟩
  have hbegun : begun.clients t = some ⟨l', some txn⟩ := Function.update_self ..
  refine ⟨begun.setClient t ⟨next (db.table.rows k), some (txn.observe db.table)⟩, ?_,
    rfl, hlocks, txn.observe db.table, Function.update_self .., rfl, ?_, fun hl => if_pos hl,
    not_needsSnapshot_observe db.table txn⟩
  · rw [runAlone_succ hc (by simp only [Db.stepClient, hs]; rfl)]
    exact runAlone_succ hbegun (by simp only [Db.stepClient, hread]; rfl)
  · rw [view_observe db.table fun _ => rfl]
    rfl

lemma Alone.select {next : Option V → L} (h : Alone table t l writes db)
    (hs : prog.next l = .select k next) :
    ∃ db', db.runAlone prog t (n + 1) = db'.runAlone prog t n ∧
      Alone table t (next ((writes k).or (table.rows k))) writes db' := by
  obtain ⟨rfl, hlocks, txn, hc, rfl, hview, hlevel, _⟩ := h
  have hread : txn.read db.table k = (txn.writes k).or (db.table.rows k) := by
    rw [Txn.read, hview]
  refine ⟨db.setClient t ⟨next (txn.read db.table k), some (txn.observe db.table)⟩,
    runAlone_succ hc (by simp only [Db.stepClient, hs]), rfl, hlocks, txn.observe db.table, ?_, rfl,
    (view_observe db.table hlevel).trans hview, fun hl => if_pos hl,
    not_needsSnapshot_observe db.table txn⟩
  rw [← hread]
  exact Function.update_self ..

lemma Alone.update {change : V → Except String V} {next : ℕ → L} {v w : V}
    (h : Alone table t l writes db) (hs : prog.next l = .update k change next)
    (hold : (writes k).or (table.rows k) = some v) (hnew : change v = .ok w) :
    ∃ db', db.runAlone prog t (n + 1) = db'.runAlone prog t n ∧
      Alone table t (next 1) (Function.update writes k (some w)) db' := by
  obtain ⟨rfl, hlocks, txn, hc, rfl, hview, hlevel, hsnap⟩ := h
  have hread : txn.read db.table k = some v := by rw [Txn.read, hview, hold]
  have hstale : ¬ txn.Stale db.table k := by
    rw [Txn.Stale, hview]
    exact not_lt.mpr (db.table.changedAt_le k)
  refine ⟨db.write t (next 1) (txn.observe db.table) k w, runAlone_succ hc ?_, rfl, ?_,
    { txn.observe db.table with writes := Function.update txn.writes k (some w) },
    Function.update_self .., rfl, (view_observe db.table hlevel).trans hview, fun hl => if_pos hl,
    not_needsSnapshot_observe db.table txn⟩
  · simp only [Db.stepClient, hs, hsnap, if_false, Db.runUpdate, Db.updateOutcome, hread, hstale,
      hlocks k, if_true, hold, hnew]
  · intro k' u hu
    by_cases hk : k' = k
    · subst hk
      simpa [Db.write, eq_comm] using hu
    · exact hlocks k' u ((take_of_ne _ hk t).symm.trans hu)

lemma Alone.commit (h : Alone table t l writes db) (hs : prog.next l = .commit l') :
    ∃ db' : Db K V T L, db.runAlone prog t (n + 1) = db'.runAlone prog t n ∧
      db'.table = table.commit writes ∧ db'.clients t = some ⟨l', none⟩ := by
  obtain ⟨rfl, _, txn, hc, rfl, _⟩ := h
  exact ⟨db.commit t l' txn, runAlone_succ hc (by simp only [Db.stepClient, hs]), rfl,
    Function.update_self ..⟩

lemma Alone.rollback (h : Alone table t l writes db) (hs : prog.next l = .rollback l') :
    ∃ db' : Db K V T L, db.runAlone prog t (n + 1) = db'.runAlone prog t n ∧
      db'.table = table ∧ db'.clients t = some ⟨l', none⟩ := by
  obtain ⟨rfl, _, txn, hc, rfl, _⟩ := h
  exact ⟨db.abort t l', runAlone_succ hc (by simp only [Db.stepClient, hs]), rfl,
    Function.update_self ..⟩

lemma runAlone_finished (hc : db.clients t = some ⟨l, none⟩) (hs : prog.next l = .finished) :
    db.runAlone prog t n = db := by
  cases n with
  | zero => rfl
  | succ n => simp only [Db.runAlone, hc, Option.bind_some, Db.stepClient, hs]

end Alone

end AsyncDataHub.Mvcc
