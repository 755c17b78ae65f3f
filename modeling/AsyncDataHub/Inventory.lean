import AsyncDataHub.DistributedLock
import AsyncDataHub.LockTable
import AsyncDataHub.OwnedRows
import AsyncDataHub.StepSystem

/-! The reservation strategies, one SQL statement or Redis operation a step. The state has the
committed rows, the row locks of the open transactions and the lock entries in the cache; what a
transaction has written but not committed is part of its call. -/
namespace AsyncDataHub.Inventory
open StepSystem LockTable OwnedRows Cache Lock

abbrev Uuid := BitVec 128
abbrev CallId := ℕ

inductive ReserveStrategy
  | naive
  | optimistic
  | pessimistic
  | atomic
  | locked
  deriving DecidableEq

structure ReserveRequest where
  quantity : ℤ
  quantity_pos : 0 < quantity

structure ProductRequest where
  name : String
  stock : ℤ
  stock_pos : 0 < stock

structure Product where
  name : String
  stock : ℤ
  version : ℤ := 1
  deriving DecidableEq

structure ProductReservation where
  id : Uuid
  productId : Uuid
  quantity : ℤ
  createdAt : ℕ
  deriving DecidableEq

def addProduct (req : ProductRequest) : Product := { name := req.name, stock := req.stock }

/-- What the model takes from outside: how the driver reads a path parameter as a uuid, the ids
drawn for reservations and the tokens drawn for locks. -/
structure Config where
  uuidOf : String → Option Uuid
  uuid7 : CallId → Uuid
  tokenHex : CallId → String
  maxOptimisticAttempts : ℕ := 5

def productNotFound : PyError := .httpException 404 "Product not found"
def notEnoughStock : PyError := .httpException 400 "Not enough stock"
def tooManyAttempts : PyError :=
  .httpException 409 "Too many concurrent attempts; please try again"
def lockUnavailable : PyError :=
  .httpException 503 "Could not acquire lock; please try again"

inductive Outcome
  | returned (r : ProductReservation)
  | raised (e : PyError)
  deriving DecidableEq

/-- An UPDATE that is not committed yet: the new row, and the stock it was computed from. -/
structure Write where
  product : Uuid
  base : ℤ
  row : Product
  deriving DecidableEq

/-- Where a call stands: the statement it will send next, with the local values it needs. -/
inductive Pc
  | acquire (deadline : ℕ)
  | select (attempt : ℕ)
  | update (attempt : ℕ) (stock version : ℤ)
  | decrement
  | record (w : Write)
  | commit (w : Write) (r : ProductReservation)
  | commitMiss (u : Uuid) (attempt : ℕ)
  | release (o : Outcome)
  | done (o : Outcome)
  deriving DecidableEq

structure Call where
  productId : String
  quantity : ℤ
  strategy : ReserveStrategy
  pc : Pc

/-- A transaction that has committed, as the write-ahead log would show it. -/
structure Commit where
  call : CallId
  product : Uuid
  before : Option Product
  after : Option Product
  inserted : List ProductReservation

abbrev Inserted := OwnedRow CallId ProductReservation

structure State where
  products : Uuid → Option Product
  reservations : List Inserted
  history : List Commit
  rowLock : Locks Uuid CallId
  cache : AsyncCache
  now : ℕ
  calls : CallId → Option Call

/-- What one statement does besides moving its call on. -/
inductive Effect
  | goto (pc : Pc)
  | lockRow (u : Uuid) (pc : Pc)
  | publish (w : Write) (r : ProductReservation)
  | commitNoop (u : Uuid) (pc : Pc)
  | fail (e : PyError)
  | setCache (cache : AsyncCache) (pc : Pc)

/-- Leaving the transaction block: the locked strategy still has to release its lock. -/
def Call.exit (call : Call) (o : Outcome) : Pc :=
  if call.strategy = .locked then .release o else .done o

def State.setCall (s : State) (c : CallId) (call : Call) (pc : Pc) : State :=
  { s with calls := Function.update s.calls c (some { call with pc }) }

def State.apply (s : State) (c : CallId) (call : Call) : Effect → State
  | .goto pc => s.setCall c call pc
  | .lockRow u pc => { s.setCall c call pc with rowLock := take s.rowLock u c }
  | .publish w r =>
    { s.setCall c call (call.exit (.returned r)) with
      products := Function.update s.products w.product (some w.row)
      reservations := s.reservations ++ [⟨c, r⟩]
      history := s.history ++ [⟨c, w.product, s.products w.product, some w.row, [r]⟩]
      rowLock := releaseAll s.rowLock c }
  | .commitNoop u pc =>
    { s.setCall c call pc with
      history := s.history ++ [⟨c, u, s.products u, s.products u, []⟩]
      rowLock := releaseAll s.rowLock c }
  | .fail e =>
    { s.setCall c call (call.exit (.raised e)) with rowLock := releaseAll s.rowLock c }
  | .setCache cache pc => { s.setCall c call pc with cache }

/-- The guards that every strategy but the atomic one makes on the row it has read. -/
def checkStock (row : Option Product) (quantity : ℤ) : Except PyError Product :=
  match row with
  | none => .error productNotFound
  | some p => if p.stock < quantity then .error notEnoughStock else .ok p

/-- SELECT with the guards after it. FOR UPDATE waits for the row lock and takes it. -/
def selectRow (cfg : Config) (s : State) (c : CallId) (call : Call) (forUpdate : Bool)
    (attempt : ℕ) : Option Effect :=
  match cfg.uuidOf call.productId with
  | none => some (.fail (.aborted "invalid UUID"))
  | some u =>
    if forUpdate = true ∧ s.products u ≠ none ∧ ¬ Available s.rowLock u c then none
    else
      match checkStock (s.products u) call.quantity with
      | .error e => some (.fail e)
      | .ok p =>
        if forUpdate then some (.lockRow u (.update attempt p.stock p.version))
        else some (.goto (.update attempt p.stock p.version))

/-- UPDATE .. WHERE: it looks at the newest committed row, waits for the row lock when the row
matches, and has rowcount 0 when it does not. -/
def updateRow (cfg : Config) (s : State) (c : CallId) (call : Call) (cond : Product → Bool)
    (change : Product → Product) (base : Product → ℤ) (miss : Uuid → Effect) : Option Effect :=
  match cfg.uuidOf call.productId with
  | none => some (.fail (.aborted "invalid UUID"))
  | some u =>
    match s.products u with
    | none => some (miss u)
    | some p =>
      if cond p then
        if Available s.rowLock u c then some (.lockRow u (.record ⟨u, base p, change p⟩)) else none
      else some (miss u)

/-- `_record_reservation` and the COMMIT at the end of the block. -/
def recordReservation (cfg : Config) (s : State) (c : CallId) (call : Call) : Option Effect :=
  match call.pc with
  | .record w => some (.goto (.commit w ⟨cfg.uuid7 c, w.product, call.quantity, s.now⟩))
  | .commit w r => some (.publish w r)
  | _ => none

/-- Read the row, check it, write `stock - quantity` back: the stock written is a value computed
from the read, whatever the row holds by then. -/
def readModifyWrite (forUpdate : Bool) (cfg : Config) (s : State) (c : CallId) (call : Call) :
    Option Effect :=
  match call.pc with
  | .select attempt => selectRow cfg s c call forUpdate attempt
  | .update _ stock _ =>
    updateRow cfg s c call (fun _ => true) (fun p => { p with stock := stock - call.quantity })
      (fun _ => stock) (fun _ => .fail (.aborted "no row to update"))
  | _ => recordReservation cfg s c call

def reserveNaive : Config → State → CallId → Call → Option Effect := readModifyWrite false

def reservePessimistic : Config → State → CallId → Call → Option Effect := readModifyWrite true

def nextVersion (version : ℤ) : ℤ := version + 1

/-- The range of an INTEGER column: the driver refuses a parameter beyond it. -/
def fitsInteger (value : ℤ) : Bool := -2147483648 ≤ value && value ≤ 2147483647

def outOfRange : PyError := .aborted "value out of int32 range"

def shouldRetry (attempt maxAttempt : ℕ) : Bool := attempt + 1 < maxAttempt

def reserveOptimistic (cfg : Config) (s : State) (c : CallId) (call : Call) : Option Effect :=
  match call.pc with
  | .select attempt => selectRow cfg s c call false attempt
  | .update attempt stock version =>
    if fitsInteger (nextVersion version) then
      updateRow cfg s c call (fun p => p.version = version)
        (fun p => { p with stock := stock - call.quantity, version := nextVersion version })
        (fun _ => stock) (fun u => .goto (.commitMiss u attempt))
    else some (.fail outOfRange)
  | .commitMiss u attempt =>
    -- rowcount 0: the transaction commits without a change
    if shouldRetry attempt cfg.maxOptimisticAttempts then
      some (.commitNoop u (.select (attempt + 1)))
    else some (.commitNoop u (.done (.raised tooManyAttempts)))
  | _ => recordReservation cfg s c call

def reserveAtomic (cfg : Config) (s : State) (c : CallId) (call : Call) : Option Effect :=
  match call.pc with
  | .select _ =>
    -- `.scalars()` is an object and never falsy, so the 404 branch is not taken
    match cfg.uuidOf call.productId with
    | none => some (.fail (.aborted "invalid UUID"))
    | some _ => some (.goto .decrement)
  | .decrement =>
    -- the only statement that compares the stock with a quantity that nobody has checked
    if fitsInteger call.quantity then
      updateRow cfg s c call (fun p => call.quantity ≤ p.stock)
        (fun p => { p with stock := p.stock - call.quantity }) Product.stock
        (fun _ => .fail notEnoughStock)
    else some (.fail outOfRange)
  | _ => recordReservation cfg s c call

def lockOf (cfg : Config) (c : CallId) (call : Call) : DistributedLock where
  lockName := "product:" ++ call.productId
  lockToken := cfg.tokenHex c

def reserveDistributedLock (cfg : Config) (s : State) (c : CallId) (call : Call) :
    Option Effect :=
  match call.pc with
  | .acquire deadline =>
    let (cache, acquired) := (lockOf cfg c call).poll s.cache s.now
    if acquired then some (.setCache cache (.select 0))
    else if deadline ≤ s.now then some (.goto (.done (.raised lockUnavailable)))
    else some (.goto (.acquire deadline))
  | .release o =>
    match (lockOf cfg c call).release s.cache s.now with
    | (cache, .ok _) => some (.setCache cache (.done o))
    | (cache, .error e) => some (.setCache cache (.done (.raised e)))
  | _ => readModifyWrite false cfg s c call

/-- The statement that a call sends next; `none` while it has to wait. -/
def reserveProduct (cfg : Config) (s : State) (c : CallId) (call : Call) : Option Effect :=
  match call.strategy with
  | .naive => reserveNaive cfg s c call
  | .optimistic => reserveOptimistic cfg s c call
  | .pessimistic => reservePessimistic cfg s c call
  | .atomic => reserveAtomic cfg s c call
  | .locked => reserveDistributedLock cfg s c call

/-- Where a call starts. Without any attempt allowed the optimistic loop is not entered. -/
def startPc (cfg : Config) (now : ℕ) : ReserveStrategy → Pc
  | .locked => .acquire (now + acquireTimeout)
  | .optimistic => if cfg.maxOptimisticAttempts = 0 then .done (.raised tooManyAttempts)
      else .select 0
  | _ => .select 0

inductive Action
  | start (c : CallId) (productId : String) (req : ReserveRequest) (strategy : ReserveStrategy)
  | op (c : CallId)
  /-- A statement fails or the call is cancelled: the transaction rolls back. -/
  | abort (c : CallId)
  /-- The process of the call dies: the transaction rolls back, a lock entry stays. -/
  | crash (c : CallId)
  | tick (d : ℕ)

/-- What an exception raised by the statement a call is about to send does. -/
def abortEffect : Pc → Option Effect
  | .acquire _ => some (.goto (.done (.raised (.aborted "cancelled"))))
  | .release _ | .done _ => none
  | _ => some (.fail (.aborted "statement failed"))

def step (cfg : Config) (s : State) : Action → Option State
  | .start c productId req strategy =>
    match s.calls c with
    | some _ => none
    | none => some { s with
        calls := Function.update s.calls c
          (some ⟨productId, req.quantity, strategy, startPc cfg s.now strategy⟩) }
  | .op c =>
    match s.calls c with
    | none => none
    | some call => (reserveProduct cfg s c call).map (s.apply c call)
  | .abort c =>
    match s.calls c with
    | none => none
    | some call => (abortEffect call.pc).map (s.apply c call)
  | .crash c =>
    match s.calls c with
    | none => none
    | some call =>
      match call.pc with
      | .done _ => none
      | _ => some { s.setCall c call (.done (.raised (.aborted "process died"))) with
          rowLock := releaseAll s.rowLock c }
  | .tick d => some { s with now := s.now + d }

def rowsOf (pid : Uuid) (rows : List Inserted) : List Inserted :=
  rows.filter fun i => i.row.productId = pid

def reserved (pid : Uuid) (rows : List Inserted) : ℤ :=
  ((rowsOf pid rows).map fun i => i.row.quantity).sum

end AsyncDataHub.Inventory
