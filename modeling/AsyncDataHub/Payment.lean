import AsyncDataHub.AsyncCache
import AsyncDataHub.LockTable
import AsyncDataHub.OwnedRows
import AsyncDataHub.PyText
import AsyncDataHub.StepSystem

/-! Charging an account under an idempotency key, one SQL statement or cache operation a step. The
state has the committed rows, the locks of the open transactions and the cache; what a transaction
has written but not committed is part of its call. -/
namespace AsyncDataHub.Payment
open StepSystem LockTable OwnedRows Cache PyJson ExpiringStore PyText

abbrev Uuid := BitVec 128
abbrev CallId := ℕ
abbrev Fields := List (String × Json)

inductive ChargeStatus
  | succeeded
  | failed
  deriving DecidableEq

def ChargeStatus.value : ChargeStatus → String
  | .succeeded => "SUCCEEDED"
  | .failed => "FAILED"

inductive PaymentRequestProcessingStatus
  | processing
  | completed

def PaymentRequestProcessingStatus.value : PaymentRequestProcessingStatus → String
  | .processing => "PROCESSING"
  | .completed => "COMPLETED"

structure CreatePaymentRequest where
  amount : ℤ
  customerId : String
  amount_pos : 0 < amount
  customerId_ne : customerId ≠ ""

structure Charge where
  id : String
  amount : ℤ
  customerId : Uuid
  status : ChargeStatus
  createdAt : ℕ
  idempotencyKey : String
  errorMessage : Option String
  deriving DecidableEq

structure PaymentResponse where
  id : String
  amount : ℤ
  customerId : String
  status : ChargeStatus
  createdAt : ℕ
  idempotencyKey : String
  errorMessage : Option String := none
  idempotentReplayed : Bool := false

/-- What the model takes from outside: reading and writing of uuids and times, the random part of
charge ids and the digest. -/
structure Config where
  uuidOf : String → Option Uuid
  strOf : Uuid → String
  uuid4Hex : CallId → String
  isoformat : ℕ → String
  sha256 : String → String

def modelValidate (cfg : Config) (charge : Charge) : PaymentResponse where
  id := charge.id
  amount := charge.amount
  customerId := cfg.strOf charge.customerId
  status := charge.status
  createdAt := charge.createdAt
  idempotencyKey := charge.idempotencyKey
  errorMessage := charge.errorMessage

def PaymentResponse.modelDump (cfg : Config) (r : PaymentResponse) : Fields :=
  [("id", .str r.id), ("amount", .int r.amount), ("customer_id", .str r.customerId),
    ("status", .str r.status.value), ("created_at", .str (cfg.isoformat r.createdAt)),
    ("idempotency_key", .str r.idempotencyKey),
    ("error_message", (r.errorMessage.map Json.str).getD .null),
    ("idempotent_replayed", .bool r.idempotentReplayed)]

def responseOf (cfg : Config) (charge : Charge) : Fields := (modelValidate cfg charge).modelDump cfg

def payload (data : CreatePaymentRequest) : Fields :=
  [("customer_id", .str data.customerId), ("amount", .int data.amount)]

def serializedData (data : CreatePaymentRequest) : String := dumpsSorted (.obj (payload data))

def computeFingerprint (cfg : Config) (data : CreatePaymentRequest) : String :=
  cfg.sha256 (serializedData data)

def cacheIdempotencyKey (idempotencyKey : String) : String := "idemp:" ++ idempotencyKey

def processingFields (fingerprint : String) : Fields :=
  [("status", .str PaymentRequestProcessingStatus.processing.value),
    ("fingerprint", .str fingerprint)]

def completedFields (fingerprint : String) (response : Fields) : Fields :=
  [("status", .str PaymentRequestProcessingStatus.completed.value),
    ("fingerprint", .str fingerprint), ("response", .obj response)]

def processingRecord (fingerprint : String) : String := dumps (.obj (processingFields fingerprint))

def completedRecord (fingerprint : String) (response : Fields) : String :=
  dumps (.obj (completedFields fingerprint response))

def processingRecordTtlSeconds : ℕ := 60

def invalidCustomerId (customerId : String) : PyError :=
  .valueError ("Invalid customer_id: " ++ customerId)
def customerNotFound (customerId : String) : PyError :=
  .httpException 404 ("Customer with id " ++ customerId ++ " not found.")
def chargeExists : PyError :=
  .httpException 409 "A successful charge for this idempotency key already exists."
def pleaseRetry : PyError := .httpException 409 "Something went wrong. Please retry the request."
def payloadConflict : PyError :=
  .httpException 409 "Idempotency key conflict: different request payload for the same key."
def stillProcessing : PyError :=
  .httpException 409 "Request is still being processed. Please wait and retry."

def typeName : Json → String
  | .null => "NoneType"
  | .bool _ => "bool"
  | .int _ => "int"
  | .float _ => "float"
  | .str _ => "str"
  | .arr _ => "list"
  | .obj _ => "dict"

/-- `not value`. -/
def falsy : Json → Bool
  | .null => true
  | .bool b => !b
  | .int n => n = 0
  | .float d => d.whole = 0 && d.fraction.all (· = '0')
  | .str s => s = ""
  | .arr items => items.isEmpty
  | .obj fields => fields.isEmpty

/-- `value == text`, where `None` stands for a missing key. -/
def isText (value : Option Json) (text : String) : Bool :=
  match value with
  | some (.str s) => s = text
  | _ => false

/-- `json.loads` of the cached value and the first `.get` on the result. -/
def decodeRecord : Json → Except PyError Fields
  | .str text =>
    match loads text with
    | none => .error (.valueError "JSONDecodeError")
    | some (.obj fields) => .ok fields
    | some j => .error (.attributeError ("'" ++ typeName j ++ "' object has no attribute 'get'"))
  | j => .error (.typeError
      ("the JSON object must be str, bytes or bytearray, not " ++ typeName j))

def replayRecord (fingerprint : String) (record : Fields) : Except PyError Fields :=
  if ¬ isText (dictGet record "fingerprint") fingerprint then .error payloadConflict
  else if isText (dictGet record "status") PaymentRequestProcessingStatus.processing.value then
    .error stillProcessing
  else
    match dictGet record "response" with
    | some (.obj response) => .ok (dictSet response "idempotent_replayed" (.bool true))
    | some (.arr _) => .error (.typeError "list indices must be integers or slices, not str")
    | other => .error (.typeError
        ("'" ++ typeName (other.getD .null) ++ "' object does not support item assignment"))

/-- `_handle_existing` after the read of the cache. -/
def handleExisting (fingerprint : String) (existing : Option Json) : Except PyError Fields :=
  match existing with
  | none => .error pleaseRetry
  | some value =>
    if falsy value then .error pleaseRetry
    else (decodeRecord value).bind (replayRecord fingerprint)

inductive Outcome
  | returned (response : Fields)
  | raised (e : PyError)

/-- Where a call stands: the statement it will send next, with the local values it needs. -/
inductive Pc
  | setnx
  | lookup
  | sleep (u : Uuid) (wake : ℕ)
  | update (u : Uuid)
  | insert (u : Uuid) (balance : ℤ)
  | commit (balance : ℤ) (charge : Charge)
  | insertFailed (u : Uuid)
  | commitFailed (charge : Charge)
  | release (e : PyError)
  | complete (response : Fields)
  | done (o : Outcome)

/-- `acquiredAt` and `response` are what an observer has noted: when setnx succeeded, and what
`charge_account` returned. -/
structure Call where
  key : String
  data : CreatePaymentRequest
  pc : Pc := .setnx
  acquiredAt : Option ℕ := none
  response : Option Fields := none

abbrev Inserted := OwnedRow CallId Charge

/-- `writer` is what an observer has noted: which call wrote last under a cache key. -/
structure State where
  accounts : Uuid → Option ℤ
  charges : List Inserted
  accountLock : Locks Uuid CallId
  indexLock : Locks String CallId
  cache : AsyncCache
  writer : String → Option CallId
  now : ℕ
  calls : CallId → Option Call

/-- What one statement does besides moving its call on. -/
inductive Effect
  | goto (pc : Pc)
  | acquire (cache : AsyncCache) (pc : Pc)
  | lockAccount (u : Uuid) (pc : Pc)
  | lockIndex (pc : Pc)
  | rollback (pc : Pc)
  | publish (balance : Option ℤ) (charge : Charge)
  | setCache (cache : AsyncCache) (pc : Pc)
  | overwrite (cache : AsyncCache) (pc : Pc)

def State.setCall (s : State) (c : CallId) (call : Call) : State :=
  { s with calls := Function.update s.calls c (some call) }

/-- The accounts after a COMMIT: only a successful charge has debited one. -/
def debit (accounts : Uuid → Option ℤ) (balance : Option ℤ) (charge : Charge) : Uuid → Option ℤ :=
  match balance with
  | none => accounts
  | some b => Function.update accounts charge.customerId (some b)

def State.apply (cfg : Config) (s : State) (c : CallId) (call : Call) : Effect → State
  | .goto pc => s.setCall c { call with pc }
  | .acquire cache pc =>
    { s.setCall c { call with pc, acquiredAt := some s.now } with
      cache, writer := Function.update s.writer (cacheIdempotencyKey call.key) (some c) }
  | .lockAccount u pc =>
    { s.setCall c { call with pc } with accountLock := take s.accountLock u c }
  | .lockIndex pc => { s.setCall c { call with pc } with indexLock := take s.indexLock call.key c }
  | .rollback pc =>
    { s.setCall c { call with pc } with
      accountLock := releaseAll s.accountLock c, indexLock := releaseAll s.indexLock c }
  | .publish balance charge =>
    { s.setCall c { call with
        pc := .complete (responseOf cfg charge), response := some (responseOf cfg charge) } with
      accounts := debit s.accounts balance charge
      charges := s.charges ++ [⟨c, charge⟩]
      accountLock := releaseAll s.accountLock c
      indexLock := releaseAll s.indexLock c }
  | .setCache cache pc => { s.setCall c { call with pc } with cache }
  | .overwrite cache pc =>
    { s.setCall c { call with pc } with
      cache, writer := Function.update s.writer (cacheIdempotencyKey call.key) (some c) }

/-- The row that a call inserts; its id and its time are drawn at the INSERT. -/
def newCharge (cfg : Config) (s : State) (c : CallId) (call : Call) (u : Uuid)
    (status : ChargeStatus) (errorMessage : Option String) : Charge where
  id := "ch_" ++ cfg.uuid4Hex c
  amount := call.data.amount
  customerId := u
  status := status
  createdAt := s.now
  idempotencyKey := call.key
  errorMessage := errorMessage

/-- The committed rows that the partial unique index has under a key. -/
def succeededRows (key : String) (charges : List Inserted) : List Inserted :=
  charges.filter fun i => i.row.idempotencyKey = key ∧ i.row.status = .succeeded

def maxInteger : ℤ := 2147483647

def balanceCheckConstraint : String := "ck_customer_accounts_balance_non_negative"

def idempotencyUniqueIndex : String := "uq_charges_idempotency_key_succeeded"

/-- What SQLAlchemy has wrapped. Its adapter of asyncpg sets neither of the two names. -/
structure DriverError where
  constraintName : Option String := none
  diagConstraintName : Option String := none
  text : String

def constraintName (orig : DriverError) : String :=
  match orig.constraintName.filter (· ≠ ""), orig.diagConstraintName.filter (· ≠ "") with
  | some name, _ => name
  | none, some name => name
  | none, none => orig.text

/-- The error of an INSERT whose key is taken; the key is part of the text. -/
def uniqueViolation (key : String) : DriverError where
  text := "<class 'asyncpg.exceptions.UniqueViolationError'>: duplicate key value violates " ++
    "unique constraint \"" ++ idempotencyUniqueIndex ++
    "\"\nDETAIL:  Key (idempotency_key)=" ++ "(" ++ key ++ ")" ++ " already exists."

/-- Where `charge_account` goes on after an IntegrityError. -/
def onIntegrityError (u : Uuid) (orig : DriverError) : Pc :=
  let constraint := constraintName orig
  if Mentions constraint balanceCheckConstraint then .insertFailed u
  else if Mentions constraint idempotencyUniqueIndex then .release chargeExists
  else .release (.aborted orig.text)

/-- `charge_account`: a relative UPDATE under the row lock, the CHECK on the balance, and the
INSERT, which waits for another open transaction with the same index entry. -/
def chargeAccount (cfg : Config) (s : State) (c : CallId) (call : Call) : Option Effect :=
  match call.pc with
  | .sleep u wake => if wake ≤ s.now then some (.goto (.update u)) else none
  | .update u =>
    if maxInteger < call.data.amount then
      some (.rollback (.release (.aborted "value out of int32 range")))
    else
      match s.accounts u with
      | none => some (.rollback (.release (customerNotFound call.data.customerId)))
      | some balance =>
        if Available s.accountLock u c then
          -- the text of this IntegrityError names the CHECK, whatever is in the row
          if balance - call.data.amount < 0 then some (.rollback (.insertFailed u))
          else some (.lockAccount u (.insert u (balance - call.data.amount)))
        else none
  | .insert u balance =>
    if succeededRows call.key s.charges ≠ [] then
      some (.rollback (onIntegrityError u (uniqueViolation call.key)))
    else if Available s.indexLock call.key c then
      some (.lockIndex (.commit balance (newCharge cfg s c call u .succeeded none)))
    else none
  | .commit balance charge => some (.publish (some balance) charge)
  | .insertFailed u =>
    some (.goto (.commitFailed (newCharge cfg s c call u .failed (some "Insufficient balance"))))
  | .commitFailed charge => some (.publish none charge)
  | _ => none

/-- The call has the key: the customer id is read, then the simulated network delay starts. -/
def firstPc (cfg : Config) (now : ℕ) (data : CreatePaymentRequest) : Pc :=
  match cfg.uuidOf data.customerId with
  | none => .release (invalidCustomerId data.customerId)
  | some u => .sleep u (now + 2 * 1000)

def lookupOutcome (fingerprint : String) (existing : Except PyError (Option Json)) : Outcome :=
  match existing.bind (handleExisting fingerprint) with
  | .ok response => .returned response
  | .error e => .raised e

/-- The statement that a call sends next; `none` while it has to wait. -/
def chargeWithIdempotency (cfg : Config) (s : State) (c : CallId) (call : Call) : Option Effect :=
  let cacheKey := cacheIdempotencyKey call.key
  let fingerprint := computeFingerprint cfg call.data
  match call.pc with
  | .setnx =>
    let (cache, acquired) := s.cache.setnx s.now cacheKey
      (dumps (.str (processingRecord fingerprint))) (some processingRecordTtlSeconds)
    if acquired then some (.acquire cache (firstPc cfg s.now call.data)) else some (.goto .lookup)
  | .lookup =>
    let (cache, existing) := s.cache.get s.now cacheKey
    some (.setCache cache (.done (lookupOutcome fingerprint existing)))
  | .release e => some (.setCache (s.cache.delete cacheKey) (.done (.raised e)))
  | .complete response =>
    some (.overwrite (s.cache.set s.now cacheKey (.str (completedRecord fingerprint response))
      (some processingRecordTtlSeconds)) (.done (.returned response)))
  | .done _ => none
  | _ => chargeAccount cfg s c call

/-- CancelledError is not an Exception: the transaction rolls back, the key is not released. -/
def cancelEffect : Pc → Option Effect
  | .done _ => none
  | _ => some (.rollback (.done (.raised (.aborted "cancelled"))))

/-- What an exception raised by the statement that the call is about to send does. -/
def errorEffect : Pc → Option Effect
  | .setnx | .lookup | .release _ | .complete _ =>
    some (.goto (.done (.raised (.aborted "cache error"))))
  | .sleep _ _ | .done _ => none
  | _ => some (.rollback (.release (.aborted "statement failed")))

inductive Action
  | start (c : CallId) (key : String) (data : CreatePaymentRequest)
  | op (c : CallId)
  | cancel (c : CallId)
  | error (c : CallId)
  | tick (d : ℕ)

def stepCall (cfg : Config) (s : State) (c : CallId) (effect : Call → Option Effect) :
    Option State :=
  match s.calls c with
  | none => none
  | some call => (effect call).map (s.apply cfg c call)

def step (cfg : Config) (s : State) : Action → Option State
  | .start c key data =>
    match s.calls c with
    | some _ => none
    | none => some (s.setCall c { key, data })
  | .op c => stepCall cfg s c (chargeWithIdempotency cfg s c)
  | .cancel c => stepCall cfg s c fun call => cancelEffect call.pc
  | .error c => stepCall cfg s c fun call => errorEffect call.pc
  | .tick d => some { s with now := s.now + d }

end AsyncDataHub.Payment
