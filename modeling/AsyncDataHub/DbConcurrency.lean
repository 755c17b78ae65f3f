import AsyncDataHub.Mvcc

/-! Transfers between accounts, one SQL statement a step. -/
namespace AsyncDataHub.DbConcurrency
open StepSystem LockTable Mvcc

abbrev TxnId := ℕ

structure TransferRequest where
  fromId : String
  toId : String
  amount : ℤ
  amount_pos : 0 < amount

inductive TransferError
  | httpException (statusCode : ℕ) (detail : String)
  | insufficientFunds (fromId : String)
  /-- The driver's error, with its SQLSTATE if the database has sent it. -/
  | dbApiError (sqlstate : Option String)

def accountNotFound : TransferError := .httpException 404 "Account not found"

inductive Outcome
  | returned (newFromBalance newToBalance : Option ℤ)
  | raised (e : TransferError)

/-- Where a call stands: the statement it will send next, with the local values it needs. -/
inductive Pc
  | begin
  | readFrom
  | readTo (fromBalance : Option ℤ)
  | debit
  | credit
  | readNewFrom
  | readNewTo (newFromBalance : Option ℤ)
  | commit (newFromBalance newToBalance : Option ℤ)
  | rollback (e : TransferError)
  | done (o : Outcome)

structure Call where
  request : TransferRequest
  isolation : IsolationLevel
  pc : Pc := .begin

def Call.goto (call : Call) (pc : Pc) : Call := { call with pc }

/-- The range of a BIGINT column. -/
def bigint (balance : ℤ) : Except String ℤ :=
  if -9223372036854775808 ≤ balance ∧ balance ≤ 9223372036854775807 then .ok balance
  else .error "22003"

/-- The checks between the two reads and the debit. -/
def checkFunds (request : TransferRequest) (fromBalance toBalance : Option ℤ) : Pc :=
  match fromBalance, toBalance with
  | some balance, some _ =>
    if balance < request.amount then .rollback (.insufficientFunds request.fromId) else .debit
  | _, _ => .rollback accountNotFound

def transferFunds (call : Call) : Stmt String ℤ Call :=
  let ⟨fromId, toId, amount, _⟩ := call.request
  match call.pc with
  | .readFrom => .select fromId fun balance => call.goto (.readTo balance)
  | .readTo fromBalance =>
    .select toId fun toBalance => call.goto (checkFunds call.request fromBalance toBalance)
  | .debit => .update fromId (fun balance => bigint (balance - amount)) fun _ => call.goto .credit
  | .credit =>
    .update toId (fun balance => bigint (balance + amount)) fun _ => call.goto .readNewFrom
  | .readNewFrom => .select fromId fun balance => call.goto (.readNewTo balance)
  | .readNewTo newFromBalance =>
    .select toId fun balance => call.goto (.commit newFromBalance balance)
  | _ => .finished

/-- A transaction block around the transfer, at the isolation level that the caller asks for. -/
def inTransaction (call : Call) : Stmt String ℤ Call :=
  match call.pc with
  | .begin => .begin call.isolation (call.goto .readFrom)
  | .commit newFromBalance newToBalance =>
    .commit (call.goto (.done (.returned newFromBalance newToBalance)))
  | .rollback e => .rollback (call.goto (.done (.raised e)))
  | .done _ => .finished
  | _ => transferFunds call

def transfers : Program (TransferRequest × IsolationLevel) String ℤ Call where
  start input := { request := input.1, isolation := input.2 }
  next := inTransaction
  failed call sqlstate := call.goto (.done (.raised (.dbApiError sqlstate)))

abbrev State := Db String ℤ TxnId Call

/-- The statements a call can send from where it stands. -/
inductive Sends (call : Call) : Stmt String ℤ Call → Prop
  | begins (pc : call.pc = .begin) :
      Sends call (.begin call.isolation (call.goto .readFrom))
  | readsFrom (pc : call.pc = .readFrom) :
      Sends call (.select call.request.fromId fun balance => call.goto (.readTo balance))
  | readsTo {fromBalance : Option ℤ} (pc : call.pc = .readTo fromBalance) :
      Sends call (.select call.request.toId fun toBalance =>
        call.goto (checkFunds call.request fromBalance toBalance))
  | debits (pc : call.pc = .debit) :
      Sends call (.update call.request.fromId
        (fun balance => bigint (balance - call.request.amount)) fun _ => call.goto .credit)
  | credits (pc : call.pc = .credit) :
      Sends call (.update call.request.toId
        (fun balance => bigint (balance + call.request.amount)) fun _ => call.goto .readNewFrom)
  | readsNewFrom (pc : call.pc = .readNewFrom) :
      Sends call (.select call.request.fromId fun balance => call.goto (.readNewTo balance))
  | readsNewTo {newFromBalance : Option ℤ} (pc : call.pc = .readNewTo newFromBalance) :
      Sends call (.select call.request.toId fun balance =>
        call.goto (.commit newFromBalance balance))
  | commits {newFromBalance newToBalance : Option ℤ}
      (pc : call.pc = .commit newFromBalance newToBalance) :
      Sends call (.commit (call.goto (.done (.returned newFromBalance newToBalance))))
  | rollsBack {e : TransferError} (pc : call.pc = .rollback e) :
      Sends call (.rollback (call.goto (.done (.raised e))))
  | rests {o : Outcome} (pc : call.pc = .done o) : Sends call .finished

theorem sends_next (call : Call) : Sends call (transfers.next call) := by
  simp only [transfers, inTransaction, transferFunds]
  cases hpc : call.pc with
  | begin => exact .begins hpc
  | readFrom => exact .readsFrom hpc
  | readTo fromBalance => exact .readsTo hpc
  | debit => exact .debits hpc
  | credit => exact .credits hpc
  | readNewFrom => exact .readsNewFrom hpc
  | readNewTo newFromBalance => exact .readsNewTo hpc
  | commit newFromBalance newToBalance => exact .commits hpc
  | rollback e => exact .rollsBack hpc
  | done o => exact .rests hpc

lemma sends_of_next {call : Call} {stmt : Stmt String ℤ Call} (h : transfers.next call = stmt) :
    Sends call stmt := h ▸ sends_next call

lemma bigint_eq_ok {b b' : ℤ} (h : bigint b = .ok b') : b' = b := by
  unfold bigint at h
  split_ifs at h
  exact (Except.ok.inj h).symm

end AsyncDataHub.DbConcurrency
