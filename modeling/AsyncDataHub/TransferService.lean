import AsyncDataHub.DbConcurrency

/-! The transfer endpoint's service call: attempts in a loop, each of them a transaction that begins
with the statement that sets its isolation level. -/
namespace AsyncDataHub.DbConcurrency
open LockTable Mvcc

def IsolationLevel.member : IsolationLevel → String
  | .readCommitted => "READ_COMMITTED"
  | .repeatableRead => "REPEATABLE_READ"
  | .serializable => "SERIALIZABLE"

def IsolationLevel.value : IsolationLevel → String
  | .readCommitted => "read_committed"
  | .repeatableRead => "repeatable_read"
  | .serializable => "serializable"

def isolationSql : List (IsolationLevel × String) :=
  [(.readCommitted, "READ COMMITTED"), (.repeatableRead, "REPEATABLE READ"),
    (.serializable, "SERIALIZABLE")]

def IsolationLevel.repr (level : IsolationLevel) : String :=
  "<IsolationLevel." ++ IsolationLevel.member level ++ ": '" ++ IsolationLevel.value level ++ "'>"

def itemRepr (item : IsolationLevel × String) : String :=
  IsolationLevel.repr item.1 ++ ": '" ++ item.2 ++ "'"

/-- What an f-string makes of a dictionary. -/
def dictRepr (items : List (IsolationLevel × String)) : String :=
  "\x7b" ++ ", ".intercalate (items.map itemRepr) ++ "\x7d"

def setIsolation (level : String) : String := "SET TRANSACTION ISOLATION LEVEL " ++ level

/-- The statement of the code: it has the dictionary where the entry of the level belongs. -/
def transferSql (_ : IsolationLevel) : String := setIsolation (dictRepr isolationSql)

def keywords (sql : String) : List String :=
  ((sql.toList.splitOnP Char.isWhitespace).filter (· ≠ [])).map fun word =>
    String.ofList (word.map Char.toUpper)

def syntaxError : String := "42601"

/-- The database on a statement that sets nothing but the level. -/
def setTransaction (sql : String) : Except String IsolationLevel :=
  match keywords sql with
  | ["SET", "TRANSACTION", "ISOLATION", "LEVEL", "READ", "UNCOMMITTED"] => .ok .readCommitted
  | ["SET", "TRANSACTION", "ISOLATION", "LEVEL", "READ", "COMMITTED"] => .ok .readCommitted
  | ["SET", "TRANSACTION", "ISOLATION", "LEVEL", "REPEATABLE", "READ"] => .ok .repeatableRead
  | ["SET", "TRANSACTION", "ISOLATION", "LEVEL", "SERIALIZABLE"] => .ok .serializable
  | _ => .error syntaxError

lemma setTransaction_transferSql (isolation : IsolationLevel) :
    setTransaction (transferSql isolation) = .error syntaxError := by
  have hrefused : setTransaction (setIsolation (dictRepr isolationSql)) = .error syntaxError := by
    decide +kernel
  exact hrefused

/-- `async with session.begin()`: BEGIN, the statement for the level, and the transfer. A level that
the database refuses ends the transaction. -/
def attempt (sql : IsolationLevel → String) :
    Program (TransferRequest × IsolationLevel) String ℤ Call where
  start := transfers.start
  next call :=
    match call.pc with
    | .begin =>
      match setTransaction (sql call.isolation) with
      | .ok level => .begin level (call.goto .readFrom)
      | .error sqlstate =>
        .begin .readCommitted (call.goto (.rollback (.dbApiError (some sqlstate))))
    | _ => inTransaction call
  failed := transfers.failed

abbrev Accounts := Table String ℤ

def attemptLength : ℕ := 8

/-- One attempt while no other transaction is open; `none` if it does not end. -/
def runAttempt (sql : IsolationLevel → String) (request : TransferRequest)
    (isolation : IsolationLevel) (accounts : Accounts) : Option (Outcome × Accounts) :=
  let idle : State := { table := accounts }
  let call := (attempt sql).start (request, isolation)
  let db := (idle.setClient 0 ⟨call, none⟩).runAlone (attempt sql) 0 attemptLength
  (db.clients 0).bind fun client =>
    match client.loc.pc with
    | .done o => some (o, db.table)
    | _ => none

structure TransferResponse where
  fromId : String
  toId : String
  amount : ℤ
  fromBalance : ℤ
  toBalance : ℤ
  isolationLevel : IsolationLevel
  retries : ℕ

inductive ServiceError
  | transferError (e : TransferError)
  | serializationRetriesExhausted (fromId : String)
  /-- A response without a balance. -/
  | validationError

/-- `none` is Python's: the end of the function without a return. -/
inductive TransferResult
  | response (r : TransferResponse)
  | none
  | raised (e : ServiceError)

def isSerializationFailure (sqlstate : Option String) : Bool :=
  sqlstate = some serializationFailure

def respond (request : TransferRequest) (isolation : IsolationLevel) (attempt : ℕ)
    (fromBalance toBalance : Option ℤ) : TransferResult :=
  match fromBalance, toBalance with
  | some fromBalance, some toBalance =>
    .response
      { fromId := request.fromId, toId := request.toId, amount := request.amount, fromBalance,
        toBalance, isolationLevel := isolation, retries := attempt }
  | _, _ => .raised .validationError

/-- The loop from one attempt on, with so many still to come; `run` is one attempt. -/
def transferLoop {σ : Type*} (run : σ → Option (Outcome × σ)) (request : TransferRequest)
    (isolation : IsolationLevel) (maxRetries : ℤ) : ℕ → ℕ → σ → Option (TransferResult × σ)
  | 0, _, s => some (.none, s)
  | n + 1, attempt, s =>
    (run s).bind fun (o, s) =>
      match o with
      | .returned fromBalance toBalance =>
        some (respond request isolation attempt fromBalance toBalance, s)
      | .raised (.dbApiError sqlstate) =>
        if ¬ isSerializationFailure sqlstate then
          some (.raised (.transferError (.dbApiError sqlstate)), s)
        else if (attempt : ℤ) > maxRetries then
          some (.raised (.serializationRetriesExhausted request.fromId), s)
        else transferLoop run request isolation maxRetries n (attempt + 1) s
      | .raised e => some (.raised (.transferError e), s)

/-- The service call with any text for the level. -/
def transferWith (sql : IsolationLevel → String) (maxRetries : ℤ) (request : TransferRequest)
    (isolation : IsolationLevel) (accounts : Accounts) : Option (TransferResult × Accounts) :=
  transferLoop (runAttempt sql request isolation) request isolation maxRetries maxRetries.toNat 0
    accounts

def transfer : ℤ → TransferRequest → IsolationLevel → Accounts →
    Option (TransferResult × Accounts) := transferWith transferSql

def moved (request : TransferRequest) (rows : String → Option ℤ) (id : String) : Option ℤ :=
  (rows id).map fun balance =>
    balance - (if id = request.fromId then request.amount else 0) +
      if id = request.toId then request.amount else 0

/-- With both accounts and enough money: one transaction at the level that was asked for, with the
new balances in the response; otherwise the error of the transfer and nothing changed. -/
def Performs (sql : IsolationLevel → String) (request : TransferRequest)
    (isolation : IsolationLevel) (accounts : Accounts) (result : TransferResult)
    (accounts' : Accounts) : Prop :=
  match accounts.rows request.fromId, accounts.rows request.toId with
  | some balance, some _ =>
    if request.amount ≤ balance then
      setTransaction (sql isolation) = .ok isolation ∧
        accounts'.commits = accounts.commits + 1 ∧ accounts'.rows = moved request accounts.rows ∧
        ∃ fromBalance toBalance, accounts'.rows request.fromId = some fromBalance ∧
          accounts'.rows request.toId = some toBalance ∧
          result = .response
            { fromId := request.fromId, toId := request.toId, amount := request.amount, fromBalance,
              toBalance, isolationLevel := isolation, retries := 0 }
    else
      result = .raised (.transferError (.insufficientFunds request.fromId)) ∧ accounts' = accounts
  | _, _ => result = .raised (.transferError accountNotFound) ∧ accounts' = accounts

variable {sql : IsolationLevel → String} {request : TransferRequest} {isolation : IsolationLevel}
  {accounts accounts' : Accounts} {result : TransferResult} {maxRetries : ℤ}

lemma runAttempt_refused {sqlstate : String}
    (h : setTransaction (sql isolation) = .error sqlstate) :
    runAttempt sql request isolation accounts =
      some (.raised (.dbApiError (some sqlstate)), accounts) := by
  simp [runAttempt, attemptLength, Db.runAlone, Db.stepClient, attempt, transfers, inTransaction, h,
    Db.setClient, Db.abort, Call.goto]

lemma transferWith_refused {sqlstate : String} (hpos : 0 < maxRetries)
    (h : setTransaction (sql isolation) = .error sqlstate)
    (hfinal : sqlstate ≠ serializationFailure) :
    transferWith sql maxRetries request isolation accounts =
      some (.raised (.transferError (.dbApiError (some sqlstate))), accounts) := by
  obtain ⟨n, hn⟩ := Nat.exists_eq_succ_of_ne_zero (show maxRetries.toNat ≠ 0 by omega)
  simp [transferWith, hn, transferLoop, runAttempt_refused h, isSerializationFailure, hfinal]

lemma not_performs (hresponse : ∀ response, result ≠ .response response)
    (hfunds : result ≠ .raised (.transferError (.insufficientFunds request.fromId)))
    (hfound : result ≠ .raised (.transferError accountNotFound)) :
    ¬ Performs sql request isolation accounts result accounts' := by
  intro h
  unfold Performs at h
  split at h
  · split_ifs at h
    · obtain ⟨_, _, _, _, _, _, _, hresult⟩ := h
      exact hresponse _ hresult
    · exact hfunds h.1
  · exact hfound h.1

/-- The database refuses the statement for the level, so that every attempt ends with a syntax
error and none is made after it: no transfer does what it is to do. -/
theorem transfer_never_performs (maxRetries : ℤ) (request : TransferRequest)
    (isolation : IsolationLevel) (accounts : Accounts) :
    ∃ result, transfer maxRetries request isolation accounts = some (result, accounts) ∧
      (0 < maxRetries → result = .raised (.transferError (.dbApiError (some syntaxError)))) ∧
      (maxRetries ≤ 0 → result = .none) ∧
      ∀ accounts', ¬ Performs transferSql request isolation accounts result accounts' := by
  rcases lt_or_ge 0 maxRetries with hpos | hneg
  · have hrefused := setTransaction_transferSql isolation
    refine ⟨_, transferWith_refused hpos hrefused (by decide), fun _ => rfl, fun h => by omega,
      fun accounts' => ?_⟩
    exact not_performs nofun (by simp) (by simp [accountNotFound])
  · have hzero : maxRetries.toNat = 0 := by omega
    refine ⟨.none, by simp [transfer, transferWith, hzero, transferLoop], fun h => by omega,
      fun _ => rfl, fun accounts' => not_performs nofun nofun nofun⟩

/-- Each entry of the dictionary is the text for its level. -/
theorem setTransaction_isolationSql :
    ∀ item ∈ isolationSql, setTransaction (setIsolation item.2) = .ok item.1 := by decide

def opened (sql : IsolationLevel → String) (request : TransferRequest) (isolation : IsolationLevel)
    (accounts : Accounts) : State :=
  Db.setClient { table := accounts } 0 ⟨(attempt sql).start (request, isolation), none⟩

variable (request accounts) in
lemma attempt_reads {level : IsolationLevel} (h : setTransaction (sql isolation) = .ok level) :
    ∃ db : State,
      (opened sql request isolation accounts).runAlone (attempt sql) 0 attemptLength =
        db.runAlone (attempt sql) 0 5 ∧
      Alone accounts 0 ⟨request, isolation, checkFunds request (accounts.rows request.fromId)
        (accounts.rows request.toId)⟩ (fun _ => none) db := by
  have hbegin : (attempt sql).next ⟨request, isolation, .begin⟩ =
      .begin level ⟨request, isolation, .readFrom⟩ := by simp [attempt, h, Call.goto]
  have hread : (attempt sql).next ⟨request, isolation, .readFrom⟩ =
      .select request.fromId fun b => ⟨request, isolation, .readTo b⟩ := rfl
  have hread' : (attempt sql).next
        ⟨request, isolation, .readTo (accounts.rows request.fromId)⟩ =
      .select request.toId fun b =>
        ⟨request, isolation, checkFunds request (accounts.rows request.fromId) b⟩ := rfl
  have hc : (opened sql request isolation accounts).clients 0 =
      some ⟨⟨request, isolation, .begin⟩, none⟩ := rfl
  obtain ⟨db, hrun, halone⟩ := runAlone_begin (n := 6) hc (fun k u hu => by cases hu) hbegin hread
  obtain ⟨db', hrun', halone'⟩ := halone.select (n := 5) hread'
  exact ⟨db', hrun.trans hrun', halone'⟩

lemma outcome_of_done {db : State} {call : Call} {o : Outcome}
    (hrun : (opened sql request isolation accounts).runAlone (attempt sql) 0 attemptLength = db)
    (hc : db.clients 0 = some ⟨call, none⟩) (hpc : call.pc = .done o) :
    runAttempt sql request isolation accounts = some (o, db.table) := by
  subst hrun
  have hc' := hc
  simp only [opened] at hc'
  simp [runAttempt, opened, hc', hpc]

lemma runAttempt_error {level : IsolationLevel} {e : TransferError}
    (h : setTransaction (sql isolation) = .ok level)
    (hcheck : checkFunds request (accounts.rows request.fromId) (accounts.rows request.toId) =
      .rollback e) :
    runAttempt sql request isolation accounts = some (.raised e, accounts) := by
  have hrollback : (attempt sql).next ⟨request, isolation, .rollback e⟩ =
      .rollback ⟨request, isolation, .done (.raised e)⟩ := rfl
  have hdone : (attempt sql).next ⟨request, isolation, .done (.raised e)⟩ = .finished := rfl
  obtain ⟨db, hrun, halone⟩ := attempt_reads request accounts h
  rw [hcheck] at halone
  obtain ⟨db', hrun', htable, hc⟩ := halone.rollback (n := 4) hrollback
  have hend := runAlone_finished (n := 4) hc hdone
  rw [outcome_of_done (hrun.trans (hrun'.trans hend)) hc rfl, htable]

def booked (request : TransferRequest) (b c : ℤ) : String → Option ℤ :=
  Function.update (Function.update (fun _ => none) request.fromId (some (b - request.amount)))
    request.toId (some (c + request.amount))

lemma runAttempt_ok {level : IsolationLevel} {b c : ℤ}
    (h : setTransaction (sql isolation) = .ok level)
    (hcheck : checkFunds request (accounts.rows request.fromId) (accounts.rows request.toId) =
      .debit)
    (hfrom : accounts.rows request.fromId = some b)
    (hdebit : bigint (b - request.amount) = .ok (b - request.amount))
    (hto : (Function.update (fun _ => none) request.fromId (some (b - request.amount))
      request.toId).or (accounts.rows request.toId) = some c)
    (hcredit : bigint (c + request.amount) = .ok (c + request.amount)) :
    runAttempt sql request isolation accounts =
      some (.returned ((accounts.commit (booked request b c)).rows request.fromId)
        ((accounts.commit (booked request b c)).rows request.toId),
        accounts.commit (booked request b c)) := by
  obtain ⟨db, hrun, halone⟩ := attempt_reads request accounts h
  rw [hcheck] at halone
  have hnext : ∀ pc, pc ≠ .begin →
      (attempt sql).next ⟨request, isolation, pc⟩ = inTransaction ⟨request, isolation, pc⟩ := by
    intro pc hpc
    cases pc <;> first | rfl | exact absurd rfl hpc
  obtain ⟨db₁, hrun₁, halone₁⟩ :=
    halone.update (n := 4) (hnext _ nofun) (by simpa using hfrom) hdebit
  obtain ⟨db₂, hrun₂, halone₂⟩ := halone₁.update (n := 3) (hnext _ nofun) hto hcredit
  obtain ⟨db₃, hrun₃, halone₃⟩ := halone₂.select (n := 2) (hnext _ nofun)
  obtain ⟨db₄, hrun₄, halone₄⟩ := halone₃.select (n := 1) (hnext _ nofun)
  obtain ⟨db₅, hrun₅, htable, hc⟩ := halone₄.commit (n := 0) (hnext _ nofun)
  have hall := hrun.trans (hrun₁.trans (hrun₂.trans (hrun₃.trans (hrun₄.trans hrun₅))))
  have hout : runAttempt sql request isolation accounts = some (_, db₅.table) :=
    outcome_of_done hall hc rfl
  rw [hout, htable]
  rfl

lemma bigint_of_le {b c : ℤ} (hb : bigint b = .ok b) (hc : 0 ≤ c) (hle : c ≤ b) :
    bigint c = .ok c := by
  unfold bigint at hb ⊢
  split_ifs at hb with hrange
  rw [if_pos (by omega)]

/-- What the credit finds: in a transfer of an account to itself, the balance after the debit. -/
def toCredit (request : TransferRequest) (b b' : ℤ) : ℤ :=
  if request.fromId = request.toId then b - request.amount else b'

lemma rows_commit_booked {b b' : ℤ} (hfrom : accounts.rows request.fromId = some b)
    (hto : accounts.rows request.toId = some b') :
    (accounts.commit (booked request b (toCredit request b b'))).rows =
      moved request accounts.rows := by
  funext id
  by_cases hsame : request.fromId = request.toId
  · have hb : b = b' := by simpa [hsame, hto] using hfrom.symm
    by_cases hid : id = request.toId <;>
      simp [Table.commit, booked, moved, toCredit, hsame, hid, hto, hb]
  · by_cases hto' : id = request.toId
    · subst hto'
      simp [Table.commit, booked, moved, toCredit, hsame, Ne.symm hsame, hto]
    · by_cases hfrom' : id = request.fromId
      · simp [Table.commit, booked, moved, toCredit, hsame, hfrom', hfrom]
      · simp [Table.commit, booked, moved, toCredit, hsame, hfrom', hto']

lemma transferWith_returned {b c : Option ℤ} (hpos : 0 < maxRetries)
    (hrun : runAttempt sql request isolation accounts = some (.returned b c, accounts')) :
    transferWith sql maxRetries request isolation accounts =
      some (respond request isolation 0 b c, accounts') := by
  obtain ⟨n, hn⟩ := Nat.exists_eq_succ_of_ne_zero (show maxRetries.toNat ≠ 0 by omega)
  simp [transferWith, hn, transferLoop, hrun]

lemma transferWith_raised {e : TransferError} (hpos : 0 < maxRetries)
    (hrun : runAttempt sql request isolation accounts = some (.raised e, accounts'))
    (he : ∀ sqlstate, e ≠ .dbApiError sqlstate) :
    transferWith sql maxRetries request isolation accounts =
      some (.raised (.transferError e), accounts') := by
  obtain ⟨n, hn⟩ := Nat.exists_eq_succ_of_ne_zero (show maxRetries.toNat ≠ 0 by omega)
  cases e with
  | dbApiError sqlstate => exact absurd rfl (he sqlstate)
  | httpException _ _ | insufficientFunds _ => simp [transferWith, hn, transferLoop, hrun]

lemma accountNotFound_ne (sqlstate : Option String) :
    accountNotFound ≠ .dbApiError sqlstate := by
  simp [accountNotFound]

/-- With the level's own name in the statement the transfer does what it is to do, as long as the
balances are in the range of their column. -/
theorem transferWith_performs (hpos : 0 < maxRetries)
    (hlevel : setTransaction (sql isolation) = .ok isolation)
    (hrange : ∀ id b, accounts.rows id = some b → bigint b = .ok b)
    (hcredit : ∀ b, accounts.rows request.toId = some b →
      bigint (b + request.amount) = .ok (b + request.amount)) :
    ∃ result accounts',
      transferWith sql maxRetries request isolation accounts = some (result, accounts') ∧
      Performs sql request isolation accounts result accounts' := by
  have hamount := request.amount_pos
  have herror : ∀ e, (∀ sqlstate, e ≠ .dbApiError sqlstate) →
      checkFunds request (accounts.rows request.fromId) (accounts.rows request.toId) =
        .rollback e →
      transferWith sql maxRetries request isolation accounts =
        some (.raised (.transferError e), accounts) := fun e he hcheck =>
    transferWith_raised hpos (runAttempt_error hlevel hcheck) he
  cases hfrom : accounts.rows request.fromId with
  | none =>
    refine ⟨_, _, herror accountNotFound accountNotFound_ne (by simp [checkFunds, hfrom]), ?_⟩
    simp [Performs, hfrom]
  | some b =>
    cases hto : accounts.rows request.toId with
    | none =>
      refine ⟨_, _, herror accountNotFound accountNotFound_ne
        (by simp [checkFunds, hfrom, hto]), ?_⟩
      simp [Performs, hfrom, hto]
    | some b' =>
      by_cases hfunds : request.amount ≤ b
      · have hdebit : bigint (b - request.amount) = .ok (b - request.amount) :=
          bigint_of_le (hrange _ b hfrom) (by omega) (by omega)
        have hrows := rows_commit_booked hfrom hto
        have hrun := runAttempt_ok (c := toCredit request b b') hlevel
          (by simp [checkFunds, hfrom, hto, hfunds]) hfrom hdebit ?_ ?_
        · refine ⟨_, _, transferWith_returned hpos hrun, ?_⟩
          have hcommits : (accounts.commit (booked request b (toCredit request b b'))).commits =
              accounts.commits + 1 := rfl
          simp [Performs, hfrom, hto, hfunds, hlevel, hrows, moved, respond, hcommits]
        · by_cases hsame : request.fromId = request.toId
          · simp [toCredit, hsame]
          · simp [toCredit, hsame, Ne.symm hsame, hto]
        · unfold toCredit
          split_ifs
          · simpa using hrange _ b hfrom
          · exact hcredit b' hto
      · have hshort : b < request.amount := by omega
        refine ⟨_, _, herror (.insufficientFunds request.fromId) (by simp)
          (by simp [checkFunds, hfrom, hto, hshort]), ?_⟩
        simp [Performs, hfrom, hto, hfunds]

/-- Two accounts, and 10 of the 100 on the first are sent to the second. -/
def twoOpened : Accounts :=
  Table.new fun id => if id = "a" then some 100 else if id = "b" then some 50 else none

def tenOfA : TransferRequest where
  fromId := "a"
  toId := "b"
  amount := 10
  amount_pos := Int.natCast_pos.mpr (Nat.succ_pos 9)

theorem tenOfA_refused :
    transfer 3 tenOfA .serializable twoOpened =
        some (.raised (.transferError (.dbApiError (some syntaxError))), twoOpened) ∧
      ∀ result accounts', transfer 3 tenOfA .serializable twoOpened = some (result, accounts') →
        ¬ Performs transferSql tenOfA .serializable twoOpened result accounts' := by
  have hresult : transfer 3 tenOfA .serializable twoOpened =
      some (.raised (.transferError (.dbApiError (some syntaxError))), twoOpened) :=
    transferWith_refused (by decide) (setTransaction_transferSql _) (by decide)
  refine ⟨hresult, fun result accounts' h => ?_⟩
  rw [hresult, Option.some.injEq, Prod.mk.injEq] at h
  obtain ⟨rfl, rfl⟩ := h
  exact not_performs nofun (by simp) (by simp [accountNotFound])

end AsyncDataHub.DbConcurrency
