import AsyncDataHub.PaymentLedger

/-! The buggy endpoint reads a balance, waits, and writes back what it has computed from it. Its
calls run beside those of the other endpoint, on the same rows. -/
namespace AsyncDataHub.Payment
open StepSystem LockTable OwnedRows

/-- Where a call of `charge_count_with_replay_bug` stands. Before the COMMIT the account and the
charge are flushed, in either order: `inserted` and `updated` tell whether the other one is
there. -/
inductive BuggyPc
  | select
  | sleep (u : Uuid) (balance : ℤ) (wake : ℕ)
  | update (u : Uuid) (balance : ℤ) (inserted : Option Charge)
  | insert (u : Uuid) (balance : ℤ) (updated : Bool)
  | commit (balance : ℤ) (charge : Charge)
  | insertFailed (u : Uuid)
  | commitFailed (charge : Charge)
  | done (o : Outcome)

/-- `seen` is what an observer has noted: the charges committed when the balance was read. -/
structure BuggyCall where
  key : String
  data : CreatePaymentRequest
  bug : String
  insertsFirst : Bool
  pc : BuggyPc := .select
  seen : List Inserted := []

structure Endpoints where
  base : State
  buggy : CallId → Option BuggyCall

inductive BuggyEffect
  | goto (pc : BuggyPc)
  | read (pc : BuggyPc)
  | lockAccount (u : Uuid) (pc : BuggyPc)
  | lockIndex (pc : BuggyPc)
  | rollback (e : PyError)
  | publish (balance : Option ℤ) (charge : Charge)

def BuggyEffect.after (cfg : Config) (charges : List Inserted) (call : BuggyCall) :
    BuggyEffect → BuggyCall
  | .goto pc | .lockAccount _ pc | .lockIndex pc => { call with pc }
  | .read pc => { call with pc, seen := charges }
  | .rollback e => { call with pc := .done (.raised e) }
  | .publish _ charge => { call with pc := .done (.returned (responseOf cfg charge)) }

def BuggyEffect.on (s : State) (c : CallId) (key : String) : BuggyEffect → State
  | .goto _ | .read _ => s
  | .lockAccount u _ => { s with accountLock := take s.accountLock u c }
  | .lockIndex _ => { s with indexLock := take s.indexLock key c }
  | .rollback _ =>
    { s with
      accountLock := releaseAll s.accountLock c, indexLock := releaseAll s.indexLock c }
  | .publish balance charge =>
    { s with
      accounts := debit s.accounts balance charge
      charges := s.charges ++ [⟨c, charge⟩]
      accountLock := releaseAll s.accountLock c
      indexLock := releaseAll s.indexLock c }

def Endpoints.apply (cfg : Config) (s : Endpoints) (c : CallId) (call : BuggyCall)
    (eff : BuggyEffect) : Endpoints where
  base := eff.on s.base c call.key
  buggy := Function.update s.buggy c (some (eff.after cfg s.base.charges call))

def BuggyCall.request (call : BuggyCall) : Call where
  key := call.key
  data := call.data

/-- `charge_count_with_replay_bug`: a SELECT without FOR UPDATE, and an UPDATE that sets the balance
to what the object in the session has. -/
def chargeCountWithReplayBug (cfg : Config) (s : State) (c : CallId) (call : BuggyCall) :
    Option BuggyEffect :=
  match call.pc with
  | .select =>
    match cfg.uuidOf call.data.customerId with
    | none => some (.rollback (invalidCustomerId call.data.customerId))
    | some u =>
      match s.accounts u with
      | none => some (.rollback (customerNotFound call.data.customerId))
      | some balance =>
        if balance < call.data.amount then some (.read (.insertFailed u))
        else some (.read (.sleep u balance (s.now + 2 * 1000)))
  | .sleep u balance wake =>
    if wake ≤ s.now then
      if call.insertsFirst then some (.goto (.insert u (balance - call.data.amount) false))
      else some (.goto (.update u (balance - call.data.amount) none))
    else none
  | .update u balance inserted =>
    if balance < 0 then some (.rollback (.aborted "ck_customer_accounts_balance_non_negative"))
    else if Available s.accountLock u c then
      match inserted with
      | none => some (.lockAccount u (.insert u balance true))
      | some charge => some (.lockAccount u (.commit balance charge))
    else none
  | .insert u balance updated =>
    if maxInteger < call.data.amount then
      some (.rollback (.aborted "value out of int32 range"))
    else if succeededRows call.key s.charges ≠ [] then
      some (.rollback (.aborted "uq_charges_idempotency_key_succeeded"))
    else if Available s.indexLock call.key c then
      let charge := newCharge cfg s c call.request u .succeeded none
      if updated then some (.lockIndex (.commit balance charge))
      else some (.lockIndex (.update u balance (some charge)))
    else none
  | .commit balance charge => some (.publish (some balance) charge)
  | .insertFailed u =>
    if maxInteger < call.data.amount then
      some (.rollback (.aborted "value out of int32 range"))
    else
      some (.goto (.commitFailed
        (newCharge cfg s c call.request u .failed (some "Insufficient balance"))))
  | .commitFailed charge => some (.publish none charge)
  | .done _ => none

/-- `charge_with_bug` knows one bug; for any other it returns None, which the route cannot index. -/
def chargeWithBug (cfg : Config) (s : State) (c : CallId) (call : BuggyCall) : Option BuggyEffect :=
  match call.pc with
  | .select =>
    if call.bug = "replay" then chargeCountWithReplayBug cfg s c call
    else some (.rollback (.typeError "'NoneType' object is not subscriptable"))
  | _ => chargeCountWithReplayBug cfg s c call

inductive EndpointAction
  | idempotent (a : Action)
  | start (c : CallId) (key : String) (data : CreatePaymentRequest) (bug : String)
      (insertsFirst : Bool)
  | op (c : CallId)
  | stop (c : CallId) (e : PyError)

def Endpoints.step (cfg : Config) (s : Endpoints) : EndpointAction → Option Endpoints
  | .idempotent a =>
    match a with
    | .start c _ _ =>
      match s.buggy c with
      | some _ => none
      | none => (Payment.step cfg s.base a).map fun base => { s with base }
    | _ => (Payment.step cfg s.base a).map fun base => { s with base }
  | .start c key data bug insertsFirst =>
    match s.base.calls c, s.buggy c with
    | none, none =>
      some { s with buggy := Function.update s.buggy c (some { key, data, bug, insertsFirst }) }
    | _, _ => none
  | .op c =>
    match s.buggy c with
    | none => none
    | some call => (chargeWithBug cfg s.base c call).map (s.apply cfg c call)
  | .stop c e =>
    match s.buggy c with
    | none => none
    | some call =>
      match call.pc with
      | .done _ => none
      | _ => some (s.apply cfg c call (.rollback e))

variable {cfg : Config} {s t : State} {c d : CallId} {call : BuggyCall} {eff : BuggyEffect}

inductive BuggyDoes (cfg : Config) (s : State) (c : CallId) (call : BuggyCall) :
    BuggyEffect → Prop
  | reads {u : Uuid} {balance : ℤ} {wake : ℕ} (pc : call.pc = .select)
      (customer : cfg.uuidOf call.data.customerId = some u) (row : s.accounts u = some balance)
      (enough : call.data.amount ≤ balance) : BuggyDoes cfg s c call (.read (.sleep u balance wake))
  | refuses {u : Uuid} (pc : call.pc = .select)
      (customer : cfg.uuidOf call.data.customerId = some u) :
      BuggyDoes cfg s c call (.read (.insertFailed u))
  | wakesToInsert {u : Uuid} {balance : ℤ} {wake : ℕ} (pc : call.pc = .sleep u balance wake) :
      BuggyDoes cfg s c call (.goto (.insert u (balance - call.data.amount) false))
  | wakesToUpdate {u : Uuid} {balance : ℤ} {wake : ℕ} (pc : call.pc = .sleep u balance wake) :
      BuggyDoes cfg s c call (.goto (.update u (balance - call.data.amount) none))
  | updates {u : Uuid} {balance : ℤ} (pc : call.pc = .update u balance none)
      (lock : Available s.accountLock u c) :
      BuggyDoes cfg s c call (.lockAccount u (.insert u balance true))
  | updatesLast {u : Uuid} {balance : ℤ} {charge : Charge}
      (pc : call.pc = .update u balance (some charge)) (lock : Available s.accountLock u c) :
      BuggyDoes cfg s c call (.lockAccount u (.commit balance charge))
  | inserts {u : Uuid} {balance : ℤ} (pc : call.pc = .insert u balance false)
      (fresh : succeededRows call.key s.charges = []) (lock : Available s.indexLock call.key c) :
      BuggyDoes cfg s c call
        (.lockIndex (.update u balance (some (newCharge cfg s c call.request u .succeeded none))))
  | insertsLast {u : Uuid} {balance : ℤ} (pc : call.pc = .insert u balance true)
      (fresh : succeededRows call.key s.charges = []) (lock : Available s.indexLock call.key c) :
      BuggyDoes cfg s c call
        (.lockIndex (.commit balance (newCharge cfg s c call.request u .succeeded none)))
  | commits {balance : ℤ} {charge : Charge} (pc : call.pc = .commit balance charge) :
      BuggyDoes cfg s c call (.publish (some balance) charge)
  | recordsFailure {u : Uuid} (pc : call.pc = .insertFailed u) :
      BuggyDoes cfg s c call (.goto (.commitFailed
        (newCharge cfg s c call.request u .failed (some "Insufficient balance"))))
  | commitsFailure {charge : Charge} (pc : call.pc = .commitFailed charge) :
      BuggyDoes cfg s c call (.publish none charge)
  | stops (e : PyError) (pc : ∀ balance charge, call.pc ≠ .commit balance charge) :
      BuggyDoes cfg s c call (.rollback e)

lemma does_of_chargeCountWithReplayBug (h : chargeCountWithReplayBug cfg s c call = some eff) :
    BuggyDoes cfg s c call eff := by
  cases hpc : call.pc with
  | select =>
    simp only [chargeCountWithReplayBug, hpc] at h
    split at h
    · cases h
      exact .stops _ (by simp [hpc])
    · rename_i u hu
      split at h
      · cases h
        exact .stops _ (by simp [hpc])
      · rename_i balance hrow
        split_ifs at h with hlow
        · cases h
          exact .refuses hpc hu
        · cases h
          exact .reads hpc hu hrow (not_lt.mp hlow)
  | sleep u balance wake =>
    simp only [chargeCountWithReplayBug, hpc] at h
    split_ifs at h
    · cases h
      exact .wakesToInsert hpc
    · cases h
      exact .wakesToUpdate hpc
  | update u balance inserted =>
    simp only [chargeCountWithReplayBug, hpc] at h
    split_ifs at h with _ hlock
    · cases h
      exact .stops _ (by simp [hpc])
    · cases inserted with
      | none =>
        cases h
        exact .updates hpc hlock
      | some charge =>
        cases h
        exact .updatesLast hpc hlock
  | insert u balance updated =>
    simp only [chargeCountWithReplayBug, hpc] at h
    split_ifs at h with _ hrows hlock hupdated
    · cases h
      exact .stops _ (by simp [hpc])
    · cases h
      exact .stops _ (by simp [hpc])
    · cases h
      exact .insertsLast (hupdated ▸ hpc) (not_not.mp hrows) hlock
    · cases h
      exact .inserts (Bool.eq_false_iff.mpr hupdated ▸ hpc) (not_not.mp hrows) hlock
  | commit balance charge =>
    simp only [chargeCountWithReplayBug, hpc, Option.some.injEq] at h
    exact h ▸ .commits hpc
  | insertFailed u =>
    simp only [chargeCountWithReplayBug, hpc] at h
    split_ifs at h
    · cases h
      exact .stops _ (by simp [hpc])
    · cases h
      exact .recordsFailure hpc
  | commitFailed charge =>
    simp only [chargeCountWithReplayBug, hpc, Option.some.injEq] at h
    exact h ▸ .commitsFailure hpc
  | done o => simp [chargeCountWithReplayBug, hpc] at h

lemma does_of_chargeWithBug (h : chargeWithBug cfg s c call = some eff) :
    BuggyDoes cfg s c call eff := by
  unfold chargeWithBug at h
  split at h
  · rename_i hpc
    split_ifs at h
    · exact does_of_chargeCountWithReplayBug h
    · cases h
      exact .stops _ (by simp [hpc])
  · exact does_of_chargeCountWithReplayBug h

inductive EndpointTook (cfg : Config) (s : Endpoints) : EndpointAction → Endpoints → Prop
  | starts {c : CallId} {key : String} {data : CreatePaymentRequest}
      (fresh : s.base.calls c = none) (free : s.buggy c = none) :
      EndpointTook cfg s (.idempotent (.start c key data))
        { s with base := s.base.setCall c { key, data } }
  | does {c : CallId} {call : Call} {eff : Effect} (running : s.base.calls c = some call)
      (does : Does cfg s.base c call eff) :
      EndpointTook cfg s (.idempotent (.op c)) { s with base := s.base.apply cfg c call eff }
  | stops {a : Action} {c : CallId} {call : Call} {eff : Effect}
      (running : s.base.calls c = some call) (stops : Stops call eff) :
      EndpointTook cfg s (.idempotent a) { s with base := s.base.apply cfg c call eff }
  | ticks (n : ℕ) :
      EndpointTook cfg s (.idempotent (.tick n))
        { s with base := { s.base with now := s.base.now + n } }
  | startsBuggy {c : CallId} {key bug : String} {data : CreatePaymentRequest} {insertsFirst : Bool}
      (fresh : s.base.calls c = none) (free : s.buggy c = none) :
      EndpointTook cfg s (.start c key data bug insertsFirst)
        { s with buggy := Function.update s.buggy c (some { key, data, bug, insertsFirst }) }
  | doesBuggy {c : CallId} {call : BuggyCall} {eff : BuggyEffect} (running : s.buggy c = some call)
      (does : BuggyDoes cfg s.base c call eff) :
      EndpointTook cfg s (.op c) (s.apply cfg c call eff)
  | stopsBuggy {c : CallId} {call : BuggyCall} (e : PyError) (running : s.buggy c = some call) :
      EndpointTook cfg s (.stop c e) (s.apply cfg c call (.rollback e))

theorem endpointTook_of_step {s t : Endpoints} {a : EndpointAction} (h : s.step cfg a = some t) :
    EndpointTook cfg s a t := by
  have hbase {a : Action} {base : State} (hb : Payment.step cfg s.base a = some base)
      (hfree : ∀ c key data, a = .start c key data → s.buggy c = none) :
      EndpointTook cfg s (.idempotent a) { s with base } := by
    cases took_of_step hb with
    | start hfresh => exact .starts hfresh (hfree _ _ _ rfl)
    | op hc hdoes => exact .does hc hdoes
    | stop hc _ hstops => exact .stops hc hstops
    | tick n => exact .ticks n
  cases a with
  | idempotent a =>
    simp only [Endpoints.step] at h
    split at h
    · split at h
      · cases h
      · rename_i hnone
        obtain ⟨base, hb, rfl⟩ := Option.map_eq_some_iff.mp h
        refine hbase hb fun c' key' data' heq => ?_
        cases heq
        exact hnone
    · rename_i hstart
      obtain ⟨base, hb, rfl⟩ := Option.map_eq_some_iff.mp h
      exact hbase hb fun c key data heq => absurd heq (hstart c key data)
  | start c key data bug insertsFirst =>
    simp only [Endpoints.step] at h
    split at h
    · rename_i hfresh hfree
      cases h
      exact .startsBuggy hfresh hfree
    · cases h
  | op c =>
    simp only [Endpoints.step] at h
    split at h
    · cases h
    · rename_i call hc
      obtain ⟨eff, heff, rfl⟩ := Option.map_eq_some_iff.mp h
      exact .doesBuggy hc (does_of_chargeWithBug heff)
  | stop c e =>
    simp only [Endpoints.step] at h
    split at h
    · cases h
    · rename_i call hc
      split at h
      · cases h
      · cases h
        exact .stopsBuggy e hc

end AsyncDataHub.Payment
