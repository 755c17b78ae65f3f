import AsyncDataHub.OwnedRows
import AsyncDataHub.PyError
import AsyncDataHub.StepSystem
import AsyncDataHub.TaskGroup

/-! Webhook delivery: one child task per entry of the target list, each with at most two attempts
under the webhook limiter and the HTTP limiter, and the status of the event computed at the end.
A step is what one task does from one suspension to the next. -/
namespace AsyncDataHub.Webhook
open StepSystem TaskGroup OwnedRows

/-- What the network does with one POST: a response, with the text of the error that
`raise_for_status` would raise, or no response at all. -/
inductive Outcome
  | response (statusCode : ℕ) (text : String)
  | requestError (typeName text : String)
  deriving DecidableEq

/-- `httpx.HTTPError`; only the status error has a `response` attribute. -/
inductive HTTPError
  | statusError (statusCode : ℕ) (text : String)
  | requestError (typeName text : String)

def HTTPError.str : HTTPError → String
  | .statusError _ text => text
  | .requestError _ text => text

/-- `getattr(exc.response, "status_code", None)`: the default does not cover `exc.response`. -/
def HTTPError.responseStatusCode : HTTPError → Except PyError (Option ℕ)
  | .statusError statusCode _ => .ok (some statusCode)
  | .requestError typeName _ =>
    .error (.attributeError ("'" ++ typeName ++ "' object has no attribute 'response'"))

def isSuccess (statusCode : ℕ) : Bool := 200 ≤ statusCode && statusCode ≤ 299

def postJson : Outcome → Except HTTPError ℕ
  | .response statusCode text =>
    if isSuccess statusCode then .ok statusCode else .error (.statusError statusCode text)
  | .requestError typeName text => .error (.requestError typeName text)

structure WebhookDeliveryAttemptRecord where
  webhookEventId : ℕ
  targetUrl : String
  attemptNumber : ℕ
  status : String
  responseStatusCode : Option ℕ
  errorMessage : Option String
  deriving DecidableEq

structure WebhookAttemptResponse where
  targetUrl : String
  attemptNumber : ℕ
  status : String
  responseStatusCode : Option ℕ := none
  errorMessage : Option String := none
  deriving DecidableEq

structure TriggerWebhookResponse where
  eventId : ℕ
  status : String
  attempts : List WebhookAttemptResponse

/-- `outcome i n` is what attempt `n` of entry `i` meets if it is made. -/
structure Config where
  targets : List String
  outcome : Fin targets.length → ℕ → Outcome
  eventId : ℕ
  webhookConcurrencyLimit : ℕ
  httpConcurrencyLimit : ℕ
  webhookLimit_pos : 0 < webhookConcurrencyLimit
  httpLimit_pos : 0 < httpConcurrencyLimit

abbrev Config.Target (cfg : Config) := Fin cfg.targets.length

/-- The record that one attempt gives, on success or in the handler of `httpx.HTTPError`. -/
def attemptRecord (cfg : Config) (i : cfg.Target) (attemptNumber : ℕ) :
    Except PyError WebhookDeliveryAttemptRecord :=
  match postJson (cfg.outcome i attemptNumber) with
  | .ok statusCode => .ok {
      webhookEventId := cfg.eventId
      targetUrl := cfg.targets.get i
      attemptNumber
      status := "success"
      responseStatusCode := some statusCode
      errorMessage := none }
  | .error exc => do
    let responseStatusCode ← exc.responseStatusCode
    return {
      webhookEventId := cfg.eventId
      targetUrl := cfg.targets.get i
      attemptNumber
      status := "failed"
      responseStatusCode
      errorMessage := some exc.str }

/-- The response item of a record; the success branch leaves the error message out. -/
def attemptResponse (record : WebhookDeliveryAttemptRecord) : WebhookAttemptResponse :=
  if record.status = "success" then
    { targetUrl := record.targetUrl
      attemptNumber := record.attemptNumber
      status := record.status
      responseStatusCode := record.responseStatusCode }
  else
    { targetUrl := record.targetUrl
      attemptNumber := record.attemptNumber
      status := record.status
      responseStatusCode := record.responseStatusCode
      errorMessage := record.errorMessage }

/-- The final status, from the set of the URLs with a successful attempt. -/
def finalStatus (targets : List String) (attempts : List WebhookAttemptResponse) : String :=
  if attempts.any fun attempt => attempt.status = "failed" then
    let successfulTargets :=
      ((attempts.filter fun attempt => attempt.status = "success").map (·.targetUrl)).toFinset
    let allTargets := targets.toFinset
    if successfulTargets ≠ allTargets then "PARTIAL" else "COMPLETED"
  else "COMPLETED"

/-- Where a delivery is suspended. `waitingHttp` holds a slot of the webhook limiter and `posting`
one of each limiter; a `committed` row is in the database before the task has resumed. -/
inductive DeliveryPc
  | waitingSlot (attemptNumber : ℕ)
  | waitingHttp (attemptNumber : ℕ)
  | posting (attemptNumber : ℕ)
  | adding (record : WebhookDeliveryAttemptRecord)
  | committing (record : WebhookDeliveryAttemptRecord)
  | committed (record : WebhookDeliveryAttemptRecord)
  | broadcasting
  | sleeping

/-- Where `trigger_event` itself is; it re-raises the cancellation when there is no reply. -/
inductive MainPc
  | delivering
  | updating (status : String) (reply : Option TriggerWebhookResponse)
  | committing (status : String) (reply : Option TriggerWebhookResponse)
  | returned (response : TriggerWebhookResponse)
  | raised
  | cancelled

/-- `status` is the committed status of the event. -/
structure State (cfg : Config) where
  group : Group cfg.Target DeliveryPc PyError
  attempts : List (OwnedRow cfg.Target WebhookAttemptResponse)
  rows : List (OwnedRow cfg.Target WebhookDeliveryAttemptRecord)
  status : String
  pc : MainPc
  cancelRequested : Bool

def State.init (cfg : Config) : State cfg where
  group := { child := fun _ => .running (.waitingSlot 1) }
  attempts := []
  rows := []
  status := "RUNNING"
  pc := .delivering
  cancelRequested := false

variable {cfg : Config}

def webhookSlots : Child DeliveryPc PyError → ℕ
  | .running (.waitingHttp _) | .running (.posting _) => 1
  | _ => 0

def httpSlots : Child DeliveryPc PyError → ℕ
  | .running (.posting _) => 1
  | _ => 0

def State.move (s : State cfg) (i : cfg.Target) (c : Child DeliveryPc PyError) : State cfg :=
  { s with group := s.group.set i c }

/-- After its attempt is in the list, a delivery broadcasts, sleeps before the retry, or ends. -/
def afterAttempt (record : WebhookDeliveryAttemptRecord) : Child DeliveryPc PyError :=
  if record.status = "success" then .running .broadcasting
  else if record.attemptNumber = 1 then .running .sleeping
  else .ended

/-- The next step of `_deliver`; `none` while it has to wait for a slot. -/
def State.deliver (s : State cfg) (i : cfg.Target) : DeliveryPc → Option (State cfg)
  | .waitingSlot n =>
    if s.group.load webhookSlots < cfg.webhookConcurrencyLimit then
      some (s.move i (.running (.waitingHttp n)))
    else none
  | .waitingHttp n =>
    if s.group.load httpSlots < cfg.httpConcurrencyLimit then
      some (s.move i (.running (.posting n)))
    else none
  | .posting n =>
    match attemptRecord cfg i n with
    | .ok record => some (s.move i (.running (.adding record)))
    | .error e => some (s.move i (.failed e))
  | .adding record => some (s.move i (.running (.committing record)))
  | .committing record =>
    some { s.move i (.running (.committed record)) with rows := s.rows ++ [⟨i, record⟩] }
  | .committed record =>
    some { s.move i (afterAttempt record) with
      attempts := s.attempts ++ [⟨i, attemptResponse record⟩] }
  | .broadcasting => some (s.move i .ended)
  | .sleeping => some (s.move i (.running (.waitingSlot 2)))

def State.delivery (s : State cfg) (i : cfg.Target) : Option DeliveryPc :=
  match s.pc with
  | .delivering => s.group.active i
  | _ => none

def State.underWay (s : State cfg) (i : cfg.Target) :
    List (OwnedRow cfg.Target WebhookDeliveryAttemptRecord) :=
  match s.group.child i with
  | .running (.committing record) => [⟨i, record⟩]
  | _ => []

def State.response (s : State cfg) : TriggerWebhookResponse :=
  let attempts := s.attempts.map (·.row)
  { eventId := cfg.eventId, status := finalStatus cfg.targets attempts, attempts }

def State.leaveGroup (s : State cfg) : State cfg :=
  if s.group.HasFailed then { s with pc := .raised }
  else if s.cancelRequested then { s with pc := .updating "CANCELLED" none }
  else { s with pc := .updating s.response.status (some s.response) }

inductive Action (cfg : Config)
  | deliver (i : cfg.Target)
  | abort
  /-- A delivery of an aborted group ends; a commit that is under way may have been made. -/
  | cancelDelivery (i : cfg.Target) (stored : Bool)
  | close
  | update
  | commit
  /-- The request is cancelled. -/
  | cancel (stored : Bool)

def Action.ofTasks : Action cfg → Bool
  | .cancel _ => false
  | _ => true

def step (cfg : Config) (s : State cfg) : Action cfg → Option (State cfg)
  | .deliver i => (s.delivery i).bind fun l => s.deliver i l
  | .abort =>
    match s.pc with
    | .delivering => (s.group.abort s.cancelRequested).map fun group => { s with group }
    | _ => none
  | .cancelDelivery i stored =>
    match s.pc with
    | .delivering => (s.group.cancelChild i).map fun group =>
        { s with group, rows := if stored then s.rows ++ s.underWay i else s.rows }
    | _ => none
  | .close =>
    match s.pc with
    | .delivering => if s.group.Finished then some s.leaveGroup else none
    | _ => none
  | .update =>
    match s.pc with
    | .updating status reply => some { s with pc := .committing status reply }
    | _ => none
  | .commit =>
    match s.pc with
    | .committing status (some reply) => some { s with status, pc := .returned reply }
    | .committing status none => some { s with status, pc := .cancelled }
    | _ => none
  | .cancel stored =>
    match s.pc with
    | .delivering => if s.cancelRequested then none else some { s with cancelRequested := true }
    | .updating _ _ => some { s with pc := .cancelled }
    | .committing status _ =>
      some { s with status := if stored then status else s.status, pc := .cancelled }
    | _ => none

/-- The machine of one request that nobody cancels. -/
def tasks (cfg : Config) : State cfg → Action cfg → Option (State cfg) :=
  restrict (step cfg) Action.ofTasks

inductive Delivers (s : State cfg) (i : cfg.Target) : DeliveryPc → State cfg → Prop
  | takesSlot {n : ℕ} (free : s.group.load webhookSlots < cfg.webhookConcurrencyLimit) :
      Delivers s i (.waitingSlot n) (s.move i (.running (.waitingHttp n)))
  | takesHttpSlot {n : ℕ} (free : s.group.load httpSlots < cfg.httpConcurrencyLimit) :
      Delivers s i (.waitingHttp n) (s.move i (.running (.posting n)))
  | records {n : ℕ} {record : WebhookDeliveryAttemptRecord}
      (made : attemptRecord cfg i n = .ok record) :
      Delivers s i (.posting n) (s.move i (.running (.adding record)))
  | fails {n : ℕ} {e : PyError} (raised : attemptRecord cfg i n = .error e) :
      Delivers s i (.posting n) (s.move i (.failed e))
  | flushes {record : WebhookDeliveryAttemptRecord} :
      Delivers s i (.adding record) (s.move i (.running (.committing record)))
  | commits {record : WebhookDeliveryAttemptRecord} : Delivers s i (.committing record)
      { s.move i (.running (.committed record)) with rows := s.rows ++ [⟨i, record⟩] }
  | appends {record : WebhookDeliveryAttemptRecord} : Delivers s i (.committed record)
      { s.move i (afterAttempt record) with
        attempts := s.attempts ++ [⟨i, attemptResponse record⟩] }
  | broadcasts : Delivers s i .broadcasting (s.move i .ended)
  | wakes : Delivers s i .sleeping (s.move i (.running (.waitingSlot 2)))

lemma delivers_of_deliver {s t : State cfg} {i : cfg.Target} {l : DeliveryPc}
    (h : s.deliver i l = some t) : Delivers s i l t := by
  cases l with
  | waitingSlot n =>
    simp only [State.deliver] at h
    split_ifs at h with hfree
    cases h
    exact .takesSlot hfree
  | waitingHttp n =>
    simp only [State.deliver] at h
    split_ifs at h with hfree
    cases h
    exact .takesHttpSlot hfree
  | posting n =>
    simp only [State.deliver] at h
    split at h
    · rename_i record hr
      cases h
      exact .records hr
    · rename_i e hr
      cases h
      exact .fails hr
  | adding record =>
    cases h
    exact .flushes
  | committing record =>
    cases h
    exact .commits
  | committed record =>
    cases h
    exact .appends
  | broadcasting =>
    cases h
    exact .broadcasts
  | sleeping =>
    cases h
    exact .wakes

lemma delivery_eq_some {s : State cfg} {i : cfg.Target} {l : DeliveryPc} :
    s.delivery i = some l ↔
      s.pc = .delivering ∧ s.group.aborting = false ∧ s.group.child i = .running l := by
  unfold State.delivery
  cases s.pc <;> simp [Group.active_eq_some]

inductive Took (s : State cfg) : Action cfg → State cfg → Prop
  | delivers {i : cfg.Target} {l : DeliveryPc} {t : State cfg} (pc : s.pc = .delivering)
      (calm : s.group.aborting = false) (child : s.group.child i = .running l)
      (taken : Delivers s i l t) : Took s (.deliver i) t
  | aborts (pc : s.pc = .delivering) (calm : s.group.aborting = false)
      (cause : s.group.HasFailed ∨ s.cancelRequested = true) :
      Took s .abort { s with group := { s.group with aborting := true } }
  | cancelsDelivery {i : cfg.Target} {stored : Bool} (pc : s.pc = .delivering)
      (aborting : s.group.aborting = true) (running : (s.group.child i).isRunning = true) :
      Took s (.cancelDelivery i stored) { s with
        group := s.group.set i .cancelled
        rows := if stored then s.rows ++ s.underWay i else s.rows }
  | closes (pc : s.pc = .delivering) (finished : s.group.Finished) : Took s .close s.leaveGroup
  | updates {status : String} {reply : Option TriggerWebhookResponse}
      (pc : s.pc = .updating status reply) :
      Took s .update { s with pc := .committing status reply }
  | replies {status : String} {reply : TriggerWebhookResponse}
      (pc : s.pc = .committing status (some reply)) :
      Took s .commit { s with status, pc := .returned reply }
  | reraises {status : String} (pc : s.pc = .committing status none) :
      Took s .commit { s with status, pc := .cancelled }
  | cancelsGroup {stored : Bool} (pc : s.pc = .delivering) (first : s.cancelRequested = false) :
      Took s (.cancel stored) { s with cancelRequested := true }
  | cancelsUpdate {stored : Bool} {status : String} {reply : Option TriggerWebhookResponse}
      (pc : s.pc = .updating status reply) : Took s (.cancel stored) { s with pc := .cancelled }
  | cancelsCommit {stored : Bool} {status : String} {reply : Option TriggerWebhookResponse}
      (pc : s.pc = .committing status reply) : Took s (.cancel stored)
        { s with status := if stored then status else s.status, pc := .cancelled }

theorem took_of_step {s t : State cfg} {a : Action cfg} (h : step cfg s a = some t) :
    Took s a t := by
  cases a with
  | deliver i =>
    obtain ⟨l, hl, ht⟩ := Option.bind_eq_some_iff.mp h
    obtain ⟨hpc, hcalm, hchild⟩ := delivery_eq_some.mp hl
    exact .delivers hpc hcalm hchild (delivers_of_deliver ht)
  | abort =>
    simp only [step] at h
    split at h
    · rename_i hpc
      obtain ⟨g, hg, rfl⟩ := Option.map_eq_some_iff.mp h
      obtain ⟨hcalm, hcause, rfl⟩ := Group.abort_eq_some.mp hg
      exact .aborts hpc hcalm hcause
    · cases h
  | cancelDelivery i stored =>
    simp only [step] at h
    split at h
    · rename_i hpc
      obtain ⟨g, hg, rfl⟩ := Option.map_eq_some_iff.mp h
      obtain ⟨haborting, hrunning, rfl⟩ := Group.cancelChild_eq_some.mp hg
      exact .cancelsDelivery hpc haborting hrunning
    · cases h
  | close =>
    simp only [step] at h
    split at h
    · rename_i hpc
      split_ifs at h with hfin
      cases h
      exact .closes hpc hfin
    · cases h
  | update =>
    simp only [step] at h
    split at h
    · rename_i hpc
      cases h
      exact .updates hpc
    · cases h
  | commit =>
    simp only [step] at h
    split at h
    · rename_i hpc
      cases h
      exact .replies hpc
    · rename_i hpc
      cases h
      exact .reraises hpc
    · cases h
  | cancel stored =>
    simp only [step] at h
    split at h
    · rename_i hpc
      split_ifs at h with hfirst
      cases h
      exact .cancelsGroup hpc (by simpa using hfirst)
    · rename_i hpc
      cases h
      exact .cancelsUpdate hpc
    · rename_i hpc
      cases h
      exact .cancelsCommit hpc
    · cases h

lemma tasks_eq_some {s t : State cfg} {a : Action cfg} :
    tasks cfg s a = some t ↔ a.ofTasks = true ∧ step cfg s a = some t := restrict_eq_some

end AsyncDataHub.Webhook
