import AsyncDataHub.WebhookService

/-! What a request to deliver a webhook comes to. The design is per entry of the target list: the
attempts that its own outcomes call for, whatever becomes of the other entries. -/
namespace AsyncDataHub.Webhook
open StepSystem TaskGroup OwnedRows

variable {cfg : Config} {s t : State cfg}

def Outcome.succeeds : Outcome → Bool
  | .response statusCode _ => isSuccess statusCode
  | .requestError _ _ => false

def Outcome.isResponse : Outcome → Bool
  | .response _ _ => true
  | .requestError _ _ => false

def designedAttempt (cfg : Config) (i : cfg.Target) (n : ℕ) : WebhookAttemptResponse :=
  match cfg.outcome i n with
  | .response statusCode text =>
    if isSuccess statusCode then ⟨cfg.targets.get i, n, "success", some statusCode, none⟩
    else ⟨cfg.targets.get i, n, "failed", some statusCode, some text⟩
  | .requestError _ text => ⟨cfg.targets.get i, n, "failed", none, some text⟩

/-- One attempt that succeeds, or a failed one and a retry. -/
def designedAttempts (cfg : Config) (i : cfg.Target) : List WebhookAttemptResponse :=
  if (cfg.outcome i 1).succeeds then [designedAttempt cfg i 1]
  else [designedAttempt cfg i 1, designedAttempt cfg i 2]

def rowResponse (row : WebhookDeliveryAttemptRecord) : WebhookAttemptResponse :=
  ⟨row.targetUrl, row.attemptNumber, row.status, row.responseStatusCode, row.errorMessage⟩

/-- The request has returned with the designed attempts, stored them and closed the event. -/
structure Delivered (s : State cfg) (response : TriggerWebhookResponse) : Prop where
  returned : s.pc = .returned response
  attempts : response.attempts = s.attempts.map (·.row)
  designed : ∀ i, (rowsBy i s.attempts).map (·.row) = designedAttempts cfg i
  persisted : (s.rows.map fun o => rowResponse o.row).Perm response.attempts
  status : s.status = "COMPLETED" ∨ s.status = "PARTIAL"

/-- Every run ends, and where no task can go on the request has delivered by design. -/
structure DesignedRuns (cfg : Config) : Prop where
  bounded : ∃ n, ∀ acts t, exec (tasks cfg) (State.init cfg) acts = some t → acts.length ≤ n
  delivered : ∀ acts t, exec (tasks cfg) (State.init cfg) acts = some t →
    Terminal (tasks cfg) t → ∃ response, Delivered t response

/-- Every attempt of the entry that is made gets a response. -/
def Responded (cfg : Config) (i : cfg.Target) : Prop :=
  (cfg.outcome i 1).isResponse = true ∧
    ((cfg.outcome i 1).succeeds = true ∨ (cfg.outcome i 2).isResponse = true)

/-- The record of an attempt that got a response. -/
structure IsRecord (cfg : Config) (i : cfg.Target) (n : ℕ)
    (record : WebhookDeliveryAttemptRecord) : Prop where
  responded : (cfg.outcome i n).isResponse = true
  number : record.attemptNumber = n
  response : attemptResponse record = designedAttempt cfg i n
  row : rowResponse record = designedAttempt cfg i n
  status : record.status = "success" ↔ (cfg.outcome i n).succeeds = true

lemma isRecord_of_attemptRecord {i : cfg.Target} {n : ℕ} {record : WebhookDeliveryAttemptRecord}
    (h : attemptRecord cfg i n = .ok record) : IsRecord cfg i n record := by
  unfold attemptRecord at h
  cases ho : cfg.outcome i n with
  | requestError typeName text =>
    rw [ho] at h
    cases h
  | response statusCode text =>
    cases hs : isSuccess statusCode with
    | true =>
      simp only [ho, postJson, hs, if_true, Except.ok.injEq] at h
      subst h
      constructor <;>
        simp [ho, hs, Outcome.isResponse, Outcome.succeeds, attemptResponse, rowResponse,
          designedAttempt]
    | false =>
      simp only [ho, postJson, hs, Bool.false_eq_true, if_false, HTTPError.responseStatusCode] at h
      cases h
      constructor <;>
        simp [ho, hs, Outcome.isResponse, Outcome.succeeds, attemptResponse, rowResponse,
          designedAttempt, HTTPError.str]

lemma not_isResponse_of_error {i : cfg.Target} {n : ℕ} {e : PyError}
    (h : attemptRecord cfg i n = .error e) : (cfg.outcome i n).isResponse = false := by
  unfold attemptRecord at h
  cases ho : cfg.outcome i n with
  | requestError typeName text => rfl
  | response statusCode text =>
    cases hs : isSuccess statusCode with
    | true =>
      simp only [ho, postJson, hs, if_true] at h
      cases h
    | false =>
      simp only [ho, postJson, hs, Bool.false_eq_true, if_false, HTTPError.responseStatusCode] at h
      cases h

/-- The attempts that an entry has made before attempt `n`. -/
inductive Before (cfg : Config) (i : cfg.Target) : ℕ → List WebhookAttemptResponse → Prop
  | first : Before cfg i 1 []
  | retry (responded : (cfg.outcome i 1).isResponse = true)
      (failed : (cfg.outcome i 1).succeeds = false) : Before cfg i 2 [designedAttempt cfg i 1]

/-- How far an entry has come, by the state of its task. -/
def Progress (cfg : Config) (i : cfg.Target) (made stored : List WebhookAttemptResponse) :
    Child DeliveryPc PyError → Prop
  | .running (.waitingSlot n) | .running (.waitingHttp n) | .running (.posting n) =>
    Before cfg i n made ∧ stored = made
  | .running (.adding record) | .running (.committing record) =>
    IsRecord cfg i record.attemptNumber record ∧ Before cfg i record.attemptNumber made ∧
      stored = made
  | .running (.committed record) =>
    IsRecord cfg i record.attemptNumber record ∧ Before cfg i record.attemptNumber made ∧
      stored = made ++ [rowResponse record]
  | .running .sleeping => Before cfg i 2 made ∧ stored = made
  | .running .broadcasting | .ended =>
    Responded cfg i ∧ made = designedAttempts cfg i ∧ stored = made
  | .failed _ => ¬ Responded cfg i
  | .cancelled => True

def made (s : State cfg) (i : cfg.Target) : List WebhookAttemptResponse :=
  (rowsBy i s.attempts).map (·.row)

def stored (s : State cfg) (i : cfg.Target) : List WebhookAttemptResponse :=
  (rowsBy i s.rows).map fun o => rowResponse o.row

def EntryInv (s : State cfg) (i : cfg.Target) : Prop :=
  Progress cfg i (made s i) (stored s i) (s.group.child i)

lemma not_responded_of_before {i : cfg.Target} {n : ℕ} {past : List WebhookAttemptResponse}
    (h : Before cfg i n past) (hn : (cfg.outcome i n).isResponse = false) :
    ¬ Responded cfg i := by
  rintro ⟨hfirst, hsecond⟩
  cases h with
  | first =>
    rw [hn] at hfirst
    cases hfirst
  | retry _ hf =>
    rw [hf, hn] at hsecond
    simp at hsecond

lemma progress_afterAttempt {i : cfg.Target} {past : List WebhookAttemptResponse}
    {record : WebhookDeliveryAttemptRecord} (hr : IsRecord cfg i record.attemptNumber record)
    (hb : Before cfg i record.attemptNumber past) :
    Progress cfg i (past ++ [attemptResponse record]) (past ++ [attemptResponse record])
      (afterAttempt record) := by
  rw [hr.response]
  generalize hn : record.attemptNumber = n at hr hb
  unfold afterAttempt
  cases hb with
  | first =>
    by_cases hs : record.status = "success"
    · rw [if_pos hs]
      have hsucc := hr.status.mp hs
      exact ⟨⟨hr.responded, .inl hsucc⟩, by simp [designedAttempts, hsucc], rfl⟩
    · rw [if_neg hs, if_pos hn]
      have hfail : (cfg.outcome i 1).succeeds = false := by simpa [hs] using hr.status
      exact ⟨.retry hr.responded hfail, rfl⟩
  | retry hresp hfail =>
    have hend : Responded cfg i ∧
        [designedAttempt cfg i 1] ++ [designedAttempt cfg i 2] = designedAttempts cfg i :=
      ⟨⟨hresp, .inr hr.responded⟩, by simp [designedAttempts, hfail]⟩
    by_cases hs : record.status = "success"
    · rw [if_pos hs]
      exact ⟨hend.1, hend.2, rfl⟩
    · rw [if_neg hs, if_neg (by omega)]
      exact ⟨hend.1, hend.2, rfl⟩

lemma entryInv_delivers {i : cfg.Target} {l : DeliveryPc} (hi : EntryInv s i)
    (hchild : s.group.child i = .running l) (h : Delivers s i l t) : EntryInv t i := by
  unfold EntryInv at hi ⊢
  rw [hchild] at hi
  cases h with
  | takesSlot _ | takesHttpSlot _ => simpa [State.move, made, stored, Progress] using hi
  | records hmade =>
    obtain ⟨hb, hst⟩ := hi
    have hr := isRecord_of_attemptRecord hmade
    rw [State.move, Group.set_child_self]
    exact ⟨hr.number.symm ▸ hr, hr.number.symm ▸ hb, hst⟩
  | fails hraised =>
    rw [State.move, Group.set_child_self]
    exact not_responded_of_before hi.1 (not_isResponse_of_error hraised)
  | flushes =>
    rw [State.move, Group.set_child_self]
    exact hi
  | commits =>
    obtain ⟨hr, hb, hst⟩ := hi
    simp only [State.move, Group.set_child_self, made, stored, rowsBy_append_self, List.map_append,
      List.map_cons, List.map_nil] at hst ⊢
    exact ⟨hr, hb, by rw [hst]⟩
  | appends =>
    obtain ⟨hr, hb, hst⟩ := hi
    have hrow : rowResponse _ = attemptResponse _ := hr.row.trans hr.response.symm
    have hprog := progress_afterAttempt hr hb
    simp only [State.move, Group.set_child_self, made, stored, rowsBy_append_self, List.map_append,
      List.map_cons, List.map_nil] at hst hprog ⊢
    rwa [hst, hrow]
  | broadcasts =>
    rw [State.move, Group.set_child_self]
    exact hi
  | wakes =>
    rw [State.move, Group.set_child_self]
    exact hi

lemma entryInv_delivers_of_ne {i j : cfg.Target} {l : DeliveryPc} (hne : j ≠ i)
    (hi : EntryInv s j) (h : Delivers s i l t) : EntryInv t j := by
  unfold EntryInv at hi ⊢
  cases h <;>
    simpa [State.move, made, stored, Group.set_child_of_ne _ hne, rowsBy_append_of_ne hne] using hi

lemma Delivers.frame {i : cfg.Target} {l : DeliveryPc} (h : Delivers s i l t) :
    (∃ c, c ≠ .cancelled ∧ t.group = s.group.set i c) ∧ t.pc = s.pc ∧ t.status = s.status ∧
      t.cancelRequested = s.cancelRequested := by
  cases h with
  | appends =>
    refine ⟨⟨_, ?_, rfl⟩, rfl, rfl, rfl⟩
    unfold afterAttempt
    split_ifs <;> simp
  | _ => exact ⟨⟨_, by simp, rfl⟩, rfl, rfl, rfl⟩

def RequestInv (s : State cfg) : Prop :=
  match s.pc with
  | .delivering => s.status = "RUNNING"
  | .updating status reply | .committing status reply =>
    s.status = "RUNNING" ∧ reply = some s.response ∧ status = s.response.status ∧
      ∀ i, s.group.child i = .ended
  | .returned response =>
    response = s.response ∧ s.status = s.response.status ∧ ∀ i, s.group.child i = .ended
  | .raised => s.status = "RUNNING" ∧ s.group.HasFailed
  | .cancelled => False

structure DeliveryInv (s : State cfg) : Prop where
  entry : ∀ i, EntryInv s i
  undisturbed : s.cancelRequested = false
  cause : s.group.aborting = true → s.group.HasFailed
  cancelled : ∀ i, s.group.child i = .cancelled → s.group.aborting = true
  request : RequestInv s

lemma deliveryInv_init (cfg : Config) : DeliveryInv (State.init cfg) where
  entry _ := ⟨.first, rfl⟩
  undisturbed := rfl
  cause h := by cases h
  cancelled _ h := by cases h
  request := rfl

lemma requestInv_of_running (hpc : s.pc = .delivering) (h : s.status = "RUNNING") :
    RequestInv s := by
  simp only [RequestInv, hpc]
  exact h

lemma DeliveryInv.running (hi : DeliveryInv s) (hpc : s.pc = .delivering) :
    s.status = "RUNNING" := by
  have hreq := hi.request
  simp only [RequestInv, hpc] at hreq
  exact hreq

lemma DeliveryInv.ended (hi : DeliveryInv s) (hfin : s.group.Finished)
    (hfail : ¬ s.group.HasFailed) (i : cfg.Target) : s.group.child i = .ended := by
  cases hc : s.group.child i with
  | ended => rfl
  | running l =>
    have hrun := hfin i
    simp [hc, Child.isRunning] at hrun
  | failed e => exact absurd ⟨i, by simp [hc, Child.isFailed]⟩ hfail
  | cancelled => exact absurd (hi.cause (hi.cancelled i hc)) hfail

lemma deliveryInv_delivers {i : cfg.Target} {l : DeliveryPc} (hi : DeliveryInv s)
    (hpc : s.pc = .delivering) (hcalm : s.group.aborting = false)
    (hchild : s.group.child i = .running l) (h : Delivers s i l t) : DeliveryInv t := by
  obtain ⟨⟨c, hc, hgroup⟩, hpc', hstatus, hreq⟩ := h.frame
  have hcalm' : t.group.aborting = false := by rw [hgroup]; exact hcalm
  have hentry : ∀ j, EntryInv t j := by
    intro j
    by_cases hj : j = i
    · subst hj
      exact entryInv_delivers (hi.entry j) hchild h
    · exact entryInv_delivers_of_ne hj (hi.entry j) h
  have hcancelled : ∀ j, t.group.child j ≠ .cancelled := by
    intro j hj
    rw [hgroup] at hj
    by_cases hji : j = i
    · subst hji
      exact hc (by simpa using hj)
    · rw [Group.set_child_of_ne _ hji] at hj
      have hab := hi.cancelled j hj
      rw [hcalm] at hab
      cases hab
  have hrun : t.status = "RUNNING" := hstatus.trans (hi.running hpc)
  exact ⟨hentry, hreq.trans hi.undisturbed, fun hab => absurd hab (by simp [hcalm']),
    fun j hj => absurd hj (hcancelled j), requestInv_of_running (hpc'.trans hpc) hrun⟩

lemma deliveryInv_cancelsDelivery {i : cfg.Target} {stored : Bool} (hi : DeliveryInv s)
    (hpc : s.pc = .delivering) (hab : s.group.aborting = true)
    (hrun : (s.group.child i).isRunning = true) :
    DeliveryInv { s with
      group := s.group.set i .cancelled
      rows := if stored then s.rows ++ s.underWay i else s.rows } := by
  refine ⟨fun j => ?_, hi.undisturbed, fun _ => (hi.cause hab).set hrun, fun _ _ => hab,
    requestInv_of_running hpc (hi.running hpc)⟩
  by_cases hj : j = i
  · subst hj
    simp [EntryInv, Progress]
  · have hrows : rowsBy j (s.underWay i) = [] := by
      unfold State.underWay
      split <;> simp [rowsBy, Ne.symm hj]
    have hentry := hi.entry j
    cases stored <;>
      simpa [EntryInv, made, Webhook.stored, Group.set_child_of_ne _ hj, rowsBy_append, hrows]
        using hentry

lemma deliveryInv_leaveGroup (hi : DeliveryInv s) (hpc : s.pc = .delivering)
    (hfin : s.group.Finished) : DeliveryInv s.leaveGroup := by
  have hrun := hi.running hpc
  unfold State.leaveGroup
  rw [hi.undisturbed]
  split_ifs with hfail hreq
  · exact ⟨hi.entry, rfl, hi.cause, hi.cancelled, hrun, hfail⟩
  · cases hreq
  · exact ⟨hi.entry, rfl, hi.cause, hi.cancelled, hrun, rfl, rfl, hi.ended hfin hfail⟩

theorem deliveryInv_step {a : Action cfg} (hi : DeliveryInv s) (h : tasks cfg s a = some t) :
    DeliveryInv t := by
  obtain ⟨ha, h⟩ := tasks_eq_some.mp h
  cases took_of_step h with
  | delivers hpc hcalm hchild hstep => exact deliveryInv_delivers hi hpc hcalm hchild hstep
  | aborts hpc _ hcause =>
    have hfail : s.group.HasFailed := hcause.resolve_right (by simp [hi.undisturbed])
    exact ⟨hi.entry, hi.undisturbed, fun _ => hfail, fun _ _ => rfl,
      requestInv_of_running hpc (hi.running hpc)⟩
  | cancelsDelivery hpc hab hrun => exact deliveryInv_cancelsDelivery hi hpc hab hrun
  | closes hpc hfin => exact deliveryInv_leaveGroup hi hpc hfin
  | updates hpc =>
    have hreq := hi.request
    simp only [RequestInv, hpc] at hreq
    exact ⟨hi.entry, hi.undisturbed, hi.cause, hi.cancelled, hreq⟩
  | replies hpc =>
    have hreq := hi.request
    simp only [RequestInv, hpc, Option.some.injEq] at hreq
    obtain ⟨_, hreply, hstatus, hended⟩ := hreq
    exact ⟨hi.entry, hi.undisturbed, hi.cause, hi.cancelled, hreply, hstatus, hended⟩
  | reraises hpc =>
    have hreq := hi.request
    simp [RequestInv, hpc] at hreq
  | cancelsGroup _ _ | cancelsUpdate _ | cancelsCommit _ => cases ha

lemma deliveryInv_of_exec {acts : List (Action cfg)}
    (h : exec (tasks cfg) (State.init cfg) acts = some t) : DeliveryInv t :=
  (reach_of_exec acts h).invariant (deliveryInv_init cfg) fun _ _ _ hi _ => deliveryInv_step hi

/-- The steps of a first attempt come before the sleep and the second attempt. -/
def retryWeight (n : ℕ) : ℕ := if n = 1 then 7 else 0

def deliveryWeight : Child DeliveryPc PyError → ℕ
  | .running (.waitingSlot n) => 7 + retryWeight n
  | .running (.waitingHttp n) => 6 + retryWeight n
  | .running (.posting n) => 5 + retryWeight n
  | .running (.adding record) => 4 + retryWeight record.attemptNumber
  | .running (.committing record) => 3 + retryWeight record.attemptNumber
  | .running (.committed record) => 2 + retryWeight record.attemptNumber
  | .running .sleeping => 8
  | .running .broadcasting => 1
  | .ended | .failed _ | .cancelled => 0

def requestWeight : MainPc → ℕ
  | .delivering => 3
  | .updating _ _ => 2
  | .committing _ _ => 1
  | .returned _ | .raised | .cancelled => 0

def stepsLeft (s : State cfg) : ℕ :=
  s.group.load deliveryWeight + requestWeight s.pc + (!s.group.aborting).toNat +
    (!s.cancelRequested).toNat

lemma deliveryWeight_afterAttempt (record : WebhookDeliveryAttemptRecord) :
    deliveryWeight (afterAttempt record) < 2 + retryWeight record.attemptNumber := by
  unfold afterAttempt retryWeight
  split_ifs <;> simp [deliveryWeight]

lemma stepsLeft_delivers {i : cfg.Target} {l : DeliveryPc} (hchild : s.group.child i = .running l)
    (h : Delivers s i l t) : stepsLeft t < stepsLeft s := by
  have hset : ∀ c, deliveryWeight c < deliveryWeight (.running l) →
      (s.group.set i c).load deliveryWeight < s.group.load deliveryWeight := by
    intro c hc
    have hload := Group.load_set deliveryWeight s.group i c
    rw [hchild] at hload
    omega
  have hmove : ∀ c, deliveryWeight c < deliveryWeight (.running l) →
      stepsLeft (s.move i c) < stepsLeft s := by
    intro c hc
    have hlt := hset c hc
    simp only [stepsLeft, State.move, Group.set_aborting]
    omega
  cases h with
  | takesSlot _ | takesHttpSlot _ | flushes => exact hmove _ (by simp [deliveryWeight])
  | records hmade =>
    refine hmove _ ?_
    simp [deliveryWeight, (isRecord_of_attemptRecord hmade).number]
  | fails _ => exact hmove _ (by simp [deliveryWeight])
  | @commits record => exact hmove (.running (.committed record)) (by simp [deliveryWeight])
  | appends => exact hmove _ (deliveryWeight_afterAttempt _)
  | broadcasts => exact hmove _ (by simp [deliveryWeight])
  | wakes => exact hmove _ (by simp [deliveryWeight, retryWeight])

lemma stepsLeft_leaveGroup (hpc : s.pc = .delivering) :
    stepsLeft s.leaveGroup < stepsLeft s := by
  unfold State.leaveGroup
  split_ifs <;> simp [stepsLeft, hpc, requestWeight]

theorem stepsLeft_step {a : Action cfg} (h : step cfg s a = some t) :
    stepsLeft t < stepsLeft s := by
  cases took_of_step h with
  | delivers _ _ hchild hstep => exact stepsLeft_delivers hchild hstep
  | aborts _ hcalm _ => simp [stepsLeft, hcalm, Group.load]
  | @cancelsDelivery i _ _ _ hrun =>
    have hload := Group.load_set deliveryWeight s.group i .cancelled
    have hpos : 0 < deliveryWeight (s.group.child i) := by
      cases hc : s.group.child i with
      | running l => cases l <;> simp [deliveryWeight]
      | _ => simp [hc, Child.isRunning] at hrun
    have hzero : deliveryWeight (.cancelled : Child DeliveryPc PyError) = 0 := rfl
    simp only [stepsLeft, Group.set_aborting]
    omega
  | closes hpc _ => exact stepsLeft_leaveGroup hpc
  | updates hpc | replies hpc | reraises hpc | cancelsUpdate hpc | cancelsCommit hpc =>
    simp [stepsLeft, hpc, requestWeight]
  | cancelsGroup _ hfirst => simp [stepsLeft, hfirst]

lemma waits_of_deliver_eq_none {i : cfg.Target} {l : DeliveryPc} (h : s.deliver i l = none) :
    (∃ n, l = .waitingSlot n ∧ cfg.webhookConcurrencyLimit ≤ s.group.load webhookSlots) ∨
      ∃ n, l = .waitingHttp n ∧ cfg.httpConcurrencyLimit ≤ s.group.load httpSlots := by
  cases l with
  | waitingSlot n =>
    simp only [State.deliver] at h
    split_ifs at h with hfree
    exact .inl ⟨n, rfl, not_lt.mp hfree⟩
  | waitingHttp n =>
    simp only [State.deliver] at h
    split_ifs at h with hfree
    exact .inr ⟨n, rfl, not_lt.mp hfree⟩
  | posting n =>
    simp only [State.deliver] at h
    split at h <;> cases h
  | adding _ | committing _ | committed _ | broadcasting | sleeping => cases h

/-- Who holds a slot of the HTTP limiter can go on, and then who holds one of the webhook
limiter. -/
lemma exists_deliver {i : cfg.Target} {l : DeliveryPc} (hrun : s.group.child i = .running l) :
    ∃ j l', s.group.child j = .running l' ∧ s.deliver j l' ≠ none := by
  by_contra hnone
  push Not at hnone
  have hhttp : s.group.load httpSlots = 0 := by
    rw [Group.load_eq_zero]
    intro j
    cases hj : s.group.child j with
    | running l' =>
      rcases waits_of_deliver_eq_none (hnone j l' hj) with ⟨n, rfl, _⟩ | ⟨n, rfl, _⟩ <;> rfl
    | _ => rfl
  have hlimit := cfg.httpLimit_pos
  have hwebhook : s.group.load webhookSlots = 0 := by
    rw [Group.load_eq_zero]
    intro j
    cases hj : s.group.child j with
    | running l' =>
      rcases waits_of_deliver_eq_none (hnone j l' hj) with ⟨n, rfl, _⟩ | ⟨n, _, hle⟩
      · rfl
      · omega
    | _ => rfl
  have hlimit' := cfg.webhookLimit_pos
  rcases waits_of_deliver_eq_none (hnone i l hrun) with ⟨_, _, hle⟩ | ⟨_, _, hle⟩ <;> omega

lemma not_terminal_of_delivering (hpc : s.pc = .delivering) : ¬ Terminal (tasks cfg) s := by
  intro hterm
  by_cases hfin : s.group.Finished
  · have hclose := hterm.step_eq_none (a := .close) rfl
    simp [step, hpc, hfin] at hclose
  · simp only [Group.Finished, not_forall, Bool.not_eq_false] at hfin
    obtain ⟨i, hi⟩ := hfin
    cases hab : s.group.aborting with
    | true =>
      have hcancel := hterm.step_eq_none (a := .cancelDelivery i false) rfl
      simp [step, hpc, Group.cancelChild, hab, hi] at hcancel
    | false =>
      cases hc : s.group.child i with
      | running l =>
        obtain ⟨j, l', hj, hgo⟩ := exists_deliver hc
        have hdeliver := hterm.step_eq_none (a := .deliver j) rfl
        have hactive := delivery_eq_some.mpr ⟨hpc, hab, hj⟩
        simp only [step, hactive, Option.bind_some] at hdeliver
        exact hgo hdeliver
      | _ => simp [hc, Child.isRunning] at hi

lemma pc_of_terminal (hi : DeliveryInv s) (hterm : Terminal (tasks cfg) s) :
    (∃ response, s.pc = .returned response) ∨ s.pc = .raised := by
  have hreq := hi.request
  cases hpc : s.pc with
  | delivering => exact absurd hterm (not_terminal_of_delivering hpc)
  | updating status reply =>
    have hupdate := hterm.step_eq_none (a := .update) rfl
    simp [step, hpc] at hupdate
  | committing status reply =>
    have hcommit := hterm.step_eq_none (a := .commit) rfl
    cases reply <;> simp [step, hpc] at hcommit
  | returned response => exact .inl ⟨response, rfl⟩
  | raised => exact .inr rfl
  | cancelled => simp [RequestInv, hpc] at hreq

lemma finalStatus_cases (targets : List String) (attempts : List WebhookAttemptResponse) :
    finalStatus targets attempts = "COMPLETED" ∨ finalStatus targets attempts = "PARTIAL" := by
  unfold finalStatus
  dsimp only
  split_ifs
  · exact .inr rfl
  · exact .inl rfl
  · exact .inl rfl

lemma DeliveryInv.responded (hi : DeliveryInv s) {response : TriggerWebhookResponse}
    (hpc : s.pc = .returned response) (i : cfg.Target) :
    Responded cfg i ∧ made s i = designedAttempts cfg i ∧ stored s i = made s i := by
  have hreq := hi.request
  simp only [RequestInv, hpc] at hreq
  have hentry := hi.entry i
  rwa [EntryInv, hreq.2.2 i] at hentry

lemma perm_of_stored_eq_made (h : ∀ i, stored s i = made s i) :
    (s.rows.map fun o => rowResponse o.row).Perm (s.attempts.map (·.row)) := by
  have htagged : (s.rows.map fun o => (⟨o.call, rowResponse o.row⟩ : OwnedRow _ _)).Perm
      s.attempts := by
    refine perm_of_rowsBy fun i => ?_
    have hmap : ∀ l : List (OwnedRow cfg.Target WebhookAttemptResponse),
        rowsBy i l = ((rowsBy i l).map (·.row)).map (⟨i, ·⟩) := by
      intro l
      rw [List.map_map]
      refine (List.map_id _).symm.trans (List.map_congr_left fun o ho => ?_)
      obtain ⟨_, rfl⟩ := mem_rowsBy.mp ho
      rfl
    rw [hmap, hmap s.attempts]
    congr 1
    rw [← made, ← h i, stored, rowsBy, rowsBy, List.filter_map, List.map_map]
    rfl
  simpa [Function.comp_def] using htagged.map (·.row)

lemma delivered_of_returned (hi : DeliveryInv s) {response : TriggerWebhookResponse}
    (hpc : s.pc = .returned response) : Delivered s response := by
  have hreq := hi.request
  simp only [RequestInv, hpc] at hreq
  obtain ⟨rfl, hstatus, -⟩ := hreq
  have hresp := hi.responded hpc
  exact ⟨hpc, rfl, fun i => (hresp i).2.1, perm_of_stored_eq_made fun i => (hresp i).2.2,
    hstatus ▸ finalStatus_cases _ _⟩

/-- An entry that gets no response makes every maximal run raise and leaves the event RUNNING. -/
theorem raised_of_not_responded {i : cfg.Target} (h : ¬ Responded cfg i)
    {acts : List (Action cfg)} (hrun : exec (tasks cfg) (State.init cfg) acts = some t)
    (hterm : Terminal (tasks cfg) t) : t.pc = .raised ∧ t.status = "RUNNING" := by
  have hi := deliveryInv_of_exec hrun
  have hreq := hi.request
  rcases pc_of_terminal hi hterm with ⟨response, hpc⟩ | hpc
  · exact absurd (hi.responded hpc i).1 h
  · simp only [RequestInv, hpc] at hreq
    exact ⟨hpc, hreq.1⟩

lemma not_hasFailed_of_responded (h : ∀ i, Responded cfg i) (hi : DeliveryInv s) :
    ¬ s.group.HasFailed := by
  rintro ⟨i, hf⟩
  have hentry := hi.entry i
  cases hc : s.group.child i with
  | failed e =>
    rw [EntryInv, hc] at hentry
    exact hentry (h i)
  | _ => simp [hc, Child.isFailed] at hf

/-- Every run of a request delivers by design exactly if every attempt that is made gets a
response. -/
theorem designedRuns_iff (cfg : Config) : DesignedRuns cfg ↔ ∀ i, Responded cfg i := by
  have hdec : ∀ s a t, True → tasks cfg s a = some t → stepsLeft t < stepsLeft s :=
    fun _ _ _ _ ht => stepsLeft_step (tasks_eq_some.mp ht).2
  constructor
  · intro hd i
    by_contra hresp
    obtain ⟨acts, t, hrun, hterm⟩ := exists_terminal (fun _ _ _ _ _ => trivial) hdec
      (s := State.init cfg) trivial
    obtain ⟨response, hdel⟩ := hd.delivered acts t hrun hterm
    have hraised := (raised_of_not_responded hresp hrun hterm).1
    rw [hdel.returned] at hraised
    cases hraised
  · intro hresp
    refine ⟨⟨stepsLeft (State.init cfg), fun acts t hrun => ?_⟩, fun acts t hrun hterm => ?_⟩
    · have hle := length_le_of_decreasing (fun _ _ _ _ _ => trivial) hdec trivial acts hrun
      omega
    · have hi := deliveryInv_of_exec hrun
      rcases pc_of_terminal hi hterm with ⟨response, hpc⟩ | hpc
      · exact ⟨response, delivered_of_returned hi hpc⟩
      · have hreq := hi.request
        simp only [RequestInv, hpc] at hreq
        exact absurd hreq.2 (not_hasFailed_of_responded hresp hi)

lemma terminal_of_raised (hpc : s.pc = .raised) : Terminal (tasks cfg) s := by
  intro a
  cases a <;> simp [tasks, restrict, step, State.delivery, hpc]

/-- The first of two targets refuses the connection; the second would answer 200. -/
def refusedTarget : Config where
  targets := ["http://a/", "http://b/"]
  outcome i _ := if i.val = 0 then .requestError "ConnectError" "refused" else .response 200 ""
  eventId := 1
  webhookConcurrencyLimit := 5
  httpConcurrencyLimit := 10
  webhookLimit_pos := by decide
  httpLimit_pos := by decide

def refused : refusedTarget.Target := ⟨0, by decide⟩

def sibling : refusedTarget.Target := ⟨1, by decide⟩

def refusedRun : List (Action refusedTarget) :=
  [.deliver refused, .deliver sibling, .deliver refused, .deliver refused, .abort,
    .cancelDelivery sibling false, .close]

/-- The request raises, no attempt of either target is stored, and the event stays RUNNING. -/
theorem refusedRun_raised :
    (∃ s, exec (tasks refusedTarget) (State.init refusedTarget) refusedRun = some s ∧
      s.pc = .raised ∧ s.status = "RUNNING" ∧ s.attempts = [] ∧ s.rows = []) ∧
    ¬ DesignedRuns refusedTarget := by
  have hrun : ∃ s, exec (tasks refusedTarget) (State.init refusedTarget) refusedRun = some s ∧
      s.pc = .raised ∧ s.status = "RUNNING" ∧ s.attempts = [] ∧ s.rows = [] :=
    ⟨_, rfl, rfl, rfl, rfl, rfl⟩
  refine ⟨hrun, fun hd => ?_⟩
  obtain ⟨s, hs, hpc, -⟩ := hrun
  obtain ⟨response, hdel⟩ := hd.delivered refusedRun s hs (terminal_of_raised hpc)
  have hreturned := hdel.returned
  rw [hpc] at hreturned
  cases hreturned

end AsyncDataHub.Webhook
