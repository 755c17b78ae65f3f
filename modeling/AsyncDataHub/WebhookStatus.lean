import AsyncDataHub.WebhookDelivery

/-! The final status of a webhook event against the entries of its target list, when every attempt
gets a response. -/
namespace AsyncDataHub.Webhook
open StepSystem TaskGroup OwnedRows

variable {cfg : Config} {s t : State cfg} {response : TriggerWebhookResponse}

def Served (cfg : Config) (i : cfg.Target) : Prop :=
  (cfg.outcome i 1).succeeds = true ∨ (cfg.outcome i 2).succeeds = true

instance (cfg : Config) (i : cfg.Target) : Decidable (Served cfg i) :=
  inferInstanceAs (Decidable (_ ∨ _))

/-- What the status is to say of the entries. -/
structure StatusOf (cfg : Config) (status : String) : Prop where
  completed : status = "COMPLETED" ↔ ∀ i, Served cfg i
  otherwise : status = "PARTIAL" ↔ ∃ i, ¬ Served cfg i

/-- Every run that can go no further has returned the status that the entries call for, and stored
it. -/
def TellsEntries (cfg : Config) : Prop :=
  ∀ acts t, exec (tasks cfg) (State.init cfg) acts = some t → Terminal (tasks cfg) t →
    ∃ response, t.pc = .returned response ∧ t.status = response.status ∧
      StatusOf cfg response.status

/-- The URL of the entry is the URL of an entry that succeeds. -/
def UrlServed (cfg : Config) (i : cfg.Target) : Prop :=
  ∃ j, cfg.targets.get j = cfg.targets.get i ∧ Served cfg j

instance (cfg : Config) (i : cfg.Target) : Decidable (UrlServed cfg i) :=
  inferInstanceAs (Decidable (∃ _, _))

def urlStatus (cfg : Config) : String :=
  if ∀ i, UrlServed cfg i then "COMPLETED" else "PARTIAL"

lemma Served.url {i : cfg.Target} (h : Served cfg i) : UrlServed cfg i := ⟨i, rfl, h⟩

@[simp] lemma designedAttempt_targetUrl (i : cfg.Target) (n : ℕ) :
    (designedAttempt cfg i n).targetUrl = cfg.targets.get i := by
  unfold designedAttempt
  split
  · split_ifs <;> rfl
  · rfl

lemma designedAttempt_status (i : cfg.Target) (n : ℕ) :
    (designedAttempt cfg i n).status =
      if (cfg.outcome i n).succeeds then "success" else "failed" := by
  unfold designedAttempt
  split <;> rename_i ho
  · simp only [ho, Outcome.succeeds]
    split_ifs <;> rfl
  · simp [ho, Outcome.succeeds]

lemma targetUrl_of_mem {i : cfg.Target} {a : WebhookAttemptResponse}
    (h : a ∈ designedAttempts cfg i) : a.targetUrl = cfg.targets.get i := by
  unfold designedAttempts at h
  split_ifs at h
  · obtain rfl := List.mem_singleton.mp h
    simp
  · rcases List.mem_pair.mp h with rfl | rfl <;> simp

lemma exists_success_iff (i : cfg.Target) :
    (∃ a ∈ designedAttempts cfg i, a.status = "success") ↔ Served cfg i := by
  unfold designedAttempts Served
  cases hfirst : (cfg.outcome i 1).succeeds <;> simp [designedAttempt_status, hfirst]

lemma exists_failed_iff (i : cfg.Target) :
    (∃ a ∈ designedAttempts cfg i, a.status = "failed") ↔
      (cfg.outcome i 1).succeeds = false := by
  unfold designedAttempts
  cases hfirst : (cfg.outcome i 1).succeeds <;> simp [designedAttempt_status, hfirst]

lemma mem_attempts_iff (h : Delivered s response) (a : WebhookAttemptResponse) :
    a ∈ response.attempts ↔ ∃ i, a ∈ designedAttempts cfg i := by
  rw [h.attempts]
  constructor
  · intro ha
    obtain ⟨o, ho, rfl⟩ := List.mem_map.mp ha
    refine ⟨o.call, ?_⟩
    rw [← h.designed o.call]
    exact List.mem_map_of_mem (mem_rowsBy.mpr ⟨ho, rfl⟩)
  · rintro ⟨i, ha⟩
    rw [← h.designed i] at ha
    obtain ⟨o, ho, rfl⟩ := List.mem_map.mp ha
    exact List.mem_map_of_mem (mem_rowsBy.mp ho).1

lemma successfulTargets_eq_iff (h : Delivered s response) :
    ((response.attempts.filter fun a => a.status = "success").map (·.targetUrl)).toFinset =
      cfg.targets.toFinset ↔ ∀ i, UrlServed cfg i := by
  have hmem : ∀ url, url ∈ ((response.attempts.filter fun a => a.status = "success").map
      (·.targetUrl)).toFinset ↔ ∃ j, cfg.targets.get j = url ∧ Served cfg j := by
    intro url
    simp only [List.mem_toFinset, List.mem_map, List.mem_filter, decide_eq_true_eq]
    constructor
    · rintro ⟨a, ⟨ha, hsuccess⟩, rfl⟩
      obtain ⟨j, hj⟩ := (mem_attempts_iff h a).mp ha
      exact ⟨j, (targetUrl_of_mem hj).symm, (exists_success_iff j).mp ⟨a, hj, hsuccess⟩⟩
    · rintro ⟨j, rfl, hserved⟩
      obtain ⟨a, ha, hsuccess⟩ := (exists_success_iff j).mpr hserved
      exact ⟨a, ⟨(mem_attempts_iff h a).mpr ⟨j, ha⟩, hsuccess⟩, targetUrl_of_mem ha⟩
  constructor
  · intro heq i
    refine (hmem _).mp ?_
    rw [heq, List.mem_toFinset]
    exact List.get_mem ..
  · intro hall
    ext url
    rw [hmem, List.mem_toFinset, List.mem_iff_get]
    constructor
    · rintro ⟨j, hj, -⟩
      exact ⟨j, hj⟩
    · rintro ⟨i, rfl⟩
      exact hall i

lemma finalStatus_eq (h : Delivered s response) :
    finalStatus cfg.targets response.attempts = urlStatus cfg := by
  unfold finalStatus urlStatus
  by_cases hall : ∀ i, UrlServed cfg i
  · have heq := (successfulTargets_eq_iff h).mpr hall
    simp only [heq, ne_eq, not_true_eq_false, if_false, ite_self, if_pos hall]
  · have hne := mt (successfulTargets_eq_iff h).mp hall
    -- An entry whose URL is not served has failed in its first attempt.
    have hfailed : (response.attempts.any fun a => a.status = "failed") = true := by
      push Not at hall
      obtain ⟨i, hi⟩ := hall
      have hfirst : (cfg.outcome i 1).succeeds = false := by
        by_contra hsucc
        exact hi (Served.url (.inl (by simpa using hsucc)))
      obtain ⟨a, ha, hstatus⟩ := (exists_failed_iff i).mpr hfirst
      exact List.any_eq_true.mpr ⟨a, (mem_attempts_iff h a).mpr ⟨i, ha⟩, by simpa using hstatus⟩
    simp only [hfailed, if_true, ne_eq, hne, not_false_eq_true, if_neg hall]

lemma returns_of_terminal (hresp : ∀ i, Responded cfg i) {acts : List (Action cfg)}
    (hrun : exec (tasks cfg) (State.init cfg) acts = some t) (hterm : Terminal (tasks cfg) t) :
    ∃ response, t.pc = .returned response ∧ t.status = urlStatus cfg ∧
      response.status = urlStatus cfg := by
  have hi := deliveryInv_of_exec hrun
  obtain ⟨response, h⟩ := ((designedRuns_iff cfg).mpr hresp).delivered acts t hrun hterm
  have hreq := hi.request
  simp only [RequestInv, h.returned] at hreq
  have hstatus : response.status = urlStatus cfg := by
    rw [← finalStatus_eq h, hreq.1]
    rfl
  exact ⟨response, h.returned, by rw [hreq.2.1, ← hreq.1, hstatus], hstatus⟩

lemma exists_terminal_run (cfg : Config) :
    ∃ acts t, exec (tasks cfg) (State.init cfg) acts = some t ∧ Terminal (tasks cfg) t :=
  exists_terminal (fun _ _ _ _ _ => trivial)
    (fun _ _ _ _ ht => stepsLeft_step (tasks_eq_some.mp ht).2) trivial

lemma statusOf_urlStatus_iff :
    StatusOf cfg (urlStatus cfg) ↔ ¬ ((∃ i, ¬ Served cfg i) ∧ ∀ i, UrlServed cfg i) := by
  unfold urlStatus
  constructor
  · rintro h ⟨⟨i, hi⟩, hall⟩
    rw [if_pos hall] at h
    exact hi (h.completed.mp rfl i)
  · intro h
    split_ifs with hall
    · have hserved : ∀ i, Served cfg i := by
        intro i
        by_contra hi
        exact h ⟨⟨i, hi⟩, hall⟩
      exact ⟨by simp [hserved], by simp [hserved]⟩
    · push Not at hall
      obtain ⟨i, hi⟩ := hall
      have hmissed : ¬ Served cfg i := fun hserved => hi hserved.url
      exact ⟨by simpa using ⟨i, hmissed⟩, by simpa using ⟨i, hmissed⟩⟩

/-- The status never depends on the order of the deliveries. It tells what became of the entries
unless one of them fails while every URL of the list has an entry that succeeds. -/
theorem tellsEntries_iff (hresp : ∀ i, Responded cfg i) :
    (∃ status, ∀ acts t, exec (tasks cfg) (State.init cfg) acts = some t →
      Terminal (tasks cfg) t →
        ∃ response, t.pc = .returned response ∧ t.status = status ∧ response.status = status) ∧
    (TellsEntries cfg ↔ ¬ ((∃ i, ¬ Served cfg i) ∧
      ∀ i, ∃ j, cfg.targets.get j = cfg.targets.get i ∧ Served cfg j)) := by
  refine ⟨⟨urlStatus cfg, fun acts t hrun hterm => returns_of_terminal hresp hrun hterm⟩, ?_⟩
  refine Iff.trans ?_ statusOf_urlStatus_iff
  constructor
  · intro htells
    obtain ⟨acts, t, hrun, hterm⟩ := exists_terminal_run cfg
    obtain ⟨response, hpc, -, hstatus⟩ := htells acts t hrun hterm
    obtain ⟨response', hpc', -, hstatus'⟩ := returns_of_terminal hresp hrun hterm
    rw [hpc] at hpc'
    cases hpc'
    rwa [hstatus'] at hstatus
  · intro hstatus acts t hrun hterm
    obtain ⟨response, hpc, hstored, hreturned⟩ := returns_of_terminal hresp hrun hterm
    exact ⟨response, hpc, hstored.trans hreturned.symm, hreturned ▸ hstatus⟩

/-- One URL twice: the receiver answers the first entry with 500 both times, the second with 200. -/
def repeatedUrl : Config where
  targets := ["http://a/", "http://a/"]
  outcome i _ := if i.val = 0 then .response 500 "Server error" else .response 200 ""
  eventId := 1
  webhookConcurrencyLimit := 5
  httpConcurrencyLimit := 10
  webhookLimit_pos := Nat.succ_pos 4
  httpLimit_pos := Nat.succ_pos 9

lemma repeatedUrl_responded (i : repeatedUrl.Target) : Responded repeatedUrl i := by
  unfold Responded repeatedUrl
  dsimp only
  split_ifs
  · exact ⟨rfl, .inr rfl⟩
  · exact ⟨rfl, .inr rfl⟩

/-- The same entries with two URLs. -/
def distinctUrls : Config := { repeatedUrl with targets := ["http://a/", "http://b/"] }

lemma distinctUrls_responded (i : distinctUrls.Target) : Responded distinctUrls i :=
  repeatedUrl_responded i

theorem tellsEntries_iff_distinctUrls : TellsEntries distinctUrls :=
  (tellsEntries_iff distinctUrls_responded).2.mpr (by decide)

/-- The event is COMPLETED, though no attempt of the first entry has succeeded. -/
theorem repeatedUrl_completed :
    (∃ acts t response, exec (tasks repeatedUrl) (State.init repeatedUrl) acts = some t ∧
      t.pc = .returned response ∧ response.status = "COMPLETED" ∧ t.status = "COMPLETED") ∧
    ¬ Served repeatedUrl ⟨0, Nat.succ_pos 1⟩ ∧ ¬ TellsEntries repeatedUrl := by
  have hstatus : urlStatus repeatedUrl = "COMPLETED" := by decide
  obtain ⟨acts, t, hrun, hterm⟩ := exists_terminal_run repeatedUrl
  obtain ⟨response, hpc, hstored, hreturned⟩ :=
    returns_of_terminal repeatedUrl_responded hrun hterm
  have hmissed : ¬ Served repeatedUrl ⟨0, Nat.succ_pos 1⟩ := by decide
  refine ⟨⟨acts, t, response, hrun, hpc, hreturned.trans hstatus, hstored.trans hstatus⟩, hmissed,
    fun htells => ?_⟩
  obtain ⟨response', hpc', -, hof⟩ := htells acts t hrun hterm
  rw [hpc] at hpc'
  cases hpc'
  exact hmissed (hof.completed.mp (hreturned.trans hstatus) _)

end AsyncDataHub.Webhook
