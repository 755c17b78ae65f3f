import AsyncDataHub.PaymentReplay

/-! Calls that start after a charge under their key has succeeded: what they find once the record in
the cache has expired, and which of the two constraints fires first. -/
namespace AsyncDataHub.Payment
open StepSystem LockTable OwnedRows Cache PyJson ExpiringStore PyText

variable {cfg : Config} {s t s₁ : State} {c : CallId} {call : Call} {eff : Effect} {key : String}
  {i : Inserted}

/-- The payment has been declined for want of money, and the call has not ended. -/
def Call.Failing (call : Call) : Prop :=
  match call.pc with
  | .insertFailed _ | .commitFailed _ => True
  | .complete response => dictGet response "status" = some (.str ChargeStatus.failed.value)
  | _ => False

def NoCompleted (cfg : Config) (key : String) (s : State) : Prop :=
  ∀ e, s.record key = some e → ∀ fingerprint charge,
    e.value ≠ completedValue s.cache.backend fingerprint (responseOf cfg charge)

/-- The charge under the key is committed while nobody else under it is failing or has completed;
from then on every call under the key that gets to its UPDATE finds enough money, and the key does
not name the CHECK where the INSERT is refused. -/
def Payable (cfg : Config) (key : String) (s : State) : Action → Prop
  | .op c => ∀ call, s.calls c = some call → call.key = key →
      (∀ balance charge, call.pc = .commit balance charge → NoCompleted cfg key s ∧
        ∀ d call', s.calls d = some call' → call'.key = key → ¬ call'.Failing) ∧
      (succeededRows key s.charges ≠ [] →
        (∀ u balance, call.pc = .update u → call.data.amount ≤ maxInteger →
          s.accounts u = some balance → call.data.amount ≤ balance) ∧
        ∀ u balance, call.pc = .insert u balance → ¬ Mentions key balanceCheckConstraint)
  | _ => True

/-- Nobody under the key is failing, and its record is of no failed charge. -/
structure KeyInv (cfg : Config) (key : String) (s : State) : Prop where
  calls : ∀ c call, s.calls c = some call → call.key = key → ¬ call.Failing
  record : ∀ e, s.record key = some e → ∀ fingerprint charge,
    e.value = completedValue s.cache.backend fingerprint (responseOf cfg charge) →
    charge.status = .succeeded

/-- A late call has inserted nothing, is not on its way to, and returns only the successful
response of the row. -/
def Call.Late (cfg : Config) (i : Inserted) (call : Call) : Prop :=
  match call.pc with
  | .commit _ _ | .insertFailed _ | .commitFailed _ | .complete _ => False
  | .done (.returned response) => call.response = none ∧
      response = dictSet (responseOf cfg i.row) "idempotent_replayed" (.bool true)
  | _ => call.response = none

def LateInv (cfg : Config) (key : String) (i : Inserted) (s₁ s : State) : Prop :=
  ∀ c call, s₁.calls c = none → s.calls c = some call → call.key = key → call.Late cfg i

lemma mem_succeededRows {charges : List Inserted} :
    i ∈ succeededRows key charges ↔
      i ∈ charges ∧ i.row.idempotencyKey = key ∧ i.row.status = .succeeded := by
  simp [succeededRows]

lemma eq_of_length_le_one {α : Type*} {xs : List α} {a b : α} (h : xs.length ≤ 1) (ha : a ∈ xs)
    (hb : b ∈ xs) : a = b := by
  match xs with
  | [] => cases ha
  | [x] =>
    rw [List.mem_singleton] at ha hb
    rw [ha, hb]
  | _ :: _ :: _ => simp at h

lemma responseOf_status (cfg : Config) (charge : Charge) :
    dictGet (responseOf cfg charge) "status" = some (.str charge.status.value) := by
  simp [responseOf, PaymentResponse.modelDump, modelValidate]

lemma succeededRows_step {a : Action} (h : step cfg s a = some t)
    (hi : i ∈ succeededRows key s.charges) : i ∈ succeededRows key t.charges := by
  have happly (c : CallId) (call : Call) (eff : Effect) :
      i ∈ succeededRows key (s.apply cfg c call eff).charges := by
    cases eff with
    | publish _ charge =>
      rw [apply_charges, succeededRows_append]
      exact List.mem_append_left _ hi
    | _ => exact hi
  cases took_of_step h with
  | start _ | tick _ => exact hi
  | op _ _ | stop _ _ _ => exact happly _ _ _

lemma value_injective : Function.Injective ChargeStatus.value := by
  intro status status' h
  cases status <;> cases status' <;> first | rfl | exact absurd h (by decide)

lemma setValue_injective {backend : Backend} {text text' : String}
    (h : setValue backend text = setValue backend text') : text = text' := by
  have hloads (text : String) : loads (dumps (.str text)) = some (.str text) :=
    loads_dumps (by simp [Json.Valid])
  cases backend with
  | redis =>
    have hdumps : dumps (.str text) = dumps (.str text') := Json.str.inj h
    have hsame := (hloads text).symm.trans (hdumps ▸ hloads text')
    simpa using hsame
  | memory | disabled => exact Json.str.inj h

lemma processingValue_ne_completed (backend : Backend) (fingerprint fingerprint' : String)
    (charge : Charge) : processingValue fingerprint ≠
      completedValue backend fingerprint' (responseOf cfg charge) := by
  have hloads := loads_completedRecord fingerprint' (responseOf_valid cfg charge)
  intro h
  cases backend with
  | redis =>
    have htext : processingRecord fingerprint =
        completedRecord fingerprint' (responseOf cfg charge) := @setValue_injective .redis _ _ h
    rw [← htext, loads_processingRecord] at hloads
    simp [processingFields, completedFields] at hloads
  | memory | disabled => exact processingValue_ne_text fingerprint hloads h.symm

lemma status_of_completedValue {backend : Backend} {fingerprint fingerprint' : String}
    {charge charge' : Charge} (h : completedValue backend fingerprint (responseOf cfg charge) =
      completedValue backend fingerprint' (responseOf cfg charge')) :
    charge.status = charge'.status := by
  have hloads := loads_completedRecord fingerprint (responseOf_valid cfg charge)
  rw [setValue_injective h, loads_completedRecord fingerprint' (responseOf_valid cfg charge')]
    at hloads
  have hresponse : responseOf cfg charge' = responseOf cfg charge := by
    simp only [Option.some.injEq, Json.obj.injEq, completedFields, List.cons.injEq, Prod.mk.injEq,
      and_true, true_and] at hloads
    exact hloads.2
  have hstatus := responseOf_status cfg charge
  rw [← hresponse, responseOf_status, Option.some.injEq, Json.str.injEq] at hstatus
  exact (value_injective hstatus).symm

lemma record_of_does (h : Does cfg s c call eff) {e : Entry Json}
    (he : (s.apply cfg c call eff).record key = some e) :
    s.record key = some e ∨
      e.value = processingValue (computeFingerprint cfg call.data) ∨
      call.key = key ∧ ∃ response, call.pc = .complete response ∧
        e.value = completedValue s.cache.backend (computeFingerprint cfg call.data) response := by
  obtain ⟨hstore, hnow⟩ := live_eq_some.mp he
  rw [apply_now] at hnow
  have hold : s.cache.store (cacheIdempotencyKey key) = some e → s.record key = some e :=
    fun h => live_eq_some.mpr ⟨h, hnow⟩
  cases h with
  | acquires _ _ _ =>
    rcases store_write_cases hstore with ⟨-, hstore⟩ | ⟨-, rfl⟩
    · exact .inl (hold hstore)
    · exact .inr (.inl rfl)
  | looksUp _ =>
    rw [apply_cache] at hstore
    rcases get_cache s.cache s.now (cacheIdempotencyKey call.key) with hget | ⟨-, -, hget⟩
    · rw [hget] at hstore
      exact .inl (hold hstore)
    · rw [hget] at hstore
      exact .inl (hold (store_erase_cases hstore).2)
  | deletes _ => exact .inl (hold (store_erase_cases hstore).2)
  | @completes response hpc =>
    rw [apply_cache] at hstore
    rcases set_text_cases s.cache s.now (cacheIdempotencyKey call.key)
      (completedRecord (computeFingerprint cfg call.data) response)
      (some processingRecordTtlSeconds) with ⟨-, hset⟩ | ⟨-, hset⟩
    · rw [hset] at hstore
      exact .inl (hold hstore)
    · rw [hset] at hstore
      rcases store_write_cases hstore with ⟨-, hstore⟩ | ⟨rfl, rfl⟩
      · exact .inl (hold hstore)
      · exact .inr (.inr ⟨rfl, response, hpc, rfl⟩)
  | _ => exact .inl (hold hstore)

lemma failing_of_does (hok : call.Ok cfg) (hf : ¬ call.Failing)
    (hpay : ∀ u balance, call.pc = .update u → call.data.amount ≤ maxInteger →
      s.accounts u = some balance → call.data.amount ≤ balance)
    (hname : ∀ u balance, call.pc = .insert u balance →
      ¬ Mentions call.key balanceCheckConstraint)
    (h : Does cfg s c call eff) : ¬ (eff.after cfg s.now call).Failing := by
  cases h with
  | acquires _ _ _ =>
    simp only [Call.Failing, Effect.after, firstPc]
    cases cfg.uuidOf call.data.customerId <;> simp
  | overdraws hpc hfits hrow hlow => exact absurd (hpay _ _ hpc hfits hrow) (not_le.mpr hlow)
  | mistakes hpc _ hnamed => exact absurd hnamed (hname _ _ hpc)
  | recordsFailure hpc | commitsFailure hpc =>
    simp only [Call.Failing, hpc] at hf
    exact absurd trivial hf
  | commits hpc =>
    simp only [Call.Ok, hpc] at hok
    simp [Call.Failing, Effect.after, responseOf_status, hok.2.1, ChargeStatus.value]
  | _ => exact id

lemma failing_of_stops (h : Stops call eff) (now : ℕ) : ¬ (eff.after cfg now call).Failing := by
  cases h <;> exact id

lemma keyInv_of_does (hr : RecordInv cfg s) (hb : BooksInv cfg s) (hi : KeyInv cfg key s)
    (hc : s.calls c = some call) (hafter : call.key = key → ¬ (eff.after cfg s.now call).Failing)
    (h : Does cfg s c call eff) : KeyInv cfg key (s.apply cfg c call eff) := by
  constructor
  · intro d call' hd hkey
    rw [apply_calls] at hd
    rcases update_eq_some.mp hd with ⟨-, rfl⟩ | ⟨-, hd⟩
    · exact hafter (by simpa using hkey)
    · exact hi.calls d call' hd hkey
  · intro e he fingerprint charge hv
    rw [(keeps_of_does hr (hb.started c call hc).progress h).1] at hv
    rcases record_of_does h he with hold | hprocessing | ⟨hkey, response, hpc, hcompleted⟩
    · exact hi.record e hold fingerprint charge hv
    · exact absurd (hprocessing.symm.trans hv) (processingValue_ne_completed _ _ _ _)
    · have hnot := hi.calls c call hc hkey
      obtain ⟨-, hprogress, hbooked⟩ := hb.started c call hc
      simp only [Call.Progress, hpc] at hprogress
      simp only [Call.Booked, hprogress] at hbooked
      obtain ⟨own, -, rfl, -⟩ := hbooked
      rw [status_of_completedValue (hv.symm.trans hcompleted)]
      simp only [Call.Failing, hpc, responseOf_status] at hnot
      cases hs : own.status with
      | succeeded => rfl
      | failed => exact absurd (by rw [hs]) hnot

lemma keyInv_of_commit {balance : ℤ} {charge : Charge} (hok : call.Ok cfg)
    (hpc : call.pc = .commit balance charge) (hnone : NoCompleted cfg key s)
    (hothers : ∀ d call', s.calls d = some call' → call'.key = key → ¬ call'.Failing) :
    KeyInv cfg key (s.apply cfg c call (.publish (some balance) charge)) := by
  constructor
  · intro d call' hd hkey
    rw [apply_calls] at hd
    rcases update_eq_some.mp hd with ⟨-, rfl⟩ | ⟨-, hd⟩
    · simp only [Call.Ok, hpc] at hok
      simp [Call.Failing, Effect.after, responseOf_status, hok.2.1, ChargeStatus.value]
    · exact hothers d call' hd hkey
  · intro e he fingerprint charge' hv
    exact absurd hv (hnone e he fingerprint charge')

lemma succeededRows_of_does (hok : call.Ok cfg) (h : Does cfg s c call eff)
    (hrows : succeededRows key (s.apply cfg c call eff).charges ≠ []) :
    succeededRows key s.charges ≠ [] ∨ call.key = key ∧ ∃ balance charge,
      call.pc = .commit balance charge ∧ eff = .publish (some balance) charge := by
  cases h with
  | @commits balance charge hpc =>
    simp only [Call.Ok, hpc] at hok
    rw [apply_charges, succeededRows_append] at hrows
    by_cases hkey : charge.idempotencyKey = key ∧ charge.status = .succeeded
    · exact .inr ⟨hok.1.key.symm.trans hkey.1, balance, charge, hpc, rfl⟩
    · rw [if_neg hkey, List.append_nil] at hrows
      exact .inl hrows
  | @commitsFailure charge hpc =>
    simp only [Call.Ok, hpc] at hok
    rw [apply_charges, succeededRows_append, if_neg (by simp [hok.2]), List.append_nil] at hrows
    exact .inl hrows
  | _ => exact .inl hrows

theorem keyInv_step {a : Action} (hr : RecordInv cfg s) (hb : BooksInv cfg s)
    (hi : succeededRows key s.charges ≠ [] → KeyInv cfg key s) (hg : Payable cfg key s a)
    (h : step cfg s a = some t) (hrows : succeededRows key t.charges ≠ []) :
    KeyInv cfg key t := by
  cases took_of_step h with
  | start _ =>
    obtain ⟨hcalls, hrecord⟩ := hi hrows
    refine ⟨fun d call' hd hkey => ?_, hrecord⟩
    rcases update_eq_some.mp hd with ⟨-, rfl⟩ | ⟨-, hd⟩
    · exact id
    · exact hcalls d call' hd hkey
  | @op c call eff hc hdoes =>
    have hok := (hb.started c call hc).ok
    by_cases hbefore : succeededRows key s.charges ≠ []
    · refine keyInv_of_does hr hb (hi hbefore) hc (fun hkey => ?_) hdoes
      obtain ⟨hpay, hname⟩ := (hg call hc hkey).2 hbefore
      exact failing_of_does hok ((hi hbefore).calls c call hc hkey) hpay
        (fun u balance hpc => hkey ▸ hname u balance hpc) hdoes
    · obtain ⟨hkey, balance, charge, hpc, rfl⟩ :=
        (succeededRows_of_does hok hdoes hrows).resolve_left hbefore
      obtain ⟨hnone, hothers⟩ := (hg call hc hkey).1 balance charge hpc
      exact keyInv_of_commit hok hpc hnone hothers
  | @stop _ c call eff hc _ hs =>
    have hbefore : succeededRows key s.charges ≠ [] := by cases hs <;> exact hrows
    obtain ⟨hcalls, hrecord⟩ := hi hbefore
    refine ⟨fun d call' hd hkey => ?_, by cases hs <;> exact hrecord⟩
    rw [apply_calls] at hd
    rcases update_eq_some.mp hd with ⟨-, rfl⟩ | ⟨-, hd⟩
    · exact failing_of_stops hs _
    · exact hcalls d call' hd hkey
  | tick k =>
    obtain ⟨hcalls, hrecord⟩ := hi hrows
    refine ⟨hcalls, fun e he => hrecord e ?_⟩
    obtain ⟨hstore, hnow⟩ := live_eq_some.mp he
    exact live_eq_some.mpr ⟨hstore, (Nat.le_add_right _ k).trans hnow⟩

lemma replays_succeeded {response : Fields} (hb : BooksInv cfg s)
    (hu : ∀ key, (succeededRows key s.charges).length ≤ 1)
    (hi : i ∈ succeededRows call.key s.charges) (hk : KeyInv cfg call.key s)
    (hl : Looked cfg s call (.returned response)) :
    response = dictSet (responseOf cfg i.row) "idempotent_replayed" (.bool true) := by
  cases hl with
  | @replays e d call' original hrec _ hd hkey _ hresp hv _ =>
    have hbooked := (hb.started d call' hd).booked
    simp only [Call.Booked, hresp] at hbooked
    obtain ⟨charge, hrow, rfl, hfor⟩ := hbooked
    have hstatus : charge.status = .succeeded := hk.record e hrec _ charge hv
    have hmem : (⟨d, charge⟩ : Inserted) ∈ rowsBy d s.charges := by simp [hrow]
    have hsucc : (⟨d, charge⟩ : Inserted) ∈ succeededRows call.key s.charges :=
      mem_succeededRows.mpr ⟨(mem_rowsBy.mp hmem).1, hfor.key.trans hkey, hstatus⟩
    rw [← eq_of_length_le_one (hu call.key) hsucc hi]

lemma late_of_does (hr : RecordInv cfg s) (hb : BooksInv cfg s)
    (hu : ∀ key, (succeededRows key s.charges).length ≤ 1)
    (hi : i ∈ succeededRows call.key s.charges) (hk : KeyInv cfg call.key s)
    (hl : call.Late cfg i) (hf : ¬ (eff.after cfg s.now call).Failing)
    (h : Does cfg s c call eff) : (eff.after cfg s.now call).Late cfg i := by
  cases h with
  | acquires hpc _ _ =>
    simp only [Call.Late, hpc] at hl
    simp only [Call.Late, Effect.after, firstPc]
    cases cfg.uuidOf call.data.customerId <;> exact hl
  | looksUp hpc =>
    simp only [Call.Late, hpc] at hl
    have hlooked := looked_of_lookup call hr hb
    simp only [Call.Late, Effect.after]
    cases ho : lookupOutcome (computeFingerprint cfg call.data)
      (s.cache.get s.now (cacheIdempotencyKey call.key)).2 with
    | returned response =>
      rw [ho] at hlooked
      exact ⟨hl, replays_succeeded hb hu hi hk hlooked⟩
    | raised e => exact hl
  | overdraws _ _ _ _ | mistakes _ _ _ => exact absurd trivial hf
  | inserts _ hfresh _ =>
    rw [hfresh] at hi
    cases hi
  | stops e hpc =>
    simp only [Call.Late] at hl
    cases hp : call.pc <;> simp only [hp, Pc.Charging] at hl hpc <;> exact hl
  | commits hpc | recordsFailure hpc | commitsFailure hpc | completes hpc =>
    simp only [Call.Late, hpc] at hl
  | refused hpc _ | wakes hpc _ | debits hpc _ _ _ | deletes hpc =>
    simp only [Call.Late, hpc] at hl
    exact hl

lemma Call.Late.response_none (h : call.Late cfg i) : call.response = none := by
  unfold Call.Late at h
  split at h
  · exact h.elim
  · exact h.elim
  · exact h.elim
  · exact h.elim
  · exact h.1
  · exact h

lemma late_of_stops (hl : call.Late cfg i) (h : Stops call eff) :
    (eff.after cfg s.now call).Late cfg i := by
  have hnone := hl.response_none
  cases h <;> exact hnone

theorem lateInv_step {a : Action} (hr : RecordInv cfg s) (hb : BooksInv cfg s)
    (hu : ∀ key, (succeededRows key s.charges).length ≤ 1)
    (hi : i ∈ succeededRows key s.charges) (hk : KeyInv cfg key s)
    (hl : LateInv cfg key i s₁ s) (hg : Payable cfg key s a) (h : step cfg s a = some t) :
    LateInv cfg key i s₁ t := by
  intro d call' hlate hd hkey
  cases took_of_step h with
  | start _ =>
    rcases update_eq_some.mp hd with ⟨_, rfl⟩ | ⟨_, hd⟩
    · exact rfl
    · exact hl d call' hlate hd hkey
  | @op c call eff hc hdoes =>
    rw [apply_calls] at hd
    rcases update_eq_some.mp hd with ⟨rfl, rfl⟩ | ⟨_, hd⟩
    · rw [after_key] at hkey
      subst hkey
      obtain ⟨hpay, hname⟩ := (hg call hc rfl).2 (List.ne_nil_of_mem hi)
      have hf := failing_of_does (hb.started _ call hc).ok (hk.calls _ call hc rfl) hpay hname hdoes
      exact late_of_does hr hb hu hi hk (hl _ call hlate hc rfl) hf hdoes
    · exact hl d call' hlate hd hkey
  | @stop _ c call eff hc _ hs =>
    rw [apply_calls] at hd
    rcases update_eq_some.mp hd with ⟨rfl, rfl⟩ | ⟨_, hd⟩
    · rw [after_key] at hkey
      exact late_of_stops (hl _ call hlate hc hkey) hs
    · exact hl d call' hlate hd hkey
  | tick _ => exact hl d call' hlate hd hkey

lemma keyInv_reach {s₀ : State} (h₀ : Opened s₀)
    (h : ReachVia (step cfg) (Payable cfg key) s₀ s) (hrows : succeededRows key s.charges ≠ []) :
    KeyInv cfg key s := by
  refine h.invariant_with (I := fun u => succeededRows key u.charges ≠ [] → KeyInv cfg key u)
    (J := Reach (step cfg) s₀) (fun _ hu => hu.reach) (fun hrows => ?_)
    (fun u a t hj hi hg ht => keyInv_step (recordInv_reach h₀ hj) (booksInv_reach h₀ hj) hi hg ht)
    hrows
  exact absurd (by rw [h₀.noCharges]; rfl) hrows

/-- Once a charge under a key has succeeded, a later call under the key inserts no row, leaves no
completed record, and returns nothing but a replay of the successful response. -/
theorem late_calls_replay (cfg : Config) {s₀ s₁ s₂ : State} (h₀ : Opened s₀) {key : String}
    (h₁ : ReachVia (step cfg) (Payable cfg key) s₀ s₁) {i : Inserted}
    (hi : i ∈ succeededRows key s₁.charges)
    (h₂ : ReachVia (step cfg) (Payable cfg key) s₁ s₂) {c : CallId} {call : Call}
    (hlate : s₁.calls c = none) (hc : s₂.calls c = some call) (hkey : call.key = key) :
    (∀ response, call.pc = .done (.returned response) →
      response = dictSet (responseOf cfg i.row) "idempotent_replayed" (.bool true)) ∧
    rowsBy c s₂.charges = [] ∧
    ∀ e, s₂.writer (cacheIdempotencyKey key) = some c →
      s₂.cache.store (cacheIdempotencyKey key) = some e →
      e.value = processingValue (computeFingerprint cfg call.data) := by
  have hreach : ∀ u, ReachVia (step cfg) (Payable cfg key) s₁ u → Reach (step cfg) s₀ u :=
    fun u hu => (h₁.trans hu).reach
  have hrow : ∀ u, ReachVia (step cfg) (Payable cfg key) s₁ u → i ∈ succeededRows key u.charges :=
    fun u hu => hu.invariant hi fun _ _ _ hi _ ht => succeededRows_step ht hi
  have hinv : LateInv cfg key i s₁ s₂ := by
    refine h₂.invariant_with (J := fun u => Reach (step cfg) s₀ u ∧
        i ∈ succeededRows key u.charges ∧ KeyInv cfg key u)
      (fun u hu => ⟨hreach u hu, hrow u hu,
        keyInv_reach h₀ (h₁.trans hu) (List.ne_nil_of_mem (hrow u hu))⟩)
      (fun d call' hlate hd _ => ?_)
      fun u a t hj hl hg ht => lateInv_step (recordInv_reach h₀ hj.1) (booksInv_reach h₀ hj.1)
        (ledgerInv_reach h₀ hj.1).unique hj.2.1 hj.2.2 hl hg ht
    rw [hlate] at hd
    cases hd
  have hl := hinv c call hlate hc hkey
  have hbooked := ((booksInv_reach h₀ (hreach s₂ h₂)).started c call hc).booked
  simp only [Call.Booked, hl.response_none] at hbooked
  refine ⟨fun response hpc => ?_, hbooked, fun e hw he => ?_⟩
  · simp only [Call.Late, hpc] at hl
    exact hl.2
  · obtain ⟨_, d, call', hw', hd, _, hwrote⟩ := recordInv_reach h₀ (hreach s₂ h₂) key e he
    rw [hw, Option.some.injEq] at hw'
    subst hw'
    rw [hc, Option.some.injEq] at hd
    subst hd
    rcases hwrote with hv | ⟨response, hresp, _⟩
    · exact hv
    · rw [hl.response_none] at hresp
      cases hresp

lemma payable_of_pc (pc : Pc) (hpc : (s.calls c).map Call.pc = some pc)
    (hcommit : ∀ balance charge, pc ≠ .commit balance charge) (hupdate : ∀ u, pc ≠ .update u)
    (hinsert : ∀ u balance, pc ≠ .insert u balance) : Payable cfg key s (.op c) := by
  intro call hc _
  rw [hc, Option.map_some, Option.some.injEq] at hpc
  exact ⟨fun balance charge he => absurd (hpc ▸ he) (hcommit balance charge), fun _ =>
    ⟨fun u _ he => absurd (hpc ▸ he) (hupdate u), fun u balance he =>
      absurd (hpc ▸ he) (hinsert u balance)⟩⟩

lemma payable_of_fresh (pc : Pc) (hpc : (s.calls c).map Call.pc = some pc)
    (hcommit : ∀ balance charge, pc ≠ .commit balance charge)
    (hrows : succeededRows key s.charges = []) : Payable cfg key s (.op c) := by
  intro call hc _
  rw [hc, Option.map_some, Option.some.injEq] at hpc
  exact ⟨fun balance charge he => absurd (hpc ▸ he) (hcommit balance charge),
    fun hne => absurd hrows hne⟩

lemma payable_of_processing {e : Entry Json} {fingerprint : String} (hrec : s.record key = some e)
    (hv : e.value = processingValue fingerprint)
    (honly : ∀ d call, s.calls d = some call → ¬ call.Failing)
    (hrows : succeededRows key s.charges = []) : Payable cfg key s (.op c) := by
  refine fun _ _ _ => ⟨fun _ _ _ => ⟨fun e' hrec' fingerprint' charge => ?_,
    fun d call' hd _ => honly d call' hd⟩, fun hne => absurd hrows hne⟩
  rw [hrec, Option.some.injEq] at hrec'
  rw [← hrec', hv]
  exact processingValue_ne_completed _ _ _ _

lemma payable_of_update {u : Uuid} {amount balance : ℤ}
    (hpc : (s.calls c).map (fun call => (call.pc, call.data.amount)) = some (.update u, amount))
    (hrow : s.accounts u = some balance) (henough : amount ≤ balance) :
    Payable cfg key s (.op c) := by
  intro call hc _
  rw [hc, Option.map_some, Option.some.injEq, Prod.mk.injEq] at hpc
  obtain ⟨hpc, rfl⟩ := hpc
  rw [hpc]
  refine ⟨fun _ _ he => ?_, fun _ => ⟨fun v b hv _ hb => ?_, fun _ _ he => ?_⟩⟩
  · cases he
  · rw [Pc.update.injEq] at hv
    rw [← hv, hrow, Option.some.injEq] at hb
    exact hb ▸ henough
  · cases he

lemma payable_of_insert {u : Uuid} {balance : ℤ}
    (hpc : (s.calls c).map Call.pc = some (.insert u balance))
    (hname : ¬ Mentions key balanceCheckConstraint) : Payable cfg key s (.op c) := by
  intro call hc _
  rw [hc, Option.map_some, Option.some.injEq] at hpc
  rw [hpc]
  refine ⟨fun _ _ he => ?_, fun _ => ⟨fun _ _ he => ?_, fun _ _ _ => hname⟩⟩
  · cases he
  · cases he

lemma step_insert_taken {u : Uuid} {balance : ℤ} (hc : s.calls c = some call)
    (hpc : call.pc = .insert u balance) (htaken : succeededRows call.key s.charges ≠ [])
    (hname : ¬ Mentions call.key balanceCheckConstraint) :
    step cfg s (.op c) = some (s.apply cfg c call (.rollback (.release chargeExists))) := by
  simp [step, stepCall, hc, chargeWithIdempotency, hpc, chargeAccount, htaken,
    onIntegrityError_uniqueViolation, hname]

/-- Call 0 pays sixty under the key; then its record expires. -/
def paidOnce : List Action :=
  [.start 0 "k0" sixty, .op 0, .tick 2000, .op 0, .op 0, .op 0, .op 0, .op 0, .tick 61000]

def paidState (balance : ℤ) : State :=
  (exec (step demoConfig) (openedState .redis balance) paidOnce).getD (openedState .redis balance)

lemma sixtyCharge_mem : ⟨0, sixtyCharge⟩ ∈ succeededRows "k0" [⟨0, sixtyCharge⟩] := by
  simp [succeededRows, sixtyCharge, newCharge]

def paidAgain : List Action :=
  [.start 1 "k0" sixty, .op 1, .tick 2000, .op 1, .op 1, .op 1, .op 1]

lemma paidOnce_payable : ReachVia (step demoConfig) (Payable demoConfig "k0")
    (openedState .redis 200) (paidState 200) := by
  have hcommit : ∀ s, exec (step demoConfig) (openedState .redis 200) (paidOnce.take 6) = some s →
      Payable demoConfig "k0" s (.op 0) := by
    rintro s hs
    cases hs
    refine payable_of_processing rfl rfl (fun d call hd => ?_) rfl
    have hcalls : Function.update (Function.update (Function.update (Function.update
      (Function.update (fun _ => none) 0 _) 0 _) 0 _) 0 _) 0 _ d = some call := hd
    simp only [Function.update_idem] at hcalls
    rcases update_eq_some.mp hcalls with ⟨-, rfl⟩ | ⟨-, hnone⟩
    · exact id
    · cases hnone
  exact reachVia_of_exec paidOnce rfl <|
    .cons rfl trivial <| .cons rfl (payable_of_fresh .setnx rfl (by simp) rfl) <|
    .cons rfl trivial <| .cons rfl (payable_of_fresh (.sleep 1 2000) rfl (by simp) rfl) <|
    .cons rfl (payable_of_fresh (.update 1) rfl (by simp) rfl) <|
    .cons rfl (payable_of_fresh (.insert 1 140) rfl (by simp) rfl) <|
    .cons rfl (hcommit _ rfl) <|
    .cons rfl (payable_of_pc (.complete (responseOf demoConfig sixtyCharge)) rfl (by simp)
      (by simp) (by simp)) <|
    .cons rfl trivial trivial

/-- With 200 in the account, call 1 gets to the unique index and ends with a 409. -/
theorem late_calls_replay_paidAgain :
    ∃ s call, exec (step demoConfig) (paidState 200) paidAgain = some s ∧
      s.calls 1 = some call ∧ call.pc = .done (.raised chargeExists) ∧ rowsBy 1 s.charges = [] := by
  have hname : ¬ Mentions "k0" balanceCheckConstraint := by decide +kernel
  have htaken : succeededRows "k0" (paidState 200).charges ≠ [] :=
    List.ne_nil_of_mem sixtyCharge_mem
  have hguard : Guarded (step demoConfig) (Payable demoConfig "k0") (paidState 200) paidAgain :=
    .cons rfl trivial <| .cons rfl (payable_of_pc .setnx rfl (by simp) (by simp) (by simp)) <|
    .cons rfl trivial <|
    .cons rfl (payable_of_pc (.sleep 1 65000) rfl (by simp) (by simp) (by simp)) <|
    .cons rfl (payable_of_update rfl rfl (by decide)) <|
    .cons (step_insert_taken rfl rfl htaken hname) (payable_of_insert rfl hname) <|
    .cons rfl (payable_of_pc (.release chargeExists) rfl (by simp) (by simp) (by simp)) trivial
  obtain ⟨t, ht, call, hc, hpc, hkey, hrows⟩ :
      ∃ t, exec (step demoConfig) (paidState 200) (paidAgain.take 5) = some t ∧
        ∃ call, t.calls 1 = some call ∧ call.pc = .insert 1 80 ∧ call.key = "k0" ∧
          succeededRows "k0" t.charges ≠ [] := ⟨_, rfl, _, rfl, rfl, rfl, htaken⟩
  have hrefused := @step_insert_taken demoConfig _ _ _ _ _ hc hpc (hkey ▸ hrows) (hkey ▸ hname)
  obtain ⟨s, hlast, hended⟩ : ∃ s, exec (step demoConfig) t [.op 1, .op 1] = some s ∧
      s.calls 1 = some { call with pc := .done (.raised chargeExists) } := by
    simp only [exec_cons, hrefused, Option.bind_some]
    exact ⟨_, rfl, rfl⟩
  have hs : exec (step demoConfig) (paidState 200) paidAgain = some s := by
    rw [show paidAgain = paidAgain.take 5 ++ [.op 1, .op 1] from rfl, exec_append, ht]
    exact hlast
  exact ⟨s, _, hs, hended, rfl, (late_calls_replay demoConfig
    (openedState_opened .redis (by decide)) paidOnce_payable sixtyCharge_mem
    (reachVia_of_exec _ hs hguard) rfl hended hkey).2.1⟩

def failedCharge : Charge :=
  newCharge demoConfig { openedState .redis 100 with now := 65000 } 1
    { key := "k0", data := sixty } 1 .failed (some "Insufficient balance")

/-- With 100 in the account, call 1 fails the check on the balance before it gets to the unique
index: it returns a failed payment, has inserted a row and caches the failure. -/
theorem late_call_fails :
    ∃ s call response,
      exec (step demoConfig) (openedState .redis 100) paidOnce = some (paidState 100) ∧
      exec (step demoConfig) (paidState 100) (paidAgain ++ [.op 1]) = some s ∧
      ⟨0, sixtyCharge⟩ ∈ succeededRows "k0" (paidState 100).charges ∧
      (paidState 100).calls 1 = none ∧ s.calls 1 = some call ∧
      call.pc = .done (.returned response) ∧
      dictGet response "status" = some (.str ChargeStatus.failed.value) ∧
      rowsBy 1 s.charges ≠ [] ∧ s.record "k0" = some ⟨completedValue .redis
        (computeFingerprint demoConfig sixty) response, 125000⟩ := by
  obtain ⟨s, hs, call, hc, hpc, hcharges, hrec⟩ :
      ∃ s, exec (step demoConfig) (paidState 100) (paidAgain ++ [.op 1]) = some s ∧
        ∃ call, s.calls 1 = some call ∧
          call.pc = .done (.returned (responseOf demoConfig failedCharge)) ∧
          s.charges = [⟨0, sixtyCharge⟩, ⟨1, failedCharge⟩] ∧
          s.record "k0" = some ⟨completedValue .redis (computeFingerprint demoConfig sixty)
            (responseOf demoConfig failedCharge), 125000⟩ := ⟨_, rfl, _, rfl, rfl, rfl, rfl⟩
  refine ⟨s, call, _, rfl, hs, sixtyCharge_mem, rfl, hc, hpc, ?_, ?_, hrec⟩
  · simp [responseOf_status, failedCharge, newCharge]
  · rw [hcharges]
    simp [rowsBy]

end AsyncDataHub.Payment
