import AsyncDataHub.PaymentRecord

/-! What a refused call makes of the record it finds: the decoding of each record on each backend,
the outcomes that follow from it, and where a replayed response comes from. -/
namespace AsyncDataHub.Payment
open StepSystem LockTable OwnedRows Cache PyJson ExpiringStore

variable {cfg : Config} {s t : State} {c d : CallId} {call : Call}

lemma processingFields_valid (fingerprint : String) :
    (Json.obj (processingFields fingerprint)).Valid := by
  simp [Json.Valid, MembersValid, processingFields]

lemma responseOf_valid (cfg : Config) (charge : Charge) :
    (Json.obj (responseOf cfg charge)).Valid := by
  cases hm : charge.errorMessage <;>
    simp [Json.Valid, MembersValid, responseOf, PaymentResponse.modelDump, modelValidate, hm]

lemma completedFields_valid (fingerprint : String) {response : Fields}
    (h : (Json.obj response).Valid) : (Json.obj (completedFields fingerprint response)).Valid := by
  simp only [Json.Valid] at h
  simp [Json.Valid, MembersValid, completedFields, h]

lemma loads_processingRecord (fingerprint : String) :
    loads (processingRecord fingerprint) = some (.obj (processingFields fingerprint)) :=
  loads_dumps (processingFields_valid fingerprint)

lemma loads_completedRecord (fingerprint : String) {response : Fields}
    (h : (Json.obj response).Valid) : loads (completedRecord fingerprint response) =
      some (.obj (completedFields fingerprint response)) :=
  loads_dumps (completedFields_valid fingerprint h)

lemma ne_empty_of_loads {text : String} {j : Json} (h : loads text = some j) : text ≠ "" := by
  rintro rfl
  cases h

lemma handleExisting_str {fingerprint text : String} {fields : Fields}
    (h : loads text = some (.obj fields)) :
    handleExisting fingerprint (some (.str text)) = replayRecord fingerprint fields := by
  simp [handleExisting, falsy, ne_empty_of_loads h, decodeRecord, h, Except.bind]

lemma handleExisting_processing (fingerprint fingerprint' : String) :
    handleExisting fingerprint (some (.str (processingRecord fingerprint'))) =
      .error (if fingerprint' = fingerprint then stillProcessing else payloadConflict) := by
  rw [handleExisting_str (loads_processingRecord fingerprint')]
  split_ifs with h <;>
    simp [replayRecord, processingFields, isText, h]

lemma handleExisting_completed (fingerprint fingerprint' : String) {response : Fields}
    (hr : (Json.obj response).Valid) :
    handleExisting fingerprint (some (.str (completedRecord fingerprint' response))) =
      if fingerprint' = fingerprint then
        .ok (dictSet response "idempotent_replayed" (.bool true))
      else .error payloadConflict := by
  rw [handleExisting_str (loads_completedRecord fingerprint' hr)]
  split_ifs with h <;>
    simp [replayRecord, completedFields, isText, h, PaymentRequestProcessingStatus.value]

def notADictionary : PyError := .attributeError "'str' object has no attribute 'get'"

/-- The value of setnx has one encoding more than `_handle_existing` takes off. -/
lemma handleExisting_encoded (fingerprint fingerprint' : String) :
    handleExisting fingerprint (some (processingValue fingerprint')) = .error notADictionary := by
  have hl : loads (dumps (.str (processingRecord fingerprint'))) =
      some (.str (processingRecord fingerprint')) := loads_dumps (by simp [Json.Valid])
  simp [handleExisting, processingValue, falsy, ne_empty_of_loads hl, decodeRecord, hl,
    Except.bind, typeName, notADictionary]

lemma lookupOutcome_encoded (fingerprint fingerprint' : String) :
    lookupOutcome fingerprint (.ok (some (processingValue fingerprint'))) =
      .raised notADictionary := by
  simp [lookupOutcome, Except.bind, handleExisting_encoded]

lemma processingValue_ne_text (fingerprint : String) {text : String} {fields : Fields}
    (h : loads text = some (.obj fields)) : Json.str text ≠ processingValue fingerprint := by
  intro he
  rw [processingValue, Json.str.injEq] at he
  rw [he, loads_dumps (by simp [Json.Valid])] at h
  cases h

def State.record (s : State) (key : String) : Option (Entry Json) :=
  live s.cache.store s.now (cacheIdempotencyKey key)

/-- What the lookup of a refused call can come to, with the record that decides it. -/
inductive Looked (cfg : Config) (s : State) (call : Call) : Outcome → Prop
  | vanished (gone : s.record call.key = none) : Looked cfg s call (.raised pleaseRetry)
  | mixesUp {e : Entry Json} {fingerprint : String} (found : s.record call.key = some e)
      (processing : e.value = processingValue fingerprint) (memory : s.cache.backend = .memory) :
      Looked cfg s call (.raised notADictionary)
  | waits {e : Entry Json} (found : s.record call.key = some e)
      (processing : e.value = processingValue (computeFingerprint cfg call.data))
      (redis : s.cache.backend ≠ .memory) : Looked cfg s call (.raised stillProcessing)
  | conflicts {e : Entry Json} (found : s.record call.key = some e)
      (decoded : s.cache.backend = .memory → ∀ fingerprint, e.value ≠ processingValue fingerprint) :
      Looked cfg s call (.raised payloadConflict)
  | replays {e : Entry Json} {d : CallId} {call' : Call} {response : Fields}
      (found : s.record call.key = some e)
      (writer : s.writer (cacheIdempotencyKey call.key) = some d) (running : s.calls d = some call')
      (key : call'.key = call.key)
      (fingerprint : computeFingerprint cfg call'.data = computeFingerprint cfg call.data)
      (obtained : call'.response = some response)
      (completed : e.value =
        completedValue s.cache.backend (computeFingerprint cfg call.data) response)
      (decoded : s.cache.backend = .memory → ∀ fingerprint, e.value ≠ processingValue fingerprint) :
      Looked cfg s call (.returned (dictSet response "idempotent_replayed" (.bool true)))

lemma get_setValue {cache : AsyncCache} {now : ℕ} {key text : String} {e : Entry Json}
    (hb : cache.backend ≠ .disabled) (he : live cache.store now key = some e)
    (hv : e.value = setValue cache.backend text) :
    (cache.get now key).2 = .ok (some (.str text)) := by
  have hl : loads (dumps (.str text)) = some (.str text) := loads_dumps (by simp [Json.Valid])
  cases hbackend : cache.backend with
  | redis => simp [AsyncCache.get, hbackend, he, hv, setValue, hl]
  | memory => simp [AsyncCache.get, hbackend, he, hv, setValue]
  | disabled => exact absurd hbackend hb

lemma get_processingValue {cache : AsyncCache} {now : ℕ} {key fingerprint : String}
    {e : Entry Json} (hb : cache.backend ≠ .disabled) (he : live cache.store now key = some e)
    (hv : e.value = processingValue fingerprint) :
    (cache.get now key).2 = .ok (some (if cache.backend = .memory then processingValue fingerprint
      else .str (processingRecord fingerprint))) := by
  by_cases hm : cache.backend = .memory
  · simp [AsyncCache.get, hm, he, hv]
  · rw [if_neg hm]
    refine get_setValue hb he (hv.trans ?_)
    cases hbackend : cache.backend with
    | redis => rfl
    | memory => exact absurd hbackend hm
    | disabled => exact absurd hbackend hb

lemma get_none {cache : AsyncCache} {now : ℕ} {key : String}
    (he : live cache.store now key = none) : (cache.get now key).2 = .ok none := by
  cases hb : cache.backend <;> simp [AsyncCache.get, hb, he]

theorem looked_of_lookup (call : Call) (hi : RecordInv cfg s) (hb : BooksInv cfg s) :
    Looked cfg s call (lookupOutcome (computeFingerprint cfg call.data)
      (s.cache.get s.now (cacheIdempotencyKey call.key)).2) := by
  cases hrec : s.record call.key with
  | none =>
    rw [get_none hrec]
    exact .vanished hrec
  | some e =>
    obtain ⟨hen, d, call', hw, hd, hkey, hwrote⟩ := hi call.key e (live_eq_some.mp hrec).1
    rcases hwrote with hv | ⟨response, hresp, hv⟩
    · rw [get_processingValue hen hrec hv]
      split_ifs with hm
      · simp only [lookupOutcome, Except.bind, handleExisting_encoded]
        exact .mixesUp hrec hv hm
      · simp only [lookupOutcome, Except.bind, handleExisting_processing]
        split_ifs with hf
        · exact .waits hrec (hf ▸ hv) hm
        · exact .conflicts hrec fun h => absurd h hm
    · have hbooked := (hb.started d call' hd).booked
      simp only [Call.Booked, hresp] at hbooked
      obtain ⟨charge, _, rfl, _⟩ := hbooked
      have hvalid := responseOf_valid cfg charge
      have hdecoded : s.cache.backend = .memory →
          ∀ fingerprint, e.value ≠ processingValue fingerprint := by
        intro hm fingerprint
        have hne := processingValue_ne_text fingerprint
          (loads_completedRecord (computeFingerprint cfg call'.data) hvalid)
        simpa only [hv, completedValue, setValue, hm] using hne
      rw [get_setValue hen hrec hv]
      simp only [lookupOutcome, Except.bind, handleExisting_completed _ _ hvalid]
      split_ifs with hf
      · exact .replays hrec hw hd hkey hf hresp (hf ▸ hv) hdecoded
      · exact .conflicts hrec hdecoded

/-- A 409 of `_handle_existing`, or a replay. -/
inductive Designed : Outcome → Prop
  | pleaseRetry : Designed (.raised pleaseRetry)
  | payloadConflict : Designed (.raised payloadConflict)
  | stillProcessing : Designed (.raised stillProcessing)
  | replayed {response : Fields}
      (flag : dictGet response "idempotent_replayed" = some (.bool true)) :
      Designed (.returned response)

/-- The dictionary in memory holds a processing record that has not expired. -/
def ProcessingInMemory (s : State) (key : String) : Prop :=
  s.cache.backend = .memory ∧
    ∃ e fingerprint, s.record key = some e ∧ e.value = processingValue fingerprint

lemma not_processingInMemory {e : Entry Json} {key : String} (hrec : s.record key = some e)
    (hdec : s.cache.backend = .memory → ∀ fingerprint, e.value ≠ processingValue fingerprint) :
    ¬ ProcessingInMemory s key := by
  rintro ⟨hm, e', fingerprint, hrec', hv⟩
  rw [hrec, Option.some.injEq] at hrec'
  exact hdec hm fingerprint (hrec' ▸ hv)

lemma designed_iff_of_looked {o : Outcome} (h : Looked cfg s call o) :
    Designed o ↔ ¬ ProcessingInMemory s call.key := by
  cases h with
  | vanished hgone =>
    refine iff_of_true .pleaseRetry ?_
    rintro ⟨_, e, _, hrec, _⟩
    rw [hgone] at hrec
    cases hrec
  | mixesUp hrec hv hm =>
    refine iff_of_false ?_ (not_not.mpr ⟨hm, _, _, hrec, hv⟩)
    rintro ⟨⟩
  | waits hrec _ hm => exact iff_of_true .stillProcessing fun hp => hm hp.1
  | conflicts hrec hdec => exact iff_of_true .payloadConflict (not_processingInMemory hrec hdec)
  | replays hrec _ _ _ _ _ _ hdec =>
    exact iff_of_true (.replayed (dictGet_dictSet_self _ _ _)) (not_processingInMemory hrec hdec)

lemma step_lookup (hc : s.calls c = some call) (hpc : call.pc = .lookup) :
    step cfg s (.op c) = some (s.apply cfg c call (.setCache
      (s.cache.get s.now (cacheIdempotencyKey call.key)).1
      (.done (lookupOutcome (computeFingerprint cfg call.data)
        (s.cache.get s.now (cacheIdempotencyKey call.key)).2)))) := by
  simp [step, stepCall, hc, chargeWithIdempotency, hpc]

/-- In every reachable state, a call that was refused the key ends with its next statement, and in
one of the designed outcomes exactly if the dictionary in memory holds no processing record. -/
theorem refused_designed_iff (cfg : Config) {s₀ s : State} (h₀ : Opened s₀)
    (h : Reach (step cfg) s₀ s) {c : CallId} {call : Call} (hc : s.calls c = some call)
    (hpc : call.pc = .lookup) :
    ∃ t o, step cfg s (.op c) = some t ∧ t.calls c = some { call with pc := .done o } ∧
      (Designed o ↔ ¬ ProcessingInMemory s call.key) := by
  have hlooked := looked_of_lookup call (recordInv_reach h₀ h) (booksInv_reach h₀ h)
  refine ⟨_, _, step_lookup hc hpc, ?_, designed_iff_of_looked hlooked⟩
  rw [apply_calls, Function.update_self]
  rfl

/-- Call 1 asks with the key that call 0 is still processing. -/
def askedTwice : List Action :=
  [.start 0 "k0" sixty, .start 1 "k0" sixty, .op 0, .op 1]

theorem refused_designed_iff_askedTwice :
    ∃ s t o, exec (step demoConfig) (openedState .redis 100) askedTwice = some s ∧
      step demoConfig s (.op 1) = some t ∧ (t.calls 1).map Call.pc = some (.done o) ∧
      (Designed o ↔ ¬ ProcessingInMemory s "k0") := by
  obtain ⟨s, hs, call, hc, hkey, hpc⟩ :
      ∃ s, exec (step demoConfig) (openedState .redis 100) askedTwice = some s ∧
        ∃ call, s.calls 1 = some call ∧ call.key = "k0" ∧ call.pc = .lookup :=
    ⟨_, rfl, _, rfl, rfl, rfl⟩
  obtain ⟨t, o, ht, htc, hiff⟩ :=
    refused_designed_iff demoConfig (openedState_opened .redis (by decide)) (reach_of_exec _ hs) hc
      hpc
  exact ⟨s, t, o, hs, ht, by rw [htc]; rfl, hkey ▸ hiff⟩

theorem askedTwice_inMemory_attributeError :
    ∃ s, exec (step demoConfig) (openedState .memory 100) (askedTwice ++ [.op 1]) = some s ∧
      (s.calls 1).map Call.pc = some (.done (.raised notADictionary)) ∧
      ¬ Designed (.raised notADictionary) := by
  obtain ⟨s, hs, hpc⟩ :
      ∃ s, exec (step demoConfig) (openedState .memory 100) (askedTwice ++ [.op 1]) = some s ∧
        (s.calls 1).map Call.pc = some (.done (lookupOutcome (computeFingerprint demoConfig sixty)
          (.ok (some (processingValue (computeFingerprint demoConfig sixty)))))) := ⟨_, rfl, rfl⟩
  rw [lookupOutcome_encoded] at hpc
  exact ⟨s, hs, hpc, by rintro ⟨⟩⟩

/-- No two payloads that the calls have sent have one digest. -/
def NoCollision (cfg : Config) (s : State) : Prop :=
  ∀ c d call call', s.calls c = some call → s.calls d = some call' →
    cfg.sha256 (serializedData call.data) = cfg.sha256 (serializedData call'.data) →
    serializedData call.data = serializedData call'.data

lemma sortKeys_payload (data : CreatePaymentRequest) :
    sortKeys (.obj (payload data)) =
      .obj [("amount", .int data.amount), ("customer_id", .str data.customerId)] := by
  simp [sortKeys, payload, sortMembers, List.mergeSort]

/-- The serialisation is injective, whatever characters are in the customer id. -/
theorem serializedData_injective {data data' : CreatePaymentRequest}
    (h : serializedData data = serializedData data') :
    data.customerId = data'.customerId ∧ data.amount = data'.amount := by
  have hvalid (data : CreatePaymentRequest) : (sortKeys (.obj (payload data))).Valid := by
    rw [sortKeys_payload]
    simp [Json.Valid, MembersValid]
  have hsorted := sortKeys_eq_of_dumpsSorted_eq (hvalid data) (hvalid data') h
  rw [sortKeys_payload, sortKeys_payload] at hsorted
  simpa [and_comm] using hsorted

/-- The response is a copy of one that another call with the same key and fingerprint has obtained
from `charge_account`. -/
def Sourced (cfg : Config) (s : State) (c : CallId) (call : Call) (response : Fields) : Prop :=
  ∃ d call' original, d ≠ c ∧ s.calls d = some call' ∧ call'.key = call.key ∧
    computeFingerprint cfg call'.data = computeFingerprint cfg call.data ∧
    call'.response = some original ∧
    response = dictSet original "idempotent_replayed" (.bool true)

def SourceInv (cfg : Config) (s : State) : Prop :=
  ∀ c call response, s.calls c = some call → call.pc = .done (.returned response) →
    call.response = some response ∨ Sourced cfg s c call response

lemma Sourced.mono {response : Fields} (h : Sourced cfg s c call response) (hp : Persists s t) :
    Sourced cfg t c call response := by
  obtain ⟨d, call', original, hne, hd, hkey, hf, hresp, rfl⟩ := h
  obtain ⟨call'', hd', hkey', hdata', hresp'⟩ := hp d call' hd
  exact ⟨d, call'', original, hne, hd', hkey'.trans hkey, hdata' ▸ hf, hresp' _ hresp, rfl⟩

lemma sourced_of_looked {response : Fields} (hl : Looked cfg s call (.returned response))
    (hc : s.calls c = some call) (hnone : call.response = none) :
    Sourced cfg s c call response := by
  cases hl with
  | @replays e d call' original hrec hw hd hkey hf hresp hv hdec =>
    refine ⟨d, call', original, ?_, hd, hkey, hf, hresp, rfl⟩
    rintro rfl
    rw [hc, Option.some.injEq] at hd
    rw [← hd, hnone] at hresp
    cases hresp

lemma firstPc_ne_done (now : ℕ) (data : CreatePaymentRequest) (o : Outcome) :
    firstPc cfg now data ≠ .done o := by
  unfold firstPc
  split <;> simp

lemma returns_of_does {eff : Effect} {response : Fields} (hi : RecordInv cfg s)
    (hb : BooksInv cfg s) (hc : s.calls c = some call) (h : Does cfg s c call eff)
    (hr : (eff.after cfg s.now call).pc = .done (.returned response)) :
    (eff.after cfg s.now call).response = some response ∨ Sourced cfg s c call response := by
  have hp := (hb.started c call hc).progress
  cases h with
  | acquires _ _ _ => exact absurd hr (firstPc_ne_done _ _ _)
  | looksUp hpc =>
    simp only [Call.Progress, hpc] at hp
    have hl := looked_of_lookup call hi hb
    simp only [Effect.after, Pc.done.injEq] at hr
    rw [hr] at hl
    exact .inr (sourced_of_looked hl hc hp)
  | completes hpc =>
    simp only [Call.Progress, hpc] at hp
    cases hr
    exact .inl hp
  | _ => cases hr

theorem sourceInv_step {a : Action} (h : step cfg s a = some t) (hb : BooksInv cfg s)
    (hr : RecordInv cfg s) (hi : SourceInv cfg s) : SourceInv cfg t := by
  have hp := persists_step h hb
  intro d call' response hd hpc
  have hold (hd : s.calls d = some call') :
      call'.response = some response ∨ Sourced cfg t d call' response :=
    (hi d call' response hd hpc).imp id fun hs => hs.mono hp
  cases took_of_step h with
  | start _ =>
    rcases update_eq_some.mp hd with ⟨_, rfl⟩ | ⟨_, hd⟩
    · cases hpc
    · exact hold hd
  | @op c call eff hc hdoes =>
    rw [apply_calls] at hd
    rcases update_eq_some.mp hd with ⟨rfl, rfl⟩ | ⟨_, hd⟩
    · refine (returns_of_does hr hb hc hdoes hpc).imp id fun hs => ?_
      obtain ⟨e, call'', original, hne, he, hkey, hf, hresp, rfl⟩ := hs.mono hp
      exact ⟨e, call'', original, hne, he, by simpa using hkey, by simpa using hf, hresp, rfl⟩
    · exact hold hd
  | stop _ _ hs =>
    rw [apply_calls] at hd
    rcases update_eq_some.mp hd with ⟨_, rfl⟩ | ⟨_, hd⟩
    · cases hs <;> cases hpc
    · exact hold hd
  | tick _ => exact hold hd

theorem sourceInv_reach {s₀ : State} (h₀ : Opened s₀) (h : Reach (step cfg) s₀ s) :
    SourceInv cfg s := by
  refine h.invariant_with (J := fun s => BooksInv cfg s ∧ RecordInv cfg s)
    (fun _ hu => ⟨booksInv_reach h₀ hu, recordInv_reach h₀ hu⟩) (fun c call _ hc => ?_)
    fun _ _ _ hj hi _ ht => sourceInv_step ht hj.1 hj.2 hi
  rw [h₀.idle c] at hc
  cases hc

lemma responseOf_flag (cfg : Config) (charge : Charge) :
    dictGet (responseOf cfg charge) "idempotent_replayed" = some (.bool false) := by
  simp [responseOf, PaymentResponse.modelDump, modelValidate]

/-- A response with the replay flag is, apart from it, the one that another call with the same key
and the same payload has obtained. -/
theorem replayed_same_payload (cfg : Config) {s₀ s : State} (h₀ : Opened s₀)
    (h : Reach (step cfg) s₀ s) (hsha : NoCollision cfg s) {c : CallId} {call : Call}
    {response : Fields} (hc : s.calls c = some call) (hpc : call.pc = .done (.returned response))
    (hflag : dictGet response "idempotent_replayed" = some (.bool true)) :
    ∃ d call' original, d ≠ c ∧ s.calls d = some call' ∧ call'.key = call.key ∧
      call'.data.customerId = call.data.customerId ∧ call'.data.amount = call.data.amount ∧
      call'.response = some original ∧
      response = dictSet original "idempotent_replayed" (.bool true) := by
  rcases sourceInv_reach h₀ h c call response hc hpc with hown | hs
  · have hbooked := ((booksInv_reach h₀ h).started c call hc).booked
    simp only [Call.Booked, hown] at hbooked
    obtain ⟨charge, _, rfl, _⟩ := hbooked
    rw [responseOf_flag] at hflag
    cases hflag
  · obtain ⟨d, call', original, hne, hd, hkey, hf, hresp, rfl⟩ := hs
    obtain ⟨hcustomer, hamount⟩ := serializedData_injective (hsha d c call' call hd hc hf)
    exact ⟨d, call', original, hne, hd, hkey, hcustomer, hamount, hresp, rfl⟩

/-- Call 0 is done before call 1 asks with the same key and payload. -/
def askedAgain : List Action :=
  [.start 0 "k0" sixty, .op 0, .tick 2000, .op 0, .op 0, .op 0, .op 0, .op 0,
    .start 1 "k0" sixty, .op 1, .op 1]

def sixtyCharge : Charge :=
  newCharge demoConfig { openedState .memory 100 with now := 2000 } 0
    { key := "k0", data := sixty } 1 .succeeded none

theorem replayed_same_payload_askedAgain :
    ∃ s, exec (step demoConfig) (openedState .memory 100) askedAgain = some s ∧
      ∃ call, s.calls 1 = some call ∧ ∃ d call' original, d ≠ 1 ∧ s.calls d = some call' ∧
        call'.key = call.key ∧ call'.data.customerId = call.data.customerId ∧
        call'.data.amount = call.data.amount ∧ call'.response = some original ∧
        dictSet (responseOf demoConfig sixtyCharge) "idempotent_replayed" (.bool true) =
          dictSet original "idempotent_replayed" (.bool true) := by
  have hread (fingerprint : String) :
      lookupOutcome fingerprint (.ok (some (.str (completedRecord fingerprint
          (responseOf demoConfig sixtyCharge))))) =
        .returned (dictSet (responseOf demoConfig sixtyCharge) "idempotent_replayed"
          (.bool true)) := by
    simp [lookupOutcome, Except.bind, handleExisting_completed _ _ (responseOf_valid ..)]
  obtain ⟨s, hs, call, hc, hpc⟩ :
      ∃ s, exec (step demoConfig) (openedState .memory 100) askedAgain = some s ∧
        ∃ call, s.calls 1 = some call ∧ call.pc = .done (lookupOutcome
          (computeFingerprint demoConfig sixty) (.ok (some (.str (completedRecord
            (computeFingerprint demoConfig sixty) (responseOf demoConfig sixtyCharge)))))) :=
    ⟨_, rfl, _, rfl, rfl⟩
  rw [hread] at hpc
  have hsha : NoCollision demoConfig s := fun _ _ _ _ _ _ h =>
    (Equiv.swap sixtyText sixtyDigest).injective h
  exact ⟨s, hs, call, hc, replayed_same_payload demoConfig (openedState_opened .memory (by decide))
    (reach_of_exec _ hs) hsha hc hpc (dictGet_dictSet_self _ _ _)⟩

end AsyncDataHub.Payment
