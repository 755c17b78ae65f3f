import AsyncDataHub.PaymentLedger

/-! What can be in the cache under an idempotency key: the processing record or the completed
record of the call that wrote last, encoded as the backend stores it. -/
namespace AsyncDataHub.Payment
open StepSystem LockTable OwnedRows Cache PyJson ExpiringStore

variable {cfg : Config} {s t : State} {c d : CallId} {call : Call} {eff : Effect}

/-- What setnx has stored for a processing record, on either backend. -/
def processingValue (fingerprint : String) : Json :=
  .str (dumps (.str (processingRecord fingerprint)))

/-- What set stores for a text. -/
def setValue (backend : Backend) (text : String) : Json :=
  match backend with
  | .redis => .str (dumps (.str text))
  | _ => .str text

def completedValue (backend : Backend) (fingerprint : String) (response : Fields) : Json :=
  setValue backend (completedRecord fingerprint response)

def Call.Wrote (cfg : Config) (backend : Backend) (call : Call) (value : Json) : Prop :=
  value = processingValue (computeFingerprint cfg call.data) ∨
  ∃ response, call.response = some response ∧
    value = completedValue backend (computeFingerprint cfg call.data) response

/-- Every entry under an idempotency key is a record of its last writer, a call with that key. -/
def RecordInv (cfg : Config) (s : State) : Prop :=
  ∀ key e, s.cache.store (cacheIdempotencyKey key) = some e → s.cache.backend ≠ .disabled ∧
    ∃ d call, s.writer (cacheIdempotencyKey key) = some d ∧ s.calls d = some call ∧
      call.key = key ∧ call.Wrote cfg s.cache.backend e.value

lemma set_text_cases (cache : AsyncCache) (now : ℕ) (key text : String) (ttl : Option ℕ) :
    (cache.backend = .disabled ∧ cache.set now key (.str text) ttl = cache) ∨
    (cache.backend ≠ .disabled ∧ cache.set now key (.str text) ttl =
      cache.write now key (setValue cache.backend text) (cache.ttl ttl)) := by
  unfold AsyncCache.set setValue
  cases cache.backend <;> simp

/-- A call keeps its key, its arguments and the response it has obtained. -/
def Persists (s t : State) : Prop :=
  ∀ d call, s.calls d = some call → ∃ call', t.calls d = some call' ∧ call'.key = call.key ∧
    call'.data = call.data ∧ ∀ response, call.response = some response →
      call'.response = some response

lemma persists_apply (hc : s.calls c = some call)
    (hr : ∀ response, call.response = some response →
      (eff.after cfg s.now call).response = some response) :
    Persists s (s.apply cfg c call eff) := by
  intro d call' hd
  rw [apply_calls]
  by_cases hne : d = c
  · subst hne
    rw [hc, Option.some.injEq] at hd
    subst hd
    exact ⟨_, Function.update_self .., after_key .., after_data .., hr⟩
  · exact ⟨call', by rw [Function.update_of_ne hne, hd], rfl, rfl, fun _ h => h⟩

lemma response_of_does (hp : call.Progress) (h : Does cfg s c call eff) {response : Fields}
    (hr : call.response = some response) : (eff.after cfg s.now call).response = some response := by
  cases h with
  | commits hpc | commitsFailure hpc =>
    rw [progress_none_of_charging hp (by rw [hpc]; trivial)] at hr
    cases hr
  | _ => exact hr

lemma response_of_stops (h : Stops call eff) (now : ℕ) :
    (eff.after cfg now call).response = call.response := by cases h <;> rfl

theorem persists_step {a : Action} (h : step cfg s a = some t) (hb : BooksInv cfg s) :
    Persists s t := by
  cases took_of_step h with
  | start hfresh =>
    intro d call' hd
    have hne : d ≠ _ := fun he => by
      rw [he, hfresh] at hd
      cases hd
    exact ⟨call', by simp [State.setCall, Function.update_of_ne hne, hd], rfl, rfl, fun _ h => h⟩
  | op hc hd =>
    exact persists_apply hc fun _ hr => response_of_does (hb.started _ _ hc).progress hd hr
  | stop hc _ hs => exact persists_apply hc fun _ hr => (response_of_stops hs _).trans hr
  | tick _ => exact fun d call' hd => ⟨call', hd, rfl, rfl, fun _ h => h⟩

/-- What an effect leaves under an idempotency key: what was there, or a record of the call. -/
def Effect.Keeps (cfg : Config) (s : State) (c : CallId) (call : Call) (eff : Effect) : Prop :=
  (s.apply cfg c call eff).cache.backend = s.cache.backend ∧
  ∀ key e, (s.apply cfg c call eff).cache.store (cacheIdempotencyKey key) = some e →
    (s.cache.store (cacheIdempotencyKey key) = some e ∧
      (s.apply cfg c call eff).writer (cacheIdempotencyKey key) =
        s.writer (cacheIdempotencyKey key)) ∨
    (key = call.key ∧ s.cache.backend ≠ .disabled ∧
      (s.apply cfg c call eff).writer (cacheIdempotencyKey key) = some c ∧
      (eff.after cfg s.now call).Wrote cfg s.cache.backend e.value)

lemma store_write_cases {cache : AsyncCache} {now ttl : ℕ} {key key' : String} {value : Json}
    {e : Entry Json} (h : (cache.write now (cacheIdempotencyKey key') value ttl).store
      (cacheIdempotencyKey key) = some e) :
    (key ≠ key' ∧ cache.store (cacheIdempotencyKey key) = some e) ∨
      (key = key' ∧ e = ⟨value, now + ttl * 1000⟩) := by
  rw [write_store] at h
  by_cases hk : key = key'
  · subst hk
    rw [put_self, Option.some.injEq] at h
    exact .inr ⟨rfl, h.symm⟩
  · rw [put_of_ne _ (fun he => hk (cacheIdempotencyKey_injective he))] at h
    exact .inl ⟨hk, h⟩

lemma store_erase_cases {cache : AsyncCache} {key key' : String} {e : Entry Json}
    (h : erase cache.store (cacheIdempotencyKey key') (cacheIdempotencyKey key) = some e) :
    key ≠ key' ∧ cache.store (cacheIdempotencyKey key) = some e := by
  by_cases hk : key = key'
  · subst hk
    rw [erase_self] at h
    cases h
  · rw [erase_of_ne _ (fun he => hk (cacheIdempotencyKey_injective he))] at h
    exact ⟨hk, h⟩

lemma keeps_acquire {value : Json} {ttl : ℕ} {pc : Pc} (hb : s.cache.backend ≠ .disabled)
    (hv : value = processingValue (computeFingerprint cfg call.data)) :
    (Effect.acquire (s.cache.write s.now (cacheIdempotencyKey call.key) value ttl) pc).Keeps
      cfg s c call := by
  refine ⟨rfl, fun key e he => ?_⟩
  rcases store_write_cases he with ⟨hne, hold⟩ | ⟨rfl, rfl⟩
  · exact .inl ⟨hold, Function.update_of_ne
      (fun hk => hne (cacheIdempotencyKey_injective hk)) _ _⟩
  · exact .inr ⟨rfl, hb, Function.update_self .., .inl hv⟩

lemma keeps_overwrite {response : Fields} {ttl : Option ℕ} {pc : Pc} (hi : RecordInv cfg s)
    (hr : call.response = some response) :
    (Effect.overwrite (s.cache.set s.now (cacheIdempotencyKey call.key)
      (.str (completedRecord (computeFingerprint cfg call.data) response)) ttl) pc).Keeps
      cfg s c call := by
  refine ⟨set_backend _ _ _ _ _, fun key e he => ?_⟩
  rw [apply_cache] at he
  have hwriter (hne : key ≠ call.key) :
      Function.update s.writer (cacheIdempotencyKey call.key) (some c)
        (cacheIdempotencyKey key) = s.writer (cacheIdempotencyKey key) :=
    Function.update_of_ne (fun hk => hne (cacheIdempotencyKey_injective hk)) _ _
  rcases set_text_cases s.cache s.now (cacheIdempotencyKey call.key)
    (completedRecord (computeFingerprint cfg call.data) response) ttl with ⟨hb, hset⟩ | ⟨hb, hset⟩
  · rw [hset] at he
    exact absurd hb (hi key e he).1
  · rw [hset] at he
    rcases store_write_cases he with ⟨hne, hold⟩ | ⟨rfl, rfl⟩
    · exact .inl ⟨hold, hwriter hne⟩
    · exact .inr ⟨rfl, hb, Function.update_self .., .inr ⟨response, hr, rfl⟩⟩

lemma keeps_get {pc : Pc} :
    (Effect.setCache (s.cache.get s.now (cacheIdempotencyKey call.key)).1 pc).Keeps
      cfg s c call := by
  refine ⟨get_backend _ _ _, fun key e he => .inl ⟨?_, rfl⟩⟩
  rw [apply_cache] at he
  rcases get_cache s.cache s.now (cacheIdempotencyKey call.key) with hget | ⟨_, _, hget⟩
  · rwa [hget] at he
  · rw [hget] at he
    exact (store_erase_cases he).2

lemma keeps_of_does (hi : RecordInv cfg s) (hp : call.Progress) (h : Does cfg s c call eff) :
    eff.Keeps cfg s c call := by
  cases h with
  | acquires _ hb _ => exact keeps_acquire hb rfl
  | looksUp _ => exact keeps_get
  | deletes _ => exact ⟨rfl, fun key e he => .inl ⟨(store_erase_cases he).2, rfl⟩⟩
  | completes hpc =>
    simp only [Call.Progress, hpc] at hp
    exact keeps_overwrite hi hp
  | _ => exact ⟨rfl, fun key e he => .inl ⟨he, rfl⟩⟩

lemma keeps_of_stops (h : Stops call eff) : eff.Keeps cfg s c call := by
  cases h <;> exact ⟨rfl, fun key e he => .inl ⟨he, rfl⟩⟩

lemma Call.Wrote.mono {backend : Backend} {call' : Call} {value : Json}
    (h : call.Wrote cfg backend value) (hd : call'.data = call.data)
    (hr : ∀ response, call.response = some response → call'.response = some response) :
    call'.Wrote cfg backend value := by
  rcases h with h | ⟨response, hresp, h⟩
  · exact .inl (hd ▸ h)
  · exact .inr ⟨response, hr _ hresp, hd ▸ h⟩

lemma recordInv_apply (hi : RecordInv cfg s) (hp : Persists s (s.apply cfg c call eff))
    (hk : eff.Keeps cfg s c call) : RecordInv cfg (s.apply cfg c call eff) := by
  obtain ⟨hb, hk⟩ := hk
  intro key e he
  rw [hb]
  rcases hk key e he with ⟨hold, hw⟩ | ⟨rfl, hen, hw, hwrote⟩
  · obtain ⟨hen, d, call', hwriter, hd, hkey, hwrote⟩ := hi key e hold
    obtain ⟨call'', hd', hkey', hdata, hresp⟩ := hp d call' hd
    exact ⟨hen, d, call'', hw.trans hwriter, hd', hkey'.trans hkey, hwrote.mono hdata hresp⟩
  · exact ⟨hen, c, _, hw, by rw [apply_calls, Function.update_self], after_key .., hwrote⟩

theorem recordInv_step {a : Action} (h : step cfg s a = some t) (hb : BooksInv cfg s)
    (hi : RecordInv cfg s) : RecordInv cfg t := by
  have hp := persists_step h hb
  cases took_of_step h with
  | start _ =>
    intro key e he
    obtain ⟨hen, d, call', hwriter, hd, hkey, hwrote⟩ := hi key e he
    obtain ⟨call'', hd', hkey', hdata, hresp⟩ := hp d call' hd
    exact ⟨hen, d, call'', hwriter, hd', hkey'.trans hkey, hwrote.mono hdata hresp⟩
  | op hc hd =>
    exact recordInv_apply hi hp (keeps_of_does hi (hb.started _ _ hc).progress hd)
  | stop _ _ hs => exact recordInv_apply hi hp (keeps_of_stops hs)
  | tick _ => exact hi

theorem recordInv_reach {s₀ : State} (h₀ : Opened s₀) (h : Reach (step cfg) s₀ s) :
    RecordInv cfg s := by
  refine h.invariant_with (fun _ hu => booksInv_reach h₀ hu) (fun key e he => ?_)
    fun _ _ _ hb hi _ ht => recordInv_step ht hb hi
  rw [h₀.noRecords key] at he
  cases he

end AsyncDataHub.Payment
