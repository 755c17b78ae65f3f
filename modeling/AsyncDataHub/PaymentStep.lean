import AsyncDataHub.Payment

/-! What each statement of a payment can do, and what one step changes. All invariants of the
payments are derived from these inversions. -/
namespace AsyncDataHub.Payment
open StepSystem LockTable OwnedRows Cache PyJson ExpiringStore PyText

variable {cfg : Config} {s t : State} {c : CallId} {call : Call} {eff : Effect}

def Pc.Charging : Pc → Prop
  | .sleep _ _ | .update _ | .insert _ _ | .commit _ _ | .insertFailed _ | .commitFailed _ => True
  | _ => False

/-- The statements a call can send from where it stands, with everything the code has checked. -/
inductive Does (cfg : Config) (s : State) (c : CallId) (call : Call) : Effect → Prop
  | acquires (pc : call.pc = .setnx) (enabled : s.cache.backend ≠ .disabled)
      (free : live s.cache.store s.now (cacheIdempotencyKey call.key) = none) :
      Does cfg s c call (.acquire
        (s.cache.write s.now (cacheIdempotencyKey call.key)
          (.str (dumps (.str (processingRecord (computeFingerprint cfg call.data)))))
          processingRecordTtlSeconds)
        (firstPc cfg s.now call.data))
  | refused (pc : call.pc = .setnx)
      (taken : s.cache.backend = .disabled ∨
        ∃ e, live s.cache.store s.now (cacheIdempotencyKey call.key) = some e) :
      Does cfg s c call (.goto .lookup)
  | looksUp (pc : call.pc = .lookup) :
      Does cfg s c call (.setCache (s.cache.get s.now (cacheIdempotencyKey call.key)).1
        (.done (lookupOutcome (computeFingerprint cfg call.data)
          (s.cache.get s.now (cacheIdempotencyKey call.key)).2)))
  | wakes {u : Uuid} {wake : ℕ} (pc : call.pc = .sleep u wake) (elapsed : wake ≤ s.now) :
      Does cfg s c call (.goto (.update u))
  | stops (e : PyError) (pc : call.pc.Charging) : Does cfg s c call (.rollback (.release e))
  | overdraws {u : Uuid} {balance : ℤ} (pc : call.pc = .update u)
      (fits : call.data.amount ≤ maxInteger) (row : s.accounts u = some balance)
      (low : balance < call.data.amount) :
      Does cfg s c call (.rollback (.insertFailed u))
  | debits {u : Uuid} {balance : ℤ} (pc : call.pc = .update u) (row : s.accounts u = some balance)
      (enough : call.data.amount ≤ balance) (lock : Available s.accountLock u c) :
      Does cfg s c call (.lockAccount u (.insert u (balance - call.data.amount)))
  | mistakes {u : Uuid} {balance : ℤ} (pc : call.pc = .insert u balance)
      (taken : succeededRows call.key s.charges ≠ [])
      (named : Mentions call.key balanceCheckConstraint) :
      Does cfg s c call (.rollback (.insertFailed u))
  | inserts {u : Uuid} {balance : ℤ} (pc : call.pc = .insert u balance)
      (fresh : succeededRows call.key s.charges = []) (lock : Available s.indexLock call.key c) :
      Does cfg s c call (.lockIndex (.commit balance (newCharge cfg s c call u .succeeded none)))
  | commits {balance : ℤ} {charge : Charge} (pc : call.pc = .commit balance charge) :
      Does cfg s c call (.publish (some balance) charge)
  | recordsFailure {u : Uuid} (pc : call.pc = .insertFailed u) :
      Does cfg s c call (.goto (.commitFailed
        (newCharge cfg s c call u .failed (some "Insufficient balance"))))
  | commitsFailure {charge : Charge} (pc : call.pc = .commitFailed charge) :
      Does cfg s c call (.publish none charge)
  | deletes {e : PyError} (pc : call.pc = .release e) :
      Does cfg s c call (.setCache (s.cache.delete (cacheIdempotencyKey call.key))
        (.done (.raised e)))
  | completes {response : Fields} (pc : call.pc = .complete response) :
      Does cfg s c call (.overwrite (s.cache.set s.now (cacheIdempotencyKey call.key)
          (.str (completedRecord (computeFingerprint cfg call.data) response))
          (some processingRecordTtlSeconds))
        (.done (.returned response)))

lemma mentions_uniqueViolation (key : String) :
    Mentions (uniqueViolation key).text balanceCheckConstraint ↔
      Mentions key balanceCheckConstraint := by
  have hopen : '(' ∉ balanceCheckConstraint.toList := by decide +kernel
  have hclose : ')' ∉ balanceCheckConstraint.toList := by decide +kernel
  have hafter : ¬ Mentions " already exists." balanceCheckConstraint := by decide +kernel
  unfold uniqueViolation
  rw [mentions_parenthesized hopen hclose, or_iff_right (by decide +kernel), or_iff_left hafter]

/-- The unique index is taken for the CHECK on the balance where the key names that. -/
lemma onIntegrityError_uniqueViolation (u : Uuid) (key : String) :
    onIntegrityError u (uniqueViolation key) =
      if Mentions key balanceCheckConstraint then .insertFailed u else .release chargeExists := by
  have hname : constraintName (uniqueViolation key) = (uniqueViolation key).text := rfl
  have hindex : Mentions (uniqueViolation key).text idempotencyUniqueIndex := by
    unfold Mentions uniqueViolation
    simp only [String.toList_append, List.append_assoc]
    exact ((List.prefix_append _ _).isInfix.trans (List.suffix_append _ _).isInfix).trans
      (List.suffix_append _ _).isInfix
  unfold onIntegrityError
  simp only [hname, mentions_uniqueViolation, hindex, if_true]

lemma does_of_chargeAccount (h : chargeAccount cfg s c call = some eff) :
    Does cfg s c call eff := by
  unfold chargeAccount at h
  split at h
  · rename_i u wake hpc
    split_ifs at h with hw
    cases h
    exact .wakes hpc hw
  · rename_i u hpc
    have hcharging : call.pc.Charging := by rw [hpc]; trivial
    split at h
    · cases h
      exact .stops _ hcharging
    · rename_i hfits
      split at h
      · cases h
        exact .stops _ hcharging
      · rename_i balance hrow
        split_ifs at h with hl hlow
        · cases h
          exact .overdraws hpc (not_lt.mp hfits) hrow (by omega)
        · cases h
          exact .debits hpc hrow (by omega) hl
  · rename_i u balance hpc
    rw [onIntegrityError_uniqueViolation] at h
    split_ifs at h with hs hname hl
    · cases h
      exact .mistakes hpc hs hname
    · cases h
      exact .stops _ (by rw [hpc]; trivial)
    · cases h
      exact .inserts hpc (not_not.mp hs) hl
  · rename_i balance charge hpc
    cases h
    exact .commits hpc
  · rename_i u hpc
    cases h
    exact .recordsFailure hpc
  · rename_i charge hpc
    cases h
    exact .commitsFailure hpc
  · cases h

/-- The inversion of `chargeWithIdempotency`. -/
theorem does_of_chargeWithIdempotency (h : chargeWithIdempotency cfg s c call = some eff) :
    Does cfg s c call eff := by
  unfold chargeWithIdempotency at h
  dsimp only at h
  split at h
  · rename_i hpc
    rcases setnx_cases s.cache s.now (cacheIdempotencyKey call.key)
      (dumps (.str (processingRecord (computeFingerprint cfg call.data))))
      (some processingRecordTtlSeconds) with ⟨he, ht⟩ | ⟨he, hb, hfree⟩
    · simp only [he, Bool.false_eq_true, ↓reduceIte, Option.some.injEq] at h
      subst h
      exact .refused hpc ht
    · simp only [he, ↓reduceIte, Option.some.injEq] at h
      subst h
      exact .acquires hpc hb hfree
  · rename_i hpc
    cases h
    exact .looksUp hpc
  · rename_i e hpc
    cases h
    exact .deletes hpc
  · rename_i response hpc
    cases h
    exact .completes hpc
  · cases h
  · exact does_of_chargeAccount h

/-- Ways a call can be stopped from outside: it keeps no lock and writes nothing. -/
inductive Stops (call : Call) : Effect → Prop
  | ends (e : PyError) : Stops call (.rollback (.done (.raised e)))
  | gives (e : PyError) : Stops call (.goto (.done (.raised e)))
  | fails (e : PyError) (pc : call.pc.Charging) : Stops call (.rollback (.release e))

lemma stops_of_cancelEffect (h : cancelEffect call.pc = some eff) : Stops call eff := by
  unfold cancelEffect at h
  split at h
  · cases h
  · cases h
    exact .ends _

lemma stops_of_errorEffect (h : errorEffect call.pc = some eff) : Stops call eff := by
  cases hpc : call.pc <;> simp only [hpc, errorEffect, Option.some.injEq, reduceCtorEq] at h <;>
    subst h
  case setnx | lookup | release | complete => exact .gives _
  all_goals exact .fails _ (by rw [hpc]; trivial)

inductive Took (cfg : Config) (s : State) : Action → State → Prop
  | start {c : CallId} {key : String} {data : CreatePaymentRequest} (fresh : s.calls c = none) :
      Took cfg s (.start c key data) (s.setCall c { key, data })
  | op {c : CallId} {call : Call} {eff : Effect} (running : s.calls c = some call)
      (does : Does cfg s c call eff) : Took cfg s (.op c) (s.apply cfg c call eff)
  | stop {a : Action} {c : CallId} {call : Call} {eff : Effect} (running : s.calls c = some call)
      (unfinished : ∀ o, call.pc ≠ .done o) (stops : Stops call eff) :
      Took cfg s a (s.apply cfg c call eff)
  | tick (d : ℕ) : Took cfg s (.tick d) { s with now := s.now + d }

lemma stepCall_eq_some {effect : Call → Option Effect} (h : stepCall cfg s c effect = some t) :
    ∃ call eff, s.calls c = some call ∧ effect call = some eff ∧ t = s.apply cfg c call eff := by
  unfold stepCall at h
  split at h
  · cases h
  · rename_i call hc
    obtain ⟨eff, heff, rfl⟩ := Option.map_eq_some_iff.mp h
    exact ⟨call, eff, hc, heff, rfl⟩

theorem took_of_step {a : Action} (h : step cfg s a = some t) : Took cfg s a t := by
  cases a with
  | start c key data =>
    simp only [step] at h
    split at h
    · cases h
    · rename_i hc
      cases h
      exact .start hc
  | op c =>
    obtain ⟨call, eff, hc, heff, rfl⟩ := stepCall_eq_some h
    exact .op hc (does_of_chargeWithIdempotency heff)
  | cancel c =>
    obtain ⟨call, eff, hc, heff, rfl⟩ := stepCall_eq_some h
    refine .stop hc (fun o ho => ?_) (stops_of_cancelEffect heff)
    simp [ho, cancelEffect] at heff
  | error c =>
    obtain ⟨call, eff, hc, heff, rfl⟩ := stepCall_eq_some h
    refine .stop hc (fun o ho => ?_) (stops_of_errorEffect heff)
    simp [ho, errorEffect] at heff
  | tick d =>
    simp only [step, Option.some.injEq] at h
    exact h ▸ .tick d

def Effect.after (cfg : Config) (now : ℕ) (call : Call) : Effect → Call
  | .goto pc | .lockAccount _ pc | .lockIndex pc | .rollback pc | .setCache _ pc
  | .overwrite _ pc => { call with pc }
  | .acquire _ pc => { call with pc, acquiredAt := some now }
  | .publish _ charge => { call with
      pc := .complete (responseOf cfg charge), response := some (responseOf cfg charge) }

@[simp] theorem apply_calls (s : State) (c : CallId) (call : Call) (eff : Effect) :
    (s.apply cfg c call eff).calls =
      Function.update s.calls c (some (eff.after cfg s.now call)) := by cases eff <;> rfl

@[simp] theorem apply_now (s : State) (c : CallId) (call : Call) (eff : Effect) :
    (s.apply cfg c call eff).now = s.now := by cases eff <;> rfl

@[simp] theorem apply_accounts (s : State) (c : CallId) (call : Call) (eff : Effect) :
    (s.apply cfg c call eff).accounts = match eff with
      | .publish balance charge => debit s.accounts balance charge
      | _ => s.accounts := by cases eff <;> rfl

@[simp] theorem apply_charges (s : State) (c : CallId) (call : Call) (eff : Effect) :
    (s.apply cfg c call eff).charges = match eff with
      | .publish _ charge => s.charges ++ [⟨c, charge⟩]
      | _ => s.charges := by cases eff <;> rfl

@[simp] theorem apply_accountLock (s : State) (c : CallId) (call : Call) (eff : Effect) :
    (s.apply cfg c call eff).accountLock = match eff with
      | .lockAccount u _ => take s.accountLock u c
      | .rollback _ | .publish _ _ => releaseAll s.accountLock c
      | _ => s.accountLock := by cases eff <;> rfl

@[simp] theorem apply_indexLock (s : State) (c : CallId) (call : Call) (eff : Effect) :
    (s.apply cfg c call eff).indexLock = match eff with
      | .lockIndex _ => take s.indexLock call.key c
      | .rollback _ | .publish _ _ => releaseAll s.indexLock c
      | _ => s.indexLock := by cases eff <;> rfl

@[simp] theorem apply_cache (s : State) (c : CallId) (call : Call) (eff : Effect) :
    (s.apply cfg c call eff).cache = match eff with
      | .acquire cache _ | .setCache cache _ | .overwrite cache _ => cache
      | _ => s.cache := by cases eff <;> rfl

@[simp] theorem apply_writer (s : State) (c : CallId) (call : Call) (eff : Effect) :
    (s.apply cfg c call eff).writer = match eff with
      | .acquire _ _ | .overwrite _ _ =>
        Function.update s.writer (cacheIdempotencyKey call.key) (some c)
      | _ => s.writer := by cases eff <;> rfl

@[simp] theorem after_key (now : ℕ) (call : Call) (eff : Effect) :
    (eff.after cfg now call).key = call.key := by cases eff <;> rfl

@[simp] theorem after_data (now : ℕ) (call : Call) (eff : Effect) :
    (eff.after cfg now call).data = call.data := by cases eff <;> rfl

lemma cacheIdempotencyKey_injective : Function.Injective cacheIdempotencyKey := by
  intro k l h
  simpa [cacheIdempotencyKey, String.ext_iff] using h

end AsyncDataHub.Payment
