import AsyncDataHub.PaymentOwner

/-! What a call leaves under its key when it ends. `except Exception` deletes the processing record;
a CancelledError is no Exception, so a call that is cancelled leaves the record behind. -/
namespace AsyncDataHub.Payment
open StepSystem LockTable OwnedRows Cache PyJson ExpiringStore

variable {cfg : Config} {s t : State} {a : Action} {c d : CallId} {call call' : Call} {eff : Effect}

/-- The call was cancelled after its charge had committed. -/
def Call.CancelledLate (call : Call) : Prop :=
  call.response ≠ none ∧ call.pc = .done (.raised (.aborted "cancelled"))

/-- A call that had acquired its key and has ended, and wrote last to the key: what is live there
is the completed record of the response that the call has returned. -/
def Call.Settled (cfg : Config) (s : State) (c : CallId) (call : Call) : Prop :=
  ∀ o e, call.pc = .done o → call.acquiredAt ≠ none → ¬ call.CancelledLate →
    s.writer (cacheIdempotencyKey call.key) = some c → s.record call.key = some e →
    ∃ response, o = .returned response ∧
      e.value = completedValue s.cache.backend (computeFingerprint cfg call.data) response

def Settled (cfg : Config) (s : State) : Prop :=
  ∀ c call, s.calls c = some call → call.Settled cfg s c

/-- The record that the call has written is still live. -/
def State.OwnRecord (s : State) (c : CallId) (call : Call) : Prop :=
  s.writer (cacheIdempotencyKey call.key) = some c ∧ ∃ e, s.record call.key = some e

/-- No call is cancelled before its charge has committed, and none fails in the delete or the set
of its key, while the record that it has written is live. -/
def NotAbandoned (s : State) : Action → Prop
  | .cancel c => ∀ call, s.calls c = some call → call.pc.Holding → call.response = none →
      ¬ s.OwnRecord c call
  | .error c => ∀ call, s.calls c = some call → call.pc.Writes → ¬ s.OwnRecord c call
  | _ => True

def Call.Noted (call : Call) : Prop :=
  (call.pc.Holding → call.acquiredAt ≠ none) ∧
    (call.pc = .setnx ∨ call.pc = .lookup → call.acquiredAt = none)

structure EndInv (cfg : Config) (s : State) : Prop where
  books : BooksInv cfg s
  records : RecordInv cfg s
  noted : ∀ c call, s.calls c = some call → call.Noted

lemma noted_end (o : Outcome) : Call.Noted { call with pc := .done o } :=
  ⟨False.elim, by rintro (h | h) <;> cases h⟩

lemma noted_of_does (hn : call.Noted) (h : Does cfg s c call eff) :
    (eff.after cfg s.now call).Noted := by
  have hmoves {pc : Pc} (hpc : call.pc.Holding) (hne : pc ≠ .setnx ∧ pc ≠ .lookup) :
      Call.Noted { call with pc } :=
    ⟨fun _ => hn.1 hpc, fun he => absurd he (not_or.mpr hne)⟩
  cases h with
  | acquires _ _ _ =>
    refine ⟨fun _ => by simp [Effect.after], fun he => ?_⟩
    simp only [Effect.after, firstPc] at he
    split at he <;> rcases he with he | he <;> cases he
  | refused hpc _ => exact ⟨False.elim, fun _ => hn.2 (.inl hpc)⟩
  | looksUp _ | deletes _ | completes _ => exact noted_end _
  | stops _ hpc => exact hmoves hpc.holding (by simp)
  | wakes hpc _ | overdraws hpc _ _ _ | debits hpc _ _ _ | mistakes hpc _ _ | inserts hpc _ _
  | recordsFailure hpc => exact hmoves (by rw [hpc]; trivial) (by simp)
  | commits hpc | commitsFailure hpc =>
    exact ⟨fun _ => hn.1 (by rw [hpc]; trivial), by rintro (h | h) <;> cases h⟩

lemma noted_of_stops (hn : call.Noted) (h : Stops call eff) : (eff.after cfg s.now call).Noted := by
  cases h with
  | ends _ | gives _ => exact noted_end _
  | fails _ hpc => exact ⟨fun _ => hn.1 hpc.holding, by rintro (h | h) <;> cases h⟩

theorem endInv_step (h : step cfg s a = some t) (hi : EndInv cfg s) : EndInv cfg t := by
  refine ⟨booksInv_step h hi.books, recordInv_step h hi.books hi.records, ?_⟩
  cases took_of_step h with
  | start _ => exact forall_update hi.noted ⟨False.elim, fun _ => rfl⟩
  | op hc hdoes =>
    rw [apply_calls]
    exact forall_update hi.noted (noted_of_does (hi.noted _ _ hc) hdoes)
  | stop hc _ hs =>
    rw [apply_calls]
    exact forall_update hi.noted (noted_of_stops (hi.noted _ _ hc) hs)
  | tick _ => exact hi.noted

lemma record_eq_some {key : String} {e : Entry Json} (h : s.record key = some e) :
    s.cache.store (cacheIdempotencyKey key) = some e ∧ s.now ≤ e.expiresAt := live_eq_some.mp h

lemma Call.Settled.of_keeps (h : call'.Settled cfg s d) (hk : eff.Keeps cfg s c call)
    (hne : d ≠ c) : call'.Settled cfg (s.apply cfg c call eff) d := by
  obtain ⟨hb, hk⟩ := hk
  intro o e ho ha hl hw he
  obtain ⟨hstore, hnow⟩ := record_eq_some he
  rw [apply_now] at hnow
  rw [hb]
  rcases hk call'.key e hstore with ⟨hold, hwriter⟩ | ⟨_, _, hmine, _⟩
  · exact h o e ho ha hl (hwriter ▸ hw) (live_eq_some.mpr ⟨hold, hnow⟩)
  · rw [hmine, Option.some.injEq] at hw
    exact absurd hw.symm hne

lemma settled_apply_iff (hp : Settled cfg s) (hk : eff.Keeps cfg s c call) :
    Settled cfg (s.apply cfg c call eff) ↔
      (eff.after cfg s.now call).Settled cfg (s.apply cfg c call eff) c := by
  constructor
  · intro h
    exact h c _ (by rw [apply_calls, Function.update_self])
  · intro h d call' hd
    rw [apply_calls] at hd
    rcases update_eq_some.mp hd with ⟨rfl, rfl⟩ | ⟨hne, hd⟩
    · exact h
    · exact (hp d call' hd).of_keeps hk hne

lemma settled_of_does (hi : EndInv cfg s) (hc : s.calls c = some call)
    (h : Does cfg s c call eff) :
    (eff.after cfg s.now call).Settled cfg (s.apply cfg c call eff) c := by
  have hn := hi.noted c call hc
  intro o e ho ha _ _ he
  cases h with
  | looksUp hpc => exact absurd (hn.2 (.inr hpc)) ha
  | deletes _ =>
    have hnone : (s.cache.delete (cacheIdempotencyKey call.key)).store
        (cacheIdempotencyKey call.key) = some e := (record_eq_some he).1
    rw [delete_store, erase_self] at hnone
    cases hnone
  | @completes response _ =>
    cases ho
    refine ⟨response, rfl, ?_⟩
    have hstore : (s.cache.set s.now (cacheIdempotencyKey call.key)
        (.str (completedRecord (computeFingerprint cfg call.data) response))
        (some processingRecordTtlSeconds)).store (cacheIdempotencyKey call.key) = some e :=
      (record_eq_some he).1
    rw [apply_cache, set_backend]
    rcases set_text_cases s.cache s.now (cacheIdempotencyKey call.key)
      (completedRecord (computeFingerprint cfg call.data) response)
      (some processingRecordTtlSeconds) with ⟨hb, hset⟩ | ⟨_, hset⟩
    · rw [hset] at hstore
      exact absurd hb (hi.records _ e hstore).1
    · rw [hset, write_store, put_self, Option.some.injEq] at hstore
      rw [← hstore]
      rfl
  | acquires _ _ _ =>
    simp only [Effect.after, firstPc] at ho
    split at ho <;> cases ho
  | _ => cases ho

/-- A call that is ended from outside, with nothing of it noted as returned, is settled exactly if
its own record is not live. -/
lemma settled_stop_iff (cfg : Config) {e : PyError} (hn : call.Noted)
    (hdone : ∀ o, call.pc ≠ .done o)
    (hlate : call.response ≠ none → e ≠ .aborted "cancelled")
    (hcache : t.cache = s.cache) (hnow : t.now = s.now) (hwriter : t.writer = s.writer) :
    Call.Settled cfg t c { call with pc := .done (.raised e) } ↔
      (call.pc.Holding → ¬ s.OwnRecord c call) := by
  have hrec : t.record call.key = s.record call.key := by
    unfold State.record
    rw [hcache, hnow]
  constructor
  · rintro h hpc ⟨hw, e', he'⟩
    have hnotlate : ¬ Call.CancelledLate { call with pc := .done (.raised e) } := by
      rintro ⟨hr, he⟩
      have heq : e = .aborted "cancelled" := by cases he; rfl
      exact hlate hr heq
    obtain ⟨response, hret, _⟩ := h _ e' rfl (hn.1 hpc) hnotlate (hwriter ▸ hw) (hrec ▸ he')
    cases hret
  · intro h o e' _ ha _ hw he'
    have hpc : call.pc.Holding := by
      by_contra hno
      cases hp : call.pc with
      | setnx => exact ha (hn.2 (.inl hp))
      | lookup => exact ha (hn.2 (.inr hp))
      | done o => exact hdone o hp
      | _ => exact hno (by rw [hp]; trivial)
    exact absurd ⟨hwriter ▸ hw, e', hrec ▸ he'⟩ (h hpc)

lemma settled_cancel_iff (hi : EndInv cfg s) (hp : Settled cfg s)
    (h : step cfg s (.cancel c) = some t) : Settled cfg t ↔ NotAbandoned s (.cancel c) := by
  obtain ⟨call, eff, hc, heff, rfl⟩ := stepCall_eq_some h
  have hdone : ∀ o, call.pc ≠ .done o := by
    intro o ho
    simp [ho, cancelEffect] at heff
  obtain rfl : eff = .rollback (.done (.raised (.aborted "cancelled"))) := by
    unfold cancelEffect at heff
    split at heff
    · cases heff
    · exact (Option.some.inj heff).symm
  rw [settled_apply_iff hp (keeps_of_stops (.ends _))]
  have hnot : NotAbandoned s (.cancel c) ↔
      (call.pc.Holding → call.response = none → ¬ s.OwnRecord c call) := by
    simp [NotAbandoned, hc]
  rw [hnot]
  by_cases hr : call.response = none
  · simp only [hr, true_imp_iff]
    exact settled_stop_iff cfg (hi.noted c call hc) hdone (fun hne => absurd hr hne) rfl rfl rfl
  · refine iff_of_true (fun o e ho ha hl _ _ => ?_) fun _ hnone => absurd hnone hr
    exact absurd ⟨hr, rfl⟩ hl

lemma settled_error_iff (hi : EndInv cfg s) (hp : Settled cfg s)
    (h : step cfg s (.error c) = some t) : Settled cfg t ↔ NotAbandoned s (.error c) := by
  obtain ⟨call, eff, hc, heff, rfl⟩ := stepCall_eq_some h
  have hnot : NotAbandoned s (.error c) ↔ (call.pc.Writes → ¬ s.OwnRecord c call) := by
    simp [NotAbandoned, hc]
  have hdone : ∀ o, call.pc ≠ .done o := by
    intro o ho
    simp [ho, errorEffect] at heff
  rw [hnot, settled_apply_iff hp (keeps_of_stops (stops_of_errorEffect heff))]
  by_cases hw : call.pc.Holding → call.pc.Writes
  · -- the statement was the setnx, the lookup, the delete or the set: the call ends
    obtain rfl : eff = .goto (.done (.raised (.aborted "cache error"))) := by
      cases hpc : call.pc <;> simp only [hpc, errorEffect, Option.some.injEq, reduceCtorEq] at heff
      case setnx | lookup | release | complete => exact heff.symm
      all_goals
        simp only [hpc] at hw
        exact (hw trivial).elim
    have hiff := settled_stop_iff cfg (c := c) (hi.noted c call hc) hdone
      (e := .aborted "cache error") (fun _ => by decide) (s := s)
      (t := s.apply cfg c call (.goto (.done (.raised (.aborted "cache error"))))) rfl rfl rfl
    exact hiff.trans ⟨fun h hpc => h hpc.holding, fun h hpc => h (hw hpc)⟩
  · -- the statement was in the database: the call goes on to the delete
    obtain ⟨e, rfl⟩ : ∃ e, eff = .rollback (.release e) := by
      cases hpc : call.pc <;> simp only [hpc, errorEffect, Option.some.injEq, reduceCtorEq] at heff
      case setnx | lookup | release | complete =>
        exact absurd (by simp [hpc, Pc.Holding, Pc.Writes]) hw
      all_goals exact ⟨_, heff.symm⟩
    refine iff_of_true (fun o e' ho _ _ _ _ => by cases ho) fun hpc => absurd (fun _ => hpc) hw

theorem settled_step_iff (hi : EndInv cfg s) (hp : Settled cfg s) (h : step cfg s a = some t) :
    Settled cfg t ↔ NotAbandoned s a := by
  cases a with
  | start c key data =>
    simp only [step] at h
    split at h
    · cases h
    · cases h
      refine iff_of_true (fun d call' hd => ?_) trivial
      rcases update_eq_some.mp hd with ⟨_, rfl⟩ | ⟨_, hd⟩
      · intro o e ho
        cases ho
      · exact hp d call' hd
  | op c =>
    obtain ⟨call, eff, hc, heff, rfl⟩ := stepCall_eq_some h
    have hdoes := does_of_chargeWithIdempotency heff
    have hk := keeps_of_does hi.records (hi.books.started c call hc).progress hdoes
    exact iff_of_true ((settled_apply_iff hp hk).mpr (settled_of_does hi hc hdoes)) trivial
  | cancel c => exact settled_cancel_iff hi hp h
  | error c => exact settled_error_iff hi hp h
  | tick k =>
    cases h
    refine iff_of_true (fun d call' hd o e ho ha hl hw he => ?_) trivial
    obtain ⟨hstore, hnow⟩ := record_eq_some he
    have hle : s.now ≤ e.expiresAt := (Nat.le_add_right _ k).trans hnow
    exact hp d call' hd o e ho ha hl hw (live_eq_some.mpr ⟨hstore, hle⟩)

/-- In a run every call that had acquired its key, and has ended before its record expired, leaves
there nothing or its completed record exactly if no call is cancelled before its charge has
committed, and no delete or set of a key fails, while the call's own record is live. -/
theorem calls_settled_iff (cfg : Config) {s : State} (h₀ : Opened s) (acts : List Action) :
    Along (step cfg) (Settled cfg) s acts ↔ Guarded (step cfg) NotAbandoned s acts := by
  have hidle : ∀ (P : CallId → Call → Prop) c call, s.calls c = some call → P c call := by
    intro P c call hc
    rw [h₀.idle c] at hc
    cases hc
  have hi : EndInv cfg s := by
    refine ⟨h₀.booksInv, fun key e he => ?_, hidle _⟩
    rw [h₀.noRecords key] at he
    cases he
  exact along_iff_guarded (fun _ _ _ hi h => endInv_step h hi)
    (fun _ _ _ hi hp h => settled_step_iff hi hp h) acts hi (hidle _)

/-- The call acquires its key and is cancelled in the middle of its two seconds of sleep. -/
def cancelledAsleep : List Action := [.start 0 "k0" sixty, .op 0, .tick 1000, .cancel 0]

theorem calls_settled_iff_cancelledAsleep :
    Along (step demoConfig) (Settled demoConfig) (openedState .redis 100) cancelledAsleep ↔
      Guarded (step demoConfig) NotAbandoned (openedState .redis 100) cancelledAsleep :=
  calls_settled_iff demoConfig (openedState_opened .redis (by decide)) cancelledAsleep

/-- The processing record of the cancelled call stays, and a retry is told to wait. -/
theorem cancelledAsleep_blocks_retry :
    ∃ s t, exec (step demoConfig) (openedState .redis 100) cancelledAsleep = some s ∧
      ¬ Settled demoConfig s ∧
      exec (step demoConfig) s [.start 1 "k0" sixty, .op 1, .op 1] = some t ∧
      (t.calls 1).map Call.pc = some (.done (.raised stillProcessing)) := by
  obtain ⟨s, t, hs, ht, hpc, call, e, hc, hkey, hend, hacq, hresp, hw, he, hb, hv⟩ :
      ∃ s t, exec (step demoConfig) (openedState .redis 100) cancelledAsleep = some s ∧
        exec (step demoConfig) s [.start 1 "k0" sixty, .op 1, .op 1] = some t ∧
        (t.calls 1).map Call.pc = some (.done (lookupOutcome (computeFingerprint demoConfig sixty)
          (s.cache.get s.now (cacheIdempotencyKey "k0")).2)) ∧
        ∃ call e, s.calls 0 = some call ∧ call.key = "k0" ∧
          call.pc = .done (.raised (.aborted "cancelled")) ∧ call.acquiredAt = some 0 ∧
          call.response = none ∧ s.writer (cacheIdempotencyKey "k0") = some 0 ∧
          s.record "k0" = some e ∧ s.cache.backend = .redis ∧
          e.value = processingValue (computeFingerprint demoConfig sixty) :=
    ⟨_, _, rfl, rfl, rfl, _, _, rfl, rfl, rfl, rfl, rfl, rfl, rfl, rfl, rfl⟩
  refine ⟨s, t, hs, fun h => ?_, ht, ?_⟩
  · have hearly : ¬ call.CancelledLate := fun hl => hl.1 hresp
    obtain ⟨response, hret, _⟩ :=
      h 0 call hc _ e hend (by simp [hacq]) hearly (hkey ▸ hw) (hkey ▸ he)
    cases hret
  · rw [hpc, get_processingValue (by simp [hb]) he hv]
    simp [hb, lookupOutcome, Except.bind, handleExisting_processing]

end AsyncDataHub.Payment
