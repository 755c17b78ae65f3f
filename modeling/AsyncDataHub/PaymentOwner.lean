import AsyncDataHub.PaymentReplay

/-! Who owns the record under a key. A call writes to the key without looking again, so it writes to
a record of its own exactly as long as that record has not been replaced after its expiry. -/
namespace AsyncDataHub.Payment
open StepSystem LockTable OwnedRows Cache PyJson ExpiringStore

variable {cfg : Config} {s t : State} {c d : CallId} {call call' : Call} {eff : Effect}

def Pc.Holding : Pc → Prop
  | .setnx | .lookup | .done _ => False
  | _ => True

/-- The next statement of the call is the delete on failure or the set of the completed record. -/
def Pc.Writes : Pc → Prop
  | .release _ | .complete _ => True
  | _ => False

def recordTtl : ℕ := processingRecordTtlSeconds * 1000

/-- A call that writes to its key finds there no live entry but its own. -/
def OwnWrite (s : State) : Action → Prop
  | .op c => ∀ call, s.calls c = some call → call.pc.Writes →
      ∀ e, s.record call.key = some e → s.writer (cacheIdempotencyKey call.key) = some c
  | _ => True

/-- A call that writes to its key does so before its own record has expired, or finds the key
free. -/
def InTime (s : State) : Action → Prop
  | .op c => ∀ call, s.calls c = some call → call.pc.Writes →
      (∃ acquired, call.acquiredAt = some acquired ∧ s.now ≤ acquired + recordTtl) ∨
        s.record call.key = none
  | _ => True

/-- Until the expiry of its record the call is the writer of its key, and what it has written
expires then. -/
def Call.Owns (s : State) (c : CallId) (call : Call) : Prop :=
  ∃ acquired, call.acquiredAt = some acquired ∧
    (s.now ≤ acquired + recordTtl → s.writer (cacheIdempotencyKey call.key) = some c ∧
      ∃ e, s.cache.store (cacheIdempotencyKey call.key) = some e) ∧
    ∀ e, s.writer (cacheIdempotencyKey call.key) = some c →
      s.cache.store (cacheIdempotencyKey call.key) = some e → e.expiresAt = acquired + recordTtl

def OwnerInv (s : State) : Prop :=
  ∀ c call, s.calls c = some call → call.pc.Holding → call.Owns s c

lemma Pc.Writes.holding {pc : Pc} (h : pc.Writes) : pc.Holding := by
  cases pc <;> trivial

lemma Pc.Charging.holding {pc : Pc} (h : pc.Charging) : pc.Holding := by
  cases pc <;> trivial

lemma Call.Owns.live (h : call.Owns s c) : ∃ acquired, call.acquiredAt = some acquired ∧
    (s.now ≤ acquired + recordTtl →
      s.writer (cacheIdempotencyKey call.key) = some c ∧ ∃ e, s.record call.key = some e) := by
  obtain ⟨acquired, ha, hown, hexp⟩ := h
  refine ⟨acquired, ha, fun hnow => ?_⟩
  obtain ⟨hw, e, he⟩ := hown hnow
  exact ⟨hw, e, live_eq_some.mpr ⟨he, by rw [hexp e hw he]; exact hnow⟩⟩

/-- Under the invariant the two side conditions agree. -/
theorem ownWrite_iff_inTime (hi : OwnerInv s) (a : Action) : OwnWrite s a ↔ InTime s a := by
  cases a with
  | op c =>
    refine forall₃_congr fun call hc hpc => ?_
    have howns := hi c call hc hpc.holding
    constructor
    · intro h
      cases hrec : s.record call.key with
      | none => exact .inr rfl
      | some e =>
        obtain ⟨acquired, ha, _, hexp⟩ := howns
        obtain ⟨he, hlive⟩ := live_eq_some.mp hrec
        exact .inl ⟨acquired, ha, hexp e (h e hrec) he ▸ hlive⟩
    · rintro (⟨acquired, ha, hnow⟩ | hnone) e he
      · obtain ⟨acquired', ha', hlive⟩ := howns.live
        rw [ha, Option.some.injEq] at ha'
        subst ha'
        exact (hlive hnow).1
      · rw [hnone] at he
        cases he
  | _ => exact Iff.rfl

/-- Nobody's live entry but that of `c` is under the key. -/
def State.FreeFor (s : State) (c : CallId) (key : String) : Prop :=
  ∀ e, s.record key = some e → s.writer (cacheIdempotencyKey key) = some c

/-- From `s` to `t` the entry under the key is left alone, or `c` takes it or drops it where it
was free for `c`. -/
def Touches (s t : State) (c : CallId) (key : String) : Prop :=
  (t.cache.store (cacheIdempotencyKey key) = s.cache.store (cacheIdempotencyKey key) ∧
    t.writer (cacheIdempotencyKey key) = s.writer (cacheIdempotencyKey key)) ∨
  (s.FreeFor c key ∧ (t.writer (cacheIdempotencyKey key) = some c ∨
    t.cache.store (cacheIdempotencyKey key) = none))

lemma freeFor_of_none {key : String} (h : s.record key = none) : s.FreeFor c key := by
  intro e he
  rw [h] at he
  cases he

lemma cacheIdempotencyKey_ne {key key' : String} (h : key ≠ key') :
    cacheIdempotencyKey key ≠ cacheIdempotencyKey key' :=
  fun he => h (cacheIdempotencyKey_injective he)

lemma touches_of_does (hown : call.pc.Writes → s.FreeFor c call.key) (h : Does cfg s c call eff)
    (key : String) : Touches s (s.apply cfg c call eff) c key := by
  by_cases hk : key = call.key
  · subst hk
    cases h with
    | acquires _ _ hfree => exact .inr ⟨freeFor_of_none hfree, .inl (Function.update_self ..)⟩
    | looksUp _ =>
      rcases get_cache s.cache s.now (cacheIdempotencyKey call.key) with hget | ⟨_, hfree, hget⟩
      · exact .inl ⟨by rw [apply_cache, hget], rfl⟩
      · exact .inr ⟨freeFor_of_none hfree, .inr (by rw [apply_cache, hget]; exact erase_self ..)⟩
    | deletes hpc => exact .inr ⟨hown (by rw [hpc]; trivial), .inr (erase_self ..)⟩
    | completes hpc =>
      exact .inr ⟨hown (by rw [hpc]; trivial), .inl (Function.update_self ..)⟩
    | _ => exact .inl ⟨rfl, rfl⟩
  · have hne := cacheIdempotencyKey_ne hk
    refine .inl ?_
    cases h with
    | acquires _ _ _ => exact ⟨put_of_ne _ hne _ _, Function.update_of_ne hne _ _⟩
    | looksUp _ =>
      refine ⟨?_, rfl⟩
      rcases get_cache s.cache s.now (cacheIdempotencyKey call.key) with hget | ⟨_, _, hget⟩
      · rw [apply_cache, hget]
      · rw [apply_cache, hget]
        exact erase_of_ne _ hne
    | deletes _ => exact ⟨erase_of_ne _ hne, rfl⟩
    | @completes response _ =>
      refine ⟨?_, Function.update_of_ne hne _ _⟩
      rw [apply_cache]
      rcases set_text_cases s.cache s.now (cacheIdempotencyKey call.key)
        (completedRecord (computeFingerprint cfg call.data) response)
        (some processingRecordTtlSeconds) with ⟨_, hset⟩ | ⟨_, hset⟩
      · rw [hset]
      · rw [hset]
        exact put_of_ne _ hne _ _
    | _ => exact ⟨rfl, rfl⟩

lemma Call.Owns.of_touches (h : call.Owns s d) (hne : d ≠ c) (ht : Touches s t c call.key)
    (hnow : s.now ≤ t.now) : call.Owns t d := by
  obtain ⟨acquired, ha, hown, hexp⟩ := id h
  refine ⟨acquired, ha, ?_⟩
  rcases ht with ⟨hstore, hwriter⟩ | ⟨hfree, ht⟩
  · rw [hstore, hwriter]
    exact ⟨fun hle => hown (hnow.trans hle), hexp⟩
  · constructor
    · intro hle
      obtain ⟨acquired', ha', hlive⟩ := h.live
      rw [ha, Option.some.injEq] at ha'
      subst ha'
      obtain ⟨hw, e, he⟩ := hlive (hnow.trans hle)
      rw [hfree e he, Option.some.injEq] at hw
      exact absurd hw.symm hne
    · intro e hw he
      rcases ht with hc | hnone
      · rw [hc, Option.some.injEq] at hw
        exact absurd hw.symm hne
      · rw [hnone] at he
        cases he

/-- A call that is holding after its own statement owns its key: it has just acquired it, or its
statement was in the database. -/
lemma owns_of_does (hi : call.pc.Holding → call.Owns s c) (h : Does cfg s c call eff)
    (hpc' : (eff.after cfg s.now call).pc.Holding) :
    (eff.after cfg s.now call).Owns (s.apply cfg c call eff) c := by
  cases h with
  | acquires _ _ _ =>
    refine ⟨s.now, rfl, fun _ => ⟨Function.update_self .., _, put_self ..⟩, fun e _ he => ?_⟩
    have he' := (put_self s.cache.store (cacheIdempotencyKey call.key) _ _).symm.trans he
    rw [Option.some.injEq] at he'
    rw [← he']
    rfl
  | refused _ _ | looksUp _ | deletes _ | completes _ => exact hpc'.elim
  | stops _ hpc => exact hi hpc.holding
  | wakes hpc _ | overdraws hpc _ _ _ | debits hpc _ _ _ | mistakes hpc _ _ | inserts hpc _ _
  | commits hpc | recordsFailure hpc | commitsFailure hpc => exact hi (by rw [hpc]; trivial)

theorem ownerInv_step {a : Action} (hi : OwnerInv s) (hg : OwnWrite s a)
    (h : step cfg s a = some t) : OwnerInv t := by
  intro d call' hd hpc
  cases took_of_step h with
  | start _ =>
    rcases update_eq_some.mp hd with ⟨_, rfl⟩ | ⟨_, hd⟩
    · exact hpc.elim
    · exact hi d call' hd hpc
  | @op c call eff hc hdoes =>
    rw [apply_calls] at hd
    rcases update_eq_some.mp hd with ⟨rfl, rfl⟩ | ⟨hne, hd⟩
    · exact owns_of_does (hi _ call hc) hdoes hpc
    · exact (hi d call' hd hpc).of_touches hne
        (touches_of_does (fun hw => hg call hc hw) hdoes call'.key) (by simp)
  | @stop _ c call eff hc _ hs =>
    rw [apply_calls] at hd
    rcases update_eq_some.mp hd with ⟨rfl, rfl⟩ | ⟨_, hd'⟩
    · cases hs with
      | ends _ | gives _ => exact hpc.elim
      | fails _ hcharging => exact hi _ call hc hcharging.holding
    · cases hs <;> exact hi d call' hd' hpc
  | tick k =>
    obtain ⟨acquired, ha, hown, hexp⟩ := hi d call' hd hpc
    exact ⟨acquired, ha, fun hle => hown ((Nat.le_add_right _ k).trans hle), hexp⟩

/-- In a run every write of a call to its key acts on no live entry but its own exactly if every
such write is made before the call's own record has expired, or while the key is free. -/
theorem ownWrites_iff_inTime (cfg : Config) {s : State} (h₀ : Opened s) (acts : List Action) :
    Guarded (step cfg) OwnWrite s acts ↔ Guarded (step cfg) InTime s acts := by
  refine guarded_iff_guarded (fun _ _ _ hi hg ht => ownerInv_step hi hg ht)
    (fun _ a hi => ownWrite_iff_inTime hi a) acts fun c call hc => ?_
  rw [h₀.idle c] at hc
  cases hc

/-- The record of call 0 expires while the call waits for the database; call 1 acquires the key
before call 0 writes to it. -/
def overtaken : List Action :=
  [.start 0 "k0" sixty, .start 1 "k0" sixty, .op 0, .tick 61000, .op 1, .op 0, .op 0,
    .op 0, .op 0]

theorem ownWrites_iff_inTime_overtaken :
    Guarded (step demoConfig) OwnWrite (openedState .redis 100) overtaken ↔
      Guarded (step demoConfig) InTime (openedState .redis 100) overtaken :=
  ownWrites_iff_inTime demoConfig (openedState_opened .redis (by decide)) overtaken

theorem overtaken_writes_foreign_record :
    ∃ s t, exec (step demoConfig) (openedState .redis 100) overtaken = some s ∧
      s.record "k0" = some ⟨processingValue (computeFingerprint demoConfig sixty), 121000⟩ ∧
      s.writer (cacheIdempotencyKey "k0") = some 1 ∧ step demoConfig s (.op 0) = some t ∧
      t.writer (cacheIdempotencyKey "k0") = some 0 ∧
      ¬ Guarded (step demoConfig) OwnWrite s [.op 0] := by
  obtain ⟨s, hs, hrec, hw, ⟨t, ht, hw'⟩, call, hc, hkey, hpc⟩ :
      ∃ s, exec (step demoConfig) (openedState .redis 100) overtaken = some s ∧
        s.record "k0" = some ⟨processingValue (computeFingerprint demoConfig sixty), 121000⟩ ∧
        s.writer (cacheIdempotencyKey "k0") = some 1 ∧
        (∃ t, step demoConfig s (.op 0) = some t ∧
          t.writer (cacheIdempotencyKey "k0") = some 0) ∧
        ∃ call, s.calls 0 = some call ∧ call.key = "k0" ∧ call.pc.Writes :=
    ⟨_, rfl, rfl, rfl, ⟨_, rfl, rfl⟩, _, rfl, rfl, trivial⟩
  refine ⟨s, t, hs, hrec, hw, ht, hw', fun h => ?_⟩
  have hown := (h t ht).1 call hc hpc _ (hkey ▸ hrec)
  rw [hkey, hw] at hown
  cases hown

end AsyncDataHub.Payment
