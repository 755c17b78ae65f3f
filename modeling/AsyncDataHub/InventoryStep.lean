import AsyncDataHub.Inventory

/-! What one statement of a reservation can do, and what one step changes. All invariants of the
inventory are derived from these two inversions. -/
namespace AsyncDataHub.Inventory
open StepSystem LockTable OwnedRows Cache Lock

variable {cfg : Config} {s t : State} {c : CallId} {call : Call} {eff : Effect}

def Pc.InBlock : Pc → Prop
  | .acquire _ | .release _ | .done _ => False
  | _ => True

/-- The statements a call can send from where it stands, with everything the code has checked. -/
inductive Does (cfg : Config) (s : State) (c : CallId) (call : Call) : Effect → Prop
  | fails (e : PyError) (pc : call.pc.InBlock) : Does cfg s c call (.fail e)
  | reads {attempt : ℕ} {u : Uuid} {p : Product} (pc : call.pc = .select attempt)
      (uuid : cfg.uuidOf call.productId = some u) (row : s.products u = some p)
      (enough : call.quantity ≤ p.stock) (strategy : call.strategy ≠ .pessimistic) :
      Does cfg s c call (.goto (.update attempt p.stock p.version))
  | readsForUpdate {attempt : ℕ} {u : Uuid} {p : Product} (pc : call.pc = .select attempt)
      (uuid : cfg.uuidOf call.productId = some u) (row : s.products u = some p)
      (enough : call.quantity ≤ p.stock) (strategy : call.strategy = .pessimistic)
      (lock : Available s.rowLock u c) :
      Does cfg s c call (.lockRow u (.update attempt p.stock p.version))
  | overwrites {attempt : ℕ} {stock version : ℤ} {u : Uuid} {p : Product}
      (pc : call.pc = .update attempt stock version)
      (uuid : cfg.uuidOf call.productId = some u) (row : s.products u = some p)
      (strategy : call.strategy ≠ .optimistic) (lock : Available s.rowLock u c) :
      Does cfg s c call
        (.lockRow u (.record ⟨u, stock, { p with stock := stock - call.quantity }⟩))
  | swaps {attempt : ℕ} {stock : ℤ} {u : Uuid} {p : Product}
      (pc : call.pc = .update attempt stock p.version)
      (uuid : cfg.uuidOf call.productId = some u) (row : s.products u = some p)
      (strategy : call.strategy = .optimistic) (lock : Available s.rowLock u c) :
      Does cfg s c call (.lockRow u (.record ⟨u, stock,
        { p with stock := stock - call.quantity, version := nextVersion p.version }⟩))
  | misses {attempt : ℕ} {stock version : ℤ} {u : Uuid}
      (pc : call.pc = .update attempt stock version)
      (uuid : cfg.uuidOf call.productId = some u)
      (stale : ∀ p, s.products u = some p → p.version ≠ version) :
      Does cfg s c call (.goto (.commitMiss u attempt))
  | retries {u : Uuid} {attempt : ℕ} (pc : call.pc = .commitMiss u attempt)
      (more : shouldRetry attempt cfg.maxOptimisticAttempts = true) :
      Does cfg s c call (.commitNoop u (.select (attempt + 1)))
  | givesUp {u : Uuid} {attempt : ℕ} (pc : call.pc = .commitMiss u attempt)
      (last : shouldRetry attempt cfg.maxOptimisticAttempts = false) :
      Does cfg s c call (.commitNoop u (.done (.raised tooManyAttempts)))
  | counts {attempt : ℕ} {u : Uuid} (pc : call.pc = .select attempt)
      (uuid : cfg.uuidOf call.productId = some u) (strategy : call.strategy = .atomic) :
      Does cfg s c call (.goto .decrement)
  | decrements {u : Uuid} {p : Product} (pc : call.pc = .decrement)
      (uuid : cfg.uuidOf call.productId = some u) (row : s.products u = some p)
      (enough : call.quantity ≤ p.stock) (strategy : call.strategy = .atomic)
      (lock : Available s.rowLock u c) :
      Does cfg s c call
        (.lockRow u (.record ⟨u, p.stock, { p with stock := p.stock - call.quantity }⟩))
  | records {w : Write} (pc : call.pc = .record w) :
      Does cfg s c call (.goto (.commit w ⟨cfg.uuid7 c, w.product, call.quantity, s.now⟩))
  | publishes {w : Write} {r : ProductReservation} (pc : call.pc = .commit w r) :
      Does cfg s c call (.publish w r)
  | acquires {deadline : ℕ} {cache : AsyncCache} (pc : call.pc = .acquire deadline)
      (polled : (lockOf cfg c call).poll s.cache s.now = (cache, true)) :
      Does cfg s c call (.setCache cache (.select 0))
  | waits {deadline : ℕ} (pc : call.pc = .acquire deadline) (early : s.now < deadline) :
      Does cfg s c call (.goto (.acquire deadline))
  | timesOut {deadline : ℕ} (pc : call.pc = .acquire deadline) (late : deadline ≤ s.now) :
      Does cfg s c call (.goto (.done (.raised lockUnavailable)))
  | releases {o o' : Outcome} {cache : AsyncCache} {r : Except PyError ℕ}
      (pc : call.pc = .release o)
      (released : (lockOf cfg c call).release s.cache s.now = (cache, r))
      (outcome : o' = o ∨ ∃ e, o' = .raised e) :
      Does cfg s c call (.setCache cache (.done o'))

lemma checkStock_eq_ok {row : Option Product} {q : ℤ} {p : Product}
    (h : checkStock row q = .ok p) : row = some p ∧ q ≤ p.stock := by
  unfold checkStock at h
  split at h
  · cases h
  · split_ifs at h with hlt
    cases h
    exact ⟨rfl, not_lt.mp hlt⟩

lemma does_of_selectRow {forUpdate : Bool} {attempt : ℕ} (hpc : call.pc = .select attempt)
    (hf : forUpdate = decide (call.strategy = .pessimistic))
    (h : selectRow cfg s c call forUpdate attempt = some eff) : Does cfg s c call eff := by
  have hblock : call.pc.InBlock := by rw [hpc]; trivial
  unfold selectRow at h
  split at h
  · cases h
    exact .fails _ hblock
  · rename_i u hu
    split_ifs at h with hwait hfor
    all_goals split at h
    all_goals first | (cases h; exact .fails _ hblock) | skip
    · rename_i p hok
      obtain ⟨hrow, hq⟩ := checkStock_eq_ok hok
      cases h
      have hlock : Available s.rowLock u c := by
        by_contra hn
        exact hwait ⟨hfor, by simp [hrow], hn⟩
      exact .readsForUpdate hpc hu hrow hq (by simpa [hf] using hfor) hlock
    · rename_i p hok
      obtain ⟨hrow, hq⟩ := checkStock_eq_ok hok
      cases h
      exact .reads hpc hu hrow hq (by simpa [hf] using hfor)

/-- What an UPDATE can do: fail, hit the newest committed row under its lock, or miss. -/
lemma updateRow_cases {cond : Product → Bool} {change : Product → Product} {base : Product → ℤ}
    {miss : Uuid → Effect} (h : updateRow cfg s c call cond change base miss = some eff) :
    (∃ e, eff = .fail e) ∨ ∃ u, cfg.uuidOf call.productId = some u ∧
      ((∃ p, s.products u = some p ∧ cond p = true ∧ Available s.rowLock u c ∧
          eff = .lockRow u (.record ⟨u, base p, change p⟩)) ∨
        ((∀ p, s.products u = some p → cond p = false) ∧ eff = miss u)) := by
  unfold updateRow at h
  split at h
  · cases h
    exact .inl ⟨_, rfl⟩
  · rename_i u hu
    refine .inr ⟨u, hu, ?_⟩
    split at h
    · rename_i hrow
      cases h
      exact .inr ⟨by simp [hrow], rfl⟩
    · rename_i p hrow
      split_ifs at h with hc hl
      · cases h
        exact .inl ⟨p, hrow, hc, hl, rfl⟩
      · cases h
        refine .inr ⟨?_, rfl⟩
        intro p' hp'
        rw [hrow] at hp'
        cases hp'
        simpa using hc

lemma does_of_recordReservation (h : recordReservation cfg s c call = some eff) :
    Does cfg s c call eff := by
  unfold recordReservation at h
  split at h
  · rename_i w hpc
    cases h
    exact .records hpc
  · rename_i w r hpc
    cases h
    exact .publishes hpc
  · cases h

lemma does_of_readModifyWrite {forUpdate : Bool} (hne : call.strategy ≠ .optimistic)
    (hf : forUpdate = decide (call.strategy = .pessimistic))
    (h : readModifyWrite forUpdate cfg s c call = some eff) : Does cfg s c call eff := by
  unfold readModifyWrite at h
  split at h
  · rename_i attempt hpc
    exact does_of_selectRow hpc hf h
  · rename_i attempt stock version hpc
    have hblock : call.pc.InBlock := by rw [hpc]; trivial
    rcases updateRow_cases h with ⟨e, rfl⟩ | ⟨u, hu, ⟨p, hrow, _, hl, rfl⟩ | ⟨_, rfl⟩⟩
    · exact .fails e hblock
    · exact .overwrites hpc hu hrow hne hl
    · exact .fails _ hblock
  · exact does_of_recordReservation h

lemma does_of_reserveOptimistic (hs : call.strategy = .optimistic)
    (h : reserveOptimistic cfg s c call = some eff) : Does cfg s c call eff := by
  unfold reserveOptimistic at h
  split at h
  · rename_i attempt hpc
    exact does_of_selectRow hpc (by simp [hs]) h
  · rename_i attempt stock version hpc
    have hblock : call.pc.InBlock := by rw [hpc]; trivial
    split_ifs at h
    case neg => exact Option.some.inj h ▸ .fails _ hblock
    rcases updateRow_cases h with ⟨e, rfl⟩ | ⟨u, hu, ⟨p, hrow, hv, hl, rfl⟩ | ⟨hv, rfl⟩⟩
    · exact .fails e hblock
    · have hv' : p.version = version := by simpa using hv
      subst hv'
      exact .swaps hpc hu hrow hs hl
    · exact .misses hpc hu fun p hp => by simpa using hv p hp
  · rename_i u attempt hpc
    split_ifs at h with hr
    · cases h
      exact .retries hpc hr
    · cases h
      exact .givesUp hpc (by simpa using hr)
  · exact does_of_recordReservation h

lemma does_of_reserveAtomic (hs : call.strategy = .atomic)
    (h : reserveAtomic cfg s c call = some eff) : Does cfg s c call eff := by
  unfold reserveAtomic at h
  split at h
  · rename_i attempt hpc
    split at h
    · cases h
      exact .fails _ (by rw [hpc]; trivial)
    · rename_i u hu
      cases h
      exact .counts hpc hu hs
  · rename_i hpc
    have hblock : call.pc.InBlock := by rw [hpc]; trivial
    split_ifs at h
    case neg => exact Option.some.inj h ▸ .fails _ hblock
    rcases updateRow_cases h with ⟨e, rfl⟩ | ⟨u, hu, ⟨p, hrow, hq, hl, rfl⟩ | ⟨_, rfl⟩⟩
    · exact .fails e hblock
    · exact .decrements hpc hu hrow (by simpa using hq) hs hl
    · exact .fails _ hblock
  · exact does_of_recordReservation h

lemma does_of_reserveDistributedLock (hs : call.strategy = .locked)
    (h : reserveDistributedLock cfg s c call = some eff) : Does cfg s c call eff := by
  unfold reserveDistributedLock at h
  split at h
  · rename_i deadline hpc
    split at h
    rename_i cache acquired hpoll
    split_ifs at h with ha hd
    · cases h
      exact .acquires hpc (by rw [hpoll, ha])
    · cases h
      exact .timesOut hpc hd
    · cases h
      exact .waits hpc (by omega)
  · rename_i o hpc
    split at h
    · rename_i cache r hrel
      cases h
      exact .releases hpc hrel (.inl rfl)
    · rename_i cache e hrel
      cases h
      exact .releases hpc hrel (.inr ⟨e, rfl⟩)
  · exact does_of_readModifyWrite (by simp [hs]) (by simp [hs]) h

/-- The inversion of `reserveProduct`, over all strategies. -/
theorem does_of_reserveProduct (h : reserveProduct cfg s c call = some eff) :
    Does cfg s c call eff := by
  unfold reserveProduct at h
  split at h
  · rename_i hs
    exact does_of_readModifyWrite (by simp [hs]) (by simp [hs]) h
  · rename_i hs
    exact does_of_reserveOptimistic hs h
  · rename_i hs
    exact does_of_readModifyWrite (by simp [hs]) (by simp [hs]) h
  · rename_i hs
    exact does_of_reserveAtomic hs h
  · rename_i hs
    exact does_of_reserveDistributedLock hs h

/-- What one step of the system can be. -/
inductive Took (cfg : Config) (s : State) : Action → State → Prop
  | start {c : CallId} {productId : String} {req : ReserveRequest} {strategy : ReserveStrategy}
      (fresh : s.calls c = none) :
      Took cfg s (.start c productId req strategy) { s with
        calls := Function.update s.calls c
          (some ⟨productId, req.quantity, strategy, startPc cfg s.now strategy⟩) }
  | op {c : CallId} {call : Call} {eff : Effect} (running : s.calls c = some call)
      (does : Does cfg s c call eff) : Took cfg s (.op c) (s.apply c call eff)
  | abort {c : CallId} {call : Call} {eff : Effect} (running : s.calls c = some call)
      (effect : abortEffect call.pc = some eff) : Took cfg s (.abort c) (s.apply c call eff)
  | crash {c : CallId} {call : Call} (running : s.calls c = some call)
      (unfinished : ∀ o, call.pc ≠ .done o) :
      Took cfg s (.crash c) { s.setCall c call (.done (.raised (.aborted "process died"))) with
        rowLock := releaseAll s.rowLock c }
  | tick (d : ℕ) : Took cfg s (.tick d) { s with now := s.now + d }

theorem took_of_step {a : Action} (h : step cfg s a = some t) : Took cfg s a t := by
  cases a with
  | start c productId req strategy =>
    simp only [step] at h
    split at h
    · cases h
    · rename_i hc
      cases h
      exact .start hc
  | op c =>
    simp only [step] at h
    split at h
    · cases h
    · rename_i call hc
      obtain ⟨eff, heff, rfl⟩ := Option.map_eq_some_iff.mp h
      exact .op hc (does_of_reserveProduct heff)
  | abort c =>
    simp only [step] at h
    split at h
    · cases h
    · rename_i call hc
      obtain ⟨eff, heff, rfl⟩ := Option.map_eq_some_iff.mp h
      exact .abort hc heff
  | crash c =>
    simp only [step] at h
    split at h
    · cases h
    · rename_i call hc
      split at h
      · cases h
      · rename_i hne
        cases h
        exact .crash hc fun o ho => hne o ho
  | tick d =>
    simp only [step, Option.some.injEq] at h
    exact h ▸ .tick d

lemma abortEffect_cases {pc : Pc} (h : abortEffect pc = some eff) :
    (pc.InBlock ∧ ∃ e, eff = .fail e) ∨
      ((∃ deadline, pc = .acquire deadline) ∧ ∃ e, eff = .goto (.done (.raised e))) := by
  cases pc <;> simp only [abortEffect, Option.some.injEq, reduceCtorEq] at h <;> subst h
  · exact .inr ⟨⟨_, rfl⟩, _, rfl⟩
  all_goals exact .inl ⟨trivial, _, rfl⟩

def Effect.pc (call : Call) : Effect → Pc
  | .goto pc => pc
  | .lockRow _ pc => pc
  | .publish _ r => call.exit (.returned r)
  | .commitNoop _ pc => pc
  | .fail e => call.exit (.raised e)
  | .setCache _ pc => pc

@[simp] theorem apply_calls (s : State) (c : CallId) (call : Call) (eff : Effect) :
    (s.apply c call eff).calls =
      Function.update s.calls c (some { call with pc := eff.pc call }) := by
  cases eff <;> rfl

@[simp] theorem apply_products (s : State) (c : CallId) (call : Call) (eff : Effect) :
    (s.apply c call eff).products = match eff with
      | .publish w _ => Function.update s.products w.product (some w.row)
      | _ => s.products := by
  cases eff <;> rfl

@[simp] theorem apply_reservations (s : State) (c : CallId) (call : Call) (eff : Effect) :
    (s.apply c call eff).reservations = match eff with
      | .publish _ r => s.reservations ++ [⟨c, r⟩]
      | _ => s.reservations := by
  cases eff <;> rfl

lemma apply_rows (s : State) (c : CallId) (call : Call) {eff : Effect}
    (hn : ∀ w r, eff ≠ .publish w r) :
    (s.apply c call eff).products = s.products ∧
      (s.apply c call eff).reservations = s.reservations := by
  cases eff with
  | publish w r => exact absurd rfl (hn w r)
  | _ => exact ⟨rfl, rfl⟩

@[simp] theorem apply_history (s : State) (c : CallId) (call : Call) (eff : Effect) :
    (s.apply c call eff).history = match eff with
      | .publish w r => s.history ++ [⟨c, w.product, s.products w.product, some w.row, [r]⟩]
      | .commitNoop u _ => s.history ++ [⟨c, u, s.products u, s.products u, []⟩]
      | _ => s.history := by
  cases eff <;> rfl

@[simp] theorem apply_rowLock (s : State) (c : CallId) (call : Call) (eff : Effect) :
    (s.apply c call eff).rowLock = match eff with
      | .lockRow u _ => take s.rowLock u c
      | .publish _ _ | .commitNoop _ _ | .fail _ => releaseAll s.rowLock c
      | _ => s.rowLock := by
  cases eff <;> rfl

lemma exit_eq (call : Call) (o : Outcome) : call.exit o = .release o ∨ call.exit o = .done o := by
  unfold Call.exit
  split_ifs
  · exact .inl rfl
  · exact .inr rfl

theorem call_of_step {a : Action} {d : CallId} {call' : Call} (h : step cfg s a = some t)
    (hd : t.calls d = some call') :
    (∃ call, s.calls d = some call ∧ call'.productId = call.productId ∧
      call'.strategy = call.strategy) ∨
    ∃ req, a = .start d call'.productId req call'.strategy := by
  have hmoved {c : CallId} {call : Call} {pc : Pc} (hc : s.calls c = some call)
      (hd : Function.update s.calls c (some { call with pc }) d = some call') :
      ∃ call, s.calls d = some call ∧ call'.productId = call.productId ∧
        call'.strategy = call.strategy := by
    rcases update_eq_some.mp hd with ⟨rfl, rfl⟩ | ⟨_, hd⟩
    · exact ⟨call, hc, rfl, rfl⟩
    · exact ⟨call', hd, rfl, rfl⟩
  cases took_of_step h with
  | @start c productId req strategy _ =>
    rcases update_eq_some.mp hd with ⟨rfl, rfl⟩ | ⟨_, hd⟩
    · exact .inr ⟨req, rfl⟩
    · exact .inl ⟨call', hd, rfl, rfl⟩
  | op hc _ | abort hc _ =>
    rw [apply_calls] at hd
    exact .inl (hmoved hc hd)
  | crash hc _ => exact .inl (hmoved hc hd)
  | tick _ => exact .inl ⟨call', hd, rfl, rfl⟩

lemma step_commit {w : Write} {r : ProductReservation} (hc : s.calls c = some call)
    (hpc : call.pc = .commit w r) :
    step cfg s (.op c) = some (s.apply c call (.publish w r)) := by
  simp only [step, hc, reserveProduct]
  cases hs : call.strategy <;>
    simp [reserveNaive, reservePessimistic, reserveOptimistic, reserveAtomic,
      reserveDistributedLock, readModifyWrite, recordReservation, hpc]

/-- A step changes committed rows only by publishing the write of a call at its COMMIT. -/
theorem step_rows {a : Action} (h : step cfg s a = some t) :
    (t.products = s.products ∧ t.reservations = s.reservations) ∨
    ∃ c call w r, a = .op c ∧ s.calls c = some call ∧ call.pc = .commit w r ∧
      t = s.apply c call (.publish w r) := by
  cases took_of_step h with
  | start _ | crash _ _ | tick _ => exact .inl ⟨rfl, rfl⟩
  | abort _ heff =>
    rcases abortEffect_cases heff with ⟨_, e, rfl⟩ | ⟨_, e, rfl⟩ <;> exact .inl ⟨rfl, rfl⟩
  | op hc hd =>
    cases hd with
    | publishes hpc => exact .inr ⟨_, _, _, _, rfl, hc, hpc, rfl⟩
    | _ => exact .inl ⟨rfl, rfl⟩

lemma rowLock_of_does {c d : CallId} {call : Call} {eff : Effect} {u : Uuid}
    (h : Does cfg s c call eff) (hne : d ≠ c) (hl : s.rowLock u = some d) :
    (s.apply c call eff).rowLock u = some d := by
  cases h with
  | readsForUpdate _ _ _ _ _ ha | overwrites _ _ _ _ ha | swaps _ _ _ _ ha
  | decrements _ _ _ _ _ ha => exact take_eq_some_of_ne ha hl hne
  | fails _ _ | retries _ _ | givesUp _ _ | publishes _ => exact releaseAll_eq_some.mpr ⟨hl, hne⟩
  | _ => exact hl

lemma rowLock_of_abort {c d : CallId} {call : Call} {eff : Effect} {u : Uuid}
    (h : abortEffect call.pc = some eff) (hne : d ≠ c) (hl : s.rowLock u = some d) :
    (s.apply c call eff).rowLock u = some d := by
  rcases abortEffect_cases h with ⟨_, e, rfl⟩ | ⟨_, e, rfl⟩
  · exact releaseAll_eq_some.mpr ⟨hl, hne⟩
  · exact hl

end AsyncDataHub.Inventory
