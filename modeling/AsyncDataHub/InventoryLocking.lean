import AsyncDataHub.InventoryPending
import AsyncDataHub.InventoryRows

/-! Pessimistic and atomic reservations on one product, mixed freely. A pessimistic call has the row
lock from its read on, an atomic one from its UPDATE on, and both until their transaction ends. -/
namespace AsyncDataHub.Inventory
open StepSystem LockTable OwnedRows

variable {cfg : Config} {s t : State} {pid : Uuid} {S : ℤ}

def ReserveStrategy.LocksRow (strategy : ReserveStrategy) : Prop :=
  strategy = .pessimistic ∨ strategy = .atomic

/-- Reservations on the product lock its row; other products are not restricted. -/
def OnlyLocking (cfg : Config) (pid : Uuid) (_ : State) : Action → Prop
  | .start _ productId _ strategy => cfg.uuidOf productId = some pid → strategy.LocksRow
  | _ => True

/-- What a call of these strategies works with is the stock of the row that it has locked. -/
def Call.Locked (cfg : Config) (pid : Uuid) (s : State) (c : CallId) (call : Call) : Prop :=
  cfg.uuidOf call.productId = some pid → call.strategy.LocksRow →
    match call.pc with
    | .update _ stock _ => s.rowLock pid = some c ∧ ∃ p, s.products pid = some p ∧ p.stock = stock
    | .record w | .commit w _ =>
      s.rowLock pid = some c ∧ ∃ p, s.products pid = some p ∧ p.stock = w.base
    | _ => True

structure LockingInv (cfg : Config) (pid : Uuid) (S : ℤ) (s : State) : Prop where
  pending : PendingInv s
  locking : ∀ c call, s.calls c = some call → cfg.uuidOf call.productId = some pid →
    call.strategy.LocksRow
  locked : ∀ c call, s.calls c = some call → call.Locked cfg pid s c
  conserved : Conserved pid S s

lemma locked_end {c : CallId} (call : Call) {o : Outcome} {pc : Pc}
    (h : pc = .release o ∨ pc = .done o) : Call.Locked cfg pid s c { call with pc } := by
  intro _ _
  rcases h with rfl | rfl <;> trivial

lemma locked_startPc {c : CallId} {productId : String} {q : ℤ} {strategy : ReserveStrategy}
    {now : ℕ} : Call.Locked cfg pid s c ⟨productId, q, strategy, startPc cfg now strategy⟩ := by
  intro _ hs
  rcases hs with rfl | rfl <;> trivial

lemma Call.Locked.frame {c : CallId} {call : Call} (hu : Undisturbed s t c)
    (h : call.Locked cfg pid s c) : call.Locked cfg pid t c := by
  intro hpid hs
  have h' := h hpid hs
  cases hpc : call.pc <;> simp only [hpc] at h' ⊢
  all_goals
    obtain ⟨hlock, p, hp, hstock⟩ := h'
    obtain ⟨hlock', hrow⟩ := hu pid hlock
    exact ⟨hlock', p, hrow ▸ hp, hstock⟩

lemma atomic_select {c : CallId} {call : Call} {eff : Effect} {attempt : ℕ}
    (hs : call.strategy = .atomic) (hpc : call.pc = .select attempt)
    (h : reserveProduct cfg s c call = some eff) :
    eff = .goto .decrement ∨ ∃ e, eff = .fail e := by
  simp only [reserveProduct, hs, reserveAtomic, hpc] at h
  split at h
  · cases h
    exact .inr ⟨_, rfl⟩
  · cases h
    exact .inl rfl

lemma locked_of_does {c : CallId} {call : Call} {eff : Effect}
    (heff : reserveProduct cfg s c call = some eff) (hl : call.Locked cfg pid s c) :
    Call.Locked cfg pid (s.apply c call eff) c { call with pc := eff.pc call } := by
  intro hpid hs
  have hpid' : cfg.uuidOf call.productId = some pid := hpid
  have hs' : call.strategy.LocksRow := hs
  have hl' := hl hpid' hs'
  have hsame {u : Uuid} (hu : cfg.uuidOf call.productId = some u) : u = pid := by
    rw [hpid', Option.some.injEq] at hu
    exact hu.symm
  cases does_of_reserveProduct heff with
  | fails e _ => exact locked_end call (exit_eq call _) hpid hs
  | publishes _ => exact locked_end call (exit_eq call _) hpid hs
  | reads hpc _ _ _ hstrat =>
    have hatomic : call.strategy = .atomic := hs'.resolve_left hstrat
    rcases atomic_select hatomic hpc heff with he | ⟨e, he⟩ <;> cases he
  | readsForUpdate _ hu hrow _ _ _ =>
    obtain rfl := hsame hu
    exact ⟨take_self .., _, hrow, rfl⟩
  | overwrites hpc hu hrow _ _ =>
    obtain rfl := hsame hu
    simp only [hpc] at hl'
    exact ⟨take_self .., hl'.2⟩
  | swaps _ _ _ hstrat _ =>
    rcases hs' with hne | hne <;> rw [hstrat] at hne <;> cases hne
  | decrements _ hu hrow _ _ _ =>
    obtain rfl := hsame hu
    exact ⟨take_self .., _, hrow, rfl⟩
  | records hpc =>
    simp only [hpc] at hl'
    exact hl'
  | _ => trivial

theorem lockingInv_step {a : Action} (hok : CallsOk cfg s) (hi : LockingInv cfg pid S s)
    (hg : OnlyLocking cfg pid s a) (h : step cfg s a = some t) : LockingInv cfg pid S t := by
  refine ⟨pendingInv_step h hi.pending, fun d call' hd hpid => ?_, ?_, ?_⟩
  · rcases call_of_step h hd with ⟨call, hc, hid, hstrat⟩ | ⟨req, rfl⟩
    · rw [hstrat]
      exact hi.locking d call hc (hid ▸ hpid)
    · exact hg hpid
  · exact callInv_step (Φ := fun s c call => call.Locked cfg pid s c) hi.pending
      (fun hu hl => hl.frame hu) locked_startPc (locked_end _)
      (fun _ heff hl => locked_of_does heff hl) h hi.locked
  · refine (conserved_step_iff a hok hi.conserved h).mpr ?_
    cases a with
    | op c =>
      intro call w r hc hpc hw
      have hasked := hok c call hc
      simp only [Call.Ok, hpc] at hasked
      obtain ⟨⟨hu, _⟩, hprod, _⟩ := hasked
      have hpid : cfg.uuidOf call.productId = some pid := by rw [hu, hprod, hw]
      have hl := hi.locked c call hc hpid (hi.locking c call hc hpid)
      simp only [hpc] at hl
      exact hl.2
    | _ => trivial

/-- While only pessimistic and atomic calls reserve a product, its ledger balances; a call that
returned has its one row, a call that raised has none and has changed nothing. -/
theorem locking_reservations_safe (cfg : Config) {pid : Uuid} {req : ProductRequest}
    {s₀ s : State} (h₀ : Created pid req s₀)
    (h : ReachVia (step cfg) (OnlyLocking cfg pid) s₀ s) :
    Conserved pid req.stock s ∧
    ∀ c call, s.calls c = some call → cfg.uuidOf call.productId = some pid →
      (∀ r, call.pc = .done (.returned r) → rowsBy c s.reservations = [⟨c, r⟩] ∧
        r.productId = pid ∧ r.quantity = call.quantity) ∧
      (∀ e, call.pc = .done (.raised e) → rowsBy c s.reservations = [] ∧
        ∀ x ∈ s.history, x.call = c → x.after = x.before ∧ x.inserted = []) := by
  have hidle : ∀ (P : CallId → Call → Prop) c call, s₀.calls c = some call → P c call := by
    intro P c call hc
    rw [h₀.idle c] at hc
    cases hc
  have hok : ∀ u, ReachVia (step cfg) (OnlyLocking cfg pid) s₀ u → CallsOk cfg u := fun u hu =>
    hu.invariant h₀.callsOk fun _ _ _ hi _ ht => callsOk_step ht hi
  have hinv : LockingInv cfg pid req.stock s :=
    h.invariant_with hok ⟨hidle _, hidle _, hidle _, h₀.conserved⟩
      fun _ _ _ hok hi hg ht => lockingInv_step hok hi hg ht
  refine ⟨hinv.conserved, fun c call hc hpid => finished_reach h₀ h.reach hc hpid ?_⟩
  rcases hinv.locking c call hc hpid with hs | hs <;> simp [hs]

/-- A pessimistic call has read the row and holds its lock; the atomic UPDATE waits for it. -/
def waitedUpdate : List Action :=
  [.start 0 widgetId threeUnits .pessimistic, .start 1 widgetId fourUnits .atomic,
    .op 0, .op 1, .op 0, .op 0, .op 0, .op 1, .op 1, .op 1]

theorem locking_reservations_safe_waitedUpdate :
    ∃ s, exec (step widgetConfig) widgetState waitedUpdate = some s ∧ Conserved 1 10 s ∧
      rowsBy 1 s.reservations = [⟨1, ⟨3, 1, 4, 0⟩⟩] := by
  obtain ⟨s, hs, call, hc, hid, hpc⟩ :
      ∃ s, exec (step widgetConfig) widgetState waitedUpdate = some s ∧
        ∃ call, s.calls 1 = some call ∧ call.productId = widgetId ∧
          call.pc = .done (.returned ⟨3, 1, 4, 0⟩) := ⟨_, rfl, _, rfl, rfl, rfl⟩
  have hreach : ReachVia (step widgetConfig) (OnlyLocking widgetConfig 1) widgetState s :=
    reachVia_of_exec waitedUpdate hs
      (guarded_of_forall_mem (by simp [waitedUpdate, OnlyLocking, ReserveStrategy.LocksRow]) _)
  obtain ⟨hcons, hcalls⟩ := locking_reservations_safe widgetConfig widgetState_created hreach
  have hu : widgetConfig.uuidOf call.productId = some 1 := by simp [widgetConfig, hid]
  exact ⟨s, hs, hcons, ((hcalls 1 call hc hu).1 _ hpc).1⟩

end AsyncDataHub.Inventory
