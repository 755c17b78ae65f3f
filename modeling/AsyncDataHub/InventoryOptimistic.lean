import AsyncDataHub.InventoryRows

/-! Optimistic reservations on one product, in any interleaving and with any bound on the number
of attempts. What makes the absolute write safe: equal versions mean equal stock. -/
namespace AsyncDataHub.Inventory
open StepSystem LockTable OwnedRows

variable {cfg : Config} {s t : State} {pid : Uuid} {S : ℤ}

/-- Reservations on the product are optimistic; other products are not restricted. -/
def OnlyOptimistic (cfg : Config) (pid : Uuid) (_ : State) : Action → Prop
  | .start _ productId _ strategy =>
    cfg.uuidOf productId = some pid → strategy = .optimistic
  | _ => True

def Versioned (pid : Uuid) (S : ℤ) (s : State) : Prop :=
  ∃ p, s.products pid = some p ∧ 0 ≤ p.stock ∧ p.stock + reserved pid s.reservations = S ∧
    p.version = 1 + (rowsOf pid s.reservations).length

/-- What a call has read or written agrees with the committed row `p`: equal versions mean equal
stock, and a pending write has the row lock and was computed from the row as it is. -/
def Call.Agrees (cfg : Config) (pid : Uuid) (p : Product) (holder : Option CallId) (c : CallId)
    (call : Call) : Prop :=
  match call.pc with
  | .update _ stock version => cfg.uuidOf call.productId = some pid →
      version ≤ p.version ∧ (version = p.version → stock = p.stock)
  | .record w | .commit w _ => w.product = pid →
      holder = some c ∧ w.base = p.stock ∧ w.row.version = p.version + 1
  | _ => True

structure OptimisticInv (cfg : Config) (pid : Uuid) (S : ℤ) (s : State) : Prop where
  versioned : Versioned pid S s
  optimistic : ∀ c call, s.calls c = some call → cfg.uuidOf call.productId = some pid →
    call.strategy = .optimistic
  agrees : ∀ c call p, s.calls c = some call → s.products pid = some p →
    call.Agrees cfg pid p (s.rowLock pid) c

lemma Versioned.conserved (h : Versioned pid S s) : Conserved pid S s := by
  obtain ⟨p, hp, hpos, hsum, _⟩ := h
  exact ⟨p, hp, hpos, hsum⟩

lemma agrees_exit {p : Product} {holder : Option CallId} {c : CallId} (call : Call)
    (o : Outcome) : Call.Agrees cfg pid p holder c { call with pc := call.exit o } := by
  rcases exit_eq call o with h | h <;> rw [h] <;> trivial

lemma agrees_startPc {p : Product} {holder : Option CallId} {c : CallId} (now : ℕ)
    (productId : String) (q : ℤ) (strategy : ReserveStrategy) :
    Call.Agrees cfg pid p holder c ⟨productId, q, strategy, startPc cfg now strategy⟩ := by
  cases strategy <;> simp only [startPc]
  case optimistic => split_ifs <;> trivial
  all_goals trivial

lemma Call.Agrees.of_lock {p : Product} {holder holder' : Option CallId} {c : CallId} {call : Call}
    (h : call.Agrees cfg pid p holder c) (hl : holder = some c → holder' = some c) :
    call.Agrees cfg pid p holder' c := by
  unfold Call.Agrees at *
  cases hpc : call.pc <;> simp only [hpc] at h ⊢
  case update => exact h
  all_goals exact fun hw => ⟨hl (h hw).1, (h hw).2⟩

lemma Call.Agrees.of_raised {p p' : Product} {holder : Option CallId} {c d : CallId} {call : Call}
    (h : call.Agrees cfg pid p (some c) d) (hne : d ≠ c) (hv : p'.version = p.version + 1) :
    call.Agrees cfg pid p' holder d := by
  unfold Call.Agrees at *
  cases hpc : call.pc <;> simp only [hpc] at h ⊢
  case update =>
    intro hu
    obtain ⟨hle, _⟩ := h hu
    exact ⟨by omega, fun he => by omega⟩
  all_goals exact fun hw => absurd (Option.some.inj (h hw).1).symm hne

/-- The statements of one call keep what it knows of the row. A swap that hits finds the version
of the read, so the stock of the read. -/
lemma agrees_of_does {c : CallId} {call : Call} {eff : Effect} {p : Product}
    (hs : cfg.uuidOf call.productId = some pid → call.strategy = .optimistic)
    (ha : call.Agrees cfg pid p (s.rowLock pid) c) (hp : s.products pid = some p)
    (h : Does cfg s c call eff) :
    Call.Agrees cfg pid p ((s.apply c call eff).rowLock pid) c
      { call with pc := eff.pc call } := by
  cases h with
  | fails e _ => exact agrees_exit call _
  | publishes _ => exact agrees_exit call _
  | reads _ hu hrow _ _ =>
    intro hpid
    rw [hpid, Option.some.injEq] at hu
    subst hu
    rw [hp, Option.some.injEq] at hrow
    subst hrow
    exact ⟨le_rfl, fun _ => rfl⟩
  | readsForUpdate _ _ _ _ hstrat _ =>
    intro hpid
    rw [hs hpid] at hstrat
    cases hstrat
  | overwrites _ hu _ hstrat _ =>
    rintro rfl
    exact absurd (hs hu) hstrat
  | decrements _ hu _ _ hstrat _ =>
    rintro rfl
    rw [hs hu] at hstrat
    cases hstrat
  | swaps hpc hu hrow _ _ =>
    rintro rfl
    simp only [Call.Agrees, hpc] at ha
    rw [hp, Option.some.injEq] at hrow
    subst hrow
    exact ⟨by simp, (ha hu).2 rfl, rfl⟩
  | records hpc =>
    simp only [Call.Agrees, hpc] at ha
    exact ha
  | _ => trivial

lemma versioned_publish {c : CallId} {call : Call} {w : Write} {r : ProductReservation}
    (hok : call.Ok cfg) (hpc : call.pc = .commit w r)
    (ha : ∀ p, s.products pid = some p → call.Agrees cfg pid p (s.rowLock pid) c)
    (hv : Versioned pid S s) : Versioned pid S (s.apply c call (.publish w r)) := by
  have hcons : Conserved pid S (s.apply c call (.publish w r)) := by
    refine (conserved_publish_iff hok hpc hv.conserved).mpr fun hw => ?_
    obtain ⟨p, hp, _⟩ := hv
    have hag := ha p hp
    simp only [Call.Agrees, hpc] at hag
    exact ⟨p, hp, (hag hw).2.1.symm⟩
  obtain ⟨p', hp', hpos, hsum⟩ := hcons
  refine ⟨p', hp', hpos, hsum, ?_⟩
  obtain ⟨p, hp, _, _, hver⟩ := hv
  have hag := ha p hp
  simp only [Call.Agrees, hpc] at hag
  simp only [Call.Ok, hpc] at hok
  rw [apply_products] at hp'
  rw [apply_reservations, rowsOf_append, hok.2.1]
  by_cases hw : w.product = pid
  · subst hw
    simp only [Function.update_self, Option.some.injEq] at hp'
    subst hp'
    obtain ⟨_, _, hv'⟩ := hag rfl
    simp only [↓reduceIte, Nat.cast_add, Nat.cast_one]
    omega
  · simp only [Function.update_of_ne (Ne.symm hw), hp, Option.some.injEq] at hp'
    subst hp'
    simpa [hw] using hver

lemma optimisticInv_publish {c : CallId} {call : Call} {w : Write} {r : ProductReservation}
    (hok : call.Ok cfg) (hc : s.calls c = some call) (hpc : call.pc = .commit w r)
    (hi : OptimisticInv cfg pid S s) :
    OptimisticInv cfg pid S (s.apply c call (.publish w r)) := by
  refine ⟨versioned_publish hok hpc (fun p hp => hi.agrees c call p hc hp) hi.versioned,
    ?_, fun d call' p' hd hp' => ?_⟩
  · rw [apply_calls]
    exact forall_update hi.optimistic (hi.optimistic c call hc)
  · rw [apply_calls] at hd
    rcases update_eq_some.mp hd with ⟨_, rfl⟩ | ⟨hne, hd⟩
    · exact agrees_exit call _
    · obtain ⟨p, hp, _⟩ := hi.versioned
      have hag := hi.agrees d call' p hd hp
      have hmine := hi.agrees c call p hc hp
      simp only [Call.Agrees, hpc] at hmine
      rw [apply_products] at hp'
      by_cases hw : w.product = pid
      · subst hw
        obtain ⟨hlock, _, hv⟩ := hmine rfl
        simp only [Function.update_self, Option.some.injEq] at hp'
        subst hp'
        rw [hlock] at hag
        exact hag.of_raised hne hv
      · simp only [Function.update_of_ne (Ne.symm hw), hp, Option.some.injEq] at hp'
        subst hp'
        have hdoes : Does cfg s c call (.publish w r) := .publishes hpc
        exact hag.of_lock (rowLock_of_does hdoes hne)

/-- A step that changes no committed row keeps the invariant if it keeps it for the acting call. -/
lemma optimisticInv_apply {c : CallId} {call : Call} {eff : Effect} (hc : s.calls c = some call)
    (hi : OptimisticInv cfg pid S s)
    (hrows : (s.apply c call eff).products = s.products ∧
      (s.apply c call eff).reservations = s.reservations)
    (hlock : ∀ d, d ≠ c → s.rowLock pid = some d → (s.apply c call eff).rowLock pid = some d)
    (hcall : ∀ p, s.products pid = some p →
      Call.Agrees cfg pid p ((s.apply c call eff).rowLock pid) c { call with pc := eff.pc call }) :
    OptimisticInv cfg pid S (s.apply c call eff) := by
  obtain ⟨hprod, hres⟩ := hrows
  refine ⟨?_, ?_, fun d call' p hd hp => ?_⟩
  · unfold Versioned
    rw [hprod, hres]
    exact hi.versioned
  · rw [apply_calls]
    exact forall_update hi.optimistic (hi.optimistic c call hc)
  · rw [apply_calls] at hd
    rw [hprod] at hp
    rcases update_eq_some.mp hd with ⟨rfl, rfl⟩ | ⟨hne, hd⟩
    · exact hcall p hp
    · exact (hi.agrees d call' p hd hp).of_lock (hlock d hne)

theorem optimisticInv_step {a : Action} (hok : CallsOk cfg s) (hi : OptimisticInv cfg pid S s)
    (hg : OnlyOptimistic cfg pid s a) (h : step cfg s a = some t) : OptimisticInv cfg pid S t := by
  cases took_of_step h with
  | @start c productId req strategy _ =>
    refine ⟨hi.versioned, forall_update hi.optimistic hg, fun d call' p hd hp => ?_⟩
    · rcases update_eq_some.mp hd with ⟨_, rfl⟩ | ⟨_, hd⟩
      · exact agrees_startPc ..
      · exact hi.agrees d call' p hd hp
  | @op c call eff hc hd =>
    by_cases hn : ∃ w r, eff = .publish w r
    · obtain ⟨w, r, rfl⟩ := hn
      cases hd with
      | publishes hpc => exact optimisticInv_publish (hok c call hc) hc hpc hi
    · have hrows := apply_rows s c call fun w r he => hn ⟨w, r, he⟩
      exact optimisticInv_apply hc hi hrows (fun d hne => rowLock_of_does hd hne) fun p hp =>
        agrees_of_does (hi.optimistic c call hc) (hi.agrees c call p hc hp) hp hd
  | @abort c call eff hc heff =>
    have hcall : ∀ p, s.products pid = some p → Call.Agrees cfg pid p
        ((s.apply c call eff).rowLock pid) c { call with pc := eff.pc call } := by
      intro p _
      rcases abortEffect_cases heff with ⟨_, e, rfl⟩ | ⟨_, e, rfl⟩
      · exact agrees_exit call _
      · trivial
    refine optimisticInv_apply hc hi ?_ (fun d hne => rowLock_of_abort heff hne) hcall
    rcases abortEffect_cases heff with ⟨_, e, rfl⟩ | ⟨_, e, rfl⟩ <;> exact ⟨rfl, rfl⟩
  | @crash c call hc _ =>
    refine ⟨hi.versioned, forall_update hi.optimistic (hi.optimistic c call hc),
      fun d call' p hd hp => ?_⟩
    · rcases update_eq_some.mp hd with ⟨_, rfl⟩ | ⟨hne, hd⟩
      · trivial
      · exact (hi.agrees d call' p hd hp).of_lock fun hl => releaseAll_eq_some.mpr ⟨hl, hne⟩
  | tick _ => exact ⟨hi.versioned, hi.optimistic, hi.agrees⟩

lemma Created.optimisticInv {req : ProductRequest} (h : Created pid req s) :
    OptimisticInv cfg pid req.stock s := by
  refine ⟨⟨addProduct req, h.row, req.stock_pos.le, ?_, ?_⟩, fun c call hc => ?_,
    fun c call p hc => ?_⟩
  · simp [h.noRows, reserved, rowsOf, addProduct]
  · simp [h.noRows, rowsOf, addProduct]
  all_goals
    rw [h.idle c] at hc
    cases hc

/-- While only optimistic calls reserve a product, its ledger balances and its version counts the
reservations; a call that returned has its one row, a call that raised has none and each of its
transactions has left the product as it was. -/
theorem optimistic_reservations_safe (cfg : Config) {pid : Uuid} {req : ProductRequest}
    {s₀ s : State} (h₀ : Created pid req s₀)
    (h : ReachVia (step cfg) (OnlyOptimistic cfg pid) s₀ s) :
    Versioned pid req.stock s ∧
    ∀ c call, s.calls c = some call → cfg.uuidOf call.productId = some pid →
      (∀ r, call.pc = .done (.returned r) → rowsBy c s.reservations = [⟨c, r⟩] ∧
        r.productId = pid ∧ r.quantity = call.quantity) ∧
      (∀ e, call.pc = .done (.raised e) → rowsBy c s.reservations = [] ∧
        ∀ x ∈ s.history, x.call = c → x.after = x.before ∧ x.inserted = []) := by
  have hok : ∀ u, ReachVia (step cfg) (OnlyOptimistic cfg pid) s₀ u → CallsOk cfg u := fun u hu =>
    hu.invariant h₀.callsOk fun _ _ _ hi _ ht => callsOk_step ht hi
  have hinv : OptimisticInv cfg pid req.stock s := h.invariant_with hok h₀.optimisticInv
    fun _ _ _ hok hi hg ht => optimisticInv_step hok hi hg ht
  refine ⟨hinv.versioned, fun c call hc hpid => ?_⟩
  have hopt := hinv.optimistic c call hc hpid
  exact finished_reach h₀ h.reach hc hpid (by simp [hopt])

/-- Call 0 reads ten units, call 1 takes four of them; the swap of call 0 misses, and its second
attempt takes three of the six that are left. -/
def retriedSwap : List Action :=
  [.start 0 widgetId threeUnits .optimistic, .start 1 widgetId fourUnits .optimistic,
    .op 0, .op 1, .op 1, .op 1, .op 1, .op 0, .op 0, .op 0, .op 0, .op 0, .op 0]

theorem optimistic_reservations_safe_retriedSwap :
    ∃ s, exec (step widgetConfig) widgetState retriedSwap = some s ∧ Versioned 1 10 s ∧
      rowsBy 0 s.reservations = [⟨0, ⟨2, 1, 3, 0⟩⟩] := by
  obtain ⟨s, hs, call, hc, hid, hpc⟩ :
      ∃ s, exec (step widgetConfig) widgetState retriedSwap = some s ∧
        ∃ call, s.calls 0 = some call ∧ call.productId = widgetId ∧
          call.pc = .done (.returned ⟨2, 1, 3, 0⟩) := ⟨_, rfl, _, rfl, rfl, rfl⟩
  have hreach : ReachVia (step widgetConfig) (OnlyOptimistic widgetConfig 1) widgetState s :=
    reachVia_of_exec retriedSwap hs
      (guarded_of_forall_mem (by simp [retriedSwap, OnlyOptimistic]) _)
  obtain ⟨hv, hcalls⟩ := optimistic_reservations_safe widgetConfig widgetState_created hreach
  have hu : widgetConfig.uuidOf call.productId = some 1 := by simp [widgetConfig, hid]
  exact ⟨s, hs, hv, ((hcalls 0 call hc hu).1 _ hpc).1⟩

end AsyncDataHub.Inventory
