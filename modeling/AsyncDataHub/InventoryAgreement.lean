import AsyncDataHub.InventoryStep

/-! The five strategies against each other, each of them as the only call that runs. -/
namespace AsyncDataHub.Inventory
open StepSystem LockTable OwnedRows Cache Lock ExpiringStore

structure Idle (s : State) (c : CallId) (productId : String) : Prop where
  fresh : s.calls c = none
  rows : ∀ u, s.rowLock u = none
  connected : s.cache.backend ≠ .disabled
  unlocked : live s.cache.store s.now ("product:" ++ productId) = none

/-- A statement of the call, or the passing of time. -/
def Action.OwnedBy (c : CallId) (a : Action) : Prop := a = .op c ∨ ∃ d, a = .tick d

/-- The call `c` runs from its start to its return, and nobody else does anything. -/
def ReservesAlone (cfg : Config) (s : State) (c : CallId) (productId : String)
    (req : ReserveRequest) (strategy : ReserveStrategy) (o : Outcome) (t : State) : Prop :=
  ∃ acts call, (∀ a ∈ acts, a.OwnedBy c) ∧
    exec (step cfg) s (.start c productId req strategy :: acts) = some t ∧
    t.calls c = some call ∧ call.pc = .done o

inductive Verdict
  | reserved
  | notFound
  | notEnough
  deriving DecidableEq

/-- The answers that the endpoint means to give; any other error is none of them. -/
def Outcome.verdict : Outcome → Option Verdict
  | .returned _ => some .reserved
  | .raised e =>
    if e = productNotFound then some .notFound
    else if e = notEnoughStock then some .notEnough
    else none

def State.stockOf (s : State) (cfg : Config) (productId : String) : Option ℤ :=
  ((cfg.uuidOf productId).bind s.products).map (·.stock)

/-- The reservations as a multiset of products and quantities. -/
def State.booked (s : State) : Multiset (Uuid × ℤ) :=
  s.reservations.map fun o => (o.row.productId, o.row.quantity)

/-- Every strategy returns when it runs alone; all of them with one verdict, one stock of the
product and one multiset of reservations, other products unchanged, and nothing changed by a
failure. -/
def StrategiesAgree (cfg : Config) (s : State) (c : CallId) (productId : String)
    (req : ReserveRequest) : Prop :=
  ∃ verdict stock booked, ∀ strategy,
    (∃ o t, ReservesAlone cfg s c productId req strategy o t) ∧
    ∀ o t, ReservesAlone cfg s c productId req strategy o t →
      o.verdict = some verdict ∧ t.stockOf cfg productId = stock ∧ t.booked = booked ∧
      (∀ u, cfg.uuidOf productId ≠ some u → t.products u = s.products u) ∧
      (verdict ≠ .reserved → t.products = s.products ∧ t.reservations = s.reservations)

/-- What each strategy makes of the rows, read off its statements. -/
def expected (cfg : Config) (s : State) (productId : String) (quantity : ℤ)
    (strategy : ReserveStrategy) : Except PyError (Uuid × Product) :=
  match cfg.uuidOf productId with
  | none => .error (.aborted "invalid UUID")
  | some u =>
    if strategy = .atomic ∧ fitsInteger quantity = false then .error outOfRange
    else
      match s.products u with
      | none => .error (if strategy = .atomic then notEnoughStock else productNotFound)
      | some p =>
        if p.stock < quantity then .error notEnoughStock
        else if strategy = .optimistic ∧ fitsInteger (nextVersion p.version) = false then
          .error outOfRange
        else .ok (u, p)

variable {cfg : Config} {s₀ s t : State} {c : CallId} {productId : String} {q : ℤ}
  {strategy : ReserveStrategy} {call : Call} {eff : Effect}

def Untouched (s₀ s : State) : Prop :=
  s.products = s₀.products ∧ s.reservations = s₀.reservations

def Leaves (s₀ : State) (c : CallId) (q : ℤ) (o : Outcome) (t : State) :
    Except PyError (Uuid × Product) → Prop
  | .error e => o = .raised e ∧ Untouched s₀ t
  | .ok (u, p) => ∃ r p', o = .returned r ∧ r.productId = u ∧ r.quantity = q ∧
      p'.stock = p.stock - q ∧ t.products = Function.update s₀.products u (some p') ∧
      t.reservations = s₀.reservations ++ [⟨c, r⟩]

def Phase (cfg : Config) (s₀ : State) (c : CallId) (call : Call) (s : State) : Prop :=
  let result := expected cfg s₀ call.productId call.quantity call.strategy
  match call.pc with
  | .acquire _ =>
    Untouched s₀ s ∧ call.strategy = .locked ∧
      live s.cache.store s.now ("product:" ++ call.productId) = none
  | .select _ => Untouched s₀ s
  | .update _ stock version =>
    Untouched s₀ s ∧ call.strategy ≠ .atomic ∧ ∃ u p, cfg.uuidOf call.productId = some u ∧
      s.products u = some p ∧ stock = p.stock ∧ version = p.version ∧ call.quantity ≤ p.stock
  | .decrement =>
    Untouched s₀ s ∧ call.strategy = .atomic ∧ ∃ u, cfg.uuidOf call.productId = some u
  | .record w =>
    Untouched s₀ s ∧ ∃ p, result = .ok (w.product, p) ∧ w.row.stock = p.stock - call.quantity
  | .commit w r =>
    Untouched s₀ s ∧ r.productId = w.product ∧ r.quantity = call.quantity ∧
      ∃ p, result = .ok (w.product, p) ∧ w.row.stock = p.stock - call.quantity
  | .release o => call.strategy = .locked ∧ Leaves s₀ c call.quantity o s result
  | .done o => Leaves s₀ c call.quantity o s result
  | .commitMiss _ _ => False

/-- The state of a call that runs alone since `s₀`. -/
structure Solo (cfg : Config) (s₀ : State) (c : CallId) (s : State) (call : Call) : Prop where
  found : s.calls c = some call
  connected : s.cache.backend ≠ .disabled
  lock : ∀ u, Available s.rowLock u c
  phase : Phase cfg s₀ c call s

def Pc.weight : Pc → ℕ
  | .acquire _ => 6
  | .select _ => 5
  | .update _ _ _ | .decrement => 4
  | .record _ => 3
  | .commit _ _ => 2
  | .release _ => 1
  | .commitMiss _ _ | .done _ => 0

/-- The call sends a statement that brings it nearer to its end. -/
def Advances (cfg : Config) (s₀ : State) (c : CallId) (s : State) (call : Call) (eff : Effect) :
    Prop :=
  reserveProduct cfg s c call = some eff ∧ (eff.pc call).weight < call.pc.weight ∧
    Solo cfg s₀ c (s.apply c call eff) { call with pc := eff.pc call }

lemma weight_exit_lt {n : ℕ} (hn : 1 < n) (call : Call) (o : Outcome) :
    (call.exit o).weight < n := by
  rcases exit_eq call o with h | h <;> rw [h] <;> simp [Pc.weight] <;> omega

lemma phase_exit {o : Outcome}
    (h : Leaves s₀ c call.quantity o s
      (expected cfg s₀ call.productId call.quantity call.strategy)) :
    Phase cfg s₀ c { call with pc := call.exit o } s := by
  unfold Call.exit
  split_ifs with hlocked
  · exact ⟨hlocked, h⟩
  · exact h

lemma available_releaseAll (h : ∀ u, Available s.rowLock u c) (u : Uuid) :
    Available (releaseAll s.rowLock c) u c := by
  intro d hd
  exact h u d (releaseAll_eq_some.mp hd).1

lemma available_take (h : ∀ u, Available s.rowLock u c) (u v : Uuid) :
    Available (take s.rowLock u c) v c := by
  intro d hd
  by_cases hv : v = u
  · subst hv
    rw [take_self, Option.some.injEq] at hd
    exact hd.symm
  · rw [take_of_ne _ hv] at hd
    exact h v d hd

lemma Solo.fails {e : PyError} (h : Solo cfg s₀ c s call) (hsame : Untouched s₀ s)
    (hexpected : expected cfg s₀ call.productId call.quantity call.strategy = .error e)
    (hsend : reserveProduct cfg s c call = some (.fail e)) (hw : 1 < call.pc.weight) :
    Advances cfg s₀ c s call (.fail e) := by
  refine ⟨hsend, weight_exit_lt hw call _, Function.update_self .., h.connected,
    available_releaseAll h.lock, phase_exit ?_⟩
  rw [hexpected]
  exact ⟨rfl, hsame⟩

lemma Solo.goes {pc : Pc} (h : Solo cfg s₀ c s call)
    (hsend : reserveProduct cfg s c call = some (.goto pc)) (hw : pc.weight < call.pc.weight)
    (hphase : Phase cfg s₀ c { call with pc } s) : Advances cfg s₀ c s call (.goto pc) :=
  ⟨hsend, hw, Function.update_self .., h.connected, h.lock, hphase⟩

lemma Solo.locks {u : Uuid} {pc : Pc} (h : Solo cfg s₀ c s call)
    (hsend : reserveProduct cfg s c call = some (.lockRow u pc)) (hw : pc.weight < call.pc.weight)
    (hphase : Phase cfg s₀ c { call with pc } s) : Advances cfg s₀ c s call (.lockRow u pc) :=
  ⟨hsend, hw, Function.update_self .., h.connected, available_take h.lock u, hphase⟩

lemma Solo.sets {cache : AsyncCache} {pc : Pc} (h : Solo cfg s₀ c s call)
    (hbackend : cache.backend = s.cache.backend)
    (hsend : reserveProduct cfg s c call = some (.setCache cache pc))
    (hw : pc.weight < call.pc.weight)
    (hphase : Phase cfg s₀ c { call with pc } { s with cache }) :
    Advances cfg s₀ c s call (.setCache cache pc) :=
  ⟨hsend, hw, Function.update_self .., fun hoff => h.connected (hbackend.symm.trans hoff), h.lock,
    hphase⟩

lemma advances_acquire {deadline : ℕ} (h : Solo cfg s₀ c s call)
    (hpc : call.pc = .acquire deadline) : ∃ eff, Advances cfg s₀ c s call eff := by
  have hphase := h.phase
  simp only [Phase, hpc] at hphase
  obtain ⟨hsame, hlocked, hfree⟩ := hphase
  have hpoll : ∃ cache, (lockOf cfg c call).poll s.cache s.now = (cache, true) ∧
      cache.backend = s.cache.backend := by
    rcases setnx_cases s.cache s.now ("product:" ++ call.productId) (cfg.tokenHex c)
      (some (lockOf cfg c call).ttlSeconds) with ⟨-, hoff | ⟨e, he⟩⟩ | ⟨hset, -, -⟩
    · exact absurd hoff h.connected
    · rw [hfree] at he
      cases he
    · exact ⟨_, hset, rfl⟩
  obtain ⟨cache, hpoll, hbackend⟩ := hpoll
  have hsend : reserveProduct cfg s c call = some (.setCache cache (.select 0)) := by
    simp [reserveProduct, hlocked, reserveDistributedLock, hpc, hpoll]
  exact ⟨_, h.sets hbackend hsend (by simp [hpc, Pc.weight]) hsame⟩

lemma advances_release {o : Outcome} (h : Solo cfg s₀ c s call) (hpc : call.pc = .release o) :
    ∃ eff, Advances cfg s₀ c s call eff := by
  have hphase := h.phase
  simp only [Phase, hpc] at hphase
  obtain ⟨hlocked, hleaves⟩ := hphase
  have hrelease : ∃ cache n, (lockOf cfg c call).release s.cache s.now = (cache, .ok n) ∧
      cache.backend = s.cache.backend := by
    unfold DistributedLock.release AsyncCache.evalRelease
    split
    · rename_i hoff
      exact absurd hoff h.connected
    · split
      · split_ifs
        · exact ⟨_, 1, rfl, rfl⟩
        · exact ⟨_, 0, rfl, rfl⟩
      · exact ⟨_, 0, rfl, rfl⟩
    · split
      · split_ifs
        · exact ⟨_, 1, rfl, rfl⟩
        · exact ⟨_, 0, rfl, rfl⟩
      · exact ⟨_, 0, rfl, rfl⟩
  obtain ⟨cache, n, hrelease, hbackend⟩ := hrelease
  have hsend : reserveProduct cfg s c call = some (.setCache cache (.done o)) := by
    simp [reserveProduct, hlocked, reserveDistributedLock, hpc, hrelease]
  exact ⟨_, h.sets hbackend hsend (by simp [hpc, Pc.weight]) hleaves⟩

lemma select_eq {attempt : ℕ} (hpc : call.pc = .select attempt) (hs : call.strategy ≠ .atomic) :
    reserveProduct cfg s c call =
      selectRow cfg s c call (decide (call.strategy = .pessimistic)) attempt := by
  unfold reserveProduct
  cases hstrategy : call.strategy
  case atomic => exact absurd hstrategy hs
  all_goals
    simp [reserveNaive, reservePessimistic, reserveOptimistic, reserveDistributedLock,
      readModifyWrite, hpc]

lemma advances_select {attempt : ℕ} (h : Solo cfg s₀ c s call) (hpc : call.pc = .select attempt) :
    ∃ eff, Advances cfg s₀ c s call eff := by
  have hsame : Untouched s₀ s := by
    have hphase := h.phase
    simpa only [Phase, hpc] using hphase
  have hw : ∀ {pc : Pc}, pc.weight < 5 → pc.weight < call.pc.weight := by
    intro pc hlt
    rwa [hpc]
  have hrow : ∀ u, s₀.products u = s.products u := fun u => by rw [hsame.1]
  by_cases hatomic : call.strategy = .atomic
  · cases hu : cfg.uuidOf call.productId with
    | none =>
      have hsend : reserveProduct cfg s c call = some (.fail (.aborted "invalid UUID")) := by
        simp [reserveProduct, hatomic, reserveAtomic, hpc, hu]
      exact ⟨_, h.fails hsame (by simp [expected, hu]) hsend (by simp [hpc, Pc.weight])⟩
    | some u =>
      have hsend : reserveProduct cfg s c call = some (.goto .decrement) := by
        simp [reserveProduct, hatomic, reserveAtomic, hpc, hu]
      exact ⟨_, h.goes hsend (hw (by simp [Pc.weight])) ⟨hsame, hatomic, u, hu⟩⟩
  · have hsend : reserveProduct cfg s c call = _ := select_eq hpc hatomic
    unfold selectRow at hsend
    cases hu : cfg.uuidOf call.productId with
    | none =>
      rw [hu] at hsend
      exact ⟨_, h.fails hsame (by simp [expected, hu]) hsend (by simp [hpc, Pc.weight])⟩
    | some u =>
      simp only [hu, h.lock u, not_true_eq_false, and_false, if_false] at hsend
      cases hp : s.products u with
      | none =>
        simp only [hp, checkStock] at hsend
        exact ⟨_, h.fails hsame (by simp [expected, hu, hrow, hp, hatomic]) hsend
          (by simp [hpc, Pc.weight])⟩
      | some p =>
        by_cases hshort : p.stock < call.quantity
        · simp only [hp, checkStock, hshort, if_true] at hsend
          exact ⟨_, h.fails hsame (by simp [expected, hu, hrow, hp, hatomic, hshort]) hsend
            (by simp [hpc, Pc.weight])⟩
        · have hphase : Phase cfg s₀ c { call with pc := .update attempt p.stock p.version } s :=
            ⟨hsame, hatomic, u, p, hu, hp, rfl, rfl, not_lt.mp hshort⟩
          simp only [hp, checkStock, hshort, if_false] at hsend
          split_ifs at hsend
          · exact ⟨_, h.locks hsend (hw (by simp [Pc.weight])) hphase⟩
          · exact ⟨_, h.goes hsend (hw (by simp [Pc.weight])) hphase⟩

lemma advances_update {attempt : ℕ} {stock version : ℤ} (h : Solo cfg s₀ c s call)
    (hpc : call.pc = .update attempt stock version) : ∃ eff, Advances cfg s₀ c s call eff := by
  have hphase := h.phase
  simp only [Phase, hpc] at hphase
  obtain ⟨hsame, hatomic, u, p, hu, hp, rfl, rfl, hle⟩ := hphase
  have hrow : s₀.products u = some p := by rw [← hsame.1, hp]
  have hshort : ¬ p.stock < call.quantity := not_lt.mpr hle
  by_cases hoptimistic : call.strategy = .optimistic
  · by_cases hfits : fitsInteger (nextVersion p.version) = true
    · have hsend : reserveProduct cfg s c call = some (.lockRow u (.record ⟨u, p.stock,
          { p with stock := p.stock - call.quantity, version := nextVersion p.version }⟩)) := by
        simp [reserveProduct, hoptimistic, reserveOptimistic, hpc, hfits, updateRow, hu, hp, h.lock]
      refine ⟨_, h.locks hsend (by simp [hpc, Pc.weight]) ⟨hsame, p, ?_, rfl⟩⟩
      simp [expected, hu, hrow, hoptimistic, hshort, hfits]
    · have hsend : reserveProduct cfg s c call = some (.fail outOfRange) := by
        simp [reserveProduct, hoptimistic, reserveOptimistic, hpc, hfits]
      refine ⟨_, h.fails hsame ?_ hsend (by simp [hpc, Pc.weight])⟩
      simp [expected, hu, hrow, hoptimistic, hshort, hfits]
  · have hsend : reserveProduct cfg s c call = some (.lockRow u
        (.record ⟨u, p.stock, { p with stock := p.stock - call.quantity }⟩)) := by
      unfold reserveProduct
      cases hstrategy : call.strategy
      case optimistic => exact absurd hstrategy hoptimistic
      case atomic => exact absurd hstrategy hatomic
      all_goals
        simp [reserveNaive, reservePessimistic, reserveDistributedLock, readModifyWrite, hpc,
          updateRow, hu, hp, h.lock]
    refine ⟨_, h.locks hsend (by simp [hpc, Pc.weight]) ⟨hsame, p, ?_, rfl⟩⟩
    simp [expected, hu, hrow, hoptimistic, hatomic, hshort]

lemma advances_decrement (h : Solo cfg s₀ c s call) (hpc : call.pc = .decrement) :
    ∃ eff, Advances cfg s₀ c s call eff := by
  have hphase := h.phase
  simp only [Phase, hpc] at hphase
  obtain ⟨hsame, hatomic, u, hu⟩ := hphase
  have hrow : s₀.products u = s.products u := by rw [hsame.1]
  have hw : 1 < call.pc.weight := by simp [hpc, Pc.weight]
  by_cases hfits : fitsInteger call.quantity = true
  · cases hp : s.products u with
    | none =>
      have hsend : reserveProduct cfg s c call = some (.fail notEnoughStock) := by
        simp [reserveProduct, hatomic, reserveAtomic, hpc, hfits, updateRow, hu, hp]
      exact ⟨_, h.fails hsame (by simp [expected, hu, hatomic, hfits, hrow, hp]) hsend hw⟩
    | some p =>
      by_cases hle : call.quantity ≤ p.stock
      · have hsend : reserveProduct cfg s c call = some (.lockRow u
            (.record ⟨u, p.stock, { p with stock := p.stock - call.quantity }⟩)) := by
          simp [reserveProduct, hatomic, reserveAtomic, hpc, hfits, updateRow, hu, hp, hle, h.lock]
        refine ⟨_, h.locks hsend (by simp [hpc, Pc.weight]) ⟨hsame, p, ?_, rfl⟩⟩
        simp [expected, hu, hatomic, hfits, hrow, hp, not_lt.mpr hle]
      · have hsend : reserveProduct cfg s c call = some (.fail notEnoughStock) := by
          simp [reserveProduct, hatomic, reserveAtomic, hpc, hfits, updateRow, hu, hp, hle]
        refine ⟨_, h.fails hsame ?_ hsend hw⟩
        simp [expected, hu, hatomic, hfits, hrow, hp, not_le.mp hle]
  · have hsend : reserveProduct cfg s c call = some (.fail outOfRange) := by
      simp [reserveProduct, hatomic, reserveAtomic, hpc, hfits]
    exact ⟨_, h.fails hsame (by simp [expected, hu, hatomic, hfits]) hsend hw⟩

lemma record_eq (hpc : (∃ w, call.pc = .record w) ∨ ∃ w r, call.pc = .commit w r) :
    reserveProduct cfg s c call = recordReservation cfg s c call := by
  unfold reserveProduct
  rcases hpc with ⟨w, hpc⟩ | ⟨w, r, hpc⟩
  all_goals
    cases call.strategy <;>
      simp [reserveNaive, reservePessimistic, reserveOptimistic, reserveAtomic,
        reserveDistributedLock, readModifyWrite, hpc]

lemma advances_record {w : Write} (h : Solo cfg s₀ c s call) (hpc : call.pc = .record w) :
    ∃ eff, Advances cfg s₀ c s call eff := by
  have hphase := h.phase
  simp only [Phase, hpc] at hphase
  obtain ⟨hsame, hw⟩ := hphase
  have hsend : reserveProduct cfg s c call =
      some (.goto (.commit w ⟨cfg.uuid7 c, w.product, call.quantity, s.now⟩)) := by
    rw [record_eq (.inl ⟨w, hpc⟩)]
    simp [recordReservation, hpc]
  exact ⟨_, h.goes hsend (by simp [hpc, Pc.weight]) ⟨hsame, rfl, rfl, hw⟩⟩

lemma advances_commit {w : Write} {r : ProductReservation} (h : Solo cfg s₀ c s call)
    (hpc : call.pc = .commit w r) : ∃ eff, Advances cfg s₀ c s call eff := by
  have hphase := h.phase
  simp only [Phase, hpc] at hphase
  obtain ⟨hsame, hproduct, hquantity, p, hresult, hstock⟩ := hphase
  have hsend : reserveProduct cfg s c call = some (.publish w r) := by
    rw [record_eq (.inr ⟨w, r, hpc⟩)]
    simp [recordReservation, hpc]
  refine ⟨_, hsend, weight_exit_lt (by simp [hpc, Pc.weight]) call _, Function.update_self ..,
    h.connected, available_releaseAll h.lock, phase_exit ?_⟩
  rw [hresult]
  refine ⟨r, w.row, rfl, hproduct, hquantity, hstock, ?_, ?_⟩
  · simp [hsame.1]
  · simp [hsame.2]

lemma exists_advances (h : Solo cfg s₀ c s call) (hpc : ∀ o, call.pc ≠ .done o) :
    ∃ eff, Advances cfg s₀ c s call eff := by
  cases hcase : call.pc with
  | acquire deadline => exact advances_acquire h hcase
  | select attempt => exact advances_select h hcase
  | update attempt stock version => exact advances_update h hcase
  | decrement => exact advances_decrement h hcase
  | record w => exact advances_record h hcase
  | commit w r => exact advances_commit h hcase
  | commitMiss u attempt =>
    have hphase := h.phase
    simp [Phase, hcase] at hphase
  | release o => exact advances_release h hcase
  | done o => exact absurd hcase (hpc o)

lemma solo_tick (h : Solo cfg s₀ c s call) (d : ℕ) :
    Solo cfg s₀ c { s with now := s.now + d } call := by
  refine ⟨h.found, h.connected, h.lock, ?_⟩
  have hphase := h.phase
  unfold Phase at hphase ⊢
  cases hpc : call.pc with
  | acquire deadline =>
    simp only [hpc] at hphase ⊢
    refine ⟨hphase.1, hphase.2.1, ?_⟩
    rw [live_later (Nat.le_add_right s.now d), hphase.2.2]
    rfl
  | commitMiss _ _ => simp [hpc] at hphase
  | _ =>
    simp only [hpc] at hphase ⊢
    exact hphase

def State.started (cfg : Config) (s : State) (c : CallId) (productId : String) (q : ℤ)
    (strategy : ReserveStrategy) : State :=
  { s with
    calls := Function.update s.calls c (some ⟨productId, q, strategy, startPc cfg s.now strategy⟩) }

lemma solo_started (h : Idle s c productId) (hmax : 0 < cfg.maxOptimisticAttempts) :
    Solo cfg s c (s.started cfg c productId q strategy)
      ⟨productId, q, strategy, startPc cfg s.now strategy⟩ := by
  refine ⟨Function.update_self .., h.connected, fun u d hd => ?_, ?_⟩
  · have hfree : s.rowLock u = some d := hd
    rw [h.rows] at hfree
    cases hfree
  · cases strategy
    case locked => exact ⟨⟨rfl, rfl⟩, rfl, h.unlocked⟩
    case optimistic =>
      simp only [startPc, hmax.ne', if_false]
      exact ⟨rfl, rfl⟩
    all_goals exact ⟨rfl, rfl⟩

lemma advances_step (h : Solo cfg s₀ c s call) (ha : Advances cfg s₀ c s call eff) :
    step cfg s (.op c) = some (s.apply c call eff) := by
  simp [step, h.found, ha.1]

lemma Does.ne_done (h : Does cfg s c call eff) (o : Outcome) : call.pc ≠ .done o := by
  intro ho
  cases h with
  | fails _ hblock =>
    rw [ho] at hblock
    exact hblock
  | reads hpc _ _ _ _ | readsForUpdate hpc _ _ _ _ _ | overwrites hpc _ _ _ _
  | swaps hpc _ _ _ _ | misses hpc _ _ | retries hpc _ | givesUp hpc _ | counts hpc _ _
  | decrements hpc _ _ _ _ _ | records hpc | publishes hpc | acquires hpc _ | waits hpc _
  | timesOut hpc _ | releases hpc _ _ =>
    rw [ho] at hpc
    cases hpc

lemma solo_exec {acts : List Action} (hown : ∀ a ∈ acts, a.OwnedBy c)
    (h : Solo cfg s₀ c s call) (hrun : exec (step cfg) s acts = some t) :
    ∃ call', Solo cfg s₀ c t call' ∧ call'.productId = call.productId ∧
      call'.quantity = call.quantity ∧ call'.strategy = call.strategy := by
  induction acts generalizing s call with
  | nil =>
    rw [exec_nil, Option.some.injEq] at hrun
    exact ⟨call, hrun ▸ h, rfl, rfl, rfl⟩
  | cons a acts ih =>
    obtain ⟨u, hu, hrest⟩ := exec_cons_eq_some.mp hrun
    have hown' : ∀ b ∈ acts, b.OwnedBy c := fun b hb => hown b (List.mem_cons_of_mem a hb)
    rcases hown a (by simp) with rfl | ⟨d, rfl⟩
    · have hpc : ∀ o, call.pc ≠ .done o := by
        intro o ho
        simp only [step, h.found, Option.map_eq_some_iff] at hu
        obtain ⟨eff, heff, -⟩ := hu
        exact (does_of_reserveProduct heff).ne_done o ho
      obtain ⟨eff, ha⟩ := exists_advances h hpc
      rw [advances_step h ha, Option.some.injEq] at hu
      subst hu
      obtain ⟨call', hsolo, hkept⟩ := ih hown' ha.2.2 hrest
      exact ⟨call', hsolo, hkept⟩
    · simp only [step, Option.some.injEq] at hu
      subst hu
      exact ih hown' (solo_tick h d) hrest

lemma exists_done (h : Solo cfg s₀ c s call) :
    ∃ acts t call' o, (∀ a ∈ acts, a.OwnedBy c) ∧ exec (step cfg) s acts = some t ∧
      t.calls c = some call' ∧ call'.pc = .done o := by
  induction hn : call.pc.weight using Nat.strong_induction_on generalizing s call with
  | _ n ih =>
    by_cases hdone : ∃ o, call.pc = .done o
    · obtain ⟨o, ho⟩ := hdone
      exact ⟨[], s, call, o, by simp, rfl, h.found, ho⟩
    · push Not at hdone
      obtain ⟨eff, ha⟩ := exists_advances h hdone
      obtain ⟨acts, t, call', o, hown, hrun, hfound, ho⟩ := ih _ (hn ▸ ha.2.1) ha.2.2 rfl
      refine ⟨.op c :: acts, t, call', o, ?_, ?_, hfound, ho⟩
      · exact List.forall_mem_cons.mpr ⟨.inl rfl, hown⟩
      · rw [exec_cons, advances_step h ha]
        exact hrun

lemma leaves_of_reservesAlone {req : ReserveRequest} {o : Outcome} (hidle : Idle s c productId)
    (hmax : 0 < cfg.maxOptimisticAttempts) (h : ReservesAlone cfg s c productId req strategy o t) :
    Leaves s c req.quantity o t (expected cfg s productId req.quantity strategy) := by
  obtain ⟨acts, call, hown, hrun, hfound, hpc⟩ := h
  obtain ⟨s₁, hstart, hrest⟩ := exec_cons_eq_some.mp hrun
  simp only [step, hidle.fresh, Option.some.injEq] at hstart
  subst hstart
  obtain ⟨call', hsolo, hproduct, hquantity, hstrategy⟩ :=
    solo_exec hown (solo_started hidle hmax) hrest
  have hsame := hsolo.found
  rw [hfound, Option.some.injEq] at hsame
  subst hsame
  have hphase := hsolo.phase
  simpa only [Phase, hpc, hproduct, hquantity, hstrategy] using hphase

lemma exists_reservesAlone (req : ReserveRequest) (strategy : ReserveStrategy)
    (hidle : Idle s c productId) (hmax : 0 < cfg.maxOptimisticAttempts) :
    ∃ o t, ReservesAlone cfg s c productId req strategy o t := by
  have hsolo : Solo cfg s c (s.started cfg c productId req.quantity strategy) _ :=
    solo_started hidle hmax
  obtain ⟨acts, t, call, o, hown, hrun, hfound, hpc⟩ := exists_done hsolo
  refine ⟨o, t, acts, call, hown, ?_, hfound, hpc⟩
  simp only [exec_cons, step, hidle.fresh, Option.bind_some]
  exact hrun

def verdictOf : Except PyError (Uuid × Product) → Option Verdict
  | .error e => Outcome.verdict (.raised e)
  | .ok _ => some .reserved

@[simp] lemma verdictOf_productNotFound : verdictOf (.error productNotFound) = some .notFound := by
  decide

@[simp] lemma verdictOf_notEnoughStock :
    verdictOf (.error notEnoughStock) = some .notEnough := by decide

@[simp] lemma verdictOf_outOfRange : verdictOf (.error outOfRange) = none := by decide

@[simp] lemma verdictOf_invalidUuid : verdictOf (.error (.aborted "invalid UUID")) = none := by
  decide

lemma Leaves.verdict {o : Outcome} {x : Except PyError (Uuid × Product)}
    (h : Leaves s c q o t x) : o.verdict = verdictOf x := by
  cases x with
  | error e => rw [h.1, verdictOf]
  | ok x =>
    obtain ⟨r, p', rfl, -⟩ := h
    rfl

/-- The product is there, its quantity fits the column, and so does the next version if the
reservation is made. -/
def Comparable (cfg : Config) (s : State) (productId : String) (q : ℤ) : Prop :=
  ∃ u p, cfg.uuidOf productId = some u ∧ s.products u = some p ∧ fitsInteger q = true ∧
    (q ≤ p.stock → fitsInteger (nextVersion p.version) = true)

lemma expected_eq_of_comparable {u : Uuid} {p : Product} (hu : cfg.uuidOf productId = some u)
    (hp : s.products u = some p) (hq : fitsInteger q = true)
    (hversion : q ≤ p.stock → fitsInteger (nextVersion p.version) = true) :
    expected cfg s productId q strategy =
      if p.stock < q then .error notEnoughStock else .ok (u, p) := by
  by_cases hshort : p.stock < q
  · simp [expected, hu, hp, hq, hshort]
  · simp [expected, hu, hp, hq, hshort, hversion (not_lt.mp hshort)]

lemma comparable_of_verdicts {verdict : Verdict}
    (h : ∀ strategy, verdictOf (expected cfg s productId q strategy) = some verdict) :
    Comparable cfg s productId q := by
  have hnaive := h .naive
  have hatomic := h .atomic
  have hoptimistic := h .optimistic
  cases hu : cfg.uuidOf productId with
  | none => simp [expected, hu] at hnaive
  | some u =>
    have hq : fitsInteger q = true := by
      by_contra hq
      simp [expected, hu, Bool.eq_false_iff.mpr hq] at hatomic
    cases hp : s.products u with
    | none =>
      simp only [expected, hu, hp, reduceCtorEq, false_and, if_false,
        verdictOf_productNotFound, Option.some.injEq] at hnaive
      simp [expected, hu, hp, hq, ← hnaive] at hatomic
    | some p =>
      refine ⟨u, p, hu, hp, hq, fun hle => ?_⟩
      by_contra hversion
      simp [expected, hu, hp, not_lt.mpr hle, Bool.eq_false_iff.mpr hversion] at hoptimistic

/-- The strategies agree exactly where the product is there and the numbers fit their columns: the
atomic one never finds a product missing, and it is the one that sends the quantity unchecked. -/
theorem strategies_agree_iff {req : ReserveRequest} (hidle : Idle s c productId)
    (hmax : 0 < cfg.maxOptimisticAttempts) :
    StrategiesAgree cfg s c productId req ↔
      ∃ u p, cfg.uuidOf productId = some u ∧ s.products u = some p ∧
        fitsInteger req.quantity = true ∧
        (req.quantity ≤ p.stock → fitsInteger (nextVersion p.version) = true) := by
  constructor
  · rintro ⟨verdict, stock, booked, hall⟩
    have hverdicts : ∀ strategy,
        verdictOf (expected cfg s productId req.quantity strategy) = some verdict := by
      intro strategy
      obtain ⟨⟨o, t, hrun⟩, hsame⟩ := hall strategy
      rw [← (leaves_of_reservesAlone hidle hmax hrun).verdict]
      exact (hsame o t hrun).1
    exact comparable_of_verdicts hverdicts
  · rintro ⟨u, p, hu, hp, hq, hversion⟩
    have hleaves : ∀ strategy o t, ReservesAlone cfg s c productId req strategy o t →
        Leaves s c req.quantity o t
          (if p.stock < req.quantity then .error notEnoughStock else .ok (u, p)) := by
      intro strategy o t hrun
      rw [← expected_eq_of_comparable hu hp hq hversion]
      exact leaves_of_reservesAlone hidle hmax hrun
    by_cases hshort : p.stock < req.quantity
    · simp only [if_pos hshort] at hleaves
      refine ⟨.notEnough, s.stockOf cfg productId, s.booked, fun strategy =>
        ⟨exists_reservesAlone req strategy hidle hmax, fun o t hrun => ?_⟩⟩
      have h := hleaves strategy o t hrun
      obtain ⟨-, hproducts, hreservations⟩ := id h
      exact ⟨h.verdict, by simp [State.stockOf, hproducts], by simp [State.booked, hreservations],
        fun v _ => by rw [hproducts], fun _ => ⟨hproducts, hreservations⟩⟩
    · simp only [if_neg hshort] at hleaves
      refine ⟨.reserved, some (p.stock - req.quantity), (u, req.quantity) ::ₘ s.booked,
        fun strategy => ⟨exists_reservesAlone req strategy hidle hmax, fun o t hrun => ?_⟩⟩
      have h := hleaves strategy o t hrun
      obtain ⟨r, p', -, hproduct, hquantity, hstock, hproducts, hreservations⟩ := id h
      refine ⟨h.verdict, by simp [State.stockOf, hu, hproducts, hstock], ?_, fun v hv => ?_,
        fun hne => absurd rfl hne⟩
      · have hlist : t.reservations.map (fun o => (o.row.productId, o.row.quantity)) =
            s.reservations.map (fun o => (o.row.productId, o.row.quantity)) ++
              [(u, req.quantity)] := by simp [hreservations, hproduct, hquantity]
        rw [State.booked, State.booked, Multiset.cons_coe, Multiset.coe_eq_coe, hlist]
        exact List.perm_append_singleton ..
      · rw [hproducts]
        exact Function.update_of_ne (fun heq => hv (by rw [hu, heq])) ..

def oneId : Config where
  uuidOf _ := some 0
  uuid7 _ := 1
  tokenHex _ := "token"

def quietState (products : Uuid → Option Product) : State where
  products
  reservations := []
  history := []
  rowLock _ := none
  cache := { backend := .redis, defaultTtlSeconds := 60, store := fun _ => none }
  now := 0
  calls _ := none

lemma idle_quietState (products : Uuid → Option Product) :
    Idle (quietState products) 1 "0" where
  fresh := rfl
  rows _ := rfl
  connected := nofun
  unlocked := rfl

def five : ReserveRequest := ⟨5, Int.natCast_pos.mpr (Nat.succ_pos 4)⟩

/-- All five strategies reserve the last units. -/
theorem strategies_agree_iff_lastUnits :
    StrategiesAgree oneId (quietState fun _ => some { name := "p", stock := 5 }) 1 "0" five :=
  (strategies_agree_iff (idle_quietState _) (Nat.succ_pos 4)).mpr
    ⟨0, { name := "p", stock := 5 }, rfl, rfl, rfl, fun _ => rfl⟩

/-- Without the product the naive strategy answers 404 and the atomic one 400. -/
theorem absentProduct_disagree :
    (∃ t, ReservesAlone oneId (quietState fun _ => none) 1 "0" five .naive
      (.raised productNotFound) t) ∧
    (∃ t, ReservesAlone oneId (quietState fun _ => none) 1 "0" five .atomic
      (.raised notEnoughStock) t) ∧
    ¬ StrategiesAgree oneId (quietState fun _ => none) 1 "0" five := by
  have hmax : 0 < oneId.maxOptimisticAttempts := Nat.succ_pos 4
  have hidle := idle_quietState fun _ => none
  have hnaive : ∃ t, ReservesAlone oneId (quietState fun _ => none) 1 "0" five .naive
      (.raised productNotFound) t := by
    obtain ⟨o, t, hrun⟩ := exists_reservesAlone five .naive hidle hmax
    obtain ⟨rfl, -⟩ := leaves_of_reservesAlone hidle hmax hrun
    exact ⟨t, hrun⟩
  have hatomic : ∃ t, ReservesAlone oneId (quietState fun _ => none) 1 "0" five .atomic
      (.raised notEnoughStock) t := by
    obtain ⟨o, t, hrun⟩ := exists_reservesAlone five .atomic hidle hmax
    obtain ⟨rfl, -⟩ := leaves_of_reservesAlone hidle hmax hrun
    exact ⟨t, hrun⟩
  refine ⟨hnaive, hatomic, ?_⟩
  rintro ⟨verdict, stock, booked, hall⟩
  obtain ⟨t, hrun⟩ := hnaive
  obtain ⟨t', hrun'⟩ := hatomic
  have hfirst := ((hall .naive).2 _ _ hrun).1
  have hsecond := ((hall .atomic).2 _ _ hrun').1
  rw [← hfirst] at hsecond
  exact absurd hsecond (by decide)

end AsyncDataHub.Inventory
