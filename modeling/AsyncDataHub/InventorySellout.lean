import AsyncDataHub.InventoryLocking
import AsyncDataHub.InventoryOptimistic

/-! How many units are sold when all buyers of a product ask for the same quantity: as many as there
are, and no buyer is sent away before that. -/
namespace AsyncDataHub.Inventory
open StepSystem LockTable OwnedRows

variable {cfg : Config} {s t : State} {a : Action} {c : CallId} {call : Call} {pid : Uuid} {S q : ℤ}
  {e : PyError} {allowed : ReserveStrategy → Prop}

def sold (pid : Uuid) (s : State) : ℕ := (rowsOf pid s.reservations).length

/-- Every call on the product asks for `q` units with one of the allowed strategies, and none of
them is cancelled or dies; calls on other products are not restricted. -/
def Asks (cfg : Config) (pid : Uuid) (q : ℤ) (allowed : ReserveStrategy → Prop) (s : State) :
    Action → Prop
  | .start _ productId req strategy =>
    cfg.uuidOf productId = some pid → req.quantity = q ∧ allowed strategy
  | .abort c | .crash c => ∀ call, s.calls c = some call → cfg.uuidOf call.productId ≠ some pid
  | _ => True

structure SaleInv (cfg : Config) (pid : Uuid) (q : ℤ) (allowed : ReserveStrategy → Prop)
    (s : State) : Prop where
  asked : ∀ c call, s.calls c = some call → cfg.uuidOf call.productId = some pid →
    call.quantity = q ∧ allowed call.strategy
  rows : ∀ i ∈ s.reservations, ∃ call, s.calls i.call = some call ∧ call.Asked cfg i.row

lemma request_of_step (h : step cfg s a = some t) (hc : s.calls c = some call) :
    ∃ call', t.calls c = some call' ∧ call'.productId = call.productId ∧
      call'.quantity = call.quantity ∧ call'.strategy = call.strategy := by
  have hmoved {d : CallId} {call' : Call} (pc : Pc) (hd : s.calls d = some call') :
      ∃ call'', Function.update s.calls d (some { call' with pc }) c = some call'' ∧
        call''.productId = call.productId ∧ call''.quantity = call.quantity ∧
        call''.strategy = call.strategy := by
    by_cases hcd : c = d
    · subst hcd
      obtain rfl := Option.some.inj (hd.symm.trans hc)
      exact ⟨_, Function.update_self .., rfl, rfl, rfl⟩
    · exact ⟨call, (Function.update_of_ne hcd ..).trans hc, rfl, rfl, rfl⟩
  cases took_of_step h with
  | start hfresh =>
    refine ⟨call, (Function.update_of_ne ?_ ..).trans hc, rfl, rfl, rfl⟩
    rintro rfl
    rw [hfresh] at hc
    cases hc
  | op hd _ | abort hd _ =>
    rw [apply_calls]
    exact hmoved _ hd
  | crash hd _ => exact hmoved _ hd
  | tick _ => exact ⟨call, hc, rfl, rfl, rfl⟩

lemma saleInv_step (hok : CallsOk cfg s) (hg : Asks cfg pid q allowed s a)
    (h : step cfg s a = some t) (hi : SaleInv cfg pid q allowed s) :
    SaleInv cfg pid q allowed t := by
  have hkept {c : CallId} {call : Call} {r : ProductReservation} (hc : s.calls c = some call)
      (hr : call.Asked cfg r) : ∃ call, t.calls c = some call ∧ call.Asked cfg r := by
    obtain ⟨call', hc', hid, hq, _⟩ := request_of_step h hc
    exact ⟨call', hc', by rw [Call.Asked, hid, hq]; exact hr⟩
  refine ⟨fun d call' hd hpid => ?_, fun i hrow => ?_⟩
  · cases hs : s.calls d with
    | some call =>
      obtain ⟨call'', hd', hid, hq, hstrategy⟩ := request_of_step h hs
      obtain rfl := Option.some.inj (hd.symm.trans hd')
      rw [hq, hstrategy]
      exact hi.asked d call hs (hid ▸ hpid)
    | none =>
      cases took_of_step h with
      | start _ =>
        rcases update_eq_some.mp hd with ⟨_, rfl⟩ | ⟨_, hd⟩
        · exact hg hpid
        · exact hi.asked d call' hd hpid
      | op hc _ | abort hc _ =>
        rw [apply_calls] at hd
        rcases update_eq_some.mp hd with ⟨rfl, _⟩ | ⟨_, hd⟩
        · rw [hs] at hc
          cases hc
        · exact hi.asked d call' hd hpid
      | crash hc _ =>
        rcases update_eq_some.mp hd with ⟨rfl, _⟩ | ⟨_, hd⟩
        · rw [hs] at hc
          cases hc
        · exact hi.asked d call' hd hpid
      | tick _ => exact hi.asked d call' hd hpid
  · rcases step_rows h with ⟨_, hres⟩ | ⟨c, call, w, r, rfl, hc, hpc, rfl⟩
    · rw [hres] at hrow
      obtain ⟨call, hc, hr⟩ := hi.rows i hrow
      exact hkept hc hr
    · rw [apply_reservations] at hrow
      rcases List.mem_append.mp hrow with hrow | hrow
      · obtain ⟨call', hc', hr⟩ := hi.rows i hrow
        exact hkept hc' hr
      · rw [List.mem_singleton] at hrow
        subst hrow
        have hasked := hok c call hc
        simp only [Call.Ok, hpc] at hasked
        exact hkept hc hasked.1

lemma sold_mono (h : step cfg s a = some t) : sold pid s ≤ sold pid t := by
  rcases step_rows h with ⟨_, hres⟩ | ⟨c, call, w, r, rfl, hc, hpc, rfl⟩
  · rw [sold, sold, hres]
  · rw [sold, sold, apply_reservations, rowsOf_append]
    exact Nat.le_add_right _ _

lemma SaleInv.reserved_eq (hi : SaleInv cfg pid q allowed s) :
    reserved pid s.reservations = sold pid s * q := by
  have hall : ∀ x ∈ (rowsOf pid s.reservations).map (fun i => i.row.quantity), x = q := by
    intro x hx
    obtain ⟨i, hrow, rfl⟩ := List.mem_map.mp hx
    obtain ⟨hmem, hpid⟩ := List.mem_filter.mp hrow
    obtain ⟨call, hc, hu, hqty⟩ := hi.rows i hmem
    rw [hqty]
    exact (hi.asked _ call hc (by rw [hu, of_decide_eq_true hpid])).1
  rw [reserved, List.eq_replicate_of_mem hall, List.sum_replicate, List.length_map]
  simp [sold]

def State.succeeded (s : State) (c : CallId) : Bool :=
  match s.calls c with
  | some call =>
    match call.pc with
    | .done (.returned _) => true
    | _ => false
  | none => false

lemma succeeded_iff : s.succeeded c = true ↔
    ∃ call r, s.calls c = some call ∧ call.pc = .done (.returned r) := by
  unfold State.succeeded
  cases hc : s.calls c with
  | none => simp
  | some call =>
    cases hpc : call.pc with
    | done o => cases o <;> simp [hpc]
    | _ => simp [hpc]

lemma SaleInv.row_of_call (hi : SaleInv cfg pid q allowed s) (hrows : RowsInv s)
    (hlocked : ¬ allowed .locked) {i : Inserted} (hmem : i ∈ rowsOf pid s.reservations) :
    ∃ call, s.calls i.call = some call ∧ cfg.uuidOf call.productId = some pid ∧
      (rowsBy i.call s.reservations).length = 1 ∧
        ∀ o, call.pc = .done o → ∃ r, o = .returned r := by
  obtain ⟨hmem, hpid⟩ := List.mem_filter.mp hmem
  obtain ⟨call, hc, hu, _⟩ := hi.rows i hmem
  rw [of_decide_eq_true hpid] at hu
  have hstrategy : call.strategy ≠ .locked := fun h => hlocked (h ▸ (hi.asked _ call hc hu).2)
  have hmine : i ∈ rowsBy i.call s.reservations := by simp [hmem]
  have hr := hrows.started _ call hc
  refine ⟨call, hc, hu, ?_, fun o hpc => ?_⟩
  · cases hpc : call.pc with
    | release o =>
      cases o <;> simp only [Call.Rows, hpc] at hr <;> exact absurd hr.1 hstrategy
    | done o =>
      cases o with
      | returned r =>
        simp only [Call.Rows, hpc] at hr
        rw [hr, List.length_singleton]
      | raised e =>
        simp only [Call.Rows, hpc] at hr
        rw [hr hstrategy] at hmine
        cases hmine
    | _ =>
      simp only [Call.Rows, hpc] at hr
      rw [hr] at hmine
      cases hmine
  · cases o with
    | returned r => exact ⟨r, rfl⟩
    | raised e =>
      simp only [Call.Rows, hpc] at hr
      rw [hr hstrategy] at hmine
      cases hmine

lemma SaleInv.card_succeeded (hi : SaleInv cfg pid q allowed s) (hrows : RowsInv s)
    (hok : CallsOk cfg s) (hlocked : ¬ allowed .locked)
    (hdone : ∀ c call, s.calls c = some call → cfg.uuidOf call.productId = some pid →
      ∃ o, call.pc = .done o) {calls : Finset CallId}
    (hcalls : ∀ c, c ∈ calls ↔ ∃ call, s.calls c = some call ∧
      cfg.uuidOf call.productId = some pid) :
    (calls.filter fun c => s.succeeded c = true).card = sold pid s := by
  refine card_eq_length (fun c => ?_) fun c => ?_
  · by_cases hnone : rowsBy c (rowsOf pid s.reservations) = []
    · simp [hnone]
    · obtain ⟨i, hrow⟩ := List.exists_mem_of_ne_nil _ hnone
      obtain ⟨hmem, rfl⟩ := mem_rowsBy.mp hrow
      obtain ⟨_, _, _, hone, _⟩ := hi.row_of_call hrows hlocked hmem
      have hsub : (rowsBy i.call (rowsOf pid s.reservations)).Sublist
          (rowsBy i.call s.reservations) := List.filter_sublist.filter _
      exact hsub.length_le.trans hone.le
  · rw [Finset.mem_filter, succeeded_iff, hcalls]
    constructor
    · rintro ⟨⟨call, hc, hpid⟩, call', r, hc', hpc⟩
      obtain rfl := Option.some.inj (hc.symm.trans hc')
      have hr := hrows.started c call hc
      simp only [Call.Rows, hpc] at hr
      have hasked := hok c call hc
      simp only [Call.Ok, hpc] at hasked
      have hmem : (⟨c, r⟩ : Inserted) ∈ rowsBy c s.reservations := by simp [hr]
      have hprod : r.productId = pid := Option.some.inj (hasked.1.symm.trans hpid)
      exact ⟨⟨c, r⟩, List.mem_filter.mpr ⟨(mem_rowsBy.mp hmem).1, decide_eq_true hprod⟩, rfl⟩
    · rintro ⟨i, hmem, rfl⟩
      obtain ⟨call, hc, hpid, _, hreturned⟩ := hi.row_of_call hrows hlocked hmem
      obtain ⟨o, hpc⟩ := hdone _ call hc hpid
      obtain ⟨r, rfl⟩ := hreturned o hpc
      exact ⟨⟨call, hc, hpid⟩, call, r, hc, hpc⟩

/-- Why a call was sent away when `n` reservations were made: there was not enough left, or there
were as many reservations as an optimistic call has attempts. -/
def Refused (cfg : Config) (S q : ℤ) (n : ℕ) (strategy : ReserveStrategy) (e : PyError) : Prop :=
  (e = notEnoughStock ∧ S < (n + 1) * q) ∨
    (e = tooManyAttempts ∧ strategy = .optimistic ∧ cfg.maxOptimisticAttempts ≤ n)

/-- Each attempt that a call has lost was lost to a reservation. -/
def Call.Tried (cfg : Config) (S q : ℤ) (n : ℕ) (call : Call) : Prop :=
  match call.pc with
  | .select k => k ≤ n
  | .update k _ version => call.strategy = .optimistic → k + 1 ≤ version ∧ version ≤ n + 1
  | .commitMiss _ k => call.strategy = .optimistic ∧ k + 1 ≤ n
  | .acquire _ | .release _ => False
  | .done (.raised e) => Refused cfg S q n call.strategy e
  | _ => True

lemma Refused.mono {n m : ℕ} {strategy : ReserveStrategy} (hq : 0 < q)
    (h : Refused cfg S q n strategy e) (hle : n ≤ m) : Refused cfg S q m strategy e := by
  rcases h with ⟨he, hlt⟩ | ⟨he, hs, hmax⟩
  · refine .inl ⟨he, hlt.trans_le (mul_le_mul_of_nonneg_right ?_ hq.le)⟩
    exact_mod_cast Nat.add_le_add_right hle 1
  · exact .inr ⟨he, hs, hmax.trans hle⟩

lemma Call.Tried.mono {n m : ℕ} (hq : 0 < q) (h : call.Tried cfg S q n) (hle : n ≤ m) :
    call.Tried cfg S q m := by
  unfold Call.Tried at h ⊢
  split at h <;> try exact h
  · exact h.trans hle
  · intro hs
    obtain ⟨hk, hv⟩ := h hs
    exact ⟨hk, by omega⟩
  · exact ⟨h.1, h.2.trans hle⟩
  · exact Refused.mono hq h hle

lemma fail_of_selectRow {p : Product} {forUpdate : Bool} {attempt : ℕ}
    (hpid : cfg.uuidOf call.productId = some pid) (hp : s.products pid = some p)
    (h : selectRow cfg s c call forUpdate attempt = some (.fail e)) :
    e = notEnoughStock ∧ p.stock < call.quantity := by
  simp only [selectRow, hpid, hp, checkStock] at h
  by_cases hlt : p.stock < call.quantity
  · simp only [hlt, if_true] at h
    split_ifs at h
    cases h
    exact ⟨rfl, hlt⟩
  · simp only [hlt, if_false] at h
    split_ifs at h <;> cases h

lemma fail_of_updateRow {p : Product} {cond : Product → Bool} {change : Product → Product}
    {base : Product → ℤ} {miss : Uuid → Effect} (hpid : cfg.uuidOf call.productId = some pid)
    (hp : s.products pid = some p)
    (h : updateRow cfg s c call cond change base miss = some (.fail e)) :
    cond p = false ∧ miss pid = .fail e := by
  simp only [updateRow, hpid, hp] at h
  split_ifs at h with hcond hlock
  · cases h
  · exact ⟨by simpa using hcond, Option.some.inj h⟩

lemma not_fail_of_recordReservation :
    recordReservation cfg s c call ≠ some (.fail e) := by
  unfold recordReservation
  split <;> simp

lemma fail_of_readModifyWrite {p : Product} {forUpdate : Bool}
    (hpid : cfg.uuidOf call.productId = some pid) (hp : s.products pid = some p)
    (h : readModifyWrite forUpdate cfg s c call = some (.fail e)) :
    e = notEnoughStock ∧ p.stock < call.quantity := by
  unfold readModifyWrite at h
  split at h
  · exact fail_of_selectRow hpid hp h
  · obtain ⟨hcond, _⟩ := fail_of_updateRow hpid hp h
    cases hcond
  · exact absurd h not_fail_of_recordReservation

lemma fail_of_reserveOptimistic {p : Product} (hpid : cfg.uuidOf call.productId = some pid)
    (hp : s.products pid = some p)
    (hversion : ∀ k stock version, call.pc = .update k stock version →
      fitsInteger (nextVersion version) = true)
    (h : reserveOptimistic cfg s c call = some (.fail e)) :
    e = notEnoughStock ∧ p.stock < call.quantity := by
  unfold reserveOptimistic at h
  split at h
  · exact fail_of_selectRow hpid hp h
  · rename_i attempt stock version hpc
    rw [if_pos (hversion _ _ _ hpc)] at h
    obtain ⟨_, hmiss⟩ := fail_of_updateRow hpid hp h
    cases hmiss
  · split_ifs at h <;> cases h
  · exact absurd h not_fail_of_recordReservation

lemma fail_of_reserveAtomic {p : Product} (hpid : cfg.uuidOf call.productId = some pid)
    (hp : s.products pid = some p) (hfits : fitsInteger call.quantity = true)
    (h : reserveAtomic cfg s c call = some (.fail e)) :
    e = notEnoughStock ∧ p.stock < call.quantity := by
  unfold reserveAtomic at h
  split at h
  · simp [hpid] at h
  · rw [if_pos hfits] at h
    obtain ⟨hcond, hmiss⟩ := fail_of_updateRow hpid hp h
    cases hmiss
    exact ⟨rfl, by simpa using hcond⟩
  · exact absurd h not_fail_of_recordReservation

lemma fail_of_reserveProduct {p : Product} (hpid : cfg.uuidOf call.productId = some pid)
    (hp : s.products pid = some p) (hs : call.strategy = .optimistic ∨ call.strategy.LocksRow)
    (hfits : call.strategy = .atomic → fitsInteger call.quantity = true)
    (hversion : call.strategy = .optimistic → ∀ k stock version,
      call.pc = .update k stock version → fitsInteger (nextVersion version) = true)
    (h : reserveProduct cfg s c call = some (.fail e)) :
    e = notEnoughStock ∧ p.stock < call.quantity := by
  rcases hs with hs | hs | hs <;> simp only [reserveProduct, hs] at h
  · exact fail_of_reserveOptimistic hpid hp (hversion hs) h
  · exact fail_of_readModifyWrite hpid hp h
  · exact fail_of_reserveAtomic hpid hp (hfits hs) h

lemma optimistic_of_miss {p : Product} {u : Uuid} {k : ℕ}
    (hpid : cfg.uuidOf call.productId = some pid) (hp : s.products pid = some p)
    (hs : call.strategy = .optimistic ∨ call.strategy.LocksRow)
    (h : reserveProduct cfg s c call = some (.goto (.commitMiss u k))) :
    call.strategy = .optimistic := by
  rcases hs with hs | hs | hs
  · exact hs
  · simp only [reserveProduct, hs, reservePessimistic, readModifyWrite, selectRow, updateRow, hpid,
      hp] at h
    split at h
    · split_ifs at h
      split at h <;> cases h
    · split_ifs at h <;> cases h
    · unfold recordReservation at h
      split at h <;> cases h
  · simp only [reserveProduct, hs, reserveAtomic, updateRow, hpid, hp] at h
    split at h
    · cases h
    · split_ifs at h <;> cases h
    · unfold recordReservation at h
      split at h <;> cases h

/-- What the calls of these strategies need to know about the product. -/
structure Offer (cfg : Config) (pid : Uuid) (S q : ℤ) (s : State) (p : Product) : Prop where
  row : s.products pid = some p
  stock : p.stock + sold pid s * q = S
  positive : 0 ≤ p.stock

lemma tried_of_op {p : Product} {eff : Effect} (hoffer : Offer cfg pid S q s p)
    (hpid : cfg.uuidOf call.productId = some pid) (hquantity : call.quantity = q)
    (hs : call.strategy = .optimistic ∨ call.strategy.LocksRow)
    (hfits : call.strategy = .atomic → fitsInteger q = true)
    (hversion : call.strategy = .optimistic → p.version = 1 + sold pid s ∧
      fitsInteger (sold pid s + 2) = true)
    (hi : call.Tried cfg S q (sold pid s)) (h : reserveProduct cfg s c call = some eff) :
    Call.Tried cfg S q (sold pid s) { call with pc := eff.pc call } := by
  have hexit : call.strategy ≠ .locked := by
    intro hlocked
    rcases hs with hs | hs | hs <;> simp [hlocked] at hs
  have hdone (o : Outcome) : call.exit o = .done o := if_neg hexit
  have hnext : ∀ k stock version, call.strategy = .optimistic →
      call.pc = .update k stock version → fitsInteger (nextVersion version) = true := by
    intro k stock version hopt hpc
    obtain ⟨_, hmax⟩ := hversion hopt
    simp only [Call.Tried, hpc] at hi
    obtain ⟨hk, hv⟩ := hi hopt
    unfold nextVersion
    simp only [fitsInteger, Bool.and_eq_true, decide_eq_true_eq] at hmax ⊢
    omega
  have hsame {u : Uuid} (hu : cfg.uuidOf call.productId = some u) : u = pid :=
    Option.some.inj (hu.symm.trans hpid)
  cases does_of_reserveProduct h with
  | fails e _ =>
    obtain ⟨rfl, hlt⟩ := fail_of_reserveProduct hpid hoffer.row hs (fun ha => hquantity ▸ hfits ha)
      (fun hopt k stock version => hnext k stock version hopt) h
    have hstock := hoffer.stock
    simp only [Effect.pc, hdone, Call.Tried]
    refine .inl ⟨rfl, ?_⟩
    rw [hquantity] at hlt
    linarith
  | @reads attempt u p' hpc hu hrow _ _ =>
    obtain rfl := hsame hu
    obtain rfl := Option.some.inj (hoffer.row.symm.trans hrow)
    simp only [Call.Tried, hpc] at hi
    intro hopt
    obtain ⟨hv, _⟩ := hversion hopt
    omega
  | readsForUpdate _ _ _ _ hpess _ =>
    intro hopt
    simp [hpess] at hopt
  | @misses attempt stock version u hpc hu hstale =>
    obtain rfl := hsame hu
    have hopt := optimistic_of_miss hpid hoffer.row hs h
    obtain ⟨hv, _⟩ := hversion hopt
    have hne := hstale p hoffer.row
    simp only [Call.Tried, hpc] at hi
    obtain ⟨hk, hle⟩ := hi hopt
    exact ⟨hopt, by omega⟩
  | retries hpc _ =>
    simp only [Call.Tried, hpc] at hi
    exact hi.2
  | givesUp hpc hlast =>
    simp only [Call.Tried, hpc] at hi
    simp only [shouldRetry, decide_eq_false_iff_not, not_lt] at hlast
    exact .inr ⟨rfl, hi.1, hlast.trans hi.2⟩
  | acquires hpc _ | waits hpc _ | timesOut hpc _ | releases hpc _ _ =>
    simp only [Call.Tried, hpc] at hi
  | publishes _ => simp only [Effect.pc, hdone, Call.Tried]
  | _ => trivial

lemma tried_startPc {n : ℕ} {productId : String} {strategy : ReserveStrategy} {now : ℕ}
    (hs : strategy = .optimistic ∨ strategy.LocksRow) :
    Call.Tried cfg S q n ⟨productId, q, strategy, startPc cfg now strategy⟩ := by
  rcases hs with rfl | rfl | rfl
  · simp only [startPc]
    split_ifs with hmax
    · exact .inr ⟨rfl, rfl, by omega⟩
    · exact Nat.zero_le n
  · exact Nat.zero_le n
  · exact Nat.zero_le n

def TriedInv (cfg : Config) (pid : Uuid) (S q : ℤ) (s : State) : Prop :=
  ∀ c call, s.calls c = some call → cfg.uuidOf call.productId = some pid →
    call.Tried cfg S q (sold pid s)

lemma triedInv_step {p : Product} (hq : 0 < q)
    (hallowed : ∀ strategy, allowed strategy → strategy = .optimistic ∨ strategy.LocksRow)
    (hfits : allowed .atomic → fitsInteger q = true)
    (hversion : allowed .optimistic → p.version = 1 + sold pid s ∧
      fitsInteger (sold pid s + 2) = true)
    (hsale : SaleInv cfg pid q allowed s) (hoffer : Offer cfg pid S q s p)
    (hg : Asks cfg pid q allowed s a) (h : step cfg s a = some t) (hi : TriedInv cfg pid S q s) :
    TriedInv cfg pid S q t := by
  have hmono : sold pid s ≤ sold pid t := sold_mono h
  have hold {c : CallId} {call : Call} (hc : s.calls c = some call)
      (hpid : cfg.uuidOf call.productId = some pid) : call.Tried cfg S q (sold pid t) :=
    (hi c call hc hpid).mono hq hmono
  intro d call' hd hpid
  cases a with
  | start c productId req strategy =>
    cases took_of_step h with
    | start _ =>
      rcases update_eq_some.mp hd with ⟨_, rfl⟩ | ⟨_, hd⟩
      · obtain ⟨rfl, hs⟩ := hg hpid
        exact tried_startPc (hallowed _ hs)
      · exact hold hd hpid
  | op c =>
    simp only [step] at h
    split at h
    · cases h
    · rename_i call hc
      obtain ⟨eff, heff, rfl⟩ := Option.map_eq_some_iff.mp h
      rw [apply_calls] at hd
      rcases update_eq_some.mp hd with ⟨rfl, rfl⟩ | ⟨_, hd⟩
      · have hpid : cfg.uuidOf call.productId = some pid := hpid
        obtain ⟨hquantity, hs⟩ := hsale.asked _ call hc hpid
        have htried := tried_of_op hoffer hpid hquantity (hallowed _ hs)
          (fun ha => hfits (ha ▸ hs)) (fun ho => hversion (ho ▸ hs)) (hi _ call hc hpid) heff
        exact htried.mono hq hmono
      · exact hold hd hpid
  | abort c =>
    cases took_of_step h with
    | @abort _ call _ hc _ =>
      rw [apply_calls] at hd
      rcases update_eq_some.mp hd with ⟨rfl, rfl⟩ | ⟨_, hd⟩
      · exact absurd hpid (hg call hc)
      · exact hold hd hpid
  | crash c =>
    cases took_of_step h with
    | @crash _ call hc _ =>
      rcases update_eq_some.mp hd with ⟨rfl, rfl⟩ | ⟨_, hd⟩
      · exact absurd hpid (hg call hc)
      · exact hold hd hpid
  | tick d =>
    cases took_of_step h with
    | tick _ => exact hold hd hpid

structure SelloutInv (cfg : Config) (pid : Uuid) (S q : ℤ) (allowed : ReserveStrategy → Prop)
    (s : State) : Prop where
  ok : CallsOk cfg s
  rows : RowsInv s
  sale : SaleInv cfg pid q allowed s
  tried : TriedInv cfg pid S q s

lemma Created.selloutInv {req : ProductRequest} (h : Created pid req s) :
    SelloutInv cfg pid S q allowed s where
  ok := h.callsOk
  rows := h.rowsInv
  sale := ⟨fun c call hc => by simp [h.idle c] at hc, fun i hmem => by simp [h.noRows] at hmem⟩
  tried c call hc := by simp [h.idle c] at hc

lemma SaleInv.offer (hi : SaleInv cfg pid q allowed s) (hc : Conserved pid S s) :
    ∃ p, Offer cfg pid S q s p := by
  obtain ⟨p, hp, hpos, hsum⟩ := hc
  rw [hi.reserved_eq] at hsum
  exact ⟨p, hp, hsum, hpos⟩

lemma selloutInv_step (hq : 0 < q)
    (hallowed : ∀ strategy, allowed strategy → strategy = .optimistic ∨ strategy.LocksRow)
    (hfits : allowed .atomic → fitsInteger q = true) (hcons : Conserved pid S s)
    (hversion : allowed .optimistic → ∀ p, s.products pid = some p → p.version = 1 + sold pid s ∧
      fitsInteger (sold pid s + 2) = true)
    (hg : Asks cfg pid q allowed s a) (h : step cfg s a = some t)
    (hi : SelloutInv cfg pid S q allowed s) : SelloutInv cfg pid S q allowed t := by
  obtain ⟨p, hoffer⟩ := hi.sale.offer hcons
  exact ⟨callsOk_step h hi.ok, rowsInv_step h hi.rows, saleInv_step hi.ok hg h hi.sale,
    triedInv_step hq hallowed hfits (fun ho => hversion ho p hoffer.row) hi.sale hoffer hg h
      hi.tried⟩

lemma Offer.sold_le {p : Product} (h : Offer cfg pid S q s p) (hq : 0 < q) :
    sold pid s ≤ (S / q).toNat := by
  have hle : (sold pid s : ℤ) ≤ S / q := by
    rw [Int.le_ediv_iff_mul_le hq]
    have := h.stock
    have := h.positive
    omega
  omega

/-- A sale that is over: some calls have got their units, and the others were sent away as late as
they could. -/
structure Over (cfg : Config) (pid : Uuid) (S q : ℤ) (calls : Finset CallId) (s : State) :
    Prop where
  succeeded : (calls.filter fun c => s.succeeded c = true).card = sold pid s
  stock : ∃ p, s.products pid = some p ∧ p.stock = S - sold pid s * q
  most : sold pid s ≤ min calls.card (S / q).toNat
  refused : ∀ c ∈ calls, s.succeeded c = false → ∃ call e, s.calls c = some call ∧
    call.pc = .done (.raised e) ∧ ((e = notEnoughStock ∧ sold pid s = (S / q).toNat) ∨
      (e = tooManyAttempts ∧ call.strategy = .optimistic ∧
        cfg.maxOptimisticAttempts ≤ sold pid s))

lemma over_of_done (hq : 0 < q) (hlocked : ¬ allowed .locked) (hcons : Conserved pid S s)
    (hi : SelloutInv cfg pid S q allowed s)
    (hdone : ∀ c call, s.calls c = some call → cfg.uuidOf call.productId = some pid →
      ∃ o, call.pc = .done o) {calls : Finset CallId}
    (hcalls : ∀ c, c ∈ calls ↔ ∃ call, s.calls c = some call ∧
      cfg.uuidOf call.productId = some pid) : Over cfg pid S q calls s := by
  obtain ⟨p, hoffer⟩ := hi.sale.offer hcons
  have hcard := hi.sale.card_succeeded hi.rows hi.ok hlocked hdone hcalls
  have hle := hoffer.sold_le hq
  refine ⟨hcard, ⟨p, hoffer.row, by have := hoffer.stock; omega⟩,
    le_min (hcard ▸ Finset.card_filter_le ..) hle, fun c hc hnot => ?_⟩
  obtain ⟨call, hcall, hpid⟩ := (hcalls c).mp hc
  obtain ⟨o, hpc⟩ := hdone c call hcall hpid
  cases o with
  | returned r =>
    rw [succeeded_iff.mpr ⟨call, r, hcall, hpc⟩] at hnot
    cases hnot
  | raised e =>
    have htried := hi.tried c call hcall hpid
    simp only [Call.Tried, hpc] at htried
    refine ⟨call, e, hcall, hpc, ?_⟩
    rcases htried with ⟨rfl, hlt⟩ | hmax
    · refine .inl ⟨rfl, le_antisymm hle ?_⟩
      have hdiv : S / q < sold pid s + 1 := Int.ediv_lt_of_lt_mul hq hlt
      omega
    · exact .inr hmax

/-- Everybody has got something, or all is sold, or a call has used up its attempts. -/
lemma Over.cases {calls : Finset CallId} (h : Over cfg pid S q calls s) :
    sold pid s = calls.card ∨ sold pid s = (S / q).toNat ∨
      cfg.maxOptimisticAttempts ≤ sold pid s ∧ ∃ c ∈ calls, ∃ call, s.calls c = some call ∧
        call.pc = .done (.raised tooManyAttempts) := by
  by_cases hall : ∀ c ∈ calls, s.succeeded c = true
  · have hcard := h.succeeded
    rw [Finset.filter_true_of_mem hall] at hcard
    exact .inl hcard.symm
  · simp only [not_forall] at hall
    obtain ⟨c, hc, hnot⟩ := hall
    obtain ⟨call, e, hcall, hpc, ⟨_, hsold⟩ | ⟨rfl, _, hsold⟩⟩ :=
      h.refused c hc (by simpa using hnot)
    · exact .inr (.inl hsold)
    · exact .inr (.inr ⟨hsold, c, hc, call, hcall, hpc⟩)

/-- While all buyers of a product ask for the same quantity with strategies that lock the row, in
any order and none of them cancelled, as many of them get it as the stock allows, and the others are
told that there is not enough. -/
theorem locking_sellout (cfg : Config) {req : ProductRequest} {s₀ : State}
    (h₀ : Created pid req s₀) (request : ReserveRequest)
    (hfits : fitsInteger request.quantity = true)
    (h : ReachVia (step cfg) (Asks cfg pid request.quantity ReserveStrategy.LocksRow) s₀ s)
    (hdone : ∀ c call, s.calls c = some call → cfg.uuidOf call.productId = some pid →
      ∃ o, call.pc = .done o)
    {calls : Finset CallId} (hcalls : ∀ c, c ∈ calls ↔ ∃ call, s.calls c = some call ∧
      cfg.uuidOf call.productId = some pid) :
    sold pid s = min calls.card (req.stock / request.quantity).toNat ∧
      Over cfg pid req.stock request.quantity calls s ∧
      ∀ c call e, s.calls c = some call → cfg.uuidOf call.productId = some pid →
        call.pc = .done (.raised e) → e = notEnoughStock := by
  have hlocked : ¬ ReserveStrategy.LocksRow .locked := by simp [ReserveStrategy.LocksRow]
  have hopt : ¬ ReserveStrategy.LocksRow .optimistic := by simp [ReserveStrategy.LocksRow]
  have hquantity := request.quantity_pos
  have hboth := h.invariant
    (I := fun s => LockingInv cfg pid req.stock s ∧
      SelloutInv cfg pid req.stock request.quantity ReserveStrategy.LocksRow s)
    ⟨⟨by simp [PendingInv, h₀.idle], by simp [h₀.idle], by simp [h₀.idle], h₀.conserved⟩,
      h₀.selloutInv⟩
    fun s a t hi hg ht =>
      ⟨lockingInv_step hi.2.ok hi.1 (by cases a <;> first | trivial | exact fun hu => (hg hu).2) ht,
        selloutInv_step hquantity (fun _ => .inr) (fun _ => hfits) hi.1.conserved
          (fun ho => absurd ho hopt) hg ht hi.2⟩
  obtain ⟨hlocking, hsellout⟩ := hboth
  have hover := over_of_done hquantity hlocked hlocking.conserved hsellout hdone hcalls
  have hrefused : ∀ c call e, s.calls c = some call → cfg.uuidOf call.productId = some pid →
      call.pc = .done (.raised e) → e = notEnoughStock := by
    intro c call e hc hpid hpc
    have htried := hsellout.tried c call hc hpid
    simp only [Call.Tried, hpc] at htried
    rcases htried with ⟨he, _⟩ | ⟨_, hstrategy, _⟩
    · exact he
    · exact absurd (hstrategy ▸ (hsellout.sale.asked c call hc hpid).2) hopt
  refine ⟨?_, hover, hrefused⟩
  have hmost := hover.most
  rcases hover.cases with hsold | hsold | ⟨_, c, hc, call, hcall, hpc⟩
  · omega
  · omega
  · obtain ⟨call', hcall', hpid⟩ := (hcalls c).mp hc
    obtain rfl := Option.some.inj (hcall.symm.trans hcall')
    have he := hrefused c call _ hcall hpid hpc
    simp [tooManyAttempts, notEnoughStock] at he

lemma started_of_exec {acts : List Action} (h : exec (step cfg) s acts = some t)
    (hfresh : s.calls c = none) (hc : t.calls c ≠ none) :
    ∃ productId req strategy, Action.start c productId req strategy ∈ acts := by
  induction acts generalizing s with
  | nil =>
    rw [exec_nil, Option.some.injEq] at h
    exact absurd (h ▸ hfresh) hc
  | cons a acts ih =>
    obtain ⟨u, hu, hrest⟩ := exec_cons_eq_some.mp h
    by_cases hstill : u.calls c = none
    · obtain ⟨productId, req, strategy, hmem⟩ := ih hrest hstill
      exact ⟨productId, req, strategy, List.mem_cons_of_mem a hmem⟩
    · obtain ⟨call, hcall⟩ := Option.ne_none_iff_exists'.mp hstill
      rcases call_of_step hu hcall with ⟨call', hc', _⟩ | ⟨req, rfl⟩
      · rw [hfresh] at hc'
        cases hc'
      · exact ⟨_, req, _, List.mem_cons_self⟩

/-- The widget has had three calls, and they have ended. -/
structure WidgetSale (s : State) : Prop where
  only : ∀ c, s.calls c ≠ none → c = 0 ∨ c = 1 ∨ c = 2
  ended : ∀ c, c = 0 ∨ c = 1 ∨ c = 2 → ∃ call o, s.calls c = some call ∧
    call.productId = widgetId ∧ call.pc = .done o

lemma WidgetSale.done (h : WidgetSale s) (c : CallId) (call : Call) (hc : s.calls c = some call) :
    ∃ o, call.pc = .done o := by
  obtain ⟨call', o, hc', _, hpc⟩ := h.ended c (h.only c (by simp [hc]))
  obtain rfl := Option.some.inj (hc.symm.trans hc')
  exact ⟨o, hpc⟩

lemma WidgetSale.mem_calls (h : WidgetSale s) (c : CallId) : c ∈ ({0, 1, 2} : Finset CallId) ↔
    ∃ call, s.calls c = some call ∧ widgetConfig.uuidOf call.productId = some 1 := by
  simp only [Finset.mem_insert, Finset.mem_singleton]
  constructor
  · intro hc
    obtain ⟨call, _, hcall, hid, _⟩ := h.ended c hc
    exact ⟨call, hcall, by simp [widgetConfig, hid]⟩
  · rintro ⟨call, hc, _⟩
    exact h.only c (by simp [hc])

/-- Three calls for four of the ten units; the last finds two. -/
def lastOne : List Action :=
  [.start 0 widgetId fourUnits .pessimistic, .start 1 widgetId fourUnits .atomic,
    .start 2 widgetId fourUnits .pessimistic, .op 0, .op 1, .op 0, .op 0, .op 0, .op 1, .op 1,
    .op 1, .op 2]

theorem locking_sellout_lastOne :
    ∃ s, exec (step widgetConfig) widgetState lastOne = some s ∧ sold 1 s = 2 ∧
      Over widgetConfig 1 10 4 {0, 1, 2} s := by
  obtain ⟨s, hs, call₀, call₁, call₂, r₀, r₁, e₂, h₀, h₁, h₂⟩ :
      ∃ s, exec (step widgetConfig) widgetState lastOne = some s ∧ ∃ call₀ call₁ call₂ r₀ r₁ e₂,
        (s.calls 0 = some call₀ ∧ call₀.productId = widgetId ∧ call₀.pc = .done (.returned r₀)) ∧
        (s.calls 1 = some call₁ ∧ call₁.productId = widgetId ∧ call₁.pc = .done (.returned r₁)) ∧
        s.calls 2 = some call₂ ∧ call₂.productId = widgetId ∧ call₂.pc = .done (.raised e₂) :=
    ⟨_, rfl, _, _, _, _, _, _, ⟨rfl, rfl, rfl⟩, ⟨rfl, rfl, rfl⟩, rfl, rfl, rfl⟩
  have hreach : ReachVia (step widgetConfig)
      (Asks widgetConfig 1 fourUnits.quantity ReserveStrategy.LocksRow) widgetState s :=
    reachVia_of_exec lastOne hs (guarded_of_forall_mem
      (by simp [lastOne, Asks, ReserveStrategy.LocksRow, fourUnits]) _)
  have hsale : WidgetSale s := by
    refine ⟨fun c hc => ?_, ?_⟩
    · obtain ⟨productId, req, strategy, hmem⟩ := started_of_exec hs rfl hc
      simp only [lastOne, List.mem_cons, Action.start.injEq, reduceCtorEq, or_false,
        List.not_mem_nil] at hmem
      rcases hmem with ⟨rfl, _⟩ | ⟨rfl, _⟩ | ⟨rfl, _⟩ <;> simp
    · rintro c (rfl | rfl | rfl)
      · exact ⟨call₀, _, h₀⟩
      · exact ⟨call₁, _, h₁⟩
      · exact ⟨call₂, _, h₂⟩
  obtain ⟨hsold, hover, _⟩ := locking_sellout widgetConfig widgetState_created fourUnits
    (by decide) hreach (fun c call hc _ => hsale.done c call hc) hsale.mem_calls
  exact ⟨s, hs, hsold, hover⟩

/-- The same for optimistic buyers: as many are served as there are units, or at least as many as a
call has attempts; so all units are sold if there are no more than that. -/
theorem optimistic_sellout (cfg : Config) {req : ProductRequest} {s₀ : State}
    (h₀ : Created pid req s₀) (request : ReserveRequest)
    (hversion : req.stock / request.quantity + 2 ≤ 2147483647)
    (h : ReachVia (step cfg) (Asks cfg pid request.quantity (· = .optimistic)) s₀ s)
    (hdone : ∀ c call, s.calls c = some call → cfg.uuidOf call.productId = some pid →
      ∃ o, call.pc = .done o)
    {calls : Finset CallId} (hcalls : ∀ c, c ∈ calls ↔ ∃ call, s.calls c = some call ∧
      cfg.uuidOf call.productId = some pid) :
    min calls.card (min (req.stock / request.quantity).toNat cfg.maxOptimisticAttempts) ≤
        sold pid s ∧
      Over cfg pid req.stock request.quantity calls s := by
  have hquantity := request.quantity_pos
  have hboth := h.invariant
    (I := fun s => OptimisticInv cfg pid req.stock s ∧
      SelloutInv cfg pid req.stock request.quantity (· = .optimistic) s)
    ⟨h₀.optimisticInv, h₀.selloutInv⟩
    fun s a t hi hg ht => by
      have hcons := hi.1.versioned.conserved
      refine ⟨optimisticInv_step hi.2.ok hi.1
        (by cases a <;> first | trivial | exact fun hu => (hg hu).2) ht,
        selloutInv_step hquantity (fun _ => .inl) (by simp) hcons (fun _ p hp => ?_) hg ht hi.2⟩
      obtain ⟨p', hoffer⟩ := hi.2.sale.offer hcons
      have hle := hoffer.sold_le hquantity
      obtain ⟨p'', hp'', _, _, hv⟩ := hi.1.versioned
      obtain rfl := Option.some.inj (hp.symm.trans hp'')
      refine ⟨hv, ?_⟩
      simp only [fitsInteger, Bool.and_eq_true, decide_eq_true_eq]
      omega
  obtain ⟨hoptimistic, hsellout⟩ := hboth
  have hover := over_of_done hquantity (by simp) hoptimistic.versioned.conserved hsellout hdone
    hcalls
  refine ⟨?_, hover⟩
  rcases hover.cases with hsold | hsold | ⟨hsold, _⟩ <;> omega

/-- Two calls that both read ten units: the first takes four, the second four in its next attempt,
and a third call finds two. -/
def lastTwo : List Action :=
  [.start 0 widgetId fourUnits .optimistic, .start 1 widgetId fourUnits .optimistic,
    .start 2 widgetId fourUnits .optimistic, .op 0, .op 1, .op 0, .op 0, .op 0, .op 1, .op 1,
    .op 1, .op 1, .op 1, .op 1, .op 2]

theorem optimistic_sellout_lastTwo :
    ∃ s, exec (step widgetConfig) widgetState lastTwo = some s ∧ 2 ≤ sold 1 s ∧
      Over widgetConfig 1 10 4 {0, 1, 2} s := by
  obtain ⟨s, hs, call₀, call₁, call₂, r₀, r₁, e₂, h₀, h₁, h₂⟩ :
      ∃ s, exec (step widgetConfig) widgetState lastTwo = some s ∧ ∃ call₀ call₁ call₂ r₀ r₁ e₂,
        (s.calls 0 = some call₀ ∧ call₀.productId = widgetId ∧ call₀.pc = .done (.returned r₀)) ∧
        (s.calls 1 = some call₁ ∧ call₁.productId = widgetId ∧ call₁.pc = .done (.returned r₁)) ∧
        s.calls 2 = some call₂ ∧ call₂.productId = widgetId ∧ call₂.pc = .done (.raised e₂) :=
    ⟨_, rfl, _, _, _, _, _, _, ⟨rfl, rfl, rfl⟩, ⟨rfl, rfl, rfl⟩, rfl, rfl, rfl⟩
  have hreach : ReachVia (step widgetConfig)
      (Asks widgetConfig 1 fourUnits.quantity (· = .optimistic)) widgetState s :=
    reachVia_of_exec lastTwo hs (guarded_of_forall_mem (by simp [lastTwo, Asks, fourUnits]) _)
  have hsale : WidgetSale s := by
    refine ⟨fun c hc => ?_, ?_⟩
    · obtain ⟨productId, req, strategy, hmem⟩ := started_of_exec hs rfl hc
      simp only [lastTwo, List.mem_cons, Action.start.injEq, reduceCtorEq, or_false,
        List.not_mem_nil] at hmem
      rcases hmem with ⟨rfl, _⟩ | ⟨rfl, _⟩ | ⟨rfl, _⟩ <;> simp
    · rintro c (rfl | rfl | rfl)
      · exact ⟨call₀, _, h₀⟩
      · exact ⟨call₁, _, h₁⟩
      · exact ⟨call₂, _, h₂⟩
  obtain ⟨hsold, hover⟩ := optimistic_sellout widgetConfig widgetState_created fourUnits
    (by decide) hreach (fun c call hc _ => hsale.done c call hc) hsale.mem_calls
  refine ⟨s, hs, le_trans ?_ hsold, hover⟩
  decide

end AsyncDataHub.Inventory
