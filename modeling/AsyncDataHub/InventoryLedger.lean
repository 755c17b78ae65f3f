import AsyncDataHub.InventoryStep

/-! The stock ledger of one product under any mix of strategies: one step keeps it balanced exactly
if it commits no stock that was computed from a value the row no longer has. -/
namespace AsyncDataHub.Inventory
open StepSystem LockTable OwnedRows

variable {cfg : Config} {s t : State} {pid : Uuid} {S : ℤ}

def Call.Asked (cfg : Config) (call : Call) (r : ProductReservation) : Prop :=
  cfg.uuidOf call.productId = some r.productId ∧ r.quantity = call.quantity

/-- What a call knows from its own values and arguments only. -/
def Call.Ok (cfg : Config) (call : Call) : Prop :=
  match call.pc with
  | .update _ stock _ => call.quantity ≤ stock
  | .record w => cfg.uuidOf call.productId = some w.product ∧
      w.row.stock = w.base - call.quantity ∧ call.quantity ≤ w.base
  | .commit w r => call.Asked cfg r ∧ r.productId = w.product ∧
      w.row.stock = w.base - call.quantity ∧ call.quantity ≤ w.base
  | .release (.returned r) | .done (.returned r) => call.Asked cfg r
  | _ => True

def CallsOk (cfg : Config) (s : State) : Prop := ∀ c call, s.calls c = some call → call.Ok cfg

lemma ok_exit_raised (call : Call) (e : PyError) :
    Call.Ok cfg { call with pc := call.exit (.raised e) } := by
  rcases exit_eq call (.raised e) with h | h <;> rw [h] <;> trivial

lemma ok_exit_returned {call : Call} {r : ProductReservation} (h : call.Asked cfg r) :
    Call.Ok cfg { call with pc := call.exit (.returned r) } := by
  rcases exit_eq call (.returned r) with he | he <;> rw [he] <;> exact h

lemma ok_startPc (cfg : Config) (now : ℕ) (productId : String) (q : ℤ)
    (strategy : ReserveStrategy) :
    Call.Ok cfg ⟨productId, q, strategy, startPc cfg now strategy⟩ := by
  cases strategy <;> simp only [startPc]
  case optimistic => split_ifs <;> trivial
  all_goals trivial

lemma ok_of_does {c : CallId} {call : Call} {eff : Effect} (hok : call.Ok cfg)
    (h : Does cfg s c call eff) : Call.Ok cfg { call with pc := eff.pc call } := by
  cases h with
  | fails e _ => exact ok_exit_raised call e
  | reads _ _ _ hq _ => exact hq
  | readsForUpdate _ _ _ hq _ _ => exact hq
  | overwrites hpc hu _ _ _ =>
    simp only [Call.Ok, hpc] at hok
    exact ⟨hu, rfl, hok⟩
  | swaps hpc hu _ _ _ =>
    simp only [Call.Ok, hpc] at hok
    exact ⟨hu, rfl, hok⟩
  | decrements _ hu _ hq _ _ => exact ⟨hu, rfl, hq⟩
  | records hpc =>
    simp only [Call.Ok, hpc] at hok
    obtain ⟨hu, hstock, hq⟩ := hok
    exact ⟨⟨hu, rfl⟩, rfl, hstock, hq⟩
  | publishes hpc =>
    simp only [Call.Ok, hpc] at hok
    exact ok_exit_returned hok.1
  | @releases o o' cache r hpc _ ho =>
    rcases ho with rfl | ⟨e, rfl⟩
    · cases o' with
      | returned r =>
        simp only [Call.Ok, hpc] at hok
        exact hok
      | raised e => trivial
    · trivial
  | _ => trivial

theorem callsOk_step {a : Action} (h : step cfg s a = some t) (hi : CallsOk cfg s) :
    CallsOk cfg t := by
  unfold CallsOk at hi ⊢
  cases took_of_step h with
  | start _ => exact forall_update hi (ok_startPc ..)
  | op hc hdoes =>
    rw [apply_calls]
    exact forall_update hi (ok_of_does (hi _ _ hc) hdoes)
  | abort hc heff =>
    rw [apply_calls]
    rcases abortEffect_cases heff with ⟨_, e, rfl⟩ | ⟨_, e, rfl⟩
    · exact forall_update hi (ok_exit_raised _ e)
    · exact forall_update hi trivial
  | crash hc _ => exact forall_update hi trivial
  | tick _ => exact hi

/-- The committed stock is not negative and, with what is reserved, gives the initial stock. -/
def Conserved (pid : Uuid) (S : ℤ) (s : State) : Prop :=
  ∃ p, s.products pid = some p ∧ 0 ≤ p.stock ∧ p.stock + reserved pid s.reservations = S

/-- A call that commits a write to the product has computed it from the stock that the product
still has. -/
def UpToDate (pid : Uuid) (s : State) : Action → Prop
  | .op c => ∀ call w r, s.calls c = some call → call.pc = .commit w r → w.product = pid →
      ∃ p, s.products pid = some p ∧ p.stock = w.base
  | _ => True

/-- The state right after the product was added, with no reservation made and none running. -/
structure Created (pid : Uuid) (req : ProductRequest) (s : State) : Prop where
  row : s.products pid = some (addProduct req)
  noRows : s.reservations = []
  noHistory : s.history = []
  idle : ∀ c, s.calls c = none

lemma reserved_append (rows : List Inserted) (i : Inserted) :
    reserved pid (rows ++ [i]) =
      reserved pid rows + if i.row.productId = pid then i.row.quantity else 0 := by
  unfold reserved rowsOf
  rw [List.filter_append, List.map_append, List.sum_append]
  split_ifs with h <;> simp [h]

lemma rowsOf_append (rows : List Inserted) (i : Inserted) :
    (rowsOf pid (rows ++ [i])).length =
      (rowsOf pid rows).length + if i.row.productId = pid then 1 else 0 := by
  unfold rowsOf
  rw [List.filter_append, List.length_append]
  split_ifs with h <;> simp [h]

lemma Created.callsOk {req : ProductRequest} (h : Created pid req s) : CallsOk cfg s := by
  intro c call hc
  rw [h.idle c] at hc
  cases hc

lemma Created.conserved {req : ProductRequest} (h : Created pid req s) :
    Conserved pid req.stock s :=
  ⟨addProduct req, h.row, req.stock_pos.le, by simp [h.noRows, reserved, rowsOf, addProduct]⟩

lemma conserved_publish_iff {c : CallId} {call : Call} {w : Write} {r : ProductReservation}
    (hok : call.Ok cfg) (hpc : call.pc = .commit w r) (hp : Conserved pid S s) :
    Conserved pid S (s.apply c call (.publish w r)) ↔
      (w.product = pid → ∃ p, s.products pid = some p ∧ p.stock = w.base) := by
  obtain ⟨p, hrow, hpos, hsum⟩ := hp
  simp only [Call.Ok, hpc] at hok
  obtain ⟨⟨_, hqty⟩, hprod, hstock, hbase⟩ := hok
  simp only [Conserved, apply_products, apply_reservations, reserved_append, hprod]
  by_cases hw : w.product = pid
  · subst hw
    simp only [Function.update_self, Option.some.injEq, ↓reduceIte, forall_const, hrow,
      exists_eq_left']
    constructor
    · rintro ⟨_, h⟩
      omega
    · intro h
      constructor <;> omega
  · simp only [Function.update_of_ne (Ne.symm hw), hrow, Option.some.injEq, exists_eq_left', hw,
      ↓reduceIte, add_zero, false_imp_iff, iff_true]
    exact ⟨hpos, hsum⟩

theorem conserved_step_iff (a : Action) (hok : CallsOk cfg s) (hp : Conserved pid S s)
    (h : step cfg s a = some t) : Conserved pid S t ↔ UpToDate pid s a := by
  rcases step_rows h with ⟨hprod, hres⟩ | ⟨c, call, w, r, rfl, hc, hpc, rfl⟩
  · have ht : Conserved pid S t := by
      obtain ⟨p, hrow, hpos, hsum⟩ := hp
      exact ⟨p, hprod ▸ hrow, hpos, hres ▸ hsum⟩
    refine iff_of_true ht ?_
    cases a with
    | op c =>
      -- a COMMIT with a write always adds a row, so this step was none
      intro call w r hc hpc _
      rw [step_commit hc hpc, Option.some.injEq] at h
      subst h
      simp at hres
    | _ => trivial
  · rw [conserved_publish_iff (hok _ _ hc) hpc hp]
    constructor
    · intro hw call' w' r' hc' hpc' hpid
      rw [hc, Option.some.injEq] at hc'
      subst hc'
      rw [hpc, Pc.commit.injEq] at hpc'
      obtain ⟨rfl, rfl⟩ := hpc'
      exact hw hpid
    · exact fun hu hpid => hu call w r hc hpc hpid

def widgetId : String := "00000000-0000-0000-0000-000000000001"

/-- A product with ten units, whose id is the only one the driver is asked to read. -/
def widgetConfig : Config where
  uuidOf := fun text => if text = widgetId then some 1 else none
  uuid7 := fun c => BitVec.ofNat 128 (c + 2)
  tokenHex := fun c => toString c

def widget : ProductRequest := ⟨"widget", 10, by decide⟩

def widgetState : State where
  products := Function.update (fun _ => none) 1 (some (addProduct widget))
  reservations := []
  history := []
  rowLock := fun _ => none
  cache := ⟨.redis, 30, fun _ => none⟩
  now := 0
  calls := fun _ => none

theorem widgetState_created : Created 1 widget widgetState :=
  ⟨by simp [widgetState], rfl, rfl, fun _ => rfl⟩

def threeUnits : ReserveRequest := ⟨3, by decide⟩

def fourUnits : ReserveRequest := ⟨4, by decide⟩

/-- Call 0 reads ten units, call 1 takes four of them with the atomic UPDATE, which leaves the
version alone; the compare-and-swap of call 0 then succeeds and writes 10 - 3. -/
def lostUpdate : List Action :=
  [.start 0 widgetId threeUnits .optimistic, .start 1 widgetId fourUnits .atomic,
    .op 0, .op 1, .op 1, .op 1, .op 1, .op 0, .op 0, .op 0]

theorem lostUpdate_unbalanced :
    ∃ s, exec (step widgetConfig) widgetState lostUpdate = some s ∧
      (s.products 1).map Product.stock = some 7 ∧ reserved 1 s.reservations = 7 ∧
      ¬ Conserved 1 10 s := by
  obtain ⟨s, hs, hstock, hres⟩ : ∃ s, exec (step widgetConfig) widgetState lostUpdate = some s ∧
      (s.products 1).map Product.stock = some 7 ∧ reserved 1 s.reservations = 7 :=
    ⟨_, rfl, rfl, rfl⟩
  refine ⟨s, hs, hstock, hres, ?_⟩
  rintro ⟨p, hp, _, hsum⟩
  rw [hp, Option.map_some, Option.some.injEq] at hstock
  omega

end AsyncDataHub.Inventory
