import AsyncDataHub.InventoryLedger

/-! Which rows a call has inserted, told by where the call stands, for every strategy. -/
namespace AsyncDataHub.Inventory
open StepSystem LockTable OwnedRows

variable {cfg : Config} {s t : State} {pid : Uuid}

/-- How many rows a call has inserted, told by where it stands. A locked call that dies after its
COMMIT ends with an exception and leaves its row. -/
def Call.Rows (rows : List Inserted) (c : CallId) (call : Call) : Prop :=
  match call.pc with
  | .release (.returned r) => call.strategy = .locked ∧ rowsBy c rows = [⟨c, r⟩]
  | .done (.returned r) => rowsBy c rows = [⟨c, r⟩]
  | .release (.raised _) => call.strategy = .locked ∧ rowsBy c rows = []
  | .done (.raised _) => call.strategy ≠ .locked → rowsBy c rows = []
  | _ => rowsBy c rows = []

structure RowsInv (s : State) : Prop where
  started : ∀ c call, s.calls c = some call → call.Rows s.reservations c
  fresh : ∀ c, s.calls c = none → rowsBy c s.reservations = []
  commits : ∀ h ∈ s.history, (h.after = h.before ∧ h.inserted = []) ∨
    ∃ r, h.inserted = [r] ∧ ⟨h.call, r⟩ ∈ s.reservations

lemma Call.Rows.congr {rows rows' : List Inserted} {c : CallId} {call : Call}
    (h : call.Rows rows c) (he : rowsBy c rows' = rowsBy c rows) : call.Rows rows' c := by
  unfold Call.Rows at *
  rw [he]
  exact h

lemma rows_exit_raised {rows : List Inserted} {c : CallId} (call : Call) (e : PyError)
    (h : rowsBy c rows = []) : Call.Rows rows c { call with pc := call.exit (.raised e) } := by
  unfold Call.exit
  split_ifs with hl
  · exact ⟨hl, h⟩
  · exact fun _ => h

lemma rows_startPc (cfg : Config) (now : ℕ) (productId : String) (q : ℤ)
    (strategy : ReserveStrategy) {rows : List Inserted} {c : CallId} (h : rowsBy c rows = []) :
    Call.Rows rows c ⟨productId, q, strategy, startPc cfg now strategy⟩ := by
  cases strategy <;> simp only [startPc]
  case optimistic =>
    split_ifs
    · exact fun _ => h
    · exact h
  all_goals exact h

lemma Call.Rows.of_inBlock {rows : List Inserted} {c : CallId} {call : Call}
    (h : call.Rows rows c) (hpc : call.pc.InBlock) : rowsBy c rows = [] := by
  unfold Call.Rows at h
  cases hp : call.pc <;> simp only [hp, Pc.InBlock] at h hpc <;> exact h

lemma rows_of_does {c : CallId} {call : Call} {eff : Effect} (hr : call.Rows s.reservations c)
    (h : Does cfg s c call eff) (hn : ∀ w r, eff ≠ .publish w r) :
    Call.Rows s.reservations c { call with pc := eff.pc call } := by
  cases h with
  | fails e hpc => exact rows_exit_raised call e (hr.of_inBlock hpc)
  | publishes _ => exact absurd rfl (hn _ _)
  | givesUp hpc _ => exact fun _ => hr.of_inBlock (by rw [hpc]; trivial)
  | timesOut hpc _ =>
    simp only [Call.Rows, hpc] at hr
    exact fun _ => hr
  | releases hpc _ ho =>
    rename_i o _ _ _ _
    simp only [Call.Rows, hpc] at hr
    cases o with
    | returned r =>
      rcases ho with rfl | ⟨e, rfl⟩
      · exact hr.2
      · exact fun hl => absurd hr.1 hl
    | raised e =>
      rcases ho with rfl | ⟨e', rfl⟩ <;> exact fun _ => hr.2
  | acquires hpc _ | waits hpc _ =>
    simp only [Call.Rows, hpc] at hr
    exact hr
  | reads hpc _ _ _ _ | readsForUpdate hpc _ _ _ _ _ | overwrites hpc _ _ _ _
  | swaps hpc _ _ _ _ | misses hpc _ _ | retries hpc _ | counts hpc _ _
  | decrements hpc _ _ _ _ _ | records hpc => exact hr.of_inBlock (by rw [hpc]; trivial)

lemma rows_of_publish {c : CallId} {call : Call} {w : Write} {r : ProductReservation}
    (hr : call.Rows s.reservations c) (hpc : call.pc = .commit w r) :
    Call.Rows (s.reservations ++ [⟨c, r⟩]) c { call with pc := call.exit (.returned r) } := by
  have hnone := hr.of_inBlock (by rw [hpc]; trivial)
  have hone : rowsBy c (s.reservations ++ [⟨c, r⟩]) = [⟨c, r⟩] := by
    rw [rowsBy_append_self, hnone, List.nil_append]
  unfold Call.exit
  split_ifs with hl
  · exact ⟨hl, hone⟩
  · exact hone

lemma rows_of_abort {c : CallId} {call : Call} {eff : Effect} (hr : call.Rows s.reservations c)
    (h : abortEffect call.pc = some eff) :
    Call.Rows s.reservations c { call with pc := eff.pc call } := by
  rcases abortEffect_cases h with ⟨hblock, e, rfl⟩ | ⟨⟨deadline, hpc⟩, e, rfl⟩
  · exact rows_exit_raised call e (hr.of_inBlock hblock)
  · simp only [Call.Rows, hpc] at hr
    exact fun _ => hr

lemma rows_of_crash {c : CallId} {call : Call} (e : PyError) (hr : call.Rows s.reservations c)
    (hne : ∀ o, call.pc ≠ .done o) :
    Call.Rows s.reservations c { call with pc := .done (.raised e) } := by
  intro hl
  cases hpc : call.pc with
  | release o =>
    simp only [Call.Rows, hpc] at hr
    cases o <;> exact absurd hr.1 hl
  | done o => exact absurd hpc (hne o)
  | _ =>
    simp only [Call.Rows, hpc] at hr
    exact hr

lemma rowsInv_apply {c : CallId} {call : Call} {eff : Effect} (hi : RowsInv s)
    (hc : s.calls c = some call) (hn : ∀ w r, eff ≠ .publish w r)
    (hr : Call.Rows s.reservations c { call with pc := eff.pc call }) :
    RowsInv (s.apply c call eff) := by
  have hres : (s.apply c call eff).reservations = s.reservations := (apply_rows s c call hn).2
  refine ⟨fun d call' hd => ?_, fun d hd => ?_, fun h hh => ?_⟩
  · rw [apply_calls] at hd
    rw [hres]
    rcases update_eq_some.mp hd with ⟨rfl, rfl⟩ | ⟨_, hd⟩
    · exact hr
    · exact hi.started d call' hd
  · rw [apply_calls] at hd
    rw [hres]
    exact hi.fresh d (update_eq_none.mp hd).2
  · rw [hres]
    rw [apply_history] at hh
    cases eff with
    | publish w r => exact absurd rfl (hn _ _)
    | commitNoop u pc =>
      rcases List.mem_append.mp hh with hh | hh
      · exact hi.commits h hh
      · rw [List.mem_singleton] at hh
        subst hh
        exact .inl ⟨rfl, rfl⟩
    | goto _ | lockRow _ _ | fail _ | setCache _ _ => exact hi.commits h hh

lemma rowsInv_publish {c : CallId} {call : Call} {w : Write} {r : ProductReservation}
    (hi : RowsInv s) (hc : s.calls c = some call) (hpc : call.pc = .commit w r) :
    RowsInv (s.apply c call (.publish w r)) := by
  refine ⟨fun d call' hd => ?_, fun d hd => ?_, fun h hh => ?_⟩
  · rw [apply_calls] at hd
    rcases update_eq_some.mp hd with ⟨rfl, rfl⟩ | ⟨hne, hd⟩
    · exact rows_of_publish (hi.started _ _ hc) hpc
    · exact (hi.started d call' hd).congr (rowsBy_append_of_ne hne ..)
  · rw [apply_calls] at hd
    obtain ⟨hne, hd⟩ := update_eq_none.mp hd
    rw [apply_reservations, rowsBy_append_of_ne hne]
    exact hi.fresh d hd
  · rw [apply_history] at hh
    rw [apply_reservations]
    rcases List.mem_append.mp hh with hh | hh
    · rcases hi.commits h hh with hsame | ⟨r', hr', hmem⟩
      · exact .inl hsame
      · exact .inr ⟨r', hr', List.mem_append_left _ hmem⟩
    · rw [List.mem_singleton] at hh
      subst hh
      exact .inr ⟨r, rfl, by simp⟩

theorem rowsInv_step {a : Action} (h : step cfg s a = some t) (hi : RowsInv s) : RowsInv t := by
  cases took_of_step h with
  | @start c productId req strategy hfresh =>
    exact ⟨forall_update hi.started (rows_startPc _ _ _ _ _ (hi.fresh _ hfresh)),
      fun d hd => hi.fresh d (update_eq_none.mp hd).2, hi.commits⟩
  | @op c call eff hc hd =>
    by_cases hn : ∃ w r, eff = .publish w r
    · obtain ⟨w, r, rfl⟩ := hn
      cases hd with
      | publishes hpc => exact rowsInv_publish hi hc hpc
    · have hn' : ∀ w r, eff ≠ .publish w r := fun w r he => hn ⟨w, r, he⟩
      exact rowsInv_apply hi hc hn' (rows_of_does (hi.started c call hc) hd hn')
  | @abort c call eff hc heff =>
    refine rowsInv_apply hi hc (fun w r he => ?_) (rows_of_abort (hi.started c call hc) heff)
    rcases abortEffect_cases heff with ⟨_, e, rfl⟩ | ⟨_, e, rfl⟩ <;> cases he
  | @crash c call hc hne =>
    exact ⟨forall_update hi.started (rows_of_crash _ (hi.started _ _ hc) hne),
      fun d hd => hi.fresh d (update_eq_none.mp hd).2, hi.commits⟩
  | tick _ => exact ⟨hi.started, hi.fresh, hi.commits⟩

lemma Created.rowsInv {req : ProductRequest} (h : Created pid req s) : RowsInv s := by
  refine ⟨fun c call hc => ?_, fun c _ => ?_, fun x hx => ?_⟩
  · rw [h.idle c] at hc
    cases hc
  · simp [rowsBy, h.noRows]
  · rw [h.noHistory] at hx
    cases hx

/-- In every reachable state a finished call has exactly the row it returned, and one that raised
has none; only a locked call may die after its COMMIT. -/
theorem rowsInv_reach {req : ProductRequest} {s₀ : State} (h₀ : Created pid req s₀)
    (h : Reach (step cfg) s₀ s) : RowsInv s :=
  h.invariant h₀.rowsInv fun _ _ _ hi _ ht => rowsInv_step ht hi

/-- What a finished call on a product has done, unless its lock was a Redis lock: one row for what
it asked, or no row and nothing changed by any of its transactions. -/
theorem finished_reach {req : ProductRequest} {s₀ : State} (h₀ : Created pid req s₀)
    (h : Reach (step cfg) s₀ s) {c : CallId} {call : Call} (hc : s.calls c = some call)
    (hpid : cfg.uuidOf call.productId = some pid) (hlocked : call.strategy ≠ .locked) :
    (∀ r, call.pc = .done (.returned r) → rowsBy c s.reservations = [⟨c, r⟩] ∧
      r.productId = pid ∧ r.quantity = call.quantity) ∧
    (∀ e, call.pc = .done (.raised e) → rowsBy c s.reservations = [] ∧
      ∀ x ∈ s.history, x.call = c → x.after = x.before ∧ x.inserted = []) := by
  have hok : CallsOk cfg s := h.invariant h₀.callsOk fun _ _ _ hi _ ht => callsOk_step ht hi
  have hrows := rowsInv_reach h₀ h
  have hr := hrows.started c call hc
  refine ⟨fun r hpc => ?_, fun e hpc => ?_⟩
  · have hasked := hok c call hc
    simp only [Call.Rows, hpc] at hr
    simp only [Call.Ok, hpc] at hasked
    obtain ⟨hu, hq⟩ := hasked
    rw [hpid, Option.some.injEq] at hu
    exact ⟨hr, hu.symm, hq⟩
  · simp only [Call.Rows, hpc] at hr
    have hnone : rowsBy c s.reservations = [] := hr hlocked
    refine ⟨hnone, fun x hx hxc => ?_⟩
    rcases hrows.commits x hx with hsame | ⟨r, _, hmem⟩
    · exact hsame
    · have hin : (⟨c, r⟩ : Inserted) ∈ rowsBy c s.reservations := by
        simpa [hxc] using hmem
      rw [hnone] at hin
      cases hin

end AsyncDataHub.Inventory
