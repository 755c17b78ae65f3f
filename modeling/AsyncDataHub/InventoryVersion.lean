import AsyncDataHub.InventoryLedger
import AsyncDataHub.InventoryPending

/-! The version of a product under any mix of strategies: it tells the stock exactly as long as no
call but an optimistic one commits a change of the stock. -/
namespace AsyncDataHub.Inventory
open StepSystem LockTable

variable {cfg : Config} {s t : State} {pid : Uuid}

/-- A step that changes the committed stock of the product raises its version. -/
def RaisesVersion (cfg : Config) (pid : Uuid) (s : State) (a : Action) : Prop :=
  ∀ t p p', step cfg s a = some t → s.products pid = some p → t.products pid = some p' →
    p'.stock ≠ p.stock → p.version < p'.version

/-- A COMMIT that is about to change the stock of the product is an optimistic call's. -/
def ChangedByOptimistic (pid : Uuid) (s : State) : Action → Prop
  | .op c => ∀ call w r p, s.calls c = some call → call.pc = .commit w r → w.product = pid →
      s.products pid = some p → w.row.stock ≠ p.stock → call.strategy = .optimistic
  | _ => True

lemma product_step {a : Action} {p : Product} (hi : PendingInv s) (h : step cfg s a = some t)
    (hp : s.products pid = some p) :
    t.products pid = some p ∨ ∃ c call w r, a = .op c ∧ s.calls c = some call ∧
      call.pc = .commit w r ∧ w.product = pid ∧ t.products pid = some w.row ∧
      w.row.version = call.bumped p.version := by
  rcases step_rows h with ⟨hprod, _⟩ | ⟨c, call, w, r, rfl, hc, hpc, rfl⟩
  · exact .inl (hprod ▸ hp)
  · rw [apply_products]
    by_cases hw : w.product = pid
    · subst hw
      have hpend := hi c call hc
      simp only [Call.Pending, hpc] at hpend
      obtain ⟨_, q, hq, hv⟩ := hpend
      rw [hp, Option.some.injEq] at hq
      subst hq
      exact .inr ⟨c, call, w, r, rfl, hc, hpc, rfl, Function.update_self .., hv⟩
    · exact .inl ((Function.update_of_ne (Ne.symm hw) _ _).trans hp)

theorem raisesVersion_iff (a : Action) (hi : PendingInv s) :
    RaisesVersion cfg pid s a ↔ ChangedByOptimistic pid s a := by
  constructor
  · intro h
    cases a with
    | op c =>
      intro call w r p hc hpc hw hp hne
      subst hw
      have hpend := hi c call hc
      simp only [Call.Pending, hpc] at hpend
      obtain ⟨_, p', hp', hv⟩ := hpend
      rw [hp, Option.some.injEq] at hp'
      subst hp'
      have hlt := h _ p w.row (step_commit hc hpc) hp (Function.update_self ..) hne
      by_contra hs
      rw [hv, Call.bumped, if_neg hs] at hlt
      exact lt_irrefl _ hlt
    | _ => trivial
  · intro h t p p' ht hp hp' hne
    rcases product_step hi ht hp with hkept | ⟨c, call, w, r, rfl, hc, hpc, hw, hrow, hv⟩
    · rw [hp', Option.some.injEq] at hkept
      exact absurd (by rw [hkept]) hne
    · rw [hp', Option.some.injEq] at hrow
      subst hrow
      have hs : call.strategy = .optimistic := h call w r p hc hpc hw hp hne
      rw [hv, Call.bumped, if_pos hs]
      exact lt_add_one _

/-- What a run that has seen the row `p` may find later. -/
def Since (pid : Uuid) (p : Product) (s : State) : Prop :=
  ∃ q, s.products pid = some q ∧ p.version ≤ q.version ∧
    (q.version = p.version → q.stock = p.stock)

lemma since_step {a : Action} {p : Product} (hi : PendingInv s) (hs : Since pid p s)
    (ha : ChangedByOptimistic pid s a) (h : step cfg s a = some t) : Since pid p t := by
  obtain ⟨q, hq, hle, hsame⟩ := hs
  rcases product_step hi h hq with hkept | ⟨c, call, w, r, _, _, _, _, hrow, hv⟩
  · exact ⟨q, hkept, hle, hsame⟩
  · have hle' := le_bumped call q.version
    refine ⟨w.row, hrow, by omega, fun heq => ?_⟩
    have hstock : w.row.stock = q.stock := by
      by_contra hne
      have hlt := (raisesVersion_iff a hi).mpr ha t q w.row h hq hrow hne
      omega
    rw [hstock]
    exact hsame (by omega)

/-- In a run every step that changes the stock of a product raises its version exactly if all
COMMITs that change the stock are optimistic; and then equal versions mean equal stock. -/
theorem version_tells_stock_iff (cfg : Config) {pid : Uuid} {req : ProductRequest} {s : State}
    (hs : Created pid req s) :
    (∀ acts, Guarded (step cfg) (RaisesVersion cfg pid) s acts ↔
      Guarded (step cfg) (ChangedByOptimistic pid) s acts) ∧
    ∀ u v p q, ReachVia (step cfg) (ChangedByOptimistic pid) s u →
      ReachVia (step cfg) (ChangedByOptimistic pid) u v → u.products pid = some p →
      v.products pid = some q → q.version = p.version → q.stock = p.stock := by
  have hpend : PendingInv s := by
    intro c call hc
    rw [hs.idle c] at hc
    cases hc
  refine ⟨fun acts => ?_, fun u v p q hu hv hp hq heq => ?_⟩
  · exact guarded_iff_guarded (fun _ _ _ hi _ ht => pendingInv_step ht hi)
      (fun _ a hi => raisesVersion_iff a hi) acts hpend
  · have hpend' : PendingInv u := hu.invariant hpend fun _ _ _ hi _ ht => pendingInv_step ht hi
    have hinv : PendingInv v ∧ Since pid p v :=
      hv.invariant (I := fun x => PendingInv x ∧ Since pid p x)
        ⟨hpend', p, hp, le_rfl, fun _ => rfl⟩
        fun _ _ _ hi ha ht => ⟨pendingInv_step ht hi.1, since_step hi.1 hi.2 ha ht⟩
    obtain ⟨q', hq', _, hsame⟩ := hinv.2
    rw [hq, Option.some.injEq] at hq'
    subst hq'
    exact hsame heq

def oneAtomic : List Action :=
  [.start 0 widgetId threeUnits .atomic, .op 0, .op 0, .op 0, .op 0]

theorem version_tells_stock_iff_oneAtomic :
    Guarded (step widgetConfig) (RaisesVersion widgetConfig 1) widgetState oneAtomic ↔
      Guarded (step widgetConfig) (ChangedByOptimistic 1) widgetState oneAtomic :=
  (version_tells_stock_iff widgetConfig widgetState_created).1 oneAtomic

/-- Its COMMIT changes the stock from ten to seven units and leaves the version as it is. -/
theorem oneAtomic_keeps_version :
    ∃ s t, exec (step widgetConfig) widgetState (oneAtomic.take 4) = some s ∧
      step widgetConfig s (.op 0) = some t ∧ s.products 1 = some ⟨"widget", 10, 1⟩ ∧
      t.products 1 = some ⟨"widget", 7, 1⟩ ∧ ¬ RaisesVersion widgetConfig 1 s (.op 0) := by
  obtain ⟨s, hs, hp, t, ht, hq⟩ :
      ∃ s, exec (step widgetConfig) widgetState (oneAtomic.take 4) = some s ∧
        s.products 1 = some ⟨"widget", 10, 1⟩ ∧
        ∃ t, step widgetConfig s (.op 0) = some t ∧ t.products 1 = some ⟨"widget", 7, 1⟩ :=
    ⟨_, rfl, rfl, _, rfl, rfl⟩
  refine ⟨s, t, hs, ht, hp, hq, fun h => ?_⟩
  have hlt := h t _ _ ht hp hq (by decide)
  exact absurd hlt (by decide)

end AsyncDataHub.Inventory
