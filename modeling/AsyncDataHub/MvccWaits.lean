import AsyncDataHub.Mvcc

/-! Who waits for whom: an UPDATE waits for the transaction that has the lock of its row. Where
transactions write their rows in one order, some of those that are open can always go on. -/
namespace AsyncDataHub.Mvcc
open StepSystem LockTable

variable {I K V T L : Type*} {prog : Program I K V L} {db db' : Db K V T L} {a : Action T I}
  {t u : T} {l : L} {txn : Txn K V} {rank : K → ℕ} {ids : Finset K}

/-- The row of the next UPDATE of `t` is locked by `u`. -/
def WaitsFor (prog : Program I K V L) (db : Db K V T L) (t u : T) : Prop :=
  ∃ l txn k change next, db.clients t = some ⟨l, some txn⟩ ∧ prog.next l = .update k change next ∧
    db.locks k = some u ∧ u ≠ t

/-- A lock belongs to an open transaction, which has written the row. -/
def LocksWritten (db : Db K V T L) : Prop :=
  ∀ k t, db.locks k = some t →
    ∃ l txn, db.clients t = some ⟨l, some txn⟩ ∧ txn.writes k ≠ none

/-- The next row to write comes after those that the transaction has written. -/
def WritesInOrder (prog : Program I K V L) (rank : K → ℕ) (db : Db K V T L) : Prop :=
  ∀ t l txn k change next, db.clients t = some ⟨l, some txn⟩ →
    prog.next l = .update k change next → ∀ j, txn.writes j ≠ none → j ≠ k → rank j < rank k

/-- Of the transactions that wait for one another the last does not wait: the rows they wait for
come one after another. -/
theorem exists_not_waiting (hlocks : LocksWritten db) (horder : WritesInOrder prog rank db)
    (hids : ∀ k t, db.locks k = some t → k ∈ ids) (h : WaitsFor prog db t u) :
    ∃ v l txn, Relation.TransGen (WaitsFor prog db) t v ∧ db.clients v = some ⟨l, some txn⟩ ∧
      ∀ w, ¬ WaitsFor prog db v w := by
  obtain ⟨l, txn, k, change, next, hc, hstmt, hlock, hne⟩ := h
  -- what is left above the rank of the row gets smaller along the chain
  induction hn : ids.sup rank - rank k using Nat.strong_induction_on generalizing t u l txn k
    change next with
  | _ n ih =>
    have hwaits : WaitsFor prog db t u := ⟨l, txn, k, change, next, hc, hstmt, hlock, hne⟩
    obtain ⟨l', txn', hc', hw⟩ := hlocks k u hlock
    by_cases hlast : ∃ w, WaitsFor prog db u w
    · obtain ⟨w, l₂, txn₂, j, change', next', hc₂, hstmt', hlock', hne'⟩ := hlast
      have hsame := hc'.symm.trans hc₂
      cases hsame
      have hjk : k ≠ j := by
        rintro rfl
        rw [hlock] at hlock'
        exact hne' (Option.some.inj hlock').symm
      have hlt := horder u _ _ j _ _ hc₂ hstmt' k hw hjk
      have hle : rank j ≤ ids.sup rank := Finset.le_sup (hids j w hlock')
      obtain ⟨v, l₃, txn₃, hchain, hrest⟩ :=
        ih (ids.sup rank - rank j) (by omega) _ _ j _ _ hc₂ hstmt' hlock' hne' rfl
      exact ⟨v, l₃, txn₃, hchain.head hwaits, hrest⟩
    · exact ⟨u, l', txn', .single hwaits, hc', fun w hw => hlast ⟨w, hw⟩⟩

section Locks
variable [DecidableEq T]

lemma LocksWritten.goto {l' : L} {txn' : Txn K V} (h : LocksWritten db)
    (hc : db.clients t = some ⟨l, some txn⟩) (hw : txn'.writes = txn.writes) :
    LocksWritten (db.setClient t ⟨l', some txn'⟩) := by
  intro k u hu
  obtain ⟨l₁, txn₁, hc₁, hw₁⟩ := h k u hu
  by_cases hut : u = t
  · subst hut
    rw [hc] at hc₁
    cases hc₁
    exact ⟨l', txn', Function.update_self .., hw ▸ hw₁⟩
  · exact ⟨l₁, txn₁, (Function.update_of_ne hut ..).trans hc₁, hw₁⟩

lemma LocksWritten.start {client : Client K V L} (h : LocksWritten db)
    (hc : ∀ l txn, db.clients t ≠ some ⟨l, some txn⟩) : LocksWritten (db.setClient t client) := by
  intro k u hu
  obtain ⟨l₁, txn₁, hc₁, hw₁⟩ := h k u hu
  have hut : u ≠ t := by
    rintro rfl
    exact hc l₁ txn₁ hc₁
  exact ⟨l₁, txn₁, (Function.update_of_ne hut ..).trans hc₁, hw₁⟩

lemma LocksWritten.finish {client : Client K V L} {table : Table K V} (h : LocksWritten db) :
    LocksWritten { db.setClient t client with table, locks := releaseAll db.locks t } := by
  intro k u hu
  obtain ⟨hlock, hut⟩ := releaseAll_eq_some.mp hu
  obtain ⟨l₁, txn₁, hc₁, hw₁⟩ := h k u hlock
  exact ⟨l₁, txn₁, (Function.update_of_ne hut ..).trans hc₁, hw₁⟩

variable [DecidableEq K]

lemma step_op_isSome (hc : db.clients t = some ⟨l, some txn⟩)
    (hbegin : ∀ level l', prog.next l ≠ .begin level l') (hend : prog.next l ≠ .finished)
    (hwait : ∀ u, ¬ WaitsFor prog db t u) : (step prog db (.op t)).isSome = true := by
  simp only [step, hc, Option.bind_some]
  cases hstmt : prog.next l with
  | begin level l' => exact absurd hstmt (hbegin level l')
  | finished => exact absurd hstmt hend
  | update k change next =>
    have hlock : Available db.locks k t := by
      intro u hu
      by_contra hne
      exact hwait u ⟨l, txn, k, change, next, hc, hstmt, hu, hne⟩
    simp only [Db.stepClient, hstmt]
    split
    · rfl
    · have hnot : db.updateOutcome t txn k change ≠ .waits := by
        unfold Db.updateOutcome
        split
        · exact fun h => by cases h
        · rw [if_pos hlock]
          split
          · exact fun h => by cases h
          · split
            · exact fun h => by cases h
            · split <;> exact fun h => by cases h
      unfold Db.runUpdate
      cases hout : db.updateOutcome t txn k change with
      | waits => exact absurd hout hnot
      | _ => rfl
  | _ => simp [Db.stepClient, hstmt]

lemma LocksWritten.write {k : K} {v : V} (h : LocksWritten db)
    (hc : db.clients t = some ⟨l, some txn⟩) {l' : L} :
    LocksWritten (db.write t l' (txn.observe db.table) k v) := by
  intro j u hu
  by_cases hj : j = k
  · subst hj
    have hut : t = u := Option.some.inj ((take_self ..).symm.trans hu)
    subst hut
    exact ⟨_, _, Function.update_self .., by simp⟩
  · have hold : db.locks j = some u := (take_of_ne _ hj t).symm.trans hu
    obtain ⟨l₁, txn₁, hc₁, hw₁⟩ := h j u hold
    by_cases hut : u = t
    · subst hut
      rw [hc] at hc₁
      cases hc₁
      exact ⟨_, _, Function.update_self ..,
        fun hnone => hw₁ ((Function.update_of_ne hj ..).symm.trans hnone)⟩
    · exact ⟨l₁, txn₁, (Function.update_of_ne hut ..).trans hc₁, hw₁⟩

lemma locksWritten_step (hi : LocksWritten db) (h : step prog db a = some db') :
    LocksWritten db' := by
  cases took_of_step h with
  | starts _ hfresh => exact hi.start (by simp [hfresh])
  | begins hc _ => exact hi.start (by simp [hc])
  | snaps hc | selects hc _ | misses hc _ _ => exact hi.goto hc rfl
  | writes hc _ _ _ _ _ => exact hi.write hc
  | commits _ _ | aborts _ _ => exact hi.finish

end Locks

/-- Every statement brings a client nearer to the end of its program. -/
def Program.Decreasing (prog : Program I K V L) (μ : L → ℕ) : Prop :=
  ∀ l, match prog.next l with
    | .begin _ l' | .commit l' | .rollback l' => μ l' < μ l
    | .select _ next => ∀ v, μ (next v) < μ l
    | .update _ _ next => (∀ n, μ (next n) < μ l) ∧ ∀ sqlstate, μ (prog.failed l sqlstate) < μ l
    | .finished => True

/-- The snapshot of an UPDATE that comes first is a step of its own. -/
def Client.work (μ : L → ℕ) (client : Client K V L) : ℕ :=
  match client.txn with
  | none => 2 * μ client.loc
  | some txn => 2 * μ client.loc + if txn.NeedsSnapshot then 1 else 0

def Action.isOp : Action T I → Bool
  | .op _ => true
  | _ => false

def Db.work (μ : L → ℕ) (clients : Finset T) (db : Db K V T L) : ℕ :=
  ∑ t ∈ clients, ((db.clients t).map (Client.work μ)).getD 0

lemma le_work (μ : L → ℕ) (client : Client K V L) : 2 * μ client.loc ≤ client.work μ := by
  unfold Client.work
  split <;> omega

lemma work_of_needsSnapshot {μ : L → ℕ} (h : txn.NeedsSnapshot) :
    Client.work μ ⟨l, some txn⟩ = 2 * μ l + 1 := by simp [Client.work, h]

lemma work_observe (μ : L → ℕ) (table : Table K V) (txn : Txn K V) (writes : K → Option V) :
    Client.work μ ⟨l, some { txn.observe table with writes }⟩ = 2 * μ l := by
  have hneeds : ¬ Txn.NeedsSnapshot { txn.observe table with writes } :=
    not_needsSnapshot_observe table txn
  simp [Client.work, hneeds]

section Work
variable [DecidableEq K] [DecidableEq T] {μ : L → ℕ} {clients : Finset T}

lemma runUpdate_clients {k : K} {change : V → Except String V} {next : ℕ → L}
    (h : db.runUpdate prog t l txn k change next = some db') :
    ∃ client, db'.clients = Function.update db.clients t (some client) ∧
      ((∃ n writes, client = ⟨next n, some { txn.observe db.table with writes }⟩) ∨
        ∃ sqlstate, client = ⟨prog.failed l (some sqlstate), none⟩) := by
  unfold Db.runUpdate at h
  cases hout : db.updateOutcome t txn k change with
  | waits => simp [hout] at h
  | missed =>
    simp only [hout, Option.some.injEq] at h
    exact h ▸ ⟨_, rfl, .inl ⟨0, txn.writes, rfl⟩⟩
  | failed sqlstate =>
    simp only [hout, Option.some.injEq] at h
    exact h ▸ ⟨_, rfl, .inr ⟨sqlstate, rfl⟩⟩
  | row v =>
    simp only [hout, Option.some.injEq] at h
    exact h ▸ ⟨_, rfl, .inl ⟨1, _, rfl⟩⟩

lemma work_op (hμ : prog.Decreasing μ) {client : Client K V L} (hc : db.clients t = some client)
    (h : step prog db (.op t) = some db') :
    ∃ client', db'.clients = Function.update db.clients t (some client') ∧
      client'.work μ < client.work μ := by
  have hle := le_work μ client
  obtain ⟨l, txn⟩ := client
  have hl := hμ l
  simp only [step, hc, Option.bind_some] at h
  cases hs : prog.next l <;> cases txn <;>
    simp only [Db.stepClient, hs, Option.some.injEq, reduceCtorEq] at h hl hle
  case begin.none =>
    subst h
    refine ⟨_, rfl, ?_⟩
    simp only [Client.work]
    split <;> omega
  case select.some k next txn =>
    subst h
    have hwork : Client.work μ ⟨next (txn.read db.table k), some (txn.observe db.table)⟩ = _ :=
      work_observe μ db.table txn txn.writes
    have hlt := hl (txn.read db.table k)
    exact ⟨_, rfl, by omega⟩
  case update.some k change next txn =>
    split at h
    · rename_i hneeds
      cases h
      have hwork : Client.work μ ⟨l, some (txn.observe db.table)⟩ = _ :=
        work_observe μ db.table txn txn.writes
      have hold := work_of_needsSnapshot (l := l) (μ := μ) hneeds
      exact ⟨_, rfl, by omega⟩
    · obtain ⟨client, hclients, ⟨n, writes, rfl⟩ | ⟨sqlstate, rfl⟩⟩ := runUpdate_clients h
      · have hwork := work_observe (l := next n) μ db.table txn writes
        have hlt := hl.1 n
        exact ⟨_, hclients, by omega⟩
      · have hlt := hl.2 (some sqlstate)
        exact ⟨_, hclients, by simp only [Client.work] at hle ⊢; omega⟩
  case commit.some =>
    subst h
    exact ⟨_, rfl, by simp only [Client.work] at hle ⊢; omega⟩
  case rollback.some =>
    subst h
    exact ⟨_, rfl, by simp only [Client.work] at hle ⊢; omega⟩

lemma work_step (hμ : prog.Decreasing μ) (hclients : ∀ t, db.clients t ≠ none → t ∈ clients)
    (h : restrict (step prog) Action.isOp db a = some db') :
    (∀ t, db'.clients t ≠ none → t ∈ clients) ∧ db'.work μ clients < db.work μ clients := by
  obtain ⟨hop, h⟩ := restrict_eq_some.mp h
  cases a with
  | start t input => cases hop
  | fail t sqlstate => cases hop
  | op t =>
    obtain ⟨client, hc, _⟩ := Option.bind_eq_some_iff.mp h
    obtain ⟨client', hupdate, hlt⟩ := work_op hμ hc h
    have ht : t ∈ clients := hclients t (by simp [hc])
    constructor
    · intro u hu
      by_cases hut : u = t
      · exact hut ▸ ht
      · rw [hupdate, Function.update_of_ne hut] at hu
        exact hclients u hu
    · refine Finset.sum_lt_sum (fun u _ => ?_) ⟨t, ht, ?_⟩
      · by_cases hut : u = t
        · subst hut
          simp [hupdate, hc, hlt.le]
        · rw [hupdate, Function.update_of_ne hut]
      · simpa [hupdate, hc] using hlt

/-- Without new clients and failures, no run is longer than what is left of the programs. -/
theorem length_le_work (hμ : prog.Decreasing μ) (hclients : ∀ t, db.clients t ≠ none → t ∈ clients)
    {acts : List (Action T I)} (h : exec (restrict (step prog) Action.isOp) db acts = some db') :
    acts.length ≤ db.work μ clients := by
  have hle := length_le_of_decreasing (I := fun db => ∀ t, db.clients t ≠ none → t ∈ clients)
    (fun _ _ _ hi hs => (work_step hμ hi hs).1) (fun _ _ _ hi hs => (work_step hμ hi hs).2)
    hclients acts h
  omega

lemma finite_clients_step (hi : ∃ clients : Finset T, ∀ t, db.clients t ≠ none → t ∈ clients)
    (h : step prog db a = some db') :
    ∃ clients : Finset T, ∀ t, db'.clients t ≠ none → t ∈ clients := by
  obtain ⟨clients, hclients⟩ := hi
  have hupdate {t : T} {client : Client K V L} :
      ∀ u, Function.update db.clients t (some client) u ≠ none → u ∈ insert t clients := by
    intro u hu
    by_cases hut : u = t
    · exact hut ▸ Finset.mem_insert_self ..
    · rw [Function.update_of_ne hut] at hu
      exact Finset.mem_insert_of_mem (hclients u hu)
  cases took_of_step h <;> exact ⟨_, hupdate⟩

end Work

end AsyncDataHub.Mvcc
