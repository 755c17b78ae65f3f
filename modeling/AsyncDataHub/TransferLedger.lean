import AsyncDataHub.DbConcurrency

/-! What transfers keep: the sum of the balances, whatever the isolation levels, and balances that
are not negative as long as every transfer reads from a snapshot. -/
namespace AsyncDataHub.DbConcurrency
open StepSystem LockTable Mvcc

variable {ids : Finset String} {s t : State} {a : Action TxnId (TransferRequest × IsolationLevel)}
  {call : Call} {txn : Txn String ℤ} {pc : Pc} {rows rows' writes : String → Option ℤ}

def Pc.debited : Pc → Bool
  | .credit | .readNewFrom | .readNewTo _ | .commit _ _ => true
  | _ => false

def Pc.credited : Pc → Bool
  | .readNewFrom | .readNewTo _ | .commit _ _ => true
  | _ => false

def Call.delta (call : Call) (id : String) : ℤ :=
  (if call.pc.debited = true ∧ id = call.request.fromId then -call.request.amount else 0) +
    if call.pc.credited = true ∧ id = call.request.toId then call.request.amount else 0

def Call.Touched (call : Call) (id : String) : Prop :=
  call.pc.debited = true ∧ id = call.request.fromId ∨
    call.pc.credited = true ∧ id = call.request.toId

instance (call : Call) (id : String) : Decidable (call.Touched id) :=
  inferInstanceAs (Decidable (_ ∨ _))

/-- The uncommitted writes of a call are the committed balances with its debit and its credit. -/
structure Booked (ids : Finset String) (rows : String → Option ℤ) (call : Call)
    (writes : String → Option ℤ) : Prop where
  found : ∀ b, call.pc = .readTo (some b) → call.request.fromId ∈ ids
  exist : call.pc = .debit ∨ call.pc.debited = true →
    call.request.fromId ∈ ids ∧ call.request.toId ∈ ids
  writes : ∀ id, writes id = if call.Touched id then (rows id).map (· + call.delta id) else none

structure LedgerInv (ids : Finset String) (s : State) : Prop where
  sound : s.Sound (ids : Set String)
  booked : ∀ t client, s.clients t = some client → ∀ txn, client.txn = some txn →
    Booked ids s.table.rows client.loc txn.writes

def total (ids : Finset String) (s : State) : ℤ := ∑ id ∈ ids, (s.table.rows id).getD 0

def NoneOverdrawn (s : State) : Prop := ∀ id b, s.table.rows id = some b → 0 ≤ b

/-- The accounts of `ids` are open and no transaction is. -/
structure Opened (ids : Finset String) (s : State) : Prop where
  rows : ∀ id, s.table.rows id ≠ none ↔ id ∈ ids
  idle : ∀ t, s.clients t = none

lemma Pc.debited_of_credited (h : pc.credited = true) : pc.debited = true := by
  cases pc <;> first | rfl | cases h

lemma checkFunds_cases (request : TransferRequest) (fromBalance toBalance : Option ℤ) :
    (∃ b b', fromBalance = some b ∧ toBalance = some b' ∧ request.amount ≤ b ∧
      checkFunds request fromBalance toBalance = .debit) ∨
    ∃ e, checkFunds request fromBalance toBalance = .rollback e := by
  cases fromBalance with
  | none => exact .inr ⟨_, rfl⟩
  | some b =>
    cases toBalance with
    | none => exact .inr ⟨_, rfl⟩
    | some b' =>
      by_cases h : b < request.amount
      · exact .inr ⟨_, if_pos h⟩
      · exact .inl ⟨b, b', rfl, rfl, not_lt.mp h, if_neg h⟩

lemma Booked.untouched (h : Booked ids rows call writes) (hpc : call.pc.debited = false)
    (id : String) : writes id = none := by
  have hcredited : call.pc.credited = false := by
    by_contra hc
    rw [Bool.not_eq_false] at hc
    rw [Pc.debited_of_credited hc] at hpc
    cases hpc
  rw [h.writes, if_neg]
  simp [Call.Touched, hpc, hcredited]

lemma Booked.goto (h : Booked ids rows call writes) (hd : pc.debited = call.pc.debited)
    (hc : pc.credited = call.pc.credited)
    (hfound : ∀ b, pc = .readTo (some b) → call.request.fromId ∈ ids)
    (hexist : pc = .debit → call.request.fromId ∈ ids ∧ call.request.toId ∈ ids) :
    Booked ids rows (call.goto pc) writes where
  found := hfound
  exist := by
    rintro (hpc | hpc)
    · exact hexist hpc
    · exact h.exist (.inr (hd ▸ hpc))
  writes id := by
    have htouched : (call.goto pc).Touched id ↔ call.Touched id := by
      simp [Call.Touched, Call.goto, hd, hc]
    have hdelta : (call.goto pc).delta id = call.delta id := by
      simp [Call.delta, Call.goto, hd, hc]
    rw [h.writes, hdelta]
    exact (if_congr htouched rfl rfl).symm

lemma Booked.mem_ids (h : Booked ids rows call writes) {id : String} (hid : call.Touched id) :
    id ∈ ids := by
  rcases hid with ⟨hpc, rfl⟩ | ⟨hpc, rfl⟩
  · exact (h.exist (.inr hpc)).1
  · exact (h.exist (.inr (Pc.debited_of_credited hpc))).2

lemma Booked.frame (h : Booked ids rows call writes) (hrows : ∀ id, rows id ≠ none ↔ id ∈ ids)
    (hsame : ∀ id b, writes id = some b → rows' id = rows id) :
    Booked ids rows' call writes where
  found := h.found
  exist := h.exist
  writes id := by
    have hw := h.writes id
    by_cases hid : call.Touched id
    · rw [if_pos hid] at hw ⊢
      obtain ⟨b, hb⟩ := Option.ne_none_iff_exists'.mp ((hrows id).mpr (h.mem_ids hid))
      rw [hb, Option.map_some] at hw
      rw [hsame id _ hw, hb, hw, Option.map_some]
    · rw [if_neg hid] at hw ⊢
      exact hw

lemma booked_select (h : Booked ids s.table.rows call txn.writes) {k : String}
    {next : Option ℤ → Call} {locks : Locks String TxnId} {u : TxnId}
    (hs : txn.Sound (ids : Set String) s.table locks u)
    (hstmt : transfers.next call = .select k next) :
    Booked ids s.table.rows (next (txn.read s.table k)) txn.writes := by
  cases sends_of_next hstmt with
  | readsFrom hpc =>
    refine h.goto (by simp [hpc, Pc.debited]) (by simp [hpc, Pc.credited]) (fun b hb => ?_)
      (by simp)
    rw [Pc.readTo.injEq] at hb
    exact hs.read_ne_none.mp (by simp [hb])
  | @readsTo fromBalance hpc =>
    rcases checkFunds_cases call.request fromBalance (txn.read s.table call.request.toId) with
      ⟨b, b', rfl, hto, _, hcheck⟩ | ⟨e, hcheck⟩
    · simp only [hcheck]
      refine h.goto (by simp [hpc, Pc.debited]) (by simp [hpc, Pc.credited]) (by simp) fun _ => ?_
      exact ⟨h.found b hpc, hs.read_ne_none.mp (by simp [hto])⟩
    · simp only [hcheck]
      exact h.goto (by simp [hpc, Pc.debited]) (by simp [hpc, Pc.credited]) (by simp) (by simp)
  | readsNewFrom hpc | readsNewTo hpc =>
    exact h.goto (by simp [hpc, Pc.debited]) (by simp [hpc, Pc.credited]) (by simp) (by simp)

lemma mem_of_update (h : Booked ids rows call writes) {k : String} {change : ℤ → Except String ℤ}
    {next : ℕ → Call} (hstmt : transfers.next call = .update k change next) : k ∈ ids := by
  cases sends_of_next hstmt with
  | debits hpc => exact (h.exist (.inl hpc)).1
  | credits hpc => exact (h.exist (.inr (by simp [hpc, Pc.debited]))).2

lemma booked_update (h : Booked ids rows call writes) {k : String} {change : ℤ → Except String ℤ}
    {next : ℕ → Call} {v w : ℤ} (hstmt : transfers.next call = .update k change next)
    (hold : (writes k).or (rows k) = some v) (hnew : change v = .ok w) :
    Booked ids rows (next 1) (Function.update writes k (some w)) := by
  cases sends_of_next hstmt with
  | debits hpc =>
    have hnone := h.untouched (by simp [hpc, Pc.debited])
    have hw := bigint_eq_ok hnew
    rw [hnone, Option.none_or] at hold
    refine ⟨by simp [Call.goto], fun _ => h.exist (.inl hpc), fun id => ?_⟩
    by_cases hid : id = call.request.fromId
    · subst hid
      simp [Call.Touched, Call.delta, Call.goto, Pc.debited, Pc.credited, hold, hw, sub_eq_add_neg]
    · simp [Call.Touched, Call.goto, Pc.credited, hid, hnone]
  | credits hpc =>
    have hw := bigint_eq_ok hnew
    refine ⟨by simp [Call.goto], fun _ => h.exist (.inr (by simp [hpc, Pc.debited])), fun id => ?_⟩
    have hwrites := h.writes id
    simp only [Call.Touched, Call.delta, hpc, Pc.debited, Pc.credited, true_and, false_and,
      or_false, Bool.false_eq_true, if_false, add_zero] at hwrites
    by_cases hto : id = call.request.toId
    · subst hto
      by_cases hfrom : call.request.toId = call.request.fromId
      · rw [if_pos hfrom, if_pos hfrom] at hwrites
        cases hrow : rows call.request.toId with
        | none => simp [hwrites, hrow] at hold
        | some b =>
          simp only [hwrites, hrow, Option.map_some, Option.some_or, Option.some.injEq] at hold
          simp [Call.Touched, Call.delta, Call.goto, Pc.debited, Pc.credited, hw, ← hold, hfrom]
      · rw [if_neg hfrom] at hwrites
        rw [hwrites, Option.none_or] at hold
        simp [Call.Touched, Call.delta, Call.goto, Pc.debited, Pc.credited, hw, hold, hfrom]
    · rw [Function.update_of_ne hto, hwrites]
      simp [Call.Touched, Call.delta, Call.goto, Pc.debited, Pc.credited, hto]

lemma not_missing (hi : LedgerInv ids s) {u : TxnId} {k : String} {change : ℤ → Except String ℤ}
    {next : ℕ → Call} (hc : s.clients u = some ⟨call, some txn⟩)
    (hstmt : transfers.next call = .update k change next) :
    ¬ (txn.read s.table k = none ∨ (txn.writes k).or (s.table.rows k) = none) := by
  have hk := mem_of_update (hi.booked _ _ hc _ rfl) hstmt
  rintro (hmiss | hmiss)
  · exact absurd hmiss ((hi.sound.txns _ _ _ hc).read_ne_none.mpr hk)
  · exact absurd (Option.or_eq_none_iff.mp hmiss).2 ((hi.sound.rows _).mpr hk)

theorem ledgerInv_step (h : step transfers s a = some t) (hi : LedgerInv ids s) :
    LedgerInv ids t := by
  refine ⟨sound_step h hi.sound, ?_⟩
  cases took_of_step h with
  | starts _ _ | aborts _ _ => exact forall_update hi.booked (by simp)
  | begins _ hstmt =>
    refine forall_update hi.booked fun txn htxn => ?_
    cases htxn
    cases sends_of_next hstmt with
    | begins _ =>
      exact ⟨by simp [Call.goto], by simp [Call.goto, Pc.debited],
        by simp [Call.Touched, Call.goto, Pc.debited, Pc.credited]⟩
  | @snaps _ _ txn hc =>
    refine forall_update hi.booked fun txn' htxn => ?_
    cases htxn
    exact hi.booked _ _ hc txn rfl
  | selects hc hstmt =>
    refine forall_update hi.booked fun txn' htxn => ?_
    cases htxn
    exact booked_select (hi.booked _ _ hc _ rfl) (hi.sound.txns _ _ _ hc) hstmt
  | misses hc hstmt hmiss => exact absurd hmiss (not_missing hi hc hstmt)
  | writes hc hstmt _ _ hold hnew =>
    refine forall_update hi.booked fun txn' htxn => ?_
    cases htxn
    exact booked_update (hi.booked _ _ hc _ rfl) hstmt hold hnew
  | commits hc _ =>
    intro u client hu txn' htxn
    rcases update_eq_some.mp hu with ⟨_, rfl⟩ | ⟨hne, hu⟩
    · cases htxn
    · obtain ⟨call', _⟩ := client
      cases htxn
      refine (hi.booked u _ hu txn' rfl).frame hi.sound.rows fun id b hb => ?_
      have hnone := (hi.sound.txns _ _ _ hu).writes_eq_none (hi.sound.txns _ _ _ hc) hne hb
      simp [Db.commit, Table.commit, hnone]

lemma getD_commit (h : LedgerInv ids s) (hb : Booked ids s.table.rows call txn.writes)
    {id : String} (hid : id ∈ ids) :
    ((s.table.commit txn.writes).rows id).getD 0 = (s.table.rows id).getD 0 + call.delta id := by
  obtain ⟨b, hrow⟩ := Option.ne_none_iff_exists'.mp ((h.sound.rows id).mpr hid)
  have hw := hb.writes id
  by_cases ht : call.Touched id
  · rw [if_pos ht, hrow] at hw
    simp [Table.commit, hw, hrow]
  · rw [if_neg ht] at hw
    have hdelta : call.delta id = 0 := by
      rw [Call.Touched, not_or] at ht
      simp [Call.delta, ht.1, ht.2]
    simp [Table.commit, hw, hrow, hdelta]

lemma sum_delta {newFrom newTo : Option ℤ} (hb : Booked ids rows call writes)
    (hpc : call.pc = .commit newFrom newTo) : ∑ id ∈ ids, call.delta id = 0 := by
  obtain ⟨hfrom, hto⟩ := hb.exist (.inr (by simp [hpc, Pc.debited]))
  simp [Call.delta, hpc, Pc.debited, Pc.credited, Finset.sum_add_distrib, hfrom, hto]

lemma total_step (h : step transfers s a = some t) (hi : LedgerInv ids s) :
    total ids t = total ids s := by
  cases took_of_step h with
  | @commits u call call' txn hc hstmt =>
    have hb := hi.booked _ _ hc _ rfl
    cases sends_of_next hstmt with
    | commits hpc =>
      calc total ids (s.commit u _ txn)
          = ∑ id ∈ ids, ((s.table.rows id).getD 0 + call.delta id) :=
            Finset.sum_congr rfl fun id hid => getD_commit hi hb hid
        _ = total ids s + ∑ id ∈ ids, call.delta id := Finset.sum_add_distrib
        _ = total ids s := by rw [sum_delta hb hpc, add_zero]
  | _ => rfl

/-- What a call that reads from a snapshot knows about the account that it debits. -/
structure Funded (table : Table String ℤ) (call : Call) (txn : Txn String ℤ) : Prop where
  level : txn.level ≠ .readCommitted
  snapshot : call.pc ≠ .readFrom → txn.snapshot ≠ none
  read : ∀ b, call.pc = .readTo b → (txn.view table).rows call.request.fromId = b
  checked : call.pc = .debit →
    ∃ b, (txn.view table).rows call.request.fromId = some b ∧ call.request.amount ≤ b
  debited : call.pc.debited = true →
    ∃ b, table.rows call.request.fromId = some b ∧ call.request.amount ≤ b

def FundedClient (table : Table String ℤ) (client : Client String ℤ Call) : Prop :=
  match client.txn with
  | none => client.loc.pc = .begin → client.loc.isolation ≠ .readCommitted
  | some txn => Funded table client.loc txn

structure FundedInv (ids : Finset String) (s : State) : Prop where
  ledger : LedgerInv ids s
  funded : ∀ t client, s.clients t = some client → FundedClient s.table client
  balances : NoneOverdrawn s

def AboveReadCommitted (_ : State) : Action TxnId (TransferRequest × IsolationLevel) → Prop
  | .start _ input => input.2 ≠ .readCommitted
  | _ => True

lemma snapshot_observe {table : Table String ℤ} (h : txn.level ≠ .readCommitted) :
    (txn.observe table).snapshot ≠ none := by simp [Txn.observe, h]

lemma Funded.goto {table : Table String ℤ} (h : Funded table call txn)
    (hview : (txn.observe table).view table = txn.view table)
    (hread : ∀ b, pc = .readTo b → (txn.view table).rows call.request.fromId = b)
    (hchecked : pc = .debit →
      ∃ b, (txn.view table).rows call.request.fromId = some b ∧ call.request.amount ≤ b)
    (hd : pc.debited = call.pc.debited) : Funded table (call.goto pc) (txn.observe table) where
  level := h.level
  snapshot _ := snapshot_observe h.level
  read b hpc := hview ▸ hread b hpc
  checked hpc := hview ▸ hchecked hpc
  debited hpc := h.debited (hd ▸ hpc)

lemma Funded.write {table : Table String ℤ} (h : Funded table call txn) :
    Funded table call { txn with writes } := ⟨h.level, h.snapshot, h.read, h.checked, h.debited⟩

lemma Funded.frame {table table' : Table String ℤ} (h : Funded table call txn)
    (hsame : call.pc.debited = true →
      table'.rows call.request.fromId = table.rows call.request.fromId) :
    Funded table' call txn := by
  have hview (hpc : call.pc ≠ .readFrom) : txn.view table' = txn.view table := by
    obtain ⟨snap, hsnap⟩ := Option.ne_none_iff_exists'.mp (h.snapshot hpc)
    simp [Txn.view, hsnap]
  refine ⟨h.level, h.snapshot, fun b hpc => ?_, fun hpc => ?_, fun hpc => ?_⟩
  · rw [hview (by simp [hpc])]
    exact h.read b hpc
  · rw [hview (by simp [hpc])]
    exact h.checked hpc
  · rw [hsame hpc]
    exact h.debited hpc

lemma funded_select {table : Table String ℤ} (h : Funded table call txn)
    (hb : Booked ids table.rows call txn.writes) {k : String} {next : Option ℤ → Call}
    (hview : (txn.observe table).view table = txn.view table)
    (hstmt : transfers.next call = .select k next) :
    Funded table (next (txn.read table k)) (txn.observe table) := by
  cases sends_of_next hstmt with
  | readsFrom hpc =>
    have hnone := hb.untouched (by simp [hpc, Pc.debited]) call.request.fromId
    refine h.goto hview (fun b hread => ?_) (by simp) (by simp [hpc, Pc.debited])
    rw [Pc.readTo.injEq] at hread
    rw [← hread, Txn.read, hnone, Option.none_or]
  | @readsTo fromBalance hpc =>
    rcases checkFunds_cases call.request fromBalance (txn.read table call.request.toId) with
      ⟨b, b', hfrom, _, hle, hcheck⟩ | ⟨e, hcheck⟩
    · simp only [hcheck]
      refine h.goto hview (by simp) (fun _ => ⟨b, ?_, hle⟩) (by simp [hpc, Pc.debited])
      rw [h.read _ hpc, hfrom]
    · simp only [hcheck]
      exact h.goto hview (by simp) (by simp) (by simp [hpc, Pc.debited])
  | readsNewFrom hpc | readsNewTo hpc =>
    exact h.goto hview (by simp) (by simp) (by simp [hpc, Pc.debited])

/-- The row that is debited is the one that has been read: the snapshot is not stale. -/
lemma funded_update {table : Table String ℤ} (h : Funded table call txn) {k : String}
    {change : ℤ → Except String ℤ} {next : ℕ → Call}
    (hstmt : transfers.next call = .update k change next)
    (hcur : (txn.view table).rows k = table.rows k) :
    Funded table (next 1) (txn.observe table) := by
  have hgoto {pc : Pc} (hread : ∀ b, pc ≠ .readTo b) (hdebit : pc ≠ .debit)
      (hrow : ∃ b, table.rows call.request.fromId = some b ∧ call.request.amount ≤ b) :
      Funded table (call.goto pc) (txn.observe table) :=
    ⟨h.level, fun _ => snapshot_observe h.level, fun b hpc => absurd hpc (hread b),
      fun hpc => absurd hpc hdebit, fun _ => hrow⟩
  cases sends_of_next hstmt with
  | debits hpc =>
    obtain ⟨b, hrow, hle⟩ := h.checked hpc
    exact hgoto (by simp) (by simp) ⟨b, hcur ▸ hrow, hle⟩
  | credits hpc => exact hgoto (by simp) (by simp) (h.debited (by simp [hpc, Pc.debited]))

lemma balances_commit (hi : FundedInv ids s) (hf : Funded s.table call txn)
    (hb : Booked ids s.table.rows call txn.writes) {newFrom newTo : Option ℤ}
    (hpc : call.pc = .commit newFrom newTo) {id : String} {b : ℤ}
    (hid : (s.table.commit txn.writes).rows id = some b) : 0 ≤ b := by
  obtain ⟨base, hbase, hle⟩ := hf.debited (by simp [hpc, Pc.debited])
  have hpos := call.request.amount_pos
  have hw := hb.writes id
  have hdelta : call.delta id = (if id = call.request.fromId then -call.request.amount else 0) +
      if id = call.request.toId then call.request.amount else 0 := by
    simp [Call.delta, hpc, Pc.debited, Pc.credited]
  simp only [Table.commit] at hid
  cases hrow : s.table.rows id with
  | none =>
    rw [hrow, Option.map_none, ite_self] at hw
    rw [hw, hrow] at hid
    cases hid
  | some old =>
    have hold := hi.balances id old hrow
    rw [hrow, Option.map_some, hdelta] at hw
    rw [hw, hrow] at hid
    by_cases ht : call.Touched id
    · rw [if_pos ht, Option.some_or, Option.some.injEq] at hid
      by_cases hfrom : id = call.request.fromId
      · rw [hfrom, hbase, Option.some.injEq] at hrow
        split_ifs at hid <;> omega
      · split_ifs at hid <;> omega
    · rw [if_neg ht, Option.none_or, Option.some.injEq] at hid
      omega

lemma debited_row (hi : LedgerInv ids s) {u u' : TxnId} {call' : Call} {txn' : Txn String ℤ}
    (hc : s.clients u = some ⟨call, some txn⟩) (hc' : s.clients u' = some ⟨call', some txn'⟩)
    (hne : u' ≠ u) (hpc : call'.pc.debited = true) :
    (s.table.commit txn.writes).rows call'.request.fromId =
      s.table.rows call'.request.fromId := by
  have hb := hi.booked _ _ hc' _ rfl
  obtain ⟨b, hrow⟩ := Option.ne_none_iff_exists'.mp
    ((hi.sound.rows _).mpr (hb.exist (.inr hpc)).1)
  have hw := hb.writes call'.request.fromId
  rw [if_pos (.inl ⟨hpc, rfl⟩), hrow, Option.map_some] at hw
  have hnone := (hi.sound.txns _ _ _ hc').writes_eq_none (hi.sound.txns _ _ _ hc) hne hw
  simp [Table.commit, hnone]

lemma pc_of_abort {l' : Call}
    (h : transfers.next call = .rollback l' ∨ ∃ sqlstate, l' = transfers.failed call sqlstate) :
    ∃ o, l'.pc = .done o := by
  rcases h with h | ⟨sqlstate, rfl⟩
  · cases sends_of_next h with
    | rollsBack _ => exact ⟨_, rfl⟩
  · exact ⟨_, rfl⟩

theorem fundedInv_step (hi : FundedInv ids s) (hg : AboveReadCommitted s a)
    (h : step transfers s a = some t) : FundedInv ids t := by
  refine ⟨ledgerInv_step h hi.ledger, ?_, ?_⟩
  · have hview {u : TxnId} {call : Call} {txn : Txn String ℤ}
        (hc : s.clients u = some ⟨call, some txn⟩) :
        (txn.observe s.table).view s.table = txn.view s.table :=
      view_observe _ (hi.ledger.sound.txns _ _ _ hc).level
    cases took_of_step h with
    | starts _ _ => exact forall_update hi.funded fun _ => hg
    | begins hc hstmt =>
      cases sends_of_next hstmt with
      | begins hpc =>
        have hlevel := hi.funded _ _ hc hpc
        refine forall_update hi.funded ⟨hlevel, ?_, ?_, ?_, ?_⟩ <;>
          simp [Call.goto, Pc.debited]
    | snaps hc =>
      have hf : Funded _ _ _ := hi.funded _ _ hc
      exact forall_update hi.funded (hf.goto (hview hc) hf.read hf.checked rfl)
    | selects hc hstmt =>
      exact forall_update hi.funded
        (funded_select (hi.funded _ _ hc) (hi.ledger.booked _ _ hc _ rfl) (hview hc) hstmt)
    | misses hc hstmt hmiss => exact absurd hmiss (not_missing hi.ledger hc hstmt)
    | writes hc hstmt hcur _ _ _ =>
      have hrow := (hi.ledger.sound.txns _ _ _ hc).stable _ hcur
      exact forall_update hi.funded (funded_update (hi.funded _ _ hc) hstmt hrow).write
    | commits hc hstmt =>
      intro u client hu
      rcases update_eq_some.mp hu with ⟨_, rfl⟩ | ⟨hne, hu⟩
      · cases sends_of_next hstmt with
        | commits _ =>
          intro hpc
          cases hpc
      · have hf := hi.funded u client hu
        obtain ⟨call', _ | txn'⟩ := client
        · exact hf
        · exact Funded.frame hf (debited_row hi.ledger hc hu hne)
    | aborts _ reason =>
      obtain ⟨o, hdone⟩ := pc_of_abort reason
      refine forall_update hi.funded fun hpc => ?_
      rw [hdone] at hpc
      cases hpc
  · cases took_of_step h with
    | commits hc hstmt =>
      cases sends_of_next hstmt with
      | commits hpc =>
        intro id b hid
        exact balances_commit hi (hi.funded _ _ hc) (hi.ledger.booked _ _ hc _ rfl) hpc hid
    | _ => exact hi.balances

lemma Opened.ledgerInv (h : Opened ids s) : LedgerInv ids s where
  sound := ⟨h.rows, fun t l txn ht => by simp [h.idle t] at ht⟩
  booked t client ht := by simp [h.idle t] at ht

/-- Whatever statements of any transfers follow one another, no account comes or goes and the sum
of the balances stays; without READ COMMITTED no balance gets negative. -/
theorem transfers_safe {s₀ : State} (h₀ : Opened ids s₀) :
    (∀ s, Reach (step transfers) s₀ s →
      (∀ id, s.table.rows id ≠ none ↔ id ∈ ids) ∧ total ids s = total ids s₀) ∧
    (NoneOverdrawn s₀ →
      ∀ s, ReachVia (step transfers) AboveReadCommitted s₀ s → NoneOverdrawn s) := by
  constructor
  · intro s h
    have hinv := h.invariant (I := fun s => LedgerInv ids s ∧ total ids s = total ids s₀)
      ⟨h₀.ledgerInv, rfl⟩ fun s a t hi _ ht =>
        ⟨ledgerInv_step ht hi.1, (total_step ht hi.1).trans hi.2⟩
    exact ⟨hinv.1.sound.rows, hinv.2⟩
  · intro hpos s h
    have hinv : FundedInv ids s :=
      h.invariant ⟨h₀.ledgerInv, fun t client ht => by simp [h₀.idle t] at ht, hpos⟩
        fun s a t hi hg ht => fundedInv_step hi hg ht
    exact hinv.balances

def twoAccounts : State where
  table := .new fun id => if id = "a" then some 100 else if id = "b" then some 50 else none

lemma twoAccounts_opened : Opened {"a", "b"} twoAccounts where
  rows id := by
    by_cases ha : id = "a"
    · simp [twoAccounts, Table.new, ha]
    · by_cases hb : id = "b" <;> simp [twoAccounts, Table.new, ha, hb]
  idle _ := rfl

lemma twoAccounts_noneOverdrawn : NoneOverdrawn twoAccounts := by
  intro id b h
  simp only [twoAccounts, Table.new] at h
  split_ifs at h <;> cases h <;> decide

def eighty : TransferRequest := ⟨"a", "b", 80, by decide⟩

/-- Two transfers read the same balance; the second debits it after the first has committed. -/
def secondUpdater (level : IsolationLevel) :
    List (Action TxnId (TransferRequest × IsolationLevel)) :=
  [.start 0 (eighty, level), .start 1 (eighty, level), .op 0, .op 1, .op 0, .op 1, .op 0, .op 1,
    .op 0, .op 0, .op 0, .op 0, .op 0, .op 1]

theorem transfers_safe_secondUpdater :
    ∃ s, exec (step transfers) twoAccounts (secondUpdater .repeatableRead) = some s ∧
      (s.clients 1).map (·.loc.pc) = some (.done (.raised (.dbApiError (some "40001")))) ∧
      total {"a", "b"} s = 150 ∧ NoneOverdrawn s := by
  obtain ⟨s, hs, hpc⟩ : ∃ s,
      exec (step transfers) twoAccounts (secondUpdater .repeatableRead) = some s ∧
      (s.clients 1).map (·.loc.pc) = some (.done (.raised (.dbApiError (some "40001")))) :=
    ⟨_, rfl, rfl⟩
  obtain ⟨hsum, hpos⟩ := transfers_safe twoAccounts_opened
  have habove : Guarded (step transfers) AboveReadCommitted twoAccounts
      (secondUpdater .repeatableRead) :=
    guarded_of_forall_mem (by simp [secondUpdater, AboveReadCommitted]) _
  refine ⟨s, hs, hpc, ?_, hpos twoAccounts_noneOverdrawn s (reachVia_of_exec _ hs habove)⟩
  rw [(hsum s (reach_of_exec _ hs)).2]
  rfl

/-- At READ COMMITTED both transfers go through. -/
example : ((exec (step transfers) twoAccounts (secondUpdater .readCommitted ++
    [.op 1, .op 1, .op 1, .op 1])).map fun s => s.table.rows "a") = some (some (-60)) := rfl

end AsyncDataHub.DbConcurrency
