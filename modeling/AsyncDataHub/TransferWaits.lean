import AsyncDataHub.MvccWaits
import AsyncDataHub.TransferLedger

/-! Transfers lock the account that they debit before the one that they credit. As long as no
transfers go round in a circle none of them waits for ever. -/
namespace AsyncDataHub.DbConcurrency
open StepSystem LockTable Mvcc

variable {ids : Finset String} {s s' s₀ : State}
  {a : Action TxnId (TransferRequest × IsolationLevel)} {t : TxnId} {call : Call}
  {txn : Txn String ℤ} {rank : String → ℕ}

def Pc.left : Pc → ℕ
  | .begin => 8
  | .readFrom => 7
  | .readTo _ => 6
  | .debit => 5
  | .credit => 4
  | .readNewFrom => 3
  | .readNewTo _ => 2
  | .commit _ _ | .rollback _ => 1
  | .done _ => 0

def TransferRequest.Ascends (rank : String → ℕ) (request : TransferRequest) : Prop :=
  request.fromId = request.toId ∨ rank request.fromId < rank request.toId

def Ascending (rank : String → ℕ) (_ : State) :
    Action TxnId (TransferRequest × IsolationLevel) → Prop
  | .start _ input => input.1.Ascends rank
  | _ => True

def Pc.Open : Pc → Prop
  | .begin | .done _ => False
  | _ => True

structure Placed (rank : String → ℕ) (client : Client String ℤ Call) : Prop where
  ascends : client.loc.request.Ascends rank
  isOpen : client.txn.isSome = true ↔ client.loc.pc.Open

structure WaitInv (ids : Finset String) (rank : String → ℕ) (s : State) : Prop where
  ledger : LedgerInv ids s
  locks : LocksWritten s
  placed : ∀ t client, s.clients t = some client → Placed rank client
  finite : ∃ clients : Finset TxnId, ∀ t, s.clients t ≠ none → t ∈ clients

lemma transfers_decreasing : transfers.Decreasing fun call => call.pc.left := by
  intro call
  have hsends := sends_next call
  generalize transfers.next call = stmt at hsends
  cases hsends with
  | begins hpc | commits hpc | rollsBack hpc => simp [Call.goto, hpc, Pc.left]
  | readsFrom hpc | readsNewFrom hpc | readsNewTo hpc => simp [Call.goto, hpc, Pc.left]
  | @readsTo fromBalance hpc =>
    intro toBalance
    rcases checkFunds_cases call.request fromBalance toBalance with
      ⟨b, b', _, _, _, hcheck⟩ | ⟨e, hcheck⟩ <;> simp [Call.goto, hcheck, hpc, Pc.left]
  | debits hpc | credits hpc => simp [Call.goto, hpc, Pc.left, transfers]
  | rests _ => trivial

lemma placed_select {k : String} {next : Option ℤ → Call} (h : Placed rank ⟨call, some txn⟩)
    (hstmt : transfers.next call = .select k next) (balance : Option ℤ) {txn' : Txn String ℤ} :
    Placed rank ⟨next balance, some txn'⟩ := by
  cases sends_of_next hstmt with
  | readsFrom _ | readsNewFrom _ | readsNewTo _ => exact ⟨h.ascends, by simp [Call.goto, Pc.Open]⟩
  | @readsTo fromBalance hpc =>
    refine ⟨h.ascends, ?_⟩
    rcases checkFunds_cases call.request fromBalance balance with
      ⟨b, b', _, _, _, hcheck⟩ | ⟨e, hcheck⟩ <;> simp [Call.goto, hcheck, Pc.Open]

lemma placed_update {k : String} {change : ℤ → Except String ℤ} {next : ℕ → Call}
    (h : Placed rank ⟨call, some txn⟩) (hstmt : transfers.next call = .update k change next)
    (count : ℕ) {txn' : Txn String ℤ} : Placed rank ⟨next count, some txn'⟩ := by
  cases sends_of_next hstmt with
  | debits _ | credits _ => exact ⟨h.ascends, by simp [Call.goto, Pc.Open]⟩

lemma placed_step (hi : ∀ t client, s.clients t = some client → Placed rank client)
    (hg : Ascending rank s a) (h : step transfers s a = some s') :
    ∀ t client, s'.clients t = some client → Placed rank client := by
  cases took_of_step h with
  | starts _ _ => exact forall_update hi ⟨hg, by simp [transfers, Pc.Open]⟩
  | begins hc hstmt =>
    cases sends_of_next hstmt with
    | begins _ =>
      exact forall_update hi ⟨(hi _ _ hc).ascends, by simp [Call.goto, Pc.Open]⟩
  | snaps hc =>
    have hopen := (hi _ _ hc).isOpen
    exact forall_update hi ⟨(hi _ _ hc).ascends, by simpa using hopen⟩
  | selects hc hstmt => exact forall_update hi (placed_select (hi _ _ hc) hstmt _)
  | misses hc hstmt _ => exact forall_update hi (placed_update (hi _ _ hc) hstmt _)
  | writes hc hstmt _ _ _ _ => exact forall_update hi (placed_update (hi _ _ hc) hstmt _)
  | commits hc hstmt =>
    cases sends_of_next hstmt with
    | commits _ => exact forall_update hi ⟨(hi _ _ hc).ascends, by simp [Call.goto, Pc.Open]⟩
  | aborts hc reason =>
    obtain ⟨o, hdone⟩ := pc_of_abort reason
    refine forall_update hi ⟨?_, by simp [hdone, Pc.Open]⟩
    rcases reason with hstmt | ⟨sqlstate, rfl⟩
    · cases sends_of_next hstmt with
      | rollsBack _ => exact (hi _ _ hc).ascends
    · exact (hi _ _ hc).ascends

lemma waitInv_step (hi : WaitInv ids rank s) (hg : Ascending rank s a)
    (h : step transfers s a = some s') : WaitInv ids rank s' where
  ledger := ledgerInv_step h hi.ledger
  locks := locksWritten_step hi.locks h
  placed := placed_step hi.placed hg h
  finite := finite_clients_step hi.finite h

lemma WaitInv.writesInOrder (h : WaitInv ids rank s) : WritesInOrder transfers rank s := by
  intro t call txn k change next hc hstmt j hj hjk
  have hb := h.ledger.booked _ _ hc _ rfl
  cases sends_of_next hstmt with
  | debits hpc => exact absurd (hb.untouched (by simp [hpc, Pc.debited]) j) hj
  | credits hpc =>
    have hwrites := hb.writes j
    have hfrom : j = call.request.fromId := by
      by_contra hne
      rw [if_neg (by simp [Call.Touched, hpc, Pc.credited, hne])] at hwrites
      exact hj hwrites
    subst hfrom
    exact (h.placed _ _ hc).ascends.resolve_left hjk

lemma WaitInv.mem_ids (h : WaitInv ids rank s) {k : String} (hk : s.locks k = some t) :
    k ∈ ids := by
  obtain ⟨call, txn, hc, hw⟩ := h.locks k t hk
  obtain ⟨b, hb⟩ := Option.ne_none_iff_exists'.mp hw
  exact (h.ledger.sound.txns _ _ _ hc).wrote k b hb

lemma WaitInv.isSome_of_not_waiting (h : WaitInv ids rank s)
    (hc : s.clients t = some ⟨call, some txn⟩) (hwait : ∀ u, ¬ WaitsFor transfers s t u) :
    (step transfers s (.op t)).isSome = true := by
  have hopen : call.pc.Open := (h.placed _ _ hc).isOpen.mp rfl
  refine step_op_isSome hc (fun level call' hstmt => ?_) (fun hstmt => ?_) hwait
  · cases sends_of_next hstmt with
    | begins hpc =>
      rw [hpc] at hopen
      exact hopen
  · cases sends_of_next hstmt with
    | rests hpc =>
      rw [hpc] at hopen
      exact hopen

lemma WaitInv.exists_op (h : WaitInv ids rank s) {client : Client String ℤ Call}
    (hc : s.clients t = some client) (hdone : ∀ o, client.loc.pc ≠ .done o) :
    ∃ u, (step transfers s (.op u)).isSome = true := by
  obtain ⟨call, txn⟩ := client
  cases txn with
  | none =>
    have hclosed := mt (h.placed _ _ hc).isOpen.mpr (by simp)
    have hbegin : call.pc = .begin := by
      cases hpc : call.pc with
      | begin => rfl
      | done o => exact absurd hpc (hdone o)
      | _ => simp [hpc, Pc.Open] at hclosed
    exact ⟨t, by simp [step, hc, Db.stepClient, transfers, inTransaction, hbegin]⟩
  | some txn =>
    by_cases hwait : ∃ u, WaitsFor transfers s t u
    · obtain ⟨u, hu⟩ := hwait
      obtain ⟨v, call', txn', _, hv, hlast⟩ :=
        exists_not_waiting h.locks h.writesInOrder (fun _ _ hk => h.mem_ids hk) hu
      exact ⟨v, h.isSome_of_not_waiting hv hlast⟩
    · exact ⟨t, h.isSome_of_not_waiting hc fun u hu => hwait ⟨u, hu⟩⟩

/-- Transfers that all go upwards in some order of the accounts never wait for one another for ever:
however their statements follow one another, there are finitely many of them, and when none can be
sent any more every call has ended. -/
theorem ascending_transfers_end (h₀ : Opened ids s₀) (hfree : ∀ id, s₀.locks id = none)
    (h : ReachVia (step transfers) (Ascending rank) s₀ s) :
    ∃ bound, ∀ acts s', exec (restrict (step transfers) Action.isOp) s acts = some s' →
      acts.length ≤ bound ∧ (Terminal (restrict (step transfers) Action.isOp) s' →
        ∀ t client, s'.clients t = some client → ∃ o, client.loc.pc = .done o) := by
  have hinit : WaitInv ids rank s₀ :=
    ⟨h₀.ledgerInv, by simp [LocksWritten, hfree], by simp [h₀.idle], ∅, by simp [h₀.idle]⟩
  have hinv := h.invariant hinit fun _ _ _ hi hg hs => waitInv_step hi hg hs
  obtain ⟨clients, hclients⟩ := hinv.finite
  refine ⟨s.work (fun call => call.pc.left) clients, fun acts s' hs' =>
    ⟨length_le_work transfers_decreasing hclients hs', fun hend t client hc => ?_⟩⟩
  have hinv' : WaitInv ids rank s' := by
    refine (reach_of_exec _ hs').invariant hinv fun u a u' hi _ hu => ?_
    obtain ⟨hop, hu⟩ := restrict_eq_some.mp hu
    refine waitInv_step hi ?_ hu
    cases a with
    | start t input => cases hop
    | _ => trivial
  by_contra hdone
  rw [not_exists] at hdone
  obtain ⟨u, hu⟩ := hinv'.exists_op hc hdone
  rw [hend.step_eq_none rfl] at hu
  cases hu

/-- In the middle of two transfers from one account to the other: the second waits for the first. -/
theorem ascending_transfers_end_waiting :
    ∃ s, exec (step transfers) twoAccounts ((secondUpdater .readCommitted).take 9) = some s ∧
      step transfers s (.op 1) = none ∧
      ∃ bound, ∀ acts s', exec (restrict (step transfers) Action.isOp) s acts = some s' →
        acts.length ≤ bound ∧ (Terminal (restrict (step transfers) Action.isOp) s' →
          ∀ t client, s'.clients t = some client → ∃ o, client.loc.pc = .done o) := by
  obtain ⟨s, hs, hwaits⟩ : ∃ s,
      exec (step transfers) twoAccounts ((secondUpdater .readCommitted).take 9) = some s ∧
      step transfers s (.op 1) = none := ⟨_, rfl, rfl⟩
  have hup : Guarded (step transfers) (Ascending fun id => if id = "a" then 0 else 1) twoAccounts
      ((secondUpdater .readCommitted).take 9) :=
    guarded_of_forall_mem (by
      simp [secondUpdater, Ascending, TransferRequest.Ascends, eighty]) _
  exact ⟨s, hs, hwaits, ascending_transfers_end twoAccounts_opened (fun _ => rfl)
    (reachVia_of_exec _ hs hup)⟩

/-- Transfers in opposite directions can wait for each other. -/
example : ((exec (step transfers) twoAccounts
    [.start 0 (eighty, .readCommitted), .start 1 (⟨"b", "a", 10, by decide⟩, .readCommitted), .op 0,
      .op 1, .op 0, .op 1, .op 0, .op 1, .op 0, .op 1]).map fun s =>
        ((step transfers s (.op 0)).isNone, (step transfers s (.op 1)).isNone)) =
      some (true, true) := rfl

end AsyncDataHub.DbConcurrency
