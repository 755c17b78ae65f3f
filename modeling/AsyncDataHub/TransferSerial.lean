import AsyncDataHub.MvccSerial
import AsyncDataHub.TransferLedger
import AsyncDataHub.TransferService

/-! Transfers that run together above READ COMMITTED against transfers that run one after another:
the same answers and the same balances, in the order of the COMMITs. -/
namespace AsyncDataHub.DbConcurrency
open StepSystem LockTable Mvcc

variable {ids : Finset String} {s s' s₀ s₁ : State}
  {a : Action TxnId (TransferRequest × IsolationLevel)} {call call₁ call' : Call} {t : TxnId}
  {rows rows' rows₀ writes : String → Option ℤ}
  {seen : Set String} {log : List (TxnId × Call)} {base : TxnId → List (TxnId × Call)}

/-- A transfer as one change of the balances, with the two that it returns; no limit of BIGINT. -/
def transferAtOnce (rows : String → Option ℤ) (request : TransferRequest) :
    Except TransferError ((String → Option ℤ) × Option ℤ × Option ℤ) :=
  match rows request.fromId, rows request.toId with
  | some balance, some _ =>
    if balance < request.amount then .error (.insufficientFunds request.fromId)
    else
      let rows' := moved request rows
      .ok (rows', rows' request.fromId, rows' request.toId)
  | _, _ => .error accountNotFound

/-- The balances after a transfer that has given the answer of the call. -/
def perform (rows : String → Option ℤ) (call : Call) : Option (String → Option ℤ) :=
  match transferAtOnce rows call.request, call.pc with
  | .ok (rows', newFrom, newTo), .done (.returned newFrom' newTo') =>
    if newFrom = newFrom' ∧ newTo = newTo' then some rows' else none
  | _, _ => none

def performAll (rows : String → Option ℤ) (log : List (TxnId × Call)) :
    Option (String → Option ℤ) :=
  log.foldlM (fun rows entry => perform rows entry.2) rows

def committed : State → List (Action TxnId (TransferRequest × IsolationLevel)) →
    List (TxnId × Call) := emitted (step transfers) (commitOf transfers)

def Covered (rows : String → Option ℤ) (request : TransferRequest) (b b' : ℤ) : Prop :=
  rows request.fromId = some b ∧ rows request.toId = some b' ∧ request.amount ≤ b

/-- What holds of a transfer at each of its statements. -/
def Outline (rows writes : String → Option ℤ) (call : Call) : Prop :=
  let request := call.request
  match call.pc with
  | .readFrom => writes = fun _ => none
  | .readTo fromBalance => (writes = fun _ => none) ∧ fromBalance = rows request.fromId
  | .debit => (writes = fun _ => none) ∧ ∃ b b', Covered rows request b b'
  | .credit => ∃ b b', Covered rows request b b' ∧
      writes = Function.update (fun _ => none) request.fromId (some (b - request.amount))
  | .readNewFrom => ∃ b b', Covered rows request b b' ∧
      writes = booked request b (toCredit request b b')
  | .readNewTo newFrom => newFrom = moved request rows request.fromId ∧
      ∃ b b', Covered rows request b b' ∧ writes = booked request b (toCredit request b b')
  | .commit newFrom newTo => newFrom = moved request rows request.fromId ∧
      newTo = moved request rows request.toId ∧
      ∃ b b', Covered rows request b b' ∧ writes = booked request b (toCredit request b b')
  | .rollback e => transferAtOnce rows request = .error e
  | _ => False

lemma or_booked {request : TransferRequest} {b b' : ℤ} (h : Covered rows request b b') :
    (fun id => (booked request b (toCredit request b b') id).or (rows id)) =
      moved request rows := by
  have hfrom : (Table.new rows).rows request.fromId = some b := h.1
  exact rows_commit_booked hfrom h.2.1

lemma outline_checkFunds (rows : String → Option ℤ) (call : Call) :
    Outline rows (fun _ => none) (call.goto (checkFunds call.request
      (rows call.request.fromId) (rows call.request.toId))) := by
  simp only [checkFunds]
  cases hfrom : rows call.request.fromId with
  | none => simp [Outline, Call.goto, transferAtOnce, hfrom]
  | some b =>
    cases hto : rows call.request.toId with
    | none => simp [Outline, Call.goto, transferAtOnce, hfrom, hto]
    | some b' =>
      by_cases hb : b < call.request.amount
      · simp [Outline, Call.goto, transferAtOnce, hfrom, hto, hb]
      · simpa [Outline, Call.goto, hb] using ⟨b, b', hfrom, hto, not_lt.mp hb⟩

lemma outline_select {k : String} {next : Option ℤ → Call} (h : Outline rows writes call)
    (hstmt : transfers.next call = .select k next) :
    Outline rows writes (next ((writes k).or (rows k))) := by
  cases sends_of_next hstmt with
  | readsFrom hpc =>
    simp only [Outline, hpc] at h
    simp [Outline, Call.goto, h]
  | readsTo hpc =>
    simp only [Outline, hpc] at h
    obtain ⟨rfl, rfl⟩ := h
    exact outline_checkFunds rows call
  | readsNewFrom hpc =>
    simp only [Outline, hpc] at h
    obtain ⟨b, b', hcov, rfl⟩ := h
    exact ⟨congrFun (or_booked hcov) _, b, b', hcov, rfl⟩
  | readsNewTo hpc =>
    simp only [Outline, hpc] at h
    obtain ⟨hnew, b, b', hcov, rfl⟩ := h
    exact ⟨hnew, congrFun (or_booked hcov) _, b, b', hcov, rfl⟩

lemma outline_update {k : String} {change : ℤ → Except String ℤ} {next : ℕ → Call} {v w : ℤ}
    (h : Outline rows writes call) (hstmt : transfers.next call = .update k change next)
    (hold : (writes k).or (rows k) = some v) (hnew : change v = .ok w) :
    Outline rows (Function.update writes k (some w)) (next 1) := by
  cases sends_of_next hstmt with
  | debits hpc =>
    simp only [Outline, hpc] at h
    obtain ⟨rfl, b, b', hcov⟩ := h
    rw [Option.none_or, hcov.1, Option.some.injEq] at hold
    rw [bigint_eq_ok hnew, ← hold]
    exact ⟨b, b', hcov, rfl⟩
  | credits hpc =>
    simp only [Outline, hpc] at h
    obtain ⟨b, b', hcov, rfl⟩ := h
    refine ⟨b, b', hcov, ?_⟩
    have hv : v = toCredit call.request b b' := by
      by_cases hsame : call.request.fromId = call.request.toId
      · simpa [toCredit, hsame, eq_comm] using hold
      · simpa [toCredit, hsame, Ne.symm hsame, hcov.2.1, eq_comm] using hold
    rw [bigint_eq_ok hnew, hv]
    rfl

lemma outline_not_missed {k : String} {change : ℤ → Except String ℤ} {next : ℕ → Call}
    (h : Outline rows writes call) (hstmt : transfers.next call = .update k change next) :
    (writes k).or (rows k) ≠ none := by
  rw [ne_eq, Option.or_eq_none_iff, not_and_or]
  cases sends_of_next hstmt with
  | debits hpc =>
    simp only [Outline, hpc] at h
    obtain ⟨_, b, b', hcov⟩ := h
    exact .inr (by simp [hcov.1])
  | credits hpc =>
    simp only [Outline, hpc] at h
    obtain ⟨b, b', hcov, _⟩ := h
    exact .inr (by simp [hcov.2.1])

lemma select_looks {k : String} {next : Option ℤ → Call}
    (hstmt : transfers.next call = .select k next) (balance : Option ℤ) :
    (k = call.request.fromId ∨ k = call.request.toId) ∧
      (next balance).request = call.request := by
  cases sends_of_next hstmt <;> exact ⟨by simp, rfl⟩

lemma update_looks {k : String} {change : ℤ → Except String ℤ} {next : ℕ → Call}
    (hstmt : transfers.next call = .update k change next) (count : ℕ) :
    (k = call.request.fromId ∨ k = call.request.toId) ∧ (next count).request = call.request := by
  cases sends_of_next hstmt <;> exact ⟨by simp, rfl⟩

lemma insert_subset {k : String} (hseen : seen ⊆ {call.request.fromId, call.request.toId})
    (hk : (k = call.request.fromId ∨ k = call.request.toId) ∧ call'.request = call.request) :
    insert k seen ⊆ {call'.request.fromId, call'.request.toId} := by
  rw [hk.2]
  exact Set.insert_subset hk.1 hseen

lemma outline_of_runsOn (h : RunsOn transfers rows call₁ call writes seen)
    (h₁ : call₁.pc = .readFrom) :
    Outline rows writes call ∧ seen ⊆ {call.request.fromId, call.request.toId} := by
  induction h with
  | start => exact ⟨by simp [Outline, h₁], Set.empty_subset _⟩
  | select _ hstmt ih =>
    exact ⟨outline_select ih.1 hstmt, insert_subset ih.2 (select_looks hstmt _)⟩
  | missed _ hstmt hmiss ih => exact absurd hmiss (outline_not_missed ih.1 hstmt)
  | update _ hstmt hold hnew ih =>
    exact ⟨outline_update ih.1 hstmt hold hnew, insert_subset ih.2 (update_looks hstmt 1)⟩

lemma outline_of_begin {level : IsolationLevel} {call₀ : Call}
    (hbegin : transfers.next call₀ = .begin level call₁)
    (h : RunsOn transfers rows call₁ call writes seen) :
    Outline rows writes call ∧ seen ⊆ {call.request.fromId, call.request.toId} := by
  cases sends_of_next hbegin with
  | begins _ => exact outline_of_runsOn h rfl

/-- A transfer that comes to its COMMIT has written both accounts, and has looked at no other. -/
lemma transfers_writesWhatItReads : WritesWhatItReads transfers := by
  intro rows level call₀ call₁ call writes seen call' hbegin hrun hstmt k hk
  obtain ⟨hout, hseen⟩ := outline_of_begin hbegin hrun
  cases sends_of_next hstmt with
  | commits hpc =>
    simp only [Outline, hpc] at hout
    obtain ⟨_, _, b, b', _, rfl⟩ := hout
    rcases hseen hk with rfl | hto
    · by_cases hsame : call.request.fromId = call.request.toId <;> simp [booked, hsame]
    · rw [Set.mem_singleton_iff] at hto
      simp [booked, hto]

lemma perform_of_commitsOn {call₀ : Call} (h : CommitsOn transfers rows call₀ call' rows') :
    perform rows call' = some rows' := by
  obtain ⟨level, call₁, call, writes, seen, hbegin, hrun, hstmt, rfl⟩ := h
  have hout := (outline_of_begin hbegin hrun).1
  cases sends_of_next hstmt with
  | commits hpc =>
    simp only [Outline, hpc] at hout
    obtain ⟨rfl, rfl, b, b', hcov, rfl⟩ := hout
    rw [or_booked hcov]
    simp [perform, transferAtOnce, Call.goto, hcov.1, hcov.2.1, not_lt.mpr hcov.2.2]

lemma performAll_of_serial (h : Serial transfers rows log rows') :
    performAll rows log = some rows' := by
  induction h with
  | nil => rfl
  | snoc _ hlast ih =>
    rw [performAll] at ih ⊢
    rw [List.foldlM_append, ih]
    simpa using perform_of_commitsOn hlast

/-- A call that waits for its BEGIN has not asked for READ COMMITTED. -/
def AsksAbove (s : State) : Prop :=
  ∀ t call, s.clients t = some ⟨call, none⟩ → call.pc = .begin → call.isolation ≠ .readCommitted

/-- Some of the first commits, those of `since` among them, after which a transfer that is alone
raises `e`. -/
def RaisesAfter (rows₀ : String → Option ℤ) (since log : List (TxnId × Call))
    (request : TransferRequest) (e : TransferError) : Prop :=
  ∃ earlier rows, since <+: earlier ∧ earlier <+: log ∧ performAll rows₀ earlier = some rows ∧
    transferAtOnce rows request = .error e

/-- The answers of the calls against the commits of the run. -/
structure Answered (rows₀ : String → Option ℤ) (base : TxnId → List (TxnId × Call))
    (log : List (TxnId × Call)) (s : State) : Prop where
  once : (log.map Prod.fst).Nodup
  returned : ∀ t call, (t, call) ∈ log ↔
    s.clients t = some ⟨call, none⟩ ∧ ∃ b b', call.pc = .done (.returned b b')
  raised : ∀ t call e, s.clients t = some ⟨call, none⟩ → call.pc = .done (.raised e) →
    (∀ sqlstate, e ≠ .dbApiError sqlstate) → RaisesAfter rows₀ (base t) log call.request e

lemma RaisesAfter.append {request : TransferRequest} {e : TransferError}
    {since : List (TxnId × Call)} (h : RaisesAfter rows₀ since log request e)
    (later : List (TxnId × Call)) : RaisesAfter rows₀ since (log ++ later) request e := by
  obtain ⟨earlier, rows, hsince, hprefix, hrest⟩ := h
  exact ⟨earlier, rows, hsince, hprefix.trans (List.prefix_append ..), hrest⟩

lemma asksAbove_step (hi : AsksAbove s) (hg : AboveReadCommitted s a)
    (h : step transfers s a = some s') : AsksAbove s' := by
  have hclients {t : TxnId} {client : Client String ℤ Call}
      (hc : client.txn = none → client.loc.pc = .begin →
        client.loc.isolation ≠ .readCommitted) :
      ∀ u call, Function.update s.clients t (some client) u = some ⟨call, none⟩ →
        call.pc = .begin → call.isolation ≠ .readCommitted := by
    intro u call hu
    rcases update_eq_some.mp hu with ⟨rfl, rfl⟩ | ⟨_, hu⟩
    · exact hc rfl
    · exact hi u call hu
  cases took_of_step h with
  | starts _ _ => exact hclients fun _ _ => hg
  | begins _ _ | snaps _ | selects _ _ | misses _ _ _ | writes _ _ _ _ _ _ =>
    exact hclients (by simp)
  | commits _ hstmt =>
    cases sends_of_next hstmt with
    | commits _ => exact hclients (by simp [Call.goto])
  | aborts _ reason =>
    obtain ⟨o, hdone⟩ := pc_of_abort reason
    exact hclients (by simp [hdone])

lemma beginsAbove (hi : AsksAbove s) : BeginsAbove transfers s a := by
  cases a with
  | op t =>
    intro call level call' hc hstmt
    cases sends_of_next hstmt with
    | begins hpc => exact hi t call hc hpc
  | _ => trivial

lemma Answered.move (h : Answered rows₀ base log s) {client : Client String ℤ Call}
    (hold : ∀ call, s.clients t = some ⟨call, none⟩ → ∀ b b', call.pc ≠ .done (.returned b b'))
    (hclients : s'.clients = Function.update s.clients t (some client))
    (hnew : client.txn = none → ∀ o, client.loc.pc = .done o → ∃ e, o = .raised e ∧
      ((∀ sqlstate, e ≠ .dbApiError sqlstate) →
        RaisesAfter rows₀ (base t) log client.loc.request e)) :
    Answered rows₀ base log s' := by
  refine ⟨h.once, fun u call => ?_, fun u call e hu hpc => ?_⟩
  · rw [h.returned, hclients]
    by_cases hut : u = t
    · subst hut
      rw [Function.update_self]
      constructor
      · rintro ⟨hc, b, b', hpc⟩
        exact absurd hpc (hold call hc b b')
      · rintro ⟨hc, b, b', hpc⟩
        cases hc
        obtain ⟨e, he, _⟩ := hnew rfl _ hpc
        cases he
    · rw [Function.update_of_ne hut]
  · rw [hclients] at hu
    rcases update_eq_some.mp hu with ⟨rfl, rfl⟩ | ⟨_, hu⟩
    · obtain ⟨e', he, hraised⟩ := hnew rfl _ hpc
      cases he
      exact hraised
    · exact h.raised u call e hu hpc

lemma Answered.commit {txn : Txn String ℤ} (h : Answered rows₀ base log s)
    (hc : s.clients t = some ⟨call, some txn⟩) (hstmt : transfers.next call = .commit call') :
    Answered rows₀ base (log ++ [(t, call')]) (s.commit t call' txn) := by
  have hnot : ∀ call, (t, call) ∉ log := by
    intro call hmem
    rw [h.returned, hc] at hmem
    cases hmem.1
  have hdone : ∃ b b', call'.pc = .done (.returned b b') := by
    cases sends_of_next hstmt with
    | commits _ => exact ⟨_, _, rfl⟩
  refine ⟨?_, fun u call => ?_, fun u call e hu hpc hne => ?_⟩
  · rw [List.map_append, List.nodup_append]
    refine ⟨h.once, List.nodup_singleton _, fun u hu v hv => ?_⟩
    obtain ⟨⟨u, call⟩, hmem, rfl⟩ := List.mem_map.mp hu
    rintro rfl
    simp only [List.map_singleton, List.mem_singleton] at hv
    subst hv
    exact hnot call hmem
  · have hclients : (s.commit t call' txn).clients =
        Function.update s.clients t (some ⟨call', none⟩) := rfl
    rw [List.mem_append, List.mem_singleton, h.returned, hclients, update_eq_some]
    constructor
    · rintro (⟨hu, hpc⟩ | heq)
      · have hut : u ≠ t := by
          rintro rfl
          rw [hc] at hu
          cases hu
        exact ⟨.inr ⟨hut, hu⟩, hpc⟩
      · cases heq
        exact ⟨.inl ⟨rfl, rfl⟩, hdone⟩
    · rintro ⟨⟨rfl, heq⟩ | ⟨_, hu⟩, hpc⟩
      · cases heq
        exact .inr rfl
      · exact .inl ⟨hu, hpc⟩
  · rcases update_eq_some.mp hu with ⟨_, heq⟩ | ⟨_, hu⟩
    · cases heq
      obtain ⟨b, b', hdone⟩ := hdone
      rw [hdone] at hpc
      cases hpc
    · exact (h.raised u call e hu hpc hne).append _

lemma raised_of_rollback {txn : Txn String ℤ}
    (hi : SerialInv transfers rows₀ (ids : Set String) base log s)
    (hc : s.clients t = some ⟨call, some txn⟩) {e : TransferError} (hpc : call.pc = .rollback e) :
    RaisesAfter rows₀ (base t) log call.request e := by
  have hex := hi.explained _ _ _ hc
  obtain ⟨earlier, hsince, hprefix, hserial⟩ := hex.view
  obtain ⟨call₀, call₁, seen, hbegin, hrun, _⟩ := hex.runs
  have hout := (outline_of_begin hbegin hrun).1
  simp only [Outline, hpc] at hout
  exact ⟨earlier, _, hsince, hprefix, performAll_of_serial hserial, hout⟩

lemma answered_step (hi : SerialInv transfers rows₀ (ids : Set String) base log s)
    (h : Answered rows₀ base log s) (hs : step transfers s a = some s') :
    Answered rows₀ base (log ++ (commitOf transfers s a).toList) s' := by
  rcases commit_or_not hs with ⟨t, call, call', txn, rfl, hc, hstmt, hemit, rfl⟩ | ⟨hemit, htable⟩
  · rw [hemit]
    exact h.commit hc hstmt
  · rw [hemit, Option.toList_none, List.append_nil]
    have hopen {t : TxnId} {call : Call} {txn : Txn String ℤ}
        (hc : s.clients t = some ⟨call, some txn⟩) :
        ∀ call, s.clients t = some ⟨call, none⟩ → ∀ b b', call.pc ≠ .done (.returned b b') := by
      intro call' hc'
      rw [hc] at hc'
      cases hc'
    cases took_of_step hs with
    | starts _ hfresh =>
      exact h.move (by simp [hfresh]) rfl fun _ o hpc => by cases hpc
    | begins hc hstmt =>
      refine h.move (fun call' hc' b b' hpc => ?_) rfl (by simp)
      rw [hc] at hc'
      cases hc'
      cases sends_of_next hstmt with
      | begins hpc' => simp [hpc'] at hpc
    | snaps hc | selects hc _ | misses hc _ _ | writes hc _ _ _ _ _ =>
      exact h.move (hopen hc) rfl (by simp)
    | commits hc hstmt => exact absurd (congrArg Table.commits htable) (Nat.succ_ne_self _)
    | aborts hc reason =>
      refine h.move (hopen hc) rfl fun _ o hpc => ?_
      rcases reason with hstmt | ⟨sqlstate, rfl⟩
      · cases sends_of_next hstmt with
        | rollsBack hpc' =>
          cases hpc
          exact ⟨_, rfl, fun _ => raised_of_rollback hi hc hpc'⟩
      · cases hpc
        exact ⟨_, rfl, fun hne => absurd rfl (hne sqlstate)⟩

structure TransfersInv (ids : Finset String) (rows₀ : String → Option ℤ)
    (base : TxnId → List (TxnId × Call)) (log : List (TxnId × Call)) (s : State) : Prop where
  serial : SerialInv transfers rows₀ (ids : Set String) base log s
  asks : AsksAbove s
  answered : Answered rows₀ base log s

lemma transfersInv_of_exec (hi : TransfersInv ids rows₀ base log s)
    {acts : List (Action TxnId (TransferRequest × IsolationLevel))}
    (habove : Guarded (step transfers) AboveReadCommitted s acts)
    (h : exec (step transfers) s acts = some s') :
    TransfersInv ids rows₀ base (log ++ committed s acts) s' :=
  invariant_emitted (J := TransfersInv ids rows₀ base) (fun _ _ _ _ hi hg hs =>
    ⟨serialInv_step transfers_writesWhatItReads hi.serial (beginsAbove hi.asks) hs,
      asksAbove_step hi.asks hg hs, answered_step hi.serial hi.answered hs⟩) hi habove h

/-- Above READ COMMITTED any run of transfers is strictly serializable, in the order of the COMMITs:
one after another the transfers that return give the same answers and balances, and one that finds
an account missing or without enough money does so after some of them. Those committed before a call
starts come before it. -/
theorem transfers_serializable (h₀ : Opened ids s₀)
    {acts acts' : List (Action TxnId (TransferRequest × IsolationLevel))}
    (habove : Guarded (step transfers) AboveReadCommitted s₀ acts)
    (h : exec (step transfers) s₀ acts = some s)
    (habove' : Guarded (step transfers) AboveReadCommitted s acts')
    (h' : exec (step transfers) s acts' = some s') :
    performAll s₀.table.rows (committed s₀ acts ++ committed s acts') = some s'.table.rows ∧
      Answered s₀.table.rows (fun t => if s.clients t = none then committed s₀ acts else [])
        (committed s₀ acts ++ committed s acts') s' := by
  have hinit : TransfersInv ids s₀.table.rows (fun _ => []) [] s₀ :=
    ⟨⟨h₀.ledgerInv.sound, fun _ => List.prefix_rfl, .nil, by simp [h₀.idle]⟩,
      by simp [AsksAbove, h₀.idle], List.nodup_nil, by simp [h₀.idle], by simp [h₀.idle]⟩
  have hfirst : TransfersInv ids s₀.table.rows (fun _ => []) (committed s₀ acts) s :=
    transfersInv_of_exec hinit habove h
  have hrebased : TransfersInv ids s₀.table.rows
      (fun t => if s.clients t = none then committed s₀ acts else []) (committed s₀ acts) s := by
    refine ⟨hfirst.serial.rebase, hfirst.asks, hfirst.answered.once, hfirst.answered.returned,
      fun t call e ht hpc hne => ?_⟩
    simpa [ht] using hfirst.answered.raised t call e ht hpc hne
  have hsecond := transfersInv_of_exec hrebased habove' h'
  exact ⟨performAll_of_serial hsecond.serial.serial, hsecond.answered⟩

/-- A transfer after the two of `secondUpdater`, of which only the first has been committed. -/
def tooLate : List (Action TxnId (TransferRequest × IsolationLevel)) :=
  [.start 2 (eighty, .serializable), .op 2, .op 2, .op 2, .op 2]

theorem transfers_serializable_tooLate :
    ∃ s s', exec (step transfers) twoAccounts (secondUpdater .repeatableRead) = some s ∧
      exec (step transfers) s tooLate = some s' ∧
      performAll twoAccounts.table.rows
        (committed twoAccounts (secondUpdater .repeatableRead) ++ committed s tooLate) =
          some s'.table.rows ∧
      ∃ call, s'.clients 2 = some ⟨call, none⟩ ∧
        call.pc = .done (.raised (.insufficientFunds "a")) ∧
        RaisesAfter twoAccounts.table.rows
          (committed twoAccounts (secondUpdater .repeatableRead))
          (committed twoAccounts (secondUpdater .repeatableRead) ++ committed s tooLate)
          call.request (.insufficientFunds "a") := by
  obtain ⟨s, s', h, h', hfresh, call, hc, hpc⟩ : ∃ s s',
      exec (step transfers) twoAccounts (secondUpdater .repeatableRead) = some s ∧
      exec (step transfers) s tooLate = some s' ∧ s.clients 2 = none ∧
      ∃ call, s'.clients 2 = some ⟨call, none⟩ ∧
        call.pc = .done (.raised (.insufficientFunds "a")) :=
    ⟨_, _, rfl, rfl, rfl, _, rfl, rfl⟩
  have habove : Guarded (step transfers) AboveReadCommitted twoAccounts
      (secondUpdater .repeatableRead) :=
    guarded_of_forall_mem (by simp [secondUpdater, AboveReadCommitted]) _
  have habove' : Guarded (step transfers) AboveReadCommitted s tooLate :=
    guarded_of_forall_mem (by simp [tooLate, AboveReadCommitted]) _
  obtain ⟨hall, hanswers⟩ := transfers_serializable twoAccounts_opened habove h habove' h'
  have hraised := hanswers.raised 2 call _ hc hpc (by simp)
  rw [if_pos hfresh] at hraised
  exact ⟨s, s', h, h', hall, call, hc, hpc, hraised⟩

end AsyncDataHub.DbConcurrency
