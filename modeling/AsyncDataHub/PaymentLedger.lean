import AsyncDataHub.PaymentStep

/-! The books: balances, the rows of successful charges and the responses built from them, for any
interleaving, expiry of cache records, failure and cancellation. -/
namespace AsyncDataHub.Payment
open StepSystem LockTable OwnedRows Cache PyJson ExpiringStore

variable {cfg : Config} {s t : State} {c d : CallId} {call : Call} {eff : Effect}

/-- What the successful charges of an account add up to. -/
def spent (u : Uuid) (charges : List Inserted) : ℤ :=
  ((charges.filter fun i => i.row.customerId = u ∧ i.row.status = .succeeded).map
    fun i => i.row.amount).sum

/-- Accounts with non-negative balances, and nothing else yet. -/
structure Opened (s : State) : Prop where
  balances : ∀ u b, s.accounts u = some b → 0 ≤ b
  noCharges : s.charges = []
  noRecords : ∀ key, s.cache.store (cacheIdempotencyKey key) = none
  idle : ∀ c, s.calls c = none

/-- The row is for the key, the amount and the customer that the call asks for. -/
structure Charge.For (cfg : Config) (call : Call) (charge : Charge) : Prop where
  key : charge.idempotencyKey = call.key
  amount : charge.amount = call.data.amount
  customer : cfg.uuidOf call.data.customerId = some charge.customerId

/-- What a call knows from its own values and arguments only. -/
def Call.Ok (cfg : Config) (call : Call) : Prop :=
  match call.pc with
  | .sleep u _ | .update u | .insertFailed u => cfg.uuidOf call.data.customerId = some u
  | .insert u balance => cfg.uuidOf call.data.customerId = some u ∧ 0 ≤ balance
  | .commit balance charge => charge.For cfg call ∧ charge.status = .succeeded ∧ 0 ≤ balance
  | .commitFailed charge => charge.For cfg call ∧ charge.status = .failed
  | _ => True

/-- Which response a call has obtained, told by where it stands. -/
def Call.Progress (call : Call) : Prop :=
  match call.pc with
  | .complete response => call.response = some response
  | .done (.returned response) => call.response = some response ∨
      (call.response = none ∧ dictGet response "idempotent_replayed" = some (.bool true))
  | .done (.raised _) => True
  | _ => call.response = none

/-- A call has inserted the row that it has built its response from, and no other. -/
def Call.Booked (cfg : Config) (charges : List Inserted) (c : CallId) (call : Call) : Prop :=
  match call.response with
  | none => rowsBy c charges = []
  | some response => ∃ charge, rowsBy c charges = [⟨c, charge⟩] ∧
      response = responseOf cfg charge ∧ charge.For cfg call

structure Call.Sound (cfg : Config) (charges : List Inserted) (c : CallId) (call : Call) :
    Prop where
  ok : call.Ok cfg
  progress : call.Progress
  booked : call.Booked cfg charges c

structure BooksInv (cfg : Config) (s : State) : Prop where
  started : ∀ c call, s.calls c = some call → call.Sound cfg s.charges c
  fresh : ∀ c, s.calls c = none → rowsBy c s.charges = []

lemma newCharge_for {u : Uuid} (status : ChargeStatus) (message : Option String)
    (h : cfg.uuidOf call.data.customerId = some u) :
    (newCharge cfg s c call u status message).For cfg call := ⟨rfl, rfl, h⟩

lemma Charge.For.congr {call' : Call} {charge : Charge} (h : charge.For cfg call)
    (hk : call'.key = call.key) (hd : call'.data = call.data) : charge.For cfg call' :=
  ⟨hk ▸ h.key, hd ▸ h.amount, hd ▸ h.customer⟩

lemma replayRecord_flag {fingerprint : String} {record response : Fields}
    (h : replayRecord fingerprint record = .ok response) :
    dictGet response "idempotent_replayed" = some (.bool true) := by
  unfold replayRecord at h
  split_ifs at h
  split at h <;> cases h
  exact dictGet_dictSet_self _ _ _

lemma handleExisting_flag {fingerprint : String} {existing : Option Json} {response : Fields}
    (h : handleExisting fingerprint existing = .ok response) :
    dictGet response "idempotent_replayed" = some (.bool true) := by
  unfold handleExisting at h
  split at h
  · cases h
  · split_ifs at h
    rename_i value _
    cases hd : decodeRecord value with
    | error e =>
      rw [hd] at h
      cases h
    | ok record =>
      rw [hd] at h
      exact replayRecord_flag h

lemma lookupOutcome_flag {fingerprint : String} {existing : Except PyError (Option Json)}
    {response : Fields} (h : lookupOutcome fingerprint existing = .returned response) :
    dictGet response "idempotent_replayed" = some (.bool true) := by
  unfold lookupOutcome at h
  split at h
  · rename_i r hr
    cases h
    cases existing with
    | error e => cases hr
    | ok value => exact handleExisting_flag hr
  · cases h

lemma ok_of_does (hok : call.Ok cfg) (h : Does cfg s c call eff) :
    (eff.after cfg s.now call).Ok cfg := by
  cases h with
  | acquires _ _ _ =>
    simp only [Call.Ok, Effect.after, firstPc]
    cases hu : cfg.uuidOf call.data.customerId with
    | none => trivial
    | some u => exact rfl
  | wakes hpc _ =>
    simp only [Call.Ok, hpc] at hok
    exact hok
  | overdraws hpc _ _ _ =>
    simp only [Call.Ok, hpc] at hok
    exact hok
  | debits hpc _ henough _ =>
    simp only [Call.Ok, hpc] at hok
    exact ⟨hok, by omega⟩
  | mistakes hpc _ _ =>
    simp only [Call.Ok, hpc] at hok
    exact hok.1
  | inserts hpc _ _ =>
    simp only [Call.Ok, hpc] at hok
    exact ⟨(newCharge_for _ _ hok.1).congr rfl rfl, rfl, hok.2⟩
  | recordsFailure hpc =>
    simp only [Call.Ok, hpc] at hok
    exact ⟨(newCharge_for _ _ hok).congr rfl rfl, rfl⟩
  | _ => trivial

lemma progress_of_does (hp : call.Progress) (h : Does cfg s c call eff) :
    (eff.after cfg s.now call).Progress := by
  cases h with
  | acquires hpc _ _ =>
    simp only [Call.Progress, hpc] at hp
    simp only [Call.Progress, Effect.after, firstPc]
    cases cfg.uuidOf call.data.customerId <;> exact hp
  | looksUp hpc =>
    simp only [Call.Progress, hpc] at hp
    simp only [Call.Progress, Effect.after]
    cases ho : lookupOutcome (computeFingerprint cfg call.data)
      (s.cache.get s.now (cacheIdempotencyKey call.key)).2 with
    | returned response => exact .inr ⟨hp, lookupOutcome_flag ho⟩
    | raised e => trivial
  | stops e hpc =>
    simp only [Call.Progress] at hp
    cases hc : call.pc <;> simp only [hc, Pc.Charging] at hp hpc <;> exact hp
  | commits _ => exact rfl
  | commitsFailure _ => exact rfl
  | deletes _ => trivial
  | completes hpc =>
    simp only [Call.Progress, hpc] at hp
    exact .inl hp
  | refused hpc _ | wakes hpc _ | overdraws hpc _ _ _ | debits hpc _ _ _ | mistakes hpc _ _
  | inserts hpc _ _ | recordsFailure hpc =>
    simp only [Call.Progress, hpc] at hp
    exact hp

lemma progress_none_of_charging (hp : call.Progress) (hpc : call.pc.Charging) :
    call.response = none := by
  unfold Call.Progress at hp
  cases hc : call.pc <;> simp only [hc, Pc.Charging] at hp hpc <;> exact hp

lemma booked_publish {charge : Charge} {balance : Option ℤ} (hb : call.Booked cfg s.charges c)
    (hp : call.Progress) (hpc : call.pc.Charging) (hf : charge.For cfg call) :
    ((Effect.publish balance charge).after cfg s.now call).Booked cfg
      (s.charges ++ [⟨c, charge⟩]) c := by
  simp only [Call.Booked, progress_none_of_charging hp hpc] at hb
  refine ⟨charge, ?_, rfl, hf.congr rfl rfl⟩
  rw [rowsBy_append_self, hb, List.nil_append]

lemma Call.Booked.congr {call' : Call} {charges charges' : List Inserted}
    (h : call.Booked cfg charges c) (hr : call'.response = call.response)
    (hk : call'.key = call.key) (hd : call'.data = call.data)
    (he : rowsBy c charges' = rowsBy c charges) : call'.Booked cfg charges' c := by
  unfold Call.Booked at *
  rw [hr, he]
  split <;> rename_i hresp <;> simp only [hresp] at h
  · exact h
  · obtain ⟨charge, hrow, hdump, hfor⟩ := h
    exact ⟨charge, hrow, hdump, hfor.congr hk hd⟩

lemma after_response (now : ℕ) (call : Call) (hn : ∀ b charge, eff ≠ .publish b charge) :
    (eff.after cfg now call).response = call.response := by
  cases eff <;> first | rfl | exact absurd rfl (hn _ _)

lemma sound_of_does (hs : call.Sound cfg s.charges c) (h : Does cfg s c call eff) :
    (eff.after cfg s.now call).Sound cfg (s.apply cfg c call eff).charges c := by
  refine ⟨ok_of_does hs.ok h, progress_of_does hs.progress h, ?_⟩
  have hsame (hn : ∀ b charge, eff ≠ .publish b charge) :
      (eff.after cfg s.now call).Booked cfg (s.apply cfg c call eff).charges c := by
    refine hs.booked.congr (after_response _ _ hn) (after_key _ _ _) (after_data _ _ _) ?_
    cases eff <;> first | rfl | exact absurd rfl (hn _ _)
  have hok := hs.ok
  cases h with
  | commits hpc =>
    simp only [Call.Ok, hpc] at hok
    exact booked_publish hs.booked hs.progress (by rw [hpc]; trivial) hok.1
  | commitsFailure hpc =>
    simp only [Call.Ok, hpc] at hok
    exact booked_publish hs.booked hs.progress (by rw [hpc]; trivial) hok.1
  | _ => exact hsame (by simp)

lemma sound_of_stops (hs : call.Sound cfg s.charges c) (h : Stops call eff) :
    (eff.after cfg s.now call).Sound cfg (s.apply cfg c call eff).charges c := by
  cases h with
  | fails e hpc =>
    have hnone := progress_none_of_charging hs.progress hpc
    exact ⟨trivial, hnone, hs.booked.congr rfl rfl rfl rfl⟩
  | ends e | gives e => exact ⟨trivial, trivial, hs.booked.congr rfl rfl rfl rfl⟩

lemma booksInv_apply (hi : BooksInv cfg s) (hc : s.calls c = some call)
    (hs : (eff.after cfg s.now call).Sound cfg (s.apply cfg c call eff).charges c) :
    BooksInv cfg (s.apply cfg c call eff) := by
  have hrows : ∀ d, d ≠ c → rowsBy d (s.apply cfg c call eff).charges = rowsBy d s.charges := by
    intro d hne
    cases eff <;> first | rfl | exact rowsBy_append_of_ne hne ..
  refine ⟨fun d call' hd => ?_, fun d hd => ?_⟩
  · rw [apply_calls] at hd
    rcases update_eq_some.mp hd with ⟨rfl, rfl⟩ | ⟨hne, hd⟩
    · exact hs
    · have h := hi.started d call' hd
      exact ⟨h.ok, h.progress, h.booked.congr rfl rfl rfl (hrows d hne)⟩
  · rw [apply_calls] at hd
    obtain ⟨hne, hd⟩ := update_eq_none.mp hd
    rw [hrows d hne]
    exact hi.fresh d hd

theorem booksInv_step {a : Action} (h : step cfg s a = some t) (hi : BooksInv cfg s) :
    BooksInv cfg t := by
  cases took_of_step h with
  | @start c key data hfresh =>
    exact ⟨forall_update hi.started ⟨trivial, rfl, hi.fresh _ hfresh⟩,
      fun d hd => hi.fresh d (update_eq_none.mp hd).2⟩
  | op hc hd => exact booksInv_apply hi hc (sound_of_does (hi.started _ _ hc) hd)
  | stop hc _ hs => exact booksInv_apply hi hc (sound_of_stops (hi.started _ _ hc) hs)
  | tick _ => exact ⟨hi.started, hi.fresh⟩

lemma Opened.booksInv (h : Opened s) : BooksInv cfg s := by
  refine ⟨fun c call hc => ?_, fun c _ => ?_⟩
  · rw [h.idle c] at hc
    cases hc
  · simp [h.noCharges]

theorem booksInv_reach {s₀ : State} (h₀ : Opened s₀) (h : Reach (step cfg) s₀ s) :
    BooksInv cfg s := h.invariant h₀.booksInv fun _ _ _ hi _ ht => booksInv_step ht hi

/-- The locks of an open transaction, with what they protect. -/
def Call.Holds (s : State) (c : CallId) (call : Call) : Prop :=
  match call.pc with
  | .insert u balance =>
    s.accountLock u = some c ∧ s.accounts u = some (balance + call.data.amount)
  | .commit balance charge =>
    (s.accountLock charge.customerId = some c ∧
      s.accounts charge.customerId = some (balance + call.data.amount)) ∧
    s.indexLock call.key = some c ∧ succeededRows call.key s.charges = []
  | _ => True

structure LedgerInv (accounts₀ : Uuid → Option ℤ) (s : State) : Prop where
  balances : ∀ u, s.accounts u = (accounts₀ u).map fun b => b - spent u s.charges
  nonneg : ∀ u b, s.accounts u = some b → 0 ≤ b
  unique : ∀ key, (succeededRows key s.charges).length ≤ 1
  holds : ∀ c call, s.calls c = some call → call.Holds s c

lemma spent_append (u : Uuid) (charges : List Inserted) (i : Inserted) :
    spent u (charges ++ [i]) = spent u charges +
      if i.row.customerId = u ∧ i.row.status = .succeeded then i.row.amount else 0 := by
  unfold spent
  rw [List.filter_append, List.map_append, List.sum_append]
  split_ifs with h <;> simp [h]

lemma succeededRows_append (key : String) (charges : List Inserted) (i : Inserted) :
    succeededRows key (charges ++ [i]) = succeededRows key charges ++
      if i.row.idempotencyKey = key ∧ i.row.status = .succeeded then [i] else [] := by
  unfold succeededRows
  rw [List.filter_append]
  split_ifs with h <;> simp [h]

lemma Call.Holds.of_locks (h : call.Holds s d)
    (ha : ∀ u, s.accountLock u = some d →
      t.accountLock u = some d ∧ t.accounts u = s.accounts u)
    (hk : ∀ key, s.indexLock key = some d →
      t.indexLock key = some d ∧ succeededRows key t.charges = succeededRows key s.charges) :
    call.Holds t d := by
  unfold Call.Holds at *
  cases hpc : call.pc <;> simp only [hpc] at h ⊢
  case insert u balance =>
    obtain ⟨hl, he⟩ := ha u h.1
    exact ⟨hl, he ▸ h.2⟩
  case commit balance charge =>
    obtain ⟨⟨hacc, hrow⟩, hidx, hnone⟩ := h
    obtain ⟨hl, he⟩ := ha _ hacc
    obtain ⟨hl', he'⟩ := hk _ hidx
    exact ⟨⟨hl, he ▸ hrow⟩, hl', he' ▸ hnone⟩

lemma holds_of_does (hh : call.Holds s c) (h : Does cfg s c call eff) :
    (eff.after cfg s.now call).Holds (s.apply cfg c call eff) c := by
  cases h with
  | acquires _ _ _ =>
    simp only [Call.Holds, Effect.after, firstPc]
    cases cfg.uuidOf call.data.customerId <;> trivial
  | debits _ hrow _ _ => exact ⟨take_self _ _ _, by simpa [State.apply, State.setCall] using hrow⟩
  | inserts hpc hfresh _ =>
    simp only [Call.Holds, hpc] at hh
    exact ⟨hh, take_self _ _ _, hfresh⟩
  | _ => trivial

lemma accountLock_of_does (h : Does cfg s c call eff) (hne : d ≠ c) {u : Uuid}
    (hl : s.accountLock u = some d) : (s.apply cfg c call eff).accountLock u = some d := by
  cases h with
  | debits _ _ _ ha => exact take_eq_some_of_ne ha hl hne
  | stops _ _ | overdraws _ _ _ _ | mistakes _ _ _ | commits _ | commitsFailure _ =>
    exact releaseAll_eq_some.mpr ⟨hl, hne⟩
  | _ => exact hl

lemma indexLock_of_does (h : Does cfg s c call eff) (hne : d ≠ c) {key : String}
    (hl : s.indexLock key = some d) : (s.apply cfg c call eff).indexLock key = some d := by
  cases h with
  | inserts _ _ ha => exact take_eq_some_of_ne ha hl hne
  | stops _ _ | overdraws _ _ _ _ | mistakes _ _ _ | commits _ | commitsFailure _ =>
    exact releaseAll_eq_some.mpr ⟨hl, hne⟩
  | _ => exact hl

variable {accounts₀ : Uuid → Option ℤ}

lemma ledgerInv_apply (hi : LedgerInv accounts₀ s) (hc : s.calls c = some call)
    (hacc : (s.apply cfg c call eff).accounts = s.accounts)
    (hspent : ∀ u, spent u (s.apply cfg c call eff).charges = spent u s.charges)
    (hrows : ∀ key, succeededRows key (s.apply cfg c call eff).charges =
      succeededRows key s.charges)
    (ha : ∀ d u, d ≠ c → s.accountLock u = some d →
      (s.apply cfg c call eff).accountLock u = some d)
    (hk : ∀ d key, d ≠ c → s.indexLock key = some d →
      (s.apply cfg c call eff).indexLock key = some d)
    (hh : (eff.after cfg s.now call).Holds (s.apply cfg c call eff) c) :
    LedgerInv accounts₀ (s.apply cfg c call eff) := by
  refine ⟨fun u => ?_, fun u b hb => ?_, fun key => ?_, fun d call' hd => ?_⟩
  · rw [hacc, hspent]
    exact hi.balances u
  · rw [hacc] at hb
    exact hi.nonneg u b hb
  · rw [hrows]
    exact hi.unique key
  · rw [apply_calls] at hd
    rcases update_eq_some.mp hd with ⟨rfl, rfl⟩ | ⟨hne, hd⟩
    · exact hh
    · exact (hi.holds d call' hd).of_locks (fun u hl => ⟨ha d u hne hl, by rw [hacc]⟩)
        fun key hl => ⟨hk d key hne hl, hrows key⟩

/-- The COMMIT of a successful charge takes its amount from the account it has locked and puts
the only successful row under its key. -/
lemma ledgerInv_commit {balance : ℤ} {charge : Charge} (hi : LedgerInv accounts₀ s)
    (hc : s.calls c = some call) (hpc : call.pc = .commit balance charge) (hok : call.Ok cfg) :
    LedgerInv accounts₀ (s.apply cfg c call (.publish (some balance) charge)) := by
  have hdoes : Does cfg s c call (.publish (some balance) charge) := .commits hpc
  have hholds := hi.holds c call hc
  simp only [Call.Holds, hpc] at hholds
  obtain ⟨⟨hlock, hrow⟩, hidx, hnone⟩ := hholds
  simp only [Call.Ok, hpc] at hok
  obtain ⟨hfor, hstatus, hpos⟩ := hok
  have hother : ∀ u, u ≠ charge.customerId →
      (s.apply cfg c call (.publish (some balance) charge)).accounts u = s.accounts u :=
    fun u hne => by simp [debit, hne]
  refine ⟨fun u => ?_, fun u b hb => ?_, fun key => ?_, fun d call' hd => ?_⟩
  · rw [apply_charges, spent_append]
    by_cases hu : u = charge.customerId
    · subst hu
      have hbal := hi.balances charge.customerId
      rw [hrow] at hbal
      obtain ⟨b₀, hb₀, hsub⟩ := Option.map_eq_some_iff.mp hbal.symm
      simp only [apply_accounts, debit, Function.update_self, hb₀, hstatus, and_self, ↓reduceIte,
        Option.map_some, Option.some.injEq, hfor.amount]
      omega
    · rw [hother u hu, if_neg (fun h => hu h.1.symm), add_zero]
      exact hi.balances u
  · by_cases hu : u = charge.customerId
    · subst hu
      simp only [apply_accounts, debit, Function.update_self, Option.some.injEq] at hb
      exact hb ▸ hpos
    · rw [hother u hu] at hb
      exact hi.nonneg u b hb
  · rw [apply_charges, succeededRows_append]
    split_ifs with hkey
    · rw [← hkey.1, hfor.key, hnone]
      simp
    · rw [List.append_nil]
      exact hi.unique key
  · rw [apply_calls] at hd
    rcases update_eq_some.mp hd with ⟨rfl, rfl⟩ | ⟨hne, hd⟩
    · trivial
    · refine (hi.holds d call' hd).of_locks
        (fun u hl => ⟨accountLock_of_does hdoes hne hl, hother u ?_⟩)
        fun key hl => ⟨indexLock_of_does hdoes hne hl, ?_⟩
      · rintro rfl
        rw [hlock, Option.some.injEq] at hl
        exact hne hl.symm
      · rw [apply_charges, succeededRows_append, if_neg, List.append_nil]
        rintro ⟨hkey, _⟩
        rw [← hkey, hfor.key, hidx, Option.some.injEq] at hl
        exact hne hl.symm

theorem ledgerInv_step {a : Action} (h : step cfg s a = some t) (hb : BooksInv cfg s)
    (hi : LedgerInv accounts₀ s) : LedgerInv accounts₀ t := by
  cases took_of_step h with
  | start _ => exact ⟨hi.balances, hi.nonneg, hi.unique, forall_update hi.holds trivial⟩
  | @op c call eff hc hd =>
    have hok := (hb.started c call hc).ok
    have hrest (hacc : (s.apply cfg c call eff).accounts = s.accounts)
        (hspent : ∀ u, spent u (s.apply cfg c call eff).charges = spent u s.charges)
        (hrows : ∀ key, succeededRows key (s.apply cfg c call eff).charges =
          succeededRows key s.charges) : LedgerInv accounts₀ (s.apply cfg c call eff) :=
      ledgerInv_apply hi hc hacc hspent hrows (fun _ _ hne hl => accountLock_of_does hd hne hl)
        (fun _ _ hne hl => indexLock_of_does hd hne hl) (holds_of_does (hi.holds c call hc) hd)
    cases hd with
    | commits hpc => exact ledgerInv_commit hi hc hpc hok
    | commitsFailure hpc =>
      simp only [Call.Ok, hpc] at hok
      exact hrest rfl (fun u => by simp [spent_append, hok.2])
        fun key => by simp [succeededRows_append, hok.2]
    | _ => exact hrest rfl (fun _ => rfl) fun _ => rfl
  | stop hc _ hs =>
    cases hs with
    | ends _ | fails _ _ =>
      exact ledgerInv_apply hi hc rfl (fun _ => rfl) (fun _ => rfl)
        (fun _ _ hne hl => releaseAll_eq_some.mpr ⟨hl, hne⟩)
        (fun _ _ hne hl => releaseAll_eq_some.mpr ⟨hl, hne⟩) trivial
    | gives _ =>
      exact ledgerInv_apply hi hc rfl (fun _ => rfl) (fun _ => rfl) (fun _ _ _ hl => hl)
        (fun _ _ _ hl => hl) trivial
  | tick _ => exact ⟨hi.balances, hi.nonneg, hi.unique, hi.holds⟩

lemma Opened.ledgerInv (h : Opened s) : LedgerInv s.accounts s := by
  refine ⟨fun u => ?_, h.balances, fun key => ?_, fun c call hc => ?_⟩
  · simp [h.noCharges, spent]
  · simp [h.noCharges, succeededRows]
  · rw [h.idle c] at hc
    cases hc

theorem ledgerInv_reach {s₀ : State} (h₀ : Opened s₀) (h : Reach (step cfg) s₀ s) :
    LedgerInv s₀.accounts s :=
  h.invariant_with (fun _ hu => booksInv_reach h₀ hu) h₀.ledgerInv
    fun _ _ _ hb hi _ ht => ledgerInv_step ht hb hi

/-- In every reachable state each balance is the initial one less the successful charges and not
negative, no key has two successful charges, and each response that is no replay was built from
a committed row of the call's own. -/
theorem books_balance (cfg : Config) {s₀ s : State} (h₀ : Opened s₀)
    (h : Reach (step cfg) s₀ s) :
    (∀ u, s.accounts u = (s₀.accounts u).map fun b => b - spent u s.charges) ∧
    (∀ u b, s.accounts u = some b → 0 ≤ b) ∧
    (∀ key, (succeededRows key s.charges).length ≤ 1) ∧
    ∀ c call response, s.calls c = some call → call.pc = .done (.returned response) →
      dictGet response "idempotent_replayed" ≠ some (.bool true) →
      ∃ charge, rowsBy c s.charges = [⟨c, charge⟩] ∧ response = responseOf cfg charge ∧
        charge.For cfg call := by
  have hi := ledgerInv_reach h₀ h
  refine ⟨hi.balances, hi.nonneg, hi.unique, fun c call response hc hpc hflag => ?_⟩
  obtain ⟨_, hp, hb⟩ := (booksInv_reach h₀ h).started c call hc
  simp only [Call.Progress, hpc] at hp
  rcases hp with hp | ⟨_, hp⟩
  · simp only [Call.Booked, hp] at hb
    exact hb
  · exact absurd hp hflag

def aliceId : String := "00000000-0000-0000-0000-000000000001"

def sixty : CreatePaymentRequest := ⟨60, aliceId, by decide, by decide⟩

def sixtyText : String :=
  "\x7b\"amount\":60,\"customer_id\":\"00000000-0000-0000-0000-000000000001\"\x7d"

def sixtyDigest : String := "d02985c439155546bf7c925c22a71a356737133e1bc24a20a029165490373c74"

def demoConfig : Config where
  uuidOf := fun text => if text = aliceId then some 1 else none
  strOf := fun _ => aliceId
  uuid4Hex := fun c => "0000000000004000800000000000000" ++ toString c
  isoformat := fun n => "1970-01-01T00:00:0" ++ toString (n / 1000) ++ "Z"
  sha256 := Equiv.swap sixtyText sixtyDigest

def openedState (backend : Backend) (balance : ℤ) : State where
  accounts := Function.update (fun _ => none) 1 (some balance)
  charges := []
  accountLock := fun _ => none
  indexLock := fun _ => none
  cache := ⟨backend, 30, fun _ => none⟩
  writer := fun _ => none
  now := 0
  calls := fun _ => none

lemma openedState_opened (backend : Backend) {balance : ℤ} (h : 0 ≤ balance) :
    Opened (openedState backend balance) := by
  refine ⟨fun u b hb => ?_, rfl, fun _ => rfl, fun _ => rfl⟩
  by_cases hu : u = 1
  · subst hu
    simp only [openedState, Function.update_self, Option.some.injEq] at hb
    exact hb ▸ h
  · simp only [openedState, Function.update_of_ne hu] at hb
    cases hb

/-- Two calls of 60 under different keys from a balance of 100: the second one is recorded as a
failed charge. -/
def overdrawn : List Action :=
  [.start 0 "k0" sixty, .start 1 "k1" sixty, .op 0, .op 1, .tick 2000, .op 0, .op 1, .op 0, .op 0,
    .op 0, .op 0, .op 1, .op 1, .op 1, .op 1]

theorem books_balance_overdrawn :
    ∃ s, exec (step demoConfig) (openedState .redis 100) overdrawn = some s ∧
      s.accounts 1 = some (100 - spent 1 s.charges) := by
  obtain ⟨s, hs⟩ : ∃ s, exec (step demoConfig) (openedState .redis 100) overdrawn = some s :=
    ⟨_, rfl⟩
  exact ⟨s, hs, (books_balance _ (openedState_opened .redis (by decide)) (reach_of_exec _ hs)).1 1⟩

end AsyncDataHub.Payment
