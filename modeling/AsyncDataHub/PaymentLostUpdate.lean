import AsyncDataHub.PaymentBuggy

/-! What the buggy endpoint does to the books: an account may have been debited less than its
successful charges say, never more, and exactly if a charge came between a read and its COMMIT. -/
namespace AsyncDataHub.Payment
open StepSystem LockTable OwnedRows

variable {cfg : Config} {s t : Endpoints} {db db' : State} {c d : CallId} {call : BuggyCall}
  {accounts₀ : Uuid → Option ℤ} {u : Uuid} {balance : ℤ} {charge : Charge}

def succeededOf (u : Uuid) (charges : List Inserted) : List Inserted :=
  charges.filter fun i => i.row.customerId = u ∧ i.row.status = .succeeded

def BuggyCall.hasRead (call : BuggyCall) : Option (Uuid × ℤ) :=
  match call.pc with
  | .sleep u balance _ => some (u, balance)
  | .update u balance _ | .insert u balance _ => some (u, balance + call.data.amount)
  | .commit balance charge => some (charge.customerId, balance + call.data.amount)
  | _ => none

def BuggyCall.Ok (cfg : Config) (call : BuggyCall) : Prop :=
  match call.pc with
  | .sleep u balance _ =>
    cfg.uuidOf call.data.customerId = some u ∧ call.data.amount ≤ balance
  | .update u balance none | .insert u balance _ =>
    cfg.uuidOf call.data.customerId = some u ∧ 0 ≤ balance
  | .update u balance (some charge) =>
    charge.For cfg call.request ∧ charge.status = .succeeded ∧ charge.customerId = u ∧ 0 ≤ balance
  | .commit balance charge =>
    charge.For cfg call.request ∧ charge.status = .succeeded ∧ 0 ≤ balance
  | .insertFailed u => cfg.uuidOf call.data.customerId = some u
  | .commitFailed charge => charge.For cfg call.request ∧ charge.status = .failed
  | _ => True

def BuggyCall.Holds (db : State) (c : CallId) (call : BuggyCall) : Prop :=
  match call.pc with
  | .insert u _ true => db.accountLock u = some c
  | .update _ _ (some _) => db.indexLock call.key = some c ∧ succeededRows call.key db.charges = []
  | .commit _ charge => db.accountLock charge.customerId = some c ∧
      db.indexLock call.key = some c ∧ succeededRows call.key db.charges = []
  | _ => True

/-- A balance that was read is still there as long as the account has no new charge. -/
structure Saw (accounts₀ accounts : Uuid → Option ℤ) (seen charges : List Inserted) (u : Uuid)
    (balance : ℤ) : Prop where
  past : seen <+: charges
  owed : ∃ b₀, accounts₀ u = some b₀ ∧ b₀ ≤ balance + spent u seen
  current : spent u charges = spent u seen → accounts u = some balance

structure BuggyCall.Sound (cfg : Config) (accounts₀ : Uuid → Option ℤ) (db : State) (c : CallId)
    (call : BuggyCall) : Prop where
  ok : call.Ok cfg
  holds : call.Holds db c
  saw : ∀ u balance, call.hasRead = some (u, balance) →
    Saw accounts₀ db.accounts call.seen db.charges u balance

/-- The books of a database that was opened with the balances `accounts₀`. -/
structure Books (accounts₀ : Uuid → Option ℤ) (db : State) : Prop where
  nonneg : ∀ u b, db.accounts u = some b → 0 ≤ b
  unique : ∀ key, (succeededRows key db.charges).length ≤ 1
  positive : ∀ i ∈ db.charges, 0 < i.row.amount
  kept : ∀ u, db.accounts u = none ↔ accounts₀ u = none
  owed : ∀ u b₀ b, accounts₀ u = some b₀ → db.accounts u = some b → b₀ ≤ b + spent u db.charges

structure EndpointsInv (cfg : Config) (accounts₀ : Uuid → Option ℤ) (s : Endpoints) : Prop where
  books : Books accounts₀ s.base
  apart : ∀ c call, s.buggy c = some call → s.base.calls c = none
  ok : ∀ c call, s.base.calls c = some call → call.Ok cfg
  holds : ∀ c call, s.base.calls c = some call → call.Holds s.base c
  sound : ∀ c call, s.buggy c = some call → call.Sound cfg accounts₀ s.base c

lemma succeededOf_append (u : Uuid) (charges rest : List Inserted) :
    succeededOf u (charges ++ rest) = succeededOf u charges ++ succeededOf u rest :=
  List.filter_append ..

lemma spent_add (u : Uuid) (charges rest : List Inserted) :
    spent u (charges ++ rest) = spent u charges + spent u rest := by
  simp [spent]

lemma spent_nonneg {charges : List Inserted} (hpos : ∀ i ∈ charges, 0 < i.row.amount) (u : Uuid) :
    0 ≤ spent u charges := by
  refine List.sum_nonneg fun amount hmem => ?_
  obtain ⟨i, hi, rfl⟩ := List.mem_map.mp hmem
  exact (hpos i (List.mem_filter.mp hi).1).le

lemma spent_mono {seen charges : List Inserted} (hpos : ∀ i ∈ charges, 0 < i.row.amount)
    (h : seen <+: charges) (u : Uuid) : spent u seen ≤ spent u charges := by
  obtain ⟨rest, rfl⟩ := h
  have hrest := spent_nonneg (fun i hi => hpos i (List.mem_append_right seen hi)) u
  rw [spent_add]
  omega

lemma spent_eq_iff {seen charges : List Inserted} (hpos : ∀ i ∈ charges, 0 < i.row.amount)
    (h : seen <+: charges) (u : Uuid) :
    spent u charges = spent u seen ↔ succeededOf u charges = succeededOf u seen := by
  obtain ⟨rest, rfl⟩ := h
  rw [spent_add, succeededOf_append, add_eq_left, List.append_right_eq_self]
  constructor
  · intro hsum
    by_contra hne
    have hlt : 0 < spent u rest := by
      refine List.sum_pos _ (fun amount hmem => ?_) (by simpa [succeededOf] using hne)
      obtain ⟨i, hi, rfl⟩ := List.mem_map.mp hmem
      exact hpos i (List.mem_append_right seen (List.mem_filter.mp hi).1)
    omega
  · intro hnone
    change ((succeededOf u rest).map _).sum = 0
    rw [hnone]
    rfl

/-- What a statement of call `c` leaves alone: what others have locked, and the balance of each
account without a new charge. -/
structure Moves (c : CallId) (db db' : State) : Prop where
  grows : db.charges <+: db'.charges
  debited : ∀ u, spent u db'.charges = spent u db.charges → db'.accounts u = db.accounts u
  accountLock : ∀ d u, d ≠ c → db.accountLock u = some d →
    db'.accountLock u = some d ∧ db'.accounts u = db.accounts u
  indexLock : ∀ d key, d ≠ c → db.indexLock key = some d →
    db'.indexLock key = some d ∧ succeededRows key db'.charges = succeededRows key db.charges

lemma Moves.of_same (hacc : db'.accounts = db.accounts) (hrows : db'.charges = db.charges)
    (ha : ∀ d u, d ≠ c → db.accountLock u = some d → db'.accountLock u = some d)
    (hk : ∀ d key, d ≠ c → db.indexLock key = some d → db'.indexLock key = some d) :
    Moves c db db' where
  grows := hrows ▸ List.prefix_rfl
  debited u _ := by rw [hacc]
  accountLock d u hne hl := ⟨ha d u hne hl, by rw [hacc]⟩
  indexLock d key hne hl := ⟨hk d key hne hl, by rw [hrows]⟩

lemma Saw.moved {seen : List Inserted} (h : Saw accounts₀ db.accounts seen db.charges u balance)
    (hm : Moves c db db') (hpos : ∀ i ∈ db'.charges, 0 < i.row.amount) :
    Saw accounts₀ db'.accounts seen db'.charges u balance where
  past := h.past.trans hm.grows
  owed := h.owed
  current hsame := by
    have hpos' : ∀ i ∈ db.charges, 0 < i.row.amount := fun i hi => hpos i (hm.grows.subset hi)
    have hfirst := spent_mono hpos' h.past u
    have hsecond := spent_mono hpos hm.grows u
    rw [hm.debited u (by omega)]
    exact h.current (by omega)

lemma BuggyCall.Holds.moved (h : call.Holds db d) (hm : Moves c db db') (hne : d ≠ c) :
    call.Holds db' d := by
  unfold BuggyCall.Holds at *
  split at h
  · exact (hm.accountLock d _ hne h).1
  · obtain ⟨hl, hrows⟩ := h
    obtain ⟨hl', hrows'⟩ := hm.indexLock d _ hne hl
    exact ⟨hl', hrows' ▸ hrows⟩
  · obtain ⟨hacc, hl, hrows⟩ := h
    obtain ⟨hl', hrows'⟩ := hm.indexLock d _ hne hl
    exact ⟨(hm.accountLock d _ hne hacc).1, hl', hrows' ▸ hrows⟩
  · trivial

lemma BuggyCall.Sound.moved (h : call.Sound cfg accounts₀ db d) (hm : Moves c db db')
    (hb : Books accounts₀ db') (hne : d ≠ c) : call.Sound cfg accounts₀ db' d :=
  ⟨h.ok, h.holds.moved hm hne, fun u balance hread => (h.saw u balance hread).moved hm hb.positive⟩

structure Published (c : CallId) (balance : Option ℤ) (charge : Charge) (db db' : State) :
    Prop where
  accounts : db'.accounts = debit db.accounts balance charge
  charges : db'.charges = db.charges ++ [⟨c, charge⟩]
  accountLock : db'.accountLock = releaseAll db.accountLock c
  indexLock : db'.indexLock = releaseAll db.indexLock c

structure Ready (accounts₀ : Uuid → Option ℤ) (db : State) (c : CallId) (balance : ℤ)
    (charge : Charge) : Prop where
  status : charge.status = .succeeded
  amount : 0 < charge.amount
  account : db.accountLock charge.customerId = some c
  index : db.indexLock charge.idempotencyKey = some c
  fresh : succeededRows charge.idempotencyKey db.charges = []
  nonneg : 0 ≤ balance
  owed : ∃ b₀, accounts₀ charge.customerId = some b₀ ∧
    b₀ ≤ balance + charge.amount + spent charge.customerId db.charges

lemma Published.spent (h : Published c (some balance) charge db db')
    (hstatus : charge.status = .succeeded) (u : Uuid) :
    spent u db'.charges =
      Payment.spent u db.charges + if charge.customerId = u then charge.amount else 0 := by
  rw [h.charges, spent_append]
  simp [hstatus]

lemma Published.account (h : Published c (some balance) charge db db') :
    db'.accounts charge.customerId = some balance := by
  rw [h.accounts]
  exact Function.update_self ..

lemma Published.other (h : Published c (some balance) charge db db') (hu : u ≠ charge.customerId) :
    db'.accounts u = db.accounts u := by
  rw [h.accounts]
  exact Function.update_of_ne hu ..

lemma Ready.moves (h : Ready accounts₀ db c balance charge)
    (hp : Published c (some balance) charge db db') : Moves c db db' where
  grows := hp.charges ▸ List.prefix_append ..
  debited u hsame := by
    rw [hp.spent h.status] at hsame
    split_ifs at hsame with hu
    · have hamount := h.amount
      omega
    · exact hp.other (Ne.symm hu)
  accountLock d u hne hl := by
    refine ⟨hp.accountLock ▸ releaseAll_eq_some.mpr ⟨hl, hne⟩, hp.other ?_⟩
    rintro rfl
    exact hne (Option.some.inj (hl.symm.trans h.account))
  indexLock d key hne hl := by
    refine ⟨hp.indexLock ▸ releaseAll_eq_some.mpr ⟨hl, hne⟩, ?_⟩
    rw [hp.charges, succeededRows_append, if_neg, List.append_nil]
    rintro ⟨rfl, _⟩
    exact hne (Option.some.inj (hl.symm.trans h.index))

lemma Ready.books (h : Ready accounts₀ db c balance charge) (hb : Books accounts₀ db)
    (hp : Published c (some balance) charge db db') : Books accounts₀ db' where
  nonneg u b hrow := by
    by_cases hu : u = charge.customerId
    · subst hu
      obtain rfl := Option.some.inj (hp.account.symm.trans hrow)
      exact h.nonneg
    · exact hb.nonneg u b (hp.other hu ▸ hrow)
  unique key := by
    rw [hp.charges, succeededRows_append]
    split_ifs with hkey
    · rw [← hkey.1, h.fresh]
      simp
    · rw [List.append_nil]
      exact hb.unique key
  positive i hi := by
    rw [hp.charges, List.mem_append, List.mem_singleton] at hi
    rcases hi with hi | rfl
    · exact hb.positive i hi
    · exact h.amount
  kept u := by
    by_cases hu : u = charge.customerId
    · subst hu
      obtain ⟨b₀, hb₀, _⟩ := h.owed
      simp [hp.account, hb₀]
    · rw [hp.other hu]
      exact hb.kept u
  owed u b₀ b hb₀ hrow := by
    rw [hp.spent h.status]
    by_cases hu : u = charge.customerId
    · subst hu
      obtain ⟨b₁, hb₁, hle⟩ := h.owed
      obtain rfl := Option.some.inj (hb₁.symm.trans hb₀)
      obtain rfl := Option.some.inj (hp.account.symm.trans hrow)
      rw [if_pos rfl]
      omega
    · rw [if_neg (Ne.symm hu), add_zero]
      exact hb.owed u b₀ b hb₀ (hp.other hu ▸ hrow)

lemma Published.moves_failed (hp : Published c none charge db db')
    (hstatus : charge.status = .failed) : Moves c db db' where
  grows := hp.charges ▸ List.prefix_append ..
  debited u _ := by rw [hp.accounts]; rfl
  accountLock d u hne hl :=
    ⟨hp.accountLock ▸ releaseAll_eq_some.mpr ⟨hl, hne⟩, by rw [hp.accounts]; rfl⟩
  indexLock d key hne hl := by
    refine ⟨hp.indexLock ▸ releaseAll_eq_some.mpr ⟨hl, hne⟩, ?_⟩
    rw [hp.charges, succeededRows_append]
    simp [hstatus]

lemma Published.spent_failed (hp : Published c none charge db db')
    (hstatus : charge.status = .failed) (u : Uuid) :
    Payment.spent u db'.charges = Payment.spent u db.charges := by
  rw [hp.charges, spent_append]
  simp [hstatus]

lemma Published.books_failed (hp : Published c none charge db db') (hb : Books accounts₀ db)
    (hstatus : charge.status = .failed) (hamount : 0 < charge.amount) : Books accounts₀ db' where
  nonneg u b hrow := hb.nonneg u b (by rwa [hp.accounts] at hrow)
  unique key := by
    rw [hp.charges, succeededRows_append]
    simpa [hstatus] using hb.unique key
  positive i hi := by
    rw [hp.charges, List.mem_append, List.mem_singleton] at hi
    rcases hi with hi | rfl
    · exact hb.positive i hi
    · exact hamount
  kept u := by
    rw [hp.accounts]
    exact hb.kept u
  owed u b₀ b hb₀ hrow := by
    rw [hp.accounts] at hrow
    rw [hp.spent_failed hstatus]
    exact hb.owed u b₀ b hb₀ hrow

lemma Books.of_same (hb : Books accounts₀ db) (hacc : db'.accounts = db.accounts)
    (hrows : db'.charges = db.charges) : Books accounts₀ db' where
  nonneg u b hrow := hb.nonneg u b (hacc ▸ hrow)
  unique key := hrows ▸ hb.unique key
  positive i hi := hb.positive i (hrows ▸ hi)
  kept u := hacc ▸ hb.kept u
  owed u b₀ b hb₀ hrow := hrows ▸ hb.owed u b₀ b hb₀ (hacc ▸ hrow)

lemma ready_of_holds {call : Call} (hi : EndpointsInv cfg accounts₀ s)
    (hc : s.base.calls c = some call) (hpc : call.pc = .commit balance charge) :
    Ready accounts₀ s.base c balance charge := by
  have hok := hi.ok c call hc
  have hholds := hi.holds c call hc
  simp only [Call.Ok, hpc] at hok
  simp only [Call.Holds, hpc] at hholds
  obtain ⟨hfor, hstatus, hnonneg⟩ := hok
  obtain ⟨⟨hlock, hrow⟩, hindex, hfresh⟩ := hholds
  rw [← hfor.key] at hindex hfresh
  rw [← hfor.amount] at hrow
  refine ⟨hstatus, hfor.amount ▸ call.data.amount_pos, hlock, hindex, hfresh, hnonneg, ?_⟩
  cases hb₀ : accounts₀ charge.customerId with
  | none =>
    have hnone := (hi.books.kept charge.customerId).mpr hb₀
    rw [hrow] at hnone
    cases hnone
  | some b₀ => exact ⟨b₀, rfl, hi.books.owed _ b₀ _ hb₀ hrow⟩

lemma ready_of_sound (hs : call.Sound cfg accounts₀ db c) (hb : Books accounts₀ db)
    (hpc : call.pc = .commit balance charge) : Ready accounts₀ db c balance charge := by
  have hok := hs.ok
  have hholds := hs.holds
  simp only [BuggyCall.Ok, hpc] at hok
  simp only [BuggyCall.Holds, hpc] at hholds
  obtain ⟨hfor, hstatus, hnonneg⟩ := hok
  obtain ⟨hlock, hindex, hfresh⟩ := hholds
  have hkey : charge.idempotencyKey = call.key := hfor.key
  have hamount : charge.amount = call.data.amount := hfor.amount
  rw [← hkey] at hindex hfresh
  refine ⟨hstatus, hamount ▸ call.data.amount_pos, hlock, hindex, hfresh, hnonneg, ?_⟩
  obtain ⟨hpast, ⟨b₀, hb₀, howed⟩, _⟩ := hs.saw charge.customerId (balance + call.data.amount)
    (by simp [BuggyCall.hasRead, hpc])
  have hmono := spent_mono hb.positive hpast charge.customerId
  exact ⟨b₀, hb₀, by omega⟩

lemma EndpointsInv.move {call : Call} {eff : Effect} (hi : EndpointsInv cfg accounts₀ s)
    (hc : s.base.calls c = some call) (hm : Moves c s.base (s.base.apply cfg c call eff))
    (hb : Books accounts₀ (s.base.apply cfg c call eff))
    (hok : (eff.after cfg s.base.now call).Ok cfg)
    (hh : (eff.after cfg s.base.now call).Holds (s.base.apply cfg c call eff) c) :
    EndpointsInv cfg accounts₀ { s with base := s.base.apply cfg c call eff } where
  books := hb
  apart d call' hd := by
    have hnone := hi.apart d call' hd
    simp only [apply_calls]
    exact update_eq_none.mpr ⟨fun heq => by simp [heq, hc] at hnone, hnone⟩
  ok d call' hd := by
    simp only [apply_calls] at hd
    exact forall_update hi.ok hok d call' hd
  holds d call' hd := by
    simp only [apply_calls] at hd
    rcases update_eq_some.mp hd with ⟨rfl, rfl⟩ | ⟨hne, hd⟩
    · exact hh
    · exact (hi.holds d call' hd).of_locks (fun u hl => hm.accountLock d u hne hl)
        fun key hl => hm.indexLock d key hne hl
  sound d call' hd := by
    have hne : d ≠ c := by
      rintro rfl
      have hnone := hi.apart d call' hd
      simp [hc] at hnone
    exact (hi.sound d call' hd).moved hm hb hne

lemma on_calls (eff : BuggyEffect) (db : State) (c : CallId) (key : String) :
    (eff.on db c key).calls = db.calls := by
  cases eff <;> rfl

lemma EndpointsInv.moveBuggy {eff : BuggyEffect} (hi : EndpointsInv cfg accounts₀ s)
    (hc : s.buggy c = some call) (hm : Moves c s.base (eff.on s.base c call.key))
    (hb : Books accounts₀ (eff.on s.base c call.key))
    (hs : (eff.after cfg s.base.charges call).Sound cfg accounts₀ (eff.on s.base c call.key) c) :
    EndpointsInv cfg accounts₀ (s.apply cfg c call eff) where
  books := hb
  apart d call' hd := by
    change (eff.on s.base c call.key).calls d = none
    rw [on_calls]
    rcases update_eq_some.mp hd with ⟨rfl, _⟩ | ⟨_, hd⟩
    · exact hi.apart d call hc
    · exact hi.apart d call' hd
  ok d call' hd := by
    change (eff.on s.base c call.key).calls d = some call' at hd
    rw [on_calls] at hd
    exact hi.ok d call' hd
  holds d call' hd := by
    change (eff.on s.base c call.key).calls d = some call' at hd
    rw [on_calls] at hd
    have hne : d ≠ c := by
      rintro rfl
      have hnone := hi.apart d call hc
      simp [hd] at hnone
    exact (hi.holds d call' hd).of_locks (fun u hl => hm.accountLock d u hne hl)
      fun key hl => hm.indexLock d key hne hl
  sound d call' hd := by
    rcases update_eq_some.mp hd with ⟨rfl, rfl⟩ | ⟨hne, hd⟩
    · exact hs
    · exact (hi.sound d call' hd).moved hm hb hne

lemma published_apply {call : Call} {balance : Option ℤ} :
    Published c balance charge db (db.apply cfg c call (.publish balance charge)) :=
  ⟨rfl, rfl, rfl, rfl⟩

lemma published_on {balance : Option ℤ} {key : String} :
    Published c balance charge db ((BuggyEffect.publish balance charge).on db c key) :=
  ⟨rfl, rfl, rfl, rfl⟩

lemma endpointsInv_does {call : Call} {eff : Effect} (hi : EndpointsInv cfg accounts₀ s)
    (hc : s.base.calls c = some call) (h : Does cfg s.base c call eff) :
    EndpointsInv cfg accounts₀ { s with base := s.base.apply cfg c call eff } := by
  have hok := ok_of_does (hi.ok c call hc) h
  have hholds := holds_of_does (hi.holds c call hc) h
  have hrest (hacc : (s.base.apply cfg c call eff).accounts = s.base.accounts)
      (hrows : (s.base.apply cfg c call eff).charges = s.base.charges) :
      EndpointsInv cfg accounts₀ { s with base := s.base.apply cfg c call eff } :=
    hi.move hc (.of_same hacc hrows (fun _ _ hne hl => accountLock_of_does h hne hl)
      fun _ _ hne hl => indexLock_of_does h hne hl) (hi.books.of_same hacc hrows) hok hholds
  cases h with
  | commits hpc =>
    have hready := ready_of_holds hi hc hpc
    exact hi.move hc (hready.moves published_apply) (hready.books hi.books published_apply) hok
      hholds
  | commitsFailure hpc =>
    have hfailed := hi.ok c call hc
    simp only [Call.Ok, hpc] at hfailed
    obtain ⟨hfor, hstatus⟩ := hfailed
    exact hi.move hc (published_apply.moves_failed hstatus)
      (published_apply.books_failed hi.books hstatus (hfor.amount ▸ call.data.amount_pos)) hok
      hholds
  | _ => exact hrest rfl rfl

lemma endpointsInv_stops {call : Call} {eff : Effect} (hi : EndpointsInv cfg accounts₀ s)
    (hc : s.base.calls c = some call) (h : Stops call eff) :
    EndpointsInv cfg accounts₀ { s with base := s.base.apply cfg c call eff } := by
  cases h with
  | ends _ | fails _ _ =>
    exact hi.move hc (.of_same rfl rfl (fun _ _ hne hl => releaseAll_eq_some.mpr ⟨hl, hne⟩)
      fun _ _ hne hl => releaseAll_eq_some.mpr ⟨hl, hne⟩) (hi.books.of_same rfl rfl) trivial trivial
  | gives _ =>
    exact hi.move hc (.of_same rfl rfl (fun _ _ _ hl => hl) fun _ _ _ hl => hl)
      (hi.books.of_same rfl rfl) trivial trivial

lemma saw_of_read (hb : Books accounts₀ db) (hrow : db.accounts u = some balance) :
    Saw accounts₀ db.accounts db.charges db.charges u balance := by
  refine ⟨List.prefix_rfl, ?_, fun _ => hrow⟩
  cases hb₀ : accounts₀ u with
  | none =>
    have hnone := (hb.kept u).mpr hb₀
    rw [hrow] at hnone
    cases hnone
  | some b₀ => exact ⟨b₀, rfl, hb.owed u b₀ balance hb₀ hrow⟩

lemma buggyMoves {eff : BuggyEffect} (h : BuggyDoes cfg db c call eff)
    (hpublish : ∀ balance charge, eff ≠ .publish balance charge) :
    Moves c db (eff.on db c call.key) := by
  cases h with
  | updates _ hlock | updatesLast _ hlock =>
    exact .of_same rfl rfl (fun _ _ hne hl => take_eq_some_of_ne hlock hl hne) fun _ _ _ hl => hl
  | inserts _ _ hlock | insertsLast _ _ hlock =>
    exact .of_same rfl rfl (fun _ _ _ hl => hl) fun _ _ hne hl => take_eq_some_of_ne hlock hl hne
  | stops _ _ =>
    exact .of_same rfl rfl (fun _ _ hne hl => releaseAll_eq_some.mpr ⟨hl, hne⟩)
      fun _ _ hne hl => releaseAll_eq_some.mpr ⟨hl, hne⟩
  | commits _ | commitsFailure _ => exact absurd rfl (hpublish _ _)
  | reads _ _ _ _ | refuses _ _ | wakesToInsert _ | wakesToUpdate _ | recordsFailure _ =>
    exact .of_same rfl rfl (fun _ _ _ hl => hl) fun _ _ _ hl => hl

lemma sound_of_buggyDoes {eff : BuggyEffect} (hs : call.Sound cfg accounts₀ db c)
    (hb : Books accounts₀ db) (h : BuggyDoes cfg db c call eff)
    (hpublish : ∀ balance charge, eff ≠ .publish balance charge) :
    (eff.after cfg db.charges call).Sound cfg accounts₀ (eff.on db c call.key) c := by
  have hm := buggyMoves h hpublish
  obtain ⟨hok, hholds, hsaw⟩ := hs
  cases h with
  | reads hpc hcustomer hrow henough =>
    refine ⟨⟨hcustomer, henough⟩, trivial, fun u balance hread => ?_⟩
    cases hread
    exact saw_of_read hb hrow
  | refuses hpc hcustomer =>
    refine ⟨hcustomer, trivial, fun u balance hread => ?_⟩
    cases hread
  | @wakesToInsert u balance wake hpc | @wakesToUpdate u balance wake hpc =>
    simp only [BuggyCall.Ok, hpc] at hok
    refine ⟨⟨hok.1, by omega⟩, trivial, fun u' balance' hread => ?_⟩
    simp only [BuggyCall.hasRead, BuggyEffect.after, sub_add_cancel] at hread
    exact hsaw u' balance' (by simpa [BuggyCall.hasRead, hpc] using hread)
  | updates hpc hlock =>
    simp only [BuggyCall.Ok, hpc] at hok
    refine ⟨hok, take_self .., fun u balance hread => ?_⟩
    exact hsaw u balance (by simpa [BuggyCall.hasRead, BuggyEffect.after, hpc] using hread)
  | updatesLast hpc hlock =>
    simp only [BuggyCall.Ok, hpc] at hok
    simp only [BuggyCall.Holds, hpc] at hholds
    obtain ⟨hfor, hstatus, rfl, hnonneg⟩ := hok
    refine ⟨⟨hfor, hstatus, hnonneg⟩, ⟨take_self .., hholds⟩, fun u balance hread => ?_⟩
    exact hsaw u balance (by simpa [BuggyCall.hasRead, BuggyEffect.after, hpc] using hread)
  | inserts hpc hfresh hlock =>
    simp only [BuggyCall.Ok, hpc] at hok
    obtain ⟨hcustomer, hnonneg⟩ := hok
    refine ⟨⟨newCharge_for _ _ hcustomer, rfl, rfl, hnonneg⟩, ⟨take_self .., hfresh⟩,
      fun u balance hread => ?_⟩
    exact hsaw u balance (by simpa [BuggyCall.hasRead, BuggyEffect.after, hpc] using hread)
  | insertsLast hpc hfresh hlock =>
    simp only [BuggyCall.Ok, hpc] at hok
    simp only [BuggyCall.Holds, hpc] at hholds
    obtain ⟨hcustomer, hnonneg⟩ := hok
    refine ⟨⟨newCharge_for _ _ hcustomer, rfl, hnonneg⟩, ⟨hholds, take_self .., hfresh⟩,
      fun u balance hread => ?_⟩
    exact hsaw u balance (by
      simpa [BuggyCall.hasRead, BuggyEffect.after, newCharge, hpc] using hread)
  | recordsFailure hpc =>
    simp only [BuggyCall.Ok, hpc] at hok
    refine ⟨⟨newCharge_for _ _ hok, rfl⟩, trivial, fun u balance hread => ?_⟩
    cases hread
  | stops e hpc =>
    refine ⟨trivial, trivial, fun u balance hread => ?_⟩
    cases hread
  | commits _ | commitsFailure _ => exact absurd rfl (hpublish _ _)

lemma sound_done (o : Outcome) :
    BuggyCall.Sound cfg accounts₀ db c { call with pc := .done o } := by
  refine ⟨trivial, trivial, fun u balance hread => ?_⟩
  cases hread

lemma endpointsInv_buggy {eff : BuggyEffect} (hi : EndpointsInv cfg accounts₀ s)
    (hc : s.buggy c = some call) (h : BuggyDoes cfg s.base c call eff) :
    EndpointsInv cfg accounts₀ (s.apply cfg c call eff) := by
  have hs := hi.sound c call hc
  have hrest (hpublish : ∀ balance charge, eff ≠ .publish balance charge)
      (hacc : (eff.on s.base c call.key).accounts = s.base.accounts)
      (hrows : (eff.on s.base c call.key).charges = s.base.charges) :
      EndpointsInv cfg accounts₀ (s.apply cfg c call eff) :=
    hi.moveBuggy hc (buggyMoves h hpublish) (hi.books.of_same hacc hrows)
      (sound_of_buggyDoes hs hi.books h hpublish)
  cases h with
  | commits hpc =>
    have hready := ready_of_sound hs hi.books hpc
    exact hi.moveBuggy hc (hready.moves published_on) (hready.books hi.books published_on)
      (sound_done _)
  | commitsFailure hpc =>
    have hok := hs.ok
    simp only [BuggyCall.Ok, hpc] at hok
    obtain ⟨hfor, hstatus⟩ := hok
    exact hi.moveBuggy hc (published_on.moves_failed hstatus)
      (published_on.books_failed hi.books hstatus (hfor.amount ▸ call.data.amount_pos))
      (sound_done _)
  | _ => exact hrest (by simp) rfl rfl

theorem endpointsInv_step {a : EndpointAction} (h : s.step cfg a = some t)
    (hi : EndpointsInv cfg accounts₀ s) : EndpointsInv cfg accounts₀ t := by
  cases endpointTook_of_step h with
  | @starts c key data hfresh hfree =>
    obtain ⟨hbooks, hapart, hok, hholds, hsound⟩ := hi
    refine ⟨hbooks.of_same rfl rfl, fun d call hd => ?_, forall_update hok trivial,
      forall_update hholds trivial, fun d call hd => ?_⟩
    · refine update_eq_none.mpr ⟨?_, hapart d call hd⟩
      rintro rfl
      simp [hfree] at hd
    · obtain ⟨hok', hholds', hsaw⟩ := hsound d call hd
      exact ⟨hok', hholds', hsaw⟩
  | does hc hdoes => exact endpointsInv_does hi hc hdoes
  | stops hc hstops => exact endpointsInv_stops hi hc hstops
  | ticks n =>
    obtain ⟨hbooks, hapart, hok, hholds, hsound⟩ := hi
    refine ⟨hbooks.of_same rfl rfl, hapart, hok, hholds, fun d call hd => ?_⟩
    obtain ⟨hok', hholds', hsaw⟩ := hsound d call hd
    exact ⟨hok', hholds', hsaw⟩
  | startsBuggy hfresh hfree =>
    refine ⟨hi.books, fun d call hd => ?_, hi.ok, hi.holds, forall_update hi.sound ?_⟩
    · rcases update_eq_some.mp hd with ⟨rfl, _⟩ | ⟨_, hd⟩
      · exact hfresh
      · exact hi.apart d call hd
    · refine ⟨trivial, trivial, fun u balance hread => ?_⟩
      cases hread
  | doesBuggy hc hdoes => exact endpointsInv_buggy hi hc hdoes
  | stopsBuggy e hc =>
    exact hi.moveBuggy hc (.of_same rfl rfl (fun _ _ hne hl => releaseAll_eq_some.mpr ⟨hl, hne⟩)
      fun _ _ hne hl => releaseAll_eq_some.mpr ⟨hl, hne⟩) (hi.books.of_same rfl rfl) (sound_done _)

/-- The balance is the one that the account was opened with, less its successful charges. -/
def Balanced (u : Uuid) (b₀ : ℤ) (db : State) : Prop :=
  db.accounts u = some (b₀ - spent u db.charges)

/-- The step is no COMMIT of the buggy endpoint for an account that has got a successful charge
since its balance was read. -/
def KeepsBooks (u : Uuid) (s : Endpoints) : EndpointAction → Prop
  | .op c => ∀ call balance charge, s.buggy c = some call → call.pc = .commit balance charge →
      charge.customerId = u → succeededOf u s.base.charges = succeededOf u call.seen
  | _ => True

lemma balanced_congr (hacc : db'.accounts u = db.accounts u)
    (hspent : spent u db'.charges = spent u db.charges) {b₀ : ℤ} :
    Balanced u b₀ db' ↔ Balanced u b₀ db := by
  rw [Balanced, Balanced, hacc, hspent]

lemma balanced_other {b₀ : ℤ} (h : Published c (some balance) charge db db')
    (hstatus : charge.status = .succeeded) (hu : u ≠ charge.customerId) :
    Balanced u b₀ db' ↔ Balanced u b₀ db := by
  refine balanced_congr (h.other hu) ?_
  rw [h.spent hstatus, if_neg (Ne.symm hu), add_zero]

lemma balanced_does {call : Call} {eff : Effect} {b₀ : ℤ} (hi : EndpointsInv cfg accounts₀ s)
    (hc : s.base.calls c = some call) (h : Does cfg s.base c call eff) :
    Balanced u b₀ (s.base.apply cfg c call eff) ↔ Balanced u b₀ s.base := by
  cases h with
  | @commits balance charge hpc =>
    have hready := ready_of_holds hi hc hpc
    have hp : Published c (some balance) charge s.base
        (s.base.apply cfg c call (.publish (some balance) charge)) := published_apply
    by_cases hu : u = charge.customerId
    · subst hu
      have hok := hi.ok c call hc
      have hholds := hi.holds c call hc
      simp only [Call.Ok, hpc] at hok
      simp only [Call.Holds, hpc] at hholds
      have hamount := hok.1.amount
      rw [Balanced, Balanced, hp.account, hp.spent hready.status, hholds.1.2, if_pos rfl,
        Option.some.injEq, Option.some.injEq]
      omega
    · exact balanced_other hp hready.status hu
  | @commitsFailure charge hpc =>
    have hok := hi.ok c call hc
    simp only [Call.Ok, hpc] at hok
    have hp : Published c none charge s.base (s.base.apply cfg c call (.publish none charge)) :=
      published_apply
    rw [Balanced, Balanced, hp.spent_failed hok.2, hp.accounts]
    exact Iff.rfl
  | _ => exact balanced_congr rfl rfl

/-- The COMMIT of the buggy endpoint overwrites what has been debited since the read. -/
lemma balanced_commit {b₀ : ℤ} (hi : EndpointsInv cfg accounts₀ s) (hc : s.buggy c = some call)
    (hpc : call.pc = .commit balance charge) (hb₀ : accounts₀ charge.customerId = some b₀)
    (hp : Published c (some balance) charge s.base db') :
    Balanced charge.customerId b₀ db' ↔ Balanced charge.customerId b₀ s.base ∧
      succeededOf charge.customerId s.base.charges =
        succeededOf charge.customerId call.seen := by
  have hs := hi.sound c call hc
  have hready := ready_of_sound hs hi.books hpc
  have hok := hs.ok
  simp only [BuggyCall.Ok, hpc] at hok
  have hamount : charge.amount = call.data.amount := hok.1.amount
  obtain ⟨hpast, ⟨b₁, hb₁, howed⟩, hcurrent⟩ := hs.saw charge.customerId
    (balance + call.data.amount) (by simp [BuggyCall.hasRead, hpc])
  obtain rfl := Option.some.inj (hb₀.symm.trans hb₁)
  have hmono := spent_mono hi.books.positive hpast charge.customerId
  rw [← spent_eq_iff hi.books.positive hpast, Balanced, Balanced, hp.account,
    hp.spent hready.status, if_pos rfl, Option.some.injEq]
  constructor
  · intro hnew
    have hsame : spent charge.customerId s.base.charges = spent charge.customerId call.seen := by
      omega
    refine ⟨?_, hsame⟩
    rw [hcurrent hsame, Option.some.injEq]
    omega
  · rintro ⟨hold, hsame⟩
    rw [hcurrent hsame, Option.some.injEq] at hold
    omega

lemma keepsBooks_of_pc (hc : s.buggy c = some call)
    (hpc : ∀ balance charge, call.pc ≠ .commit balance charge) : KeepsBooks u s (.op c) := by
  intro call' balance charge hc' hpc'
  obtain rfl := Option.some.inj (hc.symm.trans hc')
  exact absurd hpc' (hpc balance charge)

lemma balanced_buggy {eff : BuggyEffect} {b₀ : ℤ} (hi : EndpointsInv cfg accounts₀ s)
    (hu : accounts₀ u = some b₀) (hc : s.buggy c = some call)
    (h : BuggyDoes cfg s.base c call eff) :
    Balanced u b₀ (eff.on s.base c call.key) ↔
      Balanced u b₀ s.base ∧ KeepsBooks u s (.op c) := by
  have hrest (hpc : ∀ balance charge, call.pc ≠ .commit balance charge)
      (hacc : (eff.on s.base c call.key).accounts u = s.base.accounts u)
      (hspent : spent u (eff.on s.base c call.key).charges = spent u s.base.charges) :
      Balanced u b₀ (eff.on s.base c call.key) ↔
        Balanced u b₀ s.base ∧ KeepsBooks u s (.op c) := by
    rw [balanced_congr hacc hspent, and_iff_left (keepsBooks_of_pc hc hpc)]
  cases h with
  | @commits balance charge hpc =>
    have hready := ready_of_sound (hi.sound c call hc) hi.books hpc
    by_cases hcustomer : u = charge.customerId
    · subst hcustomer
      rw [balanced_commit hi hc hpc hu published_on, and_congr_right_iff]
      refine fun _ => ⟨fun hsame call' balance' charge' hc' _ _ => ?_, fun hkeeps => ?_⟩
      · obtain rfl := Option.some.inj (hc.symm.trans hc')
        exact hsame
      · exact hkeeps call balance charge hc hpc rfl
    · rw [balanced_other published_on hready.status hcustomer, iff_self_and]
      intro _ call' balance' charge' hc' hpc' hu'
      obtain rfl := Option.some.inj (hc.symm.trans hc')
      rw [hpc, BuggyPc.commit.injEq] at hpc'
      exact absurd (hpc'.2 ▸ hu'.symm) hcustomer
  | commitsFailure hpc =>
    have hok := (hi.sound c call hc).ok
    simp only [BuggyCall.Ok, hpc] at hok
    exact hrest (by simp [hpc]) rfl (published_on.spent_failed hok.2 u)
  | stops e hpc => exact hrest hpc rfl rfl
  | reads hpc _ _ _ | refuses hpc _ | wakesToInsert hpc | wakesToUpdate hpc | updates hpc _
  | updatesLast hpc _ | inserts hpc _ _ | insertsLast hpc _ _ | recordsFailure hpc =>
    exact hrest (by simp [hpc]) rfl rfl

theorem balanced_step {a : EndpointAction} {b₀ : ℤ} (h : s.step cfg a = some t)
    (hi : EndpointsInv cfg accounts₀ s) (hu : accounts₀ u = some b₀) :
    Balanced u b₀ t.base ↔ Balanced u b₀ s.base ∧ KeepsBooks u s a := by
  cases endpointTook_of_step h with
  | doesBuggy hc hdoes => exact balanced_buggy hi hu hc hdoes
  | does hc hdoes => exact (balanced_does hi hc hdoes).trans (and_iff_left trivial).symm
  | stops hc hstops =>
    refine Iff.trans ?_ (and_iff_left trivial).symm
    cases hstops <;> exact balanced_congr rfl rfl
  | starts _ _ | ticks _ | startsBuggy _ _ | stopsBuggy _ _ =>
    exact (balanced_congr rfl rfl).trans (and_iff_left trivial).symm

lemma Opened.books (h : Opened db) : Books db.accounts db where
  nonneg := h.balances
  unique key := by simp [h.noCharges, succeededRows]
  positive := by simp [h.noCharges]
  kept u := Iff.rfl
  owed u b₀ b hb₀ hb := by
    obtain rfl := Option.some.inj (hb₀.symm.trans hb)
    simp [h.noCharges, spent]

lemma Opened.endpointsInv (h : Opened s.base) (hidle : ∀ c, s.buggy c = none) :
    EndpointsInv cfg s.base.accounts s where
  books := h.books
  apart c call hc := by simp [hidle c] at hc
  ok c call hc := by simp [h.idle c] at hc
  holds c call hc := by simp [h.idle c] at hc
  sound c call hc := by simp [hidle c] at hc

/-- Whatever calls of both endpoints do, no key has two successful charges, no balance is negative,
and an account has never been debited more than its successful charges say. It has been debited less
exactly if the buggy endpoint has written back a balance that was no longer there. -/
theorem debits_recorded (cfg : Config) {s₀ s : Endpoints} (h₀ : Opened s₀.base)
    (hidle : ∀ c, s₀.buggy c = none) {acts : List EndpointAction}
    (h : exec (Endpoints.step cfg) s₀ acts = some s) :
    (∀ key, (succeededRows key s.base.charges).length ≤ 1) ∧
    ∀ u b₀, s₀.base.accounts u = some b₀ →
      ∃ b, s.base.accounts u = some b ∧ 0 ≤ b ∧ b₀ ≤ b + spent u s.base.charges ∧
        (b₀ = b + spent u s.base.charges ↔
          Guarded (Endpoints.step cfg) (KeepsBooks u) s₀ acts) := by
  have hi₀ : EndpointsInv cfg s₀.base.accounts s₀ := h₀.endpointsInv hidle
  have hi : EndpointsInv cfg s₀.base.accounts s :=
    (reach_of_exec acts h).invariant hi₀ fun _ _ _ hi _ ht => endpointsInv_step ht hi
  refine ⟨hi.books.unique, fun u b₀ hu => ?_⟩
  cases hb : s.base.accounts u with
  | none =>
    have hnone := (hi.books.kept u).mp hb
    simp [hu] at hnone
  | some b =>
    refine ⟨b, rfl, hi.books.nonneg u b hb, hi.books.owed u b₀ b hu hb, ?_⟩
    have hstart : Balanced u b₀ s₀.base := by simp [Balanced, hu, h₀.noCharges, spent]
    have hrun : Balanced u b₀ s.base ↔
        Balanced u b₀ s₀.base ∧ Guarded (Endpoints.step cfg) (KeepsBooks u) s₀ acts :=
      iff_guarded_of_exec (fun _ _ _ hi ht => endpointsInv_step ht hi)
        (fun _ _ _ hi ht => balanced_step ht hi hu) hi₀ h
    rw [and_iff_right hstart, Balanced, hb, Option.some.injEq] at hrun
    rw [← hrun]
    constructor
    · intro heq
      omega
    · intro heq
      omega

/-- Two charges of 60 from a balance of 100, each with a key of its own: both succeed. -/
def bothSucceed : List EndpointAction :=
  [.start 0 "k0" sixty "replay" false, .start 1 "k1" sixty "replay" true, .op 0, .op 1,
    .idempotent (.tick 2000), .op 0, .op 0, .op 0, .op 0, .op 1, .op 1, .op 1, .op 1]

def openedEndpoints : Endpoints where
  base := openedState .redis 100
  buggy := fun _ => none

theorem debits_recorded_bothSucceed :
    ∃ s, exec (Endpoints.step demoConfig) openedEndpoints bothSucceed = some s ∧
      s.base.accounts 1 = some 40 ∧ spent 1 s.base.charges = 120 ∧
      ¬ Guarded (Endpoints.step demoConfig) (KeepsBooks 1) openedEndpoints bothSucceed := by
  have hrun : (exec (Endpoints.step demoConfig) openedEndpoints bothSucceed).map
      (fun s => (s.base.accounts 1, spent 1 s.base.charges)) = some (some 40, 120) := by
    decide +kernel
  obtain ⟨s, hs, hbooks⟩ := Option.map_eq_some_iff.mp hrun
  obtain ⟨hbalance, hspent⟩ := Prod.mk.inj hbooks
  obtain ⟨b, hb, _, _, hiff⟩ := (debits_recorded demoConfig
    (openedState_opened .redis (by decide)) (fun _ => rfl) hs).2 1 100 rfl
  obtain rfl := Option.some.inj (hbalance.symm.trans hb)
  refine ⟨s, hs, hbalance, hspent, fun hguard => ?_⟩
  have hbalanced := hiff.mpr hguard
  omega

end AsyncDataHub.Payment
