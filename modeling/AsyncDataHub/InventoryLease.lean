import AsyncDataHub.InventoryLedger
import AsyncDataHub.InventoryPending

/-! Reservations under the Redis lock. The row written back is computed from a read, so all rests on
nobody else having had the lock between the read and the COMMIT; nothing makes a call whose lease
has run out stop. -/
namespace AsyncDataHub.Inventory
open StepSystem LockTable ExpiringStore Cache Lock PyJson

variable {cfg : Config} {s t : State} {a : Action} {pid : Uuid} {text : String} {S : ℤ}

/-- Reservations on the product are locked ones, and name it by the same text; other products are
not restricted. -/
def OnlyLocked (cfg : Config) (pid : Uuid) (text : String) (_ : State) : Action → Prop
  | .start _ productId _ strategy =>
    cfg.uuidOf productId = some pid → strategy = .locked ∧ productId = text
  | _ => True

/-- The lock entry has the token of the call: nobody else has acquired the lock since. -/
def Holds (cfg : Config) (s : State) (c : CallId) (call : Call) : Prop :=
  ∃ e, s.cache.store (lockOf cfg c call).lockName = some e ∧ e.value = .str (cfg.tokenHex c)

/-- A call that commits a write to the product still holds the lock. -/
def CommitsAsHolder (cfg : Config) (pid : Uuid) (s : State) : Action → Prop
  | .op c => ∀ call w r, s.calls c = some call → call.pc = .commit w r → w.product = pid →
      Holds cfg s c call
  | _ => True

/-- As long as a call holds the lock, the stock it has read is the stock that the product has. -/
def Call.Fresh (cfg : Config) (pid : Uuid) (s : State) (c : CallId) (call : Call) : Prop :=
  cfg.uuidOf call.productId = some pid → Holds cfg s c call →
    match call.pc with
    | .update _ stock _ => ∃ p, s.products pid = some p ∧ p.stock = stock
    | .record w | .commit w _ => ∃ p, s.products pid = some p ∧ p.stock = w.base
    | _ => True

structure LeaseInv (cfg : Config) (pid : Uuid) (text : String) (S : ℤ) (s : State) : Prop where
  locked : ∀ c call, s.calls c = some call → cfg.uuidOf call.productId = some pid →
    call.strategy = .locked ∧ call.productId = text
  fresh : ∀ c call, s.calls c = some call → call.Fresh cfg pid s c
  conserved : Conserved pid S s

lemma fresh_end {c : CallId} (call : Call) {o : Outcome} {pc : Pc}
    (h : pc = .release o ∨ pc = .done o) : Call.Fresh cfg pid s c { call with pc } := by
  intro _ _
  rcases h with rfl | rfl <;> trivial

lemma fresh_startPc {c : CallId} {productId : String} {q : ℤ} {strategy : ReserveStrategy}
    {now : ℕ} : Call.Fresh cfg pid s c ⟨productId, q, strategy, startPc cfg now strategy⟩ := by
  intro _ _
  cases strategy <;> simp only [startPc]
  case optimistic => split_ifs <;> trivial

/-- A token gets into the cache only by its own call. -/
lemma token_of_does {c d : CallId} {call : Call} {eff : Effect} {name : String} {e : Entry Json}
    (htoken : Function.Injective cfg.tokenHex) (hdoes : Does cfg s c call eff) (hne : d ≠ c)
    (he : (s.apply c call eff).cache.store name = some e) (hv : e.value = .str (cfg.tokenHex d)) :
    s.cache.store name = some e := by
  cases hdoes with
  | @acquires deadline cache _ hpoll =>
    have he' : cache.store name = some e := he
    rw [(poll_eq_true hpoll).2, write_store] at he'
    by_cases hname : name = (lockOf cfg c call).lockName
    · rw [hname, put_self, Option.some.injEq] at he'
      rw [← he'] at hv
      exact absurd (htoken (Json.str.inj hv)).symm hne
    · rwa [put_of_ne _ hname] at he'
  | @releases o o' cache r _ hrel _ =>
    have he' : cache.store name = some e := he
    rcases cache_of_release hrel with hsame | ⟨_, hdel⟩
    · rwa [hsame] at he'
    · rw [hdel, delete_store] at he'
      by_cases hname : name = (lockOf cfg c call).lockName
      · rw [hname, erase_self] at he'
        cases he'
      · rwa [erase_of_ne _ hname] at he'
  | _ => exact he

lemma fresh_of_does {c : CallId} {call : Call} {eff : Effect} (hf : call.Fresh cfg pid s c)
    (hl : cfg.uuidOf call.productId = some pid → call.strategy = .locked)
    (hdoes : Does cfg s c call eff) :
    Call.Fresh cfg pid (s.apply c call eff) c { call with pc := eff.pc call } := by
  intro hpid hholds
  have hpid' : cfg.uuidOf call.productId = some pid := hpid
  have hsame {u : Uuid} (hu : cfg.uuidOf call.productId = some u) : u = pid := by
    rw [hpid', Option.some.injEq] at hu
    exact hu.symm
  have hstrat := hl hpid'
  cases hdoes with
  | fails e _ => exact fresh_end call (exit_eq call _) hpid hholds
  | publishes _ => exact fresh_end call (exit_eq call _) hpid hholds
  | reads _ hu hrow _ _ =>
    obtain rfl := hsame hu
    exact ⟨_, hrow, rfl⟩
  | readsForUpdate _ _ _ _ hpess _ =>
    rw [hstrat] at hpess
    cases hpess
  | overwrites hpc _ _ _ _ =>
    have hf' := hf hpid' hholds
    simp only [hpc] at hf'
    exact hf'
  | swaps _ _ _ hopt _ =>
    rw [hstrat] at hopt
    cases hopt
  | decrements _ _ _ _ hatomic _ =>
    rw [hstrat] at hatomic
    cases hatomic
  | records hpc =>
    have hf' := hf hpid' hholds
    simp only [hpc] at hf'
    exact hf'
  | _ => trivial

lemma Call.Fresh.congr {d : CallId} {call : Call} (hf : call.Fresh cfg pid s d)
    (hholds : Holds cfg t d call → Holds cfg s d call)
    (hrow : Holds cfg t d call → t.products pid = s.products pid) : call.Fresh cfg pid t d := by
  intro hpid hh
  have hf' := hf hpid (hholds hh)
  rw [hrow hh]
  exact hf'

lemma not_holds_of_commit {c d : CallId} {call call' : Call} {w : Write} {r : ProductReservation}
    (htoken : Function.Injective cfg.tokenHex) (hok : CallsOk cfg s)
    (hi : LeaseInv cfg pid text S s) (hg : CommitsAsHolder cfg pid s (.op c))
    (hc : s.calls c = some call) (hpc : call.pc = .commit w r) (hw : w.product = pid)
    (hd : s.calls d = some call') (hpid : cfg.uuidOf call'.productId = some pid) (hne : d ≠ c) :
    ¬ Holds cfg s d call' := by
  rintro ⟨e', he', hv'⟩
  obtain ⟨e, he, hv⟩ := hg call w r hc hpc hw
  have hasked := hok c call hc
  simp only [Call.Ok, hpc] at hasked
  obtain ⟨⟨hu, _⟩, hprod, _⟩ := hasked
  have hpid' : cfg.uuidOf call.productId = some pid := by rw [hu, hprod, hw]
  have hname : (lockOf cfg d call').lockName = (lockOf cfg c call).lockName := by
    simp only [lockOf, (hi.locked c call hc hpid').2, (hi.locked d call' hd hpid).2]
  rw [hname, he, Option.some.injEq] at he'
  rw [← he', hv] at hv'
  exact hne (htoken (Json.str.inj hv')).symm

lemma fresh_step (htoken : Function.Injective cfg.tokenHex) (hok : CallsOk cfg s)
    (hi : LeaseInv cfg pid text S s) (hg : CommitsAsHolder cfg pid s a)
    (h : step cfg s a = some t) :
    ∀ d call', t.calls d = some call' → call'.Fresh cfg pid t d := by
  intro d call' hd
  cases took_of_step h with
  | start _ =>
    rcases update_eq_some.mp hd with ⟨_, rfl⟩ | ⟨_, hd⟩
    · exact fresh_startPc
    · exact hi.fresh d call' hd
  | @op c call eff hc hdoes =>
    rw [apply_calls] at hd
    rcases update_eq_some.mp hd with ⟨rfl, rfl⟩ | ⟨hne, hd'⟩
    · exact fresh_of_does (hi.fresh d call hc) (fun hp => (hi.locked d call hc hp).1) hdoes
    · have hholds : Holds cfg (s.apply c call eff) d call' → Holds cfg s d call' := by
        rintro ⟨e, he, hv⟩
        exact ⟨e, token_of_does htoken hdoes hne he hv, hv⟩
      intro hpid
      refine (hi.fresh d call' hd').congr hholds (fun hh => ?_) hpid
      cases hdoes with
      | @publishes w r hpc =>
        have hw : pid ≠ w.product := fun hw =>
          not_holds_of_commit htoken hok hi hg hc hpc hw.symm hd' hpid hne (hholds hh)
        exact Function.update_of_ne hw _ _
      | _ => rfl
  | @abort c call eff hc heff =>
    rw [apply_calls] at hd
    rcases abortEffect_cases heff with ⟨_, e, rfl⟩ | ⟨_, e, rfl⟩
    · rcases update_eq_some.mp hd with ⟨_, rfl⟩ | ⟨_, hd⟩
      · exact fresh_end _ (exit_eq call _)
      · exact hi.fresh d call' hd
    · rcases update_eq_some.mp hd with ⟨_, rfl⟩ | ⟨_, hd⟩
      · exact fresh_end _ (.inr rfl)
      · exact hi.fresh d call' hd
  | crash _ _ =>
    rcases update_eq_some.mp hd with ⟨_, rfl⟩ | ⟨_, hd⟩
    · exact fresh_end _ (.inr rfl)
    · exact hi.fresh d call' hd
  | tick _ => exact hi.fresh d call' hd

theorem leaseInv_step (htoken : Function.Injective cfg.tokenHex) (hok : CallsOk cfg s)
    (hi : LeaseInv cfg pid text S s)
    (hg : OnlyLocked cfg pid text s a ∧ CommitsAsHolder cfg pid s a)
    (h : step cfg s a = some t) : LeaseInv cfg pid text S t := by
  refine ⟨fun d call' hd hpid => ?_, fresh_step htoken hok hi hg.2 h, ?_⟩
  · rcases call_of_step h hd with ⟨call, hc, hid, hstrat⟩ | ⟨req, rfl⟩
    · rw [hstrat, hid]
      exact hi.locked d call hc (hid ▸ hpid)
    · exact hg.1 hpid
  · refine (conserved_step_iff a hok hi.conserved h).mpr ?_
    cases a with
    | op c =>
      intro call w r hc hpc hw
      have hasked := hok c call hc
      simp only [Call.Ok, hpc] at hasked
      obtain ⟨⟨hu, _⟩, hprod, _⟩ := hasked
      have hpid : cfg.uuidOf call.productId = some pid := by rw [hu, hprod, hw]
      have hf := hi.fresh c call hc hpid (hg.2 call w r hc hpc hw)
      simp only [hpc] at hf
      exact hf
    | _ => trivial

/-- Locked reservations balance the ledger of a product exactly if every COMMIT writes what was
computed from the stock that the product still has; and they do so if every call still holds the
lock when it commits, and all name the product by one text. -/
theorem locked_reservations_balanced (cfg : Config) (htoken : Function.Injective cfg.tokenHex)
    {pid : Uuid} {req : ProductRequest} {s : State} (hs : Created pid req s)
    (acts : List Action) :
    (Along (step cfg) (Conserved pid req.stock) s acts ↔
      Guarded (step cfg) (UpToDate pid) s acts) ∧
    ∀ text, Guarded (step cfg)
        (fun s a => OnlyLocked cfg pid text s a ∧ CommitsAsHolder cfg pid s a) s acts →
      Along (step cfg) (Conserved pid req.stock) s acts := by
  refine ⟨?_, fun text hg => along_of_guarded (fun t ht => ?_) acts hg⟩
  · exact along_iff_guarded (fun _ _ _ hok h => callsOk_step h hok)
      (fun _ a _ hok hp h => conserved_step_iff a hok hp h) acts hs.callsOk hs.conserved
  · have hinv : CallsOk cfg t ∧ LeaseInv cfg pid text req.stock t := by
      refine ht.invariant (I := fun u => CallsOk cfg u ∧ LeaseInv cfg pid text req.stock u)
        ⟨hs.callsOk, ?_, ?_, hs.conserved⟩
        fun _ _ _ hi hg hu => ⟨callsOk_step hu hi.1, leaseInv_step htoken hi.1 hi.2 hg hu⟩
      all_goals
        intro c call hc
        rw [hs.idle c] at hc
        cases hc
    exact hinv.2.conserved

lemma widgetConfig_tokens : Function.Injective widgetConfig.tokenHex := by
  intro c d h
  have hc : (toString c).toNat? = some c := Nat.toNat?_repr c
  have hd : (toString d).toNat? = some d := Nat.toNat?_repr d
  have h' : toString c = toString d := h
  rw [h', hd] at hc
  exact (Option.some.inj hc).symm

lemma asHolder_of_pc {c : CallId} (pc : Pc) (hc : (s.calls c).map Call.pc = some pc)
    (hne : ∀ w r, pc ≠ .commit w r) :
    OnlyLocked cfg pid text s (.op c) ∧ CommitsAsHolder cfg pid s (.op c) := by
  refine ⟨trivial, fun call w r hcall hpc _ => ?_⟩
  rw [hcall, Option.map_some, Option.some.injEq] at hc
  exact absurd (hc.symm.trans hpc) (hne w r)

/-- Call 1 asks for the lock while call 0 has it, and gets it when call 0 has left. -/
def lockedInTurn : List Action :=
  [.start 0 widgetId threeUnits .locked, .start 1 widgetId fourUnits .locked, .op 0, .op 1, .op 0,
    .op 0, .op 0, .op 0, .op 0, .op 1]

theorem locked_reservations_balanced_lockedInTurn :
    Along (step widgetConfig) (Conserved 1 10) widgetState lockedInTurn := by
  have hguard : Guarded (step widgetConfig)
      (fun s a => OnlyLocked widgetConfig 1 widgetId s a ∧ CommitsAsHolder widgetConfig 1 s a)
      widgetState lockedInTurn :=
    .cons rfl ⟨fun _ => ⟨rfl, rfl⟩, trivial⟩ <| .cons rfl ⟨fun _ => ⟨rfl, rfl⟩, trivial⟩ <|
    .cons rfl (asHolder_of_pc (.acquire 5000) rfl (by simp)) <|
    .cons rfl (asHolder_of_pc (.acquire 5000) rfl (by simp)) <|
    .cons rfl (asHolder_of_pc (.select 0) rfl (by simp)) <|
    .cons rfl (asHolder_of_pc (.update 0 10 1) rfl (by simp)) <|
    .cons rfl (asHolder_of_pc (.record ⟨1, 10, ⟨"widget", 7, 1⟩⟩) rfl (by simp)) <|
    .cons rfl ⟨trivial, fun _ _ _ hc _ _ => ⟨_, by cases hc; rfl, rfl⟩⟩ <|
    .cons rfl (asHolder_of_pc (.release (.returned ⟨2, 1, 3, 0⟩)) rfl (by simp)) <|
    .cons rfl (asHolder_of_pc (.acquire 5000) rfl (by simp)) trivial
  exact (locked_reservations_balanced widgetConfig widgetConfig_tokens widgetState_created
    lockedInTurn).2 widgetId hguard

/-- Call 0 has read ten units when its lease runs out; call 1 gets the lock and takes four; call 0
then writes 10 - 3. -/
def leaseRunOut : List Action :=
  [.start 0 widgetId threeUnits .locked, .op 0, .op 0, .tick 50001,
    .start 1 widgetId fourUnits .locked, .op 1, .op 1, .op 1, .op 1, .op 1, .op 1,
    .op 0, .op 0, .op 0]

theorem leaseRunOut_unbalanced :
    ∃ s, exec (step widgetConfig) widgetState leaseRunOut = some s ∧
      (s.products 1).map Product.stock = some 7 ∧ reserved 1 s.reservations = 7 ∧
      ¬ Conserved 1 10 s := by
  obtain ⟨s, hs, hstock, hres⟩ : ∃ s, exec (step widgetConfig) widgetState leaseRunOut = some s ∧
      (s.products 1).map Product.stock = some 7 ∧ reserved 1 s.reservations = 7 :=
    ⟨_, rfl, rfl, rfl⟩
  refine ⟨s, hs, hstock, hres, ?_⟩
  rintro ⟨p, hp, _, hsum⟩
  rw [hp, Option.map_some, Option.some.injEq] at hstock
  omega

end AsyncDataHub.Inventory
