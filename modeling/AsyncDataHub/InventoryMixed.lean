import AsyncDataHub.InventoryLease
import AsyncDataHub.InventoryLocking

/-! Any mix of strategies on one product. An observer notes for each call who has committed since
its read; the ledger balances as long as no call commits over a commit that its strategy lets it
overlook. -/
namespace AsyncDataHub.Inventory
open StepSystem LockTable ExpiringStore Cache Lock PyJson

variable {cfg : Config} {s t : State} {a : Action} {pid : Uuid} {S : ℤ} {c d : CallId}
  {call other : Call} {eff : Effect}

/-- For each call, the calls that have committed a write since it ran its last SELECT, with the
product of the write. -/
abbrev Notes := CallId → List (Call × Uuid)

def Call.noted (c : CallId) (call : Call) (notes : Notes) : Notes :=
  match call.pc with
  | .select _ => Function.update notes c []
  | .commit w _ => fun d => notes d ++ [(call, w.product)]
  | _ => notes

def note (s : State) (a : Action) (notes : Notes) : Notes :=
  match a with
  | .op c => ((s.calls c).map fun call => call.noted c notes).getD notes
  | _ => notes

/-- The call goes on to its COMMIT although the other one has committed since its read: a version
is bumped by optimistic calls only, and a lock entry stops only locked calls that name the product
by the same text. -/
def Call.Overlooks (call other : Call) : Prop :=
  match call.strategy with
  | .naive => True
  | .optimistic => other.strategy ≠ .optimistic
  | .pessimistic | .atomic => False
  | .locked => ¬ (other.strategy = .locked ∧ other.productId = call.productId)

/-- A call that commits a write to the product overlooks no commit on the product. -/
def Uninterrupted (pid : Uuid) (x : State × Notes) : Action → Prop
  | .op c => ∀ call w r, x.1.calls c = some call → call.pc = .commit w r → w.product = pid →
      ∀ other, (other, pid) ∈ x.2 c → ¬ call.Overlooks other
  | _ => True

/-- No lease runs out while its call is inside the block. -/
def LeaseLasts (cfg : Config) (s : State) : Action → Prop
  | .tick k => ∀ c call e, s.calls c = some call → call.strategy = .locked → call.pc.InBlock →
      s.cache.store (lockOf cfg c call).lockName = some e → e.value = .str (cfg.tokenHex c) →
      s.now + k ≤ e.expiresAt
  | _ => True

/-- The lock entry of a locked call is live and its own as long as the call is inside its block. -/
def Leased (cfg : Config) (s : State) : Prop :=
  ∀ c call, s.calls c = some call → call.strategy = .locked → call.pc.InBlock →
    ∃ e, live s.cache.store s.now (lockOf cfg c call).lockName = some e ∧
      e.value = .str (cfg.tokenHex c)

lemma live_of_does {name : String} {e : Entry Json} (htoken : Function.Injective cfg.tokenHex)
    (hdoes : Does cfg s c call eff) (hne : d ≠ c) (he : live s.cache.store s.now name = some e)
    (hv : e.value = .str (cfg.tokenHex d)) :
    live (s.apply c call eff).cache.store (s.apply c call eff).now name = some e := by
  cases hdoes with
  | @acquires deadline cache _ hpoll =>
    obtain ⟨hfree, hcache⟩ := poll_eq_true hpoll
    have hname : name ≠ (lockOf cfg c call).lockName := by
      rintro rfl
      rw [hfree] at he
      cases he
    change live cache.store s.now name = some e
    rw [hcache, write_store, live_put_of_ne _ hname]
    exact he
  | @releases o o' cache r _ hrel _ =>
    change live cache.store s.now name = some e
    rcases cache_of_release hrel with hsame | ⟨⟨e', he', hv'⟩, hdel⟩
    · rwa [hsame]
    · have hname : name ≠ (lockOf cfg c call).lockName := by
        rintro rfl
        rw [(live_eq_some.mp he).1, Option.some.injEq] at he'
        rw [← he', hv] at hv'
        exact hne (htoken (Json.str.inj hv'))
      rw [hdel, delete_store, live_erase_of_ne _ hname]
      exact he
  | _ => exact he

lemma leased_of_does (hl : call.pc.InBlock → ∃ e,
      live s.cache.store s.now (lockOf cfg c call).lockName = some e ∧
        e.value = .str (cfg.tokenHex c)) (hdoes : Does cfg s c call eff)
    (hblock : (eff.pc call).InBlock) : ∃ e,
      live (s.apply c call eff).cache.store (s.apply c call eff).now (lockOf cfg c call).lockName =
        some e ∧ e.value = .str (cfg.tokenHex c) := by
  have hexit (o : Outcome) : ¬ (call.exit o).InBlock := by
    rcases exit_eq call o with h | h <;> rw [h] <;> exact id
  cases hdoes with
  | fails _ _ | publishes _ => exact absurd hblock (hexit _)
  | @acquires deadline cache _ hpoll =>
    have hlive : live cache.store s.now (lockOf cfg c call).lockName =
        some ⟨.str (cfg.tokenHex c),
          s.now + s.cache.ttl (some (lockOf cfg c call).ttlSeconds) * 1000⟩ := by
      rw [(poll_eq_true hpoll).2, write_store, live_put_self, if_pos (Nat.le_add_right _ _)]
      rfl
    exact ⟨_, hlive, rfl⟩
  | waits _ _ | timesOut _ _ | releases _ _ _ => exact hblock.elim
  | givesUp _ _ => exact hblock.elim
  | reads hpc _ _ _ _ | readsForUpdate hpc _ _ _ _ _ | overwrites hpc _ _ _ _
  | swaps hpc _ _ _ _ | misses hpc _ _ | retries hpc _ | counts hpc _ _
  | decrements hpc _ _ _ _ _ | records hpc => exact hl (by rw [hpc]; trivial)

theorem leased_step (htoken : Function.Injective cfg.tokenHex) (hi : Leased cfg s)
    (ha : LeaseLasts cfg s a) (h : step cfg s a = some t) : Leased cfg t := by
  intro d call' hd hlocked hblock
  cases took_of_step h with
  | @start c productId req strategy _ =>
    rcases update_eq_some.mp hd with ⟨-, rfl⟩ | ⟨-, hd⟩
    · obtain rfl : strategy = .locked := hlocked
      exact hblock.elim
    · exact hi d call' hd hlocked hblock
  | @op c call eff hc hdoes =>
    rw [apply_calls] at hd
    rcases update_eq_some.mp hd with ⟨rfl, rfl⟩ | ⟨hne, hd⟩
    · exact leased_of_does (hi d call hc hlocked) hdoes hblock
    · obtain ⟨e, he, hv⟩ := hi d call' hd hlocked hblock
      exact ⟨e, live_of_does htoken hdoes hne he hv, hv⟩
  | @abort c call eff hc heff =>
    have hsame : (s.apply c call eff).cache = s.cache ∧ (s.apply c call eff).now = s.now ∧
        ¬ (eff.pc call).InBlock := by
      rcases abortEffect_cases heff with ⟨-, e, rfl⟩ | ⟨-, e, rfl⟩
      · refine ⟨rfl, rfl, ?_⟩
        rcases exit_eq call (.raised e) with h | h <;> simp [Effect.pc, h, Pc.InBlock]
      · exact ⟨rfl, rfl, id⟩
    obtain ⟨hcache, hnow, hout⟩ := hsame
    rw [apply_calls] at hd
    rw [hcache, hnow]
    rcases update_eq_some.mp hd with ⟨rfl, rfl⟩ | ⟨-, hd⟩
    · exact absurd hblock hout
    · exact hi d call' hd hlocked hblock
  | crash _ _ =>
    rcases update_eq_some.mp hd with ⟨-, rfl⟩ | ⟨-, hd⟩
    · exact hblock.elim
    · exact hi d call' hd hlocked hblock
  | tick k =>
    obtain ⟨e, he, hv⟩ := hi d call' hd hlocked hblock
    have hstore := (live_eq_some.mp he).1
    exact ⟨e, live_eq_some.mpr ⟨hstore, ha d call' e hd hlocked hblock hstore hv⟩, hv⟩

lemma Leased.unique (hi : Leased cfg s) (htoken : Function.Injective cfg.tokenHex)
    (hc : s.calls c = some call) (hd : s.calls d = some other)
    (hlocked : call.strategy = .locked ∧ call.pc.InBlock)
    (hlocked' : other.strategy = .locked ∧ other.pc.InBlock)
    (htext : other.productId = call.productId) : c = d := by
  obtain ⟨e, he, hv⟩ := hi c call hc hlocked.1 hlocked.2
  obtain ⟨e', he', hv'⟩ := hi d other hd hlocked'.1 hlocked'.2
  have hname : (lockOf cfg d other).lockName = (lockOf cfg c call).lockName := by
    simp only [lockOf, htext]
  rw [hname, he, Option.some.injEq] at he'
  rw [← he', hv] at hv'
  exact htoken (Json.str.inj hv')

/-- An atomic call reads nothing that it computes with later. -/
def Call.Counts (call : Call) : Prop :=
  call.strategy = .atomic → ∀ attempt stock version, call.pc ≠ .update attempt stock version

lemma counts_of_reserveProduct (heff : reserveProduct cfg s c call = some eff) :
    Call.Counts { call with pc := eff.pc call } := by
  intro hs attempt stock version hpc'
  have hatomic : call.strategy = .atomic := hs
  have hexit (o : Outcome) : call.exit o ≠ .update attempt stock version := by
    rcases exit_eq call o with h | h <;> simp [h]
  cases does_of_reserveProduct heff with
  | fails _ _ | publishes _ => exact hexit _ hpc'
  | reads hpc _ _ _ _ =>
    rcases atomic_select hatomic hpc heff with he | ⟨e, he⟩ <;> cases he
  | readsForUpdate _ _ _ _ hpess _ =>
    rw [hatomic] at hpess
    cases hpess
  | _ => cases hpc'

theorem counts_step (hpend : PendingInv s) (h : step cfg s a = some t)
    (hi : ∀ c call, s.calls c = some call → call.Counts) :
    ∀ c call, t.calls c = some call → call.Counts := by
  refine callInv_step (Φ := fun _ _ call => call.Counts) hpend (fun _ hcall => hcall) ?_ ?_
    (fun _ heff _ => counts_of_reserveProduct heff) h hi
  · rintro s c productId q strategy now hs attempt stock version
    obtain rfl : strategy = .atomic := hs
    simp [startPc]
  · rintro s c o call pc (rfl | rfl) _ attempt stock version <;> simp

/-- The units of the product that the noted commits have taken. -/
def missed (pid : Uuid) (notes : List (Call × Uuid)) : ℤ :=
  ((notes.filter fun n => n.2 = pid).map fun n => n.1.quantity).sum

lemma missed_append (notes : List (Call × Uuid)) (other : Call) (u : Uuid) :
    missed pid (notes ++ [(other, u)]) =
      missed pid notes + if u = pid then other.quantity else 0 := by
  unfold missed
  rw [List.filter_append, List.map_append, List.sum_append]
  split_ifs with h <;> simp [h]

lemma missed_nonneg {notes : List (Call × Uuid)} (hpos : ∀ n ∈ notes, 0 < n.1.quantity) :
    0 ≤ missed pid notes := by
  refine List.sum_nonneg fun q hq => ?_
  obtain ⟨n, hn, rfl⟩ := List.mem_map.mp hq
  exact (hpos n (List.mem_of_mem_filter hn)).le

lemma missed_eq_zero {notes : List (Call × Uuid)} (hpos : ∀ n ∈ notes, 0 < n.1.quantity) :
    missed pid notes = 0 ↔ ∀ other, (other, pid) ∉ notes := by
  induction notes using List.reverseRecOn with
  | nil => simp [missed]
  | append_singleton notes n ih =>
    obtain ⟨other, u⟩ := n
    have hbefore : ∀ n ∈ notes, 0 < n.1.quantity := fun n hn => hpos n (List.mem_append_left _ hn)
    have hother : 0 < other.quantity := hpos (other, u) (by simp)
    have hle := @missed_nonneg pid _ hbefore
    rw [missed_append]
    split_ifs with hu
    · refine iff_of_false (by omega) fun hno => hno other ?_
      simp [hu]
    · rw [add_zero, ih hbefore]
      refine forall_congr' fun call => not_congr ?_
      simp [Ne.symm hu]

/-- What a call works with is the committed row and what has been committed since its read, all of
which it overlooks. -/
def Call.Accounted (cfg : Config) (pid : Uuid) (p : Product) (lock : Option CallId)
    (notes : List (Call × Uuid)) (c : CallId) (call : Call) : Prop :=
  cfg.uuidOf call.productId = some pid →
    match call.pc with
    | .update _ stock version => stock = p.stock + missed pid notes ∧ version ≤ p.version ∧
        (call.strategy = .pessimistic → lock = some c) ∧
        ((call.strategy = .optimistic → version = p.version) →
          ∀ other, (other, pid) ∈ notes → call.Overlooks other)
    | .record w | .commit w _ => lock = some c ∧ (call.strategy = .atomic → w.base = p.stock) ∧
        (call.strategy ≠ .atomic → w.base = p.stock + missed pid notes ∧
          ∀ other, (other, pid) ∈ notes → call.Overlooks other)
    | _ => True

structure MixedInv (cfg : Config) (pid : Uuid) (x : State × Notes) : Prop where
  ok : CallsOk cfg x.1
  pending : PendingInv x.1
  counts : ∀ c call, x.1.calls c = some call → call.Counts
  leased : Leased cfg x.1
  positive : ∀ c call, x.1.calls c = some call → 0 < call.quantity
  noted : ∀ c, ∀ n ∈ x.2 c, 0 < n.1.quantity
  accounted : ∀ c call p, x.1.calls c = some call → x.1.products pid = some p →
    call.Accounted cfg pid p (x.1.rowLock pid) (x.2 c) c

variable {p p' : Product} {lock lock' : Option CallId} {notes : List (Call × Uuid)} {w : Write}
  {r : ProductReservation} {x y : State × Notes}

lemma accounted_exit (call : Call) (o : Outcome) :
    Call.Accounted cfg pid p lock notes c { call with pc := call.exit o } := by
  intro _
  rcases exit_eq call o with h | h <;> simp only [h]

lemma accounted_startPc {productId : String} {q : ℤ} {strategy : ReserveStrategy} {now : ℕ} :
    Call.Accounted cfg pid p lock notes c ⟨productId, q, strategy, startPc cfg now strategy⟩ := by
  intro _
  cases strategy <;> simp only [startPc]
  case optimistic => split_ifs <;> trivial

lemma Call.Accounted.of_lock (h : call.Accounted cfg pid p lock notes c)
    (hl : lock = some c → lock' = some c) : call.Accounted cfg pid p lock' notes c := by
  intro hpid
  have h' := h hpid
  cases hpc : call.pc <;> simp only [hpc] at h' ⊢
  case update => exact ⟨h'.1, h'.2.1, fun hs => hl (h'.2.2.1 hs), h'.2.2.2⟩
  all_goals exact ⟨hl h'.1, h'.2⟩

lemma Call.Accounted.of_elsewhere {u : Uuid} (h : call.Accounted cfg pid p lock notes c)
    (hu : u ≠ pid) : call.Accounted cfg pid p lock (notes ++ [(other, u)]) c := by
  have hmem (call : Call) : (call, pid) ∈ notes ++ [(other, u)] ↔ (call, pid) ∈ notes := by
    simp [Ne.symm hu]
  have hmissed : missed pid (notes ++ [(other, u)]) = missed pid notes := by
    rw [missed_append, if_neg hu, add_zero]
  unfold Call.Accounted
  simp only [hmem, hmissed]
  exact h

/-- A commit on the product is one more that the call has missed, and it overlooks it: it has no
row lock, the version has moved on if both are optimistic, and two locked calls do not meet. -/
lemma Call.Accounted.of_commit (h : call.Accounted cfg pid p (some d) notes c) (hne : c ≠ d)
    (hcounts : call.Counts) (hstock : p'.stock = p.stock - other.quantity)
    (hversion : p'.version = other.bumped p.version)
    (hlocked : call.strategy = .locked → call.pc.InBlock →
      ¬ (other.strategy = .locked ∧ other.productId = call.productId)) :
    call.Accounted cfg pid p' lock' (notes ++ [(other, pid)]) c := by
  have hothers : (some d : Option CallId) ≠ some c := fun he => hne (Option.some.inj he).symm
  intro hpid
  have h' := h hpid
  cases hpc : call.pc <;> simp only [hpc] at h' ⊢
  case record | commit => exact absurd h'.1 hothers
  case update attempt stock version =>
    obtain ⟨hread, hle, hpess, hover⟩ := h'
    have hbumped := le_bumped other p.version
    refine ⟨?_, by omega, fun hs => absurd (hpess hs) hothers, fun hsame before hmem => ?_⟩
    · rw [missed_append, if_pos rfl]
      omega
    rcases List.mem_append.mp hmem with hmem | hmem
    · refine hover (fun hopt => ?_) before hmem
      have hsame' := hsame hopt
      omega
    · obtain rfl : before = other := by simpa using hmem
      have hblock : call.pc.InBlock := by
        rw [hpc]
        trivial
      unfold Call.Overlooks
      cases hs : call.strategy with
      | naive => trivial
      | optimistic =>
        intro hopt
        have hsame' := hsame hs
        rw [Call.bumped, if_pos hopt, nextVersion] at hversion
        omega
      | pessimistic => exact hothers (hpess hs)
      | atomic => exact hcounts hs _ _ _ hpc
      | locked => exact hlocked hs hblock

lemma accounted_of_does {taken : Notes}
    (h : call.Accounted cfg pid p (s.rowLock pid) (taken c) c) (hcounts : call.Counts)
    (hp : s.products pid = some p) (hdoes : Does cfg s c call eff)
    (hn : ∀ w r, eff ≠ .publish w r) :
    Call.Accounted cfg pid p ((s.apply c call eff).rowLock pid) (call.noted c taken c) c
      { call with pc := eff.pc call } := by
  intro hpid
  have hpid' : cfg.uuidOf call.productId = some pid := hpid
  have h' := h hpid'
  have hrow {u : Uuid} {row : Product} (hu : cfg.uuidOf call.productId = some u)
      (hr : s.products u = some row) : u = pid ∧ row = p := by
    rw [hpid', Option.some.injEq] at hu
    subst hu
    rw [hp, Option.some.injEq] at hr
    exact ⟨rfl, hr.symm⟩
  cases hdoes with
  | fails e _ => exact accounted_exit call _ hpid
  | publishes _ => exact absurd rfl (hn _ _)
  | reads hpc hu hr _ hs =>
    obtain ⟨rfl, rfl⟩ := hrow hu hr
    simp only [Call.noted, hpc, Function.update_self]
    exact ⟨by simp [missed], le_rfl, fun he => absurd he hs, fun _ _ hmem => by cases hmem⟩
  | readsForUpdate hpc hu hr _ _ _ =>
    obtain ⟨rfl, rfl⟩ := hrow hu hr
    simp only [Call.noted, hpc, Function.update_self]
    exact ⟨by simp [missed], le_rfl, fun _ => take_self .., fun _ _ hmem => by cases hmem⟩
  | overwrites hpc hu hr hs _ =>
    obtain ⟨rfl, rfl⟩ := hrow hu hr
    simp only [Call.noted, hpc] at h' ⊢
    exact ⟨take_self .., fun he => absurd hpc (hcounts he _ _ _), fun _ =>
      ⟨h'.1, h'.2.2.2 fun he => absurd he hs⟩⟩
  | swaps hpc hu hr hs _ =>
    obtain ⟨rfl, rfl⟩ := hrow hu hr
    simp only [Call.noted, hpc] at h' ⊢
    refine ⟨take_self .., fun he => ?_, fun _ => ⟨h'.1, h'.2.2.2 fun _ => trivial⟩⟩
    rw [show call.strategy = .atomic from he] at hs
    cases hs
  | decrements hpc hu hr _ hs _ =>
    obtain ⟨rfl, rfl⟩ := hrow hu hr
    simp only [Call.noted, hpc]
    exact ⟨take_self .., fun _ => rfl, fun hne => absurd hs hne⟩
  | records hpc =>
    simp only [Call.noted, hpc] at h' ⊢
    exact h'
  | _ => trivial

/-- The stock of the row is the one that a committing call has computed with exactly if the call
overlooks nothing: what it has missed has taken some units. -/
lemma upToDate_iff (hi : MixedInv cfg pid x) (hp : Conserved pid S x.1) (a : Action) :
    UpToDate pid x.1 a ↔ Uninterrupted pid x a := by
  cases a with
  | op c =>
    refine forall₅_congr fun call w r hc hpc => forall_congr' fun hw => ?_
    obtain ⟨p, hrow, -⟩ := hp
    have hok := hi.ok c call hc
    simp only [Call.Ok, hpc] at hok
    obtain ⟨⟨hu, -⟩, hprod, -⟩ := hok
    have hacc := hi.accounted c call p hc hrow (by rw [hu, hprod, hw])
    simp only [hpc] at hacc
    obtain ⟨-, hatomic, hother⟩ := hacc
    simp only [hrow, Option.some.injEq, exists_eq_left']
    by_cases hs : call.strategy = .atomic
    · refine iff_of_true (hatomic hs).symm fun other _ => ?_
      simp [Call.Overlooks, hs]
    · obtain ⟨hbase, hover⟩ := hother hs
      have hnone : missed pid (x.2 c) = 0 ↔ ∀ other, (other, pid) ∉ x.2 c :=
        missed_eq_zero (hi.noted c)
      constructor
      · intro heq other hmem
        exact absurd hmem (hnone.mp (by omega) other)
      · intro hno
        have hzero := hnone.mpr fun other hmem => hno other hmem (hover other hmem)
        omega
  | _ => exact Iff.rfl

lemma noted_of_ne {taken : Notes} (hn : ∀ w r, call.pc ≠ .commit w r) (hne : d ≠ c) :
    call.noted c taken d = taken d := by
  cases hpc : call.pc <;> simp only [Call.noted, hpc]
  case select => exact Function.update_of_ne hne _ _
  case commit w r => exact absurd hpc (hn w r)

lemma mem_noted {taken : Notes} {n : Call × Uuid} (h : n ∈ call.noted c taken d) :
    n ∈ taken d ∨ n.1 = call := by
  cases hpc : call.pc <;> simp only [Call.noted, hpc] at h
  case select =>
    by_cases hd : d = c
    · subst hd
      rw [Function.update_self] at h
      cases h
    · rw [Function.update_of_ne hd] at h
      exact .inl h
  case commit w r =>
    rcases List.mem_append.mp h with h | h
    · exact .inl h
    · rw [List.mem_singleton] at h
      exact .inr (by rw [h])
  all_goals exact .inl h

lemma accounted_of_publish (htoken : Function.Injective cfg.tokenHex) (hi : MixedInv cfg pid x)
    (hp : Conserved pid S x.1) (hg : Uninterrupted pid x (.op c)) (hc : x.1.calls c = some call)
    (hpc : call.pc = .commit w r) (hne : d ≠ c) (hd : x.1.calls d = some other)
    (hrow : (x.1.apply c call (.publish w r)).products pid = some p') :
    other.Accounted cfg pid p' ((x.1.apply c call (.publish w r)).rowLock pid)
      (call.noted c x.2 d) d := by
  have hcurrent := (upToDate_iff hi hp (.op c)).mpr hg call w r hc hpc
  obtain ⟨p, hold, -⟩ := hp
  have hacc := hi.accounted d other p hd hold
  have hnotes : call.noted c x.2 d = x.2 d ++ [(call, w.product)] := by
    simp only [Call.noted, hpc]
  rw [hnotes]
  rw [apply_products] at hrow
  by_cases hw : w.product = pid
  · obtain ⟨hlock, p₁, hp₁, hversion⟩ :
        x.1.rowLock w.product = some c ∧ ∃ p, x.1.products w.product = some p ∧
          w.row.version = call.bumped p.version := by
      have hpend := hi.pending c call hc
      simp only [Call.Pending, hpc] at hpend
      exact hpend
    obtain ⟨p₂, hp₂, hbase⟩ := hcurrent hw
    have hok := hi.ok c call hc
    simp only [Call.Ok, hpc] at hok
    subst hw
    rw [hold, Option.some.injEq] at hp₁ hp₂
    subst hp₁ hp₂
    simp only [Function.update_self, Option.some.injEq] at hrow
    subst hrow
    rw [hlock] at hacc
    refine hacc.of_commit hne (hi.counts d other hd) (by omega) hversion ?_
    rintro hlocked hblock ⟨hlocked', htext⟩
    have hcommit : call.pc.InBlock := by
      rw [hpc]
      trivial
    exact hne (hi.leased.unique htoken hd hc ⟨hlocked, hblock⟩ ⟨hlocked', hcommit⟩ htext)
  · simp only [Function.update_of_ne (Ne.symm hw), hold, Option.some.injEq] at hrow
    subst hrow
    have hdoes : Does cfg x.1 c call (.publish w r) := .publishes hpc
    exact (hacc.of_elsewhere hw).of_lock (rowLock_of_does hdoes hne)

theorem accounted_step {taken : Notes} (htoken : Function.Injective cfg.tokenHex)
    (hi : MixedInv cfg pid (s, taken)) (hp : Conserved pid S s)
    (hg : Uninterrupted pid (s, taken) a) (h : step cfg s a = some t) :
    ∀ d call' p', t.calls d = some call' → t.products pid = some p' →
      call'.Accounted cfg pid p' (t.rowLock pid) (note s a taken d) d := by
  intro d call' p' hd hrow
  cases took_of_step h with
  | start _ =>
    rcases update_eq_some.mp hd with ⟨-, rfl⟩ | ⟨-, hd⟩
    · exact accounted_startPc
    · exact hi.accounted d call' p' hd hrow
  | @op c call eff hc hdoes =>
    have hnote : note s (.op c) taken = call.noted c taken := by simp [note, hc]
    rw [hnote]
    by_cases hcommit : ∃ w r, call.pc = .commit w r
    · obtain ⟨w, r, hpc⟩ := hcommit
      rw [step_commit hc hpc, Option.some.injEq] at h
      rw [← h] at hd hrow ⊢
      rw [apply_calls] at hd
      rcases update_eq_some.mp hd with ⟨rfl, rfl⟩ | ⟨hne, hd⟩
      · exact accounted_exit call _
      · exact accounted_of_publish htoken hi hp hg hc hpc hne hd hrow
    · have hn : ∀ w r, call.pc ≠ .commit w r := fun w r hpc => hcommit ⟨w, r, hpc⟩
      have hn' : ∀ w r, eff ≠ .publish w r := by
        rintro w r rfl
        cases hdoes with
        | publishes hpc => exact hn _ _ hpc
      rw [(apply_rows s c call hn').1] at hrow
      rw [apply_calls] at hd
      rcases update_eq_some.mp hd with ⟨rfl, rfl⟩ | ⟨hne, hd⟩
      · have hcall := hi.accounted d call p' hc hrow
        exact accounted_of_does hcall (hi.counts d call hc) hrow hdoes hn'
      · rw [noted_of_ne hn hne]
        exact (hi.accounted d call' p' hd hrow).of_lock (rowLock_of_does hdoes hne)
  | @abort c call eff hc heff =>
    have hsame : (s.apply c call eff).products = s.products := by
      rcases abortEffect_cases heff with ⟨-, e, rfl⟩ | ⟨-, e, rfl⟩ <;> rfl
    rw [hsame] at hrow
    rw [apply_calls] at hd
    rcases update_eq_some.mp hd with ⟨-, rfl⟩ | ⟨hne, hd⟩
    · rcases abortEffect_cases heff with ⟨-, e, rfl⟩ | ⟨-, e, rfl⟩
      · exact accounted_exit call _
      · exact fun _ => trivial
    · exact (hi.accounted d call' p' hd hrow).of_lock (rowLock_of_abort heff hne)
  | @crash c call hc _ =>
    rcases update_eq_some.mp hd with ⟨-, rfl⟩ | ⟨hne, hd⟩
    · exact fun _ => trivial
    · exact (hi.accounted d call' p' hd hrow).of_lock fun hl => releaseAll_eq_some.mpr ⟨hl, hne⟩
  | tick _ => exact hi.accounted d call' p' hd hrow

lemma positive_step (hi : ∀ c call, s.calls c = some call → 0 < call.quantity)
    (h : step cfg s a = some t) : ∀ c call, t.calls c = some call → 0 < call.quantity := by
  cases took_of_step h with
  | @start c productId req strategy _ => exact forall_update hi req.quantity_pos
  | @op c call _ hc _ | @abort c call _ hc _ =>
    rw [apply_calls]
    exact forall_update hi (hi c call hc)
  | @crash c call hc _ => exact forall_update hi (hi c call hc)
  | tick _ => exact hi

theorem mixedInv_step (htoken : Function.Injective cfg.tokenHex) (hi : MixedInv cfg pid x)
    (hp : Conserved pid S x.1) (ha : LeaseLasts cfg x.1 a) (hg : Uninterrupted pid x a)
    (h : observed (step cfg) note x a = some y) : MixedInv cfg pid y := by
  obtain ⟨s, notes⟩ := x
  obtain ⟨t, notes'⟩ := y
  obtain ⟨ht, hnotes⟩ := observed_eq_some.mp h
  obtain rfl : notes' = note s a notes := hnotes
  refine ⟨callsOk_step ht hi.ok, pendingInv_step ht hi.pending,
    counts_step hi.pending ht hi.counts, leased_step htoken hi.leased ha ht,
    positive_step hi.positive ht, fun d n hn => ?_, accounted_step htoken hi hp hg ht⟩
  cases a with
  | op c =>
    obtain ⟨call, hc⟩ : ∃ call, s.calls c = some call := by
      cases took_of_step ht with
      | op hc _ => exact ⟨_, hc⟩
    have hnote : note s (.op c) notes = call.noted c notes := by simp [note, hc]
    rw [hnote] at hn
    rcases mem_noted hn with hn | hn
    · exact hi.noted d n hn
    · rw [hn]
      exact hi.positive c call hc
  | _ => exact hi.noted d n hn

lemma Created.mixedInv {req : ProductRequest} (h : Created pid req s) :
    MixedInv cfg pid (s, fun _ => []) := by
  have hidle : ∀ c call, s.calls c ≠ some call := fun c call hc => by simp [h.idle c] at hc
  exact ⟨h.callsOk, fun c call hc => absurd hc (hidle c call),
    fun c call hc => absurd hc (hidle c call), fun c call hc => absurd hc (hidle c call),
    fun c call hc => absurd hc (hidle c call), fun _ _ hn => absurd hn (by simp),
    fun c call _ hc => absurd hc (hidle c call)⟩

/-- While leases last, a run keeps the ledger of a product balanced in every state exactly if no
call commits a write to it over a commit, made since its read, that its strategy lets it
overlook. -/
theorem mixed_reservations_balanced_iff (cfg : Config) (htoken : Function.Injective cfg.tokenHex)
    {pid : Uuid} {req : ProductRequest} {s : State} (hs : Created pid req s) {acts : List Action}
    (hlease : Guarded (step cfg) (LeaseLasts cfg) s acts) :
    Along (step cfg) (Conserved pid req.stock) s acts ↔
      Guarded (observed (step cfg) note) (Uninterrupted pid) (s, fun _ => []) acts := by
  rw [← along_observed]
  refine along_iff_guarded_under (I := MixedInv cfg pid) (A := fun x => LeaseLasts cfg x.1)
    (fun x a y hi hp ha hg h => mixedInv_step htoken hi hp ha hg h) (fun x a y hi hp _ h => ?_)
    (guarded_observed.mpr hlease) hs.mixedInv hs.conserved
  rw [conserved_step_iff a hi.ok hp (observed_eq_some.mp h).1, upToDate_iff hi hp]

/-- In `lostUpdate` the optimistic call has overlooked the atomic one. -/
theorem mixed_reservations_balanced_iff_lostUpdate :
    Along (step widgetConfig) (Conserved 1 10) widgetState lostUpdate ↔
      Guarded (observed (step widgetConfig) note) (Uninterrupted 1) (widgetState, fun _ => [])
        lostUpdate :=
  mixed_reservations_balanced_iff widgetConfig widgetConfig_tokens widgetState_created
    (guarded_of_forall_mem (by simp [lostUpdate, LeaseLasts]) _)

end AsyncDataHub.Inventory
