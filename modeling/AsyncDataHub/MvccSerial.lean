import AsyncDataHub.Mvcc

/-! Transactions above READ COMMITTED that write every row they look at: a run leaves the rows that
its commits leave one after another. -/
namespace AsyncDataHub.Mvcc
open StepSystem LockTable

variable {I K V T L : Type*} {prog : Program I K V L} {rows rows' rows₀ writes : K → Option V}
  {l l' l₁ : L} {seen ids : Set K} {log since : List (T × L)} {base : T → List (T × L)}
  {db db' : Db K V T L} {a : Action T I} {t : T} {txn : Txn K V} {k : K} {table table' : Table K V}

def commitOf (prog : Program I K V L) (db : Db K V T L) : Action T I → Option (T × L)
  | .op t =>
    match db.clients t with
    | some ⟨l, some _⟩ =>
      match prog.next l with
      | .commit l' => some (t, l')
      | _ => none
    | _ => none
  | _ => none

def BeginsAbove (prog : Program I K V L) (db : Db K V T L) : Action T I → Prop
  | .op t => ∀ l level l', db.clients t = some ⟨l, none⟩ → prog.next l = .begin level l' →
      level ≠ .readCommitted
  | _ => True

lemma commitOf_eq_some (h : commitOf prog db a = some (t, l')) :
    ∃ l txn, a = .op t ∧ db.clients t = some ⟨l, some txn⟩ ∧ prog.next l = .commit l' := by
  unfold commitOf at h
  split at h
  · split at h
    · split at h
      · cases h
        exact ⟨_, _, rfl, ‹_›, ‹_›⟩
      · cases h
    · cases h
  · cases h

lemma view_observe_of_ne (hlevel : txn.level ≠ .readCommitted) :
    (txn.observe table).view table' = txn.view table := by
  simp [Txn.observe, Txn.view, hlevel]

section Rows
variable [DecidableEq K]

/-- Where a transaction that starts at `l₁` may stand, with its writes and the rows that it has
looked at, while nobody else writes. -/
inductive RunsOn (prog : Program I K V L) (rows : K → Option V) (l₁ : L) :
    L → (K → Option V) → Set K → Prop
  | start : RunsOn prog rows l₁ l₁ (fun _ => none) ∅
  | select {l : L} {writes : K → Option V} {seen : Set K} {k : K} {next : Option V → L}
      (prior : RunsOn prog rows l₁ l writes seen) (stmt : prog.next l = .select k next) :
      RunsOn prog rows l₁ (next ((writes k).or (rows k))) writes (insert k seen)
  | missed {l : L} {writes : K → Option V} {seen : Set K} {k : K} {change : V → Except String V}
      {next : ℕ → L} (prior : RunsOn prog rows l₁ l writes seen)
      (stmt : prog.next l = .update k change next) (missing : (writes k).or (rows k) = none) :
      RunsOn prog rows l₁ (next 0) writes (insert k seen)
  | update {l : L} {writes : K → Option V} {seen : Set K} {k : K} {change : V → Except String V}
      {next : ℕ → L} {v w : V} (prior : RunsOn prog rows l₁ l writes seen)
      (stmt : prog.next l = .update k change next) (old : (writes k).or (rows k) = some v)
      (new : change v = .ok w) :
      RunsOn prog rows l₁ (next 1) (Function.update writes k (some w)) (insert k seen)

/-- A transaction from its BEGIN to its COMMIT, as one change of the rows. -/
def CommitsOn (prog : Program I K V L) (rows : K → Option V) (l₀ l' : L) (rows' : K → Option V) :
    Prop :=
  ∃ level l₁ l writes seen, prog.next l₀ = .begin level l₁ ∧ RunsOn prog rows l₁ l writes seen ∧
    prog.next l = .commit l' ∧ rows' = fun k => (writes k).or (rows k)

/-- The transactions of `log` one after another, each with where it has left its client. -/
inductive Serial (prog : Program I K V L) (rows : K → Option V) :
    List (T × L) → (K → Option V) → Prop
  | nil : Serial prog rows [] rows
  | snoc {log : List (T × L)} {rows' rows'' : K → Option V} {t : T} {l₀ l' : L}
      (prior : Serial prog rows log rows') (last : CommitsOn prog rows' l₀ l' rows'') :
      Serial prog rows (log ++ [(t, l')]) rows''

def WritesWhatItReads (prog : Program I K V L) : Prop :=
  ∀ rows level l₀ l₁ l writes seen l', prog.next l₀ = .begin level l₁ →
    RunsOn prog rows l₁ l writes seen → prog.next l = .commit l' → ∀ k ∈ seen, writes k ≠ none

lemma RunsOn.congr (h : RunsOn prog rows l₁ l writes seen) (hsame : ∀ k ∈ seen, rows k = rows' k) :
    RunsOn prog rows' l₁ l writes seen := by
  induction h with
  | start => exact .start
  | select _ hs ih =>
    rw [hsame _ (Set.mem_insert _ _)]
    exact (ih fun k hk => hsame k (Set.mem_insert_of_mem _ hk)).select hs
  | missed _ hs hmiss ih =>
    rw [hsame _ (Set.mem_insert _ _)] at hmiss
    exact (ih fun k hk => hsame k (Set.mem_insert_of_mem _ hk)).missed hs hmiss
  | update _ hs hold hnew ih =>
    rw [hsame _ (Set.mem_insert _ _)] at hold
    exact (ih fun k hk => hsame k (Set.mem_insert_of_mem _ hk)).update hs hold hnew

/-- An open transaction runs on its view, which the first of the commits have left, those of `since`
among them. -/
structure Explained (prog : Program I K V L) (rows₀ : K → Option V) (since log : List (T × L))
    (table : Table K V) (l : L) (txn : Txn K V) : Prop where
  level : txn.level ≠ .readCommitted
  runs : ∃ l₀ l₁ seen, prog.next l₀ = .begin txn.level l₁ ∧
    RunsOn prog (txn.view table).rows l₁ l txn.writes seen ∧ (txn.snapshot = none → seen = ∅)
  view : ∃ earlier, since <+: earlier ∧ earlier <+: log ∧
    Serial prog rows₀ earlier (txn.view table).rows

/-- `base` gives the commits that were there before a client. -/
structure SerialInv (prog : Program I K V L) (rows₀ : K → Option V) (ids : Set K)
    (base : T → List (T × L)) (log : List (T × L)) (db : Db K V T L) : Prop where
  sound : db.Sound ids
  based : ∀ t, base t <+: log
  serial : Serial prog rows₀ log db.table.rows
  explained : ∀ t l txn, db.clients t = some ⟨l, some txn⟩ →
    Explained prog rows₀ (base t) log db.table l txn

lemma Explained.new {l₀ l₁ : L} {level : IsolationLevel} (hlevel : level ≠ .readCommitted)
    (hstmt : prog.next l₀ = .begin level l₁) (hsince : since <+: log)
    (hserial : Serial prog rows₀ log table.rows) :
    Explained prog rows₀ since log table l₁ { level } :=
  ⟨hlevel, ⟨l₀, l₁, ∅, hstmt, .start, fun _ => rfl⟩, log, hsince, List.prefix_rfl, hserial⟩

lemma Explained.observe (h : Explained prog rows₀ since log table l txn)
    (hruns : ∀ l₁ seen, RunsOn prog (txn.view table).rows l₁ l txn.writes seen →
      ∃ seen', RunsOn prog (txn.view table).rows l₁ l' writes seen') :
    Explained prog rows₀ since log table l' { txn.observe table with writes } := by
  have hview : Txn.view { txn.observe table with writes } table = txn.view table :=
    view_observe_of_ne h.level
  obtain ⟨l₀, l₁, seen, hbegin, hrun, _⟩ := h.runs
  obtain ⟨seen', hrun'⟩ := hruns l₁ seen hrun
  refine ⟨h.level, ⟨l₀, l₁, seen', hbegin, hview ▸ hrun', fun hnone => ?_⟩, hview ▸ h.view⟩
  simp [Txn.observe, h.level] at hnone

lemma Explained.commit {out : T × L} (h : Explained prog rows₀ since log table l txn)
    (hserial : Serial prog rows₀ (log ++ [out]) table'.rows) :
    Explained prog rows₀ since (log ++ [out]) table' l txn := by
  obtain ⟨l₀, l₁, seen, hbegin, hrun, hseen⟩ := h.runs
  obtain ⟨earlier, hsince, hprefix, hearlier⟩ := h.view
  cases hsnap : txn.snapshot with
  | none =>
    have hview : txn.view table' = table' := by simp [Txn.view, hsnap]
    have hnone := hseen hsnap
    refine ⟨h.level, ⟨l₀, l₁, seen, hbegin, hrun.congr ?_, hseen⟩, log ++ [out],
      (hsince.trans hprefix).trans (List.prefix_append ..), List.prefix_rfl, ?_⟩
    · simp [hnone]
    · rwa [hview]
  | some snap =>
    have hview : txn.view table' = txn.view table := by simp [Txn.view, hsnap]
    refine ⟨h.level, ⟨l₀, l₁, seen, hbegin, ?_, hseen⟩, earlier, hsince,
      hprefix.trans (List.prefix_append ..), ?_⟩ <;> rwa [hview]

/-- What a COMMIT leaves is what the transaction does alone on the committed rows: it has written
the rows that it has looked at, so none of them has been committed since its view. -/
lemma Explained.commitsOn (h : Explained prog rows₀ since log db.table l txn)
    (hprog : WritesWhatItReads prog) (hs : txn.Sound ids db.table db.locks t)
    (hstmt : prog.next l = .commit l') :
    ∃ l₀, CommitsOn prog db.table.rows l₀ l' (db.table.commit txn.writes).rows := by
  obtain ⟨l₀, l₁, seen, hbegin, hrun, _⟩ := h.runs
  have hwritten := hprog _ _ _ _ _ _ _ _ hbegin hrun hstmt
  have hsame : ∀ k ∈ seen, (txn.view db.table).rows k = db.table.rows k := by
    intro k hk
    obtain ⟨v, hv⟩ := Option.ne_none_iff_exists'.mp (hwritten k hk)
    exact hs.stable k (hs.first k v hv)
  exact ⟨l₀, _, l₁, l, txn.writes, seen, hbegin, hrun.congr hsame, hstmt, rfl⟩

section Machine
variable [DecidableEq T]

lemma commit_or_not (h : step prog db a = some db') :
    (∃ t l l' txn, a = .op t ∧ db.clients t = some ⟨l, some txn⟩ ∧ prog.next l = .commit l' ∧
      commitOf prog db a = some (t, l') ∧ db' = db.commit t l' txn) ∨
    (commitOf prog db a = none ∧ db'.table = db.table) := by
  cases hc : commitOf prog db a with
  | some out =>
    obtain ⟨t, l'⟩ := out
    obtain ⟨l, txn, rfl, hclient, hstmt⟩ := commitOf_eq_some hc
    refine .inl ⟨t, l, l', txn, rfl, hclient, hstmt, rfl, ?_⟩
    simp only [step, hclient, Option.bind_some, Db.stepClient, hstmt, Option.some.injEq] at h
    exact h.symm
  | none =>
    refine .inr ⟨rfl, ?_⟩
    cases took_of_step h with
    | commits hclient hstmt => simp [commitOf, hclient, hstmt] at hc
    | _ => rfl

lemma explained_of_step (hi : SerialInv prog rows₀ ids base log db) (hg : BeginsAbove prog db a)
    (h : step prog db a = some db') (htable : db'.table = db.table) :
    ∀ t l txn, db'.clients t = some ⟨l, some txn⟩ →
      Explained prog rows₀ (base t) log db.table l txn := by
  have hclients {t : T} {client : Client K V L}
      (hc : ∀ txn, client.txn = some txn →
        Explained prog rows₀ (base t) log db.table client.loc txn) :
      ∀ u l txn, Function.update db.clients t (some client) u = some ⟨l, some txn⟩ →
        Explained prog rows₀ (base u) log db.table l txn := by
    intro u l txn hu
    rcases update_eq_some.mp hu with ⟨rfl, rfl⟩ | ⟨_, hu⟩
    · exact hc txn rfl
    · exact hi.explained u l txn hu
  cases took_of_step h with
  | starts _ _ => exact hclients (by simp)
  | begins hc hstmt =>
    refine hclients fun txn htxn => ?_
    cases htxn
    exact .new (hg _ _ _ hc hstmt) hstmt (hi.based _) hi.serial
  | snaps hc =>
    refine hclients fun txn htxn => ?_
    cases htxn
    exact (hi.explained _ _ _ hc).observe fun l₁ seen hrun => ⟨seen, hrun⟩
  | selects hc hstmt =>
    refine hclients fun txn htxn => ?_
    cases htxn
    exact (hi.explained _ _ _ hc).observe fun l₁ seen hrun => ⟨_, hrun.select hstmt⟩
  | @misses t l txn k change next hc hstmt hmiss =>
    have hs := hi.sound.txns _ _ _ hc
    have hread : txn.read db.table k = none := by
      rcases hmiss with hmiss | hmiss
      · exact hmiss
      · have hk : k ∉ ids := fun hk =>
          (hi.sound.rows k).mpr hk (Option.or_eq_none_iff.mp hmiss).2
        by_contra hread
        exact hk (hs.read_ne_none.mp hread)
    refine hclients fun txn htxn => ?_
    cases htxn
    exact (hi.explained _ _ _ hc).observe fun l₁ seen hrun => ⟨_, hrun.missed hstmt hread⟩
  | @writes t l txn k change next v w hc hstmt hcur _ hold hnew =>
    have hs := hi.sound.txns _ _ _ hc
    rw [← hs.stable k hcur] at hold
    refine hclients fun txn htxn => ?_
    cases htxn
    exact (hi.explained _ _ _ hc).observe fun l₁ seen hrun => ⟨_, hrun.update hstmt hold hnew⟩
  | commits hc hstmt =>
    have hrows := congrArg Table.commits htable
    exact absurd hrows (Nat.succ_ne_self _)
  | aborts _ _ => exact hclients (by simp)

lemma serialInv_step (hprog : WritesWhatItReads prog) (hi : SerialInv prog rows₀ ids base log db)
    (hg : BeginsAbove prog db a) (h : step prog db a = some db') :
    SerialInv prog rows₀ ids base (log ++ (commitOf prog db a).toList) db' := by
  have hsound := sound_step h hi.sound
  have hbased t := (hi.based t).trans (List.prefix_append log (commitOf prog db a).toList)
  rcases commit_or_not h with ⟨t, l, l', txn, rfl, hc, hstmt, hemit, rfl⟩ | ⟨hemit, htable⟩
  · obtain ⟨l₀, hlast⟩ :=
      (hi.explained _ _ _ hc).commitsOn hprog (hi.sound.txns _ _ _ hc) hstmt
    have hserial : Serial prog rows₀ (log ++ [(t, l')]) (db.table.commit txn.writes).rows :=
      hi.serial.snoc hlast
    rw [hemit] at hbased ⊢
    refine ⟨hsound, hbased, hserial, fun u l txn' hu => ?_⟩
    rcases update_eq_some.mp hu with ⟨_, heq⟩ | ⟨_, hu⟩
    · cases heq
    · exact (hi.explained u l txn' hu).commit hserial
  · rw [hemit, Option.toList_none, List.append_nil]
    refine ⟨hsound, hi.based, htable ▸ hi.serial, fun t l txn ht => ?_⟩
    rw [htable]
    exact explained_of_step hi hg h htable t l txn ht

omit [DecidableEq T] in
/-- From some point of a run on: what has been committed by then is there before every client that
comes later. -/
lemma SerialInv.rebase (h : SerialInv prog rows₀ ids (fun _ => []) log db) :
    SerialInv prog rows₀ ids (fun t => if db.clients t = none then log else []) log db where
  sound := h.sound
  based t := by
    split
    · exact List.prefix_rfl
    · exact List.nil_prefix
  serial := h.serial
  explained t l txn ht := by
    have hbase := h.explained t l txn ht
    simpa [ht] using hbase

end Machine

end Rows

end AsyncDataHub.Mvcc
