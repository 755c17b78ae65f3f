import AsyncDataHub.JobQueueDrain
import AsyncDataHub.JobQueueLifecycle

/-! No deadlock in the queue: every claim comes to its rows in the order of their positions, so the
row that it waits for lies behind all rows that it has locked. -/
namespace AsyncDataHub.JobQueue
open StepSystem LockTable

variable {s t : State} {a : Action} {c d : TxnId} {call call' : Call} {eff : Effect} {id : JobId}

/-- The position that an insert has drawn and not yet committed. -/
def Call.drawn (call : Call) : Option ℕ :=
  match call.op, call.pc with
  | .enqueue _ _, .insert position => some position
  | .enqueue _ _, .commit (some row) _ => some row.position
  | _, _ => none

/-- Positions are unique: each comes from the sequence, and is drawn once. -/
structure Numbered (s : State) : Prop where
  below : ∀ id row, s.table.rows id = some row → row.position < s.nextPosition
  unique : ∀ id id' row row', s.table.rows id = some row → s.table.rows id' = some row' →
    row.position = row'.position → id' = id
  fresh : ∀ c call p, s.calls c = some call → call.drawn = some p →
    p < s.nextPosition ∧ ∀ id row, s.table.rows id = some row → row.position ≠ p
  apart : ∀ c d call call' p, s.calls c = some call → s.calls d = some call' →
    call.drawn = some p → call'.drawn = some p → d = c

/-- The statements of each operation. -/
def Operation.Has : Operation → Pc → Prop
  | _, .commit _ _ | _, .done _ => True
  | .enqueue _ _, .nextval | .enqueue _ _, .insert _ => True
  | .claim _ _, .select | .claim _ _, .lockRows _ | .claim _ _, .assign _ => True
  | .complete _, .get | .complete _, .finish _ => True
  | _, _ => False

/-- What a call that may have to wait has locked: nothing, or rows before those it has still to come
to. -/
def Call.InTurn (s : State) (c : TxnId) (call : Call) : Prop :=
  match call.pc with
  | .lockRows candidates =>
    (∀ id ∈ candidates, s.table.rows id ≠ none) ∧ candidates.Pairwise s.table.InOrder ∧
      ∀ id, s.locks id = some c →
        s.table.rows id ≠ none ∧ ∀ id' ∈ candidates, s.table.InOrder id id'
  | .nextval | .insert _ | .select | .get | .finish _ => ∀ id, s.locks id ≠ some c
  | _ => True

structure WaitsInv (s : State) : Prop extends LifecycleInv s where
  numbered : Numbered s
  stage : ∀ c call, s.calls c = some call → call.op.Has call.pc
  inTurn : ∀ c call, s.calls c = some call → call.InTurn s c

lemma row_of_does (hs : call.Sound s c) (hw : call.Writes s.table) (h : Does s c call eff)
    {row : DbQueueJob} (hrow : (s.apply c call eff).table.rows id = some row) :
    (∃ old, s.table.rows id = some old ∧ old.position = row.position) ∨
      s.table.rows id = none ∧ call.drawn = some row.position ∧
        ∃ o, eff = .publish (some row) o ∧ row.id = id := by
  cases h with
  | @commits new o hpc =>
    cases new with
    | none => exact .inl ⟨row, hrow, rfl⟩
    | some new =>
      change Function.update s.table.rows new.id (some new) id = some row at hrow
      rcases update_eq_some.mp hrow with ⟨rfl, rfl⟩ | ⟨_, hrow⟩
      · obtain ⟨_, hpending⟩ := commit_locked hs hpc
        cases hop : call.op with
        | enqueue _ _ =>
          rw [hop] at hpending
          cases hpending with
          | inserted fresh => exact .inr ⟨fresh, by simp [Call.drawn, hop, hpc], _, rfl, rfl⟩
        | claim _ _ =>
          rw [hop] at hpending
          cases hpending with
          | assigned found _ new => exact .inl ⟨_, found, by rw [new]; rfl⟩
        | complete jobId =>
          simp only [Call.Writes, hop, hpc] at hw
          obtain ⟨_, old, now, hold, rfl⟩ := hw
          refine .inl ⟨old, ?_, rfl⟩
          rwa [finish_id, s.table.keyed _ _ hold]
      · exact .inl ⟨row, hrow, rfl⟩
  | _ => exact .inl ⟨row, hrow, rfl⟩

lemma row_persists (h : Does s c call eff) (hrow : s.table.rows id ≠ none) :
    (s.apply c call eff).table.rows id ≠ none := by
  cases h with
  | @commits new o hpc =>
    cases new with
    | none => exact hrow
    | some new =>
      change Function.update s.table.rows new.id (some new) id ≠ none
      by_cases hid : id = new.id
      · simp [hid]
      · rwa [Function.update_of_ne hid]
  | _ => exact hrow

lemma inOrder_of_does (hs : call.Sound s c) (hw : call.Writes s.table) (h : Does s c call eff)
    {id' : JobId} (hrow : s.table.rows id ≠ none) (hrow' : s.table.rows id' ≠ none)
    (ho : s.table.InOrder id id') : (s.apply c call eff).table.InOrder id id' := by
  intro job job' hjob hjob'
  rcases row_of_does hs hw h hjob with ⟨old, hold, heq⟩ | ⟨hnone, _⟩
  · rcases row_of_does hs hw h hjob' with ⟨old', hold', heq'⟩ | ⟨hnone, _⟩
    · have hle := ho old old' hold hold'
      omega
    · exact absurd hnone hrow'
  · exact absurd hnone hrow

lemma drawn_of_does (h : Does s c call eff) {p : ℕ}
    (hp : Call.drawn { call with pc := eff.pc } = some p) :
    call.drawn = some p ∨ p = s.nextPosition ∧ eff = .draw (.insert s.nextPosition) := by
  cases h with
  | draws hop _ =>
    simp only [Call.drawn, hop, Effect.pc, Option.some.injEq] at hp
    exact .inr ⟨hp.symm, rfl⟩
  | inserts hop hpc _ _ =>
    simp only [Call.drawn, hop, Effect.pc, newJob] at hp
    exact .inl (by simpa [Call.drawn, hop, hpc] using hp)
  | snaps hop _ | skips hop _ _ | rechecks hop _ _ _ _ | locks hop _ _ _ _ | exhausts hop _
  | assigns hop _ _ _ | gets hop _ _ _ | getsDone hop _ _ _ | finishes hop _ _ _ =>
    simp [Call.drawn, hop] at hp
  | commits _ | fails _ _ => simp [Call.drawn, Effect.pc] at hp

lemma nextPosition_of_does (h : Does s c call eff) :
    s.nextPosition ≤ (s.apply c call eff).nextPosition := by
  cases h with
  | draws _ _ => exact Nat.le_succ _
  | _ => exact le_rfl

lemma numbered_of_does (hi : LifecycleInv s) (hn : Numbered s) (hc : s.calls c = some call)
    (h : Does s c call eff) : Numbered (s.apply c call eff) := by
  have hs := hi.sound c call hc
  have hw := hi.writes c call hc
  have hnext := nextPosition_of_does h
  have hcalls {d : TxnId} {call' : Call} {p : ℕ}
      (hd : (s.apply c call eff).calls d = some call') (hp : call'.drawn = some p) :
      (d = c ∧ p = s.nextPosition ∧ eff = .draw (.insert s.nextPosition)) ∨
        ∃ call'', s.calls d = some call'' ∧ call''.drawn = some p := by
    rw [apply_calls] at hd
    rcases update_eq_some.mp hd with ⟨rfl, rfl⟩ | ⟨_, hd⟩
    · rcases drawn_of_does h hp with hold | ⟨hnew, heff⟩
      · exact .inr ⟨call, hc, hold⟩
      · exact .inl ⟨rfl, hnew, heff⟩
    · exact .inr ⟨call', hd, hp⟩
  refine ⟨fun id row hrow => ?_, fun id id' row row' hrow hrow' heq => ?_,
    fun d call' p hd hp => ?_, fun d d' call₁ call₂ p hd hd' hp hp' => ?_⟩
  · rcases row_of_does hs hw h hrow with ⟨old, hold, hpos⟩ | ⟨_, hdrawn, _⟩
    · have hlt := hn.below id old hold
      omega
    · have hlt := (hn.fresh c call _ hc hdrawn).1
      omega
  · rcases row_of_does hs hw h hrow with ⟨old, hold, hpos⟩ | ⟨_, hdrawn, o, heff, hid⟩ <;>
      rcases row_of_does hs hw h hrow' with ⟨old', hold', hpos'⟩ | ⟨_, hdrawn', o', heff', hid'⟩
    · exact hn.unique id id' old old' hold hold' (by omega)
    · exact absurd (hpos.trans heq) ((hn.fresh c call _ hc hdrawn').2 id old hold)
    · exact absurd (hpos'.trans heq.symm) ((hn.fresh c call _ hc hdrawn).2 id' old' hold')
    · rw [heff] at heff'
      cases heff'
      exact hid'.symm.trans hid
  · rcases hcalls hd hp with ⟨_, rfl, rfl⟩ | ⟨call'', hold, hp''⟩
    · exact ⟨Nat.lt_succ_self _, fun id row hrow => (hn.below id row hrow).ne⟩
    · obtain ⟨hlt, hfresh⟩ := hn.fresh d call'' p hold hp''
      refine ⟨hlt.trans_le hnext, fun id row hrow hpos => ?_⟩
      rcases row_of_does hs hw h hrow with ⟨old, hrow, hsame⟩ | ⟨_, hdrawn, o, rfl, _⟩
      · exact hfresh id old hrow (hsame.trans hpos)
      · obtain rfl := hn.apart c d call call'' p hc hold (hpos ▸ hdrawn) hp''
        rw [calls_apply_self, Option.some.injEq] at hd
        simp [← hd, Call.drawn, Effect.pc] at hp
  · rcases hcalls hd hp with ⟨rfl, rfl, _⟩ | ⟨_, hold, hp₁⟩ <;>
      rcases hcalls hd' hp' with ⟨rfl, hnew, _⟩ | ⟨_, hold', hp₂⟩
    · rfl
    · exact absurd (hn.fresh _ _ _ hold' hp₂).1 (lt_irrefl _)
    · exact absurd (hnew ▸ (hn.fresh _ _ _ hold hp₁).1) (lt_irrefl _)
    · exact hn.apart _ _ _ _ p hold hold' hp₁ hp₂

lemma has_of_does (h : Does s c call eff) : call.op.Has eff.pc := by
  cases h with
  | draws hop _ | inserts hop _ _ _ | snaps hop _ | skips hop _ _ | rechecks hop _ _ _ _
  | locks hop _ _ _ _ | exhausts hop _ | assigns hop _ _ _ | gets hop _ _ _ | getsDone hop _ _ _
  | finishes hop _ _ _ =>
    rw [hop]
    trivial
  | commits _ | fails _ _ => cases call.op <;> trivial

lemma inTurn_of_does (ht : call.InTurn s c) (h : Does s c call eff) :
    Call.InTurn (s.apply c call eff) c { call with pc := eff.pc } := by
  cases h with
  | draws _ hpc | gets _ hpc _ _ =>
    simp only [Call.InTurn, hpc] at ht
    exact ht
  | snaps _ hpc =>
    simp only [Call.InTurn, hpc] at ht
    refine ⟨fun id hmem => ?_, inOrder_queuedJobs _, fun id hl => absurd hl (ht id)⟩
    obtain ⟨job, hjob, rfl⟩ := List.mem_map.mp hmem
    exact Option.ne_none_iff_exists'.mpr ⟨job, (mem_queuedJobs.mp hjob).1⟩
  | skips _ hpc _ =>
    simp only [Call.InTurn, hpc] at ht
    obtain ⟨hrows, horder, hlocks⟩ := ht
    exact ⟨fun id hmem => hrows id (List.mem_cons_of_mem _ hmem), horder.of_cons, fun id hl =>
      ⟨(hlocks id hl).1, fun id' hmem => (hlocks id hl).2 id' (List.mem_cons_of_mem _ hmem)⟩⟩
  | rechecks _ hpc hrow _ _ =>
    simp only [Call.InTurn, hpc] at ht
    obtain ⟨hrows, horder, hlocks⟩ := ht
    refine ⟨fun id hmem => hrows id (List.mem_cons_of_mem _ hmem), horder.of_cons, fun id hl => ?_⟩
    rcases update_eq_some.mp hl with ⟨rfl, _⟩ | ⟨_, hl⟩
    · exact ⟨hrows id List.mem_cons_self, fun id' hmem => List.rel_of_pairwise_cons horder hmem⟩
    · exact ⟨(hlocks id hl).1, fun id' hmem => (hlocks id hl).2 id' (List.mem_cons_of_mem _ hmem)⟩
  | inserts _ _ _ _ | locks _ _ _ _ _ | exhausts _ _ | assigns _ _ _ _ | getsDone _ _ _ _
  | finishes _ _ _ _ | commits _ | fails _ _ => trivial

lemma Call.InTurn.frame (hs : call.Sound s c) (hw : call.Writes s.table) (h : Does s c call eff)
    (hne : d ≠ c) (ht : call'.InTurn s d) : call'.InTurn (s.apply c call eff) d := by
  have hlocks : ∀ id, (s.apply c call eff).locks id = some d → s.locks id = some d := by
    intro id hl
    rcases locks_apply h hl with ⟨heq, _⟩ | ⟨_, hl⟩
    · exact absurd heq hne
    · exact hl
  unfold Call.InTurn at ht ⊢
  split at ht
  · obtain ⟨hrows, horder, hheld⟩ := ht
    refine ⟨fun id hmem => row_persists h (hrows id hmem), horder.imp_of_mem ?_, fun id hl => ?_⟩
    · exact fun hx hy ho => inOrder_of_does hs hw h (hrows _ hx) (hrows _ hy) ho
    · obtain ⟨hrow, ho⟩ := hheld id (hlocks id hl)
      exact ⟨row_persists h hrow, fun id' hmem =>
        inOrder_of_does hs hw h hrow (hrows id' hmem) (ho id' hmem)⟩
  · exact fun id hl => ht id (hlocks id hl)
  · exact fun id hl => ht id (hlocks id hl)
  · exact fun id hl => ht id (hlocks id hl)
  · exact fun id hl => ht id (hlocks id hl)
  · exact fun id hl => ht id (hlocks id hl)
  · trivial

theorem waitsInv_step (h : step s a = some t) (hi : WaitsInv s) : WaitsInv t := by
  have hlife := lifecycleInv_step h hi.toLifecycleInv
  cases took_of_step h with
  | @starts c op fresh =>
    have hnone : ∀ id, s.locks id ≠ some c := by
      intro id hl
      obtain ⟨call, hc, _⟩ := hi.held id c hl
      rw [fresh] at hc
      cases hc
    have hdrawn : Call.drawn ⟨op, op.firstPc⟩ = none := by cases op <;> rfl
    refine ⟨hlife, ⟨hi.numbered.below, hi.numbered.unique, ?_, ?_⟩, forall_update hi.stage ?_,
      forall_update hi.inTurn ?_⟩
    · intro d call p hd hp
      rcases update_eq_some.mp hd with ⟨_, rfl⟩ | ⟨_, hd⟩
      · simp [hdrawn] at hp
      · exact hi.numbered.fresh d call p hd hp
    · intro d d' call call' p hd hd' hp hp'
      rcases update_eq_some.mp hd with ⟨_, rfl⟩ | ⟨_, hd⟩
      · simp [hdrawn] at hp
      · rcases update_eq_some.mp hd' with ⟨_, rfl⟩ | ⟨_, hd'⟩
        · simp [hdrawn] at hp'
        · exact hi.numbered.apart d d' call call' p hd hd' hp hp'
    · cases op <;> trivial
    · cases op <;> exact hnone
  | @runs _ c call eff hc hdoes _ =>
    have hs := hi.sound c call hc
    have hw := hi.writes c call hc
    refine ⟨hlife, numbered_of_does hi.toLifecycleInv hi.numbered hc hdoes, ?_, ?_⟩
    · have hhas : call.op.Has eff.pc := has_of_does hdoes
      rw [apply_calls]
      exact forall_update hi.stage hhas
    · intro d call' hd
      rw [apply_calls] at hd
      rcases update_eq_some.mp hd with ⟨rfl, rfl⟩ | ⟨hne, hd⟩
      · exact inTurn_of_does (hi.inTurn d call hc) hdoes
      · exact (hi.inTurn d call' hd).frame hs hw hdoes hne
  | ticks n =>
    obtain ⟨hbelow, hunique, hfresh, hapart⟩ := hi.numbered
    exact ⟨hlife, ⟨hbelow, hunique, hfresh, hapart⟩, hi.stage, hi.inTurn⟩

/-- A call that cannot go on waits for a row that another call has locked: a claim for its next
candidate, the other operations while they have no lock themselves. -/
lemma waits_of_statement (hi : WaitsInv s) (hc : s.calls c = some call)
    (hopen : ∀ o, call.pc ≠ .done o) (h : statement s c call = none) :
    ∃ id d, s.locks id = some d ∧ d ≠ c ∧
      ((∃ rest, call.pc = .lockRows (id :: rest)) ∨ ∀ id', s.locks id' ≠ some c) := by
  have hs := hi.sound c call hc
  have hstage := hi.stage c call hc
  have hturn := hi.inTurn c call hc
  have hlocked : ∀ id, ¬ Available s.locks id c → ∃ d, s.locks id = some d ∧ d ≠ c := by
    intro id hav
    simpa [Available] using hav
  cases hop : call.op with
  | enqueue id payload =>
    cases hpc : call.pc <;> simp only [hop, hpc, Operation.Has] at hstage
    case nextval => simp [statement, hpc, hop, enqueue] at h
    case insert position =>
      simp only [Call.InTurn, hpc] at hturn
      simp only [statement, hpc, hop, enqueue] at h
      split at h
      · cases h
      · split_ifs at h with hav
        obtain ⟨d, hd, hne⟩ := hlocked id hav
        exact ⟨id, d, hd, hne, .inr hturn⟩
    case commit row o => simp [statement, hpc] at h
    case done o => exact absurd hpc (hopen o)
  | claim worker strategy =>
    cases hpc : call.pc <;> simp only [hop, hpc, Operation.Has] at hstage
    case select => simp [statement, hpc, hop, claim] at h
    case lockRows candidates =>
      cases candidates with
      | nil => simp [statement, hpc, hop, claim] at h
      | cons id rest =>
        simp only [statement, hpc, hop, claim, lockRow] at h
        split_ifs at h with hav
        · split at h
          · cases h
          · split_ifs at h
        · obtain ⟨d, hd, hne⟩ := hlocked id hav
          exact ⟨id, d, hd, hne, .inl ⟨rest, rfl⟩⟩
    case assign job =>
      simp only [Call.Sound, hpc] at hs
      have hav : Available s.locks job.id c := fun d hd => Option.some.inj (hd.symm.trans hs.1)
      simp [statement, hpc, hop, claim, updateRow, hs.2.1, hav] at h
    case commit row o => simp [statement, hpc] at h
    case done o => exact absurd hpc (hopen o)
  | complete jobId =>
    cases hpc : call.pc <;> simp only [hop, hpc, Operation.Has] at hstage
    case get =>
      simp only [statement, hpc, hop, complete] at h
      split at h
      · cases h
      · split_ifs at h
    case finish job =>
      simp only [Call.InTurn, hpc] at hturn
      simp only [statement, hpc, hop, complete, updateRow] at h
      split at h
      · cases h
      · split_ifs at h with hav
        obtain ⟨d, hd, hne⟩ := hlocked job.id hav
        exact ⟨job.id, d, hd, hne, .inr hturn⟩
    case commit row o => simp [statement, hpc] at h
    case done o => exact absurd hpc (hopen o)

lemma later_of_waits (hi : WaitsInv s) (hc : s.calls c = some call)
    (hopen : ∀ o, call.pc ≠ .done o) (h : statement s c call = none) (hl : s.locks id = some c) :
    ∃ id' d row row', s.locks id' = some d ∧ s.table.rows id = some row ∧
      s.table.rows id' = some row' ∧ row.position < row'.position := by
  obtain ⟨id', d, hd, hne, ⟨rest, hpc⟩ | hnone⟩ := waits_of_statement hi hc hopen h
  · have hturn := hi.inTurn c call hc
    simp only [Call.InTurn, hpc] at hturn
    obtain ⟨hrows, _, hheld⟩ := hturn
    obtain ⟨hrow, horder⟩ := hheld id hl
    obtain ⟨row, hrow⟩ := Option.ne_none_iff_exists'.mp hrow
    obtain ⟨row', hrow'⟩ := Option.ne_none_iff_exists'.mp (hrows id' List.mem_cons_self)
    refine ⟨id', d, row, row', hd, hrow, hrow', lt_of_le_of_ne ?_ fun heq => hne ?_⟩
    · exact horder id' List.mem_cons_self row row' hrow hrow'
    · obtain rfl := hi.numbered.unique id id' row row' hrow hrow' heq
      exact Option.some.inj (hd.symm.trans hl)
  · exact absurd hl (hnone id)

structure JobTable.NumberedBelow (table : JobTable) (next : ℕ) : Prop where
  below : ∀ id row, table.rows id = some row → row.position < next
  unique : ∀ id id' row row', table.rows id = some row → table.rows id' = some row' →
    row.position = row'.position → id' = id

lemma Opened.waitsInv (h : Opened s) (hn : s.table.NumberedBelow s.nextPosition) : WaitsInv s where
  toQueueInv := h.queueInv
  writes c call hc := by
    rw [h.idle c] at hc
    cases hc
  numbered := by
    refine ⟨hn.below, hn.unique, fun c call p hc => ?_, fun c d call call' p hc => ?_⟩ <;>
      simp [h.idle c] at hc
  stage c call hc := by
    rw [h.idle c] at hc
    cases hc
  inTurn c call hc := by
    rw [h.idle c] at hc
    cases hc

/-- Inserts, claims with any strategy and completions never wait for each other in a circle: as long
as a call is open, some open call can send its next statement. -/
theorem queue_never_stuck {s₀ s : State} (h₀ : Opened s₀)
    (hn : s₀.table.NumberedBelow s₀.nextPosition) (h : Reach step s₀ s)
    (hopen : ∃ c call, s.calls c = some call ∧ ∀ o, call.pc ≠ .done o) :
    ∃ c, step s (.op c) ≠ none := by
  have hi : WaitsInv s := h.invariant (h₀.waitsInv hn) fun _ _ _ hi _ ht => waitsInv_step ht hi
  by_contra hstuck
  simp only [not_exists, not_not] at hstuck
  have hwait : ∀ c call, s.calls c = some call → statement s c call = none := by
    intro c call hc
    simpa [step, hc] using hstuck c
  -- by induction on how far a locked row is from the end of the sequence
  have hnone : ∀ n id c row, s.locks id = some c → s.table.rows id = some row →
      s.nextPosition - row.position ≠ n := by
    intro n
    induction n using Nat.strong_induction_on with
    | _ n ih =>
      intro id c row hl hrow hdist
      obtain ⟨call, hc, hcopen⟩ := hi.held id c hl
      obtain ⟨id', d, row₁, row', hd, hrow₁, hrow', hlt⟩ :=
        later_of_waits hi hc hcopen (hwait c call hc) hl
      obtain rfl := Option.some.inj (hrow.symm.trans hrow₁)
      have hbelow := hi.numbered.below id' row' hrow'
      exact ih (s.nextPosition - row'.position) (by omega) id' d row' hd hrow' rfl
  obtain ⟨c, call, hc, hcopen⟩ := hopen
  obtain ⟨id, d, hd, _⟩ := waits_of_statement hi hc hcopen (hwait c call hc)
  obtain ⟨call', hd', hdopen⟩ := hi.held id d hd
  obtain ⟨_, _, row, _, _, hrow, _⟩ := later_of_waits hi hd' hdopen (hwait d call' hd') hd
  exact hnone _ id d row hd hrow rfl

lemma numberedBelow_empty (next : ℕ) : JobTable.empty.NumberedBelow next where
  below id row h := by cases h
  unique id id' row row' h := by cases h

/-- A worker waits for a job that another one is about to complete. -/
def claimBehindComplete : List Action :=
  [.start 0 (.enqueue "job_0" "payload-0"), .op 0, .op 0, .op 0,
    .start 1 (.complete "job_0"), .op 1, .op 1, .start 2 (.claim "w1" .blocking), .op 2]

theorem queue_never_stuck_claimBehindComplete :
    ∃ s, exec step emptyQueue claimBehindComplete = some s ∧ step s (.op 2) = none ∧
      ∃ c, step s (.op c) ≠ none := by
  obtain ⟨s, call, hs, hwaits, hc, hpc⟩ : ∃ s call,
      exec step emptyQueue claimBehindComplete = some s ∧ step s (.op 2) = none ∧
        s.calls 2 = some call ∧ call.pc = .lockRows ["job_0"] := ⟨_, _, rfl, rfl, rfl, rfl⟩
  refine ⟨s, hs, hwaits, queue_never_stuck ⟨fun _ => rfl, fun _ => rfl⟩ (numberedBelow_empty 1)
    (reach_of_exec _ hs) ⟨2, call, hc, ?_⟩⟩
  simp [hpc]

end AsyncDataHub.JobQueue
