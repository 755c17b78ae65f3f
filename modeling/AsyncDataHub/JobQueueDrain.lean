import AsyncDataHub.JobQueueClaims

/-! Workers that only claim: none of them takes a job while an earlier one is free, and when one of
them finds the queue empty, every job is spoken for. -/
namespace AsyncDataHub.JobQueue
open StepSystem LockTable

variable {s₀ s t : State} {a : Action} {c d : TxnId} {call call' : Call} {eff : Effect}
  {id : JobId} {job : DbQueueJob}

/-- Nothing is put in or completed, and no transaction fails from outside. -/
def Draining (_ : State) : Action → Prop
  | .start _ (.claim _ _) | .op _ | .tick _ => True
  | _ => False

/-- The call has the row lock of a job that it is about to hand out. -/
def State.Taking (s : State) (c : TxnId) (id : JobId) : Prop :=
  s.locks id = some c ∧ ∃ call, s.calls c = some call ∧
    ((∃ job, call.pc = .assign job ∧ job.id = id) ∨
      ∃ row o, call.pc = .commit (some row) o ∧ row.id = id)

def State.Taken (s : State) (id : JobId) : Prop := ∃ c, s.Taking c id

def JobTable.InOrder (table : JobTable) (id id' : JobId) : Prop :=
  ∀ job job', table.rows id = some job → table.rows id' = some job' → job.position ≤ job'.position

/-- No QUEUED job before this position is free. -/
def State.TakenBefore (s : State) (position : ℕ) : Prop :=
  ∀ job, s.table.Queued job → job.position < position → s.Taken job.id

/-- What a claim knows of the QUEUED jobs from where it stands. -/
def Call.Knows (s : State) (call : Call) : Prop :=
  match call.pc with
  | .lockRows candidates =>
    (∀ job, s.table.Queued job → job.id ∈ candidates ∨ s.Taken job.id) ∧
      candidates.Pairwise s.table.InOrder
  | .assign job | .commit (some job) _ => s.TakenBefore job.position
  | .commit none _ => ∀ job, s.table.Queued job → s.Taken job.id
  | .done (.claimed response) =>
    response.claimed = false → ∀ job, s.table.Queued job → s.Taken job.id
  | _ => True

def Pc.OfClaim : Pc → Prop
  | .select | .lockRows _ | .assign _ | .commit _ _ | .done _ => True
  | _ => False

structure DrainInv (s₀ s : State) : Prop where
  queue : QueueInv s
  claims : ∀ c call, s.calls c = some call →
    (∃ worker strategy, call.op = .claim worker strategy) ∧ call.pc.OfClaim
  locked : ∀ job c, s.table.Queued job → s.locks job.id = some c → s.Taking c job.id
  knows : ∀ c call, s.calls c = some call → call.Knows s
  kept : ∀ job, s₀.table.Queued job →
    s.table.Queued job ∨ ∃ c job', s.HandedOut c job' ∧ job'.id = job.id

lemma Call.Knows.mono (hk : call.Knows s)
    (hqueued : ∀ job, t.table.Queued job → s.table.Queued job)
    (hkeep : ∀ job, t.table.Queued job → s.Taken job.id → t.Taken job.id)
    (horder : ∀ id id', s.table.InOrder id id' → t.table.InOrder id id') : call.Knows t := by
  unfold Call.Knows at hk ⊢
  split at hk
  · refine ⟨fun job hq => ?_, hk.2.imp fun ho => horder _ _ ho⟩
    exact (hk.1 job (hqueued job hq)).imp_right (hkeep job hq)
  · exact fun job hq hlt => hkeep job hq (hk job (hqueued job hq) hlt)
  · exact fun job hq hlt => hkeep job hq (hk job (hqueued job hq) hlt)
  · exact fun job hq => hkeep job hq (hk job (hqueued job hq))
  · exact fun hfalse job hq => hkeep job hq (hk hfalse job (hqueued job hq))
  · trivial

lemma lockRows_of_rollback {worker : String} {strategy : ClaimStrategy} {e : JobError}
    (hop : call.op = .claim worker strategy) (hs : call.Sound s c)
    (h : statement s c call = some (.rollback e)) :
    ∃ candidates, call.pc = .lockRows candidates := by
  cases hpc : call.pc with
  | lockRows candidates => exact ⟨candidates, rfl⟩
  | assign job =>
    simp only [Call.Sound, hpc] at hs
    obtain ⟨hlock, hrow, _⟩ := hs
    have havailable : Available s.locks job.id c :=
      fun d hd => Option.some.inj (hd.symm.trans hlock)
    simp [statement, hpc, hop, claim, updateRow, hrow, havailable] at h
  | commit row o => simp [statement, hpc] at h
  | done o => simp [statement, hpc] at h
  | _ => simp [statement, hpc, hop, claim] at h

section Statement
variable {worker : String} {strategy : ClaimStrategy}

lemma status_of_commit (hop : call.op = .claim worker strategy) (hs : call.Sound s c)
    {row : DbQueueJob} {o : Outcome} (hpc : call.pc = .commit (some row) o) :
    row.status ≠ .queued := by
  obtain ⟨_, hpending⟩ := commit_locked hs hpc
  rw [hop] at hpending
  cases hpending with
  | assigned _ _ new => simp [new, DbQueueJob.assign]

lemma queued_of_apply (hop : call.op = .claim worker strategy) (hs : call.Sound s c)
    (h : Does s c call eff) (hq : (s.apply c call eff).table.Queued job) : s.table.Queued job := by
  cases h with
  | @commits row o hpc =>
    cases row with
    | none => exact hq
    | some row =>
      obtain ⟨hrow, hstatus⟩ := hq
      change Function.update s.table.rows row.id (some row) job.id = some job at hrow
      rcases update_eq_some.mp hrow with ⟨_, rfl⟩ | ⟨_, hrow⟩
      · exact absurd hstatus (status_of_commit hop hs hpc)
      · exact ⟨hrow, hstatus⟩
  | _ => exact hq

lemma taking_apply (hop : call.op = .claim worker strategy) (hs : call.Sound s c)
    (hc : s.calls c = some call) (h : Does s c call eff)
    (hroll : ∀ e, eff = .rollback e → ∃ candidates, call.pc = .lockRows candidates)
    (hd : s.Taking d id) (hq : (s.apply c call eff).table.Queued job) (hid : job.id = id) :
    (s.apply c call eff).Taking d id := by
  obtain ⟨hlock, call', hcall, hpc'⟩ := hd
  by_cases hne : d = c
  · subst hne
    obtain rfl := Option.some.inj (hcall.symm.trans hc)
    have hpcs : ∀ pc, call'.pc = pc → (∃ job, pc = .assign job ∧ job.id = id) ∨
        ∃ row o, pc = .commit (some row) o ∧ row.id = id := fun pc hpc => hpc ▸ hpc'
    cases h with
    | @assigns _ _ job' row _ hpc hfound _ =>
      obtain ⟨_, hassign, rfl⟩ | ⟨_, _, hcommit, _⟩ := hpcs _ hpc
      · cases hassign
        exact ⟨take_self .., _, calls_apply_self ..,
          .inr ⟨_, _, rfl, s.table.keyed job'.id row hfound⟩⟩
      · cases hcommit
    | @commits row o hpc =>
      obtain ⟨_, hassign, _⟩ | ⟨row', o', hcommit, hrow'⟩ := hpcs _ hpc
      · cases hassign
      · cases hcommit
        obtain ⟨hrow, hstatus⟩ := hq
        change Function.update s.table.rows row'.id (some row') job.id = some job at hrow
        rw [hid, hrow', Function.update_self, Option.some.injEq] at hrow
        exact absurd (hrow ▸ hstatus) (status_of_commit hop hs hpc)
    | fails e _ =>
      obtain ⟨candidates, hpc⟩ := hroll e rfl
      simpa using hpcs _ hpc
    | draws _ hpc | inserts _ hpc _ _ | snaps _ hpc | skips _ hpc _ | rechecks _ hpc _ _ _
    | locks _ hpc _ _ _ | exhausts _ hpc | gets _ hpc _ _ | getsDone _ hpc _ _
    | finishes _ hpc _ _ => simpa using hpcs _ hpc
  · refine ⟨(frame_of_does hs h hne hlock).1, call', ?_, hpc'⟩
    rw [apply_calls, Function.update_of_ne hne]
    exact hcall

lemma taken_apply (hop : call.op = .claim worker strategy) (hs : call.Sound s c)
    (hc : s.calls c = some call) (h : Does s c call eff)
    (hroll : ∀ e, eff = .rollback e → ∃ candidates, call.pc = .lockRows candidates)
    (hq : (s.apply c call eff).table.Queued job) (hd : s.Taken job.id) :
    (s.apply c call eff).Taken job.id := by
  obtain ⟨d, hd⟩ := hd
  exact ⟨d, taking_apply hop hs hc h hroll hd hq rfl⟩

lemma inOrder_apply (hop : call.op = .claim worker strategy) (hs : call.Sound s c)
    (h : Does s c call eff) {id' : JobId} (ho : s.table.InOrder id id') :
    (s.apply c call eff).table.InOrder id id' := by
  have hposition : ∀ id job, (s.apply c call eff).table.rows id = some job →
      ∃ old, s.table.rows id = some old ∧ old.position = job.position := by
    intro id job hrow
    cases h with
    | @commits row o hpc =>
      cases row with
      | none => exact ⟨job, hrow, rfl⟩
      | some row =>
        change Function.update s.table.rows row.id (some row) id = some job at hrow
        rcases update_eq_some.mp hrow with ⟨rfl, rfl⟩ | ⟨_, hrow⟩
        · obtain ⟨_, hpending⟩ := commit_locked hs hpc
          rw [hop] at hpending
          cases hpending with
          | assigned found _ new => exact ⟨_, found, by rw [new]; rfl⟩
        · exact ⟨job, hrow, rfl⟩
    | _ => exact ⟨job, hrow, rfl⟩
  intro job job' hrow hrow'
  obtain ⟨old, hold, heq⟩ := hposition id job hrow
  obtain ⟨old', hold', heq'⟩ := hposition id' job' hrow'
  have hle := ho old old' hold hold'
  omega

lemma Call.Knows.frame (hop : call.op = .claim worker strategy) (hs : call.Sound s c)
    (hc : s.calls c = some call) (h : Does s c call eff)
    (hroll : ∀ e, eff = .rollback e → ∃ candidates, call.pc = .lockRows candidates)
    (hk : call'.Knows s) : call'.Knows (s.apply c call eff) :=
  hk.mono (fun _ => queued_of_apply hop hs h) (fun _ hq => taken_apply hop hs hc h hroll hq)
    fun _ _ => inOrder_apply hop hs h

lemma taken_of_not_available (hi : DrainInv s₀ s) (hq : s.table.Queued job)
    (h : ¬ Available s.locks job.id c) : s.Taken job.id := by
  simp only [Available, not_forall] at h
  obtain ⟨d, hd, _⟩ := h
  exact ⟨d, hi.locked job d hq hd⟩

lemma inOrder_queuedJobs (table : JobTable) :
    (table.queuedJobs.map DbQueueJob.id).Pairwise table.InOrder := by
  rw [List.pairwise_map]
  have hsorted : table.queuedJobs.Pairwise (·.position ≤ ·.position) :=
    List.pairwise_insertionSort _ _
  refine hsorted.imp_of_mem fun hx hy hle job job' hrow hrow' => ?_
  obtain rfl := Option.some.inj ((mem_queuedJobs.mp hx).1.symm.trans hrow)
  obtain rfl := Option.some.inj ((mem_queuedJobs.mp hy).1.symm.trans hrow')
  exact hle

lemma knows_of_does (hi : DrainInv s₀ s) (hc : s.calls c = some call)
    (hop : call.op = .claim worker strategy) (h : Does s c call eff)
    (hroll : ∀ e, eff = .rollback e → ∃ candidates, call.pc = .lockRows candidates) :
    Call.Knows (s.apply c call eff) { call with pc := eff.pc } := by
  have hs := hi.queue.sound c call hc
  have hk := hi.knows c call hc
  have hkeep : ∀ job, (s.apply c call eff).table.Queued job → s.Taken job.id →
      (s.apply c call eff).Taken job.id := fun job hq => taken_apply hop hs hc h hroll hq
  have hqueued : ∀ job, (s.apply c call eff).table.Queued job → s.table.Queued job :=
    fun job => queued_of_apply hop hs h
  cases h with
  | snaps _ _ =>
    exact ⟨fun job hq => .inl (List.mem_map_of_mem (mem_queuedJobs.mpr hq)), inOrder_queuedJobs _⟩
  | @skips _ _ id rest _ hpc htaken =>
    simp only [Call.Knows, hpc] at hk
    refine ⟨fun job hq => ?_, hk.2.of_cons⟩
    rcases hk.1 job hq with hmem | htk
    · rcases List.mem_cons.mp hmem with rfl | hrest
      · refine .inr (hkeep job hq (taken_of_not_available (c := c) hi hq fun ha => ?_))
        have hnone := htaken ha
        rw [(hqueued job hq).1] at hnone
        cases hnone
      · exact .inl hrest
    · exact .inr (hkeep job hq htk)
  | @rechecks _ _ id rest row _ hpc hrow hstatus _ =>
    simp only [Call.Knows, hpc] at hk
    refine ⟨fun job hq => ?_, hk.2.of_cons⟩
    rcases hk.1 job hq with hmem | htk
    · rcases List.mem_cons.mp hmem with rfl | hrest
      · have hsame : row = job := Option.some.inj (hrow.symm.trans hq.1)
        exact absurd hq.2 (hsame ▸ hstatus)
      · exact .inl hrest
    · exact .inr (hkeep job hq htk)
  | @locks _ _ id rest first _ hpc hrow hstatus _ =>
    simp only [Call.Knows, hpc] at hk
    intro job hq hlt
    rcases hk.1 job hq with hmem | htk
    · rcases List.mem_cons.mp hmem with rfl | hrest
      · obtain rfl : first = job := Option.some.inj (hrow.symm.trans hq.1)
        exact absurd hlt (lt_irrefl _)
      · have hle := List.rel_of_pairwise_cons hk.2 hrest first job hrow hq.1
        omega
    · exact hkeep job hq htk
  | exhausts _ hpc =>
    simp only [Call.Knows, hpc] at hk
    intro job hq
    rcases hk.1 job hq with hmem | htk
    · cases hmem
    · exact hkeep job hq htk
  | @assigns _ _ job row _ hpc hfound _ =>
    simp only [Call.Knows, hpc] at hk
    simp only [Call.Sound, hpc] at hs
    obtain rfl : row = job := Option.some.inj (hfound.symm.trans hs.2.1)
    exact fun other hq hlt => hkeep other hq (hk other hq hlt)
  | @commits row o hpc =>
    cases row with
    | none =>
      simp only [Call.Knows, hpc] at hk
      cases o with
      | claimed response => exact fun _ job hq => hkeep job hq (hk job (hqueued job hq))
      | _ => trivial
    | some row =>
      obtain ⟨_, hpending⟩ := commit_locked hs hpc
      rw [hop] at hpending
      cases hpending with
      | assigned _ _ _ =>
        intro hfalse
        cases hfalse
  | fails _ _ => trivial
  | draws hop' _ | inserts hop' _ _ _ | gets hop' _ _ _ | getsDone hop' _ _ _
  | finishes hop' _ _ _ =>
    rw [hop] at hop'
    cases hop'

lemma locked_apply (hi : DrainInv s₀ s) (hc : s.calls c = some call)
    (hop : call.op = .claim worker strategy) (h : Does s c call eff)
    (hroll : ∀ e, eff = .rollback e → ∃ candidates, call.pc = .lockRows candidates)
    (hq : (s.apply c call eff).table.Queued job) (hl : (s.apply c call eff).locks job.id = some d) :
    (s.apply c call eff).Taking d job.id := by
  have hs := hi.queue.sound c call hc
  have hold := queued_of_apply hop hs h hq
  have hbefore (hl : s.locks job.id = some d) : (s.apply c call eff).Taking d job.id :=
    taking_apply hop hs hc h hroll (hi.locked job d hold hl) hq rfl
  cases h with
  | snaps _ _ | skips _ _ _ | exhausts _ _ => exact hbefore hl
  | @rechecks _ _ id rest row _ _ hrow hstatus _ =>
    rcases update_eq_some.mp hl with ⟨hid, _⟩ | ⟨_, hl⟩
    · obtain rfl : row = job := Option.some.inj (hrow.symm.trans (hid ▸ hold.1))
      exact absurd hold.2 hstatus
    · exact hbefore hl
  | @locks _ _ id rest row _ _ hrow _ _ =>
    rcases update_eq_some.mp hl with ⟨hid, rfl⟩ | ⟨_, hl⟩
    · refine ⟨by rw [hid]; exact take_self .., _, calls_apply_self .., .inl ⟨row, rfl, ?_⟩⟩
      rw [s.table.keyed _ _ hrow, hid]
    · exact hbefore hl
  | @assigns _ _ job' row _ _ hfound _ =>
    rcases update_eq_some.mp hl with ⟨hid, rfl⟩ | ⟨_, hl⟩
    · refine ⟨by rw [hid]; exact take_self .., _, calls_apply_self .., .inr ⟨_, _, rfl, ?_⟩⟩
      exact (s.table.keyed job'.id row hfound).trans hid.symm
    · exact hbefore hl
  | commits _ | fails _ _ => exact hbefore (releaseAll_eq_some.mp hl).1
  | draws hop' _ | inserts hop' _ _ _ | gets hop' _ _ _ | getsDone hop' _ _ _
  | finishes hop' _ _ _ =>
    rw [hop] at hop'
    cases hop'

lemma ofClaim_of_does (hop : call.op = .claim worker strategy) (h : Does s c call eff) :
    eff.pc.OfClaim := by
  cases h with
  | draws hop' _ | inserts hop' _ _ _ | gets hop' _ _ _ | getsDone hop' _ _ _
  | finishes hop' _ _ _ =>
    rw [hop] at hop'
    cases hop'
  | _ => trivial

lemma kept_apply (hs : call.Sound s c) (hop : call.op = .claim worker strategy)
    (h : Does s c call eff) (hq : s.table.Queued job) :
    (s.apply c call eff).table.Queued job ∨
      ∃ d job', (s.apply c call eff).HandedOut d job' ∧ job'.id = job.id := by
  cases h with
  | @commits row o hpc =>
    cases row with
    | none => exact .inl hq
    | some row =>
      by_cases hid : job.id = row.id
      · obtain ⟨_, hpending⟩ := commit_locked hs hpc
        rw [hop] at hpending
        cases hpending with
        | assigned _ _ _ =>
          exact .inr ⟨c, row, ⟨_, _, calls_apply_self .., rfl, rfl⟩, hid.symm⟩
      · exact .inl ⟨(Function.update_of_ne hid _ _).trans hq.1, hq.2⟩
  | _ => exact .inl hq

lemma handedOut_frame (h : Does s c call eff) (hc : s.calls c = some call)
    (hd : s.HandedOut d job) : (s.apply c call eff).HandedOut d job := by
  obtain ⟨call', o, hcall, hpc, ho⟩ := hd
  refine ⟨call', o, ?_, hpc, ho⟩
  rw [apply_calls, Function.update_of_ne]
  · exact hcall
  · rintro rfl
    obtain rfl := Option.some.inj (hcall.symm.trans hc)
    exact h.not_done o hpc

end Statement

lemma taking_start {pc : Pc} (fresh : s.calls c = none) (hd : s.Taking d id) :
    (s.setCall c call pc).Taking d id := by
  obtain ⟨hlock, call, hcall, hpc⟩ := hd
  refine ⟨hlock, call, (Function.update_of_ne ?_ _ _).trans hcall, hpc⟩
  rintro rfl
  rw [fresh] at hcall
  cases hcall

lemma taken_start {pc : Pc} (fresh : s.calls c = none) (h : s.Taken id) :
    (s.setCall c call pc).Taken id := by
  obtain ⟨d, hd⟩ := h
  exact ⟨d, taking_start fresh hd⟩

lemma drainInv_start {worker : String} {strategy : ClaimStrategy} (fresh : s.calls c = none)
    (hqueue : QueueInv (s.setCall c ⟨.claim worker strategy, .select⟩ .select))
    (hi : DrainInv s₀ s) : DrainInv s₀ (s.setCall c ⟨.claim worker strategy, .select⟩ .select) where
  queue := hqueue
  claims := forall_update hi.claims ⟨⟨worker, strategy, rfl⟩, trivial⟩
  locked job d hq hl := taking_start fresh (hi.locked job d hq hl)
  knows := by
    refine forall_update (fun d call hd => ?_) trivial
    exact (hi.knows d call hd).mono (fun _ hq => hq) (fun _ _ hd => taken_start fresh hd)
      fun _ _ ho => ho
  kept job hq := by
    refine (hi.kept job hq).imp_right ?_
    rintro ⟨d, job', ⟨call, o, hcall, ho⟩, hid⟩
    refine ⟨d, job', ⟨call, o, (Function.update_of_ne ?_ _ _).trans hcall, ho⟩, hid⟩
    rintro rfl
    rw [fresh] at hcall
    cases hcall

theorem drainInv_step (hg : Draining s a) (h : step s a = some t) (hi : DrainInv s₀ s) :
    DrainInv s₀ t := by
  have hqueue := queueInv_step h hi.queue
  cases a with
  | start c op =>
    simp only [step] at h
    split at h
    · cases h
    · cases h
      cases op with
      | claim worker strategy => exact drainInv_start ‹_› hqueue hi
      | enqueue _ _ | complete _ => cases hg
  | op c =>
    simp only [step] at h
    split at h
    · cases h
    · rename_i call hc
      obtain ⟨eff, heff, rfl⟩ := Option.map_eq_some_iff.mp h
      obtain ⟨⟨worker, strategy, hop⟩, _⟩ := hi.claims c call hc
      have hs := hi.queue.sound c call hc
      have hdoes := does_of_statement heff
      have hroll : ∀ e, eff = .rollback e → ∃ candidates, call.pc = .lockRows candidates :=
        fun e he => lockRows_of_rollback hop hs (he ▸ heff)
      refine ⟨hqueue, ?_, fun job d hq hl => locked_apply hi hc hop hdoes hroll hq hl, ?_,
        fun job hq => ?_⟩
      · rw [apply_calls]
        exact forall_update hi.claims ⟨⟨worker, strategy, hop⟩, ofClaim_of_does hop hdoes⟩
      · intro d call' hd
        rw [apply_calls] at hd
        rcases update_eq_some.mp hd with ⟨rfl, rfl⟩ | ⟨_, hd⟩
        · exact knows_of_does hi hc hop hdoes hroll
        · exact (hi.knows d call' hd).frame hop hs hc hdoes hroll
      · rcases hi.kept job hq with hq | ⟨d, job', hd, hid⟩
        · exact kept_apply hs hop hdoes hq
        · exact .inr ⟨d, job', handedOut_frame hdoes hc hd, hid⟩
  | fail c sqlstate => cases hg
  | tick n =>
    cases h
    exact ⟨hqueue, hi.claims, hi.locked, hi.knows, hi.kept⟩

lemma Opened.drainInv (h : Opened s) : DrainInv s s where
  queue := h.queueInv
  claims c call hc := by
    rw [h.idle c] at hc
    cases hc
  locked job c _ hl := by
    rw [h.unlocked job.id] at hl
    cases hl
  knows c call hc := by
    rw [h.idle c] at hc
    cases hc
  kept job hq := .inl hq

lemma DrainInv.skipLocked_goes_on {worker : String} (hi : DrainInv s₀ s)
    (hc : s.calls c = some call) (hop : call.op = .claim worker .skipLocked)
    (hdone : ∀ o, call.pc ≠ .done o) : step s (.op c) ≠ none := by
  have hs := hi.queue.sound c call hc
  have hstage := (hi.claims c call hc).2
  simp only [step, hc, ne_eq, Option.map_eq_none_iff]
  cases hpc : call.pc with
  | select => simp [statement, hpc, hop, claim]
  | lockRows candidates =>
    cases candidates with
    | nil => simp [statement, hpc, hop, claim]
    | cons id rest =>
      simp only [statement, hpc, hop, claim, lockRow]
      split_ifs
      · split
        · simp
        · split_ifs <;> simp
      · simp
  | assign job =>
    simp only [Call.Sound, hpc] at hs
    have havailable : Available s.locks job.id c :=
      fun d hd => Option.some.inj (hd.symm.trans hs.1)
    simp [statement, hpc, hop, claim, updateRow, hs.2.1, havailable]
  | commit row o => simp [statement, hpc]
  | done o => exact absurd hpc (hdone o)
  | _ => simp [hpc, Pc.OfClaim] at hstage

lemma DrainInv.takenBefore (hi : DrainInv s₀ s) (hd : s.Taking c job.id)
    (hq : s.table.Queued job) : s.TakenBefore job.position := by
  obtain ⟨_, call, hc, hpc⟩ := hd
  have hk := hi.knows c call hc
  have hs := hi.queue.sound c call hc
  obtain ⟨⟨worker, strategy, hop⟩, _⟩ := hi.claims c call hc
  rcases hpc with ⟨row, hpc, hid⟩ | ⟨row, o, hpc, hid⟩
  · simp only [Call.Knows, Call.Sound, hpc] at hk hs
    obtain rfl : row = job := Option.some.inj (hs.2.1.symm.trans (hid ▸ hq.1))
    exact hk
  · simp only [Call.Knows, hpc] at hk
    obtain ⟨_, hpending⟩ := commit_locked hs hpc
    rw [hop] at hpending
    cases hpending with
    | @assigned _ _ old _ found _ new =>
      obtain rfl : old = job := Option.some.inj (found.symm.trans (hid ▸ hq.1))
      subst new
      exact hk

/-- When workers only claim, a job that is being taken is the first that is free, and who skips
locked rows waits for nobody. As soon as one of them is told that the queue is empty, every job that
is still QUEUED is being taken; so when all have ended, each job has gone to exactly one of them. -/
theorem queue_drains {s₀ s : State} (h₀ : Opened s₀) (h : ReachVia step Draining s₀ s) :
    (∀ c job other, s.Taking c job.id → s.table.Queued job → s.table.Queued other →
      other.position < job.position → s.Taken other.id) ∧
    (∀ c call worker, s.calls c = some call → call.op = .claim worker .skipLocked →
      (∀ o, call.pc ≠ .done o) → step s (.op c) ≠ none) ∧
    ((∃ c call, s.calls c = some call ∧ call.pc = .done (.claimed { claimed := false })) →
      (∀ job, s.table.Queued job → s.Taken job.id) ∧
      (s.Quiet → ∀ job, s₀.table.Queued job →
        ∃! c, ∃ job', s.HandedOut c job' ∧ job'.id = job.id)) := by
  have hi : DrainInv s₀ s := h.invariant h₀.drainInv fun _ _ _ hi hg ht => drainInv_step hg ht hi
  refine ⟨fun c job other hd hjob hother hlt => hi.takenBefore hd hjob other hother hlt,
    fun c call worker hc hop hdone => hi.skipLocked_goes_on hc hop hdone, ?_⟩
  rintro ⟨c, call, hc, hpc⟩
  have hk := hi.knows c call hc
  simp only [Call.Knows, hpc, forall_const] at hk
  refine ⟨hk, fun hquiet job hjob => ?_⟩
  rcases hi.kept job hjob with hq | ⟨d, job', hd, hid⟩
  · obtain ⟨d, _, call', hcall, hpc'⟩ := hk job hq
    obtain ⟨o, ho⟩ := hquiet d call' hcall
    simp [ho] at hpc'
  · refine ⟨d, ⟨job', hd, hid⟩, ?_⟩
    rintro d' ⟨job'', hd', hid'⟩
    exact hi.queue.once d' d job'' job' hd' hd (hid'.trans hid.symm)

def waitingJob (id : JobId) (position : ℕ) : DbQueueJob where
  id := id
  position := position
  payload := "payload"
  createdAt := 0
  updatedAt := 0

def twoJobs : State where
  table := (JobTable.empty.write (waitingJob "job_0" 1)).write (waitingJob "job_1" 2)
  nextPosition := 3

/-- Two workers take the two jobs; the third one finds both of them locked. -/
def threeWorkers : List Action :=
  [.start 0 (.claim "w1" .skipLocked), .start 1 (.claim "w2" .skipLocked),
    .start 2 (.claim "w3" .skipLocked), .op 0, .op 0, .op 1, .op 1, .op 1, .op 2, .op 0, .op 2,
    .op 2, .op 2, .op 2]

theorem queue_drains_threeWorkers :
    ∃ s, exec step twoJobs threeWorkers = some s ∧ s.table.Queued (waitingJob "job_0" 1) ∧
      ∀ job, s.table.Queued job → s.Taken job.id := by
  obtain ⟨s, call, hs, hqueued, hcall, hpc⟩ : ∃ s call, exec step twoJobs threeWorkers = some s ∧
      s.table.Queued (waitingJob "job_0" 1) ∧ s.calls 2 = some call ∧
        call.pc = .done (.claimed { claimed := false }) :=
    ⟨_, _, rfl, ⟨rfl, rfl⟩, rfl, rfl⟩
  have hreach : ReachVia step Draining twoJobs s := reachVia_of_exec threeWorkers hs
    (guarded_of_forall_mem (by simp [threeWorkers, Draining]) _)
  obtain ⟨_, _, hempty⟩ := queue_drains ⟨fun _ => rfl, fun _ => rfl⟩ hreach
  exact ⟨s, hs, hqueued, (hempty ⟨2, call, hcall, hpc⟩).1⟩

end AsyncDataHub.JobQueue
