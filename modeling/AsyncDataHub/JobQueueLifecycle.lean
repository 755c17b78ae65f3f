import AsyncDataHub.JobQueueClaims

/-! The lifecycle of a job: QUEUED, RUNNING, DONE. A claim sends only QUEUED rows on; complete does
not look at the status, so whether a run keeps the order depends on where its completions fall. -/
namespace AsyncDataHub.JobQueue
open StepSystem LockTable

variable {s t : State} {a : Action} {c d : TxnId} {call call' : Call} {eff : Effect}

def State.status (s : State) (id : JobId) : Option EnqueuedJobStatus :=
  (s.table.rows id).map DbQueueJob.status

def lifecycle : List EnqueuedJobStatus := [.queued, .running, .done]

def statusHistory (id : JobId) (s : State) (acts : List Action) : List EnqueuedJobStatus :=
  history step (State.status · id) s acts

/-- One step of a complete: it writes nothing and does not return, or it commits DONE for a job
that is RUNNING. -/
inductive CompleteStep (s : State) (c : TxnId) (jobId : JobId) (t : State) : Prop
  | unchanged (table : t.table = s.table)
      (unreturned : ∀ call job, t.calls c = some call → call.pc ≠ .done (.completed job))
  | finishes {old : DbQueueJob} {now : ℕ} (found : s.table.rows jobId = some old)
      (running : old.status = .running) (table : t.table = s.table.write (old.finish now))

def StepsOfComplete (s : State) (a : Action) : Prop :=
  ∀ c call jobId t, a.call = some c → s.calls c = some call → call.op = .complete jobId →
    step s a = some t → CompleteStep s c jobId t

/-- What is RUNNING or DONE has been handed out by a claim, to the worker of its `locked_by`. -/
def State.Claimed (s : State) : Prop :=
  ∀ id row, s.table.rows id = some row → row.status ≠ .queued →
    ∃ c job worker, s.HandedOut c job ∧ job.id = id ∧ job.lockedBy = some worker ∧
      row.lockedBy = some worker

/-- The jobs of a run keep to the lifecycle. -/
structure KeepsLifecycle (s : State) (acts : List Action) : Prop where
  history : ∀ id, statusHistory id s acts <+: lifecycle
  completes : Guarded step StepsOfComplete s acts
  claimed : Along step State.Claimed s acts

/-- A complete that sends its COMMIT does so while the job is RUNNING. -/
def CommitsRunning (s : State) (a : Action) : Prop :=
  ∀ c call jobId row o, a = .op c → s.calls c = some call → call.op = .complete jobId →
    call.pc = .commit row o → s.status jobId = some .running

/-- A complete does not read a job that is DONE, and a job that it updates is RUNNING. -/
def FindsRunning (s : State) (a : Action) : Prop :=
  ∀ c call jobId, a = .op c → s.calls c = some call → call.op = .complete jobId →
    (call.pc = .get → s.status jobId ≠ some .done) ∧
    ∀ job, call.pc = .finish job → s.status jobId = some .running

/-- An insert has a QUEUED row; a complete has the row of its job with another status, or no row
because the job is DONE. -/
def Call.Writes (table : JobTable) (call : Call) : Prop :=
  match call.op, call.pc with
  | .enqueue _ _, .commit (some row) _ => row.status = .queued
  | .complete jobId, .finish job => job.id = jobId
  | .complete jobId, .commit (some row) o =>
    (∃ job, o = .completed job) ∧
      ∃ old now, table.rows jobId = some old ∧ row = old.finish now
  | .complete jobId, .commit none o =>
    (∃ job, o = .completed job) ∧ ∃ row, table.rows jobId = some row ∧ row.status = .done
  | _, _ => True

structure LifecycleInv (s : State) : Prop extends QueueInv s where
  writes : ∀ c call, s.calls c = some call → call.Writes s.table

@[simp] theorem finish_id (job : DbQueueJob) (now : ℕ) : (job.finish now).id = job.id := rfl

@[simp] theorem assign_id (job : DbQueueJob) (worker : String) (now : ℕ) :
    (job.assign worker now).id = job.id := rfl

lemma writes_done {table : JobTable} (o : Outcome) (hpc : call.pc = .done o) :
    call.Writes table := by
  unfold Call.Writes
  cases call.op <;> simp [hpc]

lemma writes_of_does (hw : call.Writes s.table) (h : Does s c call eff) :
    Call.Writes (s.apply c call eff).table { call with pc := eff.pc } := by
  cases h with
  | draws hop _ | snaps hop _ | skips hop _ _ | rechecks hop _ _ _ _ | locks hop _ _ _ _
  | exhausts hop _ | assigns hop _ _ _ => simp [Call.Writes, hop, Effect.pc]
  | inserts hop _ _ _ => simp [Call.Writes, hop, Effect.pc, newJob]
  | gets hop _ hfound _ =>
    simp only [Call.Writes, hop, Effect.pc]
    exact s.table.keyed _ _ hfound
  | getsDone hop _ hfound hstatus =>
    simp only [Call.Writes, hop, Effect.pc]
    exact ⟨⟨_, rfl⟩, _, hfound, hstatus⟩
  | finishes hop hpc hfound _ =>
    simp only [Call.Writes, hop, hpc] at hw
    subst hw
    simp only [Call.Writes, hop, Effect.pc]
    exact ⟨⟨_, rfl⟩, _, _, hfound, rfl⟩
  | commits _ => exact writes_done _ rfl
  | fails _ _ => exact writes_done _ rfl

lemma Pending.done {table : JobTable} {row old : DbQueueJob} {op : Operation} {o : Outcome}
    (h : Pending table row op o) (hold : table.rows row.id = some old)
    (hstatus : old.status = .done) : row.status = .done := by
  cases h with
  | inserted fresh => simp [fresh] at hold
  | assigned found queued _ =>
    obtain rfl := Option.some.inj (found.symm.trans hold)
    simp [queued] at hstatus
  | finished _ status => exact status

lemma done_of_does (hs : call.Sound s c) (h : Does s c call eff) {id : JobId} {row : DbQueueJob}
    (hrow : s.table.rows id = some row) (hstatus : row.status = .done) :
    ∃ row, (s.apply c call eff).table.rows id = some row ∧ row.status = .done := by
  cases h with
  | @commits new o hpc =>
    cases new with
    | none => exact ⟨row, hrow, hstatus⟩
    | some new =>
      obtain ⟨_, hpending⟩ := commit_locked hs hpc
      by_cases hid : id = new.id
      · subst hid
        exact ⟨new, Function.update_self .., hpending.done hrow hstatus⟩
      · exact ⟨row, (Function.update_of_ne hid _ _).trans hrow, hstatus⟩
  | _ => exact ⟨row, hrow, hstatus⟩

lemma Call.Writes.frame (hw : call'.Writes s.table) (hs' : call'.Sound s d) (hs : call.Sound s c)
    (h : Does s c call eff) (hne : d ≠ c) : call'.Writes (s.apply c call eff).table := by
  unfold Call.Writes at hw ⊢
  split at hw <;> try exact hw
  · rename_i jobId row o _ hpc
    obtain ⟨ho, old, now, hold, rfl⟩ := hw
    obtain ⟨hlock, _⟩ := commit_locked hs' hpc
    obtain rfl := s.table.keyed _ _ hold
    obtain ⟨_, hsame⟩ := frame_of_does hs h hne hlock
    exact ⟨ho, old, now, hsame.trans hold, rfl⟩
  · obtain ⟨ho, row, hrow, hstatus⟩ := hw
    exact ⟨ho, done_of_does hs h hrow hstatus⟩

theorem lifecycleInv_step (h : step s a = some t) (hi : LifecycleInv s) : LifecycleInv t := by
  refine ⟨queueInv_step h hi.toQueueInv, ?_⟩
  cases took_of_step h with
  | @starts c op _ =>
    refine forall_update hi.writes ?_
    cases op <;> trivial
  | @runs _ c call eff hc hdoes _ =>
    have hs := hi.sound c call hc
    intro d call' hd
    rw [apply_calls] at hd
    rcases update_eq_some.mp hd with ⟨rfl, rfl⟩ | ⟨hne, hd⟩
    · exact writes_of_does (hi.writes d call hc) hdoes
    · exact (hi.writes d call' hd).frame (hi.sound d call' hd) hs hdoes hne
  | ticks _ => exact hi.writes

/-- A step writes no row, a new QUEUED row, the assignment of a QUEUED row that it hands out, or
the row that a complete has finished. -/
inductive Moved (s : State) (a : Action) (t : State) : Prop
  | same (table : t.table = s.table)
  | inserts {row : DbQueueJob} (fresh : s.table.rows row.id = none) (queued : row.status = .queued)
      (table : t.table = s.table.write row)
  | assigns {old : DbQueueJob} {worker : String} {now : ℕ} {c : TxnId} (queued : s.table.Queued old)
      (handed : t.HandedOut c (old.assign worker now))
      (table : t.table = s.table.write (old.assign worker now))
  | finishes {c : TxnId} {call : Call} {old : DbQueueJob} {row : Option DbQueueJob} {now : ℕ}
      {o : Outcome} (taken : a = .op c) (running : s.calls c = some call)
      (op : call.op = .complete old.id) (pc : call.pc = .commit row o)
      (found : s.table.rows old.id = some old) (table : t.table = s.table.write (old.finish now))

lemma moved_of_commit (hs : call.Sound s c) (hw : call.Writes s.table) (hc : s.calls c = some call)
    {row : DbQueueJob} {o : Outcome} (hpc : call.pc = .commit (some row) o) :
    Moved s (.op c) (s.apply c call (.publish (some row) o)) := by
  obtain ⟨_, hpending⟩ := commit_locked hs hpc
  cases hop : call.op with
  | enqueue id payload =>
    simp only [Call.Writes, hop, hpc] at hw
    rw [hop] at hpending
    cases hpending with
    | inserted fresh => exact .inserts fresh hw rfl
  | claim worker strategy =>
    rw [hop] at hpending
    cases hpending with
    | assigned found queued new =>
      subst new
      exact .assigns ⟨found, queued⟩ ⟨_, _, calls_apply_self .., rfl, rfl⟩ rfl
  | complete jobId =>
    simp only [Call.Writes, hop, hpc] at hw
    obtain ⟨_, old, now, hold, rfl⟩ := hw
    obtain rfl := s.table.keyed _ _ hold
    exact .finishes rfl hc hop hpc hold rfl

lemma apply_of_step (ha : a.call = some c) (h : step s a = some t) :
    ∃ call eff, s.calls c = some call ∧ Does s c call eff ∧ t = s.apply c call eff ∧
      (a = .op c ∨ ∃ e, eff = .rollback e) := by
  cases a with
  | start _ _ | tick _ => cases ha
  | op d =>
    cases ha
    cases took_of_step h with
    | runs running does sender =>
      cases sender
      exact ⟨_, _, running, does, rfl, .inl rfl⟩
  | fail d sqlstate =>
    cases ha
    simp only [step] at h
    split at h
    · cases h
    · rename_i call hc
      split at h
      · cases h
      · rename_i hpc
        exact ⟨call, _, hc, .fails _ hpc, (Option.some.inj h).symm, .inr ⟨_, rfl⟩⟩

theorem moved_of_step (hi : LifecycleInv s) (h : step s a = some t) : Moved s a t := by
  cases ha : a.call with
  | none =>
    cases took_of_step h with
    | starts _ | ticks _ => exact .same rfl
    | runs _ _ hsender => simp [ha] at hsender
  | some c =>
    obtain ⟨call, eff, hc, hdoes, rfl, hop⟩ := apply_of_step ha h
    cases hdoes with
    | @commits row o hpc =>
      cases row with
      | none => exact .same rfl
      | some row =>
        rcases hop with rfl | ⟨e, he⟩
        · exact moved_of_commit (hi.sound _ _ hc) (hi.writes _ _ hc) hc hpc
        · cases he
    | _ => exact .same rfl

lemma write_status {table : JobTable} {row : DbQueueJob} (htable : t.table = table.write row)
    (id : JobId) :
    t.status id = if id = row.id then some row.status else (table.rows id).map (·.status) := by
  unfold State.status
  rw [htable, write_rows]
  split_ifs with hid
  · simp [hid]
  · simp [hid]

/-- What may still come for a job from its status on. -/
def planFrom : Option EnqueuedJobStatus → List EnqueuedJobStatus
  | none | some .queued => lifecycle
  | some .running => [.running, .done]
  | some .done => [.done]
  | some .failed => [.failed]

lemma toList_prefix_planFrom (status : Option EnqueuedJobStatus) :
    status.toList <+: planFrom status := by
  cases status with
  | none => simp
  | some status => cases status <;> simp [planFrom, lifecycle]

lemma status_step (hi : LifecycleInv s) (hg : CommitsRunning s a) (h : step s a = some t)
    (id : JobId) : t.status id = s.status id ∨
      planFrom (s.status id) = (s.status id).toList ++ planFrom (t.status id) := by
  cases moved_of_step hi h with
  | same table =>
    left
    unfold State.status
    rw [table]
  | inserts fresh queued table =>
    rw [write_status table]
    split_ifs with hid
    · subst hid
      simp [State.status, fresh, queued, planFrom]
    · exact .inl rfl
  | @assigns old worker now c queued _ table =>
    rw [write_status table]
    split_ifs with hid
    · obtain ⟨hrow, hstatus⟩ := queued
      have hold : s.status id = some .queued := by
        rw [hid, assign_id, State.status, hrow, Option.map_some, hstatus]
      simp [hold, DbQueueJob.assign, planFrom, lifecycle]
    · exact .inl rfl
  | @finishes c call old row now o taken running op pc found table =>
    rw [write_status table]
    split_ifs with hid
    · have hold : s.status id = some .running := hid ▸ hg c call _ row o taken running op pc
      simp [hold, DbQueueJob.finish, planFrom]
    · exact .inl rfl

lemma HandedOut.apply (hc : s.calls c = some call) (h : Does s c call eff) {job : DbQueueJob}
    (hd : s.HandedOut d job) : (s.apply c call eff).HandedOut d job := by
  obtain ⟨call', o, hcall, hpc, ho⟩ := hd
  have hne : d ≠ c := by
    intro hdc
    subst hdc
    obtain rfl := Option.some.inj (hc.symm.trans hcall)
    exact h.not_done o hpc
  exact ⟨call', o, by rw [apply_calls, Function.update_of_ne hne]; exact hcall, hpc, ho⟩

lemma HandedOut.step (h : step s a = some t) {job : DbQueueJob} (hd : s.HandedOut d job) :
    t.HandedOut d job := by
  cases took_of_step h with
  | @starts c op fresh =>
    obtain ⟨call, o, hcall, hpc, ho⟩ := hd
    have hne : d ≠ c := by
      intro hdc
      subst hdc
      simp [fresh] at hcall
    exact ⟨call, o, (Function.update_of_ne hne _ _).trans hcall, hpc, ho⟩
  | runs running does _ => exact HandedOut.apply running does hd
  | ticks _ => exact hd

lemma State.Claimed.mono (h : step s a = some t) (hcl : s.Claimed) {id : JobId} {row : DbQueueJob}
    (hrow : s.table.rows id = some row) (hstatus : row.status ≠ .queued) :
    ∃ c job worker, t.HandedOut c job ∧ job.id = id ∧ job.lockedBy = some worker ∧
      row.lockedBy = some worker := by
  obtain ⟨c, job, worker, hd, hrest⟩ := hcl id row hrow hstatus
  exact ⟨c, job, worker, HandedOut.step h hd, hrest⟩

lemma claimed_step (hi : LifecycleInv s) (hg : CommitsRunning s a) (h : step s a = some t)
    (hcl : s.Claimed) : t.Claimed := by
  intro id row hrow hstatus
  cases moved_of_step hi h with
  | same table => exact hcl.mono h (table ▸ hrow) hstatus
  | inserts _ queued table =>
    rw [table, write_rows] at hrow
    rcases update_eq_some.mp hrow with ⟨_, rfl⟩ | ⟨_, hrow⟩
    · exact absurd queued hstatus
    · exact hcl.mono h hrow hstatus
  | @assigns old worker now c _ handed table =>
    rw [table, write_rows] at hrow
    rcases update_eq_some.mp hrow with ⟨rfl, rfl⟩ | ⟨_, hrow⟩
    · exact ⟨c, _, worker, handed, rfl, rfl, rfl⟩
    · exact hcl.mono h hrow hstatus
  | @finishes c call old _ now o taken running op pc found table =>
    rw [table, write_rows] at hrow
    rcases update_eq_some.mp hrow with ⟨rfl, rfl⟩ | ⟨_, hrow⟩
    · have hold := hg c call _ _ o taken running op pc
      rw [State.status, found, Option.map_some, Option.some.injEq] at hold
      obtain ⟨d, job, worker, hd, hjob⟩ := hcl.mono h found (by simp [hold])
      exact ⟨d, job, worker, hd, hjob⟩
    · exact hcl.mono h hrow hstatus

lemma Call.Writes.completed {jobId : JobId} {row : Option DbQueueJob} {o : Outcome}
    (hw : call.Writes s.table) (hop : call.op = .complete jobId) (hpc : call.pc = .commit row o) :
    ∃ job, o = .completed job := by
  cases row <;> simp only [Call.Writes, hop, hpc] at hw <;> exact hw.1

lemma completeStep_of_pc {jobId : JobId} (htable : (s.apply c call eff).table = s.table)
    (hpc : ∀ job, eff.pc ≠ .done (.completed job)) :
    CompleteStep s c jobId (s.apply c call eff) := by
  refine .unchanged htable fun call' job hcall => ?_
  rw [calls_apply_self, Option.some.injEq] at hcall
  subst hcall
  exact hpc job

lemma completeStep_of_does {jobId : JobId} (hw : call.Writes s.table)
    (hop : call.op = .complete jobId) (h : Does s c call eff)
    (hg : ∀ row o, call.pc = .commit row o → s.status jobId = some .running) :
    CompleteStep s c jobId (s.apply c call eff) := by
  cases h with
  | @commits row o hpc =>
    have hrunning := hg row o hpc
    cases row with
    | none =>
      simp only [Call.Writes, hop, hpc] at hw
      obtain ⟨_, row, hrow, hstatus⟩ := hw
      simp [State.status, hrow, hstatus] at hrunning
    | some row =>
      simp only [Call.Writes, hop, hpc] at hw
      obtain ⟨_, old, now, hold, rfl⟩ := hw
      rw [State.status, hold, Option.map_some, Option.some.injEq] at hrunning
      exact .finishes hold hrunning rfl
  | _ => exact completeStep_of_pc rfl fun job hdone => by cases hdone

lemma stepsOfComplete_iff (hi : LifecycleInv s) : StepsOfComplete s a ↔ CommitsRunning s a := by
  constructor
  · intro h c call jobId row o ha hc hop hpc
    subst ha
    have hstep : step s (.op c) = some (s.apply c call (.publish row o)) := by
      simp [step, hc, statement, hpc]
    obtain ⟨job, rfl⟩ := Call.Writes.completed (hi.writes c call hc) hop hpc
    cases h c call jobId _ rfl hc hop hstep with
    | unchanged _ unreturned => exact absurd rfl (unreturned _ job (calls_apply_self ..))
    | finishes found running _ => rw [State.status, found, Option.map_some, running]
  · intro h c call jobId t ha hc hop hstep
    obtain ⟨call', eff, hc', hdoes, rfl, hact⟩ := apply_of_step ha hstep
    obtain rfl := Option.some.inj (hc'.symm.trans hc)
    rcases hact with rfl | ⟨e, rfl⟩
    · exact completeStep_of_does (hi.writes _ _ hc) hop hdoes fun row o hpc =>
        h _ _ _ row o rfl hc hop hpc
    · exact completeStep_of_pc rfl fun job hdone => by cases hdone

/-- Every complete that has to commit does so on a RUNNING job. -/
def CommitsSound (s : State) : Prop :=
  ∀ c call jobId row o, s.calls c = some call → call.op = .complete jobId →
    call.pc = .commit row o → s.status jobId = some .running

lemma commitsSound_frame (hi : LifecycleInv s) (hcs : CommitsSound s) (hc : s.calls c = some call)
    (h : Does s c call eff) (hne : d ≠ c) {jobId : JobId} {row : Option DbQueueJob} {o : Outcome}
    (hd : s.calls d = some call') (hop : call'.op = .complete jobId)
    (hpc : call'.pc = .commit row o) : (s.apply c call eff).status jobId = some .running := by
  have hrunning := hcs d call' jobId row o hd hop hpc
  have hw := hi.writes d call' hd
  cases row with
  | none =>
    simp only [Call.Writes, hop, hpc] at hw
    obtain ⟨_, row, hrow, hstatus⟩ := hw
    simp [State.status, hrow, hstatus] at hrunning
  | some row =>
    simp only [Call.Writes, hop, hpc] at hw
    obtain ⟨_, old, now, hold, rfl⟩ := hw
    obtain rfl := s.table.keyed _ _ hold
    obtain ⟨hlock, _⟩ := commit_locked (hi.sound d call' hd) hpc
    obtain ⟨_, hsame⟩ := frame_of_does (hi.sound c call hc) h hne hlock
    rw [finish_id] at hsame
    rw [State.status, hsame]
    exact hrunning

lemma commitsSound_step (hi : LifecycleInv s) (hcs : CommitsSound s) (hg : FindsRunning s a)
    (h : step s a = some t) : CommitsSound t := by
  intro d call' jobId row o hd hop hpc
  cases ha : a.call with
  | none =>
    cases took_of_step h with
    | @starts c op _ =>
      rcases update_eq_some.mp hd with ⟨_, rfl⟩ | ⟨_, hd⟩
      · cases op <;> cases hpc
      · exact hcs d call' jobId row o hd hop hpc
    | ticks _ => exact hcs d call' jobId row o hd hop hpc
    | runs _ _ hsender => simp [ha] at hsender
  | some c =>
    obtain ⟨call, eff, hc, hdoes, rfl, hact⟩ := apply_of_step ha h
    rw [apply_calls] at hd
    rcases update_eq_some.mp hd with ⟨rfl, rfl⟩ | ⟨hne, hd⟩
    · rcases hact with rfl | ⟨e, rfl⟩
      · obtain ⟨hget, hfinish⟩ := hg _ call jobId rfl hc hop
        cases hdoes with
        | getsDone hop' hget' hfound hstatus =>
          obtain rfl := Operation.complete.inj (hop'.symm.trans hop)
          exact absurd (by rw [State.status, hfound, Option.map_some, hstatus]) (hget hget')
        | finishes _ hpc' _ _ => exact hfinish _ hpc'
        | inserts hop' _ _ _ | exhausts hop' _ | assigns hop' _ _ _ =>
          exact Operation.noConfusion (hop'.symm.trans hop)
        | _ => cases hpc
      · cases hpc
    · exact commitsSound_frame hi hcs hc hdoes hne hd hop hpc

structure Created (s : State) : Prop extends Opened s where
  empty : s.table = .empty

lemma Created.lifecycleInv (h : Created s) : LifecycleInv s where
  toQueueInv := h.queueInv
  writes c call hc := by
    rw [h.idle c] at hc
    cases hc

lemma Created.claimed (h : Created s) : s.Claimed := by
  intro id row hrow
  rw [h.empty] at hrow
  cases hrow

lemma Created.status (h : Created s) (id : JobId) : s.status id = none := by
  rw [State.status, h.empty]
  rfl

lemma keepsLifecycle_of_commitsRunning {acts : List Action} (h₀ : Created s)
    (hg : Guarded step CommitsRunning s acts) : KeepsLifecycle s acts := by
  have hi := h₀.lifecycleInv
  have hstep : ∀ s a t, LifecycleInv s → CommitsRunning s a → step s a = some t →
      LifecycleInv t := fun s a t hi _ ht => lifecycleInv_step ht hi
  refine ⟨fun id => ?_, ?_, along_of_guarded (fun t ht => ?_) acts hg⟩
  · have hprefix : statusHistory id s acts <+: planFrom (s.status id) :=
      history_prefix toList_prefix_planFrom hstep
        (fun s a t hi hg ht => status_step hi hg ht id) hi hg
    rwa [h₀.status id] at hprefix
  · exact Guarded.imp hstep (fun s a hi => (stepsOfComplete_iff hi).mpr) hi hg
  · have hinv : LifecycleInv t ∧ t.Claimed :=
      ht.invariant (I := fun s => LifecycleInv s ∧ s.Claimed) ⟨hi, h₀.claimed⟩
        fun s a u hs hg hu => ⟨lifecycleInv_step hu hs.1, claimed_step hs.1 hg hu hs.2⟩
    exact hinv.2

/-- In every run of inserts, claims and completions the jobs keep to QUEUED, RUNNING, DONE exactly
if every complete that commits does so on a RUNNING job; it is enough that completions read no DONE
job and update RUNNING jobs only. -/
theorem keepsLifecycle_iff (h₀ : Created s) (acts : List Action) :
    (KeepsLifecycle s acts ↔ Guarded step CommitsRunning s acts) ∧
    (Guarded step FindsRunning s acts → KeepsLifecycle s acts) := by
  have hi := h₀.lifecycleInv
  refine ⟨⟨fun h => ?_, keepsLifecycle_of_commitsRunning h₀⟩, fun hg => ?_⟩
  · exact Guarded.imp (fun s a t hi _ ht => lifecycleInv_step ht hi)
      (fun s a hi => (stepsOfComplete_iff hi).mp) hi h.completes
  · refine keepsLifecycle_of_commitsRunning h₀
      (Guarded.imp (I := fun s => LifecycleInv s ∧ CommitsSound s) ?_ ?_ ⟨hi, ?_⟩ hg)
    · intro s a t hs hg ht
      exact ⟨lifecycleInv_step ht hs.1, commitsSound_step hs.1 hs.2 hg ht⟩
    · intro s a hs _ c call jobId row o _ hc hop hpc
      exact hs.2 c call jobId row o hc hop hpc
    · intro c call jobId row o hc
      rw [h₀.idle c] at hc
      cases hc

/-- A job is put in, claimed and completed. -/
def oneJob : List Action :=
  [.start 0 (.enqueue "job_0" "payload-0"), .op 0, .op 0, .op 0,
    .start 1 (.claim "w1" .skipLocked), .op 1, .op 1, .op 1, .op 1,
    .start 2 (.complete "job_0"), .op 2, .op 2, .op 2]

theorem keepsLifecycle_iff_oneJob :
    statusHistory "job_0" emptyQueue oneJob = lifecycle ∧ KeepsLifecycle emptyQueue oneJob := by
  have hstart : ∀ s c op, FindsRunning s (.start c op) := fun s c op d call jobId ha => by cases ha
  have hother : ∀ s c call, s.calls c = some call → (∀ jobId, call.op ≠ .complete jobId) →
      FindsRunning s (.op c) := by
    intro s c call hc hop d call' jobId ha hd hop'
    cases ha
    obtain rfl := Option.some.inj (hc.symm.trans hd)
    exact absurd hop' (hop jobId)
  have hcomplete : ∀ s c jobId pc, s.calls c = some ⟨.complete jobId, pc⟩ →
      s.status jobId = some .running → FindsRunning s (.op c) := by
    intro s c jobId pc hc hstatus d call' jobId' ha hd hop'
    cases ha
    obtain rfl := Option.some.inj (hc.symm.trans hd)
    obtain rfl := Operation.complete.inj hop'
    exact ⟨fun _ => by simp [hstatus], fun _ _ => hstatus⟩
  refine ⟨by decide, (keepsLifecycle_iff ⟨⟨fun _ => rfl, fun _ => rfl⟩, rfl⟩ oneJob).2 ?_⟩
  refine .cons rfl (hstart _ _ _) (.cons rfl (hother _ _ _ rfl nofun) ?_)
  refine .cons rfl (hother _ _ _ rfl nofun) (.cons rfl (hother _ _ _ rfl nofun) ?_)
  refine .cons rfl (hstart _ _ _) (.cons rfl (hother _ _ _ rfl nofun) ?_)
  refine .cons rfl (hother _ _ _ rfl nofun) (.cons rfl (hother _ _ _ rfl nofun) ?_)
  refine .cons rfl (hother _ _ _ rfl nofun) (.cons rfl (hstart _ _ _) ?_)
  refine .cons rfl (hcomplete _ _ _ _ rfl rfl) (.cons rfl (hcomplete _ _ _ _ rfl rfl) ?_)
  exact .cons rfl (hcomplete _ _ _ _ rfl rfl) trivial

/-- A job is put in and completed before anybody has claimed it. -/
def completedQueued : List Action :=
  [.start 0 (.enqueue "job_0" "payload-0"), .op 0, .op 0, .op 0,
    .start 1 (.complete "job_0"), .op 1, .op 1, .op 1]

theorem completedQueued_skips_running :
    statusHistory "job_0" emptyQueue completedQueued = [.queued, .done] ∧
      ¬ KeepsLifecycle emptyQueue completedQueued := by
  have hhistory : statusHistory "job_0" emptyQueue completedQueued = [.queued, .done] := by decide
  refine ⟨hhistory, fun h => ?_⟩
  have hprefix := h.history "job_0"
  rw [hhistory] at hprefix
  revert hprefix
  decide

end AsyncDataHub.JobQueue
