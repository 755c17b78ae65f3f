import AsyncDataHub.JobQueue

/-! Claims under all three locking strategies: a job is handed out once, to the worker that has
found it QUEUED under its row lock; a claim that is alone takes the queued job of the smallest
position. -/
namespace AsyncDataHub.JobQueue
open StepSystem LockTable

variable {s t : State} {a : Action} {c d : TxnId} {call call' : Call} {eff : Effect}

def Outcome.Hands (o : Outcome) (job : DbQueueJob) : Prop :=
  o = .claimed { claimed := true, job := some job }

/-- A row that waits for its COMMIT: a new one, the one that a claim has found QUEUED, or one that
is completed. -/
inductive Pending (table : JobTable) (row : DbQueueJob) : Operation → Outcome → Prop
  | inserted {id : JobId} {payload : String} (fresh : table.rows row.id = none) :
      Pending table row (.enqueue id payload) (.enqueued row)
  | assigned {worker : String} {strategy : ClaimStrategy} {job : DbQueueJob} {now : ℕ}
      (found : table.rows row.id = some job) (queued : job.status = .queued)
      (new : row = job.assign worker now) :
      Pending table row (.claim worker strategy) (.claimed { claimed := true, job := some row })
  | finished {jobId : JobId} {job job' : DbQueueJob} (found : table.rows row.id = some job)
      (status : row.status = .done) : Pending table row (.complete jobId) (.completed job')

/-- What a call has locked and what it is going to write; what it has handed out is no longer
QUEUED. -/
def Call.Sound (s : State) (c : TxnId) (call : Call) : Prop :=
  match call.pc with
  | .assign job =>
    s.locks job.id = some c ∧ s.table.rows job.id = some job ∧ job.status = .queued
  | .commit (some row) o => s.locks row.id = some c ∧ Pending s.table row call.op o
  | .commit none o => ∀ response, o = .claimed response → response.claimed = false
  | .done o =>
    ∀ job, o.Hands job → ∃ row, s.table.rows job.id = some row ∧ row.status ≠ .queued
  | _ => True

def State.HandedOut (s : State) (c : TxnId) (job : DbQueueJob) : Prop :=
  ∃ call o, s.calls c = some call ∧ call.pc = .done o ∧ o.Hands job

structure QueueInv (s : State) : Prop where
  sound : ∀ c call, s.calls c = some call → call.Sound s c
  held : ∀ id c, s.locks id = some c → ∃ call, s.calls c = some call ∧ ∀ o, call.pc ≠ .done o
  once : ∀ c d job job', s.HandedOut c job → s.HandedOut d job' → job.id = job'.id → c = d

def Effect.pc : Effect → Pc
  | .goto pc | .draw pc | .lock _ pc => pc
  | .publish _ o => .done o
  | .rollback e => .done (.raised e)

@[simp] theorem apply_calls (s : State) (c : TxnId) (call : Call) (eff : Effect) :
    (s.apply c call eff).calls = Function.update s.calls c (some { call with pc := eff.pc }) := by
  cases eff <;> rfl

@[simp] theorem publish_some (table : JobTable) (row : DbQueueJob) :
    table.publish (some row) = table.write row := rfl

@[simp] theorem write_rows (table : JobTable) (row : DbQueueJob) :
    (table.write row).rows = Function.update table.rows row.id (some row) := rfl

lemma not_hands {o : Outcome} {job : DbQueueJob}
    (h : ∀ response, o = .claimed response → response.claimed = false) : ¬ o.Hands job := by
  intro ho
  cases h _ ho

lemma Pending.queued {table : JobTable} {row job : DbQueueJob} {op : Operation} {o : Outcome}
    (h : Pending table row op o) (ho : o.Hands job) :
    job = row ∧ ∃ old, table.rows row.id = some old ∧ old.status = .queued := by
  cases h with
  | assigned found queued _ =>
    cases ho
    exact ⟨rfl, _, found, queued⟩
  | inserted _ | finished _ _ => cases ho

lemma Pending.status {table : JobTable} {row old : DbQueueJob} {op : Operation} {o : Outcome}
    (h : Pending table row op o) (hold : table.rows row.id = some old) : row.status ≠ .queued := by
  cases h with
  | inserted fresh =>
    rw [fresh] at hold
    cases hold
  | assigned _ _ new => simp [new, DbQueueJob.assign]
  | finished _ status => simp [status]

lemma Pending.frame {table table' : JobTable} {row : DbQueueJob} {op : Operation} {o : Outcome}
    (h : Pending table row op o) (hsame : table'.rows row.id = table.rows row.id) :
    Pending table' row op o := by
  cases h with
  | inserted fresh => exact .inserted (hsame.trans fresh)
  | assigned found queued new => exact .assigned (hsame.trans found) queued new
  | finished found status => exact .finished (hsame.trans found) status

lemma commit_locked (hs : call.Sound s c) {row : DbQueueJob} {o : Outcome}
    (hpc : call.pc = .commit (some row) o) :
    s.locks row.id = some c ∧ Pending s.table row call.op o := by
  simpa only [Call.Sound, hpc] using hs

lemma sound_of_does (hs : call.Sound s c) (h : Does s c call eff) :
    Call.Sound (s.apply c call eff) c { call with pc := eff.pc } := by
  cases h with
  | draws _ _ | snaps _ _ | skips _ _ _ | rechecks _ _ _ _ _ | gets _ _ _ _ => trivial
  | inserts hop _ fresh _ =>
    refine ⟨take_self .., ?_⟩
    rw [hop]
    exact .inserted fresh
  | locks _ _ hrow hstatus _ =>
    obtain rfl := s.table.keyed _ _ hrow
    exact ⟨take_self .., hrow, hstatus⟩
  | exhausts _ _ =>
    intro response ho
    cases ho
    rfl
  | @assigns worker strategy job row hop hpc hfound _ =>
    simp only [Call.Sound, hpc] at hs
    obtain ⟨_, hjob, hstatus⟩ := hs
    obtain rfl : row = job := Option.some.inj (hfound.symm.trans hjob)
    refine ⟨take_self .., ?_⟩
    rw [hop]
    exact .assigned hjob hstatus rfl
  | getsDone _ _ _ _ =>
    intro response ho
    cases ho
  | @finishes jobId job row hop _ hfound _ =>
    have hid : row.id = job.id := s.table.keyed _ _ hfound
    rw [← hid] at hfound ⊢
    refine ⟨take_self .., ?_⟩
    rw [hop]
    exact .finished hfound rfl
  | @commits row o hpc =>
    intro job ho
    cases row with
    | none =>
      simp only [Call.Sound, hpc] at hs
      exact absurd ho (not_hands hs)
    | some row =>
      obtain ⟨_, hpending⟩ := commit_locked hs hpc
      obtain ⟨rfl, old, hold, _⟩ := hpending.queued ho
      exact ⟨job, by simp [State.apply], hpending.status hold⟩
  | fails e _ =>
    intro job ho
    cases ho

lemma frame_of_does (hs : call.Sound s c) (h : Does s c call eff) (hne : d ≠ c) {id : JobId}
    (hl : s.locks id = some d) :
    (s.apply c call eff).locks id = some d ∧
      (s.apply c call eff).table.rows id = s.table.rows id := by
  cases h with
  | draws _ _ | snaps _ _ | skips _ _ _ | exhausts _ _ | gets _ _ _ _ | getsDone _ _ _ _ =>
    exact ⟨hl, rfl⟩
  | inserts _ _ _ hlock | rechecks _ _ _ _ hlock | locks _ _ _ _ hlock | assigns _ _ _ hlock
  | finishes _ _ _ hlock => exact ⟨take_eq_some_of_ne hlock hl hne, rfl⟩
  | @commits row o hpc =>
    refine ⟨releaseAll_eq_some.mpr ⟨hl, hne⟩, ?_⟩
    cases row with
    | none => rfl
    | some row =>
      obtain ⟨hlock, _⟩ := commit_locked hs hpc
      refine Function.update_of_ne (fun hid => hne ?_) _ _
      rw [hid, hlock, Option.some.injEq] at hl
      exact hl.symm
  | fails _ _ => exact ⟨releaseAll_eq_some.mpr ⟨hl, hne⟩, rfl⟩

lemma not_queued_of_does (hs : call.Sound s c) (h : Does s c call eff) {id : JobId}
    {row : DbQueueJob} (hrow : s.table.rows id = some row) (hstatus : row.status ≠ .queued) :
    ∃ row, (s.apply c call eff).table.rows id = some row ∧ row.status ≠ .queued := by
  cases h with
  | @commits new o hpc =>
    cases new with
    | none => exact ⟨row, hrow, hstatus⟩
    | some new =>
      obtain ⟨_, hpending⟩ := commit_locked hs hpc
      by_cases hid : id = new.id
      · subst hid
        exact ⟨new, Function.update_self .., hpending.status hrow⟩
      · exact ⟨row, (Function.update_of_ne hid _ _).trans hrow, hstatus⟩
  | _ => exact ⟨row, hrow, hstatus⟩

lemma Call.Sound.frame (hs' : call'.Sound s d) (hs : call.Sound s c) (h : Does s c call eff)
    (hne : d ≠ c) : call'.Sound (s.apply c call eff) d := by
  unfold Call.Sound at hs' ⊢
  split at hs' <;> try exact hs'
  · obtain ⟨hlock, hrow, hstatus⟩ := hs'
    obtain ⟨hlock', hsame⟩ := frame_of_does hs h hne hlock
    exact ⟨hlock', hsame.trans hrow, hstatus⟩
  · obtain ⟨hlock, hpending⟩ := hs'
    obtain ⟨hlock', hsame⟩ := frame_of_does hs h hne hlock
    exact ⟨hlock', hpending.frame hsame⟩
  · intro job ho
    obtain ⟨row, hrow, hstatus⟩ := hs' job ho
    exact not_queued_of_does hs h hrow hstatus

lemma handedOut_apply (hs : call.Sound s c) (h : Does s c call eff) {job : DbQueueJob}
    (hd : (s.apply c call eff).HandedOut d job) :
    d ≠ c ∧ s.HandedOut d job ∨
      d = c ∧ ∃ old, s.table.rows job.id = some old ∧ old.status = .queued := by
  obtain ⟨call', o, hcall, hpc, ho⟩ := hd
  rw [apply_calls] at hcall
  rcases update_eq_some.mp hcall with ⟨rfl, rfl⟩ | ⟨hne, hcall⟩
  · refine .inr ⟨rfl, ?_⟩
    cases h with
    | @commits row o' hpc' =>
      obtain rfl : o' = o := Pc.done.inj hpc
      cases row with
      | none =>
        simp only [Call.Sound, hpc'] at hs
        exact absurd ho (not_hands hs)
      | some row =>
        obtain ⟨rfl, hold⟩ := (commit_locked hs hpc').2.queued ho
        exact hold
    | fails e _ =>
      obtain rfl : Outcome.raised e = o := Pc.done.inj hpc
      cases ho
    | _ => cases hpc
  · exact .inl ⟨hne, call', o, hcall, hpc, ho⟩

lemma locks_apply (h : Does s c call eff) {id : JobId}
    (hl : (s.apply c call eff).locks id = some d) :
    (d = c ∧ ∀ o, eff.pc ≠ .done o) ∨ d ≠ c ∧ s.locks id = some d := by
  by_cases hne : d = c
  · refine .inl ⟨hne, ?_⟩
    cases h with
    | commits _ | fails _ _ => exact absurd hne (releaseAll_eq_some.mp hl).2
    | _ => simp [Effect.pc]
  · refine .inr ⟨hne, ?_⟩
    cases h with
    | draws _ _ | snaps _ _ | skips _ _ _ | exhausts _ _ | gets _ _ _ _ | getsDone _ _ _ _ =>
      exact hl
    | inserts _ _ _ _ | rechecks _ _ _ _ _ | locks _ _ _ _ _ | assigns _ _ _ _
    | finishes _ _ _ _ =>
      rcases update_eq_some.mp hl with ⟨_, rfl⟩ | ⟨_, hl⟩
      · exact absurd rfl hne
      · exact hl
    | commits _ | fails _ _ => exact (releaseAll_eq_some.mp hl).1

lemma firstPc_ne_done (op : Operation) (o : Outcome) : op.firstPc ≠ .done o := by
  cases op <;> simp [Operation.firstPc]

lemma handedOut_start {op : Operation} {job : DbQueueJob}
    (hd : (s.setCall c ⟨op, op.firstPc⟩ op.firstPc).HandedOut d job) : s.HandedOut d job := by
  obtain ⟨call', o, hcall, hpc, ho⟩ := hd
  rcases update_eq_some.mp hcall with ⟨_, rfl⟩ | ⟨_, hcall⟩
  · exact absurd hpc (firstPc_ne_done op o)
  · exact ⟨call', o, hcall, hpc, ho⟩

lemma QueueInv.not_queued (hi : QueueInv s) {job row : DbQueueJob} (hd : s.HandedOut d job)
    (hrow : s.table.rows job.id = some row) : row.status ≠ .queued := by
  obtain ⟨call, o, hcall, hpc, ho⟩ := hd
  have hsound := hi.sound d call hcall
  simp only [Call.Sound, hpc] at hsound
  obtain ⟨row', hrow', hstatus⟩ := hsound job ho
  rw [hrow, Option.some.injEq] at hrow'
  exact hrow' ▸ hstatus

theorem queueInv_step (h : step s a = some t) (hi : QueueInv s) : QueueInv t := by
  cases took_of_step h with
  | @starts c op fresh =>
    refine ⟨forall_update hi.sound ?_, fun id d hl => ?_, fun d d' job job' hd hd' => ?_⟩
    · cases op <;> trivial
    · obtain ⟨call, hcall, hpc⟩ := hi.held id d hl
      have hne : d ≠ c := by
        rintro rfl
        rw [fresh] at hcall
        cases hcall
      exact ⟨call, (Function.update_of_ne hne _ _).trans hcall, hpc⟩
    · exact hi.once d d' job job' (handedOut_start hd) (handedOut_start hd')
  | @runs _ c call eff hc hdoes _ =>
    have hs := hi.sound c call hc
    refine ⟨?_, fun id d hl => ?_, fun d d' job job' hd hd' hid => ?_⟩
    · intro d call' hd
      rw [apply_calls] at hd
      rcases update_eq_some.mp hd with ⟨rfl, rfl⟩ | ⟨hne, hd⟩
      · exact sound_of_does hs hdoes
      · exact (hi.sound d call' hd).frame hs hdoes hne
    · rw [apply_calls]
      rcases locks_apply hdoes hl with ⟨rfl, hpc⟩ | ⟨hne, hl⟩
      · exact ⟨_, Function.update_self .., hpc⟩
      · rw [Function.update_of_ne hne]
        exact hi.held id d hl
    · rcases handedOut_apply hs hdoes hd with ⟨_, hold⟩ | ⟨hdc, row, hrow, hqueued⟩ <;>
        rcases handedOut_apply hs hdoes hd' with ⟨_, hold'⟩ | ⟨hdc', row', hrow', hqueued'⟩
      · exact hi.once d d' job job' hold hold' hid
      · exact absurd hqueued' (hi.not_queued hold (hid ▸ hrow'))
      · exact absurd hqueued (hi.not_queued hold' (hid ▸ hrow))
      · exact hdc.trans hdc'.symm
  | ticks d => exact ⟨hi.sound, hi.held, hi.once⟩

/-- One step of a claim: it writes nothing and does not return `claimed=True`, or it commits the
assignment of a row that is QUEUED to its worker and hands it out. -/
inductive ClaimStep (s : State) (c : TxnId) (worker : String) (t : State) : Prop
  | unchanged (table : t.table = s.table)
      (empty : ∀ call response, t.calls c = some call → call.pc = .done (.claimed response) →
        response.claimed = false)
  | handsOut {old : DbQueueJob} {now : ℕ} (queued : s.table.Queued old)
      (handed : t.HandedOut c (old.assign worker now))
      (table : t.table = s.table.write (old.assign worker now))

lemma calls_apply_self (s : State) (c : TxnId) (call : Call) (eff : Effect) :
    (s.apply c call eff).calls c = some { call with pc := eff.pc } := by
  rw [apply_calls, Function.update_self]

lemma unchanged_of_pc {worker : String} (htable : (s.apply c call eff).table = s.table)
    (hempty : ∀ response, eff.pc = .done (.claimed response) → response.claimed = false) :
    ClaimStep s c worker (s.apply c call eff) := by
  refine .unchanged htable fun call' response hcall hpc => ?_
  rw [calls_apply_self, Option.some.injEq] at hcall
  subst hcall
  exact hempty response hpc

lemma claimStep_of_does {worker : String} {strategy : ClaimStrategy} (hs : call.Sound s c)
    (h : Does s c call eff) (hop : call.op = .claim worker strategy) :
    ClaimStep s c worker (s.apply c call eff) := by
  cases h with
  | @commits row o hpc =>
    cases row with
    | none =>
      simp only [Call.Sound, hpc] at hs
      exact unchanged_of_pc rfl fun response ho => hs response (Pc.done.inj ho)
    | some row =>
      obtain ⟨_, hpending⟩ := commit_locked hs hpc
      rw [hop] at hpending
      cases hpending with
      | @assigned _ _ job now found queued new =>
        subst new
        exact .handsOut ⟨found, queued⟩ ⟨_, _, calls_apply_self .., rfl, rfl⟩ rfl
  | fails e _ => exact unchanged_of_pc rfl fun response ho => by cases ho
  | _ => exact unchanged_of_pc rfl fun response ho => by cases ho

lemma Does.not_done (h : Does s c call eff) (o : Outcome) : call.pc ≠ .done o := by
  cases h with
  | fails e hpc => exact hpc o
  | draws _ hpc | inserts _ hpc _ _ | snaps _ hpc | skips _ hpc _ | rechecks _ hpc _ _ _
  | locks _ hpc _ _ _ | exhausts _ hpc | assigns _ hpc _ _ | gets _ hpc _ _ | getsDone _ hpc _ _
  | finishes _ hpc _ _ | commits hpc => simp [hpc]

def State.Quiet (s : State) : Prop := ∀ c call, s.calls c = some call → ∃ o, call.pc = .done o

lemma mem_queuedJobs {table : JobTable} {job : DbQueueJob} :
    job ∈ table.queuedJobs ↔ table.Queued job := by
  simp only [JobTable.queuedJobs, List.mem_insertionSort, List.mem_filter, List.mem_filterMap,
    decide_eq_true_eq]
  refine and_congr_left fun _ => ⟨?_, fun hrow => ⟨job.id, ?_, hrow⟩⟩
  · rintro ⟨id, _, hrow⟩
    rwa [table.keyed id job hrow]
  · rw [table.mem_ids, hrow]
    simp

def JobTable.First (table : JobTable) (first : DbQueueJob) : Prop :=
  table.Queued first ∧ ∀ other, table.Queued other → first.position ≤ other.position

lemma queuedJobs_eq_cons {table : JobTable} {job : DbQueueJob} (h : table.Queued job) :
    ∃ first rest, table.queuedJobs = first :: rest ∧ table.First first := by
  have hmem := mem_queuedJobs.mpr h
  have hsorted : table.queuedJobs.Pairwise (·.position ≤ ·.position) :=
    List.pairwise_insertionSort _ _
  cases hq : table.queuedJobs with
  | nil => simp [hq] at hmem
  | cons first rest =>
    refine ⟨first, rest, rfl, mem_queuedJobs.mp (hq ▸ List.mem_cons_self), fun other hother => ?_⟩
    have hin := hq ▸ mem_queuedJobs.mpr hother
    rw [hq] at hsorted
    rcases List.mem_cons.mp hin with rfl | hin
    · exact le_rfl
    · exact List.rel_of_pairwise_cons hsorted hin

lemma available_of_quiet (hi : QueueInv s) (hq : s.Quiet) (id : JobId) (c : TxnId) :
    Available s.locks id c := by
  intro d hd
  obtain ⟨call, hcall, hpc⟩ := hi.held id d hd
  obtain ⟨o, ho⟩ := hq d call hcall
  exact absurd ho (hpc o)

/-- The statements of a claim, with the time that passes before each of them. -/
def claimRun (c : TxnId) (worker : String) (strategy : ClaimStrategy) (d₁ d₂ d₃ d₄ : ℕ) :
    List Action :=
  [.start c (.claim worker strategy), .tick d₁, .op c, .tick d₂, .op c, .tick d₃, .op c, .tick d₄,
    .op c]

lemma exec_claimRun (worker : String) (strategy : ClaimStrategy) {first : DbQueueJob}
    {rest : List DbQueueJob} (hc : s.calls c = none) (hlock : Available s.locks first.id c)
    (hq : s.table.queuedJobs = first :: rest) (hfirst : s.table.Queued first)
    (d₁ d₂ d₃ d₄ : ℕ) :
    ∃ t, exec step s (claimRun c worker strategy d₁ d₂ d₃ d₄) = some t ∧
      t.HandedOut c (first.assign worker (s.now + d₁ + d₂ + d₃)) ∧
      t.table = s.table.write (first.assign worker (s.now + d₁ + d₂ + d₃)) := by
  have hheld : Available (take s.locks first.id c) first.id c := by
    intro d hd
    rw [take_self, Option.some.injEq] at hd
    exact hd.symm
  obtain ⟨hrow, hstatus⟩ := hfirst
  simp [claimRun, step, statement, claim, lockRow, updateRow, Operation.firstPc, hc, hq, hrow,
    hstatus, hlock, hheld, State.setCall, State.apply, State.HandedOut, Outcome.Hands]

/-- No call has been made and no row is locked; the table may have any rows. -/
structure Opened (s : State) : Prop where
  idle : ∀ c, s.calls c = none
  unlocked : ∀ id, s.locks id = none

lemma Opened.queueInv (h : Opened s) : QueueInv s where
  sound c call hc := by
    rw [h.idle c] at hc
    cases hc
  held id c hl := by
    rw [h.unlocked id] at hl
    cases hl
  once c d job job' hd := by
    obtain ⟨call, o, hc, _⟩ := hd
    rw [h.idle c] at hc
    cases hc

/-- In every run of inserts, claims and completions a job is handed out by at most one claim; a
claim takes no step after its end, and each of its steps writes nothing or hands out a job that was
QUEUED; and a claim that runs while no transaction is open takes the QUEUED job of the smallest
position. -/
theorem claims_safe {s₀ s : State} (h₀ : Opened s₀) (h : Reach step s₀ s) :
    (∀ c d job job', s.HandedOut c job → s.HandedOut d job' → job.id = job'.id → c = d) ∧
    (∀ c call worker strategy a t, s.calls c = some call → call.op = .claim worker strategy →
      a.call = some c → step s a = some t →
        (∀ o, call.pc ≠ .done o) ∧ ClaimStep s c worker t) ∧
    (s.Quiet → (∃ job, s.table.Queued job) →
      ∀ c worker strategy d₁ d₂ d₃ d₄, s.calls c = none → ∃ first t, s.table.First first ∧
        exec step s (claimRun c worker strategy d₁ d₂ d₃ d₄) = some t ∧
        t.HandedOut c (first.assign worker (s.now + d₁ + d₂ + d₃)) ∧
        t.table = s.table.write (first.assign worker (s.now + d₁ + d₂ + d₃))) := by
  have hi : QueueInv s := h.invariant h₀.queueInv fun _ _ _ hi _ ht => queueInv_step ht hi
  refine ⟨hi.once, ?_, ?_⟩
  · intro c call worker strategy a t hc hop ha ht
    cases took_of_step ht with
    | starts _ | ticks _ => cases ha
    | @runs _ c' call' eff hc' hdoes hsender =>
      obtain rfl : c' = c := Option.some.inj (hsender.symm.trans ha)
      obtain rfl : call' = call := Option.some.inj (hc'.symm.trans hc)
      exact ⟨hdoes.not_done, claimStep_of_does (hi.sound _ _ hc) hdoes hop⟩
  · rintro hquiet ⟨job, hjob⟩ c worker strategy d₁ d₂ d₃ d₄ hc
    obtain ⟨first, rest, hq, hfirst⟩ := queuedJobs_eq_cons hjob
    obtain ⟨t, ht⟩ := exec_claimRun worker strategy hc
      (available_of_quiet hi hquiet first.id c) hq hfirst.1 d₁ d₂ d₃ d₄
    exact ⟨first, t, hfirst, ht⟩

def emptyQueue : State where
  table := .empty

/-- Two jobs are put in; two workers claim while the other's transaction is open. -/
def twoWorkers : List Action :=
  [.start 0 (.enqueue "job_0" "payload-0"), .op 0, .op 0, .op 0,
    .start 1 (.enqueue "job_1" "payload-1"), .op 1, .op 1, .op 1,
    .start 2 (.claim "w2" .blocking), .start 3 (.claim "w3" .skipLocked),
    .op 2, .op 3, .op 2, .op 3, .op 3, .op 2, .op 3, .op 2, .op 3]

theorem claims_safe_twoWorkers :
    ∃ s, exec step emptyQueue twoWorkers = some s ∧
      (∀ c job, s.HandedOut c job → job.id = "job_0" → c = 2) ∧
      ∀ c job, s.HandedOut c job → job.id = "job_1" → c = 3 := by
  obtain ⟨s, job, job', hs, h₂, hid, h₃, hid'⟩ : ∃ s job job',
      exec step emptyQueue twoWorkers = some s ∧ s.HandedOut 2 job ∧ job.id = "job_0" ∧
        s.HandedOut 3 job' ∧ job'.id = "job_1" :=
    ⟨_, _, _, rfl, ⟨_, _, rfl, rfl, rfl⟩, rfl, ⟨_, _, rfl, rfl, rfl⟩, rfl⟩
  obtain ⟨honce, _⟩ := claims_safe ⟨fun _ => rfl, fun _ => rfl⟩ (reach_of_exec _ hs)
  exact ⟨s, hs, fun c job₀ hc hjob => honce c 2 job₀ job hc h₂ (hjob.trans hid.symm),
    fun c job₁ hc hjob => honce c 3 job₁ job' hc h₃ (hjob.trans hid'.symm)⟩

end AsyncDataHub.JobQueue
