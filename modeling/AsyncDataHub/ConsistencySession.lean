import AsyncDataHub.ConsistencyReads

/-! What a read promises for the reads after it: the rows of one standby, and what a node shows at
the LSN of a result, never go back behind what has been read. -/
namespace AsyncDataHub.Consistency
open StepSystem LockTable LogShipping

variable {names : List Replica} {s t : State} {a : Action} {c : TxnId} {p q : ReadId}
  {wcall : WriteCall} {call call' : ReadCall} {row : Row} {id : String} {i j : ℕ}

/-- The node shows the row committed at `i` or a later one. -/
def State.Has (s : State) (node : ReadNode) (id : String) (i : ℕ) : Prop :=
  match node with
  | .primary => FreshFrom s.log id i (s.rows id)
  | .replica r => i < (s.standbys r).replayed

/-- The read has found the row committed at `i`, and returns an LSN past it. -/
structure Found (s : State) (call : ReadCall) (row : Row) (i : ℕ) : Prop where
  committed : CommitAt s.log i call.request.docId row
  has : s.Has call.request.node call.request.docId i
  lsn : ∀ result, call.pc = .returned result → i < result.nodeLsn

structure SessionInv (s : State) : Prop where
  shown : ∀ id row, s.rows id = some row → ∃ i, CommitAt s.log i id row
  found : ∀ q call row, s.reads q = some call → call.document = some (some row) →
    ∃ i, Found s call row i

lemma State.Has.forward {node : ReadNode} (h : s.Has node id i) (hf : Forward s t) :
    t.Has node id i := by
  cases node with
  | primary => exact hf.rows i id h
  | replica r => exact lt_of_lt_of_le h (hf.standbys r).replayed

lemma Found.forward (h : Found s call row i) (hf : Forward s t) : Found t call row i :=
  ⟨hf.log _ _ _ h.committed, h.has.forward hf, h.lsn⟩

lemma nodeLsn_of_result (call : ReadCall) (lsn : Lsn) (row : Option Row) :
    (call.result lsn row).nodeLsn = lsn := by
  cases row <;> rfl

/-- A node's LSN is past every row that it has. -/
lemma lt_nodeLsn (hi : ConsistencyInv s) {node : ReadNode} (hcommit : CommitAt s.log i id row)
    (hhas : s.Has node id i) : i < s.nodeLsn node := by
  cases node with
  | primary => exact hi.written i id row hcommit
  | replica r => exact hhas

lemma SessionInv.shows (h : SessionInv s) (node : ReadNode) (hrow : s.shows node id = some row) :
    ∃ i, CommitAt s.log i id row ∧ s.Has node id i := by
  cases node with
  | primary =>
    obtain ⟨i, hi⟩ := h.shown id row hrow
    exact ⟨i, hi, i, row, le_rfl, hi, hrow⟩
  | replica r =>
    obtain ⟨i, hi⟩ := commitAt_of_replay hrow
    obtain ⟨hlt, hi⟩ := commitAt_take.mp hi
    exact ⟨i, hi, hlt⟩

lemma result_of_read (h : read s call = some call') {result : ReadResult}
    (hpc : call'.pc = .returned result) : ∃ row, call.document = some row ∧
      call'.request = call.request ∧ result = call.result (s.nodeLsn call.request.node) row := by
  cases hold : call.pc with
  | nodeLsn =>
    simp only [read, hold] at h
    obtain ⟨row, hrow, rfl⟩ := Option.map_eq_some_iff.mp h
    cases hpc
    exact ⟨row, hrow, rfl, rfl⟩
  | start =>
    simp only [read, hold, Option.some.injEq, readStart] at h
    subst h
    split at hpc <;> cases hpc
  | poll r target deadline | late r target deadline | sleep r target deadline until' =>
    simp only [read, hold] at h
    split_ifs at h <;> cases h <;> cases hpc
  | get =>
    simp only [read, hold, Option.some.injEq] at h
    subst h
    cases hpc
  | returned _ | failed => simp [read, hold] at h

lemma reads_of_writer (h : Took s a t) (ha : a.writer = some c) : t.reads = s.reads := by
  cases h with
  | startsRead _ _ | gets _ _ => cases ha
  | moves _ _ _ hnone => simp [hnone] at ha
  | _ => rfl

lemma returned_of_step (h : step names s a = some t) (hq : t.reads q = some call)
    {result : ReadResult} (hpc : call.pc = .returned result) : s.reads q = some call ∨
      ∃ old row, s.reads q = some old ∧ old.document = some row ∧ call.request = old.request ∧
        result = old.result (s.nodeLsn old.request.node) row := by
  cases a with
  | read p =>
    obtain ⟨new, hbind, rfl⟩ := Option.map_eq_some_iff.mp h
    obtain ⟨old, hp, hread⟩ := Option.bind_eq_some_iff.mp hbind
    rcases update_eq_some.mp hq with ⟨rfl, rfl⟩ | ⟨_, hq⟩
    · obtain ⟨row, hrow, hrequest, hresult⟩ := result_of_read hread hpc
      exact .inr ⟨old, row, hp, hrow, hrequest, hresult⟩
    · exact .inl hq
  | failRead p =>
    obtain ⟨new, hbind, rfl⟩ := Option.map_eq_some_iff.mp h
    obtain ⟨old, _, hfail⟩ := Option.bind_eq_some_iff.mp hbind
    rcases update_eq_some.mp hq with ⟨rfl, rfl⟩ | ⟨_, hq⟩
    · unfold failRead at hfail
      split at hfail <;> cases hfail
      cases hpc
    · exact .inl hq
  | startRead p request =>
    simp only [step] at h
    split at h <;> cases h
    rcases update_eq_some.mp hq with ⟨_, rfl⟩ | ⟨_, hq⟩
    · cases hpc
    · exact .inl hq
  | startWrite c request | write c | release c r | failWrite c =>
    rw [reads_of_writer (took_of_step h) rfl] at hq
    exact .inl hq
  | append | flushWal n | receive r n | flush r n | replay r n | tick d =>
    cases h
    exact .inl hq

lemma document_of_took (hi : ConsistencyInv s) (h : Took s a t) (hq : t.reads q = some call)
    {x : Option Row} (hx : call.document = some x) :
    (∃ old, s.reads q = some old ∧ old.document = some x ∧ call.request = old.request) ∨
      call.pc = .nodeLsn ∧ s.shows call.request.node call.request.docId = x := by
  have hsame (hq : s.reads q = some call) :
      ∃ old, s.reads q = some old ∧ old.document = some x ∧ call.request = old.request :=
    ⟨call, hq, hx, rfl⟩
  cases h with
  | startsRead request _ =>
    rcases update_eq_some.mp hq with ⟨_, rfl⟩ | ⟨_, hq⟩
    · cases hx
    · exact .inl (hsame hq)
  | gets found pc =>
    rcases update_eq_some.mp hq with ⟨_, rfl⟩ | ⟨_, hq⟩
    · cases hx
      exact .inr ⟨rfl, rfl⟩
    · exact .inl (hsame hq)
  | moves found _ moved _ =>
    rcases update_eq_some.mp hq with ⟨rfl, rfl⟩ | ⟨_, hq⟩
    · obtain ⟨hx', hrequest, _⟩ := document_of_moves (hi.reads _ _ found) moved hx
      exact .inl ⟨_, found, hx', hrequest⟩
    · exact .inl (hsame hq)
  | _ => exact .inl (hsame hq)

lemma shown_of_took (hi : ConsistencyInv s) (hs : SessionInv s) (h : Took s a t)
    (hrow : t.rows id = some row) : ∃ i, CommitAt t.log i id row := by
  have hf := forward_of_took hi h
  have hold (hrow : s.rows id = some row) : ∃ i, CommitAt t.log i id row := by
    obtain ⟨i, hi⟩ := hs.shown id row hrow
    exact ⟨i, hf.log _ _ _ hi⟩
  cases h with
  | releases found pc _ | failsWaiting found pc =>
    rcases update_eq_some.mp hrow with ⟨rfl, rfl⟩ | ⟨_, hrow⟩
    · obtain ⟨i, _, _, _, _, _, hcommit, _⟩ := hi.waiting found pc
      exact ⟨i, hcommit⟩
    · exact hold hrow
  | _ => exact hold hrow

theorem sessionInv_step (h : step names s a = some t) (hi : ConsistencyInv s)
    (hs : SessionInv s) : SessionInv t := by
  have htook := took_of_step h
  have hf := forward_of_took hi htook
  refine ⟨fun id row hrow => shown_of_took hi hs htook hrow, fun q call row hq hrow => ?_⟩
  rcases document_of_took hi htook hq hrow with ⟨old, hold, hfound, hrequest⟩ | ⟨hpc, hshows⟩
  · obtain ⟨i, hfound⟩ := hs.found q old row hold hfound
    have hhas := hfound.has
    refine ⟨i, hrequest ▸ hf.log _ _ _ hfound.committed, hrequest ▸ hhas.forward hf,
      fun result hpc => ?_⟩
    rcases returned_of_step h hq hpc with hq' | ⟨old', x, hold', _, _, rfl⟩
    · obtain rfl := Option.some.inj (hold.symm.trans hq')
      exact hfound.lsn result hpc
    · obtain rfl := Option.some.inj (hold.symm.trans hold')
      rw [nodeLsn_of_result]
      exact lt_nodeLsn hi hfound.committed hhas
  · obtain ⟨i, hcommit, hhas⟩ := hs.shows call.request.node hshows
    exact ⟨i, hf.log _ _ _ hcommit, hhas.forward hf, fun result hreturned => by
      rw [hpc] at hreturned
      cases hreturned⟩

theorem sessionInv_reach (h : Reach (step names) State.init s) : SessionInv s :=
  h.invariant_with (fun _ hu => consistencyInv_reach hu)
    ⟨fun _ _ hrow => (by cases hrow), fun _ _ _ hq => (by cases hq)⟩
    fun _ _ _ hi hs _ ht => sessionInv_step ht hi hs

/-- The reads that have to see what the first read has: those on the same standby, those on a
standby that has been found to have the LSN of the first result, and, if both go to the primary,
those of the same document. -/
def SeesRead (first : ReadRequest) (lsn : Lsn) (request : ReadRequest) (upToDate : Option Bool) :
    Prop :=
  (∃ r, first.node = .replica r ∧ request.node = .replica r) ∨
    (request.waitForLsn = some lsn ∧ upToDate = some true) ∨
    (first.node = .primary ∧ request.node = .primary ∧ request.docId = first.docId)

lemma shows_after_read {first : ReadCall} {lsn : Lsn} (hi : ConsistencyInv s)
    (hhas : s.Has first.request.node first.request.docId i) (hlsn : i < lsn)
    (hcommit : CommitAt s.log j call.request.docId row) (hj : j ≤ i) (hq : s.reads q = some call)
    (hwant : SeesRead first.request lsn call.request call.upToDate) :
    FreshFrom s.log call.request.docId j (s.shows call.request.node call.request.docId) := by
  rcases hwant with ⟨r, hfirst, hnode⟩ | ⟨hwait, hup⟩ | ⟨hfirst, hnode, hid⟩
  · rw [hfirst] at hhas
    rw [hnode]
    exact replay_take_fresh hcommit (lt_of_le_of_lt hj hhas)
  · obtain ⟨r, target, hnode, htarget, hreached⟩ := (hi.reads q call hq).1 hup
    obtain rfl := Option.some.inj (hwait.symm.trans htarget)
    rw [hnode]
    exact replay_take_fresh hcommit (lt_of_le_of_lt hj (hlsn.trans_le hreached))
  · rw [hfirst, ← hid] at hhas
    rw [hnode]
    obtain ⟨k, row', hik, hrest⟩ := hhas
    exact ⟨k, row', hj.trans hik, hrest⟩

lemma fresh_after_read {s₁ s₂ : State} {first second : ReadCall} {found₁ found₂ : ReadResult}
    {row' : Row} (h₁ : Reach (step names) State.init s₁) (hfirst : first.pc = .returned found₁)
    (hfound : Found s₁ first row i) (hq : s₁.reads q = none) (h₂ : Reach (step names) s₁ s₂)
    (hread : s₂.reads q = some second) (hsecond : second.pc = .returned found₂)
    (hsees : SeesRead first.request found₁.nodeLsn second.request found₂.upToDate) (hj : j ≤ i)
    (hcommit : CommitAt s₁.log j second.request.docId row') :
    ReturnedFresh s₂ second.request.docId j found₂ := by
  have hlsn := hfound.lsn found₁ hfirst
  obtain ⟨hi₂, _, _, hsaw⟩ := h₂.invariant
    (I := fun s => ConsistencyInv s ∧ CommitAt s.log j second.request.docId row' ∧
      s.Has first.request.node first.request.docId i ∧
      SawFresh (SeesRead first.request found₁.nodeLsn) q second.request.docId j s)
    ⟨consistencyInv_reach h₁, hcommit, hfound.has, fun call x hq' => by
      rw [hq] at hq'
      cases hq'⟩
    fun s a t hs _ ht => by
      obtain ⟨hi, hcommit, hhas, hsaw⟩ := hs
      have htook := took_of_step ht
      have hf := forward_of_took hi htook
      refine ⟨consistencyInv_step ht hi, hf.log _ _ _ hcommit, hhas.forward hf, ?_⟩
      refine sawFresh_of_took hi htook hsaw fun call _ hq' _ hid hwant => ?_
      rw [← hid] at hcommit ⊢
      exact shows_after_read hi hhas hlsn hcommit hj hq' hwant
  obtain ⟨lsn, x, hx, hresult⟩ := hi₂.returned hread hsecond
  have hup : found₂.upToDate = second.upToDate := by
    subst hresult
    cases x <;> rfl
  rw [hup] at hsees
  exact (hi₂.readsFresh hsaw).2 second found₂ hread rfl hsees hsecond

lemma found_of_returned {s₁ : State} {first : ReadCall} {found₁ : ReadResult}
    (h₁ : Reach (step names) State.init s₁) (hp : s₁.reads p = some first)
    (hfirst : first.pc = .returned found₁) (hfound : found₁.found = true) :
    ∃ i row, first.document = some (some row) ∧ Found s₁ first row i ∧
      found₁.content = some row.document.content := by
  obtain ⟨lsn, x, hx, rfl⟩ := (consistencyInv_reach h₁).returned hp hfirst
  cases x with
  | none => cases hfound
  | some row =>
    obtain ⟨i, hrow⟩ := (sessionInv_reach h₁).found p first row hp hx
    exact ⟨i, row, hx, hrow, rfl⟩

/-- Monotonic reads: what a read has found was committed at some place of the log, and a later read
that has to see it returns, for its own document, every row committed up to there or a later one. -/
theorem monotonic_reads {s₁ s₂ : State} {first second : ReadCall} {found₁ found₂ : ReadResult}
    (h₁ : Reach (step names) State.init s₁) (hp : s₁.reads p = some first)
    (hfirst : first.pc = .returned found₁) (hfound : found₁.found = true)
    (hq : s₁.reads q = none) (h₂ : Reach (step names) s₁ s₂) (hread : s₂.reads q = some second)
    (hsecond : second.pc = .returned found₂)
    (hsees : SeesRead first.request found₁.nodeLsn second.request found₂.upToDate) :
    ∃ i row, CommitAt s₁.log i first.request.docId row ∧
      found₁.content = some row.document.content ∧
      ∀ j row', j ≤ i → CommitAt s₁.log j second.request.docId row' →
        ReturnedFresh s₂ second.request.docId j found₂ := by
  obtain ⟨i, row, _, hrow, hcontent⟩ := found_of_returned h₁ hp hfirst hfound
  exact ⟨i, row, hrow.committed, hcontent, fun j row' hj hcommit =>
    fresh_after_read h₁ hfirst hrow hq h₂ hread hsecond hsees hj hcommit⟩

def readRun (q : ReadId) (node : ReadNode) (docId : String) : List Action :=
  [.startRead q { node, docId }, .read q, .read q, .read q]

/-- A second document is written after the first; the standby replays both, and is read. -/
def followingWrite : List Action :=
  writeRun 1 ⟨"e", "v2", .async⟩ [] none ++
    [.receive .replica2 2, .flush .replica2 2, .replay .replica2 2] ++
    readRun 0 (.replica .replica2) "e"

/-- Who has written the row that a read has returned, and where the read has looked for what. -/
def ReadCall.origin (call : ReadCall) : Option (TxnId × ReadNode × String) :=
  match call.pc, call.document with
  | .returned _, some (some row) => some (row.xmin, call.request.node, call.request.docId)
  | _, _ => none

lemma origin_eq_some {node : ReadNode} (h : call.origin = some (c, node, id)) :
    ∃ result row, call.pc = .returned result ∧ call.document = some (some row) ∧ row.xmin = c ∧
      call.request.node = node ∧ call.request.docId = id := by
  unfold ReadCall.origin at h
  split at h <;> cases h
  exact ⟨_, _, ‹_›, ‹_›, rfl, rfl, rfl⟩

lemma followingWrite_origin :
    ∃ s₀ s₁ s₂ first second, exec (step demoStandbys) .init asyncWrite = some s₀ ∧
      exec (step demoStandbys) s₀ followingWrite = some s₁ ∧
      exec (step demoStandbys) s₁ (readRun 1 (.replica .replica2) "d") = some s₂ ∧
      s₁.reads 0 = some first ∧ first.origin = some (1, .replica .replica2, "e") ∧
      s₁.reads 1 = none ∧ s₂.reads 1 = some second ∧
      second.origin = some (0, .replica .replica2, "d") := by
  have hfirst : ((exec (step demoStandbys) .init asyncWrite).bind fun s =>
      (exec (step demoStandbys) s followingWrite).bind fun s =>
        (s.reads 0).bind ReadCall.origin) = some (1, .replica .replica2, "e") := by
    decide +kernel
  have hsecond : ((exec (step demoStandbys) .init asyncWrite).bind fun s =>
      (exec (step demoStandbys) s followingWrite).bind fun s =>
        (exec (step demoStandbys) s (readRun 1 (.replica .replica2) "d")).bind fun s =>
          (s.reads 1).bind ReadCall.origin) = some (0, .replica .replica2, "d") := by
    decide +kernel
  obtain ⟨s₀, s₁, hs₀, hs₁, hq⟩ : ∃ s₀ s₁, exec (step demoStandbys) .init asyncWrite = some s₀ ∧
      exec (step demoStandbys) s₀ followingWrite = some s₁ ∧ s₁.reads 1 = none :=
    ⟨_, _, rfl, rfl, rfl⟩
  simp only [hs₀, hs₁, Option.bind_some] at hfirst hsecond
  obtain ⟨first, hp, hfirst⟩ := Option.bind_eq_some_iff.mp hfirst
  obtain ⟨s₂, hs₂, hsecond⟩ := Option.bind_eq_some_iff.mp hsecond
  obtain ⟨second, hread, hsecond⟩ := Option.bind_eq_some_iff.mp hsecond
  exact ⟨s₀, s₁, s₂, first, second, hs₀, hs₁, hs₂, hp, hfirst, hq, hread, hsecond⟩

theorem monotonic_reads_followingWrite :
    ∃ s₀ s₁ s₂ found, exec (step demoStandbys) .init asyncWrite = some s₀ ∧
      exec (step demoStandbys) s₀ followingWrite = some s₁ ∧
      exec (step demoStandbys) s₁ (readRun 1 (.replica .replica2) "d") = some s₂ ∧
      ∃ i row, CommitAt s₁.log i "e" row ∧ ∀ j row', j ≤ i → CommitAt s₁.log j "d" row' →
        ReturnedFresh s₂ "d" j found := by
  obtain ⟨s₀, s₁, s₂, first, second, hs₀, hs₁, hs₂, hp, hfirst, hq, hread, hsecond⟩ :=
    followingWrite_origin
  obtain ⟨found₁, row, hpc, hrow, _, hnode, hid⟩ := origin_eq_some hfirst
  obtain ⟨found₂, _, hpc', _, _, hnode', hid'⟩ := origin_eq_some hsecond
  have hreach := (reach_of_exec _ hs₀).trans (reach_of_exec _ hs₁)
  have hfound : found₁.found = true := by
    obtain ⟨lsn, x, hx, rfl⟩ := (consistencyInv_reach hreach).returned hp hpc
    rw [hrow] at hx
    cases hx
    rfl
  obtain ⟨i, row, hcommit, _, hfresh⟩ := monotonic_reads hreach hp hpc hfound hq
    (reach_of_exec _ hs₂) hread hpc' (.inl ⟨_, hnode, hnode'⟩)
  rw [hid] at hcommit
  rw [hid'] at hfresh
  exact ⟨s₀, s₁, s₂, found₂, hs₀, hs₁, hs₂, i, row, hcommit, hfresh⟩

/-- A standby can show a write that still waits for its acknowledgement, and the primary not. -/
example : ((exec (step demoStandbys) .init (asyncWrite ++
    [.startWrite 1 ⟨"d", "v2", .quorum⟩, .write 1, .write 1, .write 1, .receive .replica2 2,
      .flush .replica2 2, .replay .replica2 2] ++ readRun 0 (.replica .replica2) "d" ++
    readRun 1 .primary "d")).map fun s =>
      ((s.reads 0).bind ReadCall.content, (s.reads 1).bind ReadCall.content)) =
    some (some "v2", some "v1") := by decide +kernel

lemma log_prefix_of_took (h : Took s a t) : s.log <+: t.log := by
  cases h with
  | commits _ _ | appends => exact List.prefix_append ..
  | _ => exact List.prefix_rfl

lemma log_prefix_of_reach (h : Reach (step names) s t) : s.log <+: t.log :=
  h.invariant (I := fun u => s.log <+: u.log) List.prefix_rfl fun _ _ _ hu _ hv =>
    hu.trans (log_prefix_of_took (took_of_step hv))

lemma length_le_of_fresh {s₀ s₁ : State} (hi₀ : ConsistencyInv s₀) (hc : s₀.writes c = none)
    (h : Reach (step names) s₀ s₁) (hcommit : CommitAt s₁.log i id row) (hxmin : row.xmin = c) :
    s₀.log.length ≤ i := by
  by_contra hlt
  rw [not_le] at hlt
  have hsame : s₀.log[i]? = s₁.log[i]? := by
    obtain ⟨later, hlater⟩ := log_prefix_of_reach h
    rw [← hlater, List.getElem?_append_left hlt]
  obtain ⟨wcall, hwrites, _⟩ := hi₀.authored i id row (hsame.trans hcommit)
  rw [hxmin, hc] at hwrites
  cases hwrites

/-- Reads are causal: a read that has found what a write has written is followed by reads that see
every write that had returned before that write was called. -/
theorem causal_reads {s₀ s₁ s₂ : State} {b : TxnId} {result : WriteResult}
    {first second : ReadCall} {found₁ found₂ : ReadResult}
    (h₀ : Reach (step names) State.init s₀) (hb : s₀.writes b = some wcall)
    (hpc : wcall.pc = .returned result) (hc : s₀.writes c = none)
    (h₁ : Reach (step names) s₀ s₁) (hp : s₁.reads p = some first)
    (hfirst : first.pc = .returned found₁) (hrow : first.document = some (some row))
    (hxmin : row.xmin = c) (hq : s₁.reads q = none) (h₂ : Reach (step names) s₁ s₂)
    (hread : s₂.reads q = some second) (hsecond : second.pc = .returned found₂)
    (hid : second.request.docId = wcall.request.docId)
    (hsees : SeesRead first.request found₁.nodeLsn second.request found₂.upToDate) :
    ∃ j row', CommitAt s₂.log j wcall.request.docId row' ∧ row'.xmin = b ∧
      row'.document.content = wcall.request.content ∧
      ReturnedFresh s₂ wcall.request.docId j found₂ := by
  have hi₀ := consistencyInv_reach h₀
  obtain ⟨j, row', ⟨hxmin', hcommit', _, _⟩, hcontent, _⟩ := past_of_returned hi₀ hb hpc
  have hreach₁ := h₀.trans h₁
  obtain ⟨i, hfound⟩ := (sessionInv_reach hreach₁).found p first row hp hrow
  have hle := length_le_of_fresh hi₀ hc h₁ hfound.committed hxmin
  have hlt := hcommit'.lt
  have hkeeps {u v : State} (h : Reach (step names) u v) {row : Row} {id : String}
      (hcommit : CommitAt u.log j id row) : CommitAt v.log j id row := by
    obtain ⟨later, hlater⟩ := log_prefix_of_reach h
    rw [CommitAt, ← hlater, List.getElem?_append_left hcommit.lt]
    exact hcommit
  have hcommit₁ := hkeeps h₁ hcommit'
  rw [← hid] at hcommit₁ ⊢
  exact ⟨j, row', hkeeps h₂ hcommit₁, hxmin', hcontent,
    fresh_after_read hreach₁ hfirst hfound hq h₂ hread hsecond hsees (by omega) hcommit₁⟩

theorem causal_reads_followingWrite :
    ∃ s₀ s₁ s₂ found j row, exec (step demoStandbys) .init asyncWrite = some s₀ ∧
      exec (step demoStandbys) s₀ followingWrite = some s₁ ∧
      exec (step demoStandbys) s₁ (readRun 1 (.replica .replica2) "d") = some s₂ ∧
      CommitAt s₂.log j "d" row ∧ row.document.content = "v1" ∧ ReturnedFresh s₂ "d" j found := by
  obtain ⟨s₀, s₁, s₂, first, second, hs₀, hs₁, hs₂, hp, hfirst, hq, hread, hsecond⟩ :=
    followingWrite_origin
  obtain ⟨found₁, row, hpc, hrow, hxmin, hnode, _⟩ := origin_eq_some hfirst
  obtain ⟨found₂, _, hpc', _, _, hnode', hid'⟩ := origin_eq_some hsecond
  obtain ⟨s₀', wcall, result, hs₀', hb, hreturned, hdoc, hcontent, hc⟩ : ∃ s₀ wcall result,
      exec (step demoStandbys) .init asyncWrite = some s₀ ∧ s₀.writes 0 = some wcall ∧
      wcall.pc = .returned result ∧ wcall.request.docId = "d" ∧ wcall.request.content = "v1" ∧
      s₀.writes 1 = none := ⟨_, _, _, rfl, rfl, rfl, rfl, rfl, rfl⟩
  obtain rfl := Option.some.inj (hs₀.symm.trans hs₀')
  obtain ⟨j, row', hcommit, _, hrow', hfresh⟩ := causal_reads (reach_of_exec _ hs₀) hb hreturned hc
    (reach_of_exec _ hs₁) hp hpc hrow hxmin hq (reach_of_exec _ hs₂) hread hpc'
    (hid'.trans hdoc.symm) (.inl ⟨_, hnode, hnode'⟩)
  rw [hdoc] at hcommit hfresh
  exact ⟨s₀, s₁, s₂, found₂, j, row', hs₀, hs₁, hs₂, hcommit, hrow'.trans hcontent, hfresh⟩

end AsyncDataHub.Consistency
