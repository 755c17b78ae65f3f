import AsyncDataHub.Consistency

/-! What a read returns once a write has returned: on the primary, on a standby that has reached the
write's LSN, and on the standby that has acknowledged the write. -/
namespace AsyncDataHub.Consistency
open StepSystem LockTable LogShipping

variable {names : List Replica} {s t : State} {a : Action} {c d : TxnId} {q : ReadId}
  {wcall wcall' : WriteCall} {call call' : ReadCall} {r : Replica} {row : Row} {i : ℕ}

structure WriteCall.Writes (wcall : WriteCall) (c : TxnId) (row : Row) : Prop where
  xmin : row.xmin = c
  id : row.document.id = wcall.request.docId
  content : row.document.content = wcall.request.content

/-- A write that has ended: its record is in the log, the primary shows it or a later one, and the
standby that has let it go on has it on its disk. -/
structure Ended (s : State) (c : TxnId) (wcall : WriteCall) (i : ℕ) (row : Row) : Prop where
  record : wcall.record = some i
  writes : wcall.Writes c row
  committed : CommitAt s.log i wcall.request.docId row
  shown : FreshFrom s.log wcall.request.docId i (s.rows wcall.request.docId)
  flushed : ∀ r, wcall.releasedBy = some r →
    wcall.request.durability = .quorum ∧ i < (s.standbys r).flushed

def WriteCall.Sound (s : State) (c : TxnId) (wcall : WriteCall) : Prop :=
  match wcall.pc with
  | .setLocal => wcall.record = none
  | .upsert mode _ =>
    wcall.record = none ∧ mode = synchronousCommit wcall.request.durability
  | .commit mode row =>
    wcall.record = none ∧ mode = synchronousCommit wcall.request.durability ∧
      s.locks wcall.request.docId = some c ∧ wcall.Writes c row
  | .waiting mode row lsn =>
    ∃ i, wcall.record = some i ∧ mode = synchronousCommit wcall.request.durability ∧
      s.locks wcall.request.docId = some c ∧ wcall.Writes c row ∧ lsn = i + 1 ∧
      LastAt s.log i wcall.request.docId row
  | .currentLsn _ => ∃ i row, Ended s c wcall i row
  | .returned result => ∃ i row, Ended s c wcall i row ∧ i < result.writeLsn
  | .failed => True

def ReadCall.Sound (s : State) (call : ReadCall) : Prop :=
  (call.upToDate = some true → ∃ r target, call.request.node = .replica r ∧
    call.request.waitForLsn = some target ∧ target ≤ (s.standbys r).replayed) ∧
  match call.pc with
  | .start | .get => call.document = none
  | .poll r target _ | .late r target _ | .sleep r target _ _ =>
    call.document = none ∧ call.request.node = .replica r ∧ call.request.waitForLsn = some target
  | .returned result =>
    ∃ lsn row, call.document = some row ∧ result = call.result lsn row
  | _ => True

structure ConsistencyInv (s : State) : Prop where
  writes : ∀ c wcall, s.writes c = some wcall → wcall.Sound s c
  reads : ∀ q call, s.reads q = some call → call.Sound s
  authored : ∀ i id row, CommitAt s.log i id row → ∃ wcall, s.writes row.xmin = some wcall ∧
    wcall.record = some i ∧ wcall.request.docId = id ∧ wcall.Writes row.xmin row
  written : ∀ i id row, CommitAt s.log i id row → i < s.written
  keyed : ∀ id row, s.rows id = some row → row.document.id = id

/-- What the calls rely on: records stay, standbys go on, the rows of the primary get newer. -/
structure Forward (s t : State) : Prop where
  log : ∀ i id row, CommitAt s.log i id row → CommitAt t.log i id row
  standbys : ∀ r, (s.standbys r).Le (t.standbys r)
  rows : ∀ i id, FreshFrom s.log id i (s.rows id) → FreshFrom t.log id i (t.rows id)

lemma Ended.forward (h : Ended s c wcall i row) (hf : Forward s t) : Ended t c wcall i row where
  record := h.record
  writes := h.writes
  committed := hf.log _ _ _ h.committed
  shown := hf.rows _ _ h.shown
  flushed r hr :=
    ⟨(h.flushed r hr).1, (h.flushed r hr).2.trans_le (hf.standbys r).flushed⟩

lemma ReadCall.Sound.forward (h : call.Sound s) (hf : Forward s t) : call.Sound t := by
  refine ⟨fun hup => ?_, h.2⟩
  obtain ⟨r, target, hnode, hwait, hreached⟩ := h.1 hup
  exact ⟨r, target, hnode, hwait, hreached.trans (hf.standbys r).replayed⟩

/-- What a write relies on besides: its row lock, and that nobody else commits the row under it. -/
def Undisturbed (s t : State) (d : TxnId) : Prop :=
  ∀ id, s.locks id = some d →
    t.locks id = some d ∧ ∀ j row, CommitAt t.log j id row → CommitAt s.log j id row

lemma WriteCall.Sound.frame (h : wcall.Sound s d) (hf : Forward s t) (hu : Undisturbed s t d) :
    wcall.Sound t d := by
  unfold WriteCall.Sound at h ⊢
  split at h <;> try exact h
  · obtain ⟨hrecord, hmode, hlock, hrow⟩ := h
    exact ⟨hrecord, hmode, (hu _ hlock).1, hrow⟩
  · obtain ⟨i, hrecord, hmode, hlock, hrow, hlsn, hcommit, hlast⟩ := h
    obtain ⟨hlock', hsame⟩ := hu _ hlock
    exact ⟨i, hrecord, hmode, hlock', hrow, hlsn, hf.log _ _ _ hcommit, fun j w hj =>
      hlast j w (hsame j w hj)⟩
  · obtain ⟨i, row, hended⟩ := h
    exact ⟨i, row, hended.forward hf⟩
  · obtain ⟨i, row, hended, hlsn⟩ := h
    exact ⟨i, row, hended.forward hf, hlsn⟩

lemma ConsistencyInv.waiting (hi : ConsistencyInv s) (hc : s.writes c = some wcall)
    {mode : SynchronousCommit} {lsn : Lsn} (hpc : wcall.pc = .waiting mode row lsn) :
    ∃ i, wcall.record = some i ∧ mode = synchronousCommit wcall.request.durability ∧
      s.locks wcall.request.docId = some c ∧ wcall.Writes c row ∧ lsn = i + 1 ∧
      LastAt s.log i wcall.request.docId row := by
  simpa only [WriteCall.Sound, hpc] using hi.writes c wcall hc

lemma Forward.refl (h : t.log = s.log) (hsb : t.standbys = s.standbys) (hrows : t.rows = s.rows) :
    Forward s t where
  log i id row hi := h ▸ hi
  standbys r := hsb ▸ Standby.Le.refl _
  rows i id hi := by rwa [h, hrows]

lemma Forward.append {r : Record String Row} (h : t.log = s.log ++ [r])
    (hsb : t.standbys = s.standbys) (hrows : t.rows = s.rows) : Forward s t where
  log i id row hi := h ▸ hi.mono r
  standbys r := hsb ▸ Standby.Le.refl _
  rows i id hi := by
    rw [h, hrows]
    exact hi.mono r

lemma forward_endWrite (hi : ConsistencyInv s) (hc : s.writes c = some wcall)
    {mode : SynchronousCommit} {lsn : Lsn} (hpc : wcall.pc = .waiting mode row lsn)
    (hrequest : wcall'.request = wcall.request) : Forward s (s.endWrite c wcall' row) where
  log i id row h := h
  standbys r := Standby.Le.refl _
  rows i id h := by
    obtain ⟨n, _, _, _, _, _, hcommit, hlast⟩ := hi.waiting hc hpc
    have hrows : (s.endWrite c wcall' row).rows =
        Function.update s.rows wcall.request.docId (some row) := by rw [← hrequest]; rfl
    rw [hrows]
    by_cases hid : id = wcall.request.docId
    · subst hid
      obtain ⟨j, w, hij, hj, _⟩ := h
      exact ⟨n, row, hij.trans (hlast j w hj), hcommit, Function.update_self ..⟩
    · rw [Function.update_of_ne hid]
      exact h

lemma forward_of_took (hi : ConsistencyInv s) (h : Took s a t) : Forward s t := by
  cases h with
  | startsWrite _ _ | setsLocal _ _ | upserts _ _ _ | samples _ _ | fails _ _ | startsRead _ _
  | gets _ _ | moves _ _ _ _ | flushesWal _ | ticks _ => exact .refl rfl rfl rfl
  | commits _ _ | appends => exact .append rfl rfl rfl
  | releases found pc _ => exact forward_endWrite hi found pc rfl
  | failsWaiting found pc => exact forward_endWrite hi found pc rfl
  | @ships a r sb hle _ _ =>
    refine ⟨fun _ _ _ h => h, fun r' => ?_, fun _ _ h => h⟩
    by_cases hr : r' = r
    · subst hr
      simpa [State.setStandby] using hle
    · simpa [State.setStandby, hr] using Standby.Le.refl _

lemma undisturbed_of_took (hi : ConsistencyInv s) (h : Took s a t)
    (hd : a.writer ≠ some d) : Undisturbed s t d := by
  intro id hlock
  cases h with
  | startsWrite _ _ | setsLocal _ _ | samples _ _ | startsRead _ _ | gets _ _ | moves _ _ _ _
  | flushesWal _ | ships _ _ _ | ticks _ => exact ⟨hlock, fun _ _ h => h⟩
  | upserts _ _ hfree =>
    refine ⟨take_eq_some_of_ne hfree hlock fun hdc => hd ?_, fun _ _ h => h⟩
    rw [hdc, Action.writer]
  | @commits c wcall mode row found pc =>
    refine ⟨hlock, fun j w hj => ?_⟩
    rcases commitAt_append.mp hj with hj | ⟨_, hcommit⟩
    · exact hj
    · have hs := hi.writes c wcall found
      simp only [WriteCall.Sound, pc] at hs
      obtain ⟨_, _, hlock', _⟩ := hs
      cases hcommit
      rw [hlock, Option.some.injEq] at hlock'
      exact absurd (by rw [hlock', Action.writer]) hd
  | @releases c _ _ _ _ _ _ _ _ | @failsWaiting c _ _ _ _ _ _ | @fails c _ _ _ =>
    refine ⟨releaseAll_eq_some.mpr ⟨hlock, fun hdc => hd ?_⟩, fun _ _ h => h⟩
    rw [hdc, Action.writer]
  | appends =>
    refine ⟨hlock, fun j w hj => ?_⟩
    rcases commitAt_append.mp hj with hj | ⟨_, hcommit⟩
    · exact hj
    · cases hcommit

lemma ended_of_waiting (hi : ConsistencyInv s) (hc : s.writes c = some wcall)
    {mode : SynchronousCommit} {lsn : Lsn} (hpc : wcall.pc = .waiting mode row lsn)
    {releasedBy : Option Replica} (pc : WritePc)
    (hack : ∀ r, releasedBy = some r → Acknowledges mode (s.standbys r) lsn) :
    ∃ i, Ended (s.endWrite c { wcall with pc, releasedBy } row) c { wcall with pc, releasedBy } i
      row := by
  obtain ⟨i, hrecord, hmode, _, hrow, rfl, hlast⟩ := hi.waiting hc hpc
  refine ⟨i, hrecord, ⟨hrow.xmin, hrow.id, hrow.content⟩, hlast.1,
    ⟨i, row, le_rfl, hlast.1, Function.update_self ..⟩, fun r hr => ?_⟩
  have hack := hack r hr
  subst hmode
  cases hd : wcall.request.durability with
  | quorum =>
    rw [hd] at hack
    exact ⟨rfl, hack⟩
  | async =>
    rw [hd] at hack
    cases hack

lemma writes_sound (hi : ConsistencyInv s) (h : Took s a t) (ha : a.writer = some c)
    (hw : t.writes = Function.update s.writes c (some wcall)) (hs : wcall.Sound t c) :
    ∀ d wcall', t.writes d = some wcall' → wcall'.Sound t d := by
  intro d wcall' hd
  rw [hw] at hd
  rcases update_eq_some.mp hd with ⟨rfl, rfl⟩ | ⟨hne, hd⟩
  · exact hs
  · refine (hi.writes d wcall' hd).frame (forward_of_took hi h) (undisturbed_of_took hi h ?_)
    simpa [ha] using Ne.symm hne

lemma writes_upsertRow (hi : ConsistencyInv s) (c : TxnId) (wcall : WriteCall) (default : ℕ) :
    wcall.Writes c (upsertRow s c wcall.request default) := by
  cases hold : s.rows wcall.request.docId with
  | none => exact ⟨rfl, by simp [upsertRow, hold], by simp [upsertRow, hold]⟩
  | some old =>
    have hid := hi.keyed _ _ hold
    exact ⟨rfl, by simp [upsertRow, hold, hid], by simp [upsertRow, hold]⟩

lemma writes_of_took (hi : ConsistencyInv s) (h : Took s a t) :
    ∀ d wcall, t.writes d = some wcall → wcall.Sound t d := by
  have hframe : a.writer = none → t.writes = s.writes →
      ∀ d wcall, t.writes d = some wcall → wcall.Sound t d := by
    intro ha hsame d wcall hd
    rw [hsame] at hd
    exact (hi.writes d wcall hd).frame (forward_of_took hi h)
      (undisturbed_of_took hi h (by simp [ha]))
  cases h with
  | startsRead _ _ | gets _ _ | appends | flushesWal _ | ticks _ => exact hframe rfl rfl
  | moves _ _ _ hnone => exact hframe hnone rfl
  | ships _ _ hnone => exact hframe hnone rfl
  | startsWrite request hfresh => exact writes_sound hi (.startsWrite request hfresh) rfl rfl rfl
  | setsLocal found pc =>
    refine writes_sound hi (.setsLocal found pc) rfl rfl ?_
    have hs := hi.writes _ _ found
    simp only [WriteCall.Sound, pc] at hs
    exact ⟨hs, rfl⟩
  | upserts found pc hfree =>
    refine writes_sound hi (.upserts found pc hfree) rfl rfl ?_
    have hs := hi.writes _ _ found
    simp only [WriteCall.Sound, pc] at hs
    obtain ⟨hxmin, hid, hcontent⟩ := writes_upsertRow hi _ _ _
    exact ⟨hs.1, hs.2, take_self .., hxmin, hid, hcontent⟩
  | commits found pc =>
    refine writes_sound hi (.commits found pc) rfl rfl ?_
    have hs := hi.writes _ _ found
    simp only [WriteCall.Sound, pc] at hs
    obtain ⟨_, hmode, hlock, hrow⟩ := hs
    refine ⟨s.log.length, rfl, hmode, hlock, ⟨hrow.xmin, hrow.id, hrow.content⟩, rfl,
      commitAt_append.mpr (.inr ⟨rfl, rfl⟩), fun j w hj => ?_⟩
    rcases commitAt_append.mp hj with hj | ⟨rfl, _⟩
    · exact hj.lt.le
    · exact le_rfl
  | releases found pc hack =>
    refine writes_sound hi (.releases found pc hack) rfl rfl ?_
    obtain ⟨i, hended⟩ := ended_of_waiting hi found pc (.currentLsn _) hack
    exact ⟨i, _, hended⟩
  | samples found pc =>
    refine writes_sound hi (.samples found pc) rfl rfl ?_
    have hs := hi.writes _ _ found
    simp only [WriteCall.Sound, pc] at hs
    obtain ⟨i, row, hended⟩ := hs
    exact ⟨i, row, ⟨hended.record, ⟨hended.writes.xmin, hended.writes.id, hended.writes.content⟩,
      hended.committed, hended.shown, hended.flushed⟩, hi.written _ _ _ hended.committed⟩
  | failsWaiting found pc => exact writes_sound hi (.failsWaiting found pc) rfl rfl trivial
  | fails found pc => exact writes_sound hi (.fails found pc) rfl rfl trivial

lemma readSound_of_moves (hs : call.Sound s) (h : ReadMoves s call call') : call'.Sound s := by
  obtain ⟨hup, hpc⟩ := hs
  cases h with
  | starts pc =>
    simp only [pc] at hpc
    unfold readStart
    split
    · exact ⟨hup, hpc, ‹_›, ‹_›⟩
    · exact ⟨hup, hpc⟩
  | reaches pc hreached =>
    simp only [pc] at hpc
    exact ⟨fun _ => ⟨_, _, hpc.2.1, hpc.2.2, hreached⟩, hpc.1⟩
  | misses pc | sleeps _ pc | wakes pc =>
    simp only [pc] at hpc
    exact ⟨hup, hpc⟩
  | gives pc =>
    simp only [pc] at hpc
    exact ⟨nofun, hpc.1⟩
  | returns lsn _ found => exact ⟨hup, lsn, _, found, rfl⟩
  | fails => exact ⟨hup, trivial⟩

lemma document_of_moves (hs : call.Sound s) (h : ReadMoves s call call') {row : Option Row}
    (hrow : call'.document = some row) : call.document = some row ∧
      call'.request = call.request ∧ call'.upToDate = call.upToDate := by
  obtain ⟨_, hpc⟩ := hs
  cases h with
  | starts pc =>
    unfold readStart at hrow ⊢
    split at hrow <;> exact ⟨hrow, rfl, rfl⟩
  | reaches pc _ | gives pc =>
    simp only [pc] at hpc
    rw [hpc.1] at hrow
    cases hrow
  | misses _ | sleeps _ _ | wakes _ | returns _ _ _ | fails => exact ⟨hrow, rfl, rfl⟩

lemma reads_of_took (hi : ConsistencyInv s) (h : Took s a t) :
    ∀ q call, t.reads q = some call → call.Sound t := by
  have hold : ∀ q call, s.reads q = some call → call.Sound t := fun q call hq =>
    (hi.reads q call hq).forward (forward_of_took hi h)
  cases h with
  | startsRead request _ => exact forall_update hold ⟨nofun, rfl⟩
  | gets found _ => exact forall_update hold ⟨(hold _ _ found).1, trivial⟩
  | moves found _ moved _ =>
    have hs : ReadCall.Sound s _ := readSound_of_moves (hi.reads _ _ found) moved
    exact forall_update hold (hs.forward (.refl rfl rfl rfl))
  | _ => exact hold

lemma keeps_write (hi : ConsistencyInv s) (h : Took s a t) (hc : s.writes c = some wcall)
    (hrecord : wcall.record = some i) :
    ∃ wcall', t.writes c = some wcall' ∧ wcall'.record = some i ∧
      wcall'.request = wcall.request := by
  have hmoves : ∀ d old new, s.writes d = some old → new.request = old.request →
      (d = c → new.record = old.record) →
      ∃ wcall', Function.update s.writes d (some new) c = some wcall' ∧
        wcall'.record = some i ∧ wcall'.request = wcall.request := by
    intro d old new hd hrequest hnew
    by_cases hdc : c = d
    · subst hdc
      obtain rfl := Option.some.inj (hd.symm.trans hc)
      exact ⟨new, Function.update_self .., (hnew rfl).trans hrecord, hrequest⟩
    · exact ⟨wcall, (Function.update_of_ne hdc _ _).trans hc, hrecord, rfl⟩
  cases h with
  | startsWrite request hfresh =>
    refine ⟨wcall, (Function.update_of_ne ?_ _ _).trans hc, hrecord, rfl⟩
    intro hdc
    rw [hdc, hfresh] at hc
    cases hc
  | @commits d old mode row found pc =>
    refine hmoves d old _ found rfl fun hdc => ?_
    subst hdc
    obtain rfl := Option.some.inj (found.symm.trans hc)
    have hs := hi.writes _ _ found
    simp only [WriteCall.Sound, pc] at hs
    rw [hs.1] at hrecord
    cases hrecord
  | setsLocal found _ | upserts found _ _ | releases found _ _ | samples found _
  | failsWaiting found _ | fails found _ => exact hmoves _ _ _ found rfl fun _ => rfl
  | startsRead _ _ | gets _ _ | moves _ _ _ _ | appends | flushesWal _ | ships _ _ _ | ticks _ =>
    exact ⟨wcall, hc, hrecord, rfl⟩

lemma commitAt_of_took (h : Took s a t) {id : String} (hr : CommitAt t.log i id row) :
    CommitAt s.log i id row ∨ ∃ c wcall mode, s.writes c = some wcall ∧
      wcall.pc = .commit mode row ∧ wcall.request.docId = id ∧ i = s.log.length ∧
      t.written = s.log.length + 1 ∧ ∃ wcall', t.writes c = some wcall' ∧
        wcall'.request = wcall.request ∧ wcall'.record = some i := by
  cases h with
  | @commits c wcall mode row' found pc =>
    rcases commitAt_append.mp hr with hr | ⟨rfl, hcommit⟩
    · exact .inl hr
    · cases hcommit
      exact .inr ⟨c, wcall, mode, found, pc, rfl, rfl, rfl, _, Function.update_self .., rfl, rfl⟩
  | appends =>
    rcases commitAt_append.mp hr with hr | ⟨_, hcommit⟩
    · exact .inl hr
    · cases hcommit
  | _ => exact .inl hr

theorem consistencyInv_step (h : step names s a = some t) (hi : ConsistencyInv s) :
    ConsistencyInv t := by
  have htook := took_of_step h
  refine ⟨writes_of_took hi htook, reads_of_took hi htook, fun i id row hr => ?_,
    fun i id row hr => ?_, fun id row hrow => ?_⟩
  · rcases commitAt_of_took htook hr with hr | ⟨c, wcall, mode, hc, hpc, hid, hlen, _, wcall', hc',
      hrequest, hrecord⟩
    · obtain ⟨wcall, hc, hrecord, hid, hrow⟩ := hi.authored i id row hr
      obtain ⟨wcall', hc', hrecord', hrequest⟩ := keeps_write hi htook hc hrecord
      exact ⟨wcall', hc', hrecord', by rw [hrequest, hid], hrow.xmin, by rw [hrequest, hrow.id],
        by rw [hrequest, hrow.content]⟩
    · have hs := hi.writes c wcall hc
      simp only [WriteCall.Sound, hpc] at hs
      obtain ⟨_, _, _, hrow⟩ := hs
      obtain rfl := hrow.xmin
      exact ⟨wcall', hc', hrecord, by rw [hrequest, hid], rfl, by rw [hrequest, hrow.id],
        by rw [hrequest, hrow.content]⟩
  · rcases commitAt_of_took htook hr with hr | ⟨_, _, _, _, _, _, hlen, hwritten, _⟩
    · have hlt := hi.written i id row hr
      have hlen := hr.lt
      cases htook with
      | commits _ _ => exact hlen.trans_le (Nat.le_succ _)
      | flushesWal n => exact hlt.trans_le (le_max_left _ _)
      | _ => exact hlt
    · rw [hlen, hwritten]
      exact Nat.lt_succ_self _
  · cases htook with
    | @releases c wcall mode row' lsn _ found pc _ | @failsWaiting c wcall mode row' lsn found pc =>
      rcases update_eq_some.mp hrow with ⟨rfl, rfl⟩ | ⟨_, hrow⟩
      · obtain ⟨_, _, _, _, hwrites, _⟩ := hi.waiting found pc
        exact hwrites.id
      · exact hi.keyed id row hrow
    | _ => exact hi.keyed id row hrow

def State.init : State := {}

lemma consistencyInv_init : ConsistencyInv State.init where
  writes _ _ h := by cases h
  reads _ _ h := by cases h
  authored _ _ _ h := by simp [State.init, CommitAt] at h
  written _ _ _ h := by simp [State.init, CommitAt] at h
  keyed _ _ h := by cases h

lemma ConsistencyInv.distinct (hi : ConsistencyInv s) (id : String) : Distinct s.log id := by
  intro i j row hrow hrow'
  obtain ⟨wcall, hc, hrecord, _⟩ := hi.authored i id row hrow
  obtain ⟨wcall', hc', hrecord', _⟩ := hi.authored j id row hrow'
  obtain rfl := Option.some.inj (hc.symm.trans hc')
  exact Option.some.inj (hrecord.symm.trans hrecord')

/-- What a read of the document has found, if it is of the kind `want`, is the row committed at `i`
or a later one. -/
def SawFresh (want : ReadRequest → Option Bool → Prop) (q : ReadId) (id : String) (i : ℕ)
    (s : State) : Prop :=
  ∀ call row, s.reads q = some call → call.request.docId = id →
    want call.request call.upToDate → call.document = some row → FreshFrom s.log id i row

variable {want : ReadRequest → Option Bool → Prop} {id : String}

lemma freshFrom_forward {x : Option Row} (h : FreshFrom s.log id i x) (hf : Forward s t) :
    FreshFrom t.log id i x := by
  obtain ⟨j, v, hij, hj, hx⟩ := h
  exact ⟨j, v, hij, hf.log _ _ _ hj, hx⟩

lemma sawFresh_of_took (hi : ConsistencyInv s) (h : Took s a t) (hs : SawFresh want q id i s)
    (hget : ∀ call, a = .read q → s.reads q = some call → call.pc = .get →
      call.request.docId = id → want call.request call.upToDate →
      FreshFrom s.log id i (s.shows call.request.node id)) : SawFresh want q id i t := by
  intro call row hq hid hwant hrow
  have hf := forward_of_took hi h
  cases h with
  | startsRead request _ =>
    rcases update_eq_some.mp hq with ⟨rfl, rfl⟩ | ⟨_, hq⟩
    · cases hrow
    · exact hs call row hq hid hwant hrow
  | gets found pc =>
    rcases update_eq_some.mp hq with ⟨rfl, rfl⟩ | ⟨_, hq⟩
    · cases hrow
      have hfresh := hget _ rfl found pc hid hwant
      rw [← hid] at hfresh ⊢
      exact hfresh
    · exact hs call row hq hid hwant hrow
  | moves found _ moved _ =>
    rcases update_eq_some.mp hq with ⟨rfl, rfl⟩ | ⟨_, hq⟩
    · obtain ⟨hrow', hrequest, hup⟩ := document_of_moves (hi.reads _ _ found) moved hrow
      rw [hrequest] at hid hwant
      rw [hup] at hwant
      exact hs _ row found hid hwant hrow'
    · exact hs call row hq hid hwant hrow
  | _ => exact freshFrom_forward (hs call row hq hid hwant hrow) hf

/-- A result that shows the row committed at `i` or a later one, as a write has asked for it. -/
def ReturnedFresh (s : State) (id : String) (i : ℕ) (result : ReadResult) : Prop :=
  result.found = true ∧ ∃ j row, i ≤ j ∧ CommitAt s.log j id row ∧
    result.content = some row.document.content ∧ ∃ wcall, s.writes row.xmin = some wcall ∧
      wcall.request.docId = id ∧ wcall.request.content = row.document.content

def ReadsFresh (want : ReadRequest → Option Bool → Prop) (q : ReadId) (id : String) (i : ℕ)
    (s : State) : Prop :=
  SawFresh want q id i s ∧ ∀ call result, s.reads q = some call → call.request.docId = id →
    want call.request call.upToDate → call.pc = .returned result → ReturnedFresh s id i result

lemma ConsistencyInv.returned (hi : ConsistencyInv s) (hq : s.reads q = some call)
    {result : ReadResult} (hpc : call.pc = .returned result) :
    ∃ lsn row, call.document = some row ∧ result = call.result lsn row := by
  obtain ⟨_, hs⟩ := hi.reads q call hq
  simpa only [hpc] using hs

lemma ConsistencyInv.readsFresh (hi : ConsistencyInv s) (hs : SawFresh want q id i s) :
    ReadsFresh want q id i s := by
  refine ⟨hs, fun call result hq hid hwant hpc => ?_⟩
  obtain ⟨lsn, x, hx, rfl⟩ := hi.returned hq hpc
  obtain ⟨j, row, hij, hj, rfl⟩ := hs call x hq hid hwant hx
  obtain ⟨wcall, hc, _, hdoc, hwrites⟩ := hi.authored j id row hj
  exact ⟨rfl, j, row, hij, hj, rfl, wcall, hc, hdoc, hwrites.content.symm⟩

def Past (s : State) (c : TxnId) (id : String) (i : ℕ) (row : Row) (lsn : Lsn) : Prop :=
  row.xmin = c ∧ CommitAt s.log i id row ∧ FreshFrom s.log id i (s.rows id) ∧ i < lsn

lemma Past.forward {lsn : Lsn} (h : Past s c id i row lsn) (hf : Forward s t) :
    Past t c id i row lsn :=
  ⟨h.1, hf.log _ _ _ h.2.1, hf.rows _ _ h.2.2.1, h.2.2.2⟩

lemma past_of_returned (hi : ConsistencyInv s) (hc : s.writes c = some wcall)
    {result : WriteResult} (hpc : wcall.pc = .returned result) :
    ∃ i row, Past s c wcall.request.docId i row result.writeLsn ∧
      row.document.content = wcall.request.content ∧
      ∀ r, wcall.releasedBy = some r →
        wcall.request.durability = .quorum ∧ i < (s.standbys r).flushed := by
  have hs := hi.writes c wcall hc
  simp only [WriteCall.Sound, hpc] at hs
  obtain ⟨i, row, hended, hlsn⟩ := hs
  exact ⟨i, row, ⟨hended.writes.xmin, hended.committed, hended.shown, hlsn⟩, hended.writes.content,
    hended.flushed⟩

/-- The reads that have to see a write: those on the primary, and those on a standby that has been
found to have the write's LSN. -/
def SeesWrite (lsn : Lsn) (request : ReadRequest) (upToDate : Option Bool) : Prop :=
  request.node = .primary ∨ request.waitForLsn = some lsn ∧ upToDate = some true

lemma shows_fresh {lsn : Lsn} (hi : ConsistencyInv s) (hp : Past s c id i row lsn)
    (hq : s.reads q = some call) (hwant : SeesWrite lsn call.request call.upToDate) :
    FreshFrom s.log id i (s.shows call.request.node id) := by
  obtain ⟨_, hcommit, hshown, hlsn⟩ := hp
  rcases hwant with hnode | ⟨hwait, hup⟩
  · rw [hnode]
    exact hshown
  · obtain ⟨r, target, hnode, htarget, hreached⟩ := (hi.reads q call hq).1 hup
    obtain rfl := Option.some.inj (hwait.symm.trans htarget)
    rw [hnode]
    exact replay_take_fresh hcommit (hlsn.trans_le hreached)

theorem consistencyInv_reach {s : State} (h : Reach (step names) State.init s) :
    ConsistencyInv s :=
  h.invariant consistencyInv_init fun _ _ _ hi _ ht => consistencyInv_step ht hi

/-- Read your writes: a read that comes after a write has returned, on the primary or on a standby
that is up to date with the write's LSN, finds what this write has written or what a write that
committed after it has. -/
theorem read_your_writes {s₁ s₂ : State} {result : WriteResult} {found : ReadResult}
    (h₁ : Reach (step names) State.init s₁) (hc : s₁.writes c = some wcall)
    (hpc : wcall.pc = .returned result) (hq : s₁.reads q = none)
    (h₂ : Reach (step names) s₁ s₂) (hread : s₂.reads q = some call)
    (hreturned : call.pc = .returned found) (hid : call.request.docId = wcall.request.docId)
    (hsees : SeesWrite result.writeLsn call.request found.upToDate) :
    ∃ i row, CommitAt s₂.log i wcall.request.docId row ∧ row.xmin = c ∧
      row.document.content = wcall.request.content ∧
      ReturnedFresh s₂ wcall.request.docId i found := by
  have hi₁ := consistencyInv_reach h₁
  obtain ⟨i, row, hpast, hcontent, _⟩ := past_of_returned hi₁ hc hpc
  have hinv : ConsistencyInv s₂ ∧ Past s₂ c wcall.request.docId i row result.writeLsn ∧
      SawFresh (SeesWrite result.writeLsn) q wcall.request.docId i s₂ := by
    refine h₂.invariant (I := fun s => ConsistencyInv s ∧
      Past s c wcall.request.docId i row result.writeLsn ∧
      SawFresh (SeesWrite result.writeLsn) q wcall.request.docId i s) ⟨hi₁, hpast, ?_⟩ ?_
    · intro call row hq'
      rw [hq] at hq'
      cases hq'
    · intro s a t hs _ ht
      obtain ⟨hi, hp, hsaw⟩ := hs
      have htook := took_of_step ht
      refine ⟨consistencyInv_step ht hi, hp.forward (forward_of_took hi htook), ?_⟩
      exact sawFresh_of_took hi htook hsaw fun call _ hq' _ _ hwant => shows_fresh hi hp hq' hwant
  obtain ⟨hi₂, ⟨hxmin, hcommit, _, _⟩, hsaw⟩ := hinv
  obtain ⟨lsn, x, hx, hresult⟩ := hi₂.returned hread hreturned
  have hup : found.upToDate = call.upToDate := by
    subst hresult
    cases x <;> rfl
  rw [hup] at hsees
  exact ⟨i, row, hcommit, hxmin, hcontent,
    (hi₂.readsFresh hsaw).2 call found hread hid hsees hreturned⟩

def demoStandbys : List Replica := [.replica1, .replica2]

/-- The steps of a write, with what the standbys do while it waits. -/
def writeRun (c : TxnId) (request : WriteRequest) (shipping : List Action)
    (releasedBy : Option Replica) : List Action :=
  [.startWrite c request, .write c, .write c, .write c] ++ shipping ++
    [.release c releasedBy, .write c]

def asyncWrite : List Action := writeRun 0 ⟨"d", "v1", .async⟩ [] none

/-- The standby replays the write between two polls of the read. -/
def pollingRead : List Action :=
  [.startRead 0 { node := .replica .replica2, docId := "d", waitForLsn := some 1 }, .read 0,
    .read 0, .read 0, .receive .replica2 1, .flush .replica2 1, .replay .replica2 1, .tick 50,
    .read 0, .read 0, .read 0, .read 0]

theorem read_your_writes_pollingRead :
    ∃ s₁ s₂ found i row, exec (step demoStandbys) .init asyncWrite = some s₁ ∧
      exec (step demoStandbys) s₁ pollingRead = some s₂ ∧ CommitAt s₂.log i "d" row ∧
      row.document.content = "v1" ∧ ReturnedFresh s₂ "d" i found := by
  obtain ⟨s₁, s₂, wcall, result, call, found, hs₁, hs₂, ⟨hc, hpc, hdoc, hcontent, hlsn⟩, hq, hread,
      hreturned, hid, hsees⟩ :
      ∃ s₁ s₂ wcall result call found, exec (step demoStandbys) .init asyncWrite = some s₁ ∧
        exec (step demoStandbys) s₁ pollingRead = some s₂ ∧
        (s₁.writes 0 = some wcall ∧ wcall.pc = .returned result ∧ wcall.request.docId = "d" ∧
          wcall.request.content = "v1" ∧ result.writeLsn = 1) ∧
        s₁.reads 0 = none ∧ s₂.reads 0 = some call ∧ call.pc = .returned found ∧
        call.request.docId = "d" ∧ SeesWrite 1 call.request found.upToDate :=
    ⟨_, _, _, _, _, _, rfl, rfl, ⟨rfl, rfl, rfl, rfl, rfl⟩, rfl, rfl, rfl, rfl, .inr ⟨rfl, rfl⟩⟩
  obtain ⟨i, row, hcommit, _, hrow, hfresh⟩ := read_your_writes (reach_of_exec _ hs₁) hc hpc hq
    (reach_of_exec _ hs₂) hread hreturned (hid.trans hdoc.symm) (hlsn ▸ hsees)
  rw [hdoc] at hcommit hfresh
  exact ⟨s₁, s₂, found, i, row, hs₁, hs₂, hcommit, hrow.trans hcontent, hfresh⟩

def PlainRead (r : Replica) (request : ReadRequest) (_ : Option Bool) : Prop :=
  request.node = .replica r ∧ request.waitForLsn = none

/-- The standby has replayed the record at `i` when the read looks at the document on it. -/
def HasReplayed (q : ReadId) (r : Replica) (id : String) (i : ℕ) (s : State) (a : Action) : Prop :=
  ∀ call, a = .read q → s.reads q = some call → call.pc = .get → call.request.docId = id →
    PlainRead r call.request call.upToDate → i < (s.standbys r).replayed

lemma readsFresh_iff (h : step names s a = some t) (hi : ConsistencyInv s)
    (hcommit : CommitAt s.log i id row) (hs : ReadsFresh (PlainRead r) q id i s) :
    ReadsFresh (PlainRead r) q id i t ↔ HasReplayed q r id i s a := by
  have hiff : FreshFrom s.log id i (s.replayedRows r id) ↔ i < (s.standbys r).replayed :=
    replay_take_fresh_iff (hi.distinct id) hcommit
  constructor
  · intro ht call ha hq hpc hid hwant
    subst ha
    have hstep : step names s (.read q) = some (s.setRead q
        { call with
          pc := .nodeLsn, document := some (s.shows call.request.node call.request.docId) }) := by
      simp [step, hq, read, hpc]
    obtain rfl := Option.some.inj (hstep.symm.trans h)
    have hfresh := ht.1 _ _ (Function.update_self ..) hid hwant rfl
    rw [hwant.1, hid] at hfresh
    exact hiff.mp hfresh
  · intro hg
    refine (consistencyInv_step h hi).readsFresh
      (sawFresh_of_took hi (took_of_step h) hs.1 fun call ha hq hpc hid hwant => ?_)
    rw [hwant.1]
    exact hiff.mpr (hg call ha hq hpc hid hwant)

/-- A write that a standby has let go on is a QUORUM write and on the disk of this standby; a later
read from there is fresh exactly if the standby has replayed the write's record by then. -/
theorem quorum_read_fresh_iff {s₁ : State} {result : WriteResult}
    (h₁ : Reach (step names) State.init s₁) (hc : s₁.writes c = some wcall)
    (hpc : wcall.pc = .returned result) (hreleased : wcall.releasedBy = some r)
    (hq : s₁.reads q = none) :
    ∃ i row, CommitAt s₁.log i wcall.request.docId row ∧ row.xmin = c ∧
      row.document.content = wcall.request.content ∧ wcall.request.durability = .quorum ∧
      i < (s₁.standbys r).flushed ∧
      ∀ acts, Along (step names) (ReadsFresh (PlainRead r) q wcall.request.docId i) s₁ acts ↔
        Guarded (step names) (HasReplayed q r wcall.request.docId i) s₁ acts := by
  have hi₁ := consistencyInv_reach h₁
  obtain ⟨i, row, ⟨hxmin, hcommit, _, _⟩, hcontent, hflushed⟩ := past_of_returned hi₁ hc hpc
  obtain ⟨hquorum, hdisk⟩ := hflushed r hreleased
  refine ⟨i, row, hcommit, hxmin, hcontent, hquorum, hdisk, fun acts => ?_⟩
  refine along_iff_guarded (I := fun s => ConsistencyInv s ∧ CommitAt s.log i _ row) ?_ ?_ acts
    ⟨hi₁, hcommit⟩ (hi₁.readsFresh ?_)
  · intro s a t hs ht
    exact ⟨consistencyInv_step ht hs.1,
      (forward_of_took hs.1 (took_of_step ht)).log _ _ _ hs.2⟩
  · intro s a t hs hp ht
    exact readsFresh_iff ht hs.1 hs.2 hp
  · intro call row hq'
    rw [hq] at hq'
    cases hq'

/-- The second standby has replayed "v1"; it acknowledges "v2" as soon as it is on its disk. -/
def acknowledgedWrite : List Action :=
  writeRun 0 ⟨"d", "v1", .async⟩ [] none ++
    [.receive .replica2 1, .flush .replica2 1, .replay .replica2 1] ++
    writeRun 1 ⟨"d", "v2", .quorum⟩ [.receive .replica2 2, .flush .replica2 2] (some .replica2)

def plainRead : List Action :=
  [.startRead 0 { node := .replica .replica2, docId := "d" }, .read 0, .read 0, .read 0]

theorem quorum_read_fresh_iff_plainRead :
    ∃ s₁ i row, exec (step demoStandbys) .init acknowledgedWrite = some s₁ ∧
      CommitAt s₁.log i "d" row ∧ row.xmin = 1 ∧ row.document.content = "v2" ∧
      (Along (step demoStandbys) (ReadsFresh (PlainRead .replica2) 0 "d" i) s₁ plainRead ↔
        Guarded (step demoStandbys) (HasReplayed 0 .replica2 "d" i) s₁ plainRead) := by
  obtain ⟨s₁, wcall, result, hs₁, hc, hpc, hdoc, hcontent, hreleased, hq⟩ :
      ∃ s₁ wcall result, exec (step demoStandbys) .init acknowledgedWrite = some s₁ ∧
        s₁.writes 1 = some wcall ∧ wcall.pc = .returned result ∧ wcall.request.docId = "d" ∧
        wcall.request.content = "v2" ∧ wcall.releasedBy = some .replica2 ∧ s₁.reads 0 = none :=
    ⟨_, _, _, rfl, rfl, rfl, rfl, rfl, rfl, rfl⟩
  obtain ⟨i, row, hcommit, hxmin, hrow, _, _, hiff⟩ :=
    quorum_read_fresh_iff (reach_of_exec _ hs₁) hc hpc hreleased hq
  rw [hdoc] at hcommit hiff
  exact ⟨s₁, i, row, hs₁, hcommit, hxmin, hrow.trans hcontent, hiff plainRead⟩

lemma not_returnedFresh {row : Row} {found : ReadResult}
    (hlog : s.log.length = i + 1) (hlast : CommitAt s.log i id row)
    (hcontent : found.content ≠ some row.document.content) : ¬ ReturnedFresh s id i found := by
  intro h
  obtain ⟨_, j, row', hij, hj, hfound, _⟩ := h
  have hlt := hj.lt
  obtain rfl : j = i := by omega
  obtain rfl := hj.unique hlast
  exact hcontent hfound

def ReadCall.content (call : ReadCall) : Option String :=
  match call.pc with
  | .returned result => result.content
  | _ => none

/-- The read from the standby that has acknowledged "v2" returns "v1", and there is no later
write. -/
theorem plainRead_stale :
    ∃ s₁ s₂ wcall result call found, exec (step demoStandbys) .init acknowledgedWrite = some s₁ ∧
      s₁.writes 1 = some wcall ∧ wcall.pc = .returned result ∧
      wcall.request.durability = .quorum ∧ wcall.releasedBy = some .replica2 ∧
      wcall.record = some 1 ∧ exec (step demoStandbys) s₁ plainRead = some s₂ ∧
      s₂.reads 0 = some call ∧ PlainRead .replica2 call.request call.upToDate ∧
      call.pc = .returned found ∧ found.content = some "v1" ∧ ¬ ReturnedFresh s₂ "d" 1 found := by
  have hcontent : ((exec (step demoStandbys) .init acknowledgedWrite).bind fun s =>
      (exec (step demoStandbys) s plainRead).bind fun s => (s.reads 0).bind ReadCall.content) =
      some "v1" := by decide +kernel
  obtain ⟨s₁, s₂, wcall, result, call, found, row, hs₁, hrun, hs₂, hread, hplain, hreturned, hlog,
      hrow, hnew⟩ :
      ∃ s₁ s₂ wcall result call found row,
        exec (step demoStandbys) .init acknowledgedWrite = some s₁ ∧
        (s₁.writes 1 = some wcall ∧ wcall.pc = .returned result ∧
          wcall.request.durability = .quorum ∧ wcall.releasedBy = some .replica2 ∧
          wcall.record = some 1) ∧ exec (step demoStandbys) s₁ plainRead = some s₂ ∧
        s₂.reads 0 = some call ∧ PlainRead .replica2 call.request call.upToDate ∧
        call.pc = .returned found ∧ s₂.log.length = 2 ∧ CommitAt s₂.log 1 "d" row ∧
        row.document.content = "v2" :=
    ⟨_, _, _, _, _, _, _, rfl, ⟨rfl, rfl, rfl, rfl, rfl⟩, rfl, rfl, ⟨rfl, rfl⟩, rfl, rfl, rfl, rfl⟩
  obtain ⟨hc, hpc, hdurability, hreleased, hrecord⟩ := hrun
  have hfound : found.content = some "v1" := by
    simpa [hs₁, hs₂, hread, ReadCall.content, hreturned] using hcontent
  exact ⟨s₁, s₂, wcall, result, call, found, hs₁, hc, hpc, hdurability, hreleased, hrecord, hs₂,
    hread, hplain, hreturned, hfound, not_returnedFresh hlog hrow (by simp [hfound, hnew])⟩

end AsyncDataHub.Consistency
