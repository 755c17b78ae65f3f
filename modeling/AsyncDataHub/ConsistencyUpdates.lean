import AsyncDataHub.Consistency

/-! Calls of `write` one after the other, and what a read on the primary returns after each of
them. -/
namespace AsyncDataHub.Consistency
open StepSystem LockTable LogShipping

def Quiet (acts : List Action) : Prop := ∀ a ∈ acts, a.writer = none

/-- A step of the write, or of nothing that writes. -/
def OwnStep (c : TxnId) (a : Action) : Prop :=
  a.writer = none ∨ a = .write c ∨ ∃ releasedBy, a = .release c releasedBy

/-- One call of `write` that returns, with no other write beside it. The upsert gets its parameters
at `time`. -/
structure WriteRun (names : List Replica) (s : State) (c : TxnId) (request : WriteRequest)
    (time : ℕ) (result : WriteResult) (t : State) : Prop where
  runs : ∃ opening u rest call, Quiet opening ∧
    exec (step names) s (.startWrite c request :: opening) = some u ∧ u.now = time ∧
    (∀ a ∈ rest, OwnStep c a) ∧ exec (step names) u (.write c :: rest) = some t ∧
    t.writes c = some call ∧ call.pc = .returned result

/-- One call of `read` on the primary that returns, with no write beside it. -/
structure PrimaryRead (names : List Replica) (s : State) (q : ReadId) (docId : String)
    (result : ReadResult) : Prop where
  runs : ∃ request acts t call, request.node = .primary ∧ request.docId = docId ∧ Quiet acts ∧
    exec (step names) s (.startRead q request :: acts) = some t ∧ t.reads q = some call ∧
    call.pc = .returned result

structure Written where
  before : State
  call : TxnId
  request : WriteRequest
  time : ℕ
  result : WriteResult
  after : State

/-- Calls of `write` from a state on, each one after the one before it has returned and at a later
time. -/
inductive Sequence (names : List Replica) : State → List Written → Prop
  | nil (s : State) : Sequence names s []
  | cons {s : State} {acts : List Action} {w : Written} {ws : List Written} (quiet : Quiet acts)
      (idle : exec (step names) s acts = some w.before)
      (run : WriteRun names w.before w.call w.request w.time w.result w.after)
      (later : ∀ w' ∈ ws, w.time < w'.time) (rest : Sequence names w.after ws) :
      Sequence names s (w :: ws)

/-- What a write is to leave: its content and its time, and every other document as it was. -/
structure Written.Recorded (names : List Replica) (w : Written) : Prop where
  reported : w.result.updatedAt = w.time
  read : ∀ q result, PrimaryRead names w.after q w.request.docId result →
    result.found = true ∧ result.content = some w.request.content ∧ result.updatedAt = some w.time
  others : ∀ id, id ≠ w.request.docId → w.after.rows id = w.before.rows id
  later : ∀ old new, w.before.rows w.request.docId = some old →
    w.after.rows w.request.docId = some new → old.document.updatedAt < new.document.updatedAt

variable {names : List Replica} {s t u : State} {a : Action} {acts : List Action} {c : TxnId}
  {q : ReadId} {request : WriteRequest} {time : ℕ} {result : WriteResult}

lemma Took.quiet (h : Took s a t) (ha : a.writer = none) :
    t.rows = s.rows ∧ t.writes = s.writes := by
  cases h with
  | startsWrite _ _ | setsLocal _ _ | upserts _ _ _ | commits _ _ | releases _ _ _ | samples _ _
  | failsWaiting _ _ | fails _ _ => cases ha
  | _ => exact ⟨rfl, rfl⟩

lemma quiet_exec (hq : Quiet acts) (h : exec (step names) s acts = some t) :
    t.rows = s.rows ∧ t.writes = s.writes := by
  induction acts generalizing s with
  | nil =>
    rw [exec_nil, Option.some.injEq] at h
    exact h ▸ ⟨rfl, rfl⟩
  | cons a acts ih =>
    obtain ⟨u, hu, hrest⟩ := exec_cons_eq_some.mp h
    obtain ⟨hrows, hwrites⟩ := (took_of_step hu).quiet (hq a (by simp))
    obtain ⟨hrows', hwrites'⟩ := ih (fun b hb => hq b (List.mem_cons_of_mem a hb)) hrest
    exact ⟨hrows'.trans hrows, hwrites'.trans hwrites⟩

lemma upsertRow_congr (h : s.rows request.docId = t.rows request.docId) :
    upsertRow s c request time = upsertRow t c request time := by
  unfold upsertRow
  rw [h]

def State.withRow (s : State) (request : WriteRequest) (row : Row) : String → Option Row :=
  Function.update s.rows request.docId (some row)

def WriteCall.Progress (s : State) (request : WriteRequest) (time : ℕ) (row : Row) (u : State)
    (call : WriteCall) : Prop :=
  call.request = request ∧
  match call.pc with
  | .upsert _ default => u.rows = s.rows ∧ default = time
  | .commit _ row' | .waiting _ row' _ => u.rows = s.rows ∧ row' = row
  | .currentLsn updatedAt => u.rows = s.withRow request row ∧ updatedAt = row.document.updatedAt
  | .returned result => u.rows = s.withRow request row ∧ result.updatedAt = row.document.updatedAt
  | .setLocal | .failed => False

def Writing (s : State) (c : TxnId) (request : WriteRequest) (time : ℕ) (u : State) : Prop :=
  ∃ call, u.writes c = some call ∧
    call.Progress s request time (upsertRow s c request time) u

lemma writing_own (hw : Writing s c request time u) (h : Took u a t)
    (ha : a = .write c ∨ ∃ releasedBy, a = .release c releasedBy) :
    Writing s c request time t := by
  obtain ⟨call, hc, hreq, hpc⟩ := hw
  have hfound : ∀ {call'}, u.writes c = some call' → call' = call := by
    intro call' hc'
    rw [hc] at hc'
    exact (Option.some.inj hc').symm
  rcases ha with rfl | ⟨releasedBy, rfl⟩
  · cases h with
    | setsLocal hc' hpc' =>
      obtain rfl := hfound hc'
      simp [hpc'] at hpc
    | upserts hc' hpc' _ =>
      obtain rfl := hfound hc'
      simp only [hpc'] at hpc
      obtain ⟨hrows, rfl⟩ := hpc
      refine ⟨_, Function.update_self .., hreq, hrows, ?_⟩
      subst hreq
      exact upsertRow_congr (by rw [hrows])
    | commits hc' hpc' =>
      obtain rfl := hfound hc'
      simp only [hpc'] at hpc
      exact ⟨_, Function.update_self .., hreq, hpc⟩
    | samples hc' hpc' =>
      obtain rfl := hfound hc'
      simp only [hpc'] at hpc
      exact ⟨_, Function.update_self .., hreq, hpc⟩
    | moves _ _ _ hnone | ships _ _ hnone => cases hnone
  · cases h with
    | releases hc' hpc' _ =>
      obtain rfl := hfound hc'
      simp only [hpc'] at hpc
      obtain ⟨hrows, rfl⟩ := hpc
      refine ⟨_, Function.update_self .., hreq, ?_, rfl⟩
      subst hreq
      simp [State.endWrite, State.withRow, hrows]
    | moves _ _ _ hnone | ships _ _ hnone => cases hnone

lemma writing_quiet (hw : Writing s c request time u) (h : Took u a t) (ha : a.writer = none) :
    Writing s c request time t := by
  obtain ⟨hrows, hwrites⟩ := h.quiet ha
  obtain ⟨call, hc, hprogress⟩ := hw
  refine ⟨call, hwrites ▸ hc, ?_⟩
  unfold WriteCall.Progress at hprogress ⊢
  rwa [hrows]

lemma writing_exec (hown : ∀ a ∈ acts, OwnStep c a) (hw : Writing s c request time u)
    (h : exec (step names) u acts = some t) : Writing s c request time t := by
  have hreach := reachVia_of_exec (G := fun _ a => OwnStep c a) acts h
    (guarded_of_forall_mem (fun a ha _ => hown a ha) u)
  refine hreach.invariant hw fun u a v hw ha hstep => ?_
  rcases ha with hquiet | hstep'
  · exact writing_quiet hw (took_of_step hstep) hquiet
  · exact writing_own hw (took_of_step hstep) hstep'

/-- What a call of `write` does: the row of its document is the one of the upsert, and this row has
the time that the call reports. -/
theorem WriteRun.spec (h : WriteRun names s c request time result t) :
    t.rows = s.withRow request (upsertRow s c request time) ∧
      result.updatedAt = (upsertRow s c request time).document.updatedAt := by
  obtain ⟨opening, u, rest, call, hquiet, hopening, rfl, hown, hrest, hc, hpc⟩ := h.runs
  obtain ⟨s₁, hs₁, hopening⟩ := exec_cons_eq_some.mp hopening
  obtain ⟨u₁, hu₁, hrest⟩ := exec_cons_eq_some.mp hrest
  obtain ⟨hrows, hwrites⟩ := quiet_exec hquiet hopening
  have hstart : s₁ = s.setWrite c { request } := by
    cases took_of_step hs₁ with
    | startsWrite _ _ => rfl
    | moves _ _ _ hnone | ships _ _ hnone => cases hnone
  subst hstart
  have hfirst : u.writes c = some { request } := by
    rw [hwrites]
    exact Function.update_self ..
  have hset : u₁ = u.setWrite c
      { request, pc := .upsert (synchronousCommit request.durability) u.now } := by
    have hwrite : write u c { request } = some u₁ := by
      simpa only [step, hfirst, Option.bind_some] using hu₁
    exact (Option.some.inj hwrite).symm
  have hwriting : Writing s c request u.now u₁ := by
    subst hset
    exact ⟨_, Function.update_self .., rfl, hrows, rfl⟩
  obtain ⟨call', hc', -, hprogress⟩ := writing_exec hown hwriting hrest
  rw [hc, Option.some.injEq] at hc'
  subst hc'
  simpa only [hpc] using hprogress

structure Finds (result : ReadResult) (row : Option Row) : Prop where
  found : result.found = row.isSome
  content : result.content = row.map (·.document.content)
  updatedAt : result.updatedAt = row.map (·.document.updatedAt)

lemma finds_result (call : ReadCall) (lsn : Lsn) (row : Option Row) :
    Finds (call.result lsn row) row := by
  cases row <;> exact ⟨rfl, rfl, rfl⟩

def ReadCall.Looks (rows : String → Option Row) (docId : String) (call : ReadCall) : Prop :=
  call.request.node = .primary ∧ call.request.docId = docId ∧
  match call.pc with
  | .start | .get | .failed => True
  | .nodeLsn => call.document = some (rows docId)
  | .returned result => Finds result (rows docId)
  | .poll _ _ _ | .late _ _ _ | .sleep _ _ _ _ => False

def Reading (rows : String → Option Row) (q : ReadId) (docId : String) (s : State) : Prop :=
  s.rows = rows ∧ ∃ call, s.reads q = some call ∧ call.Looks rows docId

variable {rows : String → Option Row} {docId : String} {call call' : ReadCall}

lemma looks_moves (h : call.Looks rows docId) (hm : ReadMoves s call call') :
    call'.Looks rows docId := by
  obtain ⟨hnode, hdoc, hpc⟩ := h
  cases hm with
  | starts _ =>
    unfold readStart
    split
    · rename_i hnode'
      rw [hnode] at hnode'
      cases hnode'
    · exact ⟨hnode, hdoc, trivial⟩
  | reaches hpc' _ | misses hpc' | gives hpc' | sleeps _ hpc' | wakes hpc' => simp [hpc'] at hpc
  | returns lsn hpc' hfound =>
    simp only [hpc', hfound, Option.some.injEq] at hpc
    exact ⟨hnode, hdoc, hpc ▸ finds_result _ _ _⟩
  | fails => exact ⟨hnode, hdoc, trivial⟩

lemma reading_step (hr : Reading rows q docId s) (ha : a.writer = none) (h : Took s a t) :
    Reading rows q docId t := by
  obtain ⟨hrows, call, hq, hlooks⟩ := hr
  refine ⟨(h.quiet ha).1.trans hrows, ?_⟩
  -- A step of some read leaves `call` alone or is a step of it.
  have hset : ∀ {q' call₁ call₂}, s.reads q' = some call₁ →
      (call₁.Looks rows docId → call₂.Looks rows docId) →
      ∃ call, (s.setRead q' call₂).reads q = some call ∧ call.Looks rows docId := by
    intro q' call₁ call₂ hq' hkeep
    by_cases hsame : q = q'
    · subst hsame
      rw [hq, Option.some.injEq] at hq'
      exact ⟨call₂, Function.update_self .., hkeep (hq' ▸ hlooks)⟩
    · exact ⟨call, (Function.update_of_ne hsame ..).trans hq, hlooks⟩
  cases h with
  | startsWrite _ _ | setsLocal _ _ | upserts _ _ _ | commits _ _ | releases _ _ _ | samples _ _
  | failsWaiting _ _ | fails _ _ => cases ha
  | @startsRead q' _ hfresh =>
    have hne : q ≠ q' := by
      rintro rfl
      rw [hq] at hfresh
      cases hfresh
    exact ⟨call, (Function.update_of_ne hne ..).trans hq, hlooks⟩
  | gets hq' _ =>
    refine hset hq' fun hlooks' => ⟨hlooks'.1, hlooks'.2.1, ?_⟩
    simp [hlooks'.1, hlooks'.2.1, State.shows, hrows]
  | moves hq' _ hmove _ => exact hset hq' fun hlooks' => looks_moves hlooks' hmove
  | appends | flushesWal _ | ships _ _ _ | ticks _ => exact ⟨call, hq, hlooks⟩

/-- A read on the primary finds the row that the primary shows. -/
theorem PrimaryRead.spec {result : ReadResult} (h : PrimaryRead names s q docId result) :
    Finds result (s.rows docId) := by
  obtain ⟨request, acts, t, call, hnode, hdoc, hquiet, hexec, hq, hpc⟩ := h.runs
  obtain ⟨s₁, hs₁, hexec⟩ := exec_cons_eq_some.mp hexec
  have hstart : Reading s.rows q docId s₁ := by
    have hfresh : s₁ = s.setRead q { request } := by
      simp only [step] at hs₁
      split at hs₁
      · cases hs₁
      · exact (Option.some.inj hs₁).symm
    subst hfresh
    exact ⟨rfl, _, Function.update_self .., hnode, hdoc, trivial⟩
  have hreach := reachVia_of_exec (G := fun _ a => a.writer = none) acts hexec
    (guarded_of_forall_mem (fun a ha _ => hquiet a ha) s₁)
  obtain ⟨-, call', hq', -, -, hlooks⟩ := hreach.invariant hstart
    fun s a t hr ha hstep => reading_step hr ha (took_of_step hstep)
  rw [hq, Option.some.injEq] at hq'
  subst hq'
  simpa only [hpc] using hlooks

lemma upsertRow_of_none (h : s.rows request.docId = none) :
    (upsertRow s c request time).document =
      { id := request.docId, content := request.content, updatedAt := time } := by
  simp [upsertRow, h]

lemma upsertRow_of_some {old : Row} (h : s.rows request.docId = some old) :
    (upsertRow s c request time).document = { old.document with content := request.content } := by
  simp [upsertRow, h]

lemma recorded_iff {w : Written}
    (h : WriteRun names w.before w.call w.request w.time w.result w.after) :
    w.Recorded names ↔ w.before.rows w.request.docId = none := by
  obtain ⟨hrows, hreported⟩ := h.spec
  have hrow : w.after.rows w.request.docId =
      some (upsertRow w.before w.call w.request w.time) := by
    rw [hrows]
    exact Function.update_self ..
  constructor
  · intro hrecorded
    by_contra hsome
    obtain ⟨old, hold⟩ := Option.ne_none_iff_exists'.mp hsome
    have hlater := hrecorded.later old _ hold hrow
    rw [upsertRow_of_some hold] at hlater
    exact lt_irrefl _ hlater
  · intro hnone
    have hdocument : (upsertRow w.before w.call w.request w.time).document = _ :=
      upsertRow_of_none hnone
    refine ⟨by rw [hreported, hdocument], fun q result hread => ?_, fun id hid => ?_,
      fun old _ hold => ?_⟩
    · obtain ⟨hfound, hcontent, hupdated⟩ := hread.spec
      rw [hrow] at hfound hcontent hupdated
      simp only [Option.map_some, hdocument] at hcontent hupdated
      exact ⟨hfound, hcontent, hupdated⟩
    · rw [hrows]
      exact Function.update_of_ne hid ..
    · rw [hnone] at hold
      cases hold

variable (names) in
lemma exists_writeRun (hfresh : s.writes c = none) (hfree : ∀ id, s.locks id = none)
    (hasync : request.durability = .async) :
    ∃ result t, WriteRun names s c request s.now result t ∧ t.now = s.now ∧
      (∀ id, t.locks id = none) ∧ ∀ d ≠ c, t.writes d = s.writes d := by
  have hopening : exec (step names) s [.startWrite c request] =
      some (s.setWrite c { request }) := by
    simp [step, hfresh]
  have hrest : ∃ call t, exec (step names) (s.setWrite c { request })
      [.write c, .write c, .write c, .release c none, .write c] = some t ∧
      t.writes c = some call ∧ (∃ result, call.pc = .returned result) ∧ t.now = s.now ∧
      (∀ id, t.locks id = none) ∧ ∀ d ≠ c, t.writes d = s.writes d := by
    simp [step, write, release, State.setWrite, State.endWrite, Available, hfree, hasync,
      synchronousCommit, releaseAll, take]
    refine ⟨fun id hid => ?_, fun d hd => Function.update_of_ne hd ..⟩
    by_cases hdoc : id = request.docId
    · exact absurd (by simp [hdoc]) hid
    · rw [Function.update_of_ne hdoc, hfree]
  obtain ⟨call, t, hexec, hc, ⟨result, hpc⟩, hnow, hlocks, hothers⟩ := hrest
  have hquiet : Quiet [] := by simp [Quiet]
  refine ⟨result, t, ⟨[], _, _, call, hquiet, hopening, rfl, ?_, hexec, hc, hpc⟩, hnow, hlocks,
    hothers⟩
  simp [OwnStep]

/-- Every write of a sequence leaves its content and its time exactly if no document is written
that exists already: an upsert sets the content of an old row and nothing else. -/
theorem sequence_recorded_iff {ws : List Written} (h : Sequence names s ws) :
    (∀ w ∈ ws, w.Recorded names) ↔
      (ws.map fun w => w.request.docId).Nodup ∧ ∀ w ∈ ws, s.rows w.request.docId = none := by
  induction h with
  | nil s => simp
  | @cons s acts w ws hquiet hidle hrun _ _ ih =>
    have hbefore : w.before.rows = s.rows := (quiet_exec hquiet hidle).1
    have hafter : ∀ id, w.after.rows id = none ↔ id ≠ w.request.docId ∧ s.rows id = none := by
      intro id
      rw [hrun.spec.1, State.withRow, hbefore]
      exact update_eq_none
    rw [List.forall_mem_cons, recorded_iff hrun, ih, hbefore, List.map_cons, List.nodup_cons,
      List.forall_mem_cons]
    simp only [hafter, List.mem_map, not_exists, not_and]
    constructor
    · rintro ⟨hnew, hnodup, hrest⟩
      exact ⟨⟨fun w' hw' => (hrest w' hw').1, hnodup⟩, hnew, fun w' hw' => (hrest w' hw').2⟩
    · rintro ⟨⟨hne, hnodup⟩, hnew, hrest⟩
      exact ⟨hnew, hnodup, fun w' hw' => ⟨hne w' hw', hrest w' hw'⟩⟩

lemma exists_sequence (first second : WriteRequest) (hfirst : first.durability = .async)
    (hsecond : second.durability = .async) :
    ∃ w w', Sequence [] {} [w, w'] ∧ w.request = first ∧ w'.request = second ∧ w.time = 0 ∧
      w'.time = 1 := by
  obtain ⟨result, t, hrun, hnow, hfree, hfresh⟩ :=
    exists_writeRun [] (s := {}) (c := 1) rfl (fun _ => rfl) hfirst
  have htick : exec (step []) t [.tick 1] = some { t with now := t.now + 1 } := rfl
  obtain ⟨result', t', hrun', -⟩ :=
    exists_writeRun [] (s := { t with now := t.now + 1 }) (c := 2)
      (hfresh 2 (Nat.succ_ne_self 1)) hfree hsecond
  have hidle : Quiet [] := by simp [Quiet]
  have hquiet : Quiet [.tick 1] := by simp [Quiet, Action.writer]
  have hlater : WriteRun [] { t with now := t.now + 1 } 2 second 1 result' t' := by
    have htime : ({ t with now := t.now + 1 } : State).now = 1 := by simp [hnow]
    rwa [htime] at hrun'
  refine ⟨⟨{}, 1, first, 0, result, t⟩, ⟨{ t with now := t.now + 1 }, 2, second, 1, result', t'⟩,
    ?_, rfl, rfl, rfl, rfl⟩
  exact .cons hidle rfl hrun (by simp) (.cons hquiet htick hlater (by simp) (.nil _))

theorem sequence_recorded_iff_twoDocuments :
    ∃ w w', Sequence [] {} [w, w'] ∧ w.request = ⟨"a", "x", .async⟩ ∧
      w'.request = ⟨"b", "y", .async⟩ ∧ ∀ v ∈ [w, w'], v.Recorded [] := by
  obtain ⟨w, w', hseq, hfirst, hsecond, -⟩ :=
    exists_sequence ⟨"a", "x", .async⟩ ⟨"b", "y", .async⟩ rfl rfl
  refine ⟨w, w', hseq, hfirst, hsecond, (sequence_recorded_iff hseq).mpr ⟨?_, fun _ _ => rfl⟩⟩
  simp [hfirst, hsecond]

/-- The second write of a document reports and leaves the time of the first. -/
theorem secondWrite_keeps_time :
    ∃ w w', Sequence [] {} [w, w'] ∧ w.request = ⟨"a", "x", .async⟩ ∧
      w'.request = ⟨"a", "y", .async⟩ ∧ w'.time = 1 ∧ w'.result.updatedAt = 0 ∧
      ¬ ∀ v ∈ [w, w'], v.Recorded [] := by
  obtain ⟨w, w', hseq, hfirst, hsecond, htime, htime'⟩ :=
    exists_sequence ⟨"a", "x", .async⟩ ⟨"a", "y", .async⟩ rfl rfl
  have hkeeps : w'.result.updatedAt = 0 := by
    cases hseq with
    | cons hquiet hidle hrun _ hrest =>
      cases hrest with
      | cons hquiet' hidle' hrun' _ _ =>
        have hnew : w.before.rows w.request.docId = none := by
          rw [(quiet_exec hquiet hidle).1]
        have hold : w'.before.rows w'.request.docId =
            some (upsertRow w.before w.call w.request w.time) := by
          rw [(quiet_exec hquiet' hidle').1, hrun.spec.1, hsecond, State.withRow, hfirst]
          exact Function.update_self ..
        rw [hrun'.spec.2, upsertRow_of_some hold, upsertRow_of_none hnew]
        exact htime
  refine ⟨w, w', hseq, hfirst, hsecond, htime', hkeeps, fun hall => ?_⟩
  have hreported := (hall w' (by simp)).reported
  rw [hkeeps, htime'] at hreported
  cases hreported

end AsyncDataHub.Consistency
