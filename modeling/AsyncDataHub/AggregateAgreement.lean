import AsyncDataHub.BatchAggregate
import AsyncDataHub.StreamOrder

/-! Batch and streaming side by side: what each of them leaves in the database when it comes to its
end, for the same sources with the same outcomes. -/
namespace AsyncDataHub.Streaming
open StepSystem PyJson

variable {cfg : Config} {outcome : cfg.Source → Except String Json}

def SourceResultRecord.untimed (record : SourceResultRecord) : SourceResultRecord :=
  { record with durationMs := none }

/-- The status that the outcomes call for. -/
def expectedStatus (outcome : cfg.Source → Except String Json) : String :=
  if ∃ i, (outcome i).isOk = false then "PARTIAL" else "COMPLETED"

structure Agrees (outcome : cfg.Source → Except String Json) (b : Batch.State cfg) (s : State cfg) :
    Prop where
  batchStatus : b.status = expectedStatus outcome
  streamStatus : s.status = expectedStatus outcome
  records : (b.records.map SourceResultRecord.untimed).Perm
    (s.records.map SourceResultRecord.untimed)

def batchRow (outcome : cfg.Source → Except String Json) (i : cfg.Source) : SourceResultRecord :=
  (Batch.recordOf cfg (fetchSource (cfg.sourceNames.get i) (outcome i) 0)).untimed

def streamRow (outcome : cfg.Source → Except String Json) (i : cfg.Source) : SourceResultRecord :=
  (recordOf cfg (Arrival.event (i, fetchSource (cfg.sourceNames.get i) (outcome i) 0))).untimed

lemma fetchSource_status (name : String) (o : Except String Json) (ms : ℕ) :
    (fetchSource name o ms).status = "error" ↔ o.isOk = false := by
  cases o <;> simp [fetchSource, Except.isOk, Except.toBool]

lemma batchRow_eq (outcome : cfg.Source → Except String Json) (i : cfg.Source) (ms : ℕ) :
    (Batch.recordOf cfg (fetchSource (cfg.sourceNames.get i) (outcome i) ms)).untimed =
      batchRow outcome i := by
  unfold batchRow
  cases outcome i <;> rfl

lemma streamRow_eq (outcome : cfg.Source → Except String Json) (i : cfg.Source) (ms : ℕ) :
    (recordOf cfg (Arrival.event (i, fetchSource (cfg.sourceNames.get i) (outcome i) ms))).untimed =
      streamRow outcome i := by
  unfold streamRow
  cases outcome i <;> rfl

lemma finalStatus_eq {fetched : List (Batch.Fetched cfg)}
    (hall : ∀ i, i ∈ fetched.map Prod.fst)
    (hresult : ∀ f ∈ fetched, ∃ ms, f.2 = fetchSource (cfg.sourceNames.get f.1) (outcome f.1) ms) :
    Batch.finalStatus (fetched.map Prod.snd) = expectedStatus outcome := by
  have hiff : (fetched.map Prod.snd).any (·.status = "error") = true ↔
      ∃ i, (outcome i).isOk = false := by
    simp only [List.any_eq_true, List.mem_map, decide_eq_true_eq]
    constructor
    · rintro ⟨result, ⟨f, hf, rfl⟩, hstatus⟩
      obtain ⟨ms, hms⟩ := hresult f hf
      rw [hms, fetchSource_status] at hstatus
      exact ⟨f.1, hstatus⟩
    · rintro ⟨i, hfailed⟩
      obtain ⟨f, hf, rfl⟩ := List.mem_map.mp (hall i)
      obtain ⟨ms, hms⟩ := hresult f hf
      refine ⟨f.2, ⟨f, hf, rfl⟩, ?_⟩
      rw [hms, fetchSource_status]
      exact hfailed
  unfold Batch.finalStatus expectedStatus
  by_cases hfailed : ∃ i, (outcome i).isOk = false
  · rw [if_pos (hiff.mpr hfailed), if_pos hfailed]
  · rw [if_neg (fun hany => hfailed (hiff.mp hany)), if_neg hfailed]

lemma batch_rows {acts : List (Batch.Action cfg)} {b : Batch.State cfg}
    (h : exec (Batch.step cfg) (Batch.State.init cfg) acts = some b)
    (hpc : b.pc = .ended .returned)
    (houtcome : ∀ i o ms, Batch.Action.fetched i o ms ∈ acts → o = outcome i) :
    b.status = expectedStatus outcome ∧
      (b.records.map SourceResultRecord.untimed).Perm
        ((List.finRange cfg.sourceNames.length).map (batchRow outcome)) := by
  have hi := Batch.batchInv_of_exec (Batch.batchInv_init cfg) h
  rw [List.nil_append] at hi
  obtain ⟨hrecords, hstatus⟩ := hi.stored hpc
  have hperm := hi.collects.perm (hi.complete (.inr (.inr hpc)))
  have hresult : ∀ f ∈ acts.filterMap Batch.Action.result,
      ∃ ms, f.2 = fetchSource (cfg.sourceNames.get f.1) (outcome f.1) ms := by
    intro f hf
    obtain ⟨a, ha, haf⟩ := List.mem_filterMap.mp hf
    cases a with
    | fetched i o ms =>
      simp only [Batch.Action.result, Option.some.injEq] at haf
      subst haf
      exact ⟨ms, by rw [houtcome i o ms ha]⟩
    | _ => simp [Batch.Action.result] at haf
  constructor
  · rw [hstatus, hi.results]
    exact finalStatus_eq (fun i => hperm.mem_iff.mpr (List.mem_finRange i)) hresult
  · have hrows : b.records.map SourceResultRecord.untimed =
        ((acts.filterMap Batch.Action.result).map Prod.fst).map (batchRow outcome) := by
      rw [hrecords, hi.results, List.map_map, List.map_map, List.map_map]
      refine List.map_congr_left fun f hf => ?_
      obtain ⟨ms, hms⟩ := hresult f hf
      simp only [Function.comp, hms]
      exact batchRow_eq outcome f.1 ms
    rw [hrows]
    exact hperm.map _

/-- A stream that has come to its last yield has marked its row, and only a cancelled one has its
row changed afterwards. -/
structure StatusInv (s : State cfg) : Prop where
  scheduled : s.cleanup = true → s.consumer = .ended .cancelled
  completed : s.consumer = .yieldCompleted ∨ s.consumer = .ended .finished →
    s.status = "COMPLETED"

lemma statusInv_init (cfg : Config) : StatusInv (State.init cfg) := by
  constructor <;> simp [State.init]

variable {s t : State cfg} {a : Action cfg}

lemma not_completed_of_pastTest {pc : ConsumerPc} (h : pc.PastTest) :
    ¬ (pc = .yieldCompleted ∨ pc = .ended .finished) := by
  rintro (rfl | rfl) <;> exact h

lemma StatusInv.live (h : StatusInv s) (hc : s.consumer ≠ .ended .cancelled) :
    s.cleanup = false := by
  cases hcleanup : s.cleanup with
  | false => rfl
  | true => exact absurd (h.scheduled hcleanup) hc

lemma statusInv_step (hi : StatusInv s) (h : step cfg s a = some t) : StatusInv t := by
  have hput : ∀ (i : cfg.Source) result, StatusInv (s.put i result) := by
    intro i result
    obtain ⟨_, _, h⟩ := put_eq s i result
    rw [h]
    exact ⟨hi.1, hi.2⟩
  cases took_of_step h with
  | skips _ _ | leavesEmpty _ _ | opens _ _ | broadcasts _ _ _ _ | aborts _ _ _
  | cancelsSource _ _ _ | closes _ _ => exact ⟨hi.1, hi.2⟩
  | fetches _ _ _ => exact hput _ _
  | puts _ _ _ _ => exact hput _ _
  | starts hc | loops hc =>
    have hcalm := hi.live (by simp [hc])
    refine ⟨fun hs => ?_, fun hs => absurd hs (not_completed_of_pastTest (loopTest_pastTest _))⟩
    rw [loopTest_cleanup] at hs
    simp [hcalm] at hs
  | joins hc _ =>
    have hcalm := hi.live (by simp [hc])
    refine ⟨fun hs => ?_,
      fun hs => absurd hs (not_completed_of_pastTest (awaitProducer_pastTest _))⟩
    rw [awaitProducer_cleanup] at hs
    simp [hcalm] at hs
  | gets hc _ | commits hc | marks hc =>
    have hcalm := hi.live (by simp [hc])
    exact ⟨by simp [hcalm], by simp⟩
  | completes hc =>
    have hcalm := hi.live (by simp [hc])
    exact ⟨by simp [hcalm], by simp⟩
  | finishes hc =>
    have hcalm := hi.live (by simp [hc])
    exact ⟨by simp [hcalm], fun _ => hi.completed (.inl hc)⟩
  | fails hc =>
    have hcalm := hi.live (hc _)
    exact ⟨by simp [hcalm], by simp⟩
  | closesGenerator hc =>
    have hcalm := hi.live (hc _)
    exact ⟨by simp [hcalm], by simp⟩
  | disconnects _ _ => exact ⟨fun _ => rfl, by simp⟩
  | cleans hs =>
    have hc := hi.scheduled hs
    exact ⟨by simp, by simp [hc]⟩

lemma stream_rows {acts : List (Action cfg)}
    (h : exec (step cfg) (State.init cfg) acts = some s) (hc : s.consumer = .ended .finished)
    (houtcome : ∀ i o ms, Action.fetched i o ms ∈ acts → o = outcome i) :
    s.status = "COMPLETED" ∧
      (s.records.map SourceResultRecord.untimed).Perm
        ((List.finRange cfg.sourceNames.length).map (streamRow outcome)) := by
  have hreach := reach_of_exec acts h
  have hstatus : StatusInv s :=
    hreach.invariant (statusInv_init cfg) fun _ _ _ hi _ => statusInv_step hi
  have hlast : LastFrame s :=
    hreach.invariant (by simp [LastFrame, State.init]) fun _ _ _ hi _ => lastFrame_step hi
  have hcompleted : s.Completed :=
    ⟨completedEvent cfg, List.mem_of_getLast? (hlast (.inr hc)), rfl⟩
  have hi := delivered_of_exec (delivered_init cfg) h
  rw [List.nil_append] at hi
  obtain ⟨hrecords, hperm⟩ := recorded hi (.inl hcompleted)
  refine ⟨hstatus.completed (.inr hc), ?_⟩
  have hrows : s.records.map SourceResultRecord.untimed =
      ((arrivals (State.init cfg) acts).map Prod.fst).map (streamRow outcome) := by
    rw [hrecords, List.map_map, List.map_map]
    refine List.map_congr_left fun f hf => ?_
    obtain ⟨i, result⟩ := f
    obtain ⟨o, ms, hfetched, rfl⟩ := (mem_arrivals (delivered_init cfg) h).mp hf
    rw [houtcome i o ms hfetched]
    exact streamRow_eq outcome i ms
  rw [hrows]
  exact hperm.map _

lemma streamRow_sourceName (outcome : cfg.Source → Except String Json) (i : cfg.Source) :
    (streamRow outcome i).sourceName ≠ "" := by
  unfold streamRow SourceResultRecord.untimed recordOf sourceName
  cases outcome i with
  | ok payload =>
    simp only [Arrival.event, resultEvent, fetchSource]
    split_ifs with hname
    · simp
    · exact hname
  | error text =>
    simp only [Arrival.event, resultEvent, fetchSource]
    split_ifs with hname
    · simp
    · exact hname

lemma batchRow_sourceName (outcome : cfg.Source → Except String Json) (i : cfg.Source) :
    (batchRow outcome i).sourceName = cfg.sourceNames.get i := by
  unfold batchRow
  cases outcome i <;> rfl

lemma batchRow_eq_streamRow {i : cfg.Source} (hname : cfg.sourceNames.get i ≠ "") :
    batchRow outcome i = streamRow outcome i := by
  unfold batchRow streamRow SourceResultRecord.untimed recordOf Batch.recordOf sourceName
  cases outcome i with
  | ok payload =>
    simp only [Arrival.event, resultEvent, fetchSource, if_neg hname]
    rfl
  | error text =>
    simp only [Arrival.event, resultEvent, fetchSource, if_neg hname]
    rfl

variable (outcome) in
lemma rows_perm_iff :
    ((List.finRange cfg.sourceNames.length).map (batchRow outcome)).Perm
      ((List.finRange cfg.sourceNames.length).map (streamRow outcome)) ↔ "" ∉ cfg.sourceNames := by
  constructor
  · intro hperm hempty
    obtain ⟨i, hi⟩ := List.get_of_mem hempty
    have hin : batchRow outcome i ∈ (List.finRange _).map (batchRow outcome) :=
      List.mem_map_of_mem (List.mem_finRange i)
    obtain ⟨j, _, hj⟩ := List.mem_map.mp (hperm.subset hin)
    exact streamRow_sourceName outcome j (by rw [hj, batchRow_sourceName, hi])
  · intro hnames
    have hsame : ∀ i : cfg.Source, batchRow outcome i = streamRow outcome i :=
      fun i => batchRow_eq_streamRow fun hi => hnames (hi ▸ List.get_mem _ i)
    rw [funext hsame]

lemma expectedStatus_eq_completed :
    "COMPLETED" = expectedStatus outcome ↔ ∀ i, (outcome i).isOk = true := by
  unfold expectedStatus
  split_ifs with hfailed
  · obtain ⟨i, hi⟩ := hfailed
    simp only [String.reduceEq, false_iff, not_forall]
    exact ⟨i, by simp [hi]⟩
  · simpa using hfailed

/-- A batch and a stream over the same sources with the same outcomes, both run to their ends, agree
exactly if no source has failed and none is without a name. -/
theorem workflows_agree_iff {batchActs : List (Batch.Action cfg)} {b : Batch.State cfg}
    {streamActs : List (Action cfg)}
    (hbatch : exec (Batch.step cfg) (Batch.State.init cfg) batchActs = some b)
    (hreturned : b.pc = .ended .returned)
    (hstream : exec (step cfg) (State.init cfg) streamActs = some s)
    (hfinished : s.consumer = .ended .finished)
    (hbatchOutcome : ∀ i o ms, Batch.Action.fetched i o ms ∈ batchActs → o = outcome i)
    (hstreamOutcome : ∀ i o ms, Action.fetched i o ms ∈ streamActs → o = outcome i) :
    Agrees outcome b s ↔ (∀ i, (outcome i).isOk = true) ∧ "" ∉ cfg.sourceNames := by
  obtain ⟨hbatchStatus, hbatchRows⟩ := batch_rows hbatch hreturned hbatchOutcome
  obtain ⟨hstreamStatus, hstreamRows⟩ := stream_rows hstream hfinished hstreamOutcome
  have hrecords : (b.records.map SourceResultRecord.untimed).Perm
      (s.records.map SourceResultRecord.untimed) ↔ "" ∉ cfg.sourceNames := by
    rw [← rows_perm_iff outcome]
    exact ⟨fun h => (hbatchRows.symm.trans h).trans hstreamRows,
      fun h => (hbatchRows.trans h).trans hstreamRows.symm⟩
  constructor
  · intro h
    exact ⟨expectedStatus_eq_completed.mp (hstreamStatus ▸ h.streamStatus), hrecords.mp h.records⟩
  · rintro ⟨hok, hnames⟩
    have hexpected := expectedStatus_eq_completed.mpr hok
    exact ⟨hbatchStatus, hstreamStatus.trans hexpected, hrecords.mpr hnames⟩

def fetchOnce (outcome : Except String Json) : List (Batch.Action oneSource) :=
  [.fetched weather outcome 5, .broadcast weather none, .close, .persist, .persist]

def streamOnce (outcome : Except String Json) : List (Action oneSource) :=
  [.consume, .produce, .fetched weather outcome 5, .broadcast weather none, .close, .consume,
    .consume, .consume, .consume, .consume, .consume]

theorem workflows_agree_okSource : ∃ b s,
    exec (Batch.step oneSource) (Batch.State.init oneSource) (fetchOnce (.ok .null)) = some b ∧
      exec (step oneSource) (State.init oneSource) (streamOnce (.ok .null)) = some s ∧
      Agrees (fun _ => .ok .null) b s := by
  have hbatch : ∃ b, exec (Batch.step oneSource) (Batch.State.init oneSource)
      (fetchOnce (.ok .null)) = some b ∧ b.pc = .ended .returned := ⟨_, rfl, rfl⟩
  have hstream : ∃ s, exec (step oneSource) (State.init oneSource)
      (streamOnce (.ok .null)) = some s ∧ s.consumer = .ended .finished := ⟨_, rfl, rfl⟩
  obtain ⟨b, hb, hreturned⟩ := hbatch
  obtain ⟨s, hs, hfinished⟩ := hstream
  have hbatchOutcome : ∀ i o ms, Batch.Action.fetched i o ms ∈ fetchOnce (.ok .null) →
      o = .ok .null := by
    intro i o ms hin
    simp only [fetchOnce, List.mem_cons, Batch.Action.fetched.injEq, reduceCtorEq, or_false,
      List.not_mem_nil] at hin
    exact hin.2.1
  have hstreamOutcome : ∀ i o ms, Action.fetched i o ms ∈ streamOnce (.ok .null) →
      o = .ok .null := by
    intro i o ms hin
    simp only [streamOnce, List.mem_cons, Action.fetched.injEq, reduceCtorEq, or_false, false_or,
      List.not_mem_nil] at hin
    exact hin.2.1
  refine ⟨b, s, hb, hs, ?_⟩
  exact (workflows_agree_iff hb hreturned hs hfinished hbatchOutcome hstreamOutcome).mpr
    ⟨fun _ => rfl, by decide⟩

/-- The only source fails: the batch is PARTIAL, the stream COMPLETED. -/
theorem failedSource_disagrees : ∃ b s,
    exec (Batch.step oneSource) (Batch.State.init oneSource) (fetchOnce (.error "down")) = some b ∧
      b.pc = .ended .returned ∧
      exec (step oneSource) (State.init oneSource) (streamOnce (.error "down")) = some s ∧
      s.consumer = .ended .finished ∧ b.status = "PARTIAL" ∧ s.status = "COMPLETED" ∧
      ¬ Agrees (fun _ => .error "down") b s := by
  have hbatch : ∃ b, exec (Batch.step oneSource) (Batch.State.init oneSource)
      (fetchOnce (.error "down")) = some b ∧ b.pc = .ended .returned ∧ b.status = "PARTIAL" :=
    ⟨_, rfl, rfl, by decide⟩
  have hstream : ∃ s, exec (step oneSource) (State.init oneSource)
      (streamOnce (.error "down")) = some s ∧ s.consumer = .ended .finished ∧
        s.status = "COMPLETED" := ⟨_, rfl, rfl, rfl⟩
  obtain ⟨b, hb, hreturned, hbatchStatus⟩ := hbatch
  obtain ⟨s, hs, hfinished, hstreamStatus⟩ := hstream
  refine ⟨b, s, hb, hreturned, hs, hfinished, hbatchStatus, hstreamStatus, fun h => ?_⟩
  have hdiffer := hbatchStatus.symm.trans (h.batchStatus.trans h.streamStatus.symm)
  rw [hstreamStatus] at hdiffer
  exact absurd hdiffer (by decide)

end AsyncDataHub.Streaming
