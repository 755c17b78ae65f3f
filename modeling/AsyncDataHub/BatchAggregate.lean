import AsyncDataHub.StreamAggregate

/-! Batch aggregation: one child per source in a task group, whose results are stored together once
the group has ended. The handler for a cancellation covers the group only. -/
namespace AsyncDataHub.Batch
open StepSystem TaskGroup PyJson
open Streaming (Config AggregationSourceResult SourceResultRecord fetchSource)

inductive SourcePc
  | fetching
  | broadcasting (result : AggregationSourceResult)

inductive BatchEnd
  | returned
  | raised
  | failed
  | cancelled
  deriving DecidableEq

/-- Where the workflow is suspended: in the task group or in an await of the session. -/
inductive BatchPc
  | gathering
  | marking
  | committing
  | ended (o : BatchEnd)
  deriving DecidableEq

/-- `cancelled` tells of a cancellation that has come while the group was running. -/
structure State (cfg : Config) where
  group : Group cfg.Source SourcePc String
  results : List AggregationSourceResult
  cancelled : Bool
  pc : BatchPc
  records : List SourceResultRecord
  status : String
  cleanup : Bool

/-- The request row is committed. A group without children does not suspend. -/
def State.init (cfg : Config) : State cfg where
  group := { child := fun _ => .running .fetching }
  results := []
  cancelled := false
  pc := if cfg.sourceNames = [] then .marking else .gathering
  records := []
  status := "RUNNING"
  cleanup := false

variable {cfg : Config}

def recordOf (cfg : Config) (result : AggregationSourceResult) : SourceResultRecord where
  aggregateRequestId := cfg.requestId
  sourceName := result.source
  status := result.status
  payload := result.data
  errorMessage := result.error
  durationMs := result.durationMs

def finalStatus (results : List AggregationSourceResult) : String :=
  if results.any (·.status = "error") then "PARTIAL" else "COMPLETED"

/-- The session's commit stores the rows of all results and the status. -/
def State.store (s : State cfg) : State cfg :=
  { s with records := s.results.map (recordOf cfg), status := finalStatus s.results }

/-- The workflow leaves the task group: an exception of a child goes before a cancellation. -/
def State.leaveGroup (s : State cfg) : State cfg :=
  if s.group.HasFailed then { s with pc := .ended .raised }
  else if s.cancelled then { s with pc := .ended .cancelled, cleanup := true }
  else { s with pc := .marking }

def State.source (s : State cfg) (i : cfg.Source) : Option SourcePc :=
  if s.pc = .gathering then s.group.active i else none

inductive Action (cfg : Config)
  | fetched (i : cfg.Source) (outcome : Except String Json) (durationMs : ℕ)
  /-- The broadcast of a source returns, or raises an exception. -/
  | broadcast (i : cfg.Source) (raised : Option String)
  | cancel
  | abort
  | cancelSource (i : cfg.Source)
  | close
  | persist
  /-- A statement of the session fails. -/
  | fail
  /-- The commit is stored, but its await ends in a cancellation or an exception. -/
  | interrupted (cancelled : Bool)
  | cleanup (stored : Bool)

def step (cfg : Config) (s : State cfg) : Action cfg → Option (State cfg)
  | .fetched i outcome durationMs =>
    match s.source i with
    | some .fetching =>
      let result := fetchSource (cfg.sourceNames.get i) outcome durationMs
      some { s with
        results := s.results ++ [result], group := s.group.set i (.running (.broadcasting result)) }
    | _ => none
  | .broadcast i raised =>
    match s.source i with
    | some (.broadcasting _) =>
      match raised with
      | none => some { s with group := s.group.set i .ended }
      | some text => some { s with group := s.group.set i (.failed text) }
    | _ => none
  | .cancel =>
    match s.pc with
    | .gathering => some { s with cancelled := true }
    | .marking | .committing => some { s with pc := .ended .cancelled }
    | .ended _ => none
  | .abort =>
    if s.pc = .gathering then (s.group.abort s.cancelled).map fun group => { s with group }
    else none
  | .cancelSource i =>
    if s.pc = .gathering then (s.group.cancelChild i).map fun group => { s with group } else none
  | .close => if s.pc = .gathering ∧ s.group.Finished then some s.leaveGroup else none
  | .persist =>
    match s.pc with
    | .marking => some { s with pc := .committing }
    | .committing => some { s.store with pc := .ended .returned }
    | _ => none
  | .fail =>
    match s.pc with
    | .marking | .committing => some { s with pc := .ended .failed }
    | _ => none
  | .interrupted cancelled =>
    match s.pc with
    | .committing =>
      some { s.store with pc := .ended (if cancelled then .cancelled else .failed) }
    | _ => none
  | .cleanup stored =>
    if s.cleanup then
      some { s with cleanup := false, status := if stored then "CANCELLED" else s.status }
    else none

lemma source_eq_some {s : State cfg} {i : cfg.Source} {l : SourcePc} :
    s.source i = some l ↔
      s.pc = .gathering ∧ s.group.aborting = false ∧ s.group.child i = .running l := by
  unfold State.source
  split_ifs with hp <;> simp [hp, Group.active_eq_some]

inductive Took (s : State cfg) : Action cfg → State cfg → Prop
  | fetches {i : cfg.Source} {outcome : Except String Json} {ms : ℕ} (pc : s.pc = .gathering)
      (child : s.group.child i = .running .fetching) :
      Took s (.fetched i outcome ms) { s with
        results := s.results ++ [fetchSource (cfg.sourceNames.get i) outcome ms]
        group := s.group.set i
          (.running (.broadcasting (fetchSource (cfg.sourceNames.get i) outcome ms))) }
  | broadcasts {i : cfg.Source} {raised : Option String} {result : AggregationSourceResult}
      {c : Child SourcePc String} (pc : s.pc = .gathering)
      (child : s.group.child i = .running (.broadcasting result))
      (result : c = .ended ∨ ∃ text, c = .failed text) :
      Took s (.broadcast i raised) { s with group := s.group.set i c }
  | cancelsGroup (pc : s.pc = .gathering) : Took s .cancel { s with cancelled := true }
  | cancelsSession (pc : s.pc = .marking ∨ s.pc = .committing) :
      Took s .cancel { s with pc := .ended .cancelled }
  | aborts (pc : s.pc = .gathering) (cause : s.group.HasFailed ∨ s.cancelled = true) :
      Took s .abort { s with group := { s.group with aborting := true } }
  | cancelsSource {i : cfg.Source} (pc : s.pc = .gathering) (aborting : s.group.aborting = true)
      (running : (s.group.child i).isRunning = true) :
      Took s (.cancelSource i) { s with group := s.group.set i .cancelled }
  | raises (pc : s.pc = .gathering) (finished : s.group.Finished) (failed : s.group.HasFailed) :
      Took s .close { s with pc := .ended .raised }
  | schedules (pc : s.pc = .gathering) (finished : s.group.Finished)
      (calm : ¬ s.group.HasFailed) (cancelled : s.cancelled = true) :
      Took s .close { s with pc := .ended .cancelled, cleanup := true }
  | leaves (pc : s.pc = .gathering) (finished : s.group.Finished) (calm : ¬ s.group.HasFailed)
      (going : s.cancelled = false) : Took s .close { s with pc := .marking }
  | marks (pc : s.pc = .marking) : Took s .persist { s with pc := .committing }
  | commits (pc : s.pc = .committing) : Took s .persist { s.store with pc := .ended .returned }
  | fails (pc : s.pc = .marking ∨ s.pc = .committing) :
      Took s .fail { s with pc := .ended .failed }
  | interrupts {cancelled : Bool} (pc : s.pc = .committing) :
      Took s (.interrupted cancelled)
        { s.store with pc := .ended (if cancelled then .cancelled else .failed) }
  | cleans {stored : Bool} (scheduled : s.cleanup = true) :
      Took s (.cleanup stored)
        { s with cleanup := false, status := if stored then "CANCELLED" else s.status }

theorem took_of_step {s t : State cfg} {a : Action cfg} (h : step cfg s a = some t) :
    Took s a t := by
  cases a with
  | fetched i outcome ms =>
    simp only [step] at h
    split at h
    · obtain ⟨hp, _, hc⟩ := source_eq_some.mp ‹_›
      exact Option.some.inj h ▸ .fetches hp hc
    · cases h
  | broadcast i raised =>
    simp only [step] at h
    split at h
    · obtain ⟨hp, _, hc⟩ := source_eq_some.mp ‹_›
      cases raised with
      | none => exact Option.some.inj h ▸ .broadcasts hp hc (.inl rfl)
      | some text => exact Option.some.inj h ▸ .broadcasts hp hc (.inr ⟨text, rfl⟩)
    · cases h
  | cancel =>
    simp only [step] at h
    split at h
    · exact Option.some.inj h ▸ .cancelsGroup ‹_›
    · exact Option.some.inj h ▸ .cancelsSession (.inl ‹_›)
    · exact Option.some.inj h ▸ .cancelsSession (.inr ‹_›)
    · cases h
  | abort =>
    simp only [step] at h
    split_ifs at h with hp
    obtain ⟨g, hg, rfl⟩ := Option.map_eq_some_iff.mp h
    obtain ⟨_, hcause, rfl⟩ := Group.abort_eq_some.mp hg
    exact .aborts hp hcause
  | cancelSource i =>
    simp only [step] at h
    split_ifs at h with hp
    obtain ⟨g, hg, rfl⟩ := Option.map_eq_some_iff.mp h
    obtain ⟨haborting, hrunning, rfl⟩ := Group.cancelChild_eq_some.mp hg
    exact .cancelsSource hp haborting hrunning
  | close =>
    simp only [step, State.leaveGroup] at h
    split_ifs at h with hcond hfailed hcancel
    · exact Option.some.inj h ▸ .raises hcond.1 hcond.2 hfailed
    · exact Option.some.inj h ▸ .schedules hcond.1 hcond.2 hfailed hcancel
    · exact Option.some.inj h ▸ .leaves hcond.1 hcond.2 hfailed (by simpa using hcancel)
  | persist =>
    simp only [step] at h
    split at h
    · exact Option.some.inj h ▸ .marks ‹_›
    · exact Option.some.inj h ▸ .commits ‹_›
    · cases h
  | fail =>
    simp only [step] at h
    split at h
    · exact Option.some.inj h ▸ .fails (.inl ‹_›)
    · exact Option.some.inj h ▸ .fails (.inr ‹_›)
    · cases h
  | interrupted cancelled =>
    simp only [step] at h
    split at h
    · exact Option.some.inj h ▸ .interrupts ‹_›
    · cases h
  | cleanup stored =>
    simp only [step] at h
    split at h
    · exact Option.some.inj h ▸ .cleans ‹_›
    · cases h

abbrev Fetched (cfg : Config) := cfg.Source × AggregationSourceResult

def Action.result : Action cfg → Option (Fetched cfg)
  | .fetched i outcome ms => some (i, fetchSource (cfg.sourceNames.get i) outcome ms)
  | _ => none

def SourcePc.Owes (l : SourcePc) : Prop := l = .fetching

/-- Where the sources stand when the results `fetched` have come in. -/
structure BatchInv (s : State cfg) (fetched : List (Fetched cfg)) : Prop where
  orderly : s.group.Orderly s.cancelled
  results : s.results = fetched.map Prod.snd
  collects : s.group.Collects SourcePc.Owes (fetched.map Prod.fst)
  complete : s.pc = .marking ∨ s.pc = .committing ∨ s.pc = .ended .returned →
    ∀ i, s.group.child i = .ended
  stored : s.pc = .ended .returned →
    s.records = s.results.map (recordOf cfg) ∧ s.status = finalStatus s.results
  scheduled : s.cleanup = true → s.pc = .ended .cancelled

variable {s t : State cfg} {a : Action cfg} {fetched : List (Fetched cfg)}

lemma batchInv_init (cfg : Config) : BatchInv (State.init cfg) [] := by
  constructor
  case orderly => exact ⟨by simp [State.init], by simp [State.init]⟩
  case complete =>
    simp only [State.init]
    split_ifs with hempty
    · exact fun _ i => absurd i.2 (by simp [hempty])
    · simp
  case collects => exact ⟨by simp, by simp [State.init, SourcePc.Owes], by simp [State.init]⟩
  case stored =>
    simp only [State.init]
    split_ifs <;> simp
  all_goals simp [State.init]

lemma BatchInv.keep (h : BatchInv s fetched) (hgroup : t.group = s.group)
    (hresults : t.results = s.results) (hcancel : s.cancelled = true → t.cancelled = true)
    (hcomplete : t.pc = .marking ∨ t.pc = .committing ∨ t.pc = .ended .returned →
      ∀ i, s.group.child i = .ended)
    (hstored : t.pc = .ended .returned →
      t.records = t.results.map (recordOf cfg) ∧ t.status = finalStatus t.results)
    (hscheduled : t.cleanup = true → t.pc = .ended .cancelled) : BatchInv t fetched := by
  constructor
  case orderly => exact hgroup ▸ h.orderly.mono hcancel
  case results => exact hresults.trans h.results
  case collects => exact hgroup ▸ h.collects
  case complete => exact hgroup ▸ hcomplete
  case stored => exact hstored
  case scheduled => exact hscheduled

lemma BatchInv.setChild (h : BatchInv s fetched) {i : cfg.Source} {c : Child SourcePc String}
    (hpc : s.pc = .gathering) (hrun : (s.group.child i).isRunning = true)
    (hc : c.isRunning = false) (hcancelled : c = .cancelled → s.group.aborting = true)
    (hended : c = .ended → i ∈ fetched.map Prod.fst) :
    BatchInv { s with group := s.group.set i c } fetched := by
  constructor
  case orderly => exact h.orderly.set hrun hcancelled
  case results => exact h.results
  case collects => exact h.collects.settle hc hended
  case complete => simp [hpc]
  case stored => simp [hpc]
  case scheduled => exact h.scheduled

lemma BatchInv.fetch (h : BatchInv s fetched) {i : cfg.Source} {result : AggregationSourceResult}
    (hpc : s.pc = .gathering) (hi : s.group.child i = .running .fetching) :
    BatchInv { s with
      results := s.results ++ [result]
      group := s.group.set i (.running (.broadcasting result)) } (fetched ++ [(i, result)]) := by
  constructor
  case orderly => exact h.orderly.set (by simp [hi, Child.isRunning]) (by simp)
  case results => simp [h.results]
  case collects =>
    rw [List.map_append]
    exact h.collects.collect hi rfl (by simp [SourcePc.Owes])
  case complete => simp [hpc]
  case stored => simp [hpc]
  case scheduled => exact h.scheduled

lemma batchInv_quiet (hi : BatchInv s fetched) (hquiet : a.result = none)
    (h : step cfg s a = some t) : BatchInv t fetched := by
  have hcalm : s.pc ≠ .ended .cancelled → s.cleanup = true → False :=
    fun hpc hc => hpc (hi.scheduled hc)
  cases took_of_step h with
  | fetches _ _ => simp [Action.result] at hquiet
  | @broadcasts i _ result c hpc hc hcases =>
    have hrun : (s.group.child i).isRunning = true := by simp [hc, Child.isRunning]
    have hin : i ∈ fetched.map Prod.fst := by
      simpa [SourcePc.Owes] using hi.collects.running i _ hc
    rcases hcases with rfl | ⟨text, rfl⟩
    · exact hi.setChild hpc hrun rfl (by simp) fun _ => hin
    · exact hi.setChild hpc hrun rfl (by simp) (by simp)
  | cancelsSource hpc hab hrun =>
    exact hi.setChild hpc hrun rfl (fun _ => hab) (by simp)
  | aborts hpc hcause =>
    exact ⟨orderly_aborted hcause, hi.results,
      ⟨hi.collects.distinct, hi.collects.running, hi.collects.ended⟩, hi.complete, hi.stored,
      hi.scheduled⟩
  | cancelsGroup hpc =>
    exact hi.keep rfl rfl (fun _ => rfl) (by simp [hpc]) (by simp [hpc]) hi.scheduled
  | cancelsSession hpc | fails hpc =>
    have hne : s.pc ≠ .ended .cancelled := by rcases hpc with hpc | hpc <;> simp [hpc]
    exact hi.keep rfl rfl id (by simp) (by simp) fun hc => (hcalm hne hc).elim
  | raises hpc hfin hfailed =>
    exact hi.keep rfl rfl id (by simp) (by simp) fun hc => (hcalm (by simp [hpc]) hc).elim
  | schedules hpc hfin hfailed hcancel =>
    exact hi.keep rfl rfl id (by simp) (by simp) fun _ => rfl
  | leaves hpc hfin hfailed hgoing =>
    exact hi.keep rfl rfl id (fun _ => hi.orderly.ended hfin hfailed hgoing) (by simp)
      fun hc => (hcalm (by simp [hpc]) hc).elim
  | marks hpc =>
    exact hi.keep rfl rfl id (fun _ => hi.complete (.inl hpc)) (by simp)
      fun hc => (hcalm (by simp [hpc]) hc).elim
  | commits hpc =>
    exact hi.keep rfl rfl id (fun _ => hi.complete (.inr (.inl hpc))) (fun _ => ⟨rfl, rfl⟩)
      fun hc => (hcalm (by simp [hpc]) hc).elim
  | @interrupts cancelled hpc =>
    refine hi.keep rfl rfl id ?_ ?_ fun hc => (hcalm (by simp [hpc]) hc).elim
    · cases cancelled <;> simp
    · cases cancelled <;> simp
  | cleans hs =>
    have hpc := hi.scheduled hs
    exact hi.keep rfl rfl id (by simp [hpc]) (by simp [hpc]) (by simp)

theorem batchInv_step (hi : BatchInv s fetched) (h : step cfg s a = some t) :
    BatchInv t (fetched ++ a.result.toList) := by
  cases hresult : a.result with
  | none =>
    rw [Option.toList_none, List.append_nil]
    exact batchInv_quiet hi hresult h
  | some result =>
    cases took_of_step h with
    | fetches hpc hc =>
      obtain rfl := Option.some.inj hresult
      exact hi.fetch hpc hc
    | _ => simp [Action.result] at hresult

theorem batchInv_of_exec {acts : List (Action cfg)} (hi : BatchInv s fetched)
    (h : exec (step cfg) s acts = some t) :
    BatchInv t (fetched ++ acts.filterMap Action.result) := by
  induction acts generalizing s fetched with
  | nil =>
    simp only [exec_nil, Option.some.injEq] at h
    simpa [← h] using hi
  | cons a as ih =>
    obtain ⟨u, hu, hrest⟩ := exec_cons_eq_some.mp h
    have hlast := ih (batchInv_step hi hu) hrest
    cases hr : a.result <;> simpa [hr] using hlast

end AsyncDataHub.Batch
