import AsyncDataHub.JsonText
import AsyncDataHub.StepSystem
import AsyncDataHub.TaskGroup

/-! Streaming aggregation: a producer task with one child per source, the queue between them and
the generator that the response drains, and the event that tells the generator of the end. A step
is what one task does from one suspension to the next. -/
namespace AsyncDataHub.Streaming
open StepSystem TaskGroup PyJson

structure AggregationSourceResult where
  source : String
  status : String
  data : Option Json := none
  error : Option String := none
  durationMs : Option ℕ := none

structure AggregationStreamEvent where
  requestId : Option ℕ
  event : String
  source : Option String := none
  query : String
  payload : Option Json := none
  error : Option String := none

structure SourceResultRecord where
  aggregateRequestId : ℕ
  sourceName : String
  status : String
  payload : Option Json
  errorMessage : Option String
  durationMs : Option ℕ

structure Config where
  sourceNames : List String
  query : String
  requestId : ℕ

abbrev Config.Source (cfg : Config) := Fin cfg.sourceNames.length

/-- `_fetch_source`: any exception but a cancellation becomes an error result. -/
def fetchSource (sourceName : String) (outcome : Except String Json) (durationMs : ℕ) :
    AggregationSourceResult :=
  match outcome with
  | .ok payload =>
    { source := sourceName, status := "success", data := some payload, durationMs := durationMs }
  | .error text =>
    { source := sourceName, status := "error", error := some text, durationMs := durationMs }

def startedEvent (cfg : Config) : AggregationStreamEvent :=
  { requestId := cfg.requestId, event := "started", query := cfg.query }

def completedEvent (cfg : Config) : AggregationStreamEvent :=
  { requestId := cfg.requestId, event := "completed", query := cfg.query }

def resultEvent (cfg : Config) (result : AggregationSourceResult) : AggregationStreamEvent where
  requestId := cfg.requestId
  event := "source_result"
  source := result.source
  query := cfg.query
  payload := result.data
  error := result.error

/-- `event.source or "unknown"`. -/
def sourceName (event : AggregationStreamEvent) : String :=
  match event.source with
  | none => "unknown"
  | some name => if name = "" then "unknown" else name

def recordOf (cfg : Config) (event : AggregationStreamEvent) : SourceResultRecord where
  aggregateRequestId := cfg.requestId
  sourceName := sourceName event
  status := if event.error = none then "success" else "error"
  payload := event.payload
  errorMessage := event.error
  durationMs := none

inductive SourcePc
  | fetching
  | putting (result : AggregationSourceResult)
  | broadcasting (result : AggregationSourceResult)

inductive ProducerPc
  | idle
  | created
  | grouping
  | ended
  | raised
  | cancelled
  deriving DecidableEq

inductive StreamEnd
  | finished
  | raised
  | failed
  | cancelled
  | closed
  deriving DecidableEq

/-- Where the generator is suspended: at a yield, or in one of its awaits. -/
inductive ConsumerPc
  | yieldStarted
  | getting
  | committing (event : AggregationStreamEvent)
  | yielded
  | awaitingProducer
  | marking
  | committingStatus
  | yieldCompleted
  | ended (o : StreamEnd)

/-- `cleanup` tells of a scheduled `_mark_cancelled_in_fresh_session`. -/
structure State (cfg : Config) where
  group : Group cfg.Source SourcePc String
  queue : List AggregationStreamEvent
  completion : Bool
  producer : ProducerPc
  producerCancel : Bool
  consumer : ConsumerPc
  frames : List AggregationStreamEvent
  records : List SourceResultRecord
  status : String
  cleanup : Bool

/-- The request row is committed and the started frame is out. -/
def State.init (cfg : Config) : State cfg where
  group := { child := fun _ => .running .fetching }
  queue := []
  completion := false
  producer := .idle
  producerCancel := false
  consumer := .yieldStarted
  frames := [startedEvent cfg]
  records := []
  status := "RUNNING"
  cleanup := false

variable {cfg : Config}

def maxsize (cfg : Config) : ℕ := cfg.sourceNames.length + 1

/-- `await producer_task`: a task that is done does not suspend the generator. -/
def State.awaitProducer (s : State cfg) : State cfg :=
  match s.producer with
  | .ended => { s with consumer := .marking }
  | .raised => { s with consumer := .ended .raised }
  | .cancelled => { s with consumer := .ended .cancelled }
  | _ => { s with consumer := .awaitingProducer }

/-- The head of the loop: the test for the end, and otherwise `queue.get()`. -/
def State.loopTest (s : State cfg) : State cfg :=
  match s.queue with
  | [] => if s.completion then s.awaitProducer else { s with consumer := .getting }
  | event :: rest => { s with queue := rest, consumer := .committing event }

/-- The next step of the generator; `none` while it has to wait. -/
def State.consume (s : State cfg) : Option (State cfg) :=
  match s.consumer with
  | .yieldStarted => some { s with producer := .created }.loopTest
  | .getting =>
    match s.queue with
    | [] => none
    | event :: rest => some { s with queue := rest, consumer := .committing event }
  | .committing event => some { s with
      records := s.records ++ [recordOf cfg event], frames := s.frames ++ [event]
      consumer := .yielded }
  | .yielded => some s.loopTest
  | .awaitingProducer =>
    match s.producer with
    | .ended | .raised | .cancelled => some s.awaitProducer
    | _ => none
  | .marking => some { s with consumer := .committingStatus }
  | .committingStatus => some { s with
      status := "COMPLETED", frames := s.frames ++ [completedEvent cfg]
      consumer := .yieldCompleted }
  | .yieldCompleted => some { s with consumer := .ended .finished }
  | .ended _ => none

/-- The producer leaves the task group: the `finally` sets the event in the same step. -/
def State.leaveGroup (s : State cfg) : State cfg :=
  { s with
    completion := true
    producer := if s.group.HasFailed then .raised
      else if s.producerCancel then .cancelled else .ended }

/-- The first step of the producer task. Cancelled before it, the task does not run at all. -/
def State.produce (s : State cfg) : Option (State cfg) :=
  match s.producer with
  | .created =>
    if s.producerCancel then some { s with producer := .cancelled }
    else if cfg.sourceNames = [] then some s.leaveGroup
    else some { s with producer := .grouping }
  | _ => none

/-- `queue.put`: it waits while the queue is full. -/
def State.put (s : State cfg) (i : cfg.Source) (result : AggregationSourceResult) : State cfg :=
  if s.queue.length < maxsize cfg then
    { s with
      queue := s.queue ++ [resultEvent cfg result]
      group := s.group.set i (.running (.broadcasting result)) }
  else { s with group := s.group.set i (.running (.putting result)) }

def State.source (s : State cfg) (i : cfg.Source) : Option SourcePc :=
  if s.producer = .grouping then s.group.active i else none

inductive Action (cfg : Config)
  | produce
  | fetched (i : cfg.Source) (outcome : Except String Json) (durationMs : ℕ)
  | put (i : cfg.Source)
  /-- The broadcast of a source returns, or raises an exception. -/
  | broadcast (i : cfg.Source) (raised : Option String)
  | abort
  | cancelSource (i : cfg.Source)
  | close
  | consume
  /-- A statement of the generator fails in the database. -/
  | fail
  /-- The client goes away while the generator is in an await. -/
  | disconnect
  /-- The generator is closed at a yield. -/
  | closeGenerator
  | cleanup (stored : Bool)

def step (cfg : Config) (s : State cfg) : Action cfg → Option (State cfg)
  | .produce => s.produce
  | .fetched i outcome durationMs =>
    match s.source i with
    | some .fetching => some (s.put i (fetchSource (cfg.sourceNames.get i) outcome durationMs))
    | _ => none
  | .put i =>
    match s.source i with
    | some (.putting result) =>
      if s.queue.length < maxsize cfg then some (s.put i result) else none
    | _ => none
  | .broadcast i raised =>
    match s.source i with
    | some (.broadcasting _) =>
      match raised with
      | none => some { s with group := s.group.set i .ended }
      | some text => some { s with group := s.group.set i (.failed text) }
    | _ => none
  | .abort =>
    if s.producer = .grouping then
      (s.group.abort s.producerCancel).map fun group => { s with group }
    else none
  | .cancelSource i =>
    if s.producer = .grouping then (s.group.cancelChild i).map fun group => { s with group }
    else none
  | .close => if s.producer = .grouping ∧ s.group.Finished then some s.leaveGroup else none
  | .consume => s.consume
  | .fail =>
    match s.consumer with
    | .committing _ | .marking | .committingStatus => some { s with consumer := .ended .failed }
    | _ => none
  | .disconnect =>
    match s.consumer with
    | .getting | .committing _ | .awaitingProducer | .marking | .committingStatus =>
      some { s with consumer := .ended .cancelled, producerCancel := true, cleanup := true }
    | _ => none
  | .closeGenerator =>
    match s.consumer with
    | .yieldStarted | .yielded | .yieldCompleted => some { s with consumer := .ended .closed }
    | _ => none
  | .cleanup stored =>
    if s.cleanup then
      some { s with cleanup := false, status := if stored then "CANCELLED" else s.status }
    else none

lemma source_eq_some {s : State cfg} {i : cfg.Source} {l : SourcePc} :
    s.source i = some l ↔
      s.producer = .grouping ∧ s.group.aborting = false ∧ s.group.child i = .running l := by
  unfold State.source
  split_ifs with hp <;> simp [hp, Group.active_eq_some]

def ProducerPc.IsDone (p : ProducerPc) : Prop := p = .ended ∨ p = .raised ∨ p = .cancelled

inductive Took (s : State cfg) : Action cfg → State cfg → Prop
  | skips (producer : s.producer = .created) (cancelled : s.producerCancel = true) :
      Took s .produce { s with producer := .cancelled }
  | leavesEmpty (producer : s.producer = .created) (empty : cfg.sourceNames = []) :
      Took s .produce s.leaveGroup
  | opens (producer : s.producer = .created) (sources : cfg.sourceNames ≠ []) :
      Took s .produce { s with producer := .grouping }
  | fetches {i : cfg.Source} {outcome : Except String Json} {durationMs : ℕ}
      (producer : s.producer = .grouping) (calm : s.group.aborting = false)
      (child : s.group.child i = .running .fetching) :
      Took s (.fetched i outcome durationMs)
        (s.put i (fetchSource (cfg.sourceNames.get i) outcome durationMs))
  | puts {i : cfg.Source} {result : AggregationSourceResult}
      (producer : s.producer = .grouping) (calm : s.group.aborting = false)
      (child : s.group.child i = .running (.putting result))
      (space : s.queue.length < maxsize cfg) : Took s (.put i) (s.put i result)
  | broadcasts {i : cfg.Source} {raised : Option String} {result : AggregationSourceResult}
      {c : Child SourcePc String} (producer : s.producer = .grouping)
      (calm : s.group.aborting = false)
      (child : s.group.child i = .running (.broadcasting result)) (result : c.isRunning = false) :
      Took s (.broadcast i raised) { s with group := s.group.set i c }
  | aborts (producer : s.producer = .grouping) (calm : s.group.aborting = false)
      (cause : s.group.HasFailed ∨ s.producerCancel = true) :
      Took s .abort { s with group := { s.group with aborting := true } }
  | cancelsSource {i : cfg.Source} (producer : s.producer = .grouping)
      (aborting : s.group.aborting = true) (running : (s.group.child i).isRunning = true) :
      Took s (.cancelSource i) { s with group := s.group.set i .cancelled }
  | closes (producer : s.producer = .grouping) (finished : s.group.Finished) :
      Took s .close s.leaveGroup
  | starts (consumer : s.consumer = .yieldStarted) :
      Took s .consume { s with producer := .created }.loopTest
  | loops (consumer : s.consumer = .yielded) : Took s .consume s.loopTest
  | gets {event : AggregationStreamEvent} {rest : List AggregationStreamEvent}
      (consumer : s.consumer = .getting) (queue : s.queue = event :: rest) :
      Took s .consume { s with queue := rest, consumer := .committing event }
  | commits {event : AggregationStreamEvent} (consumer : s.consumer = .committing event) :
      Took s .consume { s with
        records := s.records ++ [recordOf cfg event], frames := s.frames ++ [event]
        consumer := .yielded }
  | joins (consumer : s.consumer = .awaitingProducer) (done : s.producer.IsDone) :
      Took s .consume s.awaitProducer
  | marks (consumer : s.consumer = .marking) :
      Took s .consume { s with consumer := .committingStatus }
  | completes (consumer : s.consumer = .committingStatus) :
      Took s .consume { s with
        status := "COMPLETED", frames := s.frames ++ [completedEvent cfg]
        consumer := .yieldCompleted }
  | finishes (consumer : s.consumer = .yieldCompleted) :
      Took s .consume { s with consumer := .ended .finished }
  | fails (consumer : ∀ o, s.consumer ≠ .ended o) :
      Took s .fail { s with consumer := .ended .failed }
  | disconnects (consumer : ∀ o, s.consumer ≠ .ended o)
      (notLast : s.consumer ≠ .yieldCompleted) :
      Took s .disconnect
        { s with consumer := .ended .cancelled, producerCancel := true, cleanup := true }
  | closesGenerator (consumer : ∀ o, s.consumer ≠ .ended o) :
      Took s .closeGenerator { s with consumer := .ended .closed }
  | cleans {stored : Bool} (scheduled : s.cleanup = true) :
      Took s (.cleanup stored)
        { s with cleanup := false, status := if stored then "CANCELLED" else s.status }

lemma took_of_consume {s t : State cfg} (h : s.consume = some t) : Took s .consume t := by
  unfold State.consume at h
  split at h
  · rename_i hc
    cases h
    exact .starts hc
  · rename_i hc
    split at h
    · cases h
    · rename_i event rest hq
      cases h
      exact .gets hc hq
  · rename_i event hc
    cases h
    exact .commits hc
  · rename_i hc
    cases h
    exact .loops hc
  · rename_i hc
    split at h
    · rename_i hp
      cases h
      exact .joins hc (.inl hp)
    · rename_i hp
      cases h
      exact .joins hc (.inr (.inl hp))
    · rename_i hp
      cases h
      exact .joins hc (.inr (.inr hp))
    · cases h
  · rename_i hc
    cases h
    exact .marks hc
  · rename_i hc
    cases h
    exact .completes hc
  · rename_i hc
    cases h
    exact .finishes hc
  · cases h

lemma took_of_produce {s t : State cfg} (h : s.produce = some t) : Took s .produce t := by
  unfold State.produce at h
  split at h
  · rename_i hp
    split_ifs at h with hcancel hempty
    · cases h
      exact .skips hp hcancel
    · cases h
      exact .leavesEmpty hp hempty
    · cases h
      exact .opens hp hempty
  · cases h

theorem took_of_step {s t : State cfg} {a : Action cfg} (h : step cfg s a = some t) :
    Took s a t := by
  cases a with
  | produce => exact took_of_produce h
  | fetched i outcome durationMs =>
    simp only [step] at h
    split at h
    · rename_i hs
      obtain ⟨hp, ha, hc⟩ := source_eq_some.mp hs
      cases h
      exact .fetches hp ha hc
    · cases h
  | put i =>
    simp only [step] at h
    split at h
    · rename_i result hs
      obtain ⟨hp, ha, hc⟩ := source_eq_some.mp hs
      split_ifs at h with hlen
      cases h
      exact .puts hp ha hc hlen
    · cases h
  | broadcast i raised =>
    simp only [step] at h
    split at h
    · rename_i result hs
      obtain ⟨hp, ha, hc⟩ := source_eq_some.mp hs
      cases raised with
      | none =>
        cases h
        exact .broadcasts hp ha hc rfl
      | some text =>
        cases h
        exact .broadcasts hp ha hc rfl
    · cases h
  | abort =>
    simp only [step] at h
    split_ifs at h with hp
    obtain ⟨g, hg, rfl⟩ := Option.map_eq_some_iff.mp h
    obtain ⟨hcalm, hcause, rfl⟩ := Group.abort_eq_some.mp hg
    exact .aborts hp hcalm hcause
  | cancelSource i =>
    simp only [step] at h
    split_ifs at h with hp
    obtain ⟨g, hg, rfl⟩ := Option.map_eq_some_iff.mp h
    obtain ⟨haborting, hrunning, rfl⟩ := Group.cancelChild_eq_some.mp hg
    exact .cancelsSource hp haborting hrunning
  | close =>
    simp only [step] at h
    split_ifs at h with hcond
    cases h
    exact .closes hcond.1 hcond.2
  | consume => exact took_of_consume h
  | fail =>
    simp only [step] at h
    split at h
    all_goals first | (cases h; rename_i hc; exact .fails (by simp [hc])) | cases h
  | disconnect =>
    simp only [step] at h
    split at h
    all_goals first
      | (cases h; rename_i hc; exact .disconnects (by simp [hc]) (by simp [hc]))
      | cases h
  | closeGenerator =>
    simp only [step] at h
    split at h
    all_goals first | (cases h; rename_i hc; exact .closesGenerator (by simp [hc])) | cases h
  | cleanup stored =>
    simp only [step] at h
    split at h
    · rename_i hc
      cases h
      exact .cleans hc
    · cases h

lemma loopTest_cases (s : State cfg) :
    (∃ event rest, s.queue = event :: rest ∧
      s.loopTest = { s with queue := rest, consumer := .committing event }) ∨
    (s.queue = [] ∧ s.completion = true ∧ s.loopTest = s.awaitProducer) ∨
    (s.queue = [] ∧ s.completion = false ∧ s.loopTest = { s with consumer := .getting }) := by
  unfold State.loopTest
  cases hq : s.queue with
  | nil => cases hc : s.completion <;> simp
  | cons event rest => exact .inl ⟨event, rest, rfl, rfl⟩

lemma awaitProducer_cases (s : State cfg) :
    (s.producer = .ended ∧ s.awaitProducer = { s with consumer := .marking }) ∨
    (s.producer = .raised ∧ s.awaitProducer = { s with consumer := .ended .raised }) ∨
    (s.producer = .cancelled ∧ s.awaitProducer = { s with consumer := .ended .cancelled }) ∨
    (¬ s.producer.IsDone ∧ s.awaitProducer = { s with consumer := .awaitingProducer }) := by
  unfold State.awaitProducer
  cases hp : s.producer <;> simp [ProducerPc.IsDone]

/-- Where the head of the loop and the test of the producer can leave the generator. -/
def ConsumerPc.PastTest : ConsumerPc → Prop
  | .getting | .committing _ | .awaitingProducer | .marking | .ended .raised
  | .ended .cancelled => True
  | _ => False

lemma awaitProducer_pastTest (s : State cfg) : s.awaitProducer.consumer.PastTest := by
  rcases awaitProducer_cases s with ⟨_, h⟩ | ⟨_, h⟩ | ⟨_, h⟩ | ⟨_, h⟩ <;> rw [h] <;> trivial

lemma awaitProducer_ne_getting (s : State cfg) : s.awaitProducer.consumer ≠ .getting := by
  rcases awaitProducer_cases s with ⟨_, h⟩ | ⟨_, h⟩ | ⟨_, h⟩ | ⟨_, h⟩ <;> simp [h]

lemma loopTest_pastTest (s : State cfg) : s.loopTest.consumer.PastTest := by
  rcases loopTest_cases s with ⟨_, _, _, h⟩ | ⟨_, _, h⟩ | ⟨_, _, h⟩
  · rw [h]
    trivial
  · rw [h]
    exact awaitProducer_pastTest s
  · rw [h]
    trivial

lemma awaitProducer_eq (s : State cfg) : ∃ consumer, s.awaitProducer = { s with consumer } := by
  unfold State.awaitProducer
  split <;> exact ⟨_, rfl⟩

lemma loopTest_eq (s : State cfg) :
    ∃ queue consumer, s.loopTest = { s with queue, consumer } ∧
      queue.length ≤ s.queue.length := by
  rcases loopTest_cases s with ⟨event, rest, hq, h⟩ | ⟨_, _, h⟩ | ⟨_, _, h⟩
  · exact ⟨rest, _, h, by simp [hq]⟩
  · obtain ⟨consumer, hawait⟩ := awaitProducer_eq s
    exact ⟨s.queue, consumer, h.trans hawait, le_rfl⟩
  · exact ⟨s.queue, _, h, le_rfl⟩

@[simp] theorem awaitProducer_group (s : State cfg) : s.awaitProducer.group = s.group := by
  obtain ⟨_, h⟩ := awaitProducer_eq s
  rw [h]

@[simp] theorem awaitProducer_completion (s : State cfg) :
    s.awaitProducer.completion = s.completion := by
  obtain ⟨_, h⟩ := awaitProducer_eq s
  rw [h]

@[simp] theorem awaitProducer_producer (s : State cfg) : s.awaitProducer.producer = s.producer := by
  obtain ⟨_, h⟩ := awaitProducer_eq s
  rw [h]

@[simp] theorem awaitProducer_queue (s : State cfg) : s.awaitProducer.queue = s.queue := by
  obtain ⟨_, h⟩ := awaitProducer_eq s
  rw [h]

@[simp] theorem awaitProducer_producerCancel (s : State cfg) :
    s.awaitProducer.producerCancel = s.producerCancel := by
  obtain ⟨_, h⟩ := awaitProducer_eq s
  rw [h]

@[simp] theorem awaitProducer_cleanup (s : State cfg) : s.awaitProducer.cleanup = s.cleanup := by
  obtain ⟨_, h⟩ := awaitProducer_eq s
  rw [h]

@[simp] theorem loopTest_group (s : State cfg) : s.loopTest.group = s.group := by
  obtain ⟨_, _, h, _⟩ := loopTest_eq s
  rw [h]

@[simp] theorem loopTest_completion (s : State cfg) : s.loopTest.completion = s.completion := by
  obtain ⟨_, _, h, _⟩ := loopTest_eq s
  rw [h]

@[simp] theorem loopTest_producer (s : State cfg) : s.loopTest.producer = s.producer := by
  obtain ⟨_, _, h, _⟩ := loopTest_eq s
  rw [h]

@[simp] theorem loopTest_producerCancel (s : State cfg) :
    s.loopTest.producerCancel = s.producerCancel := by
  obtain ⟨_, _, h, _⟩ := loopTest_eq s
  rw [h]

@[simp] theorem loopTest_cleanup (s : State cfg) : s.loopTest.cleanup = s.cleanup := by
  obtain ⟨_, _, h, _⟩ := loopTest_eq s
  rw [h]

@[simp] theorem loopTest_status (s : State cfg) : s.loopTest.status = s.status := by
  obtain ⟨_, _, h, _⟩ := loopTest_eq s
  rw [h]

lemma put_cases (s : State cfg) (i : cfg.Source) (result : AggregationSourceResult) :
    (s.queue.length < maxsize cfg ∧ s.put i result = { s with
      queue := s.queue ++ [resultEvent cfg result]
      group := s.group.set i (.running (.broadcasting result)) }) ∨
    (maxsize cfg ≤ s.queue.length ∧
      s.put i result = { s with group := s.group.set i (.running (.putting result)) }) := by
  unfold State.put
  split_ifs with h
  · exact .inl ⟨h, rfl⟩
  · exact .inr ⟨not_lt.mp h, rfl⟩

lemma put_eq (s : State cfg) (i : cfg.Source) (result : AggregationSourceResult) :
    ∃ queue group, s.put i result = { s with queue, group } := by
  rcases put_cases s i result with ⟨_, h⟩ | ⟨_, h⟩
  · exact ⟨_, _, h⟩
  · exact ⟨_, _, h⟩

end AsyncDataHub.Streaming
