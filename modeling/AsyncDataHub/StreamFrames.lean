import AsyncDataHub.Sse
import AsyncDataHub.StreamOrder

/-! The body of a streaming response: at every point of a run its frames are the events that the
generator has sent, and a client reads them as these events. -/
namespace AsyncDataHub.Streaming
open StepSystem PyJson Sse ServerSentEvents

/-- `event.model_dump()`. -/
def AggregationStreamEvent.modelDump (event : AggregationStreamEvent) : List (String × Json) :=
  [("request_id", event.requestId.elim .null fun id => .int id), ("event", .str event.event),
    ("source", event.source.elim .null .str), ("query", .str event.query),
    ("payload", event.payload.getD .null), ("error", event.error.elim .null .str)]

def AggregationStreamEvent.frame (event : AggregationStreamEvent) : String :=
  formatSse event.modelDump event.event

variable {cfg : Config} {s : State cfg} {acts : List (Action cfg)}

def State.body (s : State cfg) : String := String.join (s.frames.map AggregationStreamEvent.frame)

/-- Every payload that a source fetches in the run is a JSON value. -/
def PayloadsValid (acts : List (Action cfg)) : Prop :=
  ∀ i payload ms, Action.fetched i (.ok payload) ms ∈ acts → payload.Valid

lemma modelDump_valid {event : AggregationStreamEvent}
    (h : ∀ payload, event.payload = some payload → payload.Valid) :
    (Json.obj event.modelDump).Valid := by
  have hid : (event.requestId.elim .null fun id => Json.int id).Valid := by
    cases event.requestId <;> trivial
  have hstr : ∀ text : Option String, (text.elim .null Json.str).Valid := by
    intro text
    cases text <;> trivial
  have hpayload : (event.payload.getD .null).Valid := by
    cases hevent : event.payload with
    | none => trivial
    | some payload => exact h payload hevent
  have hmembers : MembersValid event.modelDump :=
    ⟨hid, trivial, hstr _, trivial, hpayload, hstr _, trivial⟩
  exact ⟨by simp [AggregationStreamEvent.modelDump], hmembers⟩

lemma isEvent_name {name : String} (h : name ∈ ["started", "source_result", "completed"]) :
    IsEvent name.toList := by
  simp only [List.mem_cons, List.not_mem_nil, or_false] at h
  rcases h with rfl | rfl | rfl <;> simp [IsEvent, SingleLine]

lemma sendable_arrival (hp : PayloadsValid acts)
    (h : exec (step cfg) (State.init cfg) acts = some s) {result : Arrival cfg}
    (hr : result ∈ arrivals (State.init cfg) acts) :
    Sendable result.event.event result.event.modelDump := by
  obtain ⟨i, result⟩ := result
  obtain ⟨outcome, ms, hfetched, rfl⟩ := (mem_arrivals (delivered_init cfg) h).mp hr
  refine ⟨isEvent_name (by simp [Arrival.event, resultEvent]), modelDump_valid ?_⟩
  intro payload hpayload
  cases outcome with
  | error text => simp [Arrival.event, resultEvent, fetchSource] at hpayload
  | ok value =>
    simp only [Arrival.event, resultEvent, fetchSource, Option.some.injEq] at hpayload
    exact hpayload ▸ hp i value ms hfetched

lemma sendable_of_mem_frames (hp : PayloadsValid acts)
    (h : exec (step cfg) (State.init cfg) acts = some s) :
    ∀ event ∈ s.frames, Sendable event.event event.modelDump := by
  have hstarted : Sendable (startedEvent cfg).event (startedEvent cfg).modelDump :=
    ⟨isEvent_name (by simp [startedEvent]), modelDump_valid (by simp [startedEvent])⟩
  have hcompleted : Sendable (completedEvent cfg).event (completedEvent cfg).modelDump :=
    ⟨isEvent_name (by simp [completedEvent]), modelDump_valid (by simp [completedEvent])⟩
  obtain ⟨delivered, done, hd⟩ := (delivered_of_exec (delivered_init cfg) h).delivery
  have hdelivered : ∀ event ∈ delivered, Sendable event.event event.modelDump := by
    intro event hevent
    obtain ⟨result, hresult, rfl⟩ := List.mem_map.mp (hd.begins.subset hevent)
    exact sendable_arrival hp h hresult
  intro event hevent
  rw [hd.frames, List.cons_append, List.mem_cons, List.mem_append] at hevent
  rcases hevent with rfl | hevent | hlast
  · exact hstarted
  · exact hdelivered event hevent
  · cases done with
    | false => simp at hlast
    | true =>
      simp only [if_true, List.mem_singleton] at hlast
      exact hlast ▸ hcompleted

/-- Wherever a run has come to, the client reads the events that have been sent, in their order. -/
theorem receive_body (hp : PayloadsValid acts)
    (h : exec (step cfg) (State.init cfg) acts = some s) :
    receive s.body = s.frames.map fun event => (event.event, some (.obj event.modelDump)) :=
  receive_all (sendable_of_mem_frames hp h)

theorem receive_body_newsFirst : ∃ s,
    exec (step twoSources) (State.init twoSources) newsFirst = some s ∧
      (receive s.body).map Prod.fst =
        ["started", "source_result", "source_result", "completed"] := by
  obtain ⟨s, hs, hnames⟩ : ∃ s,
      exec (step twoSources) (State.init twoSources) newsFirst = some s ∧
        s.frames.map AggregationStreamEvent.event =
          ["started", "source_result", "source_result", "completed"] := ⟨_, rfl, rfl⟩
  have hp : PayloadsValid newsFirst := by
    intro i payload ms hmem
    simp only [newsFirst, List.mem_cons, List.not_mem_nil, Action.fetched.injEq, reduceCtorEq,
      false_and, and_false, or_false, false_or, Except.ok.injEq] at hmem
    obtain ⟨_, rfl, _⟩ := hmem
    trivial
  refine ⟨s, hs, ?_⟩
  rw [receive_body hp hs, List.map_map]
  exact hnames

end AsyncDataHub.Streaming
