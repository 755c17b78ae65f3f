import AsyncDataHub.JsonRoundtrip
import AsyncDataHub.ServerSentEvents

/-! The frames of the streaming endpoints, and what a client that knows the event stream format
and JSON makes of them. -/
namespace AsyncDataHub.Sse
open PyJson ServerSentEvents

/-- `event` is written as it is, `data` as one JSON text. -/
def formatSse (data : List (String × Json)) (event : String := "message") : String :=
  "event: " ++ event ++ "\ndata: " ++ dumps (.obj data) ++ "\n\n"

/-- An event and its data; the name is one that the format can carry. -/
structure Event where
  name : String
  data : List (String × Json)
  nonempty : name ≠ ""
  noReturn : '\r' ∉ name.toList
  noNewline : '\n' ∉ name.toList
  valid : (Json.obj data).Valid

def Event.frame (e : Event) : String := formatSse e.data e.name

/-- The messages of a stream with their data decoded; `none` is a `JSONDecodeError`. -/
def receive (stream : String) : List (String × Option Json) :=
  (parse stream.toList).map fun m => (String.ofList m.event, loads (String.ofList m.data))

/-- The message that a frame is written for. -/
def message (data : List (String × Json)) (event : String) : Message :=
  ⟨event.toList, (dumps (.obj data)).toList⟩

lemma formatSse_toList (data : List (String × Json)) (event : String) :
    (formatSse data event).toList = frame (message data event) := by
  simp [formatSse, frame, message, fieldLine, eventField, dataField]

lemma singleLine_of_printable {text : List Char} (h : Printable text) : SingleLine text := by
  have hcontrol : ∀ c : Char, c.toNat < 32 → c ∉ text := by
    intro c hc hmem
    have hrange := h c hmem
    omega
  exact ⟨hcontrol '\r' (by simp), hcontrol '\n' (by simp)⟩

lemma singleLine_dumps (j : Json) : SingleLine (dumps j).toList := by
  simpa [dumps] using singleLine_of_printable (printable_dumpsChars .spaced j)

/-- What a frame can carry: a name of one line that is not empty, and any JSON object. -/
def Sendable (event : String) (data : List (String × Json)) : Prop :=
  IsEvent event.toList ∧ (Json.obj data).Valid

lemma Sendable.framed {event : String} {data : List (String × Json)} (h : Sendable event data) :
    (message data event).Framed :=
  ⟨h.1, singleLine_dumps (.obj data)⟩

lemma Event.sendable (e : Event) : Sendable e.name e.data :=
  ⟨⟨by simpa using e.nonempty, e.noReturn, e.noNewline⟩, e.valid⟩

/-- Frames one after the other are received as what they were written for. -/
theorem receive_all {α : Type*} {sent : List α} {name : α → String}
    {data : α → List (String × Json)} (h : ∀ a ∈ sent, Sendable (name a) (data a)) :
    receive (String.join (sent.map fun a => formatSse (data a) (name a))) =
      sent.map fun a => (name a, some (.obj (data a))) := by
  have htext : (String.join (sent.map fun a => formatSse (data a) (name a))).toList =
      (sent.map fun a => message (data a) (name a)).flatMap frame := by
    simp [String.toList_join, List.flatMap_map, formatSse_toList]
  have hframed : ∀ m ∈ sent.map fun a => message (data a) (name a), m.Framed :=
    List.forall_mem_map.mpr fun a ha => (h a ha).framed
  rw [receive, htext, parse_frames hframed, List.map_map]
  refine List.map_congr_left fun a ha => ?_
  have hdecode := loads_dumps (h a ha).2
  simp [message, hdecode]

/-- Whatever events are sent, a client that reads the frames and decodes their data is given
exactly these events, in their order. -/
theorem receive_frames (events : List Event) :
    receive (String.join (events.map Event.frame)) =
      events.map fun e => (e.name, some (.obj e.data)) := by
  have hsent : ∀ e ∈ events, Sendable e.name e.data := fun e _ => e.sendable
  exact receive_all hsent

/-- No other name comes back from the frame that it is written into. -/
theorem receive_formatSse_iff {data : List (String × Json)} (hdata : (Json.obj data).Valid)
    (event : String) :
    receive (formatSse data event) = [(event, some (.obj data))] ↔
      event ≠ "" ∧ '\r' ∉ event.toList ∧ '\n' ∉ event.toList := by
  have hname : event ≠ "" ↔ event.toList ≠ [] := by simp
  rw [hname]
  constructor
  · intro hreceived
    have hmem : (event, some (Json.obj data)) ∈ receive (formatSse data event) := by
      simp [hreceived]
    obtain ⟨m, hm, hpair⟩ := List.mem_map.mp hmem
    have hevent : m.event = event.toList := by
      rw [← (Prod.mk.inj hpair).1, String.toList_ofList]
    exact hevent ▸ isEvent_of_mem_parse hm
  · intro hevent
    have hsent : ∀ p ∈ [(event, data)], Sendable p.1 p.2 :=
      List.forall_mem_singleton.mpr ⟨hevent, hdata⟩
    simpa [String.join] using receive_all hsent

theorem receive_formatSse_iff_twoLines :
    receive (formatSse [] "tick\ntock") ≠ [("tick\ntock", some (.obj []))] := by
  have hvalid : (Json.obj []).Valid := ⟨List.nodup_nil, trivial⟩
  intro hreceived
  exact ((receive_formatSse_iff hvalid "tick\ntock").mp hreceived).2.2 (by decide)

end AsyncDataHub.Sse
