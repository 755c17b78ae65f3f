import AsyncDataHub.PyText

/-! The event stream format: lines, fields, and the messages that a client is given. Comments and
the fields `id` and `retry` give no message. -/
namespace AsyncDataHub.ServerSentEvents
open PyText

structure Message where
  event : List Char
  data : List Char
  deriving DecidableEq

structure Buffers where
  event : List Char := []
  data : List Char := []
  deriving DecidableEq

/-- The lines of a stream, each ended by CRLF, LF or CR; `line` is what has been read of the first
one. Characters after the last line end are no line. -/
def splitLines (line : List Char) : List Char → List (List Char)
  | [] => []
  | '\r' :: '\n' :: rest => line :: splitLines [] rest
  | c :: rest =>
    if c = '\r' ∨ c = '\n' then line :: splitLines [] rest else splitLines (line ++ [c]) rest

/-- A field's name and its value; one blank after the colon is not part of the value. -/
def field (line : List Char) : List Char × List Char :=
  match partition ':' line with
  | (name, none) => (name, [])
  | (name, some (' ' :: value)) => (name, value)
  | (name, some value) => (name, value)

def eventField : List Char := ['e', 'v', 'e', 'n', 't']

def dataField : List Char := ['d', 'a', 't', 'a']

def defaultEvent : List Char := ['m', 'e', 's', 's', 'a', 'g', 'e']

def Buffers.process (b : Buffers) (line : List Char) : Buffers :=
  let (name, value) := field line
  if name = eventField then { b with event := value }
  else if name = dataField then { b with data := b.data ++ value ++ ['\n'] }
  else b

def Buffers.dispatch (b : Buffers) : Option Message :=
  if b.data = [] then none
  else some ⟨if b.event = [] then defaultEvent else b.event, b.data.dropLast⟩

/-- An empty line dispatches; what is in the buffers at the end of the stream is lost. -/
def interpret (b : Buffers) : List (List Char) → List Message
  | [] => []
  | line :: lines =>
    if line = [] then b.dispatch.toList ++ interpret {} lines else interpret (b.process line) lines

def dropMark : List Char → List Char
  | '\ufeff' :: stream => stream
  | stream => stream

def parse (stream : List Char) : List Message := interpret {} (splitLines [] (dropMark stream))

def fieldLine (name value : List Char) : List Char := name ++ ':' :: ' ' :: value

/-- One message on the wire: its two fields and an empty line. -/
def frame (m : Message) : List Char :=
  fieldLine eventField m.event ++ '\n' :: fieldLine dataField m.data ++ ['\n', '\n']

def SingleLine (text : List Char) : Prop := '\r' ∉ text ∧ '\n' ∉ text

variable {text line rest name value : List Char}

@[simp] lemma singleLine_nil : SingleLine [] := by simp [SingleLine]

@[simp] lemma singleLine_cons {c : Char} :
    SingleLine (c :: text) ↔ (c ≠ '\r' ∧ c ≠ '\n') ∧ SingleLine text := by
  simp only [SingleLine, List.mem_cons, not_or, ne_comm (a := c)]
  tauto

@[simp] lemma singleLine_append {left right : List Char} :
    SingleLine (left ++ right) ↔ SingleLine left ∧ SingleLine right := by
  simp only [SingleLine, List.mem_append, not_or]
  tauto

@[simp] lemma splitLines_newline : splitLines line ('\n' :: rest) = line :: splitLines [] rest := by
  simp [splitLines]

lemma splitLines_cons {c : Char} (hreturn : c ≠ '\r') (hnewline : c ≠ '\n') :
    splitLines line (c :: rest) = splitLines (line ++ [c]) rest := by
  rw [splitLines.eq_3 _ _ _ (by simp [hreturn])]
  simp [hreturn, hnewline]

/-- A text without a line end only goes on with the line that is being read. -/
theorem splitLines_append (h : SingleLine text) :
    splitLines line (text ++ rest) = splitLines (line ++ text) rest := by
  induction text generalizing line with
  | nil => simp
  | cons c text ih =>
    obtain ⟨⟨hreturn, hnewline⟩, htext⟩ := singleLine_cons.mp h
    rw [List.cons_append, splitLines_cons hreturn hnewline, ih htext, List.append_assoc,
      List.singleton_append]

theorem splitLines_line (h : SingleLine text) :
    splitLines [] (text ++ '\n' :: rest) = text :: splitLines [] rest := by
  rw [splitLines_append h, splitLines_newline, List.nil_append]

@[simp] lemma fieldLine_ne_nil : fieldLine name value ≠ [] := by simp [fieldLine]

theorem field_fieldLine (h : ':' ∉ name) : field (fieldLine name value) = (name, value) := by
  have hparts : partition ':' (fieldLine name value) = (name, some (' ' :: value)) :=
    partition_eq_some.mpr ⟨rfl, h⟩
  simp only [field, hparts]

@[simp] lemma process_event (b : Buffers) :
    b.process (fieldLine eventField value) = { b with event := value } := by
  have hname : ':' ∉ eventField := by decide
  simp [Buffers.process, field_fieldLine hname]

@[simp] lemma process_data (b : Buffers) :
    b.process (fieldLine dataField value) = { b with data := b.data ++ value ++ ['\n'] } := by
  have hname : ':' ∉ dataField := by decide
  have hne : dataField ≠ eventField := by decide
  simp [Buffers.process, field_fieldLine hname, hne]

/-- What the event of a message can be. -/
def IsEvent (event : List Char) : Prop := event ≠ [] ∧ SingleLine event

/-- What a frame can carry: each of the two texts takes one line. -/
structure Message.Framed (m : Message) : Prop where
  isEvent : IsEvent m.event
  singleLine : SingleLine m.data

theorem splitLines_frame {m : Message} (h : m.Framed) :
    splitLines [] (frame m ++ rest) =
      fieldLine eventField m.event :: fieldLine dataField m.data :: [] :: splitLines [] rest := by
  have hevent : SingleLine (fieldLine eventField m.event) := by
    simp [fieldLine, eventField, h.isEvent.2]
  have hdata : SingleLine (fieldLine dataField m.data) := by
    simp [fieldLine, dataField, h.singleLine]
  simp only [frame, List.append_assoc, List.cons_append, List.nil_append]
  rw [splitLines_line hevent, splitLines_line hdata, splitLines_newline]

/-- A frame gives its message, and nothing of it stays in the buffers. -/
theorem interpret_frame {m : Message} (h : m.Framed) :
    interpret {} (splitLines [] (frame m ++ rest)) = m :: interpret {} (splitLines [] rest) := by
  rw [splitLines_frame h]
  simp [interpret, Buffers.dispatch, h.isEvent.1]

theorem interpret_frames {ms : List Message} (h : ∀ m ∈ ms, m.Framed) :
    interpret {} (splitLines [] (ms.flatMap frame ++ rest)) =
      ms ++ interpret {} (splitLines [] rest) := by
  induction ms with
  | nil => rfl
  | cons m ms ih =>
    have htail := ih fun k hk => h k (List.mem_cons_of_mem m hk)
    rw [List.flatMap_cons, List.append_assoc, interpret_frame (h m List.mem_cons_self), htail,
      List.cons_append]

lemma dropMark_frames (ms : List Message) : dropMark (ms.flatMap frame) = ms.flatMap frame := by
  cases ms with
  | nil => rfl
  | cons m ms => rfl

/-- Messages sent one frame after the other are read back one by one. -/
theorem parse_frames {ms : List Message} (h : ∀ m ∈ ms, m.Framed) :
    parse (ms.flatMap frame) = ms := by
  have hrun : interpret {} (splitLines [] (ms.flatMap frame ++ [])) = ms ++ [] :=
    interpret_frames h
  rw [List.append_nil, List.append_nil] at hrun
  rw [parse, dropMark_frames, hrun]

lemma singleLine_of_mem_splitLines (stream : List Char) (h : SingleLine line) :
    ∀ l ∈ splitLines line stream, SingleLine l := by
  fun_induction splitLines line stream with
  | case1 line => simp
  | case2 line rest ih => exact List.forall_mem_cons.mpr ⟨h, ih singleLine_nil⟩
  | case3 line c rest hcrlf hc ih => exact List.forall_mem_cons.mpr ⟨h, ih singleLine_nil⟩
  | case4 line c rest hcrlf hc ih =>
    have hlast : SingleLine [c] := singleLine_cons.mpr ⟨not_or.mp hc, singleLine_nil⟩
    exact ih (singleLine_append.mpr ⟨h, hlast⟩)

lemma singleLine_of_partition (h : SingleLine line)
    (hparts : partition ':' line = (name, some value)) : SingleLine value := by
  rw [(partition_eq_some.mp hparts).1, singleLine_append, singleLine_cons] at h
  exact h.2.2

lemma singleLine_field (h : SingleLine line) : SingleLine (field line).2 := by
  unfold field
  split
  · exact singleLine_nil
  · rename_i hparts
    exact (singleLine_cons.mp (singleLine_of_partition h hparts)).2
  · rename_i hparts
    exact singleLine_of_partition h hparts

lemma singleLine_process {b : Buffers} (hb : SingleLine b.event) (h : SingleLine line) :
    SingleLine (b.process line).event := by
  unfold Buffers.process
  simp only
  split_ifs
  · exact singleLine_field h
  · exact hb
  · exact hb

lemma isEvent_of_dispatch {b : Buffers} {m : Message} (hb : SingleLine b.event)
    (h : b.dispatch = some m) : IsEvent m.event := by
  unfold Buffers.dispatch at h
  split_ifs at h with hdata hevent
  · cases h
    simp [IsEvent, defaultEvent]
  · cases h
    exact ⟨hevent, hb⟩

theorem isEvent_of_mem_interpret {b : Buffers} {lines : List (List Char)}
    (hb : SingleLine b.event) (h : ∀ l ∈ lines, SingleLine l) :
    ∀ m ∈ interpret b lines, IsEvent m.event := by
  induction lines generalizing b with
  | nil => simp [interpret]
  | cons line lines ih =>
    obtain ⟨hline, hlines⟩ := List.forall_mem_cons.mp h
    intro m hm
    simp only [interpret] at hm
    split_ifs at hm
    · rcases List.mem_append.mp hm with hdispatch | hrest
      · exact isEvent_of_dispatch hb (Option.mem_toList.mp hdispatch)
      · exact ih singleLine_nil hlines m hrest
    · exact ih (singleLine_process hb hline) hlines m hm

/-- No stream gives a message whose event is empty or has a line end. -/
theorem isEvent_of_mem_parse {stream : List Char} {m : Message} (h : m ∈ parse stream) :
    IsEvent m.event :=
  isEvent_of_mem_interpret singleLine_nil (singleLine_of_mem_splitLines _ singleLine_nil) m h

example : parse ": hi\r\ndata:a\rdata\nevent\n\nid: 7\n\nevent: x\ndata: b".toList =
    [⟨"message".toList, "a\n".toList⟩] := by decide

end AsyncDataHub.ServerSentEvents
