import AsyncDataHub.MediaRange
import AsyncDataHub.StepSystem

/-! The bodies of the local media responses: the two loops that read the file, one read a step. A
read may return less than it was asked for. -/
namespace AsyncDataHub.Media
open StepSystem

/-- The chunks that were yielded, and where the next read begins. `remaining` counts down in the
loop over a byte range only. -/
structure FileStream where
  position : ℕ
  remaining : ℤ := 0
  chunks : List (List UInt8) := []
  ended : Bool := false

/-- `read(n)` that returns `k` bytes: none at the end of the file, and at least one before it. -/
def read (content : List UInt8) (position n k : ℕ) : Option (List UInt8) :=
  if content.length ≤ position then if k = 0 then some [] else none
  else if 1 ≤ k ∧ k ≤ n ∧ position + k ≤ content.length then some ((content.drop position).take k)
  else none

/-- The loop ends at an empty chunk and yields any other. -/
def FileStream.next (s : FileStream) (chunk : List UInt8) : FileStream :=
  if chunk = [] then { s with ended := true }
  else
    { s with
      position := s.position + chunk.length
      remaining := s.remaining - chunk.length
      chunks := s.chunks ++ [chunk] }

def streamFullFile (content : List UInt8) (chunkSize : ℕ) (s : FileStream) (k : ℕ) :
    Option FileStream :=
  if s.ended then none else (read content s.position chunkSize k).map s.next

def streamByteRange (content : List UInt8) (chunkSize : ℕ) (s : FileStream) (k : ℕ) :
    Option FileStream :=
  if s.ended ∨ s.remaining ≤ 0 then none
  else (read content s.position (min chunkSize s.remaining.toNat) k).map s.next

inductive Body
  | fullFile
  | byteRange (r : ByteRange)
  deriving DecidableEq

def Body.start : Body → FileStream
  | .fullFile => { position := 0 }
  | .byteRange r => { position := r.start.toNat, remaining := r.length }

def Body.step (content : List UInt8) (chunkSize : ℕ) : Body → FileStream → ℕ → Option FileStream
  | .fullFile => streamFullFile content chunkSize
  | .byteRange _ => streamByteRange content chunkSize

/-- A run of the body's loop to its end, and the chunks of it. -/
def Sends (content : List UInt8) (chunkSize : ℕ) (body : Body) (chunks : List (List UInt8)) :
    Prop :=
  ∃ reads t, exec (body.step content chunkSize) body.start reads = some t ∧
    Terminal (body.step content chunkSize) t ∧ t.chunks = chunks

/-- However short the reads are, the loop comes to its end and has then yielded just `bytes`. -/
structure Delivers (content : List UInt8) (chunkSize : ℕ) (body : Body) (bytes : List UInt8) :
    Prop where
  stops : ∀ reads t, exec (body.step content chunkSize) body.start reads = some t →
    reads.length ≤ content.length + 1
  sends : ∃ chunks, Sends content chunkSize body chunks
  whole : ∀ chunks, Sends content chunkSize body chunks → chunks.flatten = bytes

structure StreamingResponse where
  statusCode : ℕ
  mediaType : String
  headers : List (String × String)
  body : Body

def progressiveResponse (mediaType : String) (content : List UInt8) : StreamingResponse where
  statusCode := 200
  mediaType
  headers := [("Content-Length", toString content.length)]
  body := .fullFile

def contentRange (r : ByteRange) : String :=
  "bytes " ++ toString r.start ++ "-" ++ toString r.end_ ++ "/" ++ toString r.total

/-- `seekable_response`, for a file that is there. -/
def seekableResponse (mediaType : String) (content : List UInt8) :
    Option String → Except HTTPException StreamingResponse
  | none => .ok {
      statusCode := 200
      mediaType
      headers := [("Content-Length", toString content.length), ("Accept-Ranges", "bytes")]
      body := .fullFile }
  | some rangeHeader => do
    let byteRange ← parseRange rangeHeader content.length
    return {
      statusCode := 206
      mediaType
      headers := [("Content-Range", contentRange byteRange),
        ("Content-Length", toString byteRange.length), ("Accept-Ranges", "bytes")]
      body := .byteRange byteRange }

def slice (content : List UInt8) (r : ByteRange) : List UInt8 :=
  (content.drop r.start.toNat).take r.length.toNat

structure Inside (content : List UInt8) (r : ByteRange) : Prop where
  nonneg : 0 ≤ r.start
  ordered : r.start ≤ r.end_
  within : r.end_ < content.length
  total : r.total = content.length

inductive SendsAll (mediaType : String) (content : List UInt8) (chunkSize : ℕ) :
    List String → List (List (List UInt8)) → Prop
  | nil : SendsAll mediaType content chunkSize [] []
  | cons {header : String} {headers : List String} {response : StreamingResponse}
      {chunks : List (List UInt8)} {bodies : List (List (List UInt8))}
      (answered : seekableResponse mediaType content (some header) = .ok response)
      (sent : Sends content chunkSize response.body chunks)
      (rest : SendsAll mediaType content chunkSize headers bodies) :
      SendsAll mediaType content chunkSize (header :: headers) (chunks :: bodies)

/-- Headers whose ranges follow one another from a position to the end of the file. -/
inductive Splits (total : ℕ) : ℤ → List String → Prop
  | done : Splits total total []
  | next {header : String} {headers : List String} {r : ByteRange}
      (parsed : parseRange header total = .ok r) (rest : Splits total (r.end_ + 1) headers) :
      Splits total r.start (header :: headers)

variable {content chunk : List UInt8} {chunkSize position n k : ℕ} {s t : FileStream}
  {r : ByteRange} {body : Body} {chunks : List (List UInt8)} {mediaType : String}

lemma inside_of_parseRange {header : String} (h : parseRange header content.length = .ok r) :
    Inside content r := by
  obtain ⟨first, last, a, b, -, -, -, hin, rfl⟩ := parseRange_eq_ok.mp h
  cases a <;> cases b <;> simp only [InBounds, resolved] at hin ⊢ <;> constructor <;>
    first | rfl | (dsimp only; omega)

lemma read_eq_some (h : read content position n k = some chunk) :
    (content.length ≤ position ∧ chunk = []) ∨
      (position < content.length ∧ chunk = (content.drop position).take chunk.length ∧
        1 ≤ chunk.length ∧ chunk.length ≤ n ∧ position + chunk.length ≤ content.length) := by
  unfold read at h
  split_ifs at h with hend hzero hk
  · exact .inl ⟨hend, (Option.some.inj h).symm⟩
  · obtain rfl := Option.some.inj h
    have hlength : ((content.drop position).take k).length = k := by
      rw [List.length_take, List.length_drop]
      omega
    rw [hlength]
    exact .inr ⟨by omega, rfl, hk⟩

lemma read_one (content : List UInt8) (position : ℕ) (hn : 0 < n) :
    ∃ k, read content position n k ≠ none := by
  by_cases hend : content.length ≤ position
  · exact ⟨0, by simp [read, hend]⟩
  · refine ⟨1, ?_⟩
    have hone : position + 1 ≤ content.length := by omega
    simp [read, hend, hone, Nat.one_le_iff_ne_zero, hn.ne']

lemma flatten_next {start : ℕ}
    (hsent : s.chunks.flatten = (content.drop start).take s.chunks.flatten.length)
    (hposition : s.position = start + s.chunks.flatten.length)
    (hchunk : chunk = (content.drop s.position).take chunk.length) :
    (s.chunks ++ [chunk]).flatten =
      (content.drop start).take (s.chunks ++ [chunk]).flatten.length := by
  have hlength : (s.chunks ++ [chunk]).flatten.length = s.chunks.flatten.length + chunk.length := by
    simp
  rw [hlength, List.take_add, ← hsent, List.drop_drop, ← hposition, ← hchunk]
  simp

structure FullInv (content : List UInt8) (s : FileStream) : Prop where
  sent : s.chunks.flatten = (content.drop 0).take s.chunks.flatten.length
  position : s.position = 0 + s.chunks.flatten.length
  ended : s.ended = true → content.length ≤ s.position

structure RangeInv (content : List UInt8) (r : ByteRange) (s : FileStream) : Prop where
  sent : s.chunks.flatten = (content.drop r.start.toNat).take s.chunks.flatten.length
  position : s.position = r.start.toNat + s.chunks.flatten.length
  remaining : s.remaining = r.length - s.chunks.flatten.length
  nonneg : 0 ≤ s.remaining
  open' : s.ended = false

lemma fullInv_step (hi : FullInv content s) (h : streamFullFile content chunkSize s k = some t) :
    FullInv content t := by
  unfold streamFullFile at h
  split_ifs at h
  obtain ⟨chunk, hread, rfl⟩ := Option.map_eq_some_iff.mp h
  rcases read_eq_some hread with ⟨hend, rfl⟩ | ⟨hbefore, hchunk, hone, -, hle⟩
  · exact ⟨hi.sent, hi.position, fun _ => hend⟩
  · have hne : chunk ≠ [] := List.ne_nil_of_length_pos hone
    have hposition := hi.position
    simp only [FileStream.next, if_neg hne]
    refine ⟨flatten_next hi.sent hi.position hchunk, ?_, fun hended => ?_⟩
    · simp only [List.flatten_append, List.length_append, List.flatten_singleton]
      omega
    · have hend := hi.ended hended
      omega

lemma rangeInv_step (hr : Inside content r) (hi : RangeInv content r s)
    (h : streamByteRange content chunkSize s k = some t) : RangeInv content r t := by
  have hposition := hi.position
  have hremaining := hi.remaining
  have hwithin := hr.within
  have hnonneg := hr.nonneg
  unfold streamByteRange at h
  split_ifs at h with hgo
  obtain ⟨chunk, hread, rfl⟩ := Option.map_eq_some_iff.mp h
  rw [ByteRange.length] at hremaining
  rcases read_eq_some hread with ⟨hend, rfl⟩ | ⟨hbefore, hchunk, hone, hn, hle⟩
  · -- before the end of the range is before the end of the file
    omega
  · have hne : chunk ≠ [] := List.ne_nil_of_length_pos hone
    simp only [FileStream.next, if_neg hne]
    refine ⟨flatten_next hi.sent hi.position hchunk, ?_, ?_, ?_, hi.open'⟩
    · simp only [List.flatten_append, List.length_append, List.flatten_singleton]
      omega
    · simp only [List.flatten_append, List.length_append, List.flatten_singleton, ByteRange.length]
      push_cast
      omega
    · dsimp only
      omega

lemma full_of_terminal (hchunk : 0 < chunkSize) (hi : FullInv content s)
    (h : Terminal (streamFullFile content chunkSize) s) : s.chunks.flatten = content := by
  have hended : s.ended = true := by
    by_contra hopen
    obtain ⟨k, hk⟩ := read_one content s.position hchunk
    have hnone := h k
    simp [streamFullFile, hopen, hk] at hnone
  have hle := hi.ended hended
  have hposition := hi.position
  have hsent := hi.sent
  rw [List.drop_zero, List.take_of_length_le (by omega)] at hsent
  exact hsent

lemma range_of_terminal (hchunk : 0 < chunkSize) (hi : RangeInv content r s)
    (h : Terminal (streamByteRange content chunkSize) s) :
    s.chunks.flatten = slice content r ∧ (s.chunks.flatten.length : ℤ) = r.length := by
  have hdone : s.remaining ≤ 0 := by
    by_contra hmore
    have hn : 0 < min chunkSize s.remaining.toNat := by omega
    obtain ⟨k, hk⟩ := read_one content s.position hn
    have hnone := h k
    have hgo : ¬ (s.ended ∨ s.remaining ≤ 0) := by simp [hi.open', hmore]
    simp [streamByteRange, hgo, hk] at hnone
  have hremaining := hi.remaining
  have hnonneg := hi.nonneg
  have hlength : (s.chunks.flatten.length : ℤ) = r.length := by omega
  refine ⟨?_, hlength⟩
  have hsent := hi.sent
  rwa [show s.chunks.flatten.length = r.length.toNat by omega] at hsent

def toRead (content : List UInt8) (s : FileStream) : ℕ :=
  content.length - s.position + if s.ended then 0 else 1

lemma toRead_next (hopen : s.ended = false) (hread : read content s.position n k = some chunk) :
    toRead content (s.next chunk) < toRead content s := by
  rcases read_eq_some hread with ⟨hend, rfl⟩ | ⟨hbefore, -, hone, -, hle⟩
  · simp [toRead, FileStream.next, hopen]
  · have hne : chunk ≠ [] := List.ne_nil_of_length_pos hone
    simp only [toRead, FileStream.next, if_neg hne, hopen]
    omega

lemma toRead_lt (content : List UInt8) (chunkSize : ℕ) (body : Body) :
    ∀ s k t, True → body.step content chunkSize s k = some t →
      toRead content t < toRead content s := by
  intro s k t _ h
  cases body with
  | fullFile =>
    simp only [Body.step, streamFullFile] at h
    split_ifs at h with hended
    obtain ⟨chunk, hread, rfl⟩ := Option.map_eq_some_iff.mp h
    exact toRead_next (by simpa using hended) hread
  | byteRange r =>
    simp only [Body.step, streamByteRange] at h
    split_ifs at h with hgo
    obtain ⟨chunk, hread, rfl⟩ := Option.map_eq_some_iff.mp h
    exact toRead_next (by simpa using (not_or.mp hgo).1) hread

lemma stops_of_start {reads : List ℕ}
    (h : exec (body.step content chunkSize) body.start reads = some t) :
    reads.length ≤ content.length + 1 := by
  have hlength := length_le_of_decreasing (fun _ _ _ _ _ => trivial)
    (toRead_lt content chunkSize body) trivial reads h
  have hstart : toRead content body.start ≤ content.length + 1 := by
    cases body <;> simp [toRead, Body.start]
  omega

lemma exists_sends (content : List UInt8) (chunkSize : ℕ) (body : Body) :
    ∃ chunks, Sends content chunkSize body chunks := by
  obtain ⟨reads, t, ht, hend⟩ := exists_terminal (fun _ _ _ _ _ => trivial)
    (toRead_lt content chunkSize body) (s := body.start) trivial
  exact ⟨t.chunks, reads, t, ht, hend, rfl⟩

theorem fullFile_delivers (hchunk : 0 < chunkSize) :
    Delivers content chunkSize .fullFile content := by
  refine ⟨fun reads t => stops_of_start, exists_sends _ _ _, ?_⟩
  rintro chunks ⟨reads, t, ht, hend, rfl⟩
  have hstart : FullInv content Body.fullFile.start := ⟨rfl, rfl, by simp [Body.start]⟩
  have hi : FullInv content t :=
    (reach_of_exec reads ht).invariant hstart fun _ _ _ hs _ h => fullInv_step hs h
  exact full_of_terminal hchunk hi hend

theorem byteRange_delivers (hchunk : 0 < chunkSize) (hr : Inside content r) :
    Delivers content chunkSize (.byteRange r) (slice content r) := by
  refine ⟨fun reads t => stops_of_start, exists_sends _ _ _, ?_⟩
  rintro chunks ⟨reads, t, ht, hend, rfl⟩
  have hnonneg : 0 ≤ r.length := by
    have hordered := hr.ordered
    rw [ByteRange.length]
    omega
  have hstart : RangeInv content r (Body.byteRange r).start :=
    ⟨rfl, rfl, by simp [Body.start], hnonneg, rfl⟩
  have hi : RangeInv content r t :=
    (reach_of_exec reads ht).invariant hstart fun _ _ _ hs _ h => rangeInv_step hr hs h
  exact (range_of_terminal hchunk hi hend).1

lemma slice_length (hr : Inside content r) : ((slice content r).length : ℤ) = r.length := by
  obtain ⟨hnonneg, hordered, hwithin, -⟩ := hr
  simp only [slice, List.length_take, List.length_drop, ByteRange.length]
  omega

lemma slice_append_drop (hr : Inside content r) :
    slice content r ++ content.drop (r.end_ + 1).toNat = content.drop r.start.toNat := by
  obtain ⟨hnonneg, hordered, hwithin, -⟩ := hr
  have hnext : (r.end_ + 1).toNat = r.start.toNat + r.length.toNat := by
    rw [ByteRange.length]
    omega
  rw [hnext, ← List.drop_drop]
  exact List.take_append_drop _ _

lemma seekableResponse_of_range {header : String}
    (h : parseRange header content.length = .ok r) :
    seekableResponse mediaType content (some header) = .ok {
      statusCode := 206
      mediaType
      headers := [("Content-Range", contentRange r), ("Content-Length", toString r.length),
        ("Accept-Ranges", "bytes")]
      body := .byteRange r } := by
  simp [seekableResponse, h, bind, Except.bind, pure, Except.pure]

lemma flatten_of_splits (hchunk : 0 < chunkSize) {start : ℤ} {headers : List String}
    {bodies : List (List (List UInt8))} (hsplits : Splits content.length start headers)
    (hsent : SendsAll mediaType content chunkSize headers bodies) :
    (bodies.map List.flatten).flatten = content.drop start.toNat := by
  induction hsplits generalizing bodies with
  | done =>
    cases hsent
    simp
  | next hparsed _ ih =>
    cases hsent with
    | cons hanswered hsent hrest =>
      have hr := inside_of_parseRange hparsed
      rw [seekableResponse_of_range hparsed] at hanswered
      obtain rfl := Except.ok.inj hanswered
      have hslice := (byteRange_delivers hchunk hr).whole _ hsent
      rw [List.map_cons, List.flatten_cons, hslice, ih hrest]
      exact slice_append_drop hr

/-- Both streaming endpoints send the whole file when no range is asked for. -/
theorem progressiveResponse_delivers (mediaType : String) (content : List UInt8)
    (hchunk : 0 < chunkSize) :
    Delivers content chunkSize (progressiveResponse mediaType content).body content :=
  fullFile_delivers hchunk

/-- Without a range the whole file is sent; a range that the parser accepts lies in the file, and
exactly its bytes are sent, as many as the headers say. Ranges that split the file add up to it. -/
theorem seekableResponse_delivers (mediaType : String) (content : List UInt8)
    (hchunk : 0 < chunkSize) :
    (∃ response, seekableResponse mediaType content none = .ok response ∧
      response.statusCode = 200 ∧ ("Content-Length", toString content.length) ∈ response.headers ∧
      Delivers content chunkSize response.body content) ∧
    (∀ header r, parseRange header content.length = .ok r →
      Inside content r ∧ ((slice content r).length : ℤ) = r.length ∧
      ∃ response, seekableResponse mediaType content (some header) = .ok response ∧
        response.statusCode = 206 ∧ ("Content-Length", toString r.length) ∈ response.headers ∧
        ("Content-Range", contentRange r) ∈ response.headers ∧
        Delivers content chunkSize response.body (slice content r)) ∧
    ∀ headers bodies, Splits content.length 0 headers →
      SendsAll mediaType content chunkSize headers bodies →
      (bodies.map List.flatten).flatten = content := by
  refine ⟨⟨_, rfl, rfl, by simp, fullFile_delivers hchunk⟩, fun header r hparsed => ?_,
    fun headers bodies hsplits hsent => ?_⟩
  · have hr := inside_of_parseRange hparsed
    exact ⟨hr, slice_length hr, _, seekableResponse_of_range hparsed, rfl, by simp, by simp,
      byteRange_delivers hchunk hr⟩
  · exact flatten_of_splits hchunk hsplits hsent

/-- Two ranges of five bytes, sent by two reads and by one and two again. -/
theorem seekableResponse_delivers_twoRanges :
    ∃ bodies, SendsAll "audio/mpeg" [1, 2, 3, 4, 5] 2 ["bytes=0-1", "bytes=2-"] bodies ∧
      (bodies.map List.flatten).flatten = [1, 2, 3, 4, 5] := by
  have hfirst : parseRange "bytes=0-1" 5 = .ok ⟨0, 1, 5⟩ := by decide +kernel
  have hlast : parseRange "bytes=2-" 5 = .ok ⟨2, 4, 5⟩ := by decide +kernel
  have hsplits : Splits 5 0 ["bytes=0-1", "bytes=2-"] := .next hfirst (.next hlast .done)
  have hsent : SendsAll "audio/mpeg" [1, 2, 3, 4, 5] 2 ["bytes=0-1", "bytes=2-"]
      [[[1], [2]], [[3], [4, 5]]] :=
    .cons (seekableResponse_of_range hfirst) ⟨[1, 1], _, rfl, fun _ => rfl, rfl⟩
      (.cons (seekableResponse_of_range hlast) ⟨[1, 2], _, rfl, fun _ => rfl, rfl⟩ .nil)
  exact ⟨_, hsent, (seekableResponse_delivers "audio/mpeg" [1, 2, 3, 4, 5] (by decide)).2.2 _ _
    hsplits hsent⟩

end AsyncDataHub.Media
