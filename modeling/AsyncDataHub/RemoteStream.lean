import AsyncDataHub.RemoteMedia
import AsyncDataHub.PyText

/-! The stream of a remote response: its length headers are the upstream's own, its chunks are what
`aiter_bytes` makes of the raw body. -/
namespace AsyncDataHub.Media
open PyText

/-- The chunks that an asynchronous iterator gives, and the exception that ends it, if one does. -/
structure Iteration where
  chunks : List (List UInt8)
  raised : Option String := none

def Iteration.total (i : Iteration) : Option ℕ :=
  if i.raised = none then some i.chunks.flatten.length else none

/-- Content decoding in httpx. However the body is cut into chunks, they add up to its decoded form,
and a body that cannot be decoded ends the iteration with an exception. -/
structure Httpx where
  decode : Option String → List UInt8 → Except String (List UInt8)
  aiterBytes : Upstream → List UInt8 → ℕ → Iteration
  decoded {upstream raw bytes} (size : ℕ)
    (ok : decode (upstream.headers "Content-Encoding") raw = .ok bytes) :
    (aiterBytes upstream raw size).raised = none ∧
      (aiterBytes upstream raw size).chunks.flatten = bytes
  undecoded {upstream raw text} (size : ℕ)
    (error : decode (upstream.headers "Content-Encoding") raw = .error text) :
    (aiterBytes upstream raw size).raised = some text

/-- The loop of `_stream_remote_response`: empty chunks are not sent on. -/
def nonempty : List (List UInt8) → List (List UInt8)
  | [] => []
  | chunk :: rest => if chunk = [] then nonempty rest else chunk :: nonempty rest

def streamRemoteResponse (httpx : Httpx) (upstream : Upstream) (raw : List UInt8) (size : ℕ) :
    Iteration :=
  let iteration := httpx.aiterBytes upstream raw size
  { iteration with chunks := nonempty iteration.chunks }

def DeclaresLength (value : String) (n : ℕ) : Prop :=
  IsDigits value.toList ∧ digitsValue value.toList = n

/-- `bytes a-b/t`, where `t` may be an asterisk. -/
def DeclaresRange (value : String) (a b : ℕ) : Prop :=
  ∃ first last total, value.toList = "bytes ".toList ++ first ++ '-' :: last ++ '/' :: total ∧
    IsDigits first ∧ IsDigits last ∧ (IsDigits total ∨ total = ['*']) ∧
    digitsValue first = a ∧ digitsValue last = b

/-- A body of `total` bytes has the length that each header declares. -/
structure Consistent (headers : String → Option String) (total : Option ℕ) : Prop where
  length : ∀ value n, headers "Content-Length" = some value → DeclaresLength value n →
    total = some n
  range : ∀ value a b, headers "Content-Range" = some value → DeclaresRange value a b →
    ∃ n : ℕ, total = some n ∧ (n : ℤ) = b - a + 1

def Declares (headers : String → Option String) : Prop :=
  (∃ value n, headers "Content-Length" = some value ∧ DeclaresLength value n) ∨
    ∃ value a b, headers "Content-Range" = some value ∧ DeclaresRange value a b

/-- Decoding gives as many bytes as the raw body has. -/
def KeepsLength (httpx : Httpx) (upstream : Upstream) (raw : List UInt8) : Prop :=
  ∃ bytes, httpx.decode (upstream.headers "Content-Encoding") raw = .ok bytes ∧
    bytes.length = raw.length

variable {httpx : Httpx} {upstream : Upstream} {raw : List UInt8} {size : ℕ}
  {headers : String → Option String} {total total' : Option ℕ}

lemma flatten_nonempty (chunks : List (List UInt8)) :
    (nonempty chunks).flatten = chunks.flatten := by
  induction chunks with
  | nil => rfl
  | cons chunk rest ih =>
    unfold nonempty
    split_ifs with hempty
    · simp [hempty, ih]
    · simp [ih]

/-- The stream has the length of the raw body exactly if decoding keeps it. -/
lemma total_stream : (streamRemoteResponse httpx upstream raw size).total = some raw.length ↔
    KeepsLength httpx upstream raw := by
  unfold KeepsLength
  cases hdecode : httpx.decode (upstream.headers "Content-Encoding") raw with
  | error text =>
    have hraised := httpx.undecoded size hdecode
    simp [Iteration.total, streamRemoteResponse, hraised]
  | ok bytes =>
    obtain ⟨hraised, hflatten⟩ := httpx.decoded size hdecode
    simp [Iteration.total, streamRemoteResponse, hraised, flatten_nonempty, hflatten]

lemma Consistent.unique (h : Consistent headers total) (h' : Consistent headers total')
    (hd : Declares headers) : total = total' := by
  rcases hd with ⟨value, n, hvalue, hn⟩ | ⟨value, a, b, hvalue, hab⟩
  · rw [h.length value n hvalue hn, h'.length value n hvalue hn]
  · obtain ⟨k, rfl, hk⟩ := h.range value a b hvalue hab
    obtain ⟨k', rfl, hk'⟩ := h'.range value a b hvalue hab
    rw [Option.some.injEq]
    omega

lemma consistent_of_not_declares (hd : ¬ Declares headers) : Consistent headers total :=
  ⟨fun value n hvalue hn => absurd (.inl ⟨value, n, hvalue, hn⟩) hd,
    fun value a b hvalue hab => absurd (.inr ⟨value, a, b, hvalue, hab⟩) hd⟩

def forwardedHeaders (upstream : Upstream) : List (String × String) :=
  (remoteResponseHeaders upstream).filter (·.1 ≠ "Content-Type")

lemma lookup_headers (upstream : Upstream) :
    (forwardedHeaders upstream).lookup "Content-Length" = upstream.headers "Content-Length" ∧
      (forwardedHeaders upstream).lookup "Content-Range" = upstream.headers "Content-Range" := by
  cases hlength : upstream.headers "Content-Length" <;>
    cases hrange : upstream.headers "Content-Range" <;>
    cases htype : upstream.headers "Content-Type" <;>
    cases haccept : upstream.headers "Accept-Ranges" <;>
    simp [forwardedHeaders, remoteResponseHeaders, List.lookup, hlength, hrange, htype, haccept]

lemma answer_of_status (hstatus : upstream.statusCode = 200 ∨ upstream.statusCode = 206) :
    answer upstream = .ok {
      statusCode := upstream.statusCode
      mediaType := mediaType upstream
      headers := forwardedHeaders upstream } := by
  rcases hstatus with h | h <;> simp [answer, h, forwardedHeaders]

lemma consistent_lookup : Consistent ((forwardedHeaders upstream).lookup ·) total ↔
    Consistent upstream.headers total := by
  obtain ⟨hlength, hrange⟩ := lookup_headers upstream
  constructor
  · rintro ⟨hl, hr⟩
    exact ⟨by simpa only [hlength] using hl, by simpa only [hrange] using hr⟩
  · rintro ⟨hl, hr⟩
    exact ⟨by simpa only [hlength] using hl, by simpa only [hrange] using hr⟩

/-- The stream has the length that the response's headers declare exactly if they declare none, or
decoding keeps the length of the body. -/
theorem consistent_iff_keepsLength (httpx : Httpx) (upstream : Upstream) (raw : List UInt8)
    (size : ℕ) (hstatus : upstream.statusCode = 200 ∨ upstream.statusCode = 206)
    (hraw : Consistent upstream.headers (some raw.length)) :
    (∃ response, answer upstream = .ok response ∧ Consistent (response.headers.lookup ·)
      (streamRemoteResponse httpx upstream raw size).total) ↔
    (Declares upstream.headers → KeepsLength httpx upstream raw) := by
  simp only [answer_of_status hstatus, Except.ok.injEq, exists_eq_left', consistent_lookup]
  constructor
  · intro h hd
    exact total_stream.mp (h.unique hraw hd)
  · intro h
    by_cases hd : Declares upstream.headers
    · exact (total_stream.mpr (h hd)).symm ▸ hraw
    · exact consistent_of_not_declares hd

/-- Forty times the letter a, compressed. -/
def compressed : List UInt8 :=
  [31, 139, 8, 0, 0, 0, 0, 0, 2, 3, 75, 76, 36, 14, 0, 0, 37, 138, 91, 201, 40, 0, 0, 0]

def demoDecode (encoding : Option String) (raw : List UInt8) : Except String (List UInt8) :=
  if encoding = some "gzip" then
    if raw = compressed then .ok (List.replicate 40 97) else .error "incorrect header check"
  else .ok raw

/-- One chunk for the whole body. -/
def demoHttpx : Httpx where
  decode := demoDecode
  aiterBytes upstream raw _ :=
    match demoDecode (upstream.headers "Content-Encoding") raw with
    | .ok bytes => { chunks := [bytes] }
    | .error text => { chunks := [], raised := some text }
  decoded size ok := by simp [ok]
  undecoded size error := by simp [error]

def demoUpstream (encoding : Option String) : Upstream where
  statusCode := 200
  headers name :=
    if name = "Content-Encoding" then encoding
    else if name = "Content-Length" then some "24" else none

lemma demoLength : DeclaresLength "24" 24 :=
  ⟨by simp [IsDigits, Char.isDigit], rfl⟩

lemma demoUpstream_consistent (encoding : Option String) :
    Consistent (demoUpstream encoding).headers (some compressed.length) := by
  constructor
  · intro value n hvalue hn
    obtain rfl : "24" = value := by simpa [demoUpstream] using hvalue
    exact congrArg some (demoLength.2.symm.trans hn.2)
  · intro value a b hvalue
    simp [demoUpstream] at hvalue

theorem consistent_iff_keepsLength_identity :
    ∃ response, answer (demoUpstream none) = .ok response ∧ Consistent (response.headers.lookup ·)
      (streamRemoteResponse demoHttpx (demoUpstream none) compressed 65536).total :=
  (consistent_iff_keepsLength demoHttpx (demoUpstream none) compressed 65536 (.inl rfl)
    (demoUpstream_consistent none)).mpr fun _ => ⟨compressed, rfl, rfl⟩

/-- The headers announce the 24 bytes that came in, and 40 go out. -/
theorem gzip_length_differs : ¬ ∀ (httpx : Httpx) (upstream : Upstream) (raw : List UInt8)
    (size : ℕ), upstream.statusCode = 200 ∨ upstream.statusCode = 206 →
    Consistent upstream.headers (some raw.length) →
    ∃ response, answer upstream = .ok response ∧ Consistent (response.headers.lookup ·)
      (streamRemoteResponse httpx upstream raw size).total := by
  intro h
  obtain ⟨response, hanswer, hlength, -⟩ := h demoHttpx (demoUpstream (some "gzip")) compressed
    65536 (.inl rfl) (demoUpstream_consistent _)
  rw [answer_of_status (.inl rfl), Except.ok.injEq] at hanswer
  subst hanswer
  have hvalue := (lookup_headers (demoUpstream (some "gzip"))).1
  have htotal := hlength "24" 24 hvalue demoLength
  revert htotal
  decide +kernel

end AsyncDataHub.Media
