import AsyncDataHub.JsonText

/-! The scanner behind loads, and that it reads back every text dumps writes. -/
namespace AsyncDataHub.PyJson

def hexVal (c : Char) : Option ℕ :=
  if '0' ≤ c ∧ c ≤ '9' then some (c.toNat - 48)
  else if 'a' ≤ c ∧ c ≤ 'f' then some (c.toNat - 87)
  else if 'A' ≤ c ∧ c ≤ 'F' then some (c.toNat - 55)
  else none

def scanHex4 : List Char → Option (ℕ × List Char)
  | a :: b :: c :: d :: rest => do
    let a ← hexVal a
    let b ← hexVal b
    let c ← hexVal c
    let d ← hexVal d
    some (((a * 16 + b) * 16 + c) * 16 + d, rest)
  | _ => none

/-- A `\u` escape after its `u`. Two surrogates in a row are one character; a surrogate that
stands alone has no `Char` and is refused here. -/
def scanUnicode (cs : List Char) : Option (Char × List Char) := do
  let (hi, rest) ← scanHex4 cs
  if 0xd800 ≤ hi ∧ hi < 0xdc00 then
    match rest with
    | '\\' :: 'u' :: rest => do
      let (lo, rest) ← scanHex4 rest
      if 0xdc00 ≤ lo ∧ lo < 0xe000 then
        some (Char.ofNat (0x10000 + (hi - 0xd800) * 0x400 + (lo - 0xdc00)), rest)
      else none
    | _ => none
  else if 0xdc00 ≤ hi ∧ hi < 0xe000 then none
  else some (Char.ofNat hi, rest)

def scanEscape : List Char → Option (Char × List Char)
  | [] => none
  | c :: rest =>
    if c = '"' ∨ c = '\\' ∨ c = '/' then some (c, rest)
    else if c = 'n' then some ('\n', rest)
    else if c = 'r' then some ('\r', rest)
    else if c = 't' then some ('\t', rest)
    else if c = 'f' then some ('\x0c', rest)
    else if c = 'b' then some ('\x08', rest)
    else if c = 'u' then scanUnicode rest
    else none

/-- A string literal after its opening quote. Control characters are refused (strict mode). -/
def scanString : ℕ → List Char → Option (List Char × List Char)
  | 0, _ => none
  | _ + 1, [] => none
  | n + 1, c :: rest =>
    if c = '"' then some ([], rest)
    else if c = '\\' then do
      let (d, rest) ← scanEscape rest
      let (ds, rest) ← scanString n rest
      some (d :: ds, rest)
    else if c.toNat < 32 then none
    else do
      let (ds, rest) ← scanString n rest
      some (c :: ds, rest)

def scanWhole : List Char → Option (ℕ × List Char)
  | '0' :: rest => some (0, rest)
  | cs =>
    if cs.takeWhile Char.isDigit = [] then none
    else some (Nat.ofDigitChars 10 (cs.takeWhile Char.isDigit) 0, cs.dropWhile Char.isDigit)

/-- The digits after the point; without a digit the point is not part of the number. -/
def scanFraction (cs : List Char) : List Char × List Char :=
  match cs with
  | '.' :: rest => if (rest.takeWhile Char.isDigit) = [] then ([], cs) else
      (rest.takeWhile Char.isDigit, rest.dropWhile Char.isDigit)
  | _ => ([], cs)

/-- The sign of an exponent, a minus or not, and what follows it. -/
def scanSign : List Char → Bool × List Char
  | '-' :: rest => (true, rest)
  | '+' :: rest => (false, rest)
  | cs => (false, cs)

lemma isDigit_of_mem_takeWhile (cs : List Char) : ∀ c ∈ cs.takeWhile Char.isDigit, c.isDigit :=
  fun _ hc => List.mem_takeWhile_imp hc

def scanExponent (cs : List Char) : Option Exponent × List Char :=
  match cs with
  | [] => (none, cs)
  | c :: rest =>
    if c = 'e' ∨ c = 'E' then
      let (negative, rest) := scanSign rest
      if h : rest.takeWhile Char.isDigit = [] then (none, cs)
      else (some ⟨negative, rest.takeWhile Char.isDigit, h, isDigit_of_mem_takeWhile rest⟩,
        rest.dropWhile Char.isDigit)
    else (none, cs)

lemma scanFraction_isDigit (cs : List Char) : ∀ c ∈ (scanFraction cs).1, c.isDigit := by
  unfold scanFraction
  split
  · split_ifs
    · simp
    · exact isDigit_of_mem_takeWhile _
  · simp

/-- A number without fraction and exponent is an int, any other one a float. -/
def makeNumber (negative : Bool) (whole : ℕ) (cs : List Char) : Json × List Char :=
  let rest := (scanFraction cs).2
  if h : (scanFraction cs).1 ≠ [] ∨ (scanExponent rest).1.isSome then
    (.float ⟨negative, whole, (scanFraction cs).1, (scanExponent rest).1,
      scanFraction_isDigit cs, h⟩, (scanExponent rest).2)
  else (.int (if negative then -(whole : ℤ) else whole), cs)

def scanNumber : List Char → Option (Json × List Char)
  | '-' :: rest => (scanWhole rest).map fun p => makeNumber true p.1 p.2
  | cs => (scanWhole cs).map fun p => makeNumber false p.1 p.2

def isBlank (c : Char) : Bool := c = ' ' || c = '\t' || c = '\n' || c = '\r'

def skipBlanks (cs : List Char) : List Char := cs.dropWhile isBlank

def scanAtom : List Char → Option (Json × List Char)
  | 'n' :: 'u' :: 'l' :: 'l' :: rest => some (.null, rest)
  | 't' :: 'r' :: 'u' :: 'e' :: rest => some (.bool true, rest)
  | 'f' :: 'a' :: 'l' :: 's' :: 'e' :: rest => some (.bool false, rest)
  | cs => scanNumber cs

mutual
/-- One value. The first argument bounds the depth of the recursion; the length of the text is
always enough. -/
def scanValue : ℕ → List Char → Option (Json × List Char)
  | 0, _ => none
  | _ + 1, [] => none
  | n + 1, c :: rest =>
    if c = '"' then (scanString (rest.length + 1) rest).map fun p => (.str (String.ofList p.1), p.2)
    else if c = '[' then
      match skipBlanks rest with
      | ']' :: rest => some (.arr [], rest)
      | cs => (scanItems n cs).map fun p => (.arr p.1, p.2)
    else if c = '{' then
      match skipBlanks rest with
      | '}' :: rest => some (.obj [], rest)
      | cs => (scanMembers n cs).map fun p => (.obj (dictOf p.1), p.2)
    else scanAtom (c :: rest)

def scanItems : ℕ → List Char → Option (List Json × List Char)
  | 0, _ => none
  | n + 1, cs => do
    let (x, rest) ← scanValue n cs
    match skipBlanks rest with
    | ']' :: rest => some ([x], rest)
    | ',' :: rest => (scanItems n (skipBlanks rest)).map fun p => (x :: p.1, p.2)
    | _ => none

def scanMembers : ℕ → List Char → Option (List (String × Json) × List Char)
  | 0, _ => none
  | _ + 1, [] => none
  | n + 1, c :: cs =>
    if c = '"' then do
      let (k, rest) ← scanString (cs.length + 1) cs
      match skipBlanks rest with
      | ':' :: rest => do
        let (v, rest) ← scanValue n (skipBlanks rest)
        match skipBlanks rest with
        | '}' :: rest => some ([(String.ofList k, v)], rest)
        | ',' :: rest =>
          (scanMembers n (skipBlanks rest)).map fun p => ((String.ofList k, v) :: p.1, p.2)
        | _ => none
      | _ => none
    else none
end

/-- `json.loads(text)`; `none` is a JSONDecodeError. -/
def loads (s : String) : Option Json :=
  match scanValue s.toList.length (skipBlanks s.toList) with
  | some (j, rest) => if skipBlanks rest = [] then some j else none
  | none => none

lemma scanHex4_length {cs rest : List Char} {n : ℕ} (h : scanHex4 cs = some (n, rest)) :
    rest.length < cs.length := by
  unfold scanHex4 at h
  split at h
  · simp only [Option.bind_eq_bind, Option.bind_eq_some_iff, Option.some.injEq, Prod.mk.injEq] at h
    obtain ⟨_, _, _, _, _, _, _, _, _, rfl⟩ := h
    simp only [List.length_cons]
    omega
  · cases h

lemma scanUnicode_length {cs rest : List Char} {c : Char} (h : scanUnicode cs = some (c, rest)) :
    rest.length < cs.length := by
  simp only [scanUnicode, Option.bind_eq_bind, Option.bind_eq_some_iff] at h
  obtain ⟨⟨hi, rest'⟩, hhi, h⟩ := h
  have hlt := scanHex4_length hhi
  split_ifs at h
  · split at h
    · rename_i heq
      have hrest : rest'.length = _ := congrArg List.length heq
      simp only [Option.bind_eq_some_iff] at h
      obtain ⟨⟨lo, rest''⟩, hlo, h⟩ := h
      have hlt' := scanHex4_length hlo
      split_ifs at h
      simp only [Option.some.injEq, Prod.mk.injEq] at h
      obtain ⟨_, rfl⟩ := h
      simp only [List.length_cons] at hrest
      omega
    · cases h
  · simp only [Option.some.injEq, Prod.mk.injEq] at h
    obtain ⟨_, rfl⟩ := h
    exact hlt

lemma scanEscape_length {cs rest : List Char} {c : Char} (h : scanEscape cs = some (c, rest)) :
    rest.length < cs.length := by
  cases cs with
  | nil => cases h
  | cons d ds =>
    simp only [scanEscape] at h
    split_ifs at h
    all_goals first
      | (cases h; exact Nat.lt_succ_self _)
      | exact (scanUnicode_length h).trans (Nat.lt_succ_self _)

lemma scanString_length {n : ℕ} {cs ds rest : List Char} (h : scanString n cs = some (ds, rest)) :
    ds.length + rest.length < cs.length := by
  induction n generalizing cs ds with
  | zero => cases h
  | succ n ih =>
    cases cs with
    | nil => cases h
    | cons c cs =>
      simp only [scanString, Option.bind_eq_bind] at h
      split_ifs at h
      · cases h
        simp
      · simp only [Option.bind_eq_some_iff] at h
        obtain ⟨⟨d, rest'⟩, hd, ⟨es, rest''⟩, hes, he⟩ := h
        cases he
        have hlt := scanEscape_length hd
        have hle := ih hes
        simp only [List.length_cons] at hle ⊢
        omega
      · simp only [Option.bind_eq_some_iff] at h
        obtain ⟨⟨es, rest''⟩, hes, he⟩ := h
        cases he
        have hle := ih hes
        simp only [List.length_cons] at hle ⊢
        omega

lemma makeNumber_ne_str (negative : Bool) (whole : ℕ) (cs : List Char) (s : String) :
    (makeNumber negative whole cs).1 ≠ .str s := by
  unfold makeNumber
  dsimp only
  split <;> simp

lemma scanAtom_ne_str (cs rest : List Char) (s : String) : scanAtom cs ≠ some (.str s, rest) := by
  intro h
  have hnumber {negative : Bool} {o : Option (ℕ × List Char)}
      (h : (o.map fun p => makeNumber negative p.1 p.2) = some (.str s, rest)) : False := by
    obtain ⟨p, _, hp⟩ := Option.map_eq_some_iff.mp h
    exact makeNumber_ne_str negative p.1 p.2 s (by rw [hp])
  unfold scanAtom at h
  split at h
  · cases h
  · cases h
  · cases h
  · unfold scanNumber at h
    split at h
    · exact hnumber h
    · exact hnumber h

lemma scanValue_str {n : ℕ} {cs rest : List Char} {s : String}
    (h : scanValue n cs = some (.str s, rest)) : s.length + rest.length < cs.length := by
  cases n with
  | zero => simp [scanValue] at h
  | succ n =>
    cases cs with
    | nil => simp [scanValue] at h
    | cons c cs =>
      simp only [scanValue] at h
      split_ifs at h
      · obtain ⟨⟨ds, rest'⟩, hds, he⟩ := Option.map_eq_some_iff.mp h
        simp only [Prod.mk.injEq, Json.str.injEq] at he
        obtain ⟨rfl, rfl⟩ := he
        have hlt := scanString_length hds
        simp only [String.length_ofList, List.length_cons]
        omega
      · split at h
        · cases h
        · obtain ⟨_, _, he⟩ := Option.map_eq_some_iff.mp h
          cases he
      · split at h
        · cases h
        · obtain ⟨_, _, he⟩ := Option.map_eq_some_iff.mp h
          cases he
      · exact absurd h (scanAtom_ne_str _ _ _)

/-- No text is the literal of itself. -/
theorem loads_ne_self (s : String) : loads s ≠ some (.str s) := by
  intro h
  unfold loads at h
  split at h
  · rename_i j rest hj
    split_ifs at h
    obtain rfl := Option.some.inj h
    have hskip : (skipBlanks s.toList).length ≤ s.toList.length :=
      (List.dropWhile_suffix _).length_le
    have hlt := scanValue_str hj
    rw [String.length_toList] at hskip
    omega
  · cases h

end AsyncDataHub.PyJson
