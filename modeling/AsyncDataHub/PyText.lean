import Mathlib

/-! Python's text functions on lists of characters: `strip`, `partition`, `int` and `in`. -/
namespace AsyncDataHub.PyText

/-- `str.isspace` of one character. -/
def isSpace (c : Char) : Bool :=
  let n := c.toNat
  (9 ≤ n && n ≤ 13) || (28 ≤ n && n ≤ 32) || n = 0x85 || n = 0xa0 || n = 0x1680 ||
    (0x2000 ≤ n && n ≤ 0x200a) || n = 0x2028 || n = 0x2029 || n = 0x202f || n = 0x205f ||
    n = 0x3000

def stripBy (space : Char → Bool) (s : List Char) : List Char :=
  (s.dropWhile space).rdropWhile space

def strip : List Char → List Char := stripBy isSpace

/-- `partition` at one character: what is before the first one and, if there is one, what is
after it. -/
def partition (sep : Char) (s : List Char) : List Char × Option (List Char) :=
  (s.takeWhile (· ≠ sep), (s.dropWhile (· ≠ sep)).tail?)

/-- The zeros of the decimal digits of Unicode 15; the other nine follow each of them. -/
def decimalZeros : List ℕ :=
  [0x30, 0x660, 0x6f0, 0x7c0, 0x966, 0x9e6, 0xa66, 0xae6, 0xb66, 0xbe6, 0xc66, 0xce6, 0xd66,
    0xde6, 0xe50, 0xed0, 0xf20, 0x1040, 0x1090, 0x17e0, 0x1810, 0x1946, 0x19d0, 0x1a80, 0x1a90,
    0x1b50, 0x1bb0, 0x1c40, 0x1c50, 0xa620, 0xa8d0, 0xa900, 0xa9d0, 0xa9f0, 0xaa50, 0xabf0,
    0xff10, 0x104a0, 0x10d30, 0x11066, 0x110f0, 0x11136, 0x111d0, 0x112f0, 0x11450, 0x114d0,
    0x11650, 0x116c0, 0x11730, 0x118e0, 0x11950, 0x11c50, 0x11d50, 0x11da0, 0x11f50, 0x16a60,
    0x16ac0, 0x16b50, 0x1d7ce, 0x1d7d8, 0x1d7e2, 0x1d7ec, 0x1d7f6, 0x1e140, 0x1e2f0, 0x1e4f0,
    0x1e950, 0x1fbf0]

/-- The value of a decimal digit in any script. -/
def decimal (c : Char) : Option ℕ :=
  (decimalZeros.find? fun first => first ≤ c.toNat && c.toNat ≤ first + 9).map (c.toNat - ·)

/-- What `int` skips around a number. -/
def intSpace (c : Char) : Bool :=
  (9 ≤ c.toNat && c.toNat ≤ 13) || c.toNat = 32 || (128 ≤ c.toNat && isSpace c)

/-- Digits, with single underscores between them; `afterDigit` tells that one has just been read. -/
def scanDigits : Bool → List Char → Option (List ℕ)
  | afterDigit, [] => if afterDigit then some [] else none
  | afterDigit, c :: rest =>
    if c = '_' then if afterDigit then scanDigits false rest else none
    else (decimal c).bind fun d => (scanDigits true rest).map (d :: ·)

/-- `sys.get_int_max_str_digits()`. -/
def maxStrDigits : ℕ := 4300

def ofDigits (digits : List ℕ) : ℕ := digits.foldl (fun n d => 10 * n + d) 0

def unsigned (s : List Char) : Option ℤ :=
  (scanDigits false s).bind fun digits =>
    if digits.length ≤ maxStrDigits then some (ofDigits digits) else none

/-- `int(s)`; `none` is a `ValueError`. -/
def int (s : List Char) : Option ℤ :=
  match stripBy intSpace s with
  | '+' :: digits => unsigned digits
  | '-' :: digits => (unsigned digits).map (- ·)
  | digits => unsigned digits

/-- `name in text`. -/
def Mentions (text name : String) : Prop := name.toList <:+: text.toList

instance (text name : String) : Decidable (Mentions text name) :=
  inferInstanceAs (Decidable (name.toList <:+: text.toList))

section Separated
variable {α : Type*} {name before after : List α} {x : α}

lemma infix_append_cons (hx : x ∉ name) :
    name <:+: before ++ x :: after ↔ name <:+: before ∨ name <:+: after := by
  constructor
  · rintro ⟨start, rest, h⟩
    rw [List.append_assoc] at h
    rcases List.append_eq_append_iff.mp h with ⟨middle, rfl, hname⟩ | ⟨middle, rfl, hafter⟩
    · rcases List.append_eq_append_iff.mp hname with ⟨last, rfl, -⟩ | ⟨last, rfl, hcross⟩
      · exact .inl ⟨start, last, by simp⟩
      · cases last with
        | nil => exact .inl ⟨start, [], by simp⟩
        | cons y last =>
          obtain rfl := (List.cons.inj hcross).1
          simp at hx
    · cases middle with
      | nil =>
        cases name with
        | nil => exact .inr List.nil_infix
        | cons y name =>
          obtain rfl := (List.cons.inj hafter).1
          simp at hx
      | cons y middle =>
        obtain rfl := (List.cons.inj hafter).2
        exact .inr ⟨middle, rest, by simp⟩
  · rintro (h | h)
    · exact h.trans (List.prefix_append _ _).isInfix
    · exact h.trans ((List.suffix_cons x after).trans (List.suffix_append _ _)).isInfix

end Separated

lemma mentions_parenthesized {before key after name : String} (hopen : '(' ∉ name.toList)
    (hclose : ')' ∉ name.toList) : Mentions (before ++ "(" ++ key ++ ")" ++ after) name ↔
      Mentions before name ∨ Mentions key name ∨ Mentions after name := by
  have htext : (before ++ "(" ++ key ++ ")" ++ after).toList =
      before.toList ++ '(' :: (key.toList ++ ')' :: after.toList) := by
    simp [String.toList_append]
  unfold Mentions
  rw [htext, infix_append_cons hopen, infix_append_cons hclose]

theorem partition_eq_some {sep : Char} {s before after : List Char} :
    partition sep s = (before, some after) ↔ s = before ++ sep :: after ∧ sep ∉ before := by
  unfold partition
  constructor
  · intro h
    obtain ⟨hbefore, htail⟩ := Prod.mk.inj h
    have hsep : sep ∉ before := by
      intro hmem
      rw [← hbefore] at hmem
      have hne := List.mem_takeWhile_imp hmem
      simp at hne
    cases hrest : s.dropWhile (· ≠ sep) with
    | nil =>
      rw [hrest] at htail
      cases htail
    | cons c rest =>
      have hc : c = sep := by
        have hhead := List.head?_dropWhile_not (· ≠ sep) s
        rw [hrest] at hhead
        simpa using hhead
      have hsplit := List.takeWhile_append_dropWhile (p := (· ≠ sep)) (l := s)
      rw [hrest, List.tail?_cons, Option.some.injEq] at htail
      rw [hbefore, hrest, hc, htail] at hsplit
      exact ⟨hsplit.symm, hsep⟩
  · rintro ⟨rfl, hsep⟩
    have hall : ∀ c ∈ before, (decide (c ≠ sep)) = true := by
      intro c hc
      have hne : c ≠ sep := fun h => hsep (h ▸ hc)
      simpa using hne
    rw [List.takeWhile_append_of_pos hall, List.dropWhile_append_of_pos hall]
    simp

def IsDigits (s : List Char) : Prop := s ≠ [] ∧ ∀ c ∈ s, c.isDigit = true

instance (s : List Char) : Decidable (IsDigits s) := inferInstanceAs (Decidable (_ ∧ _))

def digitsValue (s : List Char) : ℕ := ofDigits (s.map fun c => c.toNat - 48)

variable {c sep : Char} {s t : List Char} {space : Char → Bool}

lemma toNat_of_isDigit (h : c.isDigit = true) : 48 ≤ c.toNat ∧ c.toNat ≤ 57 := by
  simpa [Char.isDigit, UInt32.le_iff_toNat_le] using h

lemma isSpace_eq_false (h : c.isDigit = true) : isSpace c = false := by
  obtain ⟨hlo, hhi⟩ := toNat_of_isDigit h
  simp only [isSpace, Bool.or_eq_false_iff, Bool.and_eq_false_iff, decide_eq_false_iff_not]
  omega

lemma intSpace_eq_false (h : c.isDigit = true) : intSpace c = false := by
  obtain ⟨hlo, hhi⟩ := toNat_of_isDigit h
  simp only [intSpace, isSpace_eq_false h, Bool.and_false, Bool.or_false, Bool.or_eq_false_iff,
    Bool.and_eq_false_iff, decide_eq_false_iff_not]
  omega

lemma decimal_of_isDigit (h : c.isDigit = true) : decimal c = some (c.toNat - 48) := by
  obtain ⟨hlo, hhi⟩ := toNat_of_isDigit h
  have hfirst : decimalZeros.find? (fun first => first ≤ c.toNat && c.toNat ≤ first + 9) =
      some 48 := List.find?_cons_of_pos (by simp; omega)
  rw [decimal, hfirst]
  rfl

lemma stripBy_eq_self (h : ∀ c ∈ s, space c = false) : stripBy space s = s := by
  cases s with
  | nil => rfl
  | cons c rest =>
    have hdrop : (c :: rest).dropWhile space = c :: rest := by simp [h c (by simp)]
    have hlast : space ((c :: rest).getLast (by simp)) = false := h _ (List.getLast_mem _)
    rw [stripBy, hdrop, List.rdropWhile_eq_self_iff]
    intro _
    simp [hlast]

lemma scanDigits_of_isDigit {afterDigit : Bool} (hne : afterDigit = true ∨ s ≠ [])
    (h : ∀ c ∈ s, c.isDigit = true) :
    scanDigits afterDigit s = some (s.map fun c => c.toNat - 48) := by
  induction s generalizing afterDigit with
  | nil =>
    obtain rfl : afterDigit = true := hne.resolve_right (by simp)
    rfl
  | cons c rest ih =>
    have hc : c.isDigit = true := h c (by simp)
    have hunderscore : c ≠ '_' := by
      rintro rfl
      cases hc
    simp [scanDigits, hunderscore, decimal_of_isDigit hc,
      ih (.inl rfl) fun d hd => h d (List.mem_cons_of_mem c hd)]

theorem int_of_isDigits (h : IsDigits s) :
    int s = if s.length ≤ maxStrDigits then some (digitsValue s : ℤ) else none := by
  obtain ⟨hne, hdigits⟩ := h
  have hstrip : stripBy intSpace s = s :=
    stripBy_eq_self fun c hc => intSpace_eq_false (hdigits c hc)
  have hscan : scanDigits false s = some (s.map fun c => c.toNat - 48) :=
    scanDigits_of_isDigit (.inr hne) hdigits
  have hunsigned : unsigned s =
      if s.length ≤ maxStrDigits then some (digitsValue s : ℤ) else none := by
    simp [unsigned, hscan, digitsValue]
  unfold int
  rw [hstrip]
  split
  · cases hdigits '+' (by simp)
  · cases hdigits '-' (by simp)
  · exact hunsigned

end AsyncDataHub.PyText
