import AsyncDataHub.PyText

/-! The Range header of a media request: the parser, and the single byte ranges of the HTTP
grammar. -/
namespace AsyncDataHub.Media
open PyText

structure ByteRange where
  start : ℤ
  end_ : ℤ
  total : ℤ
  deriving DecidableEq

def ByteRange.length (r : ByteRange) : ℤ := r.end_ - r.start + 1

/-- An HTTP error with the headers of its response. -/
structure HTTPException where
  statusCode : ℕ
  detail : String
  headers : List (String × String) := []
  deriving DecidableEq

def invalidRange : HTTPException := { statusCode := 416, detail := "Invalid Range header" }

def multiRange : HTTPException := { statusCode := 416, detail := "Multi-range not supported" }

def outOfBounds (total : ℕ) : HTTPException where
  statusCode := 416
  detail := "Range out of bounds for size " ++ toString total
  headers := [("Content-Range", "bytes */" ++ toString total)]

def rangeUnit : List Char := "bytes=".toList

/-- The `try` block: the first and the last position; `none` is a `ValueError`. -/
def bounds (startStr endStr : List Char) (total : ℤ) : Option (ℤ × ℤ) :=
  if startStr = [] ∧ endStr ≠ [] then
    (int endStr).bind fun suffixLength =>
      if suffixLength ≤ 0 then none else some (max 0 (total - suffixLength), total - 1)
  else if startStr ≠ [] ∧ endStr = [] then (int startStr).map fun start => (start, total - 1)
  else if startStr ≠ [] ∧ endStr ≠ [] then
    (int startStr).bind fun start => (int endStr).map fun last => (start, min last (total - 1))
  else none

def parseRange (header : String) (total : ℕ) : Except HTTPException ByteRange :=
  if ¬ rangeUnit <+: header.toList then .error invalidRange
  else
    let spec := strip (header.toList.drop rangeUnit.length)
    if ',' ∈ spec then .error multiRange
    else
      match partition '-' spec with
      | (_, none) => .error invalidRange
      | (startStr, some endStr) =>
        match bounds startStr endStr total with
        | none => .error invalidRange
        | some (start, end_) =>
          if start < 0 ∨ start ≥ total ∨ end_ < start then .error (outOfBounds total)
          else .ok { start, end_, total }

/-- A single byte range in the grammar that the file can satisfy, with its first and last byte. -/
inductive Satisfies (total : ℕ) : List Char → ByteRange → Prop
  | closed {first last : List Char} (first_digits : IsDigits first) (last_digits : IsDigits last)
      (ordered : digitsValue first ≤ digitsValue last) (inside : digitsValue first < total) :
      Satisfies total (first ++ '-' :: last)
        ⟨digitsValue first, min (digitsValue last) (total - 1), total⟩
  | opened {first : List Char} (first_digits : IsDigits first)
      (inside : digitsValue first < total) :
      Satisfies total (first ++ ['-']) ⟨digitsValue first, total - 1, total⟩
  | last {suffix : List Char} (suffix_digits : IsDigits suffix) (positive : 0 < digitsValue suffix)
      (nonempty : 0 < total) :
      Satisfies total ('-' :: suffix)
        ⟨(total - min (digitsValue suffix) total : ℕ), total - 1, total⟩

def Accepts (header : String) (total : ℕ) (r : ByteRange) : Prop :=
  ∃ rest, header.toList = rangeUnit ++ rest ∧ Satisfies total (strip rest) r

/-- The parser returns the ranges of the grammar and answers 416 to every other header. -/
structure ParsesRanges (header : String) (total : ℕ) : Prop where
  accepts : ∀ r, parseRange header total = .ok r ↔ Accepts header total r
  refuses : ∀ e, parseRange header total = .error e → e.statusCode = 416

/-- A header with one dash between two parts, and no comma. -/
def Parts (header : String) (first last : List Char) : Prop :=
  ∃ rest, header.toList = rangeUnit ++ rest ∧ strip rest = first ++ '-' :: last ∧
    '-' ∉ first ∧ ',' ∉ strip rest

/-- A part of the grammar: nothing, or ASCII digits. -/
def Numeral (part : List Char) : Prop := part = [] ∨ IsDigits part

/-- What Python's `int` makes of a part that is there. -/
def number (part : List Char) : Option (Option ℤ) :=
  if part = [] then some none else (int part).map some

def value (part : List Char) : Option ℤ := if part = [] then none else some (digitsValue part)

/-- The numbers name bytes that the file has. -/
def InBounds (total : ℕ) : Option ℤ → Option ℤ → Prop
  | none, none => False
  | none, some suffix => 0 < suffix ∧ 0 < total
  | some first, none => 0 ≤ first ∧ first < total
  | some first, some last => 0 ≤ first ∧ first < total ∧ first ≤ last

/-- Some part is no numeral of the grammar, and `int` reads it: a sign, an underscore, white space
or digits of another script. -/
def Lax (header : String) (total : ℕ) : Prop :=
  ∃ first last a b, Parts header first last ∧ ¬ (Numeral first ∧ Numeral last) ∧
    number first = some a ∧ number last = some b ∧ InBounds total a b

/-- Some part is a numeral with more digits than `int` converts. -/
def TooLong (header : String) (total : ℕ) : Prop :=
  ∃ first last, Parts header first last ∧ Numeral first ∧ Numeral last ∧
    (maxStrDigits < first.length ∨ maxStrDigits < last.length) ∧
    InBounds total (value first) (value last)

/-- The bytes that the numbers name. -/
def resolved (total : ℕ) : Option ℤ → Option ℤ → ByteRange
  | none, none => ⟨0, total - 1, total⟩
  | none, some suffix => ⟨max 0 (total - suffix), total - 1, total⟩
  | some first, none => ⟨first, total - 1, total⟩
  | some first, some last => ⟨first, min last (total - 1), total⟩

variable {header : String} {total : ℕ} {first last first' last' part : List Char} {r : ByteRange}
  {a b : Option ℤ}

lemma parts_iff :
    Parts header first last ↔ rangeUnit <+: header.toList ∧
      ',' ∉ strip (header.toList.drop rangeUnit.length) ∧
      partition '-' (strip (header.toList.drop rangeUnit.length)) = (first, some last) := by
  rw [partition_eq_some]
  constructor
  · rintro ⟨rest, hrest, hsplit, hdash, hcomma⟩
    have hdrop : header.toList.drop rangeUnit.length = rest := by rw [hrest, List.drop_left]
    rw [hdrop]
    exact ⟨⟨rest, hrest.symm⟩, hcomma, hsplit, hdash⟩
  · rintro ⟨⟨rest, hrest⟩, hcomma, hsplit, hdash⟩
    have hdrop : header.toList.drop rangeUnit.length = rest := by rw [← hrest, List.drop_left]
    rw [hdrop] at hcomma hsplit
    exact ⟨rest, hrest.symm, hsplit, hdash, hcomma⟩

lemma Parts.unique (h : Parts header first last) (h' : Parts header first' last') :
    first = first' ∧ last = last' := by
  have hsplit := (parts_iff.mp h).2.2
  rw [(parts_iff.mp h').2.2, Prod.mk.injEq, Option.some.injEq] at hsplit
  exact ⟨hsplit.1.symm, hsplit.2.symm⟩

lemma bounds_eq_some_iff {start end_ : ℤ} :
    (bounds first last total = some (start, end_) ∧
      ¬ (start < 0 ∨ start ≥ total ∨ end_ < start)) ↔
      ∃ a b, number first = some a ∧ number last = some b ∧ InBounds total a b ∧
        resolved total a b = ⟨start, end_, total⟩ := by
  by_cases hfirst : first = []
  · by_cases hlast : last = []
    · simp [bounds, number, hfirst, hlast, InBounds]
    · cases hint : int last with
      | none => simp [bounds, number, hfirst, hlast, hint]
      | some suffix =>
        simp [bounds, number, hfirst, hlast, hint, InBounds, resolved]
        omega
  · cases hint : int first with
    | none => by_cases hlast : last = [] <;> simp [bounds, number, hfirst, hlast, hint]
    | some a =>
      by_cases hlast : last = []
      · simp [bounds, number, hfirst, hlast, hint, InBounds, resolved]
        omega
      · cases hint' : int last with
        | none => simp [bounds, number, hfirst, hlast, hint, hint']
        | some b =>
          simp [bounds, number, hfirst, hlast, hint, hint', InBounds, resolved]
          omega

lemma parseRange_eq_ok :
    parseRange header total = .ok r ↔ ∃ first last a b, Parts header first last ∧
      number first = some a ∧ number last = some b ∧ InBounds total a b ∧
        r = resolved total a b := by
  have hparts : parseRange header total = .ok r ↔ ∃ first last start end_,
      Parts header first last ∧ bounds first last total = some (start, end_) ∧
        ¬ (start < 0 ∨ start ≥ total ∨ end_ < start) ∧ r = ⟨start, end_, total⟩ := by
    simp only [parts_iff]
    unfold parseRange
    by_cases hunit : rangeUnit <+: header.toList
    · by_cases hcomma : ',' ∈ strip (header.toList.drop rangeUnit.length)
      · simp [hunit, hcomma]
      · rcases hsplit : partition '-' (strip (header.toList.drop rangeUnit.length)) with
          ⟨first, last⟩
        cases last with
        | none => simp [hunit, hcomma, hsplit]
        | some last =>
          cases hbounds : bounds first last total with
          | none => simp [hunit, hcomma, hsplit, hbounds]
          | some positions =>
            obtain ⟨start, end_⟩ := positions
            by_cases hcheck : start < 0 ∨ start ≥ total ∨ end_ < start
            · simp only [hunit, hcomma, hsplit, hbounds, hcheck, not_true_eq_false, if_false,
                if_true, reduceCtorEq, false_iff]
              rintro ⟨_, _, start', last', ⟨-, -, heq⟩, hbounds', hcheck', -⟩
              obtain ⟨rfl, hlast⟩ := Prod.mk.inj heq
              rw [← Option.some.inj hlast, hbounds, Option.some.injEq, Prod.mk.injEq] at hbounds'
              obtain ⟨rfl, rfl⟩ := hbounds'
              exact hcheck' hcheck
            · have hin : 0 ≤ start ∧ start < total ∧ start ≤ end_ := by omega
              simp [hunit, hcomma, hsplit, hbounds, hcheck, hin, eq_comm]
    · simp [hunit]
  rw [hparts]
  constructor
  · rintro ⟨first, last, start, end_, hp, hbounds, hcheck, rfl⟩
    obtain ⟨a, b, ha, hb, hin, hr⟩ := bounds_eq_some_iff.mp ⟨hbounds, hcheck⟩
    exact ⟨first, last, a, b, hp, ha, hb, hin, hr.symm⟩
  · rintro ⟨first, last, a, b, hp, ha, hb, hin, rfl⟩
    obtain ⟨start, end_, htotal⟩ : ∃ start end_, resolved total a b = ⟨start, end_, total⟩ := by
      cases a <;> cases b <;> exact ⟨_, _, rfl⟩
    obtain ⟨hbounds, hcheck⟩ := bounds_eq_some_iff.mpr ⟨a, b, ha, hb, hin, htotal⟩
    exact ⟨first, last, start, end_, hp, hbounds, hcheck, htotal⟩

lemma statusCode_of_error {e : HTTPException} (h : parseRange header total = .error e) :
    e.statusCode = 416 := by
  unfold parseRange at h
  dsimp only at h
  split_ifs at h
  · cases h
    rfl
  · split at h
    · cases h
      rfl
    · split at h
      · cases h
        rfl
      · split_ifs at h
        cases h
        rfl
  · cases h
    rfl

lemma number_of_numeral (h : Numeral part) :
    number part = if part.length ≤ maxStrDigits then some (value part) else none := by
  rcases h with rfl | hdigits
  · simp [number, value, maxStrDigits]
  · have hint := int_of_isDigits hdigits
    simp only [number, value, if_neg hdigits.1, hint]
    split_ifs <;> rfl

lemma not_mem_of_isDigits {c : Char} (hc : c.isDigit = false) (h : IsDigits part) : c ∉ part := by
  intro hmem
  rw [h.2 c hmem] at hc
  cases hc

lemma not_mem_of_numeral {c : Char} (hc : c.isDigit = false) (h : Numeral part) : c ∉ part := by
  rcases h with rfl | hdigits
  · simp
  · exact not_mem_of_isDigits hc hdigits

lemma satisfies_iff {spec : List Char} :
    Satisfies total spec r ↔ ∃ first last, spec = first ++ '-' :: last ∧ Numeral first ∧
      Numeral last ∧ InBounds total (value first) (value last) ∧
        r = resolved total (value first) (value last) := by
  constructor
  · intro h
    cases h with
    | closed hfirst hlast hle hlt =>
      refine ⟨_, _, rfl, .inr hfirst, .inr hlast, ?_, ?_⟩
      · simp only [value, if_neg hfirst.1, if_neg hlast.1, InBounds]
        omega
      · simp [value, hfirst.1, hlast.1, resolved]
    | opened hfirst hlt =>
      refine ⟨_, _, rfl, .inr hfirst, .inl rfl, ?_, ?_⟩
      · simp only [value, if_neg hfirst.1, if_true, InBounds]
        omega
      · simp [value, hfirst.1, resolved]
    | @last suffix hsuffix hpos hne =>
      refine ⟨[], suffix, rfl, .inl rfl, .inr hsuffix, ?_, ?_⟩
      · simp only [value, if_neg hsuffix.1, if_true, InBounds]
        omega
      · simp [value, hsuffix.1, resolved]
        omega
  · rintro ⟨first, last, rfl, rfl | hfirst, rfl | hlast, hin, rfl⟩
    · simp [value, InBounds] at hin
    · simp only [value, if_neg hlast.1, if_true, InBounds] at hin ⊢
      have hr : resolved total none (some (digitsValue last)) =
          ⟨(total - min (digitsValue last) total : ℕ), total - 1, total⟩ := by
        simp [resolved]
        omega
      rw [hr]
      exact .last hlast (by omega) hin.2
    · simp only [value, if_neg hfirst.1, if_true, InBounds] at hin ⊢
      exact .opened hfirst (by omega)
    · simp only [value, if_neg hfirst.1, if_neg hlast.1, InBounds] at hin ⊢
      exact .closed hfirst hlast (by omega) (by omega)

lemma accepts_iff :
    Accepts header total r ↔ ∃ first last, Parts header first last ∧ Numeral first ∧
      Numeral last ∧ InBounds total (value first) (value last) ∧
        r = resolved total (value first) (value last) := by
  constructor
  · rintro ⟨rest, hrest, hsat⟩
    obtain ⟨first, last, hsplit, hfirst, hlast, hin, hr⟩ := satisfies_iff.mp hsat
    refine ⟨first, last, ⟨rest, hrest, hsplit, not_mem_of_numeral rfl hfirst, ?_⟩, hfirst, hlast,
      hin, hr⟩
    rw [hsplit]
    simp [not_mem_of_numeral (c := ',') rfl hfirst, not_mem_of_numeral (c := ',') rfl hlast]
  · rintro ⟨first, last, ⟨rest, hrest, hsplit, -, -⟩, hfirst, hlast, hin, hr⟩
    exact ⟨rest, hrest, satisfies_iff.mpr ⟨first, last, hsplit, hfirst, hlast, hin, hr⟩⟩

/-- Parser and grammar agree on a header exactly if it is not one that `int` reads in its own way: a
part that is no numeral, or one with too many digits. -/
theorem parsesRanges_iff (header : String) (total : ℕ) :
    ParsesRanges header total ↔ ¬ Lax header total ∧ ¬ TooLong header total := by
  constructor
  · rintro ⟨haccepts, -⟩
    constructor
    · rintro ⟨first, last, a, b, hp, hnumerals, ha, hb, hin⟩
      have hok : parseRange header total = .ok (resolved total a b) :=
        parseRange_eq_ok.mpr ⟨first, last, a, b, hp, ha, hb, hin, rfl⟩
      obtain ⟨first', last', hp', hfirst, hlast, -⟩ := accepts_iff.mp ((haccepts _).mp hok)
      obtain ⟨rfl, rfl⟩ := hp.unique hp'
      exact hnumerals ⟨hfirst, hlast⟩
    · rintro ⟨first, last, hp, hfirst, hlast, hlong, hin⟩
      have haccept : Accepts header total (resolved total (value first) (value last)) :=
        accepts_iff.mpr ⟨first, last, hp, hfirst, hlast, hin, rfl⟩
      obtain ⟨first', last', a, b, hp', ha, hb, -⟩ :=
        parseRange_eq_ok.mp ((haccepts _).mpr haccept)
      obtain ⟨rfl, rfl⟩ := hp.unique hp'
      rw [number_of_numeral hfirst] at ha
      rw [number_of_numeral hlast] at hb
      split_ifs at ha hb
      omega
  · rintro ⟨hlax, hlong⟩
    refine ⟨fun r => ?_, fun e => statusCode_of_error⟩
    rw [parseRange_eq_ok, accepts_iff]
    constructor
    · rintro ⟨first, last, a, b, hp, ha, hb, hin, hr⟩
      by_cases hnumerals : Numeral first ∧ Numeral last
      · obtain ⟨hfirst, hlast⟩ := hnumerals
        rw [number_of_numeral hfirst] at ha
        rw [number_of_numeral hlast] at hb
        split_ifs at ha hb
        rw [Option.some.injEq] at ha hb
        subst ha hb
        exact ⟨first, last, hp, hfirst, hlast, hin, hr⟩
      · exact absurd ⟨first, last, a, b, hp, hnumerals, ha, hb, hin⟩ hlax
    · rintro ⟨first, last, hp, hfirst, hlast, hin, hr⟩
      have hshort : first.length ≤ maxStrDigits ∧ last.length ≤ maxStrDigits := by
        by_contra hmany
        exact hlong ⟨first, last, hp, hfirst, hlast, by omega, hin⟩
      refine ⟨first, last, value first, value last, hp, ?_, ?_, hin, hr⟩
      · rw [number_of_numeral hfirst, if_pos hshort.1]
      · rw [number_of_numeral hlast, if_pos hshort.2]

example : parseRange "bytes= -50 " 20 = .ok ⟨0, 19, 20⟩ := by decide +kernel

/-- A plus sign is no digit, and the parser takes it. -/
theorem signedRange_accepted :
    parseRange "bytes=+1-2" 10 = .ok ⟨1, 2, 10⟩ ∧ (∀ r, ¬ Accepts "bytes=+1-2" 10 r) ∧
      ¬ ParsesRanges "bytes=+1-2" 10 := by
  have hok : parseRange "bytes=+1-2" 10 = .ok ⟨1, 2, 10⟩ := by decide +kernel
  have hrefused : ∀ r, ¬ Accepts "bytes=+1-2" 10 r := by
    intro r haccepts
    obtain ⟨first, last, hp, hfirst, -⟩ := accepts_iff.mp haccepts
    have hparts : Parts "bytes=+1-2" ['+', '1'] ['2'] := parts_iff.mpr (by decide +kernel)
    obtain ⟨rfl, -⟩ := hp.unique hparts
    rcases hfirst with hempty | hdigits
    · cases hempty
    · exact absurd (hdigits.2 '+' (by simp)) (by decide)
  exact ⟨hok, hrefused, fun h => hrefused _ ((h.accepts _).mp hok)⟩

end AsyncDataHub.Media
