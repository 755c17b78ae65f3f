import AsyncDataHub.JsonScan

/-! loads reads back every text that dumps writes, with either separators; the text is one line of
printable ASCII. -/
namespace AsyncDataHub.PyJson

def NoDigit (cs : List Char) : Prop := ∀ c ∈ cs.head?, c.isDigit = false

def NumberEnd (cs : List Char) : Prop :=
  ∀ c ∈ cs.head?, c.isDigit = false ∧ c ≠ '.' ∧ c ≠ 'e' ∧ c ≠ 'E'

lemma NumberEnd.noDigit {cs : List Char} (h : NumberEnd cs) : NoDigit cs := fun c hc => (h c hc).1

lemma noDigit_cons {c : Char} {cs : List Char} (h : c.isDigit = false) : NoDigit (c :: cs) := by
  simpa [NoDigit] using h

lemma numberEnd_cons {c : Char} (cs : List Char)
    (h : c.isDigit = false ∧ c ≠ '.' ∧ c ≠ 'e' ∧ c ≠ 'E') : NumberEnd (c :: cs) := by
  simpa [NumberEnd] using h

lemma takeWhile_of_noDigit {cs : List Char} (h : NoDigit cs) : cs.takeWhile Char.isDigit = [] := by
  cases cs with
  | nil => rfl
  | cons c cs => simp [h c (by simp)]

lemma takeWhile_digits {ds rest : List Char} (hd : ∀ c ∈ ds, c.isDigit) (hr : NoDigit rest) :
    (ds ++ rest).takeWhile Char.isDigit = ds := by
  rw [List.takeWhile_append_of_pos hd, takeWhile_of_noDigit hr, List.append_nil]

lemma dropWhile_digits {ds rest : List Char} (hd : ∀ c ∈ ds, c.isDigit) (hr : NoDigit rest) :
    (ds ++ rest).dropWhile Char.isDigit = rest := by
  have h := List.takeWhile_append_dropWhile (p := Char.isDigit) (l := ds ++ rest)
  rw [takeWhile_digits hd hr] at h
  exact List.append_cancel_left h

lemma toDigits_isDigit (n : ℕ) : ∀ c ∈ Nat.toDigits 10 n, c.isDigit :=
  fun _ hc => Nat.isDigit_of_mem_toDigits (by decide) (by decide) hc

lemma head_toDigits_ne_zero {n : ℕ} (hn : 0 < n) : ∀ c ∈ (Nat.toDigits 10 n).head?, c ≠ '0' := by
  induction n using Nat.strong_induction_on with
  | _ n ih =>
    by_cases hlt : n < 10
    · rw [Nat.toDigits_of_lt_base hlt]
      simp only [List.head?_cons, Option.mem_some_iff, forall_eq']
      interval_cases n <;> decide
    · rw [Nat.toDigits_of_base_le (by decide) (by omega)]
      have hne : Nat.toDigits 10 (n / 10) ≠ [] := Nat.toDigits_ne_nil
      rw [List.head?_append_of_ne_nil _ hne]
      exact ih (n / 10) (by omega) (by omega)

theorem scanWhole_toDigits (n : ℕ) {rest : List Char} (hr : NoDigit rest) :
    scanWhole (Nat.toDigits 10 n ++ rest) = some (n, rest) := by
  rcases Nat.eq_zero_or_pos n with rfl | hn
  · simp [scanWhole]
  · have hhead := head_toDigits_ne_zero hn
    have htake := takeWhile_digits (toDigits_isDigit n) hr
    have hdrop := dropWhile_digits (toDigits_isDigit n) hr
    have hne : Nat.toDigits 10 n ≠ [] := Nat.toDigits_ne_nil
    unfold scanWhole
    split
    · rename_i rest' heq
      cases hd : Nat.toDigits 10 n with
      | nil => exact absurd hd hne
      | cons d ds =>
        rw [hd] at heq hhead
        simp only [List.cons_append, List.cons.injEq] at heq
        exact absurd heq.1 (hhead d (by simp))
    · rw [htake, hdrop, if_neg hne, Nat.ofDigitChars_ten_toDigits]

lemma scanFraction_of_end {cs : List Char} (h : ∀ c ∈ cs.head?, c ≠ '.') :
    scanFraction cs = ([], cs) := by
  unfold scanFraction
  split
  · exact absurd rfl (h '.' (by simp))
  · rfl

lemma scanFraction_digits {ds rest : List Char} (hne : ds ≠ []) (hd : ∀ c ∈ ds, c.isDigit)
    (hr : NoDigit rest) : scanFraction ('.' :: (ds ++ rest)) = (ds, rest) := by
  simp only [scanFraction, takeWhile_digits hd hr, dropWhile_digits hd hr, if_neg hne]

lemma scanExponent_of_end {cs : List Char} (h : ∀ c ∈ cs.head?, c ≠ 'e' ∧ c ≠ 'E') :
    scanExponent cs = (none, cs) := by
  cases cs with
  | nil => rfl
  | cons c cs =>
    have hc := h c (by simp)
    simp [scanExponent, hc.1, hc.2]

lemma scanExponent_chars (e : Exponent) {rest : List Char} (hr : NoDigit rest) :
    scanExponent (e.chars ++ rest) = (some e, rest) := by
  obtain ⟨negative, digits, hne, hd⟩ := e
  have hsign : scanSign ((if negative then '-' else '+') :: (digits ++ rest)) =
      (negative, digits ++ rest) := by
    cases negative <;> rfl
  simp only [Exponent.chars, List.cons_append, scanExponent, true_or, ↓reduceIte, hsign,
    takeWhile_digits hd hr, dropWhile_digits hd hr, dif_neg hne]

lemma makeNumber_float (d : Decimal) {rest : List Char} (hr : NumberEnd rest) :
    makeNumber d.negative d.whole ((if d.fraction = [] then [] else '.' :: d.fraction) ++
      (d.exponent.elim [] Exponent.chars ++ rest)) = (.float d, rest) := by
  obtain ⟨negative, whole, fraction, exponent, hfrac, hnot⟩ := d
  have hexp : scanExponent (exponent.elim [] Exponent.chars ++ rest) = (exponent, rest) := by
    cases exponent with
    | none => exact scanExponent_of_end fun c hc => ⟨(hr c hc).2.2.1, (hr c hc).2.2.2⟩
    | some e => exact scanExponent_chars e hr.noDigit
  have htail : ∀ c ∈ (exponent.elim [] Exponent.chars ++ rest).head?,
      c.isDigit = false ∧ c ≠ '.' := by
    cases exponent with
    | none => exact fun c hc => ⟨(hr c hc).1, (hr c hc).2.1⟩
    | some e => simp [Exponent.chars]
  have hscan : scanFraction ((if fraction = [] then [] else '.' :: fraction) ++
      (exponent.elim [] Exponent.chars ++ rest)) =
      (fraction, exponent.elim [] Exponent.chars ++ rest) := by
    split_ifs with hf
    · rw [hf, List.nil_append]
      exact scanFraction_of_end fun c hc => (htail c hc).2
    · exact scanFraction_digits hf hfrac fun c hc => (htail c hc).1
  simp only [makeNumber, hscan, hexp, dif_pos hnot]

lemma makeNumber_int (negative : Bool) (whole : ℕ) {rest : List Char} (hr : NumberEnd rest) :
    makeNumber negative whole rest = (.int (if negative then -(whole : ℤ) else whole), rest) := by
  have hf := scanFraction_of_end fun c hc => (hr c hc).2.1
  have he := scanExponent_of_end fun c hc => ⟨(hr c hc).2.2.1, (hr c hc).2.2.2⟩
  simp [makeNumber, hf, he]

lemma scanNumber_sign (negative : Bool) (whole : ℕ) {rest : List Char} (hr : NoDigit rest) :
    scanNumber ((if negative then ['-'] else []) ++ (Nat.toDigits 10 whole ++ rest)) =
      some (makeNumber negative whole rest) := by
  have hw := scanWhole_toDigits whole hr
  cases negative with
  | true => simp [scanNumber, hw]
  | false =>
    simp only [Bool.false_eq_true, ↓reduceIte, List.nil_append]
    unfold scanNumber
    split
    · rename_i rest' heq
      have hm : '-' ∈ Nat.toDigits 10 whole ∨ Nat.toDigits 10 whole = [] := by
        cases hd : Nat.toDigits 10 whole with
        | nil => exact .inr rfl
        | cons d ds =>
          rw [hd] at heq
          simp only [List.cons_append, List.cons.injEq] at heq
          exact .inl (by simp [heq.1])
      rcases hm with hm | hm
      · exact absurd (toDigits_isDigit whole _ hm) (by decide)
      · exact absurd hm Nat.toDigits_ne_nil
    · simp [hw]

theorem scanNumber_intChars (n : ℤ) {rest : List Char} (hr : NumberEnd rest) :
    scanNumber (intChars n ++ rest) = some (.int n, rest) := by
  have h := scanNumber_sign (decide (n < 0)) n.natAbs hr.noDigit
  rw [makeNumber_int _ _ hr] at h
  unfold intChars
  split_ifs with hn
  · simp only [hn, decide_true, ↓reduceIte, List.cons_append, List.nil_append] at h ⊢
    rw [h]
    congr 3
    omega
  · simp only [hn, decide_false, Bool.false_eq_true, ↓reduceIte, List.nil_append] at h ⊢
    rw [h]
    congr 3
    omega

theorem scanNumber_decimalChars (d : Decimal) {rest : List Char} (hr : NumberEnd rest) :
    scanNumber (d.chars ++ rest) = some (.float d, rest) := by
  have htail : NoDigit ((if d.fraction = [] then [] else '.' :: d.fraction) ++
      (d.exponent.elim [] Exponent.chars ++ rest)) := by
    split_ifs
    · cases d.exponent with
      | none => simpa using hr.noDigit
      | some e => exact noDigit_cons (by decide)
    · exact noDigit_cons (by decide)
  have h := scanNumber_sign d.negative d.whole htail
  rw [makeNumber_float d hr] at h
  simpa [Decimal.chars, List.append_assoc] using h

lemma hexVal_digitChar {n : ℕ} (h : n < 16) : hexVal (Nat.digitChar n) = some n := by
  interval_cases n <;> decide

lemma scanHex4_digits {n : ℕ} (hn : n < 65536) (rest : List Char) :
    scanHex4 (Nat.digitChar (n / 4096 % 16) :: Nat.digitChar (n / 256 % 16) ::
      Nat.digitChar (n / 16 % 16) :: Nat.digitChar (n % 16) :: rest) = some (n, rest) := by
  simp only [scanHex4, hexVal_digitChar (show n / 4096 % 16 < 16 by omega),
    hexVal_digitChar (show n / 256 % 16 < 16 by omega),
    hexVal_digitChar (show n / 16 % 16 < 16 by omega),
    hexVal_digitChar (show n % 16 < 16 by omega), Option.bind_eq_bind, Option.bind_some]
  congr 2
  omega

lemma scanUnicode_plain {n : ℕ} (hn : n < 65536) (hs : n < 0xd800 ∨ 0xe000 ≤ n)
    (rest : List Char) :
    scanEscape ((unicodeEscape n).tail ++ rest) = some (Char.ofNat n, rest) := by
  have hhi : ¬ (0xd800 ≤ n ∧ n < 0xdc00) := by omega
  have hlo : ¬ (0xdc00 ≤ n ∧ n < 0xe000) := by omega
  simp only [unicodeEscape, List.tail_cons, List.cons_append, List.nil_append, scanEscape,
    Char.reduceEq, or_self, ↓reduceIte, scanUnicode, scanHex4_digits hn, Option.bind_eq_bind,
    Option.bind_some, if_neg hhi, if_neg hlo]

lemma scanUnicode_pair {n : ℕ} (hn : n < 0x100000) (rest : List Char) :
    scanEscape ((unicodeEscape (0xd800 + n / 0x400)).tail ++
      (unicodeEscape (0xdc00 + n % 0x400) ++ rest)) = some (Char.ofNat (0x10000 + n), rest) := by
  have hhi : 0xd800 ≤ 0xd800 + n / 0x400 ∧ 0xd800 + n / 0x400 < 0xdc00 := by omega
  have hlo : 0xdc00 ≤ 0xdc00 + n % 0x400 ∧ 0xdc00 + n % 0x400 < 0xe000 := by omega
  simp only [unicodeEscape, List.tail_cons, List.cons_append, List.nil_append, scanEscape,
    Char.reduceEq, or_self, ↓reduceIte, scanUnicode,
    scanHex4_digits (show 0xd800 + n / 0x400 < 65536 by omega),
    scanHex4_digits (show 0xdc00 + n % 0x400 < 65536 by omega), Option.bind_eq_bind,
    Option.bind_some, if_pos hhi, if_pos hlo]
  have hn' : 0x10000 + (0xd800 + n / 0x400 - 0xd800) * 0x400 + (0xdc00 + n % 0x400 - 0xdc00) =
      0x10000 + n := by omega
  rw [hn']

lemma char_toNat_range (c : Char) :
    c.toNat < 0xd800 ∨ (0xe000 ≤ c.toNat ∧ c.toNat < 0x110000) := by
  have h := c.valid
  simp only [UInt32.isValidChar, Nat.isValidChar] at h
  rw [Char.toNat]
  rcases h with h | h
  · exact .inl h
  · exact .inr ⟨Nat.succ_le_of_lt h.1, h.2⟩

lemma escapeChar_cases (c : Char) :
    (∃ e, escapeChar c = ['\\', e] ∧ (32 ≤ e.toNat ∧ e.toNat ≤ 126) ∧
      ∀ rest, scanEscape (e :: rest) = some (c, rest)) ∨
    (escapeChar c = [c] ∧ c ≠ '"' ∧ c ≠ '\\' ∧ 32 ≤ c.toNat ∧ c.toNat ≤ 126) ∨
    (escapeChar c = unicodeEscape c.toNat ∧ c.toNat < 0x10000) ∨
    (escapeChar c = unicodeEscape (0xd800 + (c.toNat - 0x10000) / 0x400) ++
      unicodeEscape (0xdc00 + (c.toNat - 0x10000) % 0x400) ∧ 0x10000 ≤ c.toNat) := by
  by_cases hshort : c ∈ ['"', '\\', '\n', '\r', '\t', '\x0c', '\x08']
  · simp only [List.mem_cons, List.not_mem_nil, or_false] at hshort
    rcases hshort with rfl | rfl | rfl | rfl | rfl | rfl | rfl <;>
      exact .inl ⟨_, rfl, by simp, fun _ => rfl⟩
  · simp only [List.mem_cons, List.not_mem_nil, or_false, not_or] at hshort
    obtain ⟨h1, h2, h3, h4, h5, h6, h7⟩ := hshort
    rw [escapeChar, if_neg h1, if_neg h2, if_neg h3, if_neg h4, if_neg h5, if_neg h6, if_neg h7]
    by_cases h8 : 32 ≤ c.toNat ∧ c.toNat ≤ 126
    · exact .inr (.inl ⟨if_pos h8, h1, h2, h8⟩)
    rw [if_neg h8]
    by_cases h9 : c.toNat < 0x10000
    · exact .inr (.inr (.inl ⟨if_pos h9, h9⟩))
    · exact .inr (.inr (.inr ⟨if_neg h9, not_lt.mp h9⟩))

/-- One step of the string scanner undoes one escaped character. -/
theorem scanString_escapeChar (n : ℕ) (c : Char) (rest : List Char) :
    scanString (n + 1) (escapeChar c ++ rest) =
      (scanString n rest).map fun p => (c :: p.1, p.2) := by
  have hslash : ∀ (cs : List Char) (d : Char), scanEscape cs = some (d, rest) →
      scanString (n + 1) ('\\' :: cs) = (scanString n rest).map fun p => (d :: p.1, p.2) := by
    intro cs d h
    simp only [scanString, Char.reduceEq, ↓reduceIte, h, Option.bind_eq_bind, Option.bind_some]
    cases scanString n rest <;> rfl
  have hrange := char_toNat_range c
  rcases escapeChar_cases c with ⟨e, hc, _, he⟩ | ⟨hc, h1, h2, h8⟩ | ⟨hc, h9⟩ | ⟨hc, h9⟩ <;> rw [hc]
  · exact hslash _ _ (he rest)
  · have hlt : ¬ c.toNat < 32 := by omega
    simp only [List.cons_append, List.nil_append, scanString, if_neg h1, if_neg h2, if_neg hlt,
      Option.bind_eq_bind]
    cases scanString n rest <;> rfl
  · have h := scanUnicode_plain h9 (by omega) rest
    rw [Char.ofNat_toNat] at h
    exact hslash _ _ h
  · have h := scanUnicode_pair (show c.toNat - 0x10000 < 0x100000 by omega) rest
    rw [show 0x10000 + (c.toNat - 0x10000) = c.toNat by omega, Char.ofNat_toNat] at h
    rw [List.append_assoc]
    exact hslash _ _ h

theorem scanString_flatMap (cs : List Char) {n : ℕ} (hn : cs.length < n) (rest : List Char) :
    scanString n (cs.flatMap escapeChar ++ '"' :: rest) = some (cs, rest) := by
  induction cs generalizing n with
  | nil =>
    cases n with
    | zero => simp at hn
    | succ n => simp [scanString]
  | cons c cs ih =>
    cases n with
    | zero => simp at hn
    | succ n =>
      rw [List.flatMap_cons, List.append_assoc, scanString_escapeChar,
        ih (by simpa using hn)]
      rfl

lemma escapeChar_length_pos (c : Char) : 0 < (escapeChar c).length := by
  rcases escapeChar_cases c with ⟨e, hc, _⟩ | ⟨hc, _⟩ | ⟨hc, _⟩ | ⟨hc, _⟩ <;>
    simp [hc, unicodeEscape]

lemma length_le_flatMap_escapeChar (cs : List Char) :
    cs.length ≤ (cs.flatMap escapeChar).length := by
  induction cs with
  | nil => simp
  | cons c cs ih =>
    have hc := escapeChar_length_pos c
    simp only [List.length_cons, List.flatMap_cons, List.length_append]
    omega

/-- What follows an opening quote is read as the string, with the length of the text as bound. -/
theorem scanString_stringChars (s : String) (rest : List Char) :
    scanString (((stringChars s).tail ++ rest).length + 1) ((stringChars s).tail ++ rest) =
      some (s.toList, rest) := by
  have hlen := length_le_flatMap_escapeChar s.toList
  have htail : (stringChars s).tail ++ rest = s.toList.flatMap escapeChar ++ '"' :: rest := by
    simp [stringChars]
  rw [htail]
  apply scanString_flatMap
  simp only [List.length_append, List.length_cons]
  omega

lemma dumpsChars_head (sep : Separators) (j : Json) :
    ∃ c cs, dumpsChars sep j = c :: cs ∧ isBlank c = false ∧ c ≠ ']' := by
  have hdigit : ∀ c : Char, c.isDigit → isBlank c = false ∧ c ≠ ']' := by
    intro c hc
    refine ⟨?_, fun h => absurd hc (by rw [h]; decide)⟩
    by_contra hb
    simp only [isBlank, Bool.not_eq_false, Bool.or_eq_true, decide_eq_true_eq] at hb
    rcases hb with ((rfl | rfl) | rfl) | rfl <;> exact absurd hc (by decide)
  have hnat : ∀ n, ∃ c cs, Nat.toDigits 10 n = c :: cs ∧ isBlank c = false ∧ c ≠ ']' := by
    intro n
    cases hd : Nat.toDigits 10 n with
    | nil => exact absurd hd Nat.toDigits_ne_nil
    | cons c cs => exact ⟨c, cs, rfl, hdigit c (toDigits_isDigit n c (by simp [hd]))⟩
  cases j with
  | null => exact ⟨_, _, rfl, by decide, by decide⟩
  | bool b => cases b <;> exact ⟨_, _, rfl, by decide, by decide⟩
  | int n =>
    simp only [dumpsChars, intChars]
    split_ifs
    · exact ⟨_, _, rfl, by decide, by decide⟩
    · exact hnat _
  | float d =>
    obtain ⟨c, cs, hc, hb⟩ := hnat d.whole
    simp only [dumpsChars, Decimal.chars, hc]
    cases d.negative
    · exact ⟨c, _, rfl, hb⟩
    · exact ⟨_, _, rfl, by decide, by decide⟩
  | str s => exact ⟨_, _, rfl, by decide, by decide⟩
  | arr xs => cases xs <;> exact ⟨_, _, rfl, by decide, by decide⟩
  | obj fs => cases fs <;> exact ⟨_, _, rfl, by decide, by decide⟩

lemma skipBlanks_pad (sep : Separators) (cs : List Char) :
    skipBlanks (sep.pad ++ cs) = skipBlanks cs := by
  cases sep <;> simp [Separators.pad, skipBlanks, isBlank]

lemma skipBlanks_cons {c : Char} (cs : List Char) (h : isBlank c = false) :
    skipBlanks (c :: cs) = c :: cs := by simp [skipBlanks, h]

lemma skipBlanks_dumpsChars (sep : Separators) (j : Json) (rest : List Char) :
    skipBlanks (dumpsChars sep j ++ rest) = dumpsChars sep j ++ rest := by
  obtain ⟨c, cs, hc, hb, _⟩ := dumpsChars_head sep j
  rw [hc, List.cons_append, skipBlanks_cons _ hb]

lemma numberEnd_itemsChars (sep : Separators) (xs : List Json) (rest : List Char) :
    NumberEnd (itemsChars sep xs ++ rest) := by
  cases xs <;> exact numberEnd_cons _ (by decide)

lemma numberEnd_membersChars (sep : Separators) (fs : List (String × Json)) (rest : List Char) :
    NumberEnd (membersChars sep fs ++ rest) := by
  cases fs <;> exact numberEnd_cons _ (by decide)

lemma scanValue_number {cs rest : List Char} {j : Json} (n : ℕ)
    (hd : ∀ c ∈ cs.head?, c.isDigit ∨ c = '-') (hne : cs ≠ [])
    (h : scanNumber (cs ++ rest) = some (j, rest)) :
    scanValue (n + 1) (cs ++ rest) = some (j, rest) := by
  cases cs with
  | nil => exact absurd rfl hne
  | cons c cs =>
    have hc := hd c (by simp)
    have hother : ∀ d : Char, d.isDigit = false ∧ d ≠ '-' → c ≠ d := by
      rintro d ⟨h1, h2⟩ rfl
      rcases hc with hc | hc
      · simp [h1] at hc
      · exact h2 hc
    simp only [List.cons_append] at h ⊢
    simp only [scanValue, if_neg (hother '"' (by decide)), if_neg (hother '[' (by decide)),
      if_neg (hother '{' (by decide))]
    unfold scanAtom
    split
    · rename_i heq
      simp only [List.cons.injEq] at heq
      exact absurd heq.1 (hother 'n' (by decide))
    · rename_i heq
      simp only [List.cons.injEq] at heq
      exact absurd heq.1 (hother 't' (by decide))
    · rename_i heq
      simp only [List.cons.injEq] at heq
      exact absurd heq.1 (hother 'f' (by decide))
    · exact h

lemma head_toDigits_append (n : ℕ) (cs : List Char) :
    ∀ c ∈ (Nat.toDigits 10 n ++ cs).head?, c.isDigit := by
  intro c hc
  rw [List.head?_append_of_ne_nil _ Nat.toDigits_ne_nil] at hc
  exact toDigits_isDigit n c (List.mem_of_mem_head? hc)

lemma head_intChars (n : ℤ) : ∀ c ∈ (intChars n).head?, c.isDigit ∨ c = '-' := by
  unfold intChars
  split_ifs
  · simp
  · intro c hc
    exact .inl (toDigits_isDigit _ c (List.mem_of_mem_head? hc))

lemma head_decimalChars (d : Decimal) : ∀ c ∈ d.chars.head?, c.isDigit ∨ c = '-' := by
  unfold Decimal.chars
  cases d.negative
  · simp only [Bool.false_eq_true, ↓reduceIte, List.nil_append, List.append_assoc]
    exact fun c hc => .inl (head_toDigits_append _ _ c hc)
  · simp

lemma intChars_ne_nil (n : ℤ) : intChars n ≠ [] := by
  unfold intChars
  split_ifs
  · simp
  · exact Nat.toDigits_ne_nil

lemma decimalChars_ne_nil (d : Decimal) : d.chars ≠ [] := by
  have h : Nat.toDigits 10 d.whole ≠ [] := Nat.toDigits_ne_nil
  simp [Decimal.chars, h]

lemma scanItems_step (sep : Separators) (x : Json) (xs : List Json) (n : ℕ) (rest : List Char)
    (hx : scanValue n (dumpsChars sep x ++ (itemsChars sep xs ++ rest)) =
      some (x, itemsChars sep xs ++ rest))
    (hxs : ∀ y ys, xs = y :: ys → scanItems n (dumpsChars sep y ++ (itemsChars sep ys ++ rest)) =
      some (xs, rest)) :
    scanItems (n + 1) (dumpsChars sep x ++ (itemsChars sep xs ++ rest)) = some (x :: xs, rest) := by
  cases xs with
  | nil =>
    simp only [itemsChars, List.cons_append, List.nil_append] at hx ⊢
    simp [scanItems, hx, skipBlanks_cons _ (show isBlank ']' = false by decide)]
  | cons y ys =>
    simp only [scanItems, hx, Option.bind_eq_bind, Option.bind_some]
    simp only [itemsChars, List.cons_append, List.append_assoc,
      skipBlanks_cons _ (show isBlank ',' = false by decide), skipBlanks_pad,
      skipBlanks_dumpsChars, hxs y ys rfl, Option.map_some]

lemma scanMembers_step (sep : Separators) (k : String) (v : Json) (fs : List (String × Json))
    (n : ℕ) (rest : List Char)
    (hv : scanValue n (dumpsChars sep v ++ (membersChars sep fs ++ rest)) =
      some (v, membersChars sep fs ++ rest))
    (hfs : ∀ l w gs, fs = (l, w) :: gs → scanMembers n (stringChars l ++ (':' :: (sep.pad ++
      (dumpsChars sep w ++ (membersChars sep gs ++ rest))))) = some (fs, rest)) :
    scanMembers (n + 1) (stringChars k ++ (':' :: (sep.pad ++
      (dumpsChars sep v ++ (membersChars sep fs ++ rest))))) = some ((k, v) :: fs, rest) := by
  have hk := scanString_stringChars k
    (':' :: (sep.pad ++ (dumpsChars sep v ++ (membersChars sep fs ++ rest))))
  have hq : ∀ (s : String) (cs : List Char),
      stringChars s ++ cs = '"' :: ((stringChars s).tail ++ cs) := fun s cs => rfl
  rw [hq]
  simp only [scanMembers, ↓reduceIte, hk, Option.bind_eq_bind, Option.bind_some,
    skipBlanks_cons _ (show isBlank ':' = false by decide), skipBlanks_pad, skipBlanks_dumpsChars,
    hv, String.ofList_toList]
  cases fs with
  | nil => simp [membersChars, skipBlanks_cons _ (show isBlank '}' = false by decide)]
  | cons p gs =>
    obtain ⟨l, w⟩ := p
    have hrest := hfs l w gs rfl
    rw [hq] at hrest
    simp only [membersChars, List.cons_append, List.append_assoc,
      skipBlanks_cons _ (show isBlank ',' = false by decide), skipBlanks_pad]
    rw [hq, skipBlanks_cons _ (show isBlank '"' = false by decide), hrest]
    rfl

mutual
/-- Any bound not below the length of the text is enough to read a value back. -/
theorem scanValue_dumpsChars (sep : Separators) (j : Json) (hj : j.Valid) {n : ℕ}
    (hn : (dumpsChars sep j).length ≤ n) {rest : List Char} (hr : NumberEnd rest) :
    scanValue n (dumpsChars sep j ++ rest) = some (j, rest) := by
  obtain ⟨m, rfl⟩ : ∃ m, n = m + 1 := by
    obtain ⟨c, cs, hc, _⟩ := dumpsChars_head sep j
    rw [hc, List.length_cons] at hn
    exact ⟨n - 1, by omega⟩
  match j with
  | .null => simp [dumpsChars, scanValue, scanAtom]
  | .bool true => simp [dumpsChars, scanValue, scanAtom]
  | .bool false => simp [dumpsChars, scanValue, scanAtom]
  | .int i =>
    exact scanValue_number m (head_intChars i) (intChars_ne_nil i) (scanNumber_intChars i hr)
  | .float d =>
    exact scanValue_number m (head_decimalChars d) (decimalChars_ne_nil d)
      (scanNumber_decimalChars d hr)
  | .str s =>
    have hs := scanString_stringChars s rest
    change scanValue (m + 1) ('"' :: ((stringChars s).tail ++ rest)) = _
    simp only [scanValue, ↓reduceIte, hs, Option.map_some, String.ofList_toList]
  | .arr [] => simp [dumpsChars, scanValue, skipBlanks, isBlank]
  | .arr (x :: xs) =>
    simp only [dumpsChars, List.length_cons, List.length_append] at hn
    have hitems := scanItems_dumpsChars sep x xs hj (n := m) (by omega) rest
    obtain ⟨c, cs, hc, hb, hclose⟩ := dumpsChars_head sep x
    simp only [dumpsChars, List.cons_append, List.append_assoc, scanValue, Char.reduceEq,
      ↓reduceIte, skipBlanks_dumpsChars]
    rw [hc, List.cons_append] at hitems ⊢
    split
    · rename_i heq
      simp only [List.cons.injEq] at heq
      exact absurd heq.1 hclose
    · rw [hitems]
      rfl
  | .obj [] => simp [dumpsChars, scanValue, skipBlanks, isBlank]
  | .obj ((k, v) :: fs) =>
    simp only [dumpsChars, List.length_cons, List.length_append] at hn
    have hmembers := scanMembers_dumpsChars sep k v fs hj.2 (n := m) (by omega) rest
    have hq : stringChars k ++ (':' :: (sep.pad ++ (dumpsChars sep v ++
        (membersChars sep fs ++ rest)))) = '"' :: ((stringChars k).tail ++ (':' :: (sep.pad ++
        (dumpsChars sep v ++ (membersChars sep fs ++ rest))))) := rfl
    rw [hq] at hmembers
    simp only [dumpsChars, List.cons_append, List.append_assoc, scanValue, Char.reduceEq,
      ↓reduceIte]
    rw [hq, skipBlanks_cons _ (show isBlank '"' = false by decide)]
    split
    · rename_i heq
      simp at heq
    · rw [hmembers, Option.map_some, dictOf_of_nodup hj.1]
termination_by n

theorem scanItems_dumpsChars (sep : Separators) (x : Json) (xs : List Json)
    (hv : ItemsValid (x :: xs)) {n : ℕ}
    (hn : (dumpsChars sep x).length + (itemsChars sep xs).length ≤ n) (rest : List Char) :
    scanItems n (dumpsChars sep x ++ (itemsChars sep xs ++ rest)) = some (x :: xs, rest) := by
  have hclose : 0 < (itemsChars sep xs).length := by cases xs <;> simp [itemsChars]
  obtain ⟨m, rfl⟩ : ∃ m, n = m + 1 := ⟨n - 1, by omega⟩
  have hx := scanValue_dumpsChars sep x hv.1 (n := m) (by omega)
    (numberEnd_itemsChars sep xs rest)
  match xs with
  | [] => exact scanItems_step sep x [] m rest hx (by simp)
  | y :: ys =>
    have hpos : 0 < (dumpsChars sep x).length := by
      obtain ⟨c, cs, hc, _⟩ := dumpsChars_head sep x
      simp [hc]
    simp only [itemsChars, List.length_cons, List.length_append] at hn
    have hxs := scanItems_dumpsChars sep y ys hv.2 (n := m) (by omega) rest
    refine scanItems_step sep x (y :: ys) m rest hx ?_
    rintro _ _ ⟨rfl, rfl⟩
    exact hxs
termination_by n

theorem scanMembers_dumpsChars (sep : Separators) (k : String) (v : Json)
    (fs : List (String × Json)) (hv : MembersValid ((k, v) :: fs)) {n : ℕ}
    (hn : (dumpsChars sep v).length + (membersChars sep fs).length ≤ n) (rest : List Char) :
    scanMembers n (stringChars k ++ (':' :: (sep.pad ++
      (dumpsChars sep v ++ (membersChars sep fs ++ rest))))) = some ((k, v) :: fs, rest) := by
  have hclose : 0 < (membersChars sep fs).length := by cases fs <;> simp [membersChars]
  obtain ⟨m, rfl⟩ : ∃ m, n = m + 1 := ⟨n - 1, by omega⟩
  have hx := scanValue_dumpsChars sep v hv.1 (n := m) (by omega)
    (numberEnd_membersChars sep fs rest)
  match fs with
  | [] => exact scanMembers_step sep k v [] m rest hx (by simp)
  | (l, w) :: gs =>
    have hpos : 0 < (dumpsChars sep v).length := by
      obtain ⟨c, cs, hc, _⟩ := dumpsChars_head sep v
      simp [hc]
    simp only [membersChars, List.length_cons, List.length_append] at hn
    have hfs := scanMembers_dumpsChars sep l w gs hv.2 (n := m) (by omega) rest
    refine scanMembers_step sep k v ((l, w) :: gs) m rest hx ?_
    rintro _ _ _ ⟨⟨rfl, rfl⟩, rfl⟩
    exact hfs
termination_by n
end

theorem loads_dumpsChars (sep : Separators) {j : Json} (hj : j.Valid) :
    loads (String.ofList (dumpsChars sep j)) = some j := by
  have hskip := skipBlanks_dumpsChars sep j []
  have hend : NumberEnd [] := by simp [NumberEnd]
  have hscan := scanValue_dumpsChars sep j hj le_rfl hend
  rw [List.append_nil] at hskip hscan
  simp only [loads, String.toList_ofList, hskip, hscan]
  rfl

@[simp] theorem loads_dumps {j : Json} (hj : j.Valid) : loads (dumps j) = some j :=
  loads_dumpsChars .spaced hj

theorem dumps_str_ne_self (s : String) : dumps (.str s) ≠ s := by
  intro h
  have hl := loads_dumps (j := .str s) trivial
  rw [h] at hl
  exact loads_ne_self s hl

/-- The text with sorted keys determines the sorted value. -/
theorem sortKeys_eq_of_dumpsSorted_eq {i j : Json} (hi : (sortKeys i).Valid)
    (hj : (sortKeys j).Valid) (h : dumpsSorted i = dumpsSorted j) : sortKeys i = sortKeys j := by
  have hl := loads_dumpsChars .compact hi
  rw [show String.ofList (dumpsChars .compact (sortKeys i)) = dumpsSorted j from h] at hl
  rw [dumpsSorted, loads_dumpsChars .compact hj] at hl
  exact (Option.some.inj hl).symm

/-- From the blank to the tilde: what `ensure_ascii` leaves in a text. -/
def Printable (cs : List Char) : Prop := ∀ c ∈ cs, 32 ≤ c.toNat ∧ c.toNat ≤ 126

lemma printable_cons {c : Char} {cs : List Char} :
    Printable (c :: cs) ↔ (32 ≤ c.toNat ∧ c.toNat ≤ 126) ∧ Printable cs := List.forall_mem_cons

lemma printable_append {cs ds : List Char} :
    Printable (cs ++ ds) ↔ Printable cs ∧ Printable ds := List.forall_mem_append

lemma printable_digits {cs : List Char} (h : ∀ c ∈ cs, c.isDigit) : Printable cs := by
  intro c hc
  have hdigit := h c hc
  simp only [Char.isDigit, Bool.and_eq_true, decide_eq_true_eq, UInt32.le_iff_toNat_le] at hdigit
  change 48 ≤ c.toNat ∧ c.toNat ≤ 57 at hdigit
  omega

lemma printable_digitChar {n : ℕ} (h : n < 16) :
    32 ≤ (Nat.digitChar n).toNat ∧ (Nat.digitChar n).toNat ≤ 126 := by
  interval_cases n <;> simp [Nat.digitChar]

lemma printable_unicodeEscape (n : ℕ) : Printable (unicodeEscape n) := by
  have hdigit : ∀ k, 32 ≤ (Nat.digitChar (k % 16)).toNat ∧ (Nat.digitChar (k % 16)).toNat ≤ 126 :=
    fun k => printable_digitChar (Nat.mod_lt k (by decide))
  simp [unicodeEscape, Printable, hdigit]

lemma printable_escapeChar (c : Char) : Printable (escapeChar c) := by
  rcases escapeChar_cases c with ⟨e, hc, he, _⟩ | ⟨hc, _, _, hplain⟩ | ⟨hc, _⟩ | ⟨hc, _⟩ <;> rw [hc]
  · simpa [Printable] using he
  · simpa [Printable] using hplain
  · exact printable_unicodeEscape _
  · exact printable_append.mpr ⟨printable_unicodeEscape _, printable_unicodeEscape _⟩

lemma printable_stringChars (s : String) : Printable (stringChars s) := by
  have hflat : Printable (s.toList.flatMap escapeChar) := by
    intro c hc
    obtain ⟨d, _, hd⟩ := List.mem_flatMap.mp hc
    exact printable_escapeChar d c hd
  have hquote : Printable ['"'] := by simp [Printable]
  exact printable_append.mpr ⟨printable_append.mpr ⟨hquote, hflat⟩, hquote⟩

lemma printable_toDigits (n : ℕ) : Printable (Nat.toDigits 10 n) :=
  printable_digits (toDigits_isDigit n)

lemma printable_intChars (n : ℤ) : Printable (intChars n) := by
  unfold intChars
  split_ifs
  · exact printable_cons.mpr ⟨by simp, printable_toDigits _⟩
  · exact printable_toDigits _

lemma printable_exponentChars (e : Exponent) : Printable e.chars := by
  have hsign : Printable ['e', if e.negative then '-' else '+'] := by
    cases e.negative <;> simp [Printable]
  exact printable_append.mpr ⟨hsign, printable_digits e.isDigit⟩

lemma printable_decimalChars (d : Decimal) : Printable d.chars := by
  have hsign : Printable (if d.negative then ['-'] else []) := by
    cases d.negative <;> simp [Printable]
  have hfraction : Printable (if d.fraction = [] then [] else '.' :: d.fraction) := by
    split_ifs
    · simp [Printable]
    · exact printable_cons.mpr ⟨by simp, printable_digits d.isDigit⟩
  have hexponent : Printable (d.exponent.elim [] Exponent.chars) := by
    cases d.exponent with
    | none => simp [Printable]
    | some e => exact printable_exponentChars e
  simp only [Decimal.chars, printable_append]
  exact ⟨⟨⟨hsign, printable_toDigits _⟩, hfraction⟩, hexponent⟩

lemma printable_pad (sep : Separators) : Printable sep.pad := by
  cases sep <;> simp [Separators.pad, Printable]

mutual
/-- The text of a value is one line of printable ASCII. -/
theorem printable_dumpsChars (sep : Separators) : ∀ j, Printable (dumpsChars sep j)
  | .null => by simp [dumpsChars, Printable]
  | .bool true => by simp [dumpsChars, Printable]
  | .bool false => by simp [dumpsChars, Printable]
  | .int n => by simpa only [dumpsChars] using printable_intChars n
  | .float d => by simpa only [dumpsChars] using printable_decimalChars d
  | .str s => by simpa only [dumpsChars] using printable_stringChars s
  | .arr [] => by simp [dumpsChars, Printable]
  | .arr (x :: xs) => by
    have hx := printable_dumpsChars sep x
    have hxs := printable_itemsChars sep xs
    simp [dumpsChars, printable_cons, printable_append, hx, hxs]
  | .obj [] => by simp [dumpsChars, Printable]
  | .obj ((k, v) :: fs) => by
    have hk := printable_stringChars k
    have hpad := printable_pad sep
    have hv := printable_dumpsChars sep v
    have hfs := printable_membersChars sep fs
    simp [dumpsChars, printable_cons, printable_append, hk, hpad, hv, hfs]

theorem printable_itemsChars (sep : Separators) : ∀ xs, Printable (itemsChars sep xs)
  | [] => by simp [itemsChars, Printable]
  | x :: xs => by
    have hpad := printable_pad sep
    have hx := printable_dumpsChars sep x
    have hxs := printable_itemsChars sep xs
    simp [itemsChars, printable_cons, printable_append, hpad, hx, hxs]

theorem printable_membersChars (sep : Separators) : ∀ fs, Printable (membersChars sep fs)
  | [] => by simp [membersChars, Printable]
  | (k, v) :: fs => by
    have hpad := printable_pad sep
    have hk := printable_stringChars k
    have hv := printable_dumpsChars sep v
    have hfs := printable_membersChars sep fs
    simp [membersChars, printable_cons, printable_append, hpad, hk, hv, hfs]
end

end AsyncDataHub.PyJson
