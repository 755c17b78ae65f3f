import Mathlib

/-! JSON values as Python's json module handles them, dictionaries as lists of pairs in insertion
order, and the text that dumps writes with ensure_ascii. -/
namespace AsyncDataHub.PyJson

/-- The exponent part of a float literal, as repr writes it: always signed. -/
structure Exponent where
  negative : Bool
  digits : List Char
  nonempty : digits ≠ []
  isDigit : ∀ c ∈ digits, c.isDigit
  deriving DecidableEq

/-- A finite float is identified with its shortest decimal text. -/
structure Decimal where
  negative : Bool
  whole : ℕ
  fraction : List Char
  exponent : Option Exponent
  isDigit : ∀ c ∈ fraction, c.isDigit
  notInt : fraction ≠ [] ∨ exponent.isSome
  deriving DecidableEq

inductive Json
  | null
  | bool (b : Bool)
  | int (n : ℤ)
  | float (d : Decimal)
  | str (s : String)
  | arr (items : List Json)
  | obj (fields : List (String × Json))

/-- `d.get(key)`. -/
def dictGet (fields : List (String × Json)) (key : String) : Option Json := fields.lookup key

@[simp] theorem dictGet_cons (k : String) (v : Json) (fields : List (String × Json))
    (key : String) :
    dictGet ((k, v) :: fields) key = if key = k then some v else dictGet fields key := by
  unfold dictGet
  rw [List.lookup_cons]
  by_cases h : key = k
  · simp [h]
  · simp [beq_eq_false_iff_ne.mpr h, h]

/-- `d[key] = value`: an existing key keeps its place. -/
def dictSet (fields : List (String × Json)) (key : String) (value : Json) : List (String × Json) :=
  match fields with
  | [] => [(key, value)]
  | (k, v) :: rest => if k = key then (k, value) :: rest else (k, v) :: dictSet rest key value

/-- `dict(pairs)`: of two pairs with one key the later value wins. -/
def dictOf (pairs : List (String × Json)) : List (String × Json) :=
  pairs.foldl (fun d p => dictSet d p.1 p.2) []

lemma dictSet_fresh {fields : List (String × Json)} {key : String} (value : Json)
    (h : key ∉ fields.map Prod.fst) : dictSet fields key value = fields ++ [(key, value)] := by
  induction fields with
  | nil => rfl
  | cons p rest ih =>
    simp only [List.map_cons, List.mem_cons, not_or] at h
    simp [dictSet, Ne.symm h.1, ih h.2]

lemma foldl_dictSet_of_nodup (done pairs : List (String × Json))
    (h : ((done ++ pairs).map Prod.fst).Nodup) :
    pairs.foldl (fun d p => dictSet d p.1 p.2) done = done ++ pairs := by
  induction pairs generalizing done with
  | nil => simp
  | cons p rest ih =>
    have hp : p.1 ∉ done.map Prod.fst := by
      intro hm
      simp only [List.map_append, List.map_cons, List.nodup_append] at h
      exact h.2.2 _ hm _ (by simp) rfl
    rw [List.foldl_cons, dictSet_fresh _ hp, ih _ (by simpa using h)]
    simp

theorem dictOf_of_nodup {pairs : List (String × Json)} (h : (pairs.map Prod.fst).Nodup) :
    dictOf pairs = pairs := foldl_dictSet_of_nodup [] pairs (by simpa using h)

theorem dictGet_dictSet_self (fields : List (String × Json)) (key : String) (value : Json) :
    dictGet (dictSet fields key value) key = some value := by
  induction fields with
  | nil => simp [dictSet, dictGet]
  | cons p rest ih =>
    obtain ⟨k, v⟩ := p
    simp only [dictSet]
    split_ifs with hk
    · simp [dictGet, hk]
    · simpa [dictGet, List.lookup_cons, beq_eq_false_iff_ne.mpr (Ne.symm hk)] using ih

/-- `'\u{0:04x}'.format(n)` for a 16-bit code unit. -/
def unicodeEscape (n : ℕ) : List Char :=
  ['\\', 'u', Nat.digitChar (n / 4096 % 16), Nat.digitChar (n / 256 % 16),
    Nat.digitChar (n / 16 % 16), Nat.digitChar (n % 16)]

/-- One character inside a string literal under ensure_ascii: a character outside the basic plane
is written as two surrogates. -/
def escapeChar (c : Char) : List Char :=
  if c = '"' then ['\\', '"']
  else if c = '\\' then ['\\', '\\']
  else if c = '\n' then ['\\', 'n']
  else if c = '\r' then ['\\', 'r']
  else if c = '\t' then ['\\', 't']
  else if c = '\x0c' then ['\\', 'f']
  else if c = '\x08' then ['\\', 'b']
  else if 32 ≤ c.toNat ∧ c.toNat ≤ 126 then [c]
  else if c.toNat < 0x10000 then unicodeEscape c.toNat
  else unicodeEscape (0xd800 + (c.toNat - 0x10000) / 0x400) ++
    unicodeEscape (0xdc00 + (c.toNat - 0x10000) % 0x400)

def stringChars (s : String) : List Char := '"' :: s.toList.flatMap escapeChar ++ ['"']

def intChars (n : ℤ) : List Char :=
  if n < 0 then '-' :: Nat.toDigits 10 n.natAbs else Nat.toDigits 10 n.natAbs

def Exponent.chars (e : Exponent) : List Char :=
  'e' :: (if e.negative then '-' else '+') :: e.digits

def Decimal.chars (d : Decimal) : List Char :=
  (if d.negative then ['-'] else []) ++ Nat.toDigits 10 d.whole ++
    (if d.fraction = [] then [] else '.' :: d.fraction) ++ (d.exponent.elim [] Exponent.chars)

/-- The blanks written after a comma or a colon: one space by default, none for
`separators=(",", ":")`. -/
inductive Separators
  | spaced
  | compact
  deriving DecidableEq

def Separators.pad : Separators → List Char
  | .spaced => [' ']
  | .compact => []

mutual
def dumpsChars (sep : Separators) : Json → List Char
  | .null => ['n', 'u', 'l', 'l']
  | .bool true => ['t', 'r', 'u', 'e']
  | .bool false => ['f', 'a', 'l', 's', 'e']
  | .int n => intChars n
  | .float d => d.chars
  | .str s => stringChars s
  | .arr [] => ['[', ']']
  | .arr (x :: xs) => '[' :: dumpsChars sep x ++ itemsChars sep xs
  | .obj [] => ['{', '}']
  | .obj ((k, v) :: fs) =>
    '{' :: stringChars k ++ ':' :: sep.pad ++ dumpsChars sep v ++ membersChars sep fs

def itemsChars (sep : Separators) : List Json → List Char
  | [] => [']']
  | x :: xs => ',' :: sep.pad ++ dumpsChars sep x ++ itemsChars sep xs

def membersChars (sep : Separators) : List (String × Json) → List Char
  | [] => ['}']
  | (k, v) :: fs => ',' :: sep.pad ++ stringChars k ++ ':' :: sep.pad ++ dumpsChars sep v ++
      membersChars sep fs
end

/-- `json.dumps(value)`. -/
def dumps (j : Json) : String := String.ofList (dumpsChars .spaced j)

mutual
/-- `sort_keys=True`: every dictionary is written in the order of its keys. -/
def sortKeys : Json → Json
  | .arr xs => .arr (sortItems xs)
  | .obj fs => .obj ((sortMembers fs).mergeSort fun a b => a.1 ≤ b.1)
  | j => j

def sortItems : List Json → List Json
  | [] => []
  | x :: xs => sortKeys x :: sortItems xs

def sortMembers : List (String × Json) → List (String × Json)
  | [] => []
  | (k, v) :: fs => (k, sortKeys v) :: sortMembers fs
end

/-- `json.dumps(value, sort_keys=True, separators=(",", ":"))`. -/
def dumpsSorted (j : Json) : String := String.ofList (dumpsChars .compact (sortKeys j))

mutual
/-- No dictionary in the value has a key twice. -/
def Json.Valid : Json → Prop
  | .arr xs => ItemsValid xs
  | .obj fs => (fs.map Prod.fst).Nodup ∧ MembersValid fs
  | _ => True

def ItemsValid : List Json → Prop
  | [] => True
  | x :: xs => x.Valid ∧ ItemsValid xs

def MembersValid : List (String × Json) → Prop
  | [] => True
  | (_, v) :: fs => v.Valid ∧ MembersValid fs
end

end AsyncDataHub.PyJson
