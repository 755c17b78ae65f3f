import Mathlib

/-! A map whose entries expire. Time is a natural number; an entry is still there at the very
instant of its expiry. -/
namespace AsyncDataHub.ExpiringStore

structure Entry (V : Type*) where
  value : V
  expiresAt : ℕ

abbrev Store (K V : Type*) := K → Option (Entry V)

variable {K V : Type*}

/-- The entry under `k` that a reader at time `now` sees. -/
def live (st : Store K V) (now : ℕ) (k : K) : Option (Entry V) :=
  match st k with
  | none => none
  | some e => if now ≤ e.expiresAt then some e else none

lemma live_eq_some {st : Store K V} {now : ℕ} {k : K} {e : Entry V} :
    live st now k = some e ↔ st k = some e ∧ now ≤ e.expiresAt := by
  unfold live
  split
  · rename_i h
    simp [h]
  · rename_i d h
    rw [h]
    split_ifs with ht
    · simp only [Option.some.injEq]
      exact ⟨fun he => ⟨he, he ▸ ht⟩, And.left⟩
    · simp only [Option.some.injEq, false_iff, not_and]
      rintro rfl
      exact ht

lemma live_later {st : Store K V} {now later : ℕ} (h : now ≤ later) (k : K) :
    live st later k = (live st now k).filter fun e => decide (later ≤ e.expiresAt) := by
  unfold live
  cases st k with
  | none => rfl
  | some e =>
    by_cases hl : later ≤ e.expiresAt
    · have hn : now ≤ e.expiresAt := h.trans hl
      simp [hl, hn, Option.filter_some]
    · by_cases hn : now ≤ e.expiresAt <;> simp [hl, hn, Option.filter_some]

variable [DecidableEq K]

def put (st : Store K V) (k : K) (v : V) (expiresAt : ℕ) : Store K V :=
  Function.update st k (some ⟨v, expiresAt⟩)

def erase (st : Store K V) (k : K) : Store K V := Function.update st k none

@[simp] theorem put_self (st : Store K V) (k : K) (v : V) (t : ℕ) :
    put st k v t k = some ⟨v, t⟩ := by simp [put]

@[simp] theorem put_of_ne (st : Store K V) {k l : K} (h : l ≠ k) (v : V) (t : ℕ) :
    put st k v t l = st l := by simp [put, h]

@[simp] theorem erase_self (st : Store K V) (k : K) : erase st k k = none := by simp [erase]

@[simp] theorem erase_of_ne (st : Store K V) {k l : K} (h : l ≠ k) : erase st k l = st l := by
  simp [erase, h]

lemma live_put_self (st : Store K V) (k : K) (v : V) (t now : ℕ) :
    live (put st k v t) now k = if now ≤ t then some ⟨v, t⟩ else none := by
  simp [live]

lemma live_put_of_ne (st : Store K V) {k l : K} (h : l ≠ k) (v : V) (t now : ℕ) :
    live (put st k v t) now l = live st now l := by
  simp [live, put_of_ne st h]

lemma live_erase_self (st : Store K V) (k : K) (now : ℕ) : live (erase st k) now k = none := by
  simp [live]

lemma live_erase_of_ne (st : Store K V) {k l : K} (h : l ≠ k) (now : ℕ) :
    live (erase st k) now l = live st now l := by
  simp [live, erase_of_ne st h]

end AsyncDataHub.ExpiringStore
