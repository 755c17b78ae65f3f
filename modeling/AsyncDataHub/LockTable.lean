import Mathlib

/-! A table of exclusive locks. A holder may have any number of locks and drops all of them at
once, as the end of a transaction does. -/
namespace AsyncDataHub.LockTable

abbrev Locks (K T : Type*) := K → Option T

variable {K T : Type*}

/-- Holder `t` may go on with `k`: nobody else has it. -/
def Available (locks : Locks K T) (k : K) (t : T) : Prop := ∀ u, locks k = some u → u = t

section Take
variable [DecidableEq K]

def take (locks : Locks K T) (k : K) (t : T) : Locks K T := Function.update locks k (some t)

@[simp] theorem take_self (locks : Locks K T) (k : K) (t : T) : take locks k t k = some t := by
  simp [take]

@[simp] theorem take_of_ne (locks : Locks K T) {k l : K} (h : l ≠ k) (t : T) :
    take locks k t l = locks l := by simp [take, h]

/-- A lock that somebody else holds survives the taking of an available one. -/
theorem take_eq_some_of_ne {locks : Locks K T} {k l : K} {t u : T} (ha : Available locks k t)
    (hu : locks l = some u) (hne : u ≠ t) : take locks k t l = some u := by
  by_cases hl : l = k
  · subst hl
    exact absurd (ha u hu) hne
  · rw [take_of_ne _ hl, hu]

end Take

section Release
variable [DecidableEq T]

instance (locks : Locks K T) (k : K) (t : T) : Decidable (Available locks k t) :=
  match h : locks k with
  | none => isTrue (by simp [Available, h])
  | some u => decidable_of_iff (u = t) (by simp [Available, h])

def releaseAll (locks : Locks K T) (t : T) : Locks K T :=
  fun k => if locks k = some t then none else locks k

theorem releaseAll_eq_some {locks : Locks K T} {t u : T} {k : K} :
    releaseAll locks t k = some u ↔ locks k = some u ∧ u ≠ t := by
  unfold releaseAll
  split_ifs with h
  · rw [h]
    simp [eq_comm]
  · constructor
    · intro hu
      exact ⟨hu, fun he => h (he ▸ hu)⟩
    · exact And.left

end Release

end AsyncDataHub.LockTable
