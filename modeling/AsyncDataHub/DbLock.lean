import AsyncDataHub.LockOrder

/-! Row locks of transactions that ask for them in the order of `_order_locks`. -/
namespace AsyncDataHub.DbLock
open StepSystem LockOrder

def share : String := "share"

def exclusive : String := "exclusive"

def lockCompatible (modeA modeB : String) : Bool := modeA = modeB ∧ modeB = share

def orderLocks (resourceIds : List String) : List String := resourceIds.insertionSort (· ≤ ·)

lemma lockCompatible_iff (modeA modeB : String) :
    lockCompatible modeA modeB = true ↔ modeA = share ∧ modeB = share := by
  simp only [lockCompatible, decide_eq_true_eq]
  constructor
  · rintro ⟨rfl, rfl⟩
    exact ⟨rfl, rfl⟩
  · rintro ⟨rfl, rfl⟩
    exact ⟨rfl, rfl⟩

lemma orderLocks_sorted (resourceIds : List String) :
    (orderLocks resourceIds).Pairwise (· ≤ ·) := List.pairwise_insertionSort (· ≤ ·) resourceIds

lemma orderLocks_perm (resourceIds : List String) :
    (orderLocks resourceIds).Perm resourceIds := List.perm_insertionSort (· ≤ ·) resourceIds

abbrev Rows (T : Type*) := State T String String

def lock {T : Type*} [DecidableEq T] : Rows T → Action T String String → Option (Rows T) :=
  step orderLocks lockCompatible

variable {T : Type*} [DecidableEq T] {acts : List (Action T String String)} {s : Rows T}

/-- No run leads to a cycle in the wait-for graph, and so to no deadlock: no finite set of
transactions in which each waits for another, and as long as one is open, one of them can go on. -/
theorem no_deadlock (h : exec lock {} acts = some s) :
    (∀ t, ¬ Relation.TransGen (WaitsFor lockCompatible s) t t) ∧
      (∀ D : Finset T, D.Nonempty → ∃ t ∈ D, ∀ u ∈ D, ¬ WaitsFor lockCompatible s t u) ∧
      ∀ t, s.txns t ≠ none → ∃ u x, s.txns u = some x ∧
        (x.todo = [] ∨ ∃ r rest, x.todo = r :: rest ∧
          s.Grants lockCompatible u r (x.mode r)) := by
  have hi := ordered_of_exec orderLocks_sorted h
  refine ⟨acyclic hi, fun D hD => ?_, fun t ht => exists_progress hi ht⟩
  obtain ⟨t, ht, hfree⟩ := exists_not_blocks lockCompatible hi hD
  exact ⟨t, ht, fun u hu hwaits => hfree u hu (blocks_of_waitsFor hi hwaits)⟩

/-- Two transactions with the same rows in different orders: both ask for `a` first. -/
def crossed : List (Action ℕ String String) :=
  [.begin 1 ["b", "a"] fun _ => exclusive, .begin 2 ["a", "b"] fun _ => share, .request 1,
    .request 2, .request 1]

theorem no_deadlock_crossed :
    ∃ s : Rows ℕ, exec lock {} crossed = some s ∧ WaitsFor lockCompatible s 2 1 ∧
      (∀ t, ¬ Relation.TransGen (WaitsFor lockCompatible s) t t) ∧
      (∀ D : Finset ℕ, D.Nonempty → ∃ t ∈ D, ∀ u ∈ D, ¬ WaitsFor lockCompatible s t u) ∧
      ∀ t, s.txns t ≠ none → ∃ u x, s.txns u = some x ∧
        (x.todo = [] ∨ ∃ r rest, x.todo = r :: rest ∧
          s.Grants lockCompatible u r (x.mode r)) := by
  have hrun : ∃ s : Rows ℕ, exec lock {} crossed = some s ∧ WaitsFor lockCompatible s 2 1 :=
    ⟨_, rfl, _, _, _, rfl, rfl, rfl, _, List.mem_cons_of_mem _ List.mem_cons_self, rfl, rfl,
      by decide, rfl⟩
  obtain ⟨s, hs, hwaits⟩ := hrun
  exact ⟨s, hs, hwaits, no_deadlock hs⟩

end AsyncDataHub.DbLock
