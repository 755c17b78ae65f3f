import Mathlib

/-! Rows tagged with the call that has inserted them. -/
namespace AsyncDataHub.OwnedRows

structure OwnedRow (C R : Type*) where
  call : C
  row : R

variable {C R : Type*} [DecidableEq C]

def rowsBy (c : C) (rows : List (OwnedRow C R)) : List (OwnedRow C R) :=
  rows.filter fun i => i.call = c

@[simp] theorem rowsBy_nil (c : C) : rowsBy c ([] : List (OwnedRow C R)) = [] := rfl

@[simp] theorem mem_rowsBy {c : C} {rows : List (OwnedRow C R)} {i : OwnedRow C R} :
    i ∈ rowsBy c rows ↔ i ∈ rows ∧ i.call = c := by simp [rowsBy]

theorem rowsBy_append (c : C) (rows rows' : List (OwnedRow C R)) :
    rowsBy c (rows ++ rows') = rowsBy c rows ++ rowsBy c rows' := List.filter_append ..

theorem rowsBy_append_self (c : C) (rows : List (OwnedRow C R)) (r : R) :
    rowsBy c (rows ++ [⟨c, r⟩]) = rowsBy c rows ++ [⟨c, r⟩] := by
  simp [rowsBy, List.filter_append]

theorem rowsBy_append_of_ne {c d : C} (h : d ≠ c) (rows : List (OwnedRow C R)) (r : R) :
    rowsBy d (rows ++ [⟨c, r⟩]) = rowsBy d rows := by
  simp [rowsBy, List.filter_append, Ne.symm h]

/-- Two tables in which every call has the same rows have the same rows. -/
theorem perm_of_rowsBy {rows rows' : List (OwnedRow C R)}
    (h : ∀ c, rowsBy c rows = rowsBy c rows') : rows.Perm rows' := by
  classical
  rw [List.perm_iff_count]
  intro o
  have hcount : ∀ l : List (OwnedRow C R), l.count o = (rowsBy o.call l).count o :=
    fun l => (List.count_filter (by simp)).symm
  rw [hcount, hcount rows', h]

/-- Where no call has two rows there are as many rows as calls that have one. -/
theorem card_eq_length {rows : List (OwnedRow C R)} (hone : ∀ c, (rowsBy c rows).length ≤ 1)
    {calls : Finset C} (hcalls : ∀ c, c ∈ calls ↔ ∃ i ∈ rows, i.call = c) :
    calls.card = rows.length := by
  have hnodup : (rows.map OwnedRow.call).Nodup := by
    rw [List.nodup_iff_count_le_one]
    intro c
    have hcount : (rows.map OwnedRow.call).count c = (rowsBy c rows).length := by
      rw [rowsBy, List.count, List.countP_map, List.countP_eq_length_filter]
      congr 1
    exact hcount.trans_le (hone c)
  have hset : calls = (rows.map OwnedRow.call).toFinset := by
    ext c
    simp [hcalls]
  rw [hset, List.toFinset_card_of_nodup hnodup, List.length_map]

end AsyncDataHub.OwnedRows
