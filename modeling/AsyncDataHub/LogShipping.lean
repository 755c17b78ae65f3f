import Mathlib

/-! A primary's log and the standbys that follow it. A node shows the rows of the commit records
that it has replayed; a position in the log is the number of records before it. -/
namespace AsyncDataHub.LogShipping

inductive Record (K V : Type*)
  | commit (k : K) (v : V)
  | other
  deriving DecidableEq

variable {K V : Type*} {log log' : List (Record K V)} {r : Record K V} {k : K} {v w : V}
  {i j n : ℕ} {x : Option V}

/-- The record at position `i` commits a row. -/
def CommitAt (log : List (Record K V)) (i : ℕ) (k : K) (v : V) : Prop :=
  log[i]? = some (.commit k v)

/-- The row of a key is the one of the commit record at position `i`, or of a later one. -/
def FreshFrom (log : List (Record K V)) (k : K) (i : ℕ) (x : Option V) : Prop :=
  ∃ j v, i ≤ j ∧ CommitAt log j k v ∧ x = some v

def Distinct (log : List (Record K V)) (k : K) : Prop :=
  ∀ i j v, CommitAt log i k v → CommitAt log j k v → i = j

def LastAt (log : List (Record K V)) (i : ℕ) (k : K) (v : V) : Prop :=
  CommitAt log i k v ∧ ∀ j w, CommitAt log j k w → j ≤ i

lemma CommitAt.lt (h : CommitAt log i k v) : i < log.length := (List.getElem?_eq_some_iff.mp h).1

lemma CommitAt.unique (h : CommitAt log i k v) (h' : CommitAt log i k w) : v = w := by
  have heq := h.symm.trans h'
  simpa using heq

lemma commitAt_append :
    CommitAt (log ++ [r]) i k v ↔ CommitAt log i k v ∨ i = log.length ∧ r = .commit k v := by
  unfold CommitAt
  rcases Nat.lt_trichotomy i log.length with hi | hi | hi
  · simp [List.getElem?_append_left hi, hi.ne]
  · subst hi
    simp
  · rw [List.getElem?_eq_none (by simp; omega), List.getElem?_eq_none hi.le]
    simp [hi.ne']

lemma commitAt_take : CommitAt (log.take n) i k v ↔ i < n ∧ CommitAt log i k v := by
  unfold CommitAt
  rw [List.getElem?_take]
  split_ifs with hi <;> simp [hi]

lemma CommitAt.mono (h : CommitAt log i k v) (r : Record K V) : CommitAt (log ++ [r]) i k v :=
  commitAt_append.mpr (.inl h)

lemma FreshFrom.mono (h : FreshFrom log k i x) (r : Record K V) :
    FreshFrom (log ++ [r]) k i x := by
  obtain ⟨j, v, hij, hj, hx⟩ := h
  exact ⟨j, v, hij, hj.mono r, hx⟩

section Replay
variable [DecidableEq K]

def Record.apply (rows : K → Option V) : Record K V → K → Option V
  | .commit k v => Function.update rows k (some v)
  | .other => rows

/-- The rows that a log leaves. -/
def replay (log : List (Record K V)) : K → Option V := log.foldl Record.apply fun _ => none

lemma replay_append (log : List (Record K V)) (r : Record K V) :
    replay (log ++ [r]) = r.apply (replay log) := by simp [replay]

lemma replay_last (h : CommitAt log i k v) : ∃ j w, LastAt log j k w ∧ replay log k = some w := by
  induction log using List.reverseRecOn with
  | nil => simp [CommitAt] at h
  | append_singleton log r ih =>
    rw [replay_append]
    by_cases hr : ∃ w, r = .commit k w
    · obtain ⟨w, rfl⟩ := hr
      refine ⟨log.length, w, ⟨commitAt_append.mpr (.inr ⟨rfl, rfl⟩), fun j u hj => ?_⟩,
        Function.update_self ..⟩
      rcases commitAt_append.mp hj with hj | ⟨rfl, _⟩
      · exact hj.lt.le
      · exact le_rfl
    · have hkeep : r.apply (replay log) k = replay log k := by
        cases r with
        | other => rfl
        | commit k' u =>
          refine Function.update_of_ne (fun hk => hr ⟨u, ?_⟩) _ _
          rw [hk]
      have hold : ∀ {j u}, CommitAt (log ++ [r]) j k u → CommitAt log j k u := by
        intro j u hj
        rcases commitAt_append.mp hj with hj | ⟨_, hcommit⟩
        · exact hj
        · exact absurd ⟨u, hcommit⟩ hr
      obtain ⟨j, w, ⟨hj, hlast⟩, hw⟩ := ih (hold h)
      exact ⟨j, w, ⟨hj.mono r, fun l u hl => hlast l u (hold hl)⟩, hkeep.trans hw⟩

lemma commitAt_of_replay (h : replay log k = some v) : ∃ j, CommitAt log j k v := by
  induction log using List.reverseRecOn with
  | nil => cases h
  | append_singleton log r ih =>
    rw [replay_append] at h
    cases r with
    | other =>
      obtain ⟨j, hj⟩ := ih h
      exact ⟨j, hj.mono _⟩
    | commit k' u =>
      by_cases hk : k = k'
      · subst hk
        rw [Record.apply, Function.update_self, Option.some.injEq] at h
        exact ⟨log.length, commitAt_append.mpr (.inr ⟨rfl, by rw [h]⟩)⟩
      · rw [Record.apply, Function.update_of_ne hk] at h
        obtain ⟨j, hj⟩ := ih h
        exact ⟨j, hj.mono _⟩

/-- A node that has replayed a commit record shows it or a later one. -/
theorem replay_take_fresh (h : CommitAt log i k v) (hn : i < n) :
    FreshFrom log k i (replay (log.take n) k) := by
  obtain ⟨j, w, ⟨hj, hlast⟩, hw⟩ := replay_last (commitAt_take.mpr ⟨hn, h⟩)
  exact ⟨j, w, hlast i v (commitAt_take.mpr ⟨hn, h⟩), (commitAt_take.mp hj).2, hw⟩

/-- What a node shows is from a record on exactly if the node has replayed this record. -/
theorem replay_take_fresh_iff (hd : Distinct log k) (h : CommitAt log i k v) :
    FreshFrom log k i (replay (log.take n) k) ↔ i < n := by
  refine ⟨fun hfresh => ?_, replay_take_fresh h⟩
  obtain ⟨j, w, hij, hj, hw⟩ := hfresh
  obtain ⟨l, hl⟩ := commitAt_of_replay hw
  obtain ⟨hln, hl⟩ := commitAt_take.mp hl
  have hsame := hd j l w hj hl
  omega

end Replay

/-- The positions of a standby: what it has received, what is on its disk and what it shows. Each of
them only goes forward. -/
structure Standby where
  received : ℕ := 0
  flushed : ℕ := 0
  replayed : ℕ := 0
  flushed_le : flushed ≤ received := by omega
  replayed_le : replayed ≤ flushed := by omega

def Standby.receive (sb : Standby) (n : ℕ) : Standby where
  received := max sb.received n
  flushed := sb.flushed
  replayed := sb.replayed
  flushed_le := sb.flushed_le.trans (le_max_left _ _)
  replayed_le := sb.replayed_le

def Standby.flush (sb : Standby) (n : ℕ) : Standby where
  received := sb.received
  flushed := max sb.flushed (min n sb.received)
  replayed := sb.replayed
  flushed_le := max_le sb.flushed_le (min_le_right _ _)
  replayed_le := sb.replayed_le.trans (le_max_left _ _)

def Standby.replay (sb : Standby) (n : ℕ) : Standby where
  received := sb.received
  flushed := sb.flushed
  replayed := max sb.replayed (min n sb.flushed)
  flushed_le := sb.flushed_le
  replayed_le := max_le sb.replayed_le (min_le_right _ _)

/-- A standby has gone on. -/
structure Standby.Le (sb sb' : Standby) : Prop where
  received : sb.received ≤ sb'.received
  flushed : sb.flushed ≤ sb'.flushed
  replayed : sb.replayed ≤ sb'.replayed

lemma Standby.Le.refl (sb : Standby) : sb.Le sb := ⟨le_rfl, le_rfl, le_rfl⟩

lemma Standby.le_receive (sb : Standby) (n : ℕ) : sb.Le (sb.receive n) :=
  ⟨le_max_left _ _, le_rfl, le_rfl⟩

lemma Standby.le_flush (sb : Standby) (n : ℕ) : sb.Le (sb.flush n) :=
  ⟨le_rfl, le_max_left _ _, le_rfl⟩

lemma Standby.le_replay (sb : Standby) (n : ℕ) : sb.Le (sb.replay n) :=
  ⟨le_rfl, le_rfl, le_max_left _ _⟩

end AsyncDataHub.LogShipping
