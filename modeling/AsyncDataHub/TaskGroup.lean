import Mathlib

/-! A group of child tasks, as `asyncio.TaskGroup` runs them. A child that fails has the group
aborted in a later step; a child of an aborted group ends cancelled when it runs again. -/
namespace AsyncDataHub.TaskGroup

/-- A child runs with some local state, or has ended in one of three ways. -/
inductive Child (L E : Type*)
  | running (l : L)
  | ended
  | failed (e : E)
  | cancelled

structure Group (ι L E : Type*) where
  child : ι → Child L E
  aborting : Bool := false

variable {ι L E : Type*}

def Child.isRunning : Child L E → Bool
  | .running _ => true
  | _ => false

def Child.isFailed : Child L E → Bool
  | .failed _ => true
  | _ => false

/-- The local state of a child that can go on with its own code. -/
def Group.active (g : Group ι L E) (i : ι) : Option L :=
  match g.child i with
  | .running l => if g.aborting then none else some l
  | _ => none

lemma Group.active_eq_some {g : Group ι L E} {i : ι} {l : L} :
    g.active i = some l ↔ g.aborting = false ∧ g.child i = .running l := by
  unfold Group.active
  cases g.child i <;> cases g.aborting <;> simp

def Group.Finished (g : Group ι L E) : Prop := ∀ i, (g.child i).isRunning = false

def Group.HasFailed (g : Group ι L E) : Prop := ∃ i, (g.child i).isFailed = true

section Steps
variable [DecidableEq ι]

def Group.set (g : Group ι L E) (i : ι) (c : Child L E) : Group ι L E :=
  { g with child := Function.update g.child i c }

@[simp] theorem Group.set_aborting (g : Group ι L E) (i : ι) (c : Child L E) :
    (g.set i c).aborting = g.aborting := rfl

@[simp] theorem Group.set_child_self (g : Group ι L E) (i : ι) (c : Child L E) :
    (g.set i c).child i = c := by simp [Group.set]

@[simp] theorem Group.set_child_of_ne (g : Group ι L E) {i j : ι} (h : j ≠ i) (c : Child L E) :
    (g.set i c).child j = g.child j := by simp [Group.set, h]

/-- A child of an aborted group runs again and gets a CancelledError. -/
def Group.cancelChild (g : Group ι L E) (i : ι) : Option (Group ι L E) :=
  if g.aborting = true ∧ (g.child i).isRunning = true then some (g.set i .cancelled) else none

lemma Group.cancelChild_eq_some {g h : Group ι L E} {i : ι} :
    g.cancelChild i = some h ↔
      g.aborting = true ∧ (g.child i).isRunning = true ∧ h = g.set i .cancelled := by
  unfold Group.cancelChild
  split_ifs with hcond
  · simp [hcond, eq_comm]
  · simp only [false_iff]
    exact fun hh => hcond ⟨hh.1, hh.2.1⟩

lemma Group.HasFailed.set {g : Group ι L E} (h : g.HasFailed) {i : ι} {c : Child L E}
    (hrun : (g.child i).isRunning = true) : (g.set i c).HasFailed := by
  obtain ⟨j, hj⟩ := h
  have hne : j ≠ i := by
    rintro rfl
    cases hc : g.child j <;> simp [hc, Child.isRunning, Child.isFailed] at hrun hj
  exact ⟨j, by rwa [Group.set_child_of_ne _ hne]⟩

end Steps

/-- Children are cancelled in an aborted group only, and a group is aborted for a reason. -/
structure Group.Orderly (g : Group ι L E) (parentCancelled : Bool) : Prop where
  cancelled : ∀ i, g.child i = .cancelled → g.aborting = true
  cause : g.aborting = true → g.HasFailed ∨ parentCancelled = true

lemma Group.Orderly.mono {g : Group ι L E} {p q : Bool} (h : g.Orderly p)
    (hpq : p = true → q = true) : g.Orderly q :=
  ⟨h.cancelled, fun ha => (h.cause ha).imp_right hpq⟩

lemma orderly_aborted {g : Group ι L E} {p : Bool}
    (hcause : g.HasFailed ∨ p = true) : Group.Orderly { g with aborting := true } p :=
  ⟨fun _ _ => rfl, fun _ => hcause⟩

lemma Group.Orderly.set [DecidableEq ι] {g : Group ι L E} {p : Bool} (h : g.Orderly p) {i : ι}
    {c : Child L E} (hrun : (g.child i).isRunning = true)
    (hc : c = .cancelled → g.aborting = true) : (g.set i c).Orderly p := by
  constructor
  · intro j hj
    by_cases hji : j = i
    · subst hji
      exact hc (by simpa using hj)
    · exact h.cancelled j (by simpa [hji] using hj)
  · exact fun ha => (h.cause ha).imp_left fun hf => hf.set hrun

lemma Group.Orderly.ended {g : Group ι L E} {p : Bool} (h : g.Orderly p) (hfin : g.Finished)
    (hfailed : ¬ g.HasFailed) (hp : p = false) (i : ι) : g.child i = .ended := by
  have hcalm : g.aborting ≠ true := by
    intro ha
    rcases h.cause ha with hf | hcancel
    · exact hfailed hf
    · simp [hp] at hcancel
  cases hc : g.child i with
  | running l =>
    have hrun := hfin i
    simp [hc, Child.isRunning] at hrun
  | ended => rfl
  | failed e => exact absurd ⟨i, by simp [hc, Child.isFailed]⟩ hfailed
  | cancelled => exact absurd (h.cancelled i hc) hcalm

/-- `seen` are the children that have handed in what they `owe` while they run. -/
structure Group.Collects (g : Group ι L E) (owes : L → Prop) (seen : List ι) : Prop where
  distinct : seen.Nodup
  running : ∀ i l, g.child i = .running l → (owes l ↔ i ∉ seen)
  ended : ∀ i, g.child i = .ended → i ∈ seen

lemma Group.Collects.settle [DecidableEq ι] {g : Group ι L E} {owes : L → Prop} {seen : List ι}
    (h : g.Collects owes seen) {i : ι} {c : Child L E} (hc : c.isRunning = false)
    (hended : c = .ended → i ∈ seen) : (g.set i c).Collects owes seen := by
  refine ⟨h.distinct, fun j l hj => ?_, fun j hj => ?_⟩
  · by_cases hji : j = i
    · subst hji
      simp only [Group.set_child_self] at hj
      simp [hj, Child.isRunning] at hc
    · exact h.running j l (by simpa [hji] using hj)
  · by_cases hji : j = i
    · subst hji
      exact hended (by simpa using hj)
    · exact h.ended j (by simpa [hji] using hj)

lemma Group.Collects.collect [DecidableEq ι] {g : Group ι L E} {owes : L → Prop} {seen : List ι}
    (h : g.Collects owes seen) {i : ι} {l l' : L} (hi : g.child i = .running l) (hl : owes l)
    (hl' : ¬ owes l') : (g.set i (.running l')).Collects owes (seen ++ [i]) := by
  have hnew : i ∉ seen := (h.running i l hi).mp hl
  refine ⟨?_, fun j m hj => ?_, fun j hj => ?_⟩
  · have hnodup := h.distinct.concat hnew
    rwa [List.concat_eq_append] at hnodup
  · by_cases hji : j = i
    · subst hji
      simp only [Group.set_child_self, Child.running.injEq] at hj
      simpa [← hj] using hl'
    · have hold := h.running j m (by simpa [hji] using hj)
      simpa [hji] using hold
  · by_cases hji : j = i
    · simp [hji]
    · exact List.mem_append_left _ (h.ended j (by simpa [hji] using hj))

lemma Group.Collects.perm {n : ℕ} {g : Group (Fin n) L E} {owes : L → Prop} {seen : List (Fin n)}
    (h : g.Collects owes seen) (hall : ∀ i, g.child i = .ended) : seen.Perm (List.finRange n) := by
  refine (List.perm_ext_iff_of_nodup h.distinct (List.nodup_finRange n)).mpr fun i => ?_
  simpa using h.ended i (hall i)

variable [Fintype ι]

instance (g : Group ι L E) : Decidable g.Finished :=
  inferInstanceAs (Decidable (∀ i, (g.child i).isRunning = false))

instance (g : Group ι L E) : Decidable g.HasFailed :=
  inferInstanceAs (Decidable (∃ i, (g.child i).isFailed = true))

/-- The group learns of a failed child, or of the cancellation of its parent. -/
def Group.abort (g : Group ι L E) (parentCancelled : Bool) : Option (Group ι L E) :=
  if g.aborting = false ∧ (g.HasFailed ∨ parentCancelled = true) then
    some { g with aborting := true }
  else none

lemma Group.abort_eq_some {g h : Group ι L E} {parentCancelled : Bool} :
    g.abort parentCancelled = some h ↔
      g.aborting = false ∧ (g.HasFailed ∨ parentCancelled = true) ∧
        h = { g with aborting := true } := by
  unfold Group.abort
  split_ifs with hcond
  · simp [hcond, eq_comm]
  · simp only [false_iff]
    exact fun hh => hcond ⟨hh.1, hh.2.1⟩

/-- What the children weigh together: slots that they hold, or steps that they have left. -/
def Group.load (w : Child L E → ℕ) (g : Group ι L E) : ℕ := ∑ i, w (g.child i)

lemma Group.load_eq_zero {w : Child L E → ℕ} {g : Group ι L E} :
    g.load w = 0 ↔ ∀ i, w (g.child i) = 0 := by simp [Group.load]

lemma Group.load_set [DecidableEq ι] (w : Child L E → ℕ) (g : Group ι L E) (i : ι)
    (c : Child L E) : (g.set i c).load w + w (g.child i) = g.load w + w c := by
  have hrest : ∑ j ∈ Finset.univ.erase i, w ((g.set i c).child j)
      = ∑ j ∈ Finset.univ.erase i, w (g.child j) :=
    Finset.sum_congr rfl fun j hj => by rw [Group.set_child_of_ne _ (Finset.ne_of_mem_erase hj)]
  have hl := Finset.add_sum_erase Finset.univ (fun j => w ((g.set i c).child j)) (Finset.mem_univ i)
  have hr := Finset.add_sum_erase Finset.univ (fun j => w (g.child j)) (Finset.mem_univ i)
  simp only [Group.set_child_self] at hl
  simp only [Group.load, ← hl, ← hr, hrest]
  omega

end AsyncDataHub.TaskGroup
