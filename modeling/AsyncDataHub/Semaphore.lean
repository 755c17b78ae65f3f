import Mathlib

/-! A counting semaphore with a queue of waiters: what its operations do to the queue and to the
number of slots. -/
namespace AsyncDataHub.Semaphores

variable {T : Type*}

inductive Fut
  | pending
  | result
  | cancelled
  deriving DecidableEq

structure Waiter (T : Type*) where
  task : T
  fut : Fut
  deriving DecidableEq

structure Semaphore (T : Type*) where
  value : ℕ
  waiters : List (Waiter T)

def Semaphore.init (value : ℕ) : Semaphore T := ⟨value, []⟩

/-- A slot is not given out past the tasks that wait already. -/
def Semaphore.locked (m : Semaphore T) : Bool :=
  decide (m.value = 0) || m.waiters.any fun w => decide (w.fut ≠ .cancelled)

def Semaphore.take (m : Semaphore T) : Semaphore T := { m with value := m.value - 1 }

def Semaphore.enqueue (m : Semaphore T) (t : T) : Semaphore T :=
  { m with waiters := m.waiters ++ [⟨t, .pending⟩] }

/-- The first waiter that is not done gets its result. -/
def wakeFirst : List (Waiter T) → Option (List (Waiter T))
  | [] => none
  | w :: ws =>
    if w.fut = .pending then some (⟨w.task, .result⟩ :: ws) else (wakeFirst ws).map (w :: ·)

/-- A slot is handed to a waiter when the waiter is woken, not when it runs. -/
def Semaphore.wakeUpNext (m : Semaphore T) : Semaphore T :=
  match wakeFirst m.waiters with
  | some waiters => ⟨m.value - 1, waiters⟩
  | none => m

def Semaphore.wakeUp : ℕ → Semaphore T → Semaphore T
  | 0, m => m
  | n + 1, m => if 0 < m.value then Semaphore.wakeUp n m.wakeUpNext else m

def Semaphore.putBack (m : Semaphore T) : Semaphore T := { m with value := m.value + 1 }

def Semaphore.release (m : Semaphore T) : Semaphore T := m.putBack.wakeUpNext

def Semaphore.remove [DecidableEq T] (m : Semaphore T) (t : T) : Semaphore T :=
  { m with waiters := m.waiters.filter fun w => decide (w.task ≠ t) }

def Waiter.cancel [DecidableEq T] (t : T) (w : Waiter T) : Waiter T :=
  if w.task = t ∧ w.fut = .pending then ⟨t, .cancelled⟩ else w

def Semaphore.cancelFuture [DecidableEq T] (m : Semaphore T) (t : T) : Semaphore T :=
  { m with waiters := m.waiters.map (Waiter.cancel t) }

def Semaphore.tasks (m : Semaphore T) : List T := m.waiters.map Waiter.task

/-- The slots that no task has yet taken: free ones, and those handed to waiters. -/
def Semaphore.left (m : Semaphore T) : ℕ :=
  m.value + m.waiters.countP fun w => decide (w.fut = .result)

/-- If a task waits although there is a slot, then another one is about to run that will wake it. -/
def Semaphore.Awake (m : Semaphore T) : Prop :=
  0 < m.value → (∃ w ∈ m.waiters, w.fut = .pending) → ∃ w ∈ m.waiters, w.fut = .result

section Operations
variable {m : Semaphore T} {ws ws' : List (Waiter T)} {t : T}

lemma wakeFirst_eq_none (h : wakeFirst ws = none) : ∀ w ∈ ws, w.fut ≠ .pending := by
  induction ws with
  | nil => simp
  | cons w ws ih =>
    simp only [wakeFirst] at h
    split_ifs at h with hpending
    rw [Option.map_eq_none_iff] at h
    simpa [hpending] using ih h

lemma wakeFirst_eq_some (h : wakeFirst ws = some ws') : ∃ before t after,
    ws = before ++ ⟨t, .pending⟩ :: after ∧ (∀ w ∈ before, w.fut ≠ .pending) ∧
      ws' = before ++ ⟨t, .result⟩ :: after := by
  induction ws generalizing ws' with
  | nil => cases h
  | cons w ws ih =>
    simp only [wakeFirst] at h
    split_ifs at h with hpending
    · obtain ⟨t, fut⟩ := w
      simp only at hpending
      subst hpending
      exact ⟨[], t, ws, rfl, by simp, (Option.some.inj h).symm⟩
    · obtain ⟨rest, hrest, rfl⟩ := Option.map_eq_some_iff.mp h
      obtain ⟨before, t, after, rfl, hbefore, rfl⟩ := ih hrest
      exact ⟨w :: before, t, after, rfl, by simpa [hpending] using hbefore, rfl⟩

lemma wakeUpNext_cases (m : Semaphore T) :
    ((∀ w ∈ m.waiters, w.fut ≠ .pending) ∧ m.wakeUpNext = m) ∨
      ∃ before t after, m.waiters = before ++ ⟨t, .pending⟩ :: after ∧
        (∀ w ∈ before, w.fut ≠ .pending) ∧
        m.wakeUpNext = ⟨m.value - 1, before ++ ⟨t, .result⟩ :: after⟩ := by
  cases h : wakeFirst m.waiters with
  | none => exact .inl ⟨wakeFirst_eq_none h, by simp [Semaphore.wakeUpNext, h]⟩
  | some ws =>
    obtain ⟨before, t, after, hm, hbefore, rfl⟩ := wakeFirst_eq_some h
    exact .inr ⟨before, t, after, hm, hbefore, by simp [Semaphore.wakeUpNext, h]⟩

lemma wakeUp_induction {P : Semaphore T → Prop} (hwake : ∀ m, 0 < m.value → P m → P m.wakeUpNext)
    (n : ℕ) (h : P m) : P (m.wakeUp n) := by
  induction n generalizing m with
  | zero => exact h
  | succ n ih =>
    unfold Semaphore.wakeUp
    split_ifs with hpos
    · exact ih (hwake m hpos h)
    · exact h

lemma tasks_wakeUpNext (m : Semaphore T) : m.wakeUpNext.tasks = m.tasks := by
  rcases wakeUpNext_cases m with ⟨_, h⟩ | ⟨before, t, after, hm, _, h⟩
  · rw [h]
  · rw [h]
    simp [Semaphore.tasks, hm]

@[simp] lemma tasks_wakeUp (m : Semaphore T) (n : ℕ) : (m.wakeUp n).tasks = m.tasks :=
  wakeUp_induction (P := fun k => k.tasks = m.tasks)
    (fun k _ hk => (tasks_wakeUpNext k).trans hk) n rfl

lemma left_wakeUpNext (hpos : 0 < m.value) : m.wakeUpNext.left = m.left := by
  rcases wakeUpNext_cases m with ⟨_, h⟩ | ⟨before, t, after, hm, _, h⟩
  · rw [h]
  · rw [h]
    simp only [Semaphore.left, hm, List.countP_append, List.countP_cons]
    simp
    omega

@[simp] lemma left_wakeUp (m : Semaphore T) (n : ℕ) : (m.wakeUp n).left = m.left :=
  wakeUp_induction (P := fun k => k.left = m.left)
    (fun _ hpos hk => (left_wakeUpNext hpos).trans hk) n rfl

lemma awake_wakeUpNext (m : Semaphore T) : m.wakeUpNext.Awake := by
  rintro - ⟨w, hw, hpending⟩
  rcases wakeUpNext_cases m with ⟨hnone, h⟩ | ⟨before, t, after, _, _, h⟩
  · rw [h] at hw
    exact absurd hpending (hnone w hw)
  · rw [h]
    exact ⟨⟨t, .result⟩, by simp, rfl⟩

lemma Semaphore.Awake.wakeUp (h : m.Awake) (n : ℕ) : (m.wakeUp n).Awake :=
  wakeUp_induction (fun k _ _ => awake_wakeUpNext k) n h

lemma awake_wakeUp {n : ℕ} (hn : 0 < n) (m : Semaphore T) : (m.wakeUp n).Awake := by
  obtain ⟨k, rfl⟩ := Nat.exists_eq_add_of_lt hn
  rw [Nat.zero_add, Semaphore.wakeUp]
  split_ifs with hpos
  · exact (awake_wakeUpNext m).wakeUp k
  · exact fun h => absurd h hpos

lemma mem_tasks {f : Fut} (h : (⟨t, f⟩ : Waiter T) ∈ m.waiters) : t ∈ m.tasks :=
  List.mem_map.mpr ⟨_, h, rfl⟩

lemma not_pending_of_unlocked (h : m.locked = false) :
    0 < m.value ∧ ∀ w ∈ m.waiters, w.fut = .cancelled := by
  simpa [Semaphore.locked, Nat.pos_iff_ne_zero] using h

lemma left_take (h : m.locked = false) : m.take.left + 1 = m.left := by
  have hpos := (not_pending_of_unlocked h).1
  simp only [Semaphore.left, Semaphore.take]
  omega

lemma awake_take (h : m.locked = false) : m.take.Awake := by
  rintro - ⟨w, hw, hpending⟩
  simp [(not_pending_of_unlocked h).2 w hw] at hpending

lemma left_enqueue (m : Semaphore T) : (m.enqueue t).left = m.left := by
  simp [Semaphore.left, Semaphore.enqueue]

lemma tasks_enqueue (m : Semaphore T) : (m.enqueue t).tasks = m.tasks ++ [t] := by
  simp [Semaphore.tasks, Semaphore.enqueue]

/-- Who joins the queue of a semaphore that has a slot does so because of a task that is woken. -/
lemma awake_enqueue (h : m.Awake) (hlocked : m.locked = true) :
    (m.enqueue t).Awake := by
  intro hpos _
  have hvalue : 0 < m.value := hpos
  obtain ⟨w, hw, hfut⟩ : ∃ w ∈ m.waiters, w.fut ≠ .cancelled := by
    simpa [Semaphore.locked, hvalue.ne'] using hlocked
  have hresult : ∃ w ∈ m.waiters, w.fut = .result := by
    cases hf : w.fut with
    | pending => exact h hvalue ⟨w, hw, hf⟩
    | result => exact ⟨w, hw, hf⟩
    | cancelled => exact absurd hf hfut
  obtain ⟨w', hw', hf'⟩ := hresult
  exact ⟨w', List.mem_append_left _ hw', hf'⟩

lemma left_putBack (m : Semaphore T) : m.putBack.left = m.left + 1 := by
  simp only [Semaphore.left, Semaphore.putBack]
  omega

lemma left_release (m : Semaphore T) : m.release.left = m.left + 1 := by
  rw [Semaphore.release, left_wakeUpNext (Nat.succ_pos _), left_putBack]

lemma tasks_release (m : Semaphore T) : m.release.tasks = m.tasks := tasks_wakeUpNext _

@[simp] lemma tasks_putBack (m : Semaphore T) : m.putBack.tasks = m.tasks := rfl

variable [DecidableEq T]

lemma tasks_remove (m : Semaphore T) : (m.remove t).tasks = m.tasks.filter (· ≠ t) := by
  simp [Semaphore.tasks, Semaphore.remove, List.filter_map, Function.comp_def]

lemma mem_tasks_remove {u : T} : u ∈ (m.remove t).tasks ↔ u ≠ t ∧ u ∈ m.tasks := by
  rw [tasks_remove, List.mem_filter, decide_eq_true_eq, and_comm]

lemma nodup_tasks_remove (h : m.tasks.Nodup) : (m.remove t).tasks.Nodup := by
  rw [tasks_remove]
  exact h.filter _

lemma left_remove {f : Fut} (hnodup : m.tasks.Nodup)
    (h : (⟨t, f⟩ : Waiter T) ∈ m.waiters) :
    (m.remove t).left + (if f = .result then 1 else 0) = m.left := by
  obtain ⟨before, after, hm⟩ := List.append_of_mem h
  have hsplit : ∀ w ∈ before ++ after, w.task ≠ t := by
    rw [Semaphore.tasks, hm, List.map_append, List.map_cons, List.nodup_middle, List.nodup_cons,
      ← List.map_append] at hnodup
    exact fun w hw heq => hnodup.1 (List.mem_map.mpr ⟨w, hw, heq⟩)
  have hb : before.filter (fun w => decide (w.task ≠ t)) = before :=
    List.filter_eq_self.mpr fun w hw => by simpa using hsplit w (List.mem_append_left _ hw)
  have ha : after.filter (fun w => decide (w.task ≠ t)) = after :=
    List.filter_eq_self.mpr fun w hw => by simpa using hsplit w (List.mem_append_right _ hw)
  simp only [Semaphore.left, Semaphore.remove, hm, List.filter_append, List.filter_cons, hb, ha,
    List.countP_append, List.countP_cons]
  by_cases hf : f = .result <;> simp [hf]
  omega

lemma tasks_cancelFuture (m : Semaphore T) : (m.cancelFuture t).tasks = m.tasks := by
  simp only [Semaphore.tasks, Semaphore.cancelFuture, List.map_map]
  refine List.map_congr_left fun w _ => ?_
  simp only [Function.comp_apply, Waiter.cancel]
  split_ifs with hw
  · exact hw.1.symm
  · rfl

lemma left_cancelFuture (m : Semaphore T) : (m.cancelFuture t).left = m.left := by
  simp only [Semaphore.left, Semaphore.cancelFuture, List.countP_map]
  congr 2
  funext w
  simp only [Function.comp_apply, Waiter.cancel]
  split_ifs with hw <;> simp [hw]

lemma awake_cancelFuture (h : m.Awake) : (m.cancelFuture t).Awake := by
  rintro hpos ⟨w', hw', hpending⟩
  obtain ⟨w, hw, rfl⟩ := List.mem_map.mp hw'
  have hsame : w.fut = .pending := by
    unfold Waiter.cancel at hpending
    split_ifs at hpending
    exact hpending
  obtain ⟨v, hv, hresult⟩ := h hpos ⟨w, hw, hsame⟩
  refine ⟨v.cancel t, List.mem_map_of_mem hv, ?_⟩
  simp [Waiter.cancel, hresult]

lemma awake_remove_cancelled (hnodup : m.tasks.Nodup)
    (h : (⟨t, .cancelled⟩ : Waiter T) ∈ m.waiters) (hawake : m.Awake) : (m.remove t).Awake := by
  rintro hpos ⟨w, hw, hpending⟩
  obtain ⟨v, hv, hresult⟩ := hawake hpos ⟨w, (List.mem_filter.mp hw).1, hpending⟩
  refine ⟨v, List.mem_filter.mpr ⟨hv, ?_⟩, hresult⟩
  simp only [decide_eq_true_eq]
  intro heq
  have hsame : v = ⟨t, .cancelled⟩ := List.inj_on_of_nodup_map hnodup hv h heq
  simp [hsame] at hresult

end Operations

end AsyncDataHub.Semaphores
