import AsyncDataHub.StepSystem

/-! Callers that share one task for a key. The body under the lock has no await, so a call runs in
one piece up to `await task`, and in one piece from there on; a caller of `get_or_set` that has
missed is such a caller, with `_build` for a factory. -/
namespace AsyncDataHub.Coalescer
open StepSystem

abbrev TaskId := ℕ
abbrev CallerId := ℕ

inductive Outcome (V E : Type*)
  | result (r : Except E V)
  | cancelled

inductive TaskState (V E : Type*)
  | running
  /-- `task.cancel()` was called; the factory is left with CancelledError. -/
  | cancelling
  | done (o : Outcome V E)

/-- A caller waits in `await task`, perhaps with CancelledError to be thrown at its next step, or
its call has ended. -/
inductive Phase (V E : Type*)
  | awaiting (mustCancel : Bool)
  | finished (o : Outcome V E)

structure Caller (K V E : Type*) where
  key : K
  task : TaskId
  phase : Phase V E

/-- `registry` is `self._tasks`. -/
structure State (K V E : Type*) where
  tasks : TaskId → Option (TaskState V E)
  registry : K → Option TaskId
  callers : CallerId → Option (Caller K V E)
  next : TaskId

def State.init (K V E : Type*) : State K V E := ⟨fun _ => none, fun _ => none, fun _ => none, 0⟩

inductive Event (K V E : Type*)
  | call (c : CallerId) (key : K)
  /-- The factory of a task returns or raises, unless it is being cancelled. -/
  | finish (t : TaskId) (r : Except E V)
  | wake (c : CallerId)
  | cancel (c : CallerId)

variable {K V E : Type*}

lemma tasks_update_ne_none {s : State K V E} {x : TaskState V E} {t t' : TaskId}
    (h : s.tasks t' ≠ none) :
    Function.update s.tasks t (some x) t' ≠ none := by
  by_cases ht : t' = t
  · simp [ht]
  · rwa [Function.update_of_ne ht]

variable [DecidableEq K]

/-- The block under the lock: the registered task, or a new one. -/
def State.join (s : State K V E) (key : K) : State K V E × TaskId :=
  match s.registry key with
  | some t => (s, t)
  | none =>
    ({ s with
        tasks := Function.update s.tasks s.next (some .running)
        registry := Function.update s.registry key (some s.next)
        next := s.next + 1 }, s.next)

/-- The `finally` block: only a task that is done, and still the registered one, is removed. -/
def State.unregister (s : State K V E) (key : K) (t : TaskId) : K → Option TaskId :=
  match s.tasks t with
  | some (.done _) =>
    if s.registry key = some t then Function.update s.registry key none else s.registry
  | _ => s.registry

lemma unregister_cases (s : State K V E) (key : K) (t : TaskId) :
    s.unregister key t = s.registry ∨ ((∃ o, s.tasks t = some (.done o)) ∧
      s.registry key = some t ∧ s.unregister key t = Function.update s.registry key none) := by
  unfold State.unregister
  split
  · rename_i o ht
    split_ifs with hreg
    · exact .inr ⟨⟨o, ht⟩, hreg, rfl⟩
    · exact .inl rfl
  · exact .inl rfl

lemma unregister_eq_some {s : State K V E} {key key' : K} {t t' : TaskId}
    (h : s.unregister key t key' = some t') :
    s.registry key' = some t' := by
  rcases unregister_cases s key t with he | ⟨_, _, he⟩
  · rwa [he] at h
  · rw [he] at h
    by_cases hk : key' = key
    · subst hk
      simp at h
    · rwa [Function.update_of_ne hk] at h

def State.leave (s : State K V E) (c : CallerId) (key : K) (t : TaskId) (o : Outcome V E) :
    State K V E :=
  { s with
    registry := s.unregister key t
    callers := Function.update s.callers c (some ⟨key, t, .finished o⟩) }

/-- `await task` in a caller whose code reaches it: a task that is done does not suspend it. -/
def State.await (s : State K V E) (c : CallerId) (key : K) (t : TaskId) : State K V E :=
  match s.tasks t with
  | some (.done o) => s.leave c key t o
  | _ => { s with callers := Function.update s.callers c (some ⟨key, t, .awaiting false⟩) }

/-- `Task.cancel()` of a caller: what it waits for is cancelled in its place, if that is not done
yet. -/
def State.cancelCaller (s : State K V E) (c : CallerId) (key : K) (t : TaskId) : State K V E :=
  match s.tasks t with
  | some .running => { s with tasks := Function.update s.tasks t (some .cancelling) }
  | some (.done _) =>
    { s with callers := Function.update s.callers c (some ⟨key, t, .awaiting true⟩) }
  | _ => s

def step (s : State K V E) : Event K V E → Option (State K V E)
  | .call c key =>
    match s.callers c with
    | some _ => none
    | none =>
      let (s', t) := s.join key
      some (s'.await c key t)
  | .finish t r =>
    match s.tasks t with
    | some .running => some { s with tasks := Function.update s.tasks t (some (.done (.result r))) }
    | some .cancelling =>
      some { s with tasks := Function.update s.tasks t (some (.done .cancelled)) }
    | _ => none
  | .wake c =>
    match s.callers c with
    | some ⟨key, t, .awaiting mustCancel⟩ =>
      match s.tasks t with
      | some (.done o) => some (s.leave c key t (if mustCancel then .cancelled else o))
      | _ => none
    | _ => none
  | .cancel c =>
    match s.callers c with
    | some ⟨key, t, .awaiting _⟩ => some (s.cancelCaller c key t)
    | _ => none

inductive Took (s : State K V E) : Event K V E → State K V E → Prop
  | creates {c : CallerId} {key : K} (fresh : s.callers c = none) (free : s.registry key = none) :
      Took s (.call c key) { s with
        tasks := Function.update s.tasks s.next (some .running)
        registry := Function.update s.registry key (some s.next)
        callers := Function.update s.callers c (some ⟨key, s.next, .awaiting false⟩)
        next := s.next + 1 }
  | joins {c : CallerId} {key : K} {t : TaskId} (fresh : s.callers c = none)
      (registered : s.registry key = some t) (unfinished : ∀ o, s.tasks t ≠ some (.done o)) :
      Took s (.call c key) { s with
        callers := Function.update s.callers c (some ⟨key, t, .awaiting false⟩) }
  | passes {c : CallerId} {key : K} {t : TaskId} {o : Outcome V E} (fresh : s.callers c = none)
      (registered : s.registry key = some t) (done : s.tasks t = some (.done o)) :
      Took s (.call c key) (s.leave c key t o)
  | finishes {t : TaskId} {r : Except E V} (running : s.tasks t = some .running) :
      Took s (.finish t r)
        { s with tasks := Function.update s.tasks t (some (.done (.result r))) }
  | aborts {t : TaskId} {r : Except E V} (cancelling : s.tasks t = some .cancelling) :
      Took s (.finish t r) { s with tasks := Function.update s.tasks t (some (.done .cancelled)) }
  | wakes {c : CallerId} {key : K} {t : TaskId} {mustCancel : Bool} {o : Outcome V E}
      (waiting : s.callers c = some ⟨key, t, .awaiting mustCancel⟩)
      (done : s.tasks t = some (.done o)) :
      Took s (.wake c) (s.leave c key t (if mustCancel then .cancelled else o))
  | cancels {c : CallerId} {key : K} {t : TaskId} {mustCancel : Bool}
      (waiting : s.callers c = some ⟨key, t, .awaiting mustCancel⟩) :
      Took s (.cancel c) (s.cancelCaller c key t)

theorem took_of_step {s u : State K V E} {a : Event K V E} (h : step s a = some u) :
    Took s a u := by
  cases a with
  | call c key =>
    simp only [step] at h
    split at h
    · cases h
    · rename_i hc
      cases h
      cases hreg : s.registry key with
      | none => simpa [State.join, hreg, State.await] using Took.creates hc hreg
      | some t =>
        simp only [State.join, hreg, State.await]
        split
        · rename_i o ht
          exact .passes hc hreg ht
        · rename_i hne
          exact .joins hc hreg fun o ho => hne o ho
  | finish t r =>
    simp only [step] at h
    split at h
    · rename_i ht
      cases h
      exact .finishes ht
    · rename_i ht
      cases h
      exact .aborts ht
    · cases h
  | wake c =>
    simp only [step] at h
    split at h
    · rename_i key t must hc
      split at h
      · rename_i o ht
        cases h
        exact .wakes hc ht
      · cases h
    · cases h
  | cancel c =>
    simp only [step] at h
    split at h
    · rename_i key t must hc
      cases h
      exact .cancels hc
    · cases h

theorem step_of_took {s u : State K V E} {a : Event K V E} (h : Took s a u) :
    step s a = some u := by
  cases h with
  | creates hc hfree => simp [step, hc, State.join, hfree, State.await]
  | joins hc hreg hne => simp [step, hc, State.join, hreg, State.await]
  | passes hc hreg ht => simp [step, hc, State.join, hreg, State.await, ht]
  | finishes ht | aborts ht => simp [step, ht]
  | wakes hc ht => simp [step, hc, ht]
  | cancels hc => simp [step, hc]

theorem step_eq_some_iff {s u : State K V E} {a : Event K V E} :
    step s a = some u ↔ Took s a u := ⟨took_of_step, step_of_took⟩

end AsyncDataHub.Coalescer
