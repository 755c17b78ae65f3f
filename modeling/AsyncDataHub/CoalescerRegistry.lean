import AsyncDataHub.PyError
import AsyncDataHub.RequestCoalescer

/-! What `_tasks` holds while callers come, wait, are cancelled and go. A factory is left to do with
a CancelledError whatever it likes: a task that is not done may end in any way. -/
namespace AsyncDataHub.Coalescer
open StepSystem

variable {K V E : Type*} {s u : State K V E} {c d : CallerId} {key key' : K} {t t' : TaskId}

inductive Move (K V E : Type*)
  | event (e : Event K V E)
  | settle (t : TaskId) (o : Outcome V E)

def State.Joined (s : State K V E) (c : CallerId) (key : K) (t : TaskId) : Prop :=
  ∃ phase, s.callers c = some ⟨key, t, phase⟩

def State.Unfinished (s : State K V E) (key : K) (t : TaskId) : Prop :=
  (∃ c, s.Joined c key t) ∧ ∀ o, s.tasks t ≠ some (.done o)

def State.Active (s : State K V E) (key : K) : Prop :=
  ∃ c t mustCancel, s.callers c = some ⟨key, t, .awaiting mustCancel⟩

lemma State.Joined.unique (h : s.Joined c key t) (h' : s.Joined c key' t') :
    key' = key ∧ t' = t := by
  obtain ⟨phase, hc⟩ := h
  obtain ⟨phase', hc'⟩ := h'
  rw [hc, Option.some.injEq, Caller.mk.injEq] at hc'
  exact ⟨hc'.1.symm, hc'.2.1.symm⟩

lemma joined_setCaller {phase : Phase V E} {tasks : TaskId → Option (TaskState V E)}
    {registry : K → Option TaskId} {next : TaskId} :
    State.Joined ⟨tasks, registry, Function.update s.callers c (some ⟨key, t, phase⟩), next⟩
      d key' t' ↔ d = c ∧ key' = key ∧ t' = t ∨ d ≠ c ∧ s.Joined d key' t' := by
  by_cases hd : d = c
  · subst hd
    simp [State.Joined, eq_comm]
  · simp [State.Joined, hd]

/-- The registry, the tasks and the callers agree. -/
structure Tidy (s : State K V E) : Prop where
  fresh : ∀ t, s.next ≤ t → s.tasks t = none
  started : ∀ c key t, s.Joined c key t → s.tasks t ≠ none
  ended : ∀ c key t o, s.callers c = some ⟨key, t, .finished o⟩ → ∃ o, s.tasks t = some (.done o)
  registered : ∀ key t, s.Unfinished key t → s.registry key = some t
  awaited : ∀ key t, s.registry key = some t →
    ∃ c mustCancel, s.callers c = some ⟨key, t, .awaiting mustCancel⟩
  created : ∀ t, s.tasks t ≠ none → ∃ c key, s.Joined c key t
  oneKey : ∀ c d key key' t, s.Joined c key t → s.Joined d key' t → key' = key

lemma tidy_init : Tidy (State.init K V E) := by
  refine ⟨fun _ _ => rfl, ?_, ?_, ?_, ?_, ?_, ?_⟩
  all_goals simp [State.init, State.Joined, State.Unfinished]

lemma Tidy.lt_next (hs : Tidy s) (ht : s.tasks t ≠ none) : t < s.next := by
  by_contra hlt
  exact ht (hs.fresh t (not_lt.mp hlt))

lemma tidy_setTask {x y : TaskState V E} (hs : Tidy s) (hx : s.tasks t = some x)
    (hrun : ∀ o, x ≠ .done o) : Tidy { s with tasks := Function.update s.tasks t (some y) } := by
  have hlt : t < s.next := hs.lt_next (by simp [hx])
  have hdone (t' : TaskId) (o : Outcome V E) (h : s.tasks t' = some (.done o)) : t' ≠ t := by
    rintro rfl
    rw [hx, Option.some.injEq] at h
    exact hrun o h
  refine ⟨fun t' hle => ?_, fun d key' t' h => tasks_update_ne_none (hs.started d key' t' h),
    fun d key' t' o h => ?_, fun key' t' h => hs.registered key' t' ⟨h.1, fun o ho => ?_⟩,
    hs.awaited, fun t' h => ?_, hs.oneKey⟩
  · have hne : t' ≠ t := (hlt.trans_le hle).ne'
    exact (Function.update_of_ne hne _ _).trans (hs.fresh t' hle)
  · obtain ⟨o, ho⟩ := hs.ended d key' t' o h
    exact ⟨o, (Function.update_of_ne (hdone t' o ho) _ _).trans ho⟩
  · exact h.2 o ((Function.update_of_ne (hdone t' o ho) _ _).trans ho)
  · by_cases ht : t' = t
    · exact hs.created t' (by simp [ht, hx])
    · exact hs.created t' (by simpa [Function.update_of_ne ht] using h)

lemma oneKey_setCaller {phase : Phase V E} {registry : K → Option TaskId} {e e' : CallerId}
    {key₁ key₂ : K} (hs : Tidy s) (hd : s.Joined d key t)
    (h : State.Joined { s with
      registry, callers := Function.update s.callers c (some ⟨key, t, phase⟩) } e key₁ t')
    (h' : State.Joined { s with
      registry, callers := Function.update s.callers c (some ⟨key, t, phase⟩) } e' key₂ t') :
    key₂ = key₁ := by
  rcases joined_setCaller.mp h with ⟨_, hk, ht⟩ | ⟨_, hj⟩ <;>
    rcases joined_setCaller.mp h' with ⟨_, hk', ht'⟩ | ⟨_, hj'⟩
  · rw [hk, hk']
  · rw [hk]
    exact hs.oneKey d e' _ _ t hd (ht ▸ hj')
  · rw [hk']
    exact hs.oneKey e d _ _ t (ht' ▸ hj) hd
  · exact hs.oneKey e e' _ _ t' hj hj'

lemma joined_own (hs : Tidy s)
    (hc : s.callers c = none ∧ s.registry key = some t ∨ s.Joined c key t) :
    (∀ key' t', s.Joined c key' t' → key' = key ∧ t' = t) ∧ ∃ d, s.Joined d key t := by
  rcases hc with ⟨hnone, hreg⟩ | hj
  · obtain ⟨d, m, hd⟩ := hs.awaited key t hreg
    refine ⟨fun key' t' h => ?_, d, _, hd⟩
    obtain ⟨phase, he⟩ := h
    rw [hnone] at he
    cases he
  · exact ⟨fun key' t' h => hj.unique h, c, hj⟩

lemma created_setCaller {phase : Phase V E} {registry : K → Option TaskId} (hs : Tidy s)
    (hown : ∀ key' t', s.Joined c key' t' → key' = key ∧ t' = t) (h : s.tasks t' ≠ none) :
    ∃ e key', State.Joined { s with
      registry, callers := Function.update s.callers c (some ⟨key, t, phase⟩) } e key' t' := by
  obtain ⟨e, key', he⟩ := hs.created t' h
  by_cases hec : e = c
  · obtain ⟨rfl, rfl⟩ := hown key' t' (hec ▸ he)
    exact ⟨c, key', joined_setCaller.mpr (.inl ⟨rfl, rfl, rfl⟩)⟩
  · exact ⟨e, key', joined_setCaller.mpr (.inr ⟨hec, he⟩)⟩

lemma tidy_wait {m : Bool} (hs : Tidy s)
    (hc : s.callers c = none ∧ s.registry key = some t ∨ s.Joined c key t) : Tidy { s with
      callers := Function.update s.callers c (some ⟨key, t, .awaiting m⟩) } := by
  obtain ⟨hown, d, hjoined⟩ := joined_own hs hc
  refine ⟨hs.fresh, fun e key' t' h => ?_, fun e key' t' o h => ?_, fun key' t' h => ?_,
    fun key' t' h => ?_, fun t' h => created_setCaller hs hown h,
    fun e e' key₁ key₂ t' h h' => oneKey_setCaller hs hjoined h h'⟩
  · rcases joined_setCaller.mp h with ⟨_, rfl, rfl⟩ | ⟨_, h⟩
    · exact hs.started d key' t' hjoined
    · exact hs.started e key' t' h
  · rcases update_eq_some.mp h with ⟨_, he⟩ | ⟨_, h⟩
    · cases he
    · exact hs.ended e key' t' o h
  · obtain ⟨⟨e, he⟩, hrun⟩ := h
    rcases joined_setCaller.mp he with ⟨_, rfl, rfl⟩ | ⟨_, he⟩
    · exact hs.registered key' t' ⟨⟨d, hjoined⟩, hrun⟩
    · exact hs.registered key' t' ⟨⟨e, he⟩, hrun⟩
  · obtain ⟨e, m', he⟩ := hs.awaited key' t' h
    by_cases hec : e = c
    · obtain ⟨rfl, rfl⟩ := hown key' t' (hec ▸ ⟨_, he⟩)
      exact ⟨c, m, Function.update_self ..⟩
    · exact ⟨e, m', (Function.update_of_ne hec _ _).trans he⟩

lemma tidy_cancelCaller {m : Bool} (hs : Tidy s) (hc : s.callers c = some ⟨key, t, .awaiting m⟩) :
    Tidy (s.cancelCaller c key t) := by
  unfold State.cancelCaller
  split
  · rename_i ht
    exact tidy_setTask hs ht (by simp)
  · exact tidy_wait hs (.inr ⟨_, hc⟩)
  · exact hs

lemma setTask_done {x y : TaskState V E} {o : Outcome V E} (hx : s.tasks t = some x)
    (hrun : ∀ o, x ≠ .done o) (h : s.tasks t' = some (.done o)) :
    Function.update s.tasks t (some y) t' = some (.done o) := by
  have hne : t' ≠ t := by
    rintro rfl
    rw [hx, Option.some.injEq] at h
    exact hrun o h
  rwa [Function.update_of_ne hne]

/-- What a call that nobody has cancelled waits for, or has ended with. -/
structure Faithful (c : CallerId) (s : State K V E) : Prop where
  waits : ∀ key t m, s.callers c = some ⟨key, t, .awaiting m⟩ → m = false
  ends : ∀ key t o, s.callers c = some ⟨key, t, .finished o⟩ → s.tasks t = some (.done o)

lemma faithful_of_eq (hf : Faithful c s) (hc : u.callers c = s.callers c)
    (htasks : ∀ t o, s.tasks t = some (.done o) → u.tasks t = some (.done o)) : Faithful c u :=
  ⟨fun key t m h => hf.waits key t m (hc ▸ h),
    fun key t o h => htasks t o (hf.ends key t o (hc ▸ h))⟩

lemma faithful_own {phase : Phase V E} (hc : u.callers c = some ⟨key, t, phase⟩)
    (hphase : phase = .awaiting false ∨ ∃ o, phase = .finished o ∧ u.tasks t = some (.done o)) :
    Faithful c u := by
  refine ⟨fun key' t' m h => ?_, fun key' t' o h => ?_⟩ <;>
    rw [hc, Option.some.injEq, Caller.mk.injEq] at h <;>
    obtain ⟨_, rfl, rfl⟩ := h <;>
    rcases hphase with he | ⟨o', he, ho'⟩ <;> cases he
  · rfl
  · exact ho'

section Moves
variable [DecidableEq K]

lemma tidy_leave {o o' : Outcome V E} (hs : Tidy s) (hdone : s.tasks t = some (.done o))
    (hc : s.callers c = none ∧ s.registry key = some t ∨ s.Joined c key t) :
    Tidy (s.leave c key t o') := by
  obtain ⟨hown, d, hjoined⟩ := joined_own hs hc
  refine ⟨hs.fresh, fun e key' t' h => ?_, fun e key' t' o'' h => ?_, fun key' t' h => ?_,
    fun key' t' h => ?_, fun t' h => created_setCaller hs hown h,
    fun e e' key₁ key₂ t' h h' => oneKey_setCaller hs hjoined h h'⟩
  · rcases joined_setCaller.mp h with ⟨_, rfl, rfl⟩ | ⟨_, h⟩
    · exact hs.started d key' t' hjoined
    · exact hs.started e key' t' h
  · rcases update_eq_some.mp h with ⟨_, he⟩ | ⟨_, h⟩
    · cases he
      exact ⟨o, hdone⟩
    · exact hs.ended e key' t' o'' h
  · obtain ⟨⟨e, he⟩, hrun⟩ := h
    rcases joined_setCaller.mp he with ⟨_, rfl, rfl⟩ | ⟨_, he⟩
    · exact absurd hdone (hrun o)
    · have hreg := hs.registered key' t' ⟨⟨e, he⟩, hrun⟩
      rcases unregister_cases s key t with hu | ⟨_, htop, hu⟩
      · exact (congrFun hu key').trans hreg
      · have hne : key' ≠ key := by
          rintro rfl
          rw [htop, Option.some.injEq] at hreg
          exact hrun o (hreg ▸ hdone)
        exact (congrFun hu key').trans ((Function.update_of_ne hne _ _).trans hreg)
  · obtain ⟨e, m, he⟩ := hs.awaited key' t' (unregister_eq_some h)
    have hec : e ≠ c := by
      rintro rfl
      obtain ⟨rfl, rfl⟩ := hown key' t' ⟨_, he⟩
      have hgone : s.unregister key' t' key' = none := by
        simp [State.unregister, hdone, unregister_eq_some h]
      have hsome : s.unregister key' t' key' = some t' := h
      rw [hgone] at hsome
      cases hsome
    exact ⟨e, m, (Function.update_of_ne hec _ _).trans he⟩

lemma tidy_create (hs : Tidy s) (hc : s.callers c = none) (hfree : s.registry key = none) :
    Tidy { s with
      tasks := Function.update s.tasks s.next (some .running)
      registry := Function.update s.registry key (some s.next)
      callers := Function.update s.callers c (some ⟨key, s.next, .awaiting false⟩)
      next := s.next + 1 } := by
  have hold (e : CallerId) (key' : K) (t' : TaskId) (h : s.Joined e key' t') : t' ≠ s.next :=
    (hs.lt_next (hs.started e key' t' h)).ne
  refine ⟨fun t' hle => ?_, fun e key' t' h => ?_, fun e key' t' o h => ?_, fun key' t' h => ?_,
    fun key' t' h => ?_, fun t' h => ?_, fun e e' key₁ key₂ t' h h' => ?_⟩
  · have hlt : s.next < t' := Nat.lt_of_succ_le hle
    exact (Function.update_of_ne hlt.ne' _ _).trans (hs.fresh t' hlt.le)
  · rcases joined_setCaller.mp h with ⟨_, _, rfl⟩ | ⟨_, h⟩
    · simp
    · exact tasks_update_ne_none (hs.started e key' t' h)
  · rcases update_eq_some.mp h with ⟨_, he⟩ | ⟨_, h⟩
    · cases he
    · obtain ⟨o', ho'⟩ := hs.ended e key' t' o h
      exact ⟨o', (Function.update_of_ne (hold e key' t' ⟨_, h⟩) _ _).trans ho'⟩
  · obtain ⟨⟨e, he⟩, hrun⟩ := h
    rcases joined_setCaller.mp he with ⟨_, rfl, rfl⟩ | ⟨_, he⟩
    · exact Function.update_self ..
    · have hreg := hs.registered key' t' ⟨⟨e, he⟩, fun o ho =>
        hrun o ((Function.update_of_ne (hold e key' t' he) _ _).trans ho)⟩
      have hne : key' ≠ key := by
        rintro rfl
        rw [hfree] at hreg
        cases hreg
      exact (Function.update_of_ne hne _ _).trans hreg
  · rcases update_eq_some.mp h with ⟨rfl, rfl⟩ | ⟨_, h⟩
    · exact ⟨c, false, Function.update_self ..⟩
    · obtain ⟨e, m, he⟩ := hs.awaited key' t' h
      have hec : e ≠ c := by
        rintro rfl
        rw [hc] at he
        cases he
      exact ⟨e, m, (Function.update_of_ne hec _ _).trans he⟩
  · by_cases ht : t' = s.next
    · subst ht
      exact ⟨c, key, _, Function.update_self ..⟩
    · obtain ⟨e, key', phase, he⟩ := hs.created t' (by simpa [Function.update_of_ne ht] using h)
      have hec : e ≠ c := by
        rintro rfl
        rw [hc] at he
        cases he
      exact ⟨e, key', phase, (Function.update_of_ne hec _ _).trans he⟩
  · rcases joined_setCaller.mp h with ⟨_, hk, ht⟩ | ⟨_, hj⟩ <;>
      rcases joined_setCaller.mp h' with ⟨_, hk', ht'⟩ | ⟨_, hj'⟩
    · rw [hk, hk']
    · exact absurd ht (hold e' key₂ t' hj')
    · exact absurd ht' (hold e key₁ t' hj)
    · exact hs.oneKey e e' _ _ t' hj hj'

/-- An event, or the end of a task that was not done. -/
def move (s : State K V E) : Move K V E → Option (State K V E)
  | .event a => step s a
  | .settle t o =>
    match s.tasks t with
    | none | some (.done _) => none
    | some _ => some { s with tasks := Function.update s.tasks t (some (.done o)) }

theorem move_cases {a : Move K V E} (h : move s a = some u) :
    (∃ e, a = .event e ∧ Took s e u) ∨
    ∃ t x o, a = .settle t o ∧ s.tasks t = some x ∧ (∀ o, x ≠ .done o) ∧
      u = { s with tasks := Function.update s.tasks t (some (.done o)) } := by
  cases a with
  | event e => exact .inl ⟨e, rfl, took_of_step h⟩
  | settle t o =>
    simp only [move] at h
    split at h
    · cases h
    · cases h
    · rename_i x hdone hx
      cases h
      exact .inr ⟨t, x, o, rfl, hx, fun o ho => hdone o (by rw [ho]), rfl⟩

theorem tidy_move {a : Move K V E} (hs : Tidy s) (h : move s a = some u) : Tidy u := by
  rcases move_cases h with ⟨e, rfl, took⟩ | ⟨t, x, o, rfl, hx, hrun, rfl⟩
  · cases took with
    | creates hc hfree => exact tidy_create hs hc hfree
    | joins hc hreg _ => exact tidy_wait hs (.inl ⟨hc, hreg⟩)
    | passes hc hreg hdone => exact tidy_leave hs hdone (.inl ⟨hc, hreg⟩)
    | finishes hrun => exact tidy_setTask hs hrun (by simp)
    | aborts hcan => exact tidy_setTask hs hcan (by simp)
    | wakes hc hdone => exact tidy_leave hs hdone (.inr ⟨_, hc⟩)
    | cancels hc => exact tidy_cancelCaller hs hc
  · exact tidy_setTask hs hx hrun

theorem tidy_reach (h : Reach move (State.init K V E) s) : Tidy s :=
  h.invariant tidy_init fun _ _ _ hi _ ht => tidy_move hi ht

def Move.Cancels (c : CallerId) : Move K V E → Prop
  | .event (.cancel d) => d = c
  | _ => False

lemma move_done {a : Move K V E} {o : Outcome V E} (hs : Tidy s) (h : move s a = some u)
    (hdone : s.tasks t = some (.done o)) : u.tasks t = some (.done o) := by
  rcases move_cases h with ⟨e, rfl, took⟩ | ⟨t', x, o', rfl, hx, hrun, rfl⟩
  · cases took with
    | creates _ _ =>
      have hlt : t < s.next := hs.lt_next (by simp [hdone])
      exact (Function.update_of_ne hlt.ne _ _).trans hdone
    | joins _ _ _ | passes _ _ _ | wakes _ _ => exact hdone
    | finishes hrun => exact setTask_done hrun (by simp) hdone
    | aborts hcan => exact setTask_done hcan (by simp) hdone
    | cancels _ =>
      unfold State.cancelCaller
      split
      · rename_i ht
        exact setTask_done ht (by simp) hdone
      · exact hdone
      · exact hdone
  · exact setTask_done hx hrun hdone

theorem faithful_move {a : Move K V E} (hs : Tidy s) (hf : Faithful c s) (ha : ¬ a.Cancels c)
    (h : move s a = some u) : Faithful c u := by
  have hdone (t : TaskId) (o : Outcome V E) (ht : s.tasks t = some (.done o)) :
      u.tasks t = some (.done o) := move_done hs h ht
  rcases move_cases h with ⟨e, rfl, took⟩ | ⟨t, x, o, rfl, _, _, rfl⟩
  · cases took with
    | @creates d key' _ _ | @joins d key' t' _ _ _ =>
      by_cases hd : c = d
      · subst hd
        exact faithful_own (Function.update_self ..) (.inl rfl)
      · exact faithful_of_eq hf (Function.update_of_ne hd _ _) hdone
    | @passes d key' t' o _ _ ht =>
      by_cases hd : c = d
      · subst hd
        exact faithful_own (Function.update_self ..) (.inr ⟨o, rfl, ht⟩)
      · exact faithful_of_eq hf (Function.update_of_ne hd _ _) hdone
    | finishes _ | aborts _ => exact faithful_of_eq hf rfl hdone
    | @wakes d key' t' m o hc ht =>
      by_cases hd : c = d
      · subst hd
        obtain rfl := hf.waits key' t' m hc
        exact faithful_own (Function.update_self ..) (.inr ⟨o, rfl, ht⟩)
      · exact faithful_of_eq hf (Function.update_of_ne hd _ _) hdone
    | @cancels d key' t' m _ =>
      have hd : c ≠ d := fun hcd => ha hcd.symm
      refine faithful_of_eq hf ?_ hdone
      unfold State.cancelCaller
      split
      · rfl
      · exact Function.update_of_ne hd _ _
      · rfl
  · exact faithful_of_eq hf rfl hdone

lemma unregistered_by {a : Move K V E} (h : move s a = some u) (hreg : s.registry key = some t)
    (hne : u.registry key ≠ some t) :
    ∃ c o, (a = .event (.wake c) ∨ a = .event (.call c key)) ∧
      u.callers c = some ⟨key, t, .finished o⟩ := by
  have hleave {c : CallerId} {key' : K} {t' : TaskId} {o : Outcome V E}
      (hne : (s.leave c key' t' o).registry key ≠ some t) : key' = key ∧ t' = t := by
    rcases unregister_cases s key' t' with he | ⟨_, htop, he⟩
    · exact absurd ((congrFun he key).trans hreg) hne
    · by_cases hk : key = key'
      · subst hk
        rw [hreg, Option.some.injEq] at htop
        exact ⟨rfl, htop.symm⟩
      · exact absurd ((congrFun he key).trans ((Function.update_of_ne hk _ _).trans hreg)) hne
  rcases move_cases h with ⟨e, rfl, took⟩ | ⟨t', x, o, rfl, _, _, rfl⟩
  · cases took with
    | @creates d key' _ hfree =>
      have hk : key ≠ key' := by
        rintro rfl
        rw [hfree] at hreg
        cases hreg
      exact absurd ((Function.update_of_ne hk _ _).trans hreg) hne
    | joins _ _ _ | finishes _ | aborts _ => exact absurd hreg hne
    | @passes d key' t' o _ _ _ =>
      obtain ⟨rfl, rfl⟩ := hleave hne
      exact ⟨d, o, .inr rfl, Function.update_self ..⟩
    | @wakes d key' t' m o _ _ =>
      obtain ⟨rfl, rfl⟩ := hleave hne
      exact ⟨d, _, .inl rfl, Function.update_self ..⟩
    | cancels _ =>
      refine absurd ?_ hne
      unfold State.cancelCaller
      split <;> exact hreg
  · exact absurd hreg hne

/-- In every reachable state a key has at most one task that is not done, and that is the
registered one; a call that nobody has cancelled ends as the task it was given; a call takes only
that task out of the registry; and a key without active calls has no entry. -/
theorem registry_sound (h : Reach move (State.init K V E) s) :
    (∀ t x, s.tasks t = some x → (∀ o, x ≠ .done o) →
      ∃ key, s.Unfinished key t ∧ s.registry key = some t) ∧
    (∀ key t t', s.Unfinished key t → s.Unfinished key t' → t' = t) ∧
    (∀ c, ReachVia move (fun _ a => ¬ a.Cancels c) (State.init K V E) s → ∀ key t,
      (∀ o, s.callers c = some ⟨key, t, .finished o⟩ → s.tasks t = some (.done o)) ∧
      ∀ m o, s.callers c = some ⟨key, t, .awaiting m⟩ → s.tasks t = some (.done o) →
        ∃ u, move s (.event (.wake c)) = some u ∧
          u.callers c = some ⟨key, t, .finished o⟩) ∧
    (∀ a u t o, move s a = some u → s.tasks t = some (.done o) → u.tasks t = some (.done o)) ∧
    (∀ a u key t, move s a = some u → s.registry key = some t → u.registry key ≠ some t →
      ∃ c o, (a = .event (.wake c) ∨ a = .event (.call c key)) ∧
        u.callers c = some ⟨key, t, .finished o⟩) ∧
    ∀ key, ¬ s.Active key → s.registry key = none := by
  have hs := tidy_reach h
  refine ⟨fun t x hx hrun => ?_, fun key t t' ht ht' => ?_, fun c hc key t => ?_,
    fun a u t o => move_done hs, fun a u key t => unregistered_by, fun key hidle => ?_⟩
  · obtain ⟨c, key, hc⟩ := hs.created t (by simp [hx])
    have hunf : s.Unfinished key t := ⟨⟨c, hc⟩, fun o ho => hrun o (by simpa [hx] using ho)⟩
    exact ⟨key, hunf, hs.registered key t hunf⟩
  · have hreg := hs.registered key t ht
    rw [hs.registered key t' ht', Option.some.injEq] at hreg
    exact hreg
  · have hf : Faithful c s := by
      refine hc.invariant_with (J := Tidy) (fun v hv => tidy_reach hv.reach) ⟨?_, ?_⟩
        fun _ _ _ hi hf ha ht => faithful_move hi hf ha ht
      all_goals simp [State.init]
    refine ⟨hf.ends key t, fun m o hwait hdone => ?_⟩
    obtain rfl := hf.waits key t m hwait
    exact ⟨_, step_of_took (.wakes hwait hdone), Function.update_self ..⟩
  · cases hreg : s.registry key with
    | none => rfl
    | some t =>
      obtain ⟨c, m, hc⟩ := hs.awaited key t hreg
      exact absurd ⟨c, t, m, hc⟩ hidle

end Moves

/-- Two calls share a task; the first of them leaves, and a third call starts the next task. -/
def followed : List (Move String ℕ PyError) :=
  [.event (.call 0 "aggregate"), .event (.call 1 "aggregate"), .settle 0 (.result (.ok 7)),
    .event (.wake 0), .event (.call 2 "aggregate")]

/-- The second of the two calls gets the value of its task, and leaves the next task registered. -/
theorem registry_sound_followed :
    ∃ s u, exec move (State.init String ℕ PyError) followed = some s ∧
      move s (.event (.wake 1)) = some u ∧
      u.callers 1 = some ⟨"aggregate", 0, .finished (.result (.ok 7))⟩ ∧
      u.registry "aggregate" = some 1 := by
  obtain ⟨s, hs, hc, ht, hu⟩ :
      ∃ s, exec move (State.init String ℕ PyError) followed = some s ∧
        s.callers 1 = some ⟨"aggregate", 0, .awaiting false⟩ ∧
        s.tasks 0 = some (.done (.result (.ok 7))) ∧
        ∀ u, move s (.event (.wake 1)) = some u → u.registry "aggregate" = some 1 :=
    ⟨_, rfl, rfl, rfl, fun u hu => by cases hu; rfl⟩
  have hguard : Guarded move (fun _ a => ¬ a.Cancels 1) (State.init String ℕ PyError) followed :=
    guarded_of_forall_mem (by simp [followed, Move.Cancels]) _
  obtain ⟨_, _, hends, _⟩ := registry_sound (reach_of_exec followed hs)
  obtain ⟨u, hu', hfin⟩ := (hends 1 (reachVia_of_exec followed hs hguard) "aggregate" 0).2 _ _ hc ht
  exact ⟨s, u, hs, hu', hfin, hu u hu'⟩

end AsyncDataHub.Coalescer
