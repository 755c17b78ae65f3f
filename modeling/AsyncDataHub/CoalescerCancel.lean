import AsyncDataHub.PyError
import AsyncDataHub.RequestCoalescer

/-! Cancelling one of the callers that share a task: the task is cancelled in its place, so the
other callers are left alone only when the task is done already. -/
namespace AsyncDataHub.Coalescer
open StepSystem

variable {K V E : Type*} {s u u' : State K V E} {c d : CallerId} {key : K} {t : TaskId}

def Event.IsCancel : Event K V E → Prop
  | .cancel _ => True
  | _ => False

def NoCancel (_ : State K V E) (a : Event K V E) : Prop := ¬ a.IsCancel

/-- Nobody has been cancelled, and what callers wait for exists. -/
structure Calm (s : State K V E) : Prop where
  tasks : ∀ t x, s.tasks t = some x → x = .running ∨ ∃ r, x = .done (.result r)
  fresh : ∀ t, s.next ≤ t → s.tasks t = none
  registered : ∀ key t, s.registry key = some t → s.tasks t ≠ none
  waiting : ∀ c key t mustCancel, s.callers c = some ⟨key, t, .awaiting mustCancel⟩ →
    mustCancel = false ∧ s.tasks t ≠ none
  finished : ∀ c key t o, s.callers c = some ⟨key, t, .finished o⟩ → ∃ r, o = .result r

lemma Calm.lt_next (hs : Calm s) {x : TaskState V E} (ht : s.tasks t = some x) : t < s.next := by
  by_contra hlt
  rw [hs.fresh t (not_lt.mp hlt)] at ht
  cases ht

lemma calm_wait (hs : Calm s) (ht : s.tasks t ≠ none) : Calm { s with
    callers := Function.update s.callers c (some ⟨key, t, .awaiting false⟩) } := by
  refine ⟨hs.tasks, hs.fresh, hs.registered, fun e key' t' must h => ?_, fun e key' t' o h => ?_⟩
  · rcases update_eq_some.mp h with ⟨_, he⟩ | ⟨_, h⟩
    · cases he
      exact ⟨rfl, ht⟩
    · exact hs.waiting e key' t' must h
  · rcases update_eq_some.mp h with ⟨_, he⟩ | ⟨_, h⟩
    · cases he
    · exact hs.finished e key' t' o h

lemma calm_setTask {x : TaskState V E} (hs : Calm s)
    (hx : x = .running ∨ ∃ r, x = .done (.result r))
    (ht : t < s.next) : Calm { s with tasks := Function.update s.tasks t (some x) } := by
  refine ⟨forall_update hs.tasks hx, fun t' h => ?_, fun key' t' h => ?_,
    fun e key' t' must h => ?_, hs.finished⟩
  · have hle : s.next ≤ t' := h
    exact (Function.update_of_ne (ht.trans_le hle).ne' _ _).trans (hs.fresh t' hle)
  · exact tasks_update_ne_none (hs.registered key' t' h)
  · obtain ⟨hm, hne⟩ := hs.waiting e key' t' must h
    exact ⟨hm, tasks_update_ne_none hne⟩

/-- The states of the runs with and without the cancellation of `c`, whose task is done. -/
structure Twin (c : CallerId) (key : K) (t : TaskId) (u u' : State K V E) : Prop where
  tasks : u'.tasks = u.tasks
  registry : u'.registry = u.registry
  next : u'.next = u.next
  others : ∀ e, e ≠ c → u'.callers e = u.callers e
  done : ∃ o, u.tasks t = some (.done o)
  fresh : ∀ t, u.next ≤ t → u.tasks t = none
  own : (∃ m m', u.callers c = some ⟨key, t, .awaiting m⟩ ∧
      u'.callers c = some ⟨key, t, .awaiting m'⟩) ∨
    ∃ o o', u.callers c = some ⟨key, t, .finished o⟩ ∧ u'.callers c = some ⟨key, t, .finished o'⟩

lemma Twin.started (h : Twin c key t u u') : u.callers c ≠ none := by
  rcases h.own with ⟨m, _, hc, _⟩ | ⟨o, _, hc, _⟩ <;> simp [hc]

lemma Twin.setCaller {x : Caller K V E} {registry : K → Option TaskId} (h : Twin c key t u u')
    (hne : d ≠ c) :
    Twin c key t { u with registry, callers := Function.update u.callers d (some x) }
      { u' with registry, callers := Function.update u'.callers d (some x) } := by
  refine ⟨h.tasks, rfl, h.next, fun e he => ?_, h.done, h.fresh, ?_⟩
  · by_cases hed : e = d
    · simp [hed]
    · simp [Function.update_of_ne hed, h.others e he]
  · simpa only [Function.update_of_ne (Ne.symm hne)] using h.own

lemma Twin.setTask {x y : TaskState V E} {t' : TaskId} (h : Twin c key t u u')
    (hy : u.tasks t' = some y) (hne : ∀ o, y ≠ .done o) :
    Twin c key t { u with tasks := Function.update u.tasks t' (some x) }
      { u' with tasks := Function.update u'.tasks t' (some x) } := by
  obtain ⟨o, ho⟩ := h.done
  have ht : t ≠ t' := fun he => by
    rw [← he, ho, Option.some.injEq] at hy
    exact hne o hy.symm
  have hfresh (k : TaskId) (hk : u.next ≤ k) : k ≠ t' := fun he => by
    rw [← he, h.fresh k hk] at hy
    cases hy
  exact ⟨by simp only [h.tasks], h.registry, h.next, h.others,
    ⟨o, (Function.update_of_ne ht _ _).trans ho⟩,
    fun k hk => (Function.update_of_ne (hfresh k hk) _ _).trans (h.fresh k hk), h.own⟩

variable [DecidableEq K]

lemma calm_leave {r : Except E V} (hs : Calm s) : Calm (s.leave c key t (.result r)) := by
  refine ⟨hs.tasks, hs.fresh, fun key' t' h => hs.registered key' t' (unregister_eq_some h),
    fun e key' t' must h => ?_, fun e key' t' o h => ?_⟩
  · rcases update_eq_some.mp h with ⟨_, he⟩ | ⟨_, h⟩
    · cases he
    · exact hs.waiting e key' t' must h
  · rcases update_eq_some.mp h with ⟨_, he⟩ | ⟨_, h⟩
    · cases he
      exact ⟨r, rfl⟩
    · exact hs.finished e key' t' o h

lemma calm_create (hs : Calm s) : Calm { s with
    tasks := Function.update s.tasks s.next (some .running)
    registry := Function.update s.registry key (some s.next)
    next := s.next + 1 } := by
  refine ⟨forall_update hs.tasks (.inl rfl), fun t' h => ?_, fun key' t' h => ?_,
    fun e key' t' must h => ?_, hs.finished⟩
  · have hle : s.next + 1 ≤ t' := h
    exact (Function.update_of_ne (Nat.lt_of_succ_le hle).ne' _ _).trans
      (hs.fresh t' (Nat.le_of_succ_le hle))
  · rcases update_eq_some.mp h with ⟨_, rfl⟩ | ⟨_, h⟩
    · simp
    · exact tasks_update_ne_none (hs.registered key' t' h)
  · obtain ⟨hm, hne⟩ := hs.waiting e key' t' must h
    exact ⟨hm, tasks_update_ne_none hne⟩

theorem calm_step {a : Event K V E} (hs : Calm s) (hg : NoCancel s a) (h : step s a = some u) :
    Calm u := by
  cases took_of_step h with
  | creates _ _ => exact calm_wait (calm_create hs) (by simp)
  | joins _ hreg _ => exact calm_wait hs (hs.registered _ _ hreg)
  | passes _ _ hdone =>
    rcases hs.tasks _ _ hdone with he | ⟨r, he⟩
    · cases he
    · cases he
      exact calm_leave hs
  | finishes hrun => exact calm_setTask hs (.inr ⟨_, rfl⟩) (hs.lt_next hrun)
  | aborts hcan =>
    rcases hs.tasks _ _ hcan with he | ⟨r, he⟩ <;> cases he
  | wakes hc hdone =>
    obtain ⟨rfl, _⟩ := hs.waiting _ _ _ _ hc
    rcases hs.tasks _ _ hdone with he | ⟨r, he⟩
    · cases he
    · cases he
      exact calm_leave hs
  | cancels _ => exact absurd trivial hg

theorem calm_reach (h : ReachVia step NoCancel (State.init K V E) s) : Calm s := by
  refine h.invariant ⟨?_, ?_, ?_, ?_, ?_⟩ fun _ _ _ hi hg ht => calm_step hi hg ht
  all_goals simp [State.init]

lemma Twin.unregister (h : Twin c key t u u') (key' : K) (t' : TaskId) :
    u'.unregister key' t' = u.unregister key' t' := by
  unfold State.unregister
  rw [h.tasks, h.registry]

lemma Twin.leave {o : Outcome V E} {key' : K} {t' : TaskId} (h : Twin c key t u u')
    (hne : d ≠ c) : Twin c key t (u.leave d key' t' o) (u'.leave d key' t' o) := by
  unfold State.leave
  rw [h.unregister]
  exact h.setCaller hne

lemma Twin.leave_own {o o' : Outcome V E} (h : Twin c key t u u') :
    Twin c key t (u.leave c key t o) (u'.leave c key t o') := by
  refine ⟨h.tasks, h.unregister key t, h.next, fun e he => ?_, h.done, h.fresh,
    .inr ⟨o, o', by simp [State.leave], by simp [State.leave]⟩⟩
  simp [State.leave, Function.update_of_ne he, h.others e he]

lemma Twin.step {a : Event K V E} {v : State K V E} (h : Twin c key t u u') (ha : ¬ a.IsCancel)
    (hv : step u a = some v) : ∃ v', step u' a = some v' ∧ Twin c key t v v' := by
  simp only [step_eq_some_iff] at hv ⊢
  cases hv with
  | @creates d key' hd hfree =>
    have hne : d ≠ c := fun he => h.started (he ▸ hd)
    refine ⟨_, .creates (by rw [h.others d hne]; exact hd) (by rw [h.registry]; exact hfree), ?_⟩
    obtain ⟨o, ho⟩ := h.done
    have ht : t ≠ u.next := fun he => by
      rw [he, h.fresh _ le_rfl] at ho
      cases ho
    have hcreated : Twin c key t
        { u with tasks := Function.update u.tasks u.next (some .running), next := u.next + 1 }
        { u' with tasks := Function.update u.tasks u.next (some .running), next := u.next + 1 } :=
      ⟨rfl, h.registry, rfl, h.others, ⟨o, (Function.update_of_ne ht _ _).trans ho⟩,
        fun t' hle => (Function.update_of_ne (Nat.lt_of_succ_le hle).ne' _ _).trans
          (h.fresh t' (Nat.le_of_succ_le hle)), h.own⟩
    rw [h.next, h.tasks, h.registry]
    exact hcreated.setCaller hne
  | @joins d key' t' hd hreg hrun =>
    have hne : d ≠ c := fun he => h.started (he ▸ hd)
    refine ⟨_, .joins (by rw [h.others d hne]; exact hd) (by rw [h.registry]; exact hreg)
      (by rw [h.tasks]; exact hrun), ?_⟩
    rw [h.registry]
    exact h.setCaller hne
  | @passes d key' t' o hd hreg hdone =>
    have hne : d ≠ c := fun he => h.started (he ▸ hd)
    exact ⟨_, .passes (by rw [h.others d hne]; exact hd) (by rw [h.registry]; exact hreg)
      (by rw [h.tasks]; exact hdone), h.leave hne⟩
  | finishes hrun =>
    exact ⟨_, .finishes (by rw [h.tasks]; exact hrun), h.setTask hrun (by simp)⟩
  | aborts hcan => exact ⟨_, .aborts (by rw [h.tasks]; exact hcan), h.setTask hcan (by simp)⟩
  | @wakes d key' t' must o hd hdone =>
    by_cases hne : d = c
    · subst hne
      rcases h.own with ⟨m, m', hm, hm'⟩ | ⟨o, o', ho, _⟩
      · rw [hm] at hd
        cases hd
        exact ⟨_, .wakes hm' (by rw [h.tasks]; exact hdone), h.leave_own⟩
      · rw [ho] at hd
        cases hd
    · exact ⟨_, .wakes (by rw [h.others d hne]; exact hd) (by rw [h.tasks]; exact hdone),
        h.leave hne⟩
  | cancels _ => exact absurd trivial ha

/-- Whatever happens next, short of another cancellation: in the run with the cancellation all
factories end as in the run without it, and so do all callers but the cancelled one; none of them
gets a CancelledError. -/
def Undisturbed (c : CallerId) (s s' : State K V E) : Prop :=
  ∀ acts u, (∀ a ∈ acts, ¬ Event.IsCancel a) → exec step s acts = some u →
    ∃ u', exec step s' acts = some u' ∧ u'.tasks = u.tasks ∧ ∀ e, e ≠ c →
      u'.callers e = u.callers e ∧ ∀ key t, u'.callers e ≠ some ⟨key, t, .finished .cancelled⟩

lemma undisturbed_of_done {m : Bool} (hs : Calm s) (hc : s.callers c = some ⟨key, t, .awaiting m⟩)
    {o : Outcome V E} (ht : s.tasks t = some (.done o)) :
    Undisturbed c s (s.cancelCaller c key t) := by
  intro acts u hacts hu
  have hcancel : s.cancelCaller c key t = { s with
      callers := Function.update s.callers c (some ⟨key, t, .awaiting true⟩) } := by
    simp [State.cancelCaller, ht]
  have htwin : Twin c key t s (s.cancelCaller c key t) := by
    rw [hcancel]
    exact ⟨rfl, rfl, rfl, fun e he => Function.update_of_ne he _ _, ⟨o, ht⟩, hs.fresh,
      .inl ⟨m, true, hc, Function.update_self ..⟩⟩
  obtain ⟨u', hu', htwin'⟩ := exec_simulation (Q := fun a => ¬ Event.IsCancel a)
    (fun _ _ a _ hR ha hv => Twin.step hR ha hv) htwin acts hacts hu
  have hcalm : Calm u :=
    (reachVia_of_exec acts hu (guarded_of_forall_mem (fun a ha _ => hacts a ha) s)).invariant hs
      fun _ _ _ hi hg hv => calm_step hi hg hv
  refine ⟨u', hu', htwin'.tasks, fun e he => ⟨htwin'.others e he, fun key' t' hfin => ?_⟩⟩
  rw [htwin'.others e he] at hfin
  obtain ⟨r, hr⟩ := hcalm.finished e key' t' _ hfin
  cases hr

/-- When the shared task is still running, its end and the wake-up of another caller show the
cancellation. -/
lemma disturbed_of_running [Inhabited V] {key' : K} {m : Bool} (hne : d ≠ c)
    (hd : s.callers d = some ⟨key', t, .awaiting m⟩) (ht : s.tasks t = some .running) :
    ¬ Undisturbed c s (s.cancelCaller c key t) := by
  intro h
  have hcancel : s.cancelCaller c key t = { s with
      tasks := Function.update s.tasks t (some .cancelling) } := by
    simp [State.cancelCaller, ht]
  rw [hcancel] at h
  obtain ⟨u', hu', _, hothers⟩ := h [.finish t (.ok default), .wake d] _
    (by simp [Event.IsCancel])
    (exec_cons_eq_some.mpr ⟨_, step_of_took (.finishes ht),
      exec_cons_eq_some.mpr ⟨_, step_of_took (.wakes hd (Function.update_self ..)), rfl⟩⟩)
  simp only [exec_cons, exec_nil, step, Function.update_self, hd, Option.bind_some, ite_self,
    Option.some.injEq] at hu'
  refine (hothers d hne).2 key' t ?_
  rw [← hu']
  exact Function.update_self ..

/-- Cancelling one of the callers that share a task leaves the others and the task undisturbed
exactly if the task is done already. -/
theorem cancel_undisturbed_iff [Inhabited V] (h : ReachVia step NoCancel (State.init K V E) s)
    {c d : CallerId} {key key' : K} {t : TaskId} {m m' : Bool} (hne : d ≠ c)
    (hc : s.callers c = some ⟨key, t, .awaiting m⟩)
    (hd : s.callers d = some ⟨key', t, .awaiting m'⟩) :
    ∃ s', step s (.cancel c) = some s' ∧
      (Undisturbed c s s' ↔ ∃ o, s.tasks t = some (.done o)) := by
  have hs := calm_reach h
  refine ⟨_, step_of_took (.cancels hc), fun hu => ?_, fun ⟨o, ho⟩ => undisturbed_of_done hs hc ho⟩
  obtain ⟨x, hx⟩ := Option.ne_none_iff_exists'.mp (hs.waiting c key t m hc).2
  rcases hs.tasks t x hx with rfl | ⟨r, rfl⟩
  · exact absurd hu (disturbed_of_running hne hd hx)
  · exact ⟨_, hx⟩

/-- Two callers share the task of one key. -/
def shared : List (Event String ℕ PyError) := [.call 0 "aggregate", .call 1 "aggregate"]

theorem cancel_undisturbed_iff_shared :
    ∃ s s', exec step (State.init String ℕ PyError) (shared ++ [.finish 0 (.ok 7)]) = some s ∧
      step s (.cancel 0) = some s' ∧ Undisturbed 0 s s' := by
  obtain ⟨s, hs, hc, hd, ht⟩ :
      ∃ s, exec step (State.init String ℕ PyError) (shared ++ [.finish 0 (.ok 7)]) = some s ∧
        s.callers 0 = some ⟨"aggregate", 0, .awaiting false⟩ ∧
        s.callers 1 = some ⟨"aggregate", 0, .awaiting false⟩ ∧
        s.tasks 0 = some (.done (.result (.ok 7))) := ⟨_, rfl, rfl, rfl, rfl⟩
  have hreach : ReachVia step NoCancel (State.init String ℕ PyError) s :=
    reachVia_of_exec _ hs (guarded_of_forall_mem (by simp [shared, NoCancel, Event.IsCancel]) _)
  obtain ⟨s', hs', hiff⟩ := cancel_undisturbed_iff hreach (by decide) hc hd
  exact ⟨s, s', hs, hs', hiff.mpr ⟨_, ht⟩⟩

/-- Caller 0 is cancelled while the task runs: caller 1 gets a CancelledError, and without the
cancellation it gets the value. -/
theorem shared_cancelled_follower :
    ∃ u u', exec step (State.init String ℕ PyError)
        (shared ++ [.finish 0 (.ok 7), .wake 1]) = some u ∧
      exec step (State.init String ℕ PyError)
        (shared ++ [.cancel 0, .finish 0 (.ok 7), .wake 1]) = some u' ∧
      u.callers 1 = some ⟨"aggregate", 0, .finished (.result (.ok 7))⟩ ∧
      u'.callers 1 = some ⟨"aggregate", 0, .finished .cancelled⟩ :=
  ⟨_, _, rfl, rfl, rfl, rfl⟩

end AsyncDataHub.Coalescer
