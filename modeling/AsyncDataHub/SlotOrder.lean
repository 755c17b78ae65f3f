import AsyncDataHub.SlotTasks

/-! The slots of a semaphore are given out in the order in which tasks ask for them. -/
namespace AsyncDataHub.Semaphores
open StepSystem

variable {L T : Type*}

section Queue
variable {m m' : Semaphore T} {t u v : T}

/-- In the queue `u` is not before `t`, and it has no result while `t` has none. -/
def Semaphore.Ordered (t u : T) (m : Semaphore T) : Prop :=
  m.tasks.Pairwise (fun x y => ¬ (x = u ∧ y = t)) ∧
    (⟨t, .pending⟩ ∈ m.waiters → ⟨u, .result⟩ ∉ m.waiters)

/-- An operation that keeps the order and does not put `t` into the queue. -/
def Semaphore.Follows (t u : T) (m m' : Semaphore T) : Prop :=
  (m.Ordered t u → m'.Ordered t u) ∧ (⟨t, .pending⟩ ∈ m'.waiters → ⟨t, .pending⟩ ∈ m.waiters)

lemma Semaphore.Follows.trans {m'' : Semaphore T} (h : m.Follows t u m') (g : m'.Follows t u m'') :
    m.Follows t u m'' := ⟨g.1 ∘ h.1, h.2 ∘ g.2⟩

lemma follows_wakeUpNext (m : Semaphore T) : m.Follows t u m.wakeUpNext := by
  rcases wakeUpNext_cases m with ⟨_, h⟩ | ⟨before, x, after, hm, hbefore, h⟩
  · rw [h]
    exact ⟨id, id⟩
  · have hpending : (⟨t, .pending⟩ : Waiter T) ∈ m.wakeUpNext.waiters → ⟨t, .pending⟩ ∈ after := by
      rw [h]
      simp only [List.mem_append, List.mem_cons, Waiter.mk.injEq, reduceCtorEq, and_false, false_or]
      rintro (hin | hin)
      · exact absurd rfl (hbefore _ hin)
      · exact hin
    refine ⟨fun ho => ⟨by rw [tasks_wakeUpNext]; exact ho.1, fun ht hu => ?_⟩, fun ht => ?_⟩
    · have hafter := hpending ht
      have hold : (⟨u, .result⟩ : Waiter T) ∉ m.waiters := ho.2 (by simp [hm, hafter])
      have hxu : x = u := by
        by_contra hne
        rw [h] at hu
        rw [hm] at hold
        simp only [List.mem_append, List.mem_cons, Waiter.mk.injEq, reduceCtorEq, and_false,
          and_true, Ne.symm hne, false_or] at hu hold
        exact hold hu
      have hpair := ho.1
      simp only [Semaphore.tasks, hm, List.map_append, List.map_cons, List.pairwise_append,
        List.pairwise_cons] at hpair
      exact hpair.2.1.1 t (List.mem_map_of_mem hafter) ⟨hxu, rfl⟩
    · rw [hm]
      exact List.mem_append_right _ (List.mem_cons_of_mem _ (hpending ht))

lemma follows_wakeUp (m : Semaphore T) (n : ℕ) : m.Follows t u (m.wakeUp n) :=
  wakeUp_induction (P := fun k => m.Follows t u k)
    (fun k _ hk => hk.trans (follows_wakeUpNext k)) n ⟨id, id⟩

lemma follows_putBack (m : Semaphore T) : m.Follows t u m.putBack := ⟨id, id⟩

lemma follows_enqueue (hv : v ≠ t) (m : Semaphore T) : m.Follows t u (m.enqueue v) := by
  have hpending {x : T} {f : Fut} (hne : x = v → f ≠ .pending) :
      ⟨x, f⟩ ∈ (m.enqueue v).waiters → (⟨x, f⟩ : Waiter T) ∈ m.waiters := by
    simp only [Semaphore.enqueue, List.mem_append, List.mem_singleton, Waiter.mk.injEq]
    rintro (h | ⟨hx, hf⟩)
    · exact h
    · exact absurd hf (hne hx)
  refine ⟨fun ho => ⟨?_, fun ht hu => ?_⟩, hpending fun h => absurd h.symm hv⟩
  · rw [tasks_enqueue, List.pairwise_append]
    refine ⟨ho.1, List.pairwise_singleton .., fun x _ y hy => ?_⟩
    rw [List.mem_singleton.mp hy]
    exact fun h => hv h.2
  · exact ho.2 (hpending (fun h => absurd h.symm hv) ht) (hpending (by simp) hu)

lemma follows_remove [DecidableEq T] (m : Semaphore T) : m.Follows t u (m.remove v) := by
  have hsub {w : Waiter T} : w ∈ (m.remove v).waiters → w ∈ m.waiters :=
    fun h => (List.mem_filter.mp h).1
  refine ⟨fun ho => ⟨?_, fun ht hu => ho.2 (hsub ht) (hsub hu)⟩, hsub⟩
  rw [tasks_remove]
  exact ho.1.filter _

lemma follows_cancelFuture [DecidableEq T] (m : Semaphore T) :
    m.Follows t u (m.cancelFuture v) := by
  have hsub {x : T} {f : Fut} (hf : f ≠ .cancelled) :
      ⟨x, f⟩ ∈ (m.cancelFuture v).waiters → (⟨x, f⟩ : Waiter T) ∈ m.waiters := by
    intro h
    obtain ⟨w, hw, heq⟩ := List.mem_map.mp h
    unfold Waiter.cancel at heq
    split_ifs at heq
    · cases heq
      exact absurd rfl hf
    · exact heq ▸ hw
  refine ⟨fun ho => ⟨?_, fun ht hu => ho.2 (hsub (by simp) ht) (hsub (by simp) hu)⟩,
    hsub (by simp)⟩
  rw [tasks_cancelFuture]
  exact ho.1

end Queue

section Machine
variable [DecidableEq L] [DecidableEq T] {plan : T → List L} {limit : L → ℕ} {s s' : State L T}
  {a : Action T} {t u : T} {l : L}

/-- `t` has asked for a slot of `l` before `u`, and `u` has none as long as `t` waits. -/
structure NotOvertaken (plan : T → List L) (l : L) (t u : T) (s : State L T) : Prop where
  asked : l ∉ (s.pc t).toAsk (plan t)
  ordered : (s.sem l).Ordered t u
  behind : ⟨t, .pending⟩ ∈ (s.sem l).waiters → l ∉ (s.pc u).held

lemma toAsk_step (h : step plan s a = some s') :
    (s'.pc t).toAsk (plan t) ⊆ (s.pc t).toAsk (plan t) := by
  have hmoved {v : T} {pc : Pc L} (hpc : pc.toAsk (plan v) ⊆ (s.pc v).toAsk (plan v)) :
      (Function.update s.pc v pc t).toAsk (plan t) ⊆ (s.pc t).toAsk (plan t) := by
    by_cases hv : t = v
    · subst hv
      rwa [Function.update_self]
    · rw [Function.update_of_ne hv]
      exact List.Subset.refl _
  cases took_of_step h with
  | starts hpc => exact hmoved (by simp [hpc, Pc.toAsk])
  | waits hpc _ | takes hpc _ => exact hmoved (by simp [hpc, Pc.toAsk])
  | enters hpc _ _ | declines hpc _ _ => exact hmoved (by simp [hpc, Pc.toAsk])
  | drops hpc _ => exact hmoved (by simp [hpc, Pc.toAsk])
  | cancels hpc | finishes hpc | releases hpc => exact hmoved (by simp [hpc, Pc.toAsk])

lemma follows_put {k : L} {m : Semaphore T} {pc : Pc L} {v : T}
    (h : l = k → (s.sem l).Follows t u m) : (s.sem l).Follows t u ((s.put k m v pc).sem l) := by
  by_cases hk : l = k
  · subst hk
    simpa [State.put] using h rfl
  · simp only [State.put, Function.update_of_ne hk]
    exact ⟨id, id⟩

lemma follows_step (hasked : l ∉ (s.pc t).toAsk (plan t)) (h : step plan s a = some s') :
    (s.sem l).Follows t u (s'.sem l) := by
  cases took_of_step h with
  | starts _ | finishes _ => exact ⟨id, id⟩
  | @waits v held rest k hpc _ =>
    refine follows_put ?_
    rintro rfl
    refine follows_enqueue ?_ _
    rintro rfl
    simp [hpc, Pc.toAsk] at hasked
  | takes _ _ =>
    refine follows_put ?_
    rintro rfl
    exact ⟨id, id⟩
  | enters _ _ _ | drops _ _ =>
    refine follows_put ?_
    rintro rfl
    exact (follows_remove _).trans (follows_wakeUp _ _)
  | declines _ _ _ =>
    refine follows_put ?_
    rintro rfl
    exact ((follows_remove _).trans (follows_putBack _)).trans (follows_wakeUp _ _)
  | cancels _ =>
    refine follows_put ?_
    rintro rfl
    exact follows_cancelFuture _
  | releases _ =>
    refine follows_put ?_
    rintro rfl
    exact (follows_putBack _).trans (follows_wakeUpNext _)

lemma held_of_step (hpending : ⟨t, .pending⟩ ∈ (s.sem l).waiters)
    (h : step plan s a = some s') (hheld : l ∈ (s'.pc u).held) :
    l ∈ (s.pc u).held ∨ ⟨u, .result⟩ ∈ (s.sem l).waiters := by
  have hmoved {v : T} {pc : Pc L} (hnew : l ∈ pc.held → l ∈ (s.pc v).held)
      (hu : l ∈ (Function.update s.pc v pc u).held) : l ∈ (s.pc u).held := by
    by_cases hv : u = v
    · subst hv
      rw [Function.update_self] at hu
      exact hnew hu
    · rwa [Function.update_of_ne hv] at hu
  cases took_of_step h with
  | starts hpc | finishes hpc | waits hpc _ | cancels hpc =>
    exact .inl (hmoved (by simp [hpc, Pc.held]) hheld)
  | declines hpc _ _ | drops hpc _ => exact .inl (hmoved (by simp [hpc, Pc.held]) hheld)
  | releases hpc =>
    refine .inl (hmoved (fun hin => ?_) hheld)
    rw [hpc]
    exact List.mem_cons_of_mem _ hin
  | @takes v held rest k hpc hlocked =>
    refine .inl (hmoved (fun hin => ?_) hheld)
    rw [hpc]
    rcases List.mem_cons.mp hin with rfl | hin
    · have hcancelled := (not_pending_of_unlocked hlocked).2 _ hpending
      cases hcancelled
    · exact hin
  | @enters v n held rest k hpc hfut _ =>
    by_cases hv : u = v
    · subst hv
      simp only [State.put, Function.update_self, Pc.held, List.mem_cons] at hheld
      rcases hheld with rfl | hin
      · exact .inr hfut
      · exact .inl (by rw [hpc]; exact hin)
    · simp only [State.put, Function.update_of_ne hv] at hheld
      exact .inl hheld

lemma notOvertaken_step (hi : NotOvertaken plan l t u s) (h : step plan s a = some s') :
    NotOvertaken plan l t u s' := by
  have hfollows := follows_step (u := u) hi.asked h
  refine ⟨fun hask => hi.asked (toAsk_step h hask), hfollows.1 hi.ordered, fun hpending hheld => ?_⟩
  have hbefore := hfollows.2 hpending
  rcases held_of_step hbefore h hheld with hu | hresult
  · exact hi.behind hbefore hu
  · exact hi.ordered.2 hbefore hresult

/-- First come, first served: while `t` waits for a slot of `l`, no task that asks for one later
gets it. -/
theorem Inv.not_overtaken (hi : Inv plan limit s) (hplan : (plan t).Nodup)
    (ht : (s.pc t).waitsFor = some l) (hu : (s.pc u).waitsFor ≠ some l) (hheld : l ∉ (s.pc u).held)
    (h : Reach (step plan) s s') (hpending : ⟨t, .pending⟩ ∈ (s'.sem l).waiters) :
    l ∉ (s'.pc u).held ∧ ⟨u, .result⟩ ∉ (s'.sem l).waiters := by
  have hstart : NotOvertaken plan l t u s := by
    have huq : u ∉ (s.sem l).tasks := fun hmem => hu (((hi.slot l).waits u).mp hmem)
    refine ⟨?_, ⟨List.pairwise_of_forall_mem_list fun x hx y _ hxy => huq (hxy.1 ▸ hx),
      fun _ hmem => huq (mem_tasks hmem)⟩, fun _ => hheld⟩
    have hplanned := hi.planned t
    cases hpc : s.pc t with
    | waiting held k rest cancelling =>
      obtain rfl : k = l := by simpa [hpc, Pc.waitsFor] using ht
      simp only [hpc, Pc.Planned] at hplanned
      rw [← hplanned, List.nodup_middle, List.nodup_cons] at hplan
      exact fun hmem => hplan.1 (List.mem_append_right _ hmem)
    | _ => simp [hpc, Pc.waitsFor] at ht
  have hend := h.invariant hstart fun _ _ _ hi _ hs => notOvertaken_step hi hs
  exact ⟨hend.behind hpending, hend.ordered.2 hpending⟩

end Machine

end AsyncDataHub.Semaphores
