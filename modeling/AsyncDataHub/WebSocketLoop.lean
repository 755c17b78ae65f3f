import AsyncDataHub.WebSocketManager

/-! Who has the loop and who has the lock. The lock is never held across a suspension, so nobody
ever waits for it; nothing lies between the test for a full queue and the put, so nobody ever waits
for room. -/
namespace AsyncDataHub.WebSocket
open StepSystem

variable {size : ℕ} {s s' : State} {a : Action} {t u : TaskId} {task task' : Task} {pc pc' : Pc}

/-- The steps that a kind of call goes through. -/
def Call.Admits : Call → Pc → Prop
  | .session, .accepting | .session, .registerLock | .session, .register | .session, .created
  | .session, .get | .session, .sending _ | .session, .popLock | .session, .pop
  | .session, .ended => True
  | .disconnect _, .popLock | .disconnect _, .pop | .disconnect _, .ended => True
  | .broadcast _, .snapshotLock | .broadcast _, .snapshot | .broadcast _, .loop _
  | .broadcast _, .dropLock _ _ | .broadcast _, .drop _ _ | .broadcast _, .closing _ _
  | .broadcast _, .put _ _ | .broadcast _, .putting _ _ | .broadcast _, .hung _ _
  | .broadcast _, .returned | .broadcast _, .raised => True
  | _, _ => False

/-- What a task may rely on where it stands. -/
def Task.Sound (size : ℕ) (s : State) (t : TaskId) (task : Task) : Prop :=
  match task.pc with
  | .register | .pop | .snapshot | .drop _ _ => s.lock = some t
  | .loop _ | .dropLock _ _ => s.running = some t ∧ s.lock = none
  | .put c _ => s.running = some t ∧ s.lock = none ∧ ¬ full size (s.queue c)
  | .putting _ _ => False
  | .registerLock | .created | .get | .popLock | .snapshotLock => s.lock ≠ some t
  | .accepting | .sending _ | .closing _ _ | .hung _ _ | .returned | .raised | .ended =>
    s.lock ≠ some t ∧ s.running ≠ some t

structure LoopInv (size : ℕ) (s : State) : Prop where
  held : s.lock = none ∨ s.lock = s.running
  found : ∀ t, s.running = some t → s.tasks t ≠ none
  admits : ∀ t task, s.tasks t = some task → task.call.Admits task.pc
  sound : ∀ t task, s.tasks t = some task → task.Sound size s t

lemma LoopInv.lock_ne (h : LoopInv size s) (hfree : s.Free t) (hne : u ≠ t) : s.lock ≠ some u := by
  intro hlock
  rcases h.held with hnone | hrun
  · simp [hnone] at hlock
  · rw [hrun] at hlock
    rcases hfree with hf | hf
    · simp [hf] at hlock
    · exact hne (Option.some.inj (hf.symm.trans hlock)).symm

lemma Task.Sound.frame (h : task.Sound size s u) (hlock : s.lock ≠ some u)
    (hrun : s.running ≠ some u) (hlock' : s'.lock ≠ some u) (hrun' : s'.running ≠ some u) :
    task.Sound size s' u := by
  unfold Task.Sound at h ⊢
  cases hpc : task.pc <;> simp_all

lemma LoopInv.update (h : LoopInv size s) (hs : Steps s a t task)
    (htasks : s'.tasks = Function.update s.tasks t (some task'))
    (hrun : s'.running = none ∨ s'.running = some t)
    (hlock : s'.lock = none ∨ s'.lock = some t ∧ s'.running = some t)
    (hadmits : task'.call.Admits task'.pc) (hsound : task'.Sound size s' t) :
    LoopInv size s' := by
  constructor
  · rcases hlock with hl | ⟨hl, hr⟩
    · exact .inl hl
    · exact .inr (hl.trans hr.symm)
  · intro u hu
    rcases hrun with hr | hr
    · simp [hr] at hu
    · obtain rfl := Option.some.inj (hr.symm.trans hu)
      simp [htasks]
  · rw [htasks]
    exact forall_update h.admits hadmits
  · intro u task hu
    rw [htasks] at hu
    rcases update_eq_some.mp hu with ⟨rfl, rfl⟩ | ⟨hne, hu⟩
    · exact hsound
    · have hfree : s.running ≠ some u := by
        rcases hs.free with hf | hf
        · simp [hf]
        · exact fun hr => hne (Option.some.inj (hf.symm.trans hr)).symm
      have hrun' : s'.running ≠ some u := by
        rcases hrun with hr | hr
        · simp [hr]
        · simpa [hr] using hne.symm
      have hlock' : s'.lock ≠ some u := by
        rcases hlock with hl | ⟨hl, _⟩
        · simp [hl]
        · simpa [hl] using hne.symm
      exact (h.sound u task hu).frame (h.lock_ne hs.free hne) hfree hlock' hrun'

lemma admits_of_locks (h : Locks pc pc') {call : Call} (hc : call.Admits pc) :
    call.Admits pc' := by
  cases h <;> cases call <;> simp_all [Call.Admits]

lemma admits_of_moves {keeps : Bool} (h : Moves a pc pc' keeps) {call : Call}
    (hc : call.Admits pc) : call.Admits pc' := by
  cases h <;> cases call <;> simp_all [Call.Admits]

lemma lock_ne_of_locks (h : Locks task.pc pc) (hs : task.Sound size s t) : s.lock ≠ some t := by
  unfold Task.Sound at hs
  cases hpc : task.pc <;> rw [hpc] at h hs <;> cases h <;> simp_all

lemma LoopInv.unlocked (h : LoopInv size s) (hs : Steps s a t task) (hl : s.lock ≠ some t) :
    s.lock = none := by
  rcases h.held with hnone | hrun
  · exact hnone
  · rcases hs.free with hf | hf
    · exact hrun.trans hf
    · exact absurd (hrun.trans hf) hl

lemma loopInv_init : LoopInv size {} := by
  refine ⟨.inl rfl, ?_, ?_, ?_⟩ <;> intro t <;> simp

lemma loopInv_of_starts {call : Call} (h : LoopInv size s) (hidle : s.running = none) :
    LoopInv size (s.suspend t { call, pc := call.firstPc }) := by
  have hlock : s.lock = none := h.held.elim id fun hl => hl.trans hidle
  refine ⟨.inl hlock, by simp [State.suspend], ?_, ?_⟩
  · refine forall_update h.admits ?_
    cases call <;> simp [Call.firstPc, Call.Admits]
  · refine forall_update (fun u task hu => ?_) ?_
    · have hs := h.sound u task hu
      exact hs.frame (by simp [hlock]) (by simp [hidle]) (by simp [State.suspend, hlock])
        (by simp [State.suspend])
    · cases call <;> simp [Call.firstPc, Task.Sound, State.suspend, hlock]

lemma lock_ne_of_moves {keeps : Bool} (h : Moves a task.pc pc keeps) (hs : task.Sound size s t) :
    s.lock ≠ some t := by
  unfold Task.Sound at hs
  cases hpc : task.pc <;> rw [hpc] at h hs <;> cases h <;> simp_all

lemma loopInv_of_moves {keeps : Bool} (h : LoopInv size s) (hs : Steps s a t task)
    (hm : Moves a task.pc pc keeps) : LoopInv size (s.place t { task with pc } keeps) := by
  have hsound := h.sound t task hs.found
  have hlock : s.lock = none := h.unlocked hs (lock_ne_of_moves hm hsound)
  have hadmits := admits_of_moves hm (h.admits t task hs.found)
  cases keeps with
  | true =>
    refine h.update hs rfl (.inr rfl) (.inl hlock) hadmits ?_
    generalize task.pc = old at hm
    cases hm <;> simp [Task.Sound, State.place, State.goOn, hlock]
  | false =>
    refine h.update hs rfl (.inl rfl) (.inl hlock) hadmits ?_
    generalize task.pc = old at hm
    cases hm <;> simp [Task.Sound, State.place, State.suspend, hlock]

theorem loopInv_of_took (h : LoopInv size s) (ht : Took size s a s') : LoopInv size s' := by
  cases ht with
  | starts _ hidle _ => exact loopInv_of_starts h hidle
  | @takes t task pc hs _ hl =>
    have hadmits := admits_of_locks hl (h.admits t task hs.found)
    refine h.update hs rfl (.inr rfl) (.inr ⟨rfl, rfl⟩) hadmits ?_
    generalize task.pc = old at hl
    cases hl <;> rfl
  | @parks t task hs hhad hreason =>
    have hsound := h.sound t task hs.found
    have hne : s.lock ≠ some t := by
      rcases hreason with ⟨⟨pc, hl⟩, _⟩ | ⟨hpc, _⟩
      · exact lock_ne_of_locks hl hsound
      · simpa [Task.Sound, hpc] using hsound
    have hlock : s.lock = none := h.unlocked hs hne
    have hget : task.pc = .get := by
      rcases hreason with ⟨_, htaken⟩ | ⟨hpc, _⟩
      · exact absurd hlock htaken
      · exact hpc
    have hsame : s.tasks = Function.update s.tasks t (some task) :=
      (Function.update_eq_self_iff.mpr hs.found.symm).symm
    refine h.update hs hsame (.inl rfl) (.inl hlock) (h.admits _ _ hs.found) ?_
    simp [Task.Sound, hget, hlock]
  | @registers t task hs hpc | @pops t task hs hpc | @drops t task c rest hs hpc =>
    have hadmits := h.admits t task hs.found
    refine h.update hs rfl (.inl rfl) (.inl rfl) ?_ (by simp [Task.Sound, register, State.suspend])
    cases hc : task.call <;> simp_all [Call.Admits]
  | @snaps t task hs hpc =>
    have hadmits := h.admits t task hs.found
    refine h.update hs rfl (.inr rfl) (.inl rfl) ?_ (by simp [Task.Sound, State.goOn])
    cases hc : task.call <;> simp_all [Call.Admits]
  | @finds t task c rest hs hpc _ =>
    have hadmits := h.admits t task hs.found
    obtain ⟨_, hlock⟩ : s.running = some t ∧ s.lock = none := by
      simpa [Task.Sound, hpc] using h.sound t task hs.found
    refine h.update hs rfl (.inr rfl) (.inl hlock) ?_ (by simp [Task.Sound, State.goOn, hlock])
    cases hc : task.call <;> simp_all [Call.Admits]
  | @passes t task c rest hs hpc hroom =>
    have hadmits := h.admits t task hs.found
    obtain ⟨_, hlock⟩ : s.running = some t ∧ s.lock = none := by
      simpa [Task.Sound, hpc] using h.sound t task hs.found
    refine h.update hs rfl (.inr rfl) (.inl hlock) ?_
      (by simpa [Task.Sound, State.goOn, hlock] using hroom)
    cases hc : task.call <;> simp_all [Call.Admits]
  | @waits t task c rest hs hpc hfull _ =>
    have hsound := h.sound t task hs.found
    rcases hpc with hpc | hpc <;> simp [Task.Sound, hpc, hfull] at hsound
  | @enqueues t task c rest hs hpc hroom =>
    have hsound := h.sound t task hs.found
    have hput : task.pc = .put c rest := by
      rcases hpc with hpc | hpc
      · exact hpc
      · simp [Task.Sound, hpc] at hsound
    have hadmits := h.admits t task hs.found
    obtain ⟨_, hlock, _⟩ : s.running = some t ∧ s.lock = none ∧ ¬ full size (s.queue c) := by
      simpa [Task.Sound, hput] using hsound
    refine h.update hs rfl (.inr rfl) (.inl hlock) ?_
      (by simp [Task.Sound, State.goOn, State.enqueue, hlock])
    cases hc : task.call <;> simp_all [Call.Admits]
  | @dequeues t task e queue hs hpc _ =>
    have hadmits := h.admits t task hs.found
    have hlock : s.lock = none :=
      h.unlocked hs (by simpa [Task.Sound, hpc] using h.sound t task hs.found)
    refine h.update hs rfl (.inl rfl) (.inl hlock) ?_
      (by simp [Task.Sound, State.suspend, hlock])
    cases hc : task.call <;> simp_all [Call.Admits]
  | @sends t task e delivered ok hs hpc _ =>
    have hadmits := h.admits t task hs.found
    have hsound := h.sound t task hs.found
    simp only [Task.Sound, hpc] at hsound
    have hlock : s.lock = none := h.unlocked hs hsound.1
    refine h.update hs rfl (.inr rfl) (.inl hlock) ?_ ?_
    · cases ok <;> cases hc : task.call <;> simp_all [Call.Admits]
    · cases ok <;> simp [Task.Sound, State.goOn, hlock]
  | moves hs hm => exact loopInv_of_moves h hs hm

theorem LoopInv.step (h : LoopInv size s) (hstep : WebSocket.step size s a = some s') :
    LoopInv size s' := loopInv_of_took h (took_of_step hstep)

end AsyncDataHub.WebSocket
