import AsyncDataHub.WebSocketQueues

/-! What one slow client can do to a broadcast. The only step of a broadcast that another party
answers is the close of a client whose queue was full, and the broadcast waits for it in the middle
of its loop over all the others. -/
namespace AsyncDataHub.WebSocket
open StepSystem

variable {size : ℕ} {s s' : State} {a : Action} {t b : TaskId} {c : ClientId} {task : Task}
  {message : String}

/-- A broadcast that the clients it has not come to need not care about. -/
structure Task.Isolated (size : ℕ) (s : State) (b : TaskId) (message : String) (task : Task) :
    Prop where
  quiet : task.pc ≠ .raised
  answered : ∀ c rest, task.pc ≠ .hung c rest
  delivered : ∀ c, (c, true) ∈ task.results → s.entriesOf b c = [⟨b, message⟩]
  skipped : ∀ c, (c, true) ∉ task.results → s.entriesOf b c = []
  covered : task.pc = .returned → task.results.map Prod.fst = task.snapshot
  goesOn : task.pc ≠ .returned → s.Free b → ∃ a, a.task = b ∧ step size s a ≠ none

def State.Isolated (size : ℕ) (s : State) : Prop :=
  ∀ b message task, s.tasks b = some task → task.call = .broadcast message →
    task.Isolated size s b message

/-- No close raises, and none stays without an answer. -/
def ClosesReturn (_ : State) : Action → Prop
  | .closed _ ok => ok = true
  | .hang _ => False
  | _ => True

/-- No broadcast has raised, and none waits for a close that does not answer. -/
def State.Unstuck (s : State) : Prop :=
  ∀ t task, s.tasks t = some task → task.pc ≠ .raised ∧ ∀ c rest, task.pc ≠ .hung c rest

lemma acquire_ne_none {pc : Pc} (hlock : s.lock = none) : acquire s t task pc ≠ none := by
  simp [acquire, hlock]

lemma step_run (htask : s.tasks t = some task) (hfree : s.Free t) :
    step size s (.run t) = run size s t task := by
  simp [step, Action.task, htask, advance, hfree]

/-- Where a task waits for somebody outside of the loop, or is at its end. -/
def Pc.Outside : Pc → Prop
  | .accepting | .sending _ | .closing _ _ | .hung _ _ | .returned | .raised | .ended => True
  | _ => False

lemma not_running_of_outside (hs : task.Sound size s t) (hout : task.pc.Outside) :
    s.running ≠ some t := by
  unfold Task.Sound at hs
  cases hpc : task.pc <;> rw [hpc] at hs hout <;> first | exact hout.elim | exact hs.2

lemma run_ne_none (hi : LoopInv size s) (htask : s.tasks t = some task) (hfree : s.Free t)
    (hout : ¬ task.pc.Outside) (hget : task.pc = .get → s.running = some t) :
    run size s t task ≠ none := by
  have hsound := hi.sound t task htask
  have hs : Steps s (.run t) t task := ⟨htask, hfree, rfl⟩
  cases hpc : task.pc with
  | registerLock | popLock | snapshotLock =>
    have hlock := hi.unlocked hs (by simpa [Task.Sound, hpc] using hsound)
    simpa [run, hpc] using acquire_ne_none hlock
  | dropLock c rest =>
    have hlock : s.lock = none := by
      simp only [Task.Sound, hpc] at hsound
      exact hsound.2
    simpa [run, hpc] using acquire_ne_none hlock
  | put c rest =>
    have hroom : ¬ full size (s.queue c) := by
      simp only [Task.Sound, hpc] at hsound
      exact hsound.2.2
    simp [run, hpc, put, hroom]
  | get =>
    simp only [run, hpc]
    split <;> simp [hget hpc]
  | register | created | pop | snapshot | drop c rest => simp [run, hpc]
  | loop rest =>
    cases rest with
    | nil => simp [run, hpc]
    | cons c rest => simp only [run, hpc]; split_ifs <;> simp
  | putting c rest => simp [Task.Sound, hpc] at hsound
  | accepting | sending e | closing c rest | hung c rest | returned | raised | ended =>
    rw [hpc] at hout
    exact absurd trivial hout

lemma broadcast_goesOn (hi : LoopInv size s) (htask : s.tasks b = some task)
    (hcall : task.call = .broadcast message) (hraised : task.pc ≠ .raised)
    (hhung : ∀ c rest, task.pc ≠ .hung c rest) (hreturned : task.pc ≠ .returned)
    (hfree : s.Free b) : ∃ a, a.task = b ∧ step size s a ≠ none := by
  have hadmits := hi.admits b task htask
  rw [hcall] at hadmits
  by_cases hout : task.pc.Outside
  · have hidle : s.running = none :=
      hfree.resolve_right (not_running_of_outside (hi.sound b task htask) hout)
    cases hpc : task.pc with
    | closing c rest =>
      exact ⟨.closed b true, rfl, by simp [step, Action.task, htask, advance, hidle, closed, hpc]⟩
    | returned => exact absurd hpc hreturned
    | raised => exact absurd hpc hraised
    | hung c rest => exact absurd hpc (hhung c rest)
    | accepting | sending e | ended => simp [Call.Admits, hpc] at hadmits
    | _ =>
      rw [hpc] at hout
      exact hout.elim
  · have hget : task.pc = .get → s.running = some b := by
      intro hpc
      simp [Call.Admits, hpc] at hadmits
    refine ⟨.run b, rfl, ?_⟩
    rw [step_run htask hfree]
    exact run_ne_none hi htask hfree hout hget

lemma running_goesOn (hi : LoopInv size s) (hrun : s.running = some t) :
    ∃ s', step size s (.run t) = some s' := by
  obtain ⟨task, htask⟩ := Option.ne_none_iff_exists'.mp (hi.found t hrun)
  have hout : ¬ task.pc.Outside := fun hout =>
    not_running_of_outside (hi.sound t task htask) hout hrun
  rw [step_run htask (.inr hrun), ← Option.ne_none_iff_exists']
  exact run_ne_none hi htask (.inr hrun) hout fun _ => hrun

def Task.left (connections : ℕ) (task : Task) : ℕ :=
  match task.pc with
  | .register | .pop | .drop _ _ | .get => 1
  | .registerLock | .popLock | .dropLock _ _ | .created => 2
  | .loop rest => 2 * rest.length + 3
  | .put _ rest => 2 * rest.length + 4
  | .snapshot => 2 * connections + 4
  | .snapshotLock => 2 * connections + 5
  | _ => 0

lemma left_of_run (hi : LoopInv size s) (htask : s.tasks t = some task)
    (hstep : step size s (.run t) = some s') :
    s'.running = none ∨ s'.running = some t ∧ ∃ task', s'.tasks t = some task' ∧
      task'.left s'.registry.length < task.left s.registry.length := by
  have hsame : ∀ {t' : TaskId} {old : Task}, Steps s (.run t) t' old → t' = t ∧ old = task := by
    intro t' old hs
    obtain rfl : t = t' := hs.actor
    exact ⟨rfl, Option.some.inj (hs.found.symm.trans htask)⟩
  cases took_of_step hstep with
  | starts act _ _ => cases act
  | parks _ _ _ | registers _ _ | pops _ _ | drops _ _ | waits _ _ _ _ | dequeues _ _ _ =>
    exact .inl rfl
  | takes hs _ hl =>
    obtain ⟨rfl, rfl⟩ := hsame hs
    refine .inr ⟨rfl, _, Function.update_self .., ?_⟩
    generalize hold : Task.pc _ = old at hl
    cases hl <;> simp [Task.left, hold, State.goOn]
  | snaps hs hpc =>
    obtain ⟨rfl, rfl⟩ := hsame hs
    exact .inr ⟨rfl, _, Function.update_self .., by simp [Task.left, hpc]⟩
  | finds hs hpc _ =>
    obtain ⟨rfl, rfl⟩ := hsame hs
    exact .inr ⟨rfl, _, Function.update_self .., by simp [Task.left, hpc]⟩
  | passes hs hpc _ =>
    obtain ⟨rfl, rfl⟩ := hsame hs
    exact .inr ⟨rfl, _, Function.update_self .., by simp [Task.left, hpc]; omega⟩
  | enqueues hs hpc _ =>
    obtain ⟨rfl, rfl⟩ := hsame hs
    refine .inr ⟨rfl, _, Function.update_self .., ?_⟩
    have hsound := hi.sound _ _ hs.found
    rcases hpc with hpc | hpc
    · simp [Task.left, hpc]
    · simp [Task.Sound, hpc] at hsound
  | sends hs hpc _ =>
    obtain ⟨rfl, rfl⟩ := hsame hs
    rw [step_run htask hs.free, run, hpc] at hstep
    cases hstep
  | @moves t' old pc keeps hs hm =>
    obtain ⟨rfl, rfl⟩ := hsame hs
    cases keeps with
    | false => exact .inl rfl
    | true =>
      refine .inr ⟨rfl, _, Function.update_self .., ?_⟩
      generalize hold : Task.pc _ = pc₀ at hm
      cases hm
      simp [Task.left, hold]

lemma loop_freed (hi : LoopInv size s) (hrun : s.running = some t) :
    ∃ n s', exec (step size) s (List.replicate n (.run t)) = some s' ∧ s'.running = none := by
  obtain ⟨task, htask⟩ := Option.ne_none_iff_exists'.mp (hi.found t hrun)
  induction hn : task.left s.registry.length using Nat.strong_induction_on generalizing s task with
  | _ n ih =>
    obtain ⟨s₁, hstep⟩ := running_goesOn hi hrun
    rcases left_of_run hi htask hstep with hidle | ⟨hrun₁, task₁, htask₁, hlt⟩
    · exact ⟨1, s₁, by simp [hstep], hidle⟩
    · obtain ⟨k, s', hexec, hidle⟩ := ih _ (hn ▸ hlt) (hi.step hstep) hrun₁ task₁ htask₁ rfl
      exact ⟨k + 1, s', by simp [List.replicate_succ, hstep, hexec], hidle⟩

/-- The most steps that a broadcast can have taken where it stands. -/
def Task.taken (task : Task) : ℕ :=
  match task.pc with
  | .snapshotLock => 1
  | .snapshot => 2
  | .loop _ => 4 * task.results.length + 3
  | .put _ _ => 4 * task.results.length + 4
  | .dropLock _ _ => 4 * task.results.length
  | .drop _ _ => 4 * task.results.length + 1
  | .closing _ _ => 4 * task.results.length + 2
  | .hung _ _ | .raised => 4 * task.results.length + 3
  | .returned => 4 * task.results.length + 4
  | _ => 0

def State.taken (s : State) (b : TaskId) : ℕ := ((s.tasks b).map Task.taken).getD 0

lemma call_of_took (ht : Took size s a s') {u : TaskId} (htask : s.tasks u = some task) :
    ∃ task', s'.tasks u = some task' ∧ task'.call = task.call := by
  by_cases hne : u = a.task
  · cases ht with
    | starts act _ fresh =>
      subst act hne
      simp [htask] at fresh
    | parks _ _ _ => exact ⟨task, htask, rfl⟩
    | @moves t old pc keeps hs _ =>
      obtain rfl := hne.trans hs.actor
      obtain rfl := Option.some.inj (htask.symm.trans hs.found)
      cases keeps <;> exact ⟨_, Function.update_self .., rfl⟩
    | _ =>
      rename Steps s a _ _ => hs
      obtain rfl := hne.trans hs.actor
      obtain rfl := Option.some.inj (htask.symm.trans hs.found)
      exact ⟨_, Function.update_self .., rfl⟩
  · exact ⟨task, (ht.tasks_ne hne).trans htask, rfl⟩

lemma call_of_reach (h : Reach (step size) s s') {u : TaskId} (htask : s.tasks u = some task) :
    ∃ task', s'.tasks u = some task' ∧ task'.call = task.call := by
  refine h.invariant (I := fun x => ∃ task', x.tasks u = some task' ∧ task'.call = task.call)
    ⟨task, htask, rfl⟩ ?_
  rintro s a s' ⟨old, hold, hcall⟩ _ hstep
  obtain ⟨new, hnew, hsame⟩ := call_of_took (took_of_step hstep) hold
  exact ⟨new, hnew, hsame.trans hcall⟩

lemma taken_of_moves {pc : Pc} {keeps : Bool} (hm : Moves a task.pc pc keeps)
    (hadmits : (Call.broadcast message).Admits task.pc) :
    task.taken < Task.taken { task with pc } := by
  generalize hold : task.pc = pc₀ at hm hadmits
  cases hm <;> simp [Call.Admits] at hadmits <;> simp [Task.taken, hold]

lemma taken_lt (hi : LoopInv size s) (ht : Took size s a s') (htask : s'.tasks a.task = some task)
    (hcall : task.call = .broadcast message) : s.taken a.task < task.taken := by
  have htaken : ∀ {t : TaskId} {old : Task}, Steps s a t old → s.taken a.task = old.taken := by
    intro t old hs
    rw [State.taken, hs.actor, hs.found]
    rfl
  have hlate : ∀ {t : TaskId} {old : Task}, Steps s a t old → old.call = task.call →
      (Call.broadcast message).Admits old.pc := by
    intro t old hs hsame
    rw [← hcall, ← hsame]
    exact hi.admits t old hs.found
  cases ht with
  | starts act _ fresh =>
    subst act
    obtain rfl := actor_eq rfl htask
    simp only at hcall
    subst hcall
    simp [State.taken, Action.task, fresh, Task.taken, Call.firstPc]
  | @parks t old hs _ hreason =>
    obtain rfl := Option.some.inj (hs.found.symm.trans (hs.actor ▸ htask))
    have hadmits := hlate hs rfl
    rcases hreason with ⟨⟨pc, hl⟩, hlocked⟩ | ⟨hpc, _⟩
    · exact absurd (hi.unlocked hs (lock_ne_of_locks hl (hi.sound t _ hs.found))) hlocked
    · simp [Call.Admits, hpc] at hadmits
  | @takes t old pc hs _ hl =>
    obtain rfl := actor_eq hs.actor htask
    have hadmits := hlate hs rfl
    rw [htaken hs]
    generalize hold : old.pc = pc₀ at hl hadmits
    cases hl <;> simp [Call.Admits] at hadmits <;> simp [Task.taken, hold]
  | @registers t old hs hpc | @pops t old hs hpc | @dequeues t old e queue hs hpc _
  | @sends t old e delivered ok hs hpc _ =>
    obtain rfl := actor_eq hs.actor htask
    have hadmits := hlate hs rfl
    simp [Call.Admits, hpc] at hadmits
  | @snaps t old hs hpc | @drops t old c rest hs hpc | @passes t old c rest hs hpc _ =>
    obtain rfl := actor_eq hs.actor htask
    rw [htaken hs]
    simp only [Task.taken, hpc]
    omega
  | @finds t old c rest hs hpc _ =>
    obtain rfl := actor_eq hs.actor htask
    rw [htaken hs]
    simp only [Task.taken, hpc, List.length_append, List.length_singleton]
    omega
  | @waits t old c rest hs hpc hfull _ =>
    have hsound := hi.sound t old hs.found
    rcases hpc with hpc | hpc <;> simp [Task.Sound, hpc, hfull] at hsound
  | @enqueues t old c rest hs hpc _ =>
    obtain rfl := actor_eq hs.actor htask
    have hsound := hi.sound t old hs.found
    rw [htaken hs]
    rcases hpc with hpc | hpc
    · simp only [Task.taken, hpc, List.length_append, List.length_singleton]
      omega
    · simp [Task.Sound, hpc] at hsound
  | @moves t old pc keeps hs hm =>
    cases keeps <;> obtain rfl := actor_eq hs.actor htask <;> rw [htaken hs] <;>
      exact taken_of_moves hm (hlate hs rfl)

/-- A broadcast takes at most four steps for each connection of its snapshot, and four more. -/
lemma steps_le (hi : LoopInv size s) {acts : List Action} (h : exec (step size) s acts = some s')
    (htask : s'.tasks b = some task) (hcall : task.call = .broadcast message) :
    acts.countP (·.task = b) + s.taken b ≤ task.taken := by
  induction acts generalizing s with
  | nil =>
    simp only [exec_nil, Option.some.injEq] at h
    subst h
    simp [State.taken, htask]
  | cons a as ih =>
    obtain ⟨u, hu, hrest⟩ := exec_cons_eq_some.mp h
    have ht := took_of_step hu
    have hle := ih (hi.step hu) hrest
    by_cases hb : a.task = b
    · subst hb
      obtain ⟨mid, hmid⟩ := Option.ne_none_iff_exists'.mp ht.tasks_actor
      obtain ⟨last, hlast, hsame⟩ := call_of_reach (reach_of_exec as hrest) hmid
      obtain rfl := Option.some.inj (htask.symm.trans hlast)
      have hlt := taken_lt hi ht hmid (hsame ▸ hcall)
      have hmidtaken : u.taken a.task = mid.taken := by simp [State.taken, hmid]
      simp only [List.countP_cons, decide_true, if_true]
      omega
    · have hsame : u.taken b = s.taken b := by
        rw [State.taken, ht.tasks_ne (Ne.symm hb)]
        rfl
      simp only [List.countP_cons, hb, decide_false, Bool.false_eq_true, if_false]
      omega

lemma taken_le (hi : QueueInv size s) (htask : s.tasks b = some task) :
    task.taken ≤ 4 * task.snapshot.length + 4 := by
  have hlen := (hi.accounts b task htask).begins.length_le
  rw [List.length_map] at hlen
  unfold Task.taken
  split <;> omega

lemma entriesOf_eq (hi : QueueInv size s) (htask : s.tasks b = some task)
    (hcall : task.call = .broadcast message) (c : ClientId) :
    s.entriesOf b c = if (c, true) ∈ task.results then [⟨b, message⟩] else [] := by
  have hacc := hi.accounts b task htask
  have hmessage : task.message = message := by simp [Task.message, hcall]
  have hnodup : task.results.Nodup := (hacc.begins.sublist.nodup hacc.distinct).of_map
  rw [hacc.entries c, hmessage]
  split_ifs with hin
  · rw [List.count_eq_one_of_mem hnodup hin]
    rfl
  · rw [List.count_eq_zero_of_not_mem hin]
    rfl

lemma isolated_iff_unstuck (hi : QueueInv size s) : s.Isolated size ↔ s.Unstuck := by
  constructor
  · intro h t task htask
    have hadmits := hi.admits t task htask
    cases hcall : task.call with
    | broadcast message =>
      have hiso := h t message task htask hcall
      exact ⟨hiso.quiet, hiso.answered⟩
    | session | disconnect client =>
      constructor
      · intro hpc
        simp [hcall, hpc, Call.Admits] at hadmits
      · intro c rest hpc
        simp [hcall, hpc, Call.Admits] at hadmits
  · intro h b message task htask hcall
    obtain ⟨hraised, hhung⟩ := h b task htask
    have hentries := entriesOf_eq hi htask hcall
    refine ⟨hraised, hhung, fun c hc => by simp [hentries, hc], fun c hc => by simp [hentries, hc],
      fun hpc => ?_, broadcast_goesOn hi.toLoopInv htask hcall hraised hhung⟩
    simpa [hpc, Pc.pending] using (hi.accounts b task htask).covers hraised

lemma not_unstuck_of_closed (h : step size s (.closed t false) = some s') : ¬ s'.Unstuck := by
  obtain ⟨task, _, h⟩ := Option.bind_eq_some_iff.mp h
  simp only [advance] at h
  split_ifs at h
  unfold closed at h
  split at h
  · intro hu
    obtain rfl := Option.some.inj h
    exact (hu t _ (Function.update_self ..)).1 rfl
  · cases h

lemma not_unstuck_of_hang (h : step size s (.hang t) = some s') : ¬ s'.Unstuck := by
  obtain ⟨task, _, h⟩ := Option.bind_eq_some_iff.mp h
  simp only [advance] at h
  split_ifs at h
  unfold hang at h
  split at h
  · intro hu
    obtain rfl := Option.some.inj h
    exact (hu t _ (Function.update_self ..)).2 _ _ rfl
  · cases h

lemma unstuck_of_took (hu : s.Unstuck) (ht : Took size s a s') (hclose : ClosesReturn s a) :
    s'.Unstuck := by
  cases ht with
  | @starts t call _ _ _ => exact forall_update hu (by cases call <;> simp [Call.firstPc])
  | parks _ _ _ => exact hu
  | takes _ _ hl =>
    refine forall_update hu ?_
    generalize Task.pc _ = old at hl
    cases hl <;> simp
  | @sends t task e delivered ok _ _ _ => exact forall_update hu (by cases ok <;> simp)
  | @moves t task pc keeps _ hm =>
    have hnew : pc ≠ .raised ∧ ∀ c rest, pc ≠ .hung c rest := by
      generalize task.pc = old at hm
      cases hm <;> simp_all [ClosesReturn]
    cases keeps <;> exact forall_update hu hnew
  | _ => exact forall_update hu (by simp)

lemma unstuck_iff (hu : s.Unstuck) (h : step size s a = some s') :
    s'.Unstuck ↔ ClosesReturn s a := by
  refine ⟨fun hu' => ?_, unstuck_of_took hu (took_of_step h)⟩
  cases a with
  | closed t ok =>
    cases ok with
    | true => rfl
    | false => exact absurd hu' (not_unstuck_of_closed h)
  | hang t => exact absurd hu' (not_unstuck_of_hang h)
  | _ => trivial

/-- In every run the broadcasts are isolated exactly if every close that they ask for returns. A
broadcast takes no more steps than its snapshot allows, and whoever has the loop gives it up. -/
theorem isolated_iff_closesReturn (size : ℕ) (acts : List Action) :
    (Along (step size) (State.Isolated size) {} acts ↔ Guarded (step size) ClosesReturn {} acts) ∧
    ∀ s, exec (step size) {} acts = some s →
      (∀ b message task, s.tasks b = some task → task.call = .broadcast message →
        acts.countP (·.task = b) ≤ 4 * task.snapshot.length + 4) ∧
      ∀ t, s.running = some t →
        ∃ n s', exec (step size) s (List.replicate n (.run t)) = some s' ∧ s'.running = none := by
  have hinit : State.Isolated size {} := by
    intro b message task htask
    simp at htask
  refine ⟨along_iff_guarded (I := QueueInv size) (fun _ _ _ hi hstep => hi.step hstep) ?_ acts
    queueInv_init hinit, fun s h => ?_⟩
  · intro s a s' hi hiso hstep
    rw [isolated_iff_unstuck (hi.step hstep)]
    exact unstuck_iff ((isolated_iff_unstuck hi).mp hiso) hstep
  · have hi := queueInv_of_reach (reach_of_exec acts h)
    refine ⟨fun b message task htask hcall => ?_, fun t hrun => loop_freed hi.toLoopInv hrun⟩
    have hle := steps_le loopInv_init h htask hcall
    have hbound := taken_le hi htask
    omega

def closeRaised : List Action :=
  connects 0 ++ connects 1 ++
    ([.start 2 (.broadcast "a"), .run 2, .run 2, .run 2, .run 2, .run 2, .run 2, .run 2, .run 1,
      .run 1, .sent 1, .run 1, .start 3 (.broadcast "b"), .run 3, .run 3, .run 3, .run 3, .run 3,
      .closed 3 false] : List Action)

/-- A client whose queue is full and whose socket is closed already: the broadcast ends there, and
the client behind it, with an empty queue, is not reached. -/
theorem closeRaises_not_isolated :
    ¬ ∀ size acts, Along (step size) (State.Isolated size) {} acts := by
  intro h
  have hrun : ((exec (step 1) {} closeRaised).bind fun s => (s.tasks 3).map fun task =>
      decide (task.call = .broadcast "b" ∧ task.pc = .raised ∧ task.snapshot = [0, 1] ∧
        s.queue 1 = [] ∧ s.enqueued 1 = [⟨2, "a"⟩])) = some true := by decide +kernel
  obtain ⟨s, hexec, hs⟩ := Option.bind_eq_some_iff.mp hrun
  obtain ⟨task, htask, hend⟩ := Option.map_eq_some_iff.mp hs
  obtain ⟨hcall, hraised, -⟩ := of_decide_eq_true hend
  exact ((h 1 _).last hexec 3 "b" task htask hcall).quiet hraised

end AsyncDataHub.WebSocket
