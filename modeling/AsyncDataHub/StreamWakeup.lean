import AsyncDataHub.StreamAggregate

/-! The wake-up of the generator. It tests the event and then waits on the queue, and only a result
wakes it: it must not wait when no result is to come, nor be left waiting when the group is
aborted. -/
namespace AsyncDataHub.Streaming
open StepSystem TaskGroup PyJson

variable {cfg : Config} {s t : State cfg}

/-- The producer has finished, the queue is empty and the generator waits in `queue.get()`. -/
def Stuck (s : State cfg) : Prop :=
  s.completion = true ∧ s.queue = [] ∧ s.consumer = .getting

/-- A source task has its result still to queue. -/
def SourcePc.Unqueued : SourcePc → Prop
  | .fetching | .putting _ => True
  | .broadcasting _ => False

/-- Some source has its result still to queue, and the group is not being aborted. -/
def MoreToCome (s : State cfg) : Prop :=
  s.group.aborting = false ∧ ∃ i l, s.group.child i = .running l ∧ l.Unqueued

/-- The generator starts to wait on the empty queue only while a result is to come, and the group
is not aborted while it waits there. -/
def Wakeable (cfg : Config) (s : State cfg) : Action cfg → Prop
  | .consume => (s.consumer = .yieldStarted ∨ s.consumer = .yielded) → s.queue = [] →
      s.completion = false → MoreToCome s
  | .abort => ¬ (s.consumer = .getting ∧ s.queue = [])
  | _ => True

/-- Once the event is set, the producer is done and no source task is left; before the generator
goes on there is no producer. -/
structure EndInv (s : State cfg) : Prop where
  done : s.completion = true → s.producer.IsDone ∧ s.group.Finished
  idle : s.consumer = .yieldStarted → s.producer = .idle

lemma EndInv.not_completion (h : EndInv s) (hp : ¬ s.producer.IsDone) : s.completion ≠ true :=
  fun hc => hp (h.done hc).1

lemma not_isDone_created : ¬ ProducerPc.created.IsDone := by simp [ProducerPc.IsDone]

lemma not_isDone_grouping : ¬ ProducerPc.grouping.IsDone := by simp [ProducerPc.IsDone]

lemma not_isDone_idle : ¬ ProducerPc.idle.IsDone := by simp [ProducerPc.IsDone]

lemma isDone_leaveGroup (s : State cfg) : s.leaveGroup.producer.IsDone := by
  unfold State.leaveGroup
  dsimp only
  split_ifs <;> simp [ProducerPc.IsDone]

lemma endInv_grouping (hi : EndInv s) (hp : s.producer = .grouping) (hc : t.consumer = s.consumer)
    (hcomp : t.completion = s.completion) (hprod : t.producer = s.producer) : EndInv t := by
  refine ⟨fun h => ?_, fun h => ?_⟩
  · rw [hcomp] at h
    exact absurd h (hi.not_completion (by rw [hp]; exact not_isDone_grouping))
  · rw [hprod]
    exact hi.idle (hc ▸ h)

lemma endInv_consumer (hi : EndInv s) (hc : t.consumer ≠ .yieldStarted)
    (hcomp : t.completion = s.completion) (hprod : t.producer = s.producer)
    (hgroup : t.group = s.group) : EndInv t := by
  refine ⟨fun h => ?_, fun h => absurd h hc⟩
  rw [hprod, hgroup]
  exact hi.done (hcomp ▸ h)

lemma not_yieldStarted_of_pastTest {pc : ConsumerPc} (h : pc.PastTest) : pc ≠ .yieldStarted := by
  rintro rfl
  exact h

theorem endInv_step {a : Action cfg} (hi : EndInv s) (h : step cfg s a = some t) : EndInv t := by
  cases took_of_step h with
  | skips hp _ | opens hp _ =>
    refine ⟨fun hc => absurd hc (hi.not_completion (by rw [hp]; exact not_isDone_created)),
      fun hc => ?_⟩
    have hidle := hi.idle hc
    rw [hp] at hidle
    cases hidle
  | leavesEmpty hp hempty =>
    refine ⟨fun _ => ⟨isDone_leaveGroup s, fun i => absurd i.2 (by simp [hempty])⟩, fun hc => ?_⟩
    have hidle := hi.idle hc
    rw [hp] at hidle
    cases hidle
  | closes hp hfin =>
    refine ⟨fun _ => ⟨isDone_leaveGroup s, hfin⟩, fun hc => ?_⟩
    have hidle := hi.idle hc
    rw [hp] at hidle
    cases hidle
  | @fetches i outcome ms hp _ _ =>
    obtain ⟨_, _, h⟩ := put_eq s i (fetchSource (cfg.sourceNames.get i) outcome ms)
    rw [h]
    exact endInv_grouping hi hp rfl rfl rfl
  | @puts i result hp _ _ _ =>
    obtain ⟨_, _, h⟩ := put_eq s i result
    rw [h]
    exact endInv_grouping hi hp rfl rfl rfl
  | broadcasts hp _ _ _ | aborts hp _ _ | cancelsSource hp _ _ =>
    exact endInv_grouping hi hp rfl rfl rfl
  | starts hc =>
    have hne := hi.not_completion (by rw [hi.idle hc]; exact not_isDone_idle)
    have hpast := not_yieldStarted_of_pastTest (loopTest_pastTest { s with producer := .created })
    exact ⟨fun h => absurd (by simpa using h) hne, fun h => absurd h hpast⟩
  | loops _ =>
    have hpast := not_yieldStarted_of_pastTest (loopTest_pastTest s)
    exact endInv_consumer hi hpast (by simp) (by simp) (by simp)
  | joins _ _ =>
    have hpast := not_yieldStarted_of_pastTest (awaitProducer_pastTest s)
    exact endInv_consumer hi hpast (by simp) (by simp) (by simp)
  | gets _ _ | commits _ | marks _ | completes _ | finishes _ | fails _ | disconnects _ _
  | closesGenerator _ => exact endInv_consumer hi (by simp) rfl rfl rfl
  | cleans _ => exact ⟨hi.done, hi.idle⟩

/-- A generator that waits on the empty queue will be woken. -/
def WakeInv (s : State cfg) : Prop := s.consumer = .getting → s.queue = [] → MoreToCome s

lemma moreToCome_set {i : cfg.Source} {l : SourcePc} {c : Child SourcePc String}
    {queue : List AggregationStreamEvent} (h : MoreToCome s)
    (hl : s.group.child i = .running l) (hc : ¬ l.Unqueued) :
    MoreToCome { s with group := s.group.set i c, queue } := by
  obtain ⟨hcalm, j, l', hj, hun⟩ := h
  have hne : j ≠ i := by
    rintro rfl
    rw [hl, Child.running.injEq] at hj
    exact hc (hj ▸ hun)
  exact ⟨hcalm, j, l', by rw [Group.set_child_of_ne _ hne]; exact hj, hun⟩

lemma MoreToCome.not_finished (h : MoreToCome s) : ¬ s.group.Finished := by
  intro hf
  obtain ⟨_, i, l, hi, _⟩ := h
  have hrun := hf i
  simp [hi, Child.isRunning] at hrun

lemma wakeInv_put {i : cfg.Source} {result : AggregationSourceResult}
    (hcalm : s.group.aborting = false) : WakeInv (s.put i result) := by
  rcases put_cases s i result with ⟨_, h⟩ | ⟨_, h⟩ <;> rw [h]
  · intro _ hq
    simp at hq
  · exact fun _ _ => ⟨hcalm, i, _, Group.set_child_self .., trivial⟩

lemma wakeInv_loopTest (hm : s.queue = [] → s.completion = false → MoreToCome s) :
    WakeInv s.loopTest := by
  rcases loopTest_cases s with ⟨_, _, _, h⟩ | ⟨_, _, h⟩ | ⟨hq, hcomp, h⟩
  · intro hc
    simp [h] at hc
  · rw [h]
    exact fun hc => absurd hc (awaitProducer_ne_getting s)
  · rw [h]
    exact fun _ _ => hm hq hcomp

theorem wakeInv_step {a : Action cfg} (hi : WakeInv s) (hg : Wakeable cfg s a)
    (h : step cfg s a = some t) : WakeInv t := by
  cases took_of_step h with
  | skips _ _ | opens _ _ => exact hi
  | leavesEmpty _ _ => exact hi
  | closes _ hfin => exact fun hc hq => absurd hfin (hi hc hq).not_finished
  | fetches _ hcalm _ => exact wakeInv_put hcalm
  | puts _ hcalm _ _ => exact wakeInv_put hcalm
  | broadcasts _ _ hchild _ =>
    exact fun hc hq => moreToCome_set (hi hc hq) hchild (by simp [SourcePc.Unqueued])
  | aborts _ _ _ => exact fun hc hq => absurd ⟨hc, hq⟩ hg
  | cancelsSource _ hab _ =>
    intro hc hq
    have hcalm := (hi hc hq).1
    rw [hab] at hcalm
    cases hcalm
  | starts hc => exact wakeInv_loopTest fun hq hcomp => hg (.inl hc) hq hcomp
  | loops hc => exact wakeInv_loopTest fun hq hcomp => hg (.inr hc) hq hcomp
  | joins _ _ => exact fun hc => absurd hc (awaitProducer_ne_getting s)
  | gets _ _ | commits _ | marks _ | completes _ | finishes _ | fails _ | disconnects _ _
  | closesGenerator _ =>
    intro hc
    cases hc
  | cleans _ => exact hi

lemma endInv_init (cfg : Config) : EndInv (State.init cfg) := ⟨by simp [State.init], fun _ => rfl⟩

lemma wakeInv_init (cfg : Config) : WakeInv (State.init cfg) := by simp [WakeInv, State.init]

lemma endInv_of_reach (h : Reach (step cfg) (State.init cfg) s) : EndInv s :=
  h.invariant (endInv_init cfg) fun _ _ _ hi _ => endInv_step hi

lemma wakeInv_of_reachVia (h : ReachVia (step cfg) (Wakeable cfg) (State.init cfg) s) :
    WakeInv s :=
  h.invariant (wakeInv_init cfg) fun _ _ _ => wakeInv_step

/-- A generator that is through its last yield has sent the completed frame. -/
def LastFrame (s : State cfg) : Prop :=
  s.consumer = .yieldCompleted ∨ s.consumer = .ended .finished →
    s.frames.getLast? = some (completedEvent cfg)

lemma lastFrame_of_pastTest (h : s.consumer.PastTest) : LastFrame s := by
  rintro (hc | hc) <;>
    · rw [hc] at h
      exact h.elim

lemma lastFrame_step {a : Action cfg} (hi : LastFrame s) (h : step cfg s a = some t) :
    LastFrame t := by
  cases took_of_step h with
  | skips _ _ | leavesEmpty _ _ | opens _ _ | broadcasts _ _ _ _ | aborts _ _ _
  | cancelsSource _ _ _ | closes _ _ | cleans _ => exact hi
  | @fetches i outcome ms _ _ _ =>
    obtain ⟨_, _, h⟩ := put_eq s i (fetchSource (cfg.sourceNames.get i) outcome ms)
    rw [h]
    exact hi
  | @puts i result _ _ _ _ =>
    obtain ⟨_, _, h⟩ := put_eq s i result
    rw [h]
    exact hi
  | starts _ | loops _ => exact lastFrame_of_pastTest (loopTest_pastTest _)
  | joins _ _ => exact lastFrame_of_pastTest (awaitProducer_pastTest s)
  | completes _ => exact fun _ => by simp
  | finishes hc => exact fun _ => hi (.inl hc)
  | gets _ _ | commits _ | marks _ | fails _ | disconnects _ _ | closesGenerator _ =>
    intro hc
    simp at hc

/-- The event is set, the producer is done, and the generator does not wait on the empty queue. -/
structure Draining (s : State cfg) : Prop where
  completion : s.completion = true
  inv : EndInv s
  awake : ¬ (s.consumer = .getting ∧ s.queue = [])

lemma Draining.done (h : Draining s) : s.producer.IsDone := (h.inv.done h.completion).1

lemma Draining.ne_grouping (h : Draining s) : s.producer ≠ .grouping := fun hp =>
  not_isDone_grouping (hp ▸ h.done)

lemma Draining.ne_created (h : Draining s) : s.producer ≠ .created := fun hp =>
  not_isDone_created (hp ▸ h.done)

lemma Draining.ne_yieldStarted (h : Draining s) : s.consumer ≠ .yieldStarted := fun hc =>
  not_isDone_idle (h.inv.idle hc ▸ h.done)

def stepsLeft (s : State cfg) : ℕ :=
  (match s.consumer with
    | .ended _ => 0
    | .yieldCompleted => 2
    | .committingStatus => 3
    | .marking => 4
    | .awaitingProducer => 5
    | .yielded | .getting => 6 + 3 * s.queue.length
    | .committing _ | .yieldStarted => 7 + 3 * s.queue.length) + s.cleanup.toNat

lemma stepsLeft_awaitProducer (s : State cfg) :
    stepsLeft s.awaitProducer ≤ 5 + s.cleanup.toNat := by
  rcases awaitProducer_cases s with ⟨_, h⟩ | ⟨_, h⟩ | ⟨_, h⟩ | ⟨_, h⟩ <;> simp [h, stepsLeft]

lemma two_le_stepsLeft (h : ∀ o, s.consumer ≠ .ended o) : 2 + s.cleanup.toNat ≤ stepsLeft s := by
  unfold stepsLeft
  cases hc : s.consumer with
  | ended o => exact absurd hc (h o)
  | _ =>
    simp only
    omega

lemma draining_step {a : Action cfg} (hi : Draining s) (h : step cfg s a = some t) :
    Draining t ∧ stepsLeft t < stepsLeft s := by
  have hend := endInv_step hi.inv h
  cases took_of_step h with
  | skips hp _ | leavesEmpty hp _ | opens hp _ => exact absurd hp hi.ne_created
  | fetches hp _ _ | puts hp _ _ _ | broadcasts hp _ _ _ | aborts hp _ _ | cancelsSource hp _ _
  | closes hp _ => exact absurd hp hi.ne_grouping
  | starts hc => exact absurd hc hi.ne_yieldStarted
  | loops hc =>
    rcases loopTest_cases s with ⟨event, rest, hq, ht⟩ | ⟨hq, hcomp, ht⟩ | ⟨_, hcomp, _⟩
    · refine ⟨⟨by simpa using hi.completion, hend, by simp [ht]⟩, ?_⟩
      simp only [ht, stepsLeft, hc, hq, List.length_cons]
      omega
    · have hle := stepsLeft_awaitProducer s
      rw [ht] at hend ⊢
      refine ⟨⟨by simpa using hi.completion, hend, ?_⟩, ?_⟩
      · exact fun hget => awaitProducer_ne_getting s hget.1
      · simp only [stepsLeft, hc] at hle ⊢
        omega
    · rw [hi.completion] at hcomp
      cases hcomp
  | joins hc hdone =>
    have hlt : stepsLeft s.awaitProducer < stepsLeft s := by
      rcases awaitProducer_cases s with ⟨_, h⟩ | ⟨_, h⟩ | ⟨_, h⟩ | ⟨hn, _⟩
      · simp [h, stepsLeft, hc]
      · simp [h, stepsLeft, hc]
      · simp [h, stepsLeft, hc]
      · exact absurd hdone hn
    have hawake : ¬ (s.awaitProducer.consumer = .getting ∧ s.awaitProducer.queue = []) :=
      fun hget => awaitProducer_ne_getting s hget.1
    exact ⟨⟨by simpa using hi.completion, hend, hawake⟩, hlt⟩
  | gets hc hq =>
    refine ⟨⟨hi.completion, hend, by simp⟩, ?_⟩
    simp only [stepsLeft, hc, hq, List.length_cons]
    omega
  | commits hc | marks hc | completes hc | finishes hc =>
    refine ⟨⟨hi.completion, hend, by simp⟩, ?_⟩
    simp only [stepsLeft, hc]
    omega
  | fails hc | closesGenerator hc =>
    have hle := two_le_stepsLeft hc
    have hlt : 0 + s.cleanup.toNat < stepsLeft s := by omega
    exact ⟨⟨hi.completion, hend, by simp⟩, hlt⟩
  | disconnects hc _ =>
    have hle := two_le_stepsLeft hc
    have hlt : 0 + true.toNat < stepsLeft s := by
      simp only [Bool.toNat_true]
      omega
    exact ⟨⟨hi.completion, hend, by simp⟩, hlt⟩
  | cleans hs =>
    refine ⟨⟨hi.completion, hend, hi.awake⟩, ?_⟩
    simp [stepsLeft, hs]

lemma consume_of_draining (hi : Draining s) :
    (∃ o, s.consumer = .ended o) ∨ ∃ t, step cfg s .consume = some t := by
  cases hc : s.consumer with
  | ended o => exact .inl ⟨o, rfl⟩
  | getting =>
    right
    cases hq : s.queue with
    | nil => exact absurd ⟨hc, hq⟩ hi.awake
    | cons event rest => simp [step, State.consume, hc, hq]
  | awaitingProducer =>
    right
    rcases hi.done with hp | hp | hp <;> simp [step, State.consume, hc, hp]
  | yieldStarted | committing _ | yielded | marking | committingStatus | yieldCompleted =>
    right
    simp [step, State.consume, hc]

/-- The generator sends the completed frame or raises. -/
structure EndsStream (s : State cfg) : Prop where
  bounded : ∃ n, ∀ acts t, exec (step cfg) s acts = some t → acts.length ≤ n
  awake : ∀ acts t, exec (step cfg) s acts = some t →
    (∃ o, t.consumer = .ended o) ∨ ∃ u, step cfg t .consume = some u
  completed : ∀ acts t, exec (step cfg) s acts = some t → t.consumer = .ended .finished →
    t.frames.getLast? = some (completedEvent cfg)

lemma endsStream_of_draining (hi : Draining s) (hl : LastFrame s) : EndsStream s := by
  have hrun : ∀ acts t, exec (step cfg) s acts = some t → Draining t ∧ LastFrame t :=
    fun acts t h => (reach_of_exec acts h).invariant (I := fun t => Draining t ∧ LastFrame t)
      ⟨hi, hl⟩ fun _ _ _ hi _ ht => ⟨(draining_step hi.1 ht).1, lastFrame_step hi.2 ht⟩
  refine ⟨⟨stepsLeft s, fun acts t h => ?_⟩, fun acts t h => ?_, fun acts t h hc => ?_⟩
  · have hle := length_le_of_decreasing (fun _ _ _ hi ht => (draining_step hi ht).1)
      (fun _ _ _ hi ht => (draining_step hi ht).2) hi acts h
    omega
  · exact consume_of_draining (hrun acts t h).1
  · exact (hrun acts t h).2 (.inr hc)

/-- While the generator waits only for results that are to come, it is never left waiting: once
the producer has ended, the stream goes on to its end. -/
theorem stream_ends (h : ReachVia (step cfg) (Wakeable cfg) (State.init cfg) s) :
    ¬ Stuck s ∧ (s.completion = true → EndsStream s) := by
  have hend := endInv_of_reach h.reach
  have hwake := wakeInv_of_reachVia h
  have hstuck : s.completion = true → ¬ (s.consumer = .getting ∧ s.queue = []) :=
    fun hcomp hw => (hwake hw.1 hw.2).not_finished (hend.done hcomp).2
  have hlast : LastFrame s :=
    h.invariant (by simp [LastFrame, State.init]) fun _ _ _ hi _ => lastFrame_step hi
  exact ⟨fun hs => hstuck hs.1 ⟨hs.2.2, hs.2.1⟩,
    fun hcomp => endsStream_of_draining ⟨hcomp, hend, hstuck hcomp⟩ hlast⟩

/-- The generator waits on the empty queue and no result is to come. -/
def Missed (s : State cfg) : Prop := s.consumer = .getting ∧ s.queue = [] ∧ ¬ MoreToCome s

lemma missed_loopTest (hq : s.queue = []) (hcomp : s.completion = false) (hm : ¬ MoreToCome s) :
    Missed s.loopTest := by
  rcases loopTest_cases s with ⟨_, _, hq', _⟩ | ⟨_, hcomp', _⟩ | ⟨_, _, h⟩
  · rw [hq] at hq'
    cases hq'
  · rw [hcomp] at hcomp'
    cases hcomp'
  · rw [h]
    exact ⟨rfl, hq, hm⟩

lemma missed_of_not_wakeable {a : Action cfg} (hg : ¬ Wakeable cfg s a)
    (h : step cfg s a = some t) : Missed t := by
  cases a with
  | consume =>
    simp only [Wakeable, Classical.not_imp] at hg
    obtain ⟨hc, hq, hcomp, hm⟩ := hg
    rcases hc with hc | hc
    · simp only [step, State.consume, hc, Option.some.injEq] at h
      rw [← h]
      exact missed_loopTest hq hcomp hm
    · simp only [step, State.consume, hc, Option.some.injEq] at h
      rw [← h]
      exact missed_loopTest hq hcomp hm
  | abort =>
    simp only [Wakeable, not_not] at hg
    cases took_of_step h with
    | aborts _ _ _ => exact ⟨hg.1, hg.2, fun hm => by simpa using hm.1⟩
  | _ => exact absurd trivial hg

lemma missed_step {a : Action cfg} (hi : Missed s) (ha : a ≠ .disconnect)
    (h : step cfg s a = some t) : Missed t := by
  obtain ⟨hc, hq, hm⟩ := hi
  cases took_of_step h with
  | skips _ _ | leavesEmpty _ _ | opens _ _ | closes _ _ | cleans _ => exact ⟨hc, hq, hm⟩
  | fetches _ hcalm hchild => exact absurd ⟨hcalm, _, _, hchild, trivial⟩ hm
  | puts _ hcalm hchild _ => exact absurd ⟨hcalm, _, _, hchild, trivial⟩ hm
  | @broadcasts i _ _ c _ hcalm hchild hend =>
    refine ⟨hc, hq, fun ⟨_, j, l, hj, hun⟩ => ?_⟩
    by_cases hij : j = i
    · subst hij
      rw [Group.set_child_self] at hj
      simp [hj, Child.isRunning] at hend
    · exact hm ⟨hcalm, j, l, by simpa [Group.set_child_of_ne _ hij] using hj, hun⟩
  | aborts _ _ _ => exact ⟨hc, hq, fun hm' => by simpa using hm'.1⟩
  | cancelsSource _ hab _ => exact ⟨hc, hq, fun hm' => by simpa [hab] using hm'.1⟩
  | starts hc' | loops hc' | commits hc' | joins hc' _ | marks hc' | completes hc'
  | finishes hc' => simp [hc] at hc'
  | gets _ hq' => simp [hq] at hq'
  | fails _ | closesGenerator _ => simp [step, hc] at h
  | disconnects _ _ => exact absurd rfl ha

/-- A step that breaks the condition is not made good: only a client that goes away still ends
the wait, and when the producer has ended the generator is stuck. -/
theorem missed_wakeup {a : Action cfg} {u : State cfg} (hg : ¬ Wakeable cfg s a)
    (h : step cfg s a = some t) (hu : ReachVia (step cfg) (fun _ a => a ≠ .disconnect) t u) :
    u.consumer = .getting ∧ u.queue = [] ∧ (u.completion = true → Stuck u) := by
  have hm : Missed u :=
    hu.invariant (missed_of_not_wakeable hg h) fun _ _ _ hi ha => missed_step hi ha
  exact ⟨hm.1, hm.2.1, fun hcomp => ⟨hcomp, hm.2.1, hm.1⟩⟩

def oneSource : Config where
  sourceNames := ["weather"]
  query := "q"
  requestId := 1

def weather : oneSource.Source := ⟨0, by decide⟩

/-- The generator has committed the only result and is back at `queue.get()` while the source is
still in its broadcast. -/
def slowBroadcast : List (Action oneSource) :=
  [.consume, .produce, .fetched weather (.ok .null) 5, .consume, .consume, .consume,
    .broadcast weather none, .close]

theorem slowBroadcast_stuck : ∃ s, Reach (step oneSource) (State.init oneSource) s ∧ Stuck s :=
  ⟨_, reach_of_exec slowBroadcast rfl, rfl, rfl, rfl⟩

/-- The broadcast returns and the group ends before the generator asks for the next result. -/
def quickBroadcast : List (Action oneSource) :=
  [.consume, .produce, .fetched weather (.ok .null) 5, .broadcast weather none, .close]

theorem stream_ends_quickBroadcast : ∃ s,
    exec (step oneSource) (State.init oneSource) quickBroadcast = some s ∧
      ¬ Stuck s ∧ s.completion = true ∧ EndsStream s := by
  refine ⟨_, rfl, ?_⟩
  have hguarded : Guarded (step oneSource) (Wakeable oneSource) (State.init oneSource)
      quickBroadcast := by
    refine .cons rfl (fun _ _ _ => ⟨rfl, weather, .fetching, rfl, trivial⟩) ?_
    exact .cons rfl trivial (.cons rfl trivial (.cons rfl trivial (.cons rfl trivial trivial)))
  have hends := stream_ends (reachVia_of_exec quickBroadcast rfl hguarded)
  exact ⟨hends.1, rfl, hends.2 rfl⟩

end AsyncDataHub.Streaming
