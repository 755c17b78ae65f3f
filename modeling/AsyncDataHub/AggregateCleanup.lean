import AsyncDataHub.AggregateAgreement

/-! What an aggregation leaves behind however it ends: the status of its request row, its source
tasks and its scheduled cleanup. -/
namespace AsyncDataHub.Aggregation
open StepSystem TaskGroup
open Streaming (Config ConsumerPc ProducerPc)

/-- An aggregation as a machine. It is `settled` when it has ended and everything that it has
scheduled has run. -/
structure Workflow where
  State : Type
  Action : Type
  step : State → Action → Option State
  init : State
  settled : State → Prop
  status : State → String
  sourceRuns : State → Prop

def Stored (status : String) : Prop := status = "COMPLETED" ∨ status = "PARTIAL"

def Terminal (status : String) : Prop := Stored status ∨ status = "CANCELLED"

def Workflow.KeepsStored (w : Workflow) (s : w.State) (a : w.Action) : Prop :=
  ∀ t, w.step s a = some t → Stored (w.status s) → w.status t ≠ "CANCELLED"

/-- In the whole run: when the aggregation is settled, its row is terminal and no source runs. -/
structure Workflow.Settles (w : Workflow) (acts : List w.Action) : Prop where
  terminal : Along w.step (fun s => w.settled s → Terminal (w.status s) ∧ ¬ w.sourceRuns s)
    w.init acts
  final : Guarded w.step w.KeepsStored w.init acts

variable {cfg : Config}

def batch (cfg : Config) : Workflow where
  State := Batch.State cfg
  Action := Batch.Action cfg
  step := Batch.step cfg
  init := Batch.State.init cfg
  settled s := (∃ o, s.pc = .ended o) ∧ s.cleanup = false
  status := Batch.State.status
  sourceRuns s := ¬ s.group.Finished

/-- The task group ends without a failed broadcast, a cancellation comes while it runs, and the
session stores what it is given. -/
def BatchHandled (s : Batch.State cfg) : Batch.Action cfg → Prop
  | .cancel => s.pc = .gathering
  | .close => ¬ s.group.HasFailed
  | .fail => False
  | .cleanup stored => stored = true
  | _ => True

structure BatchRow (s : Batch.State cfg) : Prop where
  live : (∀ o, s.pc ≠ .ended o) → s.status = "RUNNING" ∧ s.cleanup = false
  ended : ∀ o, s.pc = .ended o →
    s.cleanup = true ∧ s.status = "RUNNING" ∨ s.cleanup = false ∧ Terminal s.status
  left : s.pc ≠ .gathering → s.group.Finished

lemma batchRow_init (cfg : Config) : BatchRow (Batch.State.init cfg) := by
  refine ⟨fun _ => ⟨rfl, rfl⟩, fun o ho => ?_, fun hpc => ?_⟩
  · simp only [Batch.State.init] at ho
    split_ifs at ho
  · simp only [Batch.State.init, ne_eq, ite_eq_right_iff, reduceCtorEq, imp_false, not_not] at hpc
    exact fun i => absurd i.2 (by simp [hpc])

lemma stored_finalStatus (results : List Streaming.AggregationSourceResult) :
    Stored (Batch.finalStatus results) := by
  unfold Batch.finalStatus
  split_ifs
  · exact .inr rfl
  · exact .inl rfl

lemma batchRow_step {s t : Batch.State cfg} {a : Batch.Action cfg} (hi : BatchRow s)
    (hg : BatchHandled s a) (h : Batch.step cfg s a = some t) : BatchRow t := by
  have hlive : ∀ pc, s.pc = pc → (∀ o, pc ≠ .ended o) → s.status = "RUNNING" ∧ s.cleanup = false :=
    fun pc hpc hne => hi.live (hpc ▸ hne)
  have hleft : ∀ pc, s.pc = pc → pc ≠ .gathering → s.group.Finished :=
    fun pc hpc hne => hi.left (hpc ▸ hne)
  cases Batch.took_of_step h with
  | fetches hpc _ | broadcasts hpc _ _ | aborts hpc _ | cancelsSource hpc _ _ =>
    exact ⟨hi.live, hi.ended, fun hne => absurd hpc hne⟩
  | cancelsGroup hpc => exact ⟨hi.live, hi.ended, hi.left⟩
  | cancelsSession hpc =>
    have hgathering : s.pc = .gathering := hg
    simp [hgathering] at hpc
  | raises _ _ hfailed => exact absurd hfailed hg
  | schedules hpc hfin _ _ =>
    obtain ⟨hstatus, _⟩ := hlive _ hpc (by simp)
    exact ⟨by simp, fun _ _ => .inl ⟨rfl, hstatus⟩, fun _ => hfin⟩
  | leaves hpc hfin _ _ =>
    have hrow := hlive _ hpc (by simp)
    exact ⟨fun _ => hrow, by simp, fun _ => hfin⟩
  | marks hpc =>
    have hrow := hlive _ hpc (by simp)
    exact ⟨fun _ => hrow, by simp, fun _ => hleft _ hpc (by simp)⟩
  | commits hpc | interrupts hpc =>
    obtain ⟨_, hcleanup⟩ := hlive _ hpc (by simp)
    exact ⟨by simp, fun _ _ => .inr ⟨hcleanup, .inl (stored_finalStatus s.results)⟩,
      fun _ => hleft _ hpc (by simp)⟩
  | fails _ => exact hg.elim
  | @cleans stored hs =>
    have hstored : stored = true := hg
    have hpc : ∃ o, s.pc = .ended o := by
      by_contra hne
      rw [(hi.live (not_exists.mp hne)).2] at hs
      cases hs
    obtain ⟨o, hpc⟩ := hpc
    exact ⟨fun hne => absurd hpc (hne o), fun _ _ => .inr ⟨rfl, by simp [hstored, Terminal]⟩,
      hi.left⟩

lemma BatchRow.running_of_cleanup {s : Batch.State cfg} (hi : BatchRow s)
    (hs : s.cleanup = true) : s.status = "RUNNING" := by
  by_cases hpc : ∃ o, s.pc = .ended o
  · obtain ⟨o, hpc⟩ := hpc
    rcases hi.ended o hpc with ⟨_, hstatus⟩ | ⟨hnone, _⟩
    · exact hstatus
    · simp [hs] at hnone
  · exact (hi.live (not_exists.mp hpc)).1

lemma not_stored_running {status : String} (h : status = "RUNNING") : ¬ Stored status := by
  simp [Stored, h]

lemma ne_cancelled_of_stored {status : String} (h : Stored status) : status ≠ "CANCELLED" := by
  rcases h with h | h <;> simp [h]

lemma batch_keepsStored {s : Batch.State cfg} {a : Batch.Action cfg} (hi : BatchRow s) :
    (batch cfg).KeepsStored s a := by
  intro t h hstored
  cases Batch.took_of_step h with
  | cleans hs => exact absurd hstored (not_stored_running (hi.running_of_cleanup hs))
  | commits _ | interrupts _ => exact ne_cancelled_of_stored (stored_finalStatus s.results)
  | _ => exact ne_cancelled_of_stored hstored

theorem batch_settles (acts : List (Batch.Action cfg))
    (hg : Guarded (batch cfg).step BatchHandled (batch cfg).init acts) :
    (batch cfg).Settles acts := by
  have hstep : ∀ (s : Batch.State cfg) a t, BatchRow s → BatchHandled s a →
      Batch.step cfg s a = some t → BatchRow t := fun _ _ _ hi hg h => batchRow_step hi hg h
  constructor
  · refine along_of_guarded (fun s hs => ?_) acts hg
    have hi : BatchRow s := hs.invariant (batchRow_init cfg) hstep
    rintro ⟨⟨o, hpc⟩, hcleanup⟩
    refine ⟨?_, fun hruns => hruns (hi.left (by simp [hpc]))⟩
    rcases hi.ended o hpc with ⟨hs, _⟩ | ⟨_, hterminal⟩
    · simp [hcleanup] at hs
    · exact hterminal
  · exact Guarded.imp hstep (fun _ _ hi _ => batch_keepsStored hi) (batchRow_init cfg) hg

/-- The batch has ended, its row says RUNNING and nothing is scheduled that would change it. -/
def BatchAbandoned (s : Batch.State cfg) : Prop :=
  (∃ o, s.pc = .ended o) ∧ s.cleanup = false ∧ s.status = "RUNNING"

lemma batchAbandoned_step {s t : Batch.State cfg} {a : Batch.Action cfg} (hi : BatchAbandoned s)
    (h : Batch.step cfg s a = some t) : BatchAbandoned t := by
  obtain ⟨⟨o, hpc⟩, hcleanup, hstatus⟩ := hi
  cases Batch.took_of_step h with
  | cleans hs => simp [hcleanup] at hs
  | cancelsSession hpc' | fails hpc' => simp [hpc] at hpc'
  | fetches hpc' _ | broadcasts hpc' _ _ | cancelsGroup hpc' | aborts hpc' _
  | cancelsSource hpc' _ _ | raises hpc' _ _ | schedules hpc' _ _ _ | leaves hpc' _ _ _
  | marks hpc' | commits hpc' | interrupts hpc' => simp [hpc] at hpc'

/-- A batch that ends in another way never gets a terminal row. -/
theorem batch_unhandled {s t u : Batch.State cfg} {a : Batch.Action cfg} (hi : BatchRow s)
    (hg : ¬ BatchHandled s a) (ha : ∀ stored, a ≠ .cleanup stored)
    (h : Batch.step cfg s a = some t) (hu : Reach (Batch.step cfg) t u) : BatchAbandoned u := by
  refine hu.invariant ?_ fun _ _ _ hi _ h => batchAbandoned_step hi h
  cases Batch.took_of_step h with
  | cancelsSession hpc | fails hpc =>
    have hrow := hi.live (by rcases hpc with hpc | hpc <;> simp [hpc])
    exact ⟨⟨_, rfl⟩, hrow.2, hrow.1⟩
  | raises hpc _ _ =>
    have hrow := hi.live (by simp [hpc])
    exact ⟨⟨_, rfl⟩, hrow.2, hrow.1⟩
  | cancelsGroup hpc => exact absurd hpc hg
  | schedules _ _ hcalm _ | leaves _ _ hcalm _ => exact absurd hcalm hg
  | cleans _ => exact absurd rfl (ha _)
  | _ => exact absurd trivial hg

/-- The steps of a stream, and a final commit that is stored although its await ends in a
cancellation or an exception. -/
inductive StreamAction (cfg : Config)
  | act (a : Streaming.Action cfg)
  | interrupted (cancelled : Bool)

def interrupt (s : Streaming.State cfg) (cancelled : Bool) : Streaming.State cfg :=
  if cancelled then
    { s with
      status := "COMPLETED", consumer := .ended .cancelled
      producerCancel := true, cleanup := true }
  else { s with status := "COMPLETED", consumer := .ended .failed }

def streamStep (cfg : Config) (s : Streaming.State cfg) :
    StreamAction cfg → Option (Streaming.State cfg)
  | .act a => Streaming.step cfg s a
  | .interrupted cancelled =>
    match s.consumer with
    | .committingStatus => some (interrupt s cancelled)
    | _ => none

/-- What the event loop has been told to do: to start the producer, to abort its group, to cancel a
source, to end the group. -/
def Scheduled : Streaming.Action cfg → Prop
  | .produce | .abort | .cancelSource _ | .close => True
  | _ => False

def stream (cfg : Config) : Workflow where
  State := Streaming.State cfg
  Action := StreamAction cfg
  step := streamStep cfg
  init := Streaming.State.init cfg
  settled s := (∃ o, s.consumer = .ended o) ∧ s.cleanup = false ∧
    ∀ a, Scheduled a → Streaming.step cfg s a = none
  status := Streaming.State.status
  sourceRuns s := s.producer = .grouping ∧ ¬ s.group.Finished

/-- The generator joins no producer that has raised, is closed at its last yield only, and has its
statements stored; a cancellation comes before its final commit is stored. -/
def StreamHandled (s : Streaming.State cfg) : StreamAction cfg → Prop
  | .act .consume => s.consumer = .yielded → s.queue = [] → s.completion = true →
      s.producer ≠ .raised
  | .act .closeGenerator => s.consumer = .yieldCompleted
  | .act .fail => False
  | .act (.cleanup stored) => stored = true
  | .interrupted cancelled => cancelled = false
  | _ => True

structure StreamRow (s : Streaming.State cfg) : Prop extends Streaming.EndInv s where
  live : (∀ o, s.consumer ≠ .ended o) → s.cleanup = false ∧ s.producerCancel = false
  running : (∀ o, s.consumer ≠ .ended o) → s.consumer ≠ .yieldCompleted → s.status = "RUNNING"
  marked : s.consumer = .yieldCompleted → s.status = "COMPLETED"
  joined : s.consumer.Closing → s.producer = .ended
  ended : ∀ o, s.consumer = .ended o →
    s.cleanup = true ∧ s.status = "RUNNING" ∧ s.producerCancel = true ∨
    s.cleanup = false ∧ Terminal s.status ∧ (s.producerCancel = true ∨ s.producer.IsDone)
  skipped : s.producer = .cancelled → s.producerCancel = true
  awaited : s.consumer ≠ .awaitingProducer

variable {s t : Streaming.State cfg}

lemma streamRow_init (cfg : Config) : StreamRow (Streaming.State.init cfg) := by
  refine ⟨Streaming.endInv_init cfg, ?_, ?_, ?_, ?_, ?_, ?_, ?_⟩ <;>
    simp [Streaming.State.init, ConsumerPc.Closing]

lemma StreamRow.produce (h : StreamRow s) (hend : Streaming.EndInv t)
    (hprod : ¬ s.producer.IsDone) (hconsumer : t.consumer = s.consumer)
    (hstatus : t.status = s.status) (hcleanup : t.cleanup = s.cleanup)
    (hcancel : t.producerCancel = s.producerCancel)
    (hskipped : t.producer = .cancelled → t.producerCancel = true) : StreamRow t := by
  refine ⟨hend, ?_, ?_, ?_, ?_, ?_, hskipped, hconsumer ▸ h.awaited⟩
  · rw [hconsumer, hcleanup, hcancel]
    exact h.live
  · rw [hconsumer, hstatus]
    exact h.running
  · rw [hconsumer, hstatus]
    exact h.marked
  · intro hclosing
    rw [hconsumer] at hclosing
    exact absurd (.inl (h.joined hclosing)) hprod
  · intro o ho
    rw [hconsumer] at ho
    rw [hcleanup, hstatus, hcancel]
    rcases h.ended o ho with hscheduled | ⟨hnone, hterminal, hcancelled | hdone⟩
    · exact .inl hscheduled
    · exact .inr ⟨hnone, hterminal, .inl hcancelled⟩
    · exact absurd hdone hprod

lemma StreamRow.consume (h : StreamRow s) (hend : Streaming.EndInv t)
    (hlive : ∀ o, s.consumer ≠ .ended o) (hne : s.consumer ≠ .yieldCompleted)
    (hlive' : ∀ o, t.consumer ≠ .ended o) (hne' : t.consumer ≠ .yieldCompleted)
    (hstatus : t.status = s.status) (hcleanup : t.cleanup = s.cleanup)
    (hcancel : t.producerCancel = s.producerCancel)
    (hjoined : t.consumer.Closing → t.producer = .ended)
    (hskipped : t.producer = .cancelled → t.producerCancel = true)
    (hawaited : t.consumer ≠ .awaitingProducer) : StreamRow t := by
  refine ⟨hend, fun _ => ?_, fun _ _ => ?_, fun hc => absurd hc hne', hjoined,
    fun o ho => absurd ho (hlive' o), hskipped, hawaited⟩
  · rw [hcleanup, hcancel]
    exact h.live hlive
  · rw [hstatus]
    exact h.running hlive hne

lemma StreamRow.finish (h : StreamRow s) (hend : Streaming.EndInv t)
    (hlive : ∀ o, s.consumer ≠ .ended o) {o : Streaming.StreamEnd} (ho : t.consumer = .ended o)
    (hstatus : t.status = "COMPLETED") (hcleanup : t.cleanup = s.cleanup)
    (hprod : t.producer = .ended) : StreamRow t := by
  refine ⟨hend, fun hne => absurd ho (hne o), fun hne => absurd ho (hne o), fun hc => ?_,
    fun _ => hprod, fun _ _ => .inr ⟨?_, .inl (.inl hstatus), .inr (.inl hprod)⟩, by simp [hprod],
    by simp [ho]⟩
  · simp [ho] at hc
  · rw [hcleanup]
    exact (h.live hlive).1

lemma StreamRow.loopTest (h : StreamRow s) (hend : Streaming.EndInv s.loopTest)
    (hlive : ∀ o, s.consumer ≠ .ended o) (hne : s.consumer ≠ .yieldCompleted)
    (hraised : s.queue = [] → s.completion = true → s.producer ≠ .raised) :
    StreamRow s.loopTest := by
  have hcancel := Streaming.loopTest_producerCancel s
  have hcleanup := Streaming.loopTest_cleanup s
  have hstatus := Streaming.loopTest_status s
  have hskipped : s.loopTest.producer = .cancelled → s.loopTest.producerCancel = true := by
    simpa [hcancel] using h.skipped
  rcases Streaming.loopTest_cases s with ⟨event, rest, _, hs⟩ | ⟨hq, hcomp, hs⟩ | ⟨_, _, hs⟩
  · exact h.consume hend hlive hne (by simp [hs]) (by simp [hs]) hstatus hcleanup hcancel
      (by simp [hs, ConsumerPc.Closing]) hskipped (by simp [hs])
  · have hended : s.producer = .ended := by
      rcases (h.done hcomp).1 with hp | hp | hp
      · exact hp
      · exact absurd hp (hraised hq hcomp)
      · have hcancelled := h.skipped hp
        rw [(h.live hlive).2] at hcancelled
        cases hcancelled
    have hmarking : s.loopTest = { s with consumer := .marking } := by
      rw [hs]
      simp [Streaming.State.awaitProducer, hended]
    exact h.consume hend hlive hne (by simp [hmarking]) (by simp [hmarking]) hstatus hcleanup
      hcancel (fun _ => by simpa using hended) hskipped (by simp [hmarking])
  · exact h.consume hend hlive hne (by simp [hs]) (by simp [hs]) hstatus hcleanup hcancel
      (by simp [hs, ConsumerPc.Closing]) hskipped (by simp [hs])

lemma leaveGroup_cancelled (h : s.leaveGroup.producer = .cancelled) :
    s.leaveGroup.producerCancel = true := by
  unfold Streaming.State.leaveGroup at h ⊢
  dsimp only at h ⊢
  split_ifs at h with hfailed hcancel
  exact hcancel

lemma streamRow_act {a : Streaming.Action cfg} (hi : StreamRow s) (hg : StreamHandled s (.act a))
    (h : Streaming.step cfg s a = some t) : StreamRow t := by
  have hend := Streaming.endInv_step hi.toEndInv h
  have hcreated : s.producer = .created → ¬ s.producer.IsDone :=
    fun hp => hp ▸ Streaming.not_isDone_created
  have hgrouping : s.producer = .grouping → ¬ s.producer.IsDone :=
    fun hp => hp ▸ Streaming.not_isDone_grouping
  have hput : ∀ (i : cfg.Source) result, s.producer = .grouping →
      Streaming.EndInv (s.put i result) → StreamRow (s.put i result) := by
    intro i result hp hend
    obtain ⟨_, _, h⟩ := Streaming.put_eq s i result
    rw [h] at hend ⊢
    exact hi.produce hend (hgrouping hp) rfl rfl rfl rfl (by simp [hp])
  cases Streaming.took_of_step h with
  | skips hp hcancel => exact hi.produce hend (hcreated hp) rfl rfl rfl rfl fun _ => hcancel
  | leavesEmpty hp _ =>
    exact hi.produce hend (hcreated hp) rfl rfl rfl rfl leaveGroup_cancelled
  | opens hp _ => exact hi.produce hend (hcreated hp) rfl rfl rfl rfl (by simp)
  | fetches hp _ _ => exact hput _ _ hp hend
  | puts hp _ _ _ => exact hput _ _ hp hend
  | broadcasts hp _ _ _ | aborts hp _ _ | cancelsSource hp _ _ =>
    exact hi.produce hend (hgrouping hp) rfl rfl rfl rfl (by simp [hp])
  | closes hp _ => exact hi.produce hend (hgrouping hp) rfl rfl rfl rfl leaveGroup_cancelled
  | starts hc =>
    have hincomplete := hi.not_completion (by rw [hi.idle hc]; exact Streaming.not_isDone_idle)
    have hcancel := Streaming.loopTest_producerCancel { s with producer := .created }
    have hcleanup := Streaming.loopTest_cleanup { s with producer := .created }
    have hstatus := Streaming.loopTest_status { s with producer := .created }
    have hgoes : ∀ pc : ConsumerPc, ({ s with producer := .created }).loopTest.consumer = pc →
        (∀ o, pc ≠ .ended o) → pc ≠ .yieldCompleted → ¬ pc.Closing → pc ≠ .awaitingProducer →
        StreamRow ({ s with producer := .created }).loopTest := by
      rintro pc rfl hlive' hne' hclosing hawaited
      exact hi.consume hend (by simp [hc]) (by simp [hc]) hlive' hne' hstatus hcleanup hcancel
        (fun h => absurd h hclosing) (by simp) hawaited
    rcases Streaming.loopTest_cases { s with producer := ProducerPc.created } with
      ⟨event, rest, _, hs⟩ | ⟨_, hcomp, _⟩ | ⟨_, _, hs⟩
    · exact hgoes (.committing event) (by rw [hs]) (by simp) (by simp)
        (by simp [ConsumerPc.Closing]) (by simp)
    · exact absurd hcomp hincomplete
    · exact hgoes .getting (by rw [hs]) (by simp) (by simp) (by simp [ConsumerPc.Closing]) (by simp)
  | loops hc => exact hi.loopTest hend (by simp [hc]) (by simp [hc]) (hg hc)
  | joins hc _ => exact absurd hc hi.awaited
  | gets hc _ | commits hc =>
    exact hi.consume hend (by simp [hc]) (by simp [hc]) (by simp) (by simp) rfl rfl rfl
      (by simp [ConsumerPc.Closing]) hi.skipped (by simp)
  | marks hc =>
    exact hi.consume hend (by simp [hc]) (by simp [hc]) (by simp) (by simp) rfl rfl rfl
      (fun _ => hi.joined (.inl hc)) hi.skipped (by simp)
  | completes hc =>
    have hended := hi.joined (.inr (.inl hc))
    refine ⟨hend, fun _ => hi.live (by simp [hc]), fun _ hne => absurd rfl hne, fun _ => rfl,
      fun _ => hended, by simp, hi.skipped, by simp⟩
  | finishes hc =>
    exact hi.finish hend (by simp [hc]) rfl (hi.marked hc) rfl (hi.joined (.inr (.inr hc)))
  | fails _ => exact hg.elim
  | closesGenerator hlive =>
    have hc : s.consumer = .yieldCompleted := hg
    exact hi.finish hend hlive rfl (hi.marked hc) rfl (hi.joined (.inr (.inr hc)))
  | disconnects hlive hne =>
    refine ⟨hend, by simp, by simp, by simp, by simp [ConsumerPc.Closing],
      fun _ _ => .inl ⟨rfl, hi.running hlive hne, rfl⟩, fun _ => rfl, by simp⟩
  | @cleans stored hs =>
    have hstored : stored = true := hg
    have hended : ∃ o, s.consumer = .ended o := by
      by_contra hne
      rw [(hi.live (not_exists.mp hne)).1] at hs
      cases hs
    obtain ⟨o, ho⟩ := hended
    have hcancelled : s.producerCancel = true := by
      rcases hi.ended o ho with ⟨_, _, hcancel⟩ | ⟨hnone, _⟩
      · exact hcancel
      · simp [hs] at hnone
    refine ⟨hend, fun hne => absurd ho (hne o), fun hne => absurd ho (hne o), fun hc => ?_,
      hi.joined, fun _ _ => .inr ⟨rfl, by simp [hstored, Terminal], .inl hcancelled⟩, hi.skipped,
      hi.awaited⟩
    simp [ho] at hc

lemma streamRow_step {a : StreamAction cfg} (hi : StreamRow s) (hg : StreamHandled s a)
    (h : streamStep cfg s a = some t) : StreamRow t := by
  cases a with
  | act a => exact streamRow_act hi hg h
  | interrupted cancelled =>
    have hcancelled : cancelled = false := hg
    subst hcancelled
    simp only [streamStep] at h
    split at h
    · rename_i hc
      obtain rfl := Option.some.inj h
      have hend := Streaming.endInv_consumer (t := interrupt s false) hi.toEndInv
        (by simp [interrupt]) rfl rfl rfl
      exact hi.finish hend (by simp [hc]) rfl rfl rfl (hi.joined (.inr (.inl hc)))
    · cases h

lemma StreamRow.running_of_cleanup (hi : StreamRow s) (hs : s.cleanup = true) :
    s.status = "RUNNING" := by
  by_cases hc : ∃ o, s.consumer = .ended o
  · obtain ⟨o, ho⟩ := hc
    rcases hi.ended o ho with ⟨_, hstatus, _⟩ | ⟨hnone, _⟩
    · exact hstatus
    · simp [hs] at hnone
  · have hnone := (hi.live (not_exists.mp hc)).1
    simp [hs] at hnone

lemma stream_keepsStored {a : StreamAction cfg} (hi : StreamRow s) :
    (stream cfg).KeepsStored s a := by
  intro t h hstored
  have hne := ne_cancelled_of_stored hstored
  cases a with
  | interrupted cancelled =>
    simp only [stream, streamStep] at h
    split at h
    · obtain rfl := Option.some.inj h
      cases cancelled <;> simp [stream, interrupt]
    · cases h
  | act a =>
    have hsame : ∀ u : Streaming.State cfg, u.status = s.status → u.status ≠ "CANCELLED" :=
      fun u hu => hu.symm ▸ hne
    have hput : ∀ (i : cfg.Source) result, (s.put i result).status = s.status := by
      intro i result
      obtain ⟨_, _, h⟩ := Streaming.put_eq s i result
      rw [h]
    cases Streaming.took_of_step (show Streaming.step cfg s a = some t from h) with
    | cleans hs => exact absurd hstored (not_stored_running (hi.running_of_cleanup hs))
    | completes _ => simp [stream]
    | fetches _ _ _ => exact hsame _ (hput _ _)
    | puts _ _ _ _ => exact hsame _ (hput _ _)
    | starts _ =>
      exact hsame _ (Streaming.loopTest_status { s with producer := ProducerPc.created })
    | loops _ => exact hsame _ (Streaming.loopTest_status s)
    | joins hc _ => exact absurd hc hi.awaited
    | _ => exact hne

lemma not_runs_of_cancelled (hcancel : s.producerCancel = true)
    (hquiet : ∀ a, Scheduled a → Streaming.step cfg s a = none) :
    ¬ (s.producer = .grouping ∧ ¬ s.group.Finished) := by
  rintro ⟨hp, hrunning⟩
  obtain ⟨i, hi⟩ : ∃ i, (s.group.child i).isRunning = true := by
    simpa [Group.Finished] using hrunning
  cases hab : s.group.aborting with
  | false =>
    have hnone := hquiet .abort trivial
    simp [Streaming.step, hp, Group.abort, hab, hcancel] at hnone
  | true =>
    have hnone := hquiet (.cancelSource i) trivial
    simp [Streaming.step, hp, Group.cancelChild, hab, hi] at hnone

theorem stream_settles (acts : List (StreamAction cfg))
    (hg : Guarded (stream cfg).step StreamHandled (stream cfg).init acts) :
    (stream cfg).Settles acts := by
  have hstep : ∀ (s : Streaming.State cfg) a t, StreamRow s → StreamHandled s a →
      streamStep cfg s a = some t → StreamRow t := fun _ _ _ hi hg h => streamRow_step hi hg h
  constructor
  · refine along_of_guarded (fun s hs => ?_) acts hg
    have hi : StreamRow s := hs.invariant (streamRow_init cfg) hstep
    rintro ⟨⟨o, ho⟩, hcleanup, hquiet⟩
    rcases hi.ended o ho with ⟨hs, _⟩ | ⟨_, hterminal, hcancel | hdone⟩
    · simp [hcleanup] at hs
    · exact ⟨hterminal, not_runs_of_cancelled hcancel hquiet⟩
    · exact ⟨hterminal, fun hruns => Streaming.not_isDone_grouping (hruns.1 ▸ hdone)⟩
  · exact Guarded.imp hstep (fun _ _ hi _ => stream_keepsStored hi) (streamRow_init cfg) hg

def StreamAbandoned (s : Streaming.State cfg) : Prop :=
  (∃ o, s.consumer = .ended o) ∧ s.cleanup = false ∧ s.status = "RUNNING"

lemma streamAbandoned_step {a : StreamAction cfg} (hi : StreamAbandoned s)
    (h : streamStep cfg s a = some t) : StreamAbandoned t := by
  obtain ⟨⟨o, ho⟩, hcleanup, hstatus⟩ := hi
  cases a with
  | interrupted cancelled => simp [streamStep, ho] at h
  | act a =>
    have hput : ∀ (i : cfg.Source) result, StreamAbandoned (s.put i result) := by
      intro i result
      obtain ⟨_, _, h⟩ := Streaming.put_eq s i result
      rw [h]
      exact ⟨⟨o, ho⟩, hcleanup, hstatus⟩
    cases Streaming.took_of_step (show Streaming.step cfg s a = some t from h) with
    | fetches _ _ _ => exact hput _ _
    | puts _ _ _ _ => exact hput _ _
    | cleans hs => simp [hcleanup] at hs
    | starts hc | loops hc | gets hc _ | commits hc | joins hc _ | marks hc | completes hc
    | finishes hc => simp [ho] at hc
    | fails hc | disconnects hc _ | closesGenerator hc => exact absurd ho (hc o)
    | _ => exact ⟨⟨o, ho⟩, hcleanup, hstatus⟩

/-- A stream that ends in another way never gets a terminal row, or its stored row is about to be
called cancelled. -/
theorem stream_unhandled {u : Streaming.State cfg} {a : StreamAction cfg} (hi : StreamRow s)
    (hg : ¬ StreamHandled s a) (ha : ∀ stored, a ≠ .act (.cleanup stored))
    (h : streamStep cfg s a = some t) (hu : Reach (streamStep cfg) t u) :
    StreamAbandoned u ∨ t.status = "COMPLETED" ∧
      ∃ v, streamStep cfg t (.act (.cleanup true)) = some v ∧ v.status = "CANCELLED" := by
  have hkept : StreamAbandoned t → StreamAbandoned u := fun ht =>
    hu.invariant ht fun _ _ _ hi _ h => streamAbandoned_step hi h
  cases a with
  | interrupted cancelled =>
    cases cancelled with
    | false => exact absurd rfl hg
    | true =>
      simp only [streamStep] at h
      split at h
      · obtain rfl := Option.some.inj h
        exact .inr ⟨rfl, _, rfl, rfl⟩
      · cases h
  | act a =>
    refine .inl (hkept ?_)
    cases a with
    | consume =>
      simp only [StreamHandled, Classical.not_imp, not_not] at hg
      obtain ⟨hc, hq, hcomp, hraised⟩ := hg
      have hlive : ∀ o, s.consumer ≠ .ended o := by simp [hc]
      simp only [streamStep, Streaming.step, Streaming.State.consume, hc, Option.some.injEq] at h
      subst h
      simp only [Streaming.State.loopTest, hq, hcomp, if_true, Streaming.State.awaitProducer,
        hraised]
      exact ⟨⟨_, rfl⟩, (hi.live hlive).1, hi.running hlive (by simp [hc])⟩
    | closeGenerator =>
      have h : Streaming.step cfg s .closeGenerator = some t := h
      cases Streaming.took_of_step h with
      | closesGenerator hlive => exact ⟨⟨_, rfl⟩, (hi.live hlive).1, hi.running hlive hg⟩
    | fail =>
      have h : Streaming.step cfg s .fail = some t := h
      have hne : s.consumer ≠ .yieldCompleted := by
        intro hc
        simp [Streaming.step, hc] at h
      cases Streaming.took_of_step h with
      | fails hlive => exact ⟨⟨_, rfl⟩, (hi.live hlive).1, hi.running hlive hne⟩
    | cleanup stored => exact absurd rfl (ha stored)
    | _ => exact absurd trivial hg

/-- Every aggregation that ends in a way that its code handles leaves a terminal row and no running
source, and a stored row stays as it is. -/
theorem aggregations_settle (cfg : Config) :
    (∀ acts, Guarded (batch cfg).step BatchHandled (batch cfg).init acts →
      (batch cfg).Settles acts) ∧
    ∀ acts, Guarded (stream cfg).step StreamHandled (stream cfg).init acts →
      (stream cfg).Settles acts :=
  ⟨batch_settles, stream_settles⟩

open Streaming (oneSource weather)

/-- The client goes away while the source is being fetched. -/
def leftWhileFetching : List (StreamAction oneSource) :=
  [.act .consume, .act .produce, .act .disconnect, .act .abort, .act (.cancelSource weather),
    .act .close, .act (.cleanup true)]

def cancelledWhileFetching : List (Batch.Action oneSource) :=
  [.cancel, .abort, .cancelSource weather, .close, .cleanup true]

theorem aggregations_settle_cancelled :
    (stream oneSource).Settles leftWhileFetching ∧
    (batch oneSource).Settles cancelledWhileFetching ∧
    (∃ s, exec (stream oneSource).step (stream oneSource).init leftWhileFetching = some s ∧
      (stream oneSource).status s = "CANCELLED") ∧
    ∃ s, exec (batch oneSource).step (batch oneSource).init cancelledWhileFetching = some s ∧
      (batch oneSource).status s = "CANCELLED" := by
  have hleft : Guarded (stream oneSource).step StreamHandled (stream oneSource).init
      leftWhileFetching := by
    have hfirst : StreamHandled (Streaming.State.init oneSource) (.act .consume) := by
      intro hc
      cases hc
    exact .cons rfl hfirst (.cons rfl trivial (.cons rfl trivial (.cons rfl trivial
      (.cons rfl trivial (.cons rfl trivial (.cons rfl rfl trivial))))))
  have hcancelled : Guarded (batch oneSource).step BatchHandled (batch oneSource).init
      cancelledWhileFetching := by
    refine .cons rfl rfl (.cons rfl trivial (.cons rfl trivial (.cons rfl ?_
      (.cons rfl rfl trivial))))
    simp only [BatchHandled]
    decide
  exact ⟨(aggregations_settle oneSource).2 _ hleft, (aggregations_settle oneSource).1 _ hcancelled,
    ⟨_, rfl, rfl⟩, ⟨_, rfl, rfl⟩⟩

/-- The response is closed at the yield of a result, while the source is in its broadcast. -/
def closedAtYield : List (StreamAction oneSource) :=
  [.act .consume, .act .produce, .act (.fetched weather (.ok .null) 5), .act .consume,
    .act .consume, .act .closeGenerator]

/-- The row says RUNNING, the source runs on, and nothing is scheduled. -/
theorem closedAtYield_not_settles : ¬ ∀ cfg acts, (stream cfg).Settles acts := by
  intro h
  have hrun : ∃ s,
      exec (streamStep oneSource) (Streaming.State.init oneSource) closedAtYield = some s ∧
      s.consumer = .ended .closed ∧ s.cleanup = false ∧ s.producer = .grouping ∧
      s.producerCancel = false ∧ s.group.aborting = false ∧ s.status = "RUNNING" ∧
      ∃ result, s.group.child weather = .running (.broadcasting result) :=
    ⟨_, rfl, rfl, rfl, rfl, rfl, rfl, rfl, _, rfl⟩
  obtain ⟨s, hexec, hc, hcleanup, hp, hcancel, hcalm, hstatus, result, hweather⟩ := hrun
  have honly : ∀ i : oneSource.Source, i = weather := fun i => Fin.ext (Nat.lt_one_iff.mp i.2)
  have hrunning : ¬ s.group.Finished := by
    intro hfin
    have := hfin weather
    simp [hweather, Child.isRunning] at this
  have hfailed : ¬ s.group.HasFailed := by
    rintro ⟨i, hi⟩
    rw [honly i, hweather] at hi
    cases hi
  have hquiet : ∀ a, Scheduled a → Streaming.step oneSource s a = none := by
    intro a ha
    cases a with
    | produce => simp [Streaming.step, Streaming.State.produce, hp]
    | abort => simp [Streaming.step, hp, Group.abort, hcalm, hcancel, hfailed]
    | cancelSource i => simp [Streaming.step, hp, Group.cancelChild, hcalm]
    | close => simp [Streaming.step, hrunning]
    | _ => exact ha.elim
  have hsettled : (stream oneSource).settled s := ⟨⟨_, hc⟩, hcleanup, hquiet⟩
  have hterminal := ((h oneSource closedAtYield).terminal.last hexec hsettled).1
  simp [stream, Terminal, Stored, hstatus] at hterminal

end AsyncDataHub.Aggregation
