import AsyncDataHub.StreamWakeup

/-! What a stream has delivered when it ends: the results in the order in which the sources have put
them into the queue, each of them once. -/
namespace AsyncDataHub.Streaming
open StepSystem TaskGroup PyJson

variable {cfg : Config} {s t : State cfg} {a : Action cfg}

abbrev Arrival (cfg : Config) := cfg.Source × AggregationSourceResult

def arrival (s : State cfg) : Action cfg → List (Arrival cfg)
  | .fetched i outcome ms =>
    if s.queue.length < maxsize cfg then
      [(i, fetchSource (cfg.sourceNames.get i) outcome ms)]
    else []
  | .put i =>
    match s.group.child i with
    | .running (.putting result) => [(i, result)]
    | _ => []
  | _ => []

def arrivals (s : State cfg) : List (Action cfg) → List (Arrival cfg)
  | [] => []
  | a :: as =>
    match step cfg s a with
    | none => []
    | some t => arrival s a ++ arrivals t as

/-- Where the sources stand when the results `queued` have come into the queue. -/
structure SourceInv (s : State cfg) (queued : List (Arrival cfg)) : Prop where
  orderly : s.group.Orderly s.producerCancel
  collects : s.group.Collects SourcePc.Unqueued (queued.map Prod.fst)
  unblocked : ∀ i result, s.group.child i ≠ .running (.putting result)
  complete : s.producer = .ended → ∀ i, s.group.child i = .ended
  space : s.queue.length ≤ queued.length

lemma SourceInv.lt_maxsize {queued : List (Arrival cfg)} (h : SourceInv s queued)
    {i : cfg.Source} (hi : s.group.child i = .running .fetching) :
    s.queue.length < maxsize cfg := by
  have hnew : i ∉ queued.map Prod.fst := (h.collects.running i _ hi).mp trivial
  have hnodup : (i :: queued.map Prod.fst).Nodup := List.nodup_cons.mpr ⟨hnew, h.collects.distinct⟩
  have hle := hnodup.length_le_card
  have hspace := h.space
  simp only [List.length_cons, List.length_map, Fintype.card_fin] at hle
  unfold maxsize
  omega

lemma sourceInv_init (cfg : Config) : SourceInv (State.init cfg) [] := by
  constructor
  case orderly => exact ⟨by simp [State.init], by simp [State.init]⟩
  case collects => exact ⟨by simp, by simp [State.init, SourcePc.Unqueued], by simp [State.init]⟩
  all_goals simp [State.init]

lemma SourceInv.keep {queued : List (Arrival cfg)} (h : SourceInv s queued)
    (hgroup : t.group = s.group) (hcancel : s.producerCancel = true → t.producerCancel = true)
    (hqueue : t.queue.length ≤ s.queue.length)
    (hended : t.producer = .ended → ∀ i, s.group.child i = .ended) : SourceInv t queued := by
  constructor
  case orderly => exact hgroup ▸ h.orderly.mono hcancel
  case collects => exact hgroup ▸ h.collects
  case unblocked => exact hgroup ▸ h.unblocked
  case complete => exact hgroup ▸ hended
  case space => exact hqueue.trans h.space

lemma SourceInv.setChild {queued : List (Arrival cfg)} (h : SourceInv s queued) {i : cfg.Source}
    {c : Child SourcePc String} (hrun : (s.group.child i).isRunning = true)
    (hc : c.isRunning = false) (hcancelled : c = .cancelled → s.group.aborting = true)
    (hended : c = .ended → i ∈ queued.map Prod.fst) (hprod : s.producer ≠ .ended) :
    SourceInv { s with group := s.group.set i c } queued := by
  constructor
  case orderly => exact h.orderly.set hrun hcancelled
  case collects => exact h.collects.settle hc hended
  case unblocked =>
    intro j result hj
    by_cases hji : j = i
    · subst hji
      simp only [Group.set_child_self] at hj
      simp [hj, Child.isRunning] at hc
    · exact h.unblocked j result (by simpa [hji] using hj)
  case complete => exact fun hp => absurd hp hprod
  case space => exact h.space

lemma SourceInv.queue {queued : List (Arrival cfg)} (h : SourceInv s queued) {i : cfg.Source}
    {result : AggregationSourceResult} (hi : s.group.child i = .running .fetching)
    (hprod : s.producer ≠ .ended) : SourceInv (s.put i result) (queued ++ [(i, result)]) := by
  have hlt := h.lt_maxsize hi
  rcases put_cases s i result with ⟨_, hput⟩ | ⟨hle, _⟩
  · rw [hput]
    constructor
    case orderly => exact h.orderly.set (by simp [hi, Child.isRunning]) (by simp)
    case collects =>
      rw [List.map_append]
      exact h.collects.collect hi trivial (by simp [SourcePc.Unqueued])
    case unblocked =>
      intro j result' hj
      by_cases hji : j = i
      · subst hji
        simp at hj
      · exact h.unblocked j result' (by simpa [hji] using hj)
    case complete => exact fun hp => absurd hp hprod
    case space => simpa using h.space
  · omega

lemma broadcast_cases {i : cfg.Source} {raised : Option String}
    (h : step cfg s (.broadcast i raised) = some t) :
    s.producer = .grouping ∧ ∃ result c, s.group.child i = .running (.broadcasting result) ∧
      (c = .ended ∨ ∃ text, c = .failed text) ∧ t = { s with group := s.group.set i c } := by
  simp only [step] at h
  split at h
  · rename_i result hs
    obtain ⟨hp, _, hc⟩ := source_eq_some.mp hs
    cases raised with
    | none => exact ⟨hp, result, .ended, hc, .inl rfl, (Option.some.inj h).symm⟩
    | some text => exact ⟨hp, result, .failed text, hc, .inr ⟨text, rfl⟩, (Option.some.inj h).symm⟩
  · cases h

lemma leaveGroup_ended (h : s.leaveGroup.producer = .ended) :
    ¬ s.group.HasFailed ∧ s.producerCancel = false := by
  unfold State.leaveGroup at h
  dsimp only at h
  split_ifs at h with hfailed hcancel
  exact ⟨hfailed, by simpa using hcancel⟩

lemma sourceInv_quiet {queued : List (Arrival cfg)} (hi : SourceInv s queued)
    (hquiet : arrival s a = []) (h : step cfg s a = some t) : SourceInv t queued := by
  cases took_of_step h with
  | skips hp _ | opens hp _ => exact hi.keep rfl id le_rfl (by simp)
  | leavesEmpty _ hempty => exact hi.keep rfl id le_rfl fun _ i => absurd i.2 (by simp [hempty])
  | closes _ hfin =>
    refine hi.keep rfl id le_rfl fun hp => ?_
    obtain ⟨hfailed, hcancel⟩ := leaveGroup_ended hp
    exact hi.orderly.ended hfin hfailed hcancel
  | fetches _ _ hc => simp [arrival, hi.lt_maxsize hc] at hquiet
  | @puts i result _ _ hc _ => exact absurd hc (hi.unblocked i result)
  | @broadcasts i raised _ _ _ _ _ _ =>
    obtain ⟨hp, result, c, hc, hcases, ht⟩ := broadcast_cases h
    rw [ht]
    have hin : i ∈ queued.map Prod.fst := by
      simpa [SourcePc.Unqueued] using hi.collects.running i _ hc
    have hrun : (s.group.child i).isRunning = true := by simp [hc, Child.isRunning]
    rcases hcases with rfl | ⟨text, rfl⟩
    · exact hi.setChild hrun rfl (by simp) (fun _ => hin) (by simp [hp])
    · exact hi.setChild hrun rfl (by simp) (by simp) (by simp [hp])
  | aborts hp _ hcause =>
    constructor
    case orderly => exact orderly_aborted hcause
    case complete => exact fun hended => absurd (hp.symm.trans hended) (by simp)
    case collects => exact ⟨hi.collects.distinct, hi.collects.running, hi.collects.ended⟩
    case unblocked => exact hi.unblocked
    case space => exact hi.space
  | cancelsSource hp hab hrun => exact hi.setChild hrun rfl (fun _ => hab) (by simp) (by simp [hp])
  | starts _ =>
    obtain ⟨_, _, hs, hlen⟩ := loopTest_eq { s with producer := ProducerPc.created }
    rw [hs]
    exact hi.keep rfl id hlen (by simp)
  | loops _ =>
    obtain ⟨_, _, hs, hlen⟩ := loopTest_eq s
    rw [hs]
    exact hi.keep rfl id hlen hi.complete
  | joins _ _ =>
    obtain ⟨_, hs⟩ := awaitProducer_eq s
    rw [hs]
    exact hi.keep rfl id le_rfl hi.complete
  | gets _ hq => exact hi.keep rfl id (by simp [hq]) hi.complete
  | disconnects _ _ => exact hi.keep rfl (fun _ => rfl) le_rfl hi.complete
  | commits _ | marks _ | completes _ | finishes _ | fails _ | closesGenerator _ | cleans _ =>
    exact hi.keep rfl id le_rfl hi.complete

theorem sourceInv_step {queued : List (Arrival cfg)} (hi : SourceInv s queued)
    (h : step cfg s a = some t) : SourceInv t (queued ++ arrival s a) := by
  by_cases hquiet : arrival s a = []
  · rw [hquiet, List.append_nil]
    exact sourceInv_quiet hi hquiet h
  · cases took_of_step h with
    | fetches hp _ hc =>
      simp only [arrival, hi.lt_maxsize hc, if_true]
      exact hi.queue hc (by simp [hp])
    | puts _ _ hc _ => exact absurd hc (hi.unblocked _ _)
    | _ => exact absurd rfl hquiet

def ConsumerPc.inflight : ConsumerPc → List AggregationStreamEvent
  | .committing event => [event]
  | _ => []

def ConsumerPc.Closing (pc : ConsumerPc) : Prop :=
  pc = .marking ∨ pc = .committingStatus ∨ pc = .yieldCompleted

/-- The events queued in a run, those that have been committed and sent, and whether the completed
frame is out. -/
structure Delivery (s : State cfg) (events delivered : List AggregationStreamEvent) (done : Bool) :
    Prop where
  frames : s.frames = startedEvent cfg :: delivered ++ if done then [completedEvent cfg] else []
  records : s.records = delivered.map (recordOf cfg)
  begins : delivered <+: events
  live : (∀ o, s.consumer ≠ .ended o) → events = delivered ++ (s.consumer.inflight ++ s.queue)
  closing : s.consumer.Closing → s.queue = [] ∧ s.producer = .ended
  joined : s.consumer ≠ .awaitingProducer
  drained : done = true → delivered = events ∧ s.producer = .ended
  last : done = true → s.consumer = .yieldCompleted ∨ ∃ o, s.consumer = .ended o

variable {events delivered : List AggregationStreamEvent} {done : Bool}

lemma delivery_init (cfg : Config) : Delivery (State.init cfg) [] [] false := by
  constructor <;> simp [State.init, ConsumerPc.inflight, ConsumerPc.Closing]

lemma Delivery.produce (h : Delivery s events delivered done) {new : List AggregationStreamEvent}
    (hprod : s.producer ≠ .ended) (hconsumer : t.consumer = s.consumer)
    (hframes : t.frames = s.frames) (hrecords : t.records = s.records)
    (hqueue : t.queue = s.queue ++ new) : Delivery t (events ++ new) delivered done := by
  have hnot : done ≠ true := fun hd => hprod (h.drained hd).2
  constructor
  case frames => exact hframes ▸ h.frames
  case records => exact hrecords ▸ h.records
  case begins => exact h.begins.trans (List.prefix_append _ _)
  case live =>
    intro hlive
    rw [hconsumer] at hlive ⊢
    rw [h.live hlive, hqueue]
    simp
  case closing =>
    intro hclosing
    rw [hconsumer] at hclosing
    exact absurd (h.closing hclosing).2 hprod
  case joined => exact hconsumer ▸ h.joined
  case drained => exact fun hd => absurd hd hnot
  case last => exact fun hd => absurd hd hnot

lemma Delivery.consume (h : Delivery s events delivered false) (hlive : ∀ o, s.consumer ≠ .ended o)
    (hframes : t.frames = s.frames) (hrecords : t.records = s.records)
    (hevents : (∀ o, t.consumer ≠ .ended o) →
      s.consumer.inflight ++ s.queue = t.consumer.inflight ++ t.queue)
    (hclosing : t.consumer.Closing → t.queue = [] ∧ t.producer = .ended)
    (hjoined : t.consumer ≠ .awaitingProducer) : Delivery t events delivered false := by
  constructor
  case frames => exact hframes ▸ h.frames
  case records => exact hrecords ▸ h.records
  case begins => exact h.begins
  case live => exact fun hl => by rw [h.live hlive, hevents hl]
  case closing => exact hclosing
  case joined => exact hjoined
  case drained => simp
  case last => simp

lemma Delivery.finish (h : Delivery s events delivered done) {o : StreamEnd}
    (hconsumer : t.consumer = .ended o) (hframes : t.frames = s.frames)
    (hrecords : t.records = s.records) (hprod : t.producer = s.producer) :
    Delivery t events delivered done := by
  constructor
  case frames => exact hframes ▸ h.frames
  case records => exact hrecords ▸ h.records
  case begins => exact h.begins
  case live => exact fun hl => absurd hconsumer (hl o)
  case closing => simp [hconsumer, ConsumerPc.Closing]
  case joined => simp [hconsumer]
  case drained => exact hprod ▸ h.drained
  case last => exact fun _ => .inr ⟨o, hconsumer⟩

lemma Delivery.not_done (h : Delivery s events delivered done)
    (hlive : ∀ o, s.consumer ≠ .ended o) (hne : s.consumer ≠ .yieldCompleted) : done = false := by
  cases done with
  | false => rfl
  | true =>
    rcases h.last rfl with hc | ⟨o, hc⟩
    · exact absurd hc hne
    · exact absurd hc (hlive o)

lemma delivery_awaitProducer (h : Delivery s events delivered false)
    (hlive : ∀ o, s.consumer ≠ .ended o) (hinflight : s.consumer.inflight = [])
    (hqueue : s.queue = []) (hdone : s.producer.IsDone) :
    Delivery s.awaitProducer events delivered false := by
  rcases awaitProducer_cases s with ⟨hp, hs⟩ | ⟨_, hs⟩ | ⟨_, hs⟩ | ⟨hnot, _⟩
  · rw [hs]
    refine h.consume hlive rfl rfl (fun _ => ?_) (fun _ => ⟨hqueue, hp⟩) (by simp)
    rw [hinflight]
    rfl
  · rw [hs]
    exact h.finish rfl rfl rfl rfl
  · rw [hs]
    exact h.finish rfl rfl rfl rfl
  · exact absurd hdone hnot

lemma delivery_loopTest (h : Delivery s events delivered false)
    (hlive : ∀ o, s.consumer ≠ .ended o) (hinflight : s.consumer.inflight = [])
    (hdone : s.completion = true → s.producer.IsDone) :
    Delivery s.loopTest events delivered false := by
  rcases loopTest_cases s with ⟨event, rest, hq, hs⟩ | ⟨hq, hcomp, hs⟩ | ⟨hq, _, hs⟩ <;> rw [hs]
  · refine h.consume hlive rfl rfl (fun _ => ?_) (by simp [ConsumerPc.Closing]) (by simp)
    rw [hinflight, hq]
    rfl
  · exact delivery_awaitProducer h hlive hinflight hq (hdone hcomp)
  · refine h.consume hlive rfl rfl (fun _ => ?_) (by simp [ConsumerPc.Closing]) (by simp)
    rw [hinflight]
    rfl

lemma Delivery.commit (h : Delivery s events delivered false) {event : AggregationStreamEvent}
    (hc : s.consumer = .committing event) :
    Delivery { s with
      records := s.records ++ [recordOf cfg event], frames := s.frames ++ [event]
      consumer := .yielded } events (delivered ++ [event]) false := by
  have hevents : events = delivered ++ event :: s.queue := by
    simpa [hc, ConsumerPc.inflight] using h.live (by simp [hc])
  constructor
  case frames => simp [h.frames]
  case records => simp [h.records]
  case begins => exact ⟨s.queue, by simp [hevents]⟩
  case live => simp [hevents, ConsumerPc.inflight]
  all_goals simp [ConsumerPc.Closing]

lemma Delivery.complete (h : Delivery s events delivered false)
    (hc : s.consumer = .committingStatus) :
    Delivery { s with
      status := "COMPLETED", frames := s.frames ++ [completedEvent cfg]
      consumer := .yieldCompleted } events delivered true := by
  obtain ⟨hqueue, hended⟩ := h.closing (.inr (.inl hc))
  have hevents : events = delivered := by
    simpa [hc, hqueue, ConsumerPc.inflight] using h.live (by simp [hc])
  constructor
  case frames => simp [h.frames]
  case records => exact h.records
  case begins => exact h.begins
  case live => simp [hevents, hqueue, ConsumerPc.inflight]
  case closing => exact fun _ => ⟨hqueue, hended⟩
  case joined => simp
  case drained => exact fun _ => ⟨hevents.symm, hended⟩
  case last => exact fun _ => .inl rfl

def Arrival.event (result : Arrival cfg) : AggregationStreamEvent := resultEvent cfg result.2

theorem delivery_step {queued : List (Arrival cfg)} (hs : SourceInv s queued) (he : EndInv s)
    (hi : Delivery s events delivered done) (h : step cfg s a = some t) :
    ∃ delivered' done',
      Delivery t (events ++ (arrival s a).map Arrival.event) delivered' done' := by
  have hquiet : arrival s a = [] → ∀ delivered' done', Delivery t events delivered' done' →
      ∃ delivered' done',
        Delivery t (events ++ (arrival s a).map Arrival.event) delivered' done' := by
    intro hnone delivered' done' hd
    exact ⟨delivered', done', by simpa [hnone] using hd⟩
  cases took_of_step h with
  | skips hp _ | opens hp _ =>
    exact ⟨delivered, done, hi.produce (by simp [hp]) rfl rfl rfl (by simp [arrival])⟩
  | leavesEmpty hp _ =>
    exact ⟨delivered, done, hi.produce (by simp [hp]) rfl rfl rfl
      (by simp [arrival, State.leaveGroup])⟩
  | closes hp _ =>
    exact ⟨delivered, done, hi.produce (by simp [hp]) rfl rfl rfl
      (by simp [arrival, State.leaveGroup])⟩
  | @fetches i outcome ms hp _ hc =>
    have hlt := hs.lt_maxsize hc
    rcases put_cases s i (fetchSource (cfg.sourceNames.get i) outcome ms) with ⟨_, h⟩ | ⟨hle, _⟩
    · rw [h]
      exact ⟨delivered, done, hi.produce (by simp [hp]) rfl rfl rfl
        (by simp [arrival, hlt, Arrival.event])⟩
    · omega
  | @puts i result _ _ hc _ => exact absurd hc (hs.unblocked i result)
  | broadcasts hp _ _ _ | aborts hp _ _ | cancelsSource hp _ _ =>
    exact ⟨delivered, done, hi.produce (by simp [hp]) rfl rfl rfl (by simp [arrival])⟩
  | starts hc =>
    have hnot := hi.not_done (by simp [hc]) (by simp [hc])
    subst hnot
    have hidle : s.producer = .idle := he.idle hc
    have hincomplete : s.completion ≠ true :=
      he.not_completion (by rw [hidle]; exact not_isDone_idle)
    have hcreated : Delivery { s with producer := .created } (events ++ []) delivered false :=
      hi.produce (by simp [hidle]) rfl rfl rfl (by simp)
    exact ⟨delivered, false, delivery_loopTest hcreated (by simp [hc])
      (by simp [hc, ConsumerPc.inflight]) fun hcomp => absurd hcomp hincomplete⟩
  | loops hc =>
    have hnot := hi.not_done (by simp [hc]) (by simp [hc])
    subst hnot
    exact hquiet rfl delivered false (delivery_loopTest hi (by simp [hc])
      (by simp [hc, ConsumerPc.inflight]) fun hcomp => (he.done hcomp).1)
  | joins hc _ => exact absurd hc hi.joined
  | gets hc hq =>
    have hnot := hi.not_done (by simp [hc]) (by simp [hc])
    subst hnot
    exact hquiet rfl delivered false (hi.consume (by simp [hc]) rfl rfl
      (fun _ => by simp [hc, hq, ConsumerPc.inflight]) (by simp [ConsumerPc.Closing]) (by simp))
  | @commits event hc =>
    have hnot := hi.not_done (by simp [hc]) (by simp [hc])
    subst hnot
    exact hquiet rfl (delivered ++ [event]) false (hi.commit hc)
  | marks hc =>
    have hnot := hi.not_done (by simp [hc]) (by simp [hc])
    subst hnot
    exact hquiet rfl delivered false (hi.consume (by simp [hc]) rfl rfl
      (fun _ => by simp [hc, ConsumerPc.inflight]) (fun _ => hi.closing (.inl hc)) (by simp))
  | completes hc =>
    have hnot := hi.not_done (by simp [hc]) (by simp [hc])
    subst hnot
    exact hquiet rfl delivered true (hi.complete hc)
  | finishes _ | fails _ | disconnects _ _ | closesGenerator _ =>
    exact hquiet rfl delivered done (hi.finish rfl rfl rfl rfl)
  | cleans _ =>
    exact hquiet rfl delivered done
      ⟨hi.frames, hi.records, hi.begins, hi.live, hi.closing, hi.joined, hi.drained, hi.last⟩

/-- What holds after a run: `queued` are the results that its steps have put into the queue. -/
structure Delivered (s : State cfg) (queued : List (Arrival cfg)) : Prop where
  sources : SourceInv s queued
  ending : EndInv s
  delivery : ∃ delivered done, Delivery s (queued.map Arrival.event) delivered done

lemma delivered_init (cfg : Config) : Delivered (State.init cfg) [] :=
  ⟨sourceInv_init cfg, endInv_init cfg, [], false, delivery_init cfg⟩

lemma Delivered.step {queued : List (Arrival cfg)} (hi : Delivered s queued)
    (h : Streaming.step cfg s a = some t) : Delivered t (queued ++ arrival s a) := by
  obtain ⟨delivered, done, hd⟩ := hi.delivery
  have hdelivery := delivery_step hi.sources hi.ending hd h
  rw [← List.map_append] at hdelivery
  exact ⟨sourceInv_step hi.sources h, endInv_step hi.ending h, hdelivery⟩

theorem delivered_of_exec {queued : List (Arrival cfg)} (hi : Delivered s queued)
    {acts : List (Action cfg)} (h : exec (Streaming.step cfg) s acts = some t) :
    Delivered t (queued ++ arrivals s acts) := by
  induction acts generalizing s queued with
  | nil =>
    simp only [exec_nil, Option.some.injEq] at h
    simpa [arrivals, ← h] using hi
  | cons a as ih =>
    obtain ⟨u, hu, hrest⟩ := exec_cons_eq_some.mp h
    have := ih (hi.step hu) hrest
    simpa [arrivals, hu] using this

lemma mem_arrival {queued : List (Arrival cfg)} (hi : SourceInv s queued)
    (h : step cfg s a = some t) {i : cfg.Source} {result : AggregationSourceResult} :
    (i, result) ∈ arrival s a ↔ ∃ outcome ms, a = .fetched i outcome ms ∧
      result = fetchSource (cfg.sourceNames.get i) outcome ms := by
  cases a with
  | fetched j outcome ms =>
    cases took_of_step h with
    | fetches _ _ hc =>
      simp only [arrival, hi.lt_maxsize hc, if_true, List.mem_singleton, Prod.mk.injEq,
        Action.fetched.injEq]
      constructor
      · rintro ⟨rfl, rfl⟩
        exact ⟨outcome, ms, ⟨rfl, rfl, rfl⟩, rfl⟩
      · rintro ⟨_, _, ⟨rfl, rfl, rfl⟩, rfl⟩
        exact ⟨rfl, rfl⟩
  | put j =>
    cases took_of_step h with
    | puts _ _ hc _ => exact absurd hc (hi.unblocked j _)
  | _ => simp [arrival]

lemma mem_arrivals {queued : List (Arrival cfg)} (hi : Delivered s queued)
    {acts : List (Action cfg)} (h : exec (Streaming.step cfg) s acts = some t) {i : cfg.Source}
    {result : AggregationSourceResult} :
    (i, result) ∈ arrivals s acts ↔ ∃ outcome ms, Action.fetched i outcome ms ∈ acts ∧
      result = fetchSource (cfg.sourceNames.get i) outcome ms := by
  induction acts generalizing s queued with
  | nil => simp [arrivals]
  | cons a as ih =>
    obtain ⟨u, hu, hrest⟩ := exec_cons_eq_some.mp h
    have hih := ih (hi.step hu) hrest
    have hhead : (i, result) ∈ arrival s a ↔ _ := mem_arrival hi.sources hu
    simp only [arrivals, hu, List.mem_append, hih, hhead, List.mem_cons]
    constructor
    · rintro (⟨outcome, ms, rfl, hr⟩ | ⟨outcome, ms, hin, hr⟩)
      · exact ⟨outcome, ms, .inl rfl, hr⟩
      · exact ⟨outcome, ms, .inr hin, hr⟩
    · rintro ⟨outcome, ms, heq | hin, hr⟩
      · exact .inl ⟨outcome, ms, heq.symm, hr⟩
      · exact .inr ⟨outcome, ms, hin, hr⟩

def State.Completed (s : State cfg) : Prop := ∃ frame ∈ s.frames, frame.event = "completed"

lemma event_of_delivered {queued : List (Arrival cfg)} (hd : Delivery s
    (queued.map Arrival.event) events done) {frame : AggregationStreamEvent}
    (hf : frame ∈ events) : frame.event = "source_result" := by
  obtain ⟨result, _, rfl⟩ := List.mem_map.mp (hd.begins.subset hf)
  rfl

lemma Delivery.done_of_completed {queued : List (Arrival cfg)}
    (hd : Delivery s (queued.map Arrival.event) delivered done) (hc : s.Completed) :
    done = true := by
  obtain ⟨frame, hf, hevent⟩ := hc
  rw [hd.frames] at hf
  cases done with
  | true => rfl
  | false =>
    simp only [Bool.false_eq_true, if_false, List.append_nil, List.mem_cons] at hf
    rcases hf with rfl | hf
    · simp [startedEvent] at hevent
    · simp [event_of_delivered hd hf] at hevent

lemma Delivery.all (hd : Delivery s events delivered done)
    (hc : done = true ∨ s.consumer = .committingStatus) :
    delivered = events ∧ s.producer = .ended := by
  rcases hc with hdone | hc
  · exact hd.drained hdone
  · obtain ⟨hqueue, hended⟩ := hd.closing (.inr (.inl hc))
    have hlive := hd.live (by simp [hc])
    simp only [hc, ConsumerPc.inflight, hqueue, List.append_nil] at hlive
    exact ⟨hlive.symm, hended⟩

lemma recorded {queued : List (Arrival cfg)} (hi : Delivered s queued)
    (hc : s.Completed ∨ s.consumer = .committingStatus) :
    s.records = queued.map (recordOf cfg ·.event) ∧
      (queued.map Prod.fst).Perm (List.finRange cfg.sourceNames.length) := by
  obtain ⟨delivered, done, hd⟩ := hi.delivery
  obtain ⟨rfl, hended⟩ := hd.all (hc.imp_left hd.done_of_completed)
  constructor
  · rw [hd.records, List.map_map]
    rfl
  · exact hi.sources.collects.perm (hi.sources.complete hended)

lemma framed {queued : List (Arrival cfg)} (hi : Delivered s queued) (hc : s.Completed) :
    s.frames = startedEvent cfg :: queued.map Arrival.event ++ [completedEvent cfg] := by
  obtain ⟨delivered, done, hd⟩ := hi.delivery
  have hdone := hd.done_of_completed hc
  obtain ⟨rfl, _⟩ := hd.all (.inl hdone)
  simpa [hdone] using hd.frames

lemma recordOf_status (i : cfg.Source) (outcome : Except String Json) (ms : ℕ) :
    (recordOf cfg (Arrival.event (i, fetchSource (cfg.sourceNames.get i) outcome ms))).status =
      "error" ↔ ∃ text, outcome = .error text := by
  cases outcome <;> simp [recordOf, Arrival.event, resultEvent, fetchSource]

/-- In every run: no source waits for space; once the completed frame is out, the frames are the
started frame, one frame for each source in the order of the queue, and the completed frame; and
before it one row for each source is committed, an error exactly if the source has failed. -/
theorem stream_delivers {acts : List (Action cfg)}
    (h : exec (step cfg) (State.init cfg) acts = some s) :
    (∀ i result, s.group.child i ≠ .running (.putting result)) ∧
    (s.Completed → s.frames = startedEvent cfg ::
      (arrivals (State.init cfg) acts).map Arrival.event ++ [completedEvent cfg]) ∧
    (s.Completed ∨ s.consumer = .committingStatus →
      s.records = (arrivals (State.init cfg) acts).map (recordOf cfg ·.event) ∧
      ((arrivals (State.init cfg) acts).map Prod.fst).Perm
        (List.finRange cfg.sourceNames.length) ∧
      ∀ result ∈ arrivals (State.init cfg) acts, (recordOf cfg result.event).status = "error" ↔
        ∃ text ms, Action.fetched result.1 (.error text) ms ∈ acts) := by
  have hi := delivered_of_exec (delivered_init cfg) h
  rw [List.nil_append] at hi
  have hmem : ∀ {i result}, (i, result) ∈ arrivals (State.init cfg) acts ↔
      ∃ outcome ms, Action.fetched i outcome ms ∈ acts ∧
        result = fetchSource (cfg.sourceNames.get i) outcome ms :=
    mem_arrivals (delivered_init cfg) h
  refine ⟨hi.sources.unblocked, framed hi, fun hc => ?_⟩
  obtain ⟨hrecords, hperm⟩ := recorded hi hc
  refine ⟨hrecords, hperm, ?_⟩
  rintro ⟨i, result⟩ hin
  obtain ⟨outcome, ms, hfetched, rfl⟩ := hmem.mp hin
  rw [recordOf_status]
  constructor
  · rintro ⟨text, rfl⟩
    exact ⟨text, ms, hfetched⟩
  · rintro ⟨text, ms', hfailed⟩
    have hin' := hmem.mpr ⟨.error text, ms', hfailed, rfl⟩
    have hsame := List.inj_on_of_nodup_map hi.sources.collects.distinct hin hin' rfl
    have hstatus := congrArg (fun r => (recordOf cfg (Arrival.event r)).status) hsame
    simp only at hstatus
    have herror := (recordOf_status i (.error text) ms').mpr ⟨text, rfl⟩
    exact (recordOf_status i outcome ms).mp (hstatus.trans herror)

def twoSources : Config where
  sourceNames := ["weather", "news"]
  query := "q"
  requestId := 1

/-- The news fail before the weather is there. -/
def newsFirst : List (Action twoSources) :=
  [.consume, .produce, .fetched ⟨1, by decide⟩ (.error "down") 3,
    .fetched ⟨0, by decide⟩ (.ok .null) 5, .broadcast ⟨0, by decide⟩ none,
    .broadcast ⟨1, by decide⟩ none, .close, .consume, .consume, .consume, .consume, .consume,
    .consume, .consume]

theorem stream_delivers_newsFirst : ∃ s,
    exec (step twoSources) (State.init twoSources) newsFirst = some s ∧ s.Completed ∧
      s.frames = startedEvent twoSources ::
        (arrivals (State.init twoSources) newsFirst).map Arrival.event ++
          [completedEvent twoSources] ∧
      (arrivals (State.init twoSources) newsFirst).map (fun r => r.1.val) = [1, 0] := by
  have hrun : ∃ s, exec (step twoSources) (State.init twoSources) newsFirst = some s ∧
      s.Completed := ⟨_, rfl, completedEvent twoSources, by simp, rfl⟩
  obtain ⟨s, hs, hc⟩ := hrun
  exact ⟨s, hs, hc, (stream_delivers hs).2.1 hc, rfl⟩

end AsyncDataHub.Streaming
