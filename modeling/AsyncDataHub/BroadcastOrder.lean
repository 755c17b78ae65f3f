import AsyncDataHub.WebSocketQueues

/-! The order of the messages at one client. What is put into a queue only grows, and a client that
has been unregistered does not come back, so a client that is registered before and after a
broadcast was in its snapshot. -/
namespace AsyncDataHub.WebSocket
open StepSystem

variable {size : ℕ} {s s' s₁ s₂ : State} {a : Action} {b c : ClientId} {e e₁ e₂ : Entry}

def State.Returned (s : State) (e : Entry) : Prop :=
  ∃ task, s.tasks e.broadcast = some task ∧ task.call = .broadcast e.message ∧ task.pc = .returned

/-- In the run to `s` the first broadcast was called while the client was registered, and it had
returned when the second was called, which has returned in `s`. -/
def Successive (size : ℕ) (s : State) (c : ClientId) (e₁ e₂ : Entry) : Prop :=
  ∃ s₁ s₂, Reach (step size) {} s₁ ∧ c ∈ s₁.registry ∧ s₁.tasks e₁.broadcast = none ∧
    Reach (step size) s₁ s₂ ∧ s₂.Returned e₁ ∧ s₂.tasks e₂.broadcast = none ∧
    Reach (step size) s₂ s ∧ s.Returned e₂

lemma Took.enqueued_append (ht : Took size s a s') (c : ClientId) :
    s.enqueued c <+: s'.enqueued c := by
  cases ht with
  | @enqueues t task d rest _ _ _ =>
    by_cases hc : c = d
    · subst hc
      simp [State.enqueue, State.goOn]
    · simp [State.enqueue, State.goOn, hc]
  | @moves t task pc keeps _ _ => cases keeps <;> exact List.prefix_rfl
  | _ => exact List.prefix_rfl

lemma enqueued_append (h : Reach (step size) s s') (c : ClientId) :
    s.enqueued c <+: s'.enqueued c :=
  h.invariant (I := fun t => s.enqueued c <+: t.enqueued c) List.prefix_rfl
    fun _ _ _ hi _ hstep => hi.trans ((took_of_step hstep).enqueued_append c)

lemma Took.looks (ht : Took size s a s') {task : Task} (htask : s'.tasks a.task = some task)
    {message : String} (hcall : task.call = .broadcast message) :
    task.pc.Early ∨ task.snapshot = s.registry ∨
      ∃ old, s.tasks a.task = some old ∧ old.call = task.call ∧ ¬ old.pc.Early ∧
        task.snapshot = old.snapshot := by
  cases ht with
  | starts act _ _ =>
    subst act
    obtain rfl := actor_eq rfl htask
    simp only at hcall
    subst hcall
    exact .inl (.inl rfl)
  | parks hs _ _ =>
    by_cases hearly : task.pc.Early
    · exact .inl hearly
    · exact .inr (.inr ⟨task, htask, rfl, hearly, rfl⟩)
  | @takes t old pc hs _ hl =>
    obtain rfl := actor_eq hs.actor htask
    by_cases hearly : old.pc.Early
    · generalize hold : old.pc = pc₀ at hl
      cases hl <;> simp_all [Pc.Early]
    · exact .inr (.inr ⟨old, hs.actor ▸ hs.found, rfl, hearly, rfl⟩)
  | snaps hs _ =>
    obtain rfl := actor_eq hs.actor htask
    exact .inr (.inl rfl)
  | @moves t old pc keeps hs hm =>
    have hearly : ¬ old.pc.Early := by
      generalize old.pc = pc₀ at hm
      cases hm <;> simp [Pc.Early]
    cases keeps <;> obtain rfl := actor_eq hs.actor htask <;>
      exact .inr (.inr ⟨old, hs.actor ▸ hs.found, rfl, hearly, rfl⟩)
  | @waits t old c rest hs hpc _ _ | @enqueues t old c rest hs hpc _ =>
    obtain rfl := actor_eq hs.actor htask
    have hearly : ¬ old.pc.Early := by rcases hpc with hpc | hpc <;> simp [Pc.Early, hpc]
    exact .inr (.inr ⟨old, hs.actor ▸ hs.found, rfl, hearly, rfl⟩)
  | @registers t old hs hpc | @pops t old hs hpc | @finds t old c rest hs hpc _
  | @drops t old c rest hs hpc | @passes t old c rest hs hpc _ | @dequeues t old e queue hs hpc _
  | @sends t old e delivered ok hs hpc _ =>
    obtain rfl := actor_eq hs.actor htask
    exact .inr (.inr ⟨old, hs.actor ▸ hs.found, rfl, by simp [Pc.Early, hpc], rfl⟩)

/-- The broadcast has still to look at the registry, or the client is in what it has seen. -/
def State.Sees (s : State) (b : TaskId) (c : ClientId) : Prop :=
  ∀ task message, s.tasks b = some task → task.call = .broadcast message →
    task.pc.Early ∨ c ∈ task.snapshot

lemma sees_of_took (hc : c ∈ s.registry) (h : s.Sees b c) (ht : Took size s a s') :
    s'.Sees b c := by
  intro task message htask hcall
  by_cases hne : b = a.task
  · subst hne
    rcases ht.looks htask hcall with hearly | hsnap | ⟨old, hold, hsame, hpc, hsnap⟩
    · exact .inl hearly
    · exact .inr (hsnap ▸ hc)
    · rcases h old message hold (hsame.trans hcall) with hearly | hin
      · exact absurd hearly hpc
      · exact .inr (hsnap ▸ hin)
  · exact h task message ((ht.tasks_ne hne).symm.trans htask) hcall

lemma gone_or_sees (hi : QueueInv size s) (hc : c ∈ s.registry) (hb : s.tasks b = none)
    (h : Reach (step size) s s') : s'.Gone c ∨ c ∈ s'.registry ∧ s'.Sees b c := by
  refine h.invariant_with (J := QueueInv size) (fun t ht => hi.reach ht)
    (I := fun t => t.Gone c ∨ c ∈ t.registry ∧ t.Sees b c) ?_ ?_
  · exact .inr ⟨hc, fun task message htask _ => by simp [hb] at htask⟩
  · intro s a s' hi hkept _ hstep
    have ht := took_of_step hstep
    rcases hkept with hgone | ⟨hreg, hsees⟩
    · exact .inl (ht.gone hgone)
    · by_cases hreg' : c ∈ s'.registry
      · exact .inr ⟨hreg', sees_of_took hreg hsees ht⟩
      · exact .inl ⟨ht.past (hi.registered c hreg), hreg'⟩

lemma entriesOf_returned (hi : QueueInv size s) {task : Task}
    (htask : s.tasks e.broadcast = some task) (hcall : task.call = .broadcast e.message)
    (hpc : task.pc = .returned) (hc : c ∈ task.snapshot) :
    s.entriesOf e.broadcast c = [e] ∨ c ∉ s.registry := by
  have hacc := hi.accounts _ _ htask
  have hcovers : task.results.map Prod.fst = task.snapshot := by
    simpa [hpc, Pc.pending] using hacc.covers (by simp [hpc])
  have hmessage : task.message = e.message := by simp [Task.message, hcall]
  obtain ⟨⟨d, ok⟩, hmem, rfl⟩ := List.mem_map.mp (hcovers ▸ hc)
  cases ok with
  | false =>
    rcases hacc.skipped d hmem with hreg | hrem
    · exact .inr hreg
    · simp [Pc.Removing, hpc] at hrem
  | true =>
    have hnodup : task.results.Nodup := by
      have := hacc.distinct
      rw [← hcovers] at this
      exact this.of_map
    have honce : task.results.count (d, true) = 1 := List.count_eq_one_of_mem hnodup hmem
    refine .inl ?_
    rw [hacc.entries d, honce, hmessage]
    rfl

lemma entriesOf_length_le_one (hi : QueueInv size s) (b : TaskId) (c : ClientId) :
    (s.entriesOf b c).length ≤ 1 := by
  cases htask : s.tasks b with
  | none => simp [hi.silent b c htask]
  | some task =>
    have hacc := hi.accounts b task htask
    have hnodup : (task.results.map Prod.fst).Nodup := hacc.begins.sublist.nodup hacc.distinct
    rw [hacc.entries c, List.length_replicate]
    exact List.nodup_iff_count_le_one.mp hnodup.of_map _

lemma enqueued_nodup (hi : QueueInv size s) (c : ClientId) : (s.enqueued c).Nodup := by
  refine List.nodup_iff_count_le_one.mpr fun e => ?_
  have hle := entriesOf_length_le_one hi e.broadcast c
  have hcount : (s.enqueued c).count e ≤ (s.entriesOf e.broadcast c).length := by
    rw [State.entriesOf, ← List.countP_eq_length_filter, List.count]
    exact List.countP_mono_left fun x _ hx => by simp_all
  omega

lemma gone_reach (hg : s.Gone c) (h : Reach (step size) s s') : s'.Gone c :=
  h.invariant (I := fun t => t.Gone c) hg fun _ _ _ hi _ hstep => (took_of_step hstep).gone hi

lemma enqueued_of_registered (hi : QueueInv size s) (hc : c ∈ s.registry)
    (hb : s.tasks e.broadcast = none) (h : Reach (step size) s s') (hreturned : s'.Returned e)
    (hc' : c ∈ s'.registry) : s'.entriesOf e.broadcast c = [e] := by
  obtain ⟨task, htask, hcall, hpc⟩ := hreturned
  rcases gone_or_sees hi hc hb h with hgone | ⟨_, hsees⟩
  · exact absurd hc' hgone.2
  · have hin : c ∈ task.snapshot := by
      simpa [Pc.Early, hpc] using hsees task e.message htask hcall
    rcases entriesOf_returned (hi.reach h) htask hcall hpc hin with hone | hout
    · exact hone
    · exact absurd hc' hout

lemma mem_entriesOf {x : Entry} :
    x ∈ s.entriesOf b c ↔ x ∈ s.enqueued c ∧ x.broadcast = b := by
  simp [State.entriesOf]

lemma successive_enqueued (h : Successive size s c e₁ e₂) (hc : c ∈ s.registry) :
    [e₁, e₂].Sublist (s.enqueued c) ∧ s.entriesOf e₁.broadcast c = [e₁] ∧
      s.entriesOf e₂.broadcast c = [e₂] := by
  obtain ⟨s₁, s₂, h₁, hc₁, hb₁, h₁₂, hreturned₁, hb₂, h₂, hreturned₂⟩ := h
  have hi₁ := queueInv_of_reach h₁
  have hi₂ := hi₁.reach h₁₂
  have hc₂ : c ∈ s₂.registry := by
    rcases gone_or_sees hi₁ hc₁ hb₁ h₁₂ with hgone | ⟨hreg, _⟩
    · exact absurd hc (gone_reach hgone h₂).2
    · exact hreg
  have hone₁ := enqueued_of_registered hi₁ hc₁ hb₁ h₁₂ hreturned₁ hc₂
  have hone₂ := enqueued_of_registered hi₂ hc₂ hb₂ h₂ hreturned₂ hc
  have hfirst : e₁ ∈ s₂.enqueued c := by
    have : e₁ ∈ s₂.entriesOf e₁.broadcast c := by simp [hone₁]
    exact (mem_entriesOf.mp this).1
  have hlast : e₂ ∈ s.enqueued c := by
    have : e₂ ∈ s.entriesOf e₂.broadcast c := by simp [hone₂]
    exact (mem_entriesOf.mp this).1
  have hnotyet : e₂ ∉ s₂.enqueued c := by
    intro hin
    have : e₂ ∈ s₂.entriesOf e₂.broadcast c := mem_entriesOf.mpr ⟨hin, rfl⟩
    simp [hi₂.silent _ c hb₂] at this
  obtain ⟨later, hlater⟩ := enqueued_append h₂ c
  refine ⟨?_, ?_, hone₂⟩
  · have hin : e₂ ∈ later := by
      rw [← hlater] at hlast
      exact (List.mem_append.mp hlast).resolve_left hnotyet
    rw [← hlater]
    exact (List.singleton_sublist.mpr hfirst).append (List.singleton_sublist.mpr hin)
  · have hle := entriesOf_length_le_one (hi₂.reach h₂) e₁.broadcast c
    have hin : e₁ ∈ s.entriesOf e₁.broadcast c := by
      refine mem_entriesOf.mpr ⟨?_, rfl⟩
      rw [← hlater]
      exact List.mem_append_left _ hfirst
    obtain ⟨x, hx⟩ := List.length_eq_one_iff.mp (le_antisymm hle (List.length_pos_of_mem hin))
    simp_all

/-- Queues stay within their size and nobody waits for room; a socket receives what was put into its
queue, in that order and each message once; whoever would miss a message is unregistered, so two
broadcasts that follow each other are both there, in their order. -/
theorem broadcasts_in_order (hsize : 0 < size) (h : Reach (step size) {} s) :
    (∀ c, (s.queue c).length ≤ size) ∧
    (∀ t task c rest, s.tasks t = some task → task.pc ≠ .putting c rest) ∧
    (∀ c, s.sent c <+: s.enqueued c ∧ (s.enqueued c).Nodup) ∧
    (∀ e task, s.tasks e.broadcast = some task → s.Returned e → ∀ c ∈ task.snapshot,
      s.entriesOf e.broadcast c = [e] ∨ c ∉ s.registry) ∧
    ∀ c e₁ e₂, Successive size s c e₁ e₂ → c ∈ s.registry →
      [e₁, e₂].Sublist (s.enqueued c) ∧ s.entriesOf e₁.broadcast c = [e₁] ∧
        s.entriesOf e₂.broadcast c = [e₂] := by
  have hi := queueInv_of_reach h
  refine ⟨hi.bounded hsize, ?_, ?_, ?_, fun c e₁ e₂ => successive_enqueued⟩
  · intro t task c rest htask hpc
    have hsound := hi.sound t task htask
    simp [Task.Sound, hpc] at hsound
  · exact fun c => ⟨(hi.fifo c).sent_enqueued, enqueued_nodup hi c⟩
  · rintro e task htask ⟨task', htask', hcall, hpc⟩ c hc
    obtain rfl := Option.some.inj (htask.symm.trans htask')
    exact entriesOf_returned hi htask hcall hpc hc

/-- A queue of one place, and a socket that receives the first message before the second one is
put. -/
theorem broadcasts_in_order_onePlace :
    ∃ s, Successive 1 s 0 ⟨1, "a"⟩ ⟨2, "b"⟩ ∧ s.sent 0 = [⟨1, "a"⟩] ∧
      (s.queue 0).length ≤ 1 ∧ [⟨1, "a"⟩, ⟨2, "b"⟩].Sublist (s.enqueued 0) := by
  have hrun : ∃ s₁, exec (step 1) {} (connects 0) = some s₁ ∧ 0 ∈ s₁.registry ∧
      s₁.tasks 1 = none ∧ ∃ s₂,
      exec (step 1) s₁ (broadcasts 1 "a" ++ [.run 0, .run 0, .sent 0, .run 0]) = some s₂ ∧
      s₂.Returned ⟨1, "a"⟩ ∧ s₂.tasks 2 = none ∧ ∃ s, exec (step 1) s₂ (broadcasts 2 "b") = some s ∧
      s.Returned ⟨2, "b"⟩ ∧ 0 ∈ s.registry ∧ s.sent 0 = [⟨1, "a"⟩] :=
    ⟨_, rfl, by decide, rfl, _, rfl, ⟨_, rfl, rfl, rfl⟩, rfl, _, rfl, ⟨_, rfl, rfl, rfl⟩, by decide,
      rfl⟩
  obtain ⟨s₁, h₁, hc₁, hb₁, s₂, h₂, hreturned₁, hb₂, s, h₃, hreturned₂, hc, hsent⟩ := hrun
  have hr₁ := reach_of_exec _ h₁
  have hr₂ := reach_of_exec _ h₂
  have hr₃ := reach_of_exec _ h₃
  have hsucc : Successive 1 s 0 ⟨1, "a"⟩ ⟨2, "b"⟩ :=
    ⟨s₁, s₂, hr₁, hc₁, hb₁, hr₂, hreturned₁, hb₂, hr₃, hreturned₂⟩
  obtain ⟨hbound, _, _, _, horder⟩ :=
    broadcasts_in_order Nat.one_pos ((hr₁.trans hr₂).trans hr₃)
  exact ⟨s, hsucc, hsent, hbound 0, (horder 0 _ _ hsucc hc).1⟩

end AsyncDataHub.WebSocket
