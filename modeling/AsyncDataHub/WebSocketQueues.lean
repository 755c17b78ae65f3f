import AsyncDataHub.WebSocketLoop

/-! What the queues and the registry owe to the broadcasts: every entry of a queue comes from a
result of its broadcast, every result from the broadcast's snapshot. -/
namespace AsyncDataHub.WebSocket
open StepSystem

variable {size : ℕ} {s s' : State} {a : Action} {t u : TaskId} {task task' : Task} {pc pc' : Pc}
  {b c : ClientId}

def Pc.pending : Pc → List ClientId
  | .loop rest | .dropLock _ rest | .drop _ rest | .closing _ rest | .hung _ rest => rest
  | .put c rest | .putting c rest => c :: rest
  | _ => []

def Pc.Early (pc : Pc) : Prop := pc = .snapshotLock ∨ pc = .snapshot

def Pc.Connecting (pc : Pc) : Prop := pc = .accepting ∨ pc = .registerLock ∨ pc = .register

/-- A broadcast that has found a client's queue full and not yet removed the client. -/
def Pc.Removing (c : ClientId) : Pc → Prop
  | .dropLock d _ | .drop d _ => d = c
  | _ => False

def State.entriesOf (s : State) (b : TaskId) (c : ClientId) : List Entry :=
  (s.enqueued c).filter (·.broadcast = b)

def State.Past (s : State) (c : ClientId) : Prop :=
  ∃ task, s.tasks c = some task ∧ ¬ task.pc.Connecting

/-- The client is not in the registry and cannot come back to it. -/
def State.Gone (s : State) (c : ClientId) : Prop := s.Past c ∧ c ∉ s.registry

/-- A task's results begin its snapshot, and they are what it has put into the queues. -/
structure Task.Accounts (s : State) (t : TaskId) (task : Task) : Prop where
  begins : task.results.map Prod.fst <+: task.snapshot
  covers : task.pc ≠ .raised → task.results.map Prod.fst ++ task.pc.pending = task.snapshot
  early : task.pc.Early → task.results = []
  distinct : task.snapshot.Nodup
  past : ∀ c ∈ task.snapshot, s.Past c
  entries : ∀ c, s.entriesOf t c = List.replicate (task.results.count (c, true)) ⟨t, task.message⟩
  skipped : ∀ c, (c, false) ∈ task.results → c ∉ s.registry ∨ task.pc.Removing c

/-- A client's queue and its socket's share of what has been put into the queue: an exception while
an entry is sent may lose that entry. -/
def Fifo (pc : Option Pc) (enqueued sent queue : List Entry) : Prop :=
  match pc with
  | some (.sending e) => enqueued = sent ++ e :: queue
  | some .popLock | some .pop | some .ended => ∃ lost, enqueued = sent ++ (lost ++ queue)
  | _ => enqueued = sent ++ queue

structure QueueInv (size : ℕ) (s : State) : Prop extends LoopInv size s where
  accounts : ∀ t task, s.tasks t = some task → task.Accounts s t
  silent : ∀ b c, s.tasks b = none → s.entriesOf b c = []
  registered : ∀ c ∈ s.registry, s.Past c
  distinct : s.registry.Nodup
  fifo : ∀ c, Fifo ((s.tasks c).map Task.pc) (s.enqueued c) (s.sent c) (s.queue c)
  bounded : 0 < size → ∀ c, (s.queue c).length ≤ size

lemma entriesOf_congr (h : s'.enqueued = s.enqueued) (b : TaskId) (c : ClientId) :
    s'.entriesOf b c = s.entriesOf b c := by simp [State.entriesOf, h]

lemma Took.tasks_ne (ht : Took size s a s') (hne : u ≠ a.task) : s'.tasks u = s.tasks u := by
  cases ht with
  | starts act _ _ =>
    subst act
    exact Function.update_of_ne hne _ _
  | parks _ _ _ => rfl
  | @moves t task pc keeps hs _ =>
    obtain rfl := hs.actor
    cases keeps <;> exact Function.update_of_ne hne _ _
  | _ =>
    rename Steps s a _ _ => hs
    obtain rfl := hs.actor
    exact Function.update_of_ne hne _ _

lemma actor_eq {tasks : TaskId → Option Task} (hactor : a.task = t)
    (h : Function.update tasks t (some task') a.task = some task) : task' = task := by
  rw [hactor, Function.update_self] at h
  exact Option.some.inj h

lemma Took.entriesOf_ne (ht : Took size s a s') (hne : b ≠ a.task) (c : ClientId) :
    s'.entriesOf b c = s.entriesOf b c := by
  cases ht with
  | @enqueues t task d rest hs _ _ =>
    have hactor := hs.actor
    by_cases hcd : c = d
    · subst hcd
      have hbt : ¬ t = b := fun h => hne (h ▸ hactor.symm)
      simp [State.entriesOf, State.enqueue, State.goOn, hbt]
    · simp [State.entriesOf, State.enqueue, State.goOn, hcd]
  | @moves t task pc keeps _ _ => cases keeps <;> rfl
  | _ => rfl

lemma not_connecting_of_locks (h : Locks pc pc') (hp : ¬ pc.Connecting) : ¬ pc'.Connecting := by
  cases h <;> simp_all [Pc.Connecting]

lemma not_connecting_of_moves {keeps : Bool} (h : Moves a pc pc' keeps) (hp : ¬ pc.Connecting) :
    ¬ pc'.Connecting := by
  cases h <;> simp_all [Pc.Connecting]

lemma Took.past (ht : Took size s a s') (hp : s.Past c) : s'.Past c := by
  obtain ⟨task, hc, hpast⟩ := hp
  by_cases hne : c = a.task
  · cases ht with
    | starts act _ fresh =>
      subst act hne
      simp [hc] at fresh
    | takes hs _ hl =>
      obtain rfl := hne.trans hs.actor
      obtain rfl := Option.some.inj (hc.symm.trans hs.found)
      exact ⟨_, Function.update_self .., not_connecting_of_locks hl hpast⟩
    | parks _ _ _ => exact ⟨task, hc, hpast⟩
    | @sends t task e delivered ok hs _ _ =>
      obtain rfl := hne.trans hs.actor
      exact ⟨_, Function.update_self .., by cases ok <;> simp [Pc.Connecting]⟩
    | @moves t task pc keeps hs hm =>
      obtain rfl := hne.trans hs.actor
      obtain rfl := Option.some.inj (hc.symm.trans hs.found)
      have hpast' := not_connecting_of_moves hm hpast
      cases keeps <;> exact ⟨_, Function.update_self .., hpast'⟩
    | _ =>
      rename Steps s a _ _ => hs
      obtain rfl := hne.trans hs.actor
      exact ⟨_, Function.update_self .., by simp [Pc.Connecting]⟩
  · exact ⟨task, (ht.tasks_ne hne).trans hc, hpast⟩

lemma Took.registry (ht : Took size s a s') (hc : c ∈ s'.registry) :
    c ∈ s.registry ∨ c = a.task ∧ ¬ s.Past c ∧ s'.Past c := by
  cases ht with
  | @registers t task hs hpc =>
    have hin : c ∈ s.registry ∨ c = t := by
      simp only [WebSocket.register] at hc
      split_ifs at hc with hreg
      · exact .inl hc
      · simpa using hc
    rcases hin with hin | rfl
    · exact .inl hin
    · refine .inr ⟨hs.actor.symm, ?_, _, Function.update_self .., by simp [Pc.Connecting]⟩
      rintro ⟨task', hc', hpast⟩
      obtain rfl := Option.some.inj (hs.found.symm.trans hc')
      simp [Pc.Connecting, hpc] at hpast
  | pops _ _ => exact .inl (List.mem_of_mem_erase hc)
  | drops _ _ => exact .inl (List.mem_of_mem_erase hc)
  | @moves t task pc keeps _ _ => cases keeps <;> exact .inl hc
  | _ => exact .inl hc

lemma Took.gone (ht : Took size s a s') (hg : s.Gone c) : s'.Gone c := by
  refine ⟨ht.past hg.1, fun hc => ?_⟩
  rcases ht.registry hc with hc | ⟨_, hnew, _⟩
  · exact hg.2 hc
  · exact hnew hg.1

lemma Took.registry_nodup (ht : Took size s a s') (h : s.registry.Nodup) : s'.registry.Nodup := by
  cases ht with
  | registers _ _ =>
    simp only [WebSocket.register]
    split_ifs with hreg
    · exact h
    · simpa using h.concat hreg
  | pops _ _ => exact h.erase _
  | drops _ _ => exact h.erase _
  | @moves t task pc keeps _ _ => cases keeps <;> exact h
  | _ => exact h

lemma Task.Accounts.frame (h : task.Accounts s u) (ht : Took size s a s') (hne : u ≠ a.task) :
    task.Accounts s' u := by
  refine ⟨h.begins, h.covers, h.early, h.distinct, fun c hc => ht.past (h.past c hc), ?_, ?_⟩
  · intro c
    rw [ht.entriesOf_ne hne]
    exact h.entries c
  · intro c hc
    have hin : c ∈ task.snapshot := h.begins.subset (List.mem_map_of_mem hc)
    rcases h.skipped c hc with hreg | hrem
    · exact .inl (ht.gone ⟨h.past c hin, hreg⟩).2
    · exact .inr hrem

lemma Task.Accounts.place (h : task.Accounts s t) (ht : Took size s a s')
    (henq : s'.enqueued = s.enqueued) (hpend : pc' ≠ .raised →
      task.pc ≠ .raised ∧ pc'.pending = task.pc.pending) (hearly : pc'.Early → task.pc.Early)
    (hrem : ∀ c, task.pc.Removing c → c ∉ s'.registry ∨ pc'.Removing c) :
    Task.Accounts s' t { task with pc := pc' } := by
  refine ⟨h.begins, fun hpc => ?_, fun he => h.early (hearly he), h.distinct,
    fun c hc => ht.past (h.past c hc), fun c => ?_, fun c hc => ?_⟩
  · obtain ⟨hold, hsame⟩ := hpend hpc
    rw [hsame]
    exact h.covers hold
  · rw [entriesOf_congr henq]
    exact h.entries c
  · have hin : c ∈ task.snapshot := h.begins.subset (List.mem_map_of_mem hc)
    rcases h.skipped c hc with hreg | hold
    · exact .inl (ht.gone ⟨h.past c hin, hreg⟩).2
    · exact hrem c hold

lemma accounts_of_start {call : Call} (hnew : ∀ c, s.entriesOf t c = []) :
    Task.Accounts s t { call, pc := call.firstPc } := by
  constructor
  case entries => simpa using hnew
  all_goals cases call <;> simp [Call.firstPc, Pc.pending]

lemma accounts_of_takes (h : task.Accounts s t) (ht : Took size s a s')
    (henq : s'.enqueued = s.enqueued) (hl : Locks task.pc pc) :
    Task.Accounts s' t { task with pc } := by
  generalize hold : task.pc = old at hl
  refine h.place ht henq (fun _ => ?_) (fun he => ?_) (fun c hc => .inr ?_)
  · cases hl <;> simp [hold, Pc.pending]
  · cases hl <;> simp_all [Pc.Early]
  · cases hl <;> simp_all [Pc.Removing]

lemma accounts_of_moves {keeps : Bool} (h : task.Accounts s t) (ht : Took size s a s')
    (henq : s'.enqueued = s.enqueued) (hm : Moves a task.pc pc keeps) :
    Task.Accounts s' t { task with pc } := by
  generalize hold : task.pc = old at hm
  refine h.place ht henq (fun hpc => ?_) (fun he => ?_) (fun c hc => ?_)
  · cases hm <;> simp_all [Pc.pending]
  · cases hm <;> simp [Pc.Early] at he
  · cases hm <;> simp [Pc.Removing, hold] at hc

lemma accounts_of_snaps (h : task.Accounts s t) (ht : Took size s a s')
    (henq : s'.enqueued = s.enqueued) (hpc : task.pc = .snapshot)
    (hreg : ∀ c ∈ s.registry, s.Past c) (hnodup : s.registry.Nodup) :
    Task.Accounts s' t { task with pc := .loop s.registry, snapshot := s.registry } := by
  have hempty : task.results = [] := h.early (.inr hpc)
  have hentries : ∀ c, s'.entriesOf t c = [] := by
    intro c
    rw [entriesOf_congr henq]
    simpa [hempty] using h.entries c
  constructor
  case entries => simpa [hempty] using hentries
  case distinct => exact hnodup
  case past => exact fun c hc => ht.past (hreg c hc)
  all_goals simp [hempty, Pc.pending]

lemma accounts_of_finds {rest : List ClientId} (h : task.Accounts s t)
    (ht : Took size s a s') (henq : s'.enqueued = s.enqueued) (hpc : task.pc = .loop (c :: rest)) :
    Task.Accounts s' t
      { task with pc := .dropLock c rest, results := task.results ++ [(c, false)] } := by
  have hcovers : task.results.map Prod.fst ++ c :: rest = task.snapshot := by
    simpa [hpc, Pc.pending] using h.covers (by simp [hpc])
  constructor
  case begins => exact ⟨rest, by simpa using hcovers⟩
  case covers => exact fun _ => by simpa [Pc.pending] using hcovers
  case early => simp [Pc.Early]
  case distinct => exact h.distinct
  case past => exact fun d hd => ht.past (h.past d hd)
  case entries =>
    intro d
    rw [entriesOf_congr henq, h.entries d, List.count_append]
    simp only [List.count_singleton, Prod.mk.injEq, reduceCtorEq, and_false, beq_iff_eq,
      if_false, Nat.add_zero]
    rfl
  case skipped =>
    intro d hd
    rcases List.mem_append.mp hd with hd | hd
    · have hin : d ∈ task.snapshot := h.begins.subset (List.mem_map_of_mem hd)
      rcases h.skipped d hd with hreg | hrem
      · exact .inl (ht.gone ⟨h.past d hin, hreg⟩).2
      · simp [Pc.Removing, hpc] at hrem
    · simp only [List.mem_singleton, Prod.mk.injEq, and_true] at hd
      exact .inr hd.symm

lemma accounts_of_enqueues {rest : List ClientId} (h : task.Accounts s t)
    (ht : Took size s a s') (hpc : task.pc = .put c rest)
    (henq : ∀ d, s'.enqueued d =
      if d = c then s.enqueued c ++ [⟨t, task.message⟩] else s.enqueued d) :
    Task.Accounts s' t { task with pc := .loop rest, results := task.results ++ [(c, true)] } := by
  have hcovers : task.results.map Prod.fst ++ c :: rest = task.snapshot := by
    simpa [hpc, Pc.pending] using h.covers (by simp [hpc])
  constructor
  case begins => exact ⟨rest, by simpa using hcovers⟩
  case covers => exact fun _ => by simpa [Pc.pending] using hcovers
  case early => simp [Pc.Early]
  case distinct => exact h.distinct
  case past => exact fun d hd => ht.past (h.past d hd)
  case entries =>
    intro d
    have hold := h.entries d
    unfold State.entriesOf at hold ⊢
    change _ = List.replicate ((task.results ++ [(c, true)]).count (d, true))
      (Entry.mk t task.message)
    by_cases hd : d = c
    · subst hd
      simp [henq, hold, List.count_append, List.replicate_succ']
    · have hdc : ¬ c = d := fun hcd => hd hcd.symm
      simpa [henq, hd, hdc, List.count_append] using hold
  case skipped =>
    intro d hd
    have hd : (d, false) ∈ task.results := by simpa using hd
    have hin : d ∈ task.snapshot := h.begins.subset (List.mem_map_of_mem hd)
    rcases h.skipped d hd with hreg | hrem
    · exact .inl (ht.gone ⟨h.past d hin, hreg⟩).2
    · simp [Pc.Removing, hpc] at hrem

lemma Took.tasks_actor (ht : Took size s a s') : s'.tasks a.task ≠ none := by
  cases ht with
  | starts act _ _ =>
    subst act
    simp [State.suspend, Action.task]
  | parks hs _ _ =>
    have hfound := hs.found
    rw [← hs.actor] at hfound
    simp [hfound]
  | @moves t task pc keeps hs _ =>
    obtain rfl := hs.actor
    cases keeps <;> simp [State.place, State.goOn, State.suspend]
  | _ =>
    rename Steps s a _ _ => hs
    obtain rfl := hs.actor
    simp [State.goOn, State.suspend, State.enqueue, WebSocket.register]

lemma accounts_update (h : QueueInv size s) (ht : Took size s a s') (hactor : a.task = t)
    (htasks : s'.tasks = Function.update s.tasks t (some task')) (hnew : task'.Accounts s' t) :
    ∀ u task, s'.tasks u = some task → task.Accounts s' u := by
  intro u task hu
  rw [htasks] at hu
  rcases update_eq_some.mp hu with ⟨rfl, rfl⟩ | ⟨hne, hu⟩
  · exact hnew
  · exact (h.accounts u task hu).frame ht (hactor ▸ hne)

theorem accounts_of_took (h : QueueInv size s) (ht : Took size s a s') :
    ∀ u task, s'.tasks u = some task → task.Accounts s' u := by
  have htook := ht
  cases ht with
  | starts act _ fresh =>
    subst act
    exact accounts_update h htook rfl rfl (accounts_of_start fun c => h.silent _ c fresh)
  | @parks t task hs _ _ =>
    have hsame : s.tasks = Function.update s.tasks t (some task) :=
      (Function.update_eq_self_iff.mpr hs.found.symm).symm
    refine accounts_update h htook hs.actor hsame ?_
    exact (h.accounts t task hs.found).place htook rfl (fun hpc => ⟨hpc, rfl⟩) id fun _ => .inr
  | takes hs _ hl =>
    exact accounts_update h htook hs.actor rfl
      (accounts_of_takes (h.accounts _ _ hs.found) htook rfl hl)
  | registers hs hpc | pops hs hpc | passes hs hpc _ | dequeues hs hpc _ =>
    refine accounts_update h htook hs.actor rfl ((h.accounts _ _ hs.found).place htook rfl ?_ ?_ ?_)
    · simp [hpc, Pc.pending]
    · simp [Pc.Early]
    · simp [hpc, Pc.Removing]
  | snaps hs hpc =>
    exact accounts_update h htook hs.actor rfl
      (accounts_of_snaps (h.accounts _ _ hs.found) htook rfl hpc h.registered h.distinct)
  | finds hs hpc _ =>
    exact accounts_update h htook hs.actor rfl
      (accounts_of_finds (h.accounts _ _ hs.found) htook rfl hpc)
  | @drops t task c rest hs hpc =>
    refine accounts_update h htook hs.actor rfl ((h.accounts _ _ hs.found).place htook rfl ?_ ?_ ?_)
    · simp [hpc, Pc.pending]
    · simp [Pc.Early]
    · intro d hd
      simp only [hpc, Pc.Removing] at hd
      subst hd
      exact .inl h.distinct.not_mem_erase
  | waits hs hpc hfull _ =>
    have hsound := h.sound _ _ hs.found
    rcases hpc with hpc | hpc <;> simp [Task.Sound, hpc, hfull] at hsound
  | @enqueues t task c rest hs hpc hroom =>
    have hput : task.pc = .put c rest := by
      rcases hpc with hpc | hpc
      · exact hpc
      · have hsound := h.sound t task hs.found
        simp [Task.Sound, hpc] at hsound
    refine accounts_update h htook hs.actor rfl
      (accounts_of_enqueues (h.accounts _ _ hs.found) htook hput fun d => ?_)
    simp [State.enqueue, State.goOn, Function.update_apply]
  | @sends t task e delivered ok hs hpc _ =>
    refine accounts_update h htook hs.actor rfl ((h.accounts _ _ hs.found).place htook rfl ?_ ?_ ?_)
    · cases ok <;> simp [hpc, Pc.pending]
    · cases ok <;> simp [Pc.Early]
    · simp [hpc, Pc.Removing]
  | @moves t task pc keeps hs hm =>
    have hacc := h.accounts t task hs.found
    cases keeps <;>
      exact accounts_update h htook hs.actor rfl (accounts_of_moves hacc htook rfl hm)

lemma fifo_update (h : ∀ c, Fifo ((s.tasks c).map Task.pc) (s.enqueued c) (s.sent c) (s.queue c))
    (htasks : s'.tasks = Function.update s.tasks t (some task'))
    (hnew : Fifo (some task'.pc) (s'.enqueued t) (s'.sent t) (s'.queue t))
    (hsame : ∀ c, c ≠ t → s'.enqueued c = s.enqueued c ∧ s'.sent c = s.sent c ∧
      s'.queue c = s.queue c) :
    ∀ c, Fifo ((s'.tasks c).map Task.pc) (s'.enqueued c) (s'.sent c) (s'.queue c) := by
  intro c
  by_cases hc : c = t
  · subst hc
    simpa [htasks] using hnew
  · obtain ⟨he, hs, hq⟩ := hsame c hc
    simpa [htasks, hc, he, hs, hq] using h c

variable {enqueued sent queue : List Entry}

lemma Fifo.sent_enqueued {pc : Option Pc} (h : Fifo pc enqueued sent queue) :
    sent <+: enqueued := by
  unfold Fifo at h
  split at h
  · exact ⟨_, h.symm⟩
  · obtain ⟨lost, h⟩ := h
    exact ⟨_, h.symm⟩
  · obtain ⟨lost, h⟩ := h
    exact ⟨_, h.symm⟩
  · obtain ⟨lost, h⟩ := h
    exact ⟨_, h.symm⟩
  · exact ⟨_, h.symm⟩

lemma Fifo.concat {pc : Option Pc} (e : Entry) (h : Fifo pc enqueued sent queue) :
    Fifo pc (enqueued ++ [e]) sent (queue ++ [e]) := by
  unfold Fifo at h ⊢
  split at h <;> first
    | simp [h]
    | (obtain ⟨lost, h⟩ := h
       exact ⟨lost, by simp [h]⟩)

lemma fifo_of_locks (hl : Locks pc pc') (h : Fifo (some pc) enqueued sent queue) :
    Fifo (some pc') enqueued sent queue := by
  cases hl <;> exact h

lemma fifo_of_moves {keeps : Bool} (hm : Moves a pc pc' keeps)
    (h : Fifo (some pc) enqueued sent queue) : Fifo (some pc') enqueued sent queue := by
  cases hm <;> first | exact h | exact ⟨[], h⟩

lemma fifo_enqueue {e : Entry}
    (h : ∀ c, Fifo ((s.tasks c).map Task.pc) (s.enqueued c) (s.sent c) (s.queue c)) :
    ∀ d, Fifo (((s.enqueue c e).tasks d).map Task.pc) ((s.enqueue c e).enqueued d)
      ((s.enqueue c e).sent d) ((s.enqueue c e).queue d) := by
  intro d
  by_cases hd : d = c
  · subst hd
    simpa [State.enqueue] using (h d).concat e
  · simpa [State.enqueue, hd] using h d

theorem fifo_of_took (h : QueueInv size s) (ht : Took size s a s') :
    ∀ c, Fifo ((s'.tasks c).map Task.pc) (s'.enqueued c) (s'.sent c) (s'.queue c) := by
  cases ht with
  | @starts t call act hidle fresh =>
    have hold : s.enqueued t = s.sent t ++ s.queue t := by simpa [fresh, Fifo] using h.fifo t
    refine fifo_update h.fifo rfl ?_ fun _ _ => ⟨rfl, rfl, rfl⟩
    cases call with
    | disconnect client => exact ⟨[], hold⟩
    | _ => exact hold
  | parks _ _ _ => exact h.fifo
  | @takes t task pc hs _ hl =>
    have hold := h.fifo t
    rw [hs.found] at hold
    exact fifo_update h.fifo rfl (fifo_of_locks hl hold) fun _ _ => ⟨rfl, rfl, rfl⟩
  | @registers t task hs hpc | @snaps t task hs hpc | @finds t task c rest hs hpc _
  | @drops t task c rest hs hpc | @passes t task c rest hs hpc _ =>
    have hold : s.enqueued t = s.sent t ++ s.queue t := by
      simpa [hs.found, hpc, Fifo] using h.fifo t
    exact fifo_update h.fifo rfl hold fun _ _ => ⟨rfl, rfl, rfl⟩
  | @pops t task hs hpc =>
    have hold := h.fifo t
    simp only [hs.found, Option.map_some, hpc, Fifo] at hold
    exact fifo_update h.fifo rfl hold fun _ _ => ⟨rfl, rfl, rfl⟩
  | @waits t task c rest hs hpc hfull _ =>
    have hsound := h.sound t task hs.found
    rcases hpc with hpc | hpc <;> simp [Task.Sound, hpc, hfull] at hsound
  | @enqueues t task c rest hs hpc _ =>
    have hold : s.enqueued t = s.sent t ++ s.queue t := by
      have := h.fifo t
      rcases hpc with hpc | hpc <;> simpa [hs.found, hpc, Fifo] using this
    exact fifo_enqueue (fifo_update h.fifo rfl hold fun _ _ => ⟨rfl, rfl, rfl⟩)
  | @dequeues t task e queue hs hpc hhead =>
    have hold : s.enqueued t = s.sent t ++ s.queue t := by
      simpa [hs.found, hpc, Fifo] using h.fifo t
    refine fifo_update h.fifo rfl ?_ fun c hc => ⟨rfl, rfl, Function.update_of_ne hc _ _⟩
    simpa [Fifo, State.suspend, hhead] using hold
  | @sends t task e delivered ok hs hpc hsound =>
    have hold : s.enqueued t = s.sent t ++ e :: s.queue t := by
      simpa [hs.found, hpc, Fifo] using h.fifo t
    refine fifo_update h.fifo rfl ?_ fun c hc => ?_
    · cases ok with
      | true => simpa [Fifo, State.goOn, hsound rfl] using hold
      | false =>
        cases delivered with
        | true => exact ⟨[], by simpa [State.goOn] using hold⟩
        | false => exact ⟨[e], by simpa [State.goOn] using hold⟩
    · cases delivered <;> simp [State.goOn, hc]
  | @moves t task pc keeps hs hm =>
    have hold := h.fifo t
    rw [hs.found] at hold
    cases keeps <;>
      exact fifo_update h.fifo rfl (fifo_of_moves hm hold) fun _ _ => ⟨rfl, rfl, rfl⟩

lemma bounded_of_took (h : ∀ c, (s.queue c).length ≤ size) (hpos : 0 < size)
    (ht : Took size s a s') (c : ClientId) : (s'.queue c).length ≤ size := by
  cases ht with
  | @enqueues t task d rest _ _ hroom =>
    by_cases hc : c = d
    · subst hc
      have hlt : (s.queue c).length < size := by
        simpa [full, hpos] using hroom
      simpa [State.enqueue, State.goOn] using hlt
    · simpa [State.enqueue, State.goOn, hc] using h c
  | @dequeues t task e queue _ _ hhead =>
    by_cases hc : c = t
    · subst hc
      have hle := h c
      rw [hhead, List.length_cons] at hle
      simp only [Function.update_self]
      omega
    · simpa [State.suspend, hc] using h c
  | @moves t task pc keeps _ _ => cases keeps <;> exact h c
  | _ => exact h c

lemma queueInv_init : QueueInv size {} := by
  refine ⟨loopInv_init, ?_, ?_, ?_, ?_, ?_, ?_⟩ <;> simp [State.entriesOf, Fifo]

theorem QueueInv.step (h : QueueInv size s) (hstep : WebSocket.step size s a = some s') :
    QueueInv size s' := by
  have ht := took_of_step hstep
  refine ⟨h.toLoopInv.step hstep, accounts_of_took h ht, ?_, ?_, ht.registry_nodup h.distinct,
    fifo_of_took h ht, fun hpos => bounded_of_took (h.bounded hpos) hpos ht⟩
  · intro b c hb
    have hne : b ≠ a.task := fun hb' => ht.tasks_actor (hb' ▸ hb)
    rw [ht.entriesOf_ne hne]
    exact h.silent b c ((ht.tasks_ne hne).symm.trans hb)
  · intro c hc
    rcases ht.registry hc with hold | ⟨_, _, hpast⟩
    · exact ht.past (h.registered c hold)
    · exact hpast

lemma QueueInv.reach (hi : QueueInv size s) (h : Reach (WebSocket.step size) s s') :
    QueueInv size s' :=
  h.invariant hi fun _ _ _ hi _ hstep => hi.step hstep

theorem queueInv_of_reach (h : Reach (WebSocket.step size) {} s) : QueueInv size s :=
  queueInv_init.reach h

end AsyncDataHub.WebSocket
